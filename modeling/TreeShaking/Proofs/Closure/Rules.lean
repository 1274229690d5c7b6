import TreeShaking.Listener.Backend
import TreeShaking.Proofs.Run.Classes

/-!
# What a program needs

The rules by which resolution is meant to find what a program needs, stated as
an inductive predicate: `Needs` is the least set of facts that is closed under
them.  They mention neither a queue nor an order.

The runtime takes part in two ways: it needs some members from the start, and
further code when a class has instances or a function is torn off.  A listener
that *serves* the runtime asks for exactly this code, and for the closure class
only once.
-/

namespace TreeShaking

/-- What resolution finds out. -/
inductive Fact where
  | registered (use : Use)
  /-- A class has instances as a type. -/
  | implemented (cls : ClassId)
  /-- A class has instances of its own. -/
  | direct (cls : ClassId)
  /-- A class has instances, be it through a subclass. -/
  | instantiated (cls : ClassId)
  | applied (member : MemberId) (bit : UseBit)
  | processed (member : MemberId)
  | closurized (member : MemberId)
  | selector (selector : Selector)
  | isCheck (type : Ty)

/-- What resolution is asked. -/
structure Problem where
  program : Program
  options : Options
  support : RuntimeSupport
  /-- What the code of each member needs. -/
  impactOf : MemberId → Impact
  /-- What is needed to begin with. -/
  entry : Impact

/-- The need for the closure class. -/
def RuntimeSupport.closureImpact (support : RuntimeSupport) : Impact :=
  match support.closureClass with
  | some cls =>
      { types := [{ kind := .instantiation, type := .interface cls [] }] }
  | none => {}

/-- The least solution of the rules. -/
inductive Problem.Needs (problem : Problem) : Fact → Prop
  | entry {use : Use} (listed : use ∈ problem.entry.uses) :
      Needs problem (.registered use)
  | helper {member : MemberId} (listed : member ∈ problem.support.helpers) :
      Needs problem (.registered (.static ⟨.directUse, member, none⟩))
  /-- A member that is live and well-formed needs what its code needs. -/
  | body {member : MemberId} {use : Use}
      (processed : Needs problem (.processed member))
      (listed : use ∈ (problem.impactOf member).uses) :
      Needs problem (.registered use)
  /-- A class with instances needs its code in the runtime. -/
  | classImpact {cls : ClassId} {use : Use}
      (instantiated : Needs problem (.instantiated cls))
      (listed : use ∈ (problem.support.classImpacts.getD cls {}).uses) :
      Needs problem (.registered use)
  /-- A torn-off function needs the closure class. -/
  | closure {member : MemberId} {bit : UseBit} {use : Use}
      (applied : Needs problem (.applied member bit)) (isTearOff : bit ≠ .normal)
      (listed : use ∈ problem.support.closureImpact.uses) :
      Needs problem (.registered use)
  /-- An instantiation implements the class and its supertypes. -/
  | implemented {use : Use} {type : InterfaceType} {flags : InstantiationFlags}
      {above : ClassId} (registered : Needs problem (.registered use))
      (instantiates : use.instantiation? = some (type, flags))
      (isAbove : problem.program.HasSupertype type.cls above) :
      Needs problem (.implemented above)
  /-- An instantiation of a class that is not abstract, native, or created by
  native code or mirrors, creates instances of the class itself. -/
  | direct {use : Use} {type : InterfaceType} {flags : InstantiationFlags}
      (registered : Needs problem (.registered use))
      (instantiates : use.instantiation? = some (type, flags))
      (creates : problem.program.Creates type.cls flags) :
      Needs problem (.direct type.cls)
  /-- The superclasses of a class with instances have instances. -/
  | instantiated {cls above : ClassId} (direct : Needs problem (.direct cls))
      (isAbove : problem.program.HasSuperclass cls above) :
      Needs problem (.instantiated above)
  /-- A static use makes an access to its member. -/
  | static {use : StaticUse} {decl : MemberDecl} {access : Access} {bit : UseBit}
      (registered : Needs problem (.registered (.static use)))
      (declared : problem.program.member use.member = .ok decl)
      (accesses : use.kind.access? = some access)
      (grants : decl.grants access bit = true) :
      Needs problem (.applied use.member bit)
  /-- A dynamic use makes an access to the members that it reaches among those
  of the classes with instances. -/
  | dynamic {use : DynamicUse} {cls : ClassId} {member : MemberId}
      {decl : MemberDecl} {bit : UseBit}
      (registered : Needs problem (.registered (.dynamic use)))
      (instantiated : Needs problem (.instantiated cls))
      (provides : problem.program.Provides cls member decl)
      (reaches : use.Reaches problem.program none decl)
      (grants : decl.grants use.selector.kind.access bit = true) :
      Needs problem (.applied member bit)
  | processed {member : MemberId}
      (applied : Needs problem (.applied member .normal))
      (wellFormed : problem.program.isMalformed member = false) :
      Needs problem (.processed member)
  | closurized {member : MemberId}
      (applied : Needs problem (.applied member .closurizeInstance)) :
      Needs problem (.closurized member)
  | selector {use : DynamicUse}
      (registered : Needs problem (.registered (.dynamic use))) :
      Needs problem (.selector use.selector)
  | isCheck {use : TypeUse} {tested : Ty}
      (registered : Needs problem (.registered (.type use)))
      (isTest : use.kind.isTest problem.options = true)
      (unaliased : problem.program.unalias use.type = .ok tested) :
      Needs problem (.isCheck tested)

/-- A set of facts is closed under the rules, if the instances of certain classes
are the only receivers. -/
structure Problem.Closes (problem : Problem) (live : LiveClasses)
    (holds : Fact → Prop) : Prop where
  entry : ∀ {use}, use ∈ problem.entry.uses → holds (.registered use)
  helper : ∀ {member}, member ∈ problem.support.helpers →
    holds (.registered (.static ⟨.directUse, member, none⟩))
  body : ∀ {member use}, holds (.processed member) →
    use ∈ (problem.impactOf member).uses → holds (.registered use)
  classImpact : ∀ {cls use}, holds (.instantiated cls) →
    use ∈ (problem.support.classImpacts.getD cls {}).uses →
      holds (.registered use)
  closure : ∀ {member bit use}, holds (.applied member bit) → bit ≠ .normal →
    use ∈ problem.support.closureImpact.uses → holds (.registered use)
  implemented : ∀ {use type flags above}, holds (.registered use) →
    use.instantiation? = some (type, flags) →
      problem.program.HasSupertype type.cls above → holds (.implemented above)
  direct : ∀ {use type flags}, holds (.registered use) →
    use.instantiation? = some (type, flags) →
      problem.program.Creates type.cls flags → holds (.direct type.cls)
  instantiated : ∀ {cls above}, holds (.direct cls) →
    problem.program.HasSuperclass cls above → holds (.instantiated above)
  static : ∀ {use decl access bit}, holds (.registered (.static use)) →
    problem.program.member use.member = .ok decl →
      use.kind.access? = some access → decl.grants access bit = true →
        holds (.applied use.member bit)
  dynamic : ∀ {use cls member decl bit}, holds (.registered (.dynamic use)) →
    holds (.instantiated cls) → problem.program.Provides cls member decl →
      use.Reaches problem.program live decl →
        decl.grants use.selector.kind.access bit = true →
          holds (.applied member bit)
  processed : ∀ {member}, holds (.applied member .normal) →
    problem.program.isMalformed member = false → holds (.processed member)
  closurized : ∀ {member}, holds (.applied member .closurizeInstance) →
    holds (.closurized member)
  selector : ∀ {use : DynamicUse}, holds (.registered (.dynamic use)) →
    holds (.selector use.selector)
  isCheck : ∀ {use tested}, holds (.registered (.type use)) →
    use.kind.isTest problem.options = true →
      problem.program.unalias use.type = .ok tested → holds (.isCheck tested)

theorem Problem.closes_needs (problem : Problem) :
    problem.Closes none problem.Needs where
  entry := .entry
  helper := .helper
  body := .body
  classImpact := .classImpact
  closure := .closure
  implemented := .implemented
  direct := .direct
  instantiated := .instantiated
  static := .static
  dynamic := .dynamic
  processed := .processed
  closurized := .closurized
  selector := .selector
  isCheck := .isCheck

/-- What follows from the rules is in every set that is closed under them. -/
theorem Problem.Closes.of_needs {problem : Problem} {holds : Fact → Prop}
    (closes : problem.Closes none holds) {fact : Fact}
    (needed : problem.Needs fact) : holds fact := by
  induction needed with
  | entry listed => exact closes.entry listed
  | helper listed => exact closes.helper listed
  | body _ listed ih => exact closes.body ih listed
  | classImpact _ listed ih => exact closes.classImpact ih listed
  | closure _ isTearOff listed ih => exact closes.closure ih isTearOff listed
  | implemented _ instantiates isAbove ih =>
      exact closes.implemented ih instantiates isAbove
  | direct _ instantiates creates ih =>
      exact closes.direct ih instantiates creates
  | instantiated _ isAbove ih => exact closes.instantiated ih isAbove
  | static _ declared accesses grants ih =>
      exact closes.static ih declared accesses grants
  | dynamic _ _ provides reaches grants ih entered =>
      exact closes.dynamic ih entered provides reaches grants
  | processed _ wellFormed ih => exact closes.processed ih wellFormed
  | closurized _ ih => exact closes.closurized ih
  | selector _ ih => exact closes.selector ih
  | isCheck _ isTest unaliased ih => exact closes.isCheck ih isTest unaliased

/-! ### Impacts that are put together from uses -/

theorem Impact.mem_addLast {α : Type} [DecidableEq α] (elements : List α)
    (element other : α) :
    other ∈ addLast elements element ↔ other ∈ elements ∨ other = element := by
  unfold addLast
  split
  · rename_i listed
    constructor
    · exact .inl
    · rintro (old | rfl)
      · exact old
      · exact listed
  · simp

theorem Impact.mem_uses_add (impact : Impact) (use other : Use) :
    other ∈ (impact.add use).uses ↔ other ∈ impact.uses ∨ other = use := by
  cases use <;> cases other <;>
    simp [add, addStatic, addDynamic, addType, uses, mem_addLast]

theorem Impact.mem_uses_foldl_add (uses : List Use) (impact : Impact)
    (other : Use) :
    other ∈ (uses.foldl add impact).uses ↔
      other ∈ impact.uses ∨ other ∈ uses := by
  induction uses generalizing impact with
  | nil => simp
  | cons use rest ih =>
      rw [List.foldl_cons, ih, mem_uses_add, List.mem_cons, or_assoc]

theorem RuntimeSupport.mem_uses_helperImpact (support : RuntimeSupport)
    (use : Use) :
    use ∈ (Backend.helperImpact support).uses ↔
      ∃ member ∈ support.helpers, .static ⟨.directUse, member, none⟩ = use := by
  rw [Backend.helperImpact, Impact.ofUses, Impact.mem_uses_foldl_add]
  simp [Impact.uses]

/-! ### Listeners that serve the runtime -/

/-- Whether a notice tells that a function is torn off. -/
def Notice.isTearOff : Notice → Bool
  | .closurized _ | .staticTearOff => true
  | _ => false

/-- What the runtime needs in answer to a notice.  The closure class may have
been asked for already. -/
def RuntimeSupport.answer (support : RuntimeSupport) (asked : Bool) :
    Notice → Impact
  | .queueOpened _ _ => Backend.helperImpact support
  | .closurized _ | .staticTearOff =>
      if asked then {} else support.closureImpact
  | .instantiatedClass cls => support.classImpacts.getD cls {}
  | _ => {}

/-- Whether the closure class has been asked for after a notice. -/
def RuntimeSupport.asksAfter (support : RuntimeSupport) (asked : Bool)
    (notice : Notice) : Bool :=
  asked || (notice.isTearOff && support.closureClass.isSome)

/-- A listener answers with what the runtime needs, as long as its states
correspond to whether the closure class has been asked for. -/
structure Listener.Serves {σ : Type} (listener : Listener σ)
    (support : RuntimeSupport) (serving : σ → Bool → Prop) : Prop where
  impact : ∀ {state asked} notice, serving state asked →
    (listener.hear state notice).1.impact = support.answer asked notice
  next : ∀ {state asked} notice, serving state asked →
    serving (listener.hear state notice).2 (support.asksAfter asked notice)
  /-- Recent classes are handled at once. -/
  handled : ∀ {state asked} recent, serving state asked →
    (listener.hear state (.queueDrained recent)).1.handled = true

/-- The listeners of a compilation, with a fresh state and the runtime that they
serve. -/
inductive Listener.Standard :
    {σ : Type} → Listener σ → σ → RuntimeSupport → Prop
  | silent : Standard Listener.silent () {}
  | backend (support : RuntimeSupport) :
      Standard Backend.listener { support } support

theorem serves_silent : Listener.silent.Serves {} fun _ asked => asked = false where
  impact := by
    rintro state asked notice rfl
    cases notice <;> rfl
  next := by
    rintro state asked notice rfl
    cases notice <;> rfl
  handled _ _ := rfl

theorem serves_backend (support : RuntimeSupport) :
    Backend.listener.Serves support fun backend asked =>
      backend.support = support ∧ backend.closureRequested = asked where
  impact := by
    rintro state asked notice ⟨rfl, rfl⟩
    cases notice with
    | closurized | staticTearOff =>
        cases requested : state.closureRequested <;>
          cases closureClass : state.support.closureClass <;>
            simp [Backend.listener, Backend.hear, Backend.respond,
              Backend.requestClosure, RuntimeSupport.answer,
              RuntimeSupport.closureImpact, requested, closureClass]
    | queueOpened | queueDrained | queueClosed | used | instantiatedType
    | instantiatedClass | implementedClass => rfl
  next := by
    rintro state asked notice ⟨rfl, rfl⟩
    cases notice with
    | closurized | staticTearOff =>
        cases requested : state.closureRequested <;>
          cases closureClass : state.support.closureClass <;>
            simp [Backend.listener, Backend.hear, Backend.respond,
              Backend.requestClosure, RuntimeSupport.asksAfter,
              Notice.isTearOff, requested, closureClass]
    | queueOpened | queueDrained | queueClosed | used | instantiatedType
    | instantiatedClass | implementedClass =>
        simp [Backend.listener, Backend.hear, Backend.respond,
          RuntimeSupport.asksAfter, Notice.isTearOff]
  handled _ _ := rfl

theorem Listener.Standard.serves {σ : Type} {listener : Listener σ} {initial : σ}
    {support : RuntimeSupport}
    (standard : Standard listener initial support) :
    ∃ serving, listener.Serves support serving ∧ serving initial false := by
  cases standard with
  | silent => exact ⟨_, serves_silent, rfl⟩
  | backend support => exact ⟨_, serves_backend support, rfl, rfl⟩

end TreeShaking
