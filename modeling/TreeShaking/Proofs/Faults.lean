import TreeShaking.Exploration.Agenda
import TreeShaking.Proofs.Outcome

/-!
# What can go wrong

Asking a program something fails only through a fault of the program itself: a
handle that points nowhere, classes or typedefs in a circle, or parameters that
cannot be counted.  Registering uses in a world asks the program and nothing
else, so it fails in the same ways; the bounds of a phase add their violations.
-/

namespace TreeShaking

/-- Whether a failure is a fault of the program. -/
def Failure.isFault : Failure → Bool
  | .outOfBounds _ _ | .positionalOverflow | .cyclicTypedef _
  | .cyclicSuperclass _ => true
  | .namesExhausted _ | .handlesExhausted | .secondWorkItem _ | .reopened _ _
  | .notInterface _ _ | .violation _ => false

/-- A computation fails only in the ways that are allowed. -/
def Outcome.FailsWithin {ε α : Type} (allowed : ε → Prop) (result : Except ε α) :
    Prop :=
  ∀ failure, result = .error failure → allowed failure

namespace Outcome.FailsWithin

variable {ε α β : Type} {allowed : ε → Prop}

theorem ok (value : α) : FailsWithin allowed (.ok value : Except ε α) := by
  intro failure failed
  cases failed

theorem pure (value : α) :
    FailsWithin allowed (Pure.pure value : Except ε α) :=
  .ok value

theorem error {failure : ε} (isAllowed : allowed failure) :
    FailsWithin allowed (.error failure : Except ε α) := by
  intro other failed
  cases failed
  exact isAllowed

theorem bind {first : Except ε α} {next : α → Except ε β}
    (firstFails : FailsWithin allowed first)
    (nextFails : ∀ value, FailsWithin allowed (next value)) :
    FailsWithin allowed (first >>= next) := by
  intro failure failed
  cases first with
  | error other =>
      cases failed
      exact firstFails _ rfl
  | ok value => exact nextFails value failure failed

theorem mono {weaker : ε → Prop} {result : Except ε α}
    (fails : FailsWithin allowed result)
    (allows : ∀ failure, allowed failure → weaker failure) :
    FailsWithin weaker result :=
  fun failure failed => allows failure (fails failure failed)

theorem anyM {test : α → Except ε Bool} {list : List α}
    (tests : ∀ element, FailsWithin allowed (test element)) :
    FailsWithin allowed (list.anyM test) := by
  intro failure failed
  obtain ⟨element, -, fails⟩ := exists_failure_of_anyM failed
  exact tests element failure fails

theorem mapM {compute : α → Except ε β} {list : List α}
    (computes : ∀ element, FailsWithin allowed (compute element)) :
    FailsWithin allowed (list.mapM compute) := by
  intro failure failed
  obtain ⟨element, -, fails⟩ := exists_failure_of_mapM failed
  exact computes element failure fails

end Outcome.FailsWithin

/-- A computation fails only through a fault of the program. -/
def Outcome.OnlyFaults {α : Type} (result : Except Failure α) : Prop :=
  FailsWithin (fun failure => failure.isFault = true) result

open Outcome

/-! ### Programs -/

theorem onlyFaults_fetch {α : Type} (table : Array α) (index : Nat) :
    OnlyFaults (fetch table index) := by
  unfold fetch
  split
  · exact .ok _
  · exact .error rfl

namespace Program

variable (program : Program)

theorem onlyFaults_member (id : MemberId) : OnlyFaults (program.member id) :=
  onlyFaults_fetch _ _

theorem onlyFaults_cls (id : ClassId) : OnlyFaults (program.cls id) :=
  onlyFaults_fetch _ _

theorem onlyFaults_className (id : ClassId) :
    OnlyFaults (program.className id) :=
  (program.onlyFaults_cls id).bind fun _ => .pure _

theorem onlyFaults_memberDisplay (id : MemberId) :
    OnlyFaults (program.memberDisplay id) := by
  refine (program.onlyFaults_member id).bind fun decl => ?_
  dsimp only
  split
  · exact (program.onlyFaults_className _).bind fun _ => .pure _
  · exact .pure _

theorem onlyFaults_superclassChain (cls : ClassId) :
    OnlyFaults (program.superclassChain cls) := by
  unfold superclassChain Hierarchy.chain
  generalize program.classes.size + 1 = fuel
  induction fuel generalizing cls with
  | zero => exact .error rfl
  | succ fuel ih =>
      refine (onlyFaults_fetch _ _).bind fun decl => ?_
      split
      · exact .pure _
      · exact (ih _).bind fun _ => .pure _

theorem onlyFaults_isSubclass (lower upper : ClassId) :
    OnlyFaults (program.isSubclass lower upper) :=
  (program.onlyFaults_superclassChain lower).bind fun _ => .pure _

theorem onlyFaults_isSubtype (lower upper : ClassId) :
    OnlyFaults (program.isSubtype lower upper) := by
  unfold isSubtype
  split
  · exact .ok _
  · exact (onlyFaults_fetch _ _).bind fun _ => .pure _

theorem onlyFaults_unalias (type : Ty) : OnlyFaults (program.unalias type) := by
  have follow : ∀ hops target,
      OnlyFaults (program.followTypedef hops target) := by
    intro hops
    induction hops with
    | zero =>
        intro target
        exact (onlyFaults_fetch _ _).bind fun _ => .error rfl
    | succ hops ih =>
        intro target
        refine (onlyFaults_fetch _ _).bind fun decl => ?_
        split
        · exact ih _
        · exact .pure _
  unfold unalias
  split
  · exact follow _ _
  · exact .ok _

theorem onlyFaults_inheritedMembers (cls : ClassId) :
    OnlyFaults (program.inheritedMembers cls) := by
  refine (program.onlyFaults_superclassChain cls).bind fun chain => ?_
  refine FailsWithin.bind (.mapM fun declarer => ?_) fun _ => .pure _
  refine (program.onlyFaults_cls declarer).bind fun decl => ?_
  refine FailsWithin.bind (.mapM fun member => ?_) fun _ => .pure _
  exact (program.onlyFaults_member member).bind fun _ => .pure _

theorem onlyFaults_lookupMember (cls : ClassId) (name : MemberName)
    (setter : Bool) : OnlyFaults (program.lookupMember cls name setter) :=
  (program.onlyFaults_inheritedMembers cls).bind fun _ => .pure _

end Program

theorem onlyFaults_concreteMembers (program : Program) (cls : ClassId) :
    OnlyFaults (World.concreteMembers program cls) := by
  refine FailsWithin.bind ?_ fun _ => .pure _
  exact (program.onlyFaults_inheritedMembers cls).bind fun _ => .pure _

/-- Deciding whether a selector applies fails only if there are too many
parameters to count. -/
theorem Selector.eq_positionalOverflow_of_appliesTo {selector : Selector}
    {decl : MemberDecl} {failure : Failure}
    (failed : selector.appliesTo decl = .error failure) :
    failure = .positionalOverflow := by
  unfold Selector.appliesTo at failed
  split at failed
  · cases failed
  · split at failed
    · cases failed
    · cases failed
    · cases failed
    all_goals
      split at failed
      · cases failed
      · cases failed
      · unfold CallShape.fits Parameters.total at failed
        split at failed
        · cases failed
        · split at failed
          · cases failed
          · exact (Except.error.inj failed).symm

theorem onlyFaults_appliesTo (selector : Selector) (decl : MemberDecl) :
    OnlyFaults (selector.appliesTo decl) := by
  intro failure failed
  rw [Selector.eq_positionalOverflow_of_appliesTo failed]
  rfl

theorem onlyFaults_canHit (program : Program) (live : LiveClasses)
    (declarer : ClassId) (constraint : Constraint) :
    OnlyFaults (constraint.canHit program live declarer) := by
  cases constraint with
  | unconstrained => exact .ok true
  | exact cls =>
      unfold Constraint.canHit
      dsimp only
      split
      · exact program.onlyFaults_isSubclass _ _
      · exact .ok false
  | subtype bound =>
      refine (onlyFaults_fetch _ _).bind fun heirs => .anyM fun heir => ?_
      split
      · exact program.onlyFaults_isSubtype _ _
      · exact .ok false

theorem onlyFaults_singleTarget (closed : ClosedWorld) (program : Program)
    (selector : Selector) (constraint : Constraint) :
    OnlyFaults (closed.singleTarget? program selector constraint) := by
  have accepts : ∀ cls, OnlyFaults (constraint.accepts program cls) := by
    intro cls
    cases constraint with
    | unconstrained => exact .ok _
    | exact only => exact .ok _
    | subtype bound => exact program.onlyFaults_isSubtype _ _
  have targets : OnlyFaults (closed.targetsOf program selector constraint) := by
    refine FailsWithin.bind (.mapM fun cls => ?_) fun _ => .pure _
    refine (accepts cls).bind fun accepted => ?_
    split
    · refine (program.onlyFaults_lookupMember _ _ _).bind fun found => ?_
      split
      · exact .pure _
      · refine (program.onlyFaults_member _).bind fun decl => ?_
        split
        · exact .pure _
        · exact (onlyFaults_appliesTo _ _).bind fun _ => .pure _
    · exact .pure _
  refine targets.bind fun found => ?_
  split
  · exact .pure _
  · exact .pure _

namespace World

variable (program : Program) (live : LiveClasses)

theorem onlyFaults_reaches (selector : Selector)
    {hits : ClassId → Except Failure Bool}
    (hitsFail : ∀ declarer, OnlyFaults (hits declarer)) (decl : MemberDecl) :
    OnlyFaults (reaches selector hits decl) := by
  unfold reaches
  split
  · exact .ok false
  · refine (onlyFaults_appliesTo selector decl).bind fun applies => ?_
    split
    · exact hitsFail _
    · exact .pure false

theorem onlyFaults_examine (world : World) (use : DynamicUse)
    (members : List MemberId) :
    OnlyFaults (world.examine program live use members) := by
  induction members generalizing world with
  | nil => exact .ok _
  | cons member rest ih =>
      refine (program.onlyFaults_member member).bind fun decl => ?_
      refine (onlyFaults_reaches _ (fun declarer =>
        onlyFaults_canHit program live declarer _) decl).bind fun reached => ?_
      split
      · exact (ih _).bind fun _ => .pure _
      · exact ih world

theorem onlyFaults_registerDynamic (world : World) (use : DynamicUse) :
    OnlyFaults (world.registerDynamic program live use) := by
  unfold registerDynamic
  dsimp only
  split
  · refine (onlyFaults_examine program live _ use _).bind fun _ => ?_
    split
    · exact (onlyFaults_examine program live _ use _).bind fun _ => .pure _
    · exact .pure _
  · exact .pure _

theorem onlyFaults_encounter (world : World) (member : MemberId)
    (decl : MemberDecl) :
    OnlyFaults (world.encounter program live member decl) := by
  have sought : ∀ kind, OnlyFaults (world.isSought program live kind decl) := by
    intro kind
    refine .anyM fun entry => ?_
    split
    · refine onlyFaults_reaches _ (fun declarer => ?_) decl
      unfold ReceiverSet.canHit
      split
      · exact .ok true
      · exact .anyM fun constraint => onlyFaults_canHit program live _ constraint
    · exact .ok false
  have seeks : ∀ kind usage,
      OnlyFaults (world.seek program live decl kind usage) := by
    intro kind usage
    refine (sought kind).bind fun _ => ?_
    split
    · exact .pure _
    · exact .pure _
  unfold encounter
  dsimp only
  split
  · exact .pure _
  · exact (seeks _ _).bind fun _ => (seeks _ _).bind fun _ =>
      (seeks _ _).bind fun _ => .pure _

theorem onlyFaults_enterClass (world : World) (cls : ClassId) :
    OnlyFaults (world.enterClass program live cls) := by
  refine (onlyFaults_concreteMembers program cls).bind fun members => ?_
  induction members generalizing world with
  | nil => exact .ok _
  | cons inherited rest ih =>
      refine (onlyFaults_encounter program live world _ _).bind fun _ => ?_
      exact (ih _).bind fun _ => .pure _

theorem onlyFaults_registerStatic (world : World) (use : StaticUse) :
    OnlyFaults (world.registerStatic program use) :=
  (program.onlyFaults_member _).bind fun _ => .pure _

theorem onlyFaults_registerUsed (world : World) (member : MemberId) :
    OnlyFaults (world.registerUsed program member) :=
  (program.onlyFaults_member _).bind fun _ => .pure _

theorem onlyFaults_registerIsCheck (world : World) (type : Ty) :
    OnlyFaults (world.registerIsCheck program type) :=
  (program.onlyFaults_unalias type).bind fun _ => .pure _

theorem onlyFaults_registerInstantiation (world : World) (type : InterfaceType)
    (constructor : Option MemberId) (flags : InstantiationFlags) :
    OnlyFaults (world.registerInstantiation program type constructor flags) := by
  have finish : ∀ created creation, OnlyFaults (
      if type.cls ∈ World.implemented created then
        pure (created, creation)
      else do
        let above ← program.supertypes type.cls
        pure ((created.noteImplemented (type.cls :: above)).1,
          creation ++ (created.noteImplemented (type.cls :: above)).2)) := by
    intro created creation
    split
    · exact .pure _
    · exact (onlyFaults_fetch _ _).bind fun _ => .pure _
  refine (program.onlyFaults_cls _).bind fun decl => ?_
  dsimp only
  split
  · exact (program.onlyFaults_superclassChain _).bind fun _ => finish _ _
  · exact finish _ _

end World

/-! ### Scopes -/

/-- Whether a failure can come from a use: from a fault of the program, from a
breach of the rules of the phase, or from a type that has no instances. -/
def Failure.isOfUse : Failure → Bool
  | .namesExhausted _ | .handlesExhausted | .secondWorkItem _
  | .reopened _ _ => false
  | _ => true

/-- A computation fails only because of the use that it deals with. -/
def Outcome.OnlyOfUse {α : Type} (result : Except Failure α) : Prop :=
  FailsWithin (fun failure => failure.isOfUse = true) result

theorem Outcome.OnlyFaults.ofUse {α : Type} {result : Except Failure α}
    (faults : OnlyFaults result) : OnlyOfUse result := by
  refine FailsWithin.mono faults fun failure isFault => ?_
  cases failure with
  | outOfBounds | positionalOverflow | cyclicTypedef | cyclicSuperclass => rfl
  | namesExhausted | handlesExhausted | secondWorkItem | reopened | notInterface
  | violation => cases isFault

namespace Scope

variable (scope : Scope) (program : Program) (world : World)

theorem onlyOfUse_registerStatic (use : StaticUse) :
    OnlyOfUse (scope.registerStatic program use world) := by
  have registers := (world.onlyFaults_registerStatic program use).ofUse
  unfold Scope.registerStatic
  cases scope with
  | resolution =>
      dsimp only
      split
      · exact .error rfl
      · exact registers
  | codegen closed =>
      dsimp only
      split
      · split
        · exact .ok _
        · exact registers
      · exact (program.onlyFaults_memberDisplay _).ofUse.bind
          fun _ => .error rfl

theorem onlyOfUse_registerDynamic (use : DynamicUse) :
    OnlyOfUse (scope.registerDynamic program use world) := by
  refine (world.onlyFaults_registerDynamic program _ use).ofUse.bind
    fun _ => ?_
  cases scope with
  | resolution => exact .pure _
  | codegen closed =>
      refine FailsWithin.bind ?_ fun _ => .pure _
      refine OnlyFaults.ofUse ?_
      unfold devirtualize
      split
      · exact .ok _
      · refine FailsWithin.bind ?_ fun target => ?_
        · exact onlyFaults_singleTarget closed program _ _
        · split
          · exact .pure _
          · exact .pure _

theorem onlyOfUse_registerInstantiation (type : InterfaceType)
    (constructor : Option MemberId) (flags : InstantiationFlags) :
    OnlyOfUse
      (scope.registerInstantiation program type constructor flags world) := by
  have registers := (world.onlyFaults_registerInstantiation program type
    constructor flags).ofUse
  cases scope with
  | resolution => exact registers
  | codegen closed =>
      refine (program.onlyFaults_cls _).ofUse.bind fun decl => ?_
      dsimp only
      split
      all_goals
        split
        · exact registers
        · exact (program.onlyFaults_className _).ofUse.bind
            fun _ => .error rfl

end Scope

/-! ### Steps -/

namespace Exploration

variable {σ : Type} {setting : Setting σ} {e : Exploration σ} {task : Task}
  {failure : Failure}

theorem onlyOfUse_register (use : Use) : OnlyOfUse (e.register setting use) := by
  cases use with
  | static use =>
      exact (setting.scope.onlyOfUse_registerStatic _ _ use).bind
        fun _ => .pure _
  | dynamic use =>
      exact (setting.scope.onlyOfUse_registerDynamic _ _ use).bind
        fun _ => .pure _
  | type use =>
      have creates : ∀ flags, OnlyOfUse (e.instantiateType use flags) := by
        intro flags
        unfold instantiateType
        split
        · exact .ok _
        · exact .error rfl
      have tests :=
        (e.world.onlyFaults_registerIsCheck setting.program use.type).ofUse
      unfold register registerType
      dsimp only
      split
      · exact creates _
      · exact creates _
      · exact creates _
      · exact tests.bind fun _ => .pure _
      · exact tests.bind fun _ => .pure _
      · exact tests.bind fun _ => .pure _
      · split
        · exact tests.bind fun _ => .pure _
        · exact .ok _
      · exact .ok _

/-- Putting a member into the queue fails through a fault of the program, or
because the member has been there. -/
theorem failure_of_enlist {member : MemberId}
    (failed : e.enlist setting member = .error failure) :
    failure.isOfUse = true ∨ member ∈ e.issued := by
  have issues : FailsWithin
      (fun failure => failure.isOfUse = true ∨ member ∈ e.issued)
      (WorkItem.issue setting.program e.issued member) := by
    have widen : ∀ {α : Type} {result : Except Failure α}, OnlyFaults result →
        FailsWithin (fun failure => failure.isOfUse = true ∨ member ∈ e.issued)
          result :=
      fun faults => FailsWithin.mono faults.ofUse fun _ => .inl
    refine (widen (setting.program.onlyFaults_member member)).bind fun decl => ?_
    split
    · exact .pure _
    · split
      · rename_i issued
        exact (widen (setting.program.onlyFaults_memberDisplay member)).bind
          fun _ => .error (.inr issued)
      · exact .pure _
  unfold enlist at failed
  cases used : e.world.registerUsed setting.program member with
  | error other =>
      rw [used] at failed
      cases failed
      exact .inl ((e.world.onlyFaults_registerUsed _ _).ofUse _ used)
  | ok world =>
      rw [used] at failed
      cases issued : WorkItem.issue setting.program e.issued member with
      | error other =>
          simp only [issued] at failed
          cases failed
          exact issues _ issued
      | ok next =>
          simp only [issued] at failed
          cases next <;> cases failed

/-- A step fails because of the use that it deals with, or because a member
would enter the queue for the second time. -/
theorem failure_of_step (failed : e.step setting task = .error failure) :
    failure.isOfUse = true ∨
      ∃ member, task = .enlist member ∧ member ∈ e.issued := by
  cases task with
  | enlist member =>
      rcases failure_of_enlist failed with ofUse | issued
      · exact .inl ofUse
      · exact .inr ⟨member, rfl, issued⟩
  | register use =>
      unfold step at failed
      dsimp only at failed
      split at failed
      · exact .inl (onlyOfUse_register use failure failed)
      · cases failed
  | demand member =>
      unfold step demand at failed
      dsimp only at failed
      split at failed
      · cases failed
      · split at failed
        · have displays :=
            (setting.program.onlyFaults_memberDisplay member).ofUse
          exact .inl (displays.bind (fun _ => .error rfl) failure failed)
        · cases failed
  | enterClass cls =>
      have enters := (e.world.onlyFaults_enterClass setting.program
        setting.scope.live cls).ofUse
      exact .inl (enters.bind (fun _ => .pure _) failure failed)
  | instantiate type constructor flags isGlobal =>
      have registers := setting.scope.onlyOfUse_registerInstantiation
        setting.program e.world type constructor flags
      exact .inl (registers.bind (fun _ => .pure _) failure failed)
  | command member order =>
      cases order with
      | applyItem | apply | close => cases failed
      | defer entity impact =>
          unfold step obey defer at failed
          dsimp only at failed
          split at failed
          · cases failed
            exact .inl rfl
          · cases failed
  | closurize | announce | apply | release | takeNext | finish | drained
  | runDeferred | resume => cases failed

end Exploration

end TreeShaking
