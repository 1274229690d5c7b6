import TreeShaking.Proofs.AtMostOnce
import TreeShaking.Proofs.LeastClosure
import TreeShaking.Proofs.Run.Termination
import TreeShaking.Proofs.Sweep

/-!
# Nothing is refused

Code generation fails as soon as it leaves the closed world.  Suppose that the
closed world has room for a set of facts that is closed under the rules of code
generation (`ClosedWorld.Admits`).  Whatever an exploration does is in every such
set, so no step is refused, and no step fails for another reason either.  Since
explorations come to an end, this one comes to a result.
-/

namespace TreeShaking

open Outcome World

/-- A static use makes an access that the kind of its member supports. -/
def StaticUse.IsSupported (program : Program) (use : StaticUse) : Prop :=
  ∀ decl access, program.member use.member = .ok decl →
    use.kind.access? = some access → decl.supports access = true

/-- A use that resolution can take notice of: its member is declared, a type that
it instantiates belongs to a class, and a type that it tests can be resolved. -/
def Use.IsResolvable (program : Program) (options : Options) : Use → Prop
  | .static use => use.kind.isCodegenOnly = false ∧
      ∃ decl, program.member use.member = .ok decl
  | .dynamic _ => True
  | .type use =>
      (∀ flags, use.kind.creation? = some flags →
        ∃ type, use.type.interface? = some type) ∧
      (use.kind.isTest options = true →
        ∃ tested, program.unalias use.type = .ok tested)

theorem Scope.resolvable_of_registerStatic {program : Program} {use : StaticUse}
    {world final : World} {reports : List MemberReport}
    (registered : Scope.resolution.registerStatic program use world =
      .ok (final, reports)) :
    use.kind.isCodegenOnly = false ∧
      ∃ decl, program.member use.member = .ok decl := by
  unfold Scope.registerStatic at registered
  dsimp only at registered
  split at registered
  · cases registered
  · rename_i known
    obtain ⟨decl, declared, -⟩ := bind_eq_ok_iff.1 registered
    exact ⟨by simpa using known, decl, declared⟩

namespace Exploration

variable {σ : Type} {setting : Setting σ}

/-- Resolution takes notice of resolvable uses only. -/
theorem Effect.resolvable {e next : Exploration σ} {task : Task}
    {tasks : List Task} (effect : Effect setting e task tasks next)
    (scope : setting.scope = .resolution) :
    ∀ use ∈ task.noticed setting,
      use.IsResolvable setting.program setting.options := by
  intro use told
  cases effect with
  | refused refused => simp [Task.noticed, refused] at told
  | static admitted registered =>
      rw [noticed_of_admitted admitted] at told
      obtain rfl := List.mem_singleton.1 told
      rw [scope] at registered
      exact Scope.resolvable_of_registerStatic registered
  | dynamic admitted =>
      rw [noticed_of_admitted admitted] at told
      obtain rfl := List.mem_singleton.1 told
      trivial
  | @creation use type flags admitted creates isInterface =>
      rw [noticed_of_admitted admitted] at told
      obtain rfl := List.mem_singleton.1 told
      refine ⟨fun _ _ => ⟨type, isInterface⟩, fun isTest => ?_⟩
      cases kind : use.kind <;>
        simp [kind, TypeUseKind.creation?, TypeUseKind.isTest] at creates isTest
  | @test use tested admitted isTest unaliased =>
      rw [noticed_of_admitted admitted] at told
      obtain rfl := List.mem_singleton.1 told
      refine ⟨fun flags creates => ?_, fun _ => ⟨tested, unaliased⟩⟩
      cases kind : use.kind <;>
        simp [kind, TypeUseKind.creation?, TypeUseKind.isTest] at creates isTest
  | untested admitted isUntested =>
      rw [noticed_of_admitted admitted] at told
      obtain rfl := List.mem_singleton.1 told
      obtain ⟨kind, assertsNot⟩ := isUntested
      simp [Use.IsResolvable, kind, TypeUseKind.creation?, TypeUseKind.isTest,
        assertsNot]
  | literal admitted isLiteral =>
      rw [noticed_of_admitted admitted] at told
      obtain rfl := List.mem_singleton.1 told
      simp [Use.IsResolvable, isLiteral, TypeUseKind.creation?,
        TypeUseKind.isTest]
  | superfluous | demanded | enlisted | skipped | closurized | announced
  | entered | instantiated | unapplied | applied | released => cases told

theorem resolvable_enduring (scope : setting.scope = .resolution) :
    Enduring setting fun history _ _ _ => ∀ use ∈ history,
      use.IsResolvable setting.program setting.options where
  invariant routine :=
    { step := by
        intro history task work stage e tasks next resolvable effect use told
        rcases List.mem_append.1 told with old | new
        · exact resolvable use old
        · exact effect.resolvable scope use new
      turn := fun resolvable _ => resolvable }
  begin resolvable _ _ _ _ _ := resolvable

end Exploration

/-! ### Single registrations -/

/-- Code is generated inside a closed world that has room for a set of facts,
and the set solves the problem. -/
structure ClosedWorld.Admits {σ : Type} (closed : ClosedWorld)
    (setting : Setting σ) (problem : Problem) (facts : Fact → Prop) :
    Prop where
  scope : setting.scope = .codegen closed
  posed : problem.SetIn setting
  closes : problem.Closes setting.scope.live facts
  answers : setting.program.Answers setting.scope.live
  receivers : ∀ cls ∈ closed.direct, ∃ chain,
    setting.program.superclassChain cls = .ok chain
  resolvable : ∀ use, facts (.registered use) →
    use.IsResolvable setting.program setting.options
  supported : ∀ use, facts (.registered (.static use)) →
    use.IsSupported setting.program
  live : ∀ member, facts (.applied member .normal) →
    closed.isMemberLive member = true
  instantiated : ∀ cls, facts (.instantiated cls) →
    closed.isInstantiated cls = true
  implemented : ∀ cls, facts (.implemented cls) →
    closed.isImplemented cls = true ∧
      ∃ decl, setting.program.cls cls = .ok decl

namespace ClosedWorld.Admits

variable {σ : Type} {closed : ClosedWorld} {setting : Setting σ}
  {problem : Problem} {facts : Fact → Prop}

theorem succeeds_static (admits : closed.Admits setting problem facts)
    {use : StaticUse} (registered : facts (.registered (.static use)))
    (world : World) :
    Succeeds (setting.scope.registerStatic setting.program use world) := by
  obtain ⟨isKnown, decl, declared⟩ := admits.resolvable _ registered
  obtain ⟨access, accesses⟩ : ∃ access, use.kind.access? = some access := by
    cases kind : use.kind <;>
      simp_all [StaticUseKind.access?, StaticUseKind.isCodegenOnly]
  have notInlined : use.kind ≠ .inlining := by
    intro isInlining
    rw [isInlining] at accesses
    cases accesses
  have grants : decl.grants access .normal = true := by
    rw [MemberDecl.grants_normal]
    exact admits.supported use registered decl access declared accesses
  have live := admits.live use.member
    (admits.closes.static registered (admits.posed.program ▸ declared) accesses
      grants)
  rw [admits.scope, Scope.registerStatic, if_pos live, if_neg notInlined]
  exact Succeeds.bind ⟨decl, declared⟩ fun _ _ => .pure _

theorem succeeds_dynamic (admits : closed.Admits setting problem facts)
    {history : List Use} {e : Exploration σ}
    (books : Exploration.Books setting history e) (use : DynamicUse) :
    Succeeds
      (setting.scope.registerDynamic setting.program use e.world) := by
  have met : ∀ member decl,
      (Evidence.ofRun setting.program history e.processedClasses).met member
        decl → ∃ cls, setting.program.Provides cls member decl := by
    rintro member decl ⟨cls, -, provides⟩
    exact ⟨cls, provides⟩
  have registers := books.orderly.succeeds_registerDynamic admits.answers met use
  refine registers.bind fun outcome _ => ?_
  rw [admits.scope]
  have devirtualizes := @Scope.succeeds_devirtualize setting.program closed
    outcome.1 admits.answers.drafted admits.answers.countable admits.receivers use
  exact devirtualizes.bind fun _ _ => .pure _

theorem succeeds_type (admits : closed.Admits setting problem facts)
    {use : TypeUse} (registered : facts (.registered (.type use)))
    (e : Exploration σ) : Succeeds (e.registerType setting use) := by
  obtain ⟨isInterface, isTested⟩ := admits.resolvable _ registered
  have creation : ∀ flags, use.kind.creation? = some flags →
      Succeeds (e.instantiateType use flags) := by
    intro flags creates
    obtain ⟨type, isType⟩ := isInterface flags creates
    rw [Exploration.instantiateType, isType]
    exact .ok _
  have test : use.kind.isTest setting.options = true →
      Succeeds (e.world.registerIsCheck setting.program use.type) := by
    intro isTest
    exact Succeeds.bind (isTested isTest) fun _ _ => .pure _
  unfold Exploration.registerType
  cases kind : use.kind with
  | instantiation | mirrorInstantiation | nativeInstantiation =>
      exact creation _ (by rw [kind]; rfl)
  | isCheck | asCast | catchType =>
      exact (test (by rw [kind]; rfl)).bind fun _ _ => .pure _
  | checkedModeCheck =>
      dsimp only
      split
      · rename_i asserts
        exact (test (by rw [kind]; exact asserts)).bind fun _ _ => .pure _
      · exact .ok _
  | typeLiteral => exact .ok _

theorem succeeds_instantiation (admits : closed.Admits setting problem facts)
    {use : Use} {type : InterfaceType} {flags : InstantiationFlags}
    (registered : facts (.registered use))
    (instantiates : use.instantiation? = some (type, flags))
    (constructor : Option MemberId) (world : World) :
    Succeeds (setting.scope.registerInstantiation setting.program type
      constructor flags world) := by
  obtain ⟨isImplemented, decl, fetched⟩ := admits.implemented type.cls
    (admits.closes.implemented registered instantiates (.inl rfl))
  have built := admits.answers.drafted.built
  have known : (if decl.createsInstances flags then
      closed.isInstantiated type.cls
    else
      closed.isImplemented type.cls) = true := by
    split
    · rename_i creates
      obtain ⟨chain, walked⟩ := built.exists_superclassChain fetched
      have isAbove := Program.hasSuperclass_self walked
      rw [admits.posed.program] at fetched isAbove
      have direct := admits.closes.direct registered instantiates
        ⟨decl, fetched, creates⟩
      exact admits.instantiated _ (admits.closes.instantiated direct isAbove)
    · exact isImplemented
  have registers := @World.succeeds_registerInstantiation setting.program world
    built type decl fetched constructor flags
  rw [admits.scope, Scope.registerInstantiation]
  refine Succeeds.bind ⟨decl, fetched⟩ fun found isFound => ?_
  rw [fetched] at isFound
  obtain rfl := Except.ok.inj isFound
  dsimp only
  rw [if_pos known]
  exact registers

end ClosedWorld.Admits

/-! ### Steps and turns -/

namespace Exploration

variable {σ : Type} {setting : Setting σ} {problem : Problem}
  {serving : σ → Bool → Prop} {seeds history : List Use} {task : Task}
  {work tasks : List Task} {stage nextStage : Stage} {e next : Exploration σ}
  {closed : ClosedWorld} {facts : Fact → Prop}

/-- A member that is about to enter the queue is declared. -/
theorem Lifecycle.declared_of_enlist {member : MemberId}
    (lifecycle : Lifecycle setting history (.enlist member :: work) stage e) :
    ∃ decl, setting.program.member member = .ok decl := by
  have known := lifecycle.places member
  rw [Exploration.places, List.countP_cons_of_pos (by simp [Task.owes])] at known
  have normal : (e.world.appliedTo member).has .normal = true := by
    cases now : (e.world.appliedTo member).normal with
    | true => exact now
    | false =>
        rw [now, Bool.toNat_false] at known
        omega
  obtain ⟨decl, declared, -⟩ :=
    (World.Balanced.appliedTo_iff lifecycle.books member .normal).1 normal
  exact ⟨decl, declared⟩

/-- All that is known about a code generation in progress. -/
structure Generating (problem : Problem) (setting : Setting σ)
    (serving : σ → Bool → Prop) (seeds history : List Use) (work : List Task)
    (stage : Stage) (e : Exploration σ) : Prop
    extends Resolving problem setting serving seeds history work stage e where
  issues : Issues setting stage e
  isOpen : e.state ≠ .closed

theorem Effect.state_eq (effect : Effect setting e task tasks next) :
    next.state = e.state := by
  cases effect <;> rfl

theorem generating_invariant (seeds : List Use) (posed : problem.SetIn setting)
    (built : setting.program.Built)
    (listens : setting.listener.Serves problem.support serving) :
    Invariant setting applying
      (Generating problem setting serving seeds) where
  step generating effect :=
    { toResolving := (resolving_invariant seeds posed built listens).step
        generating.toResolving effect
      issues := generating.issues.effect generating.lifecycle.books effect
      isOpen := effect.state_eq ▸ generating.isOpen }
  turn generating turn :=
    { toResolving := (resolving_invariant seeds posed built listens).turn
        generating.toResolving turn
      issues := generating.issues.turn turn
      isOpen := (generating.custody.turn_frame turn).1 ▸ generating.isOpen }

/-- An open queue takes every member that is demanded. -/
theorem succeeds_demand (isOpen : e.state ≠ .closed) (member : MemberId) :
    Succeeds (e.demand setting member) := by
  unfold demand
  rw [if_neg isOpen]
  split
  · exact .ok _
  · exact .ok _

/-- A member that is about to be put into the queue has not been there. -/
theorem Placed.succeeds_enlist {member : MemberId}
    (placed : Placed setting history (.enlist member :: work) stage e)
    (isPlain : ∀ other ∈ .enlist member :: work, other.isPlain = true) :
    Succeeds (e.enlist setting member) := by
  obtain ⟨decl, declared⟩ := placed.lifecycle.declared_of_enlist
  have configured : Configured (Placed setting)
      (.enlist member :: (work ++ stage.tasks applying)) e :=
    ⟨history, .enlist member :: work, stage, applying, rfl, isPlain, placed⟩
  have isNew := configured.not_issued.1
  have used : Succeeds (e.world.registerUsed setting.program member) :=
    Succeeds.bind ⟨decl, declared⟩ fun _ _ => .pure _
  have issued : Succeeds (WorkItem.issue setting.program e.issued member) := by
    refine Succeeds.bind ⟨decl, declared⟩ fun found _ => ?_
    split
    · exact .pure _
    · exact .pure _
  refine used.bind fun world _ => issued.bind fun outcome _ => ?_
  split
  · exact .pure _
  · exact .pure _

/-- No plain task is refused. -/
theorem Generating.succeeds_step
    (generating : Generating problem setting serving seeds history (task :: work)
      stage e)
    (admits : closed.Admits setting problem facts)
    (isPlain : ∀ other ∈ task :: work, other.isPlain = true) :
    Succeeds (e.step setting task) := by
  have books := generating.lifecycle.books
  have warranted := generating.warranted facts admits.closes
  have taskWarranted := warranted.planned task List.mem_cons_self
  cases task with
  | register use =>
      unfold step
      dsimp only
      split
      · cases use with
        | static use =>
            exact (admits.succeeds_static taskWarranted e.world).bind
              fun _ _ => .pure _
        | dynamic use =>
            exact (admits.succeeds_dynamic books use).bind fun _ _ => .pure _
        | type use => exact admits.succeeds_type taskWarranted e
      · exact .ok _
  | demand member => exact succeeds_demand generating.isOpen member
  | enlist member =>
      exact Placed.succeeds_enlist ⟨generating.lifecycle, generating.issues⟩
        isPlain
  | enterClass cls =>
      have classes := generating.classes
      obtain ⟨chain, walked, -⟩ := classes.closed.chains cls
        (classes.isInstantiated_of_planned List.mem_cons_self)
      exact (World.succeeds_visitClass admits.answers false walked).bind
        fun _ _ => .pure _
  | instantiate type constructor flags isGlobal =>
      obtain ⟨use, told, instantiates⟩ := generating.classes.planned type
        constructor flags isGlobal List.mem_cons_self
      exact (admits.succeeds_instantiation (warranted.history use told)
        instantiates constructor e.world).bind fun _ _ => .pure _
  | closurize | announce | apply | release => exact .ok _
  | command | takeNext | finish | drained | runDeferred | resume =>
      cases isPlain _ List.mem_cons_self

/-- The loop over the queue always goes on, since nothing is put off. -/
theorem Custody.succeeds_turn {rest : List Task}
    (custody : Custody problem setting [] stage e)
    (remaining : stage.tasks applying = task :: rest) :
    Succeeds (e.step setting task) := by
  cases stage with
  | obeying member commands =>
      rcases custody.commands member commands rfl with rfl | rfl
      · obtain ⟨rfl, -⟩ := List.cons.inj remaining
        exact .ok _
      · obtain ⟨rfl, -⟩ := List.cons.inj remaining
        exact .ok _
  | idle => cases remaining
  | taking | draining | deferring | resuming =>
      obtain ⟨rfl, -⟩ := List.cons.inj remaining
      exact .ok _

/-- Given enough steps, a code generation that is admitted comes to a result. -/
theorem Generating.exists_result
    (generating : Generating problem setting serving seeds history work stage e)
    (admits : closed.Admits setting problem facts)
    (listens : setting.listener.Serves problem.support serving)
    (isPlain : ∀ other ∈ work, other.isPlain = true) :
    ∃ bound final, ∀ steps, bound ≤ steps →
      workOff setting steps (work ++ stage.tasks applying) e = .ok final := by
  have built := admits.answers.drafted.built
  obtain ⟨asked, coverage⟩ := generating.covered
  exact (generating_invariant seeds admits.posed built listens).exists_result
    (fun known plain => known.succeeds_step admits plain)
    (fun known remaining => known.custody.succeeds_turn remaining) generating
    isPlain (generating.toTracked.ends built listens coverage.serves applying
      isPlain)

end Exploration

end TreeShaking
