import TreeShaking.Exploration.Run
import TreeShaking.Proofs.Outcome

/-!
# What a task does

A task is *plain* if it deals with the consequences of a use, and otherwise part
of the loop over the queue.  `Effect` says what a plain task can do: which tasks
follow from it and what becomes of the exploration.  Counts and the journal may
change in any way, since nothing depends on them.  Every step of a plain task is
of this form (`effect_of_step`), so that an invariant has to be checked against
`Effect` only.
-/

namespace TreeShaking

open Outcome

/-- The way in which a type use creates instances, if it does. -/
def TypeUseKind.creation? : TypeUseKind → Option InstantiationFlags
  | .instantiation => some {}
  | .mirrorInstantiation => some { byMirrors := true }
  | .nativeInstantiation => some { native := true }
  | _ => none

/-- Whether a type use tests values against its type. -/
def TypeUseKind.isTest (options : Options) : TypeUseKind → Bool
  | .isCheck | .asCast | .catchType => true
  | .checkedModeCheck => options.typeAssertions
  | _ => false

/-- The instantiation that a use asks for. -/
def Use.instantiation? : Use → Option (InterfaceType × InstantiationFlags)
  | .static use => use.instantiation?
  | .dynamic _ => none
  | .type use => do
      let flags ← use.kind.creation?
      let type ← use.type.interface?
      return (type, flags)

/-- Whether a task deals with the consequences of a use. -/
def Task.isPlain : Task → Bool
  | .register _ | .demand _ | .enlist _ | .closurize _ | .announce _
  | .enterClass _ | .instantiate _ _ _ _ | .apply _ _ | .release _ => true
  | .command _ _ | .takeNext _ | .finish _ | .drained _ | .runDeferred
  | .resume _ => false

/-- The tasks that register the uses of an impact. -/
def Impact.tasks (impact : Impact) : List Task :=
  impact.uses.map .register

theorem Impact.uses_of_isEmpty {impact : Impact}
    (isEmpty : impact.isEmpty = true) : impact.uses = [] := by
  simp only [Impact.isEmpty, Bool.and_eq_true, List.isEmpty_iff] at isEmpty
  simp [Impact.uses, isEmpty]

/-- The task that a use leads to if it creates instances. -/
def StaticUse.creation (use : StaticUse) : List Task :=
  match use.instantiation? with
  | some (type, flags) => [.instantiate type (some use.member) flags false]
  | none => []

namespace Task

/-- Whether a task is a consequence of a use. -/
def isConsequence : Task → Bool
  | .register _ | .demand _ | .enlist _ | .closurize _ | .announce _
  | .enterClass _ | .instantiate _ _ _ _ => true
  | _ => false

theorem isPlain_of_isConsequence {task : Task}
    (consequence : task.isConsequence = true) : task.isPlain = true := by
  cases task with
  | register | demand | enlist | closurize | announce | enterClass
  | instantiate => rfl
  | apply | release | command | takeNext | finish | drained | runDeferred
  | resume => cases consequence

theorem eq_of_mem_ofMemberReport {reports : List MemberReport} {task : Task}
    (listed : task ∈ reports.flatMap ofMemberReport) :
    ∃ report ∈ reports,
      report.2.normal = true ∧ task = .demand report.1 ∨
      report.2.closurizeInstance = true ∧ task = .closurize report.1 ∨
      report.2.closurizeStatic = true ∧ task = .announce .staticTearOff := by
  obtain ⟨report, isReport, follows⟩ := List.mem_flatMap.1 listed
  simp only [ofMemberReport, List.mem_append, List.mem_ite_nil_right,
    List.mem_singleton, or_assoc] at follows
  exact ⟨report, isReport, follows⟩

theorem eq_of_mem_ofClassReport {reports : List ClassReport} {task : Task}
    (listed : task ∈ reports.flatMap ofClassReport) :
    ∃ report ∈ reports,
      report.2.instantiated = true ∧ task = .enterClass report.1 ∨
      report.2.implemented = true ∧
        task = .announce (.implementedClass report.1) := by
  obtain ⟨report, isReport, follows⟩ := List.mem_flatMap.1 listed
  simp only [ofClassReport, List.mem_append, List.mem_ite_nil_right,
    List.mem_singleton] at follows
  exact ⟨report, isReport, follows⟩

theorem isConsequence_ofMemberReport {reports : List MemberReport} {task : Task}
    (listed : task ∈ reports.flatMap ofMemberReport) :
    task.isConsequence = true := by
  obtain ⟨report, -, ⟨-, rfl⟩ | ⟨-, rfl⟩ | ⟨-, rfl⟩⟩ :=
    eq_of_mem_ofMemberReport listed
  · rfl
  · rfl
  · rfl

end Task

theorem Impact.eq_of_mem_tasks {impact : Impact} {task : Task}
    (listed : task ∈ impact.tasks) :
    ∃ use ∈ impact.uses, task = .register use := by
  obtain ⟨use, isUse, rfl⟩ := List.mem_map.1 listed
  exact ⟨use, isUse, rfl⟩

theorem Impact.isConsequence_tasks {impact : Impact} {task : Task}
    (listed : task ∈ impact.tasks) : task.isConsequence = true := by
  obtain ⟨use, -, rfl⟩ := Impact.eq_of_mem_tasks listed
  rfl

theorem StaticUse.eq_of_mem_creation {use : StaticUse} {task : Task}
    (listed : task ∈ use.creation) :
    ∃ type flags, use.instantiation? = some (type, flags) ∧
      task = .instantiate type (some use.member) flags false := by
  unfold StaticUse.creation at listed
  split at listed
  · rename_i type flags instantiates
    exact ⟨type, flags, instantiates, List.mem_singleton.1 listed⟩
  · simp at listed

namespace Exploration

variable {σ : Type}

/-- What a plain task does to an exploration, and the tasks that follow. -/
inductive Effect (setting : Setting σ) (e : Exploration σ) :
    Task → List Task → Exploration σ → Prop
  | refused {use : Use} (refused : setting.strategy.admits use = false) :
      Effect setting e (.register use) [] e
  | static {use : StaticUse} {world : World} {reports : List MemberReport}
      (admitted : setting.strategy.admits (.static use) = true)
      (registered : setting.scope.registerStatic setting.program use e.world =
        .ok (world, reports)) :
      Effect setting e (.register (.static use))
        (reports.flatMap Task.ofMemberReport ++ use.creation)
        { e with world }
  | dynamic {use : DynamicUse} {world : World} {reports : List MemberReport}
      (admitted : setting.strategy.admits (.dynamic use) = true)
      (registered : setting.scope.registerDynamic setting.program use e.world =
        .ok (world, reports)) :
      Effect setting e (.register (.dynamic use))
        (reports.flatMap Task.ofMemberReport) { e with world }
  | creation {use : TypeUse} {type : InterfaceType}
      {flags : InstantiationFlags}
      (admitted : setting.strategy.admits (.type use) = true)
      (creates : use.kind.creation? = some flags)
      (isInterface : use.type.interface? = some type) :
      Effect setting e (.register (.type use))
        [.instantiate type none flags flags.native] e
  | test {use : TypeUse} {tested : Ty}
      (admitted : setting.strategy.admits (.type use) = true)
      (isTest : use.kind.isTest setting.options = true)
      (unaliased : setting.program.unalias use.type = .ok tested) :
      Effect setting e (.register (.type use)) []
        { e with world := { e.world with
          isChecks := e.world.isChecks.insert tested } }
  | untested {use : TypeUse}
      (admitted : setting.strategy.admits (.type use) = true)
      (isUntested : use.kind = .checkedModeCheck ∧
        setting.options.typeAssertions = false) :
      Effect setting e (.register (.type use)) [] e
  | literal {use : TypeUse}
      (admitted : setting.strategy.admits (.type use) = true)
      (isLiteral : use.kind = .typeLiteral) :
      Effect setting e (.register (.type use)) []
        { e with world := e.world.registerTypeLiteral use.type }
  | superfluous {member : MemberId}
      (processed : e.world.isProcessed member = true) :
      Effect setting e (.demand member) [] e
  | demanded {member : MemberId} {tally : Tally} {journal : List Event}
      (unprocessed : e.world.isProcessed member = false) :
      Effect setting e (.demand member)
        ((setting.listener.hear e.listener (.used member)).1.impact.tasks ++
          [.enlist member])
        { e with
          listener := (setting.listener.hear e.listener (.used member)).2
          tally, journal }
  | enlisted {member : MemberId} {decl : MemberDecl} {world : World}
      {tally : Tally}
      (used : e.world.registerUsed setting.program member = .ok world)
      (declared : setting.program.member member = .ok decl)
      (wellFormed : decl.isMalformed = false)
      (isNew : member ∉ e.issued) :
      Effect setting e (.enlist member) []
        { e with
          world, tally
          issued := member :: e.issued
          queue := e.queue ++ [member] }
  | skipped {member : MemberId} {decl : MemberDecl} {world : World}
      {tally : Tally}
      (used : e.world.registerUsed setting.program member = .ok world)
      (declared : setting.program.member member = .ok decl)
      (malformed : decl.isMalformed = true) :
      Effect setting e (.enlist member) [] { e with world, tally }
  | closurized {member : MemberId} {tally : Tally} {journal : List Event} :
      Effect setting e (.closurize member)
        (setting.listener.hear e.listener (.closurized member)).1.impact.tasks
        { e with
          world := e.world.registerClosurized member
          listener := (setting.listener.hear e.listener (.closurized member)).2
          tally, journal }
  | announced {notice : Notice} {tally : Tally} {journal : List Event} :
      Effect setting e (.announce notice)
        (setting.listener.hear e.listener notice).1.impact.tasks
        { e with
          listener := (setting.listener.hear e.listener notice).2
          tally, journal }
  | entered {cls : ClassId} {world : World} {reports : List MemberReport}
      (entered : e.world.enterClass setting.program setting.scope.live cls =
        .ok (world, reports)) :
      Effect setting e (.enterClass cls)
        (reports.flatMap Task.ofMemberReport ++
          [.announce (.instantiatedClass cls)])
        { e with
          world
          recent := e.recent.add cls
          processedClasses := e.processedClasses.insert cls }
  | instantiated {type : InterfaceType} {constructor : Option MemberId}
      {flags : InstantiationFlags} {isGlobal : Bool} {world : World}
      {reports : List ClassReport}
      (registered : setting.scope.registerInstantiation setting.program type
        constructor flags e.world = .ok (world, reports)) :
      Effect setting e (.instantiate type constructor flags isGlobal)
        (reports.flatMap Task.ofClassReport ++
          [.announce (.instantiatedType type isGlobal flags.native)])
        { e with world }
  | unapplied {impact : Impact} {source : Option Entity}
      (isEmpty : impact.uses = []) :
      Effect setting e (.apply impact source) [] e
  | applied {impact : Impact} {source : Option Entity} {tally : Tally}
      {journal : List Event} :
      Effect setting e (.apply impact source)
        (impact.tasks ++ [.release source]) { e with tally, journal }
  | released {source : Option Entity} :
      Effect setting e (.release source) []
        { e with
          cache :=
            e.policy.afterVisit source setting.phase.useCase e.cache }

variable {setting : Setting σ} {e next : Exploration σ} {task : Task}
  {tasks : List Task}

/-- Absorbing an impact counts it and leads to its uses. -/
theorem absorb_eq (e : Exploration σ) (impact : Impact) :
    ∃ tally, e.absorb impact = (impact.tasks, { e with tally }) := by
  unfold absorb
  split
  · rename_i isEmpty
    refine ⟨e.tally, ?_⟩
    rw [Impact.tasks, Impact.uses_of_isEmpty isEmpty]
    rfl
  · exact ⟨_, rfl⟩

/-- Telling the listener something changes its state, the counts and the
journal, and leads to the uses that it answers. -/
theorem announce_eq (e : Exploration σ) (setting : Setting σ)
    (notice : Notice) :
    ∃ tally journal, e.announce setting notice =
      ((setting.listener.hear e.listener notice).1.impact.tasks,
        { e with
          listener := (setting.listener.hear e.listener notice).2
          tally, journal }) := by
  obtain ⟨tally, absorbed⟩ := absorb_eq (e.tell setting.listener notice).2
    (setting.listener.hear e.listener notice).1.impact
  exact ⟨tally, _, absorbed⟩

theorem effect_of_announce {notice : Notice}
    (announced : e.announce setting notice = (tasks, next)) :
    Effect setting e (.announce notice) tasks next := by
  obtain ⟨tally, journal, isAnnounced⟩ := announce_eq e setting notice
  rw [announced] at isAnnounced
  obtain ⟨rfl, rfl⟩ := Prod.mk.inj isAnnounced
  exact .announced

theorem effect_of_registerType {use : TypeUse}
    (admitted : setting.strategy.admits (.type use) = true)
    (registered : e.registerType setting use = .ok (tasks, next)) :
    Effect setting e (.register (.type use)) tasks next := by
  have creation : ∀ flags, use.kind.creation? = some flags →
      e.instantiateType use flags = .ok (tasks, next) →
        Effect setting e (.register (.type use)) tasks next := by
    intro flags creates planned
    unfold instantiateType at planned
    split at planned
    · rename_i type isInterface
      obtain ⟨rfl, rfl⟩ := Prod.mk.inj (Except.ok.inj planned)
      exact .creation admitted creates isInterface
    · cases planned
  have test : use.kind.isTest setting.options = true →
      (do
        let world ← e.world.registerIsCheck setting.program use.type
        return ([], { e with world })) = .ok (tasks, next) →
        Effect setting e (.register (.type use)) tasks next := by
    intro isTest checked
    simp only [World.registerIsCheck, bind_eq_ok_iff, pure_eq_ok_iff] at checked
    obtain ⟨_, ⟨tested, unaliased, rfl⟩, checked⟩ := checked
    obtain ⟨rfl, rfl⟩ := Prod.mk.inj checked
    exact .test admitted isTest unaliased
  unfold registerType at registered
  split at registered
  · rename_i kind
    exact creation _ (by rw [kind]; rfl) registered
  · rename_i kind
    exact creation _ (by rw [kind]; rfl) registered
  · rename_i kind
    exact creation _ (by rw [kind]; rfl) registered
  · rename_i kind
    exact test (by rw [kind]; rfl) registered
  · rename_i kind
    exact test (by rw [kind]; rfl) registered
  · rename_i kind
    exact test (by rw [kind]; rfl) registered
  · rename_i kind
    split at registered
    · rename_i asserts
      exact test (by rw [kind]; exact asserts) registered
    · rename_i assertsNot
      obtain ⟨rfl, rfl⟩ := Prod.mk.inj (Except.ok.inj registered)
      exact .untested admitted ⟨kind, by simpa using assertsNot⟩
  · rename_i kind
    obtain ⟨rfl, rfl⟩ := Prod.mk.inj (Except.ok.inj registered)
    exact .literal admitted kind

theorem effect_of_register {use : Use}
    (registered : e.step setting (.register use) = .ok (tasks, next)) :
    Effect setting e (.register use) tasks next := by
  unfold step at registered
  dsimp only at registered
  split at registered
  · rename_i admitted
    cases use with
    | static use =>
        simp only [register, registerStatic, bind_eq_ok_iff, pure_eq_ok_iff,
          Prod.mk.injEq, Prod.exists] at registered
        obtain ⟨world, reports, registered, rfl, rfl⟩ := registered
        exact .static admitted registered
    | dynamic use =>
        simp only [register, registerDynamic, bind_eq_ok_iff, pure_eq_ok_iff,
          Prod.mk.injEq, Prod.exists] at registered
        obtain ⟨world, reports, registered, rfl, rfl⟩ := registered
        exact .dynamic admitted registered
    | type use => exact effect_of_registerType admitted registered
  · rename_i refused
    obtain ⟨rfl, rfl⟩ := Prod.mk.inj (Except.ok.inj registered)
    exact .refused (by simpa using refused)

theorem effect_of_demand {member : MemberId}
    (demanded : e.demand setting member = .ok (tasks, next)) :
    Effect setting e (.demand member) tasks next := by
  unfold demand at demanded
  split at demanded
  · rename_i processed
    obtain ⟨rfl, rfl⟩ := Prod.mk.inj (Except.ok.inj demanded)
    exact .superfluous processed
  · rename_i unprocessed
    split at demanded
    · rw [bind_eq_ok_iff] at demanded
      obtain ⟨display, -, impossible⟩ := demanded
      cases impossible
    · obtain ⟨tally, journal, announced⟩ := announce_eq e setting (.used member)
      simp only [announced, Except.ok.injEq, Prod.mk.injEq] at demanded
      obtain ⟨rfl, rfl⟩ := demanded
      exact .demanded (by simpa using unprocessed)

theorem effect_of_enlist {member : MemberId}
    (enlisted : e.enlist setting member = .ok (tasks, next)) :
    Effect setting e (.enlist member) tasks next := by
  simp only [enlist, WorkItem.issue, bind_eq_ok_iff] at enlisted
  obtain ⟨world, used, issued, ⟨decl, declared, issued_eq⟩, enlisted⟩ := enlisted
  split at issued_eq
  · rename_i malformed
    simp only [pure_eq_ok_iff] at issued_eq
    subst issued_eq
    simp only [pure_eq_ok_iff, Prod.mk.injEq] at enlisted
    obtain ⟨rfl, rfl⟩ := enlisted
    exact .skipped used declared malformed
  · rename_i wellFormed
    split at issued_eq
    · rw [bind_eq_ok_iff] at issued_eq
      obtain ⟨display, -, impossible⟩ := issued_eq
      cases impossible
    · rename_i isNew
      simp only [pure_eq_ok_iff] at issued_eq
      subst issued_eq
      simp only [pure_eq_ok_iff, Prod.mk.injEq] at enlisted
      obtain ⟨rfl, rfl⟩ := enlisted
      exact .enlisted used declared (by simpa using wellFormed) isNew

theorem effect_of_apply {impact : Impact} {source : Option Entity}
    (applied : e.apply setting impact source = (tasks, next)) :
    Effect setting e (.apply impact source) tasks next := by
  unfold apply at applied
  split at applied
  · rename_i isEmpty
    obtain ⟨rfl, rfl⟩ := Prod.mk.inj applied
    exact .unapplied (Impact.uses_of_isEmpty isEmpty)
  · obtain ⟨rfl, rfl⟩ := Prod.mk.inj applied
    split
    · exact .applied
    · exact .applied

/-- A step of a plain task has one of the listed effects. -/
theorem effect_of_step (isPlain : task.isPlain = true)
    (stepped : e.step setting task = .ok (tasks, next)) :
    Effect setting e task tasks next := by
  cases task with
  | register use => exact effect_of_register stepped
  | demand member => exact effect_of_demand stepped
  | enlist member => exact effect_of_enlist stepped
  | closurize member =>
      have announced := Except.ok.inj stepped
      obtain ⟨tally, journal, isAnnounced⟩ := announce_eq
        { e with world := e.world.registerClosurized member } setting
        (.closurized member)
      rw [announced] at isAnnounced
      obtain ⟨rfl, rfl⟩ := Prod.mk.inj isAnnounced
      exact .closurized
  | announce notice => exact effect_of_announce (Except.ok.inj stepped)
  | enterClass cls =>
      simp only [step, enterClass, bind_eq_ok_iff, pure_eq_ok_iff,
        Prod.mk.injEq, Prod.exists] at stepped
      obtain ⟨world, reports, entered, rfl, rfl⟩ := stepped
      exact .entered entered
  | instantiate type constructor flags isGlobal =>
      simp only [step, instantiate, bind_eq_ok_iff, pure_eq_ok_iff,
        Prod.mk.injEq, Prod.exists] at stepped
      obtain ⟨world, reports, registered, rfl, rfl⟩ := stepped
      exact .instantiated registered
  | apply impact source => exact effect_of_apply (Except.ok.inj stepped)
  | release source =>
      obtain ⟨rfl, rfl⟩ := Prod.mk.inj (Except.ok.inj stepped)
      exact .released
  | command | takeNext | finish | drained | runDeferred | resume =>
      cases isPlain

/-- What follows from a plain task is a consequence, or does away with the impact
that has been applied. -/
theorem Effect.follows (effect : Effect setting e task tasks next)
    {follower : Task} (listed : follower ∈ tasks) :
    follower.isConsequence = true ∨
      ∃ impact source, task = .apply impact source ∧
        follower = .release source := by
  cases effect with
  | static =>
      rcases List.mem_append.1 listed with reported | creates
      · exact .inl (Task.isConsequence_ofMemberReport reported)
      · obtain ⟨type, flags, -, rfl⟩ := StaticUse.eq_of_mem_creation creates
        exact .inl rfl
  | dynamic => exact .inl (Task.isConsequence_ofMemberReport listed)
  | demanded =>
      rcases List.mem_append.1 listed with registers | last
      · exact .inl (Impact.isConsequence_tasks registers)
      · obtain rfl := List.mem_singleton.1 last
        exact .inl rfl
  | closurized | announced => exact .inl (Impact.isConsequence_tasks listed)
  | entered =>
      rcases List.mem_append.1 listed with reported | last
      · exact .inl (Task.isConsequence_ofMemberReport reported)
      · obtain rfl := List.mem_singleton.1 last
        exact .inl rfl
  | instantiated =>
      rcases List.mem_append.1 listed with reported | last
      · obtain ⟨report, -, ⟨-, rfl⟩ | ⟨-, rfl⟩⟩ :=
          Task.eq_of_mem_ofClassReport reported
        · exact .inl rfl
        · exact .inl rfl
      · obtain rfl := List.mem_singleton.1 last
        exact .inl rfl
  | applied =>
      rcases List.mem_append.1 listed with registers | last
      · exact .inl (Impact.isConsequence_tasks registers)
      · exact .inr ⟨_, _, rfl, List.mem_singleton.1 last⟩
  | creation =>
      obtain rfl := List.mem_singleton.1 listed
      exact .inl rfl
  | refused | test | untested | literal | superfluous | enlisted | skipped
  | unapplied | released => simp at listed

theorem Effect.isPlain (effect : Effect setting e task tasks next) :
    ∀ follower ∈ tasks, follower.isPlain = true := by
  intro follower listed
  rcases effect.follows listed with consequence | ⟨impact, source, -, rfl⟩
  · exact Task.isPlain_of_isConsequence consequence
  · rfl

/-- Carrying out a plain task among others leaves plain tasks. -/
theorem Effect.isPlain_append {work : List Task}
    (effect : Effect setting e task tasks next)
    (isPlain : ∀ other ∈ task :: work, other.isPlain = true) :
    ∀ other ∈ tasks ++ work, other.isPlain = true := by
  intro other listed
  rcases List.mem_append.1 listed with follows | waits
  · exact effect.isPlain other follows
  · exact isPlain other (List.mem_cons_of_mem _ waits)

end Exploration

end TreeShaking
