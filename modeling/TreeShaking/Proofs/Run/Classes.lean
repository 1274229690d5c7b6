import TreeShaking.Proofs.Run.Lifecycle

/-!
# Classes in an exploration

What an exploration knows about classes follows from the instantiations that the
uses of its history ask for.  An instantiation is carried out or still planned
(`Classes.done`); what has come about goes back to one (`Classes.direct`,
`Classes.instantiated`, `Classes.implemented`); and a class that has instances is
entered once (`Classes.entered`).
-/

namespace TreeShaking

open Outcome World

/-- Whether a task enters a class. -/
def Task.enters (cls : ClassId) : Task → Bool
  | .enterClass other => other = cls
  | _ => false

/-- Whether a task has to do with classes. -/
def Task.concernsClass : Task → Bool
  | .enterClass _ | .instantiate _ _ _ _ => true
  | _ => false

theorem Task.countP_enters_of_unconcerned {tasks : List Task}
    (unconcerned : ∀ task ∈ tasks, task.concernsClass = false)
    (cls : ClassId) : tasks.countP (enters cls) = 0 := by
  rw [List.countP_eq_zero]
  intro task listed
  have isUnconcerned := unconcerned task listed
  cases task <;> simp_all [Task.concernsClass, enters]

theorem Task.countP_enters_ofClassReport (reports : List ClassReport)
    (cls : ClassId) :
    (reports.flatMap ofClassReport).countP (enters cls) =
      instanceTellings reports cls := by
  induction reports with
  | nil => rfl
  | cons report reports ih =>
      rw [List.flatMap_cons, List.countP_append, ih, instanceTellings_cons]
      congr 1
      obtain ⟨other, instantiated, implemented⟩ := report
      cases instantiated <;> cases implemented <;>
        by_cases same : other = cls <;>
          simp [ofClassReport, enters, same]

theorem Task.unconcerned_ofMemberReport (reports : List MemberReport) :
    ∀ task ∈ reports.flatMap ofMemberReport, task.concernsClass = false := by
  intro task listed
  obtain ⟨report, -, ⟨-, rfl⟩ | ⟨-, rfl⟩ | ⟨-, rfl⟩⟩ :=
    eq_of_mem_ofMemberReport listed
  · rfl
  · rfl
  · rfl

theorem Impact.unconcerned_tasks (impact : Impact) :
    ∀ task ∈ impact.tasks, task.concernsClass = false := by
  intro task listed
  obtain ⟨use, -, rfl⟩ := Impact.eq_of_mem_tasks listed
  rfl

/-- The uses ask for an instantiation of a class, possibly with flags. -/
def Asks (history : List Use) (type : InterfaceType)
    (flags : InstantiationFlags) : Prop :=
  ∃ use ∈ history, use.instantiation? = some (type, flags)

theorem Asks.append_left {history : List Use} {type : InterfaceType}
    {flags : InstantiationFlags} (asks : Asks history type flags)
    (news : List Use) : Asks (history ++ news) type flags := by
  obtain ⟨use, told, instantiates⟩ := asks
  exact ⟨use, List.mem_append_left _ told, instantiates⟩

/-- An instantiation of a class has been carried out. -/
structure World.Carries (world : World) (program : Program) (cls : ClassId)
    (flags : InstantiationFlags) : Prop where
  direct : program.Creates cls flags → cls ∈ world.direct
  implemented : ∀ above, program.HasSupertype cls above →
    above ∈ world.implemented

/-- Two worlds know the same about classes. -/
structure World.SameClasses (before after : World) : Prop where
  classUsage : after.classUsage = before.classUsage
  direct : after.direct = before.direct
  implemented : after.implemented = before.implemented

namespace World.SameClasses

variable {before after : World} {program : Program}

theorem isInstantiated (same : SameClasses before after) (cls : ClassId) :
    after.isInstantiated cls = before.isInstantiated cls := by
  rw [World.isInstantiated, World.isInstantiated, same.classUsage]

theorem closed (same : SameClasses before after)
    (closed : before.ClassesClosed program) : after.ClassesClosed program where
  chains := by simpa only [same.isInstantiated] using closed.chains
  supertypes := same.implemented ▸ closed.supertypes
  direct := by
    rw [same.direct]
    simpa only [same.isInstantiated] using closed.direct

theorem carries (same : SameClasses before after) {cls : ClassId}
    {flags : InstantiationFlags} (carries : before.Carries program cls flags) :
    after.Carries program cls flags where
  direct := same.direct ▸ carries.direct
  implemented := same.implemented ▸ carries.implemented

end World.SameClasses

theorem World.SameElsewhere.sameClasses {before after : World}
    (elsewhere : SameElsewhere before after) : SameClasses before after :=
  ⟨elsewhere.classUsage, elsewhere.direct, elsewhere.implemented⟩

namespace Exploration

variable {σ : Type} {setting : Setting σ} {routine : Routine}

structure Classes (setting : Setting σ) (history : List Use)
    (work : List Task) (e : Exploration σ) : Prop where
  closed : e.world.ClassesClosed setting.program
  /-- Only instantiations that are asked for are planned. -/
  planned : ∀ type constructor flags isGlobal,
    .instantiate type constructor flags isGlobal ∈ work →
      Asks history type flags
  /-- What is asked for is carried out or planned. -/
  done : ∀ type flags, Asks history type flags →
    e.world.Carries setting.program type.cls flags ∨
      ∃ constructor isGlobal, .instantiate type constructor flags isGlobal ∈ work
  direct : ∀ cls ∈ e.world.direct, ∃ type flags, Asks history type flags ∧
    type.cls = cls ∧ setting.program.Creates cls flags
  instantiated : ∀ cls, e.world.isInstantiated cls = true →
    ∃ lower ∈ e.world.direct, setting.program.HasSuperclass lower cls
  implemented : ∀ cls ∈ e.world.implemented, ∃ type flags,
    Asks history type flags ∧ setting.program.HasSupertype type.cls cls
  /-- A class that has instances is entered, or about to be. -/
  entered : ∀ cls, work.countP (Task.enters cls) +
    (decide (cls ∈ e.processedClasses)).toNat =
      (e.world.isInstantiated cls).toNat

variable {history news : List Use} {task : Task} {work tasks : List Task}
  {e next : Exploration σ}

/-- Uses may be noticed, with the instantiations that they ask for planned. -/
theorem Classes.noted (carriedOut : List Task)
    (classes : Classes setting history (carriedOut ++ work) e)
    (unconcerned : ∀ other ∈ carriedOut, other.concernsClass = false)
    (enters : ∀ cls, tasks.countP (Task.enters cls) = 0)
    (planned : ∀ type constructor flags isGlobal,
      .instantiate type constructor flags isGlobal ∈ tasks →
        Asks news type flags)
    (asked : ∀ type flags, Asks news type flags →
      ∃ constructor isGlobal,
        .instantiate type constructor flags isGlobal ∈ tasks)
    (same : SameClasses e.world next.world)
    (processedClasses : next.processedClasses = e.processedClasses) :
    Classes setting (history ++ news) (tasks ++ work) next := by
  refine
    { closed := same.closed classes.closed
      planned := fun type constructor flags isGlobal listed => ?_
      done := fun type flags asks => ?_
      direct := fun cls isDirect => ?_
      instantiated := fun cls now => ?_
      implemented := fun cls isImplemented => ?_
      entered := fun cls => ?_ }
  · rcases List.mem_append.1 listed with new | old
    · obtain ⟨use, told, instantiates⟩ := planned _ _ _ _ new
      exact ⟨use, List.mem_append_right _ told, instantiates⟩
    · exact (classes.planned _ _ _ _
        (List.mem_append_right _ old)).append_left _
  · obtain ⟨use, told, instantiates⟩ := asks
    rcases List.mem_append.1 told with old | new
    · rcases classes.done type flags ⟨use, old, instantiates⟩ with
        isDone | ⟨constructor, isGlobal, listed⟩
      · exact .inl (same.carries isDone)
      · refine .inr ⟨constructor, isGlobal, List.mem_append_right _ ?_⟩
        refine (List.mem_append.1 listed).resolve_left fun isDone => ?_
        cases unconcerned _ isDone
    · obtain ⟨constructor, isGlobal, listed⟩ :=
        asked type flags ⟨use, new, instantiates⟩
      exact .inr ⟨constructor, isGlobal, List.mem_append_left _ listed⟩
  · rw [same.direct] at isDirect
    obtain ⟨type, flags, asks, rest⟩ := classes.direct cls isDirect
    exact ⟨type, flags, asks.append_left _, rest⟩
  · rw [same.isInstantiated] at now
    rw [same.direct]
    exact classes.instantiated cls now
  · rw [same.implemented] at isImplemented
    obtain ⟨type, flags, asks, rest⟩ := classes.implemented cls isImplemented
    exact ⟨type, flags, asks.append_left _, rest⟩
  · have known := classes.entered cls
    rw [List.countP_append,
      Task.countP_enters_of_unconcerned unconcerned] at known
    rw [List.countP_append, enters, processedClasses, same.isInstantiated]
    exact known

/-- Tasks that have nothing to do with classes follow from a task that asks for
no instantiation. -/
theorem Classes.unconcerned (carriedOut : List Task)
    (classes : Classes setting history (carriedOut ++ work) e)
    (unconcerned : ∀ other ∈ carriedOut, other.concernsClass = false)
    (tasksUnconcerned : ∀ other ∈ tasks, other.concernsClass = false)
    (silent : ∀ use ∈ news, use.instantiation? = none)
    (same : SameClasses e.world next.world)
    (processedClasses : next.processedClasses = e.processedClasses) :
    Classes setting (history ++ news) (tasks ++ work) next := by
  refine classes.noted carriedOut unconcerned
    (Task.countP_enters_of_unconcerned tasksUnconcerned) ?_ ?_ same
    processedClasses
  · intro type constructor flags isGlobal listed
    cases tasksUnconcerned _ listed
  · rintro type flags ⟨use, told, instantiates⟩
    rw [silent use told] at instantiates
    cases instantiates

theorem Classes.kept (classes : Classes setting history (task :: work) e)
    (unconcerned : task.concernsClass = false)
    (tasksUnconcerned : ∀ other ∈ tasks, other.concernsClass = false)
    (silent : ∀ use ∈ news, use.instantiation? = none)
    (same : SameClasses e.world next.world)
    (processedClasses : next.processedClasses = e.processedClasses) :
    Classes setting (history ++ news) (tasks ++ work) next :=
  classes.unconcerned [task] (by simpa using unconcerned) tasksUnconcerned
    silent same processedClasses

theorem Classes.begin (classes : Classes setting history [] e)
    (unconcerned : ∀ other ∈ work, other.concernsClass = false)
    (same : SameClasses e.world next.world)
    (processedClasses : next.processedClasses = e.processedClasses) :
    Classes setting history work next := by
  have silent : ∀ use ∈ ([] : List Use), use.instantiation? = none := by simp
  have begun := classes.unconcerned [] (by simp) unconcerned silent same
    processedClasses
  rwa [List.append_nil, List.append_nil] at begun

theorem Classes.enter {cls : ClassId}
    (classes : Classes setting history (.enterClass cls :: work) e)
    (tasksUnconcerned : ∀ other ∈ tasks, other.concernsClass = false)
    (same : SameClasses e.world next.world)
    (processedClasses : next.processedClasses = e.processedClasses.insert cls) :
    Classes setting history (tasks ++ work) next := by
  have planned : ∀ type constructor flags isGlobal,
      Task.instantiate type constructor flags isGlobal ∈ tasks ++ work ↔
        Task.instantiate type constructor flags isGlobal ∈
          Task.enterClass cls :: work := by
    intro type constructor flags isGlobal
    simp only [List.mem_append, List.mem_cons, reduceCtorEq, false_or,
      or_iff_right_iff_imp]
    intro listed
    cases tasksUnconcerned _ listed
  refine
    { closed := same.closed classes.closed
      planned := fun type constructor flags isGlobal listed =>
        classes.planned _ _ _ _ ((planned _ _ _ _).1 listed)
      done := fun type flags asks => ?_
      direct := same.direct ▸ classes.direct
      instantiated := fun other now => ?_
      implemented := same.implemented ▸ classes.implemented
      entered := fun other => ?_ }
  · rcases classes.done type flags asks with
      carries | ⟨constructor, isGlobal, listed⟩
    · exact .inl (same.carries carries)
    · exact .inr ⟨constructor, isGlobal, (planned _ _ _ _).2 listed⟩
  · rw [same.isInstantiated] at now
    rw [same.direct]
    exact classes.instantiated other now
  · have known := classes.entered other
    have bound := Bool.toNat_le (e.world.isInstantiated other)
    rw [List.countP_append, Task.countP_enters_of_unconcerned tasksUnconcerned,
      processedClasses, same.isInstantiated]
    by_cases isCls : other = cls
    · -- Its entry leaves the agenda and the class joins those entered.  It was
      -- not among them before, for the sum is at most one.
      subst isCls
      rw [List.countP_cons_of_pos (by simp [Task.enters])] at known
      simp only [List.mem_insert_self, decide_true, Bool.toNat_true]
      omega
    · rw [List.countP_cons_of_neg (by simp [Task.enters, Ne.symm isCls])] at known
      simpa [isCls] using known

theorem Classes.instantiate {type : InterfaceType}
    {constructor : Option MemberId} {flags : InstantiationFlags}
    {isGlobal : Bool} {reports : List ClassReport} {extra : List Task}
    (classes : Classes setting history
      (.instantiate type constructor flags isGlobal :: work) e)
    (extraUnconcerned : ∀ other ∈ extra, other.concernsClass = false)
    (instantiates : Instantiates e.world next.world setting.program type.cls
      flags reports)
    (processedClasses : next.processedClasses = e.processedClasses) :
    Classes setting history
      (reports.flatMap Task.ofClassReport ++ extra ++ work) next := by
  have asks : Asks history type flags :=
    classes.planned _ _ _ _ List.mem_cons_self
  have carried : next.world.Carries setting.program type.cls flags := by
    refine ⟨fun creates => ?_, fun above isAbove => ?_⟩
    · exact (instantiates.direct type.cls).2 (.inr ⟨rfl, creates⟩)
    · exact (instantiates.implemented above).2 (.inr isAbove)
  refine
    { closed := instantiates.closed
      planned := fun other constructor flags isGlobal listed => ?_
      done := fun other otherFlags otherAsks => ?_
      direct := fun cls isDirect => ?_
      instantiated := fun cls now => ?_
      implemented := fun cls isImplemented => ?_
      entered := fun cls => ?_ }
  · rcases List.mem_append.1 listed with new | old
    · exfalso
      rcases List.mem_append.1 new with reported | isExtra
      · obtain ⟨report, -, ⟨-, same⟩ | ⟨-, same⟩⟩ :=
          Task.eq_of_mem_ofClassReport reported
        · cases same
        · cases same
      · cases extraUnconcerned _ isExtra
    · exact classes.planned _ _ _ _ (List.mem_cons_of_mem _ old)
  · rcases classes.done other otherFlags otherAsks with
      ⟨isDirect, isImplemented⟩ | ⟨otherConstructor, otherGlobal, listed⟩
    · refine .inl ⟨fun creates => ?_, fun above isAbove => ?_⟩
      · exact (instantiates.direct other.cls).2 (.inl (isDirect creates))
      · exact (instantiates.implemented above).2
          (.inl (isImplemented above isAbove))
    · rcases List.mem_cons.1 listed with same | old
      · obtain ⟨rfl, -, rfl, -⟩ := Task.instantiate.inj same
        exact .inl carried
      · exact .inr ⟨otherConstructor, otherGlobal, List.mem_append_right _ old⟩
  · rcases (instantiates.direct cls).1 isDirect with old | ⟨rfl, creates⟩
    · exact classes.direct cls old
    · exact ⟨type, flags, asks, rfl, creates⟩
  · rcases (instantiates.instantiated cls).1 now with old | ⟨creates, inherits⟩
    · obtain ⟨lower, isDirect, isAbove⟩ := classes.instantiated cls old
      exact ⟨lower, (instantiates.direct lower).2 (.inl isDirect), isAbove⟩
    · exact ⟨type.cls, carried.direct creates, inherits⟩
  · rcases (instantiates.implemented cls).1 isImplemented with old | isAbove
    · exact classes.implemented cls old
    · exact ⟨type, flags, asks, isAbove⟩
  · have known := classes.entered cls
    have told := instantiates.tellings cls
    rw [List.countP_cons_of_neg (by simp [Task.enters])] at known
    rw [List.countP_append, List.countP_append,
      Task.countP_enters_ofClassReport,
      Task.countP_enters_of_unconcerned extraUnconcerned, processedClasses]
    omega

/-- A static use plans the instantiation that it asks for. -/
theorem Classes.static {use : StaticUse} {reports : List MemberReport}
    (classes : Classes setting history (.register (.static use) :: work) e)
    (same : SameClasses e.world next.world)
    (processedClasses : next.processedClasses = e.processedClasses) :
    Classes setting (history ++ [.static use])
      (reports.flatMap Task.ofMemberReport ++ use.creation ++ work) next := by
  have reported := Task.unconcerned_ofMemberReport reports
  refine classes.noted [_] (by simp [Task.concernsClass]) (fun cls => ?_) ?_ ?_
    same processedClasses
  · rw [List.countP_append, Task.countP_enters_of_unconcerned reported,
      StaticUse.creation]
    split <;> simp [Task.enters]
  · intro type constructor flags isGlobal listed
    rcases List.mem_append.1 listed with isReport | creates
    · cases reported _ isReport
    · refine ⟨_, List.mem_singleton_self _, ?_⟩
      obtain ⟨asked, askedFlags, instantiates, same⟩ :=
        StaticUse.eq_of_mem_creation creates
      obtain ⟨rfl, -, rfl, -⟩ := Task.instantiate.inj same
      exact instantiates
  · rintro type flags ⟨_, told, instantiates⟩
    obtain rfl := List.mem_singleton.1 told
    refine ⟨some use.member, false, List.mem_append_right _ ?_⟩
    rw [StaticUse.creation,
      show use.instantiation? = some (type, flags) from instantiates]
    exact List.mem_singleton_self _

theorem Classes.step (built : setting.program.Built)
    (books : Books setting history e)
    (classes : Classes setting history (task :: work) e)
    (effect : Effect setting e task tasks next) :
    Classes setting (history ++ task.noticed setting) (tasks ++ work) next := by
  cases effect with
  | static admitted registered =>
      rw [noticed_of_admitted admitted]
      have learns := Scope.learns_static books registered
      exact classes.static learns.elsewhere.sameClasses rfl
  | dynamic admitted registered =>
      have learns := Scope.learns_dynamic books registered
      rw [noticed_of_admitted admitted]
      exact classes.kept rfl (Task.unconcerned_ofMemberReport _)
        (by simp [Use.instantiation?]) learns.elsewhere.sameClasses rfl
  | entered entered =>
      have learns := World.Balanced.learns_class books entered
      simp only [Task.noticed, List.append_nil]
      refine classes.enter (fun other listed => ?_) learns.elsewhere.sameClasses
        rfl
      rcases List.mem_append.1 listed with reported | announces
      · exact Task.unconcerned_ofMemberReport _ other reported
      · obtain rfl := List.mem_singleton.1 announces
        rfl
  | instantiated registered =>
      simp only [Task.noticed, List.append_nil]
      exact classes.instantiate (by simp [Task.concernsClass])
        (classes.closed.registerInstantiation built
          (Scope.registerInstantiation_within registered)) rfl
  | @creation use type flags admitted creates isInterface =>
      rw [noticed_of_admitted admitted]
      have instantiates : (Use.type use).instantiation? = some (type, flags) := by
        simp [Use.instantiation?, creates, isInterface]
      refine classes.noted [_] (by simp [Task.concernsClass])
        (by simp [Task.enters]) ?_ ?_ ⟨rfl, rfl, rfl⟩ rfl
      · intro other constructor otherFlags isGlobal listed
        obtain ⟨rfl, -, rfl, -⟩ :=
          Task.instantiate.inj (List.mem_singleton.1 listed)
        exact ⟨_, List.mem_singleton_self _, instantiates⟩
      · rintro other otherFlags ⟨_, told, otherInstantiates⟩
        obtain rfl := List.mem_singleton.1 told
        rw [instantiates] at otherInstantiates
        cases otherInstantiates
        exact ⟨none, flags.native, List.mem_singleton_self _⟩
  | @test use tested admitted isTest unaliased =>
      rw [noticed_of_admitted admitted]
      refine classes.kept rfl (by simp) ?_ ⟨rfl, rfl, rfl⟩ rfl
      cases kind : use.kind <;>
        simp_all [Use.instantiation?, TypeUseKind.isTest, TypeUseKind.creation?]
  | untested admitted isUntested =>
      rw [noticed_of_admitted admitted]
      exact classes.kept rfl (by simp)
        (by simp [Use.instantiation?, isUntested.1, TypeUseKind.creation?])
        ⟨rfl, rfl, rfl⟩ rfl
  | literal admitted isLiteral =>
      rw [noticed_of_admitted admitted]
      exact classes.kept rfl (by simp)
        (by simp [Use.instantiation?, isLiteral, TypeUseKind.creation?])
        ⟨rfl, rfl, rfl⟩ rfl
  | refused refused =>
      exact classes.kept rfl (by simp) (by simp [Task.noticed, refused])
        ⟨rfl, rfl, rfl⟩ rfl
  | superfluous | unapplied | released =>
      exact classes.kept rfl (by simp) (by simp [Task.noticed])
        ⟨rfl, rfl, rfl⟩ rfl
  | enlisted used | skipped used =>
      simp only [registerUsed, bind_eq_ok_iff, pure_eq_ok_iff] at used
      obtain ⟨decl, -, rfl⟩ := used
      exact classes.kept rfl (by simp) (by simp [Task.noticed])
        ⟨rfl, rfl, rfl⟩ rfl
  | closurized | announced =>
      exact classes.kept rfl (Impact.unconcerned_tasks _)
        (by simp [Task.noticed]) ⟨rfl, rfl, rfl⟩ rfl
  | demanded | applied =>
      refine classes.kept rfl (fun other listed => ?_) (by simp [Task.noticed])
        ⟨rfl, rfl, rfl⟩ rfl
      rcases List.mem_append.1 listed with registers | last
      · exact Impact.unconcerned_tasks _ other registers
      · obtain rfl := List.mem_singleton.1 last
        rfl

theorem Classes.turn {stage nextStage : Stage}
    (classes : Classes setting history [] e)
    (turn : Turn setting routine e stage work nextStage next) :
    Classes setting history work next := by
  cases turn with
  | drained =>
      exact classes.begin (Impact.unconcerned_tasks _) ⟨rfl, rfl, rfl⟩ rfl
  | emptied | passed | taken | putOff | closed | finished | allCarriedOut
  | resumed | settled | applying | imposed | carriedOut =>
      exact classes.begin (by simp [Task.concernsClass]) ⟨rfl, rfl, rfl⟩ rfl

theorem classes_of_fresh (world : e.world = {})
    (entered : e.processedClasses = []) : Classes setting [] [] e where
  closed := world ▸ classesClosed_empty setting.program
  planned := by simp
  done := by
    rintro type flags ⟨use, told, -⟩
    simp at told
  direct := by simp [world]
  instantiated := by simp [world, World.isInstantiated]
  implemented := by simp [world]
  entered := by simp [world, entered, World.isInstantiated]

/-! ### What is known between operations -/

theorem Classes.mem_direct_iff (classes : Classes setting history [] e)
    (cls : ClassId) :
    cls ∈ e.world.direct ↔ ∃ type flags, Asks history type flags ∧
      type.cls = cls ∧ setting.program.Creates cls flags := by
  refine ⟨classes.direct cls, ?_⟩
  rintro ⟨type, flags, asks, rfl, creates⟩
  exact ((classes.done type flags asks).resolve_right (by simp)).direct creates

theorem Classes.mem_implemented_iff (classes : Classes setting history [] e)
    (cls : ClassId) :
    cls ∈ e.world.implemented ↔ ∃ type flags, Asks history type flags ∧
      setting.program.HasSupertype type.cls cls := by
  refine ⟨classes.implemented cls, ?_⟩
  rintro ⟨type, flags, asks, isAbove⟩
  exact ((classes.done type flags asks).resolve_right (by simp)).implemented cls
    isAbove

theorem Classes.isInstantiated_iff (classes : Classes setting history work e)
    (cls : ClassId) :
    e.world.isInstantiated cls = true ↔
      ∃ lower ∈ e.world.direct, setting.program.HasSuperclass lower cls := by
  refine ⟨classes.instantiated cls, ?_⟩
  rintro ⟨lower, isDirect, chain, walked, onChain⟩
  obtain ⟨known, knownWalked, all⟩ :=
    classes.closed.chains lower (classes.closed.direct lower isDirect)
  rw [walked] at knownWalked
  cases knownWalked
  exact all cls onChain

theorem Classes.isInstantiated_of_entered
    (classes : Classes setting history work e) {cls : ClassId}
    (entered : cls ∈ e.processedClasses) :
    e.world.isInstantiated cls = true := by
  have known := classes.entered cls
  cases instantiated : e.world.isInstantiated cls with
  | true => rfl
  | false => simp [entered, instantiated] at known

theorem Classes.mem_processedClasses_iff
    (classes : Classes setting history [] e) (cls : ClassId) :
    cls ∈ e.processedClasses ↔ e.world.isInstantiated cls = true := by
  refine ⟨classes.isInstantiated_of_entered, fun instantiated => ?_⟩
  have known := classes.entered cls
  by_contra absent
  simp [absent, instantiated] at known

end Exploration

end TreeShaking
