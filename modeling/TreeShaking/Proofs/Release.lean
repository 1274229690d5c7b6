import TreeShaking.Proofs.Replay

/-!
# Releasing impacts makes no difference

Resolution reads the impact of a member from the store when it processes the
member.  The policy may do away with the impact afterwards, and which impacts
stay depends on who is going to read them again.  The exploration itself never
notices: an impact is done away with only after its single reader has read it.

So an exploration that reads from the store takes the same steps as one that
reads from a table that never changes.  To compare the two, the store and the
policy are left out of account (`Exploration.bare`).
-/

namespace TreeShaking

open Outcome

/-- The options without the later readers of impacts. -/
def Options.withoutReaders (options : Options) : Options :=
  { options with deferredLoad := false, dumpInfo := false }

/-- The setting in which impacts are read from a fixed table, and by nobody
else. -/
def Setting.reading {σ : Type} (setting : Setting σ)
    (impacts : Table MemberId Impact) : Setting σ :=
  { setting with
    source := .table impacts
    options := setting.options.withoutReaders }

namespace Exploration

variable {σ : Type} {setting : Setting σ} {impacts : Table MemberId Impact}
  {e : Exploration σ}

/-- The exploration without its store of impacts. -/
def bare (e : Exploration σ) : Exploration σ :=
  { e with cache := {}, policy := .retaining }

/-- What follows from a step, without the store. -/
def bareProgress (progress : Progress σ) : Progress σ :=
  (progress.1, progress.2.bare)

/-! ### Steps -/

theorem absorb_bare (e : Exploration σ) (impact : Impact) :
    e.bare.absorb impact = bareProgress (e.absorb impact) := by
  unfold absorb
  split
  · rfl
  · rfl

theorem announce_bare (e : Exploration σ) (setting : Setting σ)
    (impacts : Table MemberId Impact) (notice : Notice) :
    e.bare.announce (setting.reading impacts) notice =
      bareProgress (e.announce setting notice) :=
  absorb_bare (e.tell setting.listener notice).2 _

theorem foldl_addRecent_bare (classes : List ClassId) (e : Exploration σ) :
    classes.foldl addRecent e.bare = (classes.foldl addRecent e).bare := by
  induction classes generalizing e with
  | nil => rfl
  | cons cls rest ih => exact ih (e.addRecent cls)

theorem registerType_bare (e : Exploration σ) (setting : Setting σ)
    (impacts : Table MemberId Impact) (use : TypeUse) :
    e.bare.registerType (setting.reading impacts) use =
      (e.registerType setting use).map bareProgress := by
  have creation : ∀ flags, e.bare.instantiateType use flags =
      (e.instantiateType use flags).map bareProgress := by
    intro flags
    unfold instantiateType
    split
    · rfl
    · rfl
  have test : (do
        let world ← e.world.registerIsCheck setting.program use.type
        return ([], { e.bare with world }) : Except Failure (Progress σ)) =
      (do
        let world ← e.world.registerIsCheck setting.program use.type
        return ([], { e with world }) : Except Failure (Progress σ)).map
          bareProgress := by
    cases e.world.registerIsCheck setting.program use.type with
    | ok world => rfl
    | error failure => rfl
  unfold registerType
  split
  · exact creation _
  · exact creation _
  · exact creation _
  · exact test
  · exact test
  · exact test
  · change (if setting.options.typeAssertions = true then _ else _) = _
    split
    · exact test
    · rfl
  · rfl

theorem register_bare (e : Exploration σ) (setting : Setting σ)
    (impacts : Table MemberId Impact) (use : Use) :
    e.bare.register (setting.reading impacts) use =
      (e.register setting use).map bareProgress := by
  cases use with
  | static use =>
      change e.bare.registerStatic setting use =
        (e.registerStatic setting use).map bareProgress
      unfold registerStatic
      change (setting.scope.registerStatic setting.program use e.world >>= _) = _
      cases setting.scope.registerStatic setting.program use e.world with
      | ok outcome => rfl
      | error failure => rfl
  | dynamic use =>
      change e.bare.registerDynamic setting use =
        (e.registerDynamic setting use).map bareProgress
      unfold registerDynamic
      change (setting.scope.registerDynamic setting.program use e.world >>= _) = _
      cases setting.scope.registerDynamic setting.program use e.world with
      | ok outcome => rfl
      | error failure => rfl
  | type use => exact registerType_bare e setting impacts use

theorem demand_bare (e : Exploration σ) (setting : Setting σ)
    (impacts : Table MemberId Impact) (member : MemberId) :
    e.bare.demand (setting.reading impacts) member =
      (e.demand setting member).map bareProgress := by
  unfold demand
  change (if e.world.isProcessed member = true then _ else
    if e.state = .closed then _ else _) = _
  split
  · rfl
  · split
    · change (setting.program.memberDisplay member >>= _) = _
      cases setting.program.memberDisplay member with
      | ok display => rfl
      | error failure => rfl
    · rw [announce_bare]
      rfl

theorem enlist_bare (e : Exploration σ) (setting : Setting σ)
    (impacts : Table MemberId Impact) (member : MemberId) :
    e.bare.enlist (setting.reading impacts) member =
      (e.enlist setting member).map bareProgress := by
  unfold enlist
  change (e.world.registerUsed setting.program member >>= fun world =>
    WorkItem.issue setting.program e.issued member >>= _) = _
  cases e.world.registerUsed setting.program member with
  | error failure => rfl
  | ok world =>
      change (WorkItem.issue setting.program e.issued member >>= _) =
        (WorkItem.issue setting.program e.issued member >>= _).map _
      cases WorkItem.issue setting.program e.issued member with
      | error failure => rfl
      | ok issued => cases issued <;> rfl

theorem enterClass_bare (e : Exploration σ) (setting : Setting σ)
    (impacts : Table MemberId Impact) (cls : ClassId) :
    e.bare.enterClass (setting.reading impacts) cls =
      (e.enterClass setting cls).map bareProgress := by
  unfold enterClass
  change (e.world.enterClass setting.program setting.scope.live cls >>= _) =
    (e.world.enterClass setting.program setting.scope.live cls >>= _).map _
  cases e.world.enterClass setting.program setting.scope.live cls with
  | ok outcome => rfl
  | error failure => rfl

theorem instantiate_bare (e : Exploration σ) (setting : Setting σ)
    (impacts : Table MemberId Impact) (type : InterfaceType)
    (constructor : Option MemberId) (flags : InstantiationFlags)
    (isGlobal : Bool) :
    e.bare.instantiate (setting.reading impacts) type constructor flags
        isGlobal =
      (e.instantiate setting type constructor flags isGlobal).map
        bareProgress := by
  unfold instantiate
  change (setting.scope.registerInstantiation setting.program type constructor
    flags e.world >>= _) = (setting.scope.registerInstantiation setting.program
      type constructor flags e.world >>= _).map _
  cases setting.scope.registerInstantiation setting.program type constructor
      flags e.world with
  | ok outcome => rfl
  | error failure => rfl

theorem apply_bare (quiet : e.policy ≠ .recording) (setting : Setting σ)
    (impacts : Table MemberId Impact) (impact : Impact)
    (source : Option Entity) :
    e.bare.apply (setting.reading impacts) impact source =
      bareProgress (e.apply setting impact source) := by
  unfold apply
  split
  · rfl
  · rfl

theorem close_bare (quiet : e.policy ≠ .recording) (setting : Setting σ)
    (impacts : Table MemberId Impact) :
    e.bare.close (setting.reading impacts) = (e.close setting).bare := by
  unfold close
  dsimp only
  rw [if_neg quiet]
  rfl

theorem obey_bare (quiet : e.policy ≠ .recording) (setting : Setting σ)
    {member : MemberId} {order : Command}
    (reads : order = .applyItem →
      setting.source.impactOf e.cache member = impacts.getD member {}) :
    e.bare.obey (setting.reading impacts) member order =
      (e.obey setting member order).map bareProgress := by
  cases order with
  | applyItem =>
      unfold obey
      dsimp only
      rw [reads rfl]
      rfl
  | apply => rfl
  | close =>
      unfold obey
      dsimp only
      rw [close_bare quiet]
      rfl
  | defer entity impact =>
      unfold obey defer
      change ((if e.state = .closed then _ else _) >>= _) = _
      dsimp only
      split
      · rfl
      · rfl

theorem pop_bare (e : Exploration σ) (order : QueueOrder) :
    e.bare.pop order =
      (e.pop order).map fun popped => (popped.1, popped.2.bare) := by
  cases order with
  | lifo =>
      unfold pop
      rw [Option.map_map]
      rfl
  | fifo =>
      unfold pop
      rw [Option.map_map]
      rfl

theorem takeNext_bare (e : Exploration σ) (setting : Setting σ)
    (impacts : Table MemberId Impact) (routine : Routine) :
    e.bare.takeNext (setting.reading impacts) routine =
      bareProgress (e.takeNext setting routine) := by
  have sameOrder : (setting.reading impacts).options.queueOrder =
      setting.options.queueOrder := rfl
  unfold takeNext
  rw [sameOrder, pop_bare]
  cases e.pop setting.options.queueOrder with
  | none => rfl
  | some popped =>
      dsimp only [Option.map_some, bare]
      split
      · rfl
      · rfl

theorem drained_bare (e : Exploration σ) (setting : Setting σ)
    (impacts : Table MemberId Impact) (routine : Routine) :
    e.bare.drained (setting.reading impacts) routine =
      bareProgress (e.drained setting routine) := by
  unfold drained
  dsimp only
  generalize isCounted : ({ e with
    recent := {}
    tally := { e.tally with rounds := e.tally.rounds + 1 } } :
      Exploration σ) = counted
  have bareCounted : ({ e.bare with
      recent := {}
      tally := { e.bare.tally with rounds := e.bare.tally.rounds + 1 } } :
        Exploration σ) = counted.bare := by
    rw [← isCounted]
    rfl
  rw [bareCounted]
  generalize answered : counted.tell setting.listener
    (.queueDrained e.recent.listed) = answer
  have bareAnswered : counted.bare.tell (setting.reading impacts).listener
      (.queueDrained e.bare.recent.listed) = (answer.1, answer.2.bare) := by
    rw [← answered]
    rfl
  rw [bareAnswered]
  dsimp only
  split
  · rw [absorb_bare]
    rfl
  · rw [foldl_addRecent_bare, absorb_bare]
    rfl

/-- A step is the same without the store, if a member whose impact is applied is
looked up in the table instead. -/
theorem step_bare (quiet : e.policy ≠ .recording) {task : Task}
    (reads : ∀ member, task = .command member .applyItem →
      setting.source.impactOf e.cache member = impacts.getD member {}) :
    e.bare.step (setting.reading impacts) task =
      (e.step setting task).map bareProgress := by
  cases task with
  | register use =>
      change (if setting.strategy.admits use = true then _ else _) =
        (if setting.strategy.admits use = true then _ else _ :
          Except Failure (Progress σ)).map bareProgress
      split
      · exact register_bare e setting impacts use
      · rfl
  | demand member => exact demand_bare e setting impacts member
  | enlist member => exact enlist_bare e setting impacts member
  | closurize member =>
      exact congrArg Except.ok (announce_bare
        { e with world := e.world.registerClosurized member } setting impacts
        (.closurized member))
  | announce notice =>
      exact congrArg Except.ok (announce_bare e setting impacts notice)
  | enterClass cls => exact enterClass_bare e setting impacts cls
  | instantiate type constructor flags isGlobal =>
      exact instantiate_bare e setting impacts type constructor flags isGlobal
  | apply impact source =>
      exact congrArg Except.ok (apply_bare quiet setting impacts impact source)
  | command member order =>
      exact obey_bare quiet setting fun isReading =>
        reads member (by rw [isReading])
  | takeNext routine =>
      exact congrArg Except.ok (takeNext_bare e setting impacts routine)
  | drained routine =>
      exact congrArg Except.ok (drained_bare e setting impacts routine)
  | runDeferred =>
      refine congrArg Except.ok ?_
      unfold runDeferred
      dsimp only [bare]
      split
      · rfl
      · rfl
  | release source => rfl
  | finish member => rfl
  | resume routine => rfl

/-! ### Runs -/

variable {problem : Problem} {history : List Use} {task : Task}
  {work tasks : List Task} {stage nextStage : Stage} {next : Exploration σ}

/-- What makes sure that an exploration need not look into its store: the impacts
that are still to be read are in custody, and nobody watches the policy. -/
structure Attended (problem : Problem) (setting : Setting σ)
    (history : List Use) (work : List Task) (stage : Stage)
    (e : Exploration σ) : Prop where
  books : Books setting history e
  custody : Custody problem setting work stage e
  quiet : e.policy ≠ .recording

theorem attended_invariant :
    Invariant setting applying (Attended problem setting) where
  step := by
    rintro history task work stage e tasks next attended effect
    refine ⟨attended.books.effect effect,
      attended.custody.step attended.books effect, ?_⟩
    cases effect <;> exact attended.quiet
  turn := by
    rintro history stage e work nextStage next attended turn
    obtain ⟨same, entered⟩ := turn.sameMembers
    exact ⟨attended.books.of_sameMembers same entered,
      attended.custody.turn turn,
      (attended.custody.turn_frame turn).2 ▸ attended.quiet⟩

/-- The member whose impact is about to be applied has not been read before. -/
theorem Attended.reads (attended : Attended problem setting history [] stage e)
    {rest : List Task} (remaining : stage.tasks applying = task :: rest) :
    ∀ member, task = .command member .applyItem →
      setting.source.impactOf e.cache member = problem.impactOf member := by
  rintro member rfl
  refine attended.custody.stored member (.inl ?_)
  cases stage with
  | obeying current commands =>
      rcases attended.custody.commands current commands rfl with rfl | rfl
      · obtain ⟨same, -⟩ := List.cons.inj remaining
        obtain ⟨rfl, -⟩ := Task.command.inj same
        rfl
      · cases remaining
  | idle | taking | draining | deferring | resuming => cases remaining

/-- Reading from the store and reading from the table lead through the same
steps to the same end. -/
theorem workOff_bare (steps : Nat)
    (attended : Attended problem setting history work stage e)
    (isPlain : ∀ task ∈ work, task.isPlain = true)
    (stored : ∀ member, problem.impactOf member = impacts.getD member {}) :
    workOff (setting.reading impacts) steps (work ++ stage.tasks applying)
        e.bare =
      (workOff setting steps (work ++ stage.tasks applying) e).map bare := by
  induction steps generalizing history work stage e with
  | zero =>
      cases work ++ stage.tasks applying with
      | nil => rfl
      | cons task rest => rfl
  | succ steps ih =>
      -- The store is read by the command that applies an impact and by no plain
      -- task; when the command comes up, the impact is still in custody.
      cases work with
      | cons task work =>
          have unread : ∀ member, task = .command member .applyItem →
              setting.source.impactOf e.cache member =
                impacts.getD member {} := by
            rintro member rfl
            cases isPlain _ List.mem_cons_self
          rw [List.cons_append, workOff, workOff, step_bare attended.quiet unread]
          cases stepped : e.step setting task with
          | error failure => rfl
          | ok progress =>
              obtain ⟨tasks, next⟩ := progress
              have effect :=
                effect_of_step (isPlain task List.mem_cons_self) stepped
              have further := ih (attended_invariant.step attended effect)
                (effect.isPlain_append isPlain)
              rw [List.append_assoc] at further
              exact further
      | nil =>
          rw [List.nil_append]
          cases remaining : stage.tasks applying with
          | nil => rfl
          | cons task rest =>
              rw [workOff, workOff, step_bare attended.quiet fun member reading =>
                (attended.reads remaining member reading).trans (stored member)]
              cases stepped : e.step setting task with
              | error failure => rfl
              | ok progress =>
                  obtain ⟨tasks, next⟩ := progress
                  obtain ⟨work, nextStage, turn, agenda⟩ :=
                    turn_of_step remaining stepped
                  have further := ih (attended_invariant.turn attended turn)
                    turn.isPlain
                  rw [← agenda] at further
                  exact further

/-! ### Operations -/

theorem Attended.begin (attended : Attended problem setting history [] .idle e)
    (unreleased : ∀ task ∈ work, task.source? = none)
    (resting : stage.member? = none) :
    Attended problem setting history work stage e :=
  ⟨attended.books, attended.custody.begin unreleased resting, attended.quiet⟩

theorem attended_of_fresh (fresh : e.IsFresh) (quiet : e.policy ≠ .recording)
    (stored : setting.source.impactOf e.cache = problem.impactOf) :
    Attended problem setting [] [] .idle e where
  books := books_of_fresh fresh.world fresh.classes
  custody := ⟨fun member _ => congrFun stored member, by simp, by simp,
    fresh.deferred⟩
  quiet := quiet

theorem start_bare (steps : Nat) {policy : ImpactPolicy}
    (fresh : e.IsFresh) (quiet : policy ≠ .recording)
    (stored : ∀ member, setting.source.impactOf e.cache member =
      impacts.getD member {}) (main : Option MemberId)
    (libraries : List LibraryId) :
    e.bare.start (setting.reading impacts) steps .retaining main libraries =
        (e.start setting steps policy main libraries).map bare ∧
      ∀ opened, e.start setting steps policy main libraries = .ok opened →
        ∃ history, Attended (setting.problem {} e.cache {}) setting history []
          .idle opened := by
  have readied : ({ e with policy, state := .opened } : Exploration σ).IsFresh :=
    ⟨fresh.world, fresh.queue, fresh.classes, fresh.deferred⟩
  have opening : Attended (setting.problem {} e.cache {}) setting []
      [.announce (.queueOpened main libraries)] .idle
      { e with policy, state := .opened } :=
    (attended_of_fresh readied quiet rfl).begin (by simp [Task.source?]) rfl
  unfold start
  change (if e.state = .created then _ else _) =
    Except.map bare (if e.state = .created then _ else _) ∧ _
  split
  · constructor
    · exact workOff_bare steps opening (by simp [Task.isPlain]) stored
    · intro opened started
      exact ⟨_, attended_invariant.workOff opening (by simp [Task.isPlain])
        started⟩
  · refine ⟨rfl, fun opened impossible => ?_⟩
    cases impossible

theorem applyImpact_bare (steps : Nat)
    (attended : Attended problem setting history [] .idle e)
    (stored : ∀ member, problem.impactOf member = impacts.getD member {})
    (impact : Impact) :
    e.bare.applyImpact (setting.reading impacts) steps impact none =
        (e.applyImpact setting steps impact none).map bare ∧
      ∀ next, e.applyImpact setting steps impact none = .ok next →
        ∃ history, Attended problem setting history [] .idle next := by
  have applying : Attended problem setting history [.apply impact none] .idle e :=
    attended.begin (by simp [Task.source?]) rfl
  constructor
  · exact workOff_bare steps applying (by simp [Task.isPlain]) stored
  · intro next applied
    exact ⟨_, attended_invariant.workOff applying (by simp [Task.isPlain])
      applied⟩

theorem runToFixedPoint_bare (steps : Nat)
    (attended : Attended problem setting history [] .idle e)
    (stored : ∀ member, problem.impactOf member = impacts.getD member {}) :
    e.bare.runToFixedPoint (setting.reading impacts) steps =
        (e.runToFixedPoint setting steps).map bare ∧
      ∀ next, e.runToFixedPoint setting steps = .ok next →
        ∃ history, Attended problem setting history [] .idle next := by
  have taking : Attended problem setting history [] .taking e :=
    attended.begin (by simp) rfl
  constructor
  · exact workOff_bare steps taking (by simp) stored
  · intro next ran
    exact ⟨_, attended_invariant.workOff taking (by simp) ran⟩

/-- Two computations that begin alike go on alike. -/
theorem bind_bare {α : Type} {first : Except Stop (Exploration σ)}
    {rest bareRest : Exploration σ → Except Stop α} {view : α → α}
    (alike : ∀ e, first = .ok e → bareRest e.bare = (rest e).map view) :
    (first.map bare >>= bareRest) = (first >>= rest).map view := by
  cases first with
  | error stop => rfl
  | ok e => exact alike e rfl

end Exploration

namespace Compilation

open Exploration

/-- Exploring a program with a store of impacts finds the same as exploring it
with a table that holds them, and fails in the same way. -/
theorem explore_bare {σ : Type} (setting : Setting σ)
    (impacts : Table MemberId Impact) (steps : Nat) {policy : ImpactPolicy}
    (quiet : policy ≠ .recording) (main : MemberId) (initial : Exploration σ)
    (fresh : initial.IsFresh)
    (stored : ∀ member, setting.source.impactOf initial.cache member =
      impacts.getD member {}) :
    explore (setting.reading impacts) steps .retaining main initial.bare =
      (explore setting steps policy main initial).map
        fun outcome => (outcome.1.bare, outcome.2) := by
  obtain ⟨opensBare, opens⟩ := start_bare steps fresh quiet stored (some main)
    setting.program.libraryIds
  rw [explore_eq, explore_eq]
  change (initial.bare.start (setting.reading impacts) steps .retaining
    (some main) setting.program.libraryIds >>= _) = _
  rw [opensBare]
  refine bind_bare fun opened started => ?_
  obtain ⟨_, attended⟩ := opens opened started
  obtain ⟨entersBare, enters⟩ :=
    applyImpact_bare steps attended stored (entryImpact main)
  rw [entersBare]
  refine bind_bare fun entered applied => ?_
  obtain ⟨_, attended⟩ := enters entered applied
  obtain ⟨runsBare, runs⟩ := runToFixedPoint_bare steps attended stored
  rw [runsBare]
  refine bind_bare fun settled ran => ?_
  obtain ⟨_, attended⟩ := runs settled ran
  dsimp only
  rw [close_bare attended.quiet]
  generalize settled.close setting = closed
  have checks : closed.bare.checkQueueIsEmpty (setting.reading impacts) =
      closed.checkQueueIsEmpty setting := rfl
  have sweeps : closed.bare.findings (setting.reading impacts) =
      closed.findings setting := rfl
  rw [checks, sweeps]
  cases closed.checkQueueIsEmpty setting with
  | error failure => rfl
  | ok empty =>
      cases closed.findings setting with
      | error failure => rfl
      | ok findings => rfl

/-- A compilation without the count of the impacts that are left. -/
def uncounted (compilation : Compilation) : Compilation :=
  { compilation with retainedImpacts := 0 }

/-- Compile a program with impacts that are read from tables. -/
def runWithTables (input : CompilationInput) (options : Options) (steps : Nat) :
    Except Stop Compilation := do
  let (resolution, resolutionFindings) ←
    explore ((resolutionSetting input options).reading input.resolutionImpacts)
      steps .retaining input.main { listener := { support := input.support } }
  let closedWorld := resolution.world.close
  let (codegen, codegenFindings) ←
    explore ((codegenSetting input options closedWorld).reading
      input.codegenImpacts) steps .retaining input.main
      { listener := { support := input.support } }
  return {
    closedWorld
    world := codegen.world
    resolvedMembers := resolution.processedMembers
    generatedMembers := codegen.processedMembers
    resolutionSummary := resolution.summary
    codegenSummary := codegen.summary
    diagnostics := resolutionFindings ++ codegenFindings
    retainedImpacts := 0 }

/-- Up to the count, a compilation is the one that reads impacts from tables. -/
theorem uncounted_run (input : CompilationInput) (options : Options)
    (steps : Nat) :
    (run input options steps).map uncounted =
      runWithTables input options steps := by
  have resolves :
      explore ((resolutionSetting input options).reading
        input.resolutionImpacts) steps .retaining input.main
        { listener := { support := input.support } } = _ :=
    explore_bare (resolutionSetting input options) input.resolutionImpacts steps
      (by simp [policy] : policy options ≠ .recording) input.main
      { listener := { support := input.support }
        cache := input.resolutionImpacts } ⟨rfl, rfl, rfl, rfl⟩ fun _ => rfl
  have generates : ∀ closed,
      explore ((codegenSetting input options closed).reading
        input.codegenImpacts) steps .retaining input.main
        { listener := { support := input.support } } = _ := fun closed =>
    explore_bare (codegenSetting input options closed) input.codegenImpacts steps
      (by simp : ImpactPolicy.retaining ≠ .recording) input.main
      { listener := { support := input.support } } ⟨rfl, rfl, rfl, rfl⟩
      fun _ => rfl
  unfold run runWithTables
  rw [resolves]
  cases explore (resolutionSetting input options) steps (policy options)
      input.main { listener := { support := input.support }
                   cache := input.resolutionImpacts } with
  | error stop => rfl
  | ok resolved =>
      dsimp only [Except.map, Except.bind, bind, bare]
      rw [generates]
      cases explore (codegenSetting input options resolved.1.world.close) steps
          .retaining input.main { listener := { support := input.support } } with
      | error stop => rfl
      | ok generated => rfl

theorem alike_of_uncounted {first second : Except Stop Compilation}
    (same : first.map uncounted = second.map uncounted) :
    (∃ stop, first = .error stop ∧ second = .error stop) ∨
    ∃ compilation retained, first = .ok compilation ∧
      second = .ok { compilation with retainedImpacts := retained } := by
  match first, second with
  | .error stop, .error other =>
      cases same
      exact .inl ⟨stop, rfl, rfl⟩
  | .error stop, .ok compilation => cases same
  | .ok compilation, .error stop => cases same
  | .ok compilation, .ok other =>
      have alike : compilation.uncounted = other.uncounted := Except.ok.inj same
      refine .inr ⟨compilation, other.retainedImpacts, rfl, ?_⟩
      cases compilation
      cases other
      cases alike
      rfl

/-- Whether impacts are kept for later readers changes neither what a compilation
finds nor how it fails; only the number of impacts that are left may differ. -/
theorem run_regardless_of_readers (input : CompilationInput)
    (options : Options) (deferredLoad dumpInfo : Bool) (steps : Nat) :
    (∃ stop, run input options steps = .error stop ∧
      run input { options with deferredLoad, dumpInfo } steps = .error stop) ∨
    ∃ compilation retained, run input options steps = .ok compilation ∧
      run input { options with deferredLoad, dumpInfo } steps =
        .ok { compilation with retainedImpacts := retained } := by
  have sameTables :
      runWithTables input options steps =
        runWithTables input { options with deferredLoad, dumpInfo } steps := rfl
  rw [← uncounted_run, ← uncounted_run] at sameTables
  exact alike_of_uncounted sameTables

end Compilation

end TreeShaking
