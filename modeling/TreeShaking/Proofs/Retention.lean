import TreeShaking.Proofs.Accounting
import TreeShaking.Proofs.Containment
import TreeShaking.Proofs.Dispatch
import TreeShaking.Proofs.Release

/-!
# The impacts that are left

After a compilation it is known which impacts are still stored.  If nobody reads
impacts later on, those of the resolved members are gone, but for the empty ones:
an empty impact is not applied, and so it is not done away with either.  If they
are read again to place code that is loaded late, all are kept until then, and
afterwards either all or none.

During resolution the store is the table of all impacts without those of the
members that are *spent*.  A member becomes spent when its impact is released,
some steps before it counts as processed, so `Handling` follows the impact of the
current member through the agenda.
-/

namespace TreeShaking

open Outcome World

/-- An entry of a table is what the table shows under its key. -/
theorem Table.getD_of_mem {κ ν : Type} [DecidableEq κ] {table : Table κ ν}
    {entry : κ × ν} (listed : entry ∈ table.entries) (default : ν) :
    table.getD entry.1 default = entry.2 := by
  rw [getD, get?_eq_some_iff.2 listed, Option.getD_some]

/-- Whether an entry is still stored: those of processed members and of the one
that is spent are gone, but for the empty ones. -/
def ImpactCache.isKept (processed : List MemberId) (spent : Option MemberId)
    (entry : MemberId × Impact) : Bool :=
  entry.2.isEmpty ||
    !(decide (entry.1 ∈ processed) || decide (spent = some entry.1))

namespace Exploration

variable {σ : Type} {setting : Setting σ} {initial : ImpactCache}
  {history : List Use} {task : Task} {work tasks : List Task}
  {stage nextStage : Stage} {e next final : Exploration σ}

/-- How far the impact of the current member has come: the task that deals with
it, and whether the member is spent. -/
inductive Handling (impactOf : MemberId → Impact) :
    Stage → List Task → Option MemberId → Prop
  | absent {stage : Stage} (resting : stage.member? = none) :
      Handling impactOf stage [] none
  | unread {member : MemberId} :
      Handling impactOf (.obeying member [.applyItem]) [] none
  | read {member : MemberId} :
      Handling impactOf (.obeying member [])
        [.apply (impactOf member) (some (.member member))] none
  | applied {member : MemberId}
      (nonempty : (impactOf member).isEmpty = false) :
      Handling impactOf (.obeying member [])
        [.release (some (.member member))] none
  | spent {member : MemberId} :
      Handling impactOf (.obeying member []) [] (some member)

/-- The store lacks exactly the impacts that are spent. -/
structure Keeping (initial : ImpactCache) (setting : Setting σ)
    (history : List Use) (work : List Task) (stage : Stage)
    (e : Exploration σ) : Prop where
  attended : Attended (setting.problem {} initial {}) setting history work stage e
  releasing : ∃ dumpInfo, e.policy = .releasing false dumpInfo
  kept : ∃ others handler spent, work = others ++ handler ∧
    (∀ task ∈ others, task.source? = none) ∧
    Handling (setting.source.impactOf initial) stage handler spent ∧
    e.cache.entries =
      initial.entries.filter (ImpactCache.isKept e.world.processed spent)

/-- A task without a source leaves the store alone. -/
theorem Effect.cache_eq (effect : Effect setting e task tasks next)
    (unsourced : task.source? = none) : next.cache = e.cache := by
  cases effect with
  | @released source =>
      obtain rfl : source = none := unsourced
      simp [ImpactPolicy.afterVisit]
  | refused | static | dynamic | creation | test | untested | literal
  | superfluous | demanded | enlisted | skipped | closurized | announced
  | entered | instantiated | unapplied | applied => rfl

theorem Effect.policy_eq (effect : Effect setting e task tasks next) :
    next.policy = e.policy := by
  cases effect <;> rfl

/-- The policy changes only when the queue is closed. -/
theorem Turn.policy_eq_or_retaining {routine : Routine}
    (turn : Turn setting routine e stage work nextStage next) :
    next.policy = e.policy ∨ next.policy = .retaining := by
  cases turn with
  | closed => exact .inr rfl
  | emptied | passed | taken | applying | imposed | putOff | finished | drained
  | carriedOut | allCarriedOut | resumed | settled => exact .inl rfl

theorem Turn.cache_eq {routine : Routine}
    (turn : Turn setting routine e stage work nextStage next) :
    next.cache = e.cache := by
  cases turn <;> rfl

/-- Spending an empty impact makes no difference. -/
theorem filter_isKept_of_isEmpty {member : MemberId}
    (isEmpty : (initial.getD member {}).isEmpty = true)
    (processed : List MemberId) :
    initial.entries.filter (ImpactCache.isKept processed (some member)) =
      initial.entries.filter (ImpactCache.isKept processed none) := by
  refine List.filter_congr fun entry listed => ?_
  by_cases isOf : member = entry.1
  · rw [isOf, Table.getD_of_mem listed] at isEmpty
    simp [ImpactCache.isKept, isEmpty]
  · simp [ImpactCache.isKept, isOf]

/-- Spending an impact that is not empty takes it from the store. -/
theorem filter_isKept_of_nonempty {member : MemberId}
    (nonempty : (initial.getD member {}).isEmpty = false)
    (processed : List MemberId) :
    initial.entries.filter (ImpactCache.isKept processed (some member)) =
      (initial.entries.filter (ImpactCache.isKept processed none)).filter
        (fun entry => !(member == entry.1)) := by
  rw [List.filter_filter]
  refine List.filter_congr fun entry listed => ?_
  by_cases isOf : member = entry.1
  · rw [isOf, Table.getD_of_mem listed] at nonempty
    simp [ImpactCache.isKept, nonempty, isOf]
  · have differs : (member == entry.1) = false := by simpa using isOf
    simp [ImpactCache.isKept, isOf, differs]

/-- A processed member counts as spent for good. -/
theorem isKept_insert (processed : List MemberId) (member : MemberId) :
    ImpactCache.isKept (processed.insert member) none =
      ImpactCache.isKept processed (some member) := by
  funext entry
  by_cases isOf : member = entry.1
  · simp [ImpactCache.isKept, isOf]
  · simp [ImpactCache.isKept, isOf, Ne.symm isOf]

theorem Keeping.step (scope : setting.scope = .resolution)
    (stores : setting.source = .cache)
    (keeping : Keeping initial setting history (task :: work) stage e)
    (isPlain : task.isPlain = true)
    (stepped : e.step setting task = .ok (tasks, next)) :
    Keeping initial setting (history ++ task.noticed setting) (tasks ++ work)
      stage next := by
  have effect := effect_of_step isPlain stepped
  have attended := attended_invariant.step keeping.attended effect
  have processed := effect.processed_eq keeping.attended.books
  have releasing : ∃ dumpInfo, next.policy = .releasing false dumpInfo := by
    rw [effect.policy_eq]
    exact keeping.releasing
  refine ⟨attended, releasing, ?_⟩
  obtain ⟨others, handler, spent, split, unsourced, handling, stored⟩ :=
    keeping.kept
  cases others with
  | cons other others =>
      obtain ⟨rfl, rfl⟩ := List.cons.inj split
      have isUnsourced := unsourced task List.mem_cons_self
      refine ⟨tasks ++ others, handler, spent, by simp, ?_, handling, ?_⟩
      · intro follower listed
        rcases List.mem_append.1 listed with follows | waits
        · rcases effect.source?_follows follower follows with none | same
          · exact none
          · exact same.trans isUnsourced
        · exact unsourced follower (List.mem_cons_of_mem _ waits)
      · rw [effect.cache_eq isUnsourced, processed]
        exact stored
  | nil =>
      -- The task deals with the impact of the current member.
      rw [List.nil_append] at split
      subst split
      have impactOf : setting.source.impactOf initial =
          fun member => initial.getD member {} := by
        rw [stores]
        rfl
      rw [impactOf] at handling
      rw [impactOf, processed]
      cases handling with
      | @read member =>
          cases isEmpty : (initial.getD member {}).isEmpty with
          | true =>
              simp only [Exploration.step, apply, isEmpty, if_true,
                Except.ok.injEq, Prod.mk.injEq] at stepped
              obtain ⟨rfl, rfl⟩ := stepped
              refine ⟨[], [], some member, rfl, by simp, .spent, ?_⟩
              rw [filter_isKept_of_isEmpty isEmpty]
              exact stored
          | false =>
              simp only [Exploration.step, apply, isEmpty, Bool.false_eq_true,
                if_false, Except.ok.injEq, Prod.mk.injEq] at stepped
              obtain ⟨rfl, rfl⟩ := stepped
              refine ⟨_, _, none, List.append_nil _, ?_, .applied isEmpty, ?_⟩
              · intro follower listed
                exact Task.source?_of_isConsequence
                  (Impact.isConsequence_tasks listed)
              · rw [← stored]
                split <;> rfl
      | @applied member nonempty =>
          obtain ⟨rfl, rfl⟩ := Prod.mk.inj (Except.ok.inj stepped)
          refine ⟨[], [], some member, rfl, by simp, .spent, ?_⟩
          obtain ⟨dumpInfo, policy⟩ := keeping.releasing
          have phase : setting.phase.useCase = .resolution := by
            rw [Setting.phase, scope]
            rfl
          rw [filter_isKept_of_nonempty nonempty, ← stored, policy, phase]
          rfl

theorem Keeping.turn
    (keeping : Keeping initial setting history [] stage e)
    (turn : Turn setting applying e stage work nextStage next) :
    Keeping initial setting history work nextStage next := by
  have attended := attended_invariant.turn keeping.attended turn
  have releasing : ∃ dumpInfo, next.policy = .releasing false dumpInfo := by
    rw [(keeping.attended.custody.turn_frame turn).2]
    exact keeping.releasing
  refine ⟨attended, releasing, ?_⟩
  obtain ⟨others, handler, spent, split, -, handling, stored⟩ := keeping.kept
  obtain ⟨rfl, rfl⟩ := List.append_eq_nil_iff.1 split.symm
  rw [turn.cache_eq]
  cases handling with
  | absent resting =>
      cases turn with
      | emptied | passed | allCarriedOut | resumed | settled =>
          exact ⟨[], [], none, rfl, by simp, .absent rfl, stored⟩
      | taken => exact ⟨[], [], none, rfl, by simp, .unread, stored⟩
      | drained =>
          refine ⟨_, [], none, (List.append_nil _).symm, ?_, .absent rfl, stored⟩
          intro task listed
          exact Task.source?_of_isConsequence (Impact.isConsequence_tasks listed)
      | carriedOut => exact ⟨[_], [], none, rfl, by simp [Task.source?],
          .absent rfl, stored⟩
      | applying | imposed | putOff | closed | finished => cases resting
  | @unread member =>
      cases turn with
      | applying =>
          rw [keeping.attended.custody.stored member (.inl rfl)]
          exact ⟨[], _, none, rfl, by simp, .read, stored⟩
  | spent =>
      cases turn with
      | finished =>
          refine ⟨[], [], none, rfl, by simp, .absent rfl, ?_⟩
          rw [stored, ← isKept_insert]
          rfl

/-- At the end of a run the store lacks what has been released in it. -/
theorem Keeping.workOff (scope : setting.scope = .resolution)
    (stores : setting.source = .cache) {steps : Nat}
    (keeping : Keeping initial setting history work stage e)
    (isPlain : ∀ task ∈ work, task.isPlain = true)
    (worked : Exploration.workOff setting steps (work ++ stage.tasks applying)
      e = .ok final) :
    ∃ history, Keeping initial setting history [] .idle final := by
  refine workOff_stages
    (motive := fun _ work stage e => ∀ history,
      Keeping initial setting history work stage e →
        ∃ history, Keeping initial setting history [] .idle final)
    ?_ ?_ ?_ isPlain worked history keeping
  · intro _ history known
    exact ⟨history, known⟩
  · intro _ task work tasks stage e next taskIsPlain stepped ih history known
    exact ih _ (known.step scope stores taskIsPlain stepped)
  · intro _ task rest tasks work stage nextStage e next _ _ _ turn ih history
      known
    exact ih _ (known.turn turn)

theorem Keeping.begin (keeping : Keeping initial setting history [] .idle e)
    (unreleased : ∀ task ∈ work, task.source? = none)
    (resting : stage.member? = none) :
    Keeping initial setting history work stage e := by
  refine ⟨keeping.attended.begin unreleased resting, keeping.releasing, ?_⟩
  obtain ⟨others, handler, spent, split, -, handling, stored⟩ := keeping.kept
  obtain ⟨rfl, rfl⟩ := List.append_eq_nil_iff.1 split.symm
  cases handling with
  | absent =>
      exact ⟨work, [], none, (List.append_nil work).symm, unreleased,
        .absent resting, stored⟩

/-- Between operations the impacts of processed members are gone, but for the
empty ones. -/
theorem Keeping.entries_eq (keeping : Keeping initial setting history [] .idle e) :
    e.cache.entries =
      initial.entries.filter (ImpactCache.isKept e.world.processed none) := by
  obtain ⟨others, handler, spent, split, -, handling, stored⟩ := keeping.kept
  obtain ⟨rfl, rfl⟩ := List.append_eq_nil_iff.1 split.symm
  cases handling with
  | absent => exact stored

/-- A new resolution that does away with impacts stores them all. -/
theorem keeping_of_fresh (fresh : e.IsFresh) (dumpInfo : Bool)
    (state : QueueState) :
    Keeping e.cache setting [] [] .idle
      { e with policy := .releasing false dumpInfo, state } where
  attended := attended_of_fresh
    ⟨fresh.world, fresh.queue, fresh.classes, fresh.deferred⟩ (by simp) rfl
  releasing := ⟨dumpInfo, rfl⟩
  kept := by
    refine ⟨[], [], none, rfl, by simp, .absent rfl, ?_⟩
    symm
    rw [List.filter_eq_self]
    simp [ImpactCache.isKept, fresh.world]

/-- A policy that does away with no impact leaves the store as it is. -/
theorem afterVisit_of_keeping {policy : ImpactPolicy}
    (keeps : ∀ dumpInfo, policy ≠ .releasing false dumpInfo)
    (source : Option Entity) (useCase : UseCase) (cache : ImpactCache) :
    policy.afterVisit source useCase cache = cache := by
  unfold ImpactPolicy.afterVisit
  split
  · exact absurd rfl (keeps _)
  · rfl

/-- As long as impacts are going to be read again, the store stays as it is. -/
theorem cache_of_workOff {steps : Nat} {agenda : List Task}
    (worked : Exploration.workOff setting steps agenda e = .ok final)
    (keeps : ∀ dumpInfo, e.policy ≠ .releasing false dumpInfo) :
    (∀ dumpInfo, final.policy ≠ .releasing false dumpInfo) ∧
      final.cache = e.cache := by
  revert keeps
  refine workOff_induction
    (motive := fun _ e => (∀ dumpInfo, e.policy ≠ .releasing false dumpInfo) →
      (∀ dumpInfo, final.policy ≠ .releasing false dumpInfo) ∧
        final.cache = e.cache) (fun keeps => ⟨keeps, rfl⟩) ?_ worked
  intro task agenda tasks e next stepped ih keeps
  rcases effect_or_turn stepped with effect | ⟨_, _, _, _, _, -, turn, -⟩
  · have cache : next.cache = e.cache := by
      cases effect with
      | released => exact afterVisit_of_keeping keeps _ _ _
      | refused | static | dynamic | creation | test | untested | literal
      | superfluous | demanded | enlisted | skipped | closurized | announced
      | entered | instantiated | unapplied | applied => rfl
    obtain ⟨finalKeeps, finalCache⟩ := ih (effect.policy_eq ▸ keeps)
    exact ⟨finalKeeps, finalCache.trans cache⟩
  · have nextKeeps : ∀ dumpInfo, next.policy ≠ .releasing false dumpInfo := by
      rcases turn.policy_eq_or_retaining with same | retaining
      · exact same ▸ keeps
      · simp [retaining]
    obtain ⟨finalKeeps, finalCache⟩ := ih nextKeeps
    exact ⟨finalKeeps, finalCache.trans turn.cache_eq⟩

/-- Closing the queue takes nothing from the store. -/
theorem cache_close (setting : Setting σ) (e : Exploration σ) :
    (e.close setting).cache = e.cache := by
  obtain ⟨journal, closes⟩ := close_eq e setting
  rw [closes]

theorem lifecycle_enduring : Enduring setting (Lifecycle setting) where
  invariant _ := ⟨fun lifecycle effect => lifecycle.step effect,
    fun lifecycle turn => lifecycle.turn turn⟩
  begin lifecycle unconcerned resting world queue entered :=
    lifecycle.begin (fun task listed => (unconcerned task listed).1) resting
      world queue entered

end Exploration

namespace Compilation

open Exploration

/-- The stages of exploring a program from its entry point. -/
theorem runs_of_explore {σ : Type} {setting : Setting σ} {steps : Nat}
    {policy : ImpactPolicy} {main : MemberId} {initial final : Exploration σ}
    {findings : List Diagnostic}
    (explored : explore setting steps policy main initial =
      .ok (final, findings)) :
    ∃ opened entered settled,
      workOff setting steps
          [.announce (.queueOpened (some main) setting.program.libraryIds)]
          { initial with policy, state := .opened } = .ok opened ∧
        workOff setting steps [.apply (entryImpact main) none] opened =
          .ok entered ∧
        workOff setting steps [.takeNext applying] entered = .ok settled ∧
        final = settled.close setting := by
  simp only [explore_eq, bind_eq_ok_iff, pure_eq_ok_iff, Prod.mk.injEq]
    at explored
  obtain ⟨opened, started, entered, applied, settled, ran, _, -, _, -, rfl, -⟩ :=
    explored
  refine ⟨opened, entered, settled, ?_, applied, ran, rfl⟩
  unfold start at started
  split at started
  · exact started
  · cases started

/-- Resolution leaves the impacts of the members that it has not processed, and
the empty ones. -/
theorem entries_of_explore {σ : Type} {setting : Setting σ} {steps : Nat}
    {dumpInfo : Bool} {main : MemberId} {initial final : Exploration σ}
    {findings : List Diagnostic} (scope : setting.scope = .resolution)
    (stores : setting.source = .cache) (fresh : initial.IsFresh)
    (explored : explore setting steps (.releasing false dumpInfo) main initial =
      .ok (final, findings)) :
    final.cache.entries = initial.cache.entries.filter
      (ImpactCache.isKept final.world.processed none) := by
  obtain ⟨opened, entered, settled, opens, enters, ran, rfl⟩ :=
    runs_of_explore explored
  have opening : Keeping initial.cache setting []
      [.announce (.queueOpened (some main) setting.program.libraryIds)] .idle
      { initial with
        policy := .releasing false dumpInfo
        state := .opened } :=
    (keeping_of_fresh fresh dumpInfo .opened).begin (by simp [Task.source?]) rfl
  obtain ⟨_, isOpened⟩ :=
    opening.workOff scope stores (by simp [Task.isPlain]) opens
  have entering : Keeping initial.cache setting _
      [.apply (entryImpact main) none] .idle opened :=
    isOpened.begin (by simp [Task.source?]) rfl
  obtain ⟨_, isEntered⟩ :=
    entering.workOff scope stores (by simp [Task.isPlain]) enters
  have running : Keeping initial.cache setting _ [] .taking entered :=
    isEntered.begin (by simp) rfl
  obtain ⟨_, isSettled⟩ := running.workOff scope stores (by simp) ran
  rw [cache_close setting, (close_frame settled setting).1]
  exact isSettled.entries_eq

theorem cache_of_explore {σ : Type} {setting : Setting σ} {steps : Nat}
    {dumpInfo : Bool} {main : MemberId} {initial final : Exploration σ}
    {findings : List Diagnostic}
    (explored : explore setting steps (.releasing true dumpInfo) main initial =
      .ok (final, findings)) :
    final.cache = initial.cache := by
  obtain ⟨opened, entered, settled, opens, enters, ran, rfl⟩ :=
    runs_of_explore explored
  obtain ⟨openKeeps, openCache⟩ := cache_of_workOff opens (by simp)
  obtain ⟨entryKeeps, entryCache⟩ := cache_of_workOff enters openKeeps
  obtain ⟨-, runCache⟩ := cache_of_workOff ran entryKeeps
  rw [cache_close setting, runCache, entryCache, openCache]

/-- The resolved members are the live ones that are not malformed. -/
theorem mem_processedMembers_iff {σ : Type} {setting : Setting σ} {steps : Nat}
    {policy : ImpactPolicy} {main : MemberId} {initial final : Exploration σ}
    {findings : List Diagnostic} (fresh : initial.IsFresh)
    (explored : explore setting steps policy main initial =
      .ok (final, findings)) (member : MemberId) :
    member ∈ final.processedMembers ↔
      final.world.close.isMemberLive member = true ∧
        setting.program.isMalformed member = false := by
  obtain ⟨performed, queue⟩ := performAll_of_explore explored
  have lifecycle := lifecycle_enduring.performAll
    (lifecycle_of_fresh fresh.world fresh.classes fresh.queue) performed
  have live : final.world.close.isMemberLive member = true ↔
      (final.world.appliedTo member).normal = true := by
    rw [isMemberLive_close_iff]
    constructor
    · rintro ⟨bit, applied⟩
      exact lifecycle.books.normal_of_applied applied
    · exact fun normal => ⟨.normal, normal⟩
  rw [processedMembers, Handle.mem_ascending, live]
  exact lifecycle.mem_processed_iff queue member

/-- Which impacts are left after a compilation.  If they are not read again to
place code that is loaded late, these are the impacts of the members that are not
resolved, because they are not live or malformed, and the empty impacts.
Otherwise all are left if they are read to report on the program, and else
none. -/
theorem retainedImpacts_eq {input : CompilationInput} {options : Options}
    {steps : Nat} {compilation : Compilation}
    (compiled : run input options steps = .ok compilation) :
    (options.deferredLoad = false → compilation.retainedImpacts =
      input.resolutionImpacts.entries.countP fun entry =>
        decide (entry.1 ∉ compilation.resolvedMembers) || entry.2.isEmpty) ∧
    (options.deferredLoad = true → compilation.retainedImpacts =
      if options.dumpInfo then input.resolutionImpacts.size else 0) ∧
    ∀ member, member ∈ compilation.resolvedMembers ↔
      compilation.closedWorld.isMemberLive member = true ∧
        input.program.isMalformed member = false := by
  simp only [run, bind_eq_ok_iff, pure_eq_ok_iff] at compiled
  obtain ⟨⟨resolution, _⟩, resolved, ⟨codegen, _⟩, -, rfl⟩ := compiled
  have fresh : ({ listener := { support := input.support }
                  cache := input.resolutionImpacts } :
      Exploration Backend).IsFresh := ⟨rfl, rfl, rfl, rfl⟩
  refine ⟨fun unread => ?_, fun isRead => ?_,
    mem_processedMembers_iff fresh resolved⟩
  · rw [policy, unread] at resolved
    have entries := entries_of_explore rfl rfl fresh resolved
    simp only [unread, Bool.false_eq_true, if_false, Table.size]
    rw [entries, ← List.countP_eq_length_filter]
    refine List.countP_congr fun entry _ => ?_
    simp [ImpactCache.isKept, processedMembers, Handle.mem_ascending, or_comm]
  · rw [policy, isRead] at resolved
    have cache := cache_of_explore resolved
    simp only [isRead, if_true, policy]
    cases options.dumpInfo with
    | true =>
        dsimp only [ImpactPolicy.afterUse]
        rw [cache]
        rfl
    | false => rfl

/-- Four functions, of which one is malformed. -/
def leftoverSteps : List Draft.Step := [
  .library "app",
  .function ⟨0⟩ "main" {},
  .function ⟨0⟩ "leaf" {},
  .function ⟨0⟩ "broken" {},
  .function ⟨0⟩ "idle" {},
  .markMalformed ⟨2⟩]

def leftoverProgram : Program where
  names := .ofTexts #["", "app", "main", "leaf", "broken", "idle"]
  libraries := #[{ name := ⟨1⟩ }]
  classes := #[]
  members := #[
    { name := ⟨2⟩, library := ⟨0⟩, owner := none, kind := .function
      isStatic := true },
    { name := ⟨3⟩, library := ⟨0⟩, owner := none, kind := .function
      isStatic := true },
    { name := ⟨4⟩, library := ⟨0⟩, owner := none, kind := .function
      isStatic := true, isMalformed := true },
    { name := ⟨5⟩, library := ⟨0⟩, owner := none, kind := .function
      isStatic := true }]
  typedefs := #[]
  supertypeTable := #[]
  subclassTable := #[]

theorem leftoverProgram_drafted : leftoverProgram.Drafted :=
  ⟨leftoverSteps, _, rfl, rfl⟩

/-- Each function has an impact: the entry point, one whose impact is empty, the
malformed one, and one that nobody needs. -/
def leftoverInput : CompilationInput where
  program := leftoverProgram
  main := ⟨0⟩
  resolutionImpacts := .ofList [
    (⟨0⟩, { statics := [⟨.general, ⟨1⟩, none⟩, ⟨.general, ⟨2⟩, none⟩] }),
    (⟨1⟩, {}),
    (⟨2⟩, { statics := [⟨.general, ⟨3⟩, none⟩] }),
    (⟨3⟩, { statics := [⟨.general, ⟨0⟩, none⟩] })]
  codegenImpacts := {}
  support := {}

/-- Only the impact of the entry point is done away with. -/
theorem retainedImpacts_of_leftovers :
    leftoverProgram.Drafted ∧
    (∃ compilation, run leftoverInput {} 40 = .ok compilation ∧
      compilation.resolvedMembers = [⟨0⟩, ⟨1⟩] ∧
      compilation.retainedImpacts = 3) ∧
    (∃ compilation,
      run leftoverInput { deferredLoad := true, dumpInfo := true } 40 =
        .ok compilation ∧ compilation.retainedImpacts = 4) ∧
    ∃ compilation,
      run leftoverInput { deferredLoad := true } 40 = .ok compilation ∧
        compilation.retainedImpacts = 0 := by
  obtain ⟨released, releases, resolved⟩ :
      ∃ compilation, run leftoverInput {} 40 = .ok compilation ∧
        compilation.resolvedMembers = [⟨0⟩, ⟨1⟩] := ⟨_, rfl, rfl⟩
  obtain ⟨dumped, dumps⟩ : ∃ compilation,
      run leftoverInput { deferredLoad := true, dumpInfo := true } 40 =
        .ok compilation := ⟨_, rfl⟩
  obtain ⟨dropped, drops⟩ : ∃ compilation,
      run leftoverInput { deferredLoad := true } 40 = .ok compilation := ⟨_, rfl⟩
  refine ⟨leftoverProgram_drafted, ⟨released, releases, resolved, ?_⟩,
    ⟨dumped, dumps, ?_⟩, dropped, drops, ?_⟩
  · rw [(retainedImpacts_eq releases).1 rfl, resolved]
    decide
  · exact (retainedImpacts_eq dumps).2.1 rfl
  · exact (retainedImpacts_eq drops).2.1 rfl

end Compilation

end TreeShaking
