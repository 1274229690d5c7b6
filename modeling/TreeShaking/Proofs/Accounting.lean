import TreeShaking.Proofs.Replay
import TreeShaking.Proofs.Run.Ledger

/-!
# The counters of the backend agree with the world

Between operations nothing is owed to the backend, so its counters are the extents
of what they count (`Ledger.notices`).  The counts of the exploration itself agree
with the lists of members, which have no repetitions (`Tallied`, `Tidy`).

A compilation applies impacts only and defers nothing, and the backend handles the
recent classes at once.  So the queue runs empty once in each phase.
-/

namespace TreeShaking

open Outcome World

theorem length_eq_of_nodup {α : Type} {first second : List α}
    (nodup : first.Nodup) (alsoNodup : second.Nodup)
    (same : ∀ element, element ∈ first ↔ element ∈ second) :
    first.length = second.length :=
  ((List.perm_ext_iff_of_nodup nodup alsoNodup).2 same).length_eq

namespace Exploration

variable {σ : Type} {setting : Setting σ} {initial e next final : Exploration σ}
  {task : Task} {agenda tasks work : List Task} {stage nextStage : Stage}
  {history : List Use}

/-! ### Members -/

theorem Reachable.tidy (reached : Reachable setting initial agenda e)
    (isNew : initial.IsNew) : Tidy e := by
  induction reached with
  | initial =>
      constructor <;> simp [isNew.world, isNew.issued, isNew.classes]
  | commence reached commenced ih =>
      obtain ⟨rests, -⟩ := commence_cases commenced
      refine ih.kept ?_ rests.issued rests.processedClasses
      rw [rests.world]
      exact ⟨rfl, rfl, rfl, rfl⟩
  | @step e next task agenda tasks reached stepped ih =>
      rcases effect_or_turn stepped with effect | ⟨_, _, _, _, _, -, turn, -⟩
      · obtain ⟨history, work, stage, routine, -, -, placed⟩ :=
          reached.placed isNew
        exact ih.effect placed.lifecycle.books effect
      · exact ih.turn turn

/-- Between operations, the members that have been in the queue are still there or
have been processed. -/
theorem Reachable.issued_iff (reached : Reachable setting initial [] e)
    (isNew : initial.IsNew) (member : MemberId) :
    member ∈ e.issued ↔ member ∈ e.queue ∨ member ∈ e.world.processed := by
  obtain ⟨history, work, stage, routine, split, -, placed⟩ :=
    reached.placed isNew
  obtain ⟨rfl, noTasks⟩ := List.append_eq_nil_iff.1 split.symm
  obtain rfl := Stage.eq_idle_of_tasks noTasks
  simpa [Stage.member?] using placed.issues.issued member

theorem Reachable.length_issued (reached : Reachable setting initial [] e)
    (isNew : initial.IsNew) :
    e.issued.length = e.world.processed.length + e.queue.length := by
  have configured := reached.placed isNew
  have tidy := reached.tidy isNew
  have disjoint : ∀ first ∈ e.world.processed, ∀ second ∈ e.queue,
      first ≠ second := by
    rintro member processed _ waits rfl
    have isProcessed : IsAt setting [] e member .processed := processed
    have isQueued : IsAt setting [] e member .queued := waits
    cases configured.eq_of_isAt isProcessed isQueued
  have nodup : (e.world.processed ++ e.queue).Nodup :=
    List.nodup_append.2 ⟨tidy.processed, configured.queue_nodup, disjoint⟩
  rw [← List.length_append]
  refine length_eq_of_nodup tidy.issued nodup fun member => ?_
  rw [reached.issued_iff isNew, List.mem_append, or_comm]

/-- Between operations, the members noted as used are those whose ordinary use is
applied. -/
theorem Reachable.mem_used_iff (reached : Reachable setting initial [] e)
    (isNew : initial.IsNew) (member : MemberId) :
    member ∈ e.world.used ↔ (e.world.appliedTo member).normal = true := by
  have configured := reached.placed isNew
  rw [configured.normal_iff (by simp)]
  constructor
  · intro isUsed
    obtain ⟨history, work, stage, routine, -, -, placed⟩ := configured
    rcases placed.issues.used member isUsed with issued | malformed
    · rcases (reached.issued_iff isNew member).1 issued with waits | processed
      · exact ⟨.queued, waits⟩
      · exact ⟨.processed, processed⟩
    · exact ⟨.passedOver, isUsed, malformed⟩
  · rintro ⟨place, isAt⟩
    have issuedUsed := (reached.tidy isNew).issuedUsed
    cases place with
    | processed =>
        exact issuedUsed ((reached.issued_iff isNew member).2 (.inr isAt))
    | queued =>
        exact issuedUsed ((reached.issued_iff isNew member).2 (.inl isAt))
    | running => cases isAt
    | passedOver => exact isAt.1

/-- Whoever has a use applied has the ordinary one applied. -/
theorem Books.normal_of_applied (books : Books setting history e)
    {member : MemberId} {bit : UseBit}
    (applied : (e.world.appliedTo member).has bit = true) :
    (e.world.appliedTo member).normal = true := by
  cases stored : e.world.memberUsage.get? member with
  | none => simp [appliedTo, stored] at applied
  | some usage =>
      obtain ⟨decl, -, -, coherent, -⟩ := books.orderly.usages member usage stored
      simp only [appliedTo, stored] at applied ⊢
      exact coherent.normal_of_applied applied

/-- The members that are used in some way are those whose ordinary use is
applied. -/
theorem Books.membersWith_normal (books : Books setting history e) :
    e.world.membersWith .normal = e.world.usedMembers := by
  rw [membersWith, List.filter_eq_self]
  intro member isUsed
  rw [mem_usedMembers] at isUsed
  obtain ⟨usage, stored, bit, applied⟩ := isUsed
  have isApplied : (e.world.appliedTo member).has bit = true := by
    simpa [appliedTo, stored] using applied
  simpa [MemberUses.has] using books.normal_of_applied isApplied

/-! ### Between operations -/

/-- The counters of the backend and of the exploration agree with the world. -/
structure Accounts (e : Exploration Backend) : Prop where
  /-- No list of members or classes has repetitions, so that lengths are
  numbers. -/
  tidy : Tidy e
  instantiatedClasses :
    e.listener.counters.instantiatedClasses = e.summary.processedClasses ∧
      e.summary.processedClasses = e.world.instantiatedClasses.length
  implementedClasses :
    e.listener.counters.implementedClasses = e.world.implementedClasses.length
  closurizedMembers :
    e.listener.counters.closurizedMembers = e.world.closurized.length ∧
      e.world.closurized.length =
        (e.world.membersWith .closurizeInstance).length
  staticTearOffs :
    e.listener.counters.staticTearOffs =
      (e.world.membersWith .closurizeStatic).length
  usedElements :
    e.listener.counters.usedElements = e.world.used.length ∧
      e.world.used.length = e.world.usedMembers.length ∧
      e.world.usedMembers.length =
        e.summary.tally.workItems + e.summary.tally.skipped
  workItems :
    e.summary.tally.workItems = e.summary.processedMembers + e.queue.length
  rounds : e.listener.counters.queueEmptyRounds = e.summary.tally.rounds

theorem Reachable.accounts {setting : Setting Backend}
    {initial e : Exploration Backend}
    (reached : Reachable setting initial [] e)
    (isBackend : setting.listener = Backend.listener)
    (built : setting.program.Built) (isNew : initial.IsNew)
    (untold : initial.listener.counters = {}) (uncounted : initial.tally = {}) :
    Accounts e := by
  have tidy := reached.tidy isNew
  have tallied := reached.tallied isNew uncounted
  obtain ⟨history, work, stage, routine, split, -, ledger⟩ :=
    reached.ledger isBackend built isNew.toIsFresh untold
  obtain ⟨rfl, noTasks⟩ := List.append_eq_nil_iff.1 split.symm
  obtain rfl := Stage.eq_idle_of_tasks noTasks
  have told : ∀ matter,
      e.listener.counters.of matter = e.world.extent matter := ledger.notices
  have entered : e.processedClasses.length =
      e.world.instantiatedClasses.length := by
    refine length_eq_of_nodup tidy.processedClasses
      (nodup_instantiatedClasses _) fun cls => ?_
    rw [ledger.classes.mem_processedClasses_iff, mem_instantiatedClasses]
  have tornOff : e.world.closurized.length =
      (e.world.membersWith .closurizeInstance).length := by
    refine length_eq_of_nodup tidy.closurized (nodup_membersWith _ _)
      fun member => ?_
    rw [ledger.lifecycle.mem_closurized_iff, mem_membersWith, MemberUses.has]
  have used : e.world.used.length = e.world.usedMembers.length := by
    rw [← ledger.lifecycle.books.membersWith_normal]
    refine length_eq_of_nodup tidy.used (nodup_membersWith _ _) fun member => ?_
    rw [reached.mem_used_iff isNew, mem_membersWith, MemberUses.has]
  constructor
  · exact tidy
  · exact ⟨(told .instantiated).trans entered.symm, entered⟩
  · exact told .implemented
  · exact ⟨(told (.member .closurizeInstance)).trans tornOff.symm, tornOff⟩
  · exact told (.member .closurizeStatic)
  · refine ⟨?_, used, used.symm.trans tallied.used.symm⟩
    rw [used, ← ledger.lifecycle.books.membersWith_normal]
    exact told (.member .normal)
  · exact tallied.workItems.trans (reached.length_issued isNew)
  · refine reached.rounds_counted isBackend ?_
    rw [untold, uncounted]

/-! ### One round -/

theorem Effect.deferred_eq (effect : Effect setting e task tasks next) :
    next.deferred = e.deferred := by
  cases effect <;> rfl

/-- Plain tasks lead to no round and put nothing off. -/
theorem rounds_of_workOff {steps : Nat}
    (isPlain : ∀ task ∈ agenda, task.isPlain = true)
    (worked : workOff setting steps agenda e = .ok final) :
    final.tally.rounds = e.tally.rounds ∧ final.deferred = e.deferred := by
  revert isPlain
  refine workOff_induction (motive := fun agenda e =>
    (∀ task ∈ agenda, task.isPlain = true) →
      final.tally.rounds = e.tally.rounds ∧ final.deferred = e.deferred)
    ?_ ?_ worked
  · exact fun _ => ⟨rfl, rfl⟩
  · intro task agenda tasks e next stepped ih isPlain
    have effect := effect_of_step (isPlain task List.mem_cons_self) stepped
    obtain ⟨rounds, deferred⟩ := ih (effect.isPlain_append isPlain)
    refine ⟨?_, deferred.trans effect.deferred_eq⟩
    rw [rounds, rounds_tally_of_step stepped, effect.isRound_eq]
    rfl

section Loop

variable {setting : Setting Backend} {e next final : Exploration Backend}

/-- What is known in each stage of a loop that only applies impacts. -/
def InLoop (rounds : Nat) (work : List Task) (e : Exploration Backend) :
    Stage → Prop
  | .idle => e.listener.counters.queueEmptyRounds = rounds + 1
  | .taking => work = [] ∧ e.listener.counters.queueEmptyRounds = rounds
  | .obeying _ commands => (∀ order ∈ commands, order = .applyItem) ∧
      e.listener.counters.queueEmptyRounds = rounds
  | .draining => work = [] ∧ e.queue = [] ∧
      e.listener.counters.queueEmptyRounds = rounds
  | .deferring | .resuming => work = [] ∧ e.queue = [] ∧ e.recent = {} ∧
      e.listener.counters.queueEmptyRounds = rounds + 1

/-- A loop that only applies impacts comes to its end with its first round. -/
theorem inLoop_invariant (isBackend : setting.listener = Backend.listener)
    (rounds : Nat) :
    Invariant setting (fun _ => [.applyItem]) fun _ work stage e =>
      (∀ task ∈ work, task.showsClasses = false) ∧ e.deferred = [] ∧
        InLoop rounds work e stage where
  step := by
    rintro history task work stage e tasks next ⟨silent, deferred, known⟩ effect
    have counted := effect.rounds isBackend (silent task List.mem_cons_self)
    refine ⟨fun follower listed => ?_, effect.deferred_eq.trans deferred, ?_⟩
    · rcases List.mem_append.1 listed with follows | waits
      · exact effect.silent follower follows
      · exact silent follower (List.mem_cons_of_mem _ waits)
    · cases stage with
      | idle => exact counted.trans known
      | obeying member commands => exact ⟨known.1, counted.trans known.2⟩
      | taking | draining | deferring | resuming => cases known.1
  turn := by
    rintro history stage e work nextStage next ⟨-, deferred, known⟩ turn
    refine ⟨turn.silent, ?_⟩
    cases turn with
    | emptied queue => exact ⟨deferred, rfl, queue, known.2⟩
    | passed => exact ⟨deferred, rfl, known.2⟩
    | taken => exact ⟨deferred, by simp, known.2⟩
    | applying =>
        exact ⟨deferred, fun order listed =>
          known.1 order (List.mem_cons_of_mem _ listed), known.2⟩
    | imposed | putOff | closed => cases known.1 _ List.mem_cons_self
    | finished => exact ⟨deferred, rfl, known.2⟩
    | drained handled =>
        have counted :=
          rounds_hear isBackend e.listener (.queueDrained e.recent.listed)
        refine ⟨deferred, ?_, known.2.1, handled ?_, ?_⟩
        · rw [isBackend]
          rfl
        · rw [isBackend]
          rfl
        · rw [counted, known.2.2]
          rfl
    | carriedOut remaining => cases deferred.symm.trans remaining
    | allCarriedOut => exact ⟨deferred, known⟩
    | resumed unsettled =>
        simp [isSettled, known.2.1, known.2.2.1, deferred] at unsettled
    | settled => exact ⟨deferred, known.2.2.2⟩

theorem rounds_of_runToFixedPoint {steps : Nat}
    (isBackend : setting.listener = Backend.listener) (deferred : e.deferred = [])
    (ran : e.runToFixedPoint setting steps = .ok final) :
    final.listener.counters.queueEmptyRounds =
      e.listener.counters.queueEmptyRounds + 1 := by
  have start : (∀ task ∈ ([] : List Task), task.showsClasses = false) ∧
      e.deferred = [] ∧ InLoop e.listener.counters.queueEmptyRounds [] e
        .taking := ⟨by simp, deferred, rfl, rfl⟩
  obtain ⟨⟨-, -, known⟩, -⟩ :=
    @Invariant.forEach Backend setting _ e final _
      (inLoop_invariant isBackend _) steps [] start ran
  exact known

end Loop

end Exploration

/-! ### Compilations -/

namespace Compilation

theorem isNew_backend (support : RuntimeSupport) (cache : ImpactCache) :
    ({ listener := { support }, cache } : Exploration Backend).IsNew :=
  ⟨⟨rfl, rfl, rfl, rfl⟩, rfl, rfl⟩

/-- A program is explored in one round, and all work has been done then. -/
theorem summary_of_explore {setting : Setting Backend} {steps : Nat}
    {policy : ImpactPolicy} {main : MemberId} {support : RuntimeSupport}
    {cache : ImpactCache} {final : Exploration Backend}
    {findings : List Diagnostic}
    (isBackend : setting.listener = Backend.listener)
    (explored : explore setting steps policy main
      { listener := { support }, cache } = .ok (final, findings)) :
    final.summary.processedMembers = final.summary.tally.workItems ∧
      final.summary.tally.rounds = 1 := by
  have isNew := isNew_backend support cache
  obtain ⟨performed, queue⟩ := performAll_of_explore explored
  constructor
  · have reached := Exploration.Reachable.initial.performAll performed
    have issued := reached.length_issued isNew
    have tallied := (reached.tallied isNew rfl).workItems
    rw [queue, List.length_nil, Nat.add_zero] at issued
    exact (tallied.trans issued).symm
  · simp only [Exploration.performAll, bind_eq_ok_iff] at performed
    obtain ⟨opened, started, entered, applied, settled, ran, closed, closes,
      ended⟩ := performed
    cases closes
    cases ended
    have reached := (Exploration.Reachable.initial.perform started).perform
      applied
    -- Before the loop there has been no round, and nothing is put off.
    obtain ⟨noneStarted, neitherDeferred⟩ := Exploration.rounds_of_workOff
      (by simp [Task.isPlain]) started
    obtain ⟨noneApplied, nothingDeferred⟩ := Exploration.rounds_of_workOff
      (by simp [Task.isPlain]) applied
    have before := reached.rounds_counted isBackend rfl
    have after := (reached.perform ran).rounds_counted isBackend rfl
    have inLoop := Exploration.rounds_of_runToFixedPoint isBackend
      (nothingDeferred.trans neitherDeferred) ran
    have closing := (@Exploration.counts_of_commence Backend setting settled
      (settled.close setting) [] .close rfl).rounds
    rw [noneApplied, noneStarted] at before
    rw [before, after] at inLoop
    exact closing.trans inLoop

end Compilation

/-- Between the operations on a new exploration with the backend as its listener,
the counters agree with the world.  In a compilation, each phase has processed all
work when it ends, and the queue has run empty once. -/
theorem Exploration.counters_agree_with_world :
    (∀ (setting : Setting Backend) (support : RuntimeSupport)
        (cache : ImpactCache) (e : Exploration Backend),
      setting.listener = Backend.listener → setting.program.Built →
      Reachable setting { listener := { support }, cache } [] e →
        Accounts e) ∧
    ∀ input options steps compilation,
      Compilation.run input options steps = .ok compilation →
        ∀ summary ∈ [compilation.resolutionSummary, compilation.codegenSummary],
          summary.processedMembers = summary.tally.workItems ∧
            summary.tally.rounds = 1 := by
  constructor
  · intro setting support cache e isBackend built reached
    exact reached.accounts isBackend built
      (Compilation.isNew_backend support cache) rfl rfl
  · intro input options steps compilation compiled summary listed
    simp only [Compilation.run, bind_eq_ok_iff, pure_eq_ok_iff] at compiled
    obtain ⟨⟨resolution, _⟩, resolved, ⟨codegen, _⟩, generated, rfl⟩ := compiled
    simp only [List.mem_cons, List.not_mem_nil, or_false] at listed
    rcases listed with rfl | rfl
    · exact Compilation.summary_of_explore rfl resolved
    · exact Compilation.summary_of_explore rfl generated

/-- The entry point and a helper wait in the queue at first; a method is torn off
in the end, and three classes have instances. -/
theorem Exploration.counters_agree_after_tear_off :
    ∃ entered final compilation,
      performAll (Compilation.resolutionSetting Compilation.replayInput {}) [
          (60, .start .retaining (some ⟨0⟩) []),
          (60, .apply (Compilation.entryImpact ⟨0⟩) none)]
        { listener := { support := Compilation.replayInput.support }
          cache := Compilation.replayInput.resolutionImpacts } = .ok entered ∧
      entered.forEach (Compilation.resolutionSetting Compilation.replayInput {})
        60 (fun _ => [.applyItem]) = .ok final ∧
      Compilation.run Compilation.replayInput {} 60 = .ok compilation ∧
      entered.queue = [⟨1⟩, ⟨0⟩] ∧ Accounts entered ∧
      final.listener.counters.closurizedMembers = 1 ∧
      final.listener.counters.instantiatedClasses = 3 ∧ Accounts final ∧
      compilation.codegenSummary.processedMembers =
        compilation.codegenSummary.tally.workItems ∧
      compilation.codegenSummary.tally.rounds = 1 := by
  obtain ⟨entered, final, compilation, performed, looped, compiled, queue, torn,
      instantiated⟩ :
      ∃ entered final compilation,
        performAll (Compilation.resolutionSetting Compilation.replayInput {}) [
            (60, .start .retaining (some ⟨0⟩) []),
            (60, .apply (Compilation.entryImpact ⟨0⟩) none)]
          { listener := { support := Compilation.replayInput.support }
            cache := Compilation.replayInput.resolutionImpacts } =
            .ok entered ∧
        entered.forEach
          (Compilation.resolutionSetting Compilation.replayInput {}) 60
          (fun _ => [.applyItem]) = .ok final ∧
        Compilation.run Compilation.replayInput {} 60 = .ok compilation ∧
        entered.queue = [⟨1⟩, ⟨0⟩] ∧
        final.listener.counters.closurizedMembers = 1 ∧
        final.listener.counters.instantiatedClasses = 3 :=
    ⟨_, _, _, rfl, rfl, rfl, rfl, rfl, rfl⟩
  obtain ⟨accounts, summaries⟩ := counters_agree_with_world
  have reached := Reachable.initial.performAll performed
  have ran : entered.perform
      (Compilation.resolutionSetting Compilation.replayInput {}) 60
      (.forEach fun _ => [.applyItem]) = .ok final := looped
  exact ⟨entered, final, compilation, performed, looped, compiled, queue,
    accounts _ _ _ entered rfl tearOffProgram_drafted.built reached,
    torn, instantiated,
    accounts _ _ _ final rfl tearOffProgram_drafted.built
      (reached.perform ran),
    summaries _ _ _ _ compiled _ (by simp)⟩

end TreeShaking
