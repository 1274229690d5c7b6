import TreeShaking.Proofs.AtMostOnce

/-!
# What a step counts

Effects and turns leave the tally open, since nothing depends on it.  Three of
its counts follow what happens to members: how many were issued as work, how many
were passed over, and how often the queue ran empty.  Only putting a member into
the queue changes the first two (`counts_of_enlist`), and only a round changes
the third (`counts_drained`); every other step leaves all of them alone
(`counts_of_step`).

The members issued and those used are lists, and `Tidy` says that these and the
other lists of an exploration have no repetitions, so that they can be counted.
-/

namespace TreeShaking

open Outcome World

/-- Whether a task tells the listener that the queue ran empty. -/
def Task.isRound : Task → Bool
  | .drained _ => true
  | _ => false

namespace Exploration

variable {σ : Type} {setting : Setting σ} {initial e next : Exploration σ}
  {routine : Routine} {task : Task} {agenda tasks work : List Task}
  {stage nextStage : Stage} {history : List Use}

theorem Effect.isRound_eq (effect : Effect setting e task tasks next) :
    task.isRound = false := by
  cases effect <;> rfl

/-- The same members have been issued and passed over, and the queue ran empty
that many times more. -/
structure Counts (rounds : Nat) (e next : Exploration σ) : Prop where
  issued : next.issued = e.issued
  workItems : next.tally.workItems = e.tally.workItems
  skipped : next.tally.skipped = e.tally.skipped
  rounds : next.tally.rounds = e.tally.rounds + rounds

theorem counts_absorb (e : Exploration σ) (impact : Impact) :
    Counts 0 e (e.absorb impact).2 := by
  unfold absorb
  split
  · exact ⟨rfl, rfl, rfl, rfl⟩
  · exact ⟨rfl, rfl, rfl, rfl⟩

theorem counts_announce (e : Exploration σ) (setting : Setting σ)
    (notice : Notice) : Counts 0 e (e.announce setting notice).2 := by
  obtain ⟨issued, workItems, skipped, rounds⟩ :=
    counts_absorb (e.tell setting.listener notice).2
      (e.tell setting.listener notice).1.impact
  exact ⟨issued, workItems, skipped, rounds⟩

theorem counts_demand {member : MemberId}
    (demanded : e.demand setting member = .ok (tasks, next)) :
    Counts 0 e next := by
  unfold demand at demanded
  split at demanded
  · cases demanded
    exact ⟨rfl, rfl, rfl, rfl⟩
  · split at demanded
    · rw [bind_eq_ok_iff] at demanded
      obtain ⟨display, -, impossible⟩ := demanded
      cases impossible
    · cases demanded
      exact counts_announce e setting _

theorem counts_drained (e : Exploration σ) (setting : Setting σ)
    (routine : Routine) : Counts 1 e (e.drained setting routine).2 := by
  unfold drained
  dsimp only
  obtain ⟨recent, noted⟩ := foldl_addRecent (({ e with
    recent := {}
    tally := { e.tally with rounds := e.tally.rounds + 1 } }).tell
      setting.listener (.queueDrained e.recent.listed)).2 e.recent.listed
  rw [noted]
  split
  · obtain ⟨issued, workItems, skipped, rounds⟩ := counts_absorb _ _
    exact ⟨issued, workItems, skipped, rounds⟩
  · obtain ⟨issued, workItems, skipped, rounds⟩ := counts_absorb _ _
    exact ⟨issued, workItems, skipped, rounds⟩

theorem counts_close (e : Exploration σ) (setting : Setting σ) :
    Counts 0 e (e.close setting) := by
  obtain ⟨journal, closes⟩ := close_eq e setting
  rw [closes]
  exact ⟨rfl, rfl, rfl, rfl⟩

/-- A step that puts no member into the queue counts at most a round. -/
theorem counts_of_step (noEnlisting : ∀ member, task ≠ .enlist member)
    (stepped : e.step setting task = .ok (tasks, next)) :
    Counts task.isRound.toNat e next := by
  cases task with
  | enlist member => exact absurd rfl (noEnlisting member)
  | register | enterClass | instantiate | release =>
      cases effect_of_step rfl stepped <;> exact ⟨rfl, rfl, rfl, rfl⟩
  | demand member => exact counts_demand stepped
  | closurize member =>
      obtain rfl : _ = next := congrArg Prod.snd (Except.ok.inj stepped)
      obtain ⟨issued, workItems, skipped, rounds⟩ := counts_announce { e with
        world := e.world.registerClosurized member } setting
        (.closurized member)
      exact ⟨issued, workItems, skipped, rounds⟩
  | announce notice =>
      obtain rfl : _ = next := congrArg Prod.snd (Except.ok.inj stepped)
      exact counts_announce e setting notice
  | apply impact source =>
      obtain rfl : _ = next := congrArg Prod.snd (Except.ok.inj stepped)
      unfold apply
      dsimp only
      split
      · exact ⟨rfl, rfl, rfl, rfl⟩
      · split <;> exact ⟨rfl, rfl, rfl, rfl⟩
  | command member order =>
      cases order with
      | applyItem | apply =>
          cases stepped
          exact ⟨rfl, rfl, rfl, rfl⟩
      | close =>
          obtain rfl : _ = next := congrArg Prod.snd (Except.ok.inj stepped)
          exact counts_close e setting
      | defer entity impact =>
          simp only [step, obey, defer, bind_eq_ok_iff, pure_eq_ok_iff,
            Prod.mk.injEq] at stepped
          obtain ⟨deferred, isDeferred, -, rfl⟩ := stepped
          split at isDeferred
          · cases isDeferred
          · cases isDeferred
            exact ⟨rfl, rfl, rfl, rfl⟩
  | takeNext routine =>
      obtain ⟨stage, turn, -⟩ := turn_of_takeNext (Except.ok.inj stepped)
      cases turn <;> exact ⟨rfl, rfl, rfl, rfl⟩
  | drained routine =>
      obtain rfl : _ = next := congrArg Prod.snd (Except.ok.inj stepped)
      exact counts_drained e setting routine
  | finish | resume =>
      cases stepped
      exact ⟨rfl, rfl, rfl, rfl⟩
  | runDeferred =>
      have ran := Except.ok.inj stepped
      unfold runDeferred at ran
      split at ran <;> cases ran <;> exact ⟨rfl, rfl, rfl, rfl⟩

/-- A member that is put into the queue is counted as issued or as passed over,
and noted as used. -/
theorem counts_of_enlist {member : MemberId}
    (enlisted : e.enlist setting member = .ok (tasks, next)) :
    next.world.used = e.world.used.insert member ∧
      next.tally.rounds = e.tally.rounds ∧
      (next.issued = member :: e.issued ∧
          next.tally.workItems = e.tally.workItems + 1 ∧
          next.tally.skipped = e.tally.skipped ∨
        next.issued = e.issued ∧
          next.tally.workItems = e.tally.workItems ∧
          next.tally.skipped = e.tally.skipped + 1) := by
  simp only [enlist, registerUsed, bind_eq_ok_iff, pure_eq_ok_iff] at enlisted
  obtain ⟨_, ⟨decl, -, rfl⟩, issued?, issues, enlisted⟩ := enlisted
  cases issued? with
  | none =>
      cases enlisted
      exact ⟨rfl, rfl, .inr ⟨rfl, rfl, rfl⟩⟩
  | some issued =>
      cases enlisted
      refine ⟨rfl, rfl, .inl ⟨?_, rfl, rfl⟩⟩
      simp only [WorkItem.issue, bind_eq_ok_iff] at issues
      obtain ⟨found, -, issues⟩ := issues
      split at issues
      · cases issues
      · split at issues
        · rw [bind_eq_ok_iff] at issues
          obtain ⟨display, -, impossible⟩ := issues
          cases impossible
        · cases issues
          rfl

theorem rounds_tally_of_step (stepped : e.step setting task = .ok (tasks, next)) :
    next.tally.rounds = e.tally.rounds + task.isRound.toNat := by
  by_cases enlisting : ∃ member, task = .enlist member
  · obtain ⟨member, rfl⟩ := enlisting
    exact (counts_of_enlist stepped).2.1
  · have noEnlisting : ∀ member, task ≠ .enlist member :=
      fun member isEnlisting => enlisting ⟨member, isEnlisting⟩
    exact (counts_of_step noEnlisting stepped).rounds

theorem counts_of_commence {operation : Operation}
    (commenced : e.commence setting operation = .ok (agenda, next)) :
    Counts 0 e next := by
  cases operation with
  | start policy main libraries =>
      unfold commence at commenced
      dsimp only at commenced
      split at commenced
      · cases commenced
        exact ⟨rfl, rfl, rfl, rfl⟩
      · cases commenced
  | apply | forEach =>
      cases commenced
      exact ⟨rfl, rfl, rfl, rfl⟩
  | defer entity impact =>
      simp only [commence, defer, bind_eq_ok_iff, pure_eq_ok_iff,
        Prod.mk.injEq] at commenced
      obtain ⟨deferred, isDeferred, -, rfl⟩ := commenced
      split at isDeferred
      · cases isDeferred
      · cases isDeferred
        exact ⟨rfl, rfl, rfl, rfl⟩
  | close =>
      cases commenced
      exact counts_close e setting

/-! ### The members issued and used -/

/-- Only putting a member into the queue notes it as used. -/
theorem used_of_step (books : Books setting history e)
    (noEnlisting : ∀ member, task ≠ .enlist member)
    (stepped : e.step setting task = .ok (tasks, next)) :
    next.world.used = e.world.used := by
  rcases effect_or_turn stepped with effect | ⟨_, _, _, _, _, -, turn, -⟩
  · exact effect.used_eq books noEnlisting
  · cases turn <;> rfl

/-- The counts of members agree with the lists of members. -/
structure Tallied (e : Exploration σ) : Prop where
  workItems : e.tally.workItems = e.issued.length
  used : e.tally.workItems + e.tally.skipped = e.world.used.length

theorem Tallied.kept {rounds : Nat} (tallied : Tallied e)
    (counts : Counts rounds e next) (used : next.world.used = e.world.used) :
    Tallied next := by
  constructor
  · rw [counts.workItems, counts.issued]
    exact tallied.workItems
  · rw [counts.workItems, counts.skipped, used]
    exact tallied.used

/-- A member that enters the queue is counted for the first time. -/
theorem Tallied.enlist {member : MemberId} (tallied : Tallied e)
    (isNew : member ∉ e.world.used)
    (enlisted : e.enlist setting member = .ok (tasks, next)) :
    Tallied next := by
  obtain ⟨used, -, counted⟩ := counts_of_enlist enlisted
  have length : next.world.used.length = e.world.used.length + 1 := by
    rw [used, List.length_insert_of_not_mem isNew]
  have usedBefore := tallied.used
  have issuedBefore := tallied.workItems
  rcases counted with ⟨issued, workItems, skipped⟩ | ⟨issued, workItems, skipped⟩
  · refine ⟨?_, by omega⟩
    rw [workItems, issued, List.length_cons, issuedBefore]
  · refine ⟨?_, by omega⟩
    rw [workItems, issued, issuedBefore]

theorem Reachable.tallied (reached : Reachable setting initial agenda e)
    (isNew : initial.IsNew) (uncounted : initial.tally = {}) : Tallied e := by
  induction reached with
  | initial => constructor <;> simp [uncounted, isNew.issued, isNew.world]
  | commence reached commenced ih =>
      refine ih.kept (counts_of_commence commenced) ?_
      rw [(commence_cases commenced).1.world]
  | @step e next task agenda tasks reached stepped ih =>
      have configured := reached.placed isNew
      by_cases enlisting : ∃ member, task = .enlist member
      · obtain ⟨member, rfl⟩ := enlisting
        exact ih.enlist configured.not_issued.2 stepped
      · have noEnlisting : ∀ member, task ≠ .enlist member :=
          fun member isEnlisting => enlisting ⟨member, isEnlisting⟩
        obtain ⟨history, work, stage, routine, -, -, placed⟩ := configured
        exact ih.kept (counts_of_step noEnlisting stepped)
          (used_of_step placed.lifecycle.books noEnlisting stepped)

/-! ### Lists without repetitions -/

/-- No list of members or classes holds anything twice. -/
structure Tidy (e : Exploration σ) : Prop where
  used : e.world.used.Nodup
  closurized : e.world.closurized.Nodup
  processed : e.world.processed.Nodup
  issued : e.issued.Nodup
  processedClasses : e.processedClasses.Nodup
  /-- What has been in the queue is used. -/
  issuedUsed : e.issued ⊆ e.world.used

theorem Tidy.kept (tidy : Tidy e) (progress : SameProgress e.world next.world)
    (issued : next.issued = e.issued)
    (entered : next.processedClasses = e.processedClasses) : Tidy next := by
  obtain ⟨-, closurized, used, processed⟩ := progress
  constructor
  · rw [used]
    exact tidy.used
  · rw [closurized]
    exact tidy.closurized
  · rw [processed]
    exact tidy.processed
  · rw [issued]
    exact tidy.issued
  · rw [entered]
    exact tidy.processedClasses
  · rw [issued, used]
    exact tidy.issuedUsed

theorem Tidy.effect (tidy : Tidy e) (books : Books setting history e)
    (effect : Effect setting e task tasks next) : Tidy next := by
  cases effect with
  | static admitted registered =>
      exact tidy.kept
        (Scope.learns_static books registered).elsewhere.toSameProgress rfl rfl
  | dynamic admitted registered =>
      exact tidy.kept
        (Scope.learns_dynamic books registered).elsewhere.toSameProgress rfl rfl
  | @entered cls world reports entered =>
      have same := (World.Balanced.learns_class books entered).elsewhere
      have kept : Tidy { e with world } :=
        tidy.kept same.toSameProgress rfl rfl
      exact { kept with processedClasses := tidy.processedClasses.insert }
  | instantiated registered =>
      exact tidy.kept (same_of_instantiation registered).2 rfl rfl
  | enlisted registered declared wellFormed isNew =>
      simp only [registerUsed, bind_eq_ok_iff, pure_eq_ok_iff] at registered
      obtain ⟨_, -, rfl⟩ := registered
      refine { tidy with
        used := tidy.used.insert
        issued := List.nodup_cons.2 ⟨isNew, tidy.issued⟩
        issuedUsed := List.cons_subset.2
          ⟨List.mem_insert_self, fun member listed => ?_⟩ }
      exact List.mem_insert_of_mem (tidy.issuedUsed listed)
  | skipped registered =>
      simp only [registerUsed, bind_eq_ok_iff, pure_eq_ok_iff] at registered
      obtain ⟨_, -, rfl⟩ := registered
      exact { tidy with
        used := tidy.used.insert
        issuedUsed := fun member listed =>
          List.mem_insert_of_mem (tidy.issuedUsed listed) }
  | closurized => exact { tidy with closurized := tidy.closurized.insert }
  | test | refused | creation | untested | literal | superfluous | demanded
  | announced | unapplied | applied | released => exact { tidy with }

theorem Tidy.turn (tidy : Tidy e)
    (turn : Turn setting routine e stage work nextStage next) : Tidy next := by
  cases turn with
  | finished => exact { tidy with processed := tidy.processed.insert }
  | emptied | passed | taken | applying | imposed | putOff | closed | drained
  | carriedOut | allCarriedOut | resumed | settled => exact { tidy with }

end Exploration

end TreeShaking
