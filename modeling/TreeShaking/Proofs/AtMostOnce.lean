import TreeShaking.Proofs.Drafting
import TreeShaking.Proofs.Faults
import TreeShaking.Proofs.Run.Reachable

/-!
# Each member is worked on once

Work is found in many ways: by static uses, by selectors that match, by classes
that are entered, and by what a listener answers to all of this, also while a
member is being processed.  Yet a member enters the queue at most once.  The
guard against processed members does not achieve this, for a member may be found
again while it waits; it is the ordinary use of a member that is consumed only
once.

The members whose ordinary use is applied are distributed over four places
(`Place`), and no member is in two of them.  A member that is about to enter the
queue is in none, so it has not been there before.
-/

namespace TreeShaking

open Outcome World

/-- Whether a task notes that a member has been processed. -/
def Task.finishes (member : MemberId) : Task → Bool
  | .finish other => other = member
  | _ => false

theorem Task.finishes_of_isPlain {task : Task} (isPlain : task.isPlain = true)
    (member : MemberId) : task.finishes member = false := by
  cases task with
  | finish => cases isPlain
  | register | demand | enlist | closurize | announce | enterClass | instantiate
  | apply | release | command | takeNext | drained | runDeferred | resume => rfl

theorem Task.countP_finishes_of_isPlain {tasks : List Task}
    (isPlain : ∀ task ∈ tasks, task.isPlain = true) (member : MemberId) :
    tasks.countP (finishes member) = 0 := by
  rw [List.countP_eq_zero]
  intro task listed
  rw [finishes_of_isPlain (isPlain task listed)]
  exact Bool.false_ne_true

theorem Stage.countP_finishes (stage : Stage) (routine : Routine)
    (member : MemberId) :
    (stage.tasks routine).countP (Task.finishes member) =
      (decide (stage.member? = some member)).toNat := by
  cases stage with
  | obeying current commands =>
      have noCommand : (commands.map (Task.command current)).countP
          (Task.finishes member) = 0 := by
        simp [List.countP_eq_zero, Task.finishes]
      rw [Stage.tasks, List.countP_append, noCommand]
      by_cases same : current = member
      · simp [Stage.member?, Task.finishes, same]
      · simp [Stage.member?, Task.finishes, same]
  | idle | taking | draining | deferring | resuming => rfl

theorem Stage.countP_owes (stage : Stage) (routine : Routine)
    (member : MemberId) :
    (stage.tasks routine).countP (Task.owes member) = 0 := by
  cases stage <;> simp [List.countP_eq_zero, Stage.tasks, Task.owes]

namespace Exploration

variable {σ : Type} {setting : Setting σ} {initial e next : Exploration σ}
  {routine : Routine} {task : Task} {agenda tasks work : List Task}
  {stage nextStage : Stage} {history : List Use}

/-! ### The members that have been in the queue -/

/-- What is known about the members that have been in the queue. -/
structure Issues (setting : Setting σ) (stage : Stage) (e : Exploration σ) :
    Prop where
  /-- They are still there, are being processed, or have been processed. -/
  issued : ∀ member, member ∈ e.issued ↔ member ∈ e.queue ∨
    stage.member? = some member ∨ member ∈ e.world.processed
  /-- They are used, and so are those passed over. -/
  used : ∀ member, member ∈ e.world.used →
    member ∈ e.issued ∨ setting.program.isMalformed member = true

theorem Issues.kept (issues : Issues setting stage e)
    (issued : next.issued = e.issued) (queue : next.queue = e.queue)
    (processed : next.world.processed = e.world.processed)
    (used : next.world.used = e.world.used) : Issues setting stage next := by
  constructor
  · rw [issued, queue, processed]
    exact issues.issued
  · rw [issued, used]
    exact issues.used

theorem Issues.effect (issues : Issues setting stage e)
    (books : Books setting history e)
    (effect : Effect setting e task tasks next) : Issues setting stage next := by
  have processed := effect.processed_eq books
  have used := effect.used_eq books
  cases effect with
  | @enlisted member decl world tally registered declared =>
      simp only [registerUsed, bind_eq_ok_iff, pure_eq_ok_iff] at registered
      obtain ⟨_, -, rfl⟩ := registered
      constructor
      · intro other
        simp only [List.mem_cons, List.mem_append, List.not_mem_nil, or_false,
          issues.issued other]
        grind
      · intro other isUsed
        rcases List.mem_insert_iff.1 isUsed with rfl | old
        · exact .inl List.mem_cons_self
        · exact (issues.used other old).imp_left (List.mem_cons_of_mem _)
  | @skipped member decl world tally registered declared malformed =>
      simp only [registerUsed, bind_eq_ok_iff, pure_eq_ok_iff] at registered
      obtain ⟨_, -, rfl⟩ := registered
      refine ⟨issues.issued, fun other isUsed => ?_⟩
      rcases List.mem_insert_iff.1 isUsed with rfl | old
      · right
        rw [Program.isMalformed_of_declared declared, malformed]
      · exact issues.used other old
  | refused | static | dynamic | creation | test | untested | literal
  | superfluous | demanded | closurized | announced | entered | instantiated
  | unapplied | applied | released =>
      exact issues.kept rfl rfl processed (used (by simp))

theorem Issues.turn (issues : Issues setting stage e)
    (turn : Turn setting routine e stage work nextStage next) :
    Issues setting nextStage next := by
  have used : ∀ member, member ∈ next.world.used →
      member ∈ next.issued ∨ setting.program.isMalformed member = true := by
    cases turn <;> exact issues.used
  refine ⟨fun other => ?_, used⟩
  have known := issues.issued other
  cases turn with
  | passed popped processed =>
      have listed := List.contains_iff_mem.1 processed
      rw [known, popped.mem_iff]
      simp only [List.mem_cons, Stage.member?]
      grind
  | taken popped unprocessed =>
      rw [known, popped.mem_iff]
      simp only [List.mem_cons, Stage.member?, Option.some.injEq]
      grind
  | finished =>
      rw [known]
      simp only [Stage.member?, registerProcessed, List.mem_insert_iff,
        Option.some.injEq]
      grind
  | emptied | applying | imposed | putOff | closed | drained | carriedOut
  | allCarriedOut | resumed | settled => exact known

/-! ### The members that have been taken from it -/

/-- Only the next member is ever taken from the queue. -/
theorem takenMembers_of_step (noTaking : ∀ routine, task ≠ .takeNext routine)
    (stepped : e.step setting task = .ok (tasks, next)) :
    next.takenMembers = e.takenMembers := by
  refine (continues_of_step stepped).filterMap_journal fun event logged => ?_
  cases event with
  | taken member =>
      cases task with
      | takeNext routine => exact absurd rfl (noTaking routine)
      | command current order => cases order <;> cases logged
      | register | demand | enlist | closurize | announce | enterClass
      | instantiate | apply | release | finish | drained | runDeferred
      | resume => cases logged
  | told | visited | consumed | ranDeferred => rfl

/-- Nothing but taking a member puts the end of its processing on the agenda. -/
theorem countP_finishes_of_step (noTaking : ∀ routine, task ≠ .takeNext routine)
    (stepped : e.step setting task = .ok (tasks, next)) (member : MemberId) :
    tasks.countP (Task.finishes member) = 0 := by
  cases task with
  | takeNext routine => exact absurd rfl (noTaking routine)
  | command current order =>
      have turn : Turn setting (fun _ => []) e (.obeying current [order]) tasks
          (.obeying current []) next := turn_of_command stepped
      exact Task.countP_finishes_of_isPlain turn.isPlain member
  | finish current =>
      cases stepped
      rfl
  | drained routine =>
      obtain ⟨work, turn, rfl⟩ := turn_of_drained (Except.ok.inj stepped)
      rw [List.countP_append, Stage.countP_finishes,
        Task.countP_finishes_of_isPlain turn.isPlain]
      rfl
  | runDeferred =>
      have ran := Except.ok.inj stepped
      unfold runDeferred at ran
      split at ran
      · cases ran
        rfl
      · cases ran
        rfl
  | resume routine =>
      cases stepped
      split
      · rfl
      · rfl
  | register | demand | enlist | closurize | announce | enterClass | instantiate
  | apply | release =>
      exact Task.countP_finishes_of_isPlain
        (effect_of_step rfl stepped).isPlain member

theorem count_takenMembers_of_takeNext
    (taken : e.takeNext setting routine = (tasks, next)) (member : MemberId) :
    next.takenMembers.count member =
      e.takenMembers.count member + tasks.countP (Task.finishes member) := by
  unfold takeNext at taken
  split at taken
  · cases taken
    rfl
  · rename_i current popped isPopped
    obtain ⟨queue, -, rfl⟩ := pop_perm isPopped
    split at taken
    · cases taken
      rfl
    · cases taken
      have finishes :=
        (Stage.obeying current (routine current)).countP_finishes routine member
      rw [Stage.tasks] at finishes
      rw [finishes]
      simp only [takenMembers, log, List.reverse_cons, List.filterMap_append,
        List.filterMap_cons, List.filterMap_nil, List.count_append,
        Stage.member?, Option.some.injEq]
      by_cases same : current = member
      · simp [same]
      · simp [same]

/-- A member is taken from the queue exactly when the end of its processing is
put on the agenda. -/
theorem count_takenMembers_of_step
    (stepped : e.step setting task = .ok (tasks, next)) (member : MemberId) :
    next.takenMembers.count member =
      e.takenMembers.count member + tasks.countP (Task.finishes member) := by
  by_cases taking : ∃ routine, task = .takeNext routine
  · obtain ⟨routine, rfl⟩ := taking
    exact count_takenMembers_of_takeNext (Except.ok.inj stepped) member
  · have noTaking : ∀ routine, task ≠ .takeNext routine :=
      fun routine isTaking => taking ⟨routine, isTaking⟩
    rw [takenMembers_of_step noTaking stepped,
      countP_finishes_of_step noTaking stepped, Nat.add_zero]

/-! ### Configurations -/

/-- An exploration that has just been set up. -/
structure IsNew (e : Exploration σ) : Prop extends IsFresh e where
  issued : e.issued = []
  journal : e.journal = []

/-- The whereabouts of members are known, and so is what has been in the
queue. -/
structure Placed (setting : Setting σ) (history : List Use) (work : List Task)
    (stage : Stage) (e : Exploration σ) : Prop where
  lifecycle : Lifecycle setting history work stage e
  issues : Issues setting stage e

theorem placed_invariant (routine : Routine) :
    Invariant setting routine (Placed setting) where
  step placed effect := ⟨placed.lifecycle.step effect,
    placed.issues.effect placed.lifecycle.books effect⟩
  turn placed turn := ⟨placed.lifecycle.turn turn, placed.issues.turn turn⟩

theorem issues_of_new (isNew : e.IsNew) : Issues setting .idle e :=
  ⟨by simp [isNew.issued, isNew.queue, isNew.world, Stage.member?],
    by simp [isNew.world]⟩

theorem Reachable.placed (reached : Reachable setting initial agenda e)
    (isNew : initial.IsNew) : Configured (Placed setting) agenda e := by
  refine reached.configured placed_invariant ⟨?_, issues_of_new isNew⟩ ?_
  · exact lifecycle_of_fresh isNew.world isNew.classes isNew.queue
  · intro history e operation agenda next placed commenced
    obtain ⟨rests, work, stage, routine, rfl, unconcerned, resting⟩ :=
      commence_cases commenced
    refine ⟨history, work, stage, routine, rfl,
      fun task listed => (unconcerned task listed).1, ?_, ?_, ?_⟩
    · exact placed.lifecycle.begin (fun task listed =>
        (unconcerned task listed).2.1) resting rests.world rests.queue
        rests.processedClasses
    · rw [rests.issued, rests.queue, rests.world, resting]
      exact placed.issues.issued
    · rw [rests.issued, rests.world]
      exact placed.issues.used

/-- The law of places, read off the agenda. -/
theorem Configured.places (configured : Configured (Placed setting) agenda e)
    (member : MemberId) :
    agenda.countP (Task.owes member) + e.queue.count member +
        agenda.countP (Task.finishes member) +
        (decide (member ∈ e.world.processed)).toNat +
        (e.hasSkipped setting.program member).toNat =
      (e.world.appliedTo member).normal.toNat := by
  obtain ⟨history, work, stage, routine, rfl, isPlain, placed⟩ := configured
  have known := placed.lifecycle.places member
  rw [Exploration.places] at known
  rw [List.countP_append, List.countP_append, Stage.countP_owes,
    Stage.countP_finishes, Task.countP_finishes_of_isPlain isPlain]
  omega

/-- A member joins the processed ones when its processing is finished, and not
before. -/
theorem Configured.processed_of_step
    (configured : Configured (Placed setting) (task :: agenda) e)
    (stepped : e.step setting task = .ok (tasks, next)) (member : MemberId) :
    (decide (member ∈ next.world.processed)).toNat =
      (decide (member ∈ e.world.processed)).toNat +
        (task.finishes member).toNat := by
  have known := configured.places member
  have bound := Bool.toNat_le (e.world.appliedTo member).normal
  obtain ⟨history, work, stage, routine, split, isPlain, placed⟩ := configured
  cases work with
  | cons first work =>
      obtain ⟨rfl, rfl⟩ := List.cons.inj split
      have plain := isPlain task List.mem_cons_self
      have effect := effect_of_step plain stepped
      have unfinished := Task.finishes_of_isPlain plain member
      rw [effect.processed_eq placed.lifecycle.books, unfinished]
      rfl
  | nil =>
      rw [List.nil_append] at split
      obtain ⟨work, nextStage, turn, same⟩ := turn_of_step split.symm stepped
      cases turn with
      | @finished current =>
          obtain ⟨rfl, -⟩ := List.cons.inj split
          by_cases isCurrent : current = member
          · subst isCurrent
            have positive : 0 < (Task.finish current :: agenda).countP
                (Task.finishes current) := by
              rw [List.countP_cons_of_pos (by simp [Task.finishes])]
              omega
            have unprocessed :
                (decide (current ∈ e.world.processed)).toNat = 0 := by
              omega
            rw [unprocessed]
            simp [Task.finishes, registerProcessed]
          · simp [Task.finishes, registerProcessed, isCurrent,
              Ne.symm isCurrent]
      | emptied | passed | taken | applying | imposed | putOff | closed
      | drained | carriedOut | allCarriedOut | resumed | settled =>
          obtain ⟨rfl, -⟩ := List.cons.inj split
          rfl

/-- A member has been taken from the queue once if it is being processed or has
been processed. -/
theorem Reachable.count_takenMembers
    (reached : Reachable setting initial agenda e) (isNew : initial.IsNew)
    (member : MemberId) :
    e.takenMembers.count member = agenda.countP (Task.finishes member) +
      (decide (member ∈ e.world.processed)).toNat := by
  induction reached with
  | initial => simp [takenMembers, isNew.journal, isNew.world]
  | commence reached commenced ih =>
      obtain ⟨rests, work, stage, routine, rfl, unconcerned, resting⟩ :=
        commence_cases commenced
      have plain := Task.countP_finishes_of_isPlain fun task listed =>
        (unconcerned task listed).1
      rw [rests.takenMembers, rests.world, ih, List.countP_append, plain,
        Stage.countP_finishes, resting]
      rfl
  | @step e next task agenda tasks reached stepped ih =>
      have processed := (reached.placed isNew).processed_of_step stepped member
      have taken := count_takenMembers_of_step stepped member
      rw [List.countP_cons] at ih
      rw [List.countP_append]
      cases finishes : task.finishes member with
      | true => simp [finishes] at ih processed; omega
      | false => simp [finishes] at ih processed; omega

/-! ### Four places -/

/-- Where a member is whose ordinary use is applied. -/
inductive Place where
  | processed
  | running
  | queued
  | passedOver

/-- A member is in a place.  The member that is being processed is the one whose
processing is to be finished. -/
def IsAt (setting : Setting σ) (agenda : List Task) (e : Exploration σ)
    (member : MemberId) : Place → Prop
  | .processed => member ∈ e.world.processed
  | .running => .finish member ∈ agenda
  | .queued => member ∈ e.queue
  | .passedOver => member ∈ e.world.used ∧
      setting.program.isMalformed member = true

/-- How often a member is in a place. -/
def countAt (setting : Setting σ) (agenda : List Task) (e : Exploration σ)
    (member : MemberId) : Place → Nat
  | .processed => (decide (member ∈ e.world.processed)).toNat
  | .running => agenda.countP (Task.finishes member)
  | .queued => e.queue.count member
  | .passedOver => (e.hasSkipped setting.program member).toNat

theorem isAt_iff_countAt_pos (setting : Setting σ) (agenda : List Task)
    (e : Exploration σ) (member : MemberId) (place : Place) :
    IsAt setting agenda e member place ↔
      0 < countAt setting agenda e member place := by
  have positive : ∀ answer : Bool, 0 < answer.toNat ↔ answer = true := by
    decide
  cases place with
  | processed => rw [IsAt, countAt, positive, decide_eq_true_eq]
  | running =>
      rw [IsAt, countAt, List.countP_pos_iff]
      constructor
      · intro listed
        exact ⟨_, listed, by simp [Task.finishes]⟩
      · rintro ⟨task, listed, finishes⟩
        cases task <;> simp_all [Task.finishes]
  | queued => exact List.count_pos_iff.symm
  | passedOver =>
      rw [IsAt, countAt, positive, hasSkipped, Bool.and_eq_true,
        decide_eq_true_eq]

theorem countAt_sum (configured : Configured (Placed setting) agenda e)
    (member : MemberId) :
    agenda.countP (Task.owes member) +
        (countAt setting agenda e member .processed +
          countAt setting agenda e member .running +
          countAt setting agenda e member .queued +
          countAt setting agenda e member .passedOver) =
      (e.world.appliedTo member).normal.toNat := by
  have known := configured.places member
  simp only [countAt]
  omega

/-- No member is in two places, and none is in one twice. -/
theorem Configured.eq_of_isAt (configured : Configured (Placed setting) agenda e)
    {member : MemberId} {place other : Place}
    (isAt : IsAt setting agenda e member place)
    (isAtOther : IsAt setting agenda e member other) : place = other := by
  have known := countAt_sum configured member
  have bound := Bool.toNat_le (e.world.appliedTo member).normal
  rw [isAt_iff_countAt_pos] at isAt isAtOther
  cases place with
  | processed =>
      cases other with
      | processed => rfl
      | running | queued | passedOver => omega
  | running =>
      cases other with
      | running => rfl
      | processed | queued | passedOver => omega
  | queued =>
      cases other with
      | queued => rfl
      | processed | running | passedOver => omega
  | passedOver =>
      cases other with
      | passedOver => rfl
      | processed | running | queued => omega

/-- Between tasks, a member is in some place exactly if its ordinary use is
applied. -/
theorem Configured.normal_iff (configured : Configured (Placed setting) agenda e)
    (resting : ∀ task ∈ agenda, task.isPlain = false) (member : MemberId) :
    (e.world.appliedTo member).normal = true ↔
      ∃ place, IsAt setting agenda e member place := by
  have known := countAt_sum configured member
  have noneOwed : agenda.countP (Task.owes member) = 0 := by
    rw [List.countP_eq_zero]
    intro task listed
    have notPlain := resting task listed
    cases task <;> simp_all [Task.isPlain, Task.owes]
  simp only [isAt_iff_countAt_pos]
  cases normal : (e.world.appliedTo member).normal with
  | true =>
      rw [normal, Bool.toNat_true] at known
      refine iff_of_true rfl ?_
      by_contra nowhere
      have absent : ∀ place, countAt setting agenda e member place = 0 := by
        intro place
        exact Nat.eq_zero_of_not_pos fun positive => nowhere ⟨place, positive⟩
      rw [noneOwed, absent, absent, absent, absent] at known
      cases known
  | false =>
      rw [normal, Bool.toNat_false] at known
      refine iff_of_false (by simp) ?_
      rintro ⟨place, positive⟩
      cases place <;> omega

theorem Reachable.takenMembers_nodup
    (reached : Reachable setting initial agenda e) (isNew : initial.IsNew) :
    e.takenMembers.Nodup := by
  rw [List.nodup_iff_count_le_one]
  intro member
  have taken := reached.count_takenMembers isNew member
  have known := (reached.placed isNew).places member
  have bound := Bool.toNat_le (e.world.appliedTo member).normal
  omega

theorem Reachable.mem_takenMembers_iff
    (reached : Reachable setting initial agenda e) (isNew : initial.IsNew)
    (member : MemberId) :
    member ∈ e.takenMembers ↔
      member ∈ e.world.processed ∨ .finish member ∈ agenda := by
  have taken := reached.count_takenMembers isNew member
  have processed := isAt_iff_countAt_pos setting agenda e member .processed
  have running := isAt_iff_countAt_pos setting agenda e member .running
  simp only [IsAt, countAt] at processed running
  rw [← List.count_pos_iff, taken, Nat.add_pos_iff_pos_or_pos, ← processed,
    ← running, or_comm]

theorem Configured.queue_nodup
    (configured : Configured (Placed setting) agenda e) : e.queue.Nodup := by
  rw [List.nodup_iff_count_le_one]
  intro member
  have known := configured.places member
  have bound := Bool.toNat_le (e.world.appliedTo member).normal
  omega

theorem Configured.wellFormed
    (configured : Configured (Placed setting) agenda e) {member : MemberId}
    (malformed : setting.program.isMalformed member = true) :
    member ∉ e.queue ∧ member ∉ e.world.processed := by
  obtain ⟨history, work, stage, routine, -, -, placed⟩ := configured
  have wellFormed := placed.lifecycle.wellFormed member
  rw [malformed] at wellFormed
  constructor
  · intro waits
    cases wellFormed (.inl waits)
  · intro processed
    cases wellFormed (.inr (.inr processed))

/-- A member that is about to enter the queue has neither been there nor been
passed over. -/
theorem Configured.not_issued {member : MemberId}
    (configured : Configured (Placed setting) (.enlist member :: agenda) e) :
    member ∉ e.issued ∧ member ∉ e.world.used := by
  have known := configured.places member
  have bound := Bool.toNat_le (e.world.appliedTo member).normal
  rw [List.countP_cons_of_pos (by simp [Task.owes])] at known
  obtain ⟨history, work, stage, routine, split, isPlain, placed⟩ := configured
  have current : (Task.enlist member :: agenda).countP (Task.finishes member) =
      (decide (stage.member? = some member)).toNat := by
    rw [split, List.countP_append, Stage.countP_finishes,
      Task.countP_finishes_of_isPlain isPlain, Nat.zero_add]
  have notIssued : member ∉ e.issued := by
    rw [placed.issues.issued member]
    rintro (waits | isCurrent | processed)
    · have positive := List.count_pos_iff.2 waits
      omega
    · simp only [isCurrent, decide_true, Bool.toNat_true] at current
      omega
    · simp only [processed, decide_true, Bool.toNat_true] at known
      omega
  refine ⟨notIssued, fun isUsed => ?_⟩
  have malformed := (placed.issues.used member isUsed).resolve_left notIssued
  simp only [hasSkipped, isUsed, malformed, decide_true, Bool.and_self,
    Bool.toNat_true] at known
  omega

theorem failure_of_commence {operation : Operation} {failure : Failure}
    (failed : e.commence setting operation = .error failure)
    (display : String) : failure ≠ .secondWorkItem display := by
  rintro rfl
  unfold commence at failed
  split at failed
  · split at failed <;> cases failed
  · cases failed
  · cases failed
  · unfold defer at failed
    split at failed <;> cases failed
  · cases failed

/-- Throughout the operations on a new exploration, each member is worked on at
most once.  The queue holds no member twice and no processed one; the members
whose ordinary use is applied are the disjoint union of the four places; malformed
members are neither queued nor processed; a member has been taken from the queue
once if it is processed or being processed, and else never.  So no member is
asked for as work twice, and no operation fails because of that. -/
theorem members_are_worked_on_once (isNew : initial.IsNew) :
    (∀ agenda e, Reachable setting initial agenda e →
      e.queue.Nodup ∧ (∀ member ∈ e.queue, member ∉ e.world.processed) ∧
      ((∀ task ∈ agenda, task.isPlain = false) → ∀ member,
        (e.world.appliedTo member).normal = true ↔
          ∃ place, IsAt setting agenda e member place) ∧
      (∀ member place other, IsAt setting agenda e member place →
        IsAt setting agenda e member other → place = other) ∧
      (∀ member, setting.program.isMalformed member = true →
        member ∉ e.queue ∧ member ∉ e.world.processed) ∧
      e.takenMembers.Nodup ∧
      (∀ member, member ∈ e.takenMembers ↔
        member ∈ e.world.processed ∨ .finish member ∈ agenda)) ∧
    (∀ agenda e member,
      Reachable setting initial (.enlist member :: agenda) e →
        member ∉ e.issued ∧ member ∉ e.world.used) ∧
    ∀ operations display, performAll setting operations initial ≠
      .error (.failed (.secondWorkItem display)) := by
  refine ⟨fun agenda e reached => ?_, fun agenda e member reached => ?_,
    fun operations display failed => ?_⟩
  · have configured := reached.placed isNew
    refine ⟨configured.queue_nodup, fun member waits processed => ?_,
      configured.normal_iff, fun member place other => configured.eq_of_isAt,
      fun member => configured.wellFormed, reached.takenMembers_nodup isNew,
      reached.mem_takenMembers_iff isNew⟩
    have isQueued : IsAt setting agenda e member .queued := waits
    have isProcessed : IsAt setting agenda e member .processed := processed
    cases configured.eq_of_isAt isQueued isProcessed
  · exact (reached.placed isNew).not_issued
  · rcases Reachable.initial.failing failed with
      ⟨task, rest, stuck, reached, fails⟩ | ⟨operation, stuck, -, fails⟩
    · rcases failure_of_step fails with ofUse | ⟨member, rfl, issued⟩
      · cases ofUse
      · exact (reached.placed isNew).not_issued.1 issued
    · exact failure_of_commence fails display rfl

/-- Two functions that need each other, and one that is malformed. -/
def circleSteps : List Draft.Step := [
  .library "app",
  .function ⟨0⟩ "main" {},
  .function ⟨0⟩ "helper" {},
  .function ⟨0⟩ "broken" {},
  .markMalformed ⟨2⟩]

def circleProgram : Program where
  names := .ofTexts #["", "app", "main", "helper", "broken"]
  libraries := #[{ name := ⟨1⟩ }]
  classes := #[]
  members := #[
    { name := ⟨2⟩, library := ⟨0⟩, owner := none, kind := .function
      isStatic := true },
    { name := ⟨3⟩, library := ⟨0⟩, owner := none, kind := .function
      isStatic := true },
    { name := ⟨4⟩, library := ⟨0⟩, owner := none, kind := .function
      isStatic := true, isMalformed := true }]
  typedefs := #[]
  supertypeTable := #[]
  subclassTable := #[]

theorem circleProgram_drafted : circleProgram.Drafted :=
  ⟨circleSteps, _, rfl, rfl⟩

def circleSetting : Setting Unit where
  program := circleProgram
  scope := .resolution
  strategy := .treeShaking
  listener := .silent
  source := .table (.ofList [
    (⟨0⟩, { statics := [⟨.general, ⟨1⟩, none⟩, ⟨.general, ⟨2⟩, none⟩] }),
    (⟨1⟩, { statics := [⟨.general, ⟨0⟩, none⟩, ⟨.fieldGet, ⟨1⟩, none⟩] })])
  options := {}

/-- Both functions are processed once, and the third is passed over. -/
theorem circle_is_worked_on_once :
    circleProgram.Drafted ∧
    ∃ final, performAll circleSetting [
        (20, .start .retaining none []),
        (20, .apply { statics := [⟨.general, ⟨0⟩, none⟩] } none),
        (40, .forEach fun _ => [.applyItem])] { listener := () } = .ok final ∧
      final.takenMembers = [⟨0⟩, ⟨1⟩] ∧ final.takenMembers.Nodup ∧
      (final.world.appliedTo ⟨2⟩).normal = true ∧
      ⟨2⟩ ∉ final.world.processed ∧
      ∃ place, IsAt circleSetting [] final ⟨2⟩ place := by
  obtain ⟨final, performed, taken, normal⟩ :
      ∃ final, performAll circleSetting [
          (20, .start .retaining none []),
          (20, .apply { statics := [⟨.general, ⟨0⟩, none⟩] } none),
          (40, .forEach fun _ => [.applyItem])] { listener := () } =
            .ok final ∧
        final.takenMembers = [⟨0⟩, ⟨1⟩] ∧
        (final.world.appliedTo ⟨2⟩).normal = true := ⟨_, rfl, rfl, rfl⟩
  obtain ⟨-, -, normalIff, -, malformed, nodup, -⟩ :=
    (members_are_worked_on_once ⟨⟨rfl, rfl, rfl, rfl⟩, rfl, rfl⟩).1 [] final
      (Reachable.initial.performAll performed)
  exact ⟨circleProgram_drafted, final, performed, taken, nodup, normal,
    (malformed ⟨2⟩ rfl).2, (normalIff (by simp) ⟨2⟩).1 normal⟩

end Exploration

end TreeShaking
