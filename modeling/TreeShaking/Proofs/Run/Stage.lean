import TreeShaking.Proofs.Run.Effect

/-!
# The stages of a run

While an exploration processes its queue, the agenda always consists of plain
tasks followed by what remains of the loop.  What remains is one of six stages,
and when no plain task is left, the stage takes a `Turn`.  So a run alternates
between plain steps and turns, and `Invariant.workOff` carries an invariant
through all its configurations from these two.

The uses that a run has taken notice of are its `history`.  It is not part of
the exploration and nothing depends on it; invariants speak about it.
-/

namespace TreeShaking

open Outcome

/-- What remains of the loop over the queue. -/
inductive Stage where
  /-- Nothing. -/
  | idle
  /-- The next member is to be taken from the queue. -/
  | taking
  /-- A member is processed, and these commands are still to be carried out. -/
  | obeying (member : MemberId) (commands : List Command)
  /-- The queue ran empty. -/
  | draining
  /-- Deferred actions are carried out. -/
  | deferring
  /-- Either something is left to be done or the loop ends. -/
  | resuming

namespace Stage

/-- The tasks that remain in a stage. -/
def tasks (routine : Routine) : Stage → List Task
  | .idle => []
  | .taking => [.takeNext routine]
  | .obeying member commands =>
      commands.map (.command member) ++ [.finish member, .takeNext routine]
  | .draining => [.drained routine]
  | .deferring => [.runDeferred, .resume routine]
  | .resuming => [.resume routine]

/-- The member that is being processed. -/
def member? : Stage → Option MemberId
  | .obeying member _ => some member
  | _ => none

theorem isPlain_eq (stage : Stage) (routine : Routine) :
    ∀ task ∈ stage.tasks routine, task.isPlain = false := by
  intro task listed
  cases stage with
  | idle => cases listed
  | taking | draining | resuming =>
      obtain rfl := List.mem_singleton.1 listed
      rfl
  | deferring =>
      rcases List.mem_pair.1 listed with rfl | rfl
      · rfl
      · rfl
  | obeying member commands =>
      rcases List.mem_append.1 listed with commanded | ends
      · obtain ⟨order, -, rfl⟩ := List.mem_map.1 commanded
        rfl
      · rcases List.mem_pair.1 ends with rfl | rfl
        · rfl
        · rfl

theorem eq_idle_of_tasks {routine : Routine} {stage : Stage}
    (none : stage.tasks routine = []) : stage = .idle := by
  cases stage <;> simp [tasks] at none ⊢

end Stage

/-- A task that is not plain is what some stage begins with. -/
theorem Task.exists_stage (task : Task)
    (notPlain : task.isPlain = false) :
    ∃ routine stage rest, Stage.tasks routine stage = task :: rest := by
  cases task with
  | command member order =>
      exact ⟨fun _ => [], .obeying member [order], _, rfl⟩
  | finish member => exact ⟨fun _ => [], .obeying member [], _, rfl⟩
  | takeNext routine => exact ⟨routine, .taking, _, rfl⟩
  | drained routine => exact ⟨routine, .draining, _, rfl⟩
  | runDeferred => exact ⟨fun _ => [], .deferring, _, rfl⟩
  | resume routine => exact ⟨routine, .resuming, _, rfl⟩
  | register | demand | enlist | closurize | announce | enterClass
  | instantiate | apply | release => cases notPlain

/-- The use that carrying out a task takes notice of. -/
def Task.noticed {σ : Type} (setting : Setting σ) : Task → List Use
  | .register use => if setting.strategy.admits use then [use] else []
  | _ => []

theorem Stage.noticed_eq_nil {σ : Type} (setting : Setting σ)
    {routine : Routine} {stage : Stage} {task : Task} {rest : List Task}
    (remaining : stage.tasks routine = task :: rest) :
    task.noticed setting = [] := by
  cases stage with
  | obeying member commands =>
      cases commands with
      | nil | cons =>
          obtain ⟨rfl, -⟩ := List.cons.inj remaining
          rfl
  | idle => cases remaining
  | taking | draining | deferring | resuming =>
      obtain ⟨rfl, -⟩ := List.cons.inj remaining
      rfl

namespace Exploration

variable {σ : Type}

/-- The next stage after no plain task is left, and the plain tasks that it
begins with. -/
inductive Turn (setting : Setting σ) (routine : Routine) (e : Exploration σ) :
    Stage → List Task → Stage → Exploration σ → Prop
  | emptied (queue : e.queue = []) : Turn setting routine e .taking [] .draining e
  | passed {member : MemberId} {queue : List MemberId}
      (popped : e.queue.Perm (member :: queue))
      (processed : e.world.isProcessed member = true) :
      Turn setting routine e .taking [] .taking { e with queue }
  | taken {member : MemberId} {queue : List MemberId} {journal : List Event}
      (popped : e.queue.Perm (member :: queue))
      (unprocessed : e.world.isProcessed member = false) :
      Turn setting routine e .taking [] (.obeying member (routine member))
        { e with queue, journal }
  | applying {member : MemberId} {commands : List Command} :
      Turn setting routine e (.obeying member (.applyItem :: commands))
        [.apply (setting.source.impactOf e.cache member)
          (some (.member member))]
        (.obeying member commands) e
  | imposed {member : MemberId} {commands : List Command} {impact : Impact}
      {source : Option Entity} :
      Turn setting routine e
        (.obeying member (.apply impact source :: commands))
        [.apply impact source] (.obeying member commands) e
  | putOff {member : MemberId} {commands : List Command} {entity : Entity}
      {impact : Impact} {tally : Tally} (isOpen : e.state ≠ .closed) :
      Turn setting routine e
        (.obeying member (.defer entity impact :: commands)) []
        (.obeying member commands)
        { e with deferred := e.deferred ++ [(entity, impact)], tally }
  | closed {member : MemberId} {commands : List Command}
      {journal : List Event} :
      Turn setting routine e (.obeying member (.close :: commands)) []
        (.obeying member commands)
        { e with
          journal
          policy := .retaining
          state := .closed
          listener := (setting.listener.hear e.listener .queueClosed).2 }
  | finished {member : MemberId} :
      Turn setting routine e (.obeying member []) [] .taking
        { e with world := e.world.registerProcessed member }
  | drained {recent : RecentClasses} {tally : Tally} {journal : List Event}
      (handled : (setting.listener.hear e.listener
        (.queueDrained e.recent.listed)).1.handled = true → recent = {}) :
      Turn setting routine e .draining
        (setting.listener.hear e.listener
          (.queueDrained e.recent.listed)).1.impact.tasks
        .deferring
        { e with
          recent, tally, journal
          listener := (setting.listener.hear e.listener
            (.queueDrained e.recent.listed)).2 }
  | carriedOut {entity : Entity} {impact : Impact}
      {rest : List (Entity × Impact)} {journal : List Event}
      (deferred : e.deferred = (entity, impact) :: rest) :
      Turn setting routine e .deferring [.apply impact none] .deferring
        { e with deferred := rest, journal }
  | allCarriedOut (noneLeft : e.deferred = []) :
      Turn setting routine e .deferring [] .resuming e
  | resumed (unsettled : e.isSettled = false) :
      Turn setting routine e .resuming [] .taking e
  | settled (isSettled : e.isSettled = true) :
      Turn setting routine e .resuming [] .idle e

variable {setting : Setting σ} {routine : Routine} {e next final : Exploration σ}

theorem pop_perm {order : QueueOrder} {member : MemberId}
    (popped : e.pop order = some (member, next)) :
    ∃ queue, e.queue.Perm (member :: queue) ∧ next = { e with queue } := by
  cases order with
  | lifo =>
      simp only [pop, Option.map_eq_some_iff, Prod.mk.injEq] at popped
      obtain ⟨last, isLast, rfl, rfl⟩ := popped
      refine ⟨_, ?_, rfl⟩
      have rotated := List.perm_append_singleton last e.queue.dropLast
      rwa [List.dropLast_append_getLast? last isLast] at rotated
  | fifo =>
      simp only [pop, Option.map_eq_some_iff, Prod.mk.injEq] at popped
      obtain ⟨first, isFirst, rfl, rfl⟩ := popped
      refine ⟨_, ?_, rfl⟩
      rw [List.head?_eq_some_iff] at isFirst
      obtain ⟨rest, isQueue⟩ := isFirst
      rw [isQueue]
      rfl

theorem queue_of_pop_eq_none {order : QueueOrder}
    (popped : e.pop order = none) : e.queue = [] := by
  cases order with
  | lifo => simpa [pop] using popped
  | fifo => simpa [pop] using popped

theorem queue_of_isSettled (settled : e.isSettled = true) : e.queue = [] := by
  simp only [isSettled, Bool.and_eq_true, List.isEmpty_iff] at settled
  exact settled.1.1

theorem turn_of_takeNext {tasks : List Task}
    (taken : e.takeNext setting routine = (tasks, next)) :
    ∃ stage, Turn setting routine e .taking [] stage next ∧
      tasks = stage.tasks routine := by
  unfold takeNext at taken
  split at taken
  · rename_i popped
    obtain ⟨rfl, rfl⟩ := Prod.mk.inj taken
    exact ⟨.draining, .emptied (queue_of_pop_eq_none popped), rfl⟩
  · rename_i member after popped
    obtain ⟨queue, isPerm, rfl⟩ := pop_perm popped
    split at taken
    · rename_i processed
      obtain ⟨rfl, rfl⟩ := Prod.mk.inj taken
      exact ⟨.taking, .passed isPerm processed, rfl⟩
    · rename_i unprocessed
      obtain ⟨rfl, rfl⟩ := Prod.mk.inj taken
      exact ⟨.obeying member (routine member),
        .taken isPerm (by simpa using unprocessed), rfl⟩

/-- Closing the queue concerns the policy, the state and the listener. -/
theorem close_eq (e : Exploration σ) (setting : Setting σ) :
    ∃ journal, e.close setting =
      { e with
        journal
        policy := .retaining
        state := .closed
        listener := (setting.listener.hear e.listener .queueClosed).2 } := by
  unfold close
  dsimp only
  rw [ImpactPolicy.afterUse_phase]
  split
  · exact ⟨_, rfl⟩
  · exact ⟨_, rfl⟩

theorem turn_of_command {member : MemberId} {order : Command}
    {commands : List Command} {tasks : List Task}
    (obeyed : e.obey setting member order = .ok (tasks, next)) :
    Turn setting routine e (.obeying member (order :: commands)) tasks
      (.obeying member commands) next := by
  cases order with
  | applyItem =>
      obtain ⟨rfl, rfl⟩ := Prod.mk.inj (Except.ok.inj obeyed)
      exact .applying
  | apply impact source =>
      obtain ⟨rfl, rfl⟩ := Prod.mk.inj (Except.ok.inj obeyed)
      exact .imposed
  | close =>
      obtain ⟨rfl, rfl⟩ := Prod.mk.inj (Except.ok.inj obeyed)
      obtain ⟨journal, closes⟩ := close_eq e setting
      rw [closes]
      exact .closed
  | defer entity impact =>
      simp only [obey, defer, bind_eq_ok_iff, pure_eq_ok_iff, Prod.mk.injEq]
        at obeyed
      obtain ⟨deferred, isDeferred, rfl, rfl⟩ := obeyed
      split at isDeferred
      · cases isDeferred
      · rename_i isOpen
        obtain rfl := Except.ok.inj isDeferred
        exact .putOff isOpen

/-- Noting recent classes changes nothing else. -/
theorem foldl_addRecent (e : Exploration σ) (classes : List ClassId) :
    ∃ recent, classes.foldl addRecent e = { e with recent } := by
  induction classes generalizing e with
  | nil => exact ⟨e.recent, rfl⟩
  | cons cls rest ih =>
      obtain ⟨recent, noted⟩ := ih (e.addRecent cls)
      exact ⟨recent, noted⟩

theorem turn_of_drained {tasks : List Task}
    (drained : e.drained setting routine = (tasks, next)) :
    ∃ work, Turn setting routine e .draining work .deferring next ∧
      tasks = work ++ Stage.deferring.tasks routine := by
  unfold Exploration.drained at drained
  dsimp only at drained
  obtain ⟨rfl, rfl⟩ := Prod.mk.inj drained
  split
  · obtain ⟨tally, absorbed⟩ := absorb_eq _ _
    rw [absorbed]
    exact ⟨_, .drained fun _ => rfl, rfl⟩
  · rename_i unhandled
    obtain ⟨recent, noted⟩ := foldl_addRecent _ e.recent.listed
    rw [noted]
    obtain ⟨tally, absorbed⟩ := absorb_eq _ _
    rw [absorbed]
    exact ⟨_, .drained fun handled => absurd handled unhandled, rfl⟩

/-- A step in a stage without plain tasks is a turn. -/
theorem turn_of_step {stage : Stage} {task : Task} {rest tasks : List Task}
    (remaining : stage.tasks routine = task :: rest)
    (stepped : e.step setting task = .ok (tasks, next)) :
    ∃ work nextStage, Turn setting routine e stage work nextStage next ∧
      tasks ++ rest = work ++ nextStage.tasks routine := by
  cases stage with
  | idle => simp [Stage.tasks] at remaining
  | taking =>
      obtain ⟨rfl, rfl⟩ := List.cons.inj remaining
      obtain ⟨stage, turn, rfl⟩ := turn_of_takeNext (Except.ok.inj stepped)
      exact ⟨[], stage, turn, by simp⟩
  | obeying member commands =>
      cases commands with
      | nil =>
          obtain ⟨rfl, rfl⟩ := List.cons.inj remaining
          obtain ⟨rfl, rfl⟩ := Prod.mk.inj (Except.ok.inj stepped)
          exact ⟨[], .taking, .finished, rfl⟩
      | cons order commands =>
          obtain ⟨rfl, rfl⟩ := List.cons.inj remaining
          exact ⟨tasks, .obeying member commands, turn_of_command stepped, rfl⟩
  | draining =>
      obtain ⟨rfl, rfl⟩ := List.cons.inj remaining
      obtain ⟨work, turn, rfl⟩ := turn_of_drained (Except.ok.inj stepped)
      exact ⟨work, .deferring, turn, by simp⟩
  | deferring =>
      obtain ⟨rfl, rfl⟩ := List.cons.inj remaining
      have ran := Except.ok.inj stepped
      unfold runDeferred at ran
      split at ran
      · rename_i noneLeft
        obtain ⟨rfl, rfl⟩ := Prod.mk.inj ran
        exact ⟨[], .resuming, .allCarriedOut noneLeft, rfl⟩
      · rename_i deferred
        obtain ⟨rfl, rfl⟩ := Prod.mk.inj ran
        exact ⟨[_], .deferring, .carriedOut deferred, rfl⟩
  | resuming =>
      obtain ⟨rfl, rfl⟩ := List.cons.inj remaining
      obtain ⟨rfl, rfl⟩ := Prod.mk.inj (Except.ok.inj stepped)
      split
      · rename_i isSettled
        exact ⟨[], .idle, .settled isSettled, rfl⟩
      · rename_i unsettled
        exact ⟨[], .taking, .resumed (by simpa using unsettled), rfl⟩

/-- Every step is the effect of a plain task or a turn. -/
theorem effect_or_turn {task : Task} {tasks : List Task}
    (stepped : e.step setting task = .ok (tasks, next)) :
    Effect setting e task tasks next ∨
      ∃ routine stage rest work nextStage,
        Stage.tasks routine stage = task :: rest ∧
          Turn setting routine e stage work nextStage next ∧
          tasks ++ rest = work ++ nextStage.tasks routine := by
  cases isPlain : task.isPlain with
  | true => exact .inl (effect_of_step isPlain stepped)
  | false =>
      obtain ⟨routine, stage, rest, remaining⟩ := task.exists_stage isPlain
      obtain ⟨work, nextStage, turn, same⟩ := turn_of_step remaining stepped
      exact .inr ⟨routine, stage, rest, work, nextStage, remaining, turn, same⟩

theorem Turn.isPlain {stage nextStage : Stage} {work : List Task}
    (turn : Turn setting routine e stage work nextStage next) :
    ∀ task ∈ work, task.isPlain = true := by
  intro task listed
  cases turn with
  | applying | imposed | carriedOut =>
      obtain rfl := List.mem_singleton.1 listed
      rfl
  | drained =>
      obtain ⟨use, -, rfl⟩ := List.mem_map.1 listed
      rfl
  | emptied | passed | taken | putOff | closed | finished | allCarriedOut
  | resumed | settled => simp at listed

/-! ### Histories -/

/-- The uses that working off an agenda takes notice of, in order. -/
def noticed (setting : Setting σ) :
    Nat → List Task → Exploration σ → List Use
  | steps + 1, task :: agenda, e =>
      match e.step setting task with
      | .ok (tasks, next) =>
          task.noticed setting ++ noticed setting steps (tasks ++ agenda) next
      | .error _ => []
  | _, _, _ => []

theorem noticed_nil (setting : Setting σ) (steps : Nat) (e : Exploration σ) :
    noticed setting steps [] e = [] := by
  cases steps <;> rfl

theorem noticed_of_step {task : Task} {agenda tasks : List Task} {steps : Nat}
    (stepped : e.step setting task = .ok (tasks, next)) :
    noticed setting (steps + 1) (task :: agenda) e =
      task.noticed setting ++ noticed setting steps (tasks ++ agenda) next := by
  rw [noticed, stepped]

/-- A run that comes to an end has taken a step for every task. -/
theorem step_of_workOff {task : Task} {agenda : List Task} {steps : Nat}
    (worked : workOff setting steps (task :: agenda) e = .ok final) :
    ∃ fewer tasks next, steps = fewer + 1 ∧
      e.step setting task = .ok (tasks, next) ∧
      workOff setting fewer (tasks ++ agenda) next = .ok final := by
  cases steps with
  | zero => cases worked
  | succ steps =>
      rw [workOff] at worked
      split at worked
      · rename_i tasks next stepped
        exact ⟨steps, tasks, next, rfl, stepped, worked⟩
      · cases worked

/-- What holds at the end of a run holds all along, if it holds before every step
after which it holds. -/
theorem workOff_induction {motive : List Task → Exploration σ → Prop}
    (done : motive [] final)
    (step : ∀ {task : Task} {agenda tasks : List Task} {e next : Exploration σ},
      e.step setting task = .ok (tasks, next) →
        motive (tasks ++ agenda) next → motive (task :: agenda) e)
    {steps : Nat} {agenda : List Task}
    (worked : workOff setting steps agenda e = .ok final) : motive agenda e := by
  induction steps generalizing agenda e with
  | zero =>
      cases agenda with
      | nil =>
          cases worked
          exact done
      | cons task agenda => cases worked
  | succ steps ih =>
      cases agenda with
      | nil =>
          cases worked
          exact done
      | cons task agenda =>
          obtain ⟨fewer, tasks, next, same, stepped, worked⟩ :=
            step_of_workOff worked
          obtain rfl := Nat.succ.inj same
          exact step stepped (ih worked)

/-- What holds at the end of a run of the loop holds all along, if it holds
before every step after which it holds.  The agenda stays split into plain tasks
and what remains of the loop: a plain task is carried out, and without one the
stage takes a turn. -/
theorem workOff_stages
    {motive : Nat → List Task → Stage → Exploration σ → Prop}
    (done : ∀ steps, motive steps [] .idle final)
    (step : ∀ {steps : Nat} {task : Task} {work tasks : List Task}
      {stage : Stage} {e next : Exploration σ}, task.isPlain = true →
        e.step setting task = .ok (tasks, next) →
          motive steps (tasks ++ work) stage next →
            motive (steps + 1) (task :: work) stage e)
    (turn : ∀ {steps : Nat} {task : Task} {rest tasks work : List Task}
      {stage nextStage : Stage} {e next : Exploration σ},
        stage.tasks routine = task :: rest →
          e.step setting task = .ok (tasks, next) →
            tasks ++ rest = work ++ nextStage.tasks routine →
              Turn setting routine e stage work nextStage next →
                motive steps work nextStage next →
                  motive (steps + 1) [] stage e)
    {steps : Nat} {work : List Task} {stage : Stage}
    (isPlain : ∀ task ∈ work, task.isPlain = true)
    (worked : workOff setting steps (work ++ stage.tasks routine) e =
      .ok final) : motive steps work stage e := by
  induction steps using Nat.strongRecOn generalizing work stage e with
  | ind steps ih =>
      cases work with
      | cons task work =>
          rw [List.cons_append] at worked
          obtain ⟨fewer, tasks, next, rfl, stepped, worked⟩ :=
            step_of_workOff worked
          have taskIsPlain := isPlain task List.mem_cons_self
          have effect := effect_of_step taskIsPlain stepped
          rw [← List.append_assoc] at worked
          exact step taskIsPlain stepped (ih fewer (Nat.lt_succ_self fewer)
            (effect.isPlain_append isPlain) worked)
      | nil =>
          rw [List.nil_append] at worked
          cases remaining : stage.tasks routine with
          | nil =>
              obtain rfl := Stage.eq_idle_of_tasks remaining
              rw [remaining] at worked
              obtain rfl : e = final := by
                cases steps <;> exact Except.ok.inj worked
              exact done steps
          | cons task rest =>
              rw [remaining] at worked
              obtain ⟨fewer, tasks, next, rfl, stepped, worked⟩ :=
                step_of_workOff worked
              obtain ⟨work, nextStage, isTurn, agenda⟩ :=
                turn_of_step remaining stepped
              rw [agenda] at worked
              exact turn remaining stepped agenda isTurn
                (ih fewer (Nat.lt_succ_self fewer) isTurn.isPlain worked)

/-- An invariant of the configurations of a run: what it has taken notice of,
the plain tasks at hand, the stage of the loop, and the exploration. -/
structure Invariant (setting : Setting σ) (routine : Routine)
    (holds : List Use → List Task → Stage → Exploration σ → Prop) : Prop where
  step : ∀ {history : List Use} {task : Task} {work : List Task} {stage : Stage}
    {e : Exploration σ} {tasks : List Task} {next : Exploration σ},
    holds history (task :: work) stage e → Effect setting e task tasks next →
      holds (history ++ task.noticed setting) (tasks ++ work) stage next
  turn : ∀ {history : List Use} {stage : Stage} {e : Exploration σ}
    {work : List Task} {nextStage : Stage} {next : Exploration σ},
    holds history [] stage e →
      Turn setting routine e stage work nextStage next →
        holds history work nextStage next

/-- An invariant holds at the end of a run. -/
theorem Invariant.workOff
    {holds : List Use → List Task → Stage → Exploration σ → Prop}
    (invariant : Invariant setting routine holds) {steps : Nat}
    {history : List Use} {work : List Task} {stage : Stage}
    (start : holds history work stage e)
    (isPlain : ∀ task ∈ work, task.isPlain = true)
    (worked : Exploration.workOff setting steps (work ++ stage.tasks routine)
      e = .ok final) :
    holds (history ++ noticed setting steps (work ++ stage.tasks routine) e)
      [] .idle final := by
  refine workOff_stages
    (motive := fun steps work stage e => ∀ history,
      holds history work stage e →
        holds (history ++ noticed setting steps (work ++ stage.tasks routine) e)
          [] .idle final)
    ?_ ?_ ?_ isPlain worked history start
  · intro steps history known
    rwa [List.nil_append, Stage.tasks, noticed_nil, List.append_nil]
  · intro steps task work tasks stage e next taskIsPlain stepped ih history known
    have further := ih _
      (invariant.step known (effect_of_step taskIsPlain stepped))
    rwa [List.append_assoc, List.append_assoc, ← noticed_of_step stepped]
      at further
  · intro steps task rest tasks work stage nextStage e next remaining stepped
      agenda turn ih history known
    have further := ih _ (invariant.turn known turn)
    rwa [List.nil_append, remaining, noticed_of_step stepped, agenda,
      Stage.noticed_eq_nil setting remaining, List.nil_append]

/-- The loop over the queue ends only when nothing is left to be done. -/
theorem Invariant.and_settled
    {holds : List Use → List Task → Stage → Exploration σ → Prop}
    (invariant : Invariant setting routine holds) :
    Invariant setting routine fun history work stage e =>
      holds history work stage e ∧
        (stage = .idle → work = [] ∧ e.isSettled = true) where
  step := by
    rintro history task work stage e tasks next ⟨known, ends⟩ effect
    exact ⟨invariant.step known effect, fun isIdle => by simpa using ends isIdle⟩
  turn := by
    rintro history stage e work nextStage next ⟨known, -⟩ turn
    refine ⟨invariant.turn known turn, ?_⟩
    rintro rfl
    cases turn with
    | settled isSettled => exact ⟨rfl, isSettled⟩

/-- What an invariant says when the loop over the queue is over. -/
theorem Invariant.forEach
    {holds : List Use → List Task → Stage → Exploration σ → Prop}
    (invariant : Invariant setting routine holds) {steps : Nat}
    {history : List Use} (start : holds history [] .taking e)
    (looped : e.forEach setting steps routine = .ok final) :
    holds (history ++ noticed setting steps [.takeNext routine] e) [] .idle
        final ∧
      final.isSettled = true := by
  obtain ⟨known, ends⟩ := invariant.and_settled.workOff
    ⟨start, fun impossible => by cases impossible⟩ (by simp) looped
  exact ⟨known, (ends rfl).2⟩

end Exploration

end TreeShaking
