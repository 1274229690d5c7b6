import TreeShaking.Proofs.Run.Classes

/-!
# Operations in a row

An exploration is used by carrying out operations on it, in any order.  What is
known about its members and classes is known between operations as well, and the
uses that the operations have taken notice of make up its history.
-/

namespace TreeShaking

/-- The uses that an operation takes notice of, in order. -/
def Operation.noticed {σ : Type} (setting : Setting σ) (steps : Nat)
    (e : Exploration σ) : Operation → List Use
  | .start policy main libraries =>
      Exploration.noticed setting steps
        [.announce (.queueOpened main libraries)]
        { e with policy, state := .opened }
  | .apply impact source =>
      Exploration.noticed setting steps [.apply impact source] e
  | .forEach routine => Exploration.noticed setting steps [.takeNext routine] e
  | .defer _ _ | .close => []

namespace Exploration

variable {σ : Type} {setting : Setting σ} {history : List Use}
  {e next : Exploration σ}

/-- Carry out operations in turn, each in at most the given number of steps. -/
def performAll (setting : Setting σ) :
    List (Nat × Operation) → Exploration σ → Except Stop (Exploration σ)
  | [], e => .ok e
  | (steps, operation) :: rest, e => do
      let next ← e.perform setting steps operation
      performAll setting rest next

/-- The uses that operations take notice of, in order. -/
def noticedAll (setting : Setting σ) :
    List (Nat × Operation) → Exploration σ → List Use
  | [], _ => []
  | (steps, operation) :: rest, e =>
      operation.noticed setting steps e ++
        match e.perform setting steps operation with
        | .ok next => noticedAll setting rest next
        | .error _ => []

/-- Closing the queue concerns neither members nor classes. -/
theorem close_frame (e : Exploration σ) (setting : Setting σ) :
    (e.close setting).world = e.world ∧ (e.close setting).queue = e.queue ∧
      (e.close setting).processedClasses = e.processedClasses := by
  obtain ⟨journal, closes⟩ := close_eq e setting
  rw [closes]
  exact ⟨rfl, rfl, rfl⟩

/-- What holds throughout the operations on an exploration: the steps and turns
of every loop keep it, and an operation may begin where the last one has come to
an end. -/
structure Enduring (setting : Setting σ)
    (holds : List Use → List Task → Stage → Exploration σ → Prop) : Prop where
  invariant : ∀ routine, Invariant setting routine holds
  begin : ∀ {history : List Use} {e next : Exploration σ} {work : List Task}
    {stage : Stage}, holds history [] .idle e →
      (∀ task ∈ work, task.isNeutral = true ∧ task.concernsClass = false) →
      stage.member? = none → next.world = e.world → next.queue = e.queue →
      next.processedClasses = e.processedClasses →
        holds history work stage next

variable {holds : List Use → List Task → Stage → Exploration σ → Prop}

/-- What endures holds after an operation. -/
theorem Enduring.perform (enduring : Enduring setting holds)
    (known : holds history [] .idle e) {steps : Nat} {operation : Operation}
    (performed : e.perform setting steps operation = .ok next) :
    holds (history ++ operation.noticed setting steps e) [] .idle next := by
  cases operation with
  | start policy main libraries =>
      unfold Exploration.perform start at performed
      dsimp only at performed
      split at performed
      · have started : holds history
            [.announce (.queueOpened main libraries)] .idle
            { e with policy, state := .opened } :=
          enduring.begin known (by simp [Task.isNeutral, Task.concernsClass])
            rfl rfl rfl rfl
        exact (enduring.invariant fun _ => []).workOff started
          (by simp [Task.isPlain]) performed
      · cases performed
  | apply impact source =>
      have started : holds history [.apply impact source] .idle e :=
        enduring.begin known (by simp [Task.isNeutral, Task.concernsClass]) rfl
          rfl rfl rfl
      exact (enduring.invariant fun _ => []).workOff started
        (by simp [Task.isPlain]) performed
  | forEach routine =>
      have started : holds history [] .taking e :=
        enduring.begin known (by simp) rfl rfl rfl rfl
      exact ((enduring.invariant routine).forEach started performed).1
  | defer entity impact =>
      unfold Exploration.perform defer at performed
      dsimp only at performed
      split at performed
      · cases performed
      · obtain rfl := Except.ok.inj performed
        rw [Operation.noticed, List.append_nil]
        exact enduring.begin known (by simp) rfl rfl rfl rfl
  | close =>
      obtain rfl := Except.ok.inj performed
      obtain ⟨world, queue, entered⟩ := close_frame e setting
      rw [Operation.noticed, List.append_nil]
      exact enduring.begin known (by simp) rfl world queue entered

theorem Enduring.performAll (enduring : Enduring setting holds)
    (known : holds history [] .idle e) {operations : List (Nat × Operation)}
    (performed : Exploration.performAll setting operations e = .ok next) :
    holds (history ++ noticedAll setting operations e) [] .idle next := by
  induction operations generalizing history e with
  | nil =>
      obtain rfl := Except.ok.inj performed
      rwa [noticedAll, List.append_nil]
  | cons first rest ih =>
      obtain ⟨steps, operation⟩ := first
      rw [Exploration.performAll, Outcome.bind_eq_ok_iff] at performed
      obtain ⟨middle, done, performed⟩ := performed
      have further := ih (enduring.perform known done) performed
      rwa [noticedAll, done, ← List.append_assoc]

/-! ### Members and classes -/

/-- All that is known about members and classes. -/
structure Tracked (setting : Setting σ) (history : List Use) (work : List Task)
    (stage : Stage) (e : Exploration σ) : Prop where
  lifecycle : Lifecycle setting history work stage e
  classes : Classes setting history work e

theorem tracked_invariant (built : setting.program.Built) (routine : Routine) :
    Invariant setting routine (Tracked setting) where
  step tracked effect := ⟨tracked.lifecycle.step effect,
    tracked.classes.step built tracked.lifecycle.books effect⟩
  turn tracked turn := ⟨tracked.lifecycle.turn turn, tracked.classes.turn turn⟩

theorem Tracked.begin (tracked : Tracked setting history [] .idle e)
    {work : List Task} {stage : Stage}
    (unconcerned : ∀ task ∈ work,
      task.isNeutral = true ∧ task.concernsClass = false)
    (resting : stage.member? = none) (world : next.world = e.world)
    (queue : next.queue = e.queue)
    (entered : next.processedClasses = e.processedClasses) :
    Tracked setting history work stage next := by
  constructor
  · exact tracked.lifecycle.begin (fun task listed => (unconcerned task listed).1)
      resting world queue entered
  · have same : World.SameClasses e.world next.world := by
      rw [world]
      exact ⟨rfl, rfl, rfl⟩
    exact tracked.classes.begin (fun task listed => (unconcerned task listed).2)
      same entered

theorem tracked_enduring (built : setting.program.Built) :
    Enduring setting (Tracked setting) where
  invariant := tracked_invariant built
  begin tracked unconcerned resting world queue entered :=
    tracked.begin unconcerned resting world queue entered

/-- An exploration in which nothing has been done yet. -/
structure IsFresh (e : Exploration σ) : Prop where
  world : e.world = {}
  queue : e.queue = []
  classes : e.processedClasses = []
  deferred : e.deferred = []

theorem tracked_of_fresh (fresh : e.IsFresh) : Tracked setting [] [] .idle e :=
  ⟨lifecycle_of_fresh fresh.world fresh.classes fresh.queue,
    classes_of_fresh fresh.world fresh.classes⟩

end Exploration

end TreeShaking
