import TreeShaking.Proofs.Run.Journal
import TreeShaking.Proofs.Run.Operations

/-!
# Reachable configurations

An exploration is also looked at while an operation is under way, in particular
while a member is processed.  A configuration consists of the agenda that is left
and the exploration.  It is reachable if operations and steps lead to it; no
operation has to come to an end.  What is reached splits into plain tasks and a
stage of the loop (`Configured`), so that invariants hold there as well.
-/

namespace TreeShaking

open Outcome

namespace Exploration

variable {σ : Type}

/-- The agenda with which an operation begins, and the exploration that works it
off. -/
def commence (e : Exploration σ) (setting : Setting σ) :
    Operation → Except Failure (Progress σ)
  | .start policy main libraries =>
      if e.state = .created then
        .ok ([.announce (.queueOpened main libraries)],
          { e with policy, state := .opened })
      else
        .error (.reopened setting.phase e.state)
  | .apply impact source => .ok ([.apply impact source], e)
  | .forEach routine => .ok ([.takeNext routine], e)
  | .defer entity impact => do
      let next ← e.defer setting entity impact
      return ([], next)
  | .close => .ok ([], e.close setting)

/-- The configurations that operations on an exploration lead to. -/
inductive Reachable (setting : Setting σ) (initial : Exploration σ) :
    List Task → Exploration σ → Prop
  | initial : Reachable setting initial [] initial
  | commence {e next : Exploration σ} {operation : Operation}
      {agenda : List Task} (reached : Reachable setting initial [] e)
      (commenced : e.commence setting operation = .ok (agenda, next)) :
      Reachable setting initial agenda next
  | step {e next : Exploration σ} {task : Task} {agenda tasks : List Task}
      (reached : Reachable setting initial (task :: agenda) e)
      (stepped : e.step setting task = .ok (tasks, next)) :
      Reachable setting initial (tasks ++ agenda) next

variable {setting : Setting σ} {initial e next final : Exploration σ}
  {agenda tasks : List Task} {task : Task} {failure : Failure} {steps : Nat}

/-- An operation is its beginning and what is left to be worked off. -/
theorem perform_eq (e : Exploration σ) (setting : Setting σ) (steps : Nat)
    (operation : Operation) :
    e.perform setting steps operation =
      match e.commence setting operation with
      | .ok (agenda, next) => workOff setting steps agenda next
      | .error failure => .error (.failed failure) := by
  cases operation with
  | start policy main libraries =>
      unfold perform start commence
      dsimp only
      split
      · rfl
      · rfl
  | apply impact source => rfl
  | forEach routine => rfl
  | defer entity impact =>
      unfold perform commence
      dsimp only
      cases e.defer setting entity impact with
      | ok next => cases steps <;> rfl
      | error failure => rfl
  | close => cases steps <;> rfl

theorem Reachable.workOff (reached : Reachable setting initial agenda e)
    (worked : Exploration.workOff setting steps agenda e = .ok final) :
    Reachable setting initial [] final := by
  induction steps generalizing agenda e with
  | zero =>
      cases agenda with
      | nil =>
          obtain rfl := Except.ok.inj worked
          exact reached
      | cons task agenda => cases worked
  | succ steps ih =>
      cases agenda with
      | nil =>
          obtain rfl := Except.ok.inj worked
          exact reached
      | cons task agenda =>
          obtain ⟨fewer, tasks, next, same, stepped, worked⟩ :=
            step_of_workOff worked
          obtain rfl := Nat.succ.inj same
          exact ih (reached.step stepped) worked

/-- If working off an agenda fails, then some step does. -/
theorem Reachable.failing_step (reached : Reachable setting initial agenda e)
    (failed : Exploration.workOff setting steps agenda e =
      .error (.failed failure)) :
    ∃ task rest stuck, Reachable setting initial (task :: rest) stuck ∧
      stuck.step setting task = .error failure := by
  induction steps generalizing agenda e with
  | zero => cases agenda <;> cases failed
  | succ steps ih =>
      cases agenda with
      | nil => cases failed
      | cons task agenda =>
          rw [Exploration.workOff] at failed
          cases stepped : e.step setting task with
          | ok progress =>
              rw [stepped] at failed
              exact ih (reached.step stepped) failed
          | error reason =>
              rw [stepped] at failed
              cases failed
              exact ⟨task, agenda, e, reached, stepped⟩

theorem Reachable.perform {operation : Operation}
    (reached : Reachable setting initial [] e)
    (performed : e.perform setting steps operation = .ok final) :
    Reachable setting initial [] final := by
  rw [perform_eq] at performed
  cases commenced : e.commence setting operation with
  | ok progress =>
      rw [commenced] at performed
      exact (reached.commence commenced).workOff performed
  | error failure =>
      rw [commenced] at performed
      cases performed

theorem Reachable.performAll {operations : List (Nat × Operation)}
    (reached : Reachable setting initial [] e)
    (performed : Exploration.performAll setting operations e = .ok final) :
    Reachable setting initial [] final := by
  induction operations generalizing e with
  | nil =>
      obtain rfl := Except.ok.inj performed
      exact reached
  | cons first rest ih =>
      obtain ⟨steps, operation⟩ := first
      rw [Exploration.performAll, bind_eq_ok_iff] at performed
      obtain ⟨middle, done, performed⟩ := performed
      exact ih (reached.perform done) performed

/-- If operations fail, then a step does, or an operation cannot begin. -/
theorem Reachable.failing {operations : List (Nat × Operation)}
    (reached : Reachable setting initial [] e)
    (failed : Exploration.performAll setting operations e =
      .error (.failed failure)) :
    (∃ task rest stuck, Reachable setting initial (task :: rest) stuck ∧
        stuck.step setting task = .error failure) ∨
      ∃ operation stuck, Reachable setting initial [] stuck ∧
        stuck.commence setting operation = .error failure := by
  induction operations generalizing e with
  | nil => cases failed
  | cons first rest ih =>
      obtain ⟨steps, operation⟩ := first
      rw [Exploration.performAll] at failed
      cases performed : e.perform setting steps operation with
      | ok middle =>
          rw [performed] at failed
          exact ih (reached.perform performed) failed
      | error stop =>
          rw [performed] at failed
          cases failed
          rw [perform_eq] at performed
          cases commenced : e.commence setting operation with
          | ok progress =>
              rw [commenced] at performed
              exact .inl ((reached.commence commenced).failing_step performed)
          | error reason =>
              rw [commenced] at performed
              cases performed
              exact .inr ⟨operation, e, reached, commenced⟩

/-! ### The beginning of an operation -/

/-- The beginning of an operation leaves all this as it is. -/
structure Rests (e next : Exploration σ) : Prop where
  world : next.world = e.world
  queue : next.queue = e.queue
  issued : next.issued = e.issued
  processedClasses : next.processedClasses = e.processedClasses
  takenMembers : next.takenMembers = e.takenMembers

theorem rests_close (e : Exploration σ) (setting : Setting σ) :
    Rests e (e.close setting) := by
  obtain ⟨world, queue, entered⟩ := close_frame e setting
  refine ⟨world, queue, ?_, entered, ?_⟩
  · obtain ⟨journal, closes⟩ := close_eq e setting
    rw [closes]
  · refine (continues_close e setting).filterMap_journal fun event closing => ?_
    cases event with
    | taken => cases closing
    | told | visited | consumed | ranDeferred => rfl

/-- An operation begins with tasks that have nothing to do with members and
classes, or with the loop over the queue. -/
theorem commence_cases {operation : Operation}
    (commenced : e.commence setting operation = .ok (agenda, next)) :
    Rests e next ∧ ∃ work stage routine,
      agenda = work ++ Stage.tasks routine stage ∧
        (∀ task ∈ work, task.isPlain = true ∧ task.isNeutral = true ∧
          task.concernsClass = false) ∧
        stage.member? = none := by
  cases operation with
  | start policy main libraries =>
      unfold commence at commenced
      dsimp only at commenced
      split at commenced
      · cases commenced
        exact ⟨⟨rfl, rfl, rfl, rfl, rfl⟩, [_], .idle, fun _ => [], rfl,
          by simp [Task.isPlain, Task.isNeutral, Task.concernsClass], rfl⟩
      · cases commenced
  | apply impact source =>
      cases commenced
      exact ⟨⟨rfl, rfl, rfl, rfl, rfl⟩, [_], .idle, fun _ => [], rfl,
        by simp [Task.isPlain, Task.isNeutral, Task.concernsClass], rfl⟩
  | forEach routine =>
      cases commenced
      exact ⟨⟨rfl, rfl, rfl, rfl, rfl⟩, [], .taking, routine, rfl, by simp, rfl⟩
  | defer entity impact =>
      simp only [commence, defer, bind_eq_ok_iff, pure_eq_ok_iff,
        Prod.mk.injEq] at commenced
      obtain ⟨deferred, isDeferred, rfl, rfl⟩ := commenced
      split at isDeferred
      · cases isDeferred
      · cases isDeferred
        exact ⟨⟨rfl, rfl, rfl, rfl, rfl⟩, [], .idle, fun _ => [], rfl, by simp,
          rfl⟩
  | close =>
      cases commenced
      exact ⟨rests_close e setting, [], .idle, fun _ => [], rfl, by simp, rfl⟩

theorem Tracked.commence {history : List Use} {operation : Operation}
    (tracked : Tracked setting history [] .idle e)
    (commenced : e.commence setting operation = .ok (agenda, next)) :
    ∃ work stage routine, agenda = work ++ Stage.tasks routine stage ∧
      (∀ task ∈ work, task.isPlain = true) ∧
      Tracked setting history work stage next := by
  obtain ⟨rests, work, stage, routine, split, unconcerned, resting⟩ :=
    commence_cases commenced
  exact ⟨work, stage, routine, split,
    fun task listed => (unconcerned task listed).1,
    tracked.begin (fun task listed => (unconcerned task listed).2) resting
      rests.world rests.queue rests.processedClasses⟩

/-- What the beginning of an operation means to the listener: it is told at most
that the queue is closed, and its recent classes stay as they are. -/
structure Addresses (setting : Setting σ) (e next : Exploration σ) : Prop where
  recent : next.recent = e.recent
  listener : next.listener = e.listener ∨
    next.listener = (setting.listener.hear e.listener .queueClosed).2
  journal : Continues Event.isClosing e next

theorem addresses_of_commence {operation : Operation}
    (commenced : e.commence setting operation = .ok (agenda, next)) :
    Addresses setting e next := by
  cases operation with
  | start policy main libraries =>
      unfold commence at commenced
      dsimp only at commenced
      split at commenced
      · cases commenced
        exact ⟨rfl, .inl rfl, continues_of_journal rfl⟩
      · cases commenced
  | apply | forEach =>
      cases commenced
      exact ⟨rfl, .inl rfl, continues_of_journal rfl⟩
  | defer entity impact =>
      simp only [commence, defer, bind_eq_ok_iff, pure_eq_ok_iff,
        Prod.mk.injEq] at commenced
      obtain ⟨deferred, isDeferred, rfl, rfl⟩ := commenced
      split at isDeferred
      · cases isDeferred
      · cases isDeferred
        exact ⟨rfl, .inl rfl, continues_of_journal rfl⟩
  | close =>
      cases commenced
      obtain ⟨journal, closes⟩ := close_eq e setting
      refine ⟨?_, .inr ?_, continues_close e setting⟩
      · rw [closes]
      · rw [closes]

/-! ### Invariants of configurations -/

variable {holds : List Use → List Task → Stage → Exploration σ → Prop}

/-- A configuration splits into plain tasks and a stage of the loop, and something
holds of them. -/
def Configured (holds : List Use → List Task → Stage → Exploration σ → Prop)
    (agenda : List Task) (e : Exploration σ) : Prop :=
  ∃ history work stage routine, agenda = work ++ Stage.tasks routine stage ∧
    (∀ task ∈ work, task.isPlain = true) ∧ holds history work stage e

theorem Configured.step (configured : Configured holds (task :: agenda) e)
    (invariant : ∀ routine, Invariant setting routine holds)
    (stepped : e.step setting task = .ok (tasks, next)) :
    Configured holds (tasks ++ agenda) next := by
  obtain ⟨history, work, stage, routine, split, isPlain, known⟩ := configured
  cases work with
  | nil =>
      rw [List.nil_append] at split
      obtain ⟨work, nextStage, turn, same⟩ := turn_of_step split.symm stepped
      exact ⟨history, work, nextStage, routine, same, turn.isPlain,
        (invariant routine).turn known turn⟩
  | cons first work =>
      obtain ⟨rfl, rfl⟩ := List.cons.inj split
      have effect := effect_of_step (isPlain task List.mem_cons_self) stepped
      exact ⟨_, tasks ++ work, stage, routine, (List.append_assoc ..).symm,
        effect.isPlain_append isPlain, (invariant routine).step known effect⟩

theorem Reachable.configured (reached : Reachable setting initial agenda e)
    (invariant : ∀ routine, Invariant setting routine holds)
    (start : holds [] [] .idle initial)
    (begin : ∀ history e operation agenda next, holds history [] .idle e →
      e.commence setting operation = .ok (agenda, next) →
        Configured holds agenda next) :
    Configured holds agenda e := by
  induction reached with
  | initial => exact ⟨[], [], .idle, fun _ => [], rfl, by simp, start⟩
  | commence reached commenced ih =>
      obtain ⟨history, work, stage, routine, split, -, known⟩ := ih
      obtain ⟨rfl, noTasks⟩ := List.append_eq_nil_iff.1 split.symm
      obtain rfl := Stage.eq_idle_of_tasks noTasks
      exact begin _ _ _ _ _ known commenced
  | step reached stepped ih => exact ih.step invariant stepped

end Exploration

end TreeShaking
