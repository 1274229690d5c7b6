import TreeShaking.Exploration.Agenda

/-!
# Running an exploration

The operations on an exploration: opening its queue, applying an impact, running
to the fixed point, deferring an action and closing the queue.  All of them work
off an agenda.

A listener can keep an exploration busy forever.  The number of steps is
therefore limited by an argument, and running out of steps is told apart from
failing: it says nothing about the exploration, which might go on.
-/

namespace TreeShaking

/-- The reasons for which an exploration stops early. -/
inductive Stop where
  | failed (failure : Failure)
  | outOfSteps
deriving DecidableEq

/-- An operation on an exploration. -/
inductive Operation where
  | start (policy : ImpactPolicy) (main : Option MemberId)
      (libraries : List LibraryId)
  | apply (impact : Impact) (source : Option Entity)
  | forEach (routine : Routine)
  | defer (entity : Entity) (impact : Impact)
  | close

namespace Exploration

variable {σ : Type}

/-- A failure stops the exploration. -/
def orStop {α : Type} : Except Failure α → Except Stop α
  | .ok value => .ok value
  | .error failure => .error (.failed failure)

/-- Work off an agenda in at most the given number of steps. -/
def workOff (setting : Setting σ) :
    Nat → List Task → Exploration σ → Except Stop (Exploration σ)
  | _, [], exploration => .ok exploration
  | 0, _ :: _, _ => .error .outOfSteps
  | steps + 1, task :: agenda, exploration =>
      match exploration.step setting task with
      | .ok (tasks, next) => workOff setting steps (tasks ++ agenda) next
      | .error failure => .error (.failed failure)

/-- Open the queue, which must be new, and apply what the listener needs from
the start. -/
def start (exploration : Exploration σ) (setting : Setting σ) (steps : Nat)
    (policy : ImpactPolicy) (main : Option MemberId)
    (libraries : List LibraryId) : Except Stop (Exploration σ) :=
  if exploration.state = .created then
    workOff setting steps [.announce (.queueOpened main libraries)]
      { exploration with policy, state := .opened }
  else
    .error (.failed (.reopened setting.phase exploration.state))

/-- Apply an impact.  The source is the entity whose impact it is, if any. -/
def applyImpact (exploration : Exploration σ) (setting : Setting σ)
    (steps : Nat) (impact : Impact) (source : Option Entity) :
    Except Stop (Exploration σ) :=
  workOff setting steps [.apply impact source] exploration

/-- Process members until nothing is left to be done. -/
def forEach (exploration : Exploration σ) (setting : Setting σ) (steps : Nat)
    (routine : Routine) : Except Stop (Exploration σ) :=
  workOff setting steps [.takeNext routine] exploration

/-- Process members by applying their impacts until nothing is left to be
done. -/
def runToFixedPoint (exploration : Exploration σ) (setting : Setting σ)
    (steps : Nat) : Except Stop (Exploration σ) :=
  exploration.forEach setting steps (fun _ => [.applyItem])

/-- Carry out an operation. -/
def perform (exploration : Exploration σ) (setting : Setting σ) (steps : Nat) :
    Operation → Except Stop (Exploration σ)
  | .start policy main libraries =>
      exploration.start setting steps policy main libraries
  | .apply impact source =>
      exploration.applyImpact setting steps impact source
  | .forEach routine => exploration.forEach setting steps routine
  | .defer entity impact => orStop (exploration.defer setting entity impact)
  | .close => .ok (exploration.close setting)

/-- Fail if members still wait in the queue. -/
def checkQueueIsEmpty (exploration : Exploration σ) (setting : Setting σ) :
    Except Failure Unit :=
  match exploration.queue with
  | [] => .ok ()
  | first :: _ =>
      .error (.violation
        (.workPending setting.phase first exploration.queue.length))

end Exploration

end TreeShaking
