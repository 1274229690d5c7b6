import TreeShaking.Exploration.WorkItem
import TreeShaking.Listener.Basic
import TreeShaking.Options
import TreeShaking.World.Scope

/-!
# Explorations

An exploration is one phase at work: its world, the queue of members that wait
to be looked at, the classes that the listener has not been told of, and the
actions that wait for the queue to run empty.  What stays the same throughout
is kept apart in a `Setting`.

The journal is the history of the exploration, newest event first.  Nothing
depends on it; it is there to be read afterwards.
-/

namespace TreeShaking

/-- Which uses an exploration takes notice of. -/
inductive Strategy where
  /-- All of them, so that only what is needed is kept. -/
  | treeShaking
  /-- Only direct uses of members. -/
  | directOnly
  /-- None. -/
  | nothing
deriving DecidableEq

namespace Strategy

/-- Whether a use is taken notice of. -/
def admits : Strategy → Use → Bool
  | .treeShaking, _ => true
  | .directOnly, .static use => use.kind == .directUse
  | .directOnly, _ => false
  | .nothing, _ => false

def isTreeShaking (strategy : Strategy) : Bool :=
  strategy == .treeShaking

end Strategy

/-- What stays the same throughout an exploration. -/
structure Setting (σ : Type) where
  program : Program
  scope : Scope
  strategy : Strategy
  listener : Listener σ
  source : ImpactSource
  options : Options

/-- The phase of an exploration. -/
def Setting.phase {σ : Type} (setting : Setting σ) : Phase :=
  setting.scope.phase

/-- What happens in an exploration. -/
inductive Event where
  /-- The listener was told something, and handled it or not. -/
  | told (notice : Notice) (handled : Bool)
  /-- An impact was applied under a recording policy. -/
  | visited (source : Option Entity) (useCase : UseCase)
  /-- All impacts have served a purpose under a recording policy. -/
  | consumed (useCase : UseCase)
  /-- A member was taken from the queue to be processed. -/
  | taken (member : MemberId)
  /-- A deferred action was carried out. -/
  | ranDeferred (entity : Entity)
deriving DecidableEq

/-- How often an exploration did what. -/
structure Tally where
  workItems : Nat := 0
  skipped : Nat := 0
  impacts : Nat := 0
  deferred : Nat := 0
  rounds : Nat := 0
deriving DecidableEq

/-- Classes in order of arrival.  Beside the list stands the set of the classes
that are in it. -/
structure RecentClasses where
  listed : List ClassId := []
  known : List ClassId := []
deriving DecidableEq

/-- Add a class, unless it is known. -/
def RecentClasses.add (recent : RecentClasses) (cls : ClassId) :
    RecentClasses :=
  if cls ∈ recent.known then
    recent
  else
    { listed := recent.listed ++ [cls], known := recent.known.insert cls }

/-- The state of an exploration with a listener state in `σ`. -/
structure Exploration (σ : Type) where
  world : World := {}
  listener : σ
  cache : ImpactCache := {}
  policy : ImpactPolicy := .retaining
  state : QueueState := .created
  /-- Members that wait to be processed, oldest first. -/
  queue : List MemberId := []
  /-- Members that have been in the queue. -/
  issued : List MemberId := []
  /-- Classes instantiated since the queue last ran empty. -/
  recent : RecentClasses := {}
  processedClasses : List ClassId := []
  /-- Actions that wait for the queue to run empty, oldest first.  An action is
  known by its impact. -/
  deferred : List (Entity × Impact) := []
  tally : Tally := {}
  journal : List Event := []

namespace Exploration

variable {σ : Type}

/-- Whether nothing is left to be done. -/
def isSettled (exploration : Exploration σ) : Bool :=
  exploration.queue.isEmpty && exploration.recent.listed.isEmpty &&
    exploration.deferred.isEmpty

/-- Add an event to the journal. -/
def log (exploration : Exploration σ) (event : Event) : Exploration σ :=
  { exploration with journal := event :: exploration.journal }

/-- The members taken from the queue, in order. -/
def takenMembers (exploration : Exploration σ) : List MemberId :=
  exploration.journal.reverse.filterMap fun event =>
    match event with
    | .taken member => some member
    | _ => none

/-- Note a class that the listener has not been told of. -/
def addRecent (exploration : Exploration σ) (cls : ClassId) : Exploration σ :=
  { exploration with recent := exploration.recent.add cls }

/-- Take the next member from the queue. -/
def pop (exploration : Exploration σ) (order : QueueOrder) :
    Option (MemberId × Exploration σ) :=
  match order with
  | .lifo =>
      exploration.queue.getLast?.map fun member =>
        (member, { exploration with queue := exploration.queue.dropLast })
  | .fifo =>
      exploration.queue.head?.map fun member =>
        (member, { exploration with queue := exploration.queue.tail })

/-- Tell the listener something. -/
def tell (exploration : Exploration σ) (listener : Listener σ)
    (notice : Notice) : Answer × Exploration σ :=
  let (answer, heard) := listener.hear exploration.listener notice
  (answer,
    ({ exploration with listener := heard }).log (.told notice answer.handled))

end Exploration

end TreeShaking
