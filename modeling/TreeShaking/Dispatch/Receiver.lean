import TreeShaking.Program.Basic

/-!
# Receivers

What is known about the receiver of a call: nothing, a class it is a subtype of,
or its exact class.  A constraint *can hit* a member of a class if some live
instance that inherits the member satisfies it, and it *accepts* a class whose
instances satisfy it.

A `ReceiverSet` collects the constraints that a selector was used with.  Once
nothing is known about one receiver, the others no longer matter.
-/

namespace TreeShaking

/-- The classes that can have instances; `none` stands for every class. -/
abbrev LiveClasses := Option (List ClassId)

/-- Whether a class can have instances. -/
def isLive (live : LiveClasses) (cls : ClassId) : Bool :=
  match live with
  | some classes => classes.contains cls
  | none => true

/-- What is known about a receiver. -/
inductive Constraint where
  | unconstrained
  | subtype (bound : ClassId)
  | exact (cls : ClassId)
deriving DecidableEq

namespace Constraint

/-- Whether a receiver that satisfies the constraint can inherit the members
that `declarer` declares. -/
def canHit (program : Program) (live : LiveClasses) (declarer : ClassId) :
    Constraint → Except Failure Bool
  | .unconstrained => .ok true
  | .exact cls =>
      if isLive live cls then
        program.isSubclass cls declarer
      else
        .ok false
  | .subtype bound => do
      let heirs ← program.subclasses declarer
      heirs.anyM fun cls =>
        if isLive live cls then
          program.isSubtype cls bound
        else
          .ok false

/-- Whether the instances of a class satisfy the constraint. -/
def accepts (program : Program) (cls : ClassId) :
    Constraint → Except Failure Bool
  | .unconstrained => .ok true
  | .exact only => .ok (decide (cls = only))
  | .subtype bound => program.isSubtype cls bound

end Constraint

/-- The constraints that a selector was used with, in order of arrival. -/
structure ReceiverSet where
  isAll : Bool := false
  constraints : List Constraint := []
deriving DecidableEq

namespace ReceiverSet

/-- Add a constraint.  The answer says whether the set grew. -/
def add (receivers : ReceiverSet) (constraint : Constraint) :
    Bool × ReceiverSet :=
  if receivers.isAll then
    (false, receivers)
  else if constraint = .unconstrained then
    (true, { isAll := true })
  else if constraint ∈ receivers.constraints then
    (false, receivers)
  else
    (true, { receivers with
      constraints := receivers.constraints ++ [constraint] })

/-- Whether one of the receivers can inherit the members of `declarer`. -/
def canHit (program : Program) (live : LiveClasses) (declarer : ClassId)
    (receivers : ReceiverSet) : Except Failure Bool :=
  if receivers.isAll then
    .ok true
  else
    receivers.constraints.anyM (Constraint.canHit program live declarer)

/-- Whether the instances of a class are among the receivers. -/
def accepts (program : Program) (cls : ClassId) (receivers : ReceiverSet) :
    Except Failure Bool :=
  if receivers.isAll then
    .ok true
  else
    receivers.constraints.anyM (Constraint.accepts program cls)

end ReceiverSet

end TreeShaking
