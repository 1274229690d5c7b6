import TreeShaking.World.Basic

/-!
# The closed world

Closing the world of resolution fixes what is live.  From then on it is known
which members can answer a selector, and sometimes there is only one.
-/

namespace TreeShaking

/-- What resolution has found to be live. -/
structure ClosedWorld where
  direct : List ClassId := []
  instantiated : List ClassId := []
  implemented : List ClassId := []
  members : List MemberId := []
  closurized : List MemberId := []
  isChecks : List Ty := []
  selectors : List Selector := []

/-- Fix what a world has found. -/
def World.close (world : World) : ClosedWorld where
  direct := world.directClasses
  instantiated := world.instantiatedClasses
  implemented := world.implementedClasses
  members := world.usedMembers
  closurized := Handle.ascending world.closurized
  isChecks := world.isChecks
  selectors := world.usedSelectors

namespace ClosedWorld

def isInstantiated (closed : ClosedWorld) (cls : ClassId) : Bool :=
  closed.instantiated.contains cls

def isDirectlyInstantiated (closed : ClosedWorld) (cls : ClassId) : Bool :=
  closed.direct.contains cls

def isImplemented (closed : ClosedWorld) (cls : ClassId) : Bool :=
  closed.implemented.contains cls

def isMemberLive (closed : ClosedWorld) (member : MemberId) : Bool :=
  closed.members.contains member

def isClosurized (closed : ClosedWorld) (member : MemberId) : Bool :=
  closed.closurized.contains member

def hasIsCheck (closed : ClosedWorld) (type : Ty) : Bool :=
  closed.isChecks.contains type

def isSelectorUsed (closed : ClosedWorld) (selector : Selector) : Bool :=
  closed.selectors.contains selector

/-- The live member, if any, that answers a selector in the instances of a
class. -/
def targetIn (closed : ClosedWorld) (program : Program) (selector : Selector)
    (constraint : Constraint) (cls : ClassId) :
    Except Failure (Option MemberId) := do
  if ← constraint.accepts program cls then
    match ← program.lookupMember cls selector.name selector.isSetter with
    | none =>
        return none
    | some member =>
        let decl ← program.member member
        if decl.isAbstract then
          return none
        else
          let applies ← selector.appliesTo decl
          return if applies && closed.isMemberLive member then
            some member
          else
            none
  else
    return none

/-- The live members that can answer a selector, in ascending order. -/
def targetsOf (closed : ClosedWorld) (program : Program) (selector : Selector)
    (constraint : Constraint) : Except Failure (List MemberId) := do
  let targets ←
    closed.direct.mapM (closed.targetIn program selector constraint)
  return Handle.ascending (targets.filterMap id)

/-- The member that answers a selector, if there is just one. -/
def singleTarget? (closed : ClosedWorld) (program : Program)
    (selector : Selector) (constraint : Constraint) :
    Except Failure (Option MemberId) := do
  match ← closed.targetsOf program selector constraint with
  | [single] => return some single
  | _ => return none

end ClosedWorld

end TreeShaking
