import TreeShaking.Program.Basic

/-!
# Inherited members

The instance members that a class declares or inherits, read upwards along its
superclasses.  A member hides those above it that have the same name and are
setters if and only if it is one; `Program.classMembers` lists what remains.
`Program.lookupMember` answers which member a name leads to.
-/

namespace TreeShaking

/-- An instance member with the class that declares it and its name. -/
structure Inherited where
  declarer : ClassId
  member : MemberId
  name : MemberName
  decl : MemberDecl

namespace Inherited

/-- What two members have in common when one hides the other. -/
def slot (inherited : Inherited) : MemberName × Bool :=
  (inherited.name, inherited.decl.isSetter)

/-- Whether the member is the one to be written, or else to be read, under its
name. -/
def answers (inherited : Inherited) (setter : Bool) : Bool :=
  if setter then
    inherited.decl.isSetter || inherited.decl.isAssignable
  else
    !inherited.decl.isSetter

/-- The first member of each slot. -/
def firstOfSlots :
    List (MemberName × Bool) → List Inherited → List Inherited
  | _, [] => []
  | seen, inherited :: rest =>
      if inherited.slot ∈ seen then
        firstOfSlots seen rest
      else
        inherited :: firstOfSlots (inherited.slot :: seen) rest

end Inherited

namespace Program

/-- A member of a class with its name. -/
def inherit (program : Program) (declarer : ClassId) (member : MemberId) :
    Except Failure Inherited := do
  let decl ← program.member member
  return {
    declarer, member, decl
    name := program.names.memberName decl.name decl.library }

/-- The instance members that one class declares, in order. -/
def declaredInstanceMembers (program : Program) (declarer : ClassId) :
    Except Failure (List Inherited) := do
  let decl ← program.cls declarer
  let declared ← decl.members.mapM (program.inherit declarer)
  return declared.filter (fun inherited => inherited.decl.isInstanceMember)

/-- The instance members that a class declares or inherits, hidden ones
included, nearest first. -/
def inheritedMembers (program : Program) (id : ClassId) :
    Except Failure (List Inherited) := do
  let chain ← program.superclassChain id
  let declared ← chain.mapM program.declaredInstanceMembers
  return declared.flatten

/-- The instance members that the instances of a class have. -/
def classMembers (program : Program) (id : ClassId) :
    Except Failure (List Inherited) := do
  let inherited ← program.inheritedMembers id
  return Inherited.firstOfSlots [] inherited

/-- The member that reading, or else writing, a name leads to in the instances
of a class. -/
def lookupMember (program : Program) (id : ClassId) (name : MemberName)
    (setter : Bool) : Except Failure (Option MemberId) := do
  let inherited ← program.inheritedMembers id
  let found := inherited.find?
    (fun candidate => candidate.name == name && candidate.answers setter)
  return found.map Inherited.member

end Program

end TreeShaking
