import TreeShaking.Program.Declaration
import TreeShaking.Usage.Flags

/-!
# The usage of a member

A member starts out with the uses that it can have at all.  Accesses consume
them, and each access answers with the uses that it consumed, so that every use
is reported once.  Besides, the usage remembers which accesses were made; when
every access that counts for a member of its shape was made, it is fully used.
-/

namespace TreeShaking

/-- What matters about a member for the way it is used. -/
inductive MemberShape where
  | field
  | finalField
  | getter
  | setter
  | instanceFunction
  | staticFunction
  | constructor
deriving DecidableEq

/-- The shape of a declared member. -/
def MemberDecl.shape (decl : MemberDecl) : MemberShape :=
  match decl.kind with
  | .field true => .field
  | .field false => .finalField
  | .getter => .getter
  | .setter => .setter
  | .function | .method =>
      if decl.isInstanceMember then .instanceFunction else .staticFunction
  | .constructor _ => .constructor

/-- The uses that a member of a shape can have. -/
def MemberShape.potential : MemberShape → MemberUses
  | .instanceFunction => { normal := true, closurizeInstance := true }
  | .staticFunction => { normal := true, closurizeStatic := true }
  | .field | .finalField | .getter | .setter | .constructor =>
      { normal := true }

/-- The ways in which a member is accessed. -/
inductive Access where
  | init
  | read
  | write
  | invoke
  | full
deriving DecidableEq

/-- The accesses made to a member, and the uses that are still to be
consumed. -/
structure MemberUsage where
  shape : MemberShape
  pending : MemberUses
  hasInit : Bool := false
  hasRead : Bool := false
  hasWrite : Bool := false
  hasInvoke : Bool := false
deriving DecidableEq

namespace MemberUsage

/-- The usage of a member that nothing has accessed. -/
def start (decl : MemberDecl) : MemberUsage where
  shape := decl.shape
  pending := decl.shape.potential

/-- The uses that have been consumed. -/
def applied (usage : MemberUsage) : MemberUses :=
  usage.shape.potential.diff usage.pending

/-- Whether some use has been consumed. -/
def hasUse (usage : MemberUsage) : Bool :=
  !usage.applied.isEmpty

/-- Whether every access that counts for the shape was made. -/
def isFullyUsed (usage : MemberUsage) : Bool :=
  match usage.shape with
  | .field => usage.hasInit && usage.hasRead && usage.hasWrite
  | .finalField => usage.hasInit && usage.hasRead
  | .getter => usage.hasRead
  | .setter => usage.hasWrite
  | .instanceFunction | .staticFunction => usage.hasInvoke && usage.hasRead
  | .constructor => usage.hasInvoke

/-- Consume those of the given uses that are pending. -/
def consume (usage : MemberUsage) (uses : MemberUses) :
    MemberUses × MemberUsage :=
  let consumed := usage.pending.inter uses
  (consumed, { usage with pending := usage.pending.diff consumed })

/-- Consume nothing. -/
def unchanged (usage : MemberUsage) : MemberUses × MemberUsage :=
  ({}, usage)

/-- The initialisation of a field. -/
def init (usage : MemberUsage) : MemberUses × MemberUsage :=
  match usage.shape with
  | .field | .finalField =>
      if usage.hasInit then
        usage.unchanged
      else
        { usage with hasInit := true }.consume { normal := true }
  | _ => usage.unchanged

/-- The first read of a field or a getter. -/
def readValue (usage : MemberUsage) : MemberUses × MemberUsage :=
  if usage.hasRead then
    usage.unchanged
  else
    { usage with hasRead := true }.consume { normal := true }

/-- A call and a tear-off of a function at once. -/
def useFunction (usage : MemberUsage) : MemberUses × MemberUsage :=
  let potential := usage.shape.potential
  match usage.hasInvoke, usage.hasRead with
  | true, true => usage.unchanged
  | true, false =>
      { usage with hasRead := true }.consume
        (potential.diff { normal := true })
  | false, true =>
      { usage with hasInvoke := true }.consume { normal := true }
  | false, false =>
      { usage with hasRead := true, hasInvoke := true }.consume potential

/-- A read access.  Reading a function tears it off, and the result may be
called as well. -/
def read (usage : MemberUsage) : MemberUses × MemberUsage :=
  match usage.shape with
  | .field | .finalField | .getter => usage.readValue
  | .instanceFunction | .staticFunction => usage.useFunction
  | .setter | .constructor => usage.unchanged

/-- A write access. -/
def write (usage : MemberUsage) : MemberUses × MemberUsage :=
  match usage.shape with
  | .field | .setter =>
      if usage.hasWrite then
        usage.unchanged
      else
        { usage with hasWrite := true }.consume { normal := true }
  | _ => usage.unchanged

/-- The first call of a function or a constructor. -/
def invokeCode (usage : MemberUsage) : MemberUses × MemberUsage :=
  if usage.hasInvoke then
    usage.unchanged
  else if usage.hasRead then
    { usage with hasInvoke := true }.unchanged
  else
    { usage with hasInvoke := true }.consume { normal := true }

/-- A call.  Calling a field or a getter reads it and calls the value. -/
def invoke (usage : MemberUsage) : MemberUses × MemberUsage :=
  match usage.shape with
  | .field | .finalField | .getter => usage.readValue
  | .instanceFunction | .staticFunction | .constructor => usage.invokeCode
  | .setter => usage.unchanged

/-- Every access at once. -/
def useFully (usage : MemberUsage) : MemberUses × MemberUsage :=
  match usage.shape with
  | .instanceFunction | .staticFunction => usage.useFunction
  | .constructor => usage.invokeCode
  | .field | .finalField | .getter | .setter =>
      if usage.isFullyUsed then
        usage.unchanged
      else
        { usage with hasInit := true, hasRead := true, hasWrite := true }.consume
          { normal := true }

/-- Make an access.  The answer holds the uses that it consumed. -/
def access (usage : MemberUsage) : Access → MemberUses × MemberUsage
  | .init => usage.init
  | .read => usage.read
  | .write => usage.write
  | .invoke => usage.invoke
  | .full => usage.useFully

end MemberUsage

end TreeShaking
