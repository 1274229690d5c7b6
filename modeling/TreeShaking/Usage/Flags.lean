import TreeShaking.Text.Flags

/-!
# Sets of uses

The small sets in which uses are counted: how a member is used, how a class is
used, and in which way an instance comes about.  In numbers, the first flag of
each set has weight one, the second two, and so on.
-/

namespace TreeShaking

/-- The weight of a flag in the number of a set. -/
def flagBit (isSet : Bool) (weight : Nat) : Nat :=
  if isSet then weight else 0

/-- How a member is used: as it is, by tearing it off an instance, or by
tearing off a static function. -/
structure MemberUses where
  normal : Bool := false
  closurizeInstance : Bool := false
  closurizeStatic : Bool := false
deriving DecidableEq

namespace MemberUses

def isEmpty (uses : MemberUses) : Bool :=
  uses == {}

def union (first second : MemberUses) : MemberUses where
  normal := first.normal || second.normal
  closurizeInstance := first.closurizeInstance || second.closurizeInstance
  closurizeStatic := first.closurizeStatic || second.closurizeStatic

def inter (first second : MemberUses) : MemberUses where
  normal := first.normal && second.normal
  closurizeInstance := first.closurizeInstance && second.closurizeInstance
  closurizeStatic := first.closurizeStatic && second.closurizeStatic

def diff (first second : MemberUses) : MemberUses where
  normal := first.normal && !second.normal
  closurizeInstance := first.closurizeInstance && !second.closurizeInstance
  closurizeStatic := first.closurizeStatic && !second.closurizeStatic

/-- The number of a set. -/
def bits (uses : MemberUses) : Nat :=
  flagBit uses.normal 1 + flagBit uses.closurizeInstance 2 +
    flagBit uses.closurizeStatic 4

/-- The set of a number, whose other digits are ignored. -/
def ofBits (number : Nat) : MemberUses where
  normal := number.testBit 0
  closurizeInstance := number.testBit 1
  closurizeStatic := number.testBit 2

/-- The printed form of a set. -/
def text (uses : MemberUses) : String :=
  Text.flags "MemberUses" [
    (uses.normal, "NORMAL"),
    (uses.closurizeInstance, "CLOSURIZE_INSTANCE"),
    (uses.closurizeStatic, "CLOSURIZE_STATIC")]

end MemberUses

/-- How a class is used: by its instances or those of a subclass, or as a type
that has instances. -/
structure ClassUses where
  instantiated : Bool := false
  implemented : Bool := false
deriving DecidableEq

namespace ClassUses

def isEmpty (uses : ClassUses) : Bool :=
  uses == {}

/-- The number of a set. -/
def bits (uses : ClassUses) : Nat :=
  flagBit uses.instantiated 1 + flagBit uses.implemented 2

/-- The set of a number, whose other digits are ignored. -/
def ofBits (number : Nat) : ClassUses where
  instantiated := number.testBit 0
  implemented := number.testBit 1

/-- The printed form of a set. -/
def text (uses : ClassUses) : String :=
  Text.flags "ClassUses" [
    (uses.instantiated, "INSTANTIATED"),
    (uses.implemented, "IMPLEMENTED")]

end ClassUses

/-- In which way an instance comes about. -/
structure InstantiationFlags where
  byMirrors : Bool := false
  native : Bool := false
  redirection : Bool := false
deriving DecidableEq

namespace InstantiationFlags

/-- The set of a number, whose other digits are ignored. -/
def ofBits (number : Nat) : InstantiationFlags where
  byMirrors := number.testBit 0
  native := number.testBit 1
  redirection := number.testBit 2

/-- The printed form of a set. -/
def text (flags : InstantiationFlags) : String :=
  Text.flags "InstantiationFlags" [
    (flags.byMirrors, "BY_MIRRORS"),
    (flags.native, "NATIVE"),
    (flags.redirection, "REDIRECTION")]

end InstantiationFlags

end TreeShaking
