import TreeShaking.Usage.Flags

/-!
# The usage of a class

A class is noted as instantiated at most once and as implemented at most once.
-/

namespace TreeShaking

/-- The uses of a class that have not been noted yet. -/
structure ClassUsage where
  pending : ClassUses := { instantiated := true, implemented := true }
deriving DecidableEq

namespace ClassUsage

def isInstantiated (usage : ClassUsage) : Bool :=
  !usage.pending.instantiated

def isImplemented (usage : ClassUsage) : Bool :=
  !usage.pending.implemented

/-- The uses that have been noted. -/
def applied (usage : ClassUsage) : ClassUses where
  instantiated := usage.isInstantiated
  implemented := usage.isImplemented

/-- Note an instantiation.  The answer holds what is new about it. -/
def instantiate (usage : ClassUsage) : ClassUses × ClassUsage :=
  ({ instantiated := usage.pending.instantiated },
    { pending := { usage.pending with instantiated := false } })

/-- Note that instances of the type exist.  The answer holds what is new. -/
def implement (usage : ClassUsage) : ClassUses × ClassUsage :=
  ({ implemented := usage.pending.implemented },
    { pending := { usage.pending with implemented := false } })

end ClassUsage

end TreeShaking
