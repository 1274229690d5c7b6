/-!
# Printing sets of flags

A set of flags is printed as its type with the names of the flags that are set,
divided by bars; the empty set is printed as the number zero.
-/

namespace TreeShaking.Text

/-- The printed form of a set of flags, given each flag with its name. -/
def flags (label : String) (named : List (Bool × String)) : String :=
  let names := (named.filter Prod.fst).map Prod.snd
  label ++ "(" ++
    (if names.isEmpty then "0x0" else " | ".intercalate names) ++ ")"

end TreeShaking.Text
