import TreeShaking.Text.Blank

/-!
# Options

How an exploration is to be carried out.  Options are read from named values,
such as environment variables: a value is compared without the blanks around it
and regardless of case.
-/

namespace TreeShaking

/-- Which of the waiting members is taken next. -/
inductive QueueOrder where
  | lifo
  | fifo
deriving DecidableEq

/-- The printed form of a queue order. -/
def QueueOrder.text : QueueOrder → String
  | .lifo => "lifo"
  | .fifo => "fifo"

/-- How an exploration is to be carried out. -/
structure Options where
  queueOrder : QueueOrder := .lifo
  /-- Whether checks that only guard declared types are compiled. -/
  typeAssertions : Bool := false
  /-- Whether the final sweep for missed members is left out. -/
  skipConsistencyCheck : Bool := false
  /-- Whether impacts are read again to place code that is loaded late. -/
  deferredLoad : Bool := false
  /-- Whether impacts are read again to report on the program. -/
  dumpInfo : Bool := false
deriving DecidableEq

/-- A value that an option cannot have. -/
inductive OptionsError where
  | invalidQueueOrder (name value : String)
  | invalidBool (name value : String)
deriving DecidableEq

/-- The words in which a bad value is reported. -/
def OptionsError.message : OptionsError → String
  | .invalidQueueOrder name value =>
      "invalid value `" ++ value ++ "` for " ++ name ++
        ": expected `lifo` or `fifo`"
  | .invalidBool name value =>
      "invalid value `" ++ value ++ "` for " ++ name ++ ": expected a boolean"

namespace Options

/-- The variable that holds the queue order. -/
def queueOrderVariable : String := "KILN_QUEUE_ORDER"

/-- The variable that asks for type assertions. -/
def typeAssertionsVariable : String := "KILN_TYPE_ASSERTIONS"

/-- The variable that leaves the consistency check out. -/
def skipConsistencyCheckVariable : String := "KILN_SKIP_CONSISTENCY_CHECK"

/-- Read a queue order. -/
def parseQueueOrder (value : String) : Except OptionsError QueueOrder :=
  match Text.keyword value with
  | "lifo" => .ok .lifo
  | "fifo" => .ok .fifo
  | _ => .error (.invalidQueueOrder queueOrderVariable value)

/-- Read a truth value; an empty one is false. -/
def parseBool (name value : String) : Except OptionsError Bool :=
  let word := Text.keyword value
  if ["1", "true", "yes", "on"].contains word then
    .ok true
  else if ["", "0", "false", "no", "off"].contains word then
    .ok false
  else
    .error (.invalidBool name value)

/-- Read a value if it is given, and keep the default otherwise. -/
def readOr {α : Type} (default : α) (parse : String → Except OptionsError α) :
    Option String → Except OptionsError α
  | some value => parse value
  | none => .ok default

/-- Read the options from named values.  The first bad value is reported. -/
def ofLookup (lookup : String → Option String) :
    Except OptionsError Options := do
  let queueOrder ←
    readOr .lifo parseQueueOrder (lookup queueOrderVariable)
  let typeAssertions ←
    readOr false (parseBool typeAssertionsVariable)
      (lookup typeAssertionsVariable)
  let skipConsistencyCheck ←
    readOr false (parseBool skipConsistencyCheckVariable)
      (lookup skipConsistencyCheckVariable)
  return { queueOrder, typeAssertions, skipConsistencyCheck }

end Options

end TreeShaking
