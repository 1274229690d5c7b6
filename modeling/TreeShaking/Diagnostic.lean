import TreeShaking.Handle

/-!
# Diagnostics

A diagnostic is a coded message, possibly attached to an entity and followed by
notes.  Its printed form has one line for the message and one for each of the
others.
-/

namespace TreeShaking

/-- How serious a diagnostic is. -/
inductive Severity where
  | error
  | warning
  | note
deriving DecidableEq

/-- The printed form of a severity. -/
def Severity.text : Severity → String
  | .error => "error"
  | .warning => "warning"
  | .note => "note"

/-- The codes under which diagnostics are known.  All of them report faults of
the compiler itself. -/
inductive ErrorCode where
  | internalError
  | missedMember
deriving DecidableEq

namespace ErrorCode

/-- Every code, in numerical order. -/
def all : List ErrorCode :=
  [.internalError, .missedMember]

/-- The printed form of a code. -/
def text : ErrorCode → String
  | .internalError => "E9001"
  | .missedMember => "E9002"

/-- What a code stands for. -/
def description : ErrorCode → String
  | .internalError => "internal compiler error"
  | .missedMember => "live instance member was never enqueued"

/-- Whether a code reports a fault of the compiler. -/
def isInternal : ErrorCode → Bool
  | .internalError | .missedMember => true

/-- Read a code in either case.  Codes are ASCII, so that no other letter turns
into one of theirs when it is raised. -/
def parse? (input : String) : Option ErrorCode :=
  all.find? (fun code => code.text.toList == input.toList.map Char.toUpper)

end ErrorCode

/-- A coded message. -/
structure Diagnostic where
  code : ErrorCode
  severity : Severity := .error
  message : String := ""
  entity : Option Entity := none
  notes : List String := []
deriving DecidableEq

namespace Diagnostic

/-- The report of a fault of the compiler at an entity. -/
def internalAt (entity : Entity) (message : String) : Diagnostic where
  code := .internalError
  message := message
  entity := some entity

/-- Whether the diagnostic is an error. -/
def isError (diagnostic : Diagnostic) : Bool :=
  diagnostic.severity == .error

/-- The printed form of a diagnostic. -/
def text (diagnostic : Diagnostic) : String :=
  diagnostic.severity.text ++ " [" ++ diagnostic.code.text ++ "]: " ++
    diagnostic.message ++
    (match diagnostic.entity with
      | some entity => "\n  --> " ++ entity.text
      | none => "") ++
    String.join (diagnostic.notes.map (fun note => "\n  = note: " ++ note))

end Diagnostic

end TreeShaking
