import TreeShaking.Diagnostic
import TreeShaking.Names
import TreeShaking.Phase
import TreeShaking.Ty
import TreeShaking.Use.Kind

/-!
# Failures

Everything that can stop the work on a program.  A `Violation` is a breach of
the rules of a phase and is reported at the entity where it was noticed; the
other failures concern the program itself or the use that was made of it.
-/

namespace TreeShaking

/-- A breach of the rules of a phase, with the entity where it was noticed. -/
inductive Violation where
  /-- Work was found for a queue that is closed. -/
  | queueClosed (phase : Phase) (member : MemberId) (display : String)
  /-- An action was deferred on a queue that is closed. -/
  | deferralAfterClose (phase : Phase) (entity : Entity)
  /-- The queue was expected to be empty. -/
  | workPending (phase : Phase) (first : MemberId) (count : Nat)
  /-- A use that only code generation makes was met during resolution. -/
  | codegenOnlyUse (kind : StaticUseKind) (member : MemberId)
  /-- Code generation creates a class that resolution did not. -/
  | classOutsideWorld (cls : ClassId) (name : String)
  /-- Code generation uses a member that resolution did not. -/
  | memberOutsideWorld (member : MemberId) (display : String)
  /-- A breach described in the reporter's own words. -/
  | reported (entity : Entity) (description : String)
deriving DecidableEq

namespace Violation

/-- The entity where the violation was noticed. -/
def entity : Violation → Entity
  | .queueClosed _ id _ => .member id
  | .deferralAfterClose _ place => place
  | .workPending _ first _ => .member first
  | .codegenOnlyUse _ id => .member id
  | .classOutsideWorld id _ => .cls id
  | .memberOutsideWorld id _ => .member id
  | .reported place _ => place

/-- What the violation consists in. -/
def description : Violation → String
  | .queueClosed phase _ display =>
      phase.name ++ " queue is closed; cannot add `" ++ display ++ "`"
  | .deferralAfterClose phase _ =>
      phase.name ++ " queue is closed; cannot defer an action"
  | .workPending phase _ count =>
      phase.name ++ " queue is not empty: " ++ toString count ++
        " work items pending"
  | .codegenOnlyUse kind _ =>
      "static use " ++ kind.text ++ " is not allowed during resolution"
  | .classOutsideWorld _ name =>
      "class `" ++ name ++
        "` is instantiated during code generation but not in the closed world"
  | .memberOutsideWorld _ display =>
      "`" ++ display ++
        "` is used during code generation but not live in the closed world"
  | .reported _ words => words

/-- The diagnostic that reports the violation. -/
def diagnostic (violation : Violation) : Diagnostic :=
  .internalAt violation.entity violation.description

end Violation

/-- The reasons for which work on a program stops. -/
inductive Failure where
  /-- There is no name left for a text. -/
  | namesExhausted (error : InternError)
  /-- There is no handle left for a declaration. -/
  | handlesExhausted
  /-- A handle points outside its table. -/
  | outOfBounds (size index : Nat)
  /-- The positional parameters of a member cannot be counted. -/
  | positionalOverflow
  /-- Typedefs refer to each other in a circle. -/
  | cyclicTypedef (target : TypedefId)
  /-- A class is among its own superclasses. -/
  | cyclicSuperclass (cls : ClassId)
  /-- A member was handed out as work twice. -/
  | secondWorkItem (display : String)
  /-- A queue was opened that is no longer new. -/
  | reopened (phase : Phase) (state : QueueState)
  /-- A type that is no class was to be instantiated. -/
  | notInterface (kind : TypeUseKind) (type : Ty)
  /-- A rule of the phase was broken. -/
  | violation (breach : Violation)
deriving DecidableEq

/-- The words in which a failure is reported. -/
def Failure.message : Failure → String
  | .namesExhausted error =>
      error.message
  | .handlesExhausted =>
      "entity table exceeded u32::MAX entries"
  | .outOfBounds size index =>
      "index out of bounds: the len is " ++ toString size ++
        " but the index is " ++ toString index
  | .positionalOverflow =>
      "attempt to add with overflow"
  | .cyclicTypedef target =>
      "cyclic typedef " ++ target.text
  | .cyclicSuperclass cls =>
      "cyclic superclass " ++ cls.text
  | .secondWorkItem display =>
      "`" ++ display ++ "` received a second work item"
  | .reopened phase state =>
      "internal compiler error: " ++ phase.name ++ " queue opened while " ++
        state.text
  | .notInterface kind type =>
      "internal compiler error: " ++ kind.text ++ " of non-interface type `" ++
        type.text ++ "`"
  | .violation breach =>
      "internal compiler error: " ++ breach.diagnostic.text

/-- The entry of a table at an index, which may point outside it. -/
def fetch {α : Type} (table : Array α) (index : Nat) : Except Failure α :=
  match table[index]? with
  | some entry => .ok entry
  | none => .error (.outOfBounds table.size index)

/-- Change the entry of a table at an index, which may point outside it. -/
def amend {α : Type} (table : Array α) (index : Nat) (change : α → α) :
    Except Failure (Array α) := do
  let entry ← fetch table index
  return table.setIfInBounds index (change entry)

/-- Put an entry at the end of a table, as long as there is a handle for it. -/
def extend {α : Type} (table : Array α) (entry : α) :
    Except Failure (Array α) :=
  if UInt32.size ≤ table.size then
    .error .handlesExhausted
  else
    .ok (table.push entry)

/-- The handles of all entries of a table. -/
def handles {α : Type} {directory : Directory} (table : Array α) :
    Except Failure (List (Handle directory)) :=
  if UInt32.size < table.size then
    .error .handlesExhausted
  else
    .ok (Handle.upTo table.size)

/-- The name of a text, which is stored if it is new.  Whoever interns a text
counts on a name being left for it. -/
def NameTable.intern (table : NameTable) (text : String) :
    Except Failure (Name × NameTable) :=
  match table.tryIntern text with
  | .ok interned => .ok interned
  | .error error => .error (.namesExhausted error)

theorem fetch_eq_ok_iff {α : Type} {table : Array α} {index : Nat} {entry : α} :
    fetch table index = .ok entry ↔ table[index]? = some entry := by
  unfold fetch
  cases table[index]? <;> simp

theorem fetch_eq_error_iff {α : Type} {table : Array α} {index : Nat}
    {failure : Failure} :
    fetch table index = .error failure ↔
      table.size ≤ index ∧ failure = .outOfBounds table.size index := by
  unfold fetch
  cases found : table[index]? with
  | some entry =>
      have bound := (Array.getElem?_eq_some_iff.1 found).1
      simp [Nat.not_le_of_lt bound]
  | none => simp [Array.getElem?_eq_none_iff.1 found, eq_comm]

theorem extend_eq_ok_iff {α : Type} {table extended : Array α} {entry : α} :
    extend table entry = .ok extended ↔
      table.size < UInt32.size ∧ extended = table.push entry := by
  unfold extend
  split
  · rename_i full
    simp [Nat.not_lt.2 full]
  · rename_i room
    simp [Nat.not_le.1 room, eq_comm]

theorem handles_eq_ok_iff {α : Type} {directory : Directory} {table : Array α}
    {all : List (Handle directory)} :
    handles table = .ok all ↔
      table.size ≤ UInt32.size ∧ all = Handle.upTo table.size := by
  unfold handles
  split
  · rename_i tooMany
    simp [Nat.not_le.2 tooMany]
  · rename_i enough
    simp [Nat.not_lt.1 enough, eq_comm]

theorem NameTable.intern_eq_ok_iff {table : NameTable} {text : String}
    {interned : Name × NameTable} :
    table.intern text = .ok interned ↔ table.tryIntern text = .ok interned := by
  unfold intern
  cases table.tryIntern text with
  | ok other => simp
  | error error => simp

end TreeShaking
