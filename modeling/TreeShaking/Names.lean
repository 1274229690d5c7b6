import TreeShaking.Handle
import TreeShaking.Table

/-!
# Names

Every text that occurs in a program is stored once in a `NameTable`, and a
`Name` is its position there.  The empty text is always the first entry.  A
position outside the table stands for no text and reads as the empty one.
Beside the texts, the table keeps an index in which the name of a text is found.
Names are words of 32 bits, so there is room for no more than `UInt32.size` texts.

A member is called by a `MemberName`: the text and, for a private member, the
library that may see it.  A text is private when it starts with an underscore.
-/

namespace TreeShaking

/-- The texts of a program in the order of their first occurrence, and the names
that they have. -/
structure NameTable where
  texts : Array String := #[""]
  index : Table String Name := Table.ofList [("", ⟨0⟩)]

/-- Why a text has no name. -/
inductive InternError where
  /-- There are more texts than names. -/
  | overflow (count : Nat)
deriving DecidableEq

/-- The words in which it is reported that a text has no name. -/
def InternError.message : InternError → String
  | .overflow count =>
      "interner exceeded capacity: " ++ toString count ++
        " strings, max is " ++ toString (UInt32.size - 1)

namespace NameTable

/-- The table of texts that are all different. -/
def ofTexts (texts : Array String) : NameTable where
  texts := texts
  index := Table.ofList
    (texts.toList.zipIdx.map fun entry => (entry.1, ⟨entry.2⟩))

/-- The number of stored texts. -/
def size (table : NameTable) : Nat :=
  table.texts.size

/-- Whether nothing but the empty text is stored. -/
def isEmpty (table : NameTable) : Bool :=
  table.size == 1

/-- The name of a text that is already stored. -/
def find? (table : NameTable) (text : String) : Option Name :=
  table.index.get? text

/-- Store a new text at the end. -/
def store (table : NameTable) (text : String) : Name × NameTable :=
  let name : Name := ⟨table.size⟩
  (name, ⟨table.texts.push text, table.index.insert text name⟩)

/-- The name of a text, which is stored if it is new and there is room for it. -/
def tryIntern (table : NameTable) (text : String) :
    Except InternError (Name × NameTable) :=
  match table.find? text with
  | some name =>
      .ok (name, table)
  | none =>
      if UInt32.size ≤ table.size then
        .error (.overflow table.size)
      else
        .ok (table.store text)

/-- The text of a name. -/
def lookup (table : NameTable) (name : Name) : String :=
  (table.texts[name.index]?).getD ""

/-- Whether the text of a name makes a member private. -/
def isPrivate (table : NameTable) (name : Name) : Bool :=
  (table.lookup name).toList.head? == some '_'

/-- The summary that is printed for a name table. -/
def text (table : NameTable) : String :=
  "StringInterner \x7b len: " ++ toString table.size ++ " \x7d"

end NameTable

/-- What a member is called by: a text and, for a private member, the library
in which it is visible. -/
structure MemberName where
  text : Name
  library : Option LibraryId := none
deriving DecidableEq

namespace MemberName

/-- Whether only one library sees the name. -/
def isPrivate (name : MemberName) : Bool :=
  name.library.isSome

end MemberName

/-- The member name that a text written in a library stands for. -/
def NameTable.memberName (table : NameTable) (text : Name)
    (library : LibraryId) : MemberName :=
  if table.isPrivate text then
    { text, library := some library }
  else
    { text }

end TreeShaking
