import TreeShaking.Program.Declaration

/-!
# Selectors

A selector is what a call site knows about the member it wants: whether it
calls, reads or writes, the name, and the shape of the arguments.  `appliesTo`
decides whether a member with that name can answer.  Selectors are listed by
kind, name, library and argument shape, in this order.
-/

namespace TreeShaking

/-- The arguments of a call: how many are positional, and the names of the
others in ascending order. -/
structure CallShape where
  positional : Nat := 0
  named : List Name := []
deriving DecidableEq

namespace CallShape

/-- The shape of a call with the given named arguments, in any order. -/
def withNamed (positional : Nat) (named : List Name) : CallShape where
  positional := positional
  named := Handle.ascending named

/-- Whether a call of this shape fits the parameters of a member.  The
parameters are only counted once there are enough arguments for the required
ones. -/
def fits (shape : CallShape) (parameters : Parameters) :
    Except Failure Bool :=
  if shape.positional < parameters.required then
    .ok false
  else do
    let total ← parameters.total
    return shape.positional ≤ total &&
      shape.named.all (fun name => parameters.named.contains name)

end CallShape

inductive SelectorKind where
  | call
  | getter
  | setter
deriving DecidableEq

namespace SelectorKind

/-- The printed form of a selector kind. -/
def text : SelectorKind → String
  | .call => "Call"
  | .getter => "Getter"
  | .setter => "Setter"

/-- The place of a kind in the listing order. -/
def rank : SelectorKind → Nat
  | .call => 0
  | .getter => 1
  | .setter => 2

/-- How an access through a selector of this kind is named. -/
def accessText : SelectorKind → String
  | .call => "Invoke"
  | .getter => "Get"
  | .setter => "Set"

end SelectorKind

/-- What a call site knows about the member it wants. -/
structure Selector where
  kind : SelectorKind
  name : MemberName
  shape : CallShape
deriving DecidableEq

namespace Selector

/-- The selector of a call. -/
def call (name : MemberName) (shape : CallShape) : Selector where
  kind := .call
  name := name
  shape := shape

/-- The selector of a read access. -/
def getter (name : MemberName) : Selector where
  kind := .getter
  name := name
  shape := {}

/-- The selector of a write access, which carries the value to be stored. -/
def setter (name : MemberName) : Selector where
  kind := .setter
  name := name
  shape := { positional := 1 }

def isCall (selector : Selector) : Bool :=
  selector.kind == .call

def isGetter (selector : Selector) : Bool :=
  selector.kind == .getter

def isSetter (selector : Selector) : Bool :=
  selector.kind == .setter

/-- Whether a private selector stands in the library of the member. -/
def sees (selector : Selector) (decl : MemberDecl) : Bool :=
  match selector.name.library with
  | some library => decide (library = decl.library)
  | none => true

/-- Whether a member whose name has the selector's text can answer it.

A getter or a field can be read and the value then called.  A function can be
torn off by a read, and called if the arguments fit its parameters. -/
def appliesTo (selector : Selector) (decl : MemberDecl) :
    Except Failure Bool :=
  if !selector.sees decl then
    .ok false
  else
    match decl.kind with
    | .setter => .ok selector.isSetter
    | .getter => .ok (!selector.isSetter)
    | .field assignable => .ok (!selector.isSetter || assignable)
    | .function | .method | .constructor _ =>
        match selector.kind with
        | .getter => .ok true
        | .setter => .ok false
        | .call => selector.shape.fits decl.parameters

/-! ### Listing order -/

/-- Lexicographic comparison of lists of names. -/
def compareNames : List Name → List Name → Ordering
  | [], [] => .eq
  | [], _ :: _ => .lt
  | _ :: _, [] => .gt
  | first :: firsts, second :: seconds =>
      (compare first.index second.index).then (compareNames firsts seconds)

/-- Public names come before those of any library. -/
def compareLibraries : Option LibraryId → Option LibraryId → Ordering
  | none, none => .eq
  | none, some _ => .lt
  | some _, none => .gt
  | some first, some second => compare first.index second.index

/-- The listing order of selectors. -/
def order (first second : Selector) : Ordering :=
  (compare first.kind.rank second.kind.rank).then <|
  (compare first.name.text.index second.name.text.index).then <|
  (compareLibraries first.name.library second.name.library).then <|
  (compare first.shape.positional second.shape.positional).then <|
  compareNames first.shape.named second.shape.named

/-- Selectors in their listing order. -/
def listed (selectors : List Selector) : List Selector :=
  selectors.mergeSort (fun first second => (first.order second).isLE)

end Selector

end TreeShaking
