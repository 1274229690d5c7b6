import TreeShaking.Failure
import TreeShaking.Names

/-!
# Declarations

What a program declares: libraries, classes, members and typedefs.  Declarations
refer to each other by handle.
-/

namespace TreeShaking

structure LibraryDecl where
  name : Name
deriving DecidableEq

/-- A class with its direct supertypes and the members it declares itself, in
the order of their declaration. -/
structure ClassDecl where
  name : Name
  library : LibraryId
  superclass : Option ClassId
  interfaces : List ClassId := []
  isAbstract : Bool := false
  isNative : Bool := false
  members : List MemberId := []
deriving DecidableEq

/-- The direct supertypes of a class: its superclass, then its interfaces. -/
def ClassDecl.parents (decl : ClassDecl) : List ClassId :=
  decl.superclass.toList ++ decl.interfaces

inductive MemberKind where
  | function
  | method
  | getter
  | setter
  | field (assignable : Bool)
  | constructor (isFactory : Bool)
deriving DecidableEq

/-- The printed form of a member kind. -/
def MemberKind.text : MemberKind → String
  | .function => "Function"
  | .method => "Method"
  | .getter => "Getter"
  | .setter => "Setter"
  | .field assignable =>
      "Field \x7b assignable: " ++ toString assignable ++ " \x7d"
  | .constructor isFactory =>
      "Constructor \x7b is_factory: " ++ toString isFactory ++ " \x7d"

/-- The parameters that a member declares. -/
structure Parameters where
  required : Nat := 0
  optional : Nat := 0
  named : List Name := []
deriving DecidableEq

/-- The number of positional parameters.  Counts of parameters are words of 32
bits, and a sum that does not fit into one is a failure. -/
def Parameters.total (parameters : Parameters) : Except Failure Nat :=
  if parameters.required + parameters.optional < UInt32.size then
    .ok (parameters.required + parameters.optional)
  else
    .error .positionalOverflow

/-- A member of a library or of a class. -/
structure MemberDecl where
  name : Name
  library : LibraryId
  owner : Option ClassId
  kind : MemberKind
  isStatic : Bool := false
  isAbstract : Bool := false
  isMalformed : Bool := false
  parameters : Parameters := {}
deriving DecidableEq

namespace MemberDecl

def isConstructor (decl : MemberDecl) : Bool :=
  match decl.kind with
  | .constructor _ => true
  | _ => false

/-- Whether the member belongs to the instances of a class. -/
def isInstanceMember (decl : MemberDecl) : Bool :=
  decl.owner.isSome && !decl.isStatic && !decl.isConstructor

def isFunction (decl : MemberDecl) : Bool :=
  match decl.kind with
  | .function | .method => true
  | _ => false

def isField (decl : MemberDecl) : Bool :=
  match decl.kind with
  | .field _ => true
  | _ => false

def isGetter (decl : MemberDecl) : Bool :=
  decl.kind == .getter

def isSetter (decl : MemberDecl) : Bool :=
  decl.kind == .setter

/-- Whether the member is a field that can be assigned. -/
def isAssignable (decl : MemberDecl) : Bool :=
  decl.kind == .field true

end MemberDecl

structure TypedefDecl where
  name : Name
  library : LibraryId
  aliased : Ty
deriving DecidableEq

end TreeShaking
