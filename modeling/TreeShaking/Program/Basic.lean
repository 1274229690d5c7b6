import TreeShaking.Program.Hierarchy

/-!
# Programs

A program is a set of tables of declarations together with the two closures of
its class hierarchy.  The tables never change, and everything else refers to
their entries by handle.  Following a handle that points outside its table
fails.
-/

namespace TreeShaking

/-- A program, ready to be asked about. -/
structure Program where
  names : NameTable
  libraries : Array LibraryDecl
  classes : Array ClassDecl
  members : Array MemberDecl
  typedefs : Array TypedefDecl
  /-- The proper supertypes of each class, nearest first. -/
  supertypeTable : Array (List ClassId)
  /-- The subclasses of each class, itself included, in ascending order. -/
  subclassTable : Array (List ClassId)

namespace Program

/-! ### Tables -/

def library (program : Program) (id : LibraryId) : Except Failure LibraryDecl :=
  fetch program.libraries id.index

def cls (program : Program) (id : ClassId) : Except Failure ClassDecl :=
  fetch program.classes id.index

def member (program : Program) (id : MemberId) : Except Failure MemberDecl :=
  fetch program.members id.index

def typedef (program : Program) (id : TypedefId) : Except Failure TypedefDecl :=
  fetch program.typedefs id.index

def libraryIds (program : Program) : List LibraryId :=
  Handle.upTo program.libraries.size

def classIds (program : Program) : List ClassId :=
  Handle.upTo program.classes.size

def memberIds (program : Program) : List MemberId :=
  Handle.upTo program.members.size

/-! ### Names -/

/-- What a member is called by. -/
def memberName (program : Program) (id : MemberId) :
    Except Failure MemberName := do
  let decl ← program.member id
  return program.names.memberName decl.name decl.library

def className (program : Program) (id : ClassId) : Except Failure String := do
  let decl ← program.cls id
  return program.names.lookup decl.name

/-- A member as messages name it, after the class that declares it. -/
def memberDisplay (program : Program) (id : MemberId) :
    Except Failure String := do
  let decl ← program.member id
  let name := program.names.lookup decl.name
  match decl.owner with
  | some owner =>
      let ownerName ← program.className owner
      return ownerName ++ "." ++ name
  | none =>
      return name

/-! ### Hierarchy -/

/-- A class and its superclasses, from the class upwards. -/
def superclassChain (program : Program) (id : ClassId) :
    Except Failure (List ClassId) :=
  Hierarchy.chain program.classes id

/-- The proper supertypes of a class, nearest first. -/
def supertypes (program : Program) (id : ClassId) :
    Except Failure (List ClassId) :=
  fetch program.supertypeTable id.index

/-- The subclasses of a class, itself included, in ascending order. -/
def subclasses (program : Program) (id : ClassId) :
    Except Failure (List ClassId) :=
  fetch program.subclassTable id.index

/-- Whether `lower` is `upper` or inherits from it. -/
def isSubclass (program : Program) (lower upper : ClassId) :
    Except Failure Bool := do
  let chain ← program.superclassChain lower
  return chain.contains upper

/-- Whether an instance of `lower` can be used where `upper` is asked for. -/
def isSubtype (program : Program) (lower upper : ClassId) :
    Except Failure Bool :=
  if lower = upper then
    .ok true
  else do
    let above ← program.supertypes lower
    return above.contains upper

/-! ### Typedefs -/

/-- The type behind a typedef, which may lead through `hops` further ones. -/
def followTypedef (program : Program) : Nat → TypedefId → Except Failure Ty
  | 0, target => do
      let _ ← program.typedef target
      .error (.cyclicTypedef target)
  | hops + 1, target => do
      let decl ← program.typedef target
      match decl.aliased with
      | .typedef next => followTypedef program hops next
      | type => return type

/-- The type that a type stands for.  A chain that is longer than the table of
typedefs goes in a circle. -/
def unalias (program : Program) : Ty → Except Failure Ty
  | .typedef target => program.followTypedef program.typedefs.size target
  | type => .ok type

end Program

end TreeShaking
