import TreeShaking.Program.Basic

/-!
# Drafting a program

A draft collects declarations one after the other and gives out handles in the
order of declaration.  Superclasses and interfaces may be named before they are
declared; whether they exist is checked when the draft is built into a program,
which also computes the closures of the class hierarchy.  Handles are words of
32 bits, and a declaration for which none is left fails.
-/

namespace TreeShaking

/-- A program that is still being declared. -/
structure Draft where
  names : NameTable := {}
  libraries : Array LibraryDecl := #[]
  classes : Array ClassDecl := #[]
  members : Array MemberDecl := #[]
  typedefs : Array TypedefDecl := #[]

/-- The ways in which a class declares a member. -/
inductive MemberForm where
  | method (parameters : Parameters)
  | abstractMethod (parameters : Parameters)
  | staticMethod (parameters : Parameters)
  | getter
  | setter
  | field (assignable : Bool)
  | staticField (assignable : Bool)
  | constructor (parameters : Parameters)
  | factory (parameters : Parameters)

namespace MemberForm

def kind : MemberForm → MemberKind
  | .method _ | .abstractMethod _ => .method
  | .staticMethod _ => .function
  | .getter => .getter
  | .setter => .setter
  | .field assignable | .staticField assignable => .field assignable
  | .constructor _ => .constructor false
  | .factory _ => .constructor true

def isStatic : MemberForm → Bool
  | .staticMethod _ | .staticField _ => true
  | _ => false

def isAbstract : MemberForm → Bool
  | .abstractMethod _ => true
  | _ => false

/-- The parameters of the member.  A setter takes the value to be stored. -/
def parameters : MemberForm → Parameters
  | .method given | .abstractMethod given | .staticMethod given
  | .constructor given | .factory given => given
  | .setter => { required := 1 }
  | .getter | .field _ | .staticField _ => {}

end MemberForm

/-- One declaration, or one change to an earlier one. -/
inductive Draft.Step where
  | intern (text : String)
  | library (name : String)
  | cls (library : LibraryId) (name : String) (superclass : Option ClassId)
  | markAbstract (id : ClassId)
  | markNative (id : ClassId)
  | addInterface (id : ClassId) (superinterface : ClassId)
  | function (library : LibraryId) (name : String) (parameters : Parameters)
  | topLevelField (library : LibraryId) (name : String) (assignable : Bool)
  | classMember (id : ClassId) (name : String) (form : MemberForm)
  | member (decl : MemberDecl)
  | markMalformed (id : MemberId)
  | typedef (library : LibraryId) (name : String) (aliased : Ty)

namespace Draft

/-- The name of a text, which is stored if it is new. -/
def intern (draft : Draft) (text : String) : Except Failure (Name × Draft) := do
  let (name, names) ← draft.names.intern text
  return (name, { draft with names })

/-- Change the declaration of a class. -/
def amendClass (draft : Draft) (id : ClassId) (change : ClassDecl → ClassDecl) :
    Except Failure Draft := do
  let classes ← amend draft.classes id.index change
  return { draft with classes }

/-- Declare a member, and file it with the class that owns it. -/
def addMember (draft : Draft) (decl : MemberDecl) : Except Failure Draft := do
  let id : MemberId := ⟨draft.members.size⟩
  let members ← extend draft.members decl
  let filed ← match decl.owner with
    | some owner =>
        draft.amendClass owner
          (fun cls => { cls with members := cls.members ++ [id] })
    | none =>
        pure draft
  return { filed with members }

/-- Declare a member in the library of its class. -/
def addClassMember (draft : Draft) (id : ClassId) (name : Name)
    (form : MemberForm) : Except Failure Draft := do
  let cls ← fetch draft.classes id.index
  draft.addMember {
    name
    library := cls.library
    owner := some id
    kind := form.kind
    isStatic := form.isStatic
    isAbstract := form.isAbstract
    parameters := form.parameters }

/-- Carry out one declaration.  A declared name is stored before anything
else. -/
def perform (draft : Draft) : Step → Except Failure Draft
  | .intern text => do
      let (_, named) ← draft.intern text
      return named
  | .library text => do
      let (name, named) ← draft.intern text
      let libraries ← extend named.libraries { name }
      return { named with libraries }
  | .cls library text superclass => do
      let (name, named) ← draft.intern text
      let classes ← extend named.classes { name, library, superclass }
      return { named with classes }
  | .markAbstract id =>
      draft.amendClass id (fun decl => { decl with isAbstract := true })
  | .markNative id =>
      draft.amendClass id (fun decl => { decl with isNative := true })
  | .addInterface id superinterface =>
      draft.amendClass id fun decl =>
        { decl with interfaces := decl.interfaces ++ [superinterface] }
  | .function library text parameters => do
      let (name, named) ← draft.intern text
      named.addMember {
        name, library, parameters
        owner := none
        kind := .function
        isStatic := true }
  | .topLevelField library text assignable => do
      let (name, named) ← draft.intern text
      named.addMember {
        name, library
        owner := none
        kind := .field assignable
        isStatic := true }
  | .classMember id text form => do
      let (name, named) ← draft.intern text
      named.addClassMember id name form
  | .member decl =>
      draft.addMember decl
  | .markMalformed id => do
      let members ← amend draft.members id.index
        (fun decl => { decl with isMalformed := true })
      return { draft with members }
  | .typedef library text aliased => do
      let (name, named) ← draft.intern text
      let typedefs ← extend named.typedefs { name, library, aliased }
      return { named with typedefs }

/-- Carry out several declarations in turn. -/
def performAll (draft : Draft) (steps : List Step) : Except Failure Draft :=
  steps.foldlM perform draft

/-- The program that a draft declares. -/
def build (draft : Draft) : Except Failure Program := do
  let all : List ClassId ← handles draft.classes
  let supertypes ← all.mapM (Hierarchy.supertypes draft.classes)
  let subclasses ← Hierarchy.subclasses draft.classes
  return {
    names := draft.names
    libraries := draft.libraries
    classes := draft.classes
    members := draft.members
    typedefs := draft.typedefs
    supertypeTable := supertypes.toArray
    subclassTable := subclasses }

end Draft

end TreeShaking
