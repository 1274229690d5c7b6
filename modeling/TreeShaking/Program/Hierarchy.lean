import TreeShaking.Program.Declaration

/-!
# The class hierarchy

Three questions about a table of classes: which superclasses does a class have,
which supertypes does it reach through superclasses and interfaces together, and
which classes have it among their superclasses.  Superclasses form a chain;
interfaces may refer to each other in any way, also in circles.

All walks follow handles that may point outside the table, in which case they
fail there.
-/

namespace TreeShaking.Hierarchy

/-- A class and its superclasses, for at most `fuel` classes. -/
def chainWithin (classes : Array ClassDecl) :
    Nat → ClassId → Except Failure (List ClassId)
  | 0, cls => .error (.cyclicSuperclass cls)
  | fuel + 1, cls => do
      let decl ← fetch classes cls.index
      match decl.superclass with
      | none =>
          return [cls]
      | some superclass =>
          let rest ← chainWithin classes fuel superclass
          return cls :: rest

/-- A class and its superclasses, from the class upwards.  A chain without
repetition is no longer than the table, so that a longer one is a circle. -/
def chain (classes : Array ClassDecl) (cls : ClassId) :
    Except Failure (List ClassId) :=
  chainWithin classes (classes.size + 1) cls

/-- Visit the pending classes in turn, noting the direct supertypes that have
not been met; these are visited after the ones already pending. -/
def climb (classes : Array ClassDecl) :
    Nat → List ClassId → List ClassId → Except Failure (List ClassId)
  | _, [], met => .ok met
  | 0, _ :: _, met => .ok met
  | fuel + 1, cls :: pending, met => do
      let decl ← fetch classes cls.index
      let fresh := (decl.parents.filter (fun parent => parent ∉ met)).eraseDups
      climb classes fuel (pending ++ fresh) (met ++ fresh)

/-- The proper supertypes of a class, nearest first and each once.  No class is
visited twice, so that the size of the table bounds the visits. -/
def supertypes (classes : Array ClassDecl) (cls : ClassId) :
    Except Failure (List ClassId) := do
  let met ← climb classes (classes.size + 1) [cls] [cls]
  return met.tail

/-- File a class under another one and the superclasses of that one, for at
most `fuel` classes. -/
def fileWithin (classes : Array ClassDecl) (cls : ClassId) :
    Nat → ClassId → Array (List ClassId) → Except Failure (Array (List ClassId))
  | 0, above, _ => .error (.cyclicSuperclass above)
  | fuel + 1, above, table => do
      let filed ← amend table above.index (· ++ [cls])
      let decl ← fetch classes above.index
      match decl.superclass with
      | none =>
          return filed
      | some superclass =>
          fileWithin classes cls fuel superclass filed

/-- The subclasses of every class, itself included.  Each class in turn is filed
under itself and its superclasses. -/
def subclasses (classes : Array ClassDecl) :
    Except Failure (Array (List ClassId)) :=
  (Handle.upTo classes.size).foldlM
    (fun table cls => fileWithin classes cls (classes.size + 1) cls table)
    (Array.replicate classes.size [])

end TreeShaking.Hierarchy
