import TreeShaking.Handle

/-!
# Types

The types that uses mention: a class with type arguments, a function type, a
typedef, a type variable, and the three types without parts.  Equality of types
is decidable, and every type has a printed form.
-/

namespace TreeShaking

/-- A type of the program. -/
inductive Ty where
  | interface (cls : ClassId) (arguments : List Ty)
  | function (result : Ty) (parameters : List Ty)
  | typedef (target : TypedefId)
  | typeVariable (name : Name)
  | dynamic
  | void
  | never

namespace Ty

mutual

/-- Structural comparison of two types. -/
def same : Ty → Ty → Bool
  | .interface firstClass firstArguments,
      .interface secondClass secondArguments =>
      decide (firstClass = secondClass) &&
        sameAll firstArguments secondArguments
  | .function firstResult firstParameters,
      .function secondResult secondParameters =>
      same firstResult secondResult && sameAll firstParameters secondParameters
  | .typedef first, .typedef second =>
      decide (first = second)
  | .typeVariable first, .typeVariable second =>
      decide (first = second)
  | .dynamic, .dynamic => true
  | .void, .void => true
  | .never, .never => true
  | _, _ => false

/-- Structural comparison of two lists of types. -/
def sameAll : List Ty → List Ty → Bool
  | [], [] => true
  | first :: firsts, second :: seconds =>
      same first second && sameAll firsts seconds
  | _, _ => false

end

mutual

theorem eq_of_same : ∀ {first second : Ty}, same first second = true →
    first = second
  | .interface _ firstArguments, .interface _ secondArguments, equal => by
      simp only [same, Bool.and_eq_true, decide_eq_true_eq] at equal
      rw [equal.1, eq_of_sameAll equal.2]
  | .function firstResult _, .function secondResult _, equal => by
      simp only [same, Bool.and_eq_true] at equal
      rw [eq_of_same equal.1, eq_of_sameAll equal.2]
  | .typedef _, .typedef _, equal => by
      simp only [same, decide_eq_true_eq] at equal
      rw [equal]
  | .typeVariable _, .typeVariable _, equal => by
      simp only [same, decide_eq_true_eq] at equal
      rw [equal]
  | .dynamic, .dynamic, _ => rfl
  | .void, .void, _ => rfl
  | .never, .never, _ => rfl

theorem eq_of_sameAll : ∀ {firsts seconds : List Ty},
    sameAll firsts seconds = true → firsts = seconds
  | [], [], _ => rfl
  | first :: firsts, second :: seconds, equal => by
      simp only [sameAll, Bool.and_eq_true] at equal
      rw [eq_of_same equal.1, eq_of_sameAll equal.2]

end

mutual

theorem same_refl : ∀ type : Ty, same type type = true
  | .interface _ arguments => by simp [same, sameAll_refl arguments]
  | .function result parameters => by
      simp [same, same_refl result, sameAll_refl parameters]
  | .typedef _ => by simp [same]
  | .typeVariable _ => by simp [same]
  | .dynamic => rfl
  | .void => rfl
  | .never => rfl

theorem sameAll_refl : ∀ types : List Ty, sameAll types types = true
  | [] => rfl
  | type :: types => by simp [sameAll, same_refl type, sameAll_refl types]

end

instance : DecidableEq Ty := fun first second =>
  if equal : same first second = true then
    .isTrue (eq_of_same equal)
  else
    .isFalse fun identical => equal (identical ▸ same_refl first)

mutual

/-- The printed form of a type. -/
def text : Ty → String
  | .interface cls [] =>
      "class#" ++ toString cls.index
  | .interface cls (argument :: arguments) =>
      "class#" ++ toString cls.index ++
        "<" ++ listText (argument :: arguments) ++ ">"
  | .function result parameters =>
      text result ++ " Function(" ++ listText parameters ++ ")"
  | .typedef target =>
      "typedef#" ++ toString target.index
  | .typeVariable name =>
      "T" ++ toString name.index
  | .dynamic => "dynamic"
  | .void => "void"
  | .never => "Never"

/-- The printed forms of several types, divided by commas. -/
def listText : List Ty → String
  | [] => ""
  | [type] => text type
  | type :: next :: types => text type ++ ", " ++ listText (next :: types)

end

mutual

/-- Whether a type variable occurs in a type.  A typedef hides what it stands
for. -/
def mentionsVariable : Ty → Bool
  | .typeVariable _ => true
  | .interface _ arguments => anyMentionsVariable arguments
  | .function result parameters =>
      mentionsVariable result || anyMentionsVariable parameters
  | .typedef _ | .dynamic | .void | .never => false

/-- Whether a type variable occurs in one of several types. -/
def anyMentionsVariable : List Ty → Bool
  | [] => false
  | type :: types => mentionsVariable type || anyMentionsVariable types

end

end Ty

/-- The printed forms of several types in alphabetical order. -/
def Ty.listedTexts (types : List Ty) : List String :=
  (types.map Ty.text).mergeSort (fun first second => first ≤ second)

/-- A class with its type arguments. -/
structure InterfaceType where
  cls : ClassId
  arguments : List Ty := []
deriving DecidableEq

/-- The type that an interface type is. -/
def InterfaceType.toTy (type : InterfaceType) : Ty :=
  .interface type.cls type.arguments

/-- The interface type that a type is, if it is one. -/
def Ty.interface? : Ty → Option InterfaceType
  | .interface cls arguments => some { cls, arguments }
  | _ => none

end TreeShaking
