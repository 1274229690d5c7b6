import TreeShaking.Use.Basic

/-!
# Impacts

The impact of a piece of code is the collection of its uses, each kept once.
They are visited in the order static, dynamic, type, and within each group in
the order in which they were first added.
-/

namespace TreeShaking

/-- What a piece of code needs. -/
structure Impact where
  statics : List StaticUse := []
  dynamics : List DynamicUse := []
  types : List TypeUse := []
deriving DecidableEq

namespace Impact

def isEmpty (impact : Impact) : Bool :=
  impact.statics.isEmpty && impact.dynamics.isEmpty && impact.types.isEmpty

/-- The number of uses. -/
def size (impact : Impact) : Nat :=
  impact.statics.length + impact.dynamics.length + impact.types.length

/-- Put an element at the end of a list, unless it is there already. -/
def addLast {α : Type} [DecidableEq α] (elements : List α) (element : α) :
    List α :=
  if element ∈ elements then elements else elements ++ [element]

def addStatic (impact : Impact) (use : StaticUse) : Impact :=
  { impact with statics := addLast impact.statics use }

def addDynamic (impact : Impact) (use : DynamicUse) : Impact :=
  { impact with dynamics := addLast impact.dynamics use }

def addType (impact : Impact) (use : TypeUse) : Impact :=
  { impact with types := addLast impact.types use }

/-- Add a use, unless the impact has it already. -/
def add (impact : Impact) : Use → Impact
  | .static use => impact.addStatic use
  | .dynamic use => impact.addDynamic use
  | .type use => impact.addType use

/-- The uses in the order in which they are visited. -/
def uses (impact : Impact) : List Use :=
  impact.statics.map .static ++ impact.dynamics.map .dynamic ++
    impact.types.map .type

/-- The impact that has the given uses. -/
def ofUses (uses : List Use) : Impact :=
  uses.foldl add {}

/-- Add the uses of another impact. -/
def union (impact other : Impact) : Impact :=
  other.uses.foldl add impact

end Impact

end TreeShaking
