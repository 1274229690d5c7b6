import TreeShaking.Dispatch.Receiver
import TreeShaking.Dispatch.Selector

/-!
# Uses

A use is one thing that a piece of code needs: a member that it names, a
selector that it sends to some receiver, or a type that it mentions.
-/

namespace TreeShaking

/-- The need for a member that the code names.  A constructor comes with the
type that it creates. -/
structure StaticUse where
  kind : StaticUseKind
  member : MemberId
  type : Option InterfaceType := none
deriving DecidableEq

/-- The need for whatever members answer a selector. -/
structure DynamicUse where
  selector : Selector
  constraint : Constraint
deriving DecidableEq

/-- The need for a type. -/
structure TypeUse where
  kind : TypeUseKind
  type : Ty
deriving DecidableEq

/-- One thing that a piece of code needs. -/
inductive Use where
  | static (use : StaticUse)
  | dynamic (use : DynamicUse)
  | type (use : TypeUse)
deriving DecidableEq

end TreeShaking
