import TreeShaking.Listener.Basic
import TreeShaking.Table

/-!
# Scripted listeners

A script holds the answers that a listener is to give.  Each of them is given
once: the next answer of a list, or the entry of a table for the member or
class that the listener is told of.  Where nothing is left the answer is empty,
so that a scripted listener comes to an end.
-/

namespace TreeShaking

/-- The answers that a listener is still to give. -/
structure Script where
  onOpen : Impact := {}
  onDrained : List Answer := []
  onStaticTearOff : List Impact := []
  onClosurized : Table MemberId Impact := {}
  onUsed : Table MemberId Impact := {}
  onInstantiatedType : Table ClassId Impact := {}
  onInstantiatedClass : Table ClassId Impact := {}
  onImplementedClass : Table ClassId Impact := {}

namespace Script

/-- Take the answer for a handle out of a table. -/
def take {directory : Directory} (table : Table (Handle directory) Impact)
    (handle : Handle directory) : Answer × Table (Handle directory) Impact :=
  ({ impact := table.getD handle {} }, table.erase handle)

/-- Answer a notice, using the answer up. -/
def hear (script : Script) : Notice → Answer × Script
  | .queueOpened _ _ =>
      ({ impact := script.onOpen }, { script with onOpen := {} })
  | .queueDrained _ =>
      (script.onDrained.headD {},
        { script with onDrained := script.onDrained.tail })
  | .queueClosed => ({}, script)
  | .staticTearOff =>
      ({ impact := script.onStaticTearOff.headD {} },
        { script with onStaticTearOff := script.onStaticTearOff.tail })
  | .closurized member =>
      let (answer, rest) := take script.onClosurized member
      (answer, { script with onClosurized := rest })
  | .used member =>
      let (answer, rest) := take script.onUsed member
      (answer, { script with onUsed := rest })
  | .instantiatedType type _ _ =>
      let (answer, rest) := take script.onInstantiatedType type.cls
      (answer, { script with onInstantiatedType := rest })
  | .instantiatedClass cls =>
      let (answer, rest) := take script.onInstantiatedClass cls
      (answer, { script with onInstantiatedClass := rest })
  | .implementedClass cls =>
      let (answer, rest) := take script.onImplementedClass cls
      (answer, { script with onImplementedClass := rest })

/-- The listener that follows a script. -/
def listener : Listener Script where
  hear := hear
  report := fun _ => ["scripted"]

end Script

end TreeShaking
