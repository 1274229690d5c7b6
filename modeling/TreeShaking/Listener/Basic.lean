import TreeShaking.Impact.Basic

/-!
# Listeners

An exploration tells a listener of everything that it finds out, and the
listener may answer with an impact of its own, which is then explored as well.
A listener is a function of its state and the notice that it hears, so that any
behaviour is possible; nothing forces its answers to come to an end.
-/

namespace TreeShaking

/-- What a listener is told. -/
inductive Notice where
  /-- The queue has been opened for a program with this entry point. -/
  | queueOpened (main : Option MemberId) (libraries : List LibraryId)
  /-- The queue ran empty; these classes were instantiated meanwhile. -/
  | queueDrained (recent : List ClassId)
  /-- The queue has been closed. -/
  | queueClosed
  /-- An instance member is torn off for the first time. -/
  | closurized (member : MemberId)
  /-- A static function is torn off for the first time. -/
  | staticTearOff
  /-- A member is needed for the first time. -/
  | used (member : MemberId)
  /-- A type is instantiated, not necessarily for the first time. -/
  | instantiatedType (type : InterfaceType) (isGlobal isNative : Bool)
  /-- A class has instances for the first time. -/
  | instantiatedClass (cls : ClassId)
  /-- A class has instances as a type for the first time. -/
  | implementedClass (cls : ClassId)
deriving DecidableEq

/-- What a listener answers.  Recent classes that it has not handled are told
to it again when the queue runs empty the next time. -/
structure Answer where
  handled : Bool := true
  impact : Impact := {}
deriving DecidableEq

/-- The behaviour of a listener with states in `σ`. -/
structure Listener (σ : Type) where
  /-- The answer to a notice, and the state after it. -/
  hear : σ → Notice → Answer × σ
  /-- The lines that the listener adds to the log. -/
  report : σ → List String

/-- The listener that needs nothing. -/
def Listener.silent : Listener Unit where
  hear := fun state _ => ({}, state)
  report := fun _ => []

end TreeShaking
