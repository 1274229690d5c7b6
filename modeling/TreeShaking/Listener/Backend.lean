import TreeShaking.Listener.Basic
import TreeShaking.Table

/-!
# The backend

The backend is the listener of a real compilation.  It asks for the helpers of
the runtime when the queue is opened, for the closure class when something is
first torn off, and for whatever an instantiated class needs at run time.
-/

namespace TreeShaking

/-- What the runtime needs for the code that is generated. -/
structure RuntimeSupport where
  helpers : List MemberId := []
  closureClass : Option ClassId := none
  classImpacts : Table ClassId Impact := {}

/-- How often the backend was told of what. -/
structure BackendCounters where
  instantiatedTypes : Nat := 0
  nativeInstantiations : Nat := 0
  instantiatedClasses : Nat := 0
  implementedClasses : Nat := 0
  closurizedMembers : Nat := 0
  staticTearOffs : Nat := 0
  usedElements : Nat := 0
  queueEmptyRounds : Nat := 0
deriving DecidableEq

/-- The state of the backend. -/
structure Backend where
  support : RuntimeSupport := {}
  /-- Whether the closure class has been asked for. -/
  closureRequested : Bool := false
  isClosed : Bool := false
  counters : BackendCounters := {}

namespace Backend

/-- The impact of the helpers. -/
def helperImpact (support : RuntimeSupport) : Impact :=
  .ofUses (support.helpers.map
    (fun helper => .static { kind := .directUse, member := helper }))

/-- Count a notice. -/
def count (counters : BackendCounters) : Notice → BackendCounters
  | .queueDrained _ =>
      { counters with queueEmptyRounds := counters.queueEmptyRounds + 1 }
  | .closurized _ =>
      { counters with closurizedMembers := counters.closurizedMembers + 1 }
  | .staticTearOff =>
      { counters with staticTearOffs := counters.staticTearOffs + 1 }
  | .used _ =>
      { counters with usedElements := counters.usedElements + 1 }
  | .instantiatedType _ _ isNative =>
      { counters with
        instantiatedTypes := counters.instantiatedTypes + 1
        nativeInstantiations :=
          counters.nativeInstantiations + isNative.toNat }
  | .instantiatedClass _ =>
      { counters with instantiatedClasses := counters.instantiatedClasses + 1 }
  | .implementedClass _ =>
      { counters with implementedClasses := counters.implementedClasses + 1 }
  | .queueOpened _ _ | .queueClosed => counters

/-- Ask for the closure class, once. -/
def requestClosure (backend : Backend) : Impact × Backend :=
  match backend.closureRequested, backend.support.closureClass with
  | false, some cls =>
      ({ types := [{ kind := .instantiation, type := .interface cls [] }] },
        { backend with closureRequested := true })
  | _, _ => ({}, backend)

/-- The impact that a notice has at run time. -/
def respond (backend : Backend) : Notice → Impact × Backend
  | .queueOpened _ _ => (helperImpact backend.support, backend)
  | .closurized _ | .staticTearOff => backend.requestClosure
  | .instantiatedClass cls =>
      (backend.support.classImpacts.getD cls {}, backend)
  | .queueClosed => ({}, { backend with isClosed := true })
  | .queueDrained _ | .used _ | .instantiatedType _ _ _
  | .implementedClass _ => ({}, backend)

/-- Hear a notice.  The backend handles recent classes at once. -/
def hear (backend : Backend) (notice : Notice) : Answer × Backend :=
  let (impact, next) := backend.respond notice
  ({ impact }, { next with counters := count next.counters notice })

/-- The line that the backend adds to the log. -/
def reportLine (counters : BackendCounters) : String :=
  "backend: " ++ toString counters.instantiatedTypes ++
    " instantiated types (" ++ toString counters.nativeInstantiations ++
    " native), " ++
    toString (counters.closurizedMembers + counters.staticTearOffs) ++
    " tear-offs (" ++ toString counters.staticTearOffs ++ " static), " ++
    toString counters.queueEmptyRounds ++ " queue-empty rounds"

/-- The backend as a listener. -/
def listener : Listener Backend where
  hear := hear
  report := fun backend => [reportLine backend.counters]

end Backend

end TreeShaking
