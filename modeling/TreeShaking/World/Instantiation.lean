import TreeShaking.World.Basic

/-!
# Instantiating a class

When instances of a class come about, the class and its superclasses become
instantiated, and the class and all its supertypes become implemented.  An
abstract class is only instantiated by the runtime or by mirrors; otherwise its
mention merely implements it.
-/

namespace TreeShaking

/-- Whether an instantiation with the given flags creates instances of the
class itself. -/
def ClassDecl.createsInstances (decl : ClassDecl) (flags : InstantiationFlags) :
    Bool :=
  !decl.isAbstract || decl.isNative || flags.native || flags.byMirrors

namespace World

/-- Record one way in which instances of a class come about. -/
def record (world : World) (instantiation : Instantiation) : World :=
  let cls := instantiation.type.cls
  let known := world.instantiationsOf cls
  { world with
    instantiations :=
      if instantiation ∈ known then
        world.instantiations
      else
        world.instantiations.insert cls (known ++ [instantiation])
    direct := world.direct.insert cls
    instantiatedTypes := world.instantiatedTypes.insert instantiation.type }

/-- Note the classes of a superclass chain as instantiated.  The superclasses
of an instantiated class are instantiated already. -/
def noteInstantiated (world : World) : List ClassId → World × List ClassReport
  | [] => (world, [])
  | cls :: rest =>
      let (uses, usage) := (world.classUsage.getD cls {}).instantiate
      let noted :=
        { world with classUsage := world.classUsage.insert cls usage }
      if uses.isEmpty then
        (noted, [])
      else
        let (final, reports) := noted.noteInstantiated rest
        (final, (cls, uses) :: reports)

/-- Note classes as implemented, leaving out those that are. -/
def noteImplemented (world : World) : List ClassId → World × List ClassReport
  | [] => (world, [])
  | cls :: rest =>
      if cls ∈ world.implemented then
        world.noteImplemented rest
      else
        let (uses, usage) := (world.classUsage.getD cls {}).implement
        let noted :=
          { world with
            implemented := world.implemented.insert cls
            classUsage := world.classUsage.insert cls usage }
        let (final, reports) := noted.noteImplemented rest
        (final, if uses.isEmpty then reports else (cls, uses) :: reports)

/-- Note that a type is instantiated.  The reports tell which classes are used
in new ways. -/
def registerInstantiation (world : World) (program : Program)
    (type : InterfaceType) (constructor : Option MemberId)
    (flags : InstantiationFlags) :
    Except Failure (World × List ClassReport) := do
  let decl ← program.cls type.cls
  let (created, creation) ←
    if decl.createsInstances flags then do
      let chain ← program.superclassChain type.cls
      pure ((world.record {
        constructor, type
        isAbstract := decl.isAbstract
        isRedirection := flags.redirection }).noteInstantiated chain)
    else
      pure (world, [])
  if type.cls ∈ created.implemented then
    return (created, creation)
  else
    let above ← program.supertypes type.cls
    let (final, implementation) := created.noteImplemented (type.cls :: above)
    return (final, creation ++ implementation)

end World

end TreeShaking
