import TreeShaking.World.Access
import TreeShaking.World.Closed
import TreeShaking.World.Instantiation

/-!
# The scope of a phase

Resolution grows its world freely, but does not know the uses that only code
generation makes.  Code generation has to stay inside the closed world: it may
only instantiate what is instantiated there and only name members that are live
there.  In return it learns which dynamic uses have a single target.
-/

namespace TreeShaking

/-- The phase that a world belongs to, with the bounds that it has to keep. -/
inductive Scope where
  | resolution
  | codegen (closed : ClosedWorld)

namespace Scope

def phase : Scope → Phase
  | .resolution => .resolution
  | .codegen _ => .codegen

/-- The classes whose instances count as receivers. -/
def live : Scope → LiveClasses
  | .resolution => none
  | .codegen closed => some closed.instantiated

/-- Register an instantiation within the scope. -/
def registerInstantiation (scope : Scope) (program : Program)
    (type : InterfaceType) (constructor : Option MemberId)
    (flags : InstantiationFlags) (world : World) :
    Except Failure (World × List ClassReport) :=
  match scope with
  | .resolution =>
      world.registerInstantiation program type constructor flags
  | .codegen closed => do
      let decl ← program.cls type.cls
      let known :=
        if decl.createsInstances flags then
          closed.isInstantiated type.cls
        else
          closed.isImplemented type.cls
      if known then
        world.registerInstantiation program type constructor flags
      else
        let name ← program.className type.cls
        .error (.violation (.classOutsideWorld type.cls name))

/-- Register a static use within the scope. -/
def registerStatic (scope : Scope) (program : Program) (use : StaticUse)
    (world : World) : Except Failure (World × List MemberReport) :=
  match scope with
  | .resolution =>
      if use.kind.isCodegenOnly then
        .error (.violation (.codegenOnlyUse use.kind use.member))
      else
        world.registerStatic program use
  | .codegen closed =>
      if closed.isMemberLive use.member then
        if use.kind = .inlining then
          .ok ({ world with inlined := world.inlined.insert use.member }, [])
        else
          world.registerStatic program use
      else do
        let display ← program.memberDisplay use.member
        .error (.violation (.memberOutsideWorld use.member display))

/-- Note the single target of a dynamic use, if there is one. -/
def devirtualize (closed : ClosedWorld) (program : Program) (use : DynamicUse)
    (world : World) : Except Failure World :=
  if world.devirtualized.contains use then
    .ok world
  else do
    match ← closed.singleTarget? program use.selector use.constraint with
    | some target =>
        return { world with
          devirtualized := world.devirtualized.insert use target }
    | none =>
        return world

/-- Register a dynamic use within the scope. -/
def registerDynamic (scope : Scope) (program : Program) (use : DynamicUse)
    (world : World) : Except Failure (World × List MemberReport) := do
  let (noted, reports) ← world.registerDynamic program scope.live use
  match scope with
  | .resolution =>
      return (noted, reports)
  | .codegen closed =>
      let final ← devirtualize closed program use noted
      return (final, reports)

end Scope

end TreeShaking
