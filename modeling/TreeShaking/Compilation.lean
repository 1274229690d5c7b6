import TreeShaking.Exploration.Report
import TreeShaking.Exploration.Run
import TreeShaking.Listener.Backend

/-!
# Compilation

A compilation explores a program from its entry point twice.  Resolution finds
out what is needed and closes the world; code generation explores the program
again, with the impacts of the generated code, inside the closed world.
-/

namespace TreeShaking

/-- What is compiled. -/
structure CompilationInput where
  program : Program
  main : MemberId
  /-- What the source code of each member needs. -/
  resolutionImpacts : Table MemberId Impact
  /-- What the generated code of each member needs. -/
  codegenImpacts : Table MemberId Impact
  support : RuntimeSupport

/-- The outcome of a compilation. -/
structure Compilation where
  closedWorld : ClosedWorld
  /-- The world of code generation. -/
  world : World
  resolvedMembers : List MemberId
  generatedMembers : List MemberId
  resolutionSummary : Summary
  codegenSummary : Summary
  diagnostics : List Diagnostic
  /-- How many impacts are still stored after resolution. -/
  retainedImpacts : Nat

namespace Compilation

/-- The need for the entry point. -/
def entryImpact (main : MemberId) : Impact where
  statics := [{ kind := .general, member := main }]

/-- Explore a program from its entry point, and close the queue.  The findings
of the sweep come with the exploration. -/
def explore {σ : Type} (setting : Setting σ) (steps : Nat)
    (policy : ImpactPolicy) (main : MemberId) (initial : Exploration σ) :
    Except Stop (Exploration σ × List Diagnostic) := do
  let opened ←
    initial.start setting steps policy (some main) setting.program.libraryIds
  let entered ← opened.applyImpact setting steps (entryImpact main) none
  let settled ← entered.runToFixedPoint setting steps
  let closed := settled.close setting
  Exploration.orStop (closed.checkQueueIsEmpty setting)
  let (findings, swept) ← Exploration.orStop (closed.sweep setting)
  return (swept, findings)

/-- The policy under which resolution treats stored impacts. -/
def policy (options : Options) : ImpactPolicy :=
  .releasing options.deferredLoad options.dumpInfo

/-- How resolution explores a program. -/
def resolutionSetting (input : CompilationInput) (options : Options) :
    Setting Backend where
  program := input.program
  scope := .resolution
  strategy := .treeShaking
  listener := Backend.listener
  source := .cache
  options := options

/-- How code generation explores a program. -/
def codegenSetting (input : CompilationInput) (options : Options)
    (closed : ClosedWorld) : Setting Backend where
  program := input.program
  scope := .codegen closed
  strategy := .treeShaking
  listener := Backend.listener
  source := .table input.codegenImpacts
  options := options

/-- Compile a program, each exploration in at most the given number of steps per
operation. -/
def run (input : CompilationInput) (options : Options) (steps : Nat) :
    Except Stop Compilation := do
  let (resolution, resolutionFindings) ←
    explore (resolutionSetting input options) steps (policy options) input.main
      { listener := { support := input.support }
        cache := input.resolutionImpacts }
  let closedWorld := resolution.world.close
  let stored :=
    if options.deferredLoad then
      (policy options).afterUse .deferredLoad resolution.cache
    else
      resolution.cache
  let (codegen, codegenFindings) ←
    explore (codegenSetting input options closedWorld) steps .retaining
      input.main { listener := { support := input.support } }
  return {
    closedWorld
    world := codegen.world
    resolvedMembers := resolution.processedMembers
    generatedMembers := codegen.processedMembers
    resolutionSummary := resolution.summary
    codegenSummary := codegen.summary
    diagnostics := resolutionFindings ++ codegenFindings
    retainedImpacts := stored.size }

end Compilation

end TreeShaking
