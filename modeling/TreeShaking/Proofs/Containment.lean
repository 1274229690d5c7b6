import TreeShaking.Proofs.Drafting
import TreeShaking.Proofs.Findings
import TreeShaking.Proofs.Run.Operations

/-!
# Code generation and the closed world

Code generation is meant to stay inside the closed world.  The members that its
static uses name are screened: they are live there, or the compilation fails.
The members that its dynamic uses reach are not.  So what is generated is live
exactly if everything that the dynamic uses reach is, and a compilation can
generate code that resolution has found not to be needed.
-/

namespace TreeShaking

open Outcome World

/-- Some class with instances provides a member, and a selector in use reaches
it. -/
structure World.Meets (world : World) (program : Program) (live : LiveClasses)
    (member : MemberId) (decl : MemberDecl) : Prop where
  provided : ∃ cls, world.isInstantiated cls = true ∧
    program.Provides cls member decl
  reached : ∃ selector receivers constraint,
    world.selectors.get? selector = some receivers ∧
      constraint ∈ receivers.effective ∧
      (⟨selector, constraint⟩ : DynamicUse).Reaches program live decl

/-- Static uses name members that are live in the closed world. -/
def Screened (closed : ClosedWorld) (history : List Use) : Prop :=
  ∀ use : StaticUse, .static use ∈ history →
    closed.isMemberLive use.member = true

theorem Scope.live_of_registerStatic {closed : ClosedWorld} {program : Program}
    {use : StaticUse} {world final : World} {reports : List MemberReport}
    (registered : (Scope.codegen closed).registerStatic program use world =
      .ok (final, reports)) :
    closed.isMemberLive use.member = true := by
  unfold Scope.registerStatic at registered
  dsimp only at registered
  split at registered
  · rename_i live
    exact live
  · rw [bind_eq_ok_iff] at registered
    obtain ⟨display, -, impossible⟩ := registered
    cases impossible

namespace Exploration

variable {σ : Type} {setting : Setting σ} {history : List Use}
  {e : Exploration σ}

/-- Every static use of code generation is screened. -/
theorem Effect.screened {closed : ClosedWorld} {task : Task} {tasks : List Task}
    {next : Exploration σ} (effect : Effect setting e task tasks next)
    (scope : setting.scope = .codegen closed) :
    Screened closed (task.noticed setting) := by
  intro use told
  cases effect with
  | static admitted registered =>
      rw [noticed_of_admitted admitted] at told
      obtain rfl := Use.static.inj (List.mem_singleton.1 told)
      rw [scope] at registered
      exact Scope.live_of_registerStatic registered
  | refused refused => simp [Task.noticed, refused] at told
  | dynamic admitted | creation admitted | test admitted | untested admitted
  | literal admitted => simp [noticed_of_admitted admitted] at told
  | superfluous | demanded | enlisted | skipped | closurized | announced
  | entered | instantiated | unapplied | applied | released => cases told

theorem screened_enduring {closed : ClosedWorld}
    (scope : setting.scope = .codegen closed) :
    Enduring setting fun history _ _ _ => Screened closed history where
  invariant routine :=
    { step := by
        intro history task work stage e tasks next screened effect use told
        rcases List.mem_append.1 told with old | new
        · exact screened use old
        · exact effect.screened scope use new
      turn := fun screened _ => screened }
  begin screened _ _ _ _ _ := screened

/-- Between operations, the dynamic uses in the history reach what the selectors
in use reach. -/
theorem Tracked.meets_iff (tracked : Tracked setting history [] .idle e)
    (member : MemberId) (decl : MemberDecl) :
    e.world.Meets setting.program setting.scope.live member decl ↔
      ∃ use, .dynamic use ∈ history ∧
        (∃ cls ∈ e.processedClasses,
          setting.program.Provides cls member decl) ∧
        use.Reaches setting.program setting.scope.live decl := by
  have orderly := tracked.lifecycle.books.orderly
  have entered : ∀ cls, cls ∈ e.processedClasses ↔
      e.world.isInstantiated cls = true :=
    tracked.classes.mem_processedClasses_iff
  constructor
  · rintro ⟨⟨cls, instantiated, provides⟩, selector, receivers, constraint,
      stored, isReceiver, reaches⟩
    exact ⟨⟨selector, constraint⟩,
      (orderly.told selector receivers stored).2 constraint isReceiver,
      ⟨cls, (entered cls).2 instantiated, provides⟩, reaches⟩
  · rintro ⟨use, told, ⟨cls, isEntered, provides⟩, reaches⟩
    refine ⟨⟨cls, (entered cls).1 isEntered, provides⟩, ?_⟩
    -- The constraint may have been absorbed by an unconstrained receiver.
    obtain ⟨receivers, stored, isReceiver | isAll⟩ := orderly.noted use told
    · exact ⟨use.selector, receivers, use.constraint, stored, isReceiver,
        reaches⟩
    · exact ⟨use.selector, receivers, .unconstrained, stored, isAll,
        reaches.unconstrained⟩

/-- When code generation has come to an end, the members that it has processed
are live exactly if the well-formed members that its selectors reach are. -/
theorem Tracked.processed_live_iff (tracked : Tracked setting history [] .idle e)
    {closed : ClosedWorld} (screened : Screened closed history)
    (queue : e.queue = []) :
    (∀ member ∈ e.world.processed, closed.isMemberLive member = true) ↔
      ∀ member decl,
        e.world.Meets setting.program setting.scope.live member decl →
          decl.isMalformed = false → closed.isMemberLive member = true := by
  have books := tracked.lifecycle.books
  constructor
  · intro contained member decl meets wellFormed
    obtain ⟨use, told, met, reaches⟩ := (tracked.meets_iff member decl).1 meets
    obtain ⟨cls, -, provides⟩ := meets.provided
    have supports :=
      MemberDecl.supports_of_appliesTo provides.isInstance reaches.applies
    have normal : (e.world.appliedTo member).has .normal = true :=
      (World.Balanced.appliedTo_iff books member .normal).2
        ⟨decl, provides.declared, .reached use told met reaches
          (by rw [MemberDecl.grants_normal]; exact supports)⟩
    refine contained member ((tracked.lifecycle.mem_processed_iff queue
      member).2 ⟨normal, ?_⟩)
    rw [Program.isMalformed_of_declared provides.declared]
    exact wellFormed
  · intro contained member processed
    obtain ⟨normal, wellFormed⟩ :=
      (tracked.lifecycle.mem_processed_iff queue member).1 processed
    obtain ⟨decl, declared, justified⟩ :=
      (World.Balanced.appliedTo_iff books member .normal).1 normal
    -- Screening settles the static uses and leaves the dynamic ones.
    cases justified with
    | named use access told names accesses grants =>
        rw [← names]
        exact screened use told
    | reached use told met reaches grants =>
        rw [Program.isMalformed_of_declared declared] at wellFormed
        exact contained member decl
          ((tracked.meets_iff member decl).2 ⟨use, told, met, reaches⟩)
          wellFormed

end Exploration

namespace Compilation

/-- Exploring a program from its entry point is a row of operations, after which
no member waits. -/
theorem performAll_of_explore {σ : Type} {setting : Setting σ} {steps : Nat}
    {policy : ImpactPolicy} {main : MemberId} {initial final : Exploration σ}
    {findings : List Diagnostic}
    (explored : explore setting steps policy main initial =
      .ok (final, findings)) :
    Exploration.performAll setting [
        (steps, .start policy (some main) setting.program.libraryIds),
        (steps, .apply (entryImpact main) none),
        (steps, .forEach fun _ => [.applyItem]),
        (0, .close)] initial = .ok final ∧
      final.queue = [] := by
  simp only [explore_eq, bind_eq_ok_iff, pure_eq_ok_iff, Prod.mk.injEq]
    at explored
  obtain ⟨opened, started, entered, applied, settled, ran, _, isEmpty, _, _, rfl,
    -⟩ := explored
  constructor
  · exact bind_eq_ok_iff.2 ⟨opened, started, bind_eq_ok_iff.2 ⟨entered, applied,
      bind_eq_ok_iff.2 ⟨settled, ran, rfl⟩⟩⟩
  · unfold Exploration.checkQueueIsEmpty at isEmpty
    split at isEmpty
    · assumption
    · cases isEmpty

/-- The generated members are live in the closed world exactly if the
well-formed members that the selectors of code generation reach in its classes
are. -/
theorem generatedMembers_live_iff {input : CompilationInput} {options : Options}
    {steps : Nat} {compilation : Compilation} (built : input.program.Built)
    (compiled : run input options steps = .ok compilation) :
    (∀ member ∈ compilation.generatedMembers,
        compilation.closedWorld.isMemberLive member = true) ↔
      ∀ member decl,
        compilation.world.Meets input.program
            (some compilation.closedWorld.instantiated) member decl →
          decl.isMalformed = false →
            compilation.closedWorld.isMemberLive member = true := by
  simp only [run, bind_eq_ok_iff, pure_eq_ok_iff] at compiled
  obtain ⟨⟨resolution, _⟩, -, ⟨codegen, _⟩, generated, rfl⟩ := compiled
  obtain ⟨performed, queue⟩ := performAll_of_explore generated
  have fresh : ({ listener := { support := input.support } } :
      Exploration Backend).IsFresh := ⟨rfl, rfl, rfl, rfl⟩
  have tracked := (Exploration.tracked_enduring built).performAll
    (Exploration.tracked_of_fresh fresh) performed
  have untold : Screened resolution.world.close [] := fun _ told => by cases told
  have screened := (Exploration.screened_enduring rfl).performAll untold performed
  have contained := tracked.processed_live_iff screened queue
  simp only [Exploration.processedMembers, Handle.mem_ascending]
  exact contained

/-- A class with one method. -/
def straySteps : List Draft.Step := [
  .library "app",
  .cls ⟨0⟩ "A" none,
  .function ⟨0⟩ "main" {},
  .classMember ⟨0⟩ "foo" (.method {})]

def strayProgram : Program where
  names := .ofTexts #["", "app", "A", "main", "foo"]
  libraries := #[{ name := ⟨1⟩ }]
  classes := #[
    { name := ⟨2⟩, library := ⟨0⟩, superclass := none, members := [⟨1⟩] }]
  members := #[
    { name := ⟨3⟩, library := ⟨0⟩, owner := none, kind := .function
      isStatic := true },
    { name := ⟨4⟩, library := ⟨0⟩, owner := some ⟨0⟩, kind := .method }]
  typedefs := #[]
  supertypeTable := #[[]]
  subclassTable := #[[⟨0⟩]]

theorem strayProgram_drafted : strayProgram.Drafted :=
  ⟨straySteps, _, rfl, rfl⟩

def strayCall : DynamicUse where
  selector := .call ⟨⟨4⟩, none⟩ {}
  constraint := .unconstrained

/-- The entry point creates an instance.  Its generated code calls the method;
its source code makes the given calls. -/
def strayInput (calls : List DynamicUse) : CompilationInput where
  program := strayProgram
  main := ⟨0⟩
  resolutionImpacts := .ofList [(⟨0⟩, {
    dynamics := calls
    types := [⟨.instantiation, .interface ⟨0⟩ []⟩] })]
  codegenImpacts := .ofList [(⟨0⟩, {
    dynamics := [strayCall]
    types := [⟨.instantiation, .interface ⟨0⟩ []⟩] })]
  support := {}

/-- If the source code makes the call too, the method is live. -/
theorem generatedMembers_live_of_resolved_call :
    ∃ compilation, run (strayInput [strayCall]) {} 60 = .ok compilation ∧
      compilation.generatedMembers = [⟨0⟩, ⟨1⟩] ∧
      ∀ member ∈ compilation.generatedMembers,
        compilation.closedWorld.isMemberLive member = true := by
  obtain ⟨compilation, compiled, generated, main, method⟩ :
      ∃ compilation, run (strayInput [strayCall]) {} 60 = .ok compilation ∧
        compilation.generatedMembers = [⟨0⟩, ⟨1⟩] ∧
        compilation.closedWorld.isMemberLive ⟨0⟩ = true ∧
        compilation.closedWorld.isMemberLive ⟨1⟩ = true :=
    ⟨_, rfl, rfl, rfl, rfl⟩
  refine ⟨compilation, compiled, generated,
    (generatedMembers_live_iff strayProgram_drafted.built compiled).2 ?_⟩
  rintro ⟨index⟩ decl ⟨⟨cls, -, provides⟩, -⟩ -
  match index, provides.declared with
  | 0, _ => exact main
  | 1, _ => exact method
  | index + 2, declared => cases declared

/-- If the source code does not make the call, code is generated for a method
that is not live. -/
theorem generatedMembers_include_dead_method :
    strayProgram.Drafted ∧
      ∃ compilation, run (strayInput []) {} 60 = .ok compilation ∧
        ⟨1⟩ ∈ compilation.generatedMembers ∧
        compilation.closedWorld.isMemberLive ⟨1⟩ = false := by
  refine ⟨strayProgram_drafted, _, rfl, ?_, rfl⟩
  decide +kernel

end Compilation

end TreeShaking
