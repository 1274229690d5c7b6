import TreeShaking.Proofs.Containment

/-!
# The receivers of generated code

The closed world keeps two sets of classes with instances: those that have
instances of their own, and those that have instances through a subclass as
well.  The targets of a selector are looked for in the first set, since only
these classes occur as receivers.  But code generation may create every class of
the second set.  So a class that resolution knows as a superclass only can become
a receiver of generated code, and its calls are devirtualized without it.
-/

namespace TreeShaking

open Outcome World

/-- A class has instances in the closed world through proper subclasses only. -/
def ClosedWorld.OnlyInherits (closed : ClosedWorld) (program : Program)
    (cls : ClassId) : Prop :=
  closed.isDirectlyInstantiated cls = false ∧
    ∃ heir ∈ closed.direct, heir ≠ cls ∧ program.HasSuperclass heir cls

/-- The classes that a world creates have instances in the closed world. -/
def World.CreatesWithin (world : World) (closed : ClosedWorld) : Prop :=
  ∀ cls ∈ world.direct, closed.isInstantiated cls = true

/-- Code generation has its instantiations looked up in the closed world. -/
theorem Scope.isInstantiated_of_creates {closed : ClosedWorld}
    {program : Program} {type : InterfaceType} {constructor : Option MemberId}
    {flags : InstantiationFlags} {world final : World}
    {reports : List ClassReport}
    (registered : (Scope.codegen closed).registerInstantiation program type
      constructor flags world = .ok (final, reports))
    (creates : program.Creates type.cls flags) :
    closed.isInstantiated type.cls = true := by
  obtain ⟨decl, declared, createsInstances⟩ := creates
  unfold Scope.registerInstantiation at registered
  dsimp only at registered
  rw [declared] at registered
  change (if (if decl.createsInstances flags = true then _ else _) = true then _
    else _) = _ at registered
  rw [if_pos createsInstances] at registered
  split at registered
  · assumption
  · rw [bind_eq_ok_iff] at registered
    obtain ⟨name, -, impossible⟩ := registered
    cases impossible

theorem World.isInstantiated_close (world : World) (cls : ClassId) :
    world.close.isInstantiated cls = world.isInstantiated cls := by
  rw [Bool.eq_iff_iff]
  simp only [ClosedWorld.isInstantiated, World.close, instantiatedClasses,
    List.contains_iff_mem, Handle.mem_ascending, List.mem_map, List.mem_filter,
    Prod.exists, exists_and_right, exists_eq_right]
  simp only [← Table.get?_eq_some_iff, World.isInstantiated, Option.any_eq_true]

theorem World.mem_instantiatedClasses {world : World} {cls : ClassId} :
    cls ∈ world.instantiatedClasses ↔ world.isInstantiated cls = true := by
  rw [← World.isInstantiated_close]
  exact List.contains_iff_mem.symm

namespace World

variable {before after : World} {closed : ClosedWorld} {program : Program}

theorem CreatesWithin.of_same (within : before.CreatesWithin closed)
    (direct : after.direct = before.direct) : after.CreatesWithin closed := by
  intro cls isDirect
  rw [direct] at isDirect
  exact within cls isDirect

theorem CreatesWithin.registerInstantiation
    (within : before.CreatesWithin closed) (built : program.Built)
    (classes : before.ClassesClosed program) {type : InterfaceType}
    {constructor : Option MemberId} {flags : InstantiationFlags}
    {reports : List ClassReport}
    (registered : (Scope.codegen closed).registerInstantiation program type
      constructor flags before = .ok (after, reports)) :
    after.CreatesWithin closed := by
  have instantiates := classes.registerInstantiation built
    (Scope.registerInstantiation_within registered)
  intro cls isDirect
  rcases (instantiates.direct cls).1 isDirect with old | ⟨rfl, creates⟩
  · exact within cls old
  · exact Scope.isInstantiated_of_creates registered creates

end World

namespace Exploration

variable {σ : Type} {setting : Setting σ} {history : List Use}
  {e next : Exploration σ}

/-- Only an instantiation adds to the classes that have instances of their
own. -/
theorem Effect.createsWithin {closed : ClosedWorld} {task : Task}
    {work tasks : List Task} (effect : Effect setting e task tasks next)
    (scope : setting.scope = .codegen closed) (built : setting.program.Built)
    (books : Books setting history e)
    (classes : Classes setting history (task :: work) e)
    (within : e.world.CreatesWithin closed) :
    next.world.CreatesWithin closed := by
  cases effect with
  | instantiated registered =>
      rw [scope] at registered
      exact within.registerInstantiation built classes.closed registered
  | static admitted registered =>
      have learns := Scope.learns_static books registered
      exact within.of_same learns.elsewhere.direct
  | dynamic admitted registered =>
      have learns := Scope.learns_dynamic books registered
      exact within.of_same learns.elsewhere.direct
  | entered entered =>
      have learns := World.Balanced.learns_class books entered
      exact within.of_same learns.elsewhere.direct
  | enlisted used | skipped used =>
      simp only [registerUsed, bind_eq_ok_iff, pure_eq_ok_iff] at used
      obtain ⟨decl, -, rfl⟩ := used
      exact within.of_same rfl
  | refused | creation | test | untested | literal | superfluous | demanded
  | closurized | announced | unapplied | applied | released =>
      exact within.of_same rfl

theorem createsWithin_enduring {closed : ClosedWorld}
    (scope : setting.scope = .codegen closed) (built : setting.program.Built) :
    Enduring setting fun history work stage e =>
      Tracked setting history work stage e ∧
        e.world.CreatesWithin closed where
  invariant routine :=
    { step := by
        rintro history task work stage e tasks next ⟨tracked, within⟩ effect
        exact ⟨(tracked_invariant built routine).step tracked effect,
          effect.createsWithin scope built tracked.lifecycle.books
            tracked.classes within⟩
      turn := by
        rintro history stage e work nextStage next ⟨tracked, within⟩ turn
        refine ⟨(tracked_invariant built routine).turn tracked turn, ?_⟩
        cases turn <;> exact within }
  begin := by
    rintro history e next work stage ⟨tracked, within⟩ unconcerned resting world
      queue entered
    refine ⟨tracked.begin unconcerned resting world queue entered, ?_⟩
    rwa [world]

/-- Whatever has instances in the world that is closed has them itself or
through a proper subclass. -/
theorem Tracked.direct_or_onlyInherits
    (tracked : Tracked setting history [] .idle e) {cls : ClassId}
    (instantiated : e.world.close.isInstantiated cls = true) :
    e.world.close.isDirectlyInstantiated cls = true ∨
      e.world.close.OnlyInherits setting.program cls := by
  rw [World.isInstantiated_close] at instantiated
  obtain ⟨heir, isDirect, inherits⟩ :=
    tracked.classes.instantiated cls instantiated
  cases direct : e.world.close.isDirectlyInstantiated cls with
  | true => exact .inl rfl
  | false =>
      have listed : heir ∈ e.world.close.direct :=
        (Handle.mem_ascending).2 isDirect
      refine .inr ⟨direct, heir, listed, ?_, inherits⟩
      rintro rfl
      simp [ClosedWorld.isDirectlyInstantiated, listed] at direct

end Exploration

namespace Compilation

/-- Generated code only creates classes that have instances in the closed world.
They have instances of their own there unless generated code creates a class
that resolution knows as a superclass only. -/
theorem directClasses_received_iff {input : CompilationInput}
    {options : Options} {steps : Nat} {compilation : Compilation}
    (built : input.program.Built)
    (compiled : run input options steps = .ok compilation) :
    (∀ cls ∈ compilation.world.directClasses,
        compilation.closedWorld.isInstantiated cls = true) ∧
      ((∀ cls ∈ compilation.world.directClasses,
          compilation.closedWorld.isDirectlyInstantiated cls = true) ↔
        ∀ cls ∈ compilation.world.directClasses,
          ¬compilation.closedWorld.OnlyInherits input.program cls) := by
  simp only [run, bind_eq_ok_iff, pure_eq_ok_iff] at compiled
  obtain ⟨⟨resolution, _⟩, resolved, ⟨codegen, _⟩, generated, rfl⟩ := compiled
  have untold : ({} : World).CreatesWithin resolution.world.close := by
    intro cls isDirect
    cases isDirect
  have resolutionTracked := (Exploration.tracked_enduring built).performAll
    (Exploration.tracked_of_fresh ⟨rfl, rfl, rfl, rfl⟩)
    (performAll_of_explore resolved).1
  have within := ((Exploration.createsWithin_enduring rfl built).performAll
    ⟨Exploration.tracked_of_fresh ⟨rfl, rfl, rfl, rfl⟩, untold⟩
    (performAll_of_explore generated).1).2
  simp only [directClasses, Handle.mem_ascending]
  refine ⟨within, fun received cls isDirect onlyInherits => ?_,
    fun noneInherits cls isDirect => ?_⟩
  · have unreceived := onlyInherits.1
    rw [received cls isDirect] at unreceived
    cases unreceived
  · have created := resolutionTracked.direct_or_onlyInherits (within cls isDirect)
    exact created.resolve_right (noneInherits cls isDirect)

/-- A class with a method, and a subclass that overrides it. -/
def heirSteps : List Draft.Step := [
  .library "app",
  .cls ⟨0⟩ "A" none,
  .cls ⟨0⟩ "B" (some ⟨0⟩),
  .function ⟨0⟩ "main" {},
  .classMember ⟨0⟩ "foo" (.method {}),
  .classMember ⟨1⟩ "foo" (.method {})]

def heirProgram : Program where
  names := .ofTexts #["", "app", "A", "B", "main", "foo"]
  libraries := #[{ name := ⟨1⟩ }]
  classes := #[
    { name := ⟨2⟩, library := ⟨0⟩, superclass := none, members := [⟨1⟩] },
    { name := ⟨3⟩, library := ⟨0⟩, superclass := some ⟨0⟩, members := [⟨2⟩] }]
  members := #[
    { name := ⟨4⟩, library := ⟨0⟩, owner := none, kind := .function
      isStatic := true },
    { name := ⟨5⟩, library := ⟨0⟩, owner := some ⟨0⟩, kind := .method },
    { name := ⟨5⟩, library := ⟨0⟩, owner := some ⟨1⟩, kind := .method }]
  typedefs := #[]
  supertypeTable := #[[], [⟨0⟩]]
  subclassTable := #[[⟨0⟩, ⟨1⟩], [⟨1⟩]]

theorem heirProgram_drafted : heirProgram.Drafted :=
  ⟨heirSteps, _, rfl, rfl⟩

def heirCall : DynamicUse where
  selector := .call ⟨⟨5⟩, none⟩ {}
  constraint := .unconstrained

/-- The entry point calls the method.  Its source code creates the subclass, and
its generated code creates the given class. -/
def heirInput (created : ClassId) : CompilationInput where
  program := heirProgram
  main := ⟨0⟩
  resolutionImpacts := .ofList [(⟨0⟩, {
    dynamics := [heirCall]
    types := [⟨.instantiation, .interface ⟨1⟩ []⟩] })]
  codegenImpacts := .ofList [(⟨0⟩, {
    dynamics := [heirCall]
    types := [⟨.instantiation, .interface created []⟩] })]
  support := {}

/-- If the generated code creates the subclass too, it is a known receiver. -/
theorem directClasses_received_of_subclass :
    ∃ compilation, run (heirInput ⟨1⟩) {} 60 = .ok compilation ∧
      compilation.world.directClasses = [⟨1⟩] ∧
      ∀ cls ∈ compilation.world.directClasses,
        compilation.closedWorld.isDirectlyInstantiated cls = true := by
  obtain ⟨compilation, compiled, created, direct⟩ :
      ∃ compilation, run (heirInput ⟨1⟩) {} 60 = .ok compilation ∧
        compilation.world.directClasses = [⟨1⟩] ∧
        compilation.closedWorld.isDirectlyInstantiated ⟨1⟩ = true :=
    ⟨_, rfl, rfl, rfl⟩
  refine ⟨compilation, compiled, created,
    (directClasses_received_iff heirProgram_drafted.built compiled).2.2 ?_⟩
  intro cls isDirect onlyInherits
  rw [created] at isDirect
  obtain rfl := List.mem_singleton.1 isDirect
  have unreceived := onlyInherits.1
  rw [direct] at unreceived
  cases unreceived

/-- If the generated code creates the superclass, that class is no known
receiver.  The call is devirtualized to the method of the subclass, for which no
code is generated. -/
theorem directClasses_include_superclass :
    heirProgram.Drafted ∧
      ∃ compilation, run (heirInput ⟨0⟩) {} 60 = .ok compilation ∧
        compilation.world.directClasses = [⟨0⟩] ∧
        compilation.closedWorld.isDirectlyInstantiated ⟨0⟩ = false ∧
        compilation.world.devirtualized.get? heirCall = some ⟨2⟩ ∧
        compilation.generatedMembers = [⟨0⟩, ⟨1⟩] :=
  ⟨heirProgram_drafted, _, rfl, rfl, rfl, rfl, rfl⟩

end Compilation

end TreeShaking
