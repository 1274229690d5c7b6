import TreeShaking.Proofs.Closure.Admission
import TreeShaking.Proofs.Receivers

/-!
# Replaying resolution

The two explorations of a compilation differ in many ways: code generation has
its own queue and listener, counts fewer receivers, and is held to the closed
world.  But if the generated code needs nothing that the source code does not
need, what resolution has found is closed under the rules of code generation too.
So the closed world has room for all that code generation does, and it is never
refused.
-/

namespace TreeShaking

open Outcome World

/-! ### The rules with fewer receivers -/

theorem DynamicUse.Reaches.of_live {program : Program} {live : LiveClasses}
    (built : program.Built) {use : DynamicUse} {decl : MemberDecl}
    (reaches : use.Reaches program live decl) :
    use.Reaches program none decl := by
  obtain ⟨declarer, owner, hits⟩ := reaches.hits
  exact ⟨reaches.named, reaches.applies, declarer, owner,
    Constraint.canHit_of_live built hits⟩

/-- A set that is closed under the rules stays so if members need less code and
fewer receivers count. -/
theorem Problem.Closes.restrict {problem : Problem} {holds : Fact → Prop}
    (closes : problem.Closes none holds) (built : problem.program.Built)
    {impactOf : MemberId → Impact}
    (fewer : ∀ member, ∀ use ∈ (impactOf member).uses,
      use ∈ (problem.impactOf member).uses) (live : LiveClasses) :
    ({ problem with impactOf } : Problem).Closes live holds where
  entry := closes.entry
  helper := closes.helper
  body processed listed := closes.body processed (fewer _ _ listed)
  classImpact := closes.classImpact
  closure := closes.closure
  implemented := closes.implemented
  direct := closes.direct
  instantiated := closes.instantiated
  static := closes.static
  dynamic registered instantiated provides reaches grants :=
    closes.dynamic registered instantiated provides (reaches.of_live built)
      grants
  processed := closes.processed
  closurized := closes.closurized
  selector := closes.selector
  isCheck := closes.isCheck

/-! ### Exploring without being refused -/

namespace Exploration

variable {σ : Type} {setting : Setting σ} {problem : Problem}
  {serving : σ → Bool → Prop} {closed : ClosedWorld} {facts : Fact → Prop}
  {initial : Exploration σ}

/-- A new exploration in a closed world that admits what the rules ask for can be
opened, entered and run to the end. -/
theorem exists_settled (admits : closed.Admits setting problem facts)
    (listens : setting.listener.Serves problem.support serving)
    (isNew : initial.IsNew) (isOpen : initial.state ≠ .closed)
    (serves : serving initial.listener false)
    (stored : setting.source.impactOf initial.cache = problem.impactOf)
    (main : Option MemberId) (libraries : List LibraryId) :
    ∃ bound opened entered settled history,
      (∀ steps, bound ≤ steps →
        workOff setting steps [.announce (.queueOpened main libraries)] initial =
            .ok opened ∧
          opened.applyImpact setting steps problem.entry none = .ok entered ∧
          entered.runToFixedPoint setting steps = .ok settled) ∧
      Resolving problem setting serving
        ((Backend.helperImpact problem.support).uses ++ problem.entry.uses)
        history [] .idle settled ∧
      settled.isSettled = true := by
  have invariant := fun seeds => generating_invariant seeds admits.posed
    admits.answers.drafted.built listens
  have opening : Generating problem setting serving
      ((Backend.helperImpact problem.support).uses) []
      [.announce (.queueOpened main libraries)] .idle initial :=
    ⟨(Resolving.of_fresh isNew.toIsFresh serves stored).opening _ _,
      issues_of_new isNew, isOpen⟩
  obtain ⟨openBound, opened, opens⟩ := opening.exists_result admits listens
    (by simp [Task.isPlain])
  have isOpened := (invariant _).workOff opening (by simp [Task.isPlain])
    (opens openBound (Nat.le_refl _))
  have entering : Generating problem setting serving _ _
      [.apply problem.entry none] .idle opened :=
    ⟨isOpened.entering, isOpened.issues, isOpened.isOpen⟩
  obtain ⟨entryBound, entered, enters⟩ := entering.exists_result admits listens
    (by simp [Task.isPlain])
  have isEntered := (invariant _).workOff entering (by simp [Task.isPlain])
    (enters entryBound (Nat.le_refl _))
  have running : Generating problem setting serving _ _ [] .taking entered :=
    ⟨isEntered.running, ⟨isEntered.issues.issued, isEntered.issues.used⟩,
      isEntered.isOpen⟩
  obtain ⟨runBound, settled, runs⟩ := running.exists_result admits listens
    (by simp)
  obtain ⟨known, isSettled⟩ := (invariant _).forEach running
    (runs runBound (Nat.le_refl _))
  refine ⟨openBound + entryBound + runBound, opened, entered, settled, _,
    fun steps le => ⟨opens steps ?_, enters steps ?_, runs steps ?_⟩,
    known.toResolving, isSettled⟩
  · omega
  · omega
  · omega

theorem Tracked.close {history : List Use} {e : Exploration σ}
    (tracked : Tracked setting history [] .idle e) :
    Tracked setting history [] .idle (e.close setting) := by
  obtain ⟨world, queue, entered⟩ := close_frame e setting
  exact tracked.begin (by simp) rfl world queue entered

theorem processedMembers_close (e : Exploration σ) (setting : Setting σ) :
    (e.close setting).processedMembers = e.processedMembers := by
  rw [processedMembers, (close_frame e setting).1, processedMembers]

/-- An exploration that finds no more than another one stays within the members
that the other has processed and the classes that it knows. -/
theorem Tracked.within_of_finds {otherSetting : Setting σ}
    {history otherHistory : List Use} {e other : Exploration σ}
    (tracked : Tracked setting history [] .idle e)
    (otherTracked : Tracked otherSetting otherHistory [] .idle other)
    (found : ∀ fact, Finds history e fact → Finds otherHistory other fact) :
    e.processedMembers ⊆ other.processedMembers ∧
      e.world.instantiatedClasses ⊆ other.world.instantiatedClasses ∧
      e.world.implementedClasses ⊆ other.world.implementedClasses := by
  refine ⟨fun member processed => ?_, fun cls isInstantiated => ?_,
    fun cls isImplemented => ?_⟩
  · rw [processedMembers, Handle.mem_ascending] at processed ⊢
    exact found (.processed member) processed
  · rw [World.mem_instantiatedClasses] at isInstantiated ⊢
    have entered := found (.instantiated cls)
      ((tracked.classes.mem_processedClasses_iff cls).2 isInstantiated)
    exact otherTracked.classes.isInstantiated_of_entered entered
  · rw [implementedClasses, Handle.mem_ascending] at isImplemented ⊢
    exact found (.implemented cls) isImplemented

end Exploration

namespace Compilation

variable {σ : Type} {setting : Setting σ} {problem : Problem}
  {serving : σ → Bool → Prop} {main : MemberId} {policy : ImpactPolicy}
  {initial : Exploration σ}

/-- Exploring a program inside a closed world that admits what the rules ask for
comes to a result, and there are no findings. -/
theorem exists_explored {closed : ClosedWorld} {facts : Fact → Prop}
    (admits : closed.Admits setting problem facts)
    (listens : setting.listener.Serves problem.support serving)
    (isNew : initial.IsNew) (created : initial.state = .created)
    (serves : serving initial.listener false)
    (stored : setting.source.impactOf initial.cache = problem.impactOf)
    (entry : problem.entry = entryImpact main) (policy : ImpactPolicy) :
    ∃ bound settled seeds history,
      (∀ steps, bound ≤ steps → explore setting steps policy main initial =
        .ok (settled.close setting, [])) ∧
      Exploration.Resolving problem setting serving seeds history [] .idle
        settled ∧
      settled.isSettled = true := by
  have readied : ({ initial with policy, state := .opened } :
      Exploration σ).IsNew :=
    ⟨⟨isNew.world, isNew.queue, isNew.classes, isNew.deferred⟩, isNew.issued,
      isNew.journal⟩
  obtain ⟨bound, opened, entered, settled, history, ran, known, isSettled⟩ :=
    Exploration.exists_settled admits listens readied (by simp) serves stored
      (some main) setting.program.libraryIds
  refine ⟨bound, settled, _, history, fun steps le => ?_, known, isSettled⟩
  obtain ⟨opens, enters, runs⟩ := ran steps le
  have queue : (settled.close setting).queue = [] := by
    rw [(Exploration.close_frame settled setting).2.1]
    exact Exploration.queue_of_isSettled isSettled
  obtain ⟨findings, swept⟩ :=
    known.toTracked.close.succeeds_findings admits.answers
  rw [known.toTracked.close.findings_eq_nil swept] at swept
  rw [entry] at enters
  have started : initial.start setting steps policy (some main)
      setting.program.libraryIds = .ok opened := by
    rw [Exploration.start, if_pos created, opens]
  have isEmpty : (settled.close setting).checkQueueIsEmpty setting = .ok () := by
    rw [Exploration.checkQueueIsEmpty, queue]
  rw [explore_eq, started, bind_eq_ok_iff]
  refine ⟨opened, rfl, bind_eq_ok_iff.2 ⟨entered, enters, bind_eq_ok_iff.2
    ⟨settled, runs, ?_⟩⟩⟩
  dsimp only
  rw [isEmpty, swept]
  rfl

/-- More steps make no difference to an exploration that has come to an end. -/
theorem explore_of_le {steps more : Nat} {outcome : Exploration σ × List Diagnostic}
    (explored : explore setting steps policy main initial = .ok outcome)
    (le : steps ≤ more) :
    explore setting more policy main initial = .ok outcome := by
  have worked : ∀ {agenda : List Task} {e final : Exploration σ},
      Exploration.workOff setting steps agenda e = .ok final →
        Exploration.workOff setting more agenda e = .ok final := by
    intro agenda e final isFinal
    rw [Exploration.workOff_of_le (by simp [isFinal]) le, isFinal]
  simp only [explore, bind_eq_ok_iff] at explored ⊢
  obtain ⟨opened, started, entered, applied, settled, ran, rest⟩ := explored
  refine ⟨opened, ?_, entered, worked applied, settled, worked ran, rest⟩
  unfold Exploration.start at started ⊢
  split at started
  · rename_i isNew
    rw [if_pos isNew]
    exact worked started
  · cases started

end Compilation

/-! ### The two explorations of a compilation -/

/-- What a program is explored for, given what the code of its members needs. -/
def CompilationInput.problem (input : CompilationInput) (options : Options)
    (impacts : Table MemberId Impact) : Problem where
  program := input.program
  options := options
  support := input.support
  impactOf member := impacts.getD member {}
  entry := Compilation.entryImpact input.main

/-- The generated code of each member needs only what its source code needs. -/
def CompilationInput.Replays (input : CompilationInput) : Prop :=
  ∀ member, ∀ use ∈ (input.codegenImpacts.getD member {}).uses,
    use ∈ (input.resolutionImpacts.getD member {}).uses

/-- Static uses make supported accesses only: those of the entry point and the
helpers, and those in the code of members and classes. -/
structure CompilationInput.IsSupported (input : CompilationInput) : Prop where
  main : StaticUse.IsSupported input.program ⟨.general, input.main, none⟩
  helpers : ∀ helper ∈ input.support.helpers,
    StaticUse.IsSupported input.program ⟨.directUse, helper, none⟩
  impacts : ∀ member use,
    .static use ∈ (input.resolutionImpacts.getD member {}).uses →
      use.IsSupported input.program
  classImpacts : ∀ cls use,
    .static use ∈ (input.support.classImpacts.getD cls {}).uses →
      use.IsSupported input.program

/-- A fact that tells of no unsupported access. -/
def Fact.IsSupported (program : Program) : Fact → Prop
  | .registered (.static use) => use.IsSupported program
  | _ => True

theorem CompilationInput.IsSupported.closes {input : CompilationInput}
    (supported : input.IsSupported) (options : Options) (live : LiveClasses) :
    (input.problem options input.resolutionImpacts).Closes live
      (Fact.IsSupported input.program) where
  entry {use} listed := by
    obtain rfl : use = .static ⟨.general, input.main, none⟩ := by
      simpa [problem, Compilation.entryImpact, Impact.uses] using listed
    exact supported.main
  helper listed := supported.helpers _ listed
  body {member use} _ listed := by
    cases use with
    | static use => exact supported.impacts member use listed
    | dynamic | type => trivial
  classImpact {cls use} _ listed := by
    cases use with
    | static use => exact supported.classImpacts cls use listed
    | dynamic | type => trivial
  closure {member bit use} _ _ listed := by
    cases use with
    | static use =>
        unfold RuntimeSupport.closureImpact at listed
        split at listed <;> simp [Impact.uses] at listed
    | dynamic | type => trivial
  implemented _ _ _ := trivial
  direct _ _ _ := trivial
  instantiated _ _ := trivial
  static _ _ _ _ := trivial
  dynamic _ _ _ _ _ := trivial
  processed _ _ := trivial
  closurized _ := trivial
  selector _ := trivial
  isCheck _ _ _ := trivial

namespace Compilation

variable {input : CompilationInput} {options : Options}
  {serving : Backend → Bool → Prop}

/-- A resolution that has come to an end knows all that its rules ask for, and
has taken notice of resolvable uses only. -/
theorem resolving_of_explore {steps : Nat} {resolution : Exploration Backend}
    {findings : List Diagnostic} (built : input.program.Built)
    (listens : Backend.listener.Serves input.support serving)
    (serves : serving { support := input.support } false)
    (explored : explore (resolutionSetting input options) steps (policy options)
      input.main { listener := { support := input.support }
                   cache := input.resolutionImpacts } =
        .ok (resolution, findings)) :
    ∃ settled history,
      resolution = settled.close (resolutionSetting input options) ∧
      findings = [] ∧
      Exploration.Resolving (input.problem options input.resolutionImpacts)
        (resolutionSetting input options) serving
        ((Backend.helperImpact input.support).uses ++
          (entryImpact input.main).uses) history [] .idle settled ∧
      settled.queue = [] ∧
      ∀ use ∈ history, use.IsResolvable input.program options := by
  have posed : (input.problem options input.resolutionImpacts).SetIn
      (resolutionSetting input options) := ⟨rfl, rfl, rfl⟩
  simp only [explore_eq, bind_eq_ok_iff, pure_eq_ok_iff, Prod.mk.injEq]
    at explored
  obtain ⟨opened, started, entered, applied, settled, ran, _, _, found, swept,
    rfl, rfl⟩ := explored
  obtain ⟨known, isSettled⟩ := Exploration.exploring_of_run posed built listens
    ⟨rfl, rfl, rfl, rfl⟩ serves rfl started applied ran
  have performed : Exploration.performAll (resolutionSetting input options) [
      (steps, .start (policy options) (some input.main)
        input.program.libraryIds),
      (steps, .apply (entryImpact input.main) none),
      (steps, .forEach Exploration.applying)]
      { listener := { support := input.support }
        cache := input.resolutionImpacts } = .ok settled :=
    bind_eq_ok_iff.2 ⟨opened, started, bind_eq_ok_iff.2 ⟨entered, applied,
      bind_eq_ok_iff.2 ⟨settled, ran, rfl⟩⟩⟩
  have untold : ∀ use ∈ ([] : List Use),
      use.IsResolvable input.program options := by simp
  have resolvable := (Exploration.resolvable_enduring rfl).performAll untold
    performed
  refine ⟨settled, _, rfl, ?_, known, Exploration.queue_of_isSettled isSettled,
    resolvable⟩
  cases isSwept : (settled.close (resolutionSetting input options)).findings
      (resolutionSetting input options) with
  | ok findings =>
      rw [isSwept] at swept
      obtain rfl := Except.ok.inj swept
      exact known.toTracked.close.findings_eq_nil isSwept
  | error failure =>
      rw [isSwept] at swept
      cases swept

/-- If code generation replays resolution, the closed world has room for all that
resolution has found, and this is closed under the rules of code generation. -/
theorem admits_of_replays {history : List Use}
    {settled : Exploration Backend} (drafted : input.program.Drafted)
    (countable : input.program.Countable) (replays : input.Replays)
    (supported : input.IsSupported)
    (known : Exploration.Resolving
      (input.problem options input.resolutionImpacts)
      (resolutionSetting input options) serving
      ((Backend.helperImpact input.support).uses ++
        (entryImpact input.main).uses) history [] .idle settled)
    (queue : settled.queue = [])
    (resolvable : ∀ use ∈ history, use.IsResolvable input.program options) :
    settled.world.close.Admits (codegenSetting input options settled.world.close)
      (input.problem options input.codegenImpacts)
      (Exploration.Finds history settled) := by
  have posed : (input.problem options input.resolutionImpacts).SetIn
      (resolutionSetting input options) := ⟨rfl, rfl, rfl⟩
  have classes := known.classes
  have chains := classes.closed.chains
  refine
    { scope := rfl
      posed := ⟨rfl, rfl, rfl⟩
      closes := ?_
      answers := ⟨drafted, countable, fun cls isLive => ?_⟩
      receivers := fun cls isDirect => ?_
      resolvable := resolvable
      supported := fun use told => ?_
      live := fun member applied =>
        World.isMemberLive_close_iff.2 ⟨.normal, applied⟩
      instantiated := fun cls entered => ?_
      implemented := fun cls isImplemented => ⟨?_, ?_⟩ }
  · exact (known.closes_finds posed queue).restrict drafted.built replays _
  · have instantiated : settled.world.close.isInstantiated cls = true := isLive
    rw [World.isInstantiated_close] at instantiated
    obtain ⟨chain, walked, -⟩ := chains cls instantiated
    exact ⟨chain, walked⟩
  · have direct := classes.closed.direct cls (Handle.mem_ascending.1 isDirect)
    obtain ⟨chain, walked, -⟩ := chains cls direct
    exact ⟨chain, walked⟩
  · have isSupported : Fact.IsSupported input.program
        (.registered (.static use)) :=
      known.holds_of_finds posed queue (supported.closes options none) told
    exact isSupported
  · rw [World.isInstantiated_close]
    exact classes.isInstantiated_of_entered entered
  · exact List.contains_iff_mem.2 (Handle.mem_ascending.2 isImplemented)
  · obtain ⟨found, stored, -⟩ := classes.closed.supertypes cls isImplemented
    exact drafted.built.cls_of_supertypes stored

/-- A compilation that replays resolution is never refused.  If the parameters of
all members can be counted and static uses make supported accesses only, then it
comes to a result as soon as resolution does.  Code generation then processes no
member and knows no class that resolution has not found, and there are no
findings. -/
theorem run_of_replays {steps : Nat} {resolution : Exploration Backend}
    {findings : List Diagnostic} (drafted : input.program.Drafted)
    (countable : input.program.Countable) (replays : input.Replays)
    (supported : input.IsSupported)
    (resolved : explore (resolutionSetting input options) steps (policy options)
      input.main { listener := { support := input.support }
                   cache := input.resolutionImpacts } =
        .ok (resolution, findings)) :
    ∃ compilation,
      (∃ bound, ∀ more, bound ≤ more →
        run input options more = .ok compilation) ∧
      compilation.generatedMembers ⊆ compilation.resolvedMembers ∧
      compilation.world.instantiatedClasses ⊆
        compilation.closedWorld.instantiated ∧
      compilation.world.implementedClasses ⊆
        compilation.closedWorld.implemented ∧
      compilation.diagnostics = [] := by
  obtain ⟨serving, listens, serves⟩ := (Listener.Standard.backend
    input.support).serves
  obtain ⟨settled, history, rfl, rfl, known, queue, resolvable⟩ :=
    resolving_of_explore drafted.built listens serves resolved
  have admits := admits_of_replays drafted countable replays supported known
    queue resolvable
  have isNew : ({ listener := { support := input.support } } :
      Exploration Backend).IsNew := ⟨⟨rfl, rfl, rfl, rfl⟩, rfl, rfl⟩
  obtain ⟨bound, generated, seeds, uses, explored, knownGenerated, isSettled⟩ :=
    exists_explored admits listens isNew rfl serves rfl rfl .retaining
  -- What resolution has found is closed under the rules of code generation, and
  -- an exploration finds nothing outside of such a set.
  have found : ∀ fact, Exploration.Finds uses generated fact →
      Exploration.Finds history settled fact := fun fact =>
    knownGenerated.holds_of_finds admits.posed
      (Exploration.queue_of_isSettled isSettled) admits.closes
  obtain ⟨members, instantiated, implemented⟩ :=
    knownGenerated.toTracked.within_of_finds known.toTracked found
  have world := (Exploration.close_frame settled
    (resolutionSetting input options)).1
  have generatedWorld := (Exploration.close_frame generated
    (codegenSetting input options settled.world.close)).1
  refine ⟨_, ⟨steps + bound, fun more le => bind_eq_ok_iff.2
    ⟨_, explore_of_le resolved (by omega), bind_eq_ok_iff.2
      ⟨(generated.close (codegenSetting input options settled.world.close), []),
        ?_, rfl⟩⟩⟩, ?_, ?_, ?_, rfl⟩
  · rw [world]
    exact explored more (by omega)
  · dsimp only
    rw [Exploration.processedMembers_close, Exploration.processedMembers_close]
    exact members
  · rw [world, generatedWorld]
    exact instantiated
  · rw [world, generatedWorld]
    exact implemented

/-- The entry point of `tearOffProgram` creates an instance of the subclass and
tears a method off it.  Its source code calls the other method too.  The runtime
needs a helper and the class of closures, and uses the helper for the subclass
again. -/
def replayInput : CompilationInput where
  program := Exploration.tearOffProgram
  main := ⟨0⟩
  resolutionImpacts := .ofList [(⟨0⟩, {
    dynamics := [⟨.getter ⟨⟨7⟩, none⟩, .exact ⟨1⟩⟩,
      ⟨.call ⟨⟨8⟩, none⟩ {}, .subtype ⟨0⟩⟩]
    types := [⟨.instantiation, .interface ⟨1⟩ []⟩] })]
  codegenImpacts := .ofList [(⟨0⟩, {
    dynamics := [⟨.getter ⟨⟨7⟩, none⟩, .exact ⟨1⟩⟩]
    types := [⟨.instantiation, .interface ⟨1⟩ []⟩] })]
  support := {
    helpers := [⟨1⟩]
    closureClass := some ⟨2⟩
    classImpacts := .ofList [(⟨1⟩, { statics := [⟨.general, ⟨1⟩, none⟩] })] }

theorem tearOffProgram_countable : Exploration.tearOffProgram.Countable := by
  rintro ⟨index⟩ decl declared
  match index, declared with
  | 0, rfl => exact ⟨_, rfl⟩
  | 1, rfl => exact ⟨_, rfl⟩
  | 2, rfl => exact ⟨_, rfl⟩
  | 3, rfl => exact ⟨_, rfl⟩
  | index + 4, declared => cases declared

theorem replayInput_replays : replayInput.Replays := by
  intro member use listed
  rw [replayInput, Table.getD_ofList_single] at listed ⊢
  split at listed
  · rename_i isMain
    rw [if_pos isMain]
    revert use
    decide
  · cases listed

theorem replayInput_isSupported : replayInput.IsSupported where
  main := by
    rintro decl access ⟨⟩ ⟨⟩
    rfl
  helpers helper listed := by
    obtain rfl := List.mem_singleton.1 listed
    rintro decl access ⟨⟩ ⟨⟩
    rfl
  impacts member use listed := by
    rw [replayInput, Table.getD_ofList_single] at listed
    split at listed <;> simp [Impact.uses] at listed
  classImpacts cls use listed := by
    rw [replayInput, Table.getD_ofList_single] at listed
    split at listed
    · obtain rfl : use = ⟨.general, ⟨1⟩, none⟩ := by
        simpa [Impact.uses] using listed
      rintro decl access ⟨⟩ ⟨⟩
      rfl
    · cases listed

/-- Resolution finds both methods, and code generation is accepted. -/
theorem run_of_replayed_tear_off :
    replayInput.program.Drafted ∧ replayInput.program.Countable ∧
      replayInput.Replays ∧ replayInput.IsSupported ∧
      ∃ resolution findings,
        explore (resolutionSetting replayInput {}) 60 (policy {}) ⟨0⟩
          { listener := { support := replayInput.support }
            cache := replayInput.resolutionImpacts } =
          .ok (resolution, findings) ∧
        resolution.processedMembers = [⟨0⟩, ⟨1⟩, ⟨2⟩, ⟨3⟩] ∧
        ∃ compilation,
          (∃ bound, ∀ more, bound ≤ more →
            run replayInput {} more = .ok compilation) ∧
          compilation.generatedMembers ⊆ compilation.resolvedMembers ∧
          compilation.world.instantiatedClasses ⊆
            compilation.closedWorld.instantiated ∧
          compilation.world.implementedClasses ⊆
            compilation.closedWorld.implemented ∧
          compilation.diagnostics = [] :=
  ⟨Exploration.tearOffProgram_drafted, tearOffProgram_countable,
    replayInput_replays, replayInput_isSupported, _, _, rfl, rfl,
    @run_of_replays replayInput {} 60 _ _ Exploration.tearOffProgram_drafted
      tearOffProgram_countable replayInput_replays replayInput_isSupported rfl⟩

end Compilation

end TreeShaking
