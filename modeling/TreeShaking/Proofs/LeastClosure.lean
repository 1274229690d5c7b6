import TreeShaking.Exploration.Report
import TreeShaking.Proofs.Closure.Soundness
import TreeShaking.Proofs.Drafting
import TreeShaking.Proofs.Run.Operations

/-!
# Resolution finds the least closure

Resolution works off a queue, in an order that the options choose, and the
listener may answer anything it hears with new uses.  When it comes to an end,
it has nevertheless found exactly what the rules ask for, no more and no less.
-/

namespace TreeShaking

open Outcome World

namespace Exploration

variable {σ : Type} {setting : Setting σ} {problem : Problem}
  {serving : σ → Bool → Prop} {seeds history : List Use} {e : Exploration σ}

/-- All that is known about an exploration in progress that is set to solve a
problem. -/
structure Resolving (problem : Problem) (setting : Setting σ)
    (serving : σ → Bool → Prop) (seeds history : List Use) (work : List Task)
    (stage : Stage) (e : Exploration σ) : Prop
    extends Tracked setting history work stage e where
  tests : Tests setting history e
  custody : Custody problem setting work stage e
  covered : ∃ asked, Coverage problem serving seeds history work stage e asked
  warranted : ∀ holds, problem.Closes setting.scope.live holds →
    Warranted holds history work

theorem resolving_invariant (seeds : List Use)
    (posed : problem.SetIn setting) (built : setting.program.Built)
    (listens : setting.listener.Serves problem.support serving) :
    Invariant setting applying
      (Resolving problem setting serving seeds) where
  step := by
    rintro history task work stage e tasks next known effect
    obtain ⟨asked, coverage⟩ := known.covered
    have books := known.lifecycle.books
    exact
      { toTracked := (tracked_invariant built applying).step known.toTracked
          effect
        tests := known.tests.effect books effect
        custody := known.custody.step books effect
        covered := coverage.step effect posed.strategy listens books
        warranted := fun holds closes =>
          (known.warranted holds closes).step effect posed closes built listens
            coverage.serves books known.classes }
  turn := by
    rintro history stage e work nextStage next known turn
    obtain ⟨asked, coverage⟩ := known.covered
    exact
      { toTracked := (tracked_invariant built applying).turn known.toTracked
          turn
        tests := known.tests.turn turn
        custody := known.custody.turn turn
        covered := ⟨asked, coverage.turn known.custody turn listens⟩
        warranted := fun holds closes =>
          (known.warranted holds closes).turn turn posed closes listens
            coverage.serves known.custody known.lifecycle known.classes }

/-! ### Operations in a row -/

theorem Resolving.of_fresh (fresh : e.IsFresh) (serves : serving e.listener false)
    (stored : setting.source.impactOf e.cache = problem.impactOf) :
    Resolving problem setting serving [] [] [] .idle e where
  toTracked := tracked_of_fresh fresh
  tests := by simp [Tests, fresh.world]
  custody := ⟨fun member _ => congrFun stored member, by simp, by simp,
    fresh.deferred⟩
  covered := ⟨false, serves, by simp, by simp [fresh.world, Stage.member?],
    by simp [fresh.classes], by simp,
    by simp [fresh.world, appliedTo]⟩
  warranted _ _ := ⟨by simp [Needed], by simp⟩

/-- The next operation may begin where the last one has come to an end. -/
theorem Resolving.begin
    (known : Resolving problem setting serving seeds history [] .idle e)
    (news : List Use) (work : List Task) (stage : Stage)
    (unconcerned : ∀ task ∈ work,
      task.isNeutral = true ∧ task.concernsClass = false)
    (unreleased : ∀ task ∈ work, task.source? = none)
    (warranted : ∀ holds, problem.Closes setting.scope.live holds →
      ∀ task ∈ work, task.Warranted holds)
    (promised : ∀ use ∈ news,
      use ∈ work.flatMap (Task.promised problem.support))
    (resting : stage.member? = none) :
    Resolving problem setting serving (seeds ++ news) history work stage e := by
  obtain ⟨asked, coverage⟩ := known.covered
  have kept : ∀ use, Covered problem history [] .idle use →
      Covered problem history work stage use :=
    fun use covered => .inl covered.mem_history
  refine
    { toTracked := known.toTracked.begin unconcerned resting rfl rfl rfl
      tests := known.tests
      custody := known.custody.begin unreleased resting
      covered := ⟨asked, coverage.serves, ?_, ?_, ?_, ?_, ?_⟩
      warranted := fun holds closes =>
        ⟨(known.warranted holds closes).history, warranted holds closes⟩ }
  · intro use seed
    rcases List.mem_append.1 seed with old | new
    · exact kept use (coverage.seeds use old)
    · exact .inr (.inl (promised use new))
  · rintro member (processed | impossible) use listed
    · exact kept use (coverage.bodies member (.inl processed) use listed)
    · rw [resting] at impossible
      cases impossible
  · exact fun cls entered use listed =>
      kept use (coverage.classes cls entered use listed)
  · exact fun isAsked use listed => kept use (coverage.closure isAsked use listed)
  · intro member bit isTearOff applied
    rcases coverage.tornOff member bit isTearOff applied with
      isAsked | none | ⟨task, impossible, -⟩
    · exact .inl isAsked
    · exact .inr (.inl none)
    · cases impossible

/-- The queue may be opened, which promises the helpers of the runtime. -/
theorem Resolving.opening
    (known : Resolving problem setting serving seeds history [] .idle e)
    (main : Option MemberId) (libraries : List LibraryId) :
    Resolving problem setting serving
      (seeds ++ (Backend.helperImpact problem.support).uses) history
      [.announce (.queueOpened main libraries)] .idle e :=
  known.begin _ _ _ (by simp [Task.isNeutral, Task.concernsClass])
    (by simp [Task.source?]) (by simp [Task.Warranted, Notice.Warranted])
    (by simp [Task.promised]) rfl

/-- What is needed to begin with may be applied. -/
theorem Resolving.entering
    (known : Resolving problem setting serving seeds history [] .idle e) :
    Resolving problem setting serving (seeds ++ problem.entry.uses) history
      [.apply problem.entry none] .idle e :=
  known.begin _ _ _ (by simp [Task.isNeutral, Task.concernsClass])
    (by simp [Task.source?])
    (fun holds closes => by
      simpa [Task.Warranted] using fun use listed => closes.entry listed)
    (by simp [Task.promised]) rfl

/-- The loop over the queue may begin. -/
theorem Resolving.running
    (known : Resolving problem setting serving seeds history [] .idle e) :
    Resolving problem setting serving seeds history [] .taking e := by
  have running := known.begin [] [] .taking (by simp) (by simp) (by simp)
    (by simp) rfl
  rwa [List.append_nil] at running

/-- The operations of an exploration keep all that is known, and leave nothing to
be done. -/
theorem exploring_of_run {opened entered final : Exploration σ}
    {openSteps entrySteps runSteps : Nat} {policy : ImpactPolicy}
    {main : Option MemberId} {libraries : List LibraryId}
    (posed : problem.SetIn setting) (built : setting.program.Built)
    (listens : setting.listener.Serves problem.support serving)
    (fresh : e.IsFresh) (serves : serving e.listener false)
    (stored : setting.source.impactOf e.cache = problem.impactOf)
    (started : e.start setting openSteps policy main libraries = .ok opened)
    (applied : opened.applyImpact setting entrySteps problem.entry none =
      .ok entered)
    (ran : entered.runToFixedPoint setting runSteps = .ok final) :
    Resolving problem setting serving
        ((Backend.helperImpact problem.support).uses ++ problem.entry.uses)
        (noticedAll setting [(openSteps, .start policy main libraries),
          (entrySteps, .apply problem.entry none),
          (runSteps, .forEach applying)] e) [] .idle final ∧
      final.isSettled = true := by
  have opens := started
  have runs : entered.forEach setting runSteps applying = .ok final := ran
  unfold start at started
  split at started
  · have new : Resolving problem setting serving [] [] [] .idle
        { e with policy, state := .opened } :=
      .of_fresh ⟨fresh.world, fresh.queue, fresh.classes, fresh.deferred⟩ serves
        stored
    have isOpen := (resolving_invariant _ posed built listens).workOff
      (new.opening main libraries) (by simp [Task.isPlain]) started
    have isEntered := (resolving_invariant _ posed built listens).workOff
      isOpen.entering (by simp [Task.isPlain]) applied
    obtain ⟨known, settled⟩ :=
      (resolving_invariant _ posed built listens).forEach isEntered.running ran
    refine ⟨?_, settled⟩
    simpa [noticedAll, Operation.noticed, perform, opens, applied, runs,
      Stage.tasks] using known
  · cases started

theorem resolving_of_run {opened entered final : Exploration σ}
    {openSteps entrySteps runSteps : Nat} {policy : ImpactPolicy}
    {main : Option MemberId} {libraries : List LibraryId}
    (posed : problem.PosedIn setting) (built : setting.program.Built)
    (listens : setting.listener.Serves problem.support serving)
    (fresh : e.IsFresh) (serves : serving e.listener false)
    (stored : setting.source.impactOf e.cache = problem.impactOf)
    (started : e.start setting openSteps policy main libraries = .ok opened)
    (applied : opened.applyImpact setting entrySteps problem.entry none =
      .ok entered)
    (ran : entered.runToFixedPoint setting runSteps = .ok final) :
    ∃ history, Resolving problem setting serving
        ((Backend.helperImpact problem.support).uses ++ problem.entry.uses)
        history [] .idle final ∧
      final.isSettled = true :=
  ⟨_, exploring_of_run posed.setIn built listens fresh serves stored started
    applied ran⟩

/-! ### What has been found -/

/-- What an exploration has found out. -/
def Finds (history : List Use) (e : Exploration σ) : Fact → Prop
  | .registered use => use ∈ history
  | .implemented cls => cls ∈ e.world.implemented
  | .direct cls => cls ∈ e.world.direct
  | .instantiated cls => cls ∈ e.processedClasses
  | .applied member bit => (e.world.appliedTo member).has bit = true
  | .processed member => member ∈ e.world.processed
  | .closurized member => member ∈ e.world.closurized
  | .selector selector => selector ∈ e.world.usedSelectors
  | .isCheck type => type ∈ e.world.isChecks

/-- What has been found is in every set of facts that is closed under the
rules. -/
theorem Resolving.holds_of_finds
    (known : Resolving problem setting serving seeds history [] .idle e)
    (posed : problem.SetIn setting) (queue : e.queue = [])
    {holds : Fact → Prop} (closes : problem.Closes setting.scope.live holds)
    {fact : Fact} (found : Finds history e fact) : holds fact := by
  have needed := (known.warranted holds closes).history
  have books := known.lifecycle.books
  have classes := known.classes
  cases fact with
  | registered use => exact needed use found
  | implemented cls => exact needed.implemented posed closes classes found
  | direct cls => exact needed.direct posed closes classes found
  | instantiated cls =>
      exact needed.instantiated posed closes classes
        (classes.isInstantiated_of_entered found)
  | applied member bit => exact needed.applied posed closes books classes found
  | processed member =>
      obtain ⟨normal, wellFormed⟩ :=
        (known.lifecycle.mem_processed_iff queue member).1 found
      exact closes.processed (needed.applied posed closes books classes normal)
        (posed.program ▸ wellFormed)
  | closurized member =>
      have tornOff := (known.lifecycle.mem_closurized_iff member).1 found
      exact closes.closurized (needed.applied posed closes books classes tornOff)
  | selector selector =>
      obtain ⟨constraint, told⟩ := (books.mem_usedSelectors_iff selector).1 found
      exact closes.selector (needed _ told)
  | isCheck type =>
      obtain ⟨use, told, isTest, unaliased⟩ := (known.tests type).1 found
      exact closes.isCheck (needed _ told) (posed.options ▸ isTest)
        (posed.program ▸ unaliased)

/-- What has been found is closed under the rules. -/
theorem Resolving.closes_finds
    (known : Resolving problem setting serving
      ((Backend.helperImpact problem.support).uses ++ problem.entry.uses)
      history [] .idle e)
    (posed : problem.SetIn setting) (queue : e.queue = []) :
    problem.Closes setting.scope.live (Finds history e) := by
  have books := known.lifecycle.books
  have classes := known.classes
  obtain ⟨asked, coverage⟩ := known.covered
  -- The rules that register uses are covered, and the others are what is known
  -- about classes and members.
  constructor
  case entry =>
      intro use listed
      exact (coverage.seeds _ (List.mem_append_right _ listed)).mem_history
  case helper =>
      intro member listed
      have isHelper := (problem.support.mem_uses_helperImpact _).2
        ⟨member, listed, rfl⟩
      exact (coverage.seeds _ (List.mem_append_left _ isHelper)).mem_history
  case body =>
      intro member use processed listed
      exact (coverage.bodies _ (.inl processed) _ listed).mem_history
  case classImpact =>
      intro cls use entered listed
      exact (coverage.classes _ entered _ listed).mem_history
  case closure =>
      intro member bit use applied isTearOff listed
      rcases coverage.tornOff _ _ isTearOff applied with
        isAsked | none | ⟨task, impossible, -⟩
      · exact (coverage.closure isAsked _ listed).mem_history
      · simp [RuntimeSupport.closureImpact, none, Impact.uses] at listed
      · cases impossible
  case implemented =>
      intro use type flags above told instantiates isAbove
      exact (classes.mem_implemented_iff _).2
        ⟨_, _, ⟨_, told, instantiates⟩, posed.program ▸ isAbove⟩
  case direct =>
      intro use type flags told instantiates creates
      exact (classes.mem_direct_iff _).2
        ⟨_, _, ⟨_, told, instantiates⟩, rfl, posed.program ▸ creates⟩
  case instantiated =>
      intro cls above direct isAbove
      apply (classes.mem_processedClasses_iff _).2
      exact (classes.isInstantiated_iff _).2
        ⟨_, direct, posed.program ▸ isAbove⟩
  case static =>
      intro use decl access bit told declared accesses grants
      exact (World.Balanced.appliedTo_iff books _ _).2
        ⟨_, posed.program ▸ declared, .named _ _ told rfl accesses grants⟩
  case dynamic =>
      intro use cls member decl bit told entered provides reaches grants
      rw [← posed.program] at provides reaches
      exact (World.Balanced.appliedTo_iff books _ _).2
        ⟨_, provides.declared,
          .reached _ told ⟨_, entered, provides⟩ reaches grants⟩
  case processed =>
      intro member applied wellFormed
      exact (known.lifecycle.mem_processed_iff queue _).2
        ⟨applied, posed.program ▸ wellFormed⟩
  case closurized =>
      intro member applied
      exact (known.lifecycle.mem_closurized_iff _).2 applied
  case selector =>
      intro use told
      exact (books.mem_usedSelectors_iff _).2 ⟨_, told⟩
  case isCheck =>
      intro use tested told isTest unaliased
      exact (known.tests _).2
        ⟨_, told, posed.options ▸ isTest, posed.program ▸ unaliased⟩

/-- What a resolution has found follows from the rules. -/
theorem Resolving.needs_of_finds
    (known : Resolving problem setting serving seeds history [] .idle e)
    (posed : problem.PosedIn setting) (queue : e.queue = []) {fact : Fact}
    (found : Finds history e fact) : problem.Needs fact := by
  have closes : problem.Closes setting.scope.live problem.Needs := by
    rw [posed.scope]
    exact problem.closes_needs
  exact known.holds_of_finds posed.setIn queue closes found

/-- What follows from the rules has been found by a resolution. -/
theorem Resolving.finds_of_needs
    (known : Resolving problem setting serving
      ((Backend.helperImpact problem.support).uses ++ problem.entry.uses)
      history [] .idle e)
    (posed : problem.PosedIn setting) (queue : e.queue = []) {fact : Fact}
    (needed : problem.Needs fact) : Finds history e fact := by
  have closes := known.closes_finds posed.setIn queue
  rw [posed.scope] at closes
  exact closes.of_needs needed

end Exploration

/-- The problem that a resolution is set to solve, given the impacts that are
stored at first. -/
def Setting.problem {σ : Type} (setting : Setting σ) (support : RuntimeSupport)
    (cache : ImpactCache) (entry : Impact) : Problem where
  program := setting.program
  options := setting.options
  support := support
  impactOf := setting.source.impactOf cache
  entry := entry

namespace Exploration

variable {σ : Type}

/-- A resolution that is opened, given an impact and run to the end has found
exactly what follows from the rules: the processed members and classes, the
classes with instances, the uses of members, tear-offs, selectors and type tests
are those of the least solution. -/
theorem runToFixedPoint_finds_least_closure {setting : Setting σ} {initial : σ}
    {support : RuntimeSupport} {cache : ImpactCache} {entry : Impact}
    {openSteps entrySteps runSteps : Nat} {policy : ImpactPolicy}
    {main : Option MemberId} {libraries : List LibraryId}
    {opened entered final : Exploration σ}
    (scope : setting.scope = .resolution)
    (strategy : setting.strategy = .treeShaking)
    (built : setting.program.Built)
    (standard : setting.listener.Standard initial support)
    (started : ({ listener := initial, cache } : Exploration σ).start setting
      openSteps policy main libraries = .ok opened)
    (applied : opened.applyImpact setting entrySteps entry none = .ok entered)
    (ran : entered.runToFixedPoint setting runSteps = .ok final) :
    let Needs := (setting.problem support cache entry).Needs
    (∀ member, member ∈ final.processedMembers ↔ Needs (.processed member)) ∧
    (∀ cls, cls ∈ final.enteredClasses ↔ Needs (.instantiated cls)) ∧
    (∀ cls, cls ∈ final.world.directClasses ↔ Needs (.direct cls)) ∧
    (∀ cls, cls ∈ final.world.implementedClasses ↔ Needs (.implemented cls)) ∧
    (∀ member bit, (final.world.appliedTo member).has bit = true ↔
      Needs (.applied member bit)) ∧
    (∀ member, member ∈ final.world.closurized ↔ Needs (.closurized member)) ∧
    (∀ selector, selector ∈ final.world.usedSelectors ↔
      Needs (.selector selector)) ∧
    (∀ type, type ∈ final.world.isChecks ↔ Needs (.isCheck type)) := by
  intro Needs
  have posed : (setting.problem support cache entry).PosedIn setting :=
    ⟨rfl, rfl, scope, strategy⟩
  obtain ⟨serving, listens, serves⟩ := standard.serves
  obtain ⟨history, known, settled⟩ := resolving_of_run posed built listens
    ⟨rfl, rfl, rfl, rfl⟩ serves rfl started applied ran
  have queue : final.queue = [] := by
    simp only [isSettled, Bool.and_eq_true, List.isEmpty_iff] at settled
    exact settled.1.1
  have agree : ∀ fact, Finds history final fact ↔ Needs fact := fun fact =>
    ⟨known.needs_of_finds posed queue, known.finds_of_needs posed queue⟩
  refine ⟨fun member => ?_, fun cls => ?_, fun cls => ?_, fun cls => ?_,
    fun member bit => agree (.applied member bit),
    fun member => agree (.closurized member),
    fun selector => agree (.selector selector), fun type => agree (.isCheck type)⟩
  · rw [processedMembers, Handle.mem_ascending]
    exact agree (.processed member)
  · rw [enteredClasses, Handle.mem_ascending]
    exact agree (.instantiated cls)
  · rw [directClasses, Handle.mem_ascending]
    exact agree (.direct cls)
  · rw [implementedClasses, Handle.mem_ascending]
    exact agree (.implemented cls)

/-- A class with two methods, a class that inherits them, and the class of
closures. -/
def tearOffSteps : List Draft.Step := [
  .library "app",
  .cls ⟨0⟩ "A" none,
  .cls ⟨0⟩ "B" (some ⟨0⟩),
  .cls ⟨0⟩ "Closure" none,
  .function ⟨0⟩ "main" {},
  .function ⟨0⟩ "helper" {},
  .classMember ⟨0⟩ "foo" (.method {}),
  .classMember ⟨0⟩ "bar" (.method {})]

def tearOffProgram : Program where
  names := .ofTexts #["", "app", "A", "B", "Closure", "main", "helper", "foo", "bar"]
  libraries := #[{ name := ⟨1⟩ }]
  classes := #[
    { name := ⟨2⟩, library := ⟨0⟩, superclass := none, members := [⟨2⟩, ⟨3⟩] },
    { name := ⟨3⟩, library := ⟨0⟩, superclass := some ⟨0⟩ },
    { name := ⟨4⟩, library := ⟨0⟩, superclass := none }]
  members := #[
    { name := ⟨5⟩, library := ⟨0⟩, owner := none, kind := .function
      isStatic := true },
    { name := ⟨6⟩, library := ⟨0⟩, owner := none, kind := .function
      isStatic := true },
    { name := ⟨7⟩, library := ⟨0⟩, owner := some ⟨0⟩, kind := .method },
    { name := ⟨8⟩, library := ⟨0⟩, owner := some ⟨0⟩, kind := .method }]
  typedefs := #[]
  supertypeTable := #[[], [⟨0⟩], []]
  subclassTable := #[[⟨0⟩, ⟨1⟩], [⟨1⟩], [⟨2⟩]]

theorem tearOffProgram_drafted : tearOffProgram.Drafted :=
  ⟨tearOffSteps, _, rfl, rfl⟩

/-- The entry point tears a method off an instance of the subclass. -/
def tearOffImpacts : ImpactCache :=
  .ofList [(⟨0⟩, {
    dynamics := [⟨.getter ⟨⟨7⟩, none⟩, .unconstrained⟩]
    types := [⟨.instantiation, .interface ⟨1⟩ []⟩] })]

def tearOffSupport : RuntimeSupport where
  helpers := [⟨1⟩]
  closureClass := some ⟨2⟩

def tearOffSetting : Setting Backend where
  program := tearOffProgram
  scope := .resolution
  strategy := .treeShaking
  listener := Backend.listener
  source := .cache
  options := {}

/-- The method that is torn off and the class of closures are needed, the other
method is not. -/
theorem runToFixedPoint_finds_tear_off :
    ∃ opened entered final,
      ({ listener := { support := tearOffSupport }, cache := tearOffImpacts } :
        Exploration Backend).start tearOffSetting 20 (.releasing false false)
          (some ⟨0⟩) [] = .ok opened ∧
      opened.applyImpact tearOffSetting 20
          { statics := [⟨.general, ⟨0⟩, none⟩] } none = .ok entered ∧
      entered.runToFixedPoint tearOffSetting 60 = .ok final ∧
      let Needs := (tearOffSetting.problem tearOffSupport tearOffImpacts
        { statics := [⟨.general, ⟨0⟩, none⟩] }).Needs
      Needs (.closurized ⟨2⟩) ∧ Needs (.direct ⟨2⟩) ∧
        Needs (.instantiated ⟨0⟩) ∧ ¬ Needs (.processed ⟨3⟩) := by
  obtain ⟨opened, entered, final, started, applied, ran, processed, direct, torn,
      instantiated⟩ :
      ∃ opened entered final,
        ({ listener := { support := tearOffSupport }, cache := tearOffImpacts } :
          Exploration Backend).start tearOffSetting 20 (.releasing false false)
            (some ⟨0⟩) [] = .ok opened ∧
        opened.applyImpact tearOffSetting 20
            { statics := [⟨.general, ⟨0⟩, none⟩] } none = .ok entered ∧
        entered.runToFixedPoint tearOffSetting 60 = .ok final ∧
        final.processedMembers = [⟨0⟩, ⟨1⟩, ⟨2⟩] ∧
        final.world.directClasses = [⟨1⟩, ⟨2⟩] ∧
        final.world.closurized = [⟨2⟩] ∧
        final.enteredClasses = [⟨0⟩, ⟨1⟩, ⟨2⟩] :=
    ⟨_, _, _, rfl, rfl, rfl, rfl, rfl, rfl, rfl⟩
  obtain ⟨processedIff, instantiatedIff, directIff, -, -, tornIff, -⟩ :=
    runToFixedPoint_finds_least_closure rfl rfl tearOffProgram_drafted.built
      (.backend tearOffSupport) started applied ran
  refine ⟨opened, entered, final, started, applied, ran, (tornIff ⟨2⟩).1 ?_,
    (directIff ⟨2⟩).1 ?_, (instantiatedIff ⟨0⟩).1 ?_, fun needed => ?_⟩
  · simp [torn]
  · simp [direct]
  · simp [instantiated]
  · have absent := (processedIff ⟨3⟩).2 needed
    simp [processed] at absent

end Exploration

end TreeShaking
