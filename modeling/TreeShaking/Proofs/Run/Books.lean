import TreeShaking.Proofs.Account.Enter
import TreeShaking.Proofs.Instantiation
import TreeShaking.Proofs.Run.Stage

/-!
# The books of an exploration

What an exploration knows about members comes from the uses in its history and
the classes that it has entered.  Its world is balanced with respect to this
evidence at every moment, in either phase, under any strategy and any listener
(`Books.effect`).
-/

namespace TreeShaking

open Outcome

namespace World

variable {program : Program} {live : LiveClasses} {world final : World}
  {evidence : Evidence} {reports : List MemberReport}

/-- Two worlds know the same about members. -/
structure SameMembers (before after : World) : Prop where
  memberUsage : after.memberUsage = before.memberUsage
  awaitingUse : after.awaitingUse = before.awaitingUse
  awaitingTearOff : after.awaitingTearOff = before.awaitingTearOff
  selectors : after.selectors = before.selectors

/-- Two worlds have come equally far with members and type tests. -/
structure SameProgress (before after : World) : Prop where
  isChecks : after.isChecks = before.isChecks
  closurized : after.closurized = before.closurized
  used : after.used = before.used
  processed : after.processed = before.processed

/-- Two worlds know the same about everything but the uses of members. -/
structure SameElsewhere (before after : World) : Prop
    extends SameProgress before after where
  classUsage : after.classUsage = before.classUsage
  direct : after.direct = before.direct
  implemented : after.implemented = before.implemented

theorem SameMembers.appliedTo (same : SameMembers world final)
    (member : MemberId) : final.appliedTo member = world.appliedTo member := by
  rw [World.appliedTo, World.appliedTo, same.memberUsage]

theorem Balanced.of_sameMembers (balanced : world.Balanced program live evidence)
    (same : SameMembers world final) :
    final.Balanced program live evidence where
  orderly :=
    { usages := same.memberUsage ▸ balanced.orderly.usages
      met := by
        rw [same.memberUsage, same.awaitingUse, same.awaitingTearOff]
        exact balanced.orderly.met
      filed := by
        rw [same.awaitingUse, same.awaitingTearOff]
        exact balanced.orderly.filed
      noted := same.selectors ▸ balanced.orderly.noted
      told := same.selectors ▸ balanced.orderly.told }
  saturated member decl bit declared justified := by
    rw [same.appliedTo]
    exact balanced.saturated member decl bit declared justified

/-- A static use that makes no access adds nothing to the evidence. -/
theorem Balanced.withStatic_of_no_access
    (balanced : world.Balanced program live evidence) {use : StaticUse}
    (none : use.kind.access? = none) :
    world.Balanced program live (evidence.withStatic use) where
  orderly :=
    { balanced.orderly with
      usages := fun member usage stored => by
        obtain ⟨decl, declared, shape, coherent, justified⟩ :=
          balanced.orderly.usages member usage stored
        exact ⟨decl, declared, shape, coherent, fun bit applied =>
          (justified bit applied).withStatic use⟩ }
  saturated member decl bit declared justified := by
    refine balanced.saturated member decl bit declared ?_
    cases justified with
    | named other access told names accesses grants =>
        rcases told with old | rfl
        · exact .named other access old names accesses grants
        · rw [none] at accesses
          cases accesses
    | reached other told met reaches grants =>
        exact .reached other told met reaches grants

/-- What is left behind by news about members. -/
structure Learns (before after : World) (program : Program)
    (live : LiveClasses) (evidence : Evidence) (reports : List MemberReport) :
    Prop where
  balanced : after.Balanced program live evidence
  grows : Grows before after reports
  elsewhere : SameElsewhere before after

end World

open World

variable {program : Program} {world final : World} {evidence : Evidence}
  {reports : List MemberReport}

theorem World.Balanced.learns_static {live : LiveClasses}
    (balanced : world.Balanced program live evidence) {use : StaticUse}
    (registered : world.registerStatic program use = .ok (final, reports)) :
    Learns world final program live (evidence.withStatic use) reports := by
  obtain ⟨after, grows⟩ := balanced.registerStatic registered
  obtain ⟨decl, outcome, -, -, rfl, -⟩ :=
    registerStatic_consumes balanced.orderly registered
  exact ⟨after, grows, ⟨⟨rfl, rfl, rfl, rfl⟩, rfl, rfl, rfl⟩⟩

namespace Scope

theorem learns_static {scope : Scope}
    (balanced : world.Balanced program scope.live evidence) {use : StaticUse}
    (registered : scope.registerStatic program use world =
      .ok (final, reports)) :
    Learns world final program scope.live (evidence.withStatic use)
      reports := by
  unfold Scope.registerStatic at registered
  cases scope with
  | resolution =>
      dsimp only at registered
      split at registered
      · cases registered
      · exact balanced.learns_static registered
  | codegen closed =>
      dsimp only at registered
      split at registered
      · split at registered
        · rename_i isInlining
          obtain ⟨rfl, rfl⟩ := Prod.mk.inj (Except.ok.inj registered)
          have noAccess : use.kind.access? = none := by rw [isInlining]; rfl
          have same : SameMembers world
              { world with inlined := world.inlined.insert use.member } :=
            ⟨rfl, rfl, rfl, rfl⟩
          exact ⟨(balanced.withStatic_of_no_access noAccess).of_sameMembers same,
            .of_same_usage rfl, ⟨⟨rfl, rfl, rfl, rfl⟩, rfl, rfl, rfl⟩⟩
        · exact balanced.learns_static registered
      · rw [bind_eq_ok_iff] at registered
        obtain ⟨display, -, impossible⟩ := registered
        cases impossible

theorem devirtualize_same {closed : ClosedWorld} {use : DynamicUse}
    (devirtualized : devirtualize closed program use world = .ok final) :
    ∃ table, final = { world with devirtualized := table } := by
  unfold devirtualize at devirtualized
  split at devirtualized
  · exact ⟨_, (Except.ok.inj devirtualized).symm⟩
  · rw [bind_eq_ok_iff] at devirtualized
    obtain ⟨target, -, devirtualized⟩ := devirtualized
    split at devirtualized
    · exact ⟨_, (pure_eq_ok_iff.1 devirtualized).symm⟩
    · exact ⟨_, (pure_eq_ok_iff.1 devirtualized).symm⟩

theorem learns_dynamic {scope : Scope}
    (balanced : world.Balanced program scope.live evidence) {use : DynamicUse}
    (registered : scope.registerDynamic program use world =
      .ok (final, reports)) :
    Learns world final program scope.live (evidence.withDynamic use)
      reports := by
  simp only [Scope.registerDynamic, bind_eq_ok_iff, Prod.exists] at registered
  obtain ⟨noted, told, registered, finished⟩ := registered
  obtain ⟨after, grows, frame⟩ := balanced.registerDynamic registered
  have elsewhere : SameElsewhere world noted := by
    rw [frame]
    exact ⟨⟨rfl, rfl, rfl, rfl⟩, rfl, rfl, rfl⟩
  cases scope with
  | resolution =>
      obtain ⟨rfl, rfl⟩ := Prod.mk.inj (pure_eq_ok_iff.1 finished)
      exact ⟨after, grows, elsewhere⟩
  | codegen closed =>
      simp only [bind_eq_ok_iff, pure_eq_ok_iff, Prod.mk.injEq] at finished
      obtain ⟨_, devirtualized, rfl, rfl⟩ := finished
      obtain ⟨table, rfl⟩ := devirtualize_same devirtualized
      have same : SameMembers noted { noted with devirtualized := table } :=
        ⟨rfl, rfl, rfl, rfl⟩
      have silent : Grows noted { noted with devirtualized := table } [] :=
        .of_same_usage rfl
      refine ⟨after.of_sameMembers same, ?_, ?_⟩
      · simpa using grows.trans silent
      · obtain ⟨⟨isChecks, closurized, used, processed⟩, classUsage, direct,
          implemented⟩ := elsewhere
        exact ⟨⟨isChecks, closurized, used, processed⟩, classUsage, direct,
          implemented⟩

end Scope

theorem Scope.registerInstantiation_within {scope : Scope}
    {type : InterfaceType} {constructor : Option MemberId}
    {flags : InstantiationFlags} {reports : List ClassReport}
    (registered : scope.registerInstantiation program type constructor flags
      world = .ok (final, reports)) :
    world.registerInstantiation program type constructor flags =
      .ok (final, reports) := by
  cases scope with
  | resolution => exact registered
  | codegen closed =>
      unfold Scope.registerInstantiation at registered
      dsimp only at registered
      rw [bind_eq_ok_iff] at registered
      obtain ⟨decl, -, registered⟩ := registered
      generalize (if decl.createsInstances flags = true then
        closed.isInstantiated type.cls else closed.isImplemented type.cls) =
          known at registered
      cases known with
      | true => exact registered
      | false =>
          obtain ⟨name, -, impossible⟩ := bind_eq_ok_iff.1 registered
          cases impossible

theorem World.Balanced.learns_class {live : LiveClasses}
    (balanced : world.Balanced program live evidence) {cls : ClassId}
    (entered : world.enterClass program live cls = .ok (final, reports)) :
    Learns world final program live (evidence.withClass program cls)
      reports := by
  obtain ⟨after, grows, frame⟩ := balanced.enterClass entered
  refine ⟨after, grows, ?_⟩
  rw [frame]
  exact ⟨⟨rfl, rfl, rfl, rfl⟩, rfl, rfl, rfl⟩

/-- What an exploration has been told about members. -/
def Evidence.ofRun (program : Program) (history : List Use)
    (entered : List ClassId) : Evidence where
  statics use := .static use ∈ history
  dynamics use := .dynamic use ∈ history
  met member decl := ∃ cls ∈ entered, program.Provides cls member decl

namespace Evidence

variable (program : Program) (history : List Use) (entered : List ClassId)

theorem ofRun_static (use : StaticUse) :
    ofRun program (history ++ [.static use]) entered =
      (ofRun program history entered).withStatic use := by
  ext member decl
  · simp [ofRun, withStatic]
  · simp [ofRun, withStatic]
  · simp [ofRun, withStatic]

theorem ofRun_dynamic (use : DynamicUse) :
    ofRun program (history ++ [.dynamic use]) entered =
      (ofRun program history entered).withDynamic use := by
  ext member decl
  · simp [ofRun, withDynamic]
  · simp [ofRun, withDynamic]
  · simp [ofRun, withDynamic]

theorem ofRun_type (use : TypeUse) :
    ofRun program (history ++ [.type use]) entered =
      ofRun program history entered := by
  ext member decl
  · simp [ofRun]
  · simp [ofRun]
  · simp [ofRun]

theorem ofRun_insert (cls : ClassId) :
    ofRun program history (entered.insert cls) =
      (ofRun program history entered).withClass program cls := by
  ext member decl
  · simp [ofRun, withClass]
  · simp [ofRun, withClass]
  · simp only [ofRun, withClass, List.mem_insert_iff, exists_eq_or_imp]
    exact or_comm

end Evidence

namespace Exploration

variable {σ : Type} {setting : Setting σ} {routine : Routine}

/-- The world knows about members what the history and the entered classes
justify. -/
def Books (setting : Setting σ) (history : List Use) (e : Exploration σ) :
    Prop :=
  e.world.Balanced setting.program setting.scope.live
    (.ofRun setting.program history e.processedClasses)

theorem noticed_of_admitted {use : Use}
    (admitted : setting.strategy.admits use = true) :
    (Task.register use).noticed setting = [use] := by
  simp [Task.noticed, admitted]

/-- A change that concerns no member keeps the books. -/
theorem Books.of_sameMembers {history : List Use} {e next : Exploration σ}
    (books : Books setting history e) (same : SameMembers e.world next.world)
    (entered : next.processedClasses = e.processedClasses) :
    Books setting history next := by
  rw [Books, entered]
  exact World.Balanced.of_sameMembers books same

theorem same_of_instantiation {scope : Scope} {program : Program}
    {type : InterfaceType} {constructor : Option MemberId}
    {flags : InstantiationFlags} {world final : World}
    {reports : List ClassReport}
    (registered : scope.registerInstantiation program type constructor flags
      world = .ok (final, reports)) :
    SameMembers world final ∧ SameProgress world final := by
  have within := Scope.registerInstantiation_within registered
  rw [World.registerInstantiation_frame within]
  exact ⟨⟨rfl, rfl, rfl, rfl⟩, ⟨rfl, rfl, rfl, rfl⟩⟩

theorem Books.effect {history : List Use} {e next : Exploration σ} {task : Task}
    {tasks : List Task} (books : Books setting history e)
    (effect : Effect setting e task tasks next) :
    Books setting (history ++ task.noticed setting) next := by
  cases effect with
  | static admitted registered =>
      rw [noticed_of_admitted admitted, Books, Evidence.ofRun_static]
      exact (Scope.learns_static books registered).balanced
  | dynamic admitted registered =>
      rw [noticed_of_admitted admitted, Books, Evidence.ofRun_dynamic]
      exact (Scope.learns_dynamic books registered).balanced
  | entered entered =>
      simp only [Task.noticed, List.append_nil, Books, Evidence.ofRun_insert]
      exact (World.Balanced.learns_class books entered).balanced
  | refused refused =>
      simp only [Task.noticed, refused, Bool.false_eq_true, if_false,
        List.append_nil]
      exact books
  | creation admitted | untested admitted | test admitted | literal admitted =>
      rw [noticed_of_admitted admitted, Books, Evidence.ofRun_type]
      exact books.of_sameMembers ⟨rfl, rfl, rfl, rfl⟩ rfl
  | enlisted used | skipped used =>
      simp only [World.registerUsed, bind_eq_ok_iff, pure_eq_ok_iff] at used
      obtain ⟨decl, -, rfl⟩ := used
      simp only [Task.noticed, List.append_nil]
      exact books.of_sameMembers ⟨rfl, rfl, rfl, rfl⟩ rfl
  | instantiated registered =>
      simp only [Task.noticed, List.append_nil]
      exact books.of_sameMembers (same_of_instantiation registered).1 rfl
  | closurized | superfluous | demanded | announced | unapplied | applied
  | released =>
      simp only [Task.noticed, List.append_nil]
      exact books.of_sameMembers ⟨rfl, rfl, rfl, rfl⟩ rfl

/-- No plain task processes a member. -/
theorem Effect.processed_eq {history : List Use} {e next : Exploration σ}
    {task : Task} {tasks : List Task}
    (effect : Effect setting e task tasks next)
    (books : Books setting history e) :
    next.world.processed = e.world.processed := by
  cases effect with
  | static admitted registered =>
      exact (Scope.learns_static books registered).elsewhere.processed
  | dynamic admitted registered =>
      exact (Scope.learns_dynamic books registered).elsewhere.processed
  | entered entered =>
      exact (World.Balanced.learns_class books entered).elsewhere.processed
  | instantiated registered =>
      exact (same_of_instantiation registered).2.processed
  | enlisted used | skipped used =>
      simp only [World.registerUsed, bind_eq_ok_iff, pure_eq_ok_iff] at used
      obtain ⟨decl, -, rfl⟩ := used
      rfl
  | refused | creation | test | untested | literal | superfluous | demanded
  | closurized | announced | unapplied | applied | released => rfl

/-- Only putting a member into the queue notes it as used. -/
theorem Effect.used_eq {history : List Use} {e next : Exploration σ}
    {task : Task} {tasks : List Task}
    (effect : Effect setting e task tasks next)
    (books : Books setting history e)
    (notEnlisting : ∀ member, task ≠ .enlist member) :
    next.world.used = e.world.used := by
  cases effect with
  | static admitted registered =>
      exact (Scope.learns_static books registered).elsewhere.used
  | dynamic admitted registered =>
      exact (Scope.learns_dynamic books registered).elsewhere.used
  | entered entered =>
      exact (World.Balanced.learns_class books entered).elsewhere.used
  | instantiated registered => exact (same_of_instantiation registered).2.used
  | enlisted | skipped => exact absurd rfl (notEnlisting _)
  | refused | creation | test | untested | literal | superfluous | demanded
  | closurized | announced | unapplied | applied | released => rfl

/-- A turn of the loop concerns no member's uses. -/
theorem Turn.sameMembers {e next : Exploration σ} {stage nextStage : Stage}
    {work : List Task} (turn : Turn setting routine e stage work nextStage next) :
    SameMembers e.world next.world ∧
      next.processedClasses = e.processedClasses := by
  cases turn <;> exact ⟨⟨rfl, rfl, rfl, rfl⟩, rfl⟩

theorem books_of_fresh {e : Exploration σ} (world : e.world = {})
    (entered : e.processedClasses = []) : Books setting [] e := by
  have fresh := balanced_empty setting.program setting.scope.live
  have nothing : Evidence.ofRun setting.program [] [] = .none := by
    simp [Evidence.ofRun, Evidence.none]
  rw [Books, world, entered, nothing]
  exact fresh

theorem Books.mem_usedSelectors_iff {history : List Use} {e : Exploration σ}
    (books : Books setting history e) (selector : Selector) :
    selector ∈ e.world.usedSelectors ↔
      ∃ constraint, .dynamic ⟨selector, constraint⟩ ∈ history := by
  rw [World.usedSelectors, Table.mem_keys_iff]
  constructor
  · rintro ⟨receivers, stored⟩
    obtain ⟨inhabited, told⟩ := books.orderly.told selector receivers stored
    obtain ⟨constraint, isReceiver⟩ := List.exists_mem_of_ne_nil _ inhabited
    exact ⟨constraint, told constraint isReceiver⟩
  · rintro ⟨constraint, told⟩
    obtain ⟨receivers, stored, -⟩ := books.orderly.noted _ told
    exact ⟨receivers, stored⟩

/-! ### Type tests -/

/-- The types tested are those of the tests in the history. -/
def Tests (setting : Setting σ) (history : List Use) (e : Exploration σ) :
    Prop :=
  ∀ tested, tested ∈ e.world.isChecks ↔ ∃ use, .type use ∈ history ∧
    use.kind.isTest setting.options = true ∧
    setting.program.unalias use.type = .ok tested

theorem Tests.kept {history news : List Use} {e next : Exploration σ}
    (tests : Tests setting history e)
    (same : next.world.isChecks = e.world.isChecks)
    (untested : ∀ use, .type use ∈ news →
      use.kind.isTest setting.options = false) :
    Tests setting (history ++ news) next := by
  intro tested
  rw [same, tests tested]
  constructor
  · rintro ⟨use, told, rest⟩
    exact ⟨use, List.mem_append_left _ told, rest⟩
  · rintro ⟨use, told, isTest, unaliased⟩
    rcases List.mem_append.1 told with old | new
    · exact ⟨use, old, isTest, unaliased⟩
    · rw [untested use new] at isTest
      cases isTest

theorem Tests.effect {history : List Use} {e next : Exploration σ} {task : Task}
    {tasks : List Task} (books : Books setting history e)
    (tests : Tests setting history e)
    (effect : Effect setting e task tasks next) :
    Tests setting (history ++ task.noticed setting) next := by
  cases effect with
  | static admitted registered =>
      exact tests.kept (Scope.learns_static books registered).elsewhere.isChecks
        (by simp [noticed_of_admitted admitted])
  | dynamic admitted registered =>
      exact tests.kept (Scope.learns_dynamic books registered).elsewhere.isChecks
        (by simp [noticed_of_admitted admitted])
  | entered entered =>
      exact tests.kept
        (World.Balanced.learns_class books entered).elsewhere.isChecks
        (by simp [Task.noticed])
  | instantiated registered =>
      exact tests.kept (same_of_instantiation registered).2.isChecks
        (by simp [Task.noticed])
  | @test use tested admitted isTest unaliased =>
      rw [noticed_of_admitted admitted]
      intro other
      simp only [List.mem_insert_iff, tests other]
      constructor
      · rintro (rfl | ⟨known, told, rest⟩)
        · exact ⟨use, by simp, isTest, unaliased⟩
        · exact ⟨known, List.mem_append_left _ told, rest⟩
      · rintro ⟨known, told, knownTest, knownUnaliased⟩
        rcases List.mem_append.1 told with old | new
        · exact .inr ⟨known, old, knownTest, knownUnaliased⟩
        · obtain rfl : known = use := by simpa using new
          rw [unaliased] at knownUnaliased
          exact .inl (Except.ok.inj knownUnaliased).symm
  | @creation use type flags admitted creates isInterface =>
      refine tests.kept rfl ?_
      rw [noticed_of_admitted admitted]
      cases kind : use.kind <;>
        simp_all [TypeUseKind.creation?, TypeUseKind.isTest]
  | untested admitted isUntested =>
      exact tests.kept rfl (by simp [noticed_of_admitted admitted,
        TypeUseKind.isTest, isUntested])
  | literal admitted isLiteral =>
      exact tests.kept rfl (by simp [noticed_of_admitted admitted,
        TypeUseKind.isTest, isLiteral])
  | refused refused => exact tests.kept rfl (by simp [Task.noticed, refused])
  | enlisted used | skipped used =>
      simp only [World.registerUsed, bind_eq_ok_iff, pure_eq_ok_iff] at used
      obtain ⟨decl, -, rfl⟩ := used
      exact tests.kept rfl (by simp [Task.noticed])
  | closurized | superfluous | demanded | announced | unapplied | applied
  | released => exact tests.kept rfl (by simp [Task.noticed])

theorem Tests.turn {history : List Use} {e next : Exploration σ}
    {stage nextStage : Stage} {work : List Task}
    (tests : Tests setting history e)
    (turn : Turn setting routine e stage work nextStage next) :
    Tests setting history next := by
  cases turn <;> exact tests

end Exploration

end TreeShaking
