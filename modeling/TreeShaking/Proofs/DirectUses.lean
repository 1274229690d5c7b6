import TreeShaking.Proofs.DirectSearch

/-!
# Resolution by direct uses

A resolution that takes notice of direct uses only ends when the search along them
is exhausted.  Its history then consists of all the uses that the search comes
upon (`Exhausted.told_iff`), and the history determines the world.  So all other
uses in the code have no influence on the world, and nor has the order of the
queue.
-/

namespace TreeShaking

open Outcome World

namespace Problem

/-- Two problems differ at most in uses that are not direct. -/
structure SameDirectly (problem other : Problem) : Prop where
  program : other.program = problem.program
  support : other.support = problem.support
  entry : ∀ use, use ∈ other.entry.directUses ↔ use ∈ problem.entry.directUses
  bodies : ∀ member use, use ∈ (other.impactOf member).directUses ↔
    use ∈ (problem.impactOf member).directUses

variable {problem other : Problem}

theorem SameDirectly.symm (same : problem.SameDirectly other) :
    other.SameDirectly problem where
  program := same.program.symm
  support := same.support.symm
  entry use := (same.entry use).symm
  bodies member use := (same.bodies member use).symm

theorem SameDirectly.comesUpon (same : problem.SameDirectly other)
    {use : StaticUse} (found : problem.ComesUpon use) : other.ComesUpon use := by
  induction found with
  | entry listed => exact .entry ((same.entry _).2 listed)
  | helper listed => exact .helper (same.support ▸ listed)
  | body _ callable listed ih =>
      exact .body ih (same.program ▸ callable) ((same.bodies _ _).2 listed)

theorem SameDirectly.comesUpon_iff (same : problem.SameDirectly other)
    (use : StaticUse) : problem.ComesUpon use ↔ other.ComesUpon use :=
  ⟨same.comesUpon, same.symm.comesUpon⟩

end Problem

/-- Calls leave at most one mark in the usage of a field, so that no mark is
contested. -/
theorem Evidence.not_contests {evidence : Evidence} {program : Program}
    {live : LiveClasses}
    (direct : ∀ use, evidence.statics use → use.kind = .directUse)
    (dynamics : ∀ use, ¬ evidence.dynamics use) (member : MemberId)
    (mark : AccessMark) : ¬ evidence.Contests program live member mark := by
  have invoked : ∀ access, evidence.Allows program live member access →
      access = .invoke := by
    intro access allows
    cases allows with
    | named names =>
        obtain ⟨use, told, -, accesses⟩ := names
        rw [direct use told] at accesses
        exact (Option.some.inj accesses).symm
    | reached use _ told => exact absurd told (dynamics use)
  have marksRead : ∀ other,
      MemberShape.field.marks .invoke other = true → other = .read := by
    intro other marks
    cases other <;> simp_all [MemberShape.marks]
  intro contests
  obtain ⟨access, allows, marks⟩ := contests.left
  obtain ⟨rivalAccess, rival, rivalAllows, different, rivalMarks⟩ :=
    contests.rivalled
  rw [invoked access allows] at marks
  rw [invoked rivalAccess rivalAllows] at rivalMarks
  exact different ((marksRead rival rivalMarks).trans (marksRead mark marks).symm)

/-- Usages that are alike are the same if no mark is contested. -/
theorem MemberUsage.eq_of_rel {contested : AccessMark → Prop}
    {first second : Option MemberUsage}
    (alike : Option.Rel (AlikeBut contested) first second)
    (uncontested : ∀ mark, ¬ contested mark) : first = second := by
  cases alike with
  | none => rfl
  | @some usage other alike =>
      have read := alike.hasRead (uncontested .read)
      have write := alike.hasWrite (uncontested .write)
      obtain ⟨shape, pending, -, -, init, invoke, -, -⟩ := alike
      cases usage
      cases other
      simp_all

/-- Two worlds are the same, up to the order in which members are listed. -/
structure World.SameUpToOrder (first second : World) : Prop where
  usages : ∀ member,
    first.memberUsage.get? member = second.memberUsage.get? member
  used : ∀ member, member ∈ first.used ↔ member ∈ second.used
  processed : ∀ member, member ∈ first.processed ↔ member ∈ second.processed
  staticFields : ∀ member,
    member ∈ first.staticFields ↔ member ∈ second.staticFields
  elsewhere : second =
    { first with
      memberUsage := second.memberUsage
      used := second.used
      processed := second.processed
      staticFields := second.staticFields }

namespace Exploration

variable {σ : Type} {setting : Setting σ} {problem : Problem}
  {serving : σ → Bool → Prop} {seeds history : List Use} {task : Task}
  {work : List Task} {stage : Stage} {e : Exploration σ}

/-! ### A whole search -/

namespace Searching

/-- The search begins with a new exploration whose queue is opened. -/
theorem of_new (isNew : e.IsNew) (serves : serving e.listener false)
    (stored : setting.source.impactOf e.cache = problem.impactOf)
    (policy : ImpactPolicy) :
    Searching problem setting serving [] [] [] .idle
      { e with policy, state := .opened } where
  toRecorded := recorded_of_fresh
    ⟨isNew.world, isNew.queue, isNew.classes, isNew.deferred⟩
  custody := ⟨fun member _ => congrFun stored member, by simp, by simp,
    isNew.deferred⟩
  issues := (issues_of_new isNew).kept rfl rfl rfl rfl
  isOpen := by simp
  serves := ⟨false, serves⟩
  bare := by simp [IsBare, isNew.world]
  told := by simp
  planned := by simp
  seeds := by simp
  bodies := by simp [isNew.world, Stage.member?]

/-- The next operation may begin where the last one has come to an end. -/
theorem begin
    (known : Searching problem setting serving seeds history [] .idle e)
    (built : setting.program.Built) (news : List Use)
    (unconcerned : ∀ task ∈ work,
      task.isNeutral = true ∧ task.concernsClass = false)
    (unreleased : ∀ task ∈ work, task.source? = none)
    (promised : ∀ use ∈ news,
      use ∈ work.flatMap (Task.promised problem.support))
    (expected : ∀ use ∈ work.flatMap (Task.promised problem.support),
      setting.strategy.admits use = true → problem.Expects use)
    (resting : stage.member? = none) :
    Searching problem setting serving (seeds ++ news) history work stage e := by
  have begun := (recorded_enduring built).begin known.toRecorded unconcerned
    resting rfl rfl rfl
  refine
    { begun with
      custody := known.custody.begin unreleased resting
      issues := ⟨by rw [resting]; exact known.issues.issued, known.issues.used⟩
      isOpen := known.isOpen
      serves := known.serves
      bare := known.bare
      told := known.told
      planned := expected
      seeds := ?_, bodies := ?_ }
  · intro use seed admits
    rcases List.mem_append.1 seed with old | new
    · exact .inl (known.seeds use old admits).mem_history
    · exact .inr (.inl (promised use new))
  · rintro member (processed | impossible) use listed admits
    · exact .inl (known.bodies member (.inl processed) use listed
        admits).mem_history
    · rw [resting] at impossible
      cases impossible

/-- The queue may be opened, which leads to the helpers of the runtime. -/
theorem opening
    (known : Searching problem setting serving seeds history [] .idle e)
    (built : setting.program.Built) (main : Option MemberId)
    (libraries : List LibraryId) :
    Searching problem setting serving
      (seeds ++ (Backend.helperImpact problem.support).uses) history
      [.announce (.queueOpened main libraries)] .idle e := by
  refine known.begin built _ (by simp [Task.isNeutral, Task.concernsClass])
    (by simp [Task.source?]) (by simp [Task.promised]) ?_ rfl
  intro use promised _
  simp only [List.flatMap_singleton, Task.promised,
    RuntimeSupport.mem_uses_helperImpact] at promised
  obtain ⟨member, listed, rfl⟩ := promised
  exact .helper listed

/-- What is needed to begin with may be applied. -/
theorem entering
    (known : Searching problem setting serving seeds history [] .idle e)
    (follows : Follows problem setting serving) :
    Searching problem setting serving (seeds ++ problem.entry.uses) history
      [.apply problem.entry none] .idle e := by
  refine known.begin follows.built _
    (by simp [Task.isNeutral, Task.concernsClass]) (by simp [Task.source?])
    (by simp [Task.promised]) ?_ rfl
  intro use promised admits
  rw [List.flatMap_singleton] at promised
  exact Problem.expects_of_listed (fun use listed => .entry listed) promised
    (follows.strategy ▸ admits)

/-- The loop over the queue may begin. -/
theorem running
    (known : Searching problem setting serving seeds history [] .idle e)
    (built : setting.program.Built) :
    Searching problem setting serving seeds history [] .taking e := by
  have running := @begin _ _ _ _ _ _ [] .taking _ known built [] (by simp)
    (by simp) (by simp) (by simp) rfl
  rwa [List.append_nil] at running

/-- No plain task of the search is refused. -/
theorem succeeds_step
    (known : Searching problem setting serving seeds history (task :: work)
      stage e)
    (follows : Follows problem setting serving)
    (declared : ∀ use, problem.ComesUpon use →
      ∃ decl, setting.program.member use.member = .ok decl)
    (isPlain : ∀ other ∈ task :: work, other.isPlain = true) :
    Succeeds (e.step setting task) := by
  cases task with
  | register use =>
      unfold Exploration.step
      dsimp only
      split
      · rename_i admits
        have expected := known.planned use (by simp [Task.promised]) admits
        cases use with
        | static use =>
            have registers : Succeeds (setting.scope.registerStatic
                setting.program use e.world) := by
              rw [follows.scope, Scope.registerStatic,
                Problem.ComesUpon.isDirect expected]
              exact Succeeds.bind (declared use expected) fun _ _ => .pure _
            exact registers.bind fun _ _ => .pure _
        | dynamic | type => cases expected
      · exact .ok _
  | demand member => exact succeeds_demand known.isOpen member
  | enlist member =>
      exact Placed.succeeds_enlist ⟨known.lifecycle, known.issues⟩ isPlain
  | enterClass cls =>
      exact absurd List.mem_cons_self (known.enterClass_not_planned cls)
  | instantiate =>
      exact absurd List.mem_cons_self known.instantiate_not_planned
  | closurize | announce | apply | release => exact .ok _
  | command | takeNext | finish | drained | runDeferred | resume =>
      cases isPlain _ List.mem_cons_self

/-- Given enough steps, a search through declared members comes to a result. -/
theorem exists_result
    (known : Searching problem setting serving seeds history work stage e)
    (follows : Follows problem setting serving)
    (declared : ∀ use, problem.ComesUpon use →
      ∃ decl, setting.program.member use.member = .ok decl)
    (isPlain : ∀ other ∈ work, other.isPlain = true) :
    ∃ bound final, ∀ steps, bound ≤ steps →
      workOff setting steps (work ++ stage.tasks applying) e = .ok final := by
  obtain ⟨asked, serves⟩ := known.serves
  exact (searching_invariant seeds follows).exists_result
    (fun known plain => known.succeeds_step follows declared plain)
    (fun known remaining => known.custody.succeeds_turn remaining) known isPlain
    (known.toTracked.ends follows.built follows.listens serves applying isPlain)

end Searching

/-! ### The end of a search -/

/-- All that is known about a search that has come to its end. -/
structure Exhausted (problem : Problem) (setting : Setting σ)
    (serving : σ → Bool → Prop) (history : List Use) (e : Exploration σ) : Prop
    extends Searching problem setting serving
      ((Backend.helperImpact problem.support).uses ++ problem.entry.uses)
      history [] .idle e where
  queue : e.queue = []

namespace Exhausted

/-- The member of a use in the history is called, and so it has been processed if
it can be. -/
theorem processed_of_told (known : Exhausted problem setting serving history e)
    (follows : Follows problem setting serving) {use : StaticUse}
    (told : .static use ∈ history)
    (callable : problem.program.IsCallable use.member) :
    use.member ∈ e.world.processed := by
  obtain ⟨decl, declared, isNoSetter, wellFormed⟩ := callable
  rw [follows.program] at declared
  have called := (known.lifecycle.books.appliedTo_iff_called known.direct
    use.member .normal).2 ⟨rfl, ⟨use, told, rfl⟩, decl, declared, isNoSetter⟩
  rw [known.lifecycle.mem_processed_iff known.queue,
    Program.isMalformed_of_declared declared]
  exact ⟨called, wellFormed⟩

/-- The history consists of all that the search comes upon. -/
theorem told_iff (known : Exhausted problem setting serving history e)
    (follows : Follows problem setting serving) (use : StaticUse) :
    .static use ∈ history ↔ problem.ComesUpon use := by
  refine ⟨fun told => known.told _ told, fun found => ?_⟩
  have told_of_listed : ∀ {impact : Impact} {use : StaticUse},
      (∀ listed ∈ impact.uses, setting.strategy.admits listed = true →
        Covered problem history [] .idle listed) →
      use ∈ impact.directUses → .static use ∈ history := by
    intro impact use covered listed
    obtain ⟨isUse, admits⟩ := (impact.mem_directUses_iff use).1 listed
    exact (covered _ isUse (follows.strategy ▸ admits)).mem_history
  induction found with
  | entry listed =>
      exact told_of_listed (fun use isUse =>
        known.seeds use (List.mem_append_right _ isUse)) listed
  | @helper member listed =>
      have isHelper := (problem.support.mem_uses_helperImpact
        (.static ⟨.directUse, member, none⟩)).2 ⟨member, listed, rfl⟩
      exact (known.seeds _ (List.mem_append_left _ isHelper)
        (by rw [follows.strategy]; rfl)).mem_history
  | @body source use found callable listed ih =>
      have processed := known.processed_of_told follows ih callable
      exact told_of_listed (known.bodies _ (.inl processed)) listed

theorem mem_processed_iff (known : Exhausted problem setting serving history e)
    (follows : Follows problem setting serving) (member : MemberId) :
    member ∈ e.world.processed ↔ problem.LeadsTo member := by
  constructor
  · intro processed
    obtain ⟨normal, wellFormed⟩ :=
      (known.lifecycle.mem_processed_iff known.queue member).1 processed
    exact known.leadsTo_of_normal follows normal wellFormed
  · rintro ⟨⟨use, found, rfl⟩, callable⟩
    exact known.processed_of_told follows ((known.told_iff follows use).2 found)
      callable

theorem processedClasses_eq
    (known : Exhausted problem setting serving history e) :
    e.processedClasses = [] := by
  rw [List.eq_nil_iff_forall_not_mem]
  intro cls entered
  exact known.classes.not_isInstantiated known.direct cls
    (known.classes.isInstantiated_of_entered entered)

/-- What is known about the usages of members. -/
theorem usages_known (known : Exhausted problem setting serving history e) :
    e.world.Known setting.program setting.scope.live
      (.ofRun setting.program history []) := by
  have books := known.lifecycle.books
  have marks := known.marks
  rw [Books, known.processedClasses_eq] at books
  rw [Marks, known.processedClasses_eq] at marks
  exact ⟨books, marks⟩

/-- A member that the search comes upon is declared. -/
theorem declared (known : Exhausted problem setting serving history e)
    (follows : Follows problem setting serving) {use : StaticUse}
    (found : problem.ComesUpon use) :
    ∃ decl, setting.program.member use.member = .ok decl := by
  have told := (known.told_iff follows use).2 found
  have accesses : use.kind.access? = some .invoke := by
    rw [found.isDirect]
    rfl
  obtain ⟨usage, stored⟩ := (known.usages_known.stored_iff use.member).2
    (.inl ⟨.invoke, use, told, rfl, accesses⟩)
  obtain ⟨decl, declared, -⟩ :=
    known.lifecycle.books.orderly.usages use.member usage stored
  exact ⟨decl, declared⟩

/-- Only the declaration of a used member makes it a static field that is
referred to. -/
theorem mem_staticFields_iff
    (known : Exhausted problem setting serving history e) (member : MemberId) :
    member ∈ e.world.staticFields ↔
      member ∈ e.world.used ∧ setting.program.HasStaticField member := by
  rw [known.remarks.staticFields, or_iff_right]
  rintro ⟨use, told, -, refers, -⟩
  rw [known.direct.kind_eq told] at refers
  cases refers

/-- Two searches through the same direct uses end in the same world. -/
theorem sameUpToOrder {other : Problem} {otherSetting : Setting σ}
    {otherHistory : List Use} {final : Exploration σ}
    (known : Exhausted problem setting serving history e)
    (otherKnown : Exhausted other otherSetting serving otherHistory final)
    (follows : Follows problem setting serving)
    (otherFollows : Follows other otherSetting serving)
    (same : problem.SameDirectly other) :
    e.world.SameUpToOrder final.world := by
  have program : otherSetting.program = setting.program := by
    rw [← otherFollows.program, same.program, follows.program]
  have scope : otherSetting.scope = setting.scope := by
    rw [otherFollows.scope, follows.scope]
  have told : ∀ use, .static use ∈ history ↔ .static use ∈ otherHistory := by
    intro use
    rw [known.told_iff follows, otherKnown.told_iff otherFollows,
      same.comesUpon_iff]
  have evidence : Evidence.ofRun setting.program otherHistory [] =
      .ofRun setting.program history [] := by
    simp only [Evidence.ofRun, told, known.direct.not_dynamic,
      otherKnown.direct.not_dynamic]
  have otherUsages := otherKnown.usages_known
  rw [program, scope, evidence] at otherUsages
  have normal : ∀ member, (e.world.appliedTo member).normal = true ↔
      (final.world.appliedTo member).normal = true := by
    intro member
    have called := known.lifecycle.books.appliedTo_iff_called known.direct member
      .normal
    have otherCalled := otherKnown.lifecycle.books.appliedTo_iff_called
      otherKnown.direct member .normal
    simp only [MemberUses.has, told, true_and] at called
    simp only [MemberUses.has, program, true_and] at otherCalled
    rw [called, otherCalled]
  have used : ∀ member, member ∈ e.world.used ↔ member ∈ final.world.used := by
    intro member
    rw [known.queued.mem_used_iff known.lifecycle known.queue,
      otherKnown.queued.mem_used_iff otherKnown.lifecycle otherKnown.queue]
    exact normal member
  constructor
  case usages =>
      intro member
      have alike := known.usages_known.usages_alike otherUsages member
      exact MemberUsage.eq_of_rel alike (Evidence.not_contests
        (fun use isTold => known.direct.kind_eq isTold) known.direct.not_dynamic
        member)
  case used => exact used
  case processed =>
      intro member
      rw [known.lifecycle.mem_processed_iff known.queue,
        otherKnown.lifecycle.mem_processed_iff otherKnown.queue, program,
        normal member]
  case staticFields =>
      intro member
      rw [known.mem_staticFields_iff, otherKnown.mem_staticFields_iff, program,
        used member]
  case elsewhere =>
      rw [known.bare]
      exact otherKnown.bare

end Exhausted

/-- A whole run comes to the end of the search. -/
theorem exhausted_of_wholeRun {policy : ImpactPolicy} {main : Option MemberId}
    {libraries : List LibraryId} {steps : Nat} {final : Exploration σ}
    (follows : Follows problem setting serving) (isNew : e.IsNew)
    (serves : serving e.listener false)
    (stored : setting.source.impactOf e.cache = problem.impactOf)
    (performed : performAll setting
      (wholeRun policy main libraries problem.entry steps) e = .ok final) :
    ∃ history, Exhausted problem setting serving history final := by
  simp only [wholeRun, performAll, perform, bind_eq_ok_iff] at performed
  obtain ⟨opened, started, entered, applied, final, ran, finished⟩ := performed
  cases finished
  unfold start at started
  split at started
  · have opening := (Searching.of_new isNew serves stored policy).opening
      follows.built main libraries
    have isOpen := (searching_invariant _ follows).workOff opening
      (by simp [Task.isPlain]) started
    have isEntered := (searching_invariant _ follows).workOff
      (isOpen.entering follows) (by simp [Task.isPlain]) applied
    obtain ⟨known, settled⟩ := (searching_invariant _ follows).forEach
      (isEntered.running follows.built) ran
    exact ⟨_, known, queue_of_isSettled settled⟩
  · cases started

/-- Given enough steps, a whole run through declared members comes to a
result. -/
theorem exists_wholeRun {policy : ImpactPolicy} {main : Option MemberId}
    {libraries : List LibraryId} (follows : Follows problem setting serving)
    (isNew : e.IsNew) (created : e.state = .created)
    (serves : serving e.listener false)
    (stored : setting.source.impactOf e.cache = problem.impactOf)
    (declared : ∀ use, problem.ComesUpon use →
      ∃ decl, setting.program.member use.member = .ok decl) :
    ∃ bound final, ∀ steps, bound ≤ steps → performAll setting
      (wholeRun policy main libraries problem.entry steps) e = .ok final := by
  have opening := (Searching.of_new isNew serves stored policy).opening
    follows.built main libraries
  obtain ⟨openBound, opened, opens⟩ := opening.exists_result follows declared
    (by simp [Task.isPlain])
  have isOpen := (searching_invariant _ follows).workOff opening
    (by simp [Task.isPlain]) (opens openBound (Nat.le_refl _))
  obtain ⟨entryBound, entered, enters⟩ := (isOpen.entering follows).exists_result
    follows declared (by simp [Task.isPlain])
  have isEntered := (searching_invariant _ follows).workOff
    (isOpen.entering follows) (by simp [Task.isPlain])
    (enters entryBound (Nat.le_refl _))
  obtain ⟨runBound, final, runs⟩ := (isEntered.running follows.built).exists_result
    follows declared (by simp)
  refine ⟨openBound + entryBound + runBound, final, fun steps le => ?_⟩
  simp only [wholeRun, performAll, perform, bind_eq_ok_iff]
  refine ⟨opened, ?_, entered, enters steps (by omega), final,
    runs steps (by omega), rfl⟩
  rw [start, if_pos created]
  exact opens steps (by omega)

/-- A resolution that takes notice of direct uses only comes to a result exactly
if all members that it comes upon are declared.  It then has processed the members
that direct uses lead to, and knows no class, selector, type test, type literal
or tear-off.  A resolution of impacts that differ from these in other uses only
ends in the same world. -/
theorem directOnly_follows_direct_uses {setting : Setting σ} {initial : σ}
    {support : RuntimeSupport} {cache : ImpactCache} {entry : Impact}
    {policy : ImpactPolicy} {main : Option MemberId} {libraries : List LibraryId}
    (scope : setting.scope = .resolution)
    (strategy : setting.strategy = .directOnly)
    (built : setting.program.Built)
    (standard : setting.listener.Standard initial support) :
    let problem := setting.problem support cache entry
    let run := fun steps => performAll setting
      (wholeRun policy main libraries entry steps) { listener := initial, cache }
    ((∃ bound final, ∀ steps, bound ≤ steps → run steps = .ok final) ↔
      ∀ use, problem.ComesUpon use →
        ∃ decl, setting.program.member use.member = .ok decl) ∧
    ∀ steps final, run steps = .ok final →
      (∀ member, member ∈ final.processedMembers ↔ problem.LeadsTo member) ∧
      final.world.instantiatedClasses = [] ∧ final.world.directClasses = [] ∧
      final.world.implementedClasses = [] ∧ final.world.usedSelectors = [] ∧
      final.world.isChecks = [] ∧ final.world.typeLiterals = [] ∧
      final.world.closurized = [] ∧
      ∀ (otherSetting : Setting σ) (otherCache : ImpactCache)
        (otherEntry : Impact) (otherPolicy : ImpactPolicy)
        (otherMain : Option MemberId) (otherLibraries : List LibraryId)
        (otherSteps : Nat) (otherFinal : Exploration σ),
        otherSetting.scope = .resolution →
        otherSetting.strategy = .directOnly →
        otherSetting.listener = setting.listener →
        problem.SameDirectly
          (otherSetting.problem support otherCache otherEntry) →
        performAll otherSetting
            (wholeRun otherPolicy otherMain otherLibraries otherEntry otherSteps)
            { listener := initial, cache := otherCache } = .ok otherFinal →
          final.world.SameUpToOrder otherFinal.world := by
  intro problem run
  obtain ⟨serving, listens, serves⟩ := standard.serves
  have follows : Follows problem setting serving :=
    ⟨scope, strategy, rfl, built, listens⟩
  have isNew : ∀ cache,
      ({ listener := initial, cache } : Exploration σ).IsNew :=
    fun cache => ⟨⟨rfl, rfl, rfl, rfl⟩, rfl, rfl⟩
  refine ⟨⟨?_, exists_wholeRun follows (isNew cache) rfl serves rfl⟩, ?_⟩
  · rintro ⟨bound, final, ran⟩ use found
    obtain ⟨history, known⟩ := exhausted_of_wholeRun follows (isNew cache) serves
      rfl (ran bound (Nat.le_refl _))
    exact known.declared follows found
  · intro steps final ran
    obtain ⟨history, known⟩ := exhausted_of_wholeRun follows (isNew cache) serves
      rfl ran
    have bare := known.bare
    refine ⟨fun member => ?_, by rw [bare]; rfl, by rw [bare]; rfl,
      by rw [bare]; rfl, by rw [bare]; rfl, by rw [bare], by rw [bare],
      by rw [bare], ?_⟩
    · rw [processedMembers, Handle.mem_ascending]
      exact known.mem_processed_iff follows member
    · intro otherSetting otherCache otherEntry otherPolicy otherMain
        otherLibraries otherSteps otherFinal otherScope otherStrategy sameListener
        same otherRan
      have program : otherSetting.program = setting.program := same.program
      have otherFollows : Follows
          (otherSetting.problem support otherCache otherEntry) otherSetting
          serving :=
        ⟨otherScope, otherStrategy, rfl, program ▸ built,
          sameListener ▸ listens⟩
      obtain ⟨otherHistory, otherKnown⟩ := exhausted_of_wholeRun otherFollows
        (isNew otherCache) serves rfl otherRan
      exact known.sameUpToOrder otherKnown follows otherFollows same

/-- A class and six members, of which one is a setter and one is malformed. -/
def detourSteps : List Draft.Step := [
  .library "app",
  .cls ⟨0⟩ "A" none,
  .function ⟨0⟩ "main" {},
  .function ⟨0⟩ "helper" {},
  .function ⟨0⟩ "work" {},
  .classMember ⟨0⟩ "state" .setter,
  .function ⟨0⟩ "broken" {},
  .markMalformed ⟨4⟩,
  .function ⟨0⟩ "rest" {}]

def detourProgram : Program where
  names := .ofTexts
    #["", "app", "A", "main", "helper", "work", "state", "broken", "rest"]
  libraries := #[{ name := ⟨1⟩ }]
  classes := #[
    { name := ⟨2⟩, library := ⟨0⟩, superclass := none, members := [⟨3⟩] }]
  members := #[
    { name := ⟨3⟩, library := ⟨0⟩, owner := none, kind := .function
      isStatic := true },
    { name := ⟨4⟩, library := ⟨0⟩, owner := none, kind := .function
      isStatic := true },
    { name := ⟨5⟩, library := ⟨0⟩, owner := none, kind := .function
      isStatic := true },
    { name := ⟨6⟩, library := ⟨0⟩, owner := some ⟨0⟩, kind := .setter
      parameters := { required := 1 } },
    { name := ⟨7⟩, library := ⟨0⟩, owner := none, kind := .function
      isStatic := true, isMalformed := true },
    { name := ⟨8⟩, library := ⟨0⟩, owner := none, kind := .function
      isStatic := true }]
  typedefs := #[]
  supertypeTable := #[[]]
  subclassTable := #[[⟨0⟩]]

theorem detourProgram_drafted : detourProgram.Drafted :=
  ⟨detourSteps, _, rfl, rfl⟩

def detourSetting (order : QueueOrder) : Setting Backend where
  program := detourProgram
  scope := .resolution
  strategy := .directOnly
  listener := Backend.listener
  source := .cache
  options := { queueOrder := order }

/-- The setter and the malformed function call the last function. -/
def detourImpacts (main : Impact) : ImpactCache :=
  (Table.ofList [
    (⟨3⟩, { statics := [⟨.directUse, ⟨5⟩, none⟩] }),
    (⟨4⟩, { statics := [⟨.directUse, ⟨5⟩, none⟩] })]).insert ⟨0⟩ main

def detour (main : Impact) : Exploration Backend where
  listener := { support := { helpers := [⟨1⟩] } }
  cache := detourImpacts main

/-- The entry point calls the third function, the setter and the malformed
function.  It also names the last function, sends a message and creates and tests
instances, which is of no consequence. -/
def detourMain : Impact where
  statics := [⟨.directUse, ⟨2⟩, none⟩, ⟨.directUse, ⟨3⟩, none⟩,
    ⟨.general, ⟨5⟩, none⟩, ⟨.directUse, ⟨4⟩, none⟩]
  dynamics := [⟨.getter ⟨⟨8⟩, none⟩, .unconstrained⟩]
  types := [⟨.instantiation, .interface ⟨0⟩ []⟩, ⟨.isCheck, .interface ⟨0⟩ []⟩]

def detourPlainMain : Impact where
  statics := [⟨.directUse, ⟨4⟩, none⟩, ⟨.directUse, ⟨3⟩, none⟩,
    ⟨.directUse, ⟨2⟩, none⟩]

def detourEntry : Impact where
  statics := [⟨.directUse, ⟨0⟩, none⟩, ⟨.staticTearOff, ⟨5⟩, none⟩]

def detourPlainEntry : Impact where
  statics := [⟨.directUse, ⟨0⟩, none⟩]

theorem detour_sameDirectly :
    ((detourSetting .lifo).problem { helpers := [⟨1⟩] }
      (detourImpacts detourMain) detourEntry).SameDirectly
        ((detourSetting .fifo).problem { helpers := [⟨1⟩] }
          (detourImpacts detourPlainMain) detourPlainEntry) := by
  refine ⟨rfl, rfl, ?_, ?_⟩
  · simp [Setting.problem, Impact.directUses, detourEntry, detourPlainEntry]
  · intro member use
    simp only [Setting.problem, detourSetting, ImpactSource.impactOf,
      detourImpacts, Table.getD, Table.get?_insert]
    split
    · simp only [detourMain, detourPlainMain, Impact.directUses]
      grind
    · rfl

/-- Neither the uses that are not direct nor the order of the queue show in the
world, and the last function is not processed. -/
theorem directOnly_makes_no_detour :
    ∃ final otherFinal,
      performAll (detourSetting .lifo)
          (wholeRun .retaining (some ⟨0⟩) [] detourEntry 60)
          (detour detourMain) = .ok final ∧
      performAll (detourSetting .fifo)
          (wholeRun (.releasing false false) none [] detourPlainEntry 60)
          (detour detourPlainMain) = .ok otherFinal ∧
      (∀ member, member ∈ [⟨0⟩, ⟨1⟩, ⟨2⟩] ↔
        ((detourSetting .lifo).problem { helpers := [⟨1⟩] }
          (detourImpacts detourMain) detourEntry).LeadsTo member) ∧
      final.world.used = [⟨4⟩, ⟨2⟩, ⟨0⟩, ⟨1⟩] ∧
      otherFinal.world.used = [⟨2⟩, ⟨4⟩, ⟨0⟩, ⟨1⟩] ∧
      final.world.SameUpToOrder otherFinal.world := by
  obtain ⟨final, otherFinal, ran, otherRan, processed, used, otherUsed⟩ :
      ∃ final otherFinal,
        performAll (detourSetting .lifo)
            (wholeRun .retaining (some ⟨0⟩) [] detourEntry 60)
            (detour detourMain) = .ok final ∧
        performAll (detourSetting .fifo)
            (wholeRun (.releasing false false) none [] detourPlainEntry 60)
            (detour detourPlainMain) = .ok otherFinal ∧
        final.processedMembers = [⟨0⟩, ⟨1⟩, ⟨2⟩] ∧
        final.world.used = [⟨4⟩, ⟨2⟩, ⟨0⟩, ⟨1⟩] ∧
        otherFinal.world.used = [⟨2⟩, ⟨4⟩, ⟨0⟩, ⟨1⟩] :=
    ⟨_, _, rfl, rfl, rfl, rfl, rfl⟩
  obtain ⟨-, found⟩ := @directOnly_follows_direct_uses _ (detourSetting .lifo) _
    _ (detourImpacts detourMain) detourEntry .retaining (some ⟨0⟩) [] rfl rfl
    detourProgram_drafted.built (.backend { helpers := [⟨1⟩] })
  obtain ⟨leadsTo, -, -, -, -, -, -, -, sameWorld⟩ := found 60 final ran
  rw [processed] at leadsTo
  exact ⟨final, otherFinal, ran, otherRan, leadsTo, used, otherUsed,
    sameWorld (detourSetting .fifo) _ _ _ _ _ _ _ rfl rfl rfl
      detour_sameDirectly otherRan⟩

end Exploration

end TreeShaking
