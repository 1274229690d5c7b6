import TreeShaking.Proofs.Answers
import TreeShaking.Proofs.Findings
import TreeShaking.Proofs.ReceiverSets

/-!
# The sweep finds nothing

The sweep enters every class that has instances once more for show.  Between
operations all of these have been entered, and a member that has been met has all
the uses that the selectors grant to it.  So there is nothing left that entering
its class could consume, and the sweep has no findings.

It need not come to a result, though.  The sweep compares each member with all
selectors of its name, also where the exploration was spared this: a call that
comes up later is not compared with a member that waits only for a tear-off.  If
such a question has no answer (`DynamicUse.Baffles`), then the sweep fails.
-/

namespace TreeShaking

open Outcome

/-! ### Questions without an answer -/

/-- The reasons for which it cannot be told whether a dynamic use reaches a member
of its name: the parameters of the member cannot be counted, or the receiver is of
a class that is not in the table. -/
inductive DynamicUse.Baffles (program : Program) (live : LiveClasses)
    (use : DynamicUse) (decl : MemberDecl) : Failure → Prop
  | parameters
      (uncounted : use.selector.appliesTo decl = .error .positionalOverflow) :
      Baffles program live use decl .positionalOverflow
  | receiver {cls : ClassId}
      (applies : use.selector.appliesTo decl = .ok true)
      (isExact : use.constraint = .exact cls) (counts : isLive live cls = true)
      (absent : program.classes.size ≤ cls.index) :
      Baffles program live use decl
        (.outOfBounds program.classes.size cls.index)

variable {program : Program} {live : LiveClasses} {failure : Failure}

namespace World

variable {world : World} {evidence : Evidence} {cls : ClassId}
  {member : MemberId} {decl : MemberDecl}

/-- If it cannot be told whether a selector reaches a member, then one of the
uses with this selector is to blame. -/
theorem exists_baffles_of_reaches (drafted : program.Drafted)
    (provides : program.Provides cls member decl) {selector : Selector}
    {receivers : ReceiverSet} (told : receivers.effective ≠ [])
    (failed : reaches selector
      (fun declarer => receivers.canHit program live declarer) decl =
        .error failure) :
    ∃ constraint ∈ receivers.effective,
      DynamicUse.Baffles program live ⟨selector, constraint⟩ decl failure := by
  obtain ⟨declarer, classDecl, owner, fetched⟩ :=
    drafted.exists_owner_of_provides provides
  unfold reaches at failed
  rw [owner] at failed
  rcases bind_eq_error_iff.1 failed with uncounted | ⟨answer, applies, missed⟩
  · obtain ⟨constraint, counts⟩ := List.exists_mem_of_ne_nil _ told
    obtain rfl := Selector.eq_positionalOverflow_of_appliesTo uncounted
    exact ⟨constraint, counts, .parameters uncounted⟩
  · cases answer with
    | false => cases missed
    | true =>
        change receivers.canHit program live declarer = .error failure at missed
        rw [ReceiverSet.canHit_eq] at missed
        obtain ⟨constraint, counts, fails⟩ := exists_failure_of_anyM missed
        obtain ⟨receiver, rfl, isReceiver, absent, rfl⟩ :=
          (Constraint.canHit_eq_error_iff drafted.built fetched).1 fails
        exact ⟨_, counts, .receiver applies rfl isReceiver absent⟩

theorem Orderly.exists_baffles_of_isSought
    (orderly : world.Orderly program live evidence) (drafted : program.Drafted)
    (provides : program.Provides cls member decl) {kind : SelectorKind}
    (failed : world.isSought program live kind decl = .error failure) :
    ∃ use, evidence.dynamics use ∧ use.selector.name.text = decl.name ∧
      use.Baffles program live decl failure := by
  obtain ⟨⟨selector, receivers⟩, present, fails⟩ := exists_failure_of_anyM failed
  dsimp only at fails
  split at fails
  · rename_i matching
    obtain ⟨some, told⟩ :=
      orderly.told selector receivers (Table.get?_eq_some_iff.2 present)
    obtain ⟨constraint, counts, baffles⟩ :=
      exists_baffles_of_reaches drafted provides some fails
    exact ⟨_, told constraint counts, matching.2, baffles⟩
  · cases fails

theorem isSought_of_seek {kind : SelectorKind} {usage : MemberUsage}
    (failed : world.seek program live decl kind usage = .error failure) :
    world.isSought program live kind decl = .error failure := by
  rcases bind_eq_error_iff.1 failed with failed | ⟨answer, -, impossible⟩
  · exact failed
  · cases answer <;> cases impossible

/-- Encountering a member fails only if it may still be used in a new way, and a
dynamic use of its name cannot be compared with it. -/
theorem Orderly.exists_baffles_of_encounter
    (orderly : world.Orderly program live evidence) (drafted : program.Drafted)
    (provides : program.Provides cls member decl)
    (failed : world.encounter program live member decl = .error failure) :
    (world.usageOf member decl).isFullyUsed = false ∧
      ∃ use, evidence.dynamics use ∧ use.selector.name.text = decl.name ∧
        use.Baffles program live decl failure := by
  unfold encounter at failed
  dsimp only at failed
  split at failed
  · cases failed
  · rename_i unfinished
    refine ⟨Bool.not_eq_true _ ▸ unfinished, ?_⟩
    obtain ⟨kind, usage, fails⟩ : ∃ kind usage,
        world.seek program live decl kind usage = .error failure := by
      rcases bind_eq_error_iff.1 failed with failed | ⟨read, -, failed⟩
      · exact ⟨_, _, failed⟩
      · rcases bind_eq_error_iff.1 failed with failed | ⟨invoked, -, failed⟩
        · exact ⟨_, _, failed⟩
        · rcases bind_eq_error_iff.1 failed with failed | ⟨written, -, failed⟩
          · exact ⟨_, _, failed⟩
          · cases failed
    exact orderly.exists_baffles_of_isSought drafted provides
      (isSought_of_seek fails)

theorem Orderly.exists_baffles_of_previewClass
    (orderly : world.Orderly program live evidence) (drafted : program.Drafted)
    {chain : List ClassId} (walked : program.superclassChain cls = .ok chain)
    (failed : world.previewClass program live cls = .error failure) :
    ∃ member decl, program.Provides cls member decl ∧
      (world.usageOf member decl).isFullyUsed = false ∧
      ∃ use, evidence.dynamics use ∧ use.selector.name.text = decl.name ∧
        use.Baffles program live decl failure := by
  obtain ⟨members, listed⟩ := drafted.succeeds_concreteMembers walked
  rw [previewClass, listed] at failed
  obtain ⟨inherited, present, fails⟩ := exists_failure_of_mapM failed
  have provides := (Program.provides_iff_of_concreteMembers listed).2
    ⟨inherited, present, rfl, rfl⟩
  rcases bind_eq_error_iff.1 fails with failed | ⟨outcome, -, impossible⟩
  · exact ⟨_, _, provides,
      orderly.exists_baffles_of_encounter drafted provides failed⟩
  · cases impossible

/-! ### Entering a class again -/

/-- A member that has been met consumes nothing when it is encountered again. -/
theorem Balanced.isEmpty_of_encounter
    (balanced : world.Balanced program live evidence)
    {outcome : MemberUses × MemberUsage}
    (met : evidence.met member decl)
    (encountered : world.encounter program live member decl = .ok outcome) :
    outcome.1.isEmpty = true := by
  obtain ⟨declared, -⟩ := balanced.orderly.met member decl met
  obtain ⟨granted, consumes, applied_iff⟩ :=
    balanced.orderly.encounter_consumes declared encountered
  by_contra filled
  obtain ⟨bit, reported⟩ :=
    MemberUses.isEmpty_eq_false_iff.1 (Bool.not_eq_true _ ▸ filled)
  have consumed := consumes.reported bit
  rw [reported, has_applied_usageOf] at consumed
  simp only [Bool.true_eq, Bool.and_eq_true, Bool.not_eq_true'] at consumed
  obtain ⟨isGranted, unapplied⟩ := consumed
  have applied : outcome.2.applied.has bit = true := by
    rw [consumes.applied, isGranted, Bool.or_true]
  have known : (world.appliedTo member).has bit = true := by
    rcases (applied_iff bit).1 applied with old | ⟨use, told, reaches, grants⟩
    · exact old
    · exact balanced.saturated member decl bit declared
        (.reached use told met reaches grants)
  rw [known] at unapplied
  cases unapplied

/-- Entering a class again would report no use. -/
theorem Balanced.isEmpty_of_previewClass
    (balanced : world.Balanced program live evidence)
    {reports : List MemberReport}
    (met : ∀ member decl, program.Provides cls member decl →
      evidence.met member decl)
    (previewed : world.previewClass program live cls = .ok reports) :
    ∀ report ∈ reports, report.2.isEmpty = true := by
  intro report listed
  simp only [previewClass, bind_eq_ok_iff] at previewed
  obtain ⟨members, isListed, each⟩ := previewed
  obtain ⟨inherited, present, encountered⟩ := exists_element_of_mapM each listed
  simp only [foretell, bind_eq_ok_iff, pure_eq_ok_iff, Prod.exists]
    at encountered
  obtain ⟨uses, usage, encountered, rfl⟩ := encountered
  have provides := (Program.provides_iff_of_concreteMembers isListed).2
    ⟨inherited, present, rfl, rfl⟩
  exact balanced.isEmpty_of_encounter (met _ _ provides) encountered

end World

namespace Exploration

variable {σ : Type} {setting : Setting σ} {history : List Use}
  {e : Exploration σ}

theorem Tracked.findingsIn_eq_nil (tracked : Tracked setting history [] .idle e)
    {cls : ClassId} (entered : cls ∈ e.processedClasses)
    {reports : List MemberReport}
    (previewed : e.world.previewClass setting.program setting.scope.live cls =
      .ok reports) :
    e.findingsIn setting cls = .ok [] := by
  have silent := tracked.lifecycle.books.isEmpty_of_previewClass
    (fun member decl provides => ⟨cls, entered, provides⟩) previewed
  have none : reports.filter (fun report => !report.2.isEmpty) = [] := by
    rw [List.filter_eq_nil_iff]
    intro report listed
    simp [silent report listed]
  rw [findingsIn, previewed]
  change List.mapM (missedMember setting cls)
    (reports.filter fun report => !report.2.isEmpty) = .ok []
  rw [none]
  rfl

/-- The classes that are swept have been entered. -/
theorem Tracked.entered_of_swept (tracked : Tracked setting history [] .idle e)
    {chains : List (List ClassId)}
    (walked : e.world.directClasses.mapM setting.program.superclassChain =
      .ok chains) {cls : ClassId} (swept : cls ∈ chains.flatten.eraseDups) :
    cls ∈ e.processedClasses := by
  rw [List.mem_eraseDups] at swept
  obtain ⟨chain, listed, onChain⟩ := List.mem_flatten.1 swept
  obtain ⟨lower, isDirect, isChain⟩ := exists_element_of_mapM walked listed
  obtain ⟨known, knownWalked, entered⟩ :=
    tracked.entered_of_direct (Handle.mem_ascending.1 isDirect)
  rw [isChain] at knownWalked
  obtain rfl := Except.ok.inj knownWalked
  exact entered cls onChain

/-- Between operations, the sweep has no findings. -/
theorem Tracked.findings_eq_nil (tracked : Tracked setting history [] .idle e)
    {found : List Diagnostic} (swept : e.findings setting = .ok found) :
    found = [] := by
  unfold findings at swept
  split at swept
  · exact (Except.ok.inj swept).symm
  · simp only [bind_eq_ok_iff, pure_eq_ok_iff] at swept
    obtain ⟨chains, walked, each, isEach, rfl⟩ := swept
    rw [List.flatten_eq_nil_iff]
    intro result listed
    obtain ⟨cls, isSwept, isResult⟩ := exists_element_of_mapM isEach listed
    have entered := tracked.entered_of_swept walked isSwept
    obtain ⟨reports, previewed, -⟩ := bind_eq_ok_iff.1 isResult
    rw [tracked.findingsIn_eq_nil entered previewed] at isResult
    exact (Except.ok.inj isResult).symm

/-- If the program answers what is asked, the sweep comes to a result. -/
theorem Tracked.succeeds_findings (tracked : Tracked setting history [] .idle e)
    (answers : setting.program.Answers setting.scope.live) :
    Succeeds (e.findings setting) := by
  unfold findings
  split
  · exact .ok []
  · have walked : Succeeds
        (e.world.directClasses.mapM setting.program.superclassChain) := by
      apply exists_mapM_of_forall
      intro cls isDirect
      obtain ⟨chain, isChain, -⟩ :=
        tracked.entered_of_direct (Handle.mem_ascending.1 isDirect)
      exact ⟨chain, isChain⟩
    refine walked.bind fun chains isWalked => ?_
    have each : Succeeds
        (chains.flatten.eraseDups.mapM (e.findingsIn setting)) := by
      apply exists_mapM_of_forall
      intro cls isSwept
      have entered := tracked.entered_of_swept isWalked isSwept
      have instantiated := tracked.classes.isInstantiated_of_entered entered
      obtain ⟨chain, isChain, -⟩ :=
        tracked.classes.closed.chains cls instantiated
      obtain ⟨outcome, visited⟩ :=
        World.succeeds_visitClass answers true isChain
      rw [World.visitClass_as_rehearsal] at visited
      cases previewed : e.world.previewClass setting.program
          setting.scope.live cls with
      | ok reports => exact ⟨[], tracked.findingsIn_eq_nil entered previewed⟩
      | error failure =>
          rw [previewed] at visited
          cases visited
    exact each.bind fun found _ => .pure _

/-- Between operations, the sweep fails only if a member of an entered class may
still be used in a new way, and a dynamic use of its name cannot be compared with
it. -/
theorem Tracked.exists_baffles_of_findings
    (tracked : Tracked setting history [] .idle e)
    (drafted : setting.program.Drafted)
    (failed : e.findings setting = .error failure) :
    ∃ cls ∈ e.processedClasses, ∃ member decl,
      setting.program.Provides cls member decl ∧
      (e.world.usageOf member decl).isFullyUsed = false ∧
      ∃ use, .dynamic use ∈ history ∧ use.selector.name.text = decl.name ∧
        use.Baffles setting.program setting.scope.live decl failure := by
  unfold findings at failed
  split at failed
  · cases failed
  · rcases bind_eq_error_iff.1 failed with unwalked | ⟨chains, walked, failed⟩
    · obtain ⟨cls, isDirect, fails⟩ := exists_failure_of_mapM unwalked
      obtain ⟨chain, isChain, -⟩ :=
        tracked.entered_of_direct (Handle.mem_ascending.1 isDirect)
      rw [isChain] at fails
      cases fails
    · rcases bind_eq_error_iff.1 failed with failed | ⟨found, -, impossible⟩
      · obtain ⟨cls, isSwept, fails⟩ := exists_failure_of_mapM failed
        have entered := tracked.entered_of_swept walked isSwept
        obtain ⟨chain, isChain, -⟩ := tracked.classes.closed.chains cls
          (tracked.classes.isInstantiated_of_entered entered)
        -- Without reports that are not empty, no finding has to be put into
        -- words, so only the comparison can have failed.
        cases previewed : e.world.previewClass setting.program
            setting.scope.live cls with
        | ok reports =>
            rw [tracked.findingsIn_eq_nil entered previewed] at fails
            cases fails
        | error reason =>
            rw [findingsIn, previewed] at fails
            obtain rfl := Except.error.inj fails
            exact ⟨cls, entered,
              tracked.lifecycle.books.orderly.exists_baffles_of_previewClass
                drafted isChain previewed⟩
      · cases impossible

/-- After any operations on a new exploration, also while members still wait in
the queue, the sweep finds nothing and leaves the exploration as it is.  It may
fail to come to a result, but only because it compares a member that may still be
used in a new way with a dynamic use of its name for which the question has no
answer. -/
theorem sweep_finds_nothing (drafted : setting.program.Drafted) {listener : σ}
    {cache : ImpactCache} {operations : List (Nat × Operation)}
    {final : Exploration σ}
    (performed : performAll setting operations { listener, cache } =
      .ok final) :
    final.sweep setting = .ok ([], final) ∨
    ∃ failure, final.sweep setting = .error failure ∧
      ∃ cls ∈ final.processedClasses, ∃ member decl,
        setting.program.Provides cls member decl ∧
        (final.world.usageOf member decl).isFullyUsed = false ∧
        ∃ use, .dynamic use ∈ noticedAll setting operations
            { listener, cache } ∧
          use.selector.name.text = decl.name ∧
          use.Baffles setting.program setting.scope.live decl failure := by
  have tracked := (tracked_enduring drafted.built).performAll
    (tracked_of_fresh ⟨rfl, rfl, rfl, rfl⟩) performed
  rw [List.nil_append] at tracked
  rw [sweep_eq]
  cases swept : final.findings setting with
  | ok found =>
      left
      rw [tracked.findings_eq_nil swept]
      rfl
  | error failure =>
      exact .inr ⟨failure, rfl, tracked.exists_baffles_of_findings drafted swept⟩

/-- A class with one method. -/
def sweptSteps (parameters : Parameters) : List Draft.Step := [
  .library "app",
  .cls ⟨0⟩ "A" none,
  .classMember ⟨0⟩ "foo" (.method parameters)]

def sweptProgram (parameters : Parameters) : Program where
  names := .ofTexts #["", "app", "A", "foo"]
  libraries := #[{ name := ⟨1⟩ }]
  classes := #[
    { name := ⟨2⟩, library := ⟨0⟩, superclass := none, members := [⟨0⟩] }]
  members := #[
    { name := ⟨3⟩, library := ⟨0⟩, owner := some ⟨0⟩, kind := .method
      parameters }]
  typedefs := #[]
  supertypeTable := #[[]]
  subclassTable := #[[⟨0⟩]]

theorem sweptProgram_drafted (parameters : Parameters) :
    (sweptProgram parameters).Drafted :=
  ⟨sweptSteps parameters, _, rfl, rfl⟩

def sweptSetting (parameters : Parameters) : Setting Unit where
  program := sweptProgram parameters
  scope := .resolution
  strategy := .treeShaking
  listener := .silent
  source := .table {}
  options := {}

/-- The method is named before its class has instances, so that it waits only for
a tear-off when it is called. -/
def sweptOperations (call : DynamicUse) : List (Nat × Operation) := [
  (5, .start .retaining none []),
  (20, .apply {
    statics := [⟨.general, ⟨0⟩, none⟩]
    types := [⟨.instantiation, .interface ⟨0⟩ []⟩] } none),
  (20, .apply { dynamics := [call] } none),
  (20, .forEach fun _ => [.applyItem]),
  (0, .close)]

/-- A call of the method with some arguments and some receiver. -/
def sweptCall (positional : Nat) (constraint : Constraint) : DynamicUse where
  selector := .call ⟨⟨3⟩, none⟩ { positional }
  constraint := constraint

/-- While the method still waits in the queue, the sweep finds nothing about it. -/
theorem sweep_finds_nothing_about_queued_method :
    ∃ final, performAll (sweptSetting {})
        ((sweptOperations (sweptCall 0 (.exact ⟨0⟩))).take 3)
        { listener := () } = .ok final ∧
      final.queue = [⟨0⟩] ∧
      (final.world.usageOf ⟨0⟩ (sweptProgram {}).members[0]).isFullyUsed =
        false ∧
      final.sweep (sweptSetting {}) = .ok ([], final) := by
  obtain ⟨final, performed, queued, unfinished⟩ :
      ∃ final, performAll (sweptSetting {})
          ((sweptOperations (sweptCall 0 (.exact ⟨0⟩))).take 3)
          { listener := () } = .ok final ∧
        final.queue = [⟨0⟩] ∧
        (final.world.usageOf ⟨0⟩ (sweptProgram {}).members[0]).isFullyUsed =
          false := ⟨_, rfl, rfl, rfl⟩
  refine ⟨final, performed, queued, unfinished, ?_⟩
  refine (sweep_finds_nothing (sweptProgram_drafted {}) performed).resolve_right
    ?_
  rintro ⟨failure, -, cls, -, member, decl, provides, -, use, told, -, baffles⟩
  have noticed : noticedAll (sweptSetting {})
      ((sweptOperations (sweptCall 0 (.exact ⟨0⟩))).take 3)
      { listener := (), cache := {} } = [
        .static ⟨.general, ⟨0⟩, none⟩,
        .type ⟨.instantiation, .interface ⟨0⟩ []⟩,
        .dynamic (sweptCall 0 (.exact ⟨0⟩))] := rfl
  obtain rfl : use = sweptCall 0 (.exact ⟨0⟩) := by
    rw [noticed] at told
    simpa using told
  cases baffles with
  | parameters uncounted =>
      have counted : ∃ total, decl.parameters.total = .ok total := by
        match member, provides.declared with
        | ⟨0⟩, rfl => exact ⟨_, rfl⟩
        | ⟨index + 1⟩, declared => cases declared
      obtain ⟨answer, answered⟩ := Selector.succeeds_appliesTo _ counted
      rw [answered] at uncounted
      cases uncounted
  | receiver applies isExact counts absent =>
      cases isExact
      exact absurd absent (by decide)

/-- The call is registered without a look at the method, and the run ends well.
But the sweep compares the two, and it fails if the parameters of the method are
too many to count, or if the receiver is of a class that is not in the table. -/
theorem sweep_fails_on_unanswerable_calls :
    ((sweptProgram uncountable).Drafted ∧
      ∃ final, performAll (sweptSetting uncountable)
          (sweptOperations (sweptCall 4294967295 .unconstrained))
          { listener := () } = .ok final ∧
        final.isSettled = true ∧ final.state = .closed ∧
        final.sweep (sweptSetting uncountable) = .error .positionalOverflow) ∧
    (sweptProgram {}).Drafted ∧
      ∃ final, performAll (sweptSetting {})
          (sweptOperations (sweptCall 0 (.exact ⟨7⟩)))
          { listener := () } = .ok final ∧
        final.isSettled = true ∧ final.state = .closed ∧
        final.sweep (sweptSetting {}) = .error (.outOfBounds 1 7) :=
  ⟨⟨sweptProgram_drafted _, _, rfl, rfl, rfl, rfl⟩,
    sweptProgram_drafted _, _, rfl, rfl, rfl, rfl⟩

end Exploration

end TreeShaking
