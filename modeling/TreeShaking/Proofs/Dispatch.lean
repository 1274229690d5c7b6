import TreeShaking.Proofs.Faults
import TreeShaking.Proofs.Lookup
import TreeShaking.Proofs.ReceiverSets
import TreeShaking.Proofs.Run.Operations

/-!
# Dispatch in the closed world

Resolution finds members by the names of selectors, class by class; the closed
world finds targets by looking a name up in the classes that have instances of
their own.  What a registered use dispatches to is live, and among the targets
that the closed world computes for it.  Only counting the parameters of some
other member can keep the closed world from computing the targets at all.
-/

namespace TreeShaking

open Outcome World

theorem World.isMemberLive_close_iff {world : World} {member : MemberId} :
    world.close.isMemberLive member = true ↔
      ∃ bit, (world.appliedTo member).has bit = true := by
  simp only [ClosedWorld.isMemberLive, World.close, World.usedMembers,
    List.contains_iff_mem, Handle.mem_ascending, List.mem_map, List.mem_filter,
    Prod.exists, exists_and_right, exists_eq_right]
  simp only [← Table.get?_eq_some_iff, MemberUsage.hasUse, Bool.not_eq_true',
    MemberUses.isEmpty_eq_false_iff]
  cases stored : world.memberUsage.get? member with
  | none => simp [World.appliedTo, stored]
  | some usage => simp [World.appliedTo, stored]

/-- The instances of a class satisfy the constraint of a use, and its selector
leads to a member with code. -/
structure DynamicUse.Dispatches (use : DynamicUse) (program : Program)
    (receiver : ClassId) (member : MemberId) (decl : MemberDecl) : Prop where
  accepts : use.constraint.accepts program receiver = .ok true
  found : program.lookupMember receiver use.selector.name
    use.selector.isSetter = .ok (some member)
  declared : program.member member = .ok decl
  concrete : decl.isAbstract = false

namespace DynamicUse.Dispatches

variable {use : DynamicUse} {program : Program} {receiver : ClassId}
  {member : MemberId} {decl : MemberDecl} {chain : List ClassId}

/-- A use reaches what it dispatches to, in the class that declares it. -/
theorem provided (dispatches : use.Dispatches program receiver member decl)
    (drafted : program.Drafted) (distinct : program.DistinctNames)
    (walked : program.superclassChain receiver = .ok chain)
    (applies : use.selector.appliesTo decl = .ok true) :
    ∃ declarer ∈ chain, program.Provides declarer member decl ∧
      use.Reaches program none decl := by
  obtain ⟨declarer, onChain, members, candidate, declares, first, rfl⟩ :=
    drafted.origin_of_lookup walked dispatches.found
  have listed := List.mem_of_find?_eq_some first
  have origin := Program.declaredIn_of_mem declares listed
  obtain rfl : candidate.decl = decl :=
    Except.ok.inj (origin.declared.symm.trans dispatches.declared)
  -- The declaring class need not have instances of its own, but it has been
  -- entered with the receiver, and so it provides the member.
  obtain ⟨rest, walkedRest, -⟩ := Hierarchy.chain_suffix walked onChain
  have provides := drafted.provides_of_found distinct walkedRest declares first
    dispatches.concrete
  have named : candidate.name = use.selector.name := by
    have holds := List.find?_some first
    simp only [Bool.and_eq_true, beq_iff_eq] at holds
    exact holds.1
  refine ⟨declarer, onChain, provides, ?_, applies, declarer,
    drafted.owner_of_declared declares listed,
    Constraint.canHit_of_accepts drafted.built walked onChain dispatches.accepts⟩
  rw [← named, origin.named, NameTable.memberName]
  split <;> rfl

end DynamicUse.Dispatches

namespace ClosedWorld

variable {closed : ClosedWorld} {program : Program} {use : DynamicUse}
  {receiver : ClassId}

theorem targetIn_of_dispatches {member : MemberId} {decl : MemberDecl}
    (dispatches : use.Dispatches program receiver member decl)
    (applies : use.selector.appliesTo decl = .ok true)
    (live : closed.isMemberLive member = true) :
    closed.targetIn program use.selector use.constraint receiver =
      .ok (some member) := by
  obtain ⟨accepts, found, declared, concrete⟩ := dispatches
  simp only [targetIn, accepts, found, declared, applies, concrete, live, bind,
    Except.bind, pure, Except.pure, if_true, Bool.false_eq_true, if_false,
    Bool.and_self]

/-- Finding the target in a class fails only if the parameters of the member
that the use dispatches to cannot be counted. -/
theorem overflow_of_targetIn (drafted : program.Drafted) {chain : List ClassId}
    (walked : program.superclassChain receiver = .ok chain) {failure : Failure}
    (failed : closed.targetIn program use.selector use.constraint receiver =
      .error failure) :
    failure = .positionalOverflow ∧ ∃ member decl,
      use.Dispatches program receiver member decl ∧
        use.selector.appliesTo decl = .error .positionalOverflow := by
  obtain ⟨answer, accepts⟩ := Constraint.succeeds_accepts drafted.built
    (Program.cls_of_superclassChain walked) use.constraint
  obtain ⟨declared, -, inherits⟩ := drafted.exists_inheritedMembers walked
  obtain ⟨found, isFound⟩ : ∃ found, program.lookupMember receiver
      use.selector.name use.selector.isSetter = .ok found :=
    ⟨_, bind_eq_ok_iff.2 ⟨_, inherits, rfl⟩⟩
  rw [targetIn, accepts] at failed
  cases answer with
  | false => cases failed
  | true =>
      cases found with
      | none =>
          rw [isFound] at failed
          cases failed
      | some member =>
          obtain ⟨declarer, -, members, candidate, declares, first, rfl⟩ :=
            drafted.origin_of_lookup walked isFound
          have isDeclared := (Program.declaredIn_of_mem declares
            (List.mem_of_find?_eq_some first)).declared
          rw [isFound] at failed
          cases concrete : candidate.decl.isAbstract with
          | true =>
              simp [isDeclared, concrete, bind, Except.bind, pure, Except.pure]
                at failed
          | false =>
              cases applies : use.selector.appliesTo candidate.decl with
              | ok applies =>
                  simp [isDeclared, concrete, applies, bind, Except.bind, pure,
                    Except.pure] at failed
              | error reason =>
                  obtain rfl :=
                    Selector.eq_positionalOverflow_of_appliesTo applies
                  have same : failure = .positionalOverflow := by
                    simpa [isDeclared, concrete, applies, bind, Except.bind]
                      using failed.symm
                  exact ⟨same, candidate.member, candidate.decl,
                    ⟨accepts, isFound, isDeclared, concrete⟩, applies⟩

theorem mem_targetsOf {member : MemberId} {decl : MemberDecl}
    {targets : List MemberId}
    (dispatches : use.Dispatches program receiver member decl)
    (applies : use.selector.appliesTo decl = .ok true)
    (live : closed.isMemberLive member = true)
    (isDirect : receiver ∈ closed.direct)
    (computed : closed.targetsOf program use.selector use.constraint =
      .ok targets) :
    member ∈ targets := by
  simp only [targetsOf, bind_eq_ok_iff, pure_eq_ok_iff] at computed
  obtain ⟨found, each, rfl⟩ := computed
  obtain ⟨target, listed, isTarget⟩ := exists_result_of_mapM each isDirect
  rw [targetIn_of_dispatches dispatches applies live] at isTarget
  obtain rfl := Except.ok.inj isTarget
  rw [Handle.mem_ascending, List.mem_filterMap]
  exact ⟨some member, listed, rfl⟩

/-- Computing the targets fails only if the parameters of a member that the use
dispatches to in some receiver cannot be counted. -/
theorem overflow_of_targetsOf (drafted : program.Drafted)
    (walked : ∀ cls ∈ closed.direct, ∃ chain,
      program.superclassChain cls = .ok chain) {failure : Failure}
    (failed : closed.targetsOf program use.selector use.constraint =
      .error failure) :
    failure = .positionalOverflow ∧ ∃ other ∈ closed.direct, ∃ member decl,
      use.Dispatches program other member decl ∧
        use.selector.appliesTo decl = .error .positionalOverflow := by
  unfold targetsOf at failed
  cases each : closed.direct.mapM
      (closed.targetIn program use.selector use.constraint) with
  | ok found =>
      rw [each] at failed
      cases failed
  | error reason =>
      rw [each] at failed
      obtain rfl := Except.error.inj failed
      obtain ⟨other, isDirect, fails⟩ := exists_failure_of_mapM each
      obtain ⟨chain, walkedOther⟩ := walked other isDirect
      obtain ⟨same, member, decl, rest⟩ :=
        overflow_of_targetIn drafted walkedOther fails
      exact ⟨same, other, isDirect, member, decl, rest⟩

end ClosedWorld

namespace Exploration

variable {σ : Type} {setting : Setting σ} {history : List Use}
  {e : Exploration σ}

theorem Tracked.entered_of_direct (tracked : Tracked setting history [] .idle e)
    {cls : ClassId} (isDirect : cls ∈ e.world.direct) :
    ∃ chain, setting.program.superclassChain cls = .ok chain ∧
      ∀ above ∈ chain, above ∈ e.processedClasses := by
  have closed := tracked.classes.closed
  obtain ⟨chain, walked, instantiated⟩ :=
    closed.chains cls (closed.direct cls isDirect)
  exact ⟨chain, walked, fun above onChain =>
    (tracked.classes.mem_processedClasses_iff above).2
      (instantiated above onChain)⟩

/-- In a resolution, what a use in the history dispatches to is live. -/
theorem Tracked.live_of_dispatches
    (tracked : Tracked setting history [] .idle e)
    (scope : setting.scope = .resolution) (drafted : setting.program.Drafted)
    (distinct : setting.program.DistinctNames) {use : DynamicUse}
    (told : .dynamic use ∈ history) {receiver : ClassId} {member : MemberId}
    {decl : MemberDecl} (isDirect : receiver ∈ e.world.direct)
    (dispatches : use.Dispatches setting.program receiver member decl)
    (applies : use.selector.appliesTo decl = .ok true) :
    e.world.close.isMemberLive member = true := by
  obtain ⟨chain, walked, entered⟩ := tracked.entered_of_direct isDirect
  obtain ⟨declarer, onChain, provides, reaches⟩ :=
    dispatches.provided drafted distinct walked applies
  have supports := MemberDecl.supports_of_appliesTo provides.isInstance applies
  refine World.isMemberLive_close_iff.2 ⟨.normal, ?_⟩
  refine (World.Balanced.appliedTo_iff tracked.lifecycle.books member .normal).2
    ⟨decl, dispatches.declared, .reached use told
      ⟨declarer, entered declarer onChain, provides⟩ ?_ ?_⟩
  · rw [scope]
    exact reaches
  · rw [MemberDecl.grants_normal]
    exact supports

/-- Whatever a resolution has gone through, what a registered use dispatches to
in a class with instances of its own is live.  It is among the targets of the use
in the closed world, unless these cannot be computed because the parameters of
another member that the use dispatches to are too many to count.  If there is a
single target, the use dispatches to nothing else. -/
theorem performAll_dispatches_to_targets (scope : setting.scope = .resolution)
    (drafted : setting.program.Drafted)
    (distinct : setting.program.DistinctNames)
    {operations : List (Nat × Operation)} {initial : σ} {cache : ImpactCache}
    {final : Exploration σ}
    (performed : performAll setting operations { listener := initial, cache } =
      .ok final)
    {use : DynamicUse}
    (told : .dynamic use ∈ noticedAll setting operations
      { listener := initial, cache })
    {receiver : ClassId} {member : MemberId} {decl : MemberDecl}
    (isDirect : receiver ∈ final.world.close.direct)
    (dispatches : use.Dispatches setting.program receiver member decl)
    (applies : use.selector.appliesTo decl = .ok true) :
    let closed := final.world.close
    closed.isMemberLive member = true ∧
    ((∃ targets, closed.targetsOf setting.program use.selector use.constraint =
        .ok targets ∧ member ∈ targets) ∨
      closed.targetsOf setting.program use.selector use.constraint =
          .error .positionalOverflow ∧
        ∃ other ∈ closed.direct, ∃ found foundDecl,
          use.Dispatches setting.program other found foundDecl ∧
          use.selector.appliesTo foundDecl = .error .positionalOverflow) ∧
    ∀ target, closed.singleTarget? setting.program use.selector
      use.constraint = .ok (some target) → target = member := by
  intro closed
  have tracked := (tracked_enduring drafted.built).performAll
    (tracked_of_fresh ⟨rfl, rfl, rfl, rfl⟩) performed
  have direct : ∀ cls ∈ closed.direct, cls ∈ final.world.direct :=
    fun cls listed => Handle.mem_ascending.1 listed
  have live : closed.isMemberLive member = true :=
    tracked.live_of_dispatches scope drafted distinct told
      (direct receiver isDirect) dispatches applies
  refine ⟨live, ?_, fun target single => ?_⟩
  · cases computed : closed.targetsOf setting.program use.selector
        use.constraint with
    | ok targets =>
        exact .inl ⟨targets, rfl, ClosedWorld.mem_targetsOf dispatches applies
          live isDirect computed⟩
    | error failure =>
        obtain ⟨rfl, overflows⟩ := ClosedWorld.overflow_of_targetsOf drafted
          (fun cls listed => by
            obtain ⟨chain, walked, -⟩ :=
              tracked.entered_of_direct (direct cls listed)
            exact ⟨chain, walked⟩) computed
        exact .inr ⟨rfl, overflows⟩
  · simp only [ClosedWorld.singleTarget?, bind_eq_ok_iff] at single
    obtain ⟨targets, computed, isSingle⟩ := single
    have among := ClosedWorld.mem_targetsOf dispatches applies live isDirect
      computed
    split at isSingle
    · obtain rfl := Option.some.inj (pure_eq_ok_iff.1 isSingle)
      exact (List.mem_singleton.1 among).symm
    · cases pure_eq_ok_iff.1 isSingle

/-- A class and a subclass that overrides its method.  The override takes as many
arguments as there can be. -/
def overridingSteps (parameters : Parameters) : List Draft.Step := [
  .library "app",
  .cls ⟨0⟩ "A" none,
  .cls ⟨0⟩ "B" (some ⟨0⟩),
  .function ⟨0⟩ "main" {},
  .classMember ⟨0⟩ "foo" (.method parameters),
  .classMember ⟨1⟩ "foo" (.method { optional := 4294967295 })]

def overriding (parameters : Parameters) : Program where
  names := .ofTexts #["", "app", "A", "B", "main", "foo"]
  libraries := #[{ name := ⟨1⟩ }]
  classes := #[
    { name := ⟨2⟩, library := ⟨0⟩, superclass := none, members := [⟨1⟩] },
    { name := ⟨3⟩, library := ⟨0⟩, superclass := some ⟨0⟩, members := [⟨2⟩] }]
  members := #[
    { name := ⟨4⟩, library := ⟨0⟩, owner := none, kind := .function
      isStatic := true },
    { name := ⟨5⟩, library := ⟨0⟩, owner := some ⟨0⟩, kind := .method
      parameters },
    { name := ⟨5⟩, library := ⟨0⟩, owner := some ⟨1⟩, kind := .method
      parameters := { optional := 4294967295 } }]
  typedefs := #[]
  supertypeTable := #[[], [⟨0⟩]]
  subclassTable := #[[⟨0⟩, ⟨1⟩], [⟨1⟩]]

theorem overriding_drafted (parameters : Parameters) :
    (overriding parameters).Drafted :=
  ⟨overridingSteps parameters, _, rfl, rfl⟩

theorem overriding_distinctNames (parameters : Parameters) :
    (overriding parameters).DistinctNames := by
  rintro ⟨index⟩ members declares
  match index with
  | 0 =>
      obtain rfl := Except.ok.inj declares
      exact List.nodup_singleton _
  | 1 =>
      obtain rfl := Except.ok.inj declares
      exact List.nodup_singleton _
  | index + 2 => cases declares

/-- A call with as many arguments as there can be. -/
def overridingUse : DynamicUse where
  selector := .call ⟨⟨5⟩, none⟩ { positional := 4294967295 }
  constraint := .unconstrained

/-- The entry point names the overridden method, makes the call and creates
instances of both classes. -/
def overridingSetting (parameters : Parameters) : Setting Unit where
  program := overriding parameters
  scope := .resolution
  strategy := .treeShaking
  listener := .silent
  source := .table (.ofList [(⟨0⟩, {
    statics := [⟨.general, ⟨1⟩, none⟩, ⟨.superTearOff, ⟨1⟩, none⟩]
    dynamics := [overridingUse]
    types := [⟨.instantiation, .interface ⟨0⟩ []⟩,
      ⟨.instantiation, .interface ⟨1⟩ []⟩] })])
  options := {}

def overridingOperations : List (Nat × Operation) := [
  (5, .start .retaining (some ⟨0⟩) []),
  (20, .apply { statics := [⟨.general, ⟨0⟩, none⟩] } none),
  (60, .forEach fun _ => [.applyItem]),
  (0, .close)]

/-- If the overridden method takes no arguments, the override is the only
target. -/
theorem performAll_dispatches_to_override :
    ∃ final, performAll (overridingSetting {}) overridingOperations
        { listener := () } = .ok final ∧
      final.world.close.isMemberLive ⟨2⟩ = true ∧
      ∃ targets, final.world.close.targetsOf (overriding {})
        overridingUse.selector overridingUse.constraint = .ok targets ∧
          ⟨2⟩ ∈ targets := by
  obtain ⟨final, performed, direct, targets⟩ :
      ∃ final, performAll (overridingSetting {}) overridingOperations
          { listener := () } = .ok final ∧
        final.world.close.direct = [⟨0⟩, ⟨1⟩] ∧
        final.world.close.targetsOf (overriding {}) overridingUse.selector
          overridingUse.constraint = .ok [⟨2⟩] :=
    ⟨_, rfl, rfl, rfl⟩
  have told : .dynamic overridingUse ∈ noticedAll (overridingSetting {})
      overridingOperations { listener := (), cache := {} } := by
    decide +kernel
  have dispatches : overridingUse.Dispatches (overriding {}) ⟨1⟩ ⟨2⟩ _ :=
    ⟨rfl, rfl, rfl, rfl⟩
  obtain ⟨live, found, -⟩ := performAll_dispatches_to_targets rfl
    (overriding_drafted {}) (overriding_distinctNames {}) performed told
    (direct ▸ List.mem_cons_of_mem _ List.mem_cons_self) dispatches rfl
  refine ⟨final, performed, live, found.resolve_right fun overflows => ?_⟩
  cases targets.symm.trans overflows.1

/-- More parameters than can be counted. -/
def uncountable : Parameters where
  required := 4294967295
  optional := 1

/-- If the parameters of the overridden method are too many to count, the call
still dispatches to the override in the subclass, but the closed world cannot
compute its targets. -/
theorem targetsOf_override_overflows :
    (overriding uncountable).Drafted ∧
      (overriding uncountable).DistinctNames ∧
      ∃ final, performAll (overridingSetting uncountable) overridingOperations
          { listener := () } = .ok final ∧ final.isSettled = true ∧
        .dynamic overridingUse ∈ noticedAll (overridingSetting uncountable)
          overridingOperations { listener := () } ∧
        ⟨1⟩ ∈ final.world.close.direct ∧
        (∃ decl,
          overridingUse.Dispatches (overriding uncountable) ⟨1⟩ ⟨2⟩ decl ∧
            overridingUse.selector.appliesTo decl = .ok true) ∧
        final.world.close.targetsOf (overriding uncountable)
          overridingUse.selector overridingUse.constraint =
            .error .positionalOverflow := by
  refine ⟨overriding_drafted _, overriding_distinctNames _, _, rfl, rfl, ?_, ?_,
    ⟨_, ⟨rfl, rfl, rfl, rfl⟩, rfl⟩, rfl⟩
  · decide +kernel
  · decide +kernel

end Exploration

end TreeShaking
