import TreeShaking.Proofs.Account.Register

/-!
# Keeping the books when a class is entered

Entering a class compares each member that the class provides with all the
selectors used so far.  The comparison finds exactly the dynamic uses that the
world has been told (`isSought_iff`), so that a member which is met late has the
bits that it would have if it had been met first (`Balanced.encounter`).
-/

namespace TreeShaking

open Outcome

namespace Evidence

/-- A class was entered. -/
def withClass (evidence : Evidence) (program : Program) (cls : ClassId) :
    Evidence :=
  { evidence with
    met := fun member decl =>
      evidence.met member decl ∨ program.Provides cls member decl }

/-- Members were met one after the other. -/
def withInherited (evidence : Evidence) (members : List Inherited) : Evidence :=
  members.foldl
    (fun met inherited => met.withMet inherited.member inherited.decl) evidence

theorem withInherited_eq (evidence : Evidence) (members : List Inherited) :
    evidence.withInherited members =
      { evidence with
        met := fun member decl => evidence.met member decl ∨
          ∃ inherited ∈ members, inherited.member = member ∧
            inherited.decl = decl } := by
  induction members generalizing evidence with
  | nil => simp [withInherited]
  | cons head tail ih =>
      rw [withInherited, List.foldl_cons, ← withInherited, ih]
      ext member decl
      · rfl
      · rfl
      · simp only [withMet, List.mem_cons, exists_eq_or_imp, or_assoc,
          eq_comm (a := member), eq_comm (a := decl)]

theorem withInherited_eq_withClass {program : Program} {cls : ClassId}
    {members : List Inherited}
    (listed : World.concreteMembers program cls = .ok members)
    (evidence : Evidence) :
    evidence.withInherited members = evidence.withClass program cls := by
  rw [withInherited_eq, withClass]
  simp only [Program.provides_iff_of_concreteMembers listed]

end Evidence

namespace World

variable {program : Program} {live : LiveClasses} {world final : World}
  {evidence : Evidence} {reports : List MemberReport}

/-- A member is sought if a dynamic use that was told reaches it. -/
theorem Orderly.isSought_iff (orderly : world.Orderly program live evidence)
    {kind : SelectorKind} {decl : MemberDecl} {found : Bool}
    (sought : world.isSought program live kind decl = .ok found) :
    found = true ↔ ∃ use, evidence.dynamics use ∧ use.selector.kind = kind ∧
      use.Reaches program live decl := by
  constructor
  · rintro rfl
    obtain ⟨⟨selector, receivers⟩, present, passes⟩ := exists_of_anyM sought
    dsimp only at passes
    split at passes
    · rename_i matching
      obtain ⟨applies, declarer, owner, hit⟩ := reaches_eq_ok_true_iff.1 passes
      rw [ReceiverSet.canHit_eq] at hit
      obtain ⟨constraint, counts, hits⟩ := exists_of_anyM hit
      obtain ⟨-, told⟩ :=
        orderly.told selector receivers (Table.get?_eq_some_iff.2 present)
      exact ⟨⟨selector, constraint⟩, told constraint counts, matching.1,
        matching.2, applies, declarer, owner, hits⟩
    · cases passes
  · rintro ⟨use, told, rfl, reaches⟩
    cases found with
    | true => rfl
    | false =>
        exfalso
        obtain ⟨receivers, stored, counts⟩ := orderly.noted use told
        obtain ⟨declarer, owner, hits⟩ := reaches.hits
        have missed := anyM_eq_ok_false_iff.1 sought (use.selector, receivers)
          (Table.get?_eq_some_iff.1 stored)
        simp only [reaches.named, and_self, if_true,
          reaches_of_appliesTo owner reaches.applies, ReceiverSet.canHit_eq]
          at missed
        have noneHits := anyM_eq_ok_false_iff.1 missed
        rcases counts with counts | counts
        · have noHit := noneHits _ counts
          rw [hits] at noHit
          cases noHit
        · cases noneHits _ counts

theorem seek_consumes {decl : MemberDecl} {kind : SelectorKind}
    {usage : MemberUsage} {outcome : MemberUses × MemberUsage}
    (coherent : usage.Coherent)
    (sought : world.seek program live decl kind usage = .ok outcome) :
    ∃ found, world.isSought program live kind decl = .ok found ∧
      usage.Consumes
        (fun bit => found && usage.shape.grants kind.access bit) outcome := by
  simp only [seek, bind_eq_ok_iff] at sought
  obtain ⟨found, isFound, sought⟩ := sought
  refine ⟨found, isFound, ?_⟩
  cases found with
  | true =>
      simp only [if_true, pure_eq_ok_iff] at sought
      subst sought
      exact (MemberUsage.consumes_access coherent _).congr fun bit => by simp
  | false =>
      simp only [Bool.false_eq_true, if_false, pure_eq_ok_iff] at sought
      subst sought
      exact (MemberUsage.consumes_nothing coherent).congr fun bit => by
        simp [MemberUsage.nothing]

/-- The bits that the dynamic uses told so far grant to a member. -/
def Grantable (evidence : Evidence) (program : Program) (live : LiveClasses)
    (decl : MemberDecl) (bit : UseBit) : Prop :=
  ∃ use, evidence.dynamics use ∧ use.Reaches program live decl ∧
    decl.grants use.selector.kind.access bit = true

/-- Encountering a member applies what the dynamic uses grant to it. -/
theorem Orderly.encounter_consumes
    (orderly : world.Orderly program live evidence) {member : MemberId}
    {decl : MemberDecl} {outcome : MemberUses × MemberUsage}
    (declared : program.member member = .ok decl)
    (encountered : world.encounter program live member decl = .ok outcome) :
    ∃ granted, (world.usageOf member decl).Consumes granted outcome ∧
      ∀ bit, outcome.2.applied.has bit = true ↔
        (world.appliedTo member).has bit = true ∨
          Grantable evidence program live decl bit := by
  obtain ⟨shape, coherent, -⟩ := orderly.usageOf declared
  unfold World.encounter at encountered
  dsimp only at encountered
  split at encountered
  · rename_i isFull
    simp only [pure_eq_ok_iff] at encountered
    subst encountered
    refine ⟨_, MemberUsage.consumes_nothing coherent, fun bit => ?_⟩
    simp only [MemberUsage.unchanged, has_applied_usageOf]
    refine ⟨.inl, ?_⟩
    rintro (applied | ⟨use, -, -, grants⟩)
    · exact applied
    · have potential := MemberShape.potential_of_grants grants
      rw [← has_applied_usageOf world member decl]
      exact coherent.applied_of_isFullyUsed isFull (shape ▸ potential)
  · simp only [bind_eq_ok_iff, pure_eq_ok_iff, Prod.exists] at encountered
    obtain ⟨read, afterRead, reads, invoked, afterInvoke, invokes, written,
      afterWrite, writes, rfl⟩ := encountered
    obtain ⟨isRead, readSought, consumesRead⟩ := seek_consumes coherent reads
    obtain ⟨isInvoked, invokeSought, consumesInvoke⟩ :=
      seek_consumes consumesRead.coherent invokes
    obtain ⟨isWritten, writeSought, consumesWrite⟩ :=
      seek_consumes consumesInvoke.coherent writes
    refine ⟨_, (consumesRead.trans consumesInvoke).trans consumesWrite,
      fun bit => ?_⟩
    rw [consumesWrite.applied, consumesInvoke.applied, consumesRead.applied,
      has_applied_usageOf, consumesInvoke.shape, consumesRead.shape, shape]
    simp only [Bool.or_eq_true, Bool.and_eq_true, or_assoc,
      orderly.isSought_iff readSought, orderly.isSought_iff invokeSought,
      orderly.isSought_iff writeSought]
    refine or_congr_right ?_
    constructor
    · rintro (⟨⟨use, told, isKind, reaches⟩, grants⟩ |
        ⟨⟨use, told, isKind, reaches⟩, grants⟩ |
        ⟨⟨use, told, isKind, reaches⟩, grants⟩) <;>
        exact ⟨use, told, reaches, isKind ▸ grants⟩
    · rintro ⟨use, told, reaches, grants⟩
      cases isKind : use.selector.kind with
      | getter =>
          exact .inl ⟨⟨use, told, isKind, reaches⟩, isKind ▸ grants⟩
      | call =>
          exact .inr (.inl ⟨⟨use, told, isKind, reaches⟩, isKind ▸ grants⟩)
      | setter =>
          exact .inr (.inr ⟨⟨use, told, isKind, reaches⟩, isKind ▸ grants⟩)

theorem Balanced.encounter (balanced : world.Balanced program live evidence)
    {member : MemberId} {decl : MemberDecl}
    {outcome : MemberUses × MemberUsage}
    (declared : program.member member = .ok decl)
    (isInstance : decl.isInstanceMember = true)
    (encountered : world.encounter program live member decl = .ok outcome) :
    (world.revise member decl outcome.2).Balanced program live
        (evidence.withMet member decl) ∧
      Grows world (world.revise member decl outcome.2)
        [(member, outcome.1)] := by
  obtain ⟨granted, consumes, applied_iff⟩ :=
    balanced.orderly.encounter_consumes declared encountered
  obtain ⟨shape, -, known⟩ := balanced.orderly.usageOf declared
  have grows : Grows world (world.revise member decl outcome.2)
      [(member, outcome.1)] :=
    .of_consumes consumes rfl
  refine ⟨⟨balanced.orderly.revise declared isInstance
    (consumes.shape.trans shape) consumes.coherent ?_, ?_⟩, grows⟩
  · intro bit applied
    rcases (applied_iff bit).1 applied with old | ⟨use, told, reaches, grants⟩
    · rw [← has_applied_usageOf world member decl] at old
      exact (known bit old).withMet member decl
    · exact .reached use told (.inr ⟨rfl, rfl⟩) reaches grants
  · intro other otherDecl bit isDecl justified
    cases justified with
    | named use access told names accesses grants =>
        exact grows.applied (balanced.saturated other otherDecl bit isDecl
          (.named use access told names accesses grants))
    | reached use told met reaches grants =>
        rcases met with old | ⟨rfl, rfl⟩
        · exact grows.applied (balanced.saturated other otherDecl bit isDecl
            (.reached use told old reaches grants))
        · have now := (applied_iff bit).2 (.inr ⟨use, told, reaches, grants⟩)
          simpa [appliedTo, World.revise, file, setUsage] using now

theorem Balanced.visitAll {members : List Inherited}
    (balanced : world.Balanced program live evidence)
    (declared : ∀ inherited ∈ members,
      program.member inherited.member = .ok inherited.decl ∧
        inherited.decl.isInstanceMember = true)
    (encountered : world.visitAll program live false members =
      .ok (final, reports)) :
    final.Balanced program live (evidence.withInherited members) ∧
      Grows world final reports ∧ final = world.withMembersOf final := by
  induction members generalizing world evidence reports with
  | nil =>
      simp only [World.visitAll, Except.ok.injEq, Prod.mk.injEq]
        at encountered
      obtain ⟨rfl, rfl⟩ := encountered
      exact ⟨balanced, .of_same_usage rfl, rfl⟩
  | cons head tail ih =>
      simp only [World.visitAll, Bool.false_eq_true, if_false,
        bind_eq_ok_iff, pure_eq_ok_iff, Prod.exists, Prod.mk.injEq] at encountered
      obtain ⟨uses, usage, first, _, further, rest, rfl, rfl⟩ := encountered
      obtain ⟨isDecl, isInstance⟩ := declared head (by simp)
      obtain ⟨headBalanced, headGrows⟩ :=
        balanced.encounter isDecl isInstance first
      obtain ⟨tailBalanced, tailGrows, frame⟩ := ih headBalanced
        (fun inherited inTail => declared inherited (by simp [inTail])) rest
      refine ⟨tailBalanced, headGrows.trans tailGrows, ?_⟩
      rw [frame]
      rfl

theorem Balanced.enterClass {cls : ClassId}
    (balanced : world.Balanced program live evidence)
    (entered : world.enterClass program live cls = .ok (final, reports)) :
    final.Balanced program live (evidence.withClass program cls) ∧
      Grows world final reports ∧ final = world.withMembersOf final := by
  simp only [World.enterClass, visitClass, bind_eq_ok_iff] at entered
  obtain ⟨members, listed, encountered⟩ := entered
  rw [← Evidence.withInherited_eq_withClass listed]
  refine balanced.visitAll (fun inherited present => ?_) encountered
  have provides := (Program.provides_iff_of_concreteMembers listed).2
    ⟨inherited, present, rfl, rfl⟩
  exact ⟨provides.declared, provides.isInstance⟩

theorem balanced_empty (program : Program) (live : LiveClasses) :
    ({} : World).Balanced program live .none where
  orderly :=
    { usages := by simp
      met := by simp [Evidence.none]
      filed := by simp [Table.getD]
      noted := by simp [Evidence.none]
      told := by simp }
  saturated member decl bit declared justified := by
    cases justified with
    | named _ _ told => exact told.elim
    | reached _ told => exact told.elim

/-- In a balanced world a bit is applied exactly if it is justified. -/
theorem Balanced.appliedTo_iff
    (balanced : world.Balanced program live evidence) (member : MemberId)
    (bit : UseBit) :
    (world.appliedTo member).has bit = true ↔
      ∃ decl, program.member member = .ok decl ∧
        evidence.Justifies program live member decl bit := by
  constructor
  · intro applied
    cases stored : world.memberUsage.get? member with
    | none => simp [appliedTo, stored] at applied
    | some usage =>
        obtain ⟨decl, declared, -, -, justified⟩ :=
          balanced.orderly.usages member usage stored
        refine ⟨decl, declared, justified bit ?_⟩
        simpa [appliedTo, stored] using applied
  · rintro ⟨decl, declared, justified⟩
    exact balanced.saturated member decl bit declared justified

end World

end TreeShaking
