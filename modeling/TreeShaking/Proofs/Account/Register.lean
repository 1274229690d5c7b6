import TreeShaking.Proofs.Account.Basic

/-!
# Keeping the books

The three operations that tell a world about members keep its books balanced:
`Balanced.registerStatic`, `Balanced.registerDynamic` and `Balanced.enterClass`.
The last two change the usages and the files of members one at a time, by
`revise`; `Orderly.revise` is the step lemma behind both.
-/

namespace TreeShaking

open Outcome

namespace World

variable {program : Program} {live : LiveClasses} {world final : World}
  {evidence : Evidence} {reports : List MemberReport}

/-- The world with the usages and the files of another. -/
def withMembersOf (world other : World) : World :=
  { world with
    memberUsage := other.memberUsage
    awaitingUse := other.awaitingUse
    awaitingTearOff := other.awaitingTearOff }

/-- Store the usage of a member and file it accordingly. -/
def revise (world : World) (member : MemberId) (decl : MemberDecl)
    (usage : MemberUsage) : World :=
  (world.setUsage member usage).file member decl.name usage.pending

/-- What the world knows about a member's usage, stored or not. -/
theorem Orderly.usageOf (orderly : world.Orderly program live evidence)
    {member : MemberId} {decl : MemberDecl}
    (declared : program.member member = .ok decl) :
    (world.usageOf member decl).shape = decl.shape ∧
      (world.usageOf member decl).Coherent ∧
      ∀ bit, (world.usageOf member decl).applied.has bit = true →
        evidence.Justifies program live member decl bit := by
  unfold World.usageOf Table.getD
  cases stored : world.memberUsage.get? member with
  | none =>
      refine ⟨rfl, MemberUsage.coherent_start decl, fun bit applied => ?_⟩
      simp [MemberUsage.has_applied, MemberUsage.start] at applied
  | some usage =>
      obtain ⟨found, isDecl, shape, coherent, justified⟩ :=
        orderly.usages member usage stored
      rw [declared] at isDecl
      cases isDecl
      exact ⟨shape, coherent, justified⟩

theorem Orderly.revise (orderly : world.Orderly program live evidence)
    {member : MemberId} {decl : MemberDecl} {usage : MemberUsage}
    (declared : program.member member = .ok decl)
    (isInstance : decl.isInstanceMember = true)
    (shape : usage.shape = decl.shape) (coherent : usage.Coherent)
    (justified : ∀ bit, usage.applied.has bit = true →
      (evidence.withMet member decl).Justifies program live member decl bit) :
    (world.revise member decl usage).Orderly program live
      (evidence.withMet member decl) where
  usages other stored isStored := by
    simp only [World.revise, file, setUsage, Table.get?_insert] at isStored
    split at isStored
    · rename_i same
      cases isStored
      subst same
      exact ⟨decl, declared, shape, coherent, justified⟩
    · obtain ⟨found, isDecl, foundShape, foundCoherent, foundJustified⟩ :=
        orderly.usages other stored isStored
      exact ⟨found, isDecl, foundShape, foundCoherent, fun bit applied =>
        (foundJustified bit applied).withMet member decl⟩
  met other otherDecl isMet := by
    by_cases same : other = member
    · subst same
      have isDecl : otherDecl = decl := by
        rcases isMet with old | ⟨-, isDecl⟩
        · have known := (orderly.met _ _ old).1
          rw [declared] at known
          exact (Except.ok.inj known).symm
        · exact isDecl
      subst isDecl
      refine ⟨declared, isInstance, usage, ?_, ?_, ?_⟩
      · simp [World.revise, file, setUsage]
      · intro pending
        simp [World.revise, file, setUsage, MemberFile.mem_getD_place, pending]
      · intro pending
        simp [World.revise, file, setUsage, MemberFile.mem_getD_place, pending]
    · rcases isMet with old | ⟨isSame, -⟩
      · obtain ⟨known, isInstanceMember, stored, isStored, awaitsUse,
          awaitsTearOff⟩ := orderly.met _ _ old
        refine ⟨known, isInstanceMember, stored, ?_, ?_, ?_⟩
        · simpa [World.revise, file, setUsage, same] using isStored
        · simpa [World.revise, file, setUsage, MemberFile.mem_getD_place, same]
            using awaitsUse
        · simpa [World.revise, file, setUsage, MemberFile.mem_getD_place, same]
            using awaitsTearOff
      · exact absurd isSame same
  filed name other isFiled := by
    simp only [World.revise, file, setUsage, MemberFile.mem_getD_place]
      at isFiled
    by_cases placed : name = decl.name ∧ other = member
    · exact ⟨decl, .inr ⟨placed.2, rfl⟩, placed.1.symm⟩
    · simp only [if_neg placed] at isFiled
      obtain ⟨found, isMet, named⟩ := orderly.filed name other isFiled
      exact ⟨found, .inl isMet, named⟩
  noted := orderly.noted
  told := orderly.told

/-! ### Static uses -/

theorem Orderly.registerStatic (orderly : world.Orderly program live evidence)
    {use : StaticUse} {decl : MemberDecl} {granted : UseBit → Bool}
    {outcome : MemberUses × MemberUsage}
    (declared : program.member use.member = .ok decl)
    (consumes : (world.usageOf use.member decl).Consumes granted outcome)
    (justified : ∀ bit, granted bit = true →
      (evidence.withStatic use).Justifies program live use.member decl bit) :
    ((world.noteStatic use decl).setUsage use.member outcome.2).Orderly program
      live (evidence.withStatic use) where
  usages other stored isStored := by
    simp only [noteStatic, setUsage, Table.get?_insert] at isStored
    split at isStored
    · rename_i same
      cases isStored
      subst same
      obtain ⟨shape, -, known⟩ := orderly.usageOf declared
      refine ⟨decl, declared, consumes.shape.trans shape, consumes.coherent,
        fun bit applied => ?_⟩
      rw [consumes.applied bit, Bool.or_eq_true] at applied
      rcases applied with old | grant
      · exact (known bit old).withStatic use
      · exact justified bit grant
    · obtain ⟨found, isDecl, foundShape, foundCoherent, foundJustified⟩ :=
        orderly.usages other stored isStored
      exact ⟨found, isDecl, foundShape, foundCoherent, fun bit applied =>
        (foundJustified bit applied).withStatic use⟩
  met other otherDecl isMet := by
    obtain ⟨known, isInstance, stored, isStored, awaitsUse, awaitsTearOff⟩ :=
      orderly.met _ _ isMet
    refine ⟨known, isInstance, ?_⟩
    by_cases same : other = use.member
    · subst same
      have isUsage : world.usageOf use.member decl = stored := by
        simp [World.usageOf, Table.getD, isStored]
      rw [isUsage] at consumes
      exact ⟨outcome.2, by simp [setUsage],
        fun pending => awaitsUse (consumes.pending_of_pending .normal pending),
        fun pending => awaitsTearOff
          (consumes.pending_of_pending .closurizeInstance pending)⟩
    · exact ⟨stored, by simpa [setUsage, noteStatic, same] using isStored,
        awaitsUse, awaitsTearOff⟩
  filed := orderly.filed
  noted := orderly.noted
  told := orderly.told

/-- The accesses of a static use are the only ones that it justifies. -/
theorem registerStatic_consumes {use : StaticUse}
    (orderly : world.Orderly program live evidence)
    (registered : world.registerStatic program use = .ok (final, reports)) :
    ∃ decl outcome, program.member use.member = .ok decl ∧
      (world.usageOf use.member decl).Consumes
        (fun bit => (use.kind.access?).any (decl.grants · bit)) outcome ∧
      final = (world.noteStatic use decl).setUsage use.member outcome.2 ∧
      reports = [(use.member, outcome.1)] := by
  simp only [World.registerStatic, bind_eq_ok_iff, pure_eq_ok_iff,
    Prod.mk.injEq] at registered
  obtain ⟨decl, declared, isFinal, isReports⟩ := registered
  obtain ⟨shape, coherent, -⟩ := orderly.usageOf declared
  refine ⟨decl, _, declared, ?_, isFinal.symm, isReports.symm⟩
  cases use.kind.access? with
  | none => exact (MemberUsage.consumes_nothing coherent).congr fun _ => rfl
  | some access =>
      refine (MemberUsage.consumes_access coherent access).congr fun bit => ?_
      rw [shape]
      rfl

theorem Balanced.registerStatic {use : StaticUse}
    (balanced : world.Balanced program live evidence)
    (registered : world.registerStatic program use = .ok (final, reports)) :
    final.Balanced program live (evidence.withStatic use) ∧
      Grows world final reports := by
  obtain ⟨decl, outcome, declared, consumes, rfl, rfl⟩ :=
    registerStatic_consumes balanced.orderly registered
  have grows : Grows world
      ((world.noteStatic use decl).setUsage use.member outcome.2)
      [(use.member, outcome.1)] :=
    .of_consumes consumes rfl
  refine ⟨⟨balanced.orderly.registerStatic declared consumes ?_, ?_⟩, grows⟩
  · intro bit grant
    obtain ⟨access, accesses, grants⟩ := Option.any_eq_true _ _ |>.1 grant
    exact .named use access (.inr rfl) rfl accesses grants
  · intro member found bit isDecl justified
    cases justified with
    | reached other told met reaches grants =>
        exact grows.applied (balanced.saturated member found bit isDecl
          (.reached other told met reaches grants))
    | named other access told names accesses grants =>
        rcases told with old | rfl
        · exact grows.applied (balanced.saturated member found bit isDecl
            (.named other access old names accesses grants))
        · subst names
          rw [declared] at isDecl
          cases isDecl
          have now := consumes.applied bit
          simp only [accesses, Option.any_some, grants, Bool.or_true] at now
          simpa [appliedTo, setUsage] using now

/-! ### Dynamic uses -/

/-- What an operation on usages and files leaves behind: the books in order,
each new bit told once, and everything else as it was. -/
structure Revises (before after : World) (program : Program)
    (live : LiveClasses) (evidence : Evidence) (reports : List MemberReport) :
    Prop where
  orderly : after.Orderly program live evidence
  grows : Grows before after reports
  frame : after = before.withMembersOf after

theorem Revises.trans {first second third : World}
    {earlier : Evidence} {further : List MemberReport}
    (revises : Revises first second program live earlier reports)
    (thenRevises : Revises second third program live evidence further) :
    Revises first third program live evidence (reports ++ further) where
  orderly := thenRevises.orderly
  grows := revises.grows.trans thenRevises.grows
  frame := by
    rw [thenRevises.frame, revises.frame]
    rfl

/-- Examining one member that was met and is reached. -/
theorem Orderly.revise_access (orderly : world.Orderly program live evidence)
    {use : DynamicUse} (told : evidence.dynamics use) {member : MemberId}
    {decl : MemberDecl} {usage : MemberUsage} (met : evidence.met member decl)
    (reaches : use.Reaches program live decl)
    (stored : world.memberUsage.get? member = some usage) :
    Revises world
        (world.revise member decl (usage.access use.selector.kind.access).2)
        program live evidence
        [(member, (usage.access use.selector.kind.access).1)] ∧
      ∀ bit, decl.grants use.selector.kind.access bit = true →
        ((world.revise member decl
          (usage.access use.selector.kind.access).2).appliedTo member).has
            bit = true := by
  obtain ⟨declared, isInstance, -⟩ := orderly.met member decl met
  have isUsage : world.usageOf member decl = usage := by
    simp [World.usageOf, Table.getD, stored]
  obtain ⟨shape, coherent, known⟩ := orderly.usageOf declared
  rw [isUsage] at shape coherent known
  have consumes :=
    MemberUsage.consumes_access coherent use.selector.kind.access
  rw [shape] at consumes
  have fromStored : (world.usageOf member decl).Consumes
      (decl.shape.grants use.selector.kind.access)
      (usage.access use.selector.kind.access) := by
    rw [isUsage]
    exact consumes
  refine ⟨⟨?_, .of_consumes fromStored rfl, rfl⟩, ?_⟩
  · have revised := orderly.revise declared isInstance
      (consumes.shape.trans shape) consumes.coherent (fun bit applied => ?_)
    · rwa [Evidence.withMet_of_met met] at revised
    · rw [Evidence.withMet_of_met met]
      rw [consumes.applied bit, Bool.or_eq_true] at applied
      rcases applied with old | grant
      · exact known bit old
      · exact .reached use told met reaches grant
  · intro bit grant
    have now := consumes.applied bit
    rw [show decl.shape.grants use.selector.kind.access bit = true from grant,
      Bool.or_true] at now
    simpa [appliedTo, World.revise, file, setUsage] using now

/-- Examining filed members applies what the dynamic use grants to them. -/
theorem Orderly.examine {use : DynamicUse} {candidates : List MemberId}
    (orderly : world.Orderly program live evidence)
    (told : evidence.dynamics use)
    (met : ∀ member ∈ candidates, ∃ decl, evidence.met member decl ∧
      decl.name = use.selector.name.text)
    (examined : world.examine program live use candidates =
      .ok (final, reports)) :
    Revises world final program live evidence reports ∧
      ∀ member ∈ candidates, ∀ decl, evidence.met member decl →
        use.Reaches program live decl → ∀ bit,
          decl.grants use.selector.kind.access bit = true →
            (final.appliedTo member).has bit = true := by
  induction candidates generalizing world reports with
  | nil =>
      simp only [World.examine, Except.ok.injEq, Prod.mk.injEq] at examined
      obtain ⟨rfl, rfl⟩ := examined
      exact ⟨⟨orderly, .of_same_usage rfl, rfl⟩, by simp⟩
  | cons member rest ih =>
      obtain ⟨decl, isMet, named⟩ := met member (by simp)
      have restMet := fun other inRest => met other (List.mem_cons_of_mem _ inRest)
      obtain ⟨declared, -, usage, stored, -, -⟩ := orderly.met member decl isMet
      simp only [World.examine, bind_eq_ok_iff, declared, Except.ok.injEq,
        exists_eq_left', stored] at examined
      obtain ⟨reached, isReached, examined⟩ := examined
      have reaches_iff : reached = true ↔ use.Reaches program live decl := by
        constructor
        · rintro rfl
          obtain ⟨applies, hits⟩ := reaches_eq_ok_true_iff.1 isReached
          exact ⟨named.symm, applies, hits⟩
        · intro reaches
          have := reaches_eq_ok_true_iff.2 ⟨reaches.applies, reaches.hits⟩
          exact Except.ok.inj (isReached.symm.trans this)
      cases reached with
      | true =>
          simp only [bind_eq_ok_iff, pure_eq_ok_iff, Prod.exists,
            Prod.mk.injEq] at examined
          obtain ⟨_, further, examined, rfl, rfl⟩ := examined
          obtain ⟨step, applied⟩ := orderly.revise_access told isMet
            (reaches_iff.1 rfl) stored
          obtain ⟨revises, restApplied⟩ := ih step.orderly restMet examined
          refine ⟨step.trans revises, fun other listed otherDecl otherMet => ?_⟩
          intro reaches bit grant
          rcases List.mem_cons.1 listed with rfl | inRest
          · obtain rfl : otherDecl = decl := by
              have known := (orderly.met _ _ otherMet).1
              exact Except.ok.inj (known.symm.trans declared)
            exact revises.grows.applied (applied bit grant)
          · exact restApplied other inRest otherDecl otherMet reaches bit grant
      | false =>
          obtain ⟨revises, restApplied⟩ := ih orderly restMet examined
          refine ⟨revises, fun other listed otherDecl otherMet reaches => ?_⟩
          rcases List.mem_cons.1 listed with rfl | inRest
          · obtain rfl : otherDecl = decl := by
              have known := (orderly.met _ _ otherMet).1
              exact Except.ok.inj (known.symm.trans declared)
            exact absurd (reaches_iff.2 reaches) (by simp)
          · exact restApplied other inRest otherDecl otherMet reaches

/-- The world that remembers a dynamic use, before any member is examined. -/
def note (world : World) (use : DynamicUse) : World :=
  { world with
    selectors := world.selectors.insert use.selector
      ((world.selectors.getD use.selector {}).add use.constraint).2 }

theorem Orderly.note (orderly : world.Orderly program live evidence)
    (use : DynamicUse) :
    (world.note use).Orderly program live (evidence.withDynamic use) where
  usages member usage stored := by
    obtain ⟨decl, declared, shape, coherent, justified⟩ :=
      orderly.usages member usage stored
    exact ⟨decl, declared, shape, coherent, fun bit applied =>
      (justified bit applied).withDynamic use⟩
  met := orderly.met
  filed := orderly.filed
  noted other told := by
    simp only [World.note, Table.get?_insert]
    split
    · rename_i same
      refine ⟨_, rfl, ?_⟩
      rcases told with old | rfl
      · obtain ⟨receivers, stored, counts⟩ := orderly.noted other old
        rw [same] at stored
        simp only [Table.getD, stored, Option.getD_some]
        rcases counts with counts | counts
        · exact ReceiverSet.mem_effective_add_of_mem counts
        · exact .inr
            ((ReceiverSet.mem_effective_add_of_mem counts).elim id id)
      · exact ReceiverSet.added_mem_effective _ _
    · rename_i different
      rcases told with old | rfl
      · exact orderly.noted other old
      · exact absurd rfl different
  told selector receivers stored := by
    simp only [World.note, Table.get?_insert] at stored
    split at stored
    · rename_i same
      cases stored
      subst same
      refine ⟨?_, fun constraint counts => ?_⟩
      · have added := ReceiverSet.added_mem_effective
          (world.selectors.getD use.selector {}) use.constraint
        intro none
        simp [none] at added
      · rcases ReceiverSet.mem_effective_add counts with old | rfl
        · cases present : world.selectors.get? use.selector with
          | none =>
              simp [Table.getD, present, ReceiverSet.effective] at old
          | some known =>
              simp only [Table.getD, present, Option.getD_some] at old
              exact .inl ((orderly.told _ known present).2 constraint old)
        · exact .inr rfl
    · obtain ⟨inhabited, told⟩ := orderly.told selector receivers stored
      exact ⟨inhabited, fun constraint counts => .inl (told constraint counts)⟩

/-- A bit that a member can have is applied, or the member is filed for it. -/
theorem Orderly.applied_or_filed
    (orderly : world.Orderly program live evidence) {member : MemberId}
    {decl : MemberDecl} (met : evidence.met member decl) {bit : UseBit}
    (potential : decl.shape.potential.has bit = true) :
    (world.appliedTo member).has bit = true ∨
      (bit = .normal ∧ member ∈ world.awaitingUse.getD decl.name []) ∨
      (bit = .closurizeInstance ∧
        member ∈ world.awaitingTearOff.getD decl.name []) := by
  obtain ⟨declared, isInstance, usage, stored, awaitsUse, awaitsTearOff⟩ :=
    orderly.met member decl met
  have isUsage : world.usageOf member decl = usage := by
    simp [World.usageOf, Table.getD, stored]
  obtain ⟨shape, -, -⟩ := orderly.usageOf declared
  rw [isUsage] at shape
  rw [← has_applied_usageOf world member decl, isUsage,
    MemberUsage.has_applied, shape, potential]
  cases pending : usage.pending.has bit with
  | false => exact .inl rfl
  | true =>
      cases bit with
      | normal => exact .inr (.inl ⟨rfl, awaitsUse pending⟩)
      | closurizeInstance => exact .inr (.inr ⟨rfl, awaitsTearOff pending⟩)
      | closurizeStatic =>
          simp [MemberDecl.closurizeStatic_of_isInstance isInstance]
            at potential

/-- A new dynamic use, and what examining the filed members does about it. -/
theorem Balanced.registerDynamic_of_grew {use : DynamicUse}
    (balanced : world.Balanced program live evidence) {middle : World}
    {first further : List MemberReport}
    (examined : (world.note use).examine program live use
      (world.awaitingUse.getD use.selector.name.text []) = .ok (middle, first))
    (continued : if use.selector.isGetter then
        middle.examine program live use
          (middle.awaitingTearOff.getD use.selector.name.text []) =
            .ok (final, further)
      else
        final = middle ∧ further = []) :
    Revises (world.note use) final program live (evidence.withDynamic use)
        (first ++ further) ∧
      ∀ member decl, evidence.met member decl →
        use.Reaches program live decl → ∀ bit,
          decl.grants use.selector.kind.access bit = true →
            (final.appliedTo member).has bit = true := by
  have noted := balanced.orderly.note use
  have told : (evidence.withDynamic use).dynamics use := .inr rfl
  obtain ⟨revises, firstApplied⟩ := noted.examine told
    (fun member filed => noted.filed _ member (.inl filed)) examined
  -- Only a read can find a member that no longer waits for its first use.
  have second : Revises middle final program live (evidence.withDynamic use)
      further ∧ (use.selector.isGetter = true →
        ∀ member ∈ middle.awaitingTearOff.getD use.selector.name.text [],
          ∀ decl, evidence.met member decl → use.Reaches program live decl →
            ∀ bit, decl.grants use.selector.kind.access bit = true →
              (final.appliedTo member).has bit = true) := by
    split at continued
    · obtain ⟨thenRevises, applied⟩ := revises.orderly.examine told
        (fun member filed => revises.orderly.filed _ member (.inr filed))
        continued
      exact ⟨thenRevises, fun _ => applied⟩
    · rename_i noGetter
      obtain ⟨rfl, rfl⟩ := continued
      exact ⟨⟨revises.orderly, .of_same_usage rfl, rfl⟩,
        fun isGetter => absurd isGetter noGetter⟩
  obtain ⟨thenRevises, secondApplied⟩ := second
  refine ⟨revises.trans thenRevises, fun member decl met reaches bit grant => ?_⟩
  have potential := MemberShape.potential_of_grants grant
  rcases noted.applied_or_filed met potential with
    applied | ⟨rfl, filed⟩ | ⟨rfl, -⟩
  · exact (revises.grows.trans thenRevises.grows).applied applied
  · rw [← reaches.named] at filed
    exact thenRevises.grows.applied
      (firstApplied member filed decl met reaches _ grant)
  · have isGetter := Selector.isGetter_of_grants grant
    rcases revises.orderly.applied_or_filed met potential with
      applied | ⟨impossible, -⟩ | ⟨-, filed⟩
    · exact thenRevises.grows.applied applied
    · cases impossible
    · rw [← reaches.named] at filed
      exact secondApplied isGetter member filed decl met reaches _ grant

theorem registerDynamic_cases {use : DynamicUse}
    (registered : world.registerDynamic program live use =
      .ok (final, reports)) :
    (((world.selectors.getD use.selector {}).add use.constraint).1 = false ∧
        final = world.note use ∧ reports = []) ∨
      ∃ middle first further,
        (world.note use).examine program live use
          (world.awaitingUse.getD use.selector.name.text []) =
            .ok (middle, first) ∧
        (if use.selector.isGetter then
          middle.examine program live use
            (middle.awaitingTearOff.getD use.selector.name.text []) =
              .ok (final, further)
        else
          final = middle ∧ further = []) ∧
        reports = first ++ further := by
  unfold World.registerDynamic at registered
  cases grew : ((world.selectors.getD use.selector {}).add use.constraint).1 with
  | false =>
      simp only [grew, Bool.false_eq_true, if_false, pure_eq_ok_iff,
        Prod.mk.injEq] at registered
      obtain ⟨rfl, rfl⟩ := registered
      exact .inl ⟨rfl, rfl, rfl⟩
  | true =>
      simp only [grew, if_true, bind_eq_ok_iff, Prod.exists] at registered
      obtain ⟨middle, first, examined, registered⟩ := registered
      refine .inr ?_
      split at registered
      · rename_i isGetter
        simp only [bind_eq_ok_iff, pure_eq_ok_iff, Prod.exists,
          Prod.mk.injEq] at registered
        obtain ⟨_, further, continued, rfl, rfl⟩ := registered
        exact ⟨middle, first, further, examined, by rwa [if_pos isGetter], rfl⟩
      · rename_i noGetter
        simp only [pure_eq_ok_iff, Prod.mk.injEq] at registered
        obtain ⟨rfl, rfl⟩ := registered
        exact ⟨middle, first, [], examined, by simp [noGetter], by simp⟩

theorem Balanced.registerDynamic {use : DynamicUse}
    (balanced : world.Balanced program live evidence)
    (registered : world.registerDynamic program live use =
      .ok (final, reports)) :
    final.Balanced program live (evidence.withDynamic use) ∧
      Grows world final reports ∧
      final = (world.note use).withMembersOf final := by
  rcases registerDynamic_cases registered with
    ⟨same, rfl, rfl⟩ | ⟨middle, first, further, examined, continued, rfl⟩
  · refine ⟨⟨balanced.orderly.note use, ?_⟩, .of_same_usage rfl, rfl⟩
    intro member decl bit declared justified
    refine balanced.saturated member decl bit declared ?_
    cases justified with
    | named other access told names accesses grants =>
        exact .named other access told names accesses grants
    | reached other told met reaches grants =>
        rcases told with old | rfl
        · exact .reached other old met reaches grants
        -- The use is known, or an unconstrained use of the selector is.
        · obtain ⟨-, counts⟩ := ReceiverSet.mem_effective_of_not_grew same
          cases present : world.selectors.get? other.selector with
          | none =>
              simp [Table.getD, present, ReceiverSet.effective] at counts
          | some receivers =>
              simp only [Table.getD, present, Option.getD_some] at counts
              obtain ⟨-, known⟩ := balanced.orderly.told _ receivers present
              rcases counts with counts | counts
              · exact .reached other (known _ counts) met reaches grants
              · exact .reached ⟨other.selector, .unconstrained⟩
                  (known _ counts) met reaches.unconstrained grants
  · obtain ⟨revises, applied⟩ :=
      balanced.registerDynamic_of_grew examined continued
    have grows : Grows world final (first ++ further) :=
      (Grows.of_same_usage rfl : Grows world (world.note use) []).trans
        revises.grows
    refine ⟨⟨revises.orderly, ?_⟩, grows, revises.frame⟩
    intro member decl bit declared justified
    cases justified with
    | named other access told names accesses grants =>
        exact grows.applied (balanced.saturated member decl bit declared
          (.named other access told names accesses grants))
    | reached other told met reaches grants =>
        rcases told with old | rfl
        · exact grows.applied (balanced.saturated member decl bit declared
            (.reached other old met reaches grants))
        · exact applied member decl met reaches bit grants

end World

end TreeShaking
