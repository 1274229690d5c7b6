import TreeShaking.Proofs.Account.Enter

/-!
# The accesses that a usage remembers

Besides the uses that it has consumed, the usage of a member remembers how the
member was accessed.  An access raises certain marks (`MemberShape.marks`),
whatever marks there are already (`mark_access`), so that the marks do not depend
on the order of the accesses.

They do depend on which accesses are made, however.  A static use always makes
its access.  A dynamic use makes it when the member is met later, or when the
member still waits for it.  `Traced` says what is certain about the marks: those
of static uses are there, every mark has a use that accounts for it, and a member
whose ordinary use is applied has some mark.
-/

namespace TreeShaking

open Outcome

/-- The marks that accesses leave in a usage. -/
inductive AccessMark where
  | init
  | read
  | write
  | invoke
deriving DecidableEq

/-- Whether a usage has a mark. -/
def MemberUsage.mark (usage : MemberUsage) : AccessMark → Bool
  | .init => usage.hasInit
  | .read => usage.hasRead
  | .write => usage.hasWrite
  | .invoke => usage.hasInvoke

/-- Whether an access is one that a use can make. -/
def Access.isOfUse : Access → Bool
  | .read | .write | .invoke => true
  | .init | .full => false

/-- The marks that an access leaves in the usage of a member. -/
def MemberShape.marks : MemberShape → Access → AccessMark → Bool
  | .field, .read, .read | .finalField, .read, .read
  | .getter, .read, .read => true
  | .field, .invoke, .read | .finalField, .invoke, .read
  | .getter, .invoke, .read => true
  | .instanceFunction, .read, .read | .staticFunction, .read, .read => true
  | .instanceFunction, .read, .invoke | .staticFunction, .read, .invoke => true
  | .instanceFunction, .invoke, .invoke | .staticFunction, .invoke, .invoke
  | .constructor, .invoke, .invoke => true
  | .field, .write, .write | .setter, .write, .write => true
  | _, _, _ => false

theorem StaticUseKind.isOfUse_of_access? {kind : StaticUseKind} {access : Access}
    (accesses : kind.access? = some access) : access.isOfUse = true := by
  cases kind <;> cases accesses <;> rfl

theorem SelectorKind.isOfUse_access (kind : SelectorKind) :
    kind.access.isOfUse = true := by
  cases kind <;> rfl

/-- An access that can consume the ordinary use leaves a mark. -/
theorem MemberShape.exists_marks_of_grants {shape : MemberShape}
    {access : Access} (isOfUse : access.isOfUse = true)
    (grants : shape.grants access .normal = true) :
    ∃ mark, shape.marks access mark = true := by
  cases access with
  | init | full => cases isOfUse
  | read =>
      cases shape with
      | setter | constructor => cases grants
      | field | finalField | getter | instanceFunction | staticFunction =>
          exact ⟨.read, rfl⟩
  | write =>
      cases shape with
      | field | setter => exact ⟨.write, rfl⟩
      | finalField | getter | instanceFunction | staticFunction
      | constructor => cases grants
  | invoke =>
      cases shape with
      | field | finalField | getter => exact ⟨.read, rfl⟩
      | instanceFunction | staticFunction | constructor => exact ⟨.invoke, rfl⟩
      | setter => cases grants

namespace MemberUsage

@[simp]
theorem mark_start (decl : MemberDecl) (mark : AccessMark) :
    (start decl).mark mark = false := by
  cases mark <;> rfl

theorem mark_readValue (usage : MemberUsage) (mark : AccessMark) :
    usage.readValue.2.mark mark =
      (usage.mark mark || decide (mark = .read)) := by
  unfold readValue
  split
  · rename_i hasRead
    cases mark <;> simp [unchanged, MemberUsage.mark, hasRead]
  · cases mark <;> simp [consume, MemberUsage.mark]

theorem mark_useFunction (usage : MemberUsage) (mark : AccessMark) :
    usage.useFunction.2.mark mark =
      (usage.mark mark || decide (mark = .read) || decide (mark = .invoke)) := by
  unfold useFunction
  cases invoked : usage.hasInvoke <;> cases read : usage.hasRead <;>
    cases mark <;>
      simp [unchanged, consume, MemberUsage.mark, invoked, read]

theorem mark_invokeCode (usage : MemberUsage) (mark : AccessMark) :
    usage.invokeCode.2.mark mark =
      (usage.mark mark || decide (mark = .invoke)) := by
  unfold invokeCode
  split
  · rename_i invoked
    cases mark <;> simp [unchanged, MemberUsage.mark, invoked]
  · split
    · cases mark <;> simp [unchanged, MemberUsage.mark]
    · cases mark <;> simp [consume, MemberUsage.mark]

theorem mark_write (usage : MemberUsage) (mark : AccessMark) :
    usage.write.2.mark mark =
      (usage.mark mark || usage.shape.marks .write mark) := by
  unfold write
  cases shape : usage.shape with
  | field | setter =>
      dsimp only
      split
      · rename_i written
        cases mark <;>
          simp [unchanged, MemberUsage.mark, MemberShape.marks, written]
      · cases mark <;> simp [consume, MemberUsage.mark, MemberShape.marks]
  | finalField | getter | instanceFunction | staticFunction | constructor =>
      cases mark <;> simp [unchanged, MemberShape.marks]

/-- An access leaves its marks and no others, and removes none. -/
theorem mark_access (usage : MemberUsage) {access : Access}
    (isOfUse : access.isOfUse = true) (mark : AccessMark) :
    (usage.access access).2.mark mark =
      (usage.mark mark || usage.shape.marks access mark) := by
  cases access with
  | init | full => cases isOfUse
  | write => exact usage.mark_write mark
  | read =>
      unfold access read
      cases shape : usage.shape with
      | field | finalField | getter =>
          rw [mark_readValue]
          cases mark <;> rfl
      | instanceFunction | staticFunction =>
          rw [mark_useFunction]
          cases mark <;> simp [MemberShape.marks]
      | setter | constructor =>
          cases mark <;> simp [unchanged, MemberShape.marks]
  | invoke =>
      unfold access invoke
      cases shape : usage.shape with
      | field | finalField | getter =>
          rw [mark_readValue]
          cases mark <;> rfl
      | instanceFunction | staticFunction | constructor =>
          rw [mark_invokeCode]
          cases mark <;> rfl
      | setter => cases mark <;> simp [unchanged, MemberShape.marks]

/-- The marks of a usage are accounted for. -/
structure Marked (usage : MemberUsage) (allowed : Access → Prop) : Prop where
  /-- Each mark stems from an access that is allowed. -/
  accounted : ∀ mark, usage.mark mark = true →
    ∃ access, allowed access ∧ usage.shape.marks access mark = true
  /-- The ordinary use leaves a mark. -/
  shown : usage.applied.has .normal = true → ∃ mark, usage.mark mark = true

theorem marked_start (decl : MemberDecl) (allowed : Access → Prop) :
    (start decl).Marked allowed := by
  constructor
  · simp
  · simp [has_applied, start]

theorem Marked.mono {usage : MemberUsage} {allowed further : Access → Prop}
    (marked : usage.Marked allowed)
    (wider : ∀ access, allowed access → further access) :
    usage.Marked further := by
  refine ⟨fun mark isMarked => ?_, marked.shown⟩
  obtain ⟨access, isAllowed, marks⟩ := marked.accounted mark isMarked
  exact ⟨access, wider access isAllowed, marks⟩

/-- From one usage to another, marks are added for accesses that are allowed. -/
structure Advances (before after : MemberUsage) (allowed : Access → Prop) :
    Prop where
  coherent : after.Coherent
  shape : after.shape = before.shape
  kept : ∀ mark, before.mark mark = true → after.mark mark = true
  marked : before.Marked allowed → after.Marked allowed

variable {usage : MemberUsage} {allowed : Access → Prop}

theorem Advances.refl (coherent : usage.Coherent) :
    usage.Advances usage allowed :=
  ⟨coherent, rfl, fun _ => id, id⟩

theorem Advances.trans {before middle after : MemberUsage}
    (first : before.Advances middle allowed)
    (second : middle.Advances after allowed) :
    before.Advances after allowed where
  coherent := second.coherent
  shape := second.shape.trans first.shape
  kept mark isMarked := second.kept mark (first.kept mark isMarked)
  marked isMarked := second.marked (first.marked isMarked)

theorem advances_access (coherent : usage.Coherent) {access : Access}
    (isOfUse : access.isOfUse = true) (isAllowed : allowed access) :
    usage.Advances (usage.access access).2 allowed := by
  have consumes := consumes_access coherent access
  have marks := usage.mark_access isOfUse
  refine ⟨consumes.coherent, consumes.shape, fun mark isMarked => ?_, ?_⟩
  · rw [marks, isMarked, Bool.true_or]
  · intro marked
    constructor
    · intro mark isMarked
      rw [marks, Bool.or_eq_true] at isMarked
      rw [consumes.shape]
      rcases isMarked with old | new
      · exact marked.accounted mark old
      · exact ⟨access, isAllowed, new⟩
    · intro applied
      rw [consumes.applied, Bool.or_eq_true] at applied
      rcases applied with old | grants
      · obtain ⟨mark, isMarked⟩ := marked.shown old
        exact ⟨mark, by rw [marks, isMarked, Bool.true_or]⟩
      · obtain ⟨mark, isMarked⟩ :=
          MemberShape.exists_marks_of_grants isOfUse grants
        exact ⟨mark, by rw [marks, isMarked, Bool.or_true]⟩

end MemberUsage

namespace Evidence

/-- What one evidence tells, another does as well. -/
structure Within (evidence further : Evidence) : Prop where
  statics : ∀ use, evidence.statics use → further.statics use
  dynamics : ∀ use, evidence.dynamics use → further.dynamics use
  met : ∀ member decl, evidence.met member decl → further.met member decl

/-- A static use makes an access to a member. -/
def Names (evidence : Evidence) (member : MemberId) (access : Access) : Prop :=
  ∃ use, evidence.statics use ∧ use.member = member ∧
    use.kind.access? = some access

/-- Why an access to a member can have been made. -/
inductive Allows (evidence : Evidence) (program : Program) (live : LiveClasses)
    (member : MemberId) (access : Access) : Prop
  | named (names : evidence.Names member access)
  | reached (use : DynamicUse) (decl : MemberDecl) (told : evidence.dynamics use)
      (met : evidence.met member decl) (reaches : use.Reaches program live decl)
      (accesses : use.selector.kind.access = access)

variable {evidence further : Evidence} {program : Program} {live : LiveClasses}
  {member : MemberId} {access : Access}

theorem Allows.mono (allows : evidence.Allows program live member access)
    (within : evidence.Within further) :
    further.Allows program live member access := by
  cases allows with
  | named names =>
      obtain ⟨use, told, rest⟩ := names
      exact .named ⟨use, within.statics use told, rest⟩
  | reached use decl told met reaches accesses =>
      exact .reached use decl (within.dynamics use told)
        (within.met member decl met) reaches accesses

theorem within_withStatic (evidence : Evidence) (use : StaticUse) :
    evidence.Within (evidence.withStatic use) :=
  ⟨fun _ => .inl, fun _ => id, fun _ _ => id⟩

theorem within_withDynamic (evidence : Evidence) (use : DynamicUse) :
    evidence.Within (evidence.withDynamic use) :=
  ⟨fun _ => id, fun _ => .inl, fun _ _ => id⟩

theorem within_withMet (evidence : Evidence) (member : MemberId)
    (decl : MemberDecl) : evidence.Within (evidence.withMet member decl) :=
  ⟨fun _ => id, fun _ => id, fun _ _ => .inl⟩

end Evidence

namespace World

variable {program : Program} {live : LiveClasses} {world final : World}
  {evidence further : Evidence} {reports : List MemberReport}

/-- The marks in a world agree with what the world has been told. -/
structure Traced (world : World) (program : Program) (live : LiveClasses)
    (evidence : Evidence) : Prop where
  marked : ∀ member usage, world.memberUsage.get? member = some usage →
    usage.Marked (evidence.Allows program live member)
  /-- The access of a static use is remembered. -/
  named : ∀ member access, evidence.Names member access →
    ∃ usage, world.memberUsage.get? member = some usage ∧
      ∀ mark, usage.shape.marks access mark = true → usage.mark mark = true
  /-- Only members that are named or met have a usage. -/
  known : ∀ member usage, world.memberUsage.get? member = some usage →
    (∃ access, evidence.Names member access) ∨ ∃ decl, evidence.met member decl

theorem Traced.mono (traced : world.Traced program live evidence)
    (within : evidence.Within further)
    (names : ∀ member access, further.Names member access →
      evidence.Names member access)
    (same : final.memberUsage = world.memberUsage) :
    final.Traced program live further := by
  constructor
  · rw [same]
    intro member usage stored
    exact (traced.marked member usage stored).mono fun access allows =>
      allows.mono within
  · rw [same]
    intro member access isNamed
    exact traced.named member access (names member access isNamed)
  · rw [same]
    intro member usage stored
    rcases traced.known member usage stored with
      ⟨access, use, told, rest⟩ | ⟨decl, met⟩
    · exact .inl ⟨access, use, within.statics use told, rest⟩
    · exact .inr ⟨decl, within.met member decl met⟩

/-- The marks of a member advance, for an access that is named or because the
member is met. -/
theorem Traced.advance (traced : world.Traced program live evidence)
    (within : evidence.Within further) {member : MemberId} {decl : MemberDecl}
    {usage : MemberUsage} (declared : program.member member = .ok decl)
    (advances : (world.usageOf member decl).Advances usage
      (further.Allows program live member))
    (written : final.memberUsage = world.memberUsage.insert member usage)
    (names : ∀ other access, further.Names other access →
      evidence.Names other access ∨ other = member ∧
        ∀ mark, usage.shape.marks access mark = true → usage.mark mark = true)
    (known : (∃ access, further.Names member access) ∨
      ∃ decl, further.met member decl) :
    final.Traced program live further := by
  have marked : usage.Marked (further.Allows program live member) := by
    apply advances.marked
    unfold World.usageOf Table.getD
    cases stored : world.memberUsage.get? member with
    | none => exact MemberUsage.marked_start decl _
    | some old =>
        exact (traced.marked member old stored).mono fun access allows =>
          allows.mono within
  constructor
  · intro other found stored
    simp only [written, Table.get?_insert] at stored
    split at stored
    · rename_i same
      cases stored
      subst same
      exact marked
    · exact (traced.marked other found stored).mono fun access allows =>
        allows.mono within
  · intro other access isNamed
    simp only [written, Table.get?_insert]
    rcases names other access isNamed with old | ⟨rfl, remembered⟩
    · obtain ⟨found, stored, remembered⟩ := traced.named other access old
      split
      · rename_i same
        subst same
        have isUsage : world.usageOf other decl = found := by
          simp [World.usageOf, Table.getD, stored]
        rw [isUsage] at advances
        refine ⟨usage, rfl, fun mark marks => advances.kept mark ?_⟩
        exact remembered mark (advances.shape ▸ marks)
      · exact ⟨found, stored, remembered⟩
    · exact ⟨usage, by simp, remembered⟩
  · intro other found stored
    simp only [written, Table.get?_insert] at stored
    split at stored
    · rename_i same
      subst same
      exact known
    · rcases traced.known other found stored with
        ⟨access, use, told, rest⟩ | ⟨otherDecl, met⟩
      · exact .inl ⟨access, use, within.statics use told, rest⟩
      · exact .inr ⟨otherDecl, within.met other otherDecl met⟩

/-! ### Static uses -/

theorem Traced.registerStatic (traced : world.Traced program live evidence)
    (orderly : world.Orderly program live evidence) {use : StaticUse}
    {access : Access} (accesses : use.kind.access? = some access)
    (registered : world.registerStatic program use = .ok (final, reports)) :
    final.Traced program live (evidence.withStatic use) := by
  simp only [World.registerStatic, bind_eq_ok_iff, pure_eq_ok_iff,
    Prod.mk.injEq, accesses] at registered
  obtain ⟨decl, declared, rfl, -⟩ := registered
  obtain ⟨-, coherent, -⟩ := orderly.usageOf declared
  have isOfUse := StaticUseKind.isOfUse_of_access? accesses
  have isNamed : (evidence.withStatic use).Names use.member access :=
    ⟨use, .inr rfl, rfl, accesses⟩
  have advances := MemberUsage.advances_access coherent isOfUse
    (Evidence.Allows.named isNamed :
      (evidence.withStatic use).Allows program live use.member access)
  refine traced.advance (evidence.within_withStatic use) declared
    advances rfl ?_ (.inl ⟨access, isNamed⟩)
  rintro other otherAccess ⟨otherUse, told, rfl, otherAccesses⟩
  rcases told with old | rfl
  · exact .inl ⟨otherUse, old, rfl, otherAccesses⟩
  · right
    rw [accesses] at otherAccesses
    cases otherAccesses
    refine ⟨rfl, fun mark marks => ?_⟩
    rw [advances.shape] at marks
    rw [MemberUsage.mark_access _ isOfUse, marks, Bool.or_true]

/-! ### Dynamic uses -/

theorem Traced.examine {use : DynamicUse} {candidates : List MemberId}
    (traced : world.Traced program live evidence)
    (orderly : world.Orderly program live evidence)
    (told : evidence.dynamics use)
    (met : ∀ member ∈ candidates, ∃ decl, evidence.met member decl ∧
      decl.name = use.selector.name.text)
    (examined : world.examine program live use candidates =
      .ok (final, reports)) :
    final.Traced program live evidence := by
  induction candidates generalizing world reports with
  | nil =>
      simp only [World.examine, Except.ok.injEq, Prod.mk.injEq] at examined
      obtain ⟨rfl, -⟩ := examined
      exact traced
  | cons member rest ih =>
      obtain ⟨decl, isMet, named⟩ := met member (by simp)
      have restMet := fun other inRest => met other (List.mem_cons_of_mem _ inRest)
      obtain ⟨declared, -, usage, stored, -, -⟩ := orderly.met member decl isMet
      simp only [World.examine, bind_eq_ok_iff, declared, Except.ok.injEq,
        exists_eq_left', stored] at examined
      obtain ⟨reached, isReached, examined⟩ := examined
      cases reached with
      | false => exact ih traced orderly restMet examined
      | true =>
          simp only [bind_eq_ok_iff, pure_eq_ok_iff, Prod.exists,
            Prod.mk.injEq] at examined
          obtain ⟨_, further, examined, rfl, -⟩ := examined
          obtain ⟨applies, hits⟩ := reaches_eq_ok_true_iff.1 isReached
          have reaches : use.Reaches program live decl :=
            ⟨named.symm, applies, hits⟩
          have isUsage : world.usageOf member decl = usage := by
            simp [World.usageOf, Table.getD, stored]
          have coherent := (orderly.usageOf declared).2.1
          have advances := MemberUsage.advances_access coherent
            use.selector.kind.isOfUse_access
            (Evidence.Allows.reached use decl told isMet reaches rfl)
          rw [isUsage] at advances
          refine ih ?_ (orderly.revise_access told isMet reaches stored).1.orderly
            restMet examined
          exact traced.advance ⟨fun _ => id, fun _ => id, fun _ _ => id⟩
            declared (isUsage.symm ▸ advances) rfl (fun _ _ => .inl)
            (.inr ⟨decl, isMet⟩)

theorem Traced.registerDynamic {use : DynamicUse}
    (traced : world.Traced program live evidence)
    (balanced : world.Balanced program live evidence)
    (registered : world.registerDynamic program live use =
      .ok (final, reports)) :
    final.Traced program live (evidence.withDynamic use) := by
  have noted := balanced.orderly.note use
  have notedTraced : (world.note use).Traced program live
      (evidence.withDynamic use) :=
    traced.mono (evidence.within_withDynamic use) (fun _ _ => id) rfl
  have told : (evidence.withDynamic use).dynamics use := .inr rfl
  rcases registerDynamic_cases registered with
    ⟨-, rfl, -⟩ | ⟨middle, first, further, examined, continued, -⟩
  · exact notedTraced
  · have filed := noted.filed use.selector.name.text
    have revises := (noted.examine told
      (fun member isFiled => filed member (.inl isFiled)) examined).1
    have middleTraced := notedTraced.examine noted told
      (fun member isFiled => filed member (.inl isFiled)) examined
    split at continued
    · exact middleTraced.examine revises.orderly told
        (fun member isFiled => revises.orderly.filed _ member (.inr isFiled))
        continued
    · obtain ⟨rfl, -⟩ := continued
      exact middleTraced

/-! ### Entering a class -/

theorem Orderly.seek_advances (orderly : world.Orderly program live evidence)
    {decl : MemberDecl} {kind : SelectorKind} {usage : MemberUsage}
    {outcome : MemberUses × MemberUsage} {allowed : Access → Prop}
    (coherent : usage.Coherent)
    (allows : ∀ use, evidence.dynamics use → use.Reaches program live decl →
      allowed use.selector.kind.access)
    (sought : world.seek program live decl kind usage = .ok outcome) :
    usage.Advances outcome.2 allowed := by
  simp only [seek, bind_eq_ok_iff] at sought
  obtain ⟨found, isFound, sought⟩ := sought
  cases found with
  | true =>
      simp only [if_true, pure_eq_ok_iff] at sought
      subst sought
      obtain ⟨use, told, rfl, reaches⟩ := (orderly.isSought_iff isFound).1 rfl
      exact MemberUsage.advances_access coherent
        use.selector.kind.isOfUse_access (allows use told reaches)
  | false =>
      simp only [Bool.false_eq_true, if_false, pure_eq_ok_iff] at sought
      subst sought
      exact .refl coherent

theorem Orderly.encounter_advances
    (orderly : world.Orderly program live evidence) {member : MemberId}
    {decl : MemberDecl} {outcome : MemberUses × MemberUsage}
    (declared : program.member member = .ok decl)
    (encountered : world.encounter program live member decl = .ok outcome) :
    (world.usageOf member decl).Advances outcome.2
      ((evidence.withMet member decl).Allows program live member) := by
  obtain ⟨-, coherent, -⟩ := orderly.usageOf declared
  have allows : ∀ use, evidence.dynamics use → use.Reaches program live decl →
      (evidence.withMet member decl).Allows program live member
        use.selector.kind.access :=
    fun use told reaches => .reached use decl told (.inr ⟨rfl, rfl⟩) reaches rfl
  unfold World.encounter at encountered
  dsimp only at encountered
  split at encountered
  · simp only [pure_eq_ok_iff] at encountered
    subst encountered
    exact .refl coherent
  · simp only [bind_eq_ok_iff, pure_eq_ok_iff, Prod.exists] at encountered
    obtain ⟨read, afterRead, reads, invoked, afterInvoke, invokes, written,
      afterWrite, writes, rfl⟩ := encountered
    have first := orderly.seek_advances coherent allows reads
    have second := orderly.seek_advances first.coherent allows invokes
    have third := orderly.seek_advances second.coherent allows writes
    exact (first.trans second).trans third

theorem Traced.visitAll {members : List Inherited}
    (traced : world.Traced program live evidence)
    (balanced : world.Balanced program live evidence)
    (declared : ∀ inherited ∈ members,
      program.member inherited.member = .ok inherited.decl ∧
        inherited.decl.isInstanceMember = true)
    (encountered : world.visitAll program live false members =
      .ok (final, reports)) :
    final.Traced program live (evidence.withInherited members) := by
  induction members generalizing world evidence reports with
  | nil =>
      simp only [World.visitAll, Except.ok.injEq, Prod.mk.injEq]
        at encountered
      obtain ⟨rfl, -⟩ := encountered
      exact traced
  | cons head tail ih =>
      simp only [World.visitAll, Bool.false_eq_true, if_false,
        bind_eq_ok_iff, pure_eq_ok_iff, Prod.exists, Prod.mk.injEq] at encountered
      obtain ⟨uses, usage, first, _, further, rest, rfl, -⟩ := encountered
      obtain ⟨isDecl, isInstance⟩ := declared head (by simp)
      have headBalanced := (balanced.encounter isDecl isInstance first).1
      have advances := balanced.orderly.encounter_advances isDecl first
      refine ih (traced.advance
        (evidence.within_withMet head.member head.decl) isDecl advances rfl
        (fun _ _ => .inl) (.inr ⟨head.decl, .inr ⟨rfl, rfl⟩⟩)) headBalanced
        (fun inherited inTail => declared inherited (by simp [inTail])) rest

theorem Traced.enterClass {cls : ClassId}
    (traced : world.Traced program live evidence)
    (balanced : world.Balanced program live evidence)
    (entered : world.enterClass program live cls = .ok (final, reports)) :
    final.Traced program live (evidence.withClass program cls) := by
  simp only [World.enterClass, visitClass, bind_eq_ok_iff] at entered
  obtain ⟨members, listed, encountered⟩ := entered
  rw [← Evidence.withInherited_eq_withClass listed]
  refine traced.visitAll balanced (fun inherited present => ?_) encountered
  have provides := (Program.provides_iff_of_concreteMembers listed).2
    ⟨inherited, present, rfl, rfl⟩
  exact ⟨provides.declared, provides.isInstance⟩

theorem traced_empty (program : Program) (live : LiveClasses) :
    ({} : World).Traced program live .none where
  marked := by simp
  named := by
    rintro member access ⟨use, told, -⟩
    exact told.elim
  known := by simp

end World

end TreeShaking
