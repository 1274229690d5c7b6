import TreeShaking.Proofs.Inheritance
import TreeShaking.Proofs.MemberUsage

/-!
# Accounting for the uses of members

The world learns about members from three sources: static uses that name them,
dynamic uses that may reach them, and classes through which they are met.  An
`Evidence` collects what the world has been told, and `Evidence.Justifies` says
when a bit of a member's usage follows from it, with no regard to the order in
which it was told.

The invariant that ties a world to its evidence has two halves.  `Orderly` says
that the records are in order: every applied bit is justified, and every member
that was met is filed under its name as long as it has bits to wait for.
`Saturated` says that no justified bit is missing.  `Grows` says of two worlds
that the reports between them tell each newly applied bit exactly once.
-/

namespace TreeShaking

open Outcome

/-- A dynamic use can be answered by a member: the name has the selector's text,
the selector applies, and some receiver can inherit the member. -/
structure DynamicUse.Reaches (use : DynamicUse) (program : Program)
    (live : LiveClasses) (decl : MemberDecl) : Prop where
  named : use.selector.name.text = decl.name
  applies : use.selector.appliesTo decl = .ok true
  hits : ∃ declarer, decl.owner = some declarer ∧
    use.constraint.canHit program live declarer = .ok true

theorem MemberDecl.supports_of_appliesTo {decl : MemberDecl} {selector : Selector}
    (isInstance : decl.isInstanceMember = true)
    (applies : selector.appliesTo decl = .ok true) :
    decl.supports selector.kind.access = true := by
  unfold Selector.appliesTo at applies
  split at applies
  · cases applies
  · cases kind : decl.kind with
    | constructor factory =>
        simp [MemberDecl.isInstanceMember, MemberDecl.isConstructor, kind]
          at isInstance
    | field assignable =>
        cases selectorKind : selector.kind <;>
          simp_all [supports, SelectorKind.access, Selector.isSetter, isField,
            isGetter, isFunction, isAssignable, isSetter]
    | getter | setter | function | method =>
        cases selectorKind : selector.kind <;>
          simp_all [supports, SelectorKind.access, Selector.isSetter, isField,
            isGetter, isFunction, isAssignable, isSetter]

/-- What a world has been told about members. -/
@[ext]
structure Evidence where
  statics : StaticUse → Prop
  dynamics : DynamicUse → Prop
  /-- The members that some entered class provides. -/
  met : MemberId → MemberDecl → Prop

namespace Evidence

/-- Nothing has been told. -/
def none : Evidence where
  statics _ := False
  dynamics _ := False
  met _ _ := False

def withStatic (evidence : Evidence) (use : StaticUse) : Evidence :=
  { evidence with statics := fun other => evidence.statics other ∨ other = use }

def withDynamic (evidence : Evidence) (use : DynamicUse) : Evidence :=
  { evidence with
    dynamics := fun other => evidence.dynamics other ∨ other = use }

def withMet (evidence : Evidence) (member : MemberId) (decl : MemberDecl) :
    Evidence :=
  { evidence with
    met := fun other otherDecl =>
      evidence.met other otherDecl ∨ (other = member ∧ otherDecl = decl) }

/-- Why a bit of a member's usage is applied. -/
inductive Justifies (evidence : Evidence) (program : Program)
    (live : LiveClasses) (member : MemberId) (decl : MemberDecl)
    (bit : UseBit) : Prop
  /-- A static use of the member makes an access that grants the bit. -/
  | named (use : StaticUse) (access : Access) (told : evidence.statics use)
      (names : use.member = member)
      (accesses : use.kind.access? = some access)
      (grants : decl.grants access bit = true)
  /-- The member was met and a dynamic use that reaches it grants the bit. -/
  | reached (use : DynamicUse) (told : evidence.dynamics use)
      (met : evidence.met member decl) (reaches : use.Reaches program live decl)
      (grants : decl.grants use.selector.kind.access bit = true)

theorem withMet_of_met {evidence : Evidence} {member : MemberId}
    {decl : MemberDecl} (met : evidence.met member decl) :
    evidence.withMet member decl = evidence := by
  ext other otherDecl
  · rfl
  · rfl
  · constructor
    · rintro (old | ⟨rfl, rfl⟩)
      · exact old
      · exact met
    · exact .inl

variable {program : Program} {live : LiveClasses} {member : MemberId}
  {decl : MemberDecl} {bit : UseBit} {evidence : Evidence}

theorem Justifies.mono {further : Evidence}
    (justified : evidence.Justifies program live member decl bit)
    (statics : ∀ use, evidence.statics use → further.statics use)
    (dynamics : ∀ use, evidence.dynamics use → further.dynamics use)
    (met : ∀ other otherDecl, evidence.met other otherDecl →
      further.met other otherDecl) :
    further.Justifies program live member decl bit := by
  cases justified with
  | named use access told names accesses grants =>
      exact .named use access (statics use told) names accesses grants
  | reached use told isMet reaches grants =>
      exact .reached use (dynamics use told) (met _ _ isMet) reaches grants

theorem Justifies.withStatic (use : StaticUse)
    (justified : evidence.Justifies program live member decl bit) :
    (evidence.withStatic use).Justifies program live member decl bit :=
  justified.mono (fun _ => .inl) (fun _ => id) (fun _ _ => id)

theorem Justifies.withDynamic (use : DynamicUse)
    (justified : evidence.Justifies program live member decl bit) :
    (evidence.withDynamic use).Justifies program live member decl bit :=
  justified.mono (fun _ => id) (fun _ => .inl) (fun _ _ => id)

theorem Justifies.withMet (other : MemberId) (otherDecl : MemberDecl)
    (justified : evidence.Justifies program live member decl bit) :
    (evidence.withMet other otherDecl).Justifies program live member decl bit :=
  justified.mono (fun _ => id) (fun _ => id) (fun _ _ => .inl)

end Evidence

/-! ### Files -/

namespace MemberFile

theorem mem_getD_place (file : MemberFile) (name other : Name)
    (member candidate : MemberId) (present : Bool) :
    candidate ∈ (file.place name member present).getD other [] ↔
      if other = name ∧ candidate = member then
        present = true
      else
        candidate ∈ file.getD other [] := by
  by_cases sameName : other = name
  · subst sameName
    cases present with
    | true =>
        simp only [place, if_true]
        split
        · rename_i filed
          by_cases same : candidate = member
          · simp [same, filed]
          · simp [same]
        · by_cases same : candidate = member
          · simp [Table.getD, same]
          · simp [Table.getD, same]
    | false =>
        have filtered : candidate ∈ (file.getD other []).filter
            (fun filed => filed ≠ member) ↔
            candidate ∈ file.getD other [] ∧ candidate ≠ member := by
          simp
        simp only [place, Bool.false_eq_true, if_false]
        split
        · rename_i emptied
          rw [emptied] at filtered
          by_cases same : candidate = member
          · simp [Table.getD, same]
          · have absent : candidate ∉ file.getD other [] := fun filed =>
              (List.not_mem_nil (filtered.2 ⟨filed, same⟩)).elim
            simp [same, absent]
            simp [Table.getD]
        · by_cases same : candidate = member
          · simp_all [Table.getD]
          · simp_all [Table.getD]
  · have untouched : (file.place name member present).getD other [] =
        file.getD other [] := by
      unfold place
      cases present <;> simp only [Bool.false_eq_true, if_false, if_true] <;>
        split <;> simp [Table.getD, sameName]
    simp [untouched, sameName]

end MemberFile

/-! ### Receivers -/

namespace ReceiverSet

/-- The constraints that count: once nothing is known about one receiver, the
others no longer matter. -/
def effective (receivers : ReceiverSet) : List Constraint :=
  if receivers.isAll then [.unconstrained] else receivers.constraints

theorem canHit_eq (receivers : ReceiverSet) (program : Program)
    (live : LiveClasses) (declarer : ClassId) :
    receivers.canHit program live declarer =
      receivers.effective.anyM (Constraint.canHit program live declarer) := by
  unfold canHit effective
  split
  · rfl
  · rfl

theorem mem_effective_add {receivers : ReceiverSet}
    {constraint other : Constraint}
    (counts : other ∈ (receivers.add constraint).2.effective) :
    other ∈ receivers.effective ∨ other = constraint := by
  unfold add at counts
  split at counts
  · exact .inl counts
  · rename_i notAll
    split at counts
    · rename_i isUnconstrained
      simp only [effective, if_true, List.mem_singleton] at counts
      exact .inr (counts.trans isUnconstrained.symm)
    · split at counts
      · exact .inl counts
      · simp only [effective, notAll, Bool.false_eq_true, if_false,
          List.mem_append, List.mem_singleton] at counts ⊢
        exact counts

/-- A constraint that was added counts, unless all receivers do. -/
theorem added_mem_effective (receivers : ReceiverSet)
    (constraint : Constraint) :
    constraint ∈ (receivers.add constraint).2.effective ∨
      .unconstrained ∈ (receivers.add constraint).2.effective := by
  unfold add
  split
  · rename_i isAll
    exact .inr (by simp [effective, isAll])
  · rename_i notAll
    split
    · exact .inr (by simp [effective])
    · split
      · rename_i present
        exact .inl (by simpa [effective, notAll] using present)
      · exact .inl (by simp [effective, notAll])

theorem mem_effective_add_of_mem {receivers : ReceiverSet}
    {constraint other : Constraint} (counts : other ∈ receivers.effective) :
    other ∈ (receivers.add constraint).2.effective ∨
      .unconstrained ∈ (receivers.add constraint).2.effective := by
  unfold add
  split
  · exact .inl counts
  · rename_i notAll
    split
    · exact .inr (by simp [effective])
    · split
      · exact .inl counts
      · simp only [effective, notAll, Bool.false_eq_true, if_false] at counts
        exact .inl (by simp [effective, notAll, counts])

/-- A set that does not grow has the constraint already, or counts all
receivers. -/
theorem mem_effective_of_not_grew {receivers : ReceiverSet}
    {constraint : Constraint}
    (same : (receivers.add constraint).1 = false) :
    (receivers.add constraint).2 = receivers ∧
      (constraint ∈ receivers.effective ∨
        .unconstrained ∈ receivers.effective) := by
  unfold add at same ⊢
  split
  · rename_i isAll
    exact ⟨rfl, .inr (by simp [effective, isAll])⟩
  · rename_i notAll
    rw [if_neg notAll] at same
    split
    · rename_i isUnconstrained
      simp [isUnconstrained] at same
    · rename_i constrained
      rw [if_neg constrained] at same
      split
      · rename_i present
        exact ⟨rfl, .inl (by simpa [effective, notAll] using present)⟩
      · rename_i absent
        simp [absent] at same

end ReceiverSet

theorem Selector.isGetter_of_grants {selector : Selector} {decl : MemberDecl}
    (grants : decl.grants selector.kind.access .closurizeInstance = true) :
    selector.isGetter = true := by
  cases kind : selector.kind with
  | getter => simp [Selector.isGetter, kind]
  | call | setter =>
      simp only [kind, SelectorKind.access, MemberDecl.grants] at grants
      cases shape : decl.shape <;> simp [shape, MemberShape.grants] at grants

/-- A receiver about which nothing is known can be any other. -/
theorem DynamicUse.Reaches.unconstrained {use : DynamicUse} {program : Program}
    {live : LiveClasses} {decl : MemberDecl}
    (reaches : use.Reaches program live decl) :
    DynamicUse.Reaches ⟨use.selector, .unconstrained⟩ program live decl where
  named := reaches.named
  applies := reaches.applies
  hits := by
    obtain ⟨declarer, owner, -⟩ := reaches.hits
    exact ⟨declarer, owner, rfl⟩

namespace World

theorem reaches_of_appliesTo {selector : Selector}
    {hits : ClassId → Except Failure Bool} {decl : MemberDecl}
    {declarer : ClassId} (owner : decl.owner = some declarer)
    (applies : selector.appliesTo decl = .ok true) :
    World.reaches selector hits decl = hits declarer := by
  simp [World.reaches, owner, applies, bind, Except.bind]

theorem reaches_eq_ok_true_iff {selector : Selector}
    {hits : ClassId → Except Failure Bool} {decl : MemberDecl} :
    World.reaches selector hits decl = .ok true ↔
      selector.appliesTo decl = .ok true ∧
        ∃ declarer, decl.owner = some declarer ∧ hits declarer = .ok true := by
  cases owner : decl.owner with
  | none => simp [World.reaches, owner]
  | some declarer =>
      constructor
      · intro reached
        simp only [World.reaches, owner, bind_eq_ok_iff] at reached
        obtain ⟨applies, isApplicable, outcome⟩ := reached
        cases applies with
        | true => exact ⟨isApplicable, declarer, rfl, outcome⟩
        | false => simp [pure, Except.pure] at outcome
      · rintro ⟨isApplicable, other, isOwner, hit⟩
        obtain rfl : declarer = other := Option.some.inj isOwner
        rw [reaches_of_appliesTo owner isApplicable]
        exact hit

/-- The uses of a member that have been consumed. -/
def appliedTo (world : World) (member : MemberId) : MemberUses :=
  ((world.memberUsage.get? member).map MemberUsage.applied).getD {}

theorem has_applied_usageOf (world : World) (member : MemberId)
    (decl : MemberDecl) (bit : UseBit) :
    (world.usageOf member decl).applied.has bit =
      (world.appliedTo member).has bit := by
  unfold usageOf appliedTo Table.getD
  cases world.memberUsage.get? member with
  | none => simp [MemberUsage.has_applied, MemberUsage.start]
  | some usage => rfl

/-- The records of a world agree with what the world has been told, and the
members that wait for something are filed. -/
structure Orderly (world : World) (program : Program) (live : LiveClasses)
    (evidence : Evidence) : Prop where
  /-- Each usage belongs to a declared member and is justified. -/
  usages : ∀ member usage, world.memberUsage.get? member = some usage →
    ∃ decl, program.member member = .ok decl ∧ usage.shape = decl.shape ∧
      usage.Coherent ∧ ∀ bit, usage.applied.has bit = true →
        evidence.Justifies program live member decl bit
  /-- A member that was met is an instance member, and it is filed as long as it
  waits. -/
  met : ∀ member decl, evidence.met member decl →
    program.member member = .ok decl ∧ decl.isInstanceMember = true ∧
      ∃ usage, world.memberUsage.get? member = some usage ∧
        (usage.pending.normal = true →
          member ∈ world.awaitingUse.getD decl.name []) ∧
        (usage.pending.closurizeInstance = true →
          member ∈ world.awaitingTearOff.getD decl.name [])
  /-- Only members that were met are filed, and under their names. -/
  filed : ∀ name member,
    member ∈ world.awaitingUse.getD name [] ∨
      member ∈ world.awaitingTearOff.getD name [] →
    ∃ decl, evidence.met member decl ∧ decl.name = name
  /-- Every dynamic use is remembered, if only as an unconstrained one. -/
  noted : ∀ use, evidence.dynamics use →
    ∃ receivers, world.selectors.get? use.selector = some receivers ∧
      (use.constraint ∈ receivers.effective ∨
        .unconstrained ∈ receivers.effective)
  /-- What is remembered was told. -/
  told : ∀ selector receivers,
    world.selectors.get? selector = some receivers →
      receivers.effective ≠ [] ∧
        ∀ constraint ∈ receivers.effective,
          evidence.dynamics ⟨selector, constraint⟩

/-- All that the evidence justifies has been applied. -/
def Saturated (world : World) (program : Program) (live : LiveClasses)
    (evidence : Evidence) : Prop :=
  ∀ member decl bit, program.member member = .ok decl →
    evidence.Justifies program live member decl bit →
      (world.appliedTo member).has bit = true

/-- The books of a world are balanced if exactly what the evidence justifies
has been applied, and the files are kept. -/
structure Balanced (world : World) (program : Program) (live : LiveClasses)
    (evidence : Evidence) : Prop where
  orderly : world.Orderly program live evidence
  saturated : world.Saturated program live evidence

/-- How often a use of a member is told in a list of reports. -/
def tellings (reports : List MemberReport) (member : MemberId)
    (bit : UseBit) : Nat :=
  reports.countP fun report => report.1 = member && report.2.has bit

@[simp]
theorem tellings_nil (member : MemberId) (bit : UseBit) :
    tellings [] member bit = 0 :=
  rfl

@[simp]
theorem tellings_append (first second : List MemberReport)
    (member : MemberId) (bit : UseBit) :
    tellings (first ++ second) member bit =
      tellings first member bit + tellings second member bit :=
  List.countP_append

/-- From one world to the next, the reports tell each use that has newly been
applied once, and nothing else. -/
def Grows (before after : World) (reports : List MemberReport) : Prop :=
  ∀ member bit,
    tellings reports member bit + ((before.appliedTo member).has bit).toNat =
      ((after.appliedTo member).has bit).toNat

namespace Grows

theorem of_same_usage {before after : World}
    (same : after.memberUsage = before.memberUsage) :
    Grows before after [] := by
  intro member bit
  simp [appliedTo, same]

theorem trans {first second third : World}
    {reports further : List MemberReport} (grows : Grows first second reports)
    (thenGrows : Grows second third further) :
    Grows first third (reports ++ further) := by
  intro member bit
  have step := grows member bit
  have next := thenGrows member bit
  rw [tellings_append]
  omega

/-- What has been applied stays applied. -/
theorem applied {before after : World} {reports : List MemberReport}
    (grows : Grows before after reports) {member : MemberId} {bit : UseBit}
    (isApplied : (before.appliedTo member).has bit = true) :
    (after.appliedTo member).has bit = true := by
  have step := grows member bit
  rw [isApplied] at step
  cases now : (after.appliedTo member).has bit with
  | true => rfl
  | false => simp [now] at step

/-- A change of one usage, reported by what it consumes. -/
theorem of_consumes {before after : World} {member : MemberId}
    {decl : MemberDecl} {granted : UseBit → Bool}
    {outcome : MemberUses × MemberUsage}
    (consumes : (before.usageOf member decl).Consumes granted outcome)
    (written : after.memberUsage =
      before.memberUsage.insert member outcome.2) :
    Grows before after [(member, outcome.1)] := by
  intro other bit
  have applied := consumes.applied bit
  have reported := consumes.reported bit
  rw [has_applied_usageOf] at applied reported
  by_cases same : other = member
  · subst same
    have now : (after.appliedTo other).has bit = outcome.2.applied.has bit := by
      simp [appliedTo, written]
    rw [now, applied]
    simp only [tellings, List.countP_singleton, decide_true, Bool.true_and,
      reported]
    cases (before.appliedTo other).has bit <;> cases granted bit <;> rfl
  · have now : after.appliedTo other = before.appliedTo other := by
      simp [appliedTo, written, same]
    have silent : tellings [(member, outcome.1)] other bit = 0 := by
      simp [tellings, Ne.symm same]
    rw [now, silent, Nat.zero_add]

end Grows

end World

end TreeShaking
