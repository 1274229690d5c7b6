import TreeShaking.Proofs.MemberUsage

/-!
# Accesses that are made in turn

The usage of a member answers each access with the uses that it consumed.  Over a
whole sequence of accesses, every use that is applied in the end was in exactly
one of the answers (`Account.told`), and the uses that are applied are those that
some access of the sequence grants (`Account.applied`), so that neither order nor
repetition matters.  A usage that is fully used stays as it is
(`accessAll_of_isFullyUsed`).
-/

namespace TreeShaking

namespace MemberUsage

/-- Make accesses one after the other.  The answers hold what each of them
consumed. -/
def accessAll (usage : MemberUsage) :
    List Access → List MemberUses × MemberUsage
  | [] => ([], usage)
  | access :: rest =>
      let outcome := usage.access access
      let further := outcome.2.accessAll rest
      (outcome.1 :: further.1, further.2)

variable {usage final : MemberUsage} {accesses : List Access}
  {answers : List MemberUses}

theorem accessAll_cons_eq_iff {access : Access} :
    usage.accessAll (access :: accesses) = (answers, final) ↔
      ∃ further, (usage.access access).2.accessAll accesses = (further, final) ∧
        answers = (usage.access access).1 :: further := by
  constructor
  · intro accessed
    obtain ⟨rfl, rfl⟩ := Prod.mk.inj accessed
    exact ⟨_, rfl, rfl⟩
  · rintro ⟨further, accessed, rfl⟩
    simp only [accessAll, accessed]

/-! ### What a sequence of accesses consumes -/

/-- How often a use occurs in answers. -/
def occurrences (answers : List MemberUses) (bit : UseBit) : Nat :=
  answers.countP fun uses => uses.has bit

theorem occurrences_cons (uses : MemberUses) (answers : List MemberUses)
    (bit : UseBit) :
    occurrences (uses :: answers) bit =
      occurrences answers bit + (uses.has bit).toNat := by
  rw [occurrences, List.countP_cons, ← occurrences]
  cases uses.has bit <;> rfl

/-- A use is in the union of the answers if and only if it occurs in them. -/
theorem has_unionAll (answers : List MemberUses) (bit : UseBit) :
    (answers.foldr MemberUses.union {}).has bit =
      (occurrences answers bit != 0) := by
  induction answers with
  | nil => exact MemberUses.has_empty bit
  | cons uses rest ih =>
      rw [List.foldr_cons, MemberUses.has_union, ih, occurrences_cons]
      cases uses.has bit <;> simp

/-- What a sequence of accesses does to a usage: it applies what the accesses
grant, and the answers tell each use once that was not applied before. -/
structure Account (before : MemberUsage) (accesses : List Access)
    (answers : List MemberUses) (after : MemberUsage) : Prop where
  shape : after.shape = before.shape
  coherent : after.Coherent
  applied : ∀ bit, after.applied.has bit =
    (before.applied.has bit || accesses.any (before.shape.grants · bit))
  told : ∀ bit, occurrences answers bit + (before.applied.has bit).toNat =
    (after.applied.has bit).toNat

theorem account_of_accessAll (coherent : usage.Coherent)
    (accessed : usage.accessAll accesses = (answers, final)) :
    Account usage accesses answers final := by
  induction accesses generalizing usage answers with
  | nil =>
      obtain ⟨rfl, rfl⟩ := Prod.mk.inj accessed
      exact ⟨rfl, coherent, by simp, by simp [occurrences]⟩
  | cons access rest ih =>
      obtain ⟨further, accessedRest, rfl⟩ := accessAll_cons_eq_iff.1 accessed
      have consumes := consumes_access coherent access
      have account := ih consumes.coherent accessedRest
      refine ⟨account.shape.trans consumes.shape, account.coherent, fun bit => ?_,
        fun bit => ?_⟩
      · rw [account.applied, consumes.applied, consumes.shape, List.any_cons,
          Bool.or_assoc]
      · have later := account.told bit
        rw [consumes.applied] at later
        rw [← later, occurrences_cons, consumes.reported]
        cases usage.applied.has bit <;>
          cases usage.shape.grants access bit <;> rfl

/-- The uses of a member are pending or applied. -/
theorem Coherent.has_potential (coherent : usage.Coherent) (bit : UseBit) :
    usage.shape.potential.has bit =
      (usage.pending.has bit || usage.applied.has bit) := by
  rw [has_applied]
  cases isPending : usage.pending.has bit with
  | true => rw [coherent.potential_of_pending bit isPending, Bool.true_or]
  | false => simp

/-! ### Fully used members -/

/-- Every access that counts was made, and the others do nothing. -/
theorem access_of_isFullyUsed (isFull : usage.isFullyUsed = true)
    (access : Access) : usage.access access = usage.unchanged := by
  cases shape : usage.shape with
  | field | finalField | getter | setter =>
      simp only [isFullyUsed, shape, Bool.and_eq_true] at isFull
      cases access <;>
        simp [MemberUsage.access, init, read, readValue, write, invoke, useFully,
          isFullyUsed, shape, isFull]
  | instanceFunction | staticFunction | constructor =>
      simp only [isFullyUsed, shape, Bool.and_eq_true] at isFull
      cases access <;>
        simp [MemberUsage.access, init, read, useFunction, write, invoke,
          invokeCode, useFully, shape, isFull]

theorem accessAll_of_isFullyUsed (isFull : usage.isFullyUsed = true)
    (later : List Access) :
    usage.accessAll later = (later.map fun _ => {}, usage) := by
  induction later with
  | nil => rfl
  | cons access rest ih =>
      rw [accessAll_cons_eq_iff, access_of_isFullyUsed isFull]
      exact ⟨_, ih, rfl⟩

/-! ### Sequences from the start -/

theorem has_applied_start (decl : MemberDecl) (bit : UseBit) :
    (start decl).applied.has bit = false := by
  rw [has_applied]
  exact Bool.and_not_self _

/-- From the start on, a use is applied if and only if some access grants it. -/
theorem has_applied_accessAll {decl : MemberDecl}
    (accessed : (start decl).accessAll accesses = (answers, final))
    (bit : UseBit) :
    final.applied.has bit = accesses.any (decl.grants · bit) := by
  have account := account_of_accessAll (coherent_start decl) accessed
  rw [account.applied, has_applied_start, Bool.false_or]
  rfl

/-- From the start on, the answers hold a use once if it is applied in the end,
and else never. -/
theorem occurrences_accessAll {decl : MemberDecl}
    (accessed : (start decl).accessAll accesses = (answers, final))
    (bit : UseBit) :
    occurrences answers bit = (final.applied.has bit).toNat := by
  have told := (account_of_accessAll (coherent_start decl) accessed).told bit
  rwa [has_applied_start, Bool.toNat_false, Nat.add_zero] at told

/-- Over any accesses to a declared member, the pending and the applied uses
divide the ones that it can have.  Each use is answered at most once, and the
answers together are the applied uses, which are those that an access grants,
whatever the order and the repetitions.  A tear-off is never applied without the
ordinary use, and a member that is fully used stays as it is. -/
theorem accesses_consume_uses_once {decl : MemberDecl}
    (accessed : (start decl).accessAll accesses = (answers, final)) :
    (final.pending.union final.applied = decl.shape.potential ∧
      final.pending.inter final.applied = {}) ∧
    ((∀ bit, occurrences answers bit ≤ 1) ∧
      answers.foldr MemberUses.union {} = final.applied ∧
      ∀ bit, final.applied.has bit = accesses.any (decl.grants · bit)) ∧
    (∀ bit, final.applied.has bit = true →
      final.applied.has .normal = true) ∧
    (final.isFullyUsed = true → ∀ later,
      final.accessAll later = (later.map fun _ => {}, final)) ∧
    ∀ others : List Access, (∀ access, access ∈ others ↔ access ∈ accesses) →
      ((start decl).accessAll others).2.applied = final.applied := by
  have account := account_of_accessAll (coherent_start decl) accessed
  have shape : final.shape = decl.shape := account.shape
  refine ⟨⟨?_, ?_⟩, ⟨?_, ?_, has_applied_accessAll accessed⟩, ?_, ?_, ?_⟩
  · refine MemberUses.ext_has fun bit => ?_
    rw [MemberUses.has_union, ← account.coherent.has_potential, shape]
  · refine MemberUses.ext_has fun bit => ?_
    rw [MemberUses.has_inter, has_applied, MemberUses.has_empty]
    cases final.pending.has bit <;> simp
  · intro bit
    rw [occurrences_accessAll accessed]
    exact Bool.toNat_le _
  · refine MemberUses.ext_has fun bit => ?_
    rw [has_unionAll, occurrences_accessAll accessed]
    cases final.applied.has bit <;> rfl
  · exact fun bit applied => account.coherent.normal_of_applied applied
  · exact accessAll_of_isFullyUsed
  · intro others same
    refine MemberUses.ext_has fun bit => ?_
    rw [has_applied_accessAll rfl, has_applied_accessAll accessed,
      Bool.eq_iff_iff, List.any_eq_true, List.any_eq_true]
    simp only [same]

/-- An instance method. -/
def method : MemberDecl where
  name := ⟨1⟩
  library := ⟨0⟩
  owner := some ⟨0⟩
  kind := .method

/-- A method that is called, torn off and called again is fully used.  The call
consumes the ordinary use and the tear-off the other one. -/
theorem accesses_consume_uses_of_method_once :
    let used := (start method).accessAll [.invoke, .read, .invoke]
    used.1 = [{ normal := true }, { closurizeInstance := true }, {}] ∧
      (∀ bit, occurrences used.1 bit ≤ 1) ∧
      used.2.accessAll [.full, .read] = ([{}, {}], used.2) ∧
      ((start method).accessAll [.read, .invoke]).2.applied =
        used.2.applied := by
  have accessed : (start method).accessAll [.invoke, .read, .invoke] =
    ([{ normal := true }, { closurizeInstance := true }, {}],
      { start method with pending := {}, hasRead := true, hasInvoke := true }) :=
    rfl
  obtain ⟨-, ⟨once, -, -⟩, -, kept, agrees⟩ :=
    accesses_consume_uses_once accessed
  refine ⟨rfl, once, kept rfl _, agrees _ fun access => ?_⟩
  cases access <;> decide

end MemberUsage

end TreeShaking
