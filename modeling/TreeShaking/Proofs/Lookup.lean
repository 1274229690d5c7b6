import TreeShaking.Proofs.Drafting

/-!
# What a name leads to

Looking a name up in a class finds a member of the first class of the chain that
answers it.  Entering a class visits the first member of each slot.  These are
different enumerations: an assignable field answers a write, but it stands in
the slot of the members that are read.  They agree if no class declares two
members that are read under one name.
-/

namespace TreeShaking

open Outcome

theorem Inherited.mem_firstOfSlots {seen : List (MemberName × Bool)}
    {before after : List Inherited} {candidate : Inherited}
    (unseen : candidate.slot ∉ seen)
    (isFirst : ∀ other ∈ before, other.slot ≠ candidate.slot) :
    candidate ∈ firstOfSlots seen (before ++ candidate :: after) := by
  induction before generalizing seen with
  | nil =>
      rw [List.nil_append, firstOfSlots, if_neg unseen]
      exact List.mem_cons_self
  | cons head tail ih =>
      have others : ∀ other ∈ tail, other.slot ≠ candidate.slot :=
        fun other inTail => isFirst other (List.mem_cons_of_mem _ inTail)
      rw [List.cons_append, firstOfSlots]
      split
      · exact ih unseen others
      · refine List.mem_cons_of_mem _ (ih ?_ others)
        rw [List.mem_cons, not_or]
        exact ⟨(isFirst head List.mem_cons_self).symm, unseen⟩

namespace Program

/-- No class declares two instance members that are read under one name. -/
def DistinctNames (program : Program) : Prop :=
  ∀ cls members, program.declaredInstanceMembers cls = .ok members →
    ((members.filter fun inherited => !inherited.decl.isSetter).map
      Inherited.name).Nodup

variable {program : Program} {cls : ClassId} {name : MemberName}
  {setter : Bool} {member : MemberId}

/-- What a name leads to is what it leads to in one class of the chain. -/
theorem Drafted.origin_of_lookup (drafted : program.Drafted)
    {chain : List ClassId} (walked : program.superclassChain cls = .ok chain)
    (found : program.lookupMember cls name setter = .ok (some member)) :
    ∃ declarer ∈ chain, ∃ members candidate,
      program.declaredInstanceMembers declarer = .ok members ∧
      members.find? (fun inherited =>
        inherited.name == name && inherited.answers setter) =
          some candidate ∧
      candidate.member = member := by
  obtain ⟨declared, computed, inherits⟩ := drafted.exists_inheritedMembers walked
  simp only [lookupMember, inherits, bind_eq_ok_iff, pure_eq_ok_iff,
    Except.ok.injEq, exists_eq_left', List.find?_flatten,
    Option.map_eq_some_iff] at found
  obtain ⟨candidate, isFound, isMember⟩ := found
  obtain ⟨members, isOwn, inOwn⟩ := List.exists_of_findSome?_eq_some isFound
  obtain ⟨declarer, onChain, declares⟩ := exists_element_of_mapM computed isOwn
  exact ⟨declarer, onChain, members, candidate, declares, inOwn, isMember⟩

/-- The first member that answers a name in a class is the first of its slot. -/
theorem DistinctNames.slot_ne (distinct : program.DistinctNames)
    {before after : List Inherited} {candidate : Inherited}
    (declares : program.declaredInstanceMembers cls =
      .ok (before ++ candidate :: after))
    (named : candidate.name = name) (answers : candidate.answers setter = true)
    (isFirst : ∀ other ∈ before,
      (other.name == name && other.answers setter) = false) :
    ∀ other ∈ before, other.slot ≠ candidate.slot := by
  intro other isBefore same
  obtain ⟨sameName, sameSetter⟩ := Prod.mk.inj same
  cases isSetter : candidate.decl.isSetter with
  | true =>
      -- A setter answers whatever another setter of its name answers.
      have written : setter = true := by
        cases setter with
        | true => rfl
        | false => simp [Inherited.answers, isSetter] at answers
      have refuted := isFirst other isBefore
      simp [sameName, named, Inherited.answers, written, sameSetter, isSetter]
        at refuted
  | false =>
      have nodup := distinct cls _ declares
      rw [List.filter_append, List.filter_cons_of_pos (by simp [isSetter]),
        List.map_append, List.map_cons, List.nodup_append] at nodup
      refine nodup.2.2 other.name ?_ candidate.name List.mem_cons_self sameName
      exact List.mem_map.2 ⟨other, List.mem_filter.2
        ⟨isBefore, by simp [sameSetter, isSetter]⟩, rfl⟩

/-- A class provides what a name leads to in it. -/
theorem Drafted.provides_of_found (drafted : program.Drafted)
    (distinct : program.DistinctNames) {chain : List ClassId}
    (walked : program.superclassChain cls = .ok chain)
    {members : List Inherited} {candidate : Inherited}
    (declares : program.declaredInstanceMembers cls = .ok members)
    (found : members.find? (fun inherited =>
      inherited.name == name && inherited.answers setter) = some candidate)
    (concrete : candidate.decl.isAbstract = false) :
    program.Provides cls candidate.member candidate.decl := by
  obtain ⟨holds, before, after, rfl, isFirst⟩ :=
    List.find?_eq_some_iff_append.1 found
  simp only [Bool.and_eq_true, beq_iff_eq] at holds
  obtain ⟨declared, computed, inherits⟩ := drafted.exists_inheritedMembers walked
  obtain ⟨above, rfl⟩ := Hierarchy.exists_cons_of_chain walked
  obtain ⟨own, rest, declaresOwn, others, rfl⟩ :=
    List.forall₂_cons_left_iff.1 (mapM_eq_ok_iff.1 computed)
  rw [declares] at declaresOwn
  obtain rfl := Except.ok.inj declaresOwn
  refine ⟨_, bind_eq_ok_iff.2 ⟨_, inherits, rfl⟩, candidate, ?_, rfl, rfl,
    concrete⟩
  rw [List.flatten_cons, List.append_assoc, List.cons_append]
  exact Inherited.mem_firstOfSlots (by simp)
    (distinct.slot_ne declares holds.1 holds.2 fun other isBefore =>
      (Bool.not_eq_true' _).mp (isFirst other isBefore))

end Program

end TreeShaking
