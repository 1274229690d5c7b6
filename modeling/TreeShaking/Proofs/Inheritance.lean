import TreeShaking.Proofs.Outcome
import TreeShaking.World.Access

/-!
# The members that a class provides

A class *provides* a member if the member is among those that the instances of
the class have, and has code.  This file relates the enumeration of the members
of a class to the declarations: whatever is enumerated is a declared instance
member of a class of the superclass chain.
-/

namespace TreeShaking

open Outcome

namespace Inherited

theorem mem_of_mem_firstOfSlots {seen : List (MemberName × Bool)}
    {list : List Inherited} {inherited : Inherited}
    (first : inherited ∈ firstOfSlots seen list) : inherited ∈ list := by
  induction list generalizing seen with
  | nil => simp [firstOfSlots] at first
  | cons head tail ih =>
      unfold firstOfSlots at first
      split at first
      · exact List.mem_cons_of_mem _ (ih first)
      · rcases List.mem_cons.1 first with rfl | inTail
        · simp
        · exact List.mem_cons_of_mem _ (ih inTail)

end Inherited

namespace Program

/-- What is known about an instance member that is declared in a class of a
chain. -/
structure DeclaredIn (program : Program) (inherited : Inherited)
    (declarer : ClassId) : Prop where
  declarer : inherited.declarer = declarer
  declared : program.member inherited.member = .ok inherited.decl
  named : inherited.name =
    program.names.memberName inherited.decl.name inherited.decl.library
  isInstance : inherited.decl.isInstanceMember = true

theorem inherit_eq_ok_iff {program : Program} {declarer : ClassId}
    {member : MemberId} {inherited : Inherited} :
    program.inherit declarer member = .ok inherited ↔
      ∃ decl, program.member member = .ok decl ∧
        inherited = ⟨declarer, member,
          program.names.memberName decl.name decl.library, decl⟩ := by
  simp only [inherit, bind_eq_ok_iff, pure_eq_ok_iff]
  exact exists_congr fun decl => and_congr_right fun _ => eq_comm

theorem declaredIn_of_mem {program : Program} {declarer : ClassId}
    {members : List Inherited}
    (listed : program.declaredInstanceMembers declarer = .ok members)
    {inherited : Inherited} (present : inherited ∈ members) :
    program.DeclaredIn inherited declarer := by
  simp only [declaredInstanceMembers, bind_eq_ok_iff, pure_eq_ok_iff] at listed
  obtain ⟨cls, -, declared, inheritedAll, rfl⟩ := listed
  obtain ⟨isDeclared, isInstance⟩ := List.mem_filter.1 present
  obtain ⟨member, -, inherits⟩ := exists_element_of_mapM inheritedAll isDeclared
  obtain ⟨decl, isMember, rfl⟩ := inherit_eq_ok_iff.1 inherits
  exact ⟨rfl, isMember, rfl, isInstance⟩

theorem declaredIn_of_mem_inheritedMembers {program : Program} {cls : ClassId}
    {members : List Inherited}
    (listed : program.inheritedMembers cls = .ok members)
    {inherited : Inherited} (present : inherited ∈ members) :
    ∃ chain, program.superclassChain cls = .ok chain ∧
      ∃ declarer ∈ chain, program.DeclaredIn inherited declarer := by
  simp only [inheritedMembers, bind_eq_ok_iff, pure_eq_ok_iff] at listed
  obtain ⟨chain, isChain, declared, inheritedAll, rfl⟩ := listed
  obtain ⟨own, isOwn, inOwn⟩ := List.mem_flatten.1 present
  obtain ⟨declarer, inChain, lists⟩ := exists_element_of_mapM inheritedAll isOwn
  exact ⟨chain, isChain, declarer, inChain, declaredIn_of_mem lists inOwn⟩

theorem mem_inheritedMembers_of_mem_classMembers {program : Program}
    {cls : ClassId} {members : List Inherited}
    (listed : program.classMembers cls = .ok members) {inherited : Inherited}
    (present : inherited ∈ members) :
    ∃ all, program.inheritedMembers cls = .ok all ∧ inherited ∈ all := by
  simp only [classMembers, bind_eq_ok_iff, pure_eq_ok_iff] at listed
  obtain ⟨all, isAll, rfl⟩ := listed
  exact ⟨all, isAll, Inherited.mem_of_mem_firstOfSlots present⟩

/-- The instances of a class have a member that has code. -/
def Provides (program : Program) (cls : ClassId) (member : MemberId)
    (decl : MemberDecl) : Prop :=
  ∃ members, program.classMembers cls = .ok members ∧
    ∃ inherited ∈ members, inherited.member = member ∧
      inherited.decl = decl ∧ decl.isAbstract = false

namespace Provides

variable {program : Program} {cls : ClassId} {member : MemberId}
  {decl : MemberDecl}

theorem declaredIn (provides : program.Provides cls member decl) :
    ∃ inherited declarer, inherited.member = member ∧ inherited.decl = decl ∧
      program.DeclaredIn inherited declarer := by
  obtain ⟨members, listed, inherited, present, isMember, isDecl, -⟩ := provides
  obtain ⟨all, isAll, inAll⟩ :=
    mem_inheritedMembers_of_mem_classMembers listed present
  obtain ⟨-, -, declarer, -, origin⟩ :=
    declaredIn_of_mem_inheritedMembers isAll inAll
  exact ⟨inherited, declarer, isMember, isDecl, origin⟩

theorem declared (provides : program.Provides cls member decl) :
    program.member member = .ok decl := by
  obtain ⟨inherited, declarer, rfl, rfl, origin⟩ := provides.declaredIn
  exact origin.declared

theorem isInstance (provides : program.Provides cls member decl) :
    decl.isInstanceMember = true := by
  obtain ⟨inherited, declarer, rfl, rfl, origin⟩ := provides.declaredIn
  exact origin.isInstance

end Provides

/-- Entering a class visits exactly the members that it provides. -/
theorem provides_iff_of_concreteMembers {program : Program} {cls : ClassId}
    {members : List Inherited}
    (listed : World.concreteMembers program cls = .ok members)
    {member : MemberId} {decl : MemberDecl} :
    program.Provides cls member decl ↔
      ∃ inherited ∈ members, inherited.member = member ∧
        inherited.decl = decl := by
  simp only [World.concreteMembers, bind_eq_ok_iff, pure_eq_ok_iff] at listed
  obtain ⟨all, isAll, rfl⟩ := listed
  constructor
  · rintro ⟨members, listed, inherited, present, rfl, rfl, concrete⟩
    rw [isAll] at listed
    cases listed
    exact ⟨inherited, List.mem_filter.2 ⟨present, by simp [concrete]⟩, rfl, rfl⟩
  · rintro ⟨inherited, present, rfl, rfl⟩
    obtain ⟨inAll, concrete⟩ := List.mem_filter.1 present
    exact ⟨all, isAll, inherited, inAll, rfl, rfl, by simpa using concrete⟩

end Program

end TreeShaking
