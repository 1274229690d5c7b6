import TreeShaking.Proofs.Drafting

/-!
# What a typedef stands for

A typedef stands for a type, which may be a typedef again.  The chain of a type
has one of three fates: it ends at a type that is no typedef, it ends at a
typedef outside the table, or it runs in a circle (`unalias_cases`).  No two of
them are possible at once, since the chain never forks, so that each fate decides
what `unalias` answers.

The number of hops tells a circle from a long chain: whoever has made more hops
than there are typedefs has been somewhere twice (`circular_of_cyclicTypedef`).
-/

namespace TreeShaking

open Outcome

def Ty.isTypedef : Ty → Bool
  | .typedef _ => true
  | _ => false

namespace Program

/-- A type is a typedef of the program for another type. -/
def Alias (program : Program) (type other : Ty) : Prop :=
  ∃ target decl, type = .typedef target ∧
    program.typedef target = .ok decl ∧ decl.aliased = other

/-- Following typedefs from a type leads to another. -/
def StandsFor (program : Program) : Ty → Ty → Prop :=
  Relation.ReflTransGen program.Alias

/-- Following typedefs from a typedef leads back to it. -/
def Circular (program : Program) (target : TypedefId) : Prop :=
  Relation.TransGen program.Alias (.typedef target) (.typedef target)

/-- There is nothing to follow. -/
def IsLast (program : Program) (type : Ty) : Prop :=
  ∀ next, ¬program.Alias type next

variable {program : Program} {type other final : Ty} {target last : TypedefId}

/-! ### Chains -/

theorem alias_typedef {decl : TypedefDecl}
    (declared : program.typedef target = .ok decl) :
    program.Alias (.typedef target) decl.aliased :=
  ⟨target, decl, rfl, declared, rfl⟩

/-- A chain never forks. -/
theorem alias_rightUnique (program : Program) :
    Relator.RightUnique program.Alias := by
  rintro type first second ⟨target, decl, rfl, declared, rfl⟩
    ⟨other, otherDecl, same, otherDeclared, rfl⟩
  cases same
  rw [declared] at otherDeclared
  cases otherDeclared
  rfl

theorem isLast_of_not_typedef (isNoTypedef : type.isTypedef = false) :
    program.IsLast type := by
  rintro next ⟨target, decl, rfl, -⟩
  cases isNoTypedef

theorem isLast_of_outside (outside : program.typedefs.size ≤ target.index) :
    program.IsLast (.typedef target) := by
  rintro next ⟨other, decl, same, declared, -⟩
  cases same
  rw [typedef, fetch_eq_error_iff.2 ⟨outside, rfl⟩] at declared
  cases declared

theorem IsLast.eq (isLast : program.IsLast type)
    (standsFor : program.StandsFor type other) : other = type := by
  rcases standsFor.cases_head with same | ⟨next, hop, -⟩
  · exact same.symm
  · exact absurd hop (isLast next)

/-- All that a circle leads to is on the circle. -/
theorem circle_of_standsFor (circle : Relation.TransGen program.Alias type type)
    (standsFor : program.StandsFor type other) :
    Relation.TransGen program.Alias other other := by
  induction standsFor with
  | refl => exact circle
  | tail _ step around =>
      obtain ⟨next, hop, back⟩ := Relation.TransGen.head'_iff.1 around
      rw [alias_rightUnique program hop step] at back
      exact .tail' back step

/-- Wherever a chain is followed to, it is one and the same place where it
ends. -/
theorem StandsFor.to_last (standsFor : program.StandsFor type final)
    (isLast : program.IsLast final) (leads : program.StandsFor type other) :
    program.StandsFor other final := by
  rcases Relation.ReflTransGen.total_of_right_unique (alias_rightUnique program)
    standsFor leads with beyond | before
  · rw [isLast.eq beyond]
    exact .refl
  · exact before

theorem StandsFor.last_unique (standsFor : program.StandsFor type final)
    (isLast : program.IsLast final) (leads : program.StandsFor type other)
    (otherIsLast : program.IsLast other) : final = other :=
  otherIsLast.eq (standsFor.to_last isLast leads)

/-- A chain that ends meets no circle. -/
theorem StandsFor.not_circular (standsFor : program.StandsFor type final)
    (isLast : program.IsLast final)
    (leads : program.StandsFor type (.typedef target)) :
    ¬program.Circular target := by
  intro circular
  have circle :=
    circle_of_standsFor circular (standsFor.to_last isLast leads)
  obtain ⟨next, hop, -⟩ := Relation.TransGen.head'_iff.1 circle
  exact isLast next hop

/-! ### Following a chain -/

/-- A typedef of the table is followed to the type it stands for, and from there
with one hop less. -/
theorem followTypedef_of_declared {decl : TypedefDecl}
    (declared : program.typedef target = .ok decl) (hops : Nat) :
    program.followTypedef (hops + 1) target =
      match decl.aliased with
      | .typedef next => program.followTypedef hops next
      | type => .ok type := by
  rw [followTypedef, declared]
  rfl

/-- A chain is followed up to a type that is no typedef, up to a typedef outside
the table, or until there are no hops left. -/
theorem followTypedef_cases (program : Program) (hops : Nat)
    (target : TypedefId) :
    (∃ final, program.followTypedef hops target = .ok final ∧
      program.StandsFor (.typedef target) final ∧ final.isTypedef = false) ∨
    (∃ last, program.followTypedef hops target =
        .error (.outOfBounds program.typedefs.size last.index) ∧
      program.StandsFor (.typedef target) (.typedef last) ∧
      program.typedefs.size ≤ last.index) ∨
    ∃ last, program.followTypedef hops target = .error (.cyclicTypedef last) ∧
      program.StandsFor (.typedef target) (.typedef last) := by
  induction hops generalizing target with
  | zero =>
      rw [followTypedef]
      cases declared : program.typedef target with
      | error failure =>
          obtain ⟨outside, rfl⟩ := fetch_eq_error_iff.1 declared
          exact .inr (.inl ⟨target, rfl, .refl, outside⟩)
      | ok decl => exact .inr (.inr ⟨target, rfl, .refl⟩)
  | succ hops ih =>
      cases declared : program.typedef target with
      | error failure =>
          obtain ⟨outside, rfl⟩ := fetch_eq_error_iff.1 declared
          rw [followTypedef, declared]
          exact .inr (.inl ⟨target, rfl, .refl, outside⟩)
      | ok decl =>
          have hop := alias_typedef declared
          rw [followTypedef_of_declared declared]
          cases aliased : decl.aliased with
          | typedef next =>
              rw [aliased] at hop
              rcases ih next with ⟨final, followed, leads, isNoTypedef⟩ |
                ⟨last, followed, leads, outside⟩ | ⟨last, followed, leads⟩
              · exact .inl ⟨final, followed, leads.head hop, isNoTypedef⟩
              · exact .inr (.inl ⟨last, followed, leads.head hop, outside⟩)
              · exact .inr (.inr ⟨last, followed, leads.head hop⟩)
          | interface | function | typeVariable | dynamic | void | never =>
              rw [aliased] at hop
              exact .inl ⟨_, rfl, .single hop, rfl⟩

/-- If there was a hop for each typedef, the hops run out on a circle only.  The
typedefs that were visited are listed with the latest one first. -/
theorem circular_of_cyclicTypedef {hops : Nat} {visited : List TypedefId}
    (walked : (target :: visited).Pairwise fun later earlier =>
      Relation.TransGen program.Alias (.typedef earlier) (.typedef later))
    (inTable : ∀ known ∈ visited, ∃ decl, program.typedef known = .ok decl)
    (enough : program.typedefs.size ≤ visited.length + hops)
    (failed : program.followTypedef hops target = .error (.cyclicTypedef last)) :
    program.Circular last := by
  induction hops generalizing target visited with
  | zero =>
      rw [followTypedef, bind_eq_error_iff] at failed
      rcases failed with undeclared | ⟨decl, declared, isLast⟩
      · cases (fetch_eq_error_iff.1 undeclared).2
      cases isLast
      by_contra notCircular
      -- Whatever was visited twice would be on a circle that leads to the last.
      have distinct : (last :: visited).Nodup := by
        refine walked.imp_of_mem fun {later earlier} isVisited _ path same => ?_
        subst same
        refine notCircular (circle_of_standsFor path ?_)
        rcases List.mem_cons.1 isVisited with rfl | before
        · exact .refl
        · exact (List.rel_of_pairwise_cons walked before).to_reflTransGen
      have bound := Handle.length_le_size distinct
        (List.forall_mem_cons.2 ⟨⟨decl, declared⟩, inTable⟩)
      rw [List.length_cons] at bound
      omega
  | succ hops ih =>
      rw [followTypedef, bind_eq_error_iff] at failed
      rcases failed with undeclared | ⟨decl, declared, failed⟩
      · cases (fetch_eq_error_iff.1 undeclared).2
      have hop := alias_typedef declared
      cases aliased : decl.aliased with
      | typedef next =>
          rw [aliased] at hop failed
          refine ih (List.pairwise_cons.2 ⟨?_, walked⟩)
            (List.forall_mem_cons.2 ⟨⟨decl, declared⟩, inTable⟩) ?_ failed
          · intro earlier isVisited
            rcases List.mem_cons.1 isVisited with rfl | before
            · exact .single hop
            · exact .tail (List.rel_of_pairwise_cons walked before) hop
          · rw [List.length_cons]
            omega
      | interface | function | typeVariable | dynamic | void | never =>
          rw [aliased] at failed
          cases failed

/-! ### Resolving a type -/

/-- The three fates of a chain, and what comes of them. -/
theorem unalias_cases (program : Program) (type : Ty) :
    (∃ final, program.unalias type = .ok final ∧
      program.StandsFor type final ∧ final.isTypedef = false) ∨
    (∃ last, program.unalias type =
        .error (.outOfBounds program.typedefs.size last.index) ∧
      program.StandsFor type (.typedef last) ∧
      program.typedefs.size ≤ last.index) ∨
    ∃ last, program.unalias type = .error (.cyclicTypedef last) ∧
      program.StandsFor type (.typedef last) ∧ program.Circular last := by
  cases type with
  | typedef target =>
      rcases program.followTypedef_cases program.typedefs.size target with
        found | outside | ⟨last, failed, leads⟩
      · exact .inl found
      · exact .inr (.inl outside)
      · exact .inr (.inr ⟨last, failed, leads, circular_of_cyclicTypedef
          (List.pairwise_singleton _ _) (by simp) (by simp) failed⟩)
  | interface | function | typeVariable | dynamic | void | never =>
      exact .inl ⟨_, rfl, .refl, rfl⟩

theorem unalias_eq_ok_iff :
    program.unalias type = .ok final ↔
      program.StandsFor type final ∧ final.isTypedef = false := by
  rcases program.unalias_cases type with ⟨found, resolved, leads, isNoTypedef⟩ |
    ⟨last, failed, leads, outside⟩ | ⟨last, failed, leads, circular⟩
  · rw [resolved, Except.ok.injEq]
    constructor
    · rintro rfl
      exact ⟨leads, isNoTypedef⟩
    · rintro ⟨standsFor, finalIsNone⟩
      exact leads.last_unique (isLast_of_not_typedef isNoTypedef) standsFor
        (isLast_of_not_typedef finalIsNone)
  · rw [failed]
    refine iff_of_false nofun ?_
    rintro ⟨standsFor, isNoTypedef⟩
    obtain rfl := standsFor.last_unique (isLast_of_not_typedef isNoTypedef) leads
      (isLast_of_outside outside)
    cases isNoTypedef
  · rw [failed]
    refine iff_of_false nofun ?_
    rintro ⟨standsFor, isNoTypedef⟩
    exact standsFor.not_circular (isLast_of_not_typedef isNoTypedef) leads circular

theorem unalias_eq_outOfBounds_iff {size index : Nat} :
    program.unalias type = .error (.outOfBounds size index) ↔
      program.StandsFor type (.typedef ⟨index⟩) ∧
        program.typedefs.size ≤ index ∧ size = program.typedefs.size := by
  rcases program.unalias_cases type with ⟨found, resolved, leads, isNoTypedef⟩ |
    ⟨last, failed, leads, outside⟩ | ⟨last, failed, leads, circular⟩
  · rw [resolved]
    refine iff_of_false nofun ?_
    rintro ⟨standsFor, outside, -⟩
    obtain rfl := leads.last_unique (isLast_of_not_typedef isNoTypedef) standsFor
      (isLast_of_outside outside)
    cases isNoTypedef
  · rw [failed, Except.error.injEq, Failure.outOfBounds.injEq]
    constructor
    · rintro ⟨rfl, rfl⟩
      exact ⟨leads, outside, rfl⟩
    · rintro ⟨standsFor, isOutside, rfl⟩
      cases leads.last_unique (isLast_of_outside outside) standsFor
        (isLast_of_outside isOutside)
      exact ⟨rfl, rfl⟩
  · rw [failed]
    refine iff_of_false nofun ?_
    rintro ⟨standsFor, outside, -⟩
    exact standsFor.not_circular (isLast_of_outside outside) leads circular

/-- The typedef that is named in the failure is on the circle. -/
theorem circular_of_unalias
    (failed : program.unalias type = .error (.cyclicTypedef last)) :
    program.StandsFor type (.typedef last) ∧ program.Circular last := by
  rcases program.unalias_cases type with ⟨_, resolved, -⟩ | ⟨_, outside, -⟩ |
    ⟨found, failedThere, leads, circular⟩
  · rw [resolved] at failed
    cases failed
  · rw [outside] at failed
    cases failed
  · rw [failedThere] at failed
    cases failed
    exact ⟨leads, circular⟩

theorem exists_unalias_eq_cyclicTypedef
    (leads : program.StandsFor type (.typedef target))
    (circular : program.Circular target) :
    ∃ last, program.unalias type = .error (.cyclicTypedef last) := by
  rcases program.unalias_cases type with ⟨found, -, standsFor, isNoTypedef⟩ |
    ⟨outside, -, standsFor, isOutside⟩ | ⟨last, failed, -⟩
  · exact absurd circular
      (standsFor.not_circular (isLast_of_not_typedef isNoTypedef) leads)
  · exact absurd circular
      (standsFor.not_circular (isLast_of_outside isOutside) leads)
  · exact ⟨last, failed⟩

/-- What a type has been resolved to is no typedef and stays as it is. -/
theorem unalias_bind_unalias (program : Program) (type : Ty) :
    (program.unalias type >>= program.unalias) = program.unalias type := by
  cases resolved : program.unalias type with
  | error failure => rfl
  | ok final =>
      obtain ⟨-, isNoTypedef⟩ := unalias_eq_ok_iff.1 resolved
      exact unalias_eq_ok_iff.2 ⟨.refl, isNoTypedef⟩

/-- A type is resolved to what its chain ends with, however long the chain is,
provided that this is no typedef.  A chain that ends outside the table fails there,
and one that visits a typedef twice fails at a typedef of its circle.  There are no
other failures, and resolving a second time changes nothing. -/
theorem unalias_resolves_finite_chains (program : Program) (type : Ty) :
    (∀ final, program.unalias type = .ok final ↔
      program.StandsFor type final ∧ final.isTypedef = false) ∧
    (∀ size index, program.unalias type = .error (.outOfBounds size index) ↔
      program.StandsFor type (.typedef ⟨index⟩) ∧
        program.typedefs.size ≤ index ∧ size = program.typedefs.size) ∧
    ((∃ last, program.unalias type = .error (.cyclicTypedef last)) ↔
      ∃ target, program.StandsFor type (.typedef target) ∧
        program.Circular target) ∧
    (∀ last, program.unalias type = .error (.cyclicTypedef last) →
      program.StandsFor type (.typedef last) ∧ program.Circular last) ∧
    (∀ failure, program.unalias type = .error failure →
      (∃ size index, failure = .outOfBounds size index) ∨
        ∃ last, failure = .cyclicTypedef last) ∧
    (program.unalias type >>= program.unalias) = program.unalias type := by
  refine ⟨fun _ => unalias_eq_ok_iff, fun _ _ => unalias_eq_outOfBounds_iff,
    ⟨?_, ?_⟩, fun _ => circular_of_unalias, ?_, unalias_bind_unalias program type⟩
  · rintro ⟨last, failed⟩
    exact ⟨last, circular_of_unalias failed⟩
  · rintro ⟨target, leads, circular⟩
    exact exists_unalias_eq_cyclicTypedef leads circular
  · intro failure failed
    rcases program.unalias_cases type with ⟨_, resolved, -⟩ | ⟨last, outside, -⟩ |
      ⟨last, cyclic, -⟩
    · rw [resolved] at failed
      cases failed
    · rw [outside] at failed
      exact .inl ⟨_, _, (Except.error.inj failed).symm⟩
    · rw [cyclic] at failed
      exact .inr ⟨last, (Except.error.inj failed).symm⟩

/-- Three typedefs, of which each stands for the next one and the third for a
given type. -/
def typedefSteps (type : Ty) : List Draft.Step := [
  .library "app",
  .typedef ⟨0⟩ "A" (.typedef ⟨1⟩),
  .typedef ⟨0⟩ "B" (.typedef ⟨2⟩),
  .typedef ⟨0⟩ "C" type]

def typedefChain (type : Ty) : Program where
  names := .ofTexts #["", "app", "A", "B", "C"]
  libraries := #[⟨⟨1⟩⟩]
  classes := #[]
  members := #[]
  typedefs := #[
    { name := ⟨2⟩, library := ⟨0⟩, aliased := .typedef ⟨1⟩ },
    { name := ⟨3⟩, library := ⟨0⟩, aliased := .typedef ⟨2⟩ },
    { name := ⟨4⟩, library := ⟨0⟩, aliased := type }]
  supertypeTable := #[]
  subclassTable := #[]

theorem typedefChain_drafted (type : Ty) : (typedefChain type).Drafted :=
  ⟨typedefSteps type, _, rfl, rfl⟩

theorem typedefChain_standsFor (type : Ty) :
    Relation.TransGen (typedefChain type).Alias (.typedef ⟨0⟩) type :=
  .head ⟨⟨0⟩, _, rfl, rfl, rfl⟩
    (.head ⟨⟨1⟩, _, rfl, rfl, rfl⟩ (.single ⟨⟨2⟩, _, rfl, rfl, rfl⟩))

/-- A chain through all typedefs of the table is the longest that is resolved.  If
the last of them stands for the first, the chain is circular, and if it stands for
none of the table, the chain ends outside. -/
theorem unalias_resolves_longest_chain :
    (∀ type, (typedefChain type).Drafted) ∧
    (typedefChain .void).unalias (.typedef ⟨0⟩) = .ok .void ∧
    (∃ last, (typedefChain (.typedef ⟨0⟩)).unalias (.typedef ⟨0⟩) =
      .error (.cyclicTypedef last)) ∧
    (typedefChain (.typedef ⟨9⟩)).unalias (.typedef ⟨0⟩) =
      .error (.outOfBounds 3 9) := by
  obtain ⟨resolves, -⟩ :=
    unalias_resolves_finite_chains (typedefChain .void) (.typedef ⟨0⟩)
  obtain ⟨-, -, goesAround, -⟩ :=
    unalias_resolves_finite_chains (typedefChain (.typedef ⟨0⟩)) (.typedef ⟨0⟩)
  obtain ⟨-, leavesTable, -⟩ :=
    unalias_resolves_finite_chains (typedefChain (.typedef ⟨9⟩)) (.typedef ⟨0⟩)
  have leads := fun type => (typedefChain_standsFor type).to_reflTransGen
  exact ⟨typedefChain_drafted, (resolves .void).2 ⟨leads _, rfl⟩,
    goesAround.2 ⟨⟨0⟩, .refl, typedefChain_standsFor _⟩,
    (leavesTable 3 9).2 ⟨leads _, by decide, rfl⟩⟩

end Program

end TreeShaking
