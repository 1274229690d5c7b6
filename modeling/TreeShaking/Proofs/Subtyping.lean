import TreeShaking.Proofs.Drafting

/-!
# Subclasses and subtypes

A class inherits from what it reaches through superclasses, and it is a subtype
of what it reaches through superclasses and interfaces together.  Subclasses are
answered by a walk along the chain of one class and, the other way round, from a
table in which every class was filed along its chain; supertypes are answered
from a table that a climb has filled.  In a program that was built, all of them
answer reachability.

Nothing is asked of interfaces, which may refer to each other in circles.  A draft
whose superclasses run in a circle is not built.
-/

namespace TreeShaking

open Outcome

namespace Hierarchy

variable {classes : Array ClassDecl}

/-- One class names another as its superclass. -/
def Extends (classes : Array ClassDecl) (lower upper : ClassId) : Prop :=
  ∃ decl, fetch classes lower.index = .ok decl ∧ decl.superclass = some upper

/-- What a class inherits from, the class included. -/
def Inherits (classes : Array ClassDecl) : ClassId → ClassId → Prop :=
  Relation.ReflTransGen (Extends classes)

theorem Extends.parent {lower upper : ClassId}
    (edge : Extends classes lower upper) : Parent classes lower upper := by
  obtain ⟨decl, fetched, superclass⟩ := edge
  exact ⟨decl, fetched, by simp [ClassDecl.parents, superclass]⟩

theorem Inherits.above {lower upper : ClassId}
    (inherits : Inherits classes lower upper) : Above classes lower upper :=
  Relation.ReflTransGen.mono (fun _ _ edge => Extends.parent edge) _ _ inherits

theorem inherits_of_mem_chainWithin {fuel : Nat} {cls upper : ClassId}
    {chain : List ClassId} (walked : chainWithin classes fuel cls = .ok chain)
    (onChain : upper ∈ chain) : Inherits classes cls upper := by
  induction fuel generalizing cls chain with
  | zero => cases walked
  | succ fuel ih =>
      obtain ⟨decl, fetched,
          ⟨-, rfl⟩ | ⟨next, rest, superclass, walkedRest, rfl⟩⟩ :=
        chainWithin_succ_eq_ok_iff.1 walked
      · obtain rfl := List.mem_singleton.1 onChain
        exact .refl
      · rcases List.mem_cons.1 onChain with rfl | inRest
        · exact .refl
        · exact .head ⟨decl, fetched, superclass⟩ (ih walkedRest inRest)

/-- The superclass of a class on a chain is on the chain. -/
theorem mem_chainWithin_of_extends {fuel : Nat} {cls middle upper : ClassId}
    {chain : List ClassId} (walked : chainWithin classes fuel cls = .ok chain)
    (onChain : middle ∈ chain) (edge : Extends classes middle upper) :
    upper ∈ chain := by
  obtain ⟨front, back, rfl⟩ := List.append_of_mem onChain
  have walkedMiddle := chainWithin_split walked
  obtain ⟨decl, fetched, superclass⟩ := edge
  cases fuel with
  | zero => cases walked
  | succ fuel =>
      obtain ⟨known, knownFetched,
          ⟨isTop, -⟩ | ⟨next, rest, knownSuperclass, walkedRest, isWhole⟩⟩ :=
        chainWithin_succ_eq_ok_iff.1 walkedMiddle
      · rw [fetched] at knownFetched
        obtain rfl := Except.ok.inj knownFetched
        rw [superclass] at isTop
        cases isTop
      · rw [fetched] at knownFetched
        obtain rfl := Except.ok.inj knownFetched
        rw [superclass] at knownSuperclass
        obtain rfl := Option.some.inj knownSuperclass
        obtain ⟨others, rfl⟩ := exists_cons_of_chainWithin walkedRest
        obtain ⟨-, rfl⟩ := List.cons.inj isWhole
        simp

/-- The chain of a class holds all that the class inherits from. -/
theorem mem_chain_iff {cls upper : ClassId} {chain : List ClassId}
    (walked : Hierarchy.chain classes cls = .ok chain) :
    upper ∈ chain ↔ Inherits classes cls upper := by
  constructor
  · exact inherits_of_mem_chainWithin walked
  · intro inherits
    induction inherits with
    | refl =>
        obtain ⟨rest, rfl⟩ := exists_cons_of_chain walked
        exact List.mem_cons_self
    | tail _ edge onChain => exact mem_chainWithin_of_extends walked onChain edge

end Hierarchy

namespace Program

variable {program : Program} {cls lower upper : ClassId}

/-! ### Questions about two classes -/

theorem isSubclass_eq_ok_true_iff :
    program.isSubclass lower upper = .ok true ↔
      program.HasSuperclass lower upper := by
  simp only [isSubclass, bind_eq_ok_iff, pure_eq_ok_iff, List.contains_iff_mem,
    HasSuperclass]

theorem Built.hasSuperclass_iff (built : program.Built) :
    program.HasSuperclass lower upper ↔
      Succeeds (program.cls lower) ∧
        Hierarchy.Inherits program.classes lower upper := by
  constructor
  · rintro ⟨chain, walked, onChain⟩
    exact ⟨cls_of_superclassChain walked,
      (Hierarchy.mem_chain_iff walked).1 onChain⟩
  · rintro ⟨⟨decl, fetched⟩, inherits⟩
    obtain ⟨chain, walked⟩ := built.exists_superclassChain fetched
    exact ⟨chain, walked, (Hierarchy.mem_chain_iff walked).2 inherits⟩

theorem Built.exists_isSubtype (built : program.Built) {chain : List ClassId}
    (walked : program.superclassChain cls = .ok chain) (bound : ClassId) :
    ∃ answer, program.isSubtype cls bound = .ok answer := by
  obtain ⟨decl, fetched⟩ := cls_of_superclassChain walked
  obtain ⟨found, stored⟩ := built.exists_supertypes fetched
  unfold isSubtype
  split
  · exact ⟨true, rfl⟩
  · rw [stored]
    exact ⟨_, rfl⟩

theorem Built.isSubtype_eq_ok_true_iff (built : program.Built) :
    program.isSubtype lower upper = .ok true ↔
      Hierarchy.Above program.classes lower upper := by
  unfold isSubtype
  split
  · rename_i same
    subst same
    exact ⟨fun _ => .refl, fun _ => rfl⟩
  · rename_i different
    simp only [bind_eq_ok_iff, pure_eq_ok_iff, List.contains_iff_mem]
    constructor
    · rintro ⟨found, stored, present⟩
      exact ((Hierarchy.mem_supertypes_iff (built.supertypes_eq stored)).1
        present).2
    · intro above
      -- A class that has something else above it has a declaration.
      obtain same | ⟨next, ⟨decl, fetched, -⟩, -⟩ := above.cases_head
      · exact absurd same different
      · obtain ⟨found, stored⟩ := built.exists_supertypes fetched
        exact ⟨found, stored,
          (Hierarchy.mem_supertypes_iff (built.supertypes_eq stored)).2
            ⟨Ne.symm different, above⟩⟩

/-! ### The table of subclasses -/

theorem Built.exists_subclasses (built : program.Built) {decl : ClassDecl}
    (fetched : program.cls cls = .ok decl) :
    ∃ heirs, program.subclasses cls = .ok heirs := by
  obtain ⟨chains, -, isTable⟩ := built.exists_chains
  rw [Program.cls, fetch_eq_ok_iff, Array.getElem?_eq_some_iff] at fetched
  obtain ⟨bound, -⟩ := fetched
  have listed := (Handle.getElem?_upTo).2 ⟨bound, (rfl : cls = ⟨cls.index⟩)⟩
  obtain ⟨heirs, found⟩ : ∃ heirs,
      program.subclassTable[cls.index]? = some heirs := by
    rw [isTable, List.getElem?_toArray, List.getElem?_map, listed]
    exact ⟨_, rfl⟩
  exact ⟨heirs, fetch_eq_ok_iff.2 found⟩

/-- The subclasses of a class are listed in ascending order. -/
theorem Built.pairwise_subclasses (built : program.Built)
    {heirs : List ClassId} (stored : program.subclasses cls = .ok heirs) :
    heirs.Pairwise (fun first second => first.index < second.index) := by
  obtain ⟨chains, walked, isTable⟩ := built.exists_chains
  rw [subclasses, fetch_eq_ok_iff, isTable, List.getElem?_toArray,
    List.getElem?_map, Option.map_eq_some_iff] at stored
  obtain ⟨element, -, rfl⟩ := stored
  have size := (mapM_eq_ok_iff.1 walked).length_eq
  -- They are a part of all classes, and these are listed in ascending order.
  refine (Handle.pairwise_upTo program.classes.size).sublist ?_
  nth_rewrite 2 [← List.map_fst_zip (Nat.le_of_eq size)]
  exact List.filter_sublist.map Prod.fst

/-! ### Reachability -/

/-- In a program that was built, subtypes are what is reached through superclasses
and interfaces, subclasses what is reached through superclasses, and the stored
supertypes and subclasses list them without repetition. -/
theorem closures_are_reachability (built : program.Built) :
    (∀ lower upper, program.isSubtype lower upper = .ok true ↔
      Hierarchy.Above program.classes lower upper) ∧
    (∀ lower upper, program.isSubclass lower upper = .ok true ↔
      Succeeds (program.cls lower) ∧
        Hierarchy.Inherits program.classes lower upper) ∧
    (∀ cls, Succeeds (program.cls cls) →
      (∀ upper, Succeeds (program.isSubtype cls upper)) ∧
      (∀ upper, Succeeds (program.isSubclass cls upper)) ∧
      (∃ found, program.supertypes cls = .ok found ∧ cls ∉ found ∧
        found.Nodup ∧ ∀ upper, upper ∈ found ↔
          upper ≠ cls ∧ Hierarchy.Above program.classes cls upper) ∧
      (∃ heirs, program.subclasses cls = .ok heirs ∧
        heirs.Pairwise (fun first second => first.index < second.index) ∧
        ∀ lower, lower ∈ heirs ↔ program.isSubclass lower cls = .ok true) ∧
      program.isSubtype cls cls = .ok true ∧
      program.isSubclass cls cls = .ok true) ∧
    (∀ lower middle upper, program.isSubtype lower middle = .ok true →
      program.isSubtype middle upper = .ok true →
        program.isSubtype lower upper = .ok true) ∧
    (∀ lower middle upper, program.isSubclass lower middle = .ok true →
      program.isSubclass middle upper = .ok true →
        program.isSubclass lower upper = .ok true) ∧
    ∀ lower upper, program.isSubclass lower upper = .ok true →
      program.isSubtype lower upper = .ok true := by
  have subtype : ∀ lower upper, program.isSubtype lower upper = .ok true ↔
      Hierarchy.Above program.classes lower upper :=
    fun _ _ => built.isSubtype_eq_ok_true_iff
  have subclass : ∀ lower upper, program.isSubclass lower upper = .ok true ↔
      Succeeds (program.cls lower) ∧
        Hierarchy.Inherits program.classes lower upper :=
    fun _ _ => isSubclass_eq_ok_true_iff.trans built.hasSuperclass_iff
  refine ⟨subtype, subclass, ?_, ?_, ?_, ?_⟩
  · rintro cls ⟨decl, fetched⟩
    obtain ⟨chain, walked⟩ := built.exists_superclassChain fetched
    obtain ⟨found, stored⟩ := built.exists_supertypes fetched
    obtain ⟨heirs, listed⟩ := built.exists_subclasses fetched
    have climbed := built.supertypes_eq stored
    have distinct := Hierarchy.nodup_supertypes climbed
    refine ⟨built.exists_isSubtype walked,
      fun upper => Succeeds.bind ⟨chain, walked⟩ fun _ _ => .pure _,
      ⟨found, stored, distinct.1, distinct.2,
        fun upper => Hierarchy.mem_supertypes_iff climbed⟩,
      ⟨heirs, listed, built.pairwise_subclasses listed, fun lower => ?_⟩,
      (subtype cls cls).2 .refl, (subclass cls cls).2 ⟨⟨decl, fetched⟩, .refl⟩⟩
    exact (built.mem_subclasses_iff listed).trans
      isSubclass_eq_ok_true_iff.symm
  · intro lower middle upper first second
    rw [subtype] at first second ⊢
    exact first.trans second
  · intro lower middle upper first second
    rw [subclass] at first second ⊢
    exact ⟨first.1, first.2.trans second.2⟩
  · intro lower upper below
    rw [subclass] at below
    exact (subtype lower upper).2 below.2.above

def ringSteps : List Draft.Step := [
  .library "app", .cls ⟨0⟩ "Root" none, .cls ⟨0⟩ "First" none,
  .cls ⟨0⟩ "Second" none, .cls ⟨0⟩ "Leaf" (some ⟨0⟩),
  .addInterface ⟨1⟩ ⟨1⟩, .addInterface ⟨1⟩ ⟨2⟩, .addInterface ⟨2⟩ ⟨1⟩,
  .addInterface ⟨3⟩ ⟨1⟩, .addInterface ⟨3⟩ ⟨1⟩]

/-- Two interfaces that extend each other, one of them also itself, and a class
that implements them and has a superclass. -/
def ringProgram : Program where
  names := .ofTexts #["", "app", "Root", "First", "Second", "Leaf"]
  libraries := #[{ name := ⟨1⟩ }]
  classes := #[
    { name := ⟨2⟩, library := ⟨0⟩, superclass := none },
    { name := ⟨3⟩, library := ⟨0⟩, superclass := none
      interfaces := [⟨1⟩, ⟨2⟩] },
    { name := ⟨4⟩, library := ⟨0⟩, superclass := none, interfaces := [⟨1⟩] },
    { name := ⟨5⟩, library := ⟨0⟩, superclass := some ⟨0⟩
      interfaces := [⟨1⟩, ⟨1⟩] }]
  members := #[]
  typedefs := #[]
  supertypeTable := #[[], [⟨2⟩], [⟨1⟩], [⟨0⟩, ⟨1⟩, ⟨2⟩]]
  subclassTable := #[[⟨0⟩, ⟨3⟩], [⟨1⟩], [⟨2⟩], [⟨3⟩]]

theorem ringProgram_drafted : ringProgram.Drafted :=
  ⟨ringSteps, _, rfl, rfl⟩

/-- The leaf reaches the interface that it does not name, and not as a
superclass; the interfaces do not reach the root. -/
theorem closures_are_reachability_in_ring :
    Hierarchy.Above ringProgram.classes ⟨3⟩ ⟨2⟩ ∧
      ¬ Hierarchy.Inherits ringProgram.classes ⟨3⟩ ⟨2⟩ ∧
      ¬ Hierarchy.Above ringProgram.classes ⟨2⟩ ⟨0⟩ ∧
      ringProgram.supertypes ⟨3⟩ = .ok [⟨0⟩, ⟨1⟩, ⟨2⟩] := by
  obtain ⟨subtype, subclass, -⟩ :=
    closures_are_reachability ringProgram_drafted.built
  refine ⟨(subtype _ _).1 rfl, fun inherits => ?_, fun above => ?_, rfl⟩
  · have below := (subclass ⟨3⟩ ⟨2⟩).2 ⟨⟨_, rfl⟩, inherits⟩
    cases below
  · have below := (subtype _ _).2 above
    cases below

end Program

end TreeShaking
