import Mathlib.Data.List.Chain
import TreeShaking.Proofs.Subtyping

/-!
# What a built program is made of

Nothing checks a superclass or an interface when it is declared.  Building the
program does: the climb from a class follows every edge that it meets, and a climb
starts at every class, so that a parent outside the table is always met
(`Built.parent_lt`).  Conversely, if superclasses do not run in a circle, nothing
else can stop the building (`stray_of_build`), since there has been a handle for
every class.  Together with the lists of members, which are kept complete while
the program is declared, this makes every later question about classes of the
program safe.
-/

namespace TreeShaking

open Outcome

namespace Hierarchy

variable {classes : Array ClassDecl} {failure : Failure}

/-- No class inherits from itself. -/
def Acyclic (classes : Array ClassDecl) : Prop :=
  ∀ cls, ¬ Relation.TransGen (Extends classes) cls cls

/-- Superclasses that are declared before their subclasses never run in a
circle. -/
theorem acyclic_of_extends_lt
    (descends : ∀ lower upper, Extends classes lower upper →
      upper.index < lower.index) : Acyclic classes := by
  have below : ∀ lower upper, Relation.TransGen (Extends classes) lower upper →
      upper.index < lower.index := by
    intro lower upper path
    induction path with
    | single edge => exact descends _ _ edge
    | tail _ edge ih => exact Nat.lt_trans (descends _ _ edge) ih
  exact fun cls circle => Nat.lt_irrefl _ (below cls cls circle)

/-- A class names a parent that is not in the table. -/
def Stray (classes : Array ClassDecl) (parent : ClassId) : Prop :=
  (∃ cls, Parent classes cls parent) ∧ classes.size ≤ parent.index

/-- Whoever arrives outside the table has left it along a stored edge. -/
theorem stray_of_above {cls outside : ClassId} (inTable : cls.index < classes.size)
    (above : Above classes cls outside)
    (isOutside : classes.size ≤ outside.index) : Stray classes outside := by
  cases above with
  | refl => exact absurd inTable (Nat.not_lt.2 isOutside)
  | tail _ edge => exact ⟨⟨_, edge⟩, isOutside⟩

/-- A climb fails only where it arrives outside the table. -/
theorem outside_of_climb {fuel : Nat} {pending met : List ClassId}
    (failed : climb classes fuel pending met = .error failure) :
    ∃ start ∈ pending, ∃ outside, Above classes start outside ∧
      classes.size ≤ outside.index ∧
        failure = .outOfBounds classes.size outside.index := by
  induction fuel generalizing pending met with
  | zero => cases pending <;> cases failed
  | succ fuel ih =>
      cases pending with
      | nil => cases failed
      | cons next pending =>
          rw [climb, bind_eq_error_iff] at failed
          rcases failed with unfetched | ⟨decl, fetched, failed⟩
          · exact ⟨next, List.mem_cons_self, next, .refl,
              fetch_eq_error_iff.1 unfetched⟩
          · obtain ⟨start, started, outside, above, isOutside⟩ := ih failed
            rcases List.mem_append.1 started with old | fresh
            · exact ⟨start, List.mem_cons_of_mem _ old, outside, above, isOutside⟩
            · rw [List.mem_eraseDups, List.mem_filter] at fresh
              have edge : Parent classes next start := ⟨decl, fetched, fresh.1⟩
              exact ⟨next, List.mem_cons_self, outside, above.head edge, isOutside⟩

/-- A walk along superclasses fails where it arrives outside the table, or else it
has run out of fuel. -/
theorem outside_or_walk_of_chainWithin {fuel : Nat} {cls : ClassId}
    (failed : chainWithin classes fuel cls = .error failure) :
    (∃ outside, Inherits classes cls outside ∧ classes.size ≤ outside.index ∧
      failure = .outOfBounds classes.size outside.index) ∨
    ∃ walk : List ClassId, walk.length = fuel ∧ walk.IsChain (Extends classes) ∧
      (∀ first ∈ walk.head?, first = cls) ∧
      ∀ visited ∈ walk, ∃ decl, fetch classes visited.index = .ok decl := by
  induction fuel generalizing cls with
  | zero => exact .inr ⟨[], rfl, .nil, by simp, by simp⟩
  | succ fuel ih =>
      rw [chainWithin, bind_eq_error_iff] at failed
      rcases failed with unfetched | ⟨decl, fetched, failed⟩
      · exact .inl ⟨cls, .refl, fetch_eq_error_iff.1 unfetched⟩
      · cases superclass : decl.superclass with
        | none =>
            rw [superclass] at failed
            cases failed
        | some above =>
            simp only [superclass, bind_eq_error_iff] at failed
            rcases failed with failed | ⟨rest, -, impossible⟩
            · have edge : Extends classes cls above := ⟨decl, fetched, superclass⟩
              rcases ih failed with
                ⟨outside, inherits, isOutside⟩ | ⟨walk, length, isWalk, first, inTable⟩
              · exact .inl ⟨outside, .head edge inherits, isOutside⟩
              · refine .inr ⟨cls :: walk, by simp [length],
                  List.isChain_cons.2 ⟨fun next isNext => ?_, isWalk⟩, by simp, ?_⟩
                · rw [first next isNext]
                  exact edge
                · exact List.forall_mem_cons.2 ⟨⟨decl, fetched⟩, inTable⟩
            · cases impossible

/-- A walk along superclasses that do not run in a circle visits no class twice. -/
theorem Acyclic.nodup (acyclic : Acyclic classes) {walk : List ClassId}
    (isWalk : walk.IsChain (Extends classes)) : walk.Nodup := by
  have paths : walk.Pairwise (Relation.TransGen (Extends classes)) :=
    (isWalk.imp fun _ _ edge => .single edge).pairwise
  refine paths.imp fun {lower upper} path same => ?_
  subst same
  exact acyclic lower path

theorem Acyclic.outside_of_chain (acyclic : Acyclic classes) {cls : ClassId}
    (failed : Hierarchy.chain classes cls = .error failure) :
    ∃ outside, Inherits classes cls outside ∧ classes.size ≤ outside.index ∧
      failure = .outOfBounds classes.size outside.index := by
  rcases outside_or_walk_of_chainWithin failed with
    outside | ⟨walk, length, isWalk, -, inTable⟩
  · exact outside
  · -- More classes would have been visited than the table has.
    have bound := Handle.length_le_size (acyclic.nodup isWalk) inTable
    omega

end Hierarchy

/-! ### Building -/

/-- Only a parent outside the table stops the building of a program whose
superclasses do not run in a circle. -/
theorem Draft.stray_of_build {draft : Draft} {failure : Failure}
    (fits : draft.Fits) (acyclic : Hierarchy.Acyclic draft.classes)
    (failed : draft.build = .error failure) :
    ∃ parent, Hierarchy.Stray draft.classes parent ∧
      failure = .outOfBounds draft.classes.size parent.index := by
  have enough : (handles draft.classes : Except Failure (List ClassId)) =
      .ok (Handle.upTo draft.classes.size) :=
    handles_eq_ok_iff.2 ⟨fits.classes, rfl⟩
  rw [build, enough] at failed
  obtain ⟨all, numbered, failed⟩ :=
    (bind_eq_error_iff.1 failed).resolve_left (by simp)
  obtain rfl := Except.ok.inj numbered
  rcases bind_eq_error_iff.1 failed with unclimbed | ⟨above, -, failed⟩
  · obtain ⟨cls, listed, failed⟩ := exists_failure_of_mapM unclimbed
    rw [Hierarchy.supertypes, bind_eq_error_iff] at failed
    rcases failed with failed | ⟨met, -, impossible⟩
    · obtain ⟨start, started, outside, above, isOutside, isFailure⟩ :=
        Hierarchy.outside_of_climb failed
      obtain rfl := List.mem_singleton.1 started
      exact ⟨outside, Hierarchy.stray_of_above (Handle.mem_upTo.1 listed) above
        isOutside, isFailure⟩
    · cases impossible
  · rcases bind_eq_error_iff.1 failed with unlisted | ⟨below, -, impossible⟩
    · obtain ⟨cls, listed, unwalked⟩ :=
        Hierarchy.exists_failure_of_subclasses unlisted
      obtain ⟨outside, inherits, isOutside, isFailure⟩ :=
        acyclic.outside_of_chain unwalked
      exact ⟨outside, Hierarchy.stray_of_above (Handle.mem_upTo.1 listed)
        inherits.above isOutside, isFailure⟩
    · cases impossible

namespace Program

variable {program : Program} {cls : ClassId}

/-- Building has met every parent in the table. -/
theorem Built.parent_lt (built : program.Built) {lower upper : ClassId}
    (edge : Hierarchy.Parent program.classes lower upper) :
    upper.index < program.classes.size := by
  obtain ⟨decl, fetched, isParent⟩ := edge
  obtain ⟨found, stored⟩ := built.exists_supertypes fetched
  have climbed := built.supertypes_eq stored
  obtain ⟨known, isFetched⟩ : ∃ known,
      fetch program.classes upper.index = .ok known := by
    by_cases same : upper = lower
    · exact ⟨decl, same ▸ fetched⟩
    · exact Hierarchy.fetched_of_mem_supertypes climbed
        ((Hierarchy.mem_supertypes_iff climbed).2
          ⟨same, .single ⟨decl, fetched, isParent⟩⟩)
  rw [fetch_eq_ok_iff] at isFetched
  exact (Array.getElem?_eq_some_iff.1 isFetched).1

/-- The questions about a class that can be asked of a program have answers. -/
structure AnswersAbout (program : Program) (cls : ClassId) : Prop where
  supertypes : Succeeds (program.supertypes cls)
  subclasses : Succeeds (program.subclasses cls)
  superclassChain : Succeeds (program.superclassChain cls)
  isSubclass : ∀ upper, Succeeds (program.isSubclass cls upper)
  isSubtype : ∀ upper, Succeeds (program.isSubtype cls upper)
  classMembers : Succeeds (program.classMembers cls)
  lookupMember : ∀ name setter, Succeeds (program.lookupMember cls name setter)

theorem Drafted.answersAbout (drafted : program.Drafted)
    (inTable : cls.index < program.classes.size) : program.AnswersAbout cls := by
  have fetched : program.cls cls = .ok program.classes[cls.index] :=
    fetch_eq_ok_iff.2 (Array.getElem?_eq_getElem inTable)
  obtain ⟨chain, walked⟩ := drafted.built.exists_superclassChain fetched
  obtain ⟨declared, -, inherits⟩ := drafted.exists_inheritedMembers walked
  exact {
    supertypes := drafted.built.exists_supertypes fetched
    subclasses := drafted.built.exists_subclasses fetched
    superclassChain := ⟨chain, walked⟩
    isSubclass := fun _ => Succeeds.bind ⟨chain, walked⟩ fun _ _ => .pure _
    isSubtype := drafted.built.exists_isSubtype walked
    classMembers := Succeeds.bind ⟨_, inherits⟩ fun _ _ => .pure _
    lookupMember := fun _ _ => Succeeds.bind ⟨_, inherits⟩ fun _ _ => .pure _ }

end Program

namespace Draft

/-- Whatever has been declared without superclasses in a circle, building gives a
program in which classes list exactly their members, in ascending order, all
parents are in the table, and every question about a class has an answer; or it
fails, namely if a parent is not in the table. -/
theorem build_represents_declarations {steps : List Step}
    {draft : Draft} (performed : ({} : Draft).performAll steps = .ok draft)
    (acyclic : Hierarchy.Acyclic draft.classes) :
    (∀ program, draft.build = .ok program →
      (∀ cls decl, program.cls cls = .ok decl →
        decl.members.Pairwise
          (fun first second => first.index < second.index) ∧
        (∀ member, member ∈ decl.members ↔ ∃ declared,
          program.member member = .ok declared ∧ declared.owner = some cls) ∧
        ∀ parent ∈ decl.parents, parent.index < program.classes.size) ∧
      ∀ cls, cls.index < program.classes.size → program.AnswersAbout cls) ∧
    ((∃ failure, draft.build = .error failure) ↔
      ∃ parent, Hierarchy.Stray draft.classes parent) ∧
    ∀ failure, draft.build = .error failure →
      ∃ parent, Hierarchy.Stray draft.classes parent ∧
        failure = .outOfBounds draft.classes.size parent.index := by
  have fits := fits_of_performAll performed
  refine ⟨fun program built => ?_, ⟨?_, ?_⟩, fun failure =>
    draft.stray_of_build fits acyclic⟩
  · have drafted : program.Drafted := ⟨steps, draft, performed, built⟩
    refine ⟨fun cls decl fetched => ⟨?_, ?_, ?_⟩, fun cls => drafted.answersAbout⟩
    · rw [drafted.members_eq fetched]
      exact Catalogue.pairwise_ownedBy _ cls
    · exact fun member => drafted.mem_members_iff fetched
    · exact fun parent isParent =>
        drafted.built.parent_lt ⟨decl, fetched, isParent⟩
  · rintro ⟨failure, failed⟩
    obtain ⟨parent, stray, -⟩ := draft.stray_of_build fits acyclic failed
    exact ⟨parent, stray⟩
  · rintro ⟨parent, ⟨cls, edge⟩, isOutside⟩
    cases built : draft.build with
    | error failure => exact ⟨failure, rfl⟩
    | ok program =>
        have classes : program.classes = draft.classes := by
          simp only [Draft.build, bind_eq_ok_iff, pure_eq_ok_iff] at built
          obtain ⟨-, -, -, -, -, -, rfl⟩ := built
          rfl
        rw [← classes] at edge isOutside
        have bound := Program.Built.parent_lt ⟨draft, built⟩ edge
        exact absurd isOutside (Nat.not_le.2 bound)

/-- A class with a superclass, an interface that extends itself, and members in
between. -/
def kinSteps (implemented : ClassId) : List Step := [
  .library "app", .cls ⟨0⟩ "Base" none, .cls ⟨0⟩ "Derived" (some ⟨0⟩),
  .classMember ⟨1⟩ "size" .getter, .function ⟨0⟩ "main" {},
  .classMember ⟨0⟩ "run" (.method {}), .cls ⟨0⟩ "Marker" none,
  .classMember ⟨1⟩ "size" .setter, .addInterface ⟨1⟩ implemented,
  .addInterface ⟨2⟩ ⟨2⟩]

def kinDraft (implemented : ClassId) : Draft where
  names := .ofTexts
    #["", "app", "Base", "Derived", "size", "main", "run", "Marker"]
  libraries := #[{ name := ⟨1⟩ }]
  classes := #[
    { name := ⟨2⟩, library := ⟨0⟩, superclass := none, members := [⟨2⟩] },
    { name := ⟨3⟩, library := ⟨0⟩, superclass := some ⟨0⟩
      interfaces := [implemented], members := [⟨0⟩, ⟨3⟩] },
    { name := ⟨7⟩, library := ⟨0⟩, superclass := none, interfaces := [⟨2⟩] }]
  members := #[
    { name := ⟨4⟩, library := ⟨0⟩, owner := some ⟨1⟩, kind := .getter },
    { name := ⟨5⟩, library := ⟨0⟩, owner := none, kind := .function
      isStatic := true },
    { name := ⟨6⟩, library := ⟨0⟩, owner := some ⟨0⟩, kind := .method },
    { name := ⟨4⟩, library := ⟨0⟩, owner := some ⟨1⟩, kind := .setter
      parameters := { required := 1 } }]

theorem kinDraft_acyclic (implemented : ClassId) :
    Hierarchy.Acyclic (kinDraft implemented).classes := by
  apply Hierarchy.acyclic_of_extends_lt
  rintro ⟨lower⟩ upper ⟨decl, fetched, superclass⟩
  rw [fetch_eq_ok_iff] at fetched
  match lower, fetched with
  | 0, fetched | 2, fetched =>
      obtain rfl := Option.some.inj fetched
      cases superclass
  | 1, fetched =>
      obtain rfl := Option.some.inj fetched
      obtain rfl := Option.some.inj superclass
      decide

/-- The declarations give a program if the interface exists, and they fail
otherwise. -/
theorem build_represents_kin :
    ({} : Draft).performAll (kinSteps ⟨2⟩) = .ok (kinDraft ⟨2⟩) ∧
      (∃ program, (kinDraft ⟨2⟩).build = .ok program ∧
        program.AnswersAbout ⟨1⟩) ∧
      ({} : Draft).performAll (kinSteps ⟨9⟩) = .ok (kinDraft ⟨9⟩) ∧
      ∃ failure, (kinDraft ⟨9⟩).build = .error failure := by
  have declares : ∀ implemented, ({} : Draft).performAll (kinSteps implemented) =
      .ok (kinDraft implemented) := fun _ => rfl
  obtain ⟨program, built, size⟩ : ∃ program,
      (kinDraft ⟨2⟩).build = .ok program ∧ program.classes.size = 3 :=
    ⟨_, rfl, rfl⟩
  refine ⟨declares _, ⟨program, built, ?_⟩, declares _, ?_⟩
  · exact ((build_represents_declarations (declares ⟨2⟩)
      (kinDraft_acyclic _)).1 program built).2 ⟨1⟩ (by rw [size]; decide)
  · have stray : Hierarchy.Stray (kinDraft ⟨9⟩).classes ⟨9⟩ :=
      ⟨⟨⟨1⟩, _, rfl, List.mem_cons_of_mem _ List.mem_cons_self⟩, by decide⟩
    exact (build_represents_declarations (declares ⟨9⟩)
      (kinDraft_acyclic _)).2.1.2 ⟨_, stray⟩

end Draft

end TreeShaking
