import TreeShaking.Proofs.Account.Basic
import TreeShaking.Proofs.Subtyping

/-!
# What a set of receivers stands for

A constraint can hit the members of a class if some live class inherits them and is
accepted (`Constraint.canHit_eq_ok_true_iff`): the table of subclasses, from which
the answer is computed, and the supertypes, by which a class is accepted, describe
the same receivers.

A set to which constraints are added one after the other stands for all of them
together, in whatever order they come (`ReceiverSet.ofList_eq`).  It is asked
constraint by constraint in the order of arrival, up to the first that gives a
positive answer.  So one that has no answer, since it names a class outside the
table, keeps those after it from being asked.
-/

namespace TreeShaking

open Outcome

/-! ### One constraint -/

variable {program : Program} {live : LiveClasses}

/-- The superclasses of a class in the table can be walked through. -/
theorem Program.Built.absent_of_superclassChain (built : program.Built)
    {cls : ClassId} {failure : Failure}
    (failed : program.superclassChain cls = .error failure) :
    program.classes.size ≤ cls.index ∧
      failure = .outOfBounds program.classes.size cls.index := by
  cases fetched : program.cls cls with
  | ok decl =>
      obtain ⟨chain, walked⟩ := built.exists_superclassChain fetched
      rw [walked] at failed
      cases failed
  | error reason =>
      rw [superclassChain, Hierarchy.chain, Hierarchy.chainWithin,
        bind_eq_error_iff] at failed
      rcases failed with failed | ⟨decl, present, -⟩
      · exact fetch_eq_error_iff.1 failed
      · cases fetched.symm.trans present

namespace Constraint

variable {constraint : Constraint} {declarer : ClassId}

/-- The constraint names a live class that is not in the table, as the failure
reports. -/
def NamesAbsent (program : Program) (live : LiveClasses)
    (constraint : Constraint) (failure : Failure) : Prop :=
  ∃ cls, constraint = .exact cls ∧ isLive live cls = true ∧
    program.classes.size ≤ cls.index ∧
      failure = .outOfBounds program.classes.size cls.index

/-- Whether a constraint can hit the members of a class cannot be told if it names
a live class that is not in the table, and only then. -/
theorem canHit_eq_error_iff (built : program.Built) {decl : ClassDecl}
    (fetched : program.cls declarer = .ok decl) {failure : Failure} :
    constraint.canHit program live declarer = .error failure ↔
      constraint.NamesAbsent program live failure := by
  constructor
  · intro failed
    cases constraint with
    | unconstrained => cases failed
    | exact cls =>
        rw [canHit] at failed
        split at failed
        · rename_i counts
          rcases bind_eq_error_iff.1 failed with
            unwalked | ⟨chain, -, impossible⟩
          · exact ⟨cls, rfl, counts, built.absent_of_superclassChain unwalked⟩
          · cases impossible
        · cases failed
    | subtype bound =>
        obtain ⟨heirs, stored⟩ := built.exists_subclasses fetched
        rcases bind_eq_error_iff.1 failed with
          unstored | ⟨others, isStored, failed⟩
        · rw [stored] at unstored
          cases unstored
        · obtain ⟨heir, isHeir, fails⟩ := exists_failure_of_anyM failed
          obtain ⟨chain, walked, -⟩ :=
            (built.mem_subclasses_iff isStored).1 isHeir
          obtain ⟨answer, answered⟩ := built.exists_isSubtype walked bound
          rw [answered] at fails
          split at fails
          · cases fails
          · cases fails
  · rintro ⟨cls, rfl, counts, absent, rfl⟩
    rw [canHit, if_pos counts, Program.isSubclass, Program.superclassChain,
      Hierarchy.chain, Hierarchy.chainWithin,
      fetch_eq_error_iff.2 ⟨absent, rfl⟩]
    rfl

/-- A constraint on the receiver can hit the members of a class if a live class
inherits them and is accepted. -/
theorem canHit_eq_ok_true_iff (built : program.Built)
    (constrained : constraint ≠ .unconstrained) :
    constraint.canHit program live declarer = .ok true ↔
      ∃ cls, isLive live cls = true ∧
        program.isSubclass cls declarer = .ok true ∧
          constraint.accepts program cls = .ok true := by
  cases constraint with
  | unconstrained => exact absurd rfl constrained
  | exact only =>
      rw [canHit]
      constructor
      · intro hits
        split at hits
        · rename_i counts
          exact ⟨only, counts, hits, by simp [accepts]⟩
        · cases hits
      · rintro ⟨cls, counts, inherits, accepted⟩
        obtain rfl : cls = only := by simpa [accepts] using accepted
        rw [if_pos counts]
        exact inherits
  | subtype bound =>
      rw [canHit, bind_eq_ok_iff]
      constructor
      · rintro ⟨heirs, stored, found⟩
        obtain ⟨heir, isHeir, passes⟩ := exists_of_anyM found
        split at passes
        · rename_i counts
          exact ⟨heir, counts, Program.isSubclass_eq_ok_true_iff.2
            ((built.mem_subclasses_iff stored).1 isHeir), passes⟩
        · cases passes
      · rintro ⟨cls, counts, inherits, accepted⟩
        obtain ⟨chain, walked, onChain⟩ :=
          Program.isSubclass_eq_ok_true_iff.1 inherits
        obtain ⟨rest, walkedRest, -⟩ := Hierarchy.chain_suffix walked onChain
        obtain ⟨decl, fetched⟩ := Program.cls_of_superclassChain walkedRest
        obtain ⟨heirs, stored⟩ := built.exists_subclasses fetched
        refine ⟨heirs, stored, anyM_eq_ok_true (fun heir isHeir => ?_)
          ((built.mem_subclasses_iff stored).2 ⟨chain, walked, onChain⟩) ?_⟩
        · obtain ⟨heirChain, walkedHeir, -⟩ :=
            (built.mem_subclasses_iff stored).1 isHeir
          split
          · exact built.exists_isSubtype walkedHeir bound
          · exact ⟨false, rfl⟩
        · rw [if_pos counts]
          exact accepted

/-- A constraint that accepts a class can hit what the class inherits. -/
theorem canHit_of_accepts (built : program.Built) {cls : ClassId}
    {chain : List ClassId} (walked : program.superclassChain cls = .ok chain)
    (onChain : declarer ∈ chain)
    (accepted : constraint.accepts program cls = .ok true) :
    constraint.canHit program none declarer = .ok true := by
  by_cases constrained : constraint = .unconstrained
  · rw [constrained]
    rfl
  · exact (canHit_eq_ok_true_iff built constrained).2 ⟨cls, rfl,
      Program.isSubclass_eq_ok_true_iff.2 ⟨chain, walked, onChain⟩, accepted⟩

/-- What is hit while some classes count as receivers is hit if all do. -/
theorem canHit_of_live (built : program.Built)
    (hits : constraint.canHit program live declarer = .ok true) :
    constraint.canHit program none declarer = .ok true := by
  by_cases constrained : constraint = .unconstrained
  · rw [constrained]
    rfl
  · obtain ⟨cls, -, inherits, accepted⟩ :=
      (canHit_eq_ok_true_iff built constrained).1 hits
    exact (canHit_eq_ok_true_iff built constrained).2
      ⟨cls, rfl, inherits, accepted⟩

theorem succeeds_accepts (built : program.Built) {cls : ClassId}
    (declared : Succeeds (program.cls cls)) (constraint : Constraint) :
    Succeeds (constraint.accepts program cls) := by
  obtain ⟨decl, fetched⟩ := declared
  cases constraint with
  | unconstrained | exact => exact .ok _
  | subtype bound =>
      obtain ⟨chain, walked⟩ := built.exists_superclassChain fetched
      exact built.exists_isSubtype walked bound

end Constraint

/-! ### Constraints that are added one after the other -/

namespace ReceiverSet

/-- The set to which the given constraints have been added in turn. -/
def ofList (added : List Constraint) : ReceiverSet :=
  added.foldl (fun receivers constraint => (receivers.add constraint).2) {}

/-- The constraints, of those that are added in turn, at which the set grows. -/
def growths : ReceiverSet → List Constraint → List Constraint
  | _, [] => []
  | receivers, constraint :: rest =>
      if (receivers.add constraint).1 then
        constraint :: growths (receivers.add constraint).2 rest
      else
        growths (receivers.add constraint).2 rest

/-- The set of given constraints: all receivers if nothing is known about one, and
else each constraint where it first comes up. -/
def summary (added : List Constraint) : ReceiverSet :=
  if .unconstrained ∈ added then
    { isAll := true }
  else
    { constraints := added.eraseDups }

theorem add_summary (added : List Constraint) (constraint : Constraint) :
    (summary added).add constraint =
      (decide (.unconstrained ∉ added ∧ constraint ∉ added),
        summary (added ++ [constraint])) := by
  unfold summary
  by_cases all : .unconstrained ∈ added
  · simp [all, add]
  · rw [if_neg all]
    by_cases isUnconstrained : constraint = .unconstrained
    · simp [add, isUnconstrained, all]
    · have stillNotAll : .unconstrained ∉ added ++ [constraint] := by
        simp [all, Ne.symm isUnconstrained]
      rw [if_neg stillNotAll, List.eraseDups_append]
      by_cases present : constraint ∈ added
      · simp [add, isUnconstrained, present, List.removeAll]
      · simp [add, isUnconstrained, present, all, List.removeAll,
          List.eraseDups_cons]

theorem foldl_add_summary (before added : List Constraint) :
    added.foldl (fun receivers constraint => (receivers.add constraint).2)
      (summary before) = summary (before ++ added) := by
  induction added generalizing before with
  | nil => simp
  | cons constraint rest ih =>
      rw [List.foldl_cons, add_summary, ih, List.append_assoc,
        List.singleton_append]

theorem ofList_eq (added : List Constraint) : ofList added = summary added :=
  foldl_add_summary [] added

/-- A set grows at a constraint only where it first comes up. -/
theorem nodup_growths (before added : List Constraint) :
    (growths (summary before) added).Nodup ∧
      ∀ constraint ∈ growths (summary before) added, constraint ∉ before := by
  induction added generalizing before with
  | nil => simp [growths]
  | cons constraint rest ih =>
      obtain ⟨distinct, isNew⟩ := ih (before ++ [constraint])
      have later : ∀ other ∈ growths (summary (before ++ [constraint])) rest,
          other ∉ before ∧ other ≠ constraint := by
        intro other grows
        simpa using isNew other grows
      rw [growths, add_summary]
      split
      · rename_i grew
        simp only [decide_eq_true_eq] at grew
        refine ⟨List.nodup_cons.2 ⟨fun again => (later _ again).2 rfl, distinct⟩,
          List.forall_mem_cons.2 ⟨grew.2, fun other grows => (later _ grows).1⟩⟩
      · exact ⟨distinct, fun other grows => (later _ grows).1⟩

/-- The set is asked as the constraints that were added would be. -/
theorem canHit_ofList (added : List Constraint) (program : Program)
    (live : LiveClasses) (declarer : ClassId) :
    (ofList added).canHit program live declarer =
      if .unconstrained ∈ added then
        .ok true
      else
        added.anyM (Constraint.canHit program live declarer) := by
  rw [ofList_eq, summary]
  split
  · rfl
  · exact anyM_eraseDups _ added

theorem accepts_ofList (added : List Constraint) (program : Program)
    (cls : ClassId) :
    (ofList added).accepts program cls =
      if .unconstrained ∈ added then
        .ok true
      else
        added.anyM (Constraint.accepts program cls) := by
  rw [ofList_eq, summary]
  split
  · rfl
  · exact anyM_eraseDups _ added

theorem canHit_ofList_eq_error_iff (built : program.Built) {declarer : ClassId}
    {decl : ClassDecl} (fetched : program.cls declarer = .ok decl)
    {added : List Constraint} {failure : Failure} :
    (ofList added).canHit program live declarer = .error failure ↔
      .unconstrained ∉ added ∧ ∃ before constraint after,
        added = before ++ constraint :: after ∧
        (∀ earlier ∈ before,
          earlier.canHit program live declarer = .ok false) ∧
        constraint.NamesAbsent program live failure := by
  rw [canHit_ofList]
  split
  · rename_i all
    simp [all]
  · rename_i notAll
    rw [anyM_eq_error_iff, and_iff_right notAll]
    simp only [Constraint.canHit_eq_error_iff built fetched]

theorem iff_exists_of_canHit_ofList {added : List Constraint}
    {declarer : ClassId} {answer : Bool}
    (asked : (ofList added).canHit program live declarer = .ok answer) :
    answer = true ↔ ∃ constraint ∈ added,
      constraint.canHit program live declarer = .ok true := by
  rw [canHit_ofList] at asked
  split at asked
  · rename_i all
    obtain rfl := Except.ok.inj asked
    exact iff_of_true rfl ⟨.unconstrained, all, rfl⟩
  · exact iff_exists_of_anyM asked

theorem exists_accepts_ofList (built : program.Built) {cls : ClassId}
    (declared : Succeeds (program.cls cls)) (added : List Constraint) :
    ∃ answer, (ofList added).accepts program cls = .ok answer ∧
      (answer = true ↔ ∃ constraint ∈ added,
        constraint.accepts program cls = .ok true) := by
  rw [accepts_ofList]
  split
  · rename_i all
    exact ⟨true, rfl, iff_of_true rfl ⟨.unconstrained, all, rfl⟩⟩
  · obtain ⟨answer, asked⟩ : Succeeds
        (added.anyM (Constraint.accepts program cls)) :=
      Succeeds.anyM fun constraint _ =>
        Constraint.succeeds_accepts built declared constraint
    exact ⟨answer, asked, iff_exists_of_anyM asked⟩

/-- A set stands for the union of the constraints that were added to it: it accepts
the classes that one of them accepts, and it hits what one of them hits, unless it
first asks one that names a live class outside the table.  It grows at most once at
each constraint, and where it does not grow its answers stay the same. -/
theorem added_constraints_form_union (built : program.Built)
    (live : LiveClasses) (added : List Constraint) :
    ((ofList added).isAll = true ↔ .unconstrained ∈ added) ∧
    (∀ declarer, Succeeds (program.cls declarer) →
      (∀ answer, (ofList added).canHit program live declarer = .ok answer →
        (answer = true ↔ ∃ constraint ∈ added,
          constraint.canHit program live declarer = .ok true)) ∧
      ∀ failure,
        (ofList added).canHit program live declarer = .error failure ↔
          .unconstrained ∉ added ∧ ∃ before constraint after,
            added = before ++ constraint :: after ∧
            (∀ earlier ∈ before,
              earlier.canHit program live declarer = .ok false) ∧
            constraint.NamesAbsent program live failure) ∧
    (∀ cls, Succeeds (program.cls cls) →
      ∃ answer, (ofList added).accepts program cls = .ok answer ∧
        (answer = true ↔ ∃ constraint ∈ added,
          constraint.accepts program cls = .ok true)) ∧
    (∀ constraint, ((ofList added).add constraint).1 = false →
      ∀ live cls,
        ((ofList added).add constraint).2.canHit program live cls =
            (ofList added).canHit program live cls ∧
          ((ofList added).add constraint).2.accepts program cls =
            (ofList added).accepts program cls) ∧
    (growths {} added).Nodup ∧
    (∀ (constraint : Constraint) declarer, constraint ≠ .unconstrained →
      (constraint.canHit program live declarer = .ok true ↔
        ∃ cls, isLive live cls = true ∧
          program.isSubclass cls declarer = .ok true ∧
            constraint.accepts program cls = .ok true)) ∧
    (∀ (constraint : Constraint) declarer, Succeeds (program.cls declarer) →
      ∀ failure, constraint.canHit program live declarer = .error failure ↔
        constraint.NamesAbsent program live failure) ∧
    ∀ declarer,
      Constraint.unconstrained.canHit program live declarer = .ok true := by
  refine ⟨?_, ?_, fun cls declared => exists_accepts_ofList built declared added,
    ?_, (nodup_growths [] added).1,
    fun constraint declarer => Constraint.canHit_eq_ok_true_iff built, ?_,
    fun _ => rfl⟩
  · rw [ofList_eq, summary]
    split
    · rename_i all
      exact iff_of_true rfl all
    · rename_i notAll
      exact iff_of_false Bool.false_ne_true notAll
  · rintro declarer ⟨decl, fetched⟩
    exact ⟨fun answer => iff_exists_of_canHit_ofList, fun failure =>
      canHit_ofList_eq_error_iff built fetched⟩
  · intro constraint same live cls
    rw [(mem_effective_of_not_grew same).1]
    exact ⟨rfl, rfl⟩
  · rintro constraint declarer ⟨decl, fetched⟩ failure
    exact Constraint.canHit_eq_error_iff built fetched

/-- Of the root and the interface, the set hits the members of the root only through
the leaf, which implements the interface; it does not grow when the root is named
again. -/
theorem added_constraints_form_union_in_ring :
    (ofList [.exact ⟨0⟩, .subtype ⟨2⟩, .exact ⟨0⟩]).canHit Program.ringProgram
        (some [⟨3⟩]) ⟨0⟩ = .ok true ∧
      (∃ constraint ∈ [Constraint.exact ⟨0⟩, .subtype ⟨2⟩, .exact ⟨0⟩],
        constraint.canHit Program.ringProgram (some [⟨3⟩]) ⟨0⟩ = .ok true) ∧
      growths {} [.exact ⟨0⟩, .subtype ⟨2⟩, .exact ⟨0⟩] =
        [.exact ⟨0⟩, .subtype ⟨2⟩] := by
  have hits : (ofList [.exact ⟨0⟩, .subtype ⟨2⟩, .exact ⟨0⟩]).canHit
      Program.ringProgram (some [⟨3⟩]) ⟨0⟩ = .ok true := rfl
  obtain ⟨-, union, -⟩ := added_constraints_form_union
    Program.ringProgram_drafted.built (some [⟨3⟩])
    [.exact ⟨0⟩, .subtype ⟨2⟩, .exact ⟨0⟩]
  exact ⟨hits, ((union ⟨0⟩ ⟨_, rfl⟩).1 true hits).1 rfl, rfl⟩

/-- A class outside the table that is named first keeps the set from hitting what
the other constraint hits. -/
theorem added_constraints_fail_at_absent_class :
    Program.ringProgram.Drafted ∧
      (ofList [.exact ⟨7⟩, .subtype ⟨0⟩]).canHit Program.ringProgram none ⟨0⟩ =
        .error (.outOfBounds 4 7) ∧
      ∃ constraint ∈ [Constraint.exact ⟨7⟩, .subtype ⟨0⟩],
        constraint.canHit Program.ringProgram none ⟨0⟩ = .ok true :=
  ⟨Program.ringProgram_drafted, rfl,
    .subtype ⟨0⟩, List.mem_cons_of_mem _ List.mem_cons_self, rfl⟩

end ReceiverSet

end TreeShaking
