import TreeShaking.Failure
import Mathlib.Data.List.Forall2

/-!
# Computations that may fail

A computation in `Except` that succeeds has succeeded in all its parts.  The
lemmas of this file take a successful computation apart: a sequence of two
(`bind_eq_ok_iff`), a search through a list (`exists_of_anyM`,
`anyM_eq_ok_false_iff`), and a list of computations of one kind
(`mapM_eq_ok_iff`).  If it fails, so does one of its parts; a search fails only at
what comes before its answer (`anyM_eq_error_iff`).  Conversely, a
computation succeeds if its parts do (`Succeeds`).
-/

namespace TreeShaking.Outcome

variable {ε α β : Type}

theorem bind_eq_ok_iff {first : Except ε α} {next : α → Except ε β}
    {result : β} :
    (first >>= next) = .ok result ↔
      ∃ value, first = .ok value ∧ next value = .ok result := by
  cases first with
  | error failure => simp [bind, Except.bind]
  | ok value => simp [bind, Except.bind]

/-- A sequence fails where one of its parts does. -/
theorem bind_eq_error_iff {first : Except ε α} {next : α → Except ε β}
    {failure : ε} :
    (first >>= next) = .error failure ↔ first = .error failure ∨
      ∃ value, first = .ok value ∧ next value = .error failure := by
  cases first with
  | error reason => simp [bind, Except.bind]
  | ok value => simp [bind, Except.bind]

theorem pure_eq_ok_iff {value result : α} :
    (pure value : Except ε α) = .ok result ↔ value = result := by
  simp [pure, Except.pure]

theorem exists_of_anyM {test : α → Except ε Bool} {list : List α}
    (found : list.anyM test = .ok true) :
    ∃ element ∈ list, test element = .ok true := by
  induction list with
  | nil => simp [pure, Except.pure] at found
  | cons head tail ih =>
      rw [List.anyM_cons, bind_eq_ok_iff] at found
      obtain ⟨answer, tested, rest⟩ := found
      cases answer with
      | true => exact ⟨head, by simp, tested⟩
      | false =>
          obtain ⟨element, inTail, passes⟩ := ih rest
          exact ⟨element, by simp [inTail], passes⟩

theorem anyM_eq_ok_false_iff {test : α → Except ε Bool} {list : List α} :
    list.anyM test = .ok false ↔
      ∀ element ∈ list, test element = .ok false := by
  induction list with
  | nil => simp [pure, Except.pure]
  | cons head tail ih =>
      rw [List.anyM_cons, bind_eq_ok_iff, List.forall_mem_cons]
      constructor
      · rintro ⟨answer, tested, rest⟩
        cases answer with
        | true => simp [pure, Except.pure] at rest
        | false => exact ⟨tested, ih.1 rest⟩
      · rintro ⟨tested, others⟩
        exact ⟨false, tested, ih.2 others⟩

/-- A search that never fails finds what is there. -/
theorem anyM_eq_ok_true {test : α → Except ε Bool} {list : List α}
    (tested : ∀ element ∈ list, ∃ answer, test element = .ok answer)
    {element : α} (present : element ∈ list) (passes : test element = .ok true) :
    list.anyM test = .ok true := by
  induction list with
  | nil => cases present
  | cons head tail ih =>
      rw [List.anyM_cons]
      obtain ⟨answer, isAnswer⟩ := tested head List.mem_cons_self
      rw [isAnswer]
      cases answer with
      | true => rfl
      | false =>
          refine ih (fun other inTail =>
            tested other (List.mem_cons_of_mem _ inTail)) ?_
          rcases List.mem_cons.1 present with rfl | inTail
          · rw [passes] at isAnswer
            cases isAnswer
          · exact inTail

/-- A search that comes to an answer has been through what the answer rests on. -/
theorem iff_exists_of_anyM {test : α → Except ε Bool} {list : List α}
    {answer : Bool} (searched : list.anyM test = .ok answer) :
    answer = true ↔ ∃ element ∈ list, test element = .ok true := by
  cases answer with
  | true => exact iff_of_true rfl (exists_of_anyM searched)
  | false =>
      refine iff_of_false Bool.false_ne_true ?_
      rintro ⟨element, present, passes⟩
      rw [anyM_eq_ok_false_iff.1 searched element present] at passes
      cases passes

/-- A search fails at the first element that is not plainly refused. -/
theorem anyM_eq_error_iff {test : α → Except ε Bool} {list : List α}
    {failure : ε} :
    list.anyM test = .error failure ↔
      ∃ before element after, list = before ++ element :: after ∧
        (∀ other ∈ before, test other = .ok false) ∧
        test element = .error failure := by
  constructor
  · intro failed
    induction list with
    | nil => cases failed
    | cons head tail ih =>
        rw [List.anyM_cons, bind_eq_error_iff] at failed
        rcases failed with fails | ⟨answer, answered, failed⟩
        · exact ⟨[], head, tail, rfl, by simp, fails⟩
        · cases answer with
          | true => cases failed
          | false =>
              obtain ⟨before, element, after, rfl, refused, fails⟩ := ih failed
              exact ⟨head :: before, element, after, rfl,
                List.forall_mem_cons.2 ⟨answered, refused⟩, fails⟩
  · rintro ⟨before, element, after, rfl, refused, fails⟩
    induction before with
    | nil => rw [List.nil_append, List.anyM_cons, fails]; rfl
    | cons head tail ih =>
        obtain ⟨headRefused, tailRefused⟩ := List.forall_mem_cons.1 refused
        rw [List.cons_append, List.anyM_cons, headRefused]
        exact ih tailRefused

theorem exists_failure_of_anyM {test : α → Except ε Bool} {list : List α}
    {failure : ε} (failed : list.anyM test = .error failure) :
    ∃ element ∈ list, test element = .error failure := by
  obtain ⟨before, element, after, rfl, -, fails⟩ := anyM_eq_error_iff.1 failed
  exact ⟨element, by simp, fails⟩

/-- Elements that are refused anyway can be left out of a search. -/
theorem anyM_filter {test : α → Except ε Bool} {list : List α}
    {keep : α → Bool}
    (refused : ∀ element ∈ list, keep element = false →
      test element = .ok false) :
    (list.filter keep).anyM test = list.anyM test := by
  induction list with
  | nil => rfl
  | cons head tail ih =>
      obtain ⟨headRefused, tailRefused⟩ := List.forall_mem_cons.1 refused
      cases kept : keep head with
      | true =>
          rw [List.filter_cons_of_pos kept, List.anyM_cons, List.anyM_cons,
            ih tailRefused]
      | false =>
          rw [List.filter_cons_of_neg (by simp [kept]), List.anyM_cons,
            headRefused kept, ih tailRefused]
          rfl

/-- A search does not get further by asking twice. -/
theorem anyM_eraseDups [DecidableEq α] (test : α → Except ε Bool)
    (list : List α) : list.eraseDups.anyM test = list.anyM test := by
  match list with
  | [] => rfl
  | head :: tail =>
      rw [List.eraseDups_cons, List.anyM_cons, List.anyM_cons,
        anyM_eraseDups test (tail.filter fun other => !other == head)]
      cases answered : test head with
      | error failure => rfl
      | ok answer =>
          cases answer with
          | true => rfl
          | false =>
              refine anyM_filter fun element _ isHead => ?_
              obtain rfl : element = head := by simpa using isHead
              exact answered
termination_by list.length
decreasing_by exact Nat.lt_succ_of_le (List.length_filter_le _ _)

theorem mapM_eq_ok_iff {compute : α → Except ε β} {list : List α}
    {results : List β} :
    list.mapM compute = .ok results ↔
      List.Forall₂ (fun element result => compute element = .ok result)
        list results := by
  induction list generalizing results with
  | nil => simp [pure, Except.pure, eq_comm]
  | cons head tail ih =>
      simp only [List.mapM_cons, bind_eq_ok_iff, pure_eq_ok_iff,
        List.forall₂_cons_left_iff, ih]
      constructor
      · rintro ⟨first, computed, rest, others, rfl⟩
        exact ⟨first, rest, computed, others, rfl⟩
      · rintro ⟨first, rest, computed, others, rfl⟩
        exact ⟨first, computed, rest, others, rfl⟩

/-- The results of a list of computations stand where their elements do. -/
theorem getElem?_of_mapM {compute : α → Except ε β} {list : List α}
    {results : List β} (computed : list.mapM compute = .ok results)
    {position : Nat} {result : β}
    (found : results[position]? = some result) :
    ∃ element, list[position]? = some element ∧
      compute element = .ok result := by
  induction mapM_eq_ok_iff.1 computed generalizing position with
  | nil => simp at found
  | @cons element first list rest done others ih =>
      cases position with
      | zero =>
          obtain rfl : first = result := by simpa using found
          exact ⟨element, by simp, done⟩
      | succ position =>
          simpa using ih (mapM_eq_ok_iff.2 others) (by simpa using found)

theorem exists_result_of_mapM {compute : α → Except ε β} {list : List α}
    {results : List β} (computed : list.mapM compute = .ok results)
    {element : α} (present : element ∈ list) :
    ∃ result ∈ results, compute element = .ok result := by
  induction mapM_eq_ok_iff.1 computed with
  | nil => simp at present
  | @cons first result rest results done others ih =>
      rcases List.mem_cons.1 present with rfl | inTail
      · exact ⟨result, by simp, done⟩
      · obtain ⟨found, foundMem, agrees⟩ :=
          ih (mapM_eq_ok_iff.2 others) inTail
        exact ⟨found, by simp [foundMem], agrees⟩

theorem exists_element_of_mapM {compute : α → Except ε β} {list : List α}
    {results : List β} (computed : list.mapM compute = .ok results)
    {result : β} (present : result ∈ results) :
    ∃ element ∈ list, compute element = .ok result := by
  induction mapM_eq_ok_iff.1 computed with
  | nil => simp at present
  | @cons element first list rest done others ih =>
      rcases List.mem_cons.1 present with rfl | inTail
      · exact ⟨element, by simp, done⟩
      · obtain ⟨found, foundMem, agrees⟩ :=
          ih (mapM_eq_ok_iff.2 others) inTail
        exact ⟨found, by simp [foundMem], agrees⟩

theorem exists_failure_of_mapM {compute : α → Except ε β} {list : List α}
    {failure : ε} (failed : list.mapM compute = .error failure) :
    ∃ element ∈ list, compute element = .error failure := by
  induction list with
  | nil => cases failed
  | cons head tail ih =>
      rw [List.mapM_cons] at failed
      cases first : compute head with
      | error reason =>
          rw [first] at failed
          obtain rfl := Except.error.inj failed
          exact ⟨head, List.mem_cons_self, first⟩
      | ok result =>
          cases others : tail.mapM compute with
          | ok results =>
              rw [first, others] at failed
              cases failed
          | error reason =>
              rw [first, others] at failed
              obtain rfl := Except.error.inj failed
              obtain ⟨element, inTail, fails⟩ := ih others
              exact ⟨element, List.mem_cons_of_mem _ inTail, fails⟩

theorem exists_mapM_of_forall {compute : α → Except ε β} {list : List α}
    (succeeds : ∀ element ∈ list, ∃ result, compute element = .ok result) :
    ∃ results, list.mapM compute = .ok results := by
  cases computed : list.mapM compute with
  | ok results => exact ⟨results, rfl⟩
  | error failure =>
      obtain ⟨element, present, fails⟩ := exists_failure_of_mapM computed
      obtain ⟨result, done⟩ := succeeds element present
      rw [done] at fails
      cases fails

/-- A computation gives a result. -/
def Succeeds (result : Except ε α) : Prop :=
  ∃ value, result = .ok value

namespace Succeeds

theorem ok (value : α) : Succeeds (.ok value : Except ε α) :=
  ⟨value, rfl⟩

theorem pure (value : α) : Succeeds (Pure.pure value : Except ε α) :=
  ⟨value, rfl⟩

theorem bind {first : Except ε α} {next : α → Except ε β}
    (succeeds : Succeeds first)
    (nextSucceeds : ∀ value, first = .ok value → Succeeds (next value)) :
    Succeeds (first >>= next) := by
  obtain ⟨value, isValue⟩ := succeeds
  obtain ⟨result, isResult⟩ := nextSucceeds value isValue
  exact ⟨result, bind_eq_ok_iff.2 ⟨value, isValue, isResult⟩⟩

theorem anyM {test : α → Except ε Bool} {list : List α}
    (tests : ∀ element ∈ list, Succeeds (test element)) :
    Succeeds (list.anyM test) := by
  induction list with
  | nil => exact .pure false
  | cons head tail ih =>
      rw [List.anyM_cons]
      apply (tests head List.mem_cons_self).bind
      intro answer _
      cases answer with
      | true => exact .pure true
      | false =>
          exact ih fun element inTail =>
            tests element (List.mem_cons_of_mem _ inTail)

end Succeeds

end TreeShaking.Outcome
