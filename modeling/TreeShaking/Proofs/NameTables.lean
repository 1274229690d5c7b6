import TreeShaking.Failure

/-!
# Names and texts

A name table keeps its texts and the index of their names apart, and storing a
text changes both.  They are inverse to each other at any time: the index gives a
text the name at which the table holds it, and no other text has one
(`Inverse.enter`).  What the index knows is never forgotten or changed
(`find?_enter`), so a name that was given once keeps its text.

The calls on a table are made one after the other by `answerAll`.  As long as
there is room, a text has a name after calls if and only if one of them stored it
(`find?_answerAll_iff`), and each call that stores a text is answered with the name
that the text has in the end (`find?_of_stored`).
-/

namespace TreeShaking

namespace NameTable

/-! ### Storing one text -/

/-- The name of a text and the table that has it, if there is room. -/
def enter (table : NameTable) (text : String) : Name × NameTable :=
  match table.find? text with
  | some name => (name, table)
  | none => table.store text

/-- There is room for a text that is known or for which a name is left. -/
theorem tryIntern_eq_ok_iff {table : NameTable} {text : String}
    {interned : Name × NameTable} :
    table.tryIntern text = .ok interned ↔
      ((table.find? text).isSome = true ∨ table.size < UInt32.size) ∧
        interned = table.enter text := by
  unfold tryIntern enter
  cases table.find? text with
  | some name => simp [eq_comm]
  | none =>
      dsimp only
      split
      · rename_i full
        simp [Nat.not_lt.2 full]
      · rename_i room
        simp [Nat.not_le.1 room, eq_comm]

/-- After a text was entered, it has the name that was given for it, and every
other text has the name that it had. -/
theorem find?_enter (table : NameTable) (text other : String) :
    (table.enter text).2.find? other =
      if other = text then some (table.enter text).1 else table.find? other := by
  unfold enter
  cases found : table.find? text with
  | some name =>
      dsimp only
      split
      · rename_i same
        rw [same, found]
      · rfl
  | none => exact Table.get?_insert ..

theorem size_le_size_enter (table : NameTable) (text : String) :
    table.size ≤ (table.enter text).2.size := by
  unfold enter
  split
  · exact Nat.le_refl _
  · simp [store, size]

/-- A table does not outgrow the names. -/
theorem size_of_tryIntern {table next : NameTable} {text : String} {name : Name}
    (fits : table.size ≤ UInt32.size)
    (interned : table.tryIntern text = .ok (name, next)) :
    next.size ≤ UInt32.size := by
  obtain ⟨room, isNext⟩ := tryIntern_eq_ok_iff.1 interned
  unfold enter at isNext
  cases found : table.find? text with
  | some known =>
      rw [found] at isNext
      obtain ⟨-, rfl⟩ := Prod.mk.inj isNext
      exact fits
  | none =>
      rw [found] at room isNext
      obtain ⟨-, rfl⟩ := Prod.mk.inj isNext
      have more := room.resolve_left (by simp)
      simp only [size, Array.size_push] at more ⊢
      omega

/-- The index and the texts are inverse to each other, and the empty text comes
first. -/
structure Inverse (table : NameTable) : Prop where
  named : ∀ text name, table.index.get? text = some name ↔
    table.texts[name.index]? = some text
  counted : table.index.size = table.texts.size
  first : table.texts[0]? = some ""

theorem find?_empty (text : String) :
    ({} : NameTable).find? text = if text = "" then some ⟨0⟩ else none :=
  Table.get?_insert ..

theorem inverse_empty : ({} : NameTable).Inverse where
  named text name := by
    rw [← find?, find?_empty]
    obtain ⟨position⟩ := name
    cases position with
    | zero => simp [eq_comm]
    | succ position => simp
  counted := rfl
  first := rfl

theorem Inverse.store {table : NameTable} (inverse : table.Inverse)
    {text : String} (absent : table.find? text = none) :
    (table.store text).2.Inverse where
  named other name := by
    have index : (table.store text).2.index.get? other =
        if other = text then some ⟨table.size⟩ else table.index.get? other :=
      Table.get?_insert ..
    have texts : (table.store text).2.texts[name.index]? =
        if name.index = table.size then some text
        else table.texts[name.index]? :=
      Array.getElem?_push
    rw [index, texts]
    -- The new name is beyond the table, and the new text was not in the index.
    by_cases same : other = text
    · rw [if_pos same, same]
      by_cases last : name.index = table.size
      · obtain ⟨position⟩ := name
        obtain rfl : position = table.size := last
        simp
      · rw [if_neg last, ← inverse.named]
        constructor
        · rintro ⟨rfl⟩
          exact absurd rfl last
        · intro found
          exact absurd found (by rw [← find?, absent]; simp)
    · rw [if_neg same, inverse.named]
      by_cases last : name.index = table.size
      · have outside : table.texts[table.size]? = none := by simp [size]
        rw [if_pos last, last, outside]
        simp [Ne.symm same]
      · rw [if_neg last]
  counted := by
    have counted := Table.size_insert absent ⟨table.size⟩
    rw [inverse.counted] at counted
    simpa [NameTable.store] using counted
  first := by
    have inside := (Array.getElem?_eq_some_iff.1 inverse.first).1
    have unchanged : (table.texts.push text)[0]? = table.texts[0]? := by
      rw [Array.getElem?_push, if_neg (Nat.ne_of_lt inside)]
    exact unchanged.trans inverse.first

theorem Inverse.enter {table : NameTable} (inverse : table.Inverse)
    (text : String) : (table.enter text).2.Inverse := by
  unfold NameTable.enter
  cases found : table.find? text with
  | some name => exact inverse
  | none => exact inverse.store found

/-- The name of a text reads as this text. -/
theorem Inverse.lookup_of_find? {table : NameTable} (inverse : table.Inverse)
    {text : String} {name : Name} (found : table.find? text = some name) :
    table.lookup name = text := by
  rw [lookup, (inverse.named text name).1 found, Option.getD_some]

theorem lookup_of_size_le {table : NameTable} {name : Name}
    (outside : table.size ≤ name.index) : table.lookup name = "" := by
  rw [lookup, Array.getElem?_eq_none outside, Option.getD_none]

/-! ### Calls in turn -/

/-- The calls that are made on a name table. -/
inductive Call where
  | intern (text : String)
  | tryIntern (text : String)
  | find (text : String)
deriving DecidableEq

/-- The text that a call stores if it is new. -/
def Call.stored? : Call → Option String
  | .intern text | .tryIntern text => some text
  | .find _ => none

/-- The text that the call at a position stores if it is new. -/
def storedAt (calls : List Call) (position : Nat) : Option String :=
  (calls[position]?).bind Call.stored?

/-- What a call is answered with: a name, if there is one, or a failure. -/
abbrev Answer := Except Failure (Option Name)

/-- Make a call. -/
def answer (table : NameTable) : Call → Answer × NameTable
  | .intern text =>
      match table.intern text with
      | .ok interned => (.ok (some interned.1), interned.2)
      | .error failure => (.error failure, table)
  | .tryIntern text =>
      match table.tryIntern text with
      | .ok interned => (.ok (some interned.1), interned.2)
      | .error error => (.error (.namesExhausted error), table)
  | .find text =>
      (.ok (table.find? text), table)

/-- Make calls one after the other. -/
def answerAll (table : NameTable) : List Call → List Answer × NameTable
  | [] => ([], table)
  | call :: rest =>
      let outcome := table.answer call
      let further := outcome.2.answerAll rest
      (outcome.1 :: further.1, further.2)

/-- Whether a text is interned or tried makes no difference to the answer. -/
theorem answer_intern (table : NameTable) (text : String) :
    table.answer (.intern text) = table.answer (.tryIntern text) := by
  cases tried : table.tryIntern text with
  | ok interned => simp [answer, intern, tried]
  | error error => simp [answer, intern, tried]

/-- While there is room, a call that stores a text is answered with its name. -/
theorem answer_of_stored {table : NameTable} (room : table.size < UInt32.size)
    {call : Call} {text : String} (stored : call.stored? = some text) :
    table.answer call =
      (.ok (some (table.enter text).1), (table.enter text).2) := by
  have interned : table.tryIntern text = .ok (table.enter text) :=
    tryIntern_eq_ok_iff.2 ⟨.inr room, rfl⟩
  cases call with
  | intern given =>
      obtain rfl : given = text := Option.some.inj stored
      rw [answer_intern, answer, interned]
  | tryIntern given =>
      obtain rfl : given = text := Option.some.inj stored
      rw [answer, interned]
  | find given => cases stored

/-- A call leaves the table as it is or enters a text. -/
theorem answer_eq_or (table : NameTable) (call : Call) :
    (table.answer call).2 = table ∨
      ∃ text, (table.answer call).2 = (table.enter text).2 := by
  have ofTrying : ∀ text, (table.answer (.tryIntern text)).2 = table ∨
      ∃ other, (table.answer (.tryIntern text)).2 = (table.enter other).2 := by
    intro text
    unfold answer
    dsimp only
    split
    · rename_i interned isInterned
      rw [(tryIntern_eq_ok_iff.1 isInterned).2]
      exact .inr ⟨text, rfl⟩
    · exact .inl rfl
  cases call with
  | intern text =>
      rw [answer_intern]
      exact ofTrying text
  | tryIntern text => exact ofTrying text
  | find text => exact .inl rfl

theorem answerAll_append (table : NameTable) (calls later : List Call) :
    (table.answerAll (calls ++ later)).2 =
      ((table.answerAll calls).2.answerAll later).2 := by
  induction calls generalizing table with
  | nil => rfl
  | cons call rest ih => exact ih (table.answer call).2

/-- What entering a text preserves, calls preserve. -/
theorem answerAll_induction {motive : NameTable → Prop}
    (entered : ∀ table text, motive table → motive (table.enter text).2)
    {table : NameTable} (holds : motive table) (calls : List Call) :
    motive (table.answerAll calls).2 := by
  induction calls generalizing table with
  | nil => exact holds
  | cons call rest ih =>
      apply ih
      rcases table.answer_eq_or call with same | ⟨text, next⟩
      · rw [same]
        exact holds
      · rw [next]
        exact entered table text holds

theorem Inverse.answerAll {table : NameTable} (inverse : table.Inverse)
    (calls : List Call) : (table.answerAll calls).2.Inverse :=
  answerAll_induction (fun _ text inverse => inverse.enter text) inverse calls

theorem size_le_size_answerAll (table : NameTable) (calls : List Call) :
    table.size ≤ (table.answerAll calls).2.size :=
  answerAll_induction (motive := fun next => table.size ≤ next.size)
    (fun next text grown => Nat.le_trans grown (next.size_le_size_enter text))
    (Nat.le_refl _) calls

/-- A text keeps the name that it has. -/
theorem find?_answerAll_of_find? {table : NameTable} {text : String}
    {name : Name} (found : table.find? text = some name) (calls : List Call) :
    (table.answerAll calls).2.find? text = some name := by
  refine answerAll_induction (motive := fun next => next.find? text = some name)
    (fun next other found => ?_) found calls
  rw [find?_enter]
  split
  · rename_i same
    unfold enter
    rw [← same, found]
  · exact found

/-! ### Calls while there is room -/

variable {table final : NameTable} {calls : List Call} {answers : List Answer}

theorem answerAll_cons_eq_iff {call : Call} :
    table.answerAll (call :: calls) = (answers, final) ↔
      ∃ further, (table.answer call).2.answerAll calls = (further, final) ∧
        answers = (table.answer call).1 :: further := by
  constructor
  · intro answered
    obtain ⟨rfl, rfl⟩ := Prod.mk.inj answered
    exact ⟨_, rfl, rfl⟩
  · rintro ⟨further, answered, rfl⟩
    simp only [answerAll, answered]

theorem room_of_answerAll (answered : table.answerAll calls = (answers, final))
    (room : final.size < UInt32.size) : table.size < UInt32.size := by
  have grown := table.size_le_size_answerAll calls
  rw [answered] at grown
  exact Nat.lt_of_le_of_lt grown room

/-- A call that stores a text is answered with the name that the text has in the
end. -/
theorem find?_of_stored (answered : table.answerAll calls = (answers, final))
    (room : final.size < UInt32.size) {position : Nat} {text : String}
    (stored : storedAt calls position = some text) :
    ∃ name, answers[position]? = some (.ok (some name)) ∧
      final.find? text = some name := by
  induction calls generalizing table answers position with
  | nil => cases stored
  | cons first rest ih =>
      have roomNow := room_of_answerAll answered room
      obtain ⟨further, answeredRest, rfl⟩ := answerAll_cons_eq_iff.1 answered
      cases position with
      | zero =>
          replace stored : first.stored? = some text := stored
          rw [answer_of_stored roomNow stored] at answeredRest ⊢
          have found : (table.enter text).2.find? text =
              some (table.enter text).1 := by
            rw [find?_enter, if_pos rfl]
          have kept := find?_answerAll_of_find? found rest
          rw [answeredRest] at kept
          exact ⟨_, rfl, kept⟩
      | succ position => exact ih answeredRest stored

theorem answer_of_not_stored {call : Call} (notStored : call.stored? = none) :
    (table.answer call).2 = table := by
  cases call with
  | intern text | tryIntern text => cases notStored
  | find text => rfl

theorem find?_answer_iff (room : table.size < UInt32.size) (call : Call)
    (text : String) :
    ((table.answer call).2.find? text).isSome = true ↔
      (table.find? text).isSome = true ∨ call.stored? = some text := by
  cases stored : call.stored? with
  | some given =>
      rw [answer_of_stored room stored, find?_enter]
      by_cases same : text = given
      · simp [same]
      · simp [same, Ne.symm same]
  | none =>
      rw [answer_of_not_stored stored]
      simp

/-- After calls, a text has a name if it had one before or if a call stored it. -/
theorem find?_answerAll_iff (answered : table.answerAll calls = (answers, final))
    (room : final.size < UInt32.size) (text : String) :
    (final.find? text).isSome = true ↔ (table.find? text).isSome = true ∨
      ∃ call ∈ calls, call.stored? = some text := by
  induction calls generalizing table answers with
  | nil =>
      obtain ⟨rfl, rfl⟩ := Prod.mk.inj answered
      simp
  | cons first rest ih =>
      have roomNow := room_of_answerAll answered room
      obtain ⟨further, answeredRest, rfl⟩ := answerAll_cons_eq_iff.1 answered
      rw [ih answeredRest, find?_answer_iff roomNow, or_assoc]
      simp only [List.mem_cons, exists_eq_or_imp]

/-- A call that finds a text is answered from the table that the calls before it
have left. -/
theorem answer_of_find (answered : table.answerAll calls = (answers, final))
    {position : Nat} {text : String}
    (made : calls[position]? = some (.find text)) :
    answers[position]? =
      some (.ok ((table.answerAll (calls.take position)).2.find? text)) := by
  induction calls generalizing table answers position with
  | nil => simp at made
  | cons first rest ih =>
      obtain ⟨further, answeredRest, rfl⟩ := answerAll_cons_eq_iff.1 answered
      cases position with
      | zero =>
          obtain rfl : first = .find text := Option.some.inj made
          rfl
      | succ position => exact ih answeredRest made

/-- Calls that only find texts leave no trace in the table. -/
theorem answerAll_filter (table : NameTable) (calls : List Call) :
    (table.answerAll (calls.filter fun call => call.stored?.isSome)).2 =
      (table.answerAll calls).2 := by
  induction calls generalizing table with
  | nil => rfl
  | cons first rest ih =>
      cases stored : first.stored? with
      | some text =>
          rw [List.filter_cons_of_pos (by simp [stored])]
          exact ih _
      | none =>
          rw [List.filter_cons_of_neg (by simp [stored]), ih]
          simp only [answerAll, answer_of_not_stored stored]

/-- After the first calls on a new table, a text has a name if and only if it is
empty or one of these calls stored it. -/
theorem find?_take_iff
    (answered : ({} : NameTable).answerAll calls = (answers, final))
    (room : final.size < UInt32.size) (position : Nat) (text : String) :
    ((({} : NameTable).answerAll (calls.take position)).2.find? text).isSome =
        true ↔
      text = "" ∨ ∃ call ∈ calls.take position, call.stored? = some text := by
  -- The table only grows, so there was room then.
  have whole := ({} : NameTable).answerAll_append (calls.take position)
    (calls.drop position)
  rw [List.take_append_drop, answered] at whole
  have roomThen := room_of_answerAll
    (rfl : (({} : NameTable).answerAll (calls.take position)).2.answerAll
      (calls.drop position) = (_, _)) (whole ▸ room)
  rw [find?_answerAll_iff rfl roomThen, find?_empty]
  simp

/-- Whatever calls are made on a new table, as long as there is room for the
texts, the index and the texts are inverse to each other and the empty text comes
first.  A call that stores a text is answered with a name that reads as this text
from then on, and two such calls are answered alike if and only if they store the
same text.  A call that finds a text leaves no trace and is answered with the name
of the text if and only if the text has been stored.  Names outside the table read
as the empty text. -/
theorem calls_keep_names_inverse
    (answered : ({} : NameTable).answerAll calls = (answers, final))
    (room : final.size < UInt32.size) :
    ((∀ text name, final.index.get? text = some name ↔
        final.texts[name.index]? = some text) ∧
      final.index.size = final.size ∧
      final.index.get? "" = some ⟨0⟩ ∧ final.texts[0]? = some "") ∧
    (∀ position text, storedAt calls position = some text →
      ∃ name, answers[position]? = some (.ok (some name)) ∧
        ∀ later, (final.answerAll later).2.lookup name = text) ∧
    (∀ position other text otherText, storedAt calls position = some text →
      storedAt calls other = some otherText →
      (answers[position]? = answers[other]? ↔ text = otherText)) ∧
    ((∀ position text, calls[position]? = some (.find text) →
        ∃ found, answers[position]? = some (.ok found) ∧
          (∀ name, found = some name → final.lookup name = text) ∧
          (found.isSome = true ↔ text = "" ∨
            ∃ call ∈ calls.take position, call.stored? = some text)) ∧
      (({} : NameTable).answerAll
        (calls.filter fun call => call.stored?.isSome)).2 = final) ∧
    ∀ name, final.size ≤ name.index → final.lookup name = "" := by
  have inverse : final.Inverse := by
    have after := inverse_empty.answerAll calls
    rwa [answered] at after
  refine ⟨⟨inverse.named, inverse.counted, ?_, inverse.first⟩, ?_, ?_, ⟨?_, ?_⟩,
    fun name => lookup_of_size_le⟩
  · exact (inverse.named "" ⟨0⟩).2 inverse.first
  · intro position text stored
    obtain ⟨name, told, found⟩ := find?_of_stored answered room stored
    refine ⟨name, told, fun later => ?_⟩
    exact (inverse.answerAll later).lookup_of_find?
      (find?_answerAll_of_find? found later)
  · intro position other text otherText stored otherStored
    obtain ⟨name, told, found⟩ := find?_of_stored answered room stored
    obtain ⟨otherName, otherTold, otherFound⟩ :=
      find?_of_stored answered room otherStored
    rw [told, otherTold]
    constructor
    · rintro ⟨rfl⟩
      rw [← inverse.lookup_of_find? found, inverse.lookup_of_find? otherFound]
    · rintro rfl
      rw [Option.some.inj (found.symm.trans otherFound)]
  · intro position text made
    refine ⟨_, answer_of_find answered made, fun name found => ?_,
      find?_take_iff answered room position text⟩
    have kept := find?_answerAll_of_find? found (calls.drop position)
    rw [← answerAll_append, List.take_append_drop, answered] at kept
    exact inverse.lookup_of_find? kept
  · rw [answerAll_filter, answered]

/-- Two texts are stored in turn, and found from then on. -/
theorem calls_keep_names_of_two_texts :
    let calls : List Call := [.find "a", .intern "b", .tryIntern "a", .find "a",
      .intern "b", .intern ""]
    let answered := ({} : NameTable).answerAll calls
    answered = ([.ok none, .ok (some ⟨1⟩), .ok (some ⟨2⟩), .ok (some ⟨2⟩),
        .ok (some ⟨1⟩), .ok (some ⟨0⟩)], .ofTexts #["", "b", "a"]) ∧
      answered.2.index.size = 3 ∧
      (∀ later, (answered.2.answerAll later).2.lookup ⟨2⟩ = "a") ∧
      answered.2.lookup ⟨3⟩ = "" := by
  have answered : ({} : NameTable).answerAll [.find "a", .intern "b",
      .tryIntern "a", .find "a", .intern "b", .intern ""] =
    ([.ok none, .ok (some ⟨1⟩), .ok (some ⟨2⟩), .ok (some ⟨2⟩),
      .ok (some ⟨1⟩), .ok (some ⟨0⟩)], .ofTexts #["", "b", "a"]) := by
    rfl
  obtain ⟨⟨-, counted, -, -⟩, kept, -, -, outside⟩ :=
    calls_keep_names_inverse answered (by decide)
  obtain ⟨name, told, reads⟩ := kept 2 "a" rfl
  obtain rfl : name = ⟨2⟩ := by simpa using told.symm
  exact ⟨answered, counted, reads, outside ⟨3⟩ (by decide)⟩

end NameTable

end TreeShaking
