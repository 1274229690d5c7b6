import Mathlib.Data.List.Count
import Mathlib.Data.List.Induction
import Mathlib.Data.List.Perm.Basic
import TreeShaking.Ty

/-!
# Reading a printed type

A printed function type starts with its result, which may be a function type
itself, so that its beginning does not tell what it is.  Its end does: the last
character says whether there is a bracket to be matched, a number to be read or a
word (`closing`).  A printed type is therefore read backwards.  Whatever stands
before it, the type and the place where it begins can be recognised
(`readsBack`), and a list of types back to the bracket that opens it
(`readsBack_list`).
-/

namespace TreeShaking

/-- Where two texts end in runs of marked characters that cannot be extended, the
runs are the same. -/
theorem append_inj_of_runs {marked : Char → Bool}
    {before otherBefore run otherRun : List Char}
    (same : before ++ run = otherBefore ++ otherRun)
    (inRun : ∀ letter ∈ run, marked letter = true)
    (inOtherRun : ∀ letter ∈ otherRun, marked letter = true)
    (stops : ∀ letter ∈ before.getLast?, marked letter = false)
    (otherStops : ∀ letter ∈ otherBefore.getLast?, marked letter = false) :
    before = otherBefore ∧ run = otherRun := by
  -- What one run has more than the other would be marked and not marked.
  rcases List.append_eq_append_iff.1 same with
    ⟨surplus, rfl, rfl⟩ | ⟨surplus, rfl, rfl⟩
  · rcases surplus.eq_nil_or_concat with rfl | ⟨init, letter, rfl⟩
    · simp
    · have isMarked := inRun letter (by simp)
      rw [otherStops letter (by simp)] at isMarked
      cases isMarked
  · rcases surplus.eq_nil_or_concat with rfl | ⟨init, letter, rfl⟩
    · simp
    · have isMarked := inOtherRun letter (by simp)
      rw [stops letter (by simp)] at isMarked
      cases isMarked

namespace Ty

/-- The characters of a printed type. -/
def letters (type : Ty) : List Char :=
  type.text.toList

/-- The characters of several printed types. -/
def listLetters (types : List Ty) : List Char :=
  (listText types).toList

/-! ### Types that end in a number -/

/-- What the number at the end of a printed type can be a number of. -/
inductive Numbered where
  | cls
  | typedef
  | variable
deriving DecidableEq

namespace Numbered

/-- The word before the number. -/
def word : Numbered → String
  | .cls => "class#"
  | .typedef => "typedef#"
  | .variable => "T"

def type : Numbered → Nat → Ty
  | .cls, number => .interface ⟨number⟩ []
  | .typedef, number => .typedef ⟨number⟩
  | .variable, number => .typeVariable ⟨number⟩

theorem letters_type (kind : Numbered) (number : Nat) :
    (kind.type number).letters = kind.word.toList ++ Nat.toDigits 10 number := by
  cases kind <;>
    simp [letters, type, word, text, Nat.toString_eq_repr, Nat.toList_repr]

/-- The words are told apart from behind. -/
theorem word_inj {kind other : Numbered} {before otherBefore : List Char}
    (same : before ++ kind.word.toList = otherBefore ++ other.word.toList) :
    kind = other ∧ before = otherBefore := by
  rw [← List.reverse_inj, List.reverse_append, List.reverse_append] at same
  cases kind <;> cases other <;> simp_all [word]

theorem stops_word (kind : Numbered) (before : List Char) :
    ∀ letter ∈ (before ++ kind.word.toList).getLast?, letter.isDigit = false := by
  cases kind <;> simp [word]

end Numbered

/-! ### The last character -/

/-- The character with which a printed type closes, unless it ends in a
number. -/
def closing : Ty → Option Char
  | .interface _ [] | .typedef _ | .typeVariable _ => none
  | .interface _ (_ :: _) => some '>'
  | .function _ _ => some ')'
  | .dynamic => some 'c'
  | .void => some 'd'
  | .never => some 'r'

theorem exists_numbered_of_closing {type : Ty} (closes : type.closing = none) :
    ∃ kind number, type = Numbered.type kind number := by
  cases type with
  | interface cls arguments =>
      cases arguments with
      | nil => exact ⟨.cls, cls.index, rfl⟩
      | cons => cases closes
  | typedef target => exact ⟨.typedef, target.index, rfl⟩
  | typeVariable name => exact ⟨.variable, name.index, rfl⟩
  | function | dynamic | void | never => cases closes

theorem letters_interface (cls : ClassId) (argument : Ty) (arguments : List Ty) :
    (interface cls (argument :: arguments)).letters =
      (interface cls []).letters ++ ['<'] ++
        listLetters (argument :: arguments) ++ ['>'] := by
  simp [letters, listLetters, text]

theorem letters_function (result : Ty) (parameters : List Ty) :
    (function result parameters).letters =
      result.letters ++ " Function(".toList ++ listLetters parameters ++
        [')'] := by
  simp [letters, listLetters, text]

theorem mem_of_closing {type : Ty} {letter : Char}
    (closes : type.closing = some letter) :
    letter ∈ ['>', ')', 'c', 'd', 'r'] := by
  cases type with
  | interface cls arguments =>
      cases arguments with
      | nil => cases closes
      | cons =>
          cases closes
          simp
  | typedef | typeVariable => cases closes
  | function | dynamic | void | never =>
      cases closes
      simp

theorem getLast?_of_closing {type : Ty} {letter : Char}
    (closes : type.closing = some letter) :
    type.letters.getLast? = some letter := by
  cases type with
  | interface cls arguments =>
      cases arguments with
      | nil => cases closes
      | cons argument arguments =>
          cases closes
          rw [letters_interface, List.getLast?_concat]
  | function result parameters =>
      cases closes
      rw [letters_function, List.getLast?_concat]
  | typedef | typeVariable => cases closes
  | dynamic | void | never =>
      cases closes
      rfl

theorem exists_digit_of_closing {type : Ty} (closes : type.closing = none) :
    ∃ digit, type.letters.getLast? = some digit ∧ digit.isDigit = true := by
  obtain ⟨kind, number, rfl⟩ := exists_numbered_of_closing closes
  obtain ⟨digits, digit, isLast⟩ :=
    (Nat.toDigits 10 number).eq_nil_or_concat.resolve_left Nat.toDigits_ne_nil
  have isDigit : digit ∈ Nat.toDigits 10 number := by simp [isLast]
  refine ⟨digit, ?_, Nat.isDigit_of_mem_toDigits (by decide) (by decide) isDigit⟩
  rw [Numbered.letters_type, isLast]
  simp

/-- A bracket is open at the end of a text. -/
def IsOpen (before : List Char) : Prop :=
  before.getLast? = some '(' ∨ before.getLast? = some '<'

/-- A printed type leaves no bracket open. -/
theorem exists_last (type : Ty) :
    ∃ letter, type.letters.getLast? = some letter ∧ letter ≠ '(' ∧
      letter ≠ '<' := by
  cases closes : type.closing with
  | none =>
      obtain ⟨digit, isLast, isDigit⟩ := exists_digit_of_closing closes
      refine ⟨digit, isLast, ?_, ?_⟩ <;> rintro rfl <;> cases isDigit
  | some letter =>
      have isClosing := mem_of_closing closes
      refine ⟨letter, getLast?_of_closing closes, ?_, ?_⟩ <;> rintro rfl <;>
        simp at isClosing

theorem not_isOpen_append_letters (before : List Char) (type : Ty) :
    ¬IsOpen (before ++ type.letters) := by
  obtain ⟨letter, isLast, notRound, notAngled⟩ := type.exists_last
  simp [IsOpen, List.getLast?_append, isLast, notRound, notAngled]

/-- The last character of the text tells how a type closes. -/
theorem closing_eq_some_iff {type : Ty} {letter : Char} :
    type.closing = some letter ↔
      type.letters.getLast? = some letter ∧ letter.isDigit = false := by
  constructor
  · intro closes
    refine ⟨getLast?_of_closing closes, ?_⟩
    have isClosing := mem_of_closing closes
    simp only [List.mem_cons, List.not_mem_nil, or_false] at isClosing
    rcases isClosing with rfl | rfl | rfl | rfl | rfl <;> rfl
  · rintro ⟨isLast, notDigit⟩
    cases closes : type.closing with
    | some other =>
        rw [← isLast, getLast?_of_closing closes]
    | none =>
        obtain ⟨digit, digitIsLast, isDigit⟩ := exists_digit_of_closing closes
        rw [digitIsLast] at isLast
        cases isLast
        rw [isDigit] at notDigit
        cases notDigit

/-- Types whose texts end alike close alike. -/
theorem closing_eq_of_append {type other : Ty} {before otherBefore : List Char}
    (same : before ++ type.letters = otherBefore ++ other.letters) :
    other.closing = type.closing := by
  obtain ⟨letter, isLast, -⟩ := type.exists_last
  obtain ⟨otherLetter, otherIsLast, -⟩ := other.exists_last
  have ends : type.letters.getLast? = other.letters.getLast? := by
    have sameEnds := congrArg List.getLast? same
    simpa [List.getLast?_append, isLast, otherIsLast] using sameEnds
  refine Option.ext fun letter => ?_
  rw [closing_eq_some_iff, closing_eq_some_iff, ends]

/-! ### Reading backwards -/

/-- A type and the place where its text begins are known from the text, whatever
stands before it. -/
def ReadsBack (type : Ty) : Prop :=
  ∀ other before otherBefore,
    before ++ type.letters = otherBefore ++ other.letters →
      type = other ∧ before = otherBefore

theorem readsBack_numbered (kind : Numbered) (number : Nat) :
    (kind.type number).ReadsBack := by
  intro other before otherBefore same
  have closes : other.closing = none := by
    rw [closing_eq_of_append same]
    cases kind <;> rfl
  obtain ⟨otherKind, otherNumber, rfl⟩ := exists_numbered_of_closing closes
  rw [Numbered.letters_type, Numbered.letters_type, ← List.append_assoc,
    ← List.append_assoc] at same
  have areDigits : ∀ number, ∀ letter ∈ Nat.toDigits 10 number,
      letter.isDigit = true := fun number letter =>
    Nat.isDigit_of_mem_toDigits (by decide) (by decide)
  obtain ⟨sameWord, sameDigits⟩ := append_inj_of_runs same (areDigits _)
    (areDigits _) (kind.stops_word before) (otherKind.stops_word otherBefore)
  obtain ⟨rfl, sameBefore⟩ := Numbered.word_inj sameWord
  have sameNumber := congrArg (Nat.ofDigitChars 10 · 0) sameDigits
  simp only [Nat.ofDigitChars_ten_toDigits] at sameNumber
  exact ⟨by rw [sameNumber], sameBefore⟩

/-- What is printed of a list before its last type. -/
def lead (types : List Ty) : List Char :=
  if types = [] then [] else listLetters types ++ ", ".toList

theorem listLetters_concat (types : List Ty) (last : Ty) :
    listLetters (types ++ [last]) = lead types ++ last.letters := by
  induction types with
  | nil => simp [lead, listLetters, listText, letters]
  | cons type types ih =>
      cases types with
      | nil => simp [lead, listLetters, listText, letters]
      | cons next types =>
          have printed : ∀ rest, listLetters (type :: next :: rest) =
              type.letters ++ ", ".toList ++ listLetters (next :: rest) := by
            simp [listLetters, listText, letters]
          rw [lead, if_neg (List.cons_ne_nil _ _)] at ih ⊢
          rw [List.cons_append, List.cons_append, printed, printed,
            ← List.cons_append, ih]
          simp

theorem not_isOpen_append_listLetters (before : List Char) {types : List Ty}
    (nonempty : types ≠ []) : ¬IsOpen (before ++ listLetters types) := by
  obtain ⟨init, last, rfl⟩ := types.eq_nil_or_concat.resolve_left nonempty
  rw [List.concat_eq_append, listLetters_concat, ← List.append_assoc]
  exact not_isOpen_append_letters _ last

/-- Behind an open bracket, a comma tells that there is a type before it. -/
theorem append_listLetters_of_lead {types others : List Ty}
    {before otherBefore : List Char} (isOpen : IsOpen before)
    (otherIsOpen : IsOpen otherBefore)
    (same : before ++ lead types = otherBefore ++ lead others) :
    before ++ listLetters types = otherBefore ++ listLetters others := by
  have not_isOpen_lead : ∀ (before : List Char) {types : List Ty}, types ≠ [] →
      ¬IsOpen (before ++ lead types) := by
    intro before types nonempty
    simp [IsOpen, lead, nonempty, List.getLast?_append]
  by_cases isEmpty : types = []
  · by_cases otherIsEmpty : others = []
    · rw [isEmpty, otherIsEmpty] at same ⊢
      exact same
    · rw [isEmpty, show lead [] = [] from rfl, List.append_nil] at same
      rw [same] at isOpen
      exact absurd isOpen (not_isOpen_lead otherBefore otherIsEmpty)
  · by_cases otherIsEmpty : others = []
    · rw [otherIsEmpty, show lead [] = [] from rfl, List.append_nil] at same
      rw [← same] at otherIsOpen
      exact absurd otherIsOpen (not_isOpen_lead before isEmpty)
    · rw [lead, lead, if_neg isEmpty, if_neg otherIsEmpty, ← List.append_assoc,
        ← List.append_assoc] at same
      exact List.append_cancel_right same

/-- A list of types is read back to the bracket before it, if its types are read
back. -/
theorem readsBack_list {types others : List Ty} {before otherBefore : List Char}
    (readBack : ∀ type ∈ types, ReadsBack type) (isOpen : IsOpen before)
    (otherIsOpen : IsOpen otherBefore)
    (same : before ++ listLetters types = otherBefore ++ listLetters others) :
    types = others ∧ before = otherBefore := by
  induction types using List.reverseRecOn generalizing others with
  | nil =>
      rw [show listLetters [] = [] from rfl, List.append_nil] at same
      by_cases isEmpty : others = []
      · subst isEmpty
        exact ⟨rfl, same.trans (List.append_nil _)⟩
      · rw [same] at isOpen
        exact absurd isOpen (not_isOpen_append_listLetters otherBefore isEmpty)
  | append_singleton types last ih =>
      rcases others.eq_nil_or_concat with rfl | ⟨others, otherLast, rfl⟩
      · rw [show listLetters [] = [] from rfl, List.append_nil] at same
        rw [← same] at otherIsOpen
        exact absurd otherIsOpen (not_isOpen_append_listLetters before (by simp))
      · rw [List.concat_eq_append, listLetters_concat, listLetters_concat,
          ← List.append_assoc, ← List.append_assoc] at same
        obtain ⟨rfl, sameLead⟩ := readBack last (by simp) otherLast _ _ same
        obtain ⟨rfl, sameBefore⟩ :=
          ih (fun type listed => readBack type (by simp [listed]))
            (append_listLetters_of_lead isOpen otherIsOpen sameLead)
        exact ⟨(List.concat_eq_append).symm, sameBefore⟩

theorem readsBack_word {type : Ty} (isWord : type ∈ [dynamic, void, never]) :
    type.ReadsBack := by
  intro other before otherBefore same
  have closes := closing_eq_of_append same
  obtain rfl : type = other := by
    simp only [List.mem_cons, List.not_mem_nil, or_false] at isWord
    unfold closing at closes
    rcases isWord with rfl | rfl | rfl <;> split at closes <;> simp_all
  exact ⟨rfl, List.append_cancel_right same⟩

theorem readsBack_interface {cls : ClassId} {argument : Ty} {arguments : List Ty}
    (readBack : ∀ type ∈ argument :: arguments, ReadsBack type) :
    (interface cls (argument :: arguments)).ReadsBack := by
  intro other before otherBefore same
  have closes := closing_eq_of_append same
  cases other with
  | interface otherCls others =>
      cases others with
      | nil => cases closes
      | cons otherArgument others =>
          rw [letters_interface, letters_interface] at same
          simp only [← List.append_assoc] at same
          obtain ⟨sameArguments, sameOpening⟩ := readsBack_list readBack
            (.inr List.getLast?_concat) (.inr List.getLast?_concat)
            (List.append_cancel_right same)
          obtain ⟨sameClass, sameBefore⟩ :=
            readsBack_numbered .cls cls.index (.interface otherCls []) _ _
              (List.append_cancel_right sameOpening)
          cases sameClass
          exact ⟨by rw [sameArguments], sameBefore⟩
  | function | typedef | typeVariable | dynamic | void | never => cases closes

theorem readsBack_function {result : Ty} {parameters : List Ty}
    (resultBack : result.ReadsBack)
    (readBack : ∀ type ∈ parameters, ReadsBack type) :
    (function result parameters).ReadsBack := by
  intro other before otherBefore same
  have closes := closing_eq_of_append same
  cases other with
  | function otherResult others =>
      rw [letters_function, letters_function] at same
      simp only [← List.append_assoc] at same
      have isOpen : ∀ text : List Char, IsOpen (text ++ " Function(".toList) :=
        fun text => .inl (by simp)
      obtain ⟨rfl, sameOpening⟩ := readsBack_list readBack (isOpen _) (isOpen _)
        (List.append_cancel_right same)
      obtain ⟨rfl, sameBefore⟩ := resultBack otherResult _ _
        (List.append_cancel_right sameOpening)
      exact ⟨rfl, sameBefore⟩
  | interface cls arguments => cases arguments <;> cases closes
  | typedef | typeVariable | dynamic | void | never => cases closes

mutual

theorem readsBack : ∀ type : Ty, type.ReadsBack
  | .interface cls [] => readsBack_numbered .cls cls.index
  | .interface _ (argument :: arguments) =>
      readsBack_interface (readsBack_all (argument :: arguments))
  | .function result parameters =>
      readsBack_function (readsBack result) (readsBack_all parameters)
  | .typedef target => readsBack_numbered .typedef target.index
  | .typeVariable name => readsBack_numbered .variable name.index
  | .dynamic => readsBack_word (by simp)
  | .void => readsBack_word (by simp)
  | .never => readsBack_word (by simp)

theorem readsBack_all : ∀ types : List Ty, ∀ type ∈ types, type.ReadsBack
  | [] => by simp
  | type :: types =>
      List.forall_mem_cons.2 ⟨readsBack type, readsBack_all types⟩

end

theorem text_injective : Function.Injective text := by
  intro type other same
  exact (readsBack type other [] [] (congrArg String.toList same)).1

/-! ### Listing types -/

theorem listedTexts_perm (types : List Ty) :
    (listedTexts types).Perm (types.map text) :=
  List.mergeSort_perm _ _

theorem listedTexts_sorted (types : List Ty) :
    (listedTexts types).Pairwise fun first second =>
      decide (first ≤ second) = true := by
  refine List.pairwise_mergeSort ?_ ?_ _
  · intro first second third below further
    exact decide_eq_true
      (String.le_trans (of_decide_eq_true below) (of_decide_eq_true further))
  · intro first second
    rcases String.le_total first second with below | above
    · simp [below]
    · simp [above]

/-- Types that are printed alike are the same.  A listing of types by their texts
therefore shows each of them as often as it occurs, and no two collections of types
have the same listing. -/
theorem text_tells_types_apart :
    (∀ first second : Ty, first.text = second.text → first = second) ∧
    (∀ types : List Ty, ∀ type,
      (listedTexts types).count type.text = types.count type) ∧
    ∀ types others : List Ty,
      listedTexts types = listedTexts others ↔ types.Perm others := by
  refine ⟨fun _ _ same => text_injective same, fun types type => ?_, ?_⟩
  · rw [(listedTexts_perm types).count_eq, List.count_map_of_injective _ _ text_injective]
  · intro types others
    constructor
    · intro same
      have texts : (types.map text).Perm (others.map text) :=
        (listedTexts_perm types).symm.trans (same ▸ listedTexts_perm others)
      exact (List.map_perm_map_iff text_injective).1 texts
    · intro perm
      have texts : (listedTexts types).Perm (listedTexts others) :=
        (listedTexts_perm types).trans
          ((perm.map text).trans (listedTexts_perm others).symm)
      refine texts.eq_of_pairwise ?_ (listedTexts_sorted types)
        (listedTexts_sorted others)
      intro first second _ _ below above
      exact String.le_antisymm (of_decide_eq_true below) (of_decide_eq_true above)

/-- The type of functions that return a function. -/
def curried : Ty :=
  .function (.function .void [.dynamic]) [.typeVariable ⟨1⟩]

/-- The type of functions that are given a function. -/
def higherOrder : Ty :=
  .function .void [.function .dynamic [.typeVariable ⟨1⟩]]

/-- The two types differ by the place of one bracket in their texts.  Each of the
texts belongs to one type only, and both are listed. -/
theorem text_tells_function_types_apart :
    (curried.text = "void Function(dynamic) Function(T1)" ∧
      ∀ type : Ty, type.text = "void Function(dynamic) Function(T1)" →
        type = curried) ∧
    (higherOrder.text = "void Function(dynamic Function(T1))" ∧
      ∀ type : Ty, type.text = "void Function(dynamic Function(T1))" →
        type = higherOrder) ∧
    (listedTexts [curried, higherOrder, curried]).count curried.text = 2 ∧
    listedTexts [curried, higherOrder] = listedTexts [higherOrder, curried] := by
  obtain ⟨apart, counted, listed⟩ := text_tells_types_apart
  have curriedText : curried.text = "void Function(dynamic) Function(T1)" := rfl
  have higherOrderText :
      higherOrder.text = "void Function(dynamic Function(T1))" := rfl
  refine ⟨⟨curriedText, fun type isText => ?_⟩,
    ⟨higherOrderText, fun type isText => ?_⟩, ?_, ?_⟩
  · exact apart type curried (isText.trans curriedText.symm)
  · exact apart type higherOrder (isText.trans higherOrderText.symm)
  · rw [counted]
    decide
  · exact (listed _ _).2 (List.Perm.swap _ _ _)

end Ty

end TreeShaking
