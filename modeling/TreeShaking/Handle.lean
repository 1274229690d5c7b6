/-!
# Handles and entities

Libraries, classes, members, typedefs and names each live in a table of their
own.  A handle is a position in one of these tables.  The table is part of the
handle's type, so that a class is never mistaken for a member, and nothing in a
handle says that the position is inside the table: whoever follows a handle
finds that out.

Sets of handles are answered in ascending order; `Handle.ascending` puts a list
into that order and drops repetitions.
-/

namespace TreeShaking

/-- The tables whose entries are addressed by position. -/
inductive Directory where
  | libraries
  | classes
  | members
  | typedefs
  | names
deriving DecidableEq

/-- The word that introduces a handle of the table when it is printed. -/
def Directory.label : Directory → String
  | .libraries => "LibraryId"
  | .classes => "ClassId"
  | .members => "MemberId"
  | .typedefs => "TypedefId"
  | .names => "Name"

/-- A position in one of the tables. -/
structure Handle (directory : Directory) where
  index : Nat
deriving DecidableEq

instance (directory : Directory) : LawfulBEq (Handle directory) :=
  inferInstance

abbrev LibraryId := Handle .libraries
abbrev ClassId := Handle .classes
abbrev MemberId := Handle .members
abbrev TypedefId := Handle .typedefs
abbrev Name := Handle .names

namespace Handle

variable {directory : Directory}

/-- A handle as it is printed in messages, such as `ClassId(4)`. -/
def text (handle : Handle directory) : String :=
  directory.label ++ "(" ++ toString handle.index ++ ")"

/-- The handles of the first `count` entries of a table. -/
def upTo (count : Nat) : List (Handle directory) :=
  (List.range count).map Handle.mk

/-- Insert a handle into an ascending list, unless it is there already. -/
def insertAscending (handle : Handle directory) :
    List (Handle directory) → List (Handle directory)
  | [] => [handle]
  | head :: tail =>
      if handle.index < head.index then
        handle :: head :: tail
      else if handle = head then
        head :: tail
      else
        head :: insertAscending handle tail

/-- The members of a list in ascending order, each once. -/
def ascending (handles : List (Handle directory)) : List (Handle directory) :=
  handles.foldr insertAscending []

@[simp]
theorem mem_insertAscending {handle other : Handle directory}
    {handles : List (Handle directory)} :
    other ∈ insertAscending handle handles ↔
      other = handle ∨ other ∈ handles := by
  induction handles with
  | nil => simp [insertAscending]
  | cons head tail ih =>
      simp only [insertAscending]
      split
      · simp
      · split
        · rename_i equal
          subst equal
          simp
        · simp only [List.mem_cons, ih]
          constructor
          · rintro (h | h | h) <;> simp [h]
          · rintro (h | h | h) <;> simp [h]

@[simp]
theorem mem_ascending {other : Handle directory}
    {handles : List (Handle directory)} :
    other ∈ ascending handles ↔ other ∈ handles := by
  induction handles with
  | nil => simp [ascending]
  | cons head tail ih =>
      simp only [ascending, List.foldr_cons, mem_insertAscending,
        List.mem_cons] at ih ⊢
      rw [ih]

theorem pairwise_insertAscending (handle : Handle directory)
    {handles : List (Handle directory)}
    (sorted : handles.Pairwise (fun first second => first.index < second.index)) :
    (insertAscending handle handles).Pairwise
      (fun first second => first.index < second.index) := by
  induction handles with
  | nil => simp [insertAscending]
  | cons head tail ih =>
      obtain ⟨headBelow, tailSorted⟩ := List.pairwise_cons.1 sorted
      simp only [insertAscending]
      split
      · rename_i below
        refine List.pairwise_cons.2 ⟨fun other otherMem => ?_, sorted⟩
        rcases List.mem_cons.1 otherMem with rfl | inTail
        · exact below
        · exact Nat.lt_trans below (headBelow other inTail)
      · split
        · exact sorted
        · rename_i notBelow different
          refine List.pairwise_cons.2 ⟨fun other otherMem => ?_, ih tailSorted⟩
          rcases mem_insertAscending.1 otherMem with rfl | inTail
          · have : other.index ≠ head.index := fun equal => different (by
              cases other; cases head; simp_all)
            omega
          · exact headBelow other inTail

/-- Ascending order is strict, so no handle occurs twice. -/
theorem pairwise_ascending (handles : List (Handle directory)) :
    (ascending handles).Pairwise
      (fun first second => first.index < second.index) := by
  induction handles with
  | nil => simp [ascending]
  | cons head tail ih => exact pairwise_insertAscending head ih

theorem nodup_ascending (handles : List (Handle directory)) :
    (ascending handles).Nodup :=
  (pairwise_ascending handles).imp fun below same => by
    rw [same] at below
    exact Nat.lt_irrefl _ below

theorem eq_of_ascending {first second : List (Handle directory)}
    (same : ∀ handle, handle ∈ ascending first ↔ handle ∈ ascending second) :
    ascending first = ascending second := by
  refine List.Perm.eq_of_pairwise ?_ (pairwise_ascending first)
    (pairwise_ascending second) ((List.perm_ext_iff_of_nodup
      (nodup_ascending first) (nodup_ascending second)).2 same)
  intro lower upper _ _ below above
  omega

/-- The ascending order depends on nothing but which handles are listed. -/
theorem ascending_eq_ascending_iff {first second : List (Handle directory)} :
    ascending first = ascending second ↔
      ∀ handle, handle ∈ first ↔ handle ∈ second := by
  constructor
  · intro equal handle
    rw [← mem_ascending, equal, mem_ascending]
  · intro same
    apply eq_of_ascending
    simpa using same

end Handle

/-- What a finding or an impact can be attached to. -/
inductive Entity where
  | library (id : LibraryId)
  | cls (id : ClassId)
  | member (id : MemberId)
deriving DecidableEq

namespace Entity

/-- An entity as a reader of findings sees it, such as `member #3`. -/
def text : Entity → String
  | .library id => "library #" ++ toString id.index
  | .cls id => "class #" ++ toString id.index
  | .member id => "member #" ++ toString id.index

/-- An entity with its kind and handle spelled out. -/
def label : Entity → String
  | .library id => "Library(" ++ id.text ++ ")"
  | .cls id => "Class(" ++ id.text ++ ")"
  | .member id => "Member(" ++ id.text ++ ")"

end Entity

end TreeShaking
