/-!
# Finite tables

A table is a finite map kept as a list of entries with distinct keys, in the
order in which the keys arrived: a value that is written under a known key takes
the place of the old one.  So a table is not changed by writing what it holds
(`insert_eq_self`).

`get?` is the view through which a table is understood: `get?_insert` and
`get?_erase` say what writing and dropping do to it, and `get?_eq_some_iff` that
it shows every entry.
-/

namespace TreeShaking

/-- A finite map from keys to values. -/
structure Table (κ : Type) (ν : Type) where
  entries : List (κ × ν)
  distinct : (entries.map Prod.fst).Nodup

/-- The table without entries. -/
instance (κ ν : Type) : EmptyCollection (Table κ ν) where
  emptyCollection := { entries := [], distinct := List.nodup_nil }

namespace Table

variable {κ ν : Type} [DecidableEq κ]

/-- The value stored under a key. -/
def get? (table : Table κ ν) (key : κ) : Option ν :=
  table.entries.lookup key

/-- The value stored under a key, or a default. -/
def getD (table : Table κ ν) (key : κ) (default : ν) : ν :=
  (table.get? key).getD default

/-- Whether a value is stored under a key. -/
def contains (table : Table κ ν) (key : κ) : Bool :=
  (table.get? key).isSome

/-- Drop the value stored under a key. -/
def erase (table : Table κ ν) (key : κ) : Table κ ν where
  entries := table.entries.filter (fun entry => !(key == entry.1))
  distinct := table.distinct.sublist (List.filter_sublist.map Prod.fst)

/-- The entries after a value has been written under a key. -/
def write (key : κ) (value : ν) : List (κ × ν) → List (κ × ν)
  | [] => [(key, value)]
  | entry :: entries =>
      if entry.1 = key then
        (key, value) :: entries
      else
        entry :: write key value entries

theorem keys_write (key : κ) (value : ν) (entries : List (κ × ν)) :
    (write key value entries).map Prod.fst =
      if key ∈ entries.map Prod.fst then
        entries.map Prod.fst
      else
        entries.map Prod.fst ++ [key] := by
  induction entries with
  | nil => rfl
  | cons entry entries ih =>
      unfold write
      split
      · rename_i same
        simp [same]
      · rename_i different
        rw [List.map_cons, ih]
        by_cases present : key ∈ entries.map Prod.fst
        · simp only [present, List.map_cons, List.mem_cons, or_true, if_true]
        · have absent : key ∉ (entry :: entries).map Prod.fst := by
            rw [List.map_cons, List.mem_cons]
            rintro (same | inRest)
            · exact different same.symm
            · exact present inRest
          rw [if_neg present, if_neg absent]
          rfl

theorem nodup_keys_write {entries : List (κ × ν)}
    (distinct : (entries.map Prod.fst).Nodup) (key : κ) (value : ν) :
    ((write key value entries).map Prod.fst).Nodup := by
  rw [keys_write]
  split
  · exact distinct
  · rename_i absent
    refine List.nodup_append.2 ⟨distinct, by simp, ?_⟩
    rintro known isKnown _ isKey rfl
    exact absent (List.mem_singleton.1 isKey ▸ isKnown)

/-- Store a value under a key, in place of what was there. -/
def insert (table : Table κ ν) (key : κ) (value : ν) : Table κ ν where
  entries := write key value table.entries
  distinct := nodup_keys_write table.distinct key value

/-- The table of a list of entries; of two entries with one key the later one
counts. -/
def ofList (entries : List (κ × ν)) : Table κ ν :=
  entries.foldl (fun table entry => table.insert entry.1 entry.2) {}

/-- The keys that have a value. -/
def keys (table : Table κ ν) : List κ :=
  table.entries.map Prod.fst

/-- The number of keys that have a value. -/
def size (table : Table κ ν) : Nat :=
  table.entries.length

private theorem lookup_eq_some_iff_mem {entries : List (κ × ν)}
    (distinct : (entries.map Prod.fst).Nodup) {key : κ} {value : ν} :
    entries.lookup key = some value ↔ (key, value) ∈ entries := by
  induction entries with
  | nil => simp
  | cons entry entries ih =>
      obtain ⟨first, stored⟩ := entry
      obtain ⟨fresh, restDistinct⟩ := List.nodup_cons.1 distinct
      by_cases same : key = first
      · subst same
        have absent : (key, value) ∉ entries := fun found =>
          fresh (List.mem_map.2 ⟨(key, value), found, rfl⟩)
        simp [absent, eq_comm]
      · have differs : (key == first) = false := by simpa using same
        simp [List.lookup_cons, differs, same, ih restDistinct]

/-- Reading a table shows exactly its entries. -/
theorem get?_eq_some_iff {table : Table κ ν} {key : κ} {value : ν} :
    table.get? key = some value ↔ (key, value) ∈ table.entries :=
  lookup_eq_some_iff_mem table.distinct

theorem mem_keys_iff {table : Table κ ν} {key : κ} :
    key ∈ table.keys ↔ ∃ value, table.get? key = some value := by
  simp [keys, get?_eq_some_iff]

@[simp]
theorem get?_empty (key : κ) : (({} : Table κ ν).get? key) = none :=
  rfl

private theorem lookup_filter_self (entries : List (κ × ν)) (key : κ) :
    (entries.filter (fun entry => !(key == entry.1))).lookup key = none := by
  induction entries with
  | nil => rfl
  | cons entry entries ih =>
      obtain ⟨first, value⟩ := entry
      by_cases same : key = first
      · simp [same]
      · have differs : (key == first) = false := by simpa using same
        simp [List.lookup_cons, differs, ih]

private theorem lookup_filter_other (entries : List (κ × ν)) {key other : κ}
    (different : other ≠ key) :
    (entries.filter (fun entry => !(key == entry.1))).lookup other =
      entries.lookup other := by
  induction entries with
  | nil => rfl
  | cons entry entries ih =>
      obtain ⟨first, value⟩ := entry
      by_cases same : key = first
      · subst same
        have differs : (other == key) = false := by simpa using different
        simpa [List.filter_cons, List.lookup_cons, differs] using ih
      · have differs : (key == first) = false := by simpa using same
        simp only [List.filter_cons, differs, List.lookup_cons, ih,
          Bool.not_false, if_true]

@[simp]
theorem get?_erase (table : Table κ ν) (key other : κ) :
    (table.erase key).get? other =
      if other = key then none else table.get? other := by
  by_cases equal : other = key
  · rw [if_pos equal, equal]
    exact lookup_filter_self table.entries key
  · rw [if_neg equal]
    exact lookup_filter_other table.entries equal

private theorem lookup_write (key other : κ) (value : ν)
    (entries : List (κ × ν)) :
    (write key value entries).lookup other =
      if other = key then some value else entries.lookup other := by
  induction entries with
  | nil =>
      by_cases equal : other = key
      · simp [write, equal]
      · have differs : (other == key) = false := by simpa using equal
        simp [write, List.lookup_cons, equal, differs]
  | cons entry entries ih =>
      obtain ⟨first, stored⟩ := entry
      unfold write
      split
      · rename_i same
        obtain rfl : first = key := same
        by_cases equal : other = first
        · simp [equal]
        · have differs : (other == first) = false := by simpa using equal
          simp [List.lookup_cons, equal, differs]
      · rename_i different
        rw [List.lookup_cons, List.lookup_cons, ih]
        by_cases equal : other = key
        · subst equal
          have differs : (other == first) = false :=
            beq_eq_false_iff_ne.2 fun same => different same.symm
          simp [differs]
        · simp [equal]

@[simp]
theorem get?_insert (table : Table κ ν) (key other : κ) (value : ν) :
    (table.insert key value).get? other =
      if other = key then some value else table.get? other :=
  lookup_write key other value table.entries

/-- A new key makes one more entry. -/
theorem size_insert {table : Table κ ν} {key : κ}
    (absent : table.get? key = none) (value : ν) :
    (table.insert key value).size = table.size + 1 := by
  have isNew : key ∉ table.entries.map Prod.fst := fun present => by
    obtain ⟨stored, isStored⟩ := mem_keys_iff.1 present
    rw [absent] at isStored
    cases isStored
  have keys := congrArg List.length (keys_write key value table.entries)
  rwa [if_neg isNew, List.length_append, List.length_map, List.length_map]
    at keys

private theorem write_of_mem {key : κ} {value : ν} {entries : List (κ × ν)}
    (distinct : (entries.map Prod.fst).Nodup)
    (stored : (key, value) ∈ entries) : write key value entries = entries := by
  induction entries with
  | nil => cases stored
  | cons entry entries ih =>
      obtain ⟨fresh, restDistinct⟩ := List.nodup_cons.1 distinct
      unfold write
      rcases List.mem_cons.1 stored with rfl | inRest
      · rw [if_pos rfl]
      · have different : entry.1 ≠ key := fun same =>
          fresh (List.mem_map.2 ⟨(key, value), inRest, same.symm⟩)
        rw [if_neg different, ih restDistinct inRest]

/-- Writing what a table holds already does not change it. -/
theorem insert_eq_self {table : Table κ ν} {key : κ} {value : ν}
    (stored : table.get? key = some value) :
    table.insert key value = table := by
  obtain ⟨entries, distinct⟩ := table
  have same := write_of_mem distinct (get?_eq_some_iff.1 stored)
  simp only [insert, same]

theorem getD_ofList_single (key other : κ) (value default : ν) :
    (ofList [(key, value)]).getD other default =
      if other = key then value else default := by
  rw [ofList, List.foldl_cons, List.foldl_nil, getD, get?_insert]
  split
  · rfl
  · rfl

end Table

end TreeShaking
