import Mathlib.Data.List.Dedup
import Mathlib.Data.List.Perm.Subperm
import Mathlib.Logic.Relation
import TreeShaking.Program.Draft
import TreeShaking.Proofs.Outcome

/-!
# The closures of the class hierarchy

The superclass chain of a class ends with the chains of the classes on it
(`chain_suffix`).  The table of subclasses is filled by filing every class under
the classes on its chain, and comes out as if each entry had been selected from
all classes (`subclasses_eq`).

The walk through superclasses and interfaces stops only when it has met
everything above the class (`climb_closed`), and it meets nothing else
(`climb_sound`), so that the supertypes of a class are those it reaches through
direct supertypes, in whatever circles these run.

A program that was built from a draft stores these closures; `Built` is all that
is known about where a program comes from.
-/

namespace TreeShaking

open Outcome

/-- Distinct handles that point into a table are not more than its entries. -/
theorem Handle.length_le_size {directory : Directory} {α : Type}
    {table : Array α} {visited : List (Handle directory)}
    (distinct : visited.Nodup)
    (inTable : ∀ handle ∈ visited, ∃ entry, fetch table handle.index = .ok entry) :
    visited.length ≤ table.size := by
  have within : visited.map Handle.index ⊆ List.range table.size := by
    intro index listed
    obtain ⟨handle, isVisited, rfl⟩ := List.mem_map.1 listed
    obtain ⟨entry, fetched⟩ := inTable handle isVisited
    rw [fetch_eq_ok_iff, Array.getElem?_eq_some_iff] at fetched
    obtain ⟨bound, -⟩ := fetched
    exact List.mem_range.2 bound
  have distinctIndices : (visited.map Handle.index).Nodup :=
    distinct.map fun first second same => by
      cases first
      cases second
      exact congrArg _ same
  simpa using (distinctIndices.subperm within).length_le

namespace Handle

variable {directory : Directory}

theorem getElem?_upTo {count position : Nat} {handle : Handle directory} :
    (upTo count : List (Handle directory))[position]? = some handle ↔
      position < count ∧ handle = ⟨position⟩ := by
  simp only [upTo, List.getElem?_map, Option.map_eq_some_iff,
    List.getElem?_eq_some_iff, List.length_range, List.getElem_range]
  constructor
  · rintro ⟨_, ⟨bound, rfl⟩, rfl⟩
    exact ⟨bound, rfl⟩
  · rintro ⟨bound, rfl⟩
    exact ⟨position, ⟨bound, rfl⟩, rfl⟩

theorem mem_upTo {count : Nat} {handle : Handle directory} :
    handle ∈ (upTo count : List (Handle directory)) ↔ handle.index < count := by
  simp only [upTo, List.mem_map, List.mem_range]
  constructor
  · rintro ⟨index, bound, rfl⟩
    exact bound
  · intro bound
    exact ⟨handle.index, bound, rfl⟩

theorem pairwise_upTo (count : Nat) :
    (upTo count : List (Handle directory)).Pairwise
      (fun first second => first.index < second.index) :=
  List.pairwise_map.2 List.pairwise_lt_range

end Handle

namespace Hierarchy

variable {classes : Array ClassDecl}

/-! ### Superclass chains -/

/-- A walk ends at a class without superclass, or goes on with the superclass. -/
theorem chainWithin_succ_eq_ok_iff {fuel : Nat} {cls : ClassId}
    {chain : List ClassId} :
    chainWithin classes (fuel + 1) cls = .ok chain ↔
      ∃ decl, fetch classes cls.index = .ok decl ∧
        ((decl.superclass = none ∧ chain = [cls]) ∨
          ∃ above rest, decl.superclass = some above ∧
            chainWithin classes fuel above = .ok rest ∧
            chain = cls :: rest) := by
  rw [chainWithin, bind_eq_ok_iff]
  refine exists_congr fun decl => and_congr_right fun _ => ?_
  cases superclass : decl.superclass with
  | none =>
      dsimp only
      rw [pure_eq_ok_iff, eq_comm]
      simp
  | some above =>
      dsimp only
      simp only [bind_eq_ok_iff, pure_eq_ok_iff, @eq_comm _ chain]
      simp

theorem chainWithin_mono {fuel : Nat} {cls : ClassId} {chain : List ClassId}
    (walked : chainWithin classes fuel cls = .ok chain) :
    chainWithin classes (fuel + 1) cls = .ok chain := by
  induction fuel generalizing cls chain with
  | zero => cases walked
  | succ fuel ih =>
      obtain ⟨decl, fetched, isTop | ⟨above, rest, superclass, walkedRest, isChain⟩⟩ :=
        chainWithin_succ_eq_ok_iff.1 walked
      · exact chainWithin_succ_eq_ok_iff.2 ⟨decl, fetched, .inl isTop⟩
      · exact chainWithin_succ_eq_ok_iff.2
          ⟨decl, fetched, .inr ⟨above, rest, superclass, ih walkedRest, isChain⟩⟩

/-- A chain starts with its class. -/
theorem exists_cons_of_chainWithin {fuel : Nat} {cls : ClassId}
    {chain : List ClassId}
    (walked : chainWithin classes fuel cls = .ok chain) :
    ∃ rest, chain = cls :: rest := by
  cases fuel with
  | zero => cases walked
  | succ fuel =>
      obtain ⟨decl, -, ⟨-, rfl⟩ | ⟨above, rest, -, -, rfl⟩⟩ :=
        chainWithin_succ_eq_ok_iff.1 walked
      · exact ⟨[], rfl⟩
      · exact ⟨rest, rfl⟩

/-- The chain of a class on a chain is the end of that chain. -/
theorem chainWithin_split {fuel : Nat} {cls : ClassId}
    {front : List ClassId} {above : ClassId} {back : List ClassId}
    (walked : chainWithin classes fuel cls = .ok (front ++ above :: back)) :
    chainWithin classes fuel above = .ok (above :: back) := by
  induction fuel generalizing cls front with
  | zero => cases walked
  | succ fuel ih =>
      cases front with
      | nil =>
          obtain ⟨rest, isWhole⟩ := exists_cons_of_chainWithin walked
          obtain ⟨rfl, -⟩ := List.cons.inj isWhole
          exact walked
      | cons first front =>
          obtain ⟨decl, -, ⟨-, isWhole⟩ | ⟨next, rest, -, walkedRest, isWhole⟩⟩ :=
            chainWithin_succ_eq_ok_iff.1 walked
          · simp at isWhole
          · obtain ⟨rfl, rfl⟩ := List.cons.inj isWhole
            exact chainWithin_mono (ih walkedRest)

/-- No class is its own superclass. -/
theorem chainWithin_nodup {fuel : Nat} {cls : ClassId} {chain : List ClassId}
    (walked : chainWithin classes fuel cls = .ok chain) : chain.Nodup := by
  induction fuel generalizing cls chain with
  | zero => cases walked
  | succ fuel ih =>
      obtain ⟨decl, -, ⟨-, rfl⟩ | ⟨next, rest, -, walkedRest, rfl⟩⟩ :=
        chainWithin_succ_eq_ok_iff.1 walked
      · exact List.nodup_singleton cls
      · refine List.nodup_cons.2 ⟨fun inRest => ?_, ih walkedRest⟩
        -- The chain of a class that comes again would be part of itself.
        obtain ⟨front, back, rfl⟩ := List.append_of_mem inRest
        rw [chainWithin_mono (chainWithin_split walkedRest)] at walked
        have length := congrArg List.length (Except.ok.inj walked)
        simp only [List.length_cons, List.length_append] at length
        omega

theorem chain_suffix {cls above : ClassId} {chain : List ClassId}
    (walked : Hierarchy.chain classes cls = .ok chain)
    (present : above ∈ chain) :
    ∃ rest, Hierarchy.chain classes above = .ok rest ∧ rest <:+ chain := by
  obtain ⟨front, back, rfl⟩ := List.append_of_mem present
  exact ⟨above :: back, chainWithin_split walked, List.suffix_append _ _⟩

theorem exists_cons_of_chain {cls : ClassId} {chain : List ClassId}
    (walked : Hierarchy.chain classes cls = .ok chain) :
    ∃ rest, chain = cls :: rest :=
  exists_cons_of_chainWithin walked

/-! ### Supertypes -/

/-- One class is a direct supertype of another. -/
def Parent (classes : Array ClassDecl) (lower upper : ClassId) : Prop :=
  ∃ decl, fetch classes lower.index = .ok decl ∧ upper ∈ decl.parents

/-- What is above a class, the class included. -/
def Above (classes : Array ClassDecl) : ClassId → ClassId → Prop :=
  Relation.ReflTransGen (Parent classes)

theorem nodup_eraseDups {α : Type} [DecidableEq α] (list : List α) :
    list.eraseDups.Nodup := by
  match list with
  | [] => simp
  | head :: tail =>
      rw [List.eraseDups_cons, List.nodup_cons]
      refine ⟨by simp, nodup_eraseDups _⟩
termination_by list.length
decreasing_by exact Nat.lt_succ_of_le (List.length_filter_le _ _)

/-- What a climb has done when it stands before the pending classes: it has
visited the other ones that it has met, and met all their parents. -/
structure Climbing (classes : Array ClassDecl) (visited pending : List ClassId) :
    Prop where
  distinct : (visited ++ pending).Nodup
  fetched : ∀ cls ∈ visited, ∃ decl, fetch classes cls.index = .ok decl ∧
    decl.parents ⊆ visited ++ pending

theorem Climbing.visit {visited pending : List ClassId} {cls : ClassId}
    {decl : ClassDecl}
    (climbing : Climbing classes visited (cls :: pending))
    (fetched : fetch classes cls.index = .ok decl) :
    Climbing classes (visited ++ [cls])
      (pending ++ (decl.parents.filter
        (fun parent => parent ∉ visited ++ cls :: pending)).eraseDups) where
  distinct := by
    have regroup : ∀ fresh, visited ++ [cls] ++ (pending ++ fresh) =
        visited ++ cls :: pending ++ fresh := by
      simp
    rw [regroup]
    refine climbing.distinct.append (nodup_eraseDups _) ?_
    intro other met fresh
    rw [List.mem_eraseDups, List.mem_filter] at fresh
    simpa [met] using fresh.2
  fetched other isVisited := by
    rcases List.mem_append.1 isVisited with old | new
    · obtain ⟨otherDecl, otherFetched, within⟩ := climbing.fetched other old
      refine ⟨otherDecl, otherFetched, fun parent isParent => ?_⟩
      have met := within isParent
      simp only [List.mem_append, List.mem_cons] at met ⊢
      tauto
    · obtain rfl : other = cls := by simpa using new
      refine ⟨decl, fetched, fun parent isParent => ?_⟩
      by_cases met : parent ∈ visited ++ other :: pending
      · simp only [List.mem_append, List.mem_cons] at met ⊢
        tauto
      · have fresh : parent ∈ (decl.parents.filter
            (fun parent => parent ∉ visited ++ other :: pending)).eraseDups := by
          rw [List.mem_eraseDups, List.mem_filter]
          exact ⟨isParent, by simpa using met⟩
        exact List.mem_append_right _ (List.mem_append_right _ fresh)

/-- A climb with enough fuel ends when nothing is pending. -/
theorem climb_closed {fuel : Nat} {visited pending met : List ClassId}
    (climbing : Climbing classes visited pending)
    (enough : visited.length + fuel = classes.size + 1)
    (climbed : climb classes fuel pending (visited ++ pending) = .ok met) :
    Climbing classes met [] ∧ visited ++ pending ⊆ met := by
  induction fuel generalizing visited pending with
  | zero =>
      -- More classes would have been visited than the table has.
      have bound := Handle.length_le_size climbing.distinct.of_append_left
        fun cls isVisited =>
          (climbing.fetched cls isVisited).imp fun decl known => known.1
      omega
  | succ fuel ih =>
      cases pending with
      | nil =>
          simp only [climb, Except.ok.injEq, List.append_nil] at climbed
          subst climbed
          exact ⟨climbing, by simp⟩
      | cons cls pending =>
          simp only [climb, bind_eq_ok_iff] at climbed
          obtain ⟨decl, fetched, climbed⟩ := climbed
          have regroup : ∀ fresh, visited ++ cls :: pending ++ fresh =
              visited ++ [cls] ++ (pending ++ fresh) := by
            simp
          rw [regroup] at climbed
          obtain ⟨closed, within⟩ :=
            ih (climbing.visit fetched) (by simp; omega) climbed
          refine ⟨closed, fun other listed => within ?_⟩
          simp only [List.mem_append, List.mem_cons] at listed ⊢
          tauto

/-- A climb keeps what it has met at the front. -/
theorem prefix_of_climb {fuel : Nat} {pending met found : List ClassId}
    (climbed : climb classes fuel pending met = .ok found) : met <+: found := by
  induction fuel generalizing pending met with
  | zero =>
      obtain rfl : met = found := by
        cases pending <;> simpa [climb] using climbed
      exact List.prefix_refl _
  | succ fuel ih =>
      cases pending with
      | nil =>
          obtain rfl : met = found := by simpa [climb] using climbed
          exact List.prefix_refl _
      | cons next pending =>
          simp only [climb, bind_eq_ok_iff] at climbed
          obtain ⟨decl, -, climbed⟩ := climbed
          exact (List.prefix_append _ _).trans (ih climbed)

/-- A climb meets only what is above the classes that it starts from. -/
theorem climb_sound {fuel : Nat} {pending met found : List ClassId}
    (climbed : climb classes fuel pending met = .ok found)
    (within : pending ⊆ met) {cls : ClassId} (present : cls ∈ found) :
    ∃ start ∈ met, Above classes start cls := by
  induction fuel generalizing pending met with
  | zero =>
      obtain rfl : met = found := by
        cases pending <;> simpa [climb] using climbed
      exact ⟨cls, present, .refl⟩
  | succ fuel ih =>
      cases pending with
      | nil =>
          obtain rfl : met = found := by simpa [climb] using climbed
          exact ⟨cls, present, .refl⟩
      | cons next pending =>
          simp only [climb, bind_eq_ok_iff] at climbed
          obtain ⟨decl, fetched, climbed⟩ := climbed
          have stillWithin : pending ++ (decl.parents.filter
              (fun parent => parent ∉ met)).eraseDups ⊆
              met ++ (decl.parents.filter
                (fun parent => parent ∉ met)).eraseDups := by
            intro other listed
            rcases List.mem_append.1 listed with old | fresh
            · exact List.mem_append_left _ (within (List.mem_cons_of_mem _ old))
            · exact List.mem_append_right _ fresh
          obtain ⟨start, started, above⟩ := ih climbed stillWithin
          rcases List.mem_append.1 started with old | fresh
          · exact ⟨start, old, above⟩
          · rw [List.mem_eraseDups, List.mem_filter] at fresh
            have edge : Parent classes next start := ⟨decl, fetched, fresh.1⟩
            exact ⟨next, within List.mem_cons_self, above.head edge⟩

theorem above_of_closed {met : List ClassId} (closed : Climbing classes met [])
    {lower upper : ClassId} (present : lower ∈ met)
    (above : Above classes lower upper) : upper ∈ met := by
  induction above with
  | refl => exact present
  | tail _ edge ih =>
      obtain ⟨decl, fetched, isParent⟩ := edge
      obtain ⟨known, knownFetched, within⟩ := closed.fetched _ ih
      rw [fetched] at knownFetched
      cases knownFetched
      simpa using within isParent

/-- The climb from a class ends with the class and its supertypes. -/
theorem climb_of_supertypes {cls : ClassId} {found : List ClassId}
    (climbed : supertypes classes cls = .ok found) :
    climb classes (classes.size + 1) [cls] [cls] = .ok (cls :: found) ∧
      Climbing classes (cls :: found) [] := by
  simp only [supertypes, bind_eq_ok_iff, pure_eq_ok_iff] at climbed
  obtain ⟨met, climbed, rfl⟩ := climbed
  obtain ⟨rest, rfl⟩ := prefix_of_climb climbed
  have start : Climbing classes [] [cls] := ⟨by simp, by simp⟩
  exact ⟨climbed, (climb_closed start (by simp) climbed).1⟩

theorem nodup_supertypes {cls : ClassId} {found : List ClassId}
    (climbed : supertypes classes cls = .ok found) :
    cls ∉ found ∧ found.Nodup := by
  have distinct := (climb_of_supertypes climbed).2.distinct
  rw [List.append_nil] at distinct
  exact List.nodup_cons.1 distinct

/-- The supertypes of a class are the other classes above it. -/
theorem mem_supertypes_iff {cls above : ClassId} {found : List ClassId}
    (climbed : supertypes classes cls = .ok found) :
    above ∈ found ↔ above ≠ cls ∧ Above classes cls above := by
  obtain ⟨reached, closed⟩ := climb_of_supertypes climbed
  constructor
  · intro present
    obtain ⟨start, started, isAbove⟩ :=
      climb_sound reached (by simp) (List.mem_cons_of_mem _ present)
    obtain rfl : start = cls := by simpa using started
    refine ⟨?_, isAbove⟩
    rintro rfl
    exact (nodup_supertypes climbed).1 present
  · rintro ⟨different, isAbove⟩
    have present := above_of_closed closed List.mem_cons_self isAbove
    exact (List.mem_cons.1 present).resolve_left different

/-- Everything above a class that a climb has met is in the table. -/
theorem fetched_of_mem_supertypes {cls above : ClassId} {found : List ClassId}
    (climbed : supertypes classes cls = .ok found)
    (present : above ∈ found) :
    ∃ decl, fetch classes above.index = .ok decl := by
  obtain ⟨decl, fetched, -⟩ := (climb_of_supertypes climbed).2.fetched above
    (List.mem_cons_of_mem _ present)
  exact ⟨decl, fetched⟩

/-! ### Filing subclasses -/

/-- A table after a class has been filed once under each class of a chain. -/
def filed (table : Array (List ClassId)) (cls : ClassId)
    (chain : List ClassId) : Array (List ClassId) :=
  table.mapIdx fun position heirs =>
    if ⟨position⟩ ∈ chain then heirs ++ [cls] else heirs

theorem filed_singleton {table : Array (List ClassId)} {cls above : ClassId}
    {heirs : List ClassId} (found : table[above.index]? = some heirs) :
    filed table cls [above] =
      table.setIfInBounds above.index (heirs ++ [cls]) := by
  refine Array.ext_getElem? fun position => ?_
  rw [filed, Array.getElem?_mapIdx, Array.getElem?_setIfInBounds]
  by_cases same : above.index = position
  · subst same
    obtain ⟨bound, rfl⟩ := Array.getElem?_eq_some_iff.1 found
    simp [bound]
  · have different : (⟨position⟩ : ClassId) ≠ above := by
      rintro rfl
      exact same rfl
    simp [same, different]

/-- Filing under a class and then under others files under all of them, if the
class is not among the others. -/
theorem filed_cons {table : Array (List ClassId)} {cls above : ClassId}
    {rest : List ClassId} (isNew : above ∉ rest) :
    filed (filed table cls [above]) cls rest = filed table cls (above :: rest) := by
  refine Array.ext_getElem? fun position => ?_
  simp only [filed, Array.getElem?_mapIdx, Option.map_map]
  congr 1
  funext heirs
  by_cases same : ⟨position⟩ = above
  · subst same
    simp [isNew]
  · simp [same]

theorem size_filed (table : Array (List ClassId)) (cls : ClassId)
    (chain : List ClassId) : (filed table cls chain).size = table.size :=
  Array.size_mapIdx

/-- Filing a class is walking a chain, and filing the class once under every
class on it: a chain does not come to a class twice. -/
theorem fileWithin_eq {cls above : ClassId} {fuel : Nat}
    {table : Array (List ClassId)} (sized : table.size = classes.size) :
    fileWithin classes cls fuel above table =
      (chainWithin classes fuel above).map (filed table cls) := by
  induction fuel generalizing above table with
  | zero => rfl
  | succ fuel ih =>
      cases fetched : fetch classes above.index with
      | error failure =>
          obtain ⟨outside, rfl⟩ := fetch_eq_error_iff.1 fetched
          have unfiled : fetch table above.index =
              .error (.outOfBounds classes.size above.index) :=
            fetch_eq_error_iff.2 ⟨sized ▸ outside, by rw [sized]⟩
          rw [fileWithin, chainWithin, amend, unfiled, fetched]
          rfl
      | ok decl =>
          have bound := (Array.getElem?_eq_some_iff.1 (fetch_eq_ok_iff.1 fetched)).1
          have found : table[above.index]? = some table[above.index] :=
            Array.getElem?_eq_getElem (sized ▸ bound)
          rw [fileWithin, chainWithin, amend, fetch_eq_ok_iff.2 found, fetched]
          simp only [bind, Except.bind, pure, Except.pure]
          rw [← filed_singleton found]
          cases superclass : decl.superclass with
          | none => rfl
          | some next =>
              dsimp only
              rw [ih (by rw [size_filed, sized])]
              cases walked : chainWithin classes fuel next with
              | error failure => rfl
              | ok rest =>
                  have whole := chainWithin_succ_eq_ok_iff.2
                    ⟨decl, fetched, .inr ⟨next, rest, superclass, walked, rfl⟩⟩
                  have isNew := (List.nodup_cons.1 (chainWithin_nodup whole)).1
                  exact congrArg Except.ok (filed_cons isNew)

/-- Those of some classes, in their order, on whose chains a class is. -/
def heirs (classes : List ClassId) (chains : List (List ClassId))
    (cls : ClassId) : List ClassId :=
  ((classes.zip chains).filter (fun entry => cls ∈ entry.2)).map Prod.fst

/-- Filing several classes in turn adds to each entry those on whose chains its
class is. -/
theorem foldlM_fileWithin_eq {table : Array (List ClassId)}
    (sized : table.size = classes.size) (listed : List ClassId) :
    listed.foldlM
        (fun table cls => fileWithin classes cls (classes.size + 1) cls table)
        table =
      (listed.mapM (chain classes)).map fun chains =>
        table.mapIdx fun position before =>
          before ++ heirs listed chains ⟨position⟩ := by
  induction listed generalizing table with
  | nil =>
      refine congrArg Except.ok (Array.ext_getElem? fun position => ?_)
      simp [heirs]
  | cons cls rest ih =>
      rw [List.foldlM_cons, List.mapM_cons, fileWithin_eq sized, chain]
      cases chainWithin classes (classes.size + 1) cls with
      | error failure => rfl
      | ok first =>
          change List.foldlM _ (filed table cls first) rest = _
          rw [ih (by rw [size_filed, sized])]
          cases rest.mapM (chain classes) with
          | error failure => rfl
          | ok chains =>
              refine congrArg Except.ok (Array.ext_getElem? fun position => ?_)
              simp only [filed, Array.getElem?_mapIdx, Option.map_map]
              congr 1
              funext before
              by_cases onChain : ⟨position⟩ ∈ first
              · simp [heirs, onChain]
              · simp [heirs, onChain]

/-- The table of subclasses lists, under every class, the classes on whose chains
it is, in the order of the table and each once. -/
theorem subclasses_eq (classes : Array ClassDecl) :
    subclasses classes =
      ((Handle.upTo classes.size).mapM (chain classes)).map fun chains =>
        List.toArray ((Handle.upTo classes.size).map
          (heirs (Handle.upTo classes.size) chains)) := by
  rw [subclasses, foldlM_fileWithin_eq Array.size_replicate]
  refine congrArg (Except.map · _) (funext fun chains => ?_)
  refine Array.ext_getElem? fun position => ?_
  rw [Array.getElem?_mapIdx, Array.getElem?_replicate, List.getElem?_toArray,
    List.getElem?_map]
  split
  · rename_i bound
    rw [Handle.getElem?_upTo.2 ⟨bound, rfl⟩]
    simp
  · rename_i outside
    have none : (Handle.upTo classes.size : List ClassId)[position]? = none := by
      rw [List.getElem?_eq_none_iff, Handle.upTo, List.length_map,
        List.length_range]
      omega
    rw [none]
    rfl

/-- Filing stops only where the chain of a class does. -/
theorem exists_failure_of_subclasses {failure : Failure}
    (failed : subclasses classes = .error failure) :
    ∃ cls ∈ Handle.upTo classes.size, chain classes cls = .error failure := by
  rw [subclasses_eq] at failed
  cases walked : (Handle.upTo classes.size).mapM (chain classes) with
  | ok chains =>
      rw [walked] at failed
      cases failed
  | error reason =>
      rw [walked] at failed
      obtain rfl := Except.error.inj failed
      exact exists_failure_of_mapM walked

end Hierarchy

/-! ### Programs that were built -/

namespace Program

/-- The program comes from a draft. -/
def Built (program : Program) : Prop :=
  ∃ draft : Draft, draft.build = .ok program

variable {program : Program}

/-- The stored closures are those of the table of classes. -/
structure Closures (program : Program) : Prop where
  supertypes : ∃ table, program.supertypeTable = List.toArray table ∧
    (Handle.upTo program.classes.size).mapM
      (Hierarchy.supertypes program.classes) = .ok table
  subclasses : Hierarchy.subclasses program.classes = .ok program.subclassTable

theorem Built.closures (built : program.Built) : program.Closures := by
  obtain ⟨draft, built⟩ := built
  simp only [Draft.build, bind_eq_ok_iff, pure_eq_ok_iff, handles_eq_ok_iff]
    at built
  obtain ⟨_, ⟨-, rfl⟩, above, climbed, below, listed, rfl⟩ := built
  exact ⟨⟨above, rfl, climbed⟩, listed⟩

theorem Built.supertypes_eq (built : program.Built) {cls : ClassId}
    {found : List ClassId} (stored : program.supertypes cls = .ok found) :
    Hierarchy.supertypes program.classes cls = .ok found := by
  obtain ⟨table, isTable, climbed⟩ := built.closures.supertypes
  rw [supertypes, fetch_eq_ok_iff, isTable, List.getElem?_toArray] at stored
  obtain ⟨element, listed, computed⟩ := getElem?_of_mapM climbed stored
  obtain ⟨-, rfl⟩ := Handle.getElem?_upTo.1 listed
  exact computed

theorem Built.exists_supertypes (built : program.Built) {cls : ClassId}
    {decl : ClassDecl} (fetched : program.cls cls = .ok decl) :
    ∃ found, program.supertypes cls = .ok found := by
  obtain ⟨table, isTable, climbed⟩ := built.closures.supertypes
  rw [Program.cls, fetch_eq_ok_iff, Array.getElem?_eq_some_iff] at fetched
  obtain ⟨bound, -⟩ := fetched
  have size : table.length = program.classes.size := by
    rw [← (mapM_eq_ok_iff.1 climbed).length_eq]
    simp [Handle.upTo]
  exact ⟨table[cls.index], by
    rw [supertypes, fetch_eq_ok_iff, isTable, List.getElem?_toArray]
    exact List.getElem?_eq_getElem (size ▸ bound)⟩

/-- What is above a supertype of a class is above the class. -/
theorem Built.supertypes_trans (built : program.Built) {lower middle : ClassId}
    {found : List ClassId} (stored : program.supertypes lower = .ok found)
    (present : middle ∈ found) :
    ∃ higher, program.supertypes middle = .ok higher ∧
      ∀ upper ∈ higher, upper = lower ∨ upper ∈ found := by
  have climbed := built.supertypes_eq stored
  obtain ⟨decl, fetched⟩ := Hierarchy.fetched_of_mem_supertypes climbed present
  obtain ⟨higher, storedHigher⟩ := built.exists_supertypes fetched
  refine ⟨higher, storedHigher, fun upper isHigher => ?_⟩
  obtain ⟨-, lowerToMiddle⟩ := (Hierarchy.mem_supertypes_iff climbed).1 present
  obtain ⟨-, middleToUpper⟩ :=
    (Hierarchy.mem_supertypes_iff (built.supertypes_eq storedHigher)).1 isHigher
  by_cases same : upper = lower
  · exact .inl same
  · exact .inr ((Hierarchy.mem_supertypes_iff climbed).2
      ⟨same, lowerToMiddle.trans middleToUpper⟩)

theorem cls_of_superclassChain {cls : ClassId} {chain : List ClassId}
    (walked : program.superclassChain cls = .ok chain) :
    ∃ decl, program.cls cls = .ok decl := by
  simp only [superclassChain, Hierarchy.chain, Hierarchy.chainWithin,
    bind_eq_ok_iff] at walked
  obtain ⟨decl, fetched, -⟩ := walked
  exact ⟨decl, fetched⟩

theorem Built.exists_chains (built : program.Built) :
    ∃ chains, (Handle.upTo program.classes.size).mapM
        program.superclassChain = .ok chains ∧
      program.subclassTable = List.toArray
        ((Handle.upTo program.classes.size).map
          (Hierarchy.heirs (Handle.upTo program.classes.size) chains)) := by
  have listed := built.closures.subclasses
  rw [Hierarchy.subclasses_eq] at listed
  cases walked : (Handle.upTo program.classes.size).mapM
      (Hierarchy.chain program.classes) with
  | error failure =>
      rw [walked] at listed
      cases listed
  | ok chains =>
      rw [walked] at listed
      exact ⟨chains, walked, (Except.ok.inj listed).symm⟩

theorem Built.exists_superclassChain (built : program.Built) {cls : ClassId}
    {decl : ClassDecl} (fetched : program.cls cls = .ok decl) :
    ∃ chain, program.superclassChain cls = .ok chain := by
  obtain ⟨chains, walked, -⟩ := built.exists_chains
  rw [Program.cls, fetch_eq_ok_iff, Array.getElem?_eq_some_iff] at fetched
  obtain ⟨bound, -⟩ := fetched
  have listed : cls ∈ Handle.upTo program.classes.size :=
    Handle.mem_upTo.2 bound
  obtain ⟨chain, -, isChain⟩ := exists_result_of_mapM walked listed
  exact ⟨chain, isChain⟩

/-- The subclasses of a class are those on whose chain it is. -/
theorem Built.mem_subclasses_iff (built : program.Built) {cls : ClassId}
    {heirs : List ClassId} (stored : program.subclasses cls = .ok heirs)
    {lower : ClassId} :
    lower ∈ heirs ↔
      ∃ chain, program.superclassChain lower = .ok chain ∧ cls ∈ chain := by
  obtain ⟨chains, walked, isTable⟩ := built.exists_chains
  rw [subclasses, fetch_eq_ok_iff, isTable, List.getElem?_toArray,
    List.getElem?_map, Option.map_eq_some_iff] at stored
  obtain ⟨element, listed, rfl⟩ := stored
  obtain ⟨-, rfl⟩ := Handle.getElem?_upTo.1 listed
  simp only [Hierarchy.heirs, List.mem_map, List.mem_filter, decide_eq_true_eq,
    Prod.exists, exists_and_right, exists_eq_right]
  constructor
  · rintro ⟨chain, zipped, onChain⟩
    refine ⟨chain, ?_, onChain⟩
    obtain ⟨position, found⟩ := List.mem_iff_getElem?.1 zipped
    rw [List.getElem?_zip_eq_some] at found
    obtain ⟨element, isElement, isChain⟩ := getElem?_of_mapM walked found.2
    rw [found.1] at isElement
    cases isElement
    exact isChain
  · rintro ⟨chain, isChain, onChain⟩
    refine ⟨chain, ?_, onChain⟩
    obtain ⟨decl, fetched⟩ := cls_of_superclassChain isChain
    rw [Program.cls, fetch_eq_ok_iff, Array.getElem?_eq_some_iff] at fetched
    obtain ⟨bound, -⟩ := fetched
    have isLower := Handle.getElem?_upTo.2
      ⟨bound, (rfl : lower = ⟨lower.index⟩)⟩
    have size : chains.length = program.classes.size := by
      rw [← (mapM_eq_ok_iff.1 walked).length_eq]
      simp [Handle.upTo]
    have found : chains[lower.index]? = some chains[lower.index] :=
      List.getElem?_eq_getElem (size ▸ bound)
    obtain ⟨element, isElement, isFound⟩ := getElem?_of_mapM walked found
    rw [isLower] at isElement
    cases isElement
    rw [isChain] at isFound
    refine List.mem_iff_getElem?.2 ⟨lower.index, ?_⟩
    rw [List.getElem?_zip_eq_some]
    refine ⟨isLower, ?_⟩
    rw [found, ← Except.ok.inj isFound]

/-- One class is another or inherits from it. -/
def HasSuperclass (program : Program) (cls above : ClassId) : Prop :=
  ∃ chain, program.superclassChain cls = .ok chain ∧ above ∈ chain

/-- One class is another or has it as a supertype. -/
def HasSupertype (program : Program) (cls above : ClassId) : Prop :=
  above = cls ∨ ∃ found, program.supertypes cls = .ok found ∧ above ∈ found

theorem hasSuperclass_self {cls : ClassId} {chain : List ClassId}
    (walked : program.superclassChain cls = .ok chain) :
    program.HasSuperclass cls cls := by
  obtain ⟨rest, rfl⟩ := Hierarchy.exists_cons_of_chain walked
  exact ⟨_, walked, by simp⟩

end Program

end TreeShaking
