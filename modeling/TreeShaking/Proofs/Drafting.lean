import TreeShaking.Proofs.Hierarchy
import TreeShaking.Proofs.Inheritance
import TreeShaking.Proofs.NameTables

/-!
# Programs that are declared step by step

Whatever is declared, and in whatever order, a class lists the members that have
been declared with this class as their owner, all of them and in ascending order
(`Catalogue.Complete.change`).  Programs come about in this way only, and so the
members of a class can always be enumerated.

Of all that a declaration changes, only two columns matter for this: the lists of
members of the classes and the owners of the members.  `Catalogue.Change` is what
one declaration does to them.

A declaration for which no handle is left fails, so that the tables never outgrow
the handles (`fits_of_performAll`).
-/

namespace TreeShaking

open Outcome

/-- Which members the classes list, and which class each member names as its
owner. -/
structure Catalogue where
  lists : Array (List MemberId)
  owners : Array (Option ClassId)

namespace Catalogue

/-- The members that name a class as their owner, in ascending order. -/
def ownedBy (owners : Array (Option ClassId)) (cls : ClassId) : List MemberId :=
  (Handle.upTo owners.size).filter
    (fun member => owners[member.index]? = some (some cls))

theorem mem_ownedBy_iff {owners : Array (Option ClassId)} {cls : ClassId}
    {member : MemberId} :
    member ∈ ownedBy owners cls ↔
      owners[member.index]? = some (some cls) := by
  rw [ownedBy, List.mem_filter, Handle.mem_upTo, decide_eq_true_eq]
  exact and_iff_right_of_imp fun owned => (Array.getElem?_eq_some_iff.1 owned).1

theorem pairwise_ownedBy (owners : Array (Option ClassId)) (cls : ClassId) :
    (ownedBy owners cls).Pairwise
      (fun first second => first.index < second.index) :=
  (Handle.pairwise_upTo _).filter _

theorem ownedBy_push (owners : Array (Option ClassId)) (owner : Option ClassId)
    (cls : ClassId) :
    ownedBy (owners.push owner) cls =
      ownedBy owners cls ++ if owner = some cls then [⟨owners.size⟩] else [] := by
  have earlier : (Handle.upTo owners.size : List MemberId).filter
      (fun member => (owners.push owner)[member.index]? = some (some cls)) =
      ownedBy owners cls := by
    refine List.filter_congr fun member listed => ?_
    rw [Array.getElem?_push, if_neg (Nat.ne_of_lt (Handle.mem_upTo.1 listed))]
  rw [ownedBy, Array.size_push, Handle.upTo, List.range_succ, List.map_append,
    List.filter_append]
  refine congrArg₂ (· ++ ·) earlier ?_
  by_cases isOwner : owner = some cls <;> simp [isOwner]

/-- What one declaration does to the lists and owners: nothing, a class that lists
nothing, a member without owner, or a member that its owner lists last. -/
inductive Change : Catalogue → Catalogue → Prop
  | kept (catalogue : Catalogue) : Change catalogue catalogue
  | newClass (lists : Array (List MemberId)) (owners : Array (Option ClassId)) :
      Change ⟨lists, owners⟩ ⟨lists.push [], owners⟩
  | newMember (lists : Array (List MemberId)) (owners : Array (Option ClassId)) :
      Change ⟨lists, owners⟩ ⟨lists, owners.push none⟩
  | ownedMember {lists : Array (List MemberId)} (owners : Array (Option ClassId))
      {cls : ClassId} {list : List MemberId}
      (found : lists[cls.index]? = some list) :
      Change ⟨lists, owners⟩
        ⟨lists.setIfInBounds cls.index (list ++ [⟨owners.size⟩]),
          owners.push (some cls)⟩

/-- Every class lists what it owns, and every owner is a class. -/
structure Complete (catalogue : Catalogue) : Prop where
  lists : ∀ (cls : ClassId) list, catalogue.lists[cls.index]? = some list →
    list = ownedBy catalogue.owners cls
  owners : ∀ (member : MemberId) cls,
    catalogue.owners[member.index]? = some (some cls) →
      cls.index < catalogue.lists.size

theorem Complete.change {before after : Catalogue} (complete : Complete before)
    (change : Change before after) : Complete after := by
  cases change with
  | kept => exact complete
  | newClass lists owners =>
      refine ⟨fun cls list listed => ?_, fun member cls owned => ?_⟩
      · rw [Array.getElem?_push] at listed
        split at listed
        · -- No member can have named the class before it was there.
          rename_i isNew
          obtain rfl := Option.some.inj listed
          symm
          rw [List.eq_nil_iff_forall_not_mem]
          intro member owned
          have bound := complete.owners member cls (mem_ownedBy_iff.1 owned)
          exact absurd isNew (Nat.ne_of_lt bound)
        · exact complete.lists cls list listed
      · rw [Array.size_push]
        exact Nat.lt_succ_of_lt (complete.owners member cls owned)
  | newMember lists owners =>
      refine ⟨fun cls list listed => ?_, fun member cls owned => ?_⟩
      · rw [ownedBy_push, if_neg (by simp), List.append_nil]
        exact complete.lists cls list listed
      · rw [Array.getElem?_push] at owned
        split at owned
        · cases owned
        · exact complete.owners member cls owned
  | @ownedMember lists owners owner list found =>
      have bound := (Array.getElem?_eq_some_iff.1 found).1
      refine ⟨fun cls listed isListed => ?_, fun member cls owned => ?_⟩
      · rw [ownedBy_push]
        rw [Array.getElem?_setIfInBounds] at isListed
        split at isListed
        · rename_i same
          obtain rfl : owner = cls := by
            cases owner
            cases cls
            exact congrArg Handle.mk same
          obtain rfl := Option.some.inj isListed
          rw [if_pos rfl, ← complete.lists owner list found]
        · rename_i different
          have other : some owner ≠ some cls := fun same =>
            different (congrArg Handle.index (Option.some.inj same))
          rw [if_neg other, List.append_nil]
          exact complete.lists cls listed isListed
      · rw [Array.size_setIfInBounds]
        rw [Array.getElem?_push] at owned
        split at owned
        · obtain rfl := Option.some.inj (Option.some.inj owned)
          exact bound
        · exact complete.owners member cls owned

end Catalogue

namespace Draft

/-- Classes list members that have been declared as theirs. -/
def Filed (classes : Array ClassDecl) (members : Array MemberDecl) : Prop :=
  ∀ (cls : ClassId) decl, classes[cls.index]? = some decl →
    ∀ member ∈ decl.members, ∃ declared,
      members[member.index]? = some declared ∧ declared.owner = some cls

variable {draft next : Draft}

/-- The lists and owners of what has been declared. -/
def catalogue (draft : Draft) : Catalogue where
  lists := draft.classes.map ClassDecl.members
  owners := draft.members.map MemberDecl.owner

theorem map_of_amend {α β : Type} {table amended : Array α} {index : Nat}
    {change : α → α} (done : amend table index change = .ok amended)
    (column : α → β) :
    ∃ entry, table[index]? = some entry ∧ amended.map column =
      (table.map column).setIfInBounds index (column (change entry)) := by
  simp only [amend, bind_eq_ok_iff, pure_eq_ok_iff, fetch_eq_ok_iff] at done
  obtain ⟨entry, found, rfl⟩ := done
  exact ⟨entry, found, Array.map_setIfInBounds⟩

/-- A column that an amendment does not concern stays as it is. -/
theorem map_of_amend_of_keeps {α β : Type} {table amended : Array α}
    {index : Nat} {change : α → α}
    (done : amend table index change = .ok amended) {column : α → β}
    (keeps : ∀ entry, column (change entry) = column entry) :
    amended.map column = table.map column := by
  obtain ⟨entry, found, amends⟩ := map_of_amend done column
  obtain ⟨bound, isEntry⟩ := Array.getElem?_eq_some_iff.1 found
  rw [amends, keeps, ← isEntry]
  have inColumn : index < (table.map column).size := by simpa using bound
  rw [Array.setIfInBounds, dif_pos inColumn, ← Array.getElem_map column inColumn]
  exact Array.set_getElem_self inColumn

/-- Storing a name changes nothing but the names. -/
theorem names_of_intern {text : String} {name : Name}
    (interned : draft.intern text = .ok (name, next)) :
    ∃ names, draft.names.tryIntern text = .ok (name, names) ∧
      next = { draft with names } := by
  simp only [intern, bind_eq_ok_iff, pure_eq_ok_iff,
    NameTable.intern_eq_ok_iff] at interned
  obtain ⟨⟨_, names⟩, named, same⟩ := interned
  obtain ⟨rfl, rfl⟩ := Prod.mk.inj same
  exact ⟨names, named, rfl⟩

theorem catalogue_of_intern {text : String} {name : Name}
    (interned : draft.intern text = .ok (name, next)) :
    next.catalogue = draft.catalogue := by
  obtain ⟨names, -, rfl⟩ := names_of_intern interned
  rfl

theorem catalogue_of_amendClass {cls : ClassId} {change : ClassDecl → ClassDecl}
    (amended : draft.amendClass cls change = .ok next)
    (keeps : ∀ decl, (change decl).members = decl.members) :
    next.catalogue = draft.catalogue := by
  simp only [amendClass, bind_eq_ok_iff, pure_eq_ok_iff] at amended
  obtain ⟨classes, done, rfl⟩ := amended
  simp only [catalogue, map_of_amend_of_keeps done keeps]

/-- A declared member comes last, and last in the list of its owner. -/
theorem classes_of_addMember {decl : MemberDecl}
    (added : draft.addMember decl = .ok next) :
    draft.members.size < UInt32.size ∧ ∃ classes,
      next = { draft with classes, members := draft.members.push decl } ∧
      (decl.owner = none ∧ classes = draft.classes ∨
        ∃ owner, decl.owner = some owner ∧
          amend draft.classes owner.index (fun cls => { cls with
            members := cls.members ++ [⟨draft.members.size⟩] }) =
              .ok classes) := by
  simp only [addMember, bind_eq_ok_iff, extend_eq_ok_iff] at added
  obtain ⟨_, ⟨room, rfl⟩, added⟩ := added
  refine ⟨room, ?_⟩
  cases owner : decl.owner with
  | none =>
      rw [owner] at added
      obtain rfl := Except.ok.inj added
      exact ⟨draft.classes, rfl, .inl ⟨rfl, rfl⟩⟩
  | some cls =>
      simp only [owner, amendClass, bind_eq_ok_iff, pure_eq_ok_iff] at added
      obtain ⟨_, ⟨classes, done, rfl⟩, rfl⟩ := added
      exact ⟨classes, rfl, .inr ⟨cls, rfl, done⟩⟩

theorem change_of_addMember {decl : MemberDecl}
    (added : draft.addMember decl = .ok next) :
    Catalogue.Change draft.catalogue next.catalogue := by
  obtain ⟨-, classes, rfl, ⟨unowned, rfl⟩ | ⟨cls, owner, done⟩⟩ :=
    classes_of_addMember added
  · simp only [catalogue, Array.map_push, unowned]
    exact .newMember _ _
  · obtain ⟨entry, found, amends⟩ := map_of_amend done ClassDecl.members
    simp only [catalogue, Array.map_push, owner, amends]
    rw [← Array.size_map (f := MemberDecl.owner)]
    exact .ownedMember _ (by simp [found])

theorem change_of_perform {step : Step}
    (performed : draft.perform step = .ok next) :
    Catalogue.Change draft.catalogue next.catalogue := by
  cases step with
  | intern text =>
      simp only [perform, bind_eq_ok_iff, pure_eq_ok_iff] at performed
      obtain ⟨⟨name, named⟩, interned, rfl⟩ := performed
      rw [catalogue_of_intern interned]
      exact .kept _
  | library | typedef =>
      simp only [perform, bind_eq_ok_iff, pure_eq_ok_iff] at performed
      obtain ⟨⟨name, named⟩, interned, _, -, rfl⟩ := performed
      rw [← catalogue_of_intern interned]
      exact .kept _
  | cls library text superclass =>
      simp only [perform, bind_eq_ok_iff, pure_eq_ok_iff, extend_eq_ok_iff]
        at performed
      obtain ⟨⟨name, named⟩, interned, _, ⟨-, rfl⟩, rfl⟩ := performed
      rw [← catalogue_of_intern interned]
      simp only [catalogue, Array.map_push]
      exact .newClass _ _
  | markAbstract | markNative | addInterface =>
      rw [perform] at performed
      rw [catalogue_of_amendClass performed fun _ => rfl]
      exact .kept _
  | function | topLevelField =>
      simp only [perform, bind_eq_ok_iff] at performed
      obtain ⟨⟨name, named⟩, interned, added⟩ := performed
      rw [← catalogue_of_intern interned]
      exact change_of_addMember added
  | classMember id text form =>
      simp only [perform, addClassMember, bind_eq_ok_iff] at performed
      obtain ⟨⟨name, named⟩, interned, cls, -, added⟩ := performed
      rw [← catalogue_of_intern interned]
      exact change_of_addMember added
  | member decl => exact change_of_addMember performed
  | markMalformed id =>
      simp only [perform, bind_eq_ok_iff, pure_eq_ok_iff] at performed
      obtain ⟨members, amended, rfl⟩ := performed
      have owners : members.map MemberDecl.owner =
          draft.members.map MemberDecl.owner :=
        map_of_amend_of_keeps amended fun _ => rfl
      simp only [catalogue, owners]
      exact .kept _

/-- What one declaration preserves, several preserve. -/
theorem performAll_induction {motive : Draft → Prop}
    (kept : ∀ {draft next : Draft} {step : Step}, motive draft →
      draft.perform step = .ok next → motive next)
    {steps : List Step} (holds : motive draft)
    (performed : draft.performAll steps = .ok next) : motive next := by
  induction steps generalizing draft with
  | nil =>
      obtain rfl := Except.ok.inj performed
      exact holds
  | cons step rest ih =>
      rw [performAll, List.foldlM_cons, bind_eq_ok_iff] at performed
      obtain ⟨middle, done, performed⟩ := performed
      exact ih (kept holds done) performed

theorem complete_of_performAll {steps : List Step}
    (complete : draft.catalogue.Complete)
    (performed : draft.performAll steps = .ok next) :
    next.catalogue.Complete :=
  performAll_induction (motive := fun draft => draft.catalogue.Complete)
    (fun complete done => complete.change (change_of_perform done)) complete
    performed

theorem complete_empty : ({} : Draft).catalogue.Complete :=
  ⟨by simp [catalogue], by simp [catalogue]⟩

theorem filed_of_complete (complete : draft.catalogue.Complete) :
    Filed draft.classes draft.members := by
  intro cls decl listed member isMember
  have isOwn := complete.lists cls decl.members (by simp [catalogue, listed])
  rw [isOwn, Catalogue.mem_ownedBy_iff] at isMember
  simpa [catalogue] using isMember

/-! ### Room for declarations -/

/-- There is a handle for every entry. -/
structure Fits (draft : Draft) : Prop where
  names : draft.names.size ≤ UInt32.size
  libraries : draft.libraries.size ≤ UInt32.size
  classes : draft.classes.size ≤ UInt32.size
  members : draft.members.size ≤ UInt32.size
  typedefs : draft.typedefs.size ≤ UInt32.size

theorem size_of_extend {α : Type} {table extended : Array α} {entry : α}
    (done : extend table entry = .ok extended) :
    extended.size ≤ UInt32.size := by
  obtain ⟨room, rfl⟩ := extend_eq_ok_iff.1 done
  rw [Array.size_push]
  exact room

theorem size_of_amend {α : Type} {table amended : Array α} {index : Nat}
    {change : α → α} (done : amend table index change = .ok amended) :
    amended.size = table.size := by
  simp only [amend, bind_eq_ok_iff, pure_eq_ok_iff] at done
  obtain ⟨entry, -, rfl⟩ := done
  exact Array.size_setIfInBounds

theorem Fits.intern (fits : draft.Fits) {text : String} {name : Name}
    (interned : draft.intern text = .ok (name, next)) : next.Fits := by
  obtain ⟨names, named, rfl⟩ := names_of_intern interned
  exact { fits with names := NameTable.size_of_tryIntern fits.names named }

theorem Fits.amendClass (fits : draft.Fits) {cls : ClassId}
    {change : ClassDecl → ClassDecl}
    (amended : draft.amendClass cls change = .ok next) : next.Fits := by
  simp only [Draft.amendClass, bind_eq_ok_iff, pure_eq_ok_iff] at amended
  obtain ⟨classes, done, rfl⟩ := amended
  exact { fits with classes := size_of_amend done ▸ fits.classes }

theorem Fits.addMember (fits : draft.Fits) {decl : MemberDecl}
    (added : draft.addMember decl = .ok next) : next.Fits := by
  obtain ⟨room, classes, rfl, filed⟩ := classes_of_addMember added
  have sameSize : classes.size = draft.classes.size := by
    rcases filed with ⟨-, rfl⟩ | ⟨owner, -, done⟩
    · rfl
    · exact size_of_amend done
  exact { fits with
    classes := sameSize ▸ fits.classes
    members := by rw [Array.size_push]; exact room }

theorem Fits.perform (fits : draft.Fits) {step : Step}
    (performed : draft.perform step = .ok next) : next.Fits := by
  cases step with
  | intern text =>
      simp only [Draft.perform, bind_eq_ok_iff, pure_eq_ok_iff] at performed
      obtain ⟨⟨name, named⟩, interned, rfl⟩ := performed
      exact fits.intern interned
  | library text =>
      simp only [Draft.perform, bind_eq_ok_iff, pure_eq_ok_iff] at performed
      obtain ⟨⟨name, named⟩, interned, libraries, extended, rfl⟩ := performed
      exact { fits.intern interned with libraries := size_of_extend extended }
  | cls library text superclass =>
      simp only [Draft.perform, bind_eq_ok_iff, pure_eq_ok_iff] at performed
      obtain ⟨⟨name, named⟩, interned, classes, extended, rfl⟩ := performed
      exact { fits.intern interned with classes := size_of_extend extended }
  | typedef library text aliased =>
      simp only [Draft.perform, bind_eq_ok_iff, pure_eq_ok_iff] at performed
      obtain ⟨⟨name, named⟩, interned, typedefs, extended, rfl⟩ := performed
      exact { fits.intern interned with typedefs := size_of_extend extended }
  | markAbstract | markNative | addInterface => exact fits.amendClass performed
  | function | topLevelField =>
      simp only [Draft.perform, bind_eq_ok_iff] at performed
      obtain ⟨⟨name, named⟩, interned, added⟩ := performed
      exact (fits.intern interned).addMember added
  | classMember id text form =>
      simp only [Draft.perform, addClassMember, bind_eq_ok_iff] at performed
      obtain ⟨⟨name, named⟩, interned, cls, -, added⟩ := performed
      exact (fits.intern interned).addMember added
  | member decl => exact fits.addMember performed
  | markMalformed id =>
      simp only [Draft.perform, bind_eq_ok_iff, pure_eq_ok_iff] at performed
      obtain ⟨members, amended, rfl⟩ := performed
      exact { fits with members := size_of_amend amended ▸ fits.members }

/-- Whatever has been declared, there was a handle for it. -/
theorem fits_of_performAll {steps : List Step}
    (performed : ({} : Draft).performAll steps = .ok draft) : draft.Fits :=
  performAll_induction (fun fits done => fits.perform done)
    ⟨by decide, by decide, by decide, by decide, by decide⟩ performed

end Draft

namespace Program

/-- The program has been declared step by step. -/
def Drafted (program : Program) : Prop :=
  ∃ steps draft, ({} : Draft).performAll steps = .ok draft ∧
    draft.build = .ok program

variable {program : Program} {cls : ClassId}

theorem Drafted.built (drafted : program.Drafted) : program.Built := by
  obtain ⟨steps, draft, -, built⟩ := drafted
  exact ⟨draft, built⟩

/-- A class lists the members that it owns. -/
theorem Drafted.members_eq (drafted : program.Drafted) {decl : ClassDecl}
    (fetched : program.cls cls = .ok decl) :
    decl.members =
      Catalogue.ownedBy (program.members.map MemberDecl.owner) cls := by
  obtain ⟨steps, draft, performed, built⟩ := drafted
  simp only [Draft.build, bind_eq_ok_iff, pure_eq_ok_iff] at built
  obtain ⟨_, -, above, -, below, -, rfl⟩ := built
  rw [Program.cls, fetch_eq_ok_iff] at fetched
  exact (Draft.complete_of_performAll Draft.complete_empty performed).lists cls
    decl.members (by simp [Draft.catalogue, fetched])

theorem Drafted.mem_members_iff (drafted : program.Drafted) {decl : ClassDecl}
    (fetched : program.cls cls = .ok decl) {member : MemberId} :
    member ∈ decl.members ↔ ∃ declared,
      program.member member = .ok declared ∧ declared.owner = some cls := by
  rw [drafted.members_eq fetched, Catalogue.mem_ownedBy_iff]
  simp only [Array.getElem?_map, Option.map_eq_some_iff, Program.member,
    fetch_eq_ok_iff]

/-- A class lists members that it owns. -/
theorem Drafted.owner (drafted : program.Drafted) {decl : ClassDecl}
    (fetched : program.cls cls = .ok decl) {member : MemberId}
    (listed : member ∈ decl.members) :
    ∃ declared, program.member member = .ok declared ∧
      declared.owner = some cls := by
  obtain ⟨steps, draft, performed, built⟩ := drafted
  simp only [Draft.build, bind_eq_ok_iff, pure_eq_ok_iff] at built
  obtain ⟨_, -, above, -, below, -, rfl⟩ := built
  have complete := Draft.complete_of_performAll Draft.complete_empty performed
  simp only [Program.cls, Program.member, fetch_eq_ok_iff] at fetched ⊢
  exact Draft.filed_of_complete complete cls decl fetched member listed

theorem Drafted.exists_declaredInstanceMembers (drafted : program.Drafted)
    {decl : ClassDecl} (fetched : program.cls cls = .ok decl) :
    ∃ members, program.declaredInstanceMembers cls = .ok members := by
  obtain ⟨inherited, computed⟩ : ∃ inherited,
      decl.members.mapM (program.inherit cls) = .ok inherited := by
    refine exists_mapM_of_forall fun member listed => ?_
    obtain ⟨declared, isDeclared, -⟩ := drafted.owner fetched listed
    exact ⟨_, inherit_eq_ok_iff.2 ⟨declared, isDeclared, rfl⟩⟩
  exact ⟨_, bind_eq_ok_iff.2
    ⟨decl, fetched, bind_eq_ok_iff.2 ⟨inherited, computed, rfl⟩⟩⟩

/-- The members of a class can be enumerated, class by class along its chain. -/
theorem Drafted.exists_inheritedMembers (drafted : program.Drafted)
    {chain : List ClassId} (walked : program.superclassChain cls = .ok chain) :
    ∃ declared, chain.mapM program.declaredInstanceMembers = .ok declared ∧
      program.inheritedMembers cls = .ok declared.flatten := by
  obtain ⟨declared, computed⟩ : ∃ declared,
      chain.mapM program.declaredInstanceMembers = .ok declared := by
    refine exists_mapM_of_forall fun above onChain => ?_
    obtain ⟨rest, walkedRest, -⟩ := Hierarchy.chain_suffix walked onChain
    obtain ⟨decl, fetched⟩ := cls_of_superclassChain walkedRest
    exact drafted.exists_declaredInstanceMembers fetched
  exact ⟨declared, computed, bind_eq_ok_iff.2
    ⟨chain, walked, bind_eq_ok_iff.2 ⟨declared, computed, rfl⟩⟩⟩

theorem Drafted.owner_of_declared (drafted : program.Drafted)
    {members : List Inherited}
    (declares : program.declaredInstanceMembers cls = .ok members)
    {inherited : Inherited} (present : inherited ∈ members) :
    inherited.decl.owner = some cls := by
  simp only [declaredInstanceMembers, bind_eq_ok_iff, pure_eq_ok_iff] at declares
  obtain ⟨decl, fetched, all, computed, rfl⟩ := declares
  obtain ⟨isDeclared, -⟩ := List.mem_filter.1 present
  obtain ⟨member, listed, inherits⟩ := exists_element_of_mapM computed isDeclared
  obtain ⟨found, isFound, rfl⟩ := inherit_eq_ok_iff.1 inherits
  obtain ⟨owned, isOwned, isOwner⟩ := drafted.owner fetched listed
  rw [isFound] at isOwned
  obtain rfl := Except.ok.inj isOwned
  exact isOwner

end Program

end TreeShaking
