import TreeShaking.Proofs.Lookup

/-!
# Enumeration against lookup

Enumerating the members of a class goes upwards along its chain and visits the
first member of each slot, where a slot is a name together with the answer whether
the member is a setter.  Looking a name up goes the same way and stops at the first
member that can be read, or else written, under the name.

For members that are read the two agree.  For writes they do not: a field that can
be assigned is written under its name as a setter is, but it takes no setter's slot.
So a setter is visited although a nearer field takes all its writes, and a field is
passed over although no nearer member takes its writes.  These two cases are the
only ones (`Inherited.first_iff_leads_iff`).
-/

namespace TreeShaking

open Outcome

namespace Inherited

variable {before after : List Inherited} {candidate : Inherited}

/-- A member that occurs once is visited if and only if it is the first of its
slot. -/
theorem mem_firstOfSlots_iff {seen : List (MemberName × Bool)}
    (notBefore : candidate ∉ before) (notAfter : candidate ∉ after) :
    candidate ∈ firstOfSlots seen (before ++ candidate :: after) ↔
      candidate.slot ∉ seen ∧
        ∀ other ∈ before, other.slot ≠ candidate.slot := by
  constructor
  · intro visited
    induction before generalizing seen with
    | nil =>
        rw [List.nil_append, firstOfSlots] at visited
        split at visited
        · exact absurd (mem_of_mem_firstOfSlots visited) notAfter
        · rename_i unseen
          exact ⟨unseen, by simp⟩
    | cons head tail ih =>
        rw [List.mem_cons, not_or] at notBefore
        rw [List.cons_append, firstOfSlots] at visited
        split at visited
        · rename_i headSeen
          obtain ⟨unseen, isFirst⟩ := ih notBefore.2 visited
          refine ⟨unseen, List.forall_mem_cons.2 ⟨fun same => ?_, isFirst⟩⟩
          exact unseen (same ▸ headSeen)
        · have inRest := (List.mem_cons.1 visited).resolve_left notBefore.1
          obtain ⟨unseen, isFirst⟩ := ih notBefore.2 inRest
          rw [List.mem_cons, not_or] at unseen
          exact ⟨unseen.2,
            List.forall_mem_cons.2 ⟨Ne.symm unseen.1, isFirst⟩⟩
  · rintro ⟨unseen, isFirst⟩
    exact mem_firstOfSlots unseen isFirst

/-- No member is listed twice. -/
abbrev Distinct (list : List Inherited) : Prop :=
  (list.map Inherited.member).Nodup

theorem Distinct.ne (distinct : Distinct (before ++ candidate :: after)) :
    (∀ other ∈ before, other.member ≠ candidate.member) ∧
      ∀ other ∈ after, other.member ≠ candidate.member := by
  rw [Distinct, List.map_append, List.map_cons, List.nodup_append,
    List.nodup_cons] at distinct
  obtain ⟨-, ⟨notAfter, -⟩, apart⟩ := distinct
  constructor
  · intro other isBefore
    exact apart _ (List.mem_map_of_mem isBefore) _ List.mem_cons_self
  · intro other isAfter same
    exact notAfter (same ▸ List.mem_map_of_mem isAfter)

/-- A search leads to a member that occurs once if and only if the member passes
and none before it does. -/
theorem Distinct.find?_iff
    (distinct : Distinct (before ++ candidate :: after))
    (test : Inherited → Bool) :
    ((before ++ candidate :: after).find? test).map Inherited.member =
        some candidate.member ↔
      test candidate = true ∧ ∀ other ∈ before, test other = false := by
  obtain ⟨notBefore, notAfter⟩ := distinct.ne
  rw [List.find?_append]
  cases nearer : before.find? test with
  | some found =>
      have isBefore := List.mem_of_find?_eq_some nearer
      have passes := List.find?_some nearer
      rw [Option.some_or, Option.map_some, Option.some.injEq]
      constructor
      · exact fun same => absurd same (notBefore found isBefore)
      · rintro ⟨-, fails⟩
        rw [fails found isBefore] at passes
        cases passes
  | none =>
      have fails : ∀ other ∈ before, test other = false := by
        simpa using nearer
      rw [Option.none_or, List.find?_cons]
      cases passes : test candidate with
      | true => simpa using fails
      | false =>
          simp only [Bool.false_eq_true, false_and, iff_false]
          intro isMember
          obtain ⟨found, isFound, same⟩ := Option.map_eq_some_iff.1 isMember
          exact notAfter found (List.mem_of_find?_eq_some isFound) same

/-! ### The cases in between -/

/-- A nearer field takes the writes from a setter whose slot no nearer member
takes. -/
def LosesWrites (before : List Inherited) (candidate : Inherited) : Prop :=
  candidate.decl.isSetter = true ∧
    (∀ other ∈ before, other.name = candidate.name →
      other.decl.isSetter = false) ∧
    ∃ other ∈ before, other.name = candidate.name ∧
      other.decl.isAssignable = true

/-- Nearer members take the slot of a field that can be assigned, and none of them
takes its writes. -/
def KeepsWrites (before : List Inherited) (candidate : Inherited) : Prop :=
  candidate.decl.isAssignable = true ∧
    (∃ other ∈ before, other.name = candidate.name) ∧
    ∀ other ∈ before, other.name = candidate.name →
      other.answers true = false

/-- The name of a member leads to it, past those before it. -/
def Leads (before : List Inherited) (candidate : Inherited) (setter : Bool) :
    Prop :=
  candidate.answers setter = true ∧
    ∀ other ∈ before, other.name = candidate.name →
      other.answers setter = false

/-- For a setter, being the first of its slot and being led to differ if a nearer
field takes its writes. -/
theorem first_iff_leads_iff_of_isSetter
    (isSetter : candidate.decl.isSetter = true) :
    ((∀ other ∈ before, other.slot ≠ candidate.slot) ↔
        Leads before candidate false ∨ Leads before candidate true) ↔
      ¬ LosesWrites before candidate := by
  have unread : ¬ Leads before candidate false := by
    simp [Leads, answers, isSetter]
  constructor
  · rintro agree ⟨-, free, field, isBefore, named, isAssignable⟩
    have isFirst : ∀ other ∈ before, other.slot ≠ candidate.slot := by
      intro other isOther same
      obtain ⟨sameName, sameKind⟩ := Prod.mk.inj same
      rw [isSetter, free other isOther sameName] at sameKind
      cases sameKind
    have writes := (agree.1 isFirst).resolve_left unread
    have silent := writes.2 field isBefore named
    simp [answers, isAssignable] at silent
  · intro keeps
    constructor
    · intro isFirst
      have free : ∀ other ∈ before, other.name = candidate.name →
          other.decl.isSetter = false := by
        intro other isBefore named
        refine Bool.of_not_eq_true fun otherSetter => ?_
        exact isFirst other isBefore
          (Prod.ext named (otherSetter.trans isSetter.symm))
      refine .inr ⟨by simp [answers, isSetter], fun other isBefore named => ?_⟩
      have notField : other.decl.isAssignable = false :=
        Bool.of_not_eq_true fun isAssignable =>
          keeps ⟨isSetter, free, other, isBefore, named, isAssignable⟩
      simp [answers, free other isBefore named, notField]
    · rintro leads other isBefore same
      have writes := leads.resolve_left unread
      obtain ⟨sameName, sameKind⟩ := Prod.mk.inj same
      have silent := writes.2 other isBefore sameName
      simp [answers, sameKind, isSetter] at silent

/-- What is read is led to if it is the first of its slot. -/
theorem leads_false_iff (isRead : candidate.decl.isSetter = false) :
    Leads before candidate false ↔
      ∀ other ∈ before, other.slot ≠ candidate.slot := by
  constructor
  · rintro ⟨-, others⟩ other isBefore same
    obtain ⟨sameName, sameKind⟩ := Prod.mk.inj same
    have silent := others other isBefore sameName
    simp [answers, sameKind, isRead] at silent
  · intro isFirst
    refine ⟨by simp [answers, isRead], fun other isBefore named => ?_⟩
    have isSetter : other.decl.isSetter = true :=
      Bool.of_not_eq_false fun otherRead =>
        isFirst other isBefore (Prod.ext named (otherRead.trans isRead.symm))
    simp [answers, isSetter]

/-- For a member that is read, being the first of its slot and being led to differ
if it keeps its writes. -/
theorem first_iff_leads_iff_of_isRead
    (isRead : candidate.decl.isSetter = false) :
    ((∀ other ∈ before, other.slot ≠ candidate.slot) ↔
        Leads before candidate false ∨ Leads before candidate true) ↔
      ¬ KeepsWrites before candidate := by
  rw [leads_false_iff isRead]
  constructor
  · rintro agree ⟨isAssignable, ⟨other, isBefore, named⟩, silent⟩
    have writes : Leads before candidate true :=
      ⟨by simp [answers, isAssignable], silent⟩
    have otherRead : other.decl.isSetter = false := by
      have otherSilent := silent other isBefore named
      simp only [answers, if_true, Bool.or_eq_false_iff] at otherSilent
      exact otherSilent.1
    exact agree.2 (.inr writes) other isBefore
      (Prod.ext named (otherRead.trans isRead.symm))
  · intro hidden
    refine ⟨.inl, ?_⟩
    rintro (isFirst | ⟨written, silent⟩)
    · exact isFirst
    · intro other isBefore same
      have isAssignable : candidate.decl.isAssignable = true := by
        simpa [answers, isRead] using written
      exact hidden ⟨isAssignable,
        ⟨other, isBefore, (Prod.mk.inj same).1⟩, silent⟩

/-- Being the first of its slot and being led to are the same for a member, unless
its slot and its writes go different ways. -/
theorem first_iff_leads_iff :
    ((∀ other ∈ before, other.slot ≠ candidate.slot) ↔
        Leads before candidate false ∨ Leads before candidate true) ↔
      ¬ (LosesWrites before candidate ∨ KeepsWrites before candidate) := by
  cases isSetter : candidate.decl.isSetter with
  | true =>
      have notField : ¬ KeepsWrites before candidate := by
        rintro ⟨isAssignable, -⟩
        rw [MemberDecl.isSetter, beq_iff_eq] at isSetter
        rw [MemberDecl.isAssignable, isSetter] at isAssignable
        cases isAssignable
      rw [first_iff_leads_iff_of_isSetter isSetter, or_iff_left notField]
  | false =>
      have notSetter : ¬ LosesWrites before candidate := by
        rintro ⟨setter, -⟩
        rw [isSetter] at setter
        cases setter
      rw [first_iff_leads_iff_of_isRead isSetter, or_iff_right notSetter]

end Inherited

namespace Program

variable {program : Program} {cls declarer : ClassId} {member : MemberId}
  {decl : MemberDecl}

/-! ### The members along a chain -/

/-- A class, or one that it inherits from, declares an instance member. -/
structure HasMember (program : Program) (cls : ClassId) (member : MemberId)
    (decl : MemberDecl) : Prop where
  declared : program.member member = .ok decl
  isInstance : decl.isInstanceMember = true
  owned : ∃ declarer, decl.owner = some declarer ∧
    program.HasSuperclass cls declarer

theorem map_member_of_inherit {members : List MemberId} {all : List Inherited}
    (inherits : members.mapM (program.inherit declarer) = .ok all) :
    all.map Inherited.member = members := by
  induction mapM_eq_ok_iff.1 inherits with
  | nil => rfl
  | cons first others ih =>
      obtain ⟨found, -, rfl⟩ := inherit_eq_ok_iff.1 first
      rw [List.map_cons, ih (mapM_eq_ok_iff.2 others)]

/-- A class declares no instance member twice. -/
theorem Drafted.distinct_declared (drafted : program.Drafted)
    {members : List Inherited}
    (declares : program.declaredInstanceMembers declarer = .ok members) :
    Inherited.Distinct members := by
  simp only [declaredInstanceMembers, bind_eq_ok_iff, pure_eq_ok_iff] at declares
  obtain ⟨decl, fetched, all, inherits, rfl⟩ := declares
  have ascending := Catalogue.pairwise_ownedBy
    (program.members.map MemberDecl.owner) declarer
  rw [← drafted.members_eq fetched, ← map_member_of_inherit inherits] at ascending
  have distinct : (all.map Inherited.member).Nodup :=
    ascending.imp fun below same => by simp [same] at below
  exact distinct.sublist (List.filter_sublist.map _)

/-- No member is inherited twice, since each has one owner. -/
theorem Drafted.distinct_inherited (drafted : program.Drafted)
    {all : List Inherited} (inherits : program.inheritedMembers cls = .ok all) :
    Inherited.Distinct all := by
  simp only [inheritedMembers, bind_eq_ok_iff, pure_eq_ok_iff] at inherits
  obtain ⟨chain, walked, declared, computed, rfl⟩ := inherits
  have distinctClasses := Hierarchy.chainWithin_nodup walked
  clear walked
  induction mapM_eq_ok_iff.1 computed with
  | nil => exact List.nodup_nil
  | @cons first own chain rest declares others ih =>
      obtain ⟨notAgain, distinctRest⟩ := List.nodup_cons.1 distinctClasses
      have computedRest := mapM_eq_ok_iff.2 others
      rw [Inherited.Distinct, List.flatten_cons, List.map_append,
        List.nodup_append]
      refine ⟨drafted.distinct_declared declares, ih computedRest distinctRest, ?_⟩
      intro id isOwn other isOther same
      obtain ⟨inherited, inOwn, rfl⟩ := List.mem_map.1 isOwn
      obtain ⟨above, inRest, rfl⟩ := List.mem_map.1 isOther
      obtain ⟨members, listed, inMembers⟩ := List.mem_flatten.1 inRest
      obtain ⟨ancestor, onChain, ancestorDeclares⟩ :=
        exists_element_of_mapM computedRest listed
      -- The owner of the one member would be both classes.
      have declaredHere := (declaredIn_of_mem declares inOwn).declared
      have declaredAbove := (declaredIn_of_mem ancestorDeclares inMembers).declared
      rw [same, declaredAbove] at declaredHere
      have ownerHere := drafted.owner_of_declared declares inOwn
      have ownerAbove := drafted.owner_of_declared ancestorDeclares inMembers
      rw [Except.ok.inj declaredHere, ownerHere] at ownerAbove
      exact notAgain (Option.some.inj ownerAbove ▸ onChain)

/-- An instance member that is owned by a class of the chain is inherited. -/
theorem Drafted.exists_inherited (drafted : program.Drafted)
    (has : program.HasMember cls member decl) :
    ∃ before candidate after,
      program.inheritedMembers cls = .ok (before ++ candidate :: after) ∧
      candidate.member = member ∧ candidate.decl = decl ∧
      candidate.name = program.names.memberName decl.name decl.library := by
  obtain ⟨declared, isInstance, declarer, owner, chain, walked, onChain⟩ := has
  obtain ⟨lists, computed, inheritsAll⟩ := drafted.exists_inheritedMembers walked
  obtain ⟨own, isOwn, declares⟩ := exists_result_of_mapM computed onChain
  have listed : ∃ candidate ∈ own, candidate.member = member := by
    simp only [declaredInstanceMembers, bind_eq_ok_iff, pure_eq_ok_iff]
      at declares
    obtain ⟨classDecl, fetched, all, inherited, rfl⟩ := declares
    have isListed := (drafted.mem_members_iff fetched).2 ⟨decl, declared, owner⟩
    obtain ⟨candidate, inAll, found⟩ := exists_result_of_mapM inherited isListed
    obtain ⟨known, isKnown, rfl⟩ := inherit_eq_ok_iff.1 found
    obtain rfl := Except.ok.inj (declared.symm.trans isKnown)
    exact ⟨_, List.mem_filter.2 ⟨inAll, isInstance⟩, rfl⟩
  obtain ⟨candidate, inOwn, rfl⟩ := listed
  have origin := declaredIn_of_mem declares inOwn
  obtain rfl := Except.ok.inj (declared.symm.trans origin.declared)
  obtain ⟨before, after, isSplit⟩ :=
    List.append_of_mem (List.mem_flatten.2 ⟨own, isOwn, inOwn⟩)
  exact ⟨before, candidate, after, isSplit ▸ inheritsAll, rfl, rfl, origin.named⟩

/-! ### Enumeration and lookup -/

/-- Enumerating the members of a class visits a member. -/
def Visits (program : Program) (cls : ClassId) (member : MemberId) : Prop :=
  ∃ members, program.classMembers cls = .ok members ∧
    ∃ inherited ∈ members, inherited.member = member

/-- The slot of an inherited member and its writes go different ways. -/
def Torn (program : Program) (cls : ClassId) (member : MemberId) : Prop :=
  ∃ before candidate after,
    program.inheritedMembers cls = .ok (before ++ candidate :: after) ∧
    candidate.member = member ∧
      (Inherited.LosesWrites before candidate ∨
        Inherited.KeepsWrites before candidate)

section Split

variable {before after : List Inherited} {candidate : Inherited}

theorem Drafted.visits_iff (drafted : program.Drafted)
    (inherits : program.inheritedMembers cls =
      .ok (before ++ candidate :: after)) :
    program.Visits cls candidate.member ↔
      ∀ other ∈ before, other.slot ≠ candidate.slot := by
  have distinct := drafted.distinct_inherited inherits
  obtain ⟨notBefore, notAfter⟩ := distinct.ne
  have visited : program.Visits cls candidate.member ↔
      candidate ∈ Inherited.firstOfSlots [] (before ++ candidate :: after) := by
    simp only [Visits, classMembers, inherits, bind_eq_ok_iff, pure_eq_ok_iff,
      Except.ok.injEq, exists_eq_left']
    constructor
    · rintro ⟨inherited, isVisited, same⟩
      have listed := Inherited.mem_of_mem_firstOfSlots isVisited
      obtain rfl : inherited = candidate :=
        List.inj_on_of_nodup_map distinct listed (by simp) same
      exact isVisited
    · exact fun isVisited => ⟨candidate, isVisited, rfl⟩
  rw [visited, Inherited.mem_firstOfSlots_iff (fun again => notBefore _ again rfl)
    (fun again => notAfter _ again rfl)]
  simp

theorem Drafted.lookup_iff (drafted : program.Drafted)
    (inherits : program.inheritedMembers cls =
      .ok (before ++ candidate :: after)) (setter : Bool) :
    program.lookupMember cls candidate.name setter =
        .ok (some candidate.member) ↔
      Inherited.Leads before candidate setter := by
  have distinct := drafted.distinct_inherited inherits
  simp only [lookupMember, inherits, bind_eq_ok_iff, pure_eq_ok_iff,
    Except.ok.injEq, exists_eq_left']
  rw [distinct.find?_iff]
  simp [Inherited.Leads]

theorem Drafted.torn_iff (drafted : program.Drafted)
    (inherits : program.inheritedMembers cls =
      .ok (before ++ candidate :: after)) :
    program.Torn cls candidate.member ↔
      Inherited.LosesWrites before candidate ∨
        Inherited.KeepsWrites before candidate := by
  constructor
  · rintro ⟨front, other, back, isSplit, same, torn⟩
    rw [inherits] at isSplit
    have whole := Except.ok.inj isSplit
    have distinct := drafted.distinct_inherited inherits
    obtain ⟨notBefore, notAfter⟩ := distinct.ne
    obtain rfl : other = candidate :=
      List.inj_on_of_nodup_map distinct (by simp [whole]) (by simp) same
    obtain ⟨rfl, -, -⟩ := (List.append_cons_inj_of_notMem
      (fun again => notBefore _ again rfl)
      (fun again => notAfter _ again rfl)).1 whole
    exact torn
  · exact fun torn => ⟨before, candidate, after, inherits, rfl, torn⟩

end Split

/-- Enumerating a class visits an inherited member if and only if the name of the
member leads to it for reading or for writing, unless the slot of the member and its
writes go different ways. -/
theorem visits_iff_answers_iff (drafted : program.Drafted)
    (has : program.HasMember cls member decl) {name : MemberName}
    (named : program.memberName member = .ok name) :
    (program.Visits cls member ↔
        program.lookupMember cls name false = .ok (some member) ∨
          program.lookupMember cls name true = .ok (some member)) ↔
      ¬ program.Torn cls member := by
  obtain ⟨before, candidate, after, inheritsAll, rfl, -, isName⟩ :=
    drafted.exists_inherited has
  obtain rfl : candidate.name = name := by
    simp only [memberName, has.declared, bind_eq_ok_iff, pure_eq_ok_iff,
      Except.ok.injEq, exists_eq_left'] at named
    exact isName.trans named
  rw [drafted.visits_iff inheritsAll, drafted.lookup_iff inheritsAll,
    drafted.lookup_iff inheritsAll, drafted.torn_iff inheritsAll]
  exact Inherited.first_iff_leads_iff

/-- No class declares two instance members under one name that are both setters, or
both not. -/
def DistinctSlots (program : Program) : Prop :=
  ∀ cls members, program.declaredInstanceMembers cls = .ok members →
    (members.map Inherited.slot).Nodup

theorem visits_iff_mem {ids : List MemberId}
    (listed : (program.classMembers cls).map (List.map Inherited.member) =
      .ok ids) :
    program.Visits cls member ↔ member ∈ ids := by
  unfold Visits
  cases enumerated : program.classMembers cls with
  | error failure =>
      rw [enumerated] at listed
      cases listed
  | ok members =>
      rw [enumerated] at listed
      obtain rfl := Except.ok.inj listed
      simp

def crossedSteps : List Draft.Step := [
  .library "app", .cls ⟨0⟩ "Base" none, .cls ⟨0⟩ "Derived" (some ⟨0⟩),
  .classMember ⟨0⟩ "x" .setter, .classMember ⟨0⟩ "y" (.field true),
  .classMember ⟨1⟩ "x" (.field true), .classMember ⟨1⟩ "y" .getter]

/-- A setter that is overridden by a field, and a field that is overridden by a
getter. -/
def crossedProgram : Program where
  names := .ofTexts #["", "app", "Base", "Derived", "x", "y"]
  libraries := #[{ name := ⟨1⟩ }]
  classes := #[
    { name := ⟨2⟩, library := ⟨0⟩, superclass := none, members := [⟨0⟩, ⟨1⟩] },
    { name := ⟨3⟩, library := ⟨0⟩, superclass := some ⟨0⟩
      members := [⟨2⟩, ⟨3⟩] }]
  members := #[
    { name := ⟨4⟩, library := ⟨0⟩, owner := some ⟨0⟩, kind := .setter
      parameters := { required := 1 } },
    { name := ⟨5⟩, library := ⟨0⟩, owner := some ⟨0⟩, kind := .field true },
    { name := ⟨4⟩, library := ⟨0⟩, owner := some ⟨1⟩, kind := .field true },
    { name := ⟨5⟩, library := ⟨0⟩, owner := some ⟨1⟩, kind := .getter }]
  typedefs := #[]
  supertypeTable := #[[], [⟨0⟩]]
  subclassTable := #[[⟨0⟩, ⟨1⟩], [⟨1⟩]]

theorem crossedProgram_drafted : crossedProgram.Drafted :=
  ⟨crossedSteps, _, rfl, rfl⟩

theorem crossedProgram_distinctSlots : crossedProgram.DistinctSlots := by
  rintro ⟨index⟩ members declares
  match index with
  | 0 =>
      obtain rfl := Except.ok.inj declares
      decide
  | 1 =>
      obtain rfl := Except.ok.inj declares
      decide
  | index + 2 => cases declares

theorem crossedProgram_visits_iff (member : MemberId) :
    crossedProgram.Visits ⟨1⟩ member ↔
      member ∈ ([⟨2⟩, ⟨3⟩, ⟨0⟩] : List MemberId) :=
  visits_iff_mem rfl

theorem crossedProgram_hasMember (index : Fin 4) : ∃ decl,
    crossedProgram.HasMember ⟨1⟩ ⟨index⟩ decl := by
  match index with
  | 0 | 1 =>
      exact ⟨_, rfl, rfl, ⟨0⟩, rfl, _, rfl,
        List.mem_cons_of_mem _ List.mem_cons_self⟩
  | 2 | 3 => exact ⟨_, rfl, rfl, ⟨1⟩, rfl, _, rfl, List.mem_cons_self⟩

/-- The field of the subclass is visited, and its name leads to it.  The name of the
field of the superclass leads to it for writing only, and so the slot of that field
and its writes go different ways. -/
theorem visits_iff_answers_of_crossed_fields :
    ¬ crossedProgram.Torn ⟨1⟩ ⟨2⟩ ∧ crossedProgram.Torn ⟨1⟩ ⟨1⟩ := by
  obtain ⟨lower, hasLower⟩ := crossedProgram_hasMember 2
  obtain ⟨upper, hasUpper⟩ := crossedProgram_hasMember 1
  constructor
  · refine (visits_iff_answers_iff crossedProgram_drafted hasLower rfl).1 ?_
    exact iff_of_true ((crossedProgram_visits_iff _).2 (by decide)) (.inl rfl)
  · by_contra whole
    have agree :=
      (visits_iff_answers_iff crossedProgram_drafted hasUpper rfl).2 whole
    exact absurd ((crossedProgram_visits_iff _).1 (agree.2 (.inr rfl)))
      (by decide)

/-- The overridden setter is visited although both reads and writes lead to the
field.  The overridden field is passed over although writes lead to it. -/
theorem crossed_members_visited_and_passed_over :
    crossedProgram.Drafted ∧ crossedProgram.DistinctSlots ∧
      ((∃ decl, crossedProgram.HasMember ⟨1⟩ ⟨0⟩ decl) ∧
        crossedProgram.Visits ⟨1⟩ ⟨0⟩ ∧
        crossedProgram.memberName ⟨0⟩ = .ok ⟨⟨4⟩, none⟩ ∧
        crossedProgram.lookupMember ⟨1⟩ ⟨⟨4⟩, none⟩ false = .ok (some ⟨2⟩) ∧
        crossedProgram.lookupMember ⟨1⟩ ⟨⟨4⟩, none⟩ true = .ok (some ⟨2⟩)) ∧
      (∃ decl, crossedProgram.HasMember ⟨1⟩ ⟨1⟩ decl) ∧
        ¬ crossedProgram.Visits ⟨1⟩ ⟨1⟩ ∧
        crossedProgram.memberName ⟨1⟩ = .ok ⟨⟨5⟩, none⟩ ∧
        crossedProgram.lookupMember ⟨1⟩ ⟨⟨5⟩, none⟩ true = .ok (some ⟨1⟩) := by
  refine ⟨crossedProgram_drafted, crossedProgram_distinctSlots,
    ⟨crossedProgram_hasMember 0, (crossedProgram_visits_iff _).2 (by decide), rfl,
      rfl, rfl⟩, crossedProgram_hasMember 1, fun visited => ?_, rfl, rfl⟩
  exact absurd ((crossedProgram_visits_iff _).1 visited) (by decide)

end Program

end TreeShaking
