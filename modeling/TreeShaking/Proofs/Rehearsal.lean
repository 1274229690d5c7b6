import TreeShaking.Proofs.Findings
import TreeShaking.Proofs.Growth
import TreeShaking.Proofs.Slots

/-!
# Rehearsing the entry into a class

Entering a class makes accesses to its members one after the other, and stores
what becomes of each before it turns to the next.  A rehearsal looks at the same
members and stores nothing.  Yet it gives the same reports (`visitAll_reports`):
no member is met twice, and what is stored about one member does not matter to
another.

An access that was made once has nothing left to consume (`access_of_made`), so a
member that was met before has nothing to report (`encounter_again`).
-/

namespace TreeShaking

open Outcome

/-! ### Accesses that are repeated -/

namespace MemberUsage

/-- The usage has all the marks that an access leaves. -/
def Made (usage : MemberUsage) (access : Access) : Prop :=
  ∀ mark, usage.shape.marks access mark = true → usage.mark mark = true

/-- An access that was made stays so, whatever else happens. -/
theorem Made.mono {usage later : MemberUsage} {access : Access}
    (isMade : usage.Made access) (within : usage.Within later) :
    later.Made access := by
  intro mark leaves
  rw [within.shape] at leaves
  exact within.marks mark (isMade mark leaves)

theorem made_access (usage : MemberUsage) {access : Access}
    (isOfUse : access.isOfUse = true) : (usage.access access).2.Made access := by
  intro mark leaves
  rw [(usage.within_access access).shape] at leaves
  rw [usage.mark_access isOfUse, leaves, Bool.or_true]

/-- An access that was made consumes nothing. -/
theorem access_of_made {usage : MemberUsage} {access : Access}
    (isOfUse : access.isOfUse = true) (isMade : usage.Made access) :
    usage.access access = usage.unchanged := by
  cases access with
  | init | full => cases isOfUse
  | read =>
      unfold MemberUsage.access MemberUsage.read
      cases shape : usage.shape with
      | field | finalField | getter =>
          exact if_pos (isMade .read (by rw [shape]; rfl))
      | instanceFunction | staticFunction =>
          have isRead : usage.hasRead = true := isMade .read (by rw [shape]; rfl)
          have isInvoked : usage.hasInvoke = true :=
            isMade .invoke (by rw [shape]; rfl)
          simp only [useFunction, isRead, isInvoked]
      | setter | constructor => rfl
  | write =>
      unfold MemberUsage.access MemberUsage.write
      cases shape : usage.shape with
      | field | setter => exact if_pos (isMade .write (by rw [shape]; rfl))
      | finalField | getter | instanceFunction | staticFunction
      | constructor => rfl
  | invoke =>
      unfold MemberUsage.access MemberUsage.invoke
      cases shape : usage.shape with
      | field | finalField | getter =>
          exact if_pos (isMade .read (by rw [shape]; rfl))
      | instanceFunction | staticFunction | constructor =>
          exact if_pos (isMade .invoke (by rw [shape]; rfl))
      | setter => rfl

end MemberUsage

/-! ### Computations of one kind -/

namespace Outcome

variable {ε α β γ : Type}

theorem mapM_congr {first second : α → Except ε β} {list : List α}
    (same : ∀ element ∈ list, first element = second element) :
    list.mapM first = list.mapM second := by
  induction list with
  | nil => rfl
  | cons head tail ih =>
      rw [List.mapM_cons, List.mapM_cons, same head List.mem_cons_self,
        ih fun element inTail => same element (List.mem_cons_of_mem _ inTail)]

/-- Results may be changed one by one or all together. -/
theorem mapM_map_result (compute : α → Except ε β) (change : β → γ)
    (list : List α) :
    (list.mapM fun element => (compute element).map change) =
      (list.mapM compute).map (List.map change) := by
  induction list with
  | nil => rfl
  | cons head tail ih =>
      rw [List.mapM_cons, List.mapM_cons, ih]
      cases compute head with
      | error failure => rfl
      | ok result => cases tail.mapM compute <;> rfl

end Outcome

/-! ### Members are met once -/

theorem Inherited.nodup_firstOfSlots (seen : List (MemberName × Bool))
    (list : List Inherited) :
    ((firstOfSlots seen list).map Inherited.slot).Nodup ∧
      ∀ inherited ∈ firstOfSlots seen list, inherited.slot ∉ seen := by
  induction list generalizing seen with
  | nil => simp [firstOfSlots]
  | cons head tail ih =>
      unfold firstOfSlots
      split
      · exact ih seen
      · rename_i isNew
        obtain ⟨nodup, fresh⟩ := ih (head.slot :: seen)
        rw [List.map_cons, List.nodup_cons, List.forall_mem_cons]
        refine ⟨⟨?_, nodup⟩, isNew, ?_⟩
        · intro repeated
          obtain ⟨inherited, listed, same⟩ := List.mem_map.1 repeated
          exact fresh inherited listed (same ▸ List.mem_cons_self)
        · intro inherited listed old
          exact fresh inherited listed (List.mem_cons_of_mem _ old)

namespace Program

variable {program : Program} {cls other : ClassId} {members : List Inherited}

theorem declared_of_concreteMembers
    (listed : World.concreteMembers program cls = .ok members)
    {inherited : Inherited} (present : inherited ∈ members) :
    program.member inherited.member = .ok inherited.decl :=
  ((provides_iff_of_concreteMembers listed).2
    ⟨inherited, present, rfl, rfl⟩).declared

/-- No member of a class is met twice, since it would fill one slot twice. -/
theorem distinct_concreteMembers
    (listed : World.concreteMembers program cls = .ok members) :
    Inherited.Distinct members := by
  simp only [World.concreteMembers, bind_eq_ok_iff, pure_eq_ok_iff] at listed
  obtain ⟨all, isAll, rfl⟩ := listed
  have origins : ∀ inherited ∈ all, ∃ declarer,
      program.DeclaredIn inherited declarer := by
    intro inherited present
    obtain ⟨whole, inherits, inWhole⟩ :=
      mem_inheritedMembers_of_mem_classMembers isAll present
    obtain ⟨chain, -, declarer, -, origin⟩ :=
      declaredIn_of_mem_inheritedMembers inherits inWhole
    exact ⟨declarer, origin⟩
  simp only [classMembers, bind_eq_ok_iff, pure_eq_ok_iff] at isAll
  obtain ⟨whole, -, rfl⟩ := isAll
  have slots := (Inherited.nodup_firstOfSlots [] whole).1
  have apart : Inherited.Distinct (Inherited.firstOfSlots [] whole) := by
    rw [List.Nodup, List.pairwise_map] at slots
    rw [Inherited.Distinct, List.Nodup, List.pairwise_map]
    refine slots.imp_of_mem fun {first second} isFirst isSecond differ same => ?_
    obtain ⟨_, origin⟩ := origins first isFirst
    obtain ⟨_, otherOrigin⟩ := origins second isSecond
    have sameDecl : first.decl = second.decl := by
      have declared := origin.declared
      rw [same, otherOrigin.declared] at declared
      exact (Except.ok.inj declared).symm
    apply differ
    rw [Inherited.slot, Inherited.slot, origin.named, otherOrigin.named, sameDecl]
  exact apart.sublist (List.filter_sublist.map _)

end Program

namespace World

variable {program : Program} {live : LiveClasses} {world final : World}
  {members : List Inherited} {cls : ClassId} {reports : List MemberReport}

/-! ### What an encounter depends on -/

/-- What is stored about other members does not matter to a member. -/
theorem encounter_congr (selectors : final.selectors = world.selectors)
    {member : MemberId} {decl : MemberDecl}
    (usage : final.usageOf member decl = world.usageOf member decl) :
    final.encounter program live member decl =
      world.encounter program live member decl := by
  unfold encounter
  rw [usage]
  unfold seek isSought
  rw [selectors]

/-- The access of a selector kind is made if a selector of that kind reaches the
member. -/
theorem made_of_seek {decl : MemberDecl} {kind : SelectorKind}
    {usage after : MemberUsage} {uses : MemberUses}
    (sought : world.seek program live decl kind usage = .ok (uses, after)) :
    ∃ isSought, world.isSought program live kind decl = .ok isSought ∧
      (isSought = true → after.Made kind.access) := by
  simp only [seek, bind_eq_ok_iff] at sought
  obtain ⟨isSought, asked, accessed⟩ := sought
  refine ⟨isSought, asked, ?_⟩
  rintro rfl
  have isAfter : usage.access kind.access = (uses, after) :=
    pure_eq_ok_iff.1 accessed
  have isMade := usage.made_access kind.isOfUse_access
  rwa [isAfter] at isMade

/-- Seeking consumes nothing if the access was made wherever it is sought. -/
theorem seek_of_made (selectors : final.selectors = world.selectors)
    {decl : MemberDecl} {kind : SelectorKind} {usage : MemberUsage}
    {isSought : Bool}
    (asked : world.isSought program live kind decl = .ok isSought)
    (isMade : isSought = true → usage.Made kind.access) :
    final.seek program live decl kind usage = .ok usage.unchanged := by
  have askedAgain : final.isSought program live kind decl = .ok isSought := by
    unfold World.isSought at asked ⊢
    rw [selectors]
    exact asked
  unfold seek
  rw [askedAgain]
  cases isSought with
  | false => rfl
  | true =>
      rw [← MemberUsage.access_of_made kind.isOfUse_access (isMade rfl)]
      rfl

/-- A member that was encountered has nothing to report the next time. -/
theorem encounter_again (selectors : final.selectors = world.selectors)
    {member : MemberId} {decl : MemberDecl} {uses : MemberUses}
    {usage : MemberUsage}
    (met : world.encounter program live member decl = .ok (uses, usage))
    (stored : final.usageOf member decl = usage) :
    final.encounter program live member decl = .ok usage.unchanged := by
  simp only [encounter] at met ⊢
  rw [stored]
  split
  · rfl
  · rename_i unfinished
    split at met
    · rename_i finished
      obtain ⟨-, rfl⟩ := Prod.mk.inj (pure_eq_ok_iff.1 met)
      exact absurd finished unfinished
    · simp only [bind_eq_ok_iff, pure_eq_ok_iff, Prod.exists,
        Prod.mk.injEq] at met
      obtain ⟨read, afterRead, isRead, invoked, afterInvoke, isInvoked, written,
        last, isWritten, -, same⟩ := met
      subst same
      -- An access that was made stays so through the accesses after it.
      obtain ⟨soughtRead, askedRead, madeRead⟩ := made_of_seek isRead
      obtain ⟨soughtCall, askedCall, madeCall⟩ := made_of_seek isInvoked
      obtain ⟨soughtWrite, askedWrite, madeWrite⟩ := made_of_seek isWritten
      have afterCall := within_seek isInvoked
      have afterWrite := within_seek isWritten
      rw [seek_of_made selectors askedRead fun sought =>
        ((madeRead sought).mono afterCall).mono afterWrite]
      change (final.seek program live decl .call last >>= _) = _
      rw [seek_of_made selectors askedCall fun sought =>
        (madeCall sought).mono afterWrite]
      change (final.seek program live decl .setter last >>= _) = _
      rw [seek_of_made selectors askedWrite madeWrite]
      rfl

/-- What one encounter stores does not matter to the other members. -/
theorem encounter_of_stored (world : World) (program : Program)
    (live : LiveClasses) (usage : MemberUsage) {inherited next : Inherited}
    (different : next.member ≠ inherited.member) :
    ((world.file inherited.member inherited.decl.name usage.pending).setUsage
        inherited.member usage).encounter program live next.member next.decl =
      world.encounter program live next.member next.decl := by
  have sameUsage : ((world.file inherited.member inherited.decl.name
      usage.pending).setUsage inherited.member usage).usageOf next.member
        next.decl = world.usageOf next.member next.decl := by
    simp [usageOf, setUsage, file, Table.getD, different]
  have sameSelectors : ((world.file inherited.member inherited.decl.name
      usage.pending).setUsage inherited.member usage).selectors =
        world.selectors := rfl
  exact encounter_congr sameSelectors sameUsage

/-- The reports are those that the members would give at the outset, be it in
earnest or as a rehearsal. -/
theorem visitAll_reports (world : World) (program : Program)
    (live : LiveClasses) (rehearsal : Bool)
    (distinct : Inherited.Distinct members) :
    (world.visitAll program live rehearsal members).map Prod.snd =
      members.mapM (world.foretell program live) := by
  induction members generalizing world with
  | nil => rfl
  | cons inherited rest ih =>
      obtain ⟨notInRest, restDistinct⟩ := List.nodup_cons.1 distinct
      have different : ∀ next ∈ rest, next.member ≠ inherited.member :=
        fun next inRest same => notInRest (List.mem_map.2 ⟨next, inRest, same⟩)
      rw [visitAll, List.mapM_cons, foretell]
      cases world.encounter program live inherited.member inherited.decl with
      | error failure => rfl
      | ok outcome =>
          obtain ⟨uses, usage⟩ := outcome
          generalize isNext : (if rehearsal = true then world else
            (world.file inherited.member inherited.decl.name
              usage.pending).setUsage inherited.member usage) = next
          have unaffected : rest.mapM (next.foretell program live) =
              rest.mapM (world.foretell program live) := by
            refine mapM_congr fun other inRest => ?_
            rw [← isNext]
            split
            · rfl
            · unfold foretell
              rw [encounter_of_stored _ _ _ _ (different other inRest)]
          have further := ih next restDistinct
          rw [unaffected] at further
          change ((if rehearsal = true then world else _ : World).visitAll
            program live rehearsal rest >>= _).map Prod.snd =
              rest.mapM (world.foretell program live) >>= _
          rw [isNext, ← further]
          cases next.visitAll program live rehearsal rest <;> rfl

theorem visitClass_reports (world : World) (program : Program)
    (live : LiveClasses) (rehearsal : Bool) (cls : ClassId) :
    (world.visitClass program live rehearsal cls).map Prod.snd =
      world.previewClass program live cls := by
  unfold visitClass previewClass
  cases listed : concreteMembers program cls with
  | error failure => rfl
  | ok members =>
      exact visitAll_reports world program live rehearsal
        (Program.distinct_concreteMembers listed)

/-! ### Looking again -/

/-- What becomes of the members that are encountered. -/
structure Visited (program : Program) (live : LiveClasses) (world final : World)
    (members : List Inherited) (reports : List MemberReport) : Prop where
  selectors : final.selectors = world.selectors
  listed : reports.map Prod.fst = members.map Inherited.member
  met : ∀ inherited ∈ members, ∃ uses usage,
    world.encounter program live inherited.member inherited.decl =
        .ok (uses, usage) ∧
      final.memberUsage.get? inherited.member = some usage
  others : ∀ member, member ∉ members.map Inherited.member →
    final.memberUsage.get? member = world.memberUsage.get? member

theorem visited_of_visitAll (distinct : Inherited.Distinct members)
    (met : world.visitAll program live false members = .ok (final, reports)) :
    Visited program live world final members reports := by
  induction members generalizing world reports with
  | nil =>
      obtain ⟨rfl, rfl⟩ := Prod.mk.inj (Except.ok.inj met)
      exact ⟨rfl, rfl, by simp, fun _ _ => rfl⟩
  | cons inherited rest ih =>
      obtain ⟨notInRest, restDistinct⟩ := List.nodup_cons.1 distinct
      simp only [visitAll, Bool.false_eq_true, if_false, bind_eq_ok_iff,
        pure_eq_ok_iff, Prod.exists, Prod.mk.injEq] at met
      obtain ⟨uses, usage, isMet, _, further, met, rfl, rfl⟩ := met
      have visited := ih restDistinct met
      refine ⟨visited.selectors, ?_, ?_, ?_⟩
      · rw [List.map_cons, List.map_cons, visited.listed]
      · refine List.forall_mem_cons.2 ⟨⟨uses, usage, isMet, ?_⟩, ?_⟩
        · rw [visited.others inherited.member notInRest]
          simp [setUsage]
        · intro next inRest
          obtain ⟨nextUses, nextUsage, isMetLater, stored⟩ :=
            visited.met next inRest
          have different : next.member ≠ inherited.member := fun same =>
            notInRest (List.mem_map.2 ⟨next, inRest, same⟩)
          refine ⟨nextUses, nextUsage, ?_, stored⟩
          rw [← isMetLater, encounter_of_stored _ _ _ _ different]
      · intro member notListed
        rw [List.map_cons, List.mem_cons, not_or] at notListed
        rw [visited.others member notListed.2]
        simp [setUsage, file, notListed.1]

/-- A report without what certain members have to say. -/
def silenced (members : List MemberId) (report : MemberReport) : MemberReport :=
  if report.1 ∈ members then (report.1, {}) else report

/-- After a class has been entered, the members that were met have nothing to
report, and the others the same as before. -/
theorem Visited.foretell {members : List Inherited}
    (visited : Visited program live world final members reports)
    (declared : ∀ known ∈ members, program.member known.member = .ok known.decl)
    {inherited : Inherited}
    (isDeclared : program.member inherited.member = .ok inherited.decl) :
    final.foretell program live inherited =
      (world.foretell program live inherited).map
        (silenced (reports.map Prod.fst)) := by
  rw [visited.listed]
  unfold World.foretell silenced
  by_cases isVisited : inherited.member ∈ members.map Inherited.member
  · obtain ⟨known, isKnown, same⟩ := List.mem_map.1 isVisited
    have sameDecl : known.decl = inherited.decl := by
      have isKnownDecl := declared known isKnown
      rw [same, isDeclared] at isKnownDecl
      exact (Except.ok.inj isKnownDecl).symm
    obtain ⟨uses, usage, met, stored⟩ := visited.met known isKnown
    rw [same] at stored
    rw [same, sameDecl] at met
    have isUsage : final.usageOf inherited.member inherited.decl = usage := by
      simp [usageOf, Table.getD, stored]
    rw [encounter_again visited.selectors met isUsage, met]
    change Except.ok _ = Except.ok (if _ then _ else _)
    rw [if_pos isVisited]
  · have isUsage : final.usageOf inherited.member inherited.decl =
        world.usageOf inherited.member inherited.decl := by
      simp [usageOf, Table.getD, visited.others _ isVisited]
    rw [encounter_congr visited.selectors isUsage]
    cases world.encounter program live inherited.member inherited.decl with
    | error failure => rfl
    | ok outcome =>
        change Except.ok _ = Except.ok (if _ then _ else _)
        rw [if_neg isVisited]

theorem previewClass_of_entered
    (entered : world.enterClass program live cls = .ok (final, reports))
    (other : ClassId) :
    final.previewClass program live other =
      (world.previewClass program live other).map
        (List.map (silenced (reports.map Prod.fst))) := by
  simp only [enterClass, visitClass, bind_eq_ok_iff] at entered
  obtain ⟨members, listed, met⟩ := entered
  have visited :=
    visited_of_visitAll (Program.distinct_concreteMembers listed) met
  unfold previewClass
  cases isListed : concreteMembers program other with
  | error failure => rfl
  | ok others =>
      change others.mapM (final.foretell program live) =
        (others.mapM (world.foretell program live)).map _
      rw [← mapM_map_result]
      refine mapM_congr fun inherited present => ?_
      exact visited.foretell
        (fun known => Program.declared_of_concreteMembers listed)
        (Program.declared_of_concreteMembers isListed present)

/-- A rehearsal leaves the world as it is and gives the reports that entering the
class in earnest gives, and it fails if that does.

Once a class has been entered, looking at its members again, in earnest or not,
finds nothing.  Looking at any other class gives the reports that it would have
given before, without what the members have to say that were met. -/
theorem rehearsal_foretells_entry (world : World) (program : Program)
    (live : LiveClasses) (cls : ClassId) :
    world.visitClass program live true cls =
      (world.enterClass program live cls).map
        (fun outcome => (world, outcome.2)) ∧
    world.previewClass program live cls =
      (world.enterClass program live cls).map Prod.snd ∧
    ∀ final reports,
      world.enterClass program live cls = .ok (final, reports) →
        ∀ rehearsal,
          (∃ later, final.visitClass program live rehearsal cls =
            .ok (later, reports.map fun report => (report.1, {}))) ∧
          ∀ other,
            (final.visitClass program live rehearsal other).map Prod.snd =
              (world.previewClass program live other).map
                (List.map (silenced (reports.map Prod.fst))) := by
  have foretold : world.previewClass program live cls =
      (world.enterClass program live cls).map Prod.snd := by
    rw [enterClass, visitClass_reports]
  refine ⟨?_, foretold, ?_⟩
  · rw [visitClass_as_rehearsal, foretold]
    cases world.enterClass program live cls <;> rfl
  · intro final reports entered rehearsal
    have again : ∀ other,
        (final.visitClass program live rehearsal other).map Prod.snd =
          (world.previewClass program live other).map
            (List.map (silenced (reports.map Prod.fst))) := by
      intro other
      rw [visitClass_reports, previewClass_of_entered entered]
    refine ⟨?_, again⟩
    have onceMore := again cls
    rw [foretold, entered] at onceMore
    have silent : reports.map (silenced (reports.map Prod.fst)) =
        reports.map fun report => (report.1, {}) := by
      refine List.map_congr_left fun report listed => ?_
      exact if_pos (List.mem_map_of_mem listed)
    cases visited : final.visitClass program live rehearsal cls with
    | error failure =>
        rw [visited] at onceMore
        cases onceMore
    | ok outcome =>
        rw [visited] at onceMore
        obtain ⟨later, found⟩ := outcome
        have isFound := Except.ok.inj onceMore
        exact ⟨later, congrArg (fun reports => Except.ok (later, reports))
          (isFound.trans silent)⟩

def crossedWrite : DynamicUse where
  selector := .setter ⟨⟨4⟩, none⟩
  constraint := .unconstrained

def crossedRead : DynamicUse where
  selector := .getter ⟨⟨5⟩, none⟩
  constraint := .unconstrained

/-- The world in which one name is written and another one is read. -/
def crossedWorld : World where
  selectors := .ofList [(crossedWrite.selector, { isAll := true }),
    (crossedRead.selector, { isAll := true })]

/-- The derived class shares a setter with its base class.  When it has been
entered, the setter has nothing to report in the base class, but the field has
that is not shared. -/
theorem rehearsal_foretells_shared_setter :
    (∃ written,
      ({} : World).registerDynamic Program.crossedProgram none crossedWrite =
        .ok (written, []) ∧
      written.registerDynamic Program.crossedProgram none crossedRead =
        .ok (crossedWorld, [])) ∧
    ∃ final,
      crossedWorld.enterClass Program.crossedProgram none ⟨1⟩ =
        .ok (final, [(⟨2⟩, { normal := true }), (⟨3⟩, { normal := true }),
          (⟨0⟩, { normal := true })]) ∧
      crossedWorld.visitClass Program.crossedProgram none true ⟨1⟩ =
        .ok (crossedWorld, [(⟨2⟩, { normal := true }),
          (⟨3⟩, { normal := true }), (⟨0⟩, { normal := true })]) ∧
      (∃ later, final.visitClass Program.crossedProgram none false ⟨1⟩ =
        .ok (later, [(⟨2⟩, {}), (⟨3⟩, {}), (⟨0⟩, {})])) ∧
      (final.visitClass Program.crossedProgram none false ⟨0⟩).map Prod.snd =
        .ok [(⟨0⟩, {}), (⟨1⟩, { normal := true })] := by
  obtain ⟨final, entered⟩ :
      ∃ final, crossedWorld.enterClass Program.crossedProgram none ⟨1⟩ =
        .ok (final, [(⟨2⟩, { normal := true }), (⟨3⟩, { normal := true }),
          (⟨0⟩, { normal := true })]) :=
    ⟨_, rfl⟩
  have before : crossedWorld.previewClass Program.crossedProgram none ⟨0⟩ =
      .ok [(⟨0⟩, { normal := true }), (⟨1⟩, { normal := true })] := rfl
  obtain ⟨rehearsed, -, again⟩ :=
    rehearsal_foretells_entry crossedWorld Program.crossedProgram none ⟨1⟩
  obtain ⟨nothing, elsewhere⟩ := again final _ entered false
  rw [entered] at rehearsed
  refine ⟨⟨_, rfl, rfl⟩, final, entered, rehearsed, nothing, ?_⟩
  rw [elsewhere, before]
  rfl

end World

end TreeShaking
