import TreeShaking.Proofs.Hierarchy
import TreeShaking.World.Instantiation

/-!
# What an instantiation does

Both walks of an instantiation stop early: the one along the superclasses at the
first class that has instances, the other before it begins if the class is
implemented.  Nothing is missed by this as long as the classes with instances
are closed under superclasses, and the implemented ones under supertypes.  This
is the invariant `ClassesClosed`, and under it `Instantiates` describes an
instantiation without any regard to what was known before.
-/

namespace TreeShaking

open Outcome

/-- An instantiation with the given flags creates instances of a class. -/
def Program.Creates (program : Program) (cls : ClassId)
    (flags : InstantiationFlags) : Prop :=
  ∃ decl, program.cls cls = .ok decl ∧ decl.createsInstances flags = true

namespace World

variable {program : Program} {world final : World}

/-- How often a list of reports tells that a class has instances. -/
def instanceTellings (reports : List ClassReport) (cls : ClassId) : Nat :=
  reports.countP fun report => report.1 = cls && report.2.instantiated

@[simp]
theorem instanceTellings_nil (cls : ClassId) : instanceTellings [] cls = 0 :=
  rfl

theorem instanceTellings_cons (report : ClassReport)
    (reports : List ClassReport) (cls : ClassId) :
    instanceTellings (report :: reports) cls =
      (decide (report.1 = cls) && report.2.instantiated).toNat +
        instanceTellings reports cls := by
  unfold instanceTellings
  rw [List.countP_cons]
  cases decide (report.1 = cls) && report.2.instantiated <;> simp
  omega

@[simp]
theorem instanceTellings_append (first second : List ClassReport)
    (cls : ClassId) :
    instanceTellings (first ++ second) cls =
      instanceTellings first cls + instanceTellings second cls :=
  List.countP_append

/-- The world with what another knows about classes. -/
def withClassesOf (world other : World) : World :=
  { world with
    classUsage := other.classUsage
    instantiations := other.instantiations
    direct := other.direct
    implemented := other.implemented
    instantiatedTypes := other.instantiatedTypes }

/-- The closures under which both walks may stop early. -/
structure ClassesClosed (world : World) (program : Program) : Prop where
  chains : ∀ cls, world.isInstantiated cls = true →
    ∃ chain, program.superclassChain cls = .ok chain ∧
      ∀ above ∈ chain, world.isInstantiated above = true
  supertypes : ∀ cls ∈ world.implemented,
    ∃ found, program.supertypes cls = .ok found ∧
      ∀ above ∈ found, above ∈ world.implemented
  direct : ∀ cls ∈ world.direct, world.isInstantiated cls = true

theorem isInstantiated_getD (world : World) (cls : ClassId) :
    (world.classUsage.getD cls {}).isInstantiated =
      world.isInstantiated cls := by
  unfold isInstantiated Table.getD
  cases world.classUsage.get? cls <;> rfl

/-! ### The walk along the superclasses -/

/-- Note one class as instantiated. -/
def markInstantiated (world : World) (cls : ClassId) : World :=
  { world with
    classUsage := world.classUsage.insert cls
      (world.classUsage.getD cls {}).instantiate.2 }

@[simp]
theorem isInstantiated_markInstantiated (world : World) (cls other : ClassId) :
    (world.markInstantiated cls).isInstantiated other =
      (decide (other = cls) || world.isInstantiated other) := by
  unfold isInstantiated markInstantiated
  by_cases same : other = cls
  · simp [same, ClassUsage.instantiate, ClassUsage.isInstantiated]
  · simp [same]

/-- One class of the walk: it is reported if it had no instances. -/
theorem noteInstantiated_cons (world : World) (cls : ClassId)
    (rest : List ClassId) :
    world.noteInstantiated (cls :: rest) =
      if world.isInstantiated cls then
        (world.markInstantiated cls, [])
      else
        (((world.markInstantiated cls).noteInstantiated rest).1,
          (cls, { instantiated := true }) ::
            ((world.markInstantiated cls).noteInstantiated rest).2) := by
  have news : (world.classUsage.getD cls {}).instantiate.1 =
      { instantiated := !world.isInstantiated cls } := by
    rw [← isInstantiated_getD]
    simp [ClassUsage.instantiate, ClassUsage.isInstantiated]
  change (if (world.classUsage.getD cls {}).instantiate.1.isEmpty then
      (world.markInstantiated cls, [])
    else
      (((world.markInstantiated cls).noteInstantiated rest).1,
        (cls, (world.classUsage.getD cls {}).instantiate.1) ::
          ((world.markInstantiated cls).noteInstantiated rest).2)) = _
  rw [news]
  cases world.isInstantiated cls <;> rfl

theorem noteInstantiated_frame (world : World) (chain : List ClassId) :
    (world.noteInstantiated chain).1 =
      { world with
        classUsage := (world.noteInstantiated chain).1.classUsage } := by
  induction chain generalizing world with
  | nil => rfl
  | cons cls rest ih =>
      rw [noteInstantiated_cons]
      split
      · rfl
      · exact ih (world.markInstantiated cls)

/-- The reports of the walk tell each class that newly has instances once. -/
theorem noteInstantiated_tellings (world : World) (chain : List ClassId)
    (cls : ClassId) :
    instanceTellings (world.noteInstantiated chain).2 cls +
        (world.isInstantiated cls).toNat =
      ((world.noteInstantiated chain).1.isInstantiated cls).toNat := by
  induction chain generalizing world with
  | nil => simp [noteInstantiated]
  | cons next rest ih =>
      rw [noteInstantiated_cons]
      by_cases same : cls = next
      · subst same
        have further := ih (world.markInstantiated cls)
        split
        · rename_i isOld
          simp [isOld]
        · rename_i isNew
          rw [← further]
          simp only [instanceTellings_cons, isNew,
            isInstantiated_markInstantiated, decide_true, Bool.true_or,
            Bool.and_self, Bool.toNat_true, Bool.toNat_false]
          omega
      · have further := ih (world.markInstantiated next)
        split
        · simp [same]
        · rw [← further]
          simp [instanceTellings_cons, same, Ne.symm same]

theorem noteInstantiated_silent {chain : List ClassId} {report : ClassReport}
    (listed : report ∈ (world.noteInstantiated chain).2) :
    report.2.implemented = false := by
  induction chain generalizing world with
  | nil => cases listed
  | cons next rest ih =>
      rw [noteInstantiated_cons] at listed
      split at listed
      · cases listed
      · rcases List.mem_cons.1 listed with rfl | later
        · rfl
        · exact ih later

theorem isInstantiated_of_noteInstantiated {chain : List ClassId}
    {cls : ClassId}
    (now : (world.noteInstantiated chain).1.isInstantiated cls = true) :
    world.isInstantiated cls = true ∨ cls ∈ chain := by
  induction chain generalizing world with
  | nil => exact .inl now
  | cons next rest ih =>
      have marked : (world.markInstantiated next).isInstantiated cls = true ∨
          cls ∈ rest := by
        rw [noteInstantiated_cons] at now
        split at now
        · exact .inl now
        · exact ih now
      rw [isInstantiated_markInstantiated, Bool.or_eq_true,
        decide_eq_true_eq] at marked
      rw [List.mem_cons]
      tauto

theorem isInstantiated_noteInstantiated (chain : List ClassId) {cls : ClassId}
    (before : world.isInstantiated cls = true) :
    (world.noteInstantiated chain).1.isInstantiated cls = true := by
  have told := noteInstantiated_tellings world chain cls
  rw [before] at told
  cases now : (world.noteInstantiated chain).1.isInstantiated cls with
  | true => rfl
  | false => simp [now] at told

/-- The walk reaches every class of the chain, for it stops only where those
further up have instances. -/
theorem noteInstantiated_reaches {chain : List ClassId}
    (distinct : chain.Nodup)
    (closed : ∀ front cls rest, chain = front ++ cls :: rest →
      world.isInstantiated cls = true →
        ∀ above ∈ rest, world.isInstantiated above = true) :
    ∀ cls ∈ chain,
      (world.noteInstantiated chain).1.isInstantiated cls = true := by
  induction chain generalizing world with
  | nil => simp
  | cons next rest ih =>
      intro cls listed
      obtain ⟨fresh, restDistinct⟩ := List.nodup_cons.1 distinct
      rw [noteInstantiated_cons]
      split
      · rename_i isOld
        rcases List.mem_cons.1 listed with rfl | inRest
        · simp
        · simp [closed [] next rest rfl isOld cls inRest]
      · rcases List.mem_cons.1 listed with rfl | inRest
        · exact isInstantiated_noteInstantiated rest (by simp)
        · refine ih restDistinct (fun front middle back isRest now => ?_) cls
            inRest
          have different : middle ≠ next := by
            rintro rfl
            exact fresh (by simp [isRest])
          intro above inBack
          have old : world.isInstantiated middle = true := by
            simpa [different] using now
          simp [closed (next :: front) middle back (by simp [isRest]) old above
            inBack]

/-! ### The supertypes -/

theorem noteImplemented_frame (world : World) (classes : List ClassId) :
    (world.noteImplemented classes).1 =
      { world with
        implemented := (world.noteImplemented classes).1.implemented
        classUsage := (world.noteImplemented classes).1.classUsage } := by
  induction classes generalizing world with
  | nil => rfl
  | cons cls rest ih =>
      rw [noteImplemented]
      split
      · exact ih world
      · dsimp only
        rw [ih]

theorem mem_implemented_noteImplemented (world : World)
    (classes : List ClassId) (cls : ClassId) :
    cls ∈ (world.noteImplemented classes).1.implemented ↔
      cls ∈ world.implemented ∨ cls ∈ classes := by
  induction classes generalizing world with
  | nil => simp [noteImplemented]
  | cons next rest ih =>
      rw [noteImplemented]
      split
      · rename_i isOld
        rw [ih, List.mem_cons]
        constructor
        · tauto
        · rintro (old | rfl | inRest)
          · exact .inl old
          · exact .inl isOld
          · exact .inr inRest
      · rw [ih]
        simp only [List.mem_insert_iff, List.mem_cons]
        tauto

theorem isInstantiated_noteImplemented (world : World)
    (classes : List ClassId) (cls : ClassId) :
    (world.noteImplemented classes).1.isInstantiated cls =
      world.isInstantiated cls := by
  induction classes generalizing world with
  | nil => rfl
  | cons next rest ih =>
      rw [noteImplemented]
      split
      · exact ih world
      · rw [ih]
        have known := isInstantiated_getD world next
        unfold isInstantiated at known ⊢
        by_cases same : cls = next
        · subst same
          simpa [ClassUsage.implement, ClassUsage.isInstantiated] using known
        · simp [same]

/-- A class is reported as implemented only if it was not. -/
theorem not_implemented_of_reported {classes : List ClassId}
    {report : ClassReport} (listed : report ∈ (world.noteImplemented classes).2) :
    report.1 ∉ world.implemented ∧ report.1 ∈ classes := by
  induction classes generalizing world with
  | nil => cases listed
  | cons next rest ih =>
      rw [noteImplemented] at listed
      split at listed
      · obtain ⟨isNew, inRest⟩ := ih listed
        exact ⟨isNew, List.mem_cons_of_mem _ inRest⟩
      · rename_i isNew
        dsimp only at listed
        have told : report.1 = next ∨
            report ∈ (World.noteImplemented { world with
              implemented := world.implemented.insert next
              classUsage := world.classUsage.insert next
                (world.classUsage.getD next {}).implement.2 } rest).2 := by
          split at listed
          · exact .inr listed
          · exact (List.mem_cons.1 listed).imp_left (congrArg Prod.fst)
        rcases told with rfl | later
        · exact ⟨isNew, List.mem_cons_self⟩
        · obtain ⟨stillNew, inRest⟩ := ih later
          exact ⟨fun old => stillNew (List.mem_insert_of_mem old),
            List.mem_cons_of_mem _ inRest⟩

theorem instanceTellings_noteImplemented (world : World)
    (classes : List ClassId) (cls : ClassId) :
    instanceTellings (world.noteImplemented classes).2 cls = 0 := by
  induction classes generalizing world with
  | nil => rfl
  | cons next rest ih =>
      rw [noteImplemented]
      split
      · exact ih world
      · dsimp only
        split
        · exact ih _
        · rw [instanceTellings_cons, ih]
          simp [ClassUsage.implement]

/-! ### Instantiations -/

/-- What an instantiation does to the classes of a world. -/
structure Instantiates (before after : World) (program : Program)
    (cls : ClassId) (flags : InstantiationFlags) (reports : List ClassReport) :
    Prop where
  direct : ∀ other, other ∈ after.direct ↔
    other ∈ before.direct ∨ (other = cls ∧ program.Creates cls flags)
  instantiated : ∀ other, after.isInstantiated other = true ↔
    before.isInstantiated other = true ∨
      (program.Creates cls flags ∧ program.HasSuperclass cls other)
  implemented : ∀ other, other ∈ after.implemented ↔
    other ∈ before.implemented ∨ program.HasSupertype cls other
  tellings : ∀ other, instanceTellings reports other +
    (before.isInstantiated other).toNat = (after.isInstantiated other).toNat
  /-- Only what was not implemented is reported as such. -/
  announced : ∀ report ∈ reports, report.2.implemented = true →
    report.1 ∉ before.implemented ∧ report.1 ∈ after.implemented
  closed : after.ClassesClosed program
  frame : after = before.withClassesOf after

/-- The first half of an instantiation: instances may be created, and no
supertype has been looked at. -/
structure Creates (before after : World) (program : Program) (cls : ClassId)
    (flags : InstantiationFlags) (reports : List ClassReport) : Prop where
  direct : ∀ other, other ∈ after.direct ↔
    other ∈ before.direct ∨ (other = cls ∧ program.Creates cls flags)
  instantiated : ∀ other, after.isInstantiated other = true ↔
    before.isInstantiated other = true ∨
      (program.Creates cls flags ∧ program.HasSuperclass cls other)
  tellings : ∀ other, instanceTellings reports other +
    (before.isInstantiated other).toNat = (after.isInstantiated other).toNat
  silent : ∀ report ∈ reports, report.2.implemented = false
  implemented : after.implemented = before.implemented
  frame : after = before.withClassesOf after

theorem creates_nothing {cls : ClassId} {flags : InstantiationFlags}
    {decl : ClassDecl} (fetched : program.cls cls = .ok decl)
    (creates : decl.createsInstances flags = false) :
    Creates world world program cls flags [] := by
  have never : ¬program.Creates cls flags := by
    rintro ⟨other, otherFetched, otherCreates⟩
    rw [fetched] at otherFetched
    cases otherFetched
    simp [creates] at otherCreates
  exact ⟨by simp [never], by simp [never], by simp, by simp, rfl, rfl⟩

theorem ClassesClosed.creates (closed : world.ClassesClosed program)
    {instantiation : Instantiation} {flags : InstantiationFlags}
    {chain : List ClassId} {created : World} {creation : List ClassReport}
    (creates : program.Creates instantiation.type.cls flags)
    (walked : program.superclassChain instantiation.type.cls = .ok chain)
    (noted : (world.record instantiation).noteInstantiated chain =
      (created, creation)) :
    Creates world created program instantiation.type.cls flags creation := by
  have isCreated := congrArg Prod.fst noted
  dsimp only at isCreated
  have frame := noteInstantiated_frame (world.record instantiation) chain
  rw [isCreated] at frame
  have onChain_iff : ∀ other,
      program.HasSuperclass instantiation.type.cls other ↔ other ∈ chain := by
    intro other
    refine ⟨?_, fun onChain => ⟨chain, walked, onChain⟩⟩
    rintro ⟨found, foundWalked, onChain⟩
    rw [walked] at foundWalked
    cases foundWalked
    exact onChain
  refine ⟨fun other => ?_, fun other => ?_, fun other => ?_,
    fun report listed => ?_, ?_, ?_⟩
  · rw [frame]
    simp [record, creates, or_comm]
  · rw [onChain_iff, ← isCreated]
    constructor
    · intro now
      rcases isInstantiated_of_noteInstantiated now with old | onChain
      · exact .inl old
      · exact .inr ⟨creates, onChain⟩
    · rintro (old | ⟨-, onChain⟩)
      · exact isInstantiated_noteInstantiated chain old
      · refine noteInstantiated_reaches (Hierarchy.chainWithin_nodup walked) ?_
          other onChain
        intro front middle back isChain isOld above inBack
        obtain ⟨found, foundWalked, allInstantiated⟩ :=
          closed.chains middle isOld
        subst isChain
        rw [Program.superclassChain, Hierarchy.chain,
          Hierarchy.chainWithin_split walked] at foundWalked
        cases foundWalked
        exact allInstantiated above (List.mem_cons_of_mem _ inBack)
  · have told :=
      noteInstantiated_tellings (world.record instantiation) chain other
    rw [noted] at told
    exact told
  · rw [← show ((world.record instantiation).noteInstantiated chain).2 =
      creation from congrArg Prod.snd noted] at listed
    exact noteInstantiated_silent listed
  · rw [frame]
    rfl
  · rw [frame]
    rfl

theorem registerInstantiation_cases {type : InterfaceType}
    {constructor : Option MemberId} {flags : InstantiationFlags}
    {reports : List ClassReport}
    (closed : world.ClassesClosed program)
    (registered : world.registerInstantiation program type constructor flags =
      .ok (final, reports)) :
    ∃ created creation,
      Creates world created program type.cls flags creation ∧
      ((type.cls ∈ created.implemented ∧ final = created ∧
          reports = creation) ∨
        ∃ above, program.supertypes type.cls = .ok above ∧
          final = (created.noteImplemented (type.cls :: above)).1 ∧
          reports = creation ++
            (created.noteImplemented (type.cls :: above)).2) := by
  have second : ∀ created creation,
      (if type.cls ∈ created.implemented then
        pure (created, creation)
      else do
        let above ← program.supertypes type.cls
        pure ((created.noteImplemented (type.cls :: above)).1,
          creation ++ (created.noteImplemented (type.cls :: above)).2) :
        Except Failure (World × List ClassReport)) = .ok (final, reports) →
      (type.cls ∈ created.implemented ∧ final = created ∧
          reports = creation) ∨
        ∃ above, program.supertypes type.cls = .ok above ∧
          final = (created.noteImplemented (type.cls :: above)).1 ∧
          reports = creation ++
            (created.noteImplemented (type.cls :: above)).2 := by
    intro created creation finished
    split at finished
    · rename_i isImplemented
      simp only [pure_eq_ok_iff, Prod.mk.injEq] at finished
      exact .inl ⟨isImplemented, finished.1.symm, finished.2.symm⟩
    · simp only [bind_eq_ok_iff, pure_eq_ok_iff, Prod.mk.injEq] at finished
      obtain ⟨above, stored, isFinal, isReports⟩ := finished
      exact .inr ⟨above, stored, isFinal.symm, isReports.symm⟩
  simp only [registerInstantiation, bind_eq_ok_iff] at registered
  obtain ⟨decl, fetched, registered⟩ := registered
  split at registered
  · rename_i creates
    rw [bind_eq_ok_iff] at registered
    obtain ⟨chain, walked, finished⟩ := registered
    exact ⟨_, _, closed.creates ⟨decl, fetched, creates⟩ walked rfl,
      second _ _ finished⟩
  · rename_i createsNot
    exact ⟨_, _, creates_nothing fetched (by simpa using createsNot),
      second _ _ registered⟩

/-- An instantiation concerns classes only. -/
theorem registerInstantiation_frame {type : InterfaceType}
    {constructor : Option MemberId} {flags : InstantiationFlags}
    {reports : List ClassReport}
    (registered : world.registerInstantiation program type constructor flags =
      .ok (final, reports)) :
    final = world.withClassesOf final := by
  have second : ∀ created creation, created = world.withClassesOf created →
      (if type.cls ∈ created.implemented then
        pure (created, creation)
      else do
        let above ← program.supertypes type.cls
        pure ((created.noteImplemented (type.cls :: above)).1,
          creation ++ (created.noteImplemented (type.cls :: above)).2) :
        Except Failure (World × List ClassReport)) = .ok (final, reports) →
      final = world.withClassesOf final := by
    intro created creation frame finished
    split at finished
    · obtain ⟨rfl, -⟩ := Prod.mk.inj (pure_eq_ok_iff.1 finished)
      exact frame
    · simp only [bind_eq_ok_iff, pure_eq_ok_iff, Prod.mk.injEq] at finished
      obtain ⟨above, -, rfl, -⟩ := finished
      rw [noteImplemented_frame, frame]
      rfl
  simp only [registerInstantiation, bind_eq_ok_iff] at registered
  obtain ⟨decl, -, registered⟩ := registered
  split at registered
  · rw [bind_eq_ok_iff] at registered
    obtain ⟨chain, -, finished⟩ := registered
    refine second _ _ ?_ finished
    rw [noteInstantiated_frame]
    rfl
  · exact second _ _ rfl registered

theorem Creates.chains {cls : ClassId} {flags : InstantiationFlags}
    {reports : List ClassReport} (closed : world.ClassesClosed program)
    (creates : Creates world final program cls flags reports) {lower : ClassId}
    (now : final.isInstantiated lower = true) :
    ∃ chain, program.superclassChain lower = .ok chain ∧
      ∀ above ∈ chain, final.isInstantiated above = true := by
  rcases (creates.instantiated lower).1 now with old | ⟨isCreated, inherits⟩
  · obtain ⟨chain, walked, all⟩ := closed.chains lower old
    exact ⟨chain, walked, fun above onChain =>
      (creates.instantiated above).2 (.inl (all above onChain))⟩
  · obtain ⟨whole, walked, onWhole⟩ := inherits
    obtain ⟨chain, chainWalked, isSuffix⟩ :=
      Hierarchy.chain_suffix walked onWhole
    exact ⟨chain, chainWalked, fun above onChain =>
      (creates.instantiated above).2
        (.inr ⟨isCreated, whole, walked, isSuffix.subset onChain⟩)⟩

theorem Creates.isInstantiated_of_direct {cls : ClassId}
    {flags : InstantiationFlags} {reports : List ClassReport}
    (built : program.Built) (closed : world.ClassesClosed program)
    (creates : Creates world final program cls flags reports) {lower : ClassId}
    (isDirect : lower ∈ final.direct) :
    final.isInstantiated lower = true := by
  rcases (creates.direct lower).1 isDirect with old | ⟨rfl, isCreated⟩
  · exact (creates.instantiated lower).2 (.inl (closed.direct lower old))
  · obtain ⟨decl, fetched, -⟩ := id isCreated
    obtain ⟨chain, walked⟩ := built.exists_superclassChain fetched
    exact (creates.instantiated lower).2
      (.inr ⟨isCreated, Program.hasSuperclass_self walked⟩)

/-- The class is implemented already, and its supertypes with it. -/
theorem Creates.instantiates_of_implemented {cls : ClassId}
    {flags : InstantiationFlags} {reports : List ClassReport}
    (built : program.Built) (closed : world.ClassesClosed program)
    (creates : Creates world final program cls flags reports)
    (isImplemented : cls ∈ final.implemented) :
    Instantiates world final program cls flags reports where
  direct := creates.direct
  instantiated := creates.instantiated
  implemented other := by
    rw [creates.implemented] at isImplemented ⊢
    refine ⟨.inl, ?_⟩
    rintro (old | rfl | ⟨found, stored, above⟩)
    · exact old
    · exact isImplemented
    · obtain ⟨known, knownStored, all⟩ := closed.supertypes cls isImplemented
      rw [stored] at knownStored
      cases knownStored
      exact all other above
  tellings := creates.tellings
  announced report listed told := by
    rw [creates.silent report listed] at told
    cases told
  closed :=
    { chains := fun lower now => creates.chains closed now
      supertypes := by
        rw [creates.implemented]
        exact closed.supertypes
      direct := fun lower isDirect =>
        creates.isInstantiated_of_direct built closed isDirect }
  frame := creates.frame

theorem Creates.instantiates_of_supertypes {cls : ClassId}
    {flags : InstantiationFlags} {reports : List ClassReport}
    {created : World} {above : List ClassId}
    (built : program.Built) (closed : world.ClassesClosed program)
    (creates : Creates world created program cls flags reports)
    (stored : program.supertypes cls = .ok above) :
    Instantiates world (created.noteImplemented (cls :: above)).1 program cls
      flags (reports ++ (created.noteImplemented (cls :: above)).2) := by
  have frame := noteImplemented_frame created (cls :: above)
  have direct : (created.noteImplemented (cls :: above)).1.direct =
      created.direct := by
    rw [frame]
  have supertype_iff : ∀ other, program.HasSupertype cls other ↔
      other ∈ cls :: above := by
    intro other
    simp [Program.HasSupertype, stored]
  have implemented : ∀ other,
      other ∈ (created.noteImplemented (cls :: above)).1.implemented ↔
        other ∈ world.implemented ∨ other ∈ cls :: above := by
    intro other
    rw [mem_implemented_noteImplemented, creates.implemented]
  refine
    { direct := fun other => direct ▸ creates.direct other
      instantiated := fun other => by
        rw [isInstantiated_noteImplemented]
        exact creates.instantiated other
      implemented := fun other => by rw [implemented, supertype_iff]
      tellings := fun other => by
        rw [instanceTellings_append, instanceTellings_noteImplemented,
          isInstantiated_noteImplemented]
        exact creates.tellings other
      announced := fun report listed told => ?_
      closed :=
        { chains := fun lower now => ?_
          supertypes := fun lower isImplemented => ?_
          direct := fun lower isDirect => ?_ }
      frame := ?_ }
  · rcases List.mem_append.1 listed with created | noted
    · rw [creates.silent report created] at told
      cases told
    · obtain ⟨isNew, isAbove⟩ := not_implemented_of_reported noted
      rw [creates.implemented] at isNew
      exact ⟨isNew, (implemented report.1).2 (.inr isAbove)⟩
  · simp only [isInstantiated_noteImplemented] at now ⊢
    exact creates.chains closed now
  · rcases (implemented lower).1 isImplemented with old | new
    · obtain ⟨found, foundStored, all⟩ := closed.supertypes lower old
      exact ⟨found, foundStored, fun upper isAbove =>
        (implemented upper).2 (.inl (all upper isAbove))⟩
    · rcases List.mem_cons.1 new with rfl | isAbove
      · exact ⟨above, stored, fun upper isUpper =>
          (implemented upper).2 (.inr (List.mem_cons_of_mem _ isUpper))⟩
      · obtain ⟨higher, higherStored, all⟩ :=
          built.supertypes_trans stored isAbove
        exact ⟨higher, higherStored, fun upper isUpper =>
          (implemented upper).2 (.inr (List.mem_cons.2 (all upper isUpper)))⟩
  · rw [direct] at isDirect
    rw [isInstantiated_noteImplemented]
    exact creates.isInstantiated_of_direct built closed isDirect
  · rw [frame, creates.frame]
    rfl

theorem ClassesClosed.registerInstantiation {type : InterfaceType}
    {constructor : Option MemberId} {flags : InstantiationFlags}
    {reports : List ClassReport} (built : program.Built)
    (closed : world.ClassesClosed program)
    (registered : world.registerInstantiation program type constructor flags =
      .ok (final, reports)) :
    Instantiates world final program type.cls flags reports := by
  obtain ⟨created, creation, creates,
    ⟨isImplemented, rfl, rfl⟩ | ⟨above, stored, rfl, rfl⟩⟩ :=
    registerInstantiation_cases closed registered
  · exact creates.instantiates_of_implemented built closed isImplemented
  · exact creates.instantiates_of_supertypes built closed stored

theorem classesClosed_empty (program : Program) :
    ({} : World).ClassesClosed program where
  chains cls now := by simp [isInstantiated] at now
  supertypes := by simp
  direct := by simp

end World

end TreeShaking
