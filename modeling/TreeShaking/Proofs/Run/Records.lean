import TreeShaking.Proofs.Run.Operations

/-!
# The records of instantiations

A world keeps a record of every way in which instances of a class come about.
The history determines the records: there is one for each use that asks for an
instantiation and creates instances, with the constructor that the use names
(`Creations.mem_instantiationsOf_iff`).  The list of instantiated types and the
uses of classes repeat what is known otherwise (`World.ClassesAgree`).
-/

namespace TreeShaking

open Outcome World

/-- The constructor that a use names when it asks for an instantiation. -/
def Use.constructor? : Use → Option MemberId
  | .static use => some use.member
  | .dynamic _ | .type _ => none

/-- The record of an instantiation that creates instances. -/
def Program.Records (program : Program) (type : InterfaceType)
    (constructor : Option MemberId) (flags : InstantiationFlags)
    (record : Instantiation) : Prop :=
  ∃ decl, program.cls type.cls = .ok decl ∧
    decl.createsInstances flags = true ∧
    record = {
      constructor, type
      isAbstract := decl.isAbstract
      isRedirection := flags.redirection }

namespace World

variable {program : Program} {world final : World}

/-- The parts of a world that repeat what it knows about classes. -/
structure ClassesAgree (world : World) : Prop where
  implemented : ∀ cls, (world.classUsage.getD cls {}).isImplemented =
    decide (cls ∈ world.implemented)
  types : ∀ type, type ∈ world.instantiatedTypes ↔
    ∃ record ∈ world.instantiationsOf type.cls, record.type = type

/-- The uses of a class are those that the sets of classes tell. -/
theorem ClassesAgree.classUses_eq (agree : world.ClassesAgree) (cls : ClassId) :
    world.classUses cls =
      { instantiated := world.isInstantiated cls
        implemented := decide (cls ∈ world.implemented) } := by
  have implemented := agree.implemented cls
  have instantiated := world.isInstantiated_getD cls
  unfold Table.getD at implemented instantiated
  unfold classUses
  rw [← implemented, ← instantiated]
  cases world.classUsage.get? cls <;> rfl

theorem classesAgree_empty : ({} : World).ClassesAgree where
  implemented cls := rfl
  types type := by simp [instantiationsOf, Table.getD]

/-! ### One instantiation -/

theorem isImplemented_noteInstantiated (world : World) (chain : List ClassId)
    (cls : ClassId) :
    ((world.noteInstantiated chain).1.classUsage.getD cls {}).isImplemented =
      (world.classUsage.getD cls {}).isImplemented := by
  have marked : ∀ (world : World) (next : ClassId),
      ((world.markInstantiated next).classUsage.getD cls {}).isImplemented =
        (world.classUsage.getD cls {}).isImplemented := by
    intro world next
    by_cases same : cls = next
    · subst same
      simp [markInstantiated, Table.getD, ClassUsage.instantiate,
        ClassUsage.isImplemented]
    · simp [markInstantiated, Table.getD, same]
  induction chain generalizing world with
  | nil => rfl
  | cons next rest ih =>
      rw [noteInstantiated_cons]
      split
      · exact marked world next
      · rw [ih, marked]

theorem isImplemented_noteImplemented (world : World) (classes : List ClassId)
    (agree : ∀ cls, (world.classUsage.getD cls {}).isImplemented =
      decide (cls ∈ world.implemented)) (cls : ClassId) :
    ((world.noteImplemented classes).1.classUsage.getD cls {}).isImplemented =
      decide (cls ∈ (world.noteImplemented classes).1.implemented) := by
  induction classes generalizing world with
  | nil => exact agree cls
  | cons next rest ih =>
      rw [noteImplemented]
      split
      · exact ih world agree
      · refine ih _ fun other => ?_
        by_cases same : other = next
        · subst same
          simp [Table.getD, ClassUsage.implement, ClassUsage.isImplemented]
        · have known := agree other
          simpa [Table.getD, same] using known

theorem mem_instantiationsOf_record (world : World) (added : Instantiation)
    (cls : ClassId) (record : Instantiation) :
    record ∈ (world.record added).instantiationsOf cls ↔
      record ∈ world.instantiationsOf cls ∨
        cls = added.type.cls ∧ record = added := by
  unfold World.record
  by_cases known : added ∈ world.instantiationsOf added.type.cls
  · simp only [known, if_true]
    refine ⟨.inl, ?_⟩
    rintro (old | ⟨rfl, rfl⟩)
    · exact old
    · exact known
  · simp only [known, if_false]
    by_cases same : cls = added.type.cls
    · subst same
      simp [instantiationsOf, Table.getD]
    · simp [instantiationsOf, Table.getD, same]

/-- The two walks of an instantiation, after the record has been made. -/
theorem registerInstantiation_walks {type : InterfaceType}
    {constructor : Option MemberId} {flags : InstantiationFlags}
    {reports : List ClassReport}
    (registered : world.registerInstantiation program type constructor flags =
      .ok (final, reports)) :
    ∃ decl created, program.cls type.cls = .ok decl ∧
      (if decl.createsInstances flags then
        ∃ chain, created = ((world.record {
          constructor, type
          isAbstract := decl.isAbstract
          isRedirection := flags.redirection }).noteInstantiated chain).1
      else
        created = world) ∧
      ∃ classes, final = (created.noteImplemented classes).1 := by
  have second : ∀ created creation,
      (if type.cls ∈ created.implemented then
        pure (created, creation)
      else do
        let above ← program.supertypes type.cls
        pure ((created.noteImplemented (type.cls :: above)).1,
          creation ++ (created.noteImplemented (type.cls :: above)).2) :
        Except Failure (World × List ClassReport)) = .ok (final, reports) →
      ∃ classes, final = (created.noteImplemented classes).1 := by
    intro created creation finished
    split at finished
    · obtain ⟨rfl, -⟩ := Prod.mk.inj (pure_eq_ok_iff.1 finished)
      exact ⟨[], rfl⟩
    · simp only [bind_eq_ok_iff, pure_eq_ok_iff, Prod.mk.injEq] at finished
      obtain ⟨above, -, rfl, -⟩ := finished
      exact ⟨_, rfl⟩
  simp only [registerInstantiation, bind_eq_ok_iff] at registered
  obtain ⟨decl, fetched, registered⟩ := registered
  split at registered
  · rename_i creates
    rw [bind_eq_ok_iff] at registered
    obtain ⟨chain, -, finished⟩ := registered
    exact ⟨decl, _, fetched, by rw [if_pos creates]; exact ⟨chain, rfl⟩,
      second _ _ finished⟩
  · rename_i createsNot
    exact ⟨decl, world, fetched, by rw [if_neg createsNot],
      second _ _ registered⟩

/-- An instantiation that creates instances is recorded, and any other leaves
the records alone. -/
theorem mem_instantiationsOf_of_registered {type : InterfaceType}
    {constructor : Option MemberId} {flags : InstantiationFlags}
    {reports : List ClassReport}
    (registered : world.registerInstantiation program type constructor flags =
      .ok (final, reports)) (cls : ClassId) (record : Instantiation) :
    record ∈ final.instantiationsOf cls ↔
      record ∈ world.instantiationsOf cls ∨
        cls = type.cls ∧ program.Records type constructor flags record := by
  obtain ⟨decl, created, fetched, creation, classes, rfl⟩ :=
    registerInstantiation_walks registered
  have kept : (created.noteImplemented classes).1.instantiationsOf cls =
      created.instantiationsOf cls := by
    rw [noteImplemented_frame]
    rfl
  rw [kept]
  split at creation
  · rename_i creates
    obtain ⟨chain, rfl⟩ := creation
    rw [noteInstantiated_frame]
    refine (mem_instantiationsOf_record world _ cls record).trans
      (or_congr_right (and_congr_right fun _ => ?_))
    refine ⟨fun same => ⟨decl, fetched, creates, same⟩, ?_⟩
    rintro ⟨found, isFound, -, rfl⟩
    rw [fetched] at isFound
    cases isFound
    rfl
  · rename_i createsNot
    subst creation
    refine ⟨.inl, ?_⟩
    rintro (old | ⟨-, found, isFound, creates, -⟩)
    · exact old
    · rw [fetched] at isFound
      cases isFound
      exact absurd creates createsNot

theorem ClassesAgree.registerInstantiation {type : InterfaceType}
    {constructor : Option MemberId} {flags : InstantiationFlags}
    {reports : List ClassReport} (agree : world.ClassesAgree)
    (registered : world.registerInstantiation program type constructor flags =
      .ok (final, reports)) : final.ClassesAgree := by
  have records := mem_instantiationsOf_of_registered registered
  obtain ⟨decl, created, fetched, creation, classes, rfl⟩ :=
    registerInstantiation_walks registered
  constructor
  · refine isImplemented_noteImplemented created classes fun cls => ?_
    split at creation
    · obtain ⟨chain, rfl⟩ := creation
      rw [isImplemented_noteInstantiated, noteInstantiated_frame]
      exact agree.implemented cls
    · subst creation
      exact agree.implemented cls
  · intro other
    simp only [records]
    have kept : (created.noteImplemented classes).1.instantiatedTypes =
        created.instantiatedTypes := by
      rw [noteImplemented_frame]
    rw [kept]
    split at creation
    · rename_i creates
      obtain ⟨chain, rfl⟩ := creation
      rw [noteInstantiated_frame]
      simp only [World.record, List.mem_insert_iff, agree.types]
      constructor
      · rintro (rfl | ⟨record, listed, rfl⟩)
        · exact ⟨_, .inr ⟨rfl, decl, fetched, creates, rfl⟩, rfl⟩
        · exact ⟨record, .inl listed, rfl⟩
      · rintro ⟨record, old | ⟨-, found, -, -, rfl⟩, rfl⟩
        · exact .inr ⟨record, old, rfl⟩
        · exact .inl rfl
    · rename_i createsNot
      subst creation
      rw [agree.types]
      constructor
      · rintro ⟨record, listed, rfl⟩
        exact ⟨record, .inl listed, rfl⟩
      · rintro ⟨record, old | ⟨-, found, isFound, creates, -⟩, rfl⟩
        · exact ⟨record, old, rfl⟩
        · rw [fetched] at isFound
          cases isFound
          exact absurd creates createsNot

/-- Two worlds have the same records about classes. -/
structure SameRecords (before after : World) : Prop where
  classUsage : after.classUsage = before.classUsage
  implemented : after.implemented = before.implemented
  instantiations : after.instantiations = before.instantiations
  instantiatedTypes : after.instantiatedTypes = before.instantiatedTypes

theorem SameRecords.instantiationsOf (same : SameRecords world final)
    (cls : ClassId) :
    final.instantiationsOf cls = world.instantiationsOf cls := by
  rw [World.instantiationsOf, World.instantiationsOf, same.instantiations]

theorem ClassesAgree.of_same (agree : world.ClassesAgree)
    (same : SameRecords world final) : final.ClassesAgree := by
  constructor
  · rw [same.classUsage, same.implemented]
    exact agree.implemented
  · intro type
    rw [same.instantiatedTypes, same.instantiationsOf]
    exact agree.types type

end World

/-! ### Uses within a scope -/

namespace Scope

variable {scope : Scope} {program : Program} {world final : World}
  {reports : List MemberReport}

/-- A static use is noted as such unless it inlines its member. -/
theorem registerStatic_cases {use : StaticUse}
    (registered : scope.registerStatic program use world =
      .ok (final, reports)) :
    (use.kind = .inlining ∧ reports = [] ∧
        final = { world with inlined := world.inlined.insert use.member }) ∨
      (use.kind ≠ .inlining ∧
        world.registerStatic program use = .ok (final, reports)) := by
  unfold Scope.registerStatic at registered
  cases scope with
  | resolution =>
      dsimp only at registered
      split at registered
      · cases registered
      · rename_i resolves
        refine .inr ⟨fun inlining => ?_, registered⟩
        simp [inlining, StaticUseKind.isCodegenOnly] at resolves
  | codegen closed =>
      dsimp only at registered
      split at registered
      · split at registered
        · rename_i inlining
          obtain ⟨rfl, rfl⟩ := Prod.mk.inj (Except.ok.inj registered)
          exact .inl ⟨inlining, rfl, rfl⟩
        · rename_i inliningNot
          exact .inr ⟨inliningNot, registered⟩
      · rw [bind_eq_ok_iff] at registered
        obtain ⟨display, -, impossible⟩ := registered
        cases impossible

/-- A dynamic use is noted as such, and its target may be noted besides. -/
theorem registerDynamic_cases {use : DynamicUse}
    (registered : scope.registerDynamic program use world =
      .ok (final, reports)) :
    ∃ noted table,
      world.registerDynamic program scope.live use = .ok (noted, reports) ∧
      final = { noted with devirtualized := table } := by
  simp only [Scope.registerDynamic, bind_eq_ok_iff, Prod.exists] at registered
  obtain ⟨noted, told, registered, finished⟩ := registered
  cases scope with
  | resolution =>
      obtain ⟨rfl, rfl⟩ := Prod.mk.inj (pure_eq_ok_iff.1 finished)
      exact ⟨noted, noted.devirtualized, registered, rfl⟩
  | codegen closed =>
      simp only [bind_eq_ok_iff, pure_eq_ok_iff, Prod.mk.injEq] at finished
      obtain ⟨_, devirtualized, rfl, rfl⟩ := finished
      obtain ⟨table, rfl⟩ := devirtualize_same devirtualized
      exact ⟨noted, table, registered, rfl⟩

end Scope

namespace Exploration

variable {σ : Type} {setting : Setting σ} {routine : Routine}
  {history : List Use} {task : Task} {work tasks : List Task} {stage : Stage}
  {e next : Exploration σ}

/-- Only an instantiation changes the records. -/
theorem Effect.sameRecords (effect : Effect setting e task tasks next)
    (books : Books setting history e)
    (other : ∀ type constructor flags isGlobal,
      task ≠ .instantiate type constructor flags isGlobal) :
    SameRecords e.world next.world := by
  cases effect with
  | static admitted registered =>
      rcases Scope.registerStatic_cases registered with
        ⟨-, -, rfl⟩ | ⟨-, registered⟩
      · exact ⟨rfl, rfl, rfl, rfl⟩
      · obtain ⟨decl, outcome, -, -, rfl, -⟩ :=
          registerStatic_consumes books.orderly registered
        exact ⟨rfl, rfl, rfl, rfl⟩
  | dynamic admitted registered =>
      obtain ⟨noted, table, notes, rfl⟩ :=
        Scope.registerDynamic_cases registered
      obtain ⟨-, -, frame⟩ := World.Balanced.registerDynamic books notes
      rw [frame]
      exact ⟨rfl, rfl, rfl, rfl⟩
  | entered entered =>
      obtain ⟨-, -, frame⟩ := World.Balanced.enterClass books entered
      rw [frame]
      exact ⟨rfl, rfl, rfl, rfl⟩
  | instantiated => exact absurd rfl (other _ _ _ _)
  | enlisted used | skipped used =>
      simp only [registerUsed, bind_eq_ok_iff, pure_eq_ok_iff] at used
      obtain ⟨decl, -, rfl⟩ := used
      exact ⟨rfl, rfl, rfl, rfl⟩
  | refused | creation | test | untested | literal | superfluous | demanded
  | closurized | announced | unapplied | applied | released =>
      exact ⟨rfl, rfl, rfl, rfl⟩

/-- What an effect plans to instantiate, a use that it notices asks for. -/
theorem Effect.asks_of_planned (effect : Effect setting e task tasks next)
    {type : InterfaceType} {constructor : Option MemberId}
    {flags : InstantiationFlags} {isGlobal : Bool}
    (listed : .instantiate type constructor flags isGlobal ∈ tasks) :
    ∃ use ∈ task.noticed setting, use.instantiation? = some (type, flags) ∧
      use.constructor? = constructor := by
  have unconcerned : ∀ {reports : List MemberReport},
      .instantiate type constructor flags isGlobal ∉
        reports.flatMap Task.ofMemberReport := by
    intro reports reported
    cases Task.unconcerned_ofMemberReport reports _ reported
  have unplanned : ∀ {impact : Impact},
      .instantiate type constructor flags isGlobal ∉ impact.tasks := by
    intro impact planned
    cases Impact.unconcerned_tasks impact _ planned
  cases effect with
  | @static use _ _ admitted =>
      rw [noticed_of_admitted admitted]
      rcases List.mem_append.1 listed with reported | creates
      · exact absurd reported unconcerned
      · obtain ⟨asked, askedFlags, instantiates, same⟩ :=
          StaticUse.eq_of_mem_creation creates
        obtain ⟨rfl, rfl, rfl, -⟩ := Task.instantiate.inj same
        exact ⟨_, List.mem_singleton_self _, instantiates, rfl⟩
  | @creation use _ _ admitted creates isInterface =>
      rw [noticed_of_admitted admitted]
      obtain ⟨rfl, rfl, rfl, -⟩ :=
        Task.instantiate.inj (List.mem_singleton.1 listed)
      refine ⟨_, List.mem_singleton_self _, ?_, rfl⟩
      simp [Use.instantiation?, creates, isInterface]
  | dynamic => exact absurd listed unconcerned
  | closurized | announced => exact absurd listed unplanned
  | entered =>
      rcases List.mem_append.1 listed with reported | last
      · exact absurd reported unconcerned
      · cases List.mem_singleton.1 last
  | demanded | applied =>
      rcases List.mem_append.1 listed with registers | last
      · exact absurd registers unplanned
      · cases List.mem_singleton.1 last
  | instantiated =>
      rcases List.mem_append.1 listed with reported | last
      · obtain ⟨report, -, ⟨-, same⟩ | ⟨-, same⟩⟩ :=
          Task.eq_of_mem_ofClassReport reported
        · cases same
        · cases same
      · cases List.mem_singleton.1 last
  | refused | test | untested | literal | superfluous | enlisted | skipped
  | unapplied | released => simp at listed

/-- What a noticed use asks for is planned. -/
theorem Effect.planned_of_asks (effect : Effect setting e task tasks next)
    {use : Use} {type : InterfaceType} {flags : InstantiationFlags}
    (told : use ∈ task.noticed setting)
    (instantiates : use.instantiation? = some (type, flags)) :
    ∃ isGlobal, .instantiate type use.constructor? flags isGlobal ∈ tasks := by
  cases effect with
  | static admitted =>
      rw [noticed_of_admitted admitted] at told
      obtain rfl := List.mem_singleton.1 told
      refine ⟨false, List.mem_append_right _ ?_⟩
      rw [StaticUse.creation, show StaticUse.instantiation? _ = _ from instantiates]
      exact List.mem_singleton_self _
  | creation admitted creates isInterface =>
      rw [noticed_of_admitted admitted] at told
      obtain rfl := List.mem_singleton.1 told
      simp only [Use.instantiation?, creates, isInterface, bind, Option.bind,
        pure, Option.some.injEq, Prod.mk.injEq] at instantiates
      obtain ⟨rfl, rfl⟩ := instantiates
      exact ⟨_, List.mem_singleton_self _⟩
  | dynamic admitted =>
      rw [noticed_of_admitted admitted] at told
      obtain rfl := List.mem_singleton.1 told
      cases instantiates
  | @test use tested admitted isTest =>
      rw [noticed_of_admitted admitted] at told
      obtain rfl := List.mem_singleton.1 told
      cases kind : use.kind <;>
        simp_all [Use.instantiation?, TypeUseKind.isTest, TypeUseKind.creation?]
  | untested admitted isUntested =>
      rw [noticed_of_admitted admitted] at told
      obtain rfl := List.mem_singleton.1 told
      simp [Use.instantiation?, isUntested.1, TypeUseKind.creation?]
        at instantiates
  | literal admitted isLiteral =>
      rw [noticed_of_admitted admitted] at told
      obtain rfl := List.mem_singleton.1 told
      simp [Use.instantiation?, isLiteral, TypeUseKind.creation?] at instantiates
  | refused refused => simp [Task.noticed, refused] at told
  | superfluous | demanded | enlisted | skipped | closurized | announced
  | entered | instantiated | unapplied | applied | released =>
      simp [Task.noticed] at told

/-- The records that the world has, and those that are still to be made. -/
structure Creations (setting : Setting σ) (history : List Use)
    (work : List Task) (e : Exploration σ) : Prop where
  agree : e.world.ClassesAgree
  planned : ∀ type constructor flags isGlobal,
    .instantiate type constructor flags isGlobal ∈ work →
      ∃ use ∈ history, use.instantiation? = some (type, flags) ∧
        use.constructor? = constructor
  done : ∀ use ∈ history, ∀ type flags,
    use.instantiation? = some (type, flags) →
      (∀ record, setting.program.Records type use.constructor? flags record →
        record ∈ e.world.instantiationsOf type.cls) ∨
      ∃ isGlobal, .instantiate type use.constructor? flags isGlobal ∈ work
  recorded : ∀ cls, ∀ record ∈ e.world.instantiationsOf cls,
    ∃ use ∈ history, ∃ type flags, use.instantiation? = some (type, flags) ∧
      type.cls = cls ∧
      setting.program.Records type use.constructor? flags record

theorem Creations.step (creations : Creations setting history (task :: work) e)
    (books : Books setting history e)
    (effect : Effect setting e task tasks next) :
    Creations setting (history ++ task.noticed setting) (tasks ++ work) next := by
  have planned : ∀ type constructor flags isGlobal,
      .instantiate type constructor flags isGlobal ∈ tasks ++ work →
        ∃ use ∈ history ++ task.noticed setting,
          use.instantiation? = some (type, flags) ∧
            use.constructor? = constructor := by
    intro type constructor flags isGlobal listed
    rcases List.mem_append.1 listed with new | old
    · obtain ⟨use, told, rest⟩ := effect.asks_of_planned new
      exact ⟨use, List.mem_append_right _ told, rest⟩
    · obtain ⟨use, told, rest⟩ := creations.planned type constructor flags
        isGlobal (List.mem_cons_of_mem _ old)
      exact ⟨use, List.mem_append_left _ told, rest⟩
  by_cases other : ∀ type constructor flags isGlobal,
      task ≠ .instantiate type constructor flags isGlobal
  · have same := effect.sameRecords books other
    refine ⟨creations.agree.of_same same, planned, ?_, ?_⟩
    · intro use told type flags instantiates
      simp only [same.instantiationsOf]
      rcases List.mem_append.1 told with old | new
      · refine (creations.done use old type flags instantiates).imp_right ?_
        rintro ⟨isGlobal, listed⟩
        have remains := (List.mem_cons.1 listed).resolve_left
          (fun same => other _ _ _ _ same.symm)
        exact ⟨isGlobal, List.mem_append_right _ remains⟩
      · obtain ⟨isGlobal, listed⟩ := effect.planned_of_asks new instantiates
        exact .inr ⟨isGlobal, List.mem_append_left _ listed⟩
    · intro cls record listed
      rw [same.instantiationsOf] at listed
      obtain ⟨use, told, rest⟩ := creations.recorded cls record listed
      exact ⟨use, List.mem_append_left _ told, rest⟩
  · push Not at other
    obtain ⟨type, constructor, flags, isGlobal, rfl⟩ := other
    cases effect with
    | instantiated registered =>
        have within := Scope.registerInstantiation_within registered
        have records := mem_instantiationsOf_of_registered within
        simp only [Task.noticed, List.append_nil] at planned ⊢
        refine ⟨creations.agree.registerInstantiation within, planned, ?_, ?_⟩
        · intro use told otherType otherFlags instantiates
          rcases creations.done use told otherType otherFlags instantiates with
            isDone | ⟨otherGlobal, listed⟩
          · exact .inl fun record made => (records _ record).2
              (.inl (isDone record made))
          · rcases List.mem_cons.1 listed with same | remains
            · obtain ⟨rfl, rfl, rfl, -⟩ := Task.instantiate.inj same
              exact .inl fun record made => (records _ record).2
                (.inr ⟨rfl, made⟩)
            · exact .inr ⟨otherGlobal, List.mem_append_right _ remains⟩
        · intro cls record listed
          rcases (records cls record).1 listed with old | ⟨rfl, made⟩
          · exact creations.recorded cls record old
          · obtain ⟨use, told, instantiates, rfl⟩ := creations.planned type
              constructor flags isGlobal List.mem_cons_self
            exact ⟨use, told, type, flags, instantiates, rfl, made⟩

/-- An operation or a turn of the loop begins with tasks that instantiate
nothing. -/
theorem Creations.begin (creations : Creations setting history [] e)
    (unconcerned : ∀ other ∈ work, other.concernsClass = false)
    (same : SameRecords e.world next.world) :
    Creations setting history work next := by
  refine ⟨creations.agree.of_same same, ?_, ?_, ?_⟩
  · intro type constructor flags isGlobal listed
    cases unconcerned _ listed
  · intro use told type flags instantiates
    simp only [same.instantiationsOf]
    have isDone := creations.done use told type flags instantiates
    exact .inl (isDone.resolve_right (by simp))
  · intro cls record listed
    rw [same.instantiationsOf] at listed
    exact creations.recorded cls record listed

theorem Creations.turn {nextStage : Stage}
    (creations : Creations setting history [] e)
    (turn : Turn setting routine e stage work nextStage next) :
    Creations setting history work next := by
  cases turn with
  | drained =>
      exact creations.begin (Impact.unconcerned_tasks _) ⟨rfl, rfl, rfl, rfl⟩
  | emptied | passed | taken | putOff | closed | finished | allCarriedOut
  | resumed | settled | applying | imposed | carriedOut =>
      exact creations.begin (by simp [Task.concernsClass]) ⟨rfl, rfl, rfl, rfl⟩

theorem creations_of_fresh (world : e.world = {}) :
    Creations setting [] [] e where
  agree := world ▸ classesAgree_empty
  planned := by simp
  done := by simp
  recorded := by simp [world, instantiationsOf, Table.getD]

theorem Creations.mem_instantiationsOf_iff
    (creations : Creations setting history [] e) (cls : ClassId)
    (record : Instantiation) :
    record ∈ e.world.instantiationsOf cls ↔
      ∃ use ∈ history, ∃ type flags, use.instantiation? = some (type, flags) ∧
        type.cls = cls ∧
        setting.program.Records type use.constructor? flags record := by
  refine ⟨creations.recorded cls record, ?_⟩
  rintro ⟨use, told, type, flags, instantiates, rfl, made⟩
  have isDone := creations.done use told type flags instantiates
  exact isDone.resolve_right (by simp) record made

end Exploration

end TreeShaking
