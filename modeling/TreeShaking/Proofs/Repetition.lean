import TreeShaking.Proofs.Rehearsal

/-!
# Registrations that are repeated

A use that was registered has nothing to say when it is registered again, whatever
was found meanwhile.  Its access was made, its receivers are known, its
instantiation is recorded.  So the world is not changed by it.

What a later world remembers of an earlier one is `World.Precedes`: it contains the
earlier one, and knows its receivers.
-/

namespace TreeShaking

open Outcome

namespace ReceiverSet

theorem not_grew_iff (receivers : ReceiverSet) (constraint : Constraint) :
    (receivers.add constraint).1 = false ↔
      receivers.isAll = true ∨
        constraint ≠ .unconstrained ∧ constraint ∈ receivers.constraints := by
  unfold add
  split
  · rename_i isAll
    simp [isAll]
  · rename_i notAll
    split
    · rename_i unconstrained
      simp [notAll, unconstrained]
    · rename_i constrained
      split
      · rename_i present
        simp [constrained, present]
      · rename_i absent
        simp [notAll, absent]

/-- Adding a constraint twice lets a set grow at most once. -/
theorem not_grew_again (receivers : ReceiverSet) (constraint : Constraint) :
    ((receivers.add constraint).2.add constraint).1 = false := by
  rw [not_grew_iff]
  unfold add
  split
  · rename_i isAll
    exact .inl isAll
  · split
    · exact .inl rfl
    · rename_i constrained
      split
      · rename_i present
        exact .inr ⟨constrained, present⟩
      · exact .inr ⟨constrained, List.mem_append_right _ List.mem_cons_self⟩

/-- A constraint that lets a set not grow does so still after others have been
added. -/
theorem not_grew_mono {receivers : ReceiverSet} {constraint : Constraint}
    (same : (receivers.add constraint).1 = false) (other : Constraint) :
    ((receivers.add other).2.add constraint).1 = false := by
  rw [not_grew_iff] at same ⊢
  unfold add
  split
  · exact same
  · rename_i notAll
    obtain ⟨constrained, present⟩ := same.resolve_left notAll
    split
    · exact .inl rfl
    · split
      · exact .inr ⟨constrained, present⟩
      · exact .inr ⟨constrained, List.mem_append_left _ present⟩

end ReceiverSet

namespace World

variable {program : Program} {live : LiveClasses} {world later final : World}

/-! ### What later worlds remember -/

/-- Whether the receivers of a dynamic use are known. -/
def isKnown (world : World) (use : DynamicUse) : Bool :=
  !((world.selectors.getD use.selector {}).add use.constraint).1

/-- One world comes before another: all that it has found is found there, and the
receivers that it knows are known. -/
structure Precedes (before after : World) : Prop extends
    Within before after where
  known : ∀ use, before.isKnown use = true → after.isKnown use = true

namespace Precedes

theorem refl (world : World) : world.Precedes world :=
  ⟨.refl world, fun _ => id⟩

theorem trans {first second third : World} (precedes : first.Precedes second)
    (further : second.Precedes third) : first.Precedes third :=
  ⟨precedes.toWithin.trans further.toWithin, fun use isKnown =>
    further.known use (precedes.known use isKnown)⟩

/-- Receivers are known if the selectors stay. -/
theorem of_selectors (within : world.Within final)
    (selectors : final.selectors = world.selectors) : world.Precedes final :=
  ⟨within, fun use known => by rwa [isKnown, selectors]⟩

end Precedes

/-- Examining members leaves the selectors alone. -/
theorem selectors_examine {use : DynamicUse} {candidates : List MemberId}
    {reports : List MemberReport}
    (examined : world.examine program live use candidates =
      .ok (final, reports)) : final.selectors = world.selectors := by
  induction candidates generalizing world reports with
  | nil =>
      obtain ⟨rfl, -⟩ := Prod.mk.inj (Except.ok.inj examined)
      rfl
  | cons member rest ih =>
      simp only [examine, bind_eq_ok_iff] at examined
      obtain ⟨decl, -, reached, -, examined⟩ := examined
      split at examined
      · simp only [bind_eq_ok_iff, pure_eq_ok_iff, Prod.exists,
          Prod.mk.injEq] at examined
        obtain ⟨_, further, examined, rfl, -⟩ := examined
        rw [ih examined]
        rfl
      · exact ih examined

theorem selectors_registerDynamic {use : DynamicUse}
    {reports : List MemberReport}
    (registered : world.registerDynamic program live use =
      .ok (final, reports)) :
    final.selectors = world.selectors.insert use.selector
      ((world.selectors.getD use.selector {}).add use.constraint).2 := by
  simp only [registerDynamic] at registered
  split at registered
  · simp only [bind_eq_ok_iff, Prod.exists] at registered
    obtain ⟨examined, told, isExamined, registered⟩ := registered
    split at registered
    · simp only [bind_eq_ok_iff, pure_eq_ok_iff, Prod.exists,
        Prod.mk.injEq] at registered
      obtain ⟨_, further, tornOff, rfl, -⟩ := registered
      rw [selectors_examine tornOff, selectors_examine isExamined]
    · obtain ⟨rfl, -⟩ := Prod.mk.inj (pure_eq_ok_iff.1 registered)
      rw [selectors_examine isExamined]
  · obtain ⟨rfl, -⟩ := Prod.mk.inj (pure_eq_ok_iff.1 registered)
    rfl

/-- A dynamic use makes its receivers known, and those that are known stay
so. -/
theorem isKnown_registerDynamic {use : DynamicUse} {reports : List MemberReport}
    (registered : world.registerDynamic program live use =
      .ok (final, reports)) :
    final.isKnown use = true ∧
      ∀ other, world.isKnown other = true → final.isKnown other = true := by
  have selectors := selectors_registerDynamic registered
  constructor
  · simp [isKnown, selectors, Table.getD, ReceiverSet.not_grew_again]
  · intro other known
    unfold isKnown at known ⊢
    rw [selectors]
    by_cases same : other.selector = use.selector
    · rw [same] at known ⊢
      rw [Bool.not_eq_true'] at known ⊢
      simp only [Table.getD, Table.get?_insert, if_true, Option.getD_some]
      exact ReceiverSet.not_grew_mono known _
    · simpa [Table.getD, same] using known

theorem precedes_registerDynamic {use : DynamicUse}
    {reports : List MemberReport}
    (registered : world.registerDynamic program live use =
      .ok (final, reports)) : world.Precedes final :=
  ⟨within_registerDynamic registered, (isKnown_registerDynamic registered).2⟩

/-! ### Registrations that are repeated -/

/-- What a static use says beyond its access is said once. -/
theorem noteStatic_again {use : StaticUse} {decl : MemberDecl}
    (staticFields : (world.noteStatic use decl).staticFields ⊆
      later.staticFields)
    (fieldSetters : (world.noteStatic use decl).fieldSetters ⊆
      later.fieldSetters)
    (superGetters : (world.noteStatic use decl).superGetters ⊆
      later.superGetters) :
    later.noteStatic use decl = later := by
  have noted : ∀ (isNoted : Bool) (before after : List MemberId),
      (if isNoted = true then before.insert use.member else before) ⊆ after →
        (if isNoted = true then after.insert use.member else after) = after := by
    intro isNoted before after kept
    cases isNoted with
    | false => rfl
    | true => exact List.insert_of_mem (kept List.mem_insert_self)
  unfold noteStatic
  dsimp only
  rw [noted _ _ _ staticFields, noted _ _ _ fieldSetters,
    noted _ _ _ superGetters]

/-- A static use stores a usage to which its access was made. -/
theorem registerStatic_stores {use : StaticUse} {reports : List MemberReport}
    (registered : world.registerStatic program use = .ok (final, reports)) :
    ∃ decl usage, program.member use.member = .ok decl ∧
      final = (world.noteStatic use decl).setUsage use.member usage ∧
      ∀ access, use.kind.access? = some access → usage.Made access := by
  simp only [registerStatic, bind_eq_ok_iff, pure_eq_ok_iff,
    Prod.mk.injEq] at registered
  obtain ⟨decl, fetched, rfl, -⟩ := registered
  refine ⟨decl, _, fetched, rfl, fun access accesses => ?_⟩
  simp only [accesses]
  exact MemberUsage.made_access _ (StaticUseKind.isOfUse_of_access? accesses)

/-- Storing a usage that is stored makes no difference. -/
theorem setUsage_of_stored {member : MemberId} {usage : MemberUsage}
    (stored : world.memberUsage.get? member = some usage) :
    world.setUsage member usage = world := by
  rw [setUsage, Table.insert_eq_self stored]

theorem registerStatic_again {use : StaticUse} {reports : List MemberReport}
    (registered : world.registerStatic program use = .ok (final, reports))
    (within : final.Within later) :
    later.registerStatic program use = .ok (later, [(use.member, {})]) := by
  obtain ⟨decl, _, fetched, rfl, isMade⟩ := registerStatic_stores registered
  have noted : later.noteStatic use decl = later :=
    noteStatic_again within.staticFields within.fieldSetters within.superGetters
  obtain ⟨usage, stored, grows⟩ := within.usages use.member _
    ((Table.get?_insert _ _ _ _).trans (if_pos rfl))
  have isUsage : later.usageOf use.member decl = usage := by
    simp [usageOf, Table.getD, stored]
  simp only [registerStatic, fetched, bind, Except.bind, noted, isUsage]
  cases accesses : use.kind.access? with
  | none =>
      dsimp only [MemberUsage.unchanged]
      rw [setUsage_of_stored stored]
      rfl
  | some access =>
      dsimp only
      rw [MemberUsage.access_of_made (StaticUseKind.isOfUse_of_access? accesses)
        ((isMade access accesses).mono grows), MemberUsage.unchanged,
        setUsage_of_stored stored]
      rfl

/-- A dynamic use whose receivers are known leads to nothing. -/
theorem registerDynamic_of_isKnown {use : DynamicUse}
    (known : world.isKnown use = true) :
    world.registerDynamic program live use = .ok (world, []) := by
  have notGrew : ((world.selectors.getD use.selector {}).add
      use.constraint).1 = false := by
    simpa [isKnown] using known
  have same := (ReceiverSet.mem_effective_of_not_grew notGrew).1
  obtain ⟨receivers, stored⟩ :
      ∃ receivers, world.selectors.get? use.selector = some receivers := by
    cases stored : world.selectors.get? use.selector with
    | some receivers => exact ⟨receivers, rfl⟩
    | none =>
        rw [Table.getD, stored, ReceiverSet.not_grew_iff] at notGrew
        simp at notGrew
  rw [Table.getD, stored] at notGrew same
  simp only [registerDynamic, Table.getD, stored, Option.getD_some] at notGrew same ⊢
  rw [notGrew, same, Table.insert_eq_self stored]
  rfl

/-- An instantiation that is recorded is not recorded again. -/
theorem record_of_known {instantiation : Instantiation}
    (known : instantiation ∈ world.instantiationsOf instantiation.type.cls)
    (direct : instantiation.type.cls ∈ world.direct)
    (isType : instantiation.type ∈ world.instantiatedTypes) :
    world.record instantiation = world := by
  unfold record
  dsimp only
  rw [if_pos known, List.insert_of_mem direct, List.insert_of_mem isType]

/-- A class that has instances is noted again without a report. -/
theorem noteInstantiated_again {chain : List ClassId}
    (instantiated : ∀ cls ∈ chain.head?, world.isInstantiated cls = true) :
    world.noteInstantiated chain = (world, []) := by
  cases chain with
  | nil => rfl
  | cons cls rest =>
      have isInstantiated := instantiated cls rfl
      rw [noteInstantiated_cons, if_pos isInstantiated]
      cases stored : world.classUsage.get? cls with
      | none => simp [World.isInstantiated, stored] at isInstantiated
      | some usage =>
          have noted : usage.pending.instantiated = false := by
            simpa [World.isInstantiated, stored, ClassUsage.isInstantiated] using
              isInstantiated
          have same : (world.classUsage.getD cls {}).instantiate.2 = usage := by
            rw [Table.getD, stored, Option.getD_some, ClassUsage.instantiate,
              ← noted]
          unfold markInstantiated
          rw [same, Table.insert_eq_self stored]

/-- What is known of a type once its instantiation has been registered. -/
structure Instantiated (world : World) (program : Program)
    (instantiation : Instantiation) : Prop where
  recorded : instantiation ∈ world.instantiationsOf instantiation.type.cls
  direct : instantiation.type.cls ∈ world.direct
  isType : instantiation.type ∈ world.instantiatedTypes
  entered : ∃ chain,
    program.superclassChain instantiation.type.cls = .ok chain ∧
      ∀ cls ∈ chain.head?, world.isInstantiated cls = true

theorem Instantiated.mono {instantiation : Instantiation}
    (instantiated : world.Instantiated program instantiation)
    (within : world.Within later) :
    later.Instantiated program instantiation := by
  obtain ⟨chain, walked, entered⟩ := instantiated.entered
  refine ⟨(within.instantiations _).subset instantiated.recorded,
    within.direct instantiated.direct, within.instantiatedTypes
      instantiated.isType, chain, walked, fun cls isHead => ?_⟩
  exact mem_instantiatedClasses.1 (within.instantiatedClasses
    (mem_instantiatedClasses.2 (entered cls isHead)))

theorem instantiated_noteInstantiated {instantiation : Instantiation}
    {chain : List ClassId}
    (walked : program.superclassChain instantiation.type.cls = .ok chain) :
    ((world.record instantiation).noteInstantiated chain).1.Instantiated program
      instantiation := by
  refine ⟨?_, ?_, ?_, chain, walked, ?_⟩
  · rw [noteInstantiated_frame]
    exact (mem_instantiationsOf_record world _ _ _).2 (.inr ⟨rfl, rfl⟩)
  · rw [noteInstantiated_frame]
    exact List.mem_insert_self
  · rw [noteInstantiated_frame]
    exact List.mem_insert_self
  · intro cls isHead
    cases chain with
    | nil => cases isHead
    | cons first rest =>
        obtain rfl := Option.some.inj isHead
        have marked : ((world.record instantiation).markInstantiated
            first).isInstantiated first = true := by simp
        rw [noteInstantiated_cons]
        split
        · exact marked
        · exact isInstantiated_noteInstantiated rest marked

theorem instantiated_of_registerInstantiation {type : InterfaceType}
    {constructor : Option MemberId} {flags : InstantiationFlags}
    {reports : List ClassReport}
    (registered : world.registerInstantiation program type constructor flags =
      .ok (final, reports)) :
    ∃ decl, program.cls type.cls = .ok decl ∧ type.cls ∈ final.implemented ∧
      (decl.createsInstances flags = true → final.Instantiated program {
        constructor, type
        isAbstract := decl.isAbstract
        isRedirection := flags.redirection }) := by
  have implemented : ∀ created creation,
      (if type.cls ∈ created.implemented then
        pure (created, creation)
      else do
        let above ← program.supertypes type.cls
        pure ((created.noteImplemented (type.cls :: above)).1,
          creation ++ (created.noteImplemented (type.cls :: above)).2) :
        Except Failure (World × List ClassReport)) = .ok (final, reports) →
      type.cls ∈ final.implemented ∧ created.Within final := by
    intro created creation finished
    split at finished
    · rename_i isImplemented
      obtain ⟨rfl, -⟩ := Prod.mk.inj (pure_eq_ok_iff.1 finished)
      exact ⟨isImplemented, .refl _⟩
    · simp only [bind_eq_ok_iff, pure_eq_ok_iff, Prod.mk.injEq] at finished
      obtain ⟨above, -, rfl, -⟩ := finished
      exact ⟨(mem_implemented_noteImplemented _ _ _).2
        (.inr List.mem_cons_self), within_noteImplemented _ _⟩
  simp only [registerInstantiation, bind_eq_ok_iff] at registered
  obtain ⟨decl, fetched, registered⟩ := registered
  split at registered
  · rename_i creates
    rw [bind_eq_ok_iff] at registered
    obtain ⟨chain, walked, finished⟩ := registered
    obtain ⟨isImplemented, within⟩ := implemented _ _ finished
    exact ⟨decl, fetched, isImplemented, fun _ =>
      (instantiated_noteInstantiated walked).mono within⟩
  · rename_i createsNot
    obtain ⟨isImplemented, -⟩ := implemented _ _ registered
    exact ⟨decl, fetched, isImplemented, fun creates =>
      absurd creates createsNot⟩

theorem registerInstantiation_again {type : InterfaceType}
    {constructor : Option MemberId} {flags : InstantiationFlags}
    {reports : List ClassReport}
    (registered : world.registerInstantiation program type constructor flags =
      .ok (final, reports)) (within : final.Within later) :
    later.registerInstantiation program type constructor flags =
      .ok (later, []) := by
  obtain ⟨decl, fetched, isImplemented, instantiated⟩ :=
    instantiated_of_registerInstantiation registered
  have stillImplemented := within.implemented isImplemented
  cases creates : decl.createsInstances flags with
  | false =>
      simp only [registerInstantiation, fetched, creates, bind, Except.bind,
        Bool.false_eq_true, if_false, pure, Except.pure, stillImplemented,
        if_true]
  | true =>
      have known := (instantiated creates).mono within
      obtain ⟨chain, walked, entered⟩ := known.entered
      have same := record_of_known known.recorded known.direct known.isType
      simp only [registerInstantiation, fetched, creates, bind, Except.bind,
        if_true, walked, pure, Except.pure, same, noteInstantiated_again entered,
        stillImplemented]

end World

namespace Scope

variable {scope : Scope} {program : Program} {world later final : World}

theorem registerStatic_again {use : StaticUse} {reports : List MemberReport}
    (registered : scope.registerStatic program use world =
      .ok (final, reports)) (within : final.Within later) :
    ∃ silence, scope.registerStatic program use later = .ok (later, silence) ∧
      silence.flatMap Task.ofMemberReport = [] := by
  cases scope with
  | resolution =>
      unfold registerStatic at registered ⊢
      dsimp only at registered ⊢
      split at registered
      · cases registered
      · rename_i resolves
        rw [if_neg resolves]
        exact ⟨_, World.registerStatic_again registered within, rfl⟩
  | codegen closed =>
      unfold registerStatic at registered ⊢
      dsimp only at registered ⊢
      split at registered
      · rename_i isLive
        rw [if_pos isLive]
        split at registered
        · rename_i inlines
          obtain ⟨rfl, -⟩ := Prod.mk.inj (Except.ok.inj registered)
          refine ⟨[], ?_, rfl⟩
          rw [if_pos inlines,
            List.insert_of_mem (within.inlined List.mem_insert_self)]
        · rename_i accesses
          rw [if_neg accesses]
          exact ⟨_, World.registerStatic_again registered within, rfl⟩
      · simp only [bind_eq_ok_iff] at registered
        obtain ⟨display, -, impossible⟩ := registered
        cases impossible

/-- A dynamic use makes its receivers known, in either phase. -/
theorem precedes_registerDynamic {use : DynamicUse}
    {reports : List MemberReport}
    (registered : scope.registerDynamic program use world =
      .ok (final, reports)) :
    world.Precedes final ∧ final.isKnown use = true := by
  simp only [registerDynamic, bind_eq_ok_iff, Prod.exists] at registered
  obtain ⟨noted, told, isNoted, finished⟩ := registered
  have known := (World.isKnown_registerDynamic isNoted).1
  have precedes := World.precedes_registerDynamic isNoted
  cases scope with
  | resolution =>
      obtain ⟨rfl, -⟩ := Prod.mk.inj (pure_eq_ok_iff.1 finished)
      exact ⟨precedes, known⟩
  | codegen closed =>
      simp only [bind_eq_ok_iff, pure_eq_ok_iff, Prod.mk.injEq] at finished
      obtain ⟨_, devirtualized, rfl, -⟩ := finished
      have within := within_devirtualize devirtualized
      obtain ⟨table, rfl⟩ := devirtualize_same devirtualized
      have further := World.Precedes.of_selectors within rfl
      exact ⟨precedes.trans further, further.known use known⟩

/-- The target of a dynamic use is looked for again only if there is none. -/
theorem devirtualize_again {closed : ClosedWorld} {use : DynamicUse}
    (devirtualized : devirtualize closed program use world = .ok final)
    (within : final.Within later) :
    devirtualize closed program use later = .ok later := by
  unfold devirtualize
  split
  · rfl
  · rename_i isNew
    have absent : final.devirtualized.get? use = none := by
      cases stored : final.devirtualized.get? use with
      | none => rfl
      | some target =>
          have kept := within.devirtualized use target stored
          simp [Table.contains, kept] at isNew
    unfold devirtualize at devirtualized
    split at devirtualized
    · rename_i contained
      obtain rfl := Except.ok.inj devirtualized
      simp [Table.contains, absent] at contained
    · simp only [bind_eq_ok_iff] at devirtualized
      obtain ⟨target?, sought, noted⟩ := devirtualized
      split at noted
      · obtain rfl := pure_eq_ok_iff.1 noted
        simp at absent
      · rw [sought]
        rfl

theorem registerDynamic_again {use : DynamicUse} {reports : List MemberReport}
    (registered : scope.registerDynamic program use world =
      .ok (final, reports)) (precedes : final.Precedes later) :
    scope.registerDynamic program use later = .ok (later, []) := by
  have known := (precedes_registerDynamic registered).2
  have repeated : later.registerDynamic program scope.live use =
      .ok (later, []) :=
    World.registerDynamic_of_isKnown (precedes.known use known)
  simp only [registerDynamic, bind_eq_ok_iff, Prod.exists] at registered
  obtain ⟨noted, told, -, finished⟩ := registered
  simp only [registerDynamic, repeated, bind, Except.bind]
  cases scope with
  | resolution => rfl
  | codegen closed =>
      simp only [bind_eq_ok_iff, pure_eq_ok_iff, Prod.mk.injEq] at finished
      obtain ⟨_, devirtualized, rfl, -⟩ := finished
      dsimp only
      rw [devirtualize_again devirtualized precedes.toWithin]
      rfl

theorem registerInstantiation_again {type : InterfaceType}
    {constructor : Option MemberId} {flags : InstantiationFlags}
    {reports : List ClassReport}
    (registered : scope.registerInstantiation program type constructor flags
      world = .ok (final, reports)) (within : final.Within later) :
    scope.registerInstantiation program type constructor flags later =
      .ok (later, []) := by
  cases scope with
  | resolution => exact World.registerInstantiation_again registered within
  | codegen closed =>
      unfold registerInstantiation at registered ⊢
      dsimp only at registered ⊢
      rw [bind_eq_ok_iff] at registered
      obtain ⟨decl, fetched, registered⟩ := registered
      generalize isKnown : (if decl.createsInstances flags = true then
        closed.isInstantiated type.cls else closed.isImplemented type.cls) =
          known at registered
      cases known with
      | true =>
          refine bind_eq_ok_iff.2 ⟨decl, fetched, ?_⟩
          rw [isKnown]
          exact World.registerInstantiation_again registered within
      | false =>
          simp only [Bool.false_eq_true, if_false, bind_eq_ok_iff] at registered
          obtain ⟨display, -, impossible⟩ := registered
          cases impossible

end Scope

end TreeShaking
