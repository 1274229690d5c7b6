import TreeShaking.Proofs.Account.Enter
import TreeShaking.Proofs.Dispatch

/-!
# Questions that have an answer

Asking a program fails if a handle points outside the tables or if parameters
cannot be counted.  A program that was declared step by step and whose parameters
can be counted answers whatever an exploration asks about classes in the table,
as long as the receivers that count are in the table too.  So registering a
dynamic use, entering a class and computing the targets of a use succeed.
-/

namespace TreeShaking

open Outcome

/-! ### Members -/

/-- The parameters of all members can be counted. -/
def Program.Countable (program : Program) : Prop :=
  ∀ member decl, program.member member = .ok decl →
    ∃ total, decl.parameters.total = .ok total

theorem CallShape.succeeds_fits (shape : CallShape) {parameters : Parameters}
    (counted : ∃ total, parameters.total = .ok total) :
    Succeeds (shape.fits parameters) := by
  unfold fits
  split
  · exact .ok false
  · exact Succeeds.bind counted fun total _ => .pure _

theorem Selector.succeeds_appliesTo (selector : Selector) {decl : MemberDecl}
    (counted : ∃ total, decl.parameters.total = .ok total) :
    Succeeds (selector.appliesTo decl) := by
  unfold appliesTo
  split
  · exact .ok false
  · split
    · exact .ok _
    · exact .ok _
    · exact .ok _
    all_goals
      split
      · exact .ok true
      · exact .ok false
      · exact selector.shape.succeeds_fits counted

namespace Program

variable {program : Program}

/-- A member that a class provides belongs to a class in the table. -/
theorem Drafted.exists_owner_of_provides (drafted : program.Drafted)
    {cls : ClassId} {member : MemberId} {decl : MemberDecl}
    (provides : program.Provides cls member decl) :
    ∃ declarer classDecl, decl.owner = some declarer ∧
      program.cls declarer = .ok classDecl := by
  obtain ⟨members, listed, inherited, present, -, rfl, -⟩ := provides
  obtain ⟨all, isAll, inAll⟩ :=
    mem_inheritedMembers_of_mem_classMembers listed present
  simp only [inheritedMembers, bind_eq_ok_iff, pure_eq_ok_iff] at isAll
  obtain ⟨chain, walked, declared, computed, rfl⟩ := isAll
  obtain ⟨own, isOwn, inOwn⟩ := List.mem_flatten.1 inAll
  obtain ⟨declarer, onChain, declares⟩ := exists_element_of_mapM computed isOwn
  obtain ⟨rest, walkedRest, -⟩ := Hierarchy.chain_suffix walked onChain
  obtain ⟨classDecl, fetched⟩ := cls_of_superclassChain walkedRest
  exact ⟨declarer, classDecl, drafted.owner_of_declared declares inOwn, fetched⟩

theorem Drafted.succeeds_concreteMembers (drafted : program.Drafted)
    {cls : ClassId} {chain : List ClassId}
    (walked : program.superclassChain cls = .ok chain) :
    Succeeds (World.concreteMembers program cls) := by
  obtain ⟨declared, -, inherits⟩ := drafted.exists_inheritedMembers walked
  have listed : Succeeds (program.classMembers cls) :=
    Succeeds.bind ⟨_, inherits⟩ fun members _ => .pure _
  exact listed.bind fun members _ => .pure _

/-- A program that answers what is asked while an exploration counts the
instances of certain classes as receivers. -/
structure Answers (program : Program) (live : LiveClasses) : Prop where
  drafted : program.Drafted
  countable : program.Countable
  receivers : ∀ cls, isLive live cls = true →
    ∃ chain, program.superclassChain cls = .ok chain

end Program

/-! ### Receivers -/

variable {program : Program} {live : LiveClasses}

theorem Constraint.succeeds_canHit (answers : program.Answers live)
    (constraint : Constraint) {declarer : ClassId} {decl : ClassDecl}
    (fetched : program.cls declarer = .ok decl) :
    Succeeds (constraint.canHit program live declarer) := by
  cases asked : constraint.canHit program live declarer with
  | ok answer => exact .ok answer
  | error failure =>
      obtain ⟨cls, -, isReceiver, absent, -⟩ :=
        (canHit_eq_error_iff answers.drafted.built fetched).1 asked
      obtain ⟨chain, walked⟩ := answers.receivers cls isReceiver
      obtain ⟨known, isKnown⟩ := Program.cls_of_superclassChain walked
      rw [Program.cls, fetch_eq_error_iff.2 ⟨absent, rfl⟩] at isKnown
      cases isKnown

theorem ReceiverSet.succeeds_canHit (answers : program.Answers live)
    (receivers : ReceiverSet) {declarer : ClassId} {decl : ClassDecl}
    (fetched : program.cls declarer = .ok decl) :
    Succeeds (receivers.canHit program live declarer) := by
  rw [canHit_eq]
  exact Succeeds.anyM fun constraint _ =>
    constraint.succeeds_canHit answers fetched

namespace World

variable {world : World} {evidence : Evidence}

/-- Whether a selector reaches a member that some class provides can be told if
its receivers can be compared with classes in the table. -/
theorem succeeds_reaches (answers : program.Answers live) (selector : Selector)
    {hits : ClassId → Except Failure Bool} {cls : ClassId} {member : MemberId}
    {decl : MemberDecl} (provides : program.Provides cls member decl)
    (hitsSucceed : ∀ declarer classDecl, program.cls declarer = .ok classDecl →
      Succeeds (hits declarer)) :
    Succeeds (reaches selector hits decl) := by
  obtain ⟨declarer, classDecl, owner, fetched⟩ :=
    answers.drafted.exists_owner_of_provides provides
  have counted := answers.countable member decl provides.declared
  unfold reaches
  rw [owner]
  apply (selector.succeeds_appliesTo counted).bind
  intro applies _
  cases applies with
  | true => exact hitsSucceed declarer classDecl fetched
  | false => exact .pure false

/-! ### Dynamic uses -/

theorem succeeds_examine (answers : program.Answers live) (use : DynamicUse)
    {candidates : List MemberId}
    (provided : ∀ member ∈ candidates, ∃ decl cls,
      program.Provides cls member decl) :
    Succeeds (world.examine program live use candidates) := by
  induction candidates generalizing world with
  | nil => exact .ok _
  | cons member rest ih =>
      obtain ⟨decl, cls, provides⟩ := provided member List.mem_cons_self
      have restProvided : ∀ other ∈ rest, ∃ decl cls,
          program.Provides cls other decl :=
        fun other inRest => provided other (List.mem_cons_of_mem _ inRest)
      apply Succeeds.bind ⟨decl, provides.declared⟩
      intro found isFound
      rw [provides.declared] at isFound
      obtain rfl := Except.ok.inj isFound
      apply (succeeds_reaches answers use.selector provides
        fun declarer classDecl fetched =>
          use.constraint.succeeds_canHit answers fetched).bind
      intro reached _
      split
      · exact (ih restProvided).bind fun examined _ => .pure _
      · exact ih restProvided

/-- A dynamic use can be registered, since only members that some class provides
are filed. -/
theorem Orderly.succeeds_registerDynamic (answers : program.Answers live)
    (orderly : world.Orderly program live evidence)
    (met : ∀ member decl, evidence.met member decl →
      ∃ cls, program.Provides cls member decl) (use : DynamicUse) :
    Succeeds (world.registerDynamic program live use) := by
  have noted := orderly.note use
  have told : (evidence.withDynamic use).dynamics use := .inr rfl
  have provided : ∀ member decl, (evidence.withDynamic use).met member decl →
      ∃ decl cls, program.Provides cls member decl := by
    intro member decl isMet
    obtain ⟨cls, provides⟩ := met member decl isMet
    exact ⟨decl, cls, provides⟩
  unfold World.registerDynamic
  dsimp only
  split
  · have first : Succeeds ((world.note use).examine program live use
        (world.awaitingUse.getD use.selector.name.text [])) := by
      apply succeeds_examine answers use
      intro member filed
      obtain ⟨decl, isMet, -⟩ := noted.filed _ member (.inl filed)
      exact provided member decl isMet
    refine first.bind fun examination examined => ?_
    obtain ⟨middle, reports⟩ := examination
    obtain ⟨revises, -⟩ := noted.examine told
      (fun member filed => noted.filed _ member (.inl filed)) examined
    dsimp only
    split
    · have second : Succeeds (middle.examine program live use
          (middle.awaitingTearOff.getD use.selector.name.text [])) := by
        apply succeeds_examine answers use
        intro member filed
        obtain ⟨decl, isMet, -⟩ := revises.orderly.filed _ member (.inr filed)
        exact provided member decl isMet
      exact second.bind fun continuation _ => .pure _
    · exact .pure _
  · exact .pure _

/-! ### Entering a class -/

theorem succeeds_seek (answers : program.Answers live) {cls : ClassId}
    {member : MemberId} {decl : MemberDecl}
    (provides : program.Provides cls member decl) (kind : SelectorKind)
    (usage : MemberUsage) :
    Succeeds (world.seek program live decl kind usage) := by
  have sought : Succeeds (world.isSought program live kind decl) := by
    apply Succeeds.anyM
    intro entry _
    split
    · exact succeeds_reaches answers entry.1 provides
        fun declarer classDecl fetched =>
          entry.2.succeeds_canHit answers fetched
    · exact .ok false
  refine sought.bind fun found _ => ?_
  split
  · exact .pure _
  · exact .pure _

theorem succeeds_encounter (answers : program.Answers live) {cls : ClassId}
    {member : MemberId} {decl : MemberDecl}
    (provides : program.Provides cls member decl) :
    Succeeds (world.encounter program live member decl) := by
  unfold encounter
  dsimp only
  split
  · exact .pure _
  · refine (succeeds_seek answers provides .getter _).bind fun read _ => ?_
    refine (succeeds_seek answers provides .call _).bind fun invoked _ => ?_
    exact (succeeds_seek answers provides .setter _).bind fun written _ =>
      .pure _

theorem succeeds_visitAll (answers : program.Answers live)
    (rehearsal : Bool) {members : List Inherited}
    (provided : ∀ inherited ∈ members, ∃ cls,
      program.Provides cls inherited.member inherited.decl) :
    Succeeds (world.visitAll program live rehearsal members) := by
  induction members generalizing world with
  | nil => exact .ok _
  | cons head tail ih =>
      obtain ⟨cls, provides⟩ := provided head List.mem_cons_self
      refine (succeeds_encounter answers provides).bind fun outcome _ => ?_
      exact (ih fun inherited inTail =>
        provided inherited (List.mem_cons_of_mem _ inTail)).bind
          fun result _ => .pure _

variable {cls : ClassId} {chain : List ClassId}

theorem succeeds_visitClass (answers : program.Answers live)
    (rehearsal : Bool) (walked : program.superclassChain cls = .ok chain) :
    Succeeds (world.visitClass program live rehearsal cls) := by
  apply (answers.drafted.succeeds_concreteMembers walked).bind
  intro members listed
  apply succeeds_visitAll answers
  intro inherited present
  exact ⟨cls, (Program.provides_iff_of_concreteMembers listed).2
    ⟨inherited, present, rfl, rfl⟩⟩

/-! ### Instantiations -/

theorem succeeds_registerInstantiation (built : program.Built)
    {type : InterfaceType} {decl : ClassDecl}
    (fetched : program.cls type.cls = .ok decl)
    (constructor : Option MemberId) (flags : InstantiationFlags) :
    Succeeds (world.registerInstantiation program type constructor flags) := by
  obtain ⟨chain, walked⟩ := built.exists_superclassChain fetched
  obtain ⟨above, stored⟩ := built.exists_supertypes fetched
  unfold World.registerInstantiation
  rw [fetched]
  have second : ∀ (created : World) (creation : List ClassReport),
      Succeeds (if type.cls ∈ created.implemented then
        pure (created, creation)
      else do
        let above ← program.supertypes type.cls
        pure ((created.noteImplemented (type.cls :: above)).1,
          creation ++ (created.noteImplemented (type.cls :: above)).2) :
        Except Failure (World × List ClassReport)) := by
    intro created creation
    split
    · exact .pure _
    · exact Succeeds.bind ⟨above, stored⟩ fun _ _ => .pure _
  refine Succeeds.bind (.ok decl) fun found _ => ?_
  dsimp only
  split
  · exact Succeeds.bind ⟨chain, walked⟩ fun _ _ => second _ _
  · exact second _ _

end World

/-! ### Targets -/

/-- The targets of a use can be computed, so that it is known whether there is a
single one. -/
theorem Scope.succeeds_devirtualize {closed : ClosedWorld} {world : World}
    (drafted : program.Drafted) (countable : program.Countable)
    (walked : ∀ cls ∈ closed.direct, ∃ chain,
      program.superclassChain cls = .ok chain) (use : DynamicUse) :
    Succeeds (devirtualize closed program use world) := by
  have targets : Succeeds
      (closed.targetsOf program use.selector use.constraint) := by
    cases computed : closed.targetsOf program use.selector use.constraint with
    | ok found => exact .ok found
    | error failure =>
        obtain ⟨-, receiver, isDirect, member, decl, dispatches, overflows⟩ :=
          ClosedWorld.overflow_of_targetsOf drafted walked computed
        obtain ⟨applies, isApplicable⟩ := use.selector.succeeds_appliesTo
          (countable member decl dispatches.declared)
        rw [isApplicable] at overflows
        cases overflows
  have single : Succeeds
      (closed.singleTarget? program use.selector use.constraint) := by
    refine targets.bind fun found _ => ?_
    split
    · exact .pure _
    · exact .pure _
  unfold devirtualize
  split
  · exact .ok world
  · refine single.bind fun target _ => ?_
    split
    · exact .pure _
    · exact .pure _

end TreeShaking
