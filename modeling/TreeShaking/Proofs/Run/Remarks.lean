import TreeShaking.Proofs.Account.Marks
import TreeShaking.Proofs.Run.Records

/-!
# The remarks of an exploration

A use leaves remarks in the world when it is registered: a type literal, a field
that is set, a method torn off the superclass, a static field referred to.  The
history determines them (`Remarks`), and it says what is certain about the marks
in the usages of members (`Marks`).  The members noted as used are those that
have been in the queue or were passed over (`Queued`).
-/

namespace TreeShaking

open Outcome World

/-- Whether a static use sets a field. -/
def StaticUseKind.setsField : StaticUseKind → Bool
  | .fieldSet | .superFieldSet => true
  | _ => false

/-- Whether a static use refers to a field. -/
def StaticUseKind.refersToField : StaticUseKind → Bool
  | .fieldGet | .fieldSet => true
  | _ => false

/-- A member is declared to be static. -/
def Program.HasStatic (program : Program) (member : MemberId) : Prop :=
  ∃ decl, program.member member = .ok decl ∧ decl.isStatic = true

/-- A member is declared to be a static field. -/
def Program.HasStaticField (program : Program) (member : MemberId) : Prop :=
  ∃ decl, program.member member = .ok decl ∧ decl.isField = true ∧
    decl.isStatic = true

/-- Two worlds have the same remarks. -/
structure World.SameRemarks (before after : World) : Prop where
  typeLiterals : after.typeLiterals = before.typeLiterals
  fieldSetters : after.fieldSetters = before.fieldSetters
  superGetters : after.superGetters = before.superGetters
  staticFields : after.staticFields = before.staticFields
  used : after.used = before.used

namespace Exploration

variable {σ : Type} {setting : Setting σ} {routine : Routine}
  {history news : List Use} {task : Task} {work tasks : List Task}
  {stage nextStage : Stage} {e next : Exploration σ}

/-! ### Marks -/

/-- The marks in the world agree with the history and the entered classes. -/
def Marks (setting : Setting σ) (history : List Use) (e : Exploration σ) :
    Prop :=
  e.world.Traced setting.program setting.scope.live
    (.ofRun setting.program history e.processedClasses)

theorem Marks.of_same (marks : Marks setting history e)
    (same : next.world.memberUsage = e.world.memberUsage)
    (entered : next.processedClasses = e.processedClasses) :
    Marks setting history next := by
  rw [Marks, entered]
  exact World.Traced.mono marks ⟨fun _ => id, fun _ => id, fun _ _ => id⟩
    (fun _ _ => id) same

theorem Marks.static {use : StaticUse} {world : World}
    {reports : List MemberReport} (marks : Marks setting history e)
    (books : Books setting history e)
    (registered : setting.scope.registerStatic setting.program use e.world =
      .ok (world, reports)) :
    Marks setting (history ++ [.static use]) { e with world } := by
  rw [Marks, Evidence.ofRun_static]
  rcases Scope.registerStatic_cases registered with
    ⟨inlining, -, rfl⟩ | ⟨inliningNot, registered⟩
  · refine World.Traced.mono marks (Evidence.within_withStatic _ use) ?_ rfl
    rintro member access ⟨other, told | rfl, names, accesses⟩
    · exact ⟨other, told, names, accesses⟩
    · rw [inlining] at accesses
      cases accesses
  · cases accesses : use.kind.access? with
    | none =>
        cases kind : use.kind <;> simp_all [StaticUseKind.access?]
    | some access =>
        exact World.Traced.registerStatic marks books.orderly accesses registered

theorem Marks.effect (marks : Marks setting history e)
    (books : Books setting history e)
    (effect : Effect setting e task tasks next) :
    Marks setting (history ++ task.noticed setting) next := by
  cases effect with
  | static admitted registered =>
      rw [noticed_of_admitted admitted]
      exact marks.static books registered
  | dynamic admitted registered =>
      obtain ⟨noted, table, notes, rfl⟩ :=
        Scope.registerDynamic_cases registered
      have traced := World.Traced.registerDynamic marks books notes
      rw [noticed_of_admitted admitted, Marks, Evidence.ofRun_dynamic]
      exact traced.mono ⟨fun _ => id, fun _ => id, fun _ _ => id⟩
        (fun _ _ => id) rfl
  | entered entered =>
      simp only [Task.noticed, List.append_nil, Marks, Evidence.ofRun_insert]
      exact World.Traced.enterClass marks books entered
  | refused refused =>
      simp only [Task.noticed, refused, Bool.false_eq_true, if_false,
        List.append_nil]
      exact marks
  | creation admitted | untested admitted | test admitted | literal admitted =>
      rw [noticed_of_admitted admitted, Marks, Evidence.ofRun_type]
      exact marks.of_same rfl rfl
  | enlisted used | skipped used =>
      simp only [registerUsed, bind_eq_ok_iff, pure_eq_ok_iff] at used
      obtain ⟨decl, -, rfl⟩ := used
      simp only [Task.noticed, List.append_nil]
      exact marks.of_same rfl rfl
  | instantiated registered =>
      simp only [Task.noticed, List.append_nil]
      exact marks.of_same (same_of_instantiation registered).1.memberUsage rfl
  | closurized | superfluous | demanded | announced | unapplied | applied
  | released =>
      simp only [Task.noticed, List.append_nil]
      exact marks.of_same rfl rfl

theorem marks_of_fresh (world : e.world = {})
    (entered : e.processedClasses = []) : Marks setting [] e := by
  have fresh := traced_empty setting.program setting.scope.live
  have nothing : Evidence.ofRun setting.program [] [] = .none := by
    simp [Evidence.ofRun, Evidence.none]
  rw [Marks, world, entered, nothing]
  exact fresh

/-! ### Remarks -/

/-- The remarks in the world are those of the uses in the history.  A static
field that is used counts as referred to. -/
structure Remarks (setting : Setting σ) (history : List Use)
    (e : Exploration σ) : Prop where
  typeLiterals : ∀ type, type ∈ e.world.typeLiterals ↔
    .type ⟨.typeLiteral, type⟩ ∈ history
  fieldSetters : ∀ member, member ∈ e.world.fieldSetters ↔
    ∃ use, .static use ∈ history ∧ use.member = member ∧
      use.kind.setsField = true
  superGetters : ∀ member, member ∈ e.world.superGetters ↔
    ∃ use, .static use ∈ history ∧ use.member = member ∧
      use.kind = .superTearOff
  staticFields : ∀ member, member ∈ e.world.staticFields ↔
    (∃ use, .static use ∈ history ∧ use.member = member ∧
      use.kind.refersToField = true ∧ setting.program.HasStatic member) ∨
    member ∈ e.world.used ∧ setting.program.HasStaticField member

/-- Uses that leave no remark may be noticed. -/
theorem Remarks.kept (remarks : Remarks setting history e)
    (same : SameRemarks e.world next.world)
    (literals : ∀ type, .type ⟨.typeLiteral, type⟩ ∉ news)
    (statics : ∀ use, .static use ∈ news → use.kind = .inlining) :
    Remarks setting (history ++ news) next := by
  have noSetter : ∀ use, .static use ∈ news → use.kind.setsField = false := by
    intro use told
    rw [statics use told]
    rfl
  have noTearOff : ∀ use, .static use ∈ news → use.kind ≠ .superTearOff := by
    intro use told
    rw [statics use told]
    simp
  have noReference : ∀ use, .static use ∈ news →
      use.kind.refersToField = false := by
    intro use told
    rw [statics use told]
    rfl
  constructor
  · intro type
    rw [same.typeLiterals, remarks.typeLiterals, List.mem_append]
    rw [or_iff_left (literals type)]
  · intro member
    rw [same.fieldSetters, remarks.fieldSetters]
    grind
  · intro member
    rw [same.superGetters, remarks.superGetters]
    grind
  · intro member
    rw [same.staticFields, same.used, remarks.staticFields]
    grind

theorem Remarks.static {use : StaticUse} {world : World}
    {reports : List MemberReport} (remarks : Remarks setting history e)
    (registered : e.world.registerStatic setting.program use =
      .ok (world, reports)) :
    Remarks setting (history ++ [.static use]) { e with world } := by
  simp only [World.registerStatic, bind_eq_ok_iff, pure_eq_ok_iff,
    Prod.mk.injEq] at registered
  obtain ⟨decl, declared, rfl, -⟩ := registered
  constructor
  · intro type
    simp only [setUsage, noteStatic, remarks.typeLiterals, List.mem_append,
      List.mem_singleton, reduceCtorEq, or_false]
  · intro member
    simp only [setUsage, noteStatic]
    have sets : (use.kind == .fieldSet || use.kind == .superFieldSet) =
        use.kind.setsField := by
      cases use.kind <;> rfl
    rw [sets]
    have known := remarks.fieldSetters member
    cases isSetter : use.kind.setsField with
    | false => grind
    | true =>
        simp only [if_true, List.mem_insert_iff, known]
        grind
  · intro member
    simp only [setUsage, noteStatic]
    have known := remarks.superGetters member
    cases isTearOff : (use.kind == .superTearOff) with
    | false => grind
    | true =>
        simp only [if_true, List.mem_insert_iff, known]
        grind
  · intro member
    simp only [setUsage, noteStatic]
    have refers : (use.kind == .fieldGet || use.kind == .fieldSet) =
        use.kind.refersToField := by
      cases use.kind <;> rfl
    have static_iff : setting.program.HasStatic use.member ↔
        decl.isStatic = true := by
      constructor
      · rintro ⟨found, isFound, isStatic⟩
        rw [declared] at isFound
        cases isFound
        exact isStatic
      · intro isStatic
        exact ⟨decl, declared, isStatic⟩
    rw [refers]
    have known := remarks.staticFields member
    cases isReference : (decl.isStatic && use.kind.refersToField) with
    | false => grind
    | true =>
        simp only [if_true, List.mem_insert_iff, known]
        grind

theorem Remarks.enlist {member : MemberId} {world : World}
    (remarks : Remarks setting history e)
    (used : e.world.registerUsed setting.program member = .ok world)
    (same : next.world = world) : Remarks setting history next := by
  simp only [registerUsed, bind_eq_ok_iff, pure_eq_ok_iff] at used
  obtain ⟨decl, declared, rfl⟩ := used
  have field_iff : setting.program.HasStaticField member ↔
      (decl.isField && decl.isStatic) = true := by
    rw [Bool.and_eq_true]
    constructor
    · rintro ⟨found, isFound, rest⟩
      rw [declared] at isFound
      cases isFound
      exact rest
    · intro rest
      exact ⟨decl, declared, rest⟩
  refine ⟨?_, ?_, ?_, fun other => ?_⟩
  · rw [same]
    exact remarks.typeLiterals
  · rw [same]
    exact remarks.fieldSetters
  · rw [same]
    exact remarks.superGetters
  · have known := remarks.staticFields other
    rw [same]
    dsimp only
    cases isField : (decl.isField && decl.isStatic) with
    | false => grind
    | true =>
        simp only [if_true, List.mem_insert_iff, known]
        grind

theorem Remarks.effect (remarks : Remarks setting history e)
    (books : Books setting history e)
    (effect : Effect setting e task tasks next) :
    Remarks setting (history ++ task.noticed setting) next := by
  cases effect with
  | static admitted registered =>
      rw [noticed_of_admitted admitted]
      rcases Scope.registerStatic_cases registered with
        ⟨inlining, -, rfl⟩ | ⟨-, registered⟩
      · exact remarks.kept ⟨rfl, rfl, rfl, rfl, rfl⟩ (by simp) (by simp [inlining])
      · exact remarks.static registered
  | dynamic admitted registered =>
      obtain ⟨noted, table, notes, rfl⟩ :=
        Scope.registerDynamic_cases registered
      obtain ⟨-, -, frame⟩ := World.Balanced.registerDynamic books notes
      rw [noticed_of_admitted admitted]
      refine remarks.kept ?_ (by simp) (by simp)
      rw [frame]
      exact ⟨rfl, rfl, rfl, rfl, rfl⟩
  | entered entered =>
      obtain ⟨-, -, frame⟩ := World.Balanced.enterClass books entered
      refine remarks.kept ?_ (by simp [Task.noticed]) (by simp [Task.noticed])
      rw [frame]
      exact ⟨rfl, rfl, rfl, rfl, rfl⟩
  | instantiated registered =>
      have frame := registerInstantiation_frame
        (Scope.registerInstantiation_within registered)
      refine remarks.kept ?_ (by simp [Task.noticed]) (by simp [Task.noticed])
      rw [frame]
      exact ⟨rfl, rfl, rfl, rfl, rfl⟩
  | @literal use admitted isLiteral =>
      rw [noticed_of_admitted admitted]
      obtain ⟨kind, type⟩ := use
      obtain rfl : kind = .typeLiteral := isLiteral
      constructor
      · intro other
        simp only [registerTypeLiteral, List.mem_insert_iff,
          remarks.typeLiterals, List.mem_append, List.mem_singleton]
        grind
      · simpa [registerTypeLiteral] using remarks.fieldSetters
      · simpa [registerTypeLiteral] using remarks.superGetters
      · simpa [registerTypeLiteral] using remarks.staticFields
  | enlisted used | skipped used =>
      simp only [Task.noticed, List.append_nil]
      exact remarks.enlist used rfl
  | @creation use type flags admitted creates =>
      rw [noticed_of_admitted admitted]
      refine remarks.kept ⟨rfl, rfl, rfl, rfl, rfl⟩ ?_ (by simp)
      intro other listed
      obtain rfl := Use.type.inj (List.mem_singleton.1 listed)
      cases creates
  | @test use tested admitted isTest =>
      rw [noticed_of_admitted admitted]
      refine remarks.kept ⟨rfl, rfl, rfl, rfl, rfl⟩ ?_ (by simp)
      intro other listed
      obtain rfl := Use.type.inj (List.mem_singleton.1 listed)
      cases isTest
  | @untested use admitted isUntested =>
      rw [noticed_of_admitted admitted]
      refine remarks.kept ⟨rfl, rfl, rfl, rfl, rfl⟩ ?_ (by simp)
      intro other listed
      obtain rfl := Use.type.inj (List.mem_singleton.1 listed)
      cases isUntested.1
  | refused refused =>
      simp only [Task.noticed, refused, Bool.false_eq_true, if_false,
        List.append_nil]
      exact remarks
  | superfluous | demanded | closurized | announced | unapplied | applied
  | released =>
      exact remarks.kept ⟨rfl, rfl, rfl, rfl, rfl⟩ (by simp [Task.noticed])
        (by simp [Task.noticed])

theorem Remarks.turn (remarks : Remarks setting history e)
    (turn : Turn setting routine e stage work nextStage next) :
    Remarks setting history next := by
  have same : SameRemarks e.world next.world := by
    cases turn <;> exact ⟨rfl, rfl, rfl, rfl, rfl⟩
  have kept : Remarks setting (history ++ []) next :=
    remarks.kept same (by simp) (by simp)
  rwa [List.append_nil] at kept

theorem remarks_of_fresh (world : e.world = {}) : Remarks setting [] e := by
  constructor <;> simp [world]

/-! ### Used members -/

/-- The well-formed members noted as used have been in the queue. -/
def Queued (setting : Setting σ) (stage : Stage) (e : Exploration σ) : Prop :=
  ∀ member, setting.program.isMalformed member = false →
    (member ∈ e.world.used ↔ member ∈ e.queue ∨
      stage.member? = some member ∨ member ∈ e.world.processed)

theorem Queued.effect (queued : Queued setting stage e)
    (books : Books setting history e)
    (effect : Effect setting e task tasks next) :
    Queued setting stage next := by
  have processed := effect.processed_eq books
  have used := effect.used_eq books
  intro other wellFormed
  have known := queued other wellFormed
  cases effect with
  | @enlisted member decl world tally registered =>
      simp only [registerUsed, bind_eq_ok_iff, pure_eq_ok_iff] at registered
      obtain ⟨_, -, rfl⟩ := registered
      simp only [List.mem_insert_iff, List.mem_append, List.mem_singleton, known]
      grind
  | @skipped member decl world tally registered declared malformed =>
      simp only [registerUsed, bind_eq_ok_iff, pure_eq_ok_iff] at registered
      obtain ⟨_, -, rfl⟩ := registered
      have different : other ≠ member := by
        rintro rfl
        rw [Program.isMalformed_of_declared declared, malformed] at wellFormed
        cases wellFormed
      simpa [different] using known
  | refused | static | dynamic | creation | test | untested | literal
  | superfluous | demanded | closurized | announced | entered | instantiated
  | unapplied | applied | released =>
      rw [used (by simp), processed]
      exact known

theorem Queued.turn (queued : Queued setting stage e)
    (turn : Turn setting routine e stage work nextStage next) :
    Queued setting nextStage next := by
  intro other wellFormed
  have known := queued other wellFormed
  cases turn with
  | passed popped processed =>
      have listed := List.contains_iff_mem.1 processed
      rw [known, popped.mem_iff]
      simp only [List.mem_cons, Stage.member?]
      grind
  | taken popped unprocessed =>
      rw [known, popped.mem_iff]
      simp only [List.mem_cons, Stage.member?, Option.some.injEq]
      grind
  | finished =>
      simp only [Stage.member?, registerProcessed, List.mem_insert_iff,
        Option.some.injEq] at known ⊢
      grind
  | emptied | applying | imposed | putOff | closed | drained | carriedOut
  | allCarriedOut | resumed | settled => exact known

/-- When nothing is left to be done, the members noted as used are those whose
ordinary use is applied. -/
theorem Queued.mem_used_iff (queued : Queued setting .idle e)
    (lifecycle : Lifecycle setting history [] .idle e) (queue : e.queue = [])
    (member : MemberId) :
    member ∈ e.world.used ↔ (e.world.appliedTo member).normal = true := by
  have processed := lifecycle.mem_processed_iff queue member
  cases malformed : setting.program.isMalformed member with
  | false =>
      rw [queued member malformed, queue, processed]
      simp [Stage.member?, malformed]
  | true =>
      have known := lifecycle.places member
      have unprocessed : member ∉ e.world.processed := by
        rw [processed, malformed]
        simp
      simp only [Exploration.places, hasSkipped, List.countP_nil, queue,
        List.count_nil, Stage.member?, reduceCtorEq, decide_false, unprocessed,
        Bool.toNat_false, Nat.zero_add, malformed, Bool.and_true] at known
      cases normal : (e.world.appliedTo member).normal with
      | true => simpa [normal] using known
      | false => simpa [normal] using known

/-! ### All records -/

/-- All that is known about the records of an exploration. -/
structure Recorded (setting : Setting σ) (history : List Use)
    (work : List Task) (stage : Stage) (e : Exploration σ) : Prop
    extends Tracked setting history work stage e where
  creations : Creations setting history work e
  marks : Marks setting history e
  remarks : Remarks setting history e
  queued : Queued setting stage e

theorem recorded_invariant (built : setting.program.Built) (routine : Routine) :
    Invariant setting routine (Recorded setting) where
  step recorded effect := by
    have books := recorded.lifecycle.books
    exact
      { (tracked_invariant built routine).step recorded.toTracked effect with
        creations := recorded.creations.step books effect
        marks := recorded.marks.effect books effect
        remarks := recorded.remarks.effect books effect
        queued := recorded.queued.effect books effect }
  turn recorded turn :=
    { (tracked_invariant built routine).turn recorded.toTracked turn with
      creations := recorded.creations.turn turn
      marks := recorded.marks.of_same turn.sameMembers.1.memberUsage
        turn.sameMembers.2
      remarks := recorded.remarks.turn turn
      queued := recorded.queued.turn turn }

theorem recorded_enduring (built : setting.program.Built) :
    Enduring setting (Recorded setting) where
  invariant := recorded_invariant built
  begin := by
    intro history e next work stage recorded unconcerned resting world queue
      entered
    have idle : Stage.idle.member? = none := rfl
    refine
      { recorded.toTracked.begin unconcerned resting world queue entered with
        creations := ?_, marks := ?_, remarks := ?_, queued := ?_ }
    · refine recorded.creations.begin
        (fun task listed => (unconcerned task listed).2) ?_
      rw [world]
      exact ⟨rfl, rfl, rfl, rfl⟩
    · exact recorded.marks.of_same (by rw [world]) entered
    · have kept : Remarks setting (history ++ []) next := by
        refine recorded.remarks.kept ?_ (by simp) (by simp)
        rw [world]
        exact ⟨rfl, rfl, rfl, rfl, rfl⟩
      rwa [List.append_nil] at kept
    · intro member wellFormed
      rw [world, queue, resting, ← idle]
      exact recorded.queued member wellFormed

theorem recorded_of_fresh (fresh : e.IsFresh) :
    Recorded setting [] [] .idle e where
  toTracked := tracked_of_fresh fresh
  creations := creations_of_fresh fresh.world
  marks := marks_of_fresh fresh.world fresh.classes
  remarks := remarks_of_fresh fresh.world
  queued := by simp [Queued, fresh.world, fresh.queue, Stage.member?]

end Exploration

end TreeShaking
