import TreeShaking.Proofs.LeastClosure
import TreeShaking.Proofs.Run.Remarks

/-!
# The order of the queue

Two explorations that differ only in the order in which they take members from
the queue take notice of the same uses: what either of them has found is closed
under the rules, and so contains what the other has found.  The records of both
follow from their histories, and hence they are the same.

The marks in the usages of fields are an exception.  A dynamic read and a dynamic
write of a field both consume its ordinary use, and the one that comes second
finds nothing to consume and leaves no mark, unless the field is met again later.
Such a mark is *contested*, and the order of the queue may decide about it.
-/

namespace TreeShaking

open Outcome

/-- A mark of a field that can be assigned is contested if some access leaves it,
some access leaves another mark, and no static use leaves it. -/
structure Evidence.Contests (evidence : Evidence) (program : Program)
    (live : LiveClasses) (member : MemberId) (mark : AccessMark) : Prop where
  isField : ∃ decl, program.member member = .ok decl ∧ decl.isAssignable = true
  left : ∃ access, evidence.Allows program live member access ∧
    MemberShape.field.marks access mark = true
  rivalled : ∃ access rival, evidence.Allows program live member access ∧
    rival ≠ mark ∧ MemberShape.field.marks access rival = true
  unnamed : ∀ access, evidence.Names member access →
    MemberShape.field.marks access mark = false

/-- Nothing but a read and a write is ever contested. -/
theorem Evidence.Contests.read_or_write {evidence : Evidence}
    {program : Program} {live : LiveClasses} {member : MemberId}
    {mark : AccessMark}
    (contests : evidence.Contests program live member mark) :
    mark = .read ∨ mark = .write := by
  obtain ⟨access, -, marks⟩ := contests.left
  cases mark with
  | read => exact .inl rfl
  | write => exact .inr rfl
  | init | invoke => cases access <;> cases marks

/-- Two usages are alike in everything but contested marks. -/
structure MemberUsage.AlikeBut (contested : AccessMark → Prop)
    (first second : MemberUsage) : Prop where
  shape : first.shape = second.shape
  pending : first.pending = second.pending
  applied : first.applied = second.applied
  isFullyUsed : first.isFullyUsed = second.isFullyUsed
  hasInit : first.hasInit = second.hasInit
  hasInvoke : first.hasInvoke = second.hasInvoke
  hasRead : ¬ contested .read → first.hasRead = second.hasRead
  hasWrite : ¬ contested .write → first.hasWrite = second.hasWrite

namespace World

/-- Two worlds have the same sets and records. -/
structure SameView (first second : World) : Prop where
  direct : ∀ cls, cls ∈ first.direct ↔ cls ∈ second.direct
  implemented : ∀ cls, cls ∈ first.implemented ↔ cls ∈ second.implemented
  classUses : ∀ cls, first.classUses cls = second.classUses cls
  instantiations : ∀ cls record, record ∈ first.instantiationsOf cls ↔
    record ∈ second.instantiationsOf cls
  instantiatedTypes : ∀ type, type ∈ first.instantiatedTypes ↔
    type ∈ second.instantiatedTypes
  isChecks : ∀ type, type ∈ first.isChecks ↔ type ∈ second.isChecks
  typeLiterals : ∀ type, type ∈ first.typeLiterals ↔ type ∈ second.typeLiterals
  closurized : ∀ member, member ∈ first.closurized ↔ member ∈ second.closurized
  processed : ∀ member, member ∈ first.processed ↔ member ∈ second.processed
  used : ∀ member, member ∈ first.used ↔ member ∈ second.used
  fieldSetters : ∀ member, member ∈ first.fieldSetters ↔
    member ∈ second.fieldSetters
  superGetters : ∀ member, member ∈ first.superGetters ↔
    member ∈ second.superGetters
  staticFields : ∀ member, member ∈ first.staticFields ↔
    member ∈ second.staticFields
  selectors : ∀ selector, selector ∈ first.usedSelectors ↔
    selector ∈ second.usedSelectors

end World

/-! ### Usages with the same evidence -/

theorem MemberShape.grants_of_marks {shape : MemberShape} {access : Access}
    {mark : AccessMark} (marks : shape.marks access mark = true) :
    shape.grants access .normal = true := by
  cases shape <;> cases access <;> cases mark <;>
    simp_all [MemberShape.marks, MemberShape.grants]

/-- The only mark that accesses leave in the usage of a final field, a getter or
a setter. -/
theorem MemberShape.mark_eq_of_marks {shape : MemberShape} {access : Access}
    {mark : AccessMark}
    (single : shape = .finalField ∨ shape = .getter ∨ shape = .setter)
    (marks : shape.marks access mark = true) :
    mark = if shape = .setter then .write else .read := by
  rcases single with rfl | rfl | rfl <;> cases access <;> cases mark <;>
    simp_all [MemberShape.marks]

theorem MemberDecl.isAssignable_iff_shape (decl : MemberDecl) :
    decl.isAssignable = true ↔ decl.shape = .field := by
  unfold isAssignable shape
  cases decl.kind with
  | field assignable => cases assignable <;> simp
  | function | method => cases decl.isInstanceMember <;> simp
  | getter | setter | constructor => simp

namespace MemberUsage

/-- For a function or a constructor the uses applied tell its marks. -/
theorem Coherent.mark_of_applied {usage : MemberUsage}
    (coherent : usage.Coherent) {access : Access} {mark : AccessMark}
    (isCode : usage.shape = .instanceFunction ∨ usage.shape = .staticFunction ∨
      usage.shape = .constructor)
    (marks : usage.shape.marks access mark = true)
    (applied : ∀ bit, usage.shape.grants access bit = true →
      usage.applied.has bit = true) :
    usage.mark mark = true := by
  have normal := applied .normal (MemberShape.grants_of_marks marks)
  have tornOff := applied .closurizeInstance
  have tornOffStatic := applied .closurizeStatic
  rw [has_applied, Bool.and_eq_true] at normal tornOff tornOffStatic
  unfold Coherent at coherent
  rcases isCode with shape | shape | shape <;>
    rw [shape] at coherent marks tornOff tornOffStatic <;>
    cases access <;> cases mark <;>
    simp_all [MemberUsage.mark, MemberUses.has, MemberShape.marks,
      MemberShape.grants]

theorem pending_has (usage : MemberUsage) (coherent : usage.Coherent)
    (bit : UseBit) :
    usage.pending.has bit =
      (usage.shape.potential.has bit && !usage.applied.has bit) := by
  have within := coherent.potential_of_pending bit
  rw [has_applied]
  cases pending : usage.pending.has bit with
  | true => simp [within pending]
  | false => simp

end MemberUsage

namespace World

variable {program : Program} {live : LiveClasses} {evidence : Evidence}
  {world first second : World}

/-- What is known about the usage of a member in a world with given evidence. -/
structure Known (program : Program) (live : LiveClasses) (evidence : Evidence)
    (world : World) : Prop where
  balanced : world.Balanced program live evidence
  traced : world.Traced program live evidence

/-- A member has a usage if it is named or met. -/
theorem Known.stored_iff (known : world.Known program live evidence)
    (member : MemberId) :
    (∃ usage, world.memberUsage.get? member = some usage) ↔
      (∃ access, evidence.Names member access) ∨
        ∃ decl, evidence.met member decl := by
  constructor
  · rintro ⟨usage, stored⟩
    exact known.traced.known member usage stored
  · rintro (⟨access, names⟩ | ⟨decl, met⟩)
    · obtain ⟨usage, stored, -⟩ := known.traced.named member access names
      exact ⟨usage, stored⟩
    · obtain ⟨-, -, usage, stored, -⟩ := known.balanced.orderly.met member decl met
      exact ⟨usage, stored⟩

/-- An access that is allowed applies what it grants. -/
theorem Known.applied_of_allows (known : world.Known program live evidence)
    {member : MemberId} {decl : MemberDecl} {access : Access} {bit : UseBit}
    (declared : program.member member = .ok decl)
    (allows : evidence.Allows program live member access)
    (grants : decl.shape.grants access bit = true) :
    (world.appliedTo member).has bit = true := by
  refine known.balanced.saturated member decl bit declared ?_
  cases allows with
  | named names =>
      obtain ⟨use, told, names, accesses⟩ := names
      exact .named use access told names accesses grants
  | reached use found told met reaches accesses =>
      have isFound := (known.balanced.orderly.met member found met).1
      rw [declared] at isFound
      cases isFound
      subst accesses
      exact .reached use told met reaches grants

/-- A mark that is not contested is there exactly if an access can have left
it. -/
theorem Known.mark_iff (known : world.Known program live evidence)
    {member : MemberId} {decl : MemberDecl} {usage : MemberUsage}
    (declared : program.member member = .ok decl)
    (stored : world.memberUsage.get? member = some usage) {mark : AccessMark}
    (uncontested : ¬ evidence.Contests program live member mark) :
    usage.mark mark = true ↔
      ∃ access, evidence.Allows program live member access ∧
        decl.shape.marks access mark = true := by
  have marked := known.traced.marked member usage stored
  obtain ⟨found, isFound, shape, coherent, -⟩ :=
    known.balanced.orderly.usages member usage stored
  rw [declared] at isFound
  cases isFound
  rw [← shape]
  refine ⟨marked.accounted mark, ?_⟩
  rintro ⟨access, allows, marks⟩
  have applied : ∀ bit, usage.shape.grants access bit = true →
      usage.applied.has bit = true := by
    intro bit grants
    have applied := known.applied_of_allows declared allows (shape ▸ grants)
    simpa [appliedTo, stored] using applied
  obtain ⟨shown, isShown⟩ :=
    marked.shown (applied .normal (MemberShape.grants_of_marks marks))
  obtain ⟨rival, rivalAllows, rivalMarks⟩ := marked.accounted shown isShown
  cases isShape : usage.shape with
  | instanceFunction | staticFunction | constructor =>
      exact coherent.mark_of_applied (by simp [isShape]) marks applied
  | finalField | getter | setter =>
      rwa [MemberShape.mark_eq_of_marks (by simp [isShape]) rivalMarks,
        ← MemberShape.mark_eq_of_marks (by simp [isShape]) marks] at isShown
  | field =>
      rw [isShape] at marks rivalMarks
      by_cases same : shown = mark
      · rwa [same] at isShown
      -- Another mark is there, so that a static use must have left this one.
      · by_contra unmarked
        refine uncontested ⟨⟨decl, declared, ?_⟩, ⟨access, allows, marks⟩,
          ⟨rival, shown, rivalAllows, same, rivalMarks⟩, ?_⟩
        · exact decl.isAssignable_iff_shape.2 (shape.symm.trans isShape)
        · intro other names
          obtain ⟨found, isFound, remembered⟩ :=
            known.traced.named member other names
          rw [stored] at isFound
          cases isFound
          cases otherMarks : MemberShape.field.marks other mark with
          | false => rfl
          | true => exact absurd (remembered mark (isShape ▸ otherMarks)) unmarked

/-- Two worlds with the same evidence have usages that are alike. -/
theorem Known.alike (known : first.Known program live evidence)
    (otherKnown : second.Known program live evidence) {member : MemberId}
    {usage other : MemberUsage}
    (stored : first.memberUsage.get? member = some usage)
    (otherStored : second.memberUsage.get? member = some other) :
    usage.AlikeBut (evidence.Contests program live member) other := by
  obtain ⟨decl, declared, shape, coherent, -⟩ :=
    known.balanced.orderly.usages member usage stored
  obtain ⟨found, isFound, otherShape, otherCoherent, -⟩ :=
    otherKnown.balanced.orderly.usages member other otherStored
  rw [declared] at isFound
  cases isFound
  have applied : ∀ bit, usage.applied.has bit = other.applied.has bit := by
    intro bit
    have applied := known.balanced.appliedTo_iff member bit
    have otherApplied := otherKnown.balanced.appliedTo_iff member bit
    simp only [appliedTo, stored, Option.map_some, Option.getD_some] at applied
    simp only [appliedTo, otherStored, Option.map_some, Option.getD_some]
      at otherApplied
    rw [Bool.eq_iff_iff, applied, otherApplied]
  have marks : ∀ {mark}, ¬ evidence.Contests program live member mark →
      usage.mark mark = other.mark mark := by
    intro mark uncontested
    rw [Bool.eq_iff_iff, known.mark_iff declared stored uncontested,
      otherKnown.mark_iff declared otherStored uncontested]
  have uncontestedInit : ¬ evidence.Contests program live member .init :=
    fun contests => by simpa using contests.read_or_write
  have uncontestedInvoke : ¬ evidence.Contests program live member .invoke :=
    fun contests => by simpa using contests.read_or_write
  have init : usage.hasInit = other.hasInit := marks uncontestedInit
  have invoke : usage.hasInvoke = other.hasInvoke := marks uncontestedInvoke
  constructor
  case shape => exact shape.trans otherShape.symm
  case pending =>
      refine MemberUses.ext_has fun bit => ?_
      rw [usage.pending_has coherent, other.pending_has otherCoherent, shape,
        otherShape, applied]
  case applied => exact MemberUses.ext_has applied
  case hasInit => exact init
  case hasInvoke => exact invoke
  case hasRead => exact marks
  case hasWrite => exact marks
  case isFullyUsed =>
      unfold MemberUsage.isFullyUsed
      rw [shape, otherShape]
      cases isShape : decl.shape with
      | field =>
          -- No use initialises a field, so that it is never fully used.
          have uninitialised : ¬ usage.mark .init = true := by
            rw [known.mark_iff declared stored uncontestedInit]
            rintro ⟨access, -, marks⟩
            rw [isShape] at marks
            cases access <;> cases marks
          have isFalse : usage.hasInit = false := by
            simpa [MemberUsage.mark] using uninitialised
          simp [← init, isFalse]
      | finalField | getter | setter | instanceFunction | staticFunction
      | constructor =>
          have uncontested : ∀ mark,
              ¬ evidence.Contests program live member mark := by
            intro mark contests
            obtain ⟨found, isFound, isAssignable⟩ := contests.isField
            rw [declared] at isFound
            cases isFound
            rw [decl.isAssignable_iff_shape, isShape] at isAssignable
            cases isAssignable
          have read : usage.hasRead = other.hasRead := marks (uncontested .read)
          have write : usage.hasWrite = other.hasWrite :=
            marks (uncontested .write)
          simp only [init, invoke, read, write]

/-- Two worlds with the same evidence have usages of the same members. -/
theorem Known.usages_alike (known : first.Known program live evidence)
    (otherKnown : second.Known program live evidence) (member : MemberId) :
    Option.Rel (MemberUsage.AlikeBut (evidence.Contests program live member))
      (first.memberUsage.get? member) (second.memberUsage.get? member) := by
  have present := (known.stored_iff member).trans
    (otherKnown.stored_iff member).symm
  cases stored : first.memberUsage.get? member with
  | none =>
      cases otherStored : second.memberUsage.get? member with
      | none => exact .none
      | some usage => simp [stored, otherStored] at present
  | some usage =>
      cases otherStored : second.memberUsage.get? member with
      | none => simp [stored, otherStored] at present
      | some usage => exact .some (known.alike otherKnown stored otherStored)

end World

/-! ### Two runs -/

/-- The same setting with the queue in some order. -/
def Setting.ordered {σ : Type} (setting : Setting σ) (order : QueueOrder) :
    Setting σ :=
  { setting with options := { setting.options with queueOrder := order } }

/-- Of the options, the rules depend on type assertions only. -/
theorem Problem.Closes.withOptions {problem : Problem} {live : LiveClasses}
    {holds : Fact → Prop} (closes : problem.Closes live holds)
    {options : Options}
    (same : options.typeAssertions = problem.options.typeAssertions) :
    Problem.Closes { problem with options } live holds :=
  { closes with
    isCheck := by
      intro use tested told isTest unaliased
      refine closes.isCheck told ?_ unaliased
      cases kind : use.kind <;> simp_all [TypeUseKind.isTest] }

namespace Exploration

variable {σ : Type} {setting : Setting σ} {problem : Problem}
  {serving : σ → Bool → Prop} {e final : Exploration σ}

/-- Open the queue, apply an impact and process members until nothing is left to
be done, each in at most the given number of steps. -/
def wholeRun (policy : ImpactPolicy) (main : Option MemberId)
    (libraries : List LibraryId) (entry : Impact) (steps : Nat) :
    List (Nat × Operation) :=
  [(steps, .start policy main libraries), (steps, .apply entry none),
    (steps, .forEach applying)]

/-- All that is known about a run that has come to its end. -/
structure Concluded (problem : Problem) (setting : Setting σ)
    (serving : σ → Bool → Prop) (history : List Use) (e : Exploration σ) :
    Prop where
  resolving : Resolving problem setting serving
    ((Backend.helperImpact problem.support).uses ++ problem.entry.uses) history
    [] .idle e
  recorded : Recorded setting history [] .idle e
  queue : e.queue = []

theorem concluded_of_wholeRun {policy : ImpactPolicy} {main : Option MemberId}
    {libraries : List LibraryId} {steps : Nat} (posed : problem.SetIn setting)
    (built : setting.program.Built)
    (listens : setting.listener.Serves problem.support serving)
    (fresh : e.IsFresh) (serves : serving e.listener false)
    (stored : setting.source.impactOf e.cache = problem.impactOf)
    (performed : performAll setting
      (wholeRun policy main libraries problem.entry steps) e = .ok final) :
    Concluded problem setting serving (noticedAll setting
      (wholeRun policy main libraries problem.entry steps) e) final := by
  have recorded := (recorded_enduring built).performAll
    (recorded_of_fresh fresh) performed
  simp only [wholeRun, performAll, perform, bind_eq_ok_iff] at performed
  obtain ⟨opened, started, entered, applied, ran⟩ := performed
  obtain ⟨_, ran, finished⟩ := ran
  cases finished
  obtain ⟨resolving, settled⟩ := exploring_of_run posed built listens fresh
    serves stored started applied ran
  exact ⟨resolving, by simpa using recorded, queue_of_isSettled settled⟩

variable {first second : Exploration σ} {history otherHistory : List Use}
  {other : Problem} {otherSetting : Setting σ}

/-- What one run has found, another has found whose problem has the same
rules. -/
theorem Concluded.finds_of_finds
    (concluded : Concluded problem setting serving history first)
    (otherConcluded : Concluded other otherSetting serving otherHistory second)
    (posed : problem.SetIn setting) (otherPosed : other.SetIn otherSetting)
    (closes : ∀ holds, other.Closes otherSetting.scope.live holds →
      problem.Closes setting.scope.live holds)
    {fact : Fact} (found : Finds history first fact) :
    Finds otherHistory second fact := by
  have model := otherConcluded.resolving.closes_finds otherPosed
    otherConcluded.queue
  exact concluded.resolving.holds_of_finds posed concluded.queue
    (closes _ model) found

/-- Two runs that have found the same have the same view of the program. -/
theorem Concluded.sameView
    (concluded : Concluded problem setting serving history first)
    (otherConcluded : Concluded other otherSetting serving otherHistory second)
    (program : otherSetting.program = setting.program)
    (agree : ∀ fact, Finds history first fact ↔
      Finds otherHistory second fact) :
    first.world.SameView second.world := by
  have told : ∀ use, use ∈ history ↔ use ∈ otherHistory :=
    fun use => agree (.registered use)
  have applied : ∀ member bit, (first.world.appliedTo member).has bit = true ↔
      (second.world.appliedTo member).has bit = true :=
    fun member bit => agree (.applied member bit)
  have records : ∀ cls record, record ∈ first.world.instantiationsOf cls ↔
      record ∈ second.world.instantiationsOf cls := by
    intro cls record
    rw [concluded.recorded.creations.mem_instantiationsOf_iff,
      otherConcluded.recorded.creations.mem_instantiationsOf_iff, program]
    simp only [told]
  have used : ∀ member, member ∈ first.world.used ↔
      member ∈ second.world.used := by
    intro member
    rw [concluded.recorded.queued.mem_used_iff concluded.recorded.lifecycle
        concluded.queue,
      otherConcluded.recorded.queued.mem_used_iff
        otherConcluded.recorded.lifecycle otherConcluded.queue]
    exact applied member .normal
  constructor
  case direct => exact fun cls => agree (.direct cls)
  case implemented => exact fun cls => agree (.implemented cls)
  case classUses =>
      intro cls
      have entered := agree (.instantiated cls)
      have implemented : cls ∈ first.world.implemented ↔
          cls ∈ second.world.implemented := agree (.implemented cls)
      simp only [Finds, concluded.recorded.classes.mem_processedClasses_iff,
        otherConcluded.recorded.classes.mem_processedClasses_iff] at entered
      rw [concluded.recorded.creations.agree.classUses_eq,
        otherConcluded.recorded.creations.agree.classUses_eq,
        Bool.eq_iff_iff.2 entered, decide_eq_decide.2 implemented]
  case instantiations => exact records
  case instantiatedTypes =>
      intro type
      rw [concluded.recorded.creations.agree.types,
        otherConcluded.recorded.creations.agree.types]
      simp only [records]
  case isChecks => exact fun type => agree (.isCheck type)
  case typeLiterals =>
      intro type
      rw [concluded.recorded.remarks.typeLiterals,
        otherConcluded.recorded.remarks.typeLiterals, told]
  case closurized => exact fun member => agree (.closurized member)
  case processed => exact fun member => agree (.processed member)
  case used => exact used
  case fieldSetters =>
      intro member
      rw [concluded.recorded.remarks.fieldSetters,
        otherConcluded.recorded.remarks.fieldSetters]
      simp only [told]
  case superGetters =>
      intro member
      rw [concluded.recorded.remarks.superGetters,
        otherConcluded.recorded.remarks.superGetters]
      simp only [told]
  case staticFields =>
      intro member
      rw [concluded.recorded.remarks.staticFields,
        otherConcluded.recorded.remarks.staticFields, program]
      simp only [told, used]
  case selectors => exact fun selector => agree (.selector selector)

/-- Two runs that have found the same have usages that are alike. -/
theorem Concluded.usages_alike
    (concluded : Concluded problem setting serving history first)
    (otherConcluded : Concluded other otherSetting serving otherHistory second)
    (program : otherSetting.program = setting.program)
    (scope : otherSetting.scope = setting.scope)
    (agree : ∀ fact, Finds history first fact ↔
      Finds otherHistory second fact) (member : MemberId) :
    Option.Rel (MemberUsage.AlikeBut
        ((Evidence.ofRun setting.program history
          first.processedClasses).Contests setting.program setting.scope.live
            member))
      (first.world.memberUsage.get? member)
      (second.world.memberUsage.get? member) := by
  have same : Evidence.ofRun setting.program otherHistory
      second.processedClasses =
        .ofRun setting.program history first.processedClasses := by
    have told := fun use => agree (.registered use)
    have entered := fun cls => agree (.instantiated cls)
    simp only [Finds] at told entered
    simp only [Evidence.ofRun, told, entered]
  have known : first.world.Known setting.program setting.scope.live
      (.ofRun setting.program history first.processedClasses) :=
    ⟨concluded.recorded.lifecycle.books, concluded.recorded.marks⟩
  have otherKnown : second.world.Known setting.program setting.scope.live
      (.ofRun setting.program history first.processedClasses) := by
    rw [← same, ← program, ← scope]
    exact ⟨otherConcluded.recorded.lifecycle.books,
      otherConcluded.recorded.marks⟩
  exact known.usages_alike otherKnown member

/-- The order of the queue shows in contested marks only: two explorations that
differ in it take notice of the same uses and end with the same classes, class
uses, records, type tests, literals, members, remarks and selectors, and with
usages that are alike in everything but the contested marks of fields. -/
theorem queueOrder_shows_in_contested_marks_only {setting : Setting σ}
    {initial : σ} {support : RuntimeSupport} {cache : ImpactCache}
    {entry : Impact} {policy : ImpactPolicy} {main : Option MemberId}
    {libraries : List LibraryId} {order otherOrder : QueueOrder}
    {steps otherSteps : Nat} {first second : Exploration σ}
    (strategy : setting.strategy = .treeShaking)
    (built : setting.program.Built)
    (standard : setting.listener.Standard initial support)
    (ran : performAll (setting.ordered order)
      (wholeRun policy main libraries entry steps)
      { listener := initial, cache } = .ok first)
    (otherRan : performAll (setting.ordered otherOrder)
      (wholeRun policy main libraries entry otherSteps)
      { listener := initial, cache } = .ok second) :
    let history := noticedAll (setting.ordered order)
      (wholeRun policy main libraries entry steps) { listener := initial, cache }
    let contested := (Evidence.ofRun setting.program history
      first.processedClasses).Contests setting.program setting.scope.live
    (∀ use, use ∈ history ↔ use ∈ noticedAll (setting.ordered otherOrder)
      (wholeRun policy main libraries entry otherSteps)
      { listener := initial, cache }) ∧
    (∀ cls, cls ∈ first.processedClasses ↔ cls ∈ second.processedClasses) ∧
    first.world.SameView second.world ∧
    ∀ member, Option.Rel (MemberUsage.AlikeBut (contested member))
      (first.world.memberUsage.get? member)
      (second.world.memberUsage.get? member) := by
  intro history contested
  obtain ⟨serving, listens, serves⟩ := standard.serves
  have posed : ∀ order, ((setting.ordered order).problem support cache
      entry).SetIn (setting.ordered order) :=
    fun order => ⟨rfl, rfl, strategy⟩
  have concluded := concluded_of_wholeRun (posed order) built listens
    ⟨rfl, rfl, rfl, rfl⟩ serves rfl ran
  have otherConcluded := concluded_of_wholeRun (posed otherOrder) built listens
    ⟨rfl, rfl, rfl, rfl⟩ serves rfl otherRan
  have agree : ∀ fact, Finds history first fact ↔ Finds _ second fact :=
    fun fact => ⟨
      concluded.finds_of_finds otherConcluded (posed order) (posed otherOrder)
        fun holds closes => closes.withOptions rfl,
      otherConcluded.finds_of_finds concluded (posed otherOrder) (posed order)
        fun holds closes => closes.withOptions rfl⟩
  exact ⟨fun use => agree (.registered use), fun cls => agree (.instantiated cls),
    concluded.sameView otherConcluded rfl agree,
    concluded.usages_alike otherConcluded rfl rfl agree⟩

/-- A class with a field, a function that creates an instance of it and a
function that reads and writes the field of any receiver. -/
def raceSteps : List Draft.Step := [
  .library "app",
  .cls ⟨0⟩ "A" none,
  .function ⟨0⟩ "main" {},
  .function ⟨0⟩ "create" {},
  .function ⟨0⟩ "access" {},
  .classMember ⟨0⟩ "f" (.field true)]

def raceProgram : Program where
  names := .ofTexts #["", "app", "A", "main", "create", "access", "f"]
  libraries := #[{ name := ⟨1⟩ }]
  classes := #[
    { name := ⟨2⟩, library := ⟨0⟩, superclass := none, members := [⟨3⟩] }]
  members := #[
    { name := ⟨3⟩, library := ⟨0⟩, owner := none, kind := .function
      isStatic := true },
    { name := ⟨4⟩, library := ⟨0⟩, owner := none, kind := .function
      isStatic := true },
    { name := ⟨5⟩, library := ⟨0⟩, owner := none, kind := .function
      isStatic := true },
    { name := ⟨6⟩, library := ⟨0⟩, owner := some ⟨0⟩, kind := .field true }]
  typedefs := #[]
  supertypeTable := #[[]]
  subclassTable := #[[⟨0⟩]]

theorem raceProgram_drafted : raceProgram.Drafted :=
  ⟨raceSteps, _, rfl, rfl⟩

/-- The entry point uses both functions. -/
def raceSetting : Setting Unit where
  program := raceProgram
  scope := .resolution
  strategy := .treeShaking
  listener := .silent
  source := .table (.ofList [
    (⟨0⟩, { statics := [⟨.general, ⟨1⟩, none⟩, ⟨.general, ⟨2⟩, none⟩] }),
    (⟨1⟩, { types := [⟨.instantiation, .interface ⟨0⟩ []⟩] }),
    (⟨2⟩, { dynamics := [⟨.getter ⟨⟨6⟩, none⟩, .unconstrained⟩,
      ⟨.setter ⟨⟨6⟩, none⟩, .unconstrained⟩] })])
  options := {}

def raceRun : List (Nat × Operation) :=
  wholeRun .retaining (some ⟨0⟩) [] { statics := [⟨.general, ⟨0⟩, none⟩] } 60

theorem queueOrder_hides_in_race :
    ∃ first second,
      performAll (raceSetting.ordered .lifo) raceRun { listener := () } =
        .ok first ∧
      performAll (raceSetting.ordered .fifo) raceRun { listener := () } =
        .ok second ∧
      first.world.SameView second.world ∧
      Option.Rel (MemberUsage.AlikeBut ((Evidence.ofRun raceProgram
          (noticedAll (raceSetting.ordered .lifo) raceRun { listener := () })
          first.processedClasses).Contests raceProgram none ⟨3⟩))
        (first.world.memberUsage.get? ⟨3⟩)
        (second.world.memberUsage.get? ⟨3⟩) := by
  obtain ⟨first, second, ran, otherRan⟩ :
      ∃ first second,
        performAll (raceSetting.ordered .lifo) raceRun { listener := () } =
          .ok first ∧
        performAll (raceSetting.ordered .fifo) raceRun { listener := () } =
          .ok second :=
    ⟨_, _, rfl, rfl⟩
  obtain ⟨-, -, view, usages⟩ := queueOrder_shows_in_contested_marks_only rfl
    raceProgram_drafted.built .silent ran otherRan
  exact ⟨first, second, ran, otherRan, view, usages ⟨3⟩⟩

/-- The order of the queue decides whether the field counts as written. -/
theorem queueOrder_decides_race :
    ∃ first second,
      performAll (raceSetting.ordered .lifo) raceRun { listener := () } =
        .ok first ∧
      performAll (raceSetting.ordered .fifo) raceRun { listener := () } =
        .ok second ∧
      (first.world.memberUsage.get? ⟨3⟩).map MemberUsage.hasWrite =
        some true ∧
      (second.world.memberUsage.get? ⟨3⟩).map MemberUsage.hasWrite =
        some false :=
  ⟨_, _, rfl, rfl, rfl, rfl⟩

end Exploration

end TreeShaking
