import Mathlib.Algebra.BigOperators.Group.List.Basic
import Mathlib.Algebra.GroupWithZero.Nat
import Mathlib.Data.Prod.Lex
import Mathlib.Order.WellFounded
import TreeShaking.Proofs.Closure.Soundness
import TreeShaking.Proofs.Run.Operations

/-!
# Explorations come to an end

In general a listener can keep an exploration busy forever.  One that serves the
runtime cannot.  A program has finitely many members and classes, so that a
world can learn only finitely often that one of them is used in a new way
(`World.ignorance`).  Whatever follows from this may be any amount of work.  All
other steps, and the turns of the loop over the queue, make the work that is left
lighter (`Scale.load`).

Work is weighed so that each task outweighs what follows from it.  A member
outweighs what is done with it when it is taken from the queue.  The loop goes
through its stages downwards, and what makes it start over has been charged for
that in advance.
-/

namespace TreeShaking

open Outcome World

namespace Exploration

variable {σ : Type} {setting : Setting σ} {routine : Routine}
  {history : List Use} {task : Task} {agenda work tasks : List Task}
  {stage nextStage : Stage} {e next : Exploration σ}

/-! ### Running out of steps -/

/-- More steps make no difference to what has come to an end. -/
theorem workOff_of_le {steps more : Nat}
    (ended : workOff setting steps agenda e ≠ .error .outOfSteps)
    (le : steps ≤ more) :
    workOff setting more agenda e = workOff setting steps agenda e := by
  induction steps generalizing more agenda e with
  | zero =>
      cases agenda with
      | nil => cases more <;> rfl
      | cons task agenda => exact absurd rfl ended
  | succ steps ih =>
      cases agenda with
      | nil => cases more <;> rfl
      | cons task agenda =>
          obtain ⟨further, rfl⟩ : ∃ further, more = further + 1 :=
            ⟨more - 1, by omega⟩
          rw [workOff] at ended
          rw [workOff, workOff]
          cases stepped : e.step setting task with
          | error failure => rfl
          | ok progress =>
              rw [stepped] at ended
              exact ih ended (by omega)

/-- Working off an agenda comes to an end, with a result or with a failure. -/
def Ends (setting : Setting σ) (agenda : List Task) (e : Exploration σ) : Prop :=
  ∃ steps, workOff setting steps agenda e ≠ .error .outOfSteps

theorem ends_cons
    (ends : ∀ tasks next, e.step setting task = .ok (tasks, next) →
      Ends setting (tasks ++ agenda) next) :
    Ends setting (task :: agenda) e := by
  cases stepped : e.step setting task with
  | error failure =>
      refine ⟨1, ?_⟩
      rw [workOff, stepped]
      simp
  | ok progress =>
      obtain ⟨tasks, next⟩ := progress
      obtain ⟨steps, ended⟩ := ends tasks next stepped
      refine ⟨steps + 1, ?_⟩
      rw [workOff, stepped]
      exact ended

/-- An exploration comes to an end if its steps and turns descend. -/
theorem Invariant.ends
    {holds : List Use → List Task → Stage → Exploration σ → Prop}
    (invariant : Invariant setting routine holds)
    (measure : List Task → Stage → Exploration σ → Nat ×ₗ Nat)
    (stepDescends : ∀ {history : List Use} {task : Task} {work : List Task}
      {stage : Stage} {e : Exploration σ} {tasks : List Task}
      {next : Exploration σ}, holds history (task :: work) stage e →
        Effect setting e task tasks next →
          measure (tasks ++ work) stage next < measure (task :: work) stage e)
    (turnDescends : ∀ {history : List Use} {stage : Stage} {e : Exploration σ}
      {work : List Task} {nextStage : Stage} {next : Exploration σ},
      holds history [] stage e →
        Turn setting routine e stage work nextStage next →
          measure work nextStage next < measure [] stage e)
    (start : holds history work stage e)
    (isPlain : ∀ task ∈ work, task.isPlain = true) :
    Ends setting (work ++ stage.tasks routine) e := by
  induction level : measure work stage e using WellFoundedLT.induction
    generalizing history work stage e with
  | ind level ih =>
      subst level
      cases work with
      | cons task work =>
          rw [List.cons_append]
          apply ends_cons
          intro tasks next stepped
          have effect := effect_of_step (isPlain task List.mem_cons_self) stepped
          rw [← List.append_assoc]
          exact ih _ (stepDescends start effect) (invariant.step start effect)
            (effect.isPlain_append isPlain) rfl
      | nil =>
          rw [List.nil_append]
          cases remaining : stage.tasks routine with
          | nil => exact ⟨0, fun stopped => by cases stopped⟩
          | cons task rest =>
              apply ends_cons
              intro tasks next stepped
              obtain ⟨work, nextStage, turn, same⟩ :=
                turn_of_step remaining stepped
              rw [same]
              exact ih _ (turnDescends start turn) (invariant.turn start turn)
                turn.isPlain rfl

/-- An exploration that can always go on comes to a result if it comes to an
end. -/
theorem Invariant.succeeds
    {holds : List Use → List Task → Stage → Exploration σ → Prop}
    (invariant : Invariant setting routine holds)
    (stepSucceeds : ∀ {history : List Use} {task : Task} {work : List Task}
      {stage : Stage} {e : Exploration σ}, holds history (task :: work) stage e →
        (∀ other ∈ task :: work, other.isPlain = true) →
          Succeeds (e.step setting task))
    (turnSucceeds : ∀ {history : List Use} {stage : Stage} {e : Exploration σ}
      {task : Task} {rest : List Task}, holds history [] stage e →
        stage.tasks routine = task :: rest → Succeeds (e.step setting task))
    (start : holds history work stage e)
    (isPlain : ∀ task ∈ work, task.isPlain = true) {steps : Nat}
    (ended : Exploration.workOff setting steps (work ++ stage.tasks routine) e ≠
      .error .outOfSteps) :
    Succeeds
      (Exploration.workOff setting steps (work ++ stage.tasks routine) e) := by
  induction steps generalizing history work stage e with
  | zero =>
      cases agenda : work ++ stage.tasks routine with
      | nil => exact .ok e
      | cons task rest =>
          rw [agenda] at ended
          exact absurd rfl ended
  | succ steps ih =>
      cases work with
      | cons task work =>
          obtain ⟨⟨tasks, next⟩, stepped⟩ := stepSucceeds start isPlain
          have effect := effect_of_step (isPlain task List.mem_cons_self) stepped
          rw [List.cons_append, Exploration.workOff, stepped] at ended
          rw [List.cons_append, Exploration.workOff, stepped]
          dsimp only at ended ⊢
          rw [← List.append_assoc] at ended ⊢
          exact ih (invariant.step start effect) (effect.isPlain_append isPlain)
            ended
      | nil =>
          rw [List.nil_append] at ended ⊢
          cases remaining : stage.tasks routine with
          | nil => exact .ok e
          | cons task rest =>
              obtain ⟨⟨tasks, next⟩, stepped⟩ := turnSucceeds start remaining
              obtain ⟨work, nextStage, turn, same⟩ :=
                turn_of_step remaining stepped
              rw [remaining, Exploration.workOff, stepped] at ended
              rw [Exploration.workOff, stepped]
              dsimp only at ended ⊢
              rw [same] at ended ⊢
              exact ih (invariant.turn start turn) turn.isPlain ended

/-- Given enough steps, an exploration that can always go on and comes to an end
comes to a result, and more steps do not change it. -/
theorem Invariant.exists_result
    {holds : List Use → List Task → Stage → Exploration σ → Prop}
    (invariant : Invariant setting routine holds)
    (stepSucceeds : ∀ {history : List Use} {task : Task} {work : List Task}
      {stage : Stage} {e : Exploration σ}, holds history (task :: work) stage e →
        (∀ other ∈ task :: work, other.isPlain = true) →
          Succeeds (e.step setting task))
    (turnSucceeds : ∀ {history : List Use} {stage : Stage} {e : Exploration σ}
      {task : Task} {rest : List Task}, holds history [] stage e →
        stage.tasks routine = task :: rest → Succeeds (e.step setting task))
    (start : holds history work stage e)
    (isPlain : ∀ task ∈ work, task.isPlain = true)
    (ends : Ends setting (work ++ stage.tasks routine) e) :
    ∃ bound final, ∀ steps, bound ≤ steps →
      Exploration.workOff setting steps (work ++ stage.tasks routine) e =
        .ok final := by
  obtain ⟨bound, ended⟩ := ends
  obtain ⟨final, isFinal⟩ :=
    invariant.succeeds stepSucceeds turnSucceeds start isPlain ended
  refine ⟨bound, final, fun steps le => ?_⟩
  rw [workOff_of_le ended le, isFinal]

end Exploration

/-! ### What is left to be learnt -/

theorem countP_lt_countP {α : Type} {list : List α} {fewer more : α → Bool}
    (implies : ∀ element ∈ list, fewer element = true → more element = true)
    {element : α} (listed : element ∈ list) (passes : more element = true)
    (fails : fewer element = false) :
    list.countP fewer < list.countP more := by
  induction list with
  | nil => cases listed
  | cons head tail ih =>
      have tailImplies : ∀ other ∈ tail, fewer other = true →
          more other = true :=
        fun other inTail => implies other (List.mem_cons_of_mem _ inTail)
      have tailLe := List.countP_mono_left tailImplies
      rcases List.mem_cons.1 listed with rfl | inTail
      · rw [List.countP_cons_of_pos passes,
          List.countP_cons_of_neg (by simp [fails])]
        omega
      · have tailLt := ih tailImplies inTail
        have headImplies := implies head List.mem_cons_self
        rw [List.countP_cons, List.countP_cons]
        cases now : fewer head with
        | true =>
            rw [headImplies now]
            omega
        | false =>
            simp only [Bool.false_eq_true, if_false]
            omega

/-- What a world can learn about the members and classes of a program. -/
def Program.learnable (program : Program) : List Fact :=
  program.memberIds.flatMap (fun member =>
      [.applied member .normal, .applied member .closurizeInstance,
        .applied member .closurizeStatic]) ++
    program.classIds.flatMap (fun cls => [.instantiated cls, .implemented cls])

namespace Program

variable {program : Program}

theorem mem_memberIds {member : MemberId} {decl : MemberDecl}
    (declared : program.member member = .ok decl) :
    member ∈ program.memberIds := by
  rw [Program.member, fetch_eq_ok_iff, Array.getElem?_eq_some_iff] at declared
  exact Handle.mem_upTo.2 declared.1

theorem mem_classIds {cls : ClassId} {decl : ClassDecl}
    (fetched : program.cls cls = .ok decl) : cls ∈ program.classIds := by
  rw [Program.cls, fetch_eq_ok_iff, Array.getElem?_eq_some_iff] at fetched
  exact Handle.mem_upTo.2 fetched.1

theorem applied_mem_learnable {member : MemberId} {decl : MemberDecl}
    (declared : program.member member = .ok decl) (bit : UseBit) :
    .applied member bit ∈ program.learnable := by
  have listed := mem_memberIds declared
  apply List.mem_append_left
  rw [List.mem_flatMap]
  exact ⟨member, listed, by cases bit <;> simp⟩

theorem class_mem_learnable {cls : ClassId} {decl : ClassDecl}
    (fetched : program.cls cls = .ok decl) :
    .instantiated cls ∈ program.learnable ∧
      .implemented cls ∈ program.learnable := by
  have listed := mem_classIds fetched
  constructor
  · apply List.mem_append_right
    exact List.mem_flatMap.2 ⟨cls, listed, by simp⟩
  · apply List.mem_append_right
    exact List.mem_flatMap.2 ⟨cls, listed, by simp⟩

theorem Built.cls_of_supertypes (built : program.Built) {cls : ClassId}
    {found : List ClassId} (stored : program.supertypes cls = .ok found) :
    ∃ decl, program.cls cls = .ok decl := by
  have climbed := built.supertypes_eq stored
  simp only [Hierarchy.supertypes, Hierarchy.climb, bind_eq_ok_iff] at climbed
  obtain ⟨-, ⟨decl, fetched, -⟩, -⟩ := climbed
  exact ⟨decl, fetched⟩

end Program

namespace World

variable {program : Program} {before after : World}

/-- Whether a world has learnt that a member or a class is used in some way. -/
def knows (world : World) : Fact → Bool
  | .applied member bit => (world.appliedTo member).has bit
  | .instantiated cls => world.isInstantiated cls
  | .implemented cls => world.isImplemented cls
  | _ => true

/-- How much a world has not learnt. -/
def ignorance (world : World) (program : Program) : Nat :=
  program.learnable.countP fun fact => !world.knows fact

/-- The second world knows what the first one knows. -/
def Remembers (before after : World) : Prop :=
  ∀ fact, before.knows fact = true → after.knows fact = true

theorem Remembers.ignorance_le (remembers : Remembers before after)
    (program : Program) :
    after.ignorance program ≤ before.ignorance program := by
  apply List.countP_mono_left
  intro fact _ unknown
  cases known : before.knows fact with
  | false => rfl
  | true => simp [remembers fact known] at unknown

theorem Remembers.ignorance_lt (remembers : Remembers before after) {fact : Fact}
    (listed : fact ∈ program.learnable) (unknown : before.knows fact = false)
    (learnt : after.knows fact = true) :
    after.ignorance program < before.ignorance program := by
  apply countP_lt_countP _ listed
  · simp [unknown]
  · simp [learnt]
  · intro other _ stillUnknown
    cases known : before.knows other with
    | false => rfl
    | true => simp [remembers other known] at stillUnknown

/-! Members and classes do not depend on each other here. -/

theorem remembers_of_grows {reports : List MemberReport}
    (grows : Grows before after reports) (same : SameClasses before after) :
    Remembers before after := by
  intro fact known
  cases fact with
  | applied member bit => exact grows.applied known
  | instantiated cls =>
      rw [knows, same.isInstantiated]
      exact known
  | implemented cls =>
      rw [knows, isImplemented, same.implemented]
      exact known
  | registered | direct | processed | closurized | selector | isCheck => rfl

theorem remembers_of_same (members : SameMembers before after)
    (classes : SameClasses before after) : Remembers before after :=
  remembers_of_grows (.of_same_usage members.memberUsage) classes

theorem Instantiates.remembers {cls : ClassId} {flags : InstantiationFlags}
    {reports : List ClassReport}
    (instantiates : Instantiates before after program cls flags reports) :
    Remembers before after := by
  intro fact known
  cases fact with
  | applied member bit =>
      rw [knows, appliedTo, instantiates.frame]
      exact known
  | instantiated other => exact (instantiates.instantiated other).2 (.inl known)
  | implemented other =>
      have old : other ∈ before.implemented := List.contains_iff_mem.1 known
      exact List.contains_iff_mem.2 ((instantiates.implemented other).2 (.inl old))
  | registered | direct | processed | closurized | selector | isCheck => rfl

/-- A member about which something is reported is used in a new way. -/
theorem Learns.ignorance_lt {live : LiveClasses} {evidence : Evidence}
    {reports : List MemberReport}
    (learns : Learns before after program live evidence reports)
    (told : reports.flatMap Task.ofMemberReport ≠ []) :
    after.ignorance program < before.ignorance program := by
  obtain ⟨task, listed⟩ := List.exists_mem_of_ne_nil _ told
  obtain ⟨report, isReport, bit, has⟩ : ∃ report ∈ reports, ∃ bit,
      report.2.has bit = true := by
    obtain ⟨report, isReport, ⟨has, -⟩ | ⟨has, -⟩ | ⟨has, -⟩⟩ :=
      Task.eq_of_mem_ofMemberReport listed
    · exact ⟨report, isReport, .normal, has⟩
    · exact ⟨report, isReport, .closurizeInstance, has⟩
    · exact ⟨report, isReport, .closurizeStatic, has⟩
  have learnt := learns.grows.applied_of_reported isReport has
  have unknown : (before.appliedTo report.1).has bit = false := by
    have balance := learns.grows report.1 bit
    have positive : 0 < tellings reports report.1 bit :=
      List.countP_pos_iff.2 ⟨report, isReport, by simp [has]⟩
    cases known : (before.appliedTo report.1).has bit with
    | false => rfl
    | true =>
        rw [known, learnt] at balance
        simp only [Bool.toNat_true] at balance
        omega
  obtain ⟨decl, declared, -⟩ :=
    (learns.balanced.appliedTo_iff report.1 bit).1 learnt
  exact (remembers_of_grows learns.grows
    learns.elsewhere.sameClasses).ignorance_lt
    (Program.applied_mem_learnable declared bit) unknown learnt

/-- A class about which something is reported is used in a new way. -/
theorem Instantiates.ignorance_lt {cls : ClassId} {flags : InstantiationFlags}
    {reports : List ClassReport} (built : program.Built)
    (instantiates : Instantiates before after program cls flags reports)
    (told : reports.flatMap Task.ofClassReport ≠ []) :
    after.ignorance program < before.ignorance program := by
  obtain ⟨task, listed⟩ := List.exists_mem_of_ne_nil _ told
  obtain ⟨report, isReport, ⟨has, -⟩ | ⟨has, -⟩⟩ :=
    Task.eq_of_mem_ofClassReport listed
  · have balance := instantiates.tellings report.1
    have positive : 0 < instanceTellings reports report.1 :=
      List.countP_pos_iff.2 ⟨report, isReport, by simp [has]⟩
    have bound := Bool.toNat_le (after.isInstantiated report.1)
    have learnt : after.isInstantiated report.1 = true := by
      cases now : after.isInstantiated report.1 with
      | true => rfl
      | false =>
          rw [now, Bool.toNat_false] at balance
          omega
    have unknown : before.isInstantiated report.1 = false := by
      cases known : before.isInstantiated report.1 with
      | false => rfl
      | true =>
          rw [known, Bool.toNat_true] at balance
          omega
    obtain ⟨chain, walked, -⟩ := instantiates.closed.chains report.1 learnt
    obtain ⟨decl, fetched⟩ := Program.cls_of_superclassChain walked
    exact instantiates.remembers.ignorance_lt
      (Program.class_mem_learnable fetched).1 unknown learnt
  · obtain ⟨isNew, isImplemented⟩ :=
      instantiates.announced report isReport has
    obtain ⟨found, stored, -⟩ :=
      instantiates.closed.supertypes report.1 isImplemented
    obtain ⟨decl, fetched⟩ := built.cls_of_supertypes stored
    have unknown : before.isImplemented report.1 = false := by
      simpa [World.isImplemented] using isNew
    have learnt : after.isImplemented report.1 = true :=
      List.contains_iff_mem.2 isImplemented
    exact instantiates.remembers.ignorance_lt
      (Program.class_mem_learnable fetched).2 unknown learnt

end World

/-! ### Weights -/

/-- What the weight of work depends on: the runtime, how many uses the code of
each member has at most, and what is done with a member. -/
structure Scale where
  support : RuntimeSupport
  size : MemberId → Nat
  routine : Routine

namespace Scale

/-- Each use of an impact may create an instance, which is then announced. -/
def impact (impact : Impact) : Nat :=
  3 * impact.uses.length

def notice (scale : Scale) (notice : Notice) : Nat :=
  1 + Scale.impact (scale.support.answer false notice)

def command (scale : Scale) (member : MemberId) : Command → Nat
  | .applyItem => 3 + 3 * scale.size member
  | .apply impact _ => 3 + Scale.impact impact
  | .defer _ impact => 4 + Scale.impact impact
  | .close => 1

def commands (scale : Scale) (member : MemberId) (commands : List Command) :
    Nat :=
  (commands.map (scale.command member)).sum

/-- A member in the queue. -/
def member (scale : Scale) (member : MemberId) : Nat :=
  2 + scale.commands member (scale.routine member)

/-- A deferred action. -/
def action (action : Entity × Impact) : Nat :=
  3 + Scale.impact action.2

/-- What is put into the queue or among the recent classes is charged four more,
so that the loop can start over. -/
def task (scale : Scale) : Task → Nat
  | .register _ => 3
  | .demand member => 6 + scale.member member
  | .enlist member => 5 + scale.member member
  | .closurize member => scale.notice (.closurized member)
  | .announce notice => scale.notice notice
  | .enterClass cls => 5 + scale.notice (.instantiatedClass cls)
  | .instantiate _ _ _ _ => 2
  | .apply impact _ => 2 + Scale.impact impact
  | .release _ => 1
  | _ => 0

def tasks (scale : Scale) (tasks : List Task) : Nat :=
  (tasks.map scale.task).sum

def stage (scale : Scale) : Stage → Nat
  | .idle => 0
  | .resuming => 1
  | .deferring => 2
  | .draining => 3
  | .taking => 4
  | .obeying member commands => 5 + scale.commands member commands

/-- What is charged for each member that comes into the queue after the loop has
found it empty. -/
def queueFee : Stage → Nat
  | .taking | .obeying _ _ => 0
  | .draining | .deferring | .resuming | .idle => 4

/-- What is charged for each class that has come about after the listener was
told of the recent ones. -/
def recentFee : Stage → Nat
  | .taking | .obeying _ _ | .draining => 0
  | .deferring | .resuming | .idle => 4

/-- What is charged for each action that is left after all have been carried
out. -/
def deferredFee : Stage → Nat
  | .taking | .obeying _ _ | .draining | .deferring => 0
  | .resuming | .idle => 4

/-- The weight of all that is left to be done. -/
def load {σ : Type} (scale : Scale) (work : List Task) (stage : Stage)
    (e : Exploration σ) : Nat :=
  scale.tasks work + scale.stage stage +
    ((e.queue.map scale.member).sum + queueFee stage * e.queue.length) +
    recentFee stage * e.recent.listed.length +
    ((e.deferred.map action).sum + deferredFee stage * e.deferred.length)

@[simp]
theorem tasks_nil (scale : Scale) : scale.tasks [] = 0 :=
  rfl

@[simp]
theorem tasks_cons (scale : Scale) (first : Task) (rest : List Task) :
    scale.tasks (first :: rest) = scale.task first + scale.tasks rest :=
  List.sum_cons

@[simp]
theorem tasks_append (scale : Scale) (first second : List Task) :
    scale.tasks (first ++ second) = scale.tasks first + scale.tasks second := by
  simp [tasks]

@[simp]
theorem tasks_impact (scale : Scale) (impact : Impact) :
    scale.tasks impact.tasks = Scale.impact impact := by
  simp [tasks, Impact.tasks, Function.comp_def, task, Scale.impact,
    Nat.mul_comm]

theorem tasks_creation_le (scale : Scale) (use : StaticUse) :
    scale.tasks use.creation ≤ 2 := by
  unfold StaticUse.creation
  split
  · rfl
  · exact Nat.zero_le 2

/-- The listener answers less when it has been asked for the closure class. -/
theorem answer_le (support : RuntimeSupport) (asked : Bool) (notice : Notice) :
    Scale.impact (support.answer asked notice) ≤
      Scale.impact (support.answer false notice) := by
  cases asked with
  | false => exact Nat.le_refl _
  | true =>
      cases notice with
      | closurized | staticTearOff => exact Nat.zero_le _
      | queueOpened | queueDrained | queueClosed | used | instantiatedType
      | instantiatedClass | implementedClass => exact Nat.le_refl _

theorem queueFee_le (stage : Stage) : queueFee stage ≤ 4 := by
  cases stage <;> simp [queueFee]

theorem recentFee_le (stage : Stage) : recentFee stage ≤ 4 := by
  cases stage <;> simp [recentFee]

end Scale

namespace Exploration

variable {σ : Type} {setting : Setting σ} {scale : Scale}
  {serving : σ → Bool → Prop} {history : List Use} {task : Task}
  {work tasks : List Task} {stage nextStage : Stage} {e next : Exploration σ}

/-- What has to be learnt comes first, and then what is left to be done. -/
def level (setting : Setting σ) (scale : Scale) (work : List Task)
    (stage : Stage) (e : Exploration σ) : Nat ×ₗ Nat :=
  toLex (e.world.ignorance setting.program, scale.load work stage e)

theorem level_lt_of_learnt
    (learnt : next.world.ignorance setting.program <
      e.world.ignorance setting.program) :
    level setting scale tasks nextStage next < level setting scale work stage e :=
  Prod.Lex.toLex_lt_toLex.2 (.inl learnt)

theorem level_lt_of_lighter (remembers : Remembers e.world next.world)
    (lighter : scale.load tasks nextStage next < scale.load work stage e) :
    level setting scale tasks nextStage next <
      level setting scale work stage e := by
  rcases Nat.lt_or_eq_of_le (remembers.ignorance_le setting.program) with
    learnt | same
  · exact level_lt_of_learnt learnt
  · exact Prod.Lex.toLex_lt_toLex.2 (.inr ⟨same, lighter⟩)

/-- A step that leaves the queue, the recent classes and the deferred actions
alone makes the work lighter if its task outweighs what follows. -/
theorem load_lt (queue : next.queue = e.queue) (recent : next.recent = e.recent)
    (deferred : next.deferred = e.deferred)
    (lighter : scale.tasks tasks < scale.task task) :
    scale.load (tasks ++ work) stage next <
      scale.load (task :: work) stage e := by
  simp only [Scale.load, queue, recent, deferred, Scale.tasks_append,
    Scale.tasks_cons]
  omega

/-- What the weights take for granted: the listener serves the runtime, and the
code of a member has no more uses than it is said to have. -/
structure Weighed (scale : Scale) (setting : Setting σ)
    (serving : σ → Bool → Prop) (e : Exploration σ) : Prop where
  serves : ∃ asked, serving e.listener asked
  sizes : ∀ member, (setting.source.impactOf e.cache member).uses.length ≤
    scale.size member

theorem length_uses_afterVisit_le (source : ImpactSource) (policy : ImpactPolicy)
    (entity : Option Entity) (useCase : UseCase) (cache : ImpactCache)
    (member : MemberId) :
    (source.impactOf (policy.afterVisit entity useCase cache)
        member).uses.length ≤
      (source.impactOf cache member).uses.length := by
  by_cases other : entity = some (.member member)
  · subst other
    cases source with
    | table => exact Nat.le_refl _
    | cache =>
        unfold ImpactPolicy.afterVisit
        split
        · rename_i released
          cases released
          simp [ImpactSource.impactOf, ImpactCache.release, Table.getD,
            Table.get?_erase, Impact.uses]
        · exact Nat.le_refl _
  · rw [source.impactOf_afterVisit policy entity useCase cache other]

theorem Weighed.kept (weighed : Weighed scale setting serving e)
    (listener : next.listener = e.listener) (cache : next.cache = e.cache) :
    Weighed scale setting serving next := by
  constructor
  · rw [listener]
    exact weighed.serves
  · rw [cache]
    exact weighed.sizes

theorem Weighed.told (weighed : Weighed scale setting serving e)
    (listens : setting.listener.Serves scale.support serving) {notice : Notice}
    (listener : next.listener = (setting.listener.hear e.listener notice).2)
    (cache : next.cache = e.cache) : Weighed scale setting serving next := by
  obtain ⟨asked, serves⟩ := weighed.serves
  constructor
  · rw [listener]
    exact ⟨_, listens.next notice serves⟩
  · rw [cache]
    exact weighed.sizes

theorem Weighed.step (weighed : Weighed scale setting serving e)
    (listens : setting.listener.Serves scale.support serving)
    (effect : Effect setting e task tasks next) :
    Weighed scale setting serving next := by
  cases effect with
  | demanded | closurized | announced => exact weighed.told listens rfl rfl
  | released =>
      refine ⟨weighed.serves, fun member => ?_⟩
      exact Nat.le_trans (length_uses_afterVisit_le _ _ _ _ _ member)
        (weighed.sizes member)
  | refused | static | dynamic | creation | test | untested | literal
  | superfluous | enlisted | skipped | entered | instantiated | unapplied
  | applied => exact weighed.kept rfl rfl

theorem Weighed.turn (weighed : Weighed scale setting serving e)
    (listens : setting.listener.Serves scale.support serving)
    {routine : Routine}
    (turn : Turn setting routine e stage work nextStage next) :
    Weighed scale setting serving next := by
  cases turn with
  | closed | drained => exact weighed.told listens rfl rfl
  | emptied | passed | taken | applying | imposed | putOff | finished
  | carriedOut | allCarriedOut | resumed | settled => exact weighed.kept rfl rfl

/-- What follows from a notice weighs less than telling it. -/
theorem Weighed.answer_lt (weighed : Weighed scale setting serving e)
    (listens : setting.listener.Serves scale.support serving) (notice : Notice) :
    scale.tasks (setting.listener.hear e.listener notice).1.impact.tasks <
      scale.notice notice := by
  obtain ⟨asked, serves⟩ := weighed.serves
  have less := Scale.answer_le scale.support asked notice
  rw [Scale.tasks_impact, listens.impact notice serves, Scale.notice]
  omega

/-- A member about which something is new is worth any amount of work, and
without news the task that was carried out outweighs the rest. -/
theorem level_lt_of_learns {live : LiveClasses} {evidence : Evidence}
    {reports : List MemberReport} {extra : List Task}
    (learns : Learns e.world next.world setting.program live evidence reports)
    (queue : next.queue = e.queue) (deferred : next.deferred = e.deferred)
    (lighter : scale.tasks extra +
        Scale.recentFee stage * next.recent.listed.length <
      scale.task task + Scale.recentFee stage * e.recent.listed.length) :
    level setting scale (reports.flatMap Task.ofMemberReport ++ extra ++ work)
        stage next <
      level setting scale (task :: work) stage e := by
  by_cases silent : reports.flatMap Task.ofMemberReport = []
  · apply level_lt_of_lighter
    · exact remembers_of_grows learns.grows learns.elsewhere.sameClasses
    · simp only [Scale.load, silent, queue, deferred, List.nil_append,
        Scale.tasks_append, Scale.tasks_cons]
      omega
  · exact level_lt_of_learnt (learns.ignorance_lt silent)

theorem level_lt_of_same (members : SameMembers e.world next.world)
    (classes : SameClasses e.world next.world)
    (lighter : scale.load tasks nextStage next < scale.load work stage e) :
    level setting scale tasks nextStage next <
      level setting scale work stage e :=
  level_lt_of_lighter (remembers_of_same members classes) lighter

theorem length_add_le (recent : RecentClasses) (cls : ClassId) :
    (recent.add cls).listed.length ≤ recent.listed.length + 1 := by
  unfold RecentClasses.add
  split
  · omega
  · simp

/-- A plain task descends. -/
theorem Effect.descends (effect : Effect setting e task tasks next)
    (tracked : Tracked setting history (task :: work) stage e)
    (weighed : Weighed scale setting serving e)
    (built : setting.program.Built)
    (listens : setting.listener.Serves scale.support serving) :
    level setting scale (tasks ++ work) stage next <
      level setting scale (task :: work) stage e := by
  have books := tracked.lifecycle.books
  cases effect with
  | @static use world reports admitted registered =>
      refine level_lt_of_learns (Scope.learns_static books registered) rfl rfl ?_
      have creates := Scale.tasks_creation_le scale use
      simp only [Scale.task]
      omega
  | @dynamic use world reports admitted registered =>
      have learns := Scope.learns_dynamic books registered
      have descends := @level_lt_of_learns _ _ scale (.register (.dynamic use))
        work stage e { e with world } _ _ reports [] learns rfl rfl
        (by simp [Scale.task])
      rwa [List.append_nil] at descends
  | @entered cls world reports entered =>
      refine level_lt_of_learns (World.Balanced.learns_class books entered) rfl
        rfl ?_
      have fee := Scale.recentFee_le stage
      have longer := Nat.mul_le_mul_left (Scale.recentFee stage)
        (length_add_le e.recent cls)
      simp only [Scale.task, Scale.tasks_cons, Scale.tasks_nil]
      rw [Nat.mul_add, Nat.mul_one] at longer
      omega
  | @instantiated type constructor flags isGlobal world reports registered =>
      have instantiates := tracked.classes.closed.registerInstantiation built
        (Scope.registerInstantiation_within registered)
      by_cases silent : reports.flatMap Task.ofClassReport = []
      · apply level_lt_of_lighter instantiates.remembers
        rw [silent]
        exact load_lt rfl rfl rfl (by simp [Scale.task, Scale.notice,
          RuntimeSupport.answer, Scale.impact, Impact.uses])
      · exact level_lt_of_learnt (instantiates.ignorance_lt built silent)
  | @enlisted member decl world tally used =>
      simp only [World.registerUsed, bind_eq_ok_iff, pure_eq_ok_iff] at used
      obtain ⟨_, -, rfl⟩ := used
      refine level_lt_of_same ⟨rfl, rfl, rfl, rfl⟩ ⟨rfl, rfl, rfl⟩ ?_
      have fee := Scale.queueFee_le stage
      simp only [Scale.load, Scale.task, Scale.tasks_cons, List.nil_append,
        List.map_append, List.sum_append, List.map_cons, List.map_nil,
        List.sum_cons, List.sum_nil, List.length_append, List.length_cons,
        List.length_nil, Nat.mul_add, Nat.mul_one, Nat.mul_zero]
      omega
  | @skipped member decl world tally used =>
      simp only [World.registerUsed, bind_eq_ok_iff, pure_eq_ok_iff] at used
      obtain ⟨_, -, rfl⟩ := used
      refine level_lt_of_same ⟨rfl, rfl, rfl, rfl⟩ ⟨rfl, rfl, rfl⟩ ?_
      refine load_lt rfl rfl rfl ?_
      simp only [Scale.tasks_nil, Scale.task]
      omega
  | @demanded member =>
      apply level_lt_of_same ⟨rfl, rfl, rfl, rfl⟩ ⟨rfl, rfl, rfl⟩
      refine load_lt rfl rfl rfl ?_
      have answered := weighed.answer_lt listens (.used member)
      simp only [Scale.notice, RuntimeSupport.answer, Scale.impact, Impact.uses,
        List.map_nil, List.append_nil, List.length_nil, Nat.mul_zero] at answered
      simp only [Scale.tasks_append, Scale.tasks_cons, Scale.tasks_nil,
        Scale.task]
      omega
  | @closurized member =>
      apply level_lt_of_same ⟨rfl, rfl, rfl, rfl⟩ ⟨rfl, rfl, rfl⟩
      exact load_lt rfl rfl rfl (weighed.answer_lt listens (.closurized member))
  | @announced notice =>
      apply level_lt_of_same ⟨rfl, rfl, rfl, rfl⟩ ⟨rfl, rfl, rfl⟩
      exact load_lt rfl rfl rfl (weighed.answer_lt listens notice)
  | applied =>
      apply level_lt_of_same ⟨rfl, rfl, rfl, rfl⟩ ⟨rfl, rfl, rfl⟩
      refine load_lt rfl rfl rfl ?_
      simp only [Scale.tasks_append, Scale.tasks_impact, Scale.tasks_cons,
        Scale.tasks_nil, Scale.task]
      omega
  | unapplied | superfluous =>
      apply level_lt_of_same ⟨rfl, rfl, rfl, rfl⟩ ⟨rfl, rfl, rfl⟩
      refine load_lt rfl rfl rfl ?_
      simp only [Scale.tasks_nil, Scale.task]
      omega
  | refused | creation | test | untested | literal | released =>
      apply level_lt_of_same ⟨rfl, rfl, rfl, rfl⟩ ⟨rfl, rfl, rfl⟩
      exact load_lt rfl rfl rfl (by simp [Scale.task])

/-- The loop over the queue starts over only if something is left to be done, and
this has been charged for. -/
theorem load_lt_of_resumed (unsettled : e.isSettled = false) :
    scale.load [] .taking e < scale.load [] .resuming e := by
  have something :
      0 < e.queue.length + e.recent.listed.length + e.deferred.length := by
    by_contra nothing
    have queue : e.queue = [] := List.eq_nil_of_length_eq_zero (by omega)
    have recent : e.recent.listed = [] := List.eq_nil_of_length_eq_zero (by omega)
    have deferred : e.deferred = [] := List.eq_nil_of_length_eq_zero (by omega)
    simp [isSettled, queue, recent, deferred] at unsettled
  simp only [Scale.load, Scale.stage, Scale.queueFee, Scale.recentFee,
    Scale.deferredFee]
  omega

theorem load_lt_of_popped {member : MemberId} {queue : List MemberId}
    (popped : e.queue.Perm (member :: queue)) (isQueue : next.queue = queue)
    (recent : next.recent = e.recent) (deferred : next.deferred = e.deferred)
    (fee : Scale.queueFee nextStage = 0 ∧ Scale.recentFee nextStage = 0 ∧
      Scale.deferredFee nextStage = 0)
    (lighter : scale.stage nextStage < 4 + scale.member member) :
    scale.load [] nextStage next < scale.load [] .taking e := by
  obtain ⟨queueFee, recentFee, deferredFee⟩ := fee
  have weight := (popped.map scale.member).sum_eq
  have taking : scale.load [] .taking e = 4 + (e.queue.map scale.member).sum +
      (e.deferred.map Scale.action).sum := by
    simp [Scale.load, Scale.stage, Scale.queueFee, Scale.recentFee,
      Scale.deferredFee]
  rw [List.map_cons, List.sum_cons] at weight
  rw [taking, weight, Scale.load, isQueue, recent, deferred, queueFee, recentFee,
    deferredFee, Scale.tasks_nil]
  omega

/-- A turn of the loop descends. -/
theorem Turn.descends {routine : Routine}
    (turn : Turn setting routine e stage work nextStage next)
    (weighed : Weighed scale setting serving e) (isRoutine : scale.routine = routine)
    (listens : setting.listener.Serves scale.support serving) :
    level setting scale work nextStage next <
      level setting scale [] stage e := by
  have members := turn.sameMembers.1
  have classes : SameClasses e.world next.world := by
    cases turn <;> exact ⟨rfl, rfl, rfl⟩
  apply level_lt_of_same members classes
  cases turn with
  | emptied queue =>
      simp [Scale.load, queue, Scale.stage, Scale.recentFee, Scale.deferredFee]
  | passed popped processed =>
      refine load_lt_of_popped popped rfl rfl rfl ⟨rfl, rfl, rfl⟩ ?_
      simp only [Scale.stage, Scale.member]
      omega
  | taken popped unprocessed =>
      refine load_lt_of_popped popped rfl rfl rfl ⟨rfl, rfl, rfl⟩ ?_
      simp only [Scale.stage, Scale.member, isRoutine]
      omega
  | @applying member commands =>
      have size := weighed.sizes member
      simp only [Scale.load, Scale.stage, Scale.commands, Scale.tasks_cons,
        Scale.tasks_nil, Scale.task, Scale.impact, List.map_cons, List.sum_cons,
        Scale.command, Scale.queueFee, Scale.recentFee, Scale.deferredFee]
      omega
  | imposed | closed =>
      simp only [Scale.load, Scale.stage, Scale.commands, Scale.tasks_cons,
        Scale.tasks_nil, Scale.task, List.map_cons, List.sum_cons,
        Scale.command, Scale.queueFee, Scale.recentFee, Scale.deferredFee]
      omega
  | putOff isOpen =>
      simp only [Scale.load, Scale.stage, Scale.commands, Scale.tasks_nil,
        Scale.action, List.map_append, List.sum_append, List.map_cons,
        List.map_nil, List.sum_cons, List.sum_nil, Scale.command,
        Scale.queueFee, Scale.recentFee, Scale.deferredFee]
      omega
  | finished => simp [Scale.load, Scale.stage, Scale.commands, Scale.queueFee,
      Scale.recentFee, Scale.deferredFee]
  | drained handled =>
      obtain ⟨asked, serves⟩ := weighed.serves
      have answered := weighed.answer_lt listens (.queueDrained e.recent.listed)
      simp only [Scale.notice, RuntimeSupport.answer, Scale.impact, Impact.uses,
        List.map_nil, List.append_nil, List.length_nil, Nat.mul_zero] at answered
      simp only [Scale.load, handled (listens.handled _ serves), Scale.stage,
        Scale.queueFee, Scale.recentFee, Scale.deferredFee, Scale.tasks_nil,
        List.length_nil]
      omega
  | carriedOut deferred =>
      simp only [Scale.load, deferred, Scale.tasks_cons, Scale.tasks_nil,
        Scale.task, List.map_cons, List.sum_cons, Scale.action, Scale.deferredFee]
      omega
  | allCarriedOut noneLeft =>
      simp [Scale.load, noneLeft, Scale.stage, Scale.queueFee, Scale.recentFee]
  | resumed unsettled => exact load_lt_of_resumed unsettled
  | settled => simp [Scale.load, Scale.stage, Scale.queueFee, Scale.recentFee,
      Scale.deferredFee]

/-- Whatever is at hand, an exploration whose listener serves the runtime comes
to an end. -/
theorem Tracked.ends {support : RuntimeSupport} {asked : Bool}
    (tracked : Tracked setting history work stage e)
    (built : setting.program.Built)
    (listens : setting.listener.Serves support serving)
    (serves : serving e.listener asked) (routine : Routine)
    (isPlain : ∀ task ∈ work, task.isPlain = true) :
    Ends setting (work ++ stage.tasks routine) e := by
  let scale : Scale :=
    { support, routine
      size := fun member => (setting.source.impactOf e.cache member).uses.length }
  have invariant : Invariant setting routine fun history work stage e =>
      Tracked setting history work stage e ∧
        Weighed scale setting serving e :=
    { step := fun known effect =>
        ⟨(tracked_invariant built routine).step known.1 effect,
          known.2.step listens effect⟩
      turn := fun known turn =>
        ⟨(tracked_invariant built routine).turn known.1 turn,
          known.2.turn listens turn⟩ }
  exact invariant.ends (level setting scale)
    (fun known effect => effect.descends known.1 known.2 built listens)
    (fun known turn => turn.descends known.2 rfl listens)
    ⟨tracked, ⟨asked, serves⟩, fun _ => Nat.le_refl _⟩ isPlain

end Exploration

end TreeShaking
