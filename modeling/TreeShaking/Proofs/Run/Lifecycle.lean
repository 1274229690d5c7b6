import TreeShaking.Proofs.Run.Books

/-!
# The way of a member through an exploration

A member whose ordinary use is applied is in exactly one place: it is demanded,
about to enter the queue, waiting in the queue, being processed, processed, or
it has been passed over because it is malformed.  All others are in none of
these places.  In the same way, an instance member that is torn off is either
about to be noted as such or noted.

Both laws are equations between counts (`Lifecycle`), so that nothing is lost
and nothing is done twice.
-/

namespace TreeShaking

open Outcome World

namespace Task

/-- Whether a task is about to put a member into the queue. -/
def owes (member : MemberId) : Task → Bool
  | .demand other | .enlist other => other = member
  | _ => false

/-- Whether a task notes that a member is torn off. -/
def tearsOff (member : MemberId) : Task → Bool
  | .closurize other => other = member
  | _ => false

theorem countP_owes_ofMemberReport (reports : List MemberReport)
    (member : MemberId) :
    (reports.flatMap ofMemberReport).countP (owes member) =
      tellings reports member .normal := by
  induction reports with
  | nil => rfl
  | cons report reports ih =>
      rw [List.flatMap_cons, List.countP_append, ih, ← List.singleton_append,
        tellings_append]
      congr 1
      obtain ⟨other, normal, torn, tornStatic⟩ := report
      cases normal <;> cases torn <;> cases tornStatic <;>
        simp [ofMemberReport, tellings, owes, MemberUses.has,
          List.countP_cons]

theorem countP_tearsOff_ofMemberReport (reports : List MemberReport)
    (member : MemberId) :
    (reports.flatMap ofMemberReport).countP (tearsOff member) =
      tellings reports member .closurizeInstance := by
  induction reports with
  | nil => rfl
  | cons report reports ih =>
      rw [List.flatMap_cons, List.countP_append, ih, ← List.singleton_append,
        tellings_append]
      congr 1
      obtain ⟨other, normal, torn, tornStatic⟩ := report
      cases normal <;> cases torn <;> cases tornStatic <;>
        simp [ofMemberReport, tellings, tearsOff, MemberUses.has,
          List.countP_cons]

/-- Whether a task has nothing to do with the laws of this file. -/
def isNeutral : Task → Bool
  | .demand _ | .enlist _ | .closurize _ => false
  | _ => true

theorem countP_owes_of_isNeutral {tasks : List Task}
    (neutral : ∀ task ∈ tasks, task.isNeutral = true) (member : MemberId) :
    tasks.countP (owes member) = 0 := by
  rw [List.countP_eq_zero]
  intro task listed
  have isNeutral := neutral task listed
  cases task <;> simp_all [Task.isNeutral, owes]

theorem countP_tearsOff_of_isNeutral {tasks : List Task}
    (neutral : ∀ task ∈ tasks, task.isNeutral = true) (member : MemberId) :
    tasks.countP (tearsOff member) = 0 := by
  rw [List.countP_eq_zero]
  intro task listed
  have isNeutral := neutral task listed
  cases task <;> simp_all [Task.isNeutral, tearsOff]

end Task

theorem Impact.isNeutral_tasks (impact : Impact) :
    ∀ task ∈ impact.tasks, task.isNeutral = true := by
  intro task listed
  obtain ⟨use, -, rfl⟩ := Impact.eq_of_mem_tasks listed
  rfl

theorem Task.isNeutral_ofClassReport (reports : List ClassReport) :
    ∀ task ∈ reports.flatMap Task.ofClassReport, task.isNeutral = true := by
  intro task listed
  obtain ⟨report, -, ⟨-, rfl⟩ | ⟨-, rfl⟩⟩ := eq_of_mem_ofClassReport listed
  · rfl
  · rfl

theorem StaticUse.isNeutral_creation (use : StaticUse) :
    ∀ task ∈ use.creation, task.isNeutral = true := by
  intro task listed
  obtain ⟨type, flags, -, rfl⟩ := eq_of_mem_creation listed
  rfl

/-- Whether a member is declared and malformed. -/
def Program.isMalformed (program : Program) (member : MemberId) : Bool :=
  match program.member member with
  | .ok decl => decl.isMalformed
  | .error _ => false

theorem Program.isMalformed_of_declared {program : Program} {member : MemberId}
    {decl : MemberDecl} (declared : program.member member = .ok decl) :
    program.isMalformed member = decl.isMalformed := by
  rw [isMalformed, declared]

namespace Exploration

variable {σ : Type} {setting : Setting σ} {routine : Routine}

/-- Whether a member has been passed over because it is malformed. -/
def hasSkipped (e : Exploration σ) (program : Program) (member : MemberId) :
    Bool :=
  decide (member ∈ e.world.used) && program.isMalformed member

/-- In how many places a member is. -/
def places (setting : Setting σ) (work : List Task) (stage : Stage)
    (e : Exploration σ) (member : MemberId) : Nat :=
  work.countP (Task.owes member) + e.queue.count member +
    (decide (stage.member? = some member)).toNat +
    (decide (member ∈ e.world.processed)).toNat +
    (e.hasSkipped setting.program member).toNat

/-- The laws about the whereabouts of members. -/
structure Lifecycle (setting : Setting σ) (history : List Use)
    (work : List Task) (stage : Stage) (e : Exploration σ) : Prop where
  books : Books setting history e
  /-- A member is in one place if its ordinary use is applied, and else in
  none. -/
  places : ∀ member, Exploration.places setting work stage e member =
    (e.world.appliedTo member).normal.toNat
  /-- A tear-off is noted, or about to be. -/
  tearOffs : ∀ member, work.countP (Task.tearsOff member) +
    (decide (member ∈ e.world.closurized)).toNat =
      (e.world.appliedTo member).closurizeInstance.toNat
  /-- No malformed member comes as far as the queue. -/
  wellFormed : ∀ member, member ∈ e.queue ∨ stage.member? = some member ∨
    member ∈ e.world.processed → setting.program.isMalformed member = false

variable {history further : List Use} {task : Task} {work tasks : List Task}
  {stage : Stage} {e next : Exploration σ}

/-- News about members is told in the tasks that follow. -/
theorem Lifecycle.told {reports : List MemberReport} {extra : List Task}
    (lifecycle : Lifecycle setting history (task :: work) stage e)
    (neutral : task.isNeutral = true)
    (extraNeutral : ∀ other ∈ extra, other.isNeutral = true)
    (books : Books setting further next)
    (grows : Grows e.world next.world reports)
    (elsewhere : SameElsewhere e.world next.world)
    (queue : next.queue = e.queue) :
    Lifecycle setting further
      (reports.flatMap Task.ofMemberReport ++ extra ++ work) stage next := by
  have taskNeutral : ∀ other ∈ [task], other.isNeutral = true := by
    simpa using neutral
  refine ⟨books, fun member => ?_, fun member => ?_, fun member => ?_⟩
  · have known := lifecycle.places member
    have told := grows member .normal
    simp only [MemberUses.has] at told
    rw [Exploration.places, ← List.singleton_append, List.countP_append,
      Task.countP_owes_of_isNeutral taskNeutral] at known
    rw [Exploration.places, List.countP_append, List.countP_append,
      Task.countP_owes_ofMemberReport,
      Task.countP_owes_of_isNeutral extraNeutral, hasSkipped, queue,
      elsewhere.processed, elsewhere.used]
    rw [hasSkipped] at known
    omega
  · have known := lifecycle.tearOffs member
    have told := grows member .closurizeInstance
    simp only [MemberUses.has] at told
    rw [← List.singleton_append, List.countP_append,
      Task.countP_tearsOff_of_isNeutral taskNeutral] at known
    rw [List.countP_append, List.countP_append,
      Task.countP_tearsOff_ofMemberReport,
      Task.countP_tearsOff_of_isNeutral extraNeutral, elsewhere.closurized]
    omega
  · rw [queue, elsewhere.processed]
    exact lifecycle.wellFormed member

/-- A task that concerns none of the places. -/
theorem Lifecycle.kept
    (lifecycle : Lifecycle setting history (task :: work) stage e)
    (neutral : task.isNeutral = true)
    (tasksNeutral : ∀ other ∈ tasks, other.isNeutral = true)
    (books : Books setting further next)
    (members : SameMembers e.world next.world)
    (used : next.world.used = e.world.used)
    (processed : next.world.processed = e.world.processed)
    (closurized : next.world.closurized = e.world.closurized)
    (queue : next.queue = e.queue) :
    Lifecycle setting further (tasks ++ work) stage next := by
  have taskNeutral : ∀ other ∈ [task], other.isNeutral = true := by
    simpa using neutral
  refine ⟨books, fun member => ?_, fun member => ?_, fun member => ?_⟩
  · have known := lifecycle.places member
    rw [Exploration.places, ← List.singleton_append, List.countP_append,
      Task.countP_owes_of_isNeutral taskNeutral] at known
    rw [Exploration.places, List.countP_append,
      Task.countP_owes_of_isNeutral tasksNeutral, hasSkipped, queue, processed,
      used, members.appliedTo]
    exact known
  · have known := lifecycle.tearOffs member
    rw [← List.singleton_append, List.countP_append,
      Task.countP_tearsOff_of_isNeutral taskNeutral] at known
    rw [List.countP_append, Task.countP_tearsOff_of_isNeutral tasksNeutral,
      closurized, members.appliedTo]
    exact known
  · rw [queue, processed]
    exact lifecycle.wellFormed member

/-- A member that is demanded has not been processed, and so it will be
enlisted. -/
theorem Lifecycle.not_processed_of_demand {member : MemberId}
    (lifecycle : Lifecycle setting history (.demand member :: work) stage e) :
    e.world.isProcessed member = false := by
  have known := lifecycle.places member
  rw [Exploration.places, List.countP_cons_of_pos (by simp [Task.owes])] at known
  have bound := Bool.toNat_le (e.world.appliedTo member).normal
  cases processed : e.world.isProcessed member with
  | false => rfl
  | true =>
      have listed : member ∈ e.world.processed := by
        simpa [isProcessed] using processed
      simp only [listed, decide_true, Bool.toNat_true] at known
      omega

theorem Lifecycle.demanded {member : MemberId} {impact : Impact}
    (lifecycle : Lifecycle setting history (.demand member :: work) stage e)
    (books : Books setting further next) (world : next.world = e.world)
    (queue : next.queue = e.queue) :
    Lifecycle setting further (impact.tasks ++ [.enlist member] ++ work) stage
      next := by
  refine ⟨books, fun other => ?_, fun other => ?_, fun other => ?_⟩
  · have known := lifecycle.places other
    rw [Exploration.places, ← List.singleton_append, List.countP_append] at known
    rw [Exploration.places, List.countP_append, List.countP_append,
      Task.countP_owes_of_isNeutral (Impact.isNeutral_tasks impact), hasSkipped,
      world, queue, Nat.zero_add]
    exact known
  · have known := lifecycle.tearOffs other
    rw [← List.singleton_append, List.countP_append] at known
    rw [List.countP_append, List.countP_append,
      Task.countP_tearsOff_of_isNeutral (Impact.isNeutral_tasks impact), world,
      Nat.zero_add]
    exact known
  · rw [queue, world]
    exact lifecycle.wellFormed other

theorem Lifecycle.closurized {member : MemberId} {impact : Impact}
    (lifecycle : Lifecycle setting history (.closurize member :: work) stage e)
    (books : Books setting further next)
    (world : next.world = e.world.registerClosurized member)
    (queue : next.queue = e.queue) :
    Lifecycle setting further (impact.tasks ++ work) stage next := by
  refine ⟨books, fun other => ?_, fun other => ?_, fun other => ?_⟩
  · have known := lifecycle.places other
    rw [Exploration.places, List.countP_cons_of_neg (by simp [Task.owes])]
      at known
    rw [Exploration.places, List.countP_append,
      Task.countP_owes_of_isNeutral (Impact.isNeutral_tasks impact), hasSkipped,
      world, queue, Nat.zero_add]
    exact known
  · have known := lifecycle.tearOffs other
    have bound := Bool.toNat_le (e.world.appliedTo other).closurizeInstance
    rw [List.countP_append,
      Task.countP_tearsOff_of_isNeutral (Impact.isNeutral_tasks impact), world]
    by_cases same : other = member
    · subst same
      rw [List.countP_cons_of_pos (by simp [Task.tearsOff])] at known
      have now : other ∈ (e.world.registerClosurized other).closurized := by
        simp [registerClosurized]
      simp only [now, decide_true, Bool.toNat_true, Nat.zero_add]
      change _ = (e.world.appliedTo other).closurizeInstance.toNat
      omega
    · rw [List.countP_cons_of_neg (by simp [Task.tearsOff, Ne.symm same])]
        at known
      simpa [registerClosurized, same, appliedTo] using known
  · rw [queue, world]
    exact lifecycle.wellFormed other

/-- A member that is enlisted has not been passed over before. -/
theorem Lifecycle.enlisted {member : MemberId} {decl : MemberDecl}
    {world : World}
    (lifecycle : Lifecycle setting history (.enlist member :: work) stage e)
    (books : Books setting history next)
    (declared : setting.program.member member = .ok decl)
    (used : e.world.registerUsed setting.program member = .ok world)
    (isWorld : next.world = world)
    (queue : next.queue = if decl.isMalformed then
      e.queue
    else
      e.queue ++ [member]) :
    Lifecycle setting history work stage next := by
  simp only [registerUsed, bind_eq_ok_iff, pure_eq_ok_iff] at used
  obtain ⟨_, -, rfl⟩ := used
  have malformed := Program.isMalformed_of_declared declared
  have noTearOff : [Task.enlist member].countP (Task.tearsOff member) = 0 := rfl
  refine ⟨books, fun other => ?_, fun other => ?_, fun other => ?_⟩
  · have known := lifecycle.places other
    have bound := Bool.toNat_le (e.world.appliedTo other).normal
    simp only [Exploration.places, hasSkipped, List.countP_cons, isWorld,
      World.appliedTo, List.mem_insert_iff, queue] at known bound ⊢
    by_cases same : other = member
    · subst same
      rw [malformed] at known ⊢
      simp only [Task.owes, decide_true, if_true, true_or, Bool.true_and]
        at known ⊢
      cases isMalformed : decl.isMalformed with
      | true =>
          simp only [isMalformed, if_true, Bool.and_true, Bool.toNat_true]
            at known ⊢
          omega
      | false =>
          simp only [isMalformed, Bool.false_eq_true, if_false,
            List.count_append, List.count_singleton_self, Bool.and_false,
            Bool.toNat_false] at known ⊢
          omega
    · have unowed : Task.owes other (.enlist member) = false := by
        simp [Task.owes, Ne.symm same]
      have uncounted : (if decl.isMalformed = true then e.queue
          else e.queue ++ [member]).count other = e.queue.count other := by
        split
        · rfl
        · simp [Ne.symm same]
      simp only [unowed, Bool.false_eq_true, if_false, same, false_or,
        uncounted] at known ⊢
      exact known
  · have known := lifecycle.tearOffs other
    rw [List.countP_cons_of_neg (by simp [Task.tearsOff])] at known
    rw [isWorld]
    exact known
  · rw [isWorld, queue]
    rintro (waits | rest)
    · split at waits
      · exact lifecycle.wellFormed other (.inl waits)
      · rename_i wellFormed
        rcases List.mem_append.1 waits with old | new
        · exact lifecycle.wellFormed other (.inl old)
        · obtain rfl := List.mem_singleton.1 new
          rw [malformed]
          simpa using wellFormed
    · exact lifecycle.wellFormed other (.inr rest)

theorem Lifecycle.step
    (lifecycle : Lifecycle setting history (task :: work) stage e)
    (effect : Effect setting e task tasks next) :
    Lifecycle setting (history ++ task.noticed setting) (tasks ++ work) stage
      next := by
  have books := lifecycle.books.effect effect
  cases effect with
  | static admitted registered =>
      have learns := Scope.learns_static lifecycle.books registered
      exact lifecycle.told rfl (StaticUse.isNeutral_creation _) books
        learns.grows learns.elsewhere rfl
  | dynamic admitted registered =>
      have learns := Scope.learns_dynamic lifecycle.books registered
      have told := @Lifecycle.told _ _ _ _ _ _ _ _ _ _ [] lifecycle rfl
        (by simp) books learns.grows learns.elsewhere rfl
      rwa [List.append_nil] at told
  | entered entered =>
      have learns := World.Balanced.learns_class lifecycle.books entered
      exact lifecycle.told rfl (by simp [Task.isNeutral]) books learns.grows
        learns.elsewhere rfl
  | refused | creation | untested | test | literal | unapplied | released =>
      exact lifecycle.kept rfl (by simp [Task.isNeutral]) books
        ⟨rfl, rfl, rfl, rfl⟩ rfl rfl rfl rfl
  | announced =>
      exact lifecycle.kept rfl (Impact.isNeutral_tasks _) books
        ⟨rfl, rfl, rfl, rfl⟩ rfl rfl rfl rfl
  | applied =>
      refine lifecycle.kept rfl (fun other listed => ?_) books
        ⟨rfl, rfl, rfl, rfl⟩ rfl rfl rfl rfl
      rcases List.mem_append.1 listed with registers | releases
      · exact Impact.isNeutral_tasks _ other registers
      · obtain rfl := List.mem_singleton.1 releases
        rfl
  | instantiated registered =>
      obtain ⟨members, progress⟩ := same_of_instantiation registered
      refine lifecycle.kept rfl (fun other listed => ?_) books members
        progress.used progress.processed progress.closurized rfl
      rcases List.mem_append.1 listed with reports | announces
      · exact Task.isNeutral_ofClassReport _ other reports
      · obtain rfl := List.mem_singleton.1 announces
        rfl
  | superfluous processed =>
      -- The member would be in two places, on the agenda and processed.
      rw [lifecycle.not_processed_of_demand] at processed
      cases processed
  | demanded unprocessed => exact lifecycle.demanded books rfl rfl
  | enlisted used declared wellFormed isNew =>
      simp only [Task.noticed, List.append_nil] at books ⊢
      exact lifecycle.enlisted books declared used rfl (by simp [wellFormed])
  | skipped used declared malformed =>
      simp only [Task.noticed, List.append_nil] at books ⊢
      exact lifecycle.enlisted books declared used rfl (by simp [malformed])
  | closurized => exact lifecycle.closurized books rfl rfl

/-- In a turn, members only move between the queue, the stage and the processed
ones. -/
theorem Lifecycle.moved {nextStage : Stage}
    (lifecycle : Lifecycle setting history [] stage e)
    (neutral : ∀ task ∈ work, task.isNeutral = true)
    (members : SameMembers e.world next.world)
    (entered : next.processedClasses = e.processedClasses)
    (used : next.world.used = e.world.used)
    (closurized : next.world.closurized = e.world.closurized)
    (moves : ∀ member, next.queue.count member +
        (decide (nextStage.member? = some member)).toNat +
        (decide (member ∈ next.world.processed)).toNat =
      e.queue.count member + (decide (stage.member? = some member)).toNat +
        (decide (member ∈ e.world.processed)).toNat) :
    Lifecycle setting history work nextStage next := by
  refine ⟨lifecycle.books.of_sameMembers members entered, fun member => ?_,
    fun member => ?_, fun member whereabouts => ?_⟩
  · have known := lifecycle.places member
    have moved := moves member
    rw [Exploration.places, hasSkipped] at known ⊢
    rw [Task.countP_owes_of_isNeutral neutral, used, members.appliedTo]
    rw [List.countP_nil] at known
    omega
  · have known := lifecycle.tearOffs member
    rw [List.countP_nil] at known
    rw [Task.countP_tearsOff_of_isNeutral neutral, closurized,
      members.appliedTo]
    exact known
  · refine lifecycle.wellFormed member ?_
    by_contra nowhere
    simp only [not_or] at nowhere
    have moved := moves member
    rw [List.count_eq_zero.2 nowhere.1] at moved
    simp only [nowhere.2.1, nowhere.2.2, decide_false, Bool.toNat_false]
      at moved
    rcases whereabouts with waits | isProcessed | done
    · have positive := List.count_pos_iff.2 waits
      omega
    · simp [isProcessed] at moved
    · simp [done] at moved

theorem Lifecycle.turn {nextStage : Stage}
    (lifecycle : Lifecycle setting history [] stage e)
    (turn : Turn setting routine e stage work nextStage next) :
    Lifecycle setting history work nextStage next := by
  cases turn with
  | emptied | applying | imposed | putOff | closed | allCarriedOut | resumed
  | settled | carriedOut =>
      exact lifecycle.moved (by simp [Task.isNeutral]) ⟨rfl, rfl, rfl, rfl⟩ rfl
        rfl rfl (fun _ => rfl)
  | drained =>
      exact lifecycle.moved (Impact.isNeutral_tasks _) ⟨rfl, rfl, rfl, rfl⟩ rfl
        rfl rfl (fun _ => rfl)
  | @passed member queue popped processed =>
      have known := lifecycle.places member
      have bound := Bool.toNat_le (e.world.appliedTo member).normal
      have listed : member ∈ e.world.processed := by
        simpa [isProcessed] using processed
      rw [Exploration.places, popped.count_eq, List.count_cons_self] at known
      simp only [listed, decide_true, Bool.toNat_true] at known
      omega
  | @taken member queue journal popped unprocessed =>
      refine lifecycle.moved (by simp) ⟨rfl, rfl, rfl, rfl⟩ rfl rfl rfl
        (fun other => ?_)
      rw [popped.count_eq, List.count_cons]
      simp only [Stage.member?, Option.some.injEq, beq_iff_eq, reduceCtorEq,
        decide_false, Bool.toNat_false]
      by_cases same : member = other <;> simp [same]
  | @finished member =>
      refine lifecycle.moved (by simp) ⟨rfl, rfl, rfl, rfl⟩ rfl rfl rfl
        (fun other => ?_)
      have known := lifecycle.places other
      have bound := Bool.toNat_le (e.world.appliedTo other).normal
      rw [Exploration.places] at known
      simp only [Stage.member?, registerProcessed, List.mem_insert_iff,
        Option.some.injEq, reduceCtorEq, decide_false, Bool.toNat_false]
        at known ⊢
      by_cases same : member = other
      · subst same
        simp only [decide_true, Bool.toNat_true, true_or] at known ⊢
        omega
      · simp [same, Ne.symm same]

/-- An operation begins where the last one has come to an end. -/
theorem Lifecycle.begin {nextStage : Stage}
    (lifecycle : Lifecycle setting history [] .idle e)
    (neutral : ∀ task ∈ work, task.isNeutral = true)
    (resting : nextStage.member? = none) (world : next.world = e.world)
    (queue : next.queue = e.queue)
    (entered : next.processedClasses = e.processedClasses) :
    Lifecycle setting history work nextStage next := by
  refine lifecycle.moved neutral ?_ entered ?_ ?_ fun member => ?_
  · rw [world]
    exact ⟨rfl, rfl, rfl, rfl⟩
  · rw [world]
  · rw [world]
  · rw [world, queue, resting]
    rfl

theorem lifecycle_of_fresh (world : e.world = {})
    (entered : e.processedClasses = []) (queue : e.queue = []) :
    Lifecycle setting [] [] .idle e := by
  refine ⟨books_of_fresh world entered, fun member => ?_, fun member => ?_,
    fun member => ?_⟩
  · simp [Exploration.places, hasSkipped, world, queue, Stage.member?,
      appliedTo]
  · simp [world, appliedTo]
  · simp [world, queue, Stage.member?]

/-- When nothing is left to be done, the processed members are those whose
ordinary use is applied and that are not malformed. -/
theorem Lifecycle.mem_processed_iff
    (lifecycle : Lifecycle setting history [] .idle e) (queue : e.queue = [])
    (member : MemberId) :
    member ∈ e.world.processed ↔
      (e.world.appliedTo member).normal = true ∧
        setting.program.isMalformed member = false := by
  have known := lifecycle.places member
  simp only [Exploration.places, hasSkipped, List.countP_nil, queue,
    List.count_nil, Stage.member?, reduceCtorEq, decide_false,
    Bool.toNat_false, Nat.zero_add] at known
  constructor
  · intro processed
    have wellFormed := lifecycle.wellFormed member (.inr (.inr processed))
    refine ⟨?_, wellFormed⟩
    cases normal : (e.world.appliedTo member).normal with
    | true => rfl
    | false => simp [processed, normal] at known
  · rintro ⟨normal, wellFormed⟩
    by_contra unprocessed
    simp [unprocessed, normal, wellFormed] at known

theorem Lifecycle.mem_closurized_iff
    (lifecycle : Lifecycle setting history [] stage e) (member : MemberId) :
    member ∈ e.world.closurized ↔
      (e.world.appliedTo member).closurizeInstance = true := by
  have known := lifecycle.tearOffs member
  rw [List.countP_nil, Nat.zero_add] at known
  cases torn : (e.world.appliedTo member).closurizeInstance with
  | true => simpa [torn] using known
  | false => simpa [torn] using known

end Exploration

end TreeShaking
