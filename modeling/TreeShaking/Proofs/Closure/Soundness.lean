import TreeShaking.Proofs.Closure.Coverage

/-!
# Nothing is superfluous

Every use in the history of an exploration is in every set of facts that is
closed under the rules, and so is what its tasks are going to do (`Warranted`).
What the exploration knows about members and classes follows from the history,
and hence is in every such set as well.
-/

namespace TreeShaking

open Outcome World

/-- A resolution that keeps what is needed only is set to solve a problem. -/
structure Problem.PosedIn {σ : Type} (problem : Problem) (setting : Setting σ) :
    Prop where
  program : setting.program = problem.program
  options : setting.options = problem.options
  scope : setting.scope = .resolution
  strategy : setting.strategy = .treeShaking

/-- An exploration that keeps what is needed only is set to solve a problem. -/
structure Problem.SetIn {σ : Type} (problem : Problem) (setting : Setting σ) :
    Prop where
  program : setting.program = problem.program
  options : setting.options = problem.options
  strategy : setting.strategy = .treeShaking

theorem Problem.PosedIn.setIn {σ : Type} {problem : Problem}
    {setting : Setting σ} (posed : problem.PosedIn setting) :
    problem.SetIn setting :=
  ⟨posed.program, posed.options, posed.strategy⟩

/-- What a notice tells is among the facts. -/
def Notice.Warranted (holds : Fact → Prop) : Notice → Prop
  | .closurized _ | .staticTearOff =>
      ∃ member bit, bit ≠ .normal ∧ holds (.applied member bit)
  | .instantiatedClass cls => holds (.instantiated cls)
  | _ => True

/-- What the runtime needs in answer to a warranted notice is registered. -/
theorem Notice.warranted_answer {problem : Problem} {live : LiveClasses}
    {holds : Fact → Prop} (closes : problem.Closes live holds) {notice : Notice}
    (warranted : notice.Warranted holds) (asked : Bool) :
    ∀ use ∈ (problem.support.answer asked notice).uses,
      holds (.registered use) := by
  intro use listed
  cases notice with
  | queueOpened =>
      obtain ⟨member, isHelper, rfl⟩ :=
        (problem.support.mem_uses_helperImpact use).1 listed
      exact closes.helper isHelper
  | closurized | staticTearOff =>
      obtain ⟨member, bit, isTearOff, applied⟩ := warranted
      cases asked with
      | true => simp [RuntimeSupport.answer, Impact.uses] at listed
      | false => exact closes.closure applied isTearOff listed
  | instantiatedClass => exact closes.classImpact warranted listed
  | queueDrained | queueClosed | used | instantiatedType | implementedClass =>
      simp [RuntimeSupport.answer, Impact.uses] at listed

/-- What a task is going to do is among the facts.  Tasks that only deal with the
consequences of uses in the history need no warrant. -/
def Task.Warranted (holds : Fact → Prop) : Task → Prop
  | .register use => holds (.registered use)
  | .apply impact _ => ∀ use ∈ impact.uses, holds (.registered use)
  | .announce notice => notice.Warranted holds
  | .closurize member => (Notice.closurized member).Warranted holds
  | .enterClass cls => holds (.instantiated cls)
  | _ => True

theorem Task.warranted_tasks {holds : Fact → Prop} {impact : Impact}
    (needed : ∀ use ∈ impact.uses, holds (.registered use)) :
    ∀ task ∈ impact.tasks, task.Warranted holds := by
  intro task listed
  obtain ⟨use, isUse, rfl⟩ := Impact.eq_of_mem_tasks listed
  exact needed use isUse

/-- A use that is reported has been applied. -/
theorem World.Grows.applied_of_reported {before after : World}
    {reports : List MemberReport} (grows : Grows before after reports)
    {report : MemberReport} (listed : report ∈ reports) {bit : UseBit}
    (has : report.2.has bit = true) :
    (after.appliedTo report.1).has bit = true := by
  have told := grows report.1 bit
  have positive : 0 < tellings reports report.1 bit :=
    List.countP_pos_iff.2 ⟨report, listed, by simp [has]⟩
  cases now : (after.appliedTo report.1).has bit with
  | true => rfl
  | false =>
      rw [now, Bool.toNat_false] at told
      omega

theorem Task.warranted_ofMemberReport {holds : Fact → Prop}
    {before after : World} {reports : List MemberReport}
    (grows : Grows before after reports)
    (needed : ∀ member bit, (after.appliedTo member).has bit = true →
      holds (.applied member bit)) :
    ∀ task ∈ reports.flatMap ofMemberReport, task.Warranted holds := by
  intro task listed
  obtain ⟨report, isReport, ⟨-, rfl⟩ | ⟨torn, rfl⟩ | ⟨torn, rfl⟩⟩ :=
    eq_of_mem_ofMemberReport listed
  · trivial
  · exact ⟨report.1, .closurizeInstance, by simp,
      needed _ _ (grows.applied_of_reported isReport torn)⟩
  · exact ⟨report.1, .closurizeStatic, by simp,
      needed _ _ (grows.applied_of_reported isReport torn)⟩

namespace Exploration

variable {σ : Type} {setting : Setting σ} {problem : Problem}
  {holds : Fact → Prop} {history : List Use} {task : Task}
  {work tasks : List Task} {stage nextStage : Stage} {e next : Exploration σ}

theorem Classes.isInstantiated_of_planned
    (classes : Classes setting history work e) {cls : ClassId}
    (planned : .enterClass cls ∈ work) : e.world.isInstantiated cls = true := by
  have known := classes.entered cls
  have positive : 0 < work.countP (Task.enters cls) :=
    List.countP_pos_iff.2 ⟨_, planned, by simp [Task.enters]⟩
  cases now : e.world.isInstantiated cls with
  | true => rfl
  | false =>
      rw [now, Bool.toNat_false] at known
      omega

/-- The member that is being processed is in use and well-formed. -/
theorem Lifecycle.normal_of_current
    (lifecycle : Lifecycle setting history work stage e) {member : MemberId}
    (current : stage.member? = some member) :
    (e.world.appliedTo member).normal = true := by
  have known := lifecycle.places member
  cases now : (e.world.appliedTo member).normal with
  | true => rfl
  | false =>
      simp only [Exploration.places, current, now, decide_true, Bool.toNat_true,
        Bool.toNat_false] at known
      omega

/-- The uses in the history are among the facts. -/
def Needed (holds : Fact → Prop) (history : List Use) : Prop :=
  ∀ use ∈ history, holds (.registered use)

theorem Needed.direct (needed : Needed holds history)
    (posed : problem.SetIn setting)
    (closes : problem.Closes setting.scope.live holds)
    (classes : Classes setting history work e) {cls : ClassId}
    (isDirect : cls ∈ e.world.direct) : holds (.direct cls) := by
  obtain ⟨type, flags, ⟨use, told, instantiates⟩, rfl, creates⟩ :=
    classes.direct cls isDirect
  exact closes.direct (needed use told) instantiates (posed.program ▸ creates)

theorem Needed.instantiated (needed : Needed holds history)
    (posed : problem.SetIn setting)
    (closes : problem.Closes setting.scope.live holds)
    (classes : Classes setting history work e) {cls : ClassId}
    (isInstantiated : e.world.isInstantiated cls = true) :
    holds (.instantiated cls) := by
  obtain ⟨lower, isDirect, isAbove⟩ := classes.instantiated cls isInstantiated
  exact closes.instantiated (needed.direct posed closes classes isDirect)
    (posed.program ▸ isAbove)

theorem Needed.implemented (needed : Needed holds history)
    (posed : problem.SetIn setting)
    (closes : problem.Closes setting.scope.live holds)
    (classes : Classes setting history work e) {cls : ClassId}
    (isImplemented : cls ∈ e.world.implemented) :
    holds (.implemented cls) := by
  obtain ⟨type, flags, ⟨use, told, instantiates⟩, isAbove⟩ :=
    classes.implemented cls isImplemented
  exact closes.implemented (needed use told) instantiates (posed.program ▸ isAbove)

theorem Needed.applied (needed : Needed holds history)
    (posed : problem.SetIn setting)
    (closes : problem.Closes setting.scope.live holds) (books : Books setting history e)
    (classes : Classes setting history work e) {member : MemberId}
    {bit : UseBit} (isApplied : (e.world.appliedTo member).has bit = true) :
    holds (.applied member bit) := by
  obtain ⟨decl, declared, justified⟩ :=
    (World.Balanced.appliedTo_iff books member bit).1 isApplied
  cases justified with
  | named use access told names accesses grants =>
      subst names
      exact closes.static (needed _ told) (posed.program ▸ declared) accesses grants
  | reached use told met reaches grants =>
      obtain ⟨cls, entered, provides⟩ := met
      rw [posed.program] at reaches
      exact closes.dynamic (needed _ told)
        (needed.instantiated posed closes classes
          (classes.isInstantiated_of_entered entered))
        (posed.program ▸ provides) reaches grants

theorem Needed.processed (needed : Needed holds history)
    (posed : problem.SetIn setting)
    (closes : problem.Closes setting.scope.live holds)
    (lifecycle : Lifecycle setting history work stage e)
    (classes : Classes setting history work e) {member : MemberId}
    (current : stage.member? = some member) :
    holds (.processed member) := by
  have normal : (e.world.appliedTo member).has .normal = true :=
    lifecycle.normal_of_current current
  exact closes.processed
    (needed.applied posed closes lifecycle.books classes normal)
    (posed.program ▸ lifecycle.wellFormed member (.inr (.inl current)))

/-- The uses of the history and what is planned are among the facts. -/
structure Warranted (holds : Fact → Prop) (history : List Use) (work : List Task) :
    Prop where
  history : Needed holds history
  planned : ∀ task ∈ work, task.Warranted holds

/-- What plain tasks lead to is warranted. -/
theorem Warranted.step {serving : σ → Bool → Prop} {asked : Bool}
    (warranted : Warranted holds history (task :: work))
    (effect : Effect setting e task tasks next)
    (posed : problem.SetIn setting)
    (closes : problem.Closes setting.scope.live holds) (built : setting.program.Built)
    (listens : setting.listener.Serves problem.support serving)
    (serves : serving e.listener asked) (books : Books setting history e)
    (classes : Classes setting history (task :: work) e) :
    Warranted holds (history ++ task.noticed setting) (tasks ++ work) := by
  have taskWarranted := warranted.planned task List.mem_cons_self
  have needed : Needed holds (history ++ task.noticed setting) := by
    intro use told
    rcases List.mem_append.1 told with old | new
    · exact warranted.history use old
    · cases task with
      | register noticed =>
          obtain ⟨-, rfl⟩ : _ ∧ use = noticed := by
            simpa [Task.noticed] using new
          exact taskWarranted
      | demand | enlist | closurize | announce | enterClass | instantiate
      | apply | release | command | takeNext | finish | drained | runDeferred
      | resume => cases new
  have nextBooks := books.effect effect
  have nextClasses := classes.step built books effect
  have answered : ∀ notice : Notice, notice.Warranted holds →
      ∀ follower ∈ (setting.listener.hear e.listener notice).1.impact.tasks,
        follower.Warranted holds := by
    intro notice isWarranted
    rw [listens.impact notice serves]
    exact Task.warranted_tasks (Notice.warranted_answer closes isWarranted asked)
  have reported : ∀ reports, Grows e.world next.world reports →
      ∀ follower ∈ reports.flatMap Task.ofMemberReport,
        follower.Warranted holds := fun reports grows =>
    Task.warranted_ofMemberReport grows fun member bit now =>
      needed.applied posed closes nextBooks nextClasses now
  suffices follows : ∀ follower ∈ tasks, follower.Warranted holds by
    refine ⟨needed, fun other listed => ?_⟩
    rcases List.mem_append.1 listed with isFollower | waits
    · exact follows other isFollower
    · exact warranted.planned other (List.mem_cons_of_mem _ waits)
  intro follower listed
  cases effect with
  | static admitted registered =>
      rcases List.mem_append.1 listed with isReport | creates
      · exact reported _ (Scope.learns_static books registered).grows _ isReport
      · obtain ⟨type, flags, -, rfl⟩ := StaticUse.eq_of_mem_creation creates
        trivial
  | dynamic admitted registered =>
      exact reported _ (Scope.learns_dynamic books registered).grows _ listed
  | entered entered =>
      rcases List.mem_append.1 listed with isReport | last
      · exact reported _ (World.Balanced.learns_class books entered).grows _
          isReport
      · obtain rfl := List.mem_singleton.1 last
        exact taskWarranted
  | instantiated registered =>
      rcases List.mem_append.1 listed with isReport | last
      · obtain ⟨report, -, ⟨-, rfl⟩ | ⟨-, rfl⟩⟩ :=
          Task.eq_of_mem_ofClassReport isReport
        · exact needed.instantiated posed closes nextClasses
            (nextClasses.isInstantiated_of_planned
              (List.mem_append_left _ listed))
        · trivial
      · obtain rfl := List.mem_singleton.1 last
        trivial
  | @demanded member =>
      rcases List.mem_append.1 listed with registers | last
      · exact answered (.used member) trivial follower registers
      · obtain rfl := List.mem_singleton.1 last
        trivial
  | @closurized member =>
      exact answered (.closurized member) taskWarranted follower listed
  | announced => exact answered _ taskWarranted follower listed
  | applied =>
      rcases List.mem_append.1 listed with registers | last
      · exact Task.warranted_tasks taskWarranted follower registers
      · obtain rfl := List.mem_singleton.1 last
        trivial
  | creation =>
      obtain rfl := List.mem_singleton.1 listed
      trivial
  | refused | test | untested | literal | superfluous | enlisted | skipped
  | unapplied | released => cases listed

theorem Warranted.turn {serving : σ → Bool → Prop} {asked : Bool}
    (warranted : Warranted holds history [])
    (turn : Turn setting applying e stage work nextStage next)
    (posed : problem.SetIn setting)
    (closes : problem.Closes setting.scope.live holds)
    (listens : setting.listener.Serves problem.support serving)
    (serves : serving e.listener asked)
    (custody : Custody problem setting [] stage e)
    (lifecycle : Lifecycle setting history [] stage e)
    (classes : Classes setting history [] e) :
    Warranted holds history work := by
  refine ⟨warranted.history, fun task listed => ?_⟩
  cases turn with
  | @applying member commands =>
      obtain rfl := List.mem_singleton.1 listed
      obtain rfl := custody.rest_eq_nil
      have processed :=
        warranted.history.processed posed closes lifecycle classes rfl
      intro use isUse
      rw [custody.stored member (.inl rfl)] at isUse
      exact closes.body processed isUse
  | imposed => cases custody.order_eq
  | drained =>
      rw [listens.impact _ serves] at listed
      cases listed
  | carriedOut deferred =>
      rw [custody.deferred] at deferred
      cases deferred
  | emptied | passed | taken | putOff | closed | finished | allCarriedOut
  | resumed | settled => cases listed

end Exploration

end TreeShaking
