import TreeShaking.Proofs.Closure.Rules

/-!
# Nothing is forgotten

Every use that the rules ask for is *covered*: it is in the history, or a task
or the stage of the loop is going to bring it there (`Coverage`).  When nothing
is left to be done, what is covered is in the history.

A member's impact is read when the member is taken from the queue.  Policies may
do away with stored impacts, but only with those that have been read
(`Custody`).
-/

namespace TreeShaking

open Outcome World

namespace Task

/-- The entity whose stored impact a task may do away with in the end. -/
def source? : Task → Option Entity
  | .apply _ source | .release source => source
  | _ => none

/-- The uses that a task is going to bring into the history, as far as they do
not depend on the state of the listener. -/
def promised (support : RuntimeSupport) : Task → List Use
  | .register use => [use]
  | .apply impact _ => impact.uses
  | .announce (.queueOpened _ _) => (Backend.helperImpact support).uses
  | .announce (.instantiatedClass cls) =>
      (support.classImpacts.getD cls {}).uses
  | _ => []

/-- Whether a task tells the listener that a function is torn off. -/
def isTearOff : Task → Bool
  | .closurize _ => true
  | .announce notice => notice.isTearOff
  | _ => false

theorem source?_of_isConsequence {task : Task}
    (consequence : task.isConsequence = true) : task.source? = none := by
  cases task with
  | register | demand | enlist | closurize | announce | enterClass
  | instantiate => rfl
  | apply | release | command | takeNext | finish | drained | runDeferred
  | resume => cases consequence

/-- A tear-off that is reported is told to the listener. -/
theorem exists_isTearOff_of_reported {reports : List MemberReport}
    {member : MemberId} {bit : UseBit} (isTearOff : bit ≠ .normal)
    (reported : 0 < tellings reports member bit) :
    ∃ task ∈ reports.flatMap ofMemberReport, task.isTearOff = true := by
  obtain ⟨report, listed, holds⟩ := List.countP_pos_iff.1 reported
  simp only [Bool.and_eq_true, decide_eq_true_eq] at holds
  obtain ⟨-, has⟩ := holds
  cases bit with
  | normal => exact absurd rfl isTearOff
  | closurizeInstance =>
      refine ⟨.closurize report.1, List.mem_flatMap.2 ⟨report, listed, ?_⟩, rfl⟩
      simp [ofMemberReport, show report.2.closurizeInstance = true from has]
  | closurizeStatic =>
      refine ⟨.announce .staticTearOff,
        List.mem_flatMap.2 ⟨report, listed, ?_⟩, rfl⟩
      simp [ofMemberReport, show report.2.closurizeStatic = true from has]

end Task

theorem Impact.promised_tasks (impact : Impact) (support : RuntimeSupport) :
    impact.tasks.flatMap (Task.promised support) = impact.uses := by
  simp only [Impact.tasks, List.flatMap_map, Task.promised]
  exact List.flatMap_singleton' impact.uses

/-- Doing away with an impact leaves the impacts of other members alone. -/
theorem ImpactSource.impactOf_afterVisit (source : ImpactSource)
    (policy : ImpactPolicy) (entity : Option Entity) (useCase : UseCase)
    (cache : ImpactCache) {member : MemberId}
    (other : entity ≠ some (.member member)) :
    source.impactOf (policy.afterVisit entity useCase cache) member =
      source.impactOf cache member := by
  cases source with
  | table => rfl
  | cache =>
      unfold ImpactPolicy.afterVisit
      split
      · rename_i entity
        cases entity with
        | library | cls => rfl
        | member released =>
            have distinct : released ≠ member := by
              rintro rfl
              exact other rfl
            simp [ImpactSource.impactOf, ImpactCache.release, Table.getD,
              Table.get?_erase, Ne.symm distinct]
      · rfl

namespace Exploration

variable {σ : Type} {setting : Setting σ} {problem : Problem}
  {history : List Use} {task : Task} {work tasks : List Task}
  {stage nextStage : Stage} {e next : Exploration σ}

/-- The routine that applies the impact of each member. -/
abbrev applying : Routine := fun _ => [.applyItem]

/-- A plain task hands its source on, and its followers have no other. -/
theorem Effect.source?_follows (effect : Effect setting e task tasks next) :
    ∀ follower ∈ tasks, follower.source? = none ∨
      follower.source? = task.source? := by
  intro follower listed
  rcases effect.follows listed with consequence | ⟨impact, source, rfl, rfl⟩
  · exact .inl (Task.source?_of_isConsequence consequence)
  · exact .inr rfl

/-- Impacts are stored until they have been read. -/
structure Custody (problem : Problem) (setting : Setting σ) (work : List Task)
    (stage : Stage) (e : Exploration σ) : Prop where
  /-- The impact of a member is the one that the problem says, as long as it is
  still to be read. -/
  stored : ∀ member, stage = .obeying member [.applyItem] ∨
    member ∉ e.world.processed ∧ stage.member? ≠ some member →
      setting.source.impactOf e.cache member = problem.impactOf member
  /-- Only the impact of the current member may be done away with, after it has
  been read. -/
  released : ∀ task ∈ work, ∀ entity, task.source? = some entity →
    ∃ member, entity = .member member ∧ stage = .obeying member []
  commands : ∀ member commands, stage = .obeying member commands →
    commands = [.applyItem] ∨ commands = []
  deferred : e.deferred = []

theorem Custody.step (custody : Custody problem setting (task :: work) stage e)
    (books : Books setting history e)
    (effect : Effect setting e task tasks next) :
    Custody problem setting (tasks ++ work) stage next := by
  have processed := effect.processed_eq books
  have released : ∀ follower ∈ tasks ++ work, ∀ entity,
      follower.source? = some entity →
        ∃ member, entity = .member member ∧ stage = .obeying member [] := by
    intro follower listed entity isSource
    rcases List.mem_append.1 listed with follows | waits
    · rcases effect.source?_follows follower follows with none | same
      · rw [none] at isSource
        cases isSource
      · exact custody.released task List.mem_cons_self entity (same ▸ isSource)
    · exact custody.released follower (List.mem_cons_of_mem _ waits) entity
        isSource
  have kept : next.cache = e.cache → next.deferred = e.deferred →
      Custody problem setting (tasks ++ work) stage next := by
    intro cache deferred
    refine ⟨?_, released, custody.commands, deferred ▸ custody.deferred⟩
    rw [processed, cache]
    exact custody.stored
  cases effect with
  | @released source =>
      refine ⟨fun member unread => ?_, released, custody.commands,
        custody.deferred⟩
      rw [ImpactSource.impactOf_afterVisit]
      · exact custody.stored member unread
      · -- What is released has been read, so it is the impact of another member.
        rintro rfl
        obtain ⟨_, isMember, reading⟩ :=
          custody.released _ List.mem_cons_self (.member member) rfl
        obtain rfl := Entity.member.inj isMember
        rcases unread with isUnread | ⟨-, elsewhere⟩
        · rw [reading] at isUnread
          cases isUnread
        · rw [reading] at elsewhere
          exact elsewhere rfl
  | refused | static | dynamic | creation | test | untested | literal
  | superfluous | demanded | enlisted | skipped | closurized | announced
  | entered | instantiated | unapplied | applied => exact kept rfl rfl

/-- Nothing remains to be done with a member after its impact has been
applied. -/
theorem Custody.rest_eq_nil {member : MemberId} {commands : List Command}
    (custody : Custody problem setting work
      (.obeying member (.applyItem :: commands)) e) : commands = [] := by
  rcases custody.commands member _ rfl with both | impossible
  · exact (List.cons.inj both).2
  · cases impossible

/-- The impact of the member itself is all that is ever asked for. -/
theorem Custody.order_eq {member : MemberId} {order : Command}
    {commands : List Command}
    (custody : Custody problem setting work
      (.obeying member (order :: commands)) e) : order = .applyItem := by
  rcases custody.commands member _ rfl with both | impossible
  · exact (List.cons.inj both).1
  · cases impossible

/-- While only impacts are applied, nobody closes the queue or changes the
policy. -/
theorem Custody.turn_frame (custody : Custody problem setting [] stage e)
    (turn : Turn setting applying e stage work nextStage next) :
    next.state = e.state ∧ next.policy = e.policy := by
  cases turn with
  | closed => cases custody.order_eq
  | emptied | passed | taken | applying | imposed | putOff | finished | drained
  | carriedOut | allCarriedOut | resumed | settled => exact ⟨rfl, rfl⟩

theorem Custody.turn (custody : Custody problem setting [] stage e)
    (turn : Turn setting applying e stage work nextStage next) :
    Custody problem setting work nextStage next := by
  cases turn with
  | emptied | allCarriedOut | resumed | settled | passed =>
      refine ⟨fun member unread => custody.stored member ?_, by simp, by simp,
        custody.deferred⟩
      simpa [Stage.member?] using unread
  | @taken member queue journal popped unprocessed =>
      have waiting : member ∉ e.world.processed := by
        simpa [isProcessed] using unprocessed
      refine ⟨fun other unread => custody.stored other ?_, by simp, ?_,
        custody.deferred⟩
      · rcases unread with isTaken | ⟨notYet, -⟩
        · obtain ⟨rfl, -⟩ := Stage.obeying.inj isTaken
          exact .inr ⟨waiting, by simp [Stage.member?]⟩
        · exact .inr ⟨notYet, by simp [Stage.member?]⟩
      · intro other commands isStage
        obtain ⟨-, rfl⟩ := Stage.obeying.inj isStage
        exact .inl rfl
  | @applying member commands =>
      obtain rfl := custody.rest_eq_nil
      refine ⟨fun other unread => custody.stored other ?_, ?_, by simp,
        custody.deferred⟩
      · rcases unread with impossible | elsewhere
        · cases impossible
        · exact .inr elsewhere
      · intro task listed entity isSource
        obtain rfl := List.mem_singleton.1 listed
        obtain rfl := Option.some.inj isSource
        exact ⟨member, rfl, rfl⟩
  | imposed | putOff | closed => cases custody.order_eq
  | @finished member =>
      refine ⟨fun other unread => custody.stored other ?_, by simp, by simp,
        custody.deferred⟩
      rcases unread with impossible | ⟨notYet, -⟩
      · cases impossible
      · simp only [registerProcessed, List.mem_insert_iff, not_or] at notYet
        exact .inr ⟨notYet.2, by simp [Stage.member?, Ne.symm notYet.1]⟩
  | drained =>
      refine ⟨fun member unread => custody.stored member ?_, ?_, by simp,
        custody.deferred⟩
      · simpa [Stage.member?] using unread
      · intro task listed entity isSource
        rw [Task.source?_of_isConsequence
          (Impact.isConsequence_tasks listed)] at isSource
        cases isSource
  | carriedOut deferred =>
      rw [custody.deferred] at deferred
      cases deferred

/-- An operation begins with all impacts still in custody. -/
theorem Custody.begin (custody : Custody problem setting [] .idle e)
    (unreleased : ∀ task ∈ work, task.source? = none)
    (resting : stage.member? = none) : Custody problem setting work stage e := by
  have notObeying : ∀ member commands, stage ≠ .obeying member commands := by
    rintro member commands rfl
    cases resting
  refine ⟨fun member unread => custody.stored member ?_, ?_, ?_,
    custody.deferred⟩
  · rcases unread with impossible | ⟨unprocessed, -⟩
    · exact absurd impossible (notObeying _ _)
    · exact .inr ⟨unprocessed, by simp [Stage.member?]⟩
  · intro task listed entity isSource
    rw [unreleased task listed] at isSource
    cases isSource
  · exact fun member commands isObeying =>
      absurd isObeying (notObeying member commands)

/-! ### Covered uses -/

/-- The uses that a stage of the loop is going to bring into the history. -/
def promisedIn (problem : Problem) : Stage → List Use
  | .obeying member commands =>
      if .applyItem ∈ commands then (problem.impactOf member).uses else []
  | _ => []

/-- A use is in the history or going to be. -/
def Covered (problem : Problem) (history : List Use) (work : List Task)
    (stage : Stage) (use : Use) : Prop :=
  use ∈ history ∨ use ∈ work.flatMap (Task.promised problem.support) ∨
    use ∈ promisedIn problem stage

/-- What is covered when nothing is left to be done is in the history. -/
theorem Covered.mem_history {use : Use}
    (covered : Covered problem history [] .idle use) : use ∈ history := by
  rcases covered with told | impossible | impossible
  · exact told
  · cases impossible
  · cases impossible

/-- What a task promises comes about in the step that carries it out, or its
followers promise it, as far as it is taken notice of at all. -/
theorem Effect.promised_kept {serving : σ → Bool → Prop} {asked : Bool}
    {use : Use} (effect : Effect setting e task tasks next)
    (admits : setting.strategy.admits use = true)
    (serves : setting.listener.Serves problem.support serving)
    (state : serving e.listener asked)
    (promised : use ∈ task.promised problem.support) :
    use ∈ task.noticed setting ∨
      use ∈ tasks.flatMap (Task.promised problem.support) := by
  cases effect with
  | refused refused =>
      rw [← List.mem_singleton.1 promised, admits] at refused
      cases refused
  | static admitted | dynamic admitted | creation admitted | test admitted
  | untested admitted | literal admitted =>
      rw [noticed_of_admitted admitted]
      exact .inl promised
  | @announced notice =>
      rw [Impact.promised_tasks, serves.impact notice state]
      cases notice with
      | queueOpened | instantiatedClass => exact .inr promised
      | queueDrained | queueClosed | closurized | staticTearOff | used
      | instantiatedType | implementedClass => simp [Task.promised] at promised
  | unapplied isEmpty =>
      rw [Task.promised, isEmpty] at promised
      cases promised
  | applied =>
      rw [List.flatMap_append, Impact.promised_tasks]
      exact .inr (List.mem_append_left _ promised)
  | superfluous | demanded | enlisted | skipped | closurized | entered
  | instantiated | released => simp [Task.promised] at promised

theorem Covered.step {serving : σ → Bool → Prop} {asked : Bool} {use : Use}
    (covered : Covered problem history (task :: work) stage use)
    (effect : Effect setting e task tasks next)
    (admits : setting.strategy.admits use = true)
    (serves : setting.listener.Serves problem.support serving)
    (state : serving e.listener asked) :
    Covered problem (history ++ task.noticed setting) (tasks ++ work) stage
      use := by
  rcases covered with old | promised | inStage
  · exact .inl (List.mem_append_left _ old)
  · rw [List.flatMap_cons] at promised
    rcases List.mem_append.1 promised with now | waits
    · rcases effect.promised_kept admits serves state now with
        noticed | follows
      · exact .inl (List.mem_append_right _ noticed)
      · exact .inr (.inl (by simpa using .inl (by simpa using follows)))
    · exact .inr (.inl (by simpa using .inr (by simpa using waits)))
  · exact .inr (.inr inStage)

theorem Covered.turn {use : Use} (covered : Covered problem history [] stage use)
    (custody : Custody problem setting [] stage e)
    (turn : Turn setting applying e stage work nextStage next) :
    Covered problem history work nextStage use := by
  rcases covered with old | impossible | inStage
  · exact .inl old
  · cases impossible
  · cases turn with
    | @applying member commands =>
        -- The impact that is read is the one that the stage has promised.
        obtain rfl := custody.rest_eq_nil
        rw [custody.stored member (.inl rfl)]
        refine .inr (.inl ?_)
        simpa [Task.promised, promisedIn] using inStage
    | imposed | putOff | closed => cases custody.order_eq
    | finished => simp [promisedIn] at inStage
    | emptied | passed | taken | drained | carriedOut | allCarriedOut | resumed
    | settled => cases inStage

/-- A member that is taken from the queue promises the uses of its impact. -/
theorem Covered.of_taken {member : MemberId} {use : Use}
    (isTaken : stage = .obeying member [.applyItem])
    (listed : use ∈ (problem.impactOf member).uses) :
    Covered problem history work stage use := by
  refine .inr (.inr ?_)
  simpa [isTaken, promisedIn] using listed

/-- A member whose impact is read after a turn was so before, or has just been
taken from the queue. -/
theorem Turn.read_or_taken {member : MemberId}
    (turn : Turn setting Exploration.applying e stage work nextStage next)
    (isRead : member ∈ next.world.processed ∨
      nextStage.member? = some member) :
    (member ∈ e.world.processed ∨ stage.member? = some member) ∨
      nextStage = .obeying member [.applyItem] := by
  cases turn with
  | taken =>
      rcases isRead with processed | current
      · exact .inl (.inl processed)
      · obtain rfl := Option.some.inj current
        exact .inr rfl
  | finished =>
      rcases isRead with processed | impossible
      · rcases List.mem_insert_iff.1 processed with rfl | before
        · exact .inl (.inr rfl)
        · exact .inl (.inl before)
      · cases impossible
  | emptied | passed | allCarriedOut | resumed | settled | applying | imposed
  | putOff | closed | carriedOut | drained => exact .inl isRead

/-- All that the rules ask for is covered. -/
structure Coverage (problem : Problem) (serving : σ → Bool → Prop)
    (seeds history : List Use) (work : List Task) (stage : Stage)
    (e : Exploration σ) (asked : Bool) : Prop where
  serves : serving e.listener asked
  seeds : ∀ use ∈ seeds, Covered problem history work stage use
  bodies : ∀ member,
    member ∈ e.world.processed ∨ stage.member? = some member →
      ∀ use ∈ (problem.impactOf member).uses,
        Covered problem history work stage use
  classes : ∀ cls ∈ e.processedClasses,
    ∀ use ∈ (problem.support.classImpacts.getD cls {}).uses,
      Covered problem history work stage use
  /-- The closure class is covered once it has been asked for. -/
  closure : asked = true → ∀ use ∈ problem.support.closureImpact.uses,
    Covered problem history work stage use
  /-- The closure class is asked for when something is torn off. -/
  tornOff : ∀ member bit, bit ≠ .normal →
    (e.world.appliedTo member).has bit = true →
      asked = true ∨ problem.support.closureClass = none ∨
        ∃ task ∈ work, task.isTearOff = true

namespace Coverage

variable {serving : σ → Bool → Prop} {seeds : List Use} {asked : Bool}

/-- What was covered before a step is covered after it.  It remains to be seen
to the classes that the step enters and to tear-offs. -/
theorem advance {askedNow : Bool}
    (coverage : Coverage problem serving seeds history (task :: work) stage e
      asked)
    (effect : Effect setting e task tasks next)
    (treeShaking : setting.strategy = .treeShaking)
    (listens : setting.listener.Serves problem.support serving)
    (books : Books setting history e) (serves : serving next.listener askedNow)
    (classes : ∀ cls ∈ next.processedClasses, cls ∈ e.processedClasses ∨
      .announce (.instantiatedClass cls) ∈ tasks)
    (closure : askedNow = true → asked = true ∨
      ∀ use ∈ problem.support.closureImpact.uses, .register use ∈ tasks)
    (tornOff : ∀ member bit, bit ≠ .normal →
      (next.world.appliedTo member).has bit = true →
        askedNow = true ∨ problem.support.closureClass = none ∨
          ∃ task ∈ tasks ++ work, task.isTearOff = true) :
    Coverage problem serving seeds (history ++ task.noticed setting)
      (tasks ++ work) stage next askedNow := by
  have kept : ∀ use, Covered problem history (task :: work) stage use →
      Covered problem (history ++ task.noticed setting) (tasks ++ work) stage
        use := fun use covered =>
    covered.step effect (by rw [treeShaking]; rfl) listens coverage.serves
  have planned : ∀ use follower, follower ∈ tasks →
      use ∈ follower.promised problem.support →
        Covered problem (history ++ task.noticed setting) (tasks ++ work) stage
          use := by
    intro use follower follows promised
    exact .inr (.inl (List.mem_flatMap.2
      ⟨follower, List.mem_append_left _ follows, promised⟩))
  refine ⟨serves, fun use seed => kept use (coverage.seeds use seed), ?_, ?_, ?_,
    tornOff⟩
  · rw [effect.processed_eq books]
    exact fun member isRead use listed =>
      kept use (coverage.bodies member isRead use listed)
  · intro cls entered use listed
    rcases classes cls entered with old | announced
    · exact kept use (coverage.classes cls old use listed)
    · exact planned use _ announced listed
  · intro isAsked use listed
    rcases closure isAsked with before | registers
    · exact kept use (coverage.closure before use listed)
    · exact planned use _ (registers use listed) (List.mem_singleton_self use)

theorem unheard {reports : List MemberReport}
    (coverage : Coverage problem serving seeds history (task :: work) stage e
      asked)
    (effect : Effect setting e task tasks next)
    (treeShaking : setting.strategy = .treeShaking)
    (listens : setting.listener.Serves problem.support serving)
    (books : Books setting history e) (listener : next.listener = e.listener)
    (notTearOff : task.isTearOff = false)
    (classes : ∀ cls ∈ next.processedClasses, cls ∈ e.processedClasses ∨
      .announce (.instantiatedClass cls) ∈ tasks)
    (grows : Grows e.world next.world reports)
    (reported : ∀ other ∈ reports.flatMap Task.ofMemberReport, other ∈ tasks) :
    Coverage problem serving seeds (history ++ task.noticed setting)
      (tasks ++ work) stage next asked := by
  refine coverage.advance effect treeShaking listens books
    (listener ▸ coverage.serves) classes .inl fun member bit isTearOff now => ?_
  have told := grows member bit
  rw [now] at told
  cases before : (e.world.appliedTo member).has bit with
  | true =>
      rcases coverage.tornOff member bit isTearOff before with
        isAsked | none | ⟨other, listed, tearsOff⟩
      · exact .inl isAsked
      · exact .inr (.inl none)
      · rcases List.mem_cons.1 listed with rfl | waits
        · rw [notTearOff] at tearsOff
          cases tearsOff
        · exact .inr (.inr ⟨other, List.mem_append_right _ waits, tearsOff⟩)
  | false =>
      have positive : 0 < tellings reports member bit := by
        simp only [before, Bool.toNat_false, Bool.toNat_true] at told
        omega
      obtain ⟨other, follows, tearsOff⟩ :=
        Task.exists_isTearOff_of_reported isTearOff positive
      exact .inr (.inr
        ⟨other, List.mem_append_left _ (reported other follows), tearsOff⟩)

theorem heard {notice : Notice}
    (coverage : Coverage problem serving seeds history (task :: work) stage e
      asked)
    (effect : Effect setting e task tasks next)
    (treeShaking : setting.strategy = .treeShaking)
    (listens : setting.listener.Serves problem.support serving)
    (books : Books setting history e)
    (listener : next.listener = (setting.listener.hear e.listener notice).2)
    (answers : ∀ other ∈
      (setting.listener.hear e.listener notice).1.impact.tasks, other ∈ tasks)
    (tearsOff : task.isTearOff = notice.isTearOff)
    (classes : next.processedClasses = e.processedClasses)
    (members : SameMembers e.world next.world) :
    Coverage problem serving seeds (history ++ task.noticed setting)
      (tasks ++ work) stage next (problem.support.asksAfter asked notice) := by
  refine coverage.advance effect treeShaking listens books
    (listener ▸ listens.next notice coverage.serves)
    (fun cls entered => .inl (classes ▸ entered)) ?_ ?_
  · intro askedNow
    rw [listens.impact notice coverage.serves] at answers
    cases asked with
    | true => exact .inl rfl
    | false =>
        refine .inr fun use listed =>
          answers _ (List.mem_map.2 ⟨use, ?_, rfl⟩)
        simp only [RuntimeSupport.asksAfter, Bool.false_or, Bool.and_eq_true]
          at askedNow
        cases notice with
        | closurized | staticTearOff => exact listed
        | queueOpened | queueDrained | queueClosed | used | instantiatedType
        | instantiatedClass | implementedClass => cases askedNow.1
  · intro member bit isTearOff now
    rw [members.appliedTo] at now
    cases isNotice : notice.isTearOff with
    | true =>
        cases closureClass : problem.support.closureClass with
        | none => exact .inr (.inl rfl)
        | some =>
            refine .inl ?_
            simp [RuntimeSupport.asksAfter, isNotice, closureClass]
    | false =>
        have same : problem.support.asksAfter asked notice = asked := by
          simp [RuntimeSupport.asksAfter, isNotice]
        rw [same]
        rcases coverage.tornOff member bit isTearOff now with
          isAsked | none | ⟨other, listed, isOther⟩
        · exact .inl isAsked
        · exact .inr (.inl none)
        · rcases List.mem_cons.1 listed with rfl | waits
          · rw [tearsOff, isNotice] at isOther
            cases isOther
          · exact .inr (.inr ⟨other, List.mem_append_right _ waits, isOther⟩)

theorem step
    (coverage : Coverage problem serving seeds history (task :: work) stage e
      asked)
    (effect : Effect setting e task tasks next)
    (treeShaking : setting.strategy = .treeShaking)
    (listens : setting.listener.Serves problem.support serving)
    (books : Books setting history e) :
    ∃ askedNow, Coverage problem serving seeds
      (history ++ task.noticed setting) (tasks ++ work) stage next
        askedNow := by
  have unconcerned : next.listener = e.listener → task.isTearOff = false →
      next.processedClasses = e.processedClasses →
      SameMembers e.world next.world →
        Coverage problem serving seeds (history ++ task.noticed setting)
          (tasks ++ work) stage next asked := by
    intro listener notTearOff classes members
    exact coverage.unheard effect treeShaking listens books listener notTearOff
      (fun cls entered => .inl (classes ▸ entered))
      (.of_same_usage members.memberUsage) (by simp)
  have isEffect := effect
  cases effect with
  | static admitted registered =>
      have learns := Scope.learns_static books registered
      exact ⟨asked, coverage.unheard isEffect treeShaking listens books rfl rfl
        (fun cls entered => .inl entered) learns.grows
        (fun other listed => List.mem_append_left _ listed)⟩
  | dynamic admitted registered =>
      have learns := Scope.learns_dynamic books registered
      exact ⟨asked, coverage.unheard isEffect treeShaking listens books rfl rfl
        (fun cls entered => .inl entered) learns.grows
        (fun other listed => listed)⟩
  | @entered cls world reports entered =>
      have learns := World.Balanced.learns_class books entered
      refine ⟨asked, coverage.unheard isEffect treeShaking listens books rfl rfl
        (fun other isEntered => ?_) learns.grows
        (fun other listed => List.mem_append_left _ listed)⟩
      rcases List.mem_insert_iff.1 isEntered with rfl | old
      · exact .inr (List.mem_append_right _ (List.mem_singleton_self _))
      · exact .inl old
  | instantiated registered =>
      exact ⟨asked, unconcerned rfl rfl rfl (same_of_instantiation registered).1⟩
  | enlisted used | skipped used =>
      simp only [registerUsed, bind_eq_ok_iff, pure_eq_ok_iff] at used
      obtain ⟨decl, -, rfl⟩ := used
      exact ⟨asked, unconcerned rfl rfl rfl ⟨rfl, rfl, rfl, rfl⟩⟩
  | refused | creation | test | untested | literal | superfluous | unapplied
  | applied | released =>
      exact ⟨asked, unconcerned rfl rfl rfl ⟨rfl, rfl, rfl, rfl⟩⟩
  | demanded =>
      exact ⟨_, coverage.heard isEffect treeShaking listens books rfl
        (fun other listed => List.mem_append_left _ listed) rfl rfl
        ⟨rfl, rfl, rfl, rfl⟩⟩
  | closurized =>
      exact ⟨_, coverage.heard isEffect treeShaking listens books rfl
        (fun other listed => listed) rfl rfl ⟨rfl, rfl, rfl, rfl⟩⟩
  | announced =>
      exact ⟨_, coverage.heard isEffect treeShaking listens books rfl
        (fun other listed => listed) rfl rfl ⟨rfl, rfl, rfl, rfl⟩⟩

theorem turn
    (coverage : Coverage problem serving seeds history [] stage e asked)
    (custody : Custody problem setting [] stage e)
    (turn : Turn setting applying e stage work nextStage next)
    (listens : setting.listener.Serves problem.support serving) :
    Coverage problem serving seeds history work nextStage next asked := by
  have serves : serving next.listener asked := by
    cases turn with
    | drained =>
        have after := listens.next (.queueDrained e.recent.listed) coverage.serves
        simpa [RuntimeSupport.asksAfter, Notice.isTearOff] using after
    | closed =>
        have after := listens.next .queueClosed coverage.serves
        simpa [RuntimeSupport.asksAfter, Notice.isTearOff] using after
    | emptied | passed | taken | applying | imposed | putOff | finished
    | carriedOut | allCarriedOut | resumed | settled => exact coverage.serves
  obtain ⟨members, entered⟩ := turn.sameMembers
  refine ⟨serves, fun use seed => ?_, fun member current use listed => ?_, ?_,
    fun isAsked use listed => ?_, fun member bit isTearOff now => ?_⟩
  · exact (coverage.seeds use seed).turn custody turn
  · rcases turn.read_or_taken current with before | isTaken
    · exact (coverage.bodies member before use listed).turn custody turn
    · exact .of_taken isTaken listed
  · rw [entered]
    exact fun cls isEntered use listed =>
      (coverage.classes cls isEntered use listed).turn custody turn
  · exact (coverage.closure isAsked use listed).turn custody turn
  · rw [members.appliedTo] at now
    rcases coverage.tornOff member bit isTearOff now with
      isAsked | none | ⟨other, impossible, -⟩
    · exact .inl isAsked
    · exact .inr (.inl none)
    · cases impossible

end Coverage

end Exploration

end TreeShaking
