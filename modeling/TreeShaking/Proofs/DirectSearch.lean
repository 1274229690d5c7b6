import TreeShaking.Proofs.Halting
import TreeShaking.Proofs.QueueOrder

/-!
# The search along direct uses

A resolution that takes notice of direct uses only is a search.  It begins at the
direct uses of the first impact and at the helpers of the runtime, and it goes on
along the direct uses in the code of the members that it comes to.  A direct use
calls its member, so that a setter is passed by, and nothing is ever instantiated,
tested or torn off.

`Problem.ComesUpon` describes the search without the queue.  Three facts tie a run
to it (`Searching`): every use in the history is one that the search comes upon,
the uses to begin with are covered, and so are those in the code of every member
that has been read.
-/

namespace TreeShaking

open Outcome World

/-! ### The search -/

/-- The direct uses of an impact. -/
def Impact.directUses (impact : Impact) : List StaticUse :=
  impact.statics.filter fun use => use.kind = .directUse

/-- A member that is processed when it is called: it is declared and well-formed,
and it is no setter. -/
def Program.IsCallable (program : Program) (member : MemberId) : Prop :=
  ∃ decl, program.member member = .ok decl ∧ decl.isSetter = false ∧
    decl.isMalformed = false

namespace Problem

/-- The direct uses that a search along direct uses comes upon. -/
inductive ComesUpon (problem : Problem) : StaticUse → Prop
  | entry {use : StaticUse} (listed : use ∈ problem.entry.directUses) :
      ComesUpon problem use
  | helper {member : MemberId} (listed : member ∈ problem.support.helpers) :
      ComesUpon problem ⟨.directUse, member, none⟩
  | body {source use : StaticUse} (found : ComesUpon problem source)
      (callable : problem.program.IsCallable source.member)
      (listed : use ∈ (problem.impactOf source.member).directUses) :
      ComesUpon problem use

/-- The members that a search along direct uses leads to. -/
def LeadsTo (problem : Problem) (member : MemberId) : Prop :=
  (∃ use, problem.ComesUpon use ∧ use.member = member) ∧
    problem.program.IsCallable member

/-- The uses that a search along direct uses takes notice of. -/
def Expects (problem : Problem) : Use → Prop
  | .static use => problem.ComesUpon use
  | .dynamic _ | .type _ => False

end Problem

theorem Strategy.admits_directOnly {use : Use}
    (admits : Strategy.directOnly.admits use = true) :
    ∃ found, use = .static found ∧ found.kind = .directUse := by
  cases use with
  | static found => exact ⟨found, rfl, by simpa [Strategy.admits] using admits⟩
  | dynamic | type => cases admits

theorem Impact.mem_directUses_iff (impact : Impact) (use : StaticUse) :
    use ∈ impact.directUses ↔
      .static use ∈ impact.uses ∧
        Strategy.directOnly.admits (.static use) = true := by
  simp [directUses, uses, Strategy.admits]

theorem Problem.ComesUpon.isDirect {problem : Problem} {use : StaticUse}
    (found : problem.ComesUpon use) : use.kind = .directUse := by
  cases found with
  | entry listed | body _ _ listed =>
      simpa [Strategy.admits] using ((Impact.mem_directUses_iff _ _).1 listed).2
  | helper => rfl

theorem Problem.expects_of_listed {problem : Problem} {impact : Impact}
    (found : ∀ use ∈ impact.directUses, problem.ComesUpon use) {use : Use}
    (listed : use ∈ impact.uses)
    (admits : Strategy.directOnly.admits use = true) : problem.Expects use := by
  obtain ⟨static, rfl, -⟩ := Strategy.admits_directOnly admits
  exact found static ((impact.mem_directUses_iff static).2 ⟨listed, admits⟩)

/-! ### What direct uses leave alone -/

theorem MemberDecl.grants_invoke (decl : MemberDecl) (bit : UseBit) :
    decl.grants .invoke bit = true ↔
      bit = .normal ∧ decl.isSetter = false := by
  cases bit with
  | normal => simp [decl.grants_normal, supports]
  | closurizeInstance | closurizeStatic =>
      unfold grants
      cases decl.shape <;> simp [MemberShape.grants]

namespace World

/-- Nothing is noted but the usages of members and how far they have come. -/
def IsBare (world : World) : Prop :=
  world =
    { memberUsage := world.memberUsage
      used := world.used
      processed := world.processed
      staticFields := world.staticFields }

/-- A direct use changes the usage of its member and nothing else. -/
theorem IsBare.registerStatic {world final : World} {program : Program}
    {use : StaticUse} {reports : List MemberReport} (bare : world.IsBare)
    (direct : use.kind = .directUse)
    (registered : world.registerStatic program use = .ok (final, reports)) :
    final.IsBare := by
  simp only [World.registerStatic, bind_eq_ok_iff, pure_eq_ok_iff,
    Prod.mk.injEq] at registered
  obtain ⟨decl, -, rfl, -⟩ := registered
  have unchanged : world.noteStatic use decl = world := by
    simp [noteStatic, direct]
  rw [unchanged, IsBare, setUsage, bare]

theorem IsBare.registerUsed {world final : World} {program : Program}
    {member : MemberId} (bare : world.IsBare)
    (used : world.registerUsed program member = .ok final) : final.IsBare := by
  simp only [World.registerUsed, bind_eq_ok_iff, pure_eq_ok_iff] at used
  obtain ⟨decl, -, rfl⟩ := used
  rw [IsBare, bare]

theorem IsBare.registerProcessed {world : World} (bare : world.IsBare)
    (member : MemberId) : (world.registerProcessed member).IsBare := by
  rw [IsBare, World.registerProcessed, bare]

end World

namespace Exploration

variable {σ : Type} {setting : Setting σ} {problem : Problem}
  {serving : σ → Bool → Prop} {seeds history : List Use} {task : Task}
  {work tasks : List Task} {stage nextStage : Stage} {e next : Exploration σ}
  {member : MemberId}

/-- All uses in a history are direct. -/
def AllDirect (history : List Use) : Prop :=
  ∀ use ∈ history, Strategy.directOnly.admits use = true

theorem AllDirect.kind_eq (direct : AllDirect history) {use : StaticUse}
    (told : .static use ∈ history) : use.kind = .directUse := by
  simpa [Strategy.admits] using direct _ told

theorem AllDirect.not_dynamic (direct : AllDirect history) (use : DynamicUse) :
    .dynamic use ∉ history := fun told => by cases direct _ told

/-- Direct uses ask for no instances. -/
theorem AllDirect.not_asks (direct : AllDirect history) (type : InterfaceType)
    (flags : InstantiationFlags) : ¬ Asks history type flags := by
  rintro ⟨use, told, instantiates⟩
  obtain ⟨found, rfl, isDirect⟩ := Strategy.admits_directOnly (direct use told)
  simp only [Use.instantiation?, StaticUse.instantiation?, isDirect] at instantiates
  split at instantiates <;> simp [StaticUseKind.isConstructor] at instantiates

/-- No class has instances as long as all uses are direct. -/
theorem Classes.not_isInstantiated (classes : Classes setting history work e)
    (direct : AllDirect history) (cls : ClassId) :
    e.world.isInstantiated cls ≠ true := by
  intro instantiated
  obtain ⟨lower, isDirect, -⟩ := classes.instantiated cls instantiated
  obtain ⟨type, flags, asks, -⟩ := classes.direct lower isDirect
  exact direct.not_asks type flags asks

/-- Direct uses apply the ordinary use of a member, unless it is a setter. -/
theorem Books.appliedTo_iff_called (books : Books setting history e)
    (direct : AllDirect history) (member : MemberId) (bit : UseBit) :
    (e.world.appliedTo member).has bit = true ↔
      bit = .normal ∧ (∃ use, .static use ∈ history ∧ use.member = member) ∧
        ∃ decl, setting.program.member member = .ok decl ∧
          decl.isSetter = false := by
  rw [World.Balanced.appliedTo_iff books]
  constructor
  · rintro ⟨decl, declared, justified⟩
    cases justified with
    | named use access told names accesses grants =>
        rw [direct.kind_eq told] at accesses
        obtain rfl := Option.some.inj accesses
        obtain ⟨isNormal, isNoSetter⟩ := (decl.grants_invoke bit).1 grants
        exact ⟨isNormal, ⟨use, told, names⟩, decl, declared, isNoSetter⟩
    | reached use told => exact absurd told (direct.not_dynamic use)
  · rintro ⟨isNormal, ⟨use, told, names⟩, decl, declared, isNoSetter⟩
    have accesses : use.kind.access? = some .invoke := by
      rw [direct.kind_eq told]
      rfl
    exact ⟨decl, declared, .named use .invoke told names accesses
      ((decl.grants_invoke bit).2 ⟨isNormal, isNoSetter⟩)⟩

/-- Direct uses tear nothing off. -/
theorem Lifecycle.closurize_not_planned
    (lifecycle : Lifecycle setting history work stage e)
    (direct : AllDirect history) : .closurize member ∉ work := by
  intro planned
  have known := lifecycle.tearOffs member
  have positive : 0 < work.countP (Task.tearsOff member) :=
    List.countP_pos_iff.2 ⟨_, planned, by simp [Task.tearsOff]⟩
  cases torn : (e.world.appliedTo member).closurizeInstance with
  | true =>
      obtain ⟨impossible, -⟩ := (lifecycle.books.appliedTo_iff_called direct
        member .closurizeInstance).1 torn
      cases impossible
  | false =>
      rw [torn, Bool.toNat_false] at known
      omega

/-! ### What follows from a task -/

theorem promised_ofMemberReport (support : RuntimeSupport)
    (reports : List MemberReport) :
    (reports.flatMap Task.ofMemberReport).flatMap (Task.promised support) =
      [] := by
  rw [List.flatMap_eq_nil_iff]
  intro task listed
  obtain ⟨report, -, ⟨-, rfl⟩ | ⟨-, rfl⟩ | ⟨-, rfl⟩⟩ :=
    Task.eq_of_mem_ofMemberReport listed
  · rfl
  · rfl
  · rfl

theorem admits_closureImpact (support : RuntimeSupport) {use : Use}
    (listed : use ∈ support.closureImpact.uses) :
    Strategy.directOnly.admits use = false := by
  unfold RuntimeSupport.closureImpact at listed
  split at listed
  · simp only [Impact.uses, List.map_nil, List.nil_append, List.map_cons,
      List.mem_singleton] at listed
    rw [listed]
    rfl
  · simp [Impact.uses] at listed

/-- The direct uses in an answer of the listener are promised when it is told
the notice. -/
theorem promised_of_answer {support : RuntimeSupport} {asked : Bool}
    {notice : Notice} {use : Use}
    (listed : use ∈ (support.answer asked notice).uses)
    (admits : Strategy.directOnly.admits use = true) :
    use ∈ (Task.announce notice).promised support := by
  cases notice with
  | queueOpened | instantiatedClass => exact listed
  | closurized | staticTearOff =>
      cases asked with
      | true => simp [RuntimeSupport.answer, Impact.uses] at listed
      | false =>
          rw [admits_closureImpact support listed] at admits
          cases admits
  | queueDrained | queueClosed | used | instantiatedType | implementedClass =>
      simp [RuntimeSupport.answer, Impact.uses] at listed

/-- What the followers of a task promise, the task has promised, unless it enters
a class. -/
theorem Effect.promised_before {asked : Bool} {use : Use}
    (effect : Effect setting e task tasks next)
    (listens : setting.listener.Serves problem.support serving)
    (serves : serving e.listener asked) (unentered : ∀ cls, task ≠ .enterClass cls)
    (admits : Strategy.directOnly.admits use = true)
    (promised : use ∈ tasks.flatMap (Task.promised problem.support)) :
    use ∈ task.promised problem.support := by
  have answered : ∀ notice, use ∈ ((setting.listener.hear e.listener
      notice).1.impact.tasks).flatMap (Task.promised problem.support) →
        use ∈ (Task.announce notice).promised problem.support := by
    intro notice listed
    rw [Impact.promised_tasks, listens.impact notice serves] at listed
    exact promised_of_answer listed admits
  cases effect with
  | static =>
      rw [List.flatMap_append, promised_ofMemberReport, List.nil_append]
        at promised
      obtain ⟨follower, follows, promises⟩ := List.mem_flatMap.1 promised
      obtain ⟨type, flags, -, rfl⟩ := StaticUse.eq_of_mem_creation follows
      cases promises
  | dynamic =>
      rw [promised_ofMemberReport] at promised
      cases promised
  | demanded =>
      rw [List.flatMap_append] at promised
      rcases List.mem_append.1 promised with answers | enlists
      · cases answered _ answers
      · cases enlists
  | closurized => cases answered _ promised
  | announced => exact answered _ promised
  | entered => exact absurd rfl (unentered _)
  | instantiated =>
      obtain ⟨follower, follows, promises⟩ := List.mem_flatMap.1 promised
      rcases List.mem_append.1 follows with reported | announces
      · obtain ⟨report, -, ⟨-, rfl⟩ | ⟨-, rfl⟩⟩ :=
          Task.eq_of_mem_ofClassReport reported
        · cases promises
        · cases promises
      · obtain rfl := List.mem_singleton.1 announces
        cases promises
  | applied =>
      rw [List.flatMap_append, Impact.promised_tasks] at promised
      rcases List.mem_append.1 promised with listed | releases
      · exact listed
      · cases releases
  | creation | refused | test | untested | literal | superfluous | enlisted
  | skipped | unapplied | released => cases promised

/-- A use that is taken notice of is admitted and was promised. -/
theorem promised_of_noticed {support : RuntimeSupport} {use : Use}
    (noticed : use ∈ task.noticed setting) :
    setting.strategy.admits use = true ∧ use ∈ task.promised support := by
  cases task with
  | register registered =>
      unfold Task.noticed at noticed
      dsimp only at noticed
      split at noticed
      · rename_i admits
        obtain rfl := List.mem_singleton.1 noticed
        exact ⟨admits, List.mem_singleton_self use⟩
      · cases noticed
  | demand | enlist | closurize | announce | enterClass | instantiate | apply
  | release | command | takeNext | finish | drained | runDeferred | resume =>
      cases noticed

/-! ### The search in progress -/

/-- All that is known about a resolution that follows direct uses. -/
structure Searching (problem : Problem) (setting : Setting σ)
    (serving : σ → Bool → Prop) (seeds history : List Use) (work : List Task)
    (stage : Stage) (e : Exploration σ) : Prop
    extends Recorded setting history work stage e where
  custody : Custody problem setting work stage e
  issues : Issues setting stage e
  isOpen : e.state ≠ .closed
  serves : ∃ asked, serving e.listener asked
  bare : e.world.IsBare
  /-- Only what the search comes upon is in the history. -/
  told : ∀ use ∈ history, problem.Expects use
  /-- Only what the search comes upon is going to be. -/
  planned : ∀ use ∈ work.flatMap (Task.promised problem.support),
    setting.strategy.admits use = true → problem.Expects use
  seeds : ∀ use ∈ seeds, setting.strategy.admits use = true →
    Covered problem history work stage use
  bodies : ∀ member,
    member ∈ e.world.processed ∨ stage.member? = some member →
      ∀ use ∈ (problem.impactOf member).uses,
        setting.strategy.admits use = true →
          Covered problem history work stage use

/-- A resolution is set to follow the direct uses of a problem. -/
structure Follows (problem : Problem) (setting : Setting σ)
    (serving : σ → Bool → Prop) : Prop where
  scope : setting.scope = .resolution
  strategy : setting.strategy = .directOnly
  program : problem.program = setting.program
  built : setting.program.Built
  listens : setting.listener.Serves problem.support serving

namespace Searching

theorem direct
    (known : Searching problem setting serving seeds history work stage e) :
    AllDirect history := by
  intro use told
  have expected := known.told use told
  cases use with
  | static found =>
      simpa [Strategy.admits] using Problem.ComesUpon.isDirect expected
  | dynamic | type => cases expected

theorem enterClass_not_planned
    (known : Searching problem setting serving seeds history work stage e)
    (cls : ClassId) : .enterClass cls ∉ work := fun planned =>
  known.classes.not_isInstantiated known.direct cls
    (known.classes.isInstantiated_of_planned planned)

theorem instantiate_not_planned
    (known : Searching problem setting serving seeds history work stage e)
    {type : InterfaceType} {constructor : Option MemberId}
    {flags : InstantiationFlags} {isGlobal : Bool} :
    .instantiate type constructor flags isGlobal ∉ work := fun planned =>
  known.direct.not_asks type flags
    (known.classes.planned type constructor flags isGlobal planned)

/-- The members whose ordinary use is applied are those that the uses in the
history call. -/
theorem leadsTo_of_normal
    (known : Searching problem setting serving seeds history work stage e)
    (follows : Follows problem setting serving)
    (normal : (e.world.appliedTo member).normal = true)
    (wellFormed : setting.program.isMalformed member = false) :
    problem.LeadsTo member := by
  obtain ⟨-, ⟨use, told, names⟩, decl, declared, isNoSetter⟩ :=
    (known.lifecycle.books.appliedTo_iff_called known.direct member .normal).1
      normal
  rw [Program.isMalformed_of_declared declared] at wellFormed
  exact ⟨⟨use, known.told _ told, names⟩,
    decl, follows.program ▸ declared, isNoSetter, wellFormed⟩

/-- A step of the search keeps the world bare. -/
theorem bare_step
    (known : Searching problem setting serving seeds history (task :: work)
      stage e)
    (follows : Follows problem setting serving)
    (effect : Effect setting e task tasks next) : next.world.IsBare := by
  have bare := known.bare
  have refuses : ∀ use, setting.strategy.admits use = true →
      ∃ found, use = .static found ∧ found.kind = .directUse := by
    rw [follows.strategy]
    exact fun use => Strategy.admits_directOnly
  cases effect with
  | static admitted registered =>
      obtain ⟨_, isStatic, direct⟩ := refuses _ admitted
      obtain rfl := Use.static.inj isStatic
      rw [follows.scope, Scope.registerStatic] at registered
      split at registered
      · cases registered
      · exact bare.registerStatic direct registered
  | dynamic admitted | creation admitted | test admitted | untested admitted
  | literal admitted =>
      obtain ⟨_, impossible, -⟩ := refuses _ admitted
      cases impossible
  | enlisted used | skipped used => exact bare.registerUsed used
  | closurized =>
      exact absurd List.mem_cons_self
        (known.lifecycle.closurize_not_planned known.direct)
  | entered => exact absurd List.mem_cons_self (known.enterClass_not_planned _)
  | instantiated => exact absurd List.mem_cons_self known.instantiate_not_planned
  | refused | superfluous | demanded | announced | unapplied | applied
  | released => exact bare

theorem step
    (known : Searching problem setting serving seeds history (task :: work)
      stage e)
    (follows : Follows problem setting serving)
    (effect : Effect setting e task tasks next) :
    Searching problem setting serving seeds (history ++ task.noticed setting)
      (tasks ++ work) stage next := by
  have books := known.lifecycle.books
  obtain ⟨asked, serves⟩ := known.serves
  have ahead : ∀ use ∈ task.promised problem.support,
      setting.strategy.admits use = true → problem.Expects use :=
    fun use promised => known.planned use
      (List.mem_flatMap.2 ⟨task, List.mem_cons_self, promised⟩)
  have serviced := (serviced_invariant follows.built follows.listens
    applying).step ⟨known.toTracked, known.serves⟩ effect
  refine
    { (recorded_invariant follows.built applying).step known.toRecorded
        effect with
      custody := known.custody.step books effect
      issues := known.issues.effect books effect
      isOpen := effect.state_eq ▸ known.isOpen
      serves := serviced.serves
      bare := known.bare_step follows effect
      told := ?_, planned := ?_, seeds := ?_, bodies := ?_ }
  · intro use told
    rcases List.mem_append.1 told with old | new
    · exact known.told use old
    · obtain ⟨admits, promised⟩ := promised_of_noticed new
      exact ahead use promised admits
  · intro use promised admits
    rw [List.flatMap_append] at promised
    rcases List.mem_append.1 promised with follower | waits
    · have unentered : ∀ cls, task ≠ .enterClass cls := by
        rintro cls rfl
        exact known.enterClass_not_planned cls List.mem_cons_self
      exact ahead use (effect.promised_before follows.listens serves unentered
        (follows.strategy ▸ admits) follower) admits
    · exact known.planned use
        (by rw [List.flatMap_cons]; exact List.mem_append_right _ waits) admits
  · exact fun use seed admits =>
      (known.seeds use seed admits).step effect admits follows.listens serves
  · rw [effect.processed_eq books]
    exact fun member isRead use listed admits =>
      (known.bodies member isRead use listed admits).step effect admits
        follows.listens serves

/-- The code of a member that is taken from the queue is part of the search. -/
theorem planned_turn
    (known : Searching problem setting serving seeds history [] stage e)
    (follows : Follows problem setting serving)
    (turn : Turn setting applying e stage work nextStage next) :
    ∀ use ∈ work.flatMap (Task.promised problem.support),
      setting.strategy.admits use = true → problem.Expects use := by
  intro use promised admits
  rw [follows.strategy] at admits
  cases turn with
  | @applying member commands =>
      obtain rfl := known.custody.rest_eq_nil
      obtain ⟨⟨source, found, rfl⟩, callable⟩ := known.leadsTo_of_normal follows
        (known.lifecycle.normal_of_current rfl)
        (known.lifecycle.wellFormed member (.inr (.inl rfl)))
      rw [List.flatMap_singleton, Task.promised,
        known.custody.stored _ (.inl rfl)] at promised
      exact Problem.expects_of_listed
        (fun use listed => .body found callable listed) promised admits
  | imposed => cases known.custody.order_eq
  | drained =>
      obtain ⟨asked, serves⟩ := known.serves
      rw [Impact.promised_tasks, follows.listens.impact _ serves] at promised
      cases promised
  | carriedOut deferred =>
      rw [known.custody.deferred] at deferred
      cases deferred
  | emptied | passed | taken | putOff | closed | finished | allCarriedOut
  | resumed | settled => cases promised

theorem turn
    (known : Searching problem setting serving seeds history [] stage e)
    (follows : Follows problem setting serving)
    (turn : Turn setting applying e stage work nextStage next) :
    Searching problem setting serving seeds history work nextStage next := by
  have bare : next.world.IsBare := by
    cases turn with
    | finished => exact known.bare.registerProcessed _
    | emptied | passed | taken | applying | imposed | putOff | closed | drained
    | carriedOut | allCarriedOut | resumed | settled => exact known.bare
  have serviced := (serviced_invariant follows.built follows.listens
    applying).turn ⟨known.toTracked, known.serves⟩ turn
  refine
    { (recorded_invariant follows.built applying).turn known.toRecorded
        turn with
      custody := known.custody.turn turn
      issues := known.issues.turn turn
      isOpen := (known.custody.turn_frame turn).1 ▸ known.isOpen
      serves := serviced.serves
      bare := bare
      told := known.told
      planned := known.planned_turn follows turn
      seeds := fun use seed admits =>
        (known.seeds use seed admits).turn known.custody turn
      bodies := ?_ }
  intro member isRead use listed admits
  rcases turn.read_or_taken isRead with before | isTaken
  · exact (known.bodies member before use listed admits).turn known.custody turn
  · exact .of_taken isTaken listed

end Searching

theorem searching_invariant (seeds : List Use)
    (follows : Follows problem setting serving) :
    Invariant setting applying
      (Searching problem setting serving seeds) where
  step known effect := known.step follows effect
  turn known turn := known.turn follows turn

end Exploration

end TreeShaking
