import TreeShaking.Listener.Backend
import TreeShaking.Proofs.ClassUses
import TreeShaking.Proofs.Growth
import TreeShaking.Proofs.RecentClasses
import TreeShaking.Proofs.Run.Counts

/-!
# What the backend is told

The backend counts what it is told: the members that come into use, the members
that are torn off, and the classes that get instances or are implemented.  Each of
these matters has an extent in the world (`World.extent`), and it grows by what
the reports of a registration tell.

The backend is told later, when the tasks that follow from the reports are carried
out.  So at any time the notices it has heard and those that tasks at hand still
owe it add up to the extent (`Ledger.notices`).  Rounds are counted apart, since
they do not depend on the world.
-/

namespace TreeShaking

open Outcome World

/-! ### Lists and reports -/

theorem count_eq_toNat {α : Type} [DecidableEq α] {list : List α} {element : α}
    {answer : Bool} (nodup : list.Nodup)
    (listed : element ∈ list ↔ answer = true) :
    list.count element = answer.toNat := by
  rw [nodup.count, toNat_eq_ite listed]

/-- If each element is told as often as it is new, then as many are told as there
are new ones. -/
theorem length_of_told {α ν : Type} [DecidableEq α] (reports : List (α × ν))
    (tells : ν → Bool) {before after : List α}
    (told : ∀ element,
      reports.countP (fun report => report.1 = element && tells report.2) +
        before.count element = after.count element) :
    reports.countP (fun report => tells report.2) + before.length =
      after.length := by
  have same : ((reports.filter fun report => tells report.2).map Prod.fst ++
      before).Perm after := by
    rw [List.perm_iff_count]
    intro element
    rw [List.count_append, ← told, List.count, List.countP_map,
      List.countP_filter]
    rfl
  rw [← same.length_eq, List.length_append, List.length_map,
    ← List.countP_eq_length_filter]

/-! ### Matters -/

/-- Something that the backend counts. -/
inductive Matter where
  /-- Members to which a use is applied. -/
  | member (bit : UseBit)
  /-- Classes that have instances. -/
  | instantiated
  /-- Classes that are implemented. -/
  | implemented

/-- Whether a notice is about a matter. -/
def Notice.isAbout : Notice → Matter → Bool
  | .used _, .member .normal
  | .closurized _, .member .closurizeInstance
  | .staticTearOff, .member .closurizeStatic
  | .instantiatedClass _, .instantiated
  | .implementedClass _, .implemented => true
  | _, _ => false

/-- How many notices about a matter have been counted. -/
def BackendCounters.of (counters : BackendCounters) : Matter → Nat
  | .member .normal => counters.usedElements
  | .member .closurizeInstance => counters.closurizedMembers
  | .member .closurizeStatic => counters.staticTearOffs
  | .instantiated => counters.instantiatedClasses
  | .implemented => counters.implementedClasses

/-- Whether the news about a member concerns a matter. -/
def MemberUses.tells (uses : MemberUses) : Matter → Bool
  | .member bit => uses.has bit
  | .instantiated | .implemented => false

/-- Whether the news about a class concerns a matter. -/
def ClassUses.tells (uses : ClassUses) : Matter → Bool
  | .member _ => false
  | .instantiated => uses.instantiated
  | .implemented => uses.implemented

namespace Backend

theorem counters_respond (backend : Backend) (notice : Notice) :
    (backend.respond notice).2.counters = backend.counters := by
  cases notice with
  | closurized | staticTearOff =>
      unfold respond requestClosure
      dsimp only
      split
      · rfl
      · rfl
  | queueOpened | queueClosed | queueDrained | used | instantiatedType
  | instantiatedClass | implementedClass => rfl

/-- The backend counts a notice among those about its matter only. -/
theorem of_hear (backend : Backend) (notice : Notice) (matter : Matter) :
    (backend.hear notice).2.counters.of matter =
      backend.counters.of matter + (notice.isAbout matter).toNat := by
  change (count (backend.respond notice).2.counters notice).of matter = _
  rw [counters_respond]
  cases matter with
  | member bit => cases bit <;> cases notice <;> rfl
  | instantiated | implemented => cases notice <;> rfl

theorem rounds_hear (backend : Backend) (notice : Notice) :
    (backend.hear notice).2.counters.queueEmptyRounds =
      backend.counters.queueEmptyRounds +
        (Task.announce notice).showsClasses.toNat := by
  change (count (backend.respond notice).2.counters notice).queueEmptyRounds = _
  rw [counters_respond]
  cases notice <;> rfl

end Backend

/-! ### The extent of a matter -/

namespace World

variable {before after : World}

/-- The members to which a use is applied. -/
def membersWith (world : World) (bit : UseBit) : List MemberId :=
  world.usedMembers.filter fun member => (world.appliedTo member).has bit

/-- How many members or classes a matter concerns. -/
def extent (world : World) : Matter → Nat
  | .member bit => (world.membersWith bit).length
  | .instantiated => world.instantiatedClasses.length
  | .implemented => world.implementedClasses.length

theorem mem_usedMembers_iff (world : World) (member : MemberId) :
    member ∈ world.usedMembers ↔
      ∃ bit, (world.appliedTo member).has bit = true := by
  rw [mem_usedMembers, appliedTo]
  cases world.memberUsage.get? member with
  | some usage => simp
  | none =>
      simp only [reduceCtorEq, false_and, exists_false, Option.map_none,
        Option.getD_none, false_iff, not_exists]
      intro bit
      cases bit <;> simp [MemberUses.has]

@[simp]
theorem mem_membersWith (world : World) (bit : UseBit) (member : MemberId) :
    member ∈ world.membersWith bit ↔
      (world.appliedTo member).has bit = true := by
  rw [membersWith, List.mem_filter, mem_usedMembers_iff]
  exact ⟨And.right, fun applied => ⟨⟨bit, applied⟩, applied⟩⟩

theorem nodup_membersWith (world : World) (bit : UseBit) :
    (world.membersWith bit).Nodup :=
  (Handle.nodup_ascending _).filter _

theorem nodup_instantiatedClasses (world : World) :
    world.instantiatedClasses.Nodup :=
  Handle.nodup_ascending _

theorem nodup_implementedClasses (world : World) :
    world.implementedClasses.Nodup :=
  Handle.nodup_ascending _

theorem extent_of_same (members : after.memberUsage = before.memberUsage)
    (classes : after.classUsage = before.classUsage)
    (implemented : after.implemented = before.implemented) (matter : Matter) :
    after.extent matter = before.extent matter := by
  cases matter with
  | member bit =>
      simp only [extent, membersWith, usedMembers, appliedTo, members]
  | instantiated => simp only [extent, instantiatedClasses, classes]
  | implemented => simp only [extent, implementedClasses, implemented]

theorem extent_of_registerUsed {program : Program} {member : MemberId}
    (used : before.registerUsed program member = .ok after) (matter : Matter) :
    after.extent matter = before.extent matter := by
  simp only [registerUsed, bind_eq_ok_iff, pure_eq_ok_iff] at used
  obtain ⟨decl, -, rfl⟩ := used
  exact extent_of_same rfl rfl rfl matter

/-- What reports tell about members is what is new about them. -/
theorem Grows.extent {reports : List MemberReport}
    (grows : Grows before after reports)
    (elsewhere : SameElsewhere before after) (matter : Matter) :
    reports.countP (fun report => report.2.tells matter) +
        before.extent matter = after.extent matter := by
  cases matter with
  | member bit =>
      refine length_of_told reports (MemberUses.has · bit) fun member => ?_
      rw [count_eq_toNat (nodup_membersWith _ _) (mem_membersWith _ _ _),
        count_eq_toNat (nodup_membersWith _ _) (mem_membersWith _ _ _)]
      exact grows member bit
  | instantiated =>
      simp [MemberUses.tells, World.extent, instantiatedClasses,
        elsewhere.classUsage]
  | implemented =>
      simp [MemberUses.tells, World.extent, implementedClasses,
        elsewhere.implemented]

/-- What reports tell about classes is what is new about them. -/
theorem extent_of_instantiation {reports : List ClassReport}
    (members : after.memberUsage = before.memberUsage)
    (instances : ∀ cls, instanceTellings reports cls +
      (before.isInstantiated cls).toNat = (after.isInstantiated cls).toNat)
    (implementations : ∀ cls, implementationTellings reports cls +
      (before.isImplemented cls).toNat = (after.isImplemented cls).toNat)
    (matter : Matter) :
    reports.countP (fun report => report.2.tells matter) +
        before.extent matter = after.extent matter := by
  cases matter with
  | member bit =>
      simp [ClassUses.tells, World.extent, membersWith, usedMembers, appliedTo,
        members]
  | instantiated =>
      refine length_of_told reports ClassUses.instantiated fun cls => ?_
      rw [count_eq_toNat (nodup_instantiatedClasses _) mem_instantiatedClasses,
        count_eq_toNat (nodup_instantiatedClasses _) mem_instantiatedClasses]
      exact instances cls
  | implemented =>
      refine length_of_told reports ClassUses.implemented fun cls => ?_
      rw [count_eq_toNat (nodup_implementedClasses _)
          (mem_implementedClasses _ _),
        count_eq_toNat (nodup_implementedClasses _)
          (mem_implementedClasses _ _)]
      exact implementations cls

end World

/-! ### Notices that are owed -/

namespace Task

/-- The notice that carrying out a task leads to, if any. -/
def notice? : Task → Option Notice
  | .announce notice => some notice
  | .demand member => some (.used member)
  | .closurize member => some (.closurized member)
  | .enterClass cls => some (.instantiatedClass cls)
  | _ => none

/-- Whether the backend is still to be told something about a matter. -/
def owesNotice (matter : Matter) (task : Task) : Bool :=
  task.notice?.any (Notice.isAbout · matter)

theorem countP_owesNotice_singleton (task : Task) (matter : Matter) :
    [task].countP (owesNotice matter) = (task.owesNotice matter).toNat := by
  rw [List.countP_singleton]
  cases task.owesNotice matter <;> rfl

theorem countP_owesNotice_eq_zero {tasks : List Task}
    (unowed : ∀ task ∈ tasks, task.notice? = none) (matter : Matter) :
    tasks.countP (owesNotice matter) = 0 := by
  rw [List.countP_eq_zero]
  intro task listed
  simp [owesNotice, unowed task listed]

theorem countP_owesNotice_ofMemberReport (reports : List MemberReport)
    (matter : Matter) :
    (reports.flatMap ofMemberReport).countP (owesNotice matter) =
      reports.countP fun report => report.2.tells matter := by
  induction reports with
  | nil => rfl
  | cons report reports ih =>
      rw [List.flatMap_cons, List.countP_append, ih, List.countP_cons,
        Nat.add_comm]
      congr 1
      obtain ⟨member, normal, torn, tornStatic⟩ := report
      cases matter with
      | member bit =>
          cases bit <;> cases normal <;> cases torn <;> cases tornStatic <;> rfl
      | instantiated | implemented =>
          cases normal <;> cases torn <;> cases tornStatic <;> rfl

theorem countP_owesNotice_ofClassReport (reports : List ClassReport)
    (matter : Matter) :
    (reports.flatMap ofClassReport).countP (owesNotice matter) =
      reports.countP fun report => report.2.tells matter := by
  induction reports with
  | nil => rfl
  | cons report reports ih =>
      rw [List.flatMap_cons, List.countP_append, ih, List.countP_cons,
        Nat.add_comm]
      congr 1
      obtain ⟨cls, instantiated, implemented⟩ := report
      cases matter with
      | member bit =>
          cases bit <;> cases instantiated <;> cases implemented <;> rfl
      | instantiated | implemented =>
          cases instantiated <;> cases implemented <;> rfl

end Task

theorem Impact.countP_owesNotice (impact : Impact) (matter : Matter) :
    impact.tasks.countP (Task.owesNotice matter) = 0 := by
  refine Task.countP_owesNotice_eq_zero (fun task listed => ?_) matter
  obtain ⟨use, -, rfl⟩ := Impact.eq_of_mem_tasks listed
  rfl

theorem StaticUse.countP_owesNotice (use : StaticUse) (matter : Matter) :
    use.creation.countP (Task.owesNotice matter) = 0 := by
  refine Task.countP_owesNotice_eq_zero (fun task listed => ?_) matter
  obtain ⟨type, flags, -, rfl⟩ := StaticUse.eq_of_mem_creation listed
  rfl

theorem Task.silent_of_not_isPlain {task : Task}
    (notPlain : task.isPlain = false) : task.showsClasses = false := by
  cases task with
  | announce => cases notPlain
  | register | demand | enlist | closurize | enterClass | instantiate | apply
  | release | command | takeNext | finish | drained | runDeferred | resume => rfl

namespace Exploration

variable {setting : Setting Backend} {initial e next : Exploration Backend}
  {routine : Routine} {task : Task} {agenda tasks work : List Task}
  {stage nextStage : Stage} {history : List Use}

theorem of_hear (isBackend : setting.listener = Backend.listener)
    (backend : Backend) (notice : Notice) (matter : Matter) :
    (setting.listener.hear backend notice).2.counters.of matter =
      backend.counters.of matter + (notice.isAbout matter).toNat := by
  rw [isBackend]
  exact backend.of_hear notice matter

/-- What has been told and what is owed grow together with the world. -/
theorem Effect.notices (isBackend : setting.listener = Backend.listener)
    (built : setting.program.Built)
    (tracked : Tracked setting history (task :: work) stage e)
    (agree : e.world.ClassesAgree)
    (effect : Effect setting e task tasks next) (matter : Matter) :
    next.listener.counters.of matter +
        tasks.countP (Task.owesNotice matter) + e.world.extent matter =
      e.listener.counters.of matter + (task.owesNotice matter).toNat +
        next.world.extent matter := by
  have books := tracked.lifecycle.books
  have heard := of_hear isBackend e.listener
  cases effect with
  | static admitted registered =>
      have learns := Scope.learns_static books registered
      have told := learns.grows.extent learns.elsewhere matter
      rw [List.countP_append, Task.countP_owesNotice_ofMemberReport,
        StaticUse.countP_owesNotice, Task.owesNotice]
      simp only [Task.notice?, Option.any_none, Bool.toNat_false]
      omega
  | dynamic admitted registered =>
      have learns := Scope.learns_dynamic books registered
      have told := learns.grows.extent learns.elsewhere matter
      rw [Task.countP_owesNotice_ofMemberReport, Task.owesNotice]
      simp only [Task.notice?, Option.any_none, Bool.toNat_false]
      omega
  | @entered cls world reports entered =>
      have learns := World.Balanced.learns_class books entered
      have told := learns.grows.extent learns.elsewhere matter
      have passedOn : (Task.announce (.instantiatedClass cls)).owesNotice matter =
          (Task.enterClass cls).owesNotice matter := rfl
      rw [List.countP_append, Task.countP_owesNotice_ofMemberReport,
        Task.countP_owesNotice_singleton, passedOn]
      dsimp only
      omega
  | instantiated registered =>
      have within := Scope.registerInstantiation_within registered
      have told := extent_of_instantiation
        (same_of_instantiation registered).1.memberUsage
        (tracked.classes.closed.registerInstantiation built within).tellings
        (agree.registerInstantiation_tellings within) matter
      rw [List.countP_append, Task.countP_owesNotice_ofClassReport,
        Task.countP_owesNotice_singleton, Task.owesNotice, Task.owesNotice]
      simp only [Task.notice?, Option.any_some, Option.any_none, Notice.isAbout,
        Bool.toNat_false]
      omega
  | superfluous processed =>
      -- A member that is demanded has not been processed.
      rw [tracked.lifecycle.not_processed_of_demand] at processed
      cases processed
  | demanded | announced =>
      simp [Task.owesNotice, Task.notice?, heard, Impact.countP_owesNotice]
  | @closurized member =>
      have same : (e.world.registerClosurized member).extent matter =
          e.world.extent matter := extent_of_same rfl rfl rfl matter
      simp [Task.owesNotice, Task.notice?, heard, Impact.countP_owesNotice, same]
  | applied =>
      simp [Task.owesNotice, Task.notice?, Impact.countP_owesNotice]
  | enlisted used | skipped used =>
      simp [Task.owesNotice, Task.notice?, extent_of_registerUsed used]
  | @test use tested =>
      have same : ({ e.world with isChecks := e.world.isChecks.insert tested } :
          World).extent matter = e.world.extent matter :=
        extent_of_same rfl rfl rfl matter
      simp [Task.owesNotice, Task.notice?, same]
  | @literal use =>
      have same : (e.world.registerTypeLiteral use.type).extent matter =
          e.world.extent matter := extent_of_same rfl rfl rfl matter
      simp [Task.owesNotice, Task.notice?, same]
  | refused | creation | untested | unapplied | released =>
      simp [Task.owesNotice, Task.notice?]

/-- In a turn, the backend is told of a round at most, and nothing is owed to
it. -/
theorem Turn.notices (isBackend : setting.listener = Backend.listener)
    (turn : Turn setting routine e stage work nextStage next)
    (matter : Matter) :
    next.listener.counters.of matter = e.listener.counters.of matter ∧
      work.countP (Task.owesNotice matter) = 0 ∧
      next.world.extent matter = e.world.extent matter := by
  cases turn with
  | drained =>
      refine ⟨?_, Impact.countP_owesNotice _ matter, rfl⟩
      rw [of_hear isBackend]
      rfl
  | closed =>
      refine ⟨?_, rfl, rfl⟩
      rw [of_hear isBackend]
      rfl
  | finished => exact ⟨rfl, rfl, extent_of_same rfl rfl rfl matter⟩
  | emptied | passed | taken | applying | imposed | putOff | carriedOut
  | allCarriedOut | resumed | settled => exact ⟨rfl, rfl, rfl⟩

theorem Effect.classesAgree (effect : Effect setting e task tasks next)
    (books : Books setting history e) (agree : e.world.ClassesAgree) :
    next.world.ClassesAgree := by
  by_cases other : ∀ type constructor flags isGlobal,
      task ≠ .instantiate type constructor flags isGlobal
  · exact agree.of_same (effect.sameRecords books other)
  · push Not at other
    obtain ⟨type, constructor, flags, isGlobal, rfl⟩ := other
    cases effect with
    | instantiated registered =>
        exact agree.registerInstantiation
          (Scope.registerInstantiation_within registered)

/-- What is known about notices, together with what they are about. -/
structure Ledger (setting : Setting Backend) (history : List Use)
    (work : List Task) (stage : Stage) (e : Exploration Backend) : Prop extends
    Tracked setting history work stage e where
  agree : e.world.ClassesAgree
  /-- The backend has been told of a matter to its full extent, or tasks at hand
  are going to tell it. -/
  notices : ∀ matter, e.listener.counters.of matter +
    work.countP (Task.owesNotice matter) = e.world.extent matter

theorem ledger_invariant (isBackend : setting.listener = Backend.listener)
    (built : setting.program.Built) (routine : Routine) :
    Invariant setting routine (Ledger setting) where
  step := by
    rintro history task work stage e tasks next ledger effect
    refine ⟨(tracked_invariant built routine).step ledger.toTracked effect,
      effect.classesAgree ledger.lifecycle.books ledger.agree,
      fun matter => ?_⟩
    have known := ledger.notices matter
    have changed := effect.notices isBackend built ledger.toTracked ledger.agree
      matter
    rw [← List.singleton_append, List.countP_append,
      Task.countP_owesNotice_singleton] at known
    rw [List.countP_append]
    omega
  turn := by
    rintro history stage e work nextStage next ledger turn
    have same : SameRecords e.world next.world := by
      cases turn <;> exact ⟨rfl, rfl, rfl, rfl⟩
    refine ⟨(tracked_invariant built routine).turn ledger.toTracked turn,
      ledger.agree.of_same same, fun matter => ?_⟩
    obtain ⟨counted, unowed, extent⟩ := turn.notices isBackend matter
    rw [counted, unowed, extent]
    exact ledger.notices matter

/-- An operation begins with no notice that the backend counts. -/
theorem unowed_of_commence {operation : Operation}
    (commenced : e.commence setting operation = .ok (agenda, next))
    (matter : Matter) : agenda.countP (Task.owesNotice matter) = 0 := by
  cases operation with
  | start policy main libraries =>
      unfold commence at commenced
      dsimp only at commenced
      split at commenced
      · cases commenced
        rfl
      · cases commenced
  | apply | forEach | close =>
      cases commenced
      rfl
  | defer entity impact =>
      simp only [commence, bind_eq_ok_iff, pure_eq_ok_iff,
        Prod.mk.injEq] at commenced
      obtain ⟨deferred, -, rfl, -⟩ := commenced
      rfl

theorem Addresses.of_listener (isBackend : setting.listener = Backend.listener)
    (addresses : Addresses setting e next) (matter : Matter) :
    next.listener.counters.of matter = e.listener.counters.of matter := by
  rcases addresses.listener with same | closed
  · rw [same]
  · rw [closed, of_hear isBackend]
    rfl

theorem Reachable.ledger (reached : Reachable setting initial agenda e)
    (isBackend : setting.listener = Backend.listener)
    (built : setting.program.Built) (fresh : initial.IsFresh)
    (uncounted : initial.listener.counters = {}) :
    Configured (Ledger setting) agenda e := by
  refine reached.configured (ledger_invariant isBackend built)
    ⟨tracked_of_fresh fresh, ?_, fun matter => ?_⟩ ?_
  · rw [fresh.world]
    exact classesAgree_empty
  · rw [fresh.world, uncounted]
    cases matter with
    | member bit => cases bit <;> rfl
    | instantiated | implemented => rfl
  · intro history e operation agenda next ledger commenced
    obtain ⟨rests, -⟩ := commence_cases commenced
    have counted := (addresses_of_commence commenced).of_listener isBackend
    have unowed := unowed_of_commence commenced
    obtain ⟨work, stage, routine, rfl, isPlain, tracked⟩ :=
      ledger.toTracked.commence commenced
    refine ⟨history, work, stage, routine, rfl, isPlain, tracked, ?_,
      fun matter => ?_⟩
    · rw [rests.world]
      exact ledger.agree
    · have none := unowed matter
      rw [List.countP_append] at none
      rw [counted, rests.world, ← ledger.notices matter, List.countP_nil]
      omega

/-! ### Rounds -/

theorem rounds_hear (isBackend : setting.listener = Backend.listener)
    (backend : Backend) (notice : Notice) :
    (setting.listener.hear backend notice).2.counters.queueEmptyRounds =
      backend.counters.queueEmptyRounds +
        (Task.announce notice).showsClasses.toNat := by
  rw [isBackend]
  exact backend.rounds_hear notice

theorem Effect.rounds (isBackend : setting.listener = Backend.listener)
    (silent : task.showsClasses = false)
    (effect : Effect setting e task tasks next) :
    next.listener.counters.queueEmptyRounds =
      e.listener.counters.queueEmptyRounds := by
  have heard := rounds_hear isBackend e.listener
  cases effect with
  | demanded | closurized => exact heard _
  | announced =>
      rw [heard, silent]
      rfl
  | refused | static | dynamic | creation | test | untested | literal
  | superfluous | enlisted | skipped | entered | instantiated | unapplied
  | applied | released => rfl

/-- The backend is told of a round when there is one. -/
theorem rounds_of_step (isBackend : setting.listener = Backend.listener)
    (silent : task.showsClasses = false)
    (stepped : e.step setting task = .ok (tasks, next)) :
    next.listener.counters.queueEmptyRounds =
      e.listener.counters.queueEmptyRounds + task.isRound.toNat := by
  rcases effect_or_turn stepped with effect | ⟨_, _, _, _, _, remaining, turn, -⟩
  · rw [effect.rounds isBackend silent, effect.isRound_eq]
    rfl
  · cases turn with
    | closed | drained =>
        obtain ⟨rfl, -⟩ := List.cons.inj remaining
        exact rounds_hear isBackend e.listener _
    | emptied | passed | taken | applying | imposed | putOff | finished
    | carriedOut | allCarriedOut | resumed | settled =>
        obtain ⟨rfl, -⟩ := List.cons.inj remaining
        rfl

theorem silent_of_step (stepped : e.step setting task = .ok (tasks, next)) :
    ∀ follower ∈ tasks, follower.showsClasses = false := by
  rcases effect_or_turn stepped with
    effect | ⟨routine, _, rest, _, nextStage, -, turn, same⟩
  · exact effect.silent
  · intro follower follows
    have listed := List.mem_append_left rest follows
    rw [same] at listed
    rcases List.mem_append.1 listed with begins | remains
    · exact turn.silent follower begins
    · exact Task.silent_of_not_isPlain
        (nextStage.isPlain_eq routine follower remains)

/-- Nothing on the agenda shows classes to the listener beside the rounds. -/
theorem Reachable.silent (reached : Reachable setting initial agenda e) :
    ∀ task ∈ agenda, task.showsClasses = false := by
  induction reached with
  | initial => simp
  | commence reached commenced => exact silent_of_commence commenced
  | step reached stepped ih =>
      intro task listed
      rcases List.mem_append.1 listed with follows | waits
      · exact silent_of_step stepped task follows
      · exact ih task (List.mem_cons_of_mem _ waits)

/-- The backend is told of every round that is counted. -/
theorem Reachable.rounds_counted (reached : Reachable setting initial agenda e)
    (isBackend : setting.listener = Backend.listener)
    (start : initial.listener.counters.queueEmptyRounds = initial.tally.rounds) :
    e.listener.counters.queueEmptyRounds = e.tally.rounds := by
  induction reached with
  | initial => exact start
  | commence reached commenced ih =>
      rw [(counts_of_commence commenced).rounds, Nat.add_zero, ← ih]
      rcases (addresses_of_commence commenced).listener with same | closed
      · rw [same]
      · rw [closed, rounds_hear isBackend]
        rfl
  | step reached stepped ih =>
      rw [rounds_of_step isBackend
        (reached.silent _ List.mem_cons_self) stepped, ih]
      exact (rounds_tally_of_step stepped).symm

end Exploration

end TreeShaking
