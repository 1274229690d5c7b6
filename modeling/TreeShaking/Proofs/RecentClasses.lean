import Mathlib.Data.List.Chain
import TreeShaking.Listener.Script
import TreeShaking.Proofs.Receivers
import TreeShaking.Proofs.Run.Reachable

/-!
# Recent classes are handled once

When the queue runs empty, the listener is shown the classes that have got
instances meanwhile.  It may hand them back, and then they are shown again in the
next round, together with those that have come up since: while the answer of the
listener is applied, while deferred actions are carried out, while members are
processed.

No class gets lost and none is handled twice.  The classes are kept in a list with
a set beside it, and the two agree (`RecentClasses.Coherent`).  At any time, a
class that has been entered is either recent or has been handled once
(`Rounds.once`); the classes handed back are still recent, and none has come in
between them (`Rounds.handedBack`).
-/

namespace TreeShaking

open Outcome

/-- The classes that the listener is shown when the queue runs empty, and whether
it handles them. -/
structure Snapshot where
  classes : List ClassId
  handled : Bool
deriving DecidableEq

namespace Snapshot

/-- A snapshot that is handed back is the beginning of the classes shown later. -/
def IsContinuedBy (snapshot : Snapshot) (classes : List ClassId) : Prop :=
  snapshot.handled = false → snapshot.classes <+: classes

/-- Whether a class is handled with a snapshot. -/
def handles (snapshot : Snapshot) (cls : ClassId) : Bool :=
  snapshot.handled && decide (cls ∈ snapshot.classes)

end Snapshot

/-- The snapshot that an event tells of. -/
def Event.snapshot? : Event → Option Snapshot
  | .told (.queueDrained classes) handled => some { classes, handled }
  | _ => none

namespace RecentClasses

/-- The list shows no class twice, and the set beside it has just the listed
classes. -/
structure Coherent (recent : RecentClasses) : Prop where
  nodup : recent.listed.Nodup
  agrees : ∀ cls, cls ∈ recent.known ↔ cls ∈ recent.listed

theorem coherent_empty : ({} : RecentClasses).Coherent :=
  ⟨List.nodup_nil, fun _ => Iff.rfl⟩

variable {recent : RecentClasses} {cls : ClassId}

/-- A class is added behind the others, unless it is listed. -/
theorem Coherent.listed_add (coherent : recent.Coherent) (cls : ClassId) :
    (recent.add cls).listed =
      if cls ∈ recent.listed then
        recent.listed
      else
        recent.listed ++ [cls] := by
  unfold add
  simp only [coherent.agrees]
  split
  · rfl
  · rfl

theorem Coherent.add (coherent : recent.Coherent) (cls : ClassId) :
    (recent.add cls).Coherent := by
  unfold RecentClasses.add
  split
  · exact coherent
  · rename_i isNew
    rw [coherent.agrees] at isNew
    constructor
    · dsimp only
      rw [← List.concat_eq_append]
      exact coherent.nodup.concat isNew
    · intro other
      simp [coherent.agrees, or_comm]

/-- Distinct classes that are not listed are added in their order. -/
theorem Coherent.foldl_add (coherent : recent.Coherent) {classes : List ClassId}
    (nodup : (recent.listed ++ classes).Nodup) :
    (classes.foldl RecentClasses.add recent).Coherent ∧
      (classes.foldl RecentClasses.add recent).listed =
        recent.listed ++ classes := by
  induction classes generalizing recent with
  | nil => exact ⟨coherent, (List.append_nil _).symm⟩
  | cons cls rest ih =>
      have isNew : cls ∉ recent.listed := by
        intro isListed
        exact (List.disjoint_of_nodup_append nodup) isListed List.mem_cons_self
      have added : (recent.add cls).listed = recent.listed ++ [cls] := by
        rw [coherent.listed_add, if_neg isNew]
      rw [List.append_cons, ← added] at nodup
      obtain ⟨isCoherent, listed⟩ := ih (coherent.add cls) nodup
      refine ⟨isCoherent, ?_⟩
      rw [List.foldl_cons, listed, added, List.append_assoc,
        List.singleton_append]

end RecentClasses

/-- Whether a task shows classes to the listener beside the rounds. -/
def Task.showsClasses : Task → Bool
  | .announce (.queueDrained _) => true
  | _ => false

theorem Task.showsClasses_ofMemberReport {reports : List MemberReport}
    {task : Task} (listed : task ∈ reports.flatMap Task.ofMemberReport) :
    task.showsClasses = false := by
  obtain ⟨report, -, ⟨-, rfl⟩ | ⟨-, rfl⟩ | ⟨-, rfl⟩⟩ :=
    Task.eq_of_mem_ofMemberReport listed
  · rfl
  · rfl
  · rfl

theorem Impact.showsClasses_tasks {impact : Impact} {task : Task}
    (listed : task ∈ impact.tasks) : task.showsClasses = false := by
  obtain ⟨use, -, rfl⟩ := Impact.eq_of_mem_tasks listed
  rfl

namespace Exploration

variable {σ : Type}

/-- What the listener has been shown, in order. -/
def snapshots (e : Exploration σ) : List Snapshot :=
  e.journal.reverse.filterMap Event.snapshot?

/-- In how many snapshots a class has been handled. -/
def timesHandled (e : Exploration σ) (cls : ClassId) : Nat :=
  e.snapshots.countP (Snapshot.handles · cls)

variable {setting : Setting σ} {initial e next final : Exploration σ}
  {routine : Routine} {task : Task} {agenda tasks work : List Task}
  {stage nextStage : Stage} {history : List Use} {cls : ClassId}

/-! ### One round -/

theorem recent_foldl_addRecent (classes : List ClassId) (e : Exploration σ) :
    (classes.foldl addRecent e).recent =
      classes.foldl RecentClasses.add e.recent := by
  induction classes generalizing e with
  | nil => rfl
  | cons cls rest ih => exact ih (e.addRecent cls)

/-- After a round, the classes that are handed back are recent again. -/
theorem recent_drained (e : Exploration σ) (setting : Setting σ)
    (routine : Routine) :
    (e.drained setting routine).2.recent =
      if (setting.listener.hear e.listener
        (.queueDrained e.recent.listed)).1.handled then
        {}
      else
        e.recent.listed.foldl RecentClasses.add {} := by
  unfold drained
  dsimp only
  obtain ⟨tally, absorbed⟩ := absorb_eq _ _
  rw [absorbed]
  change (if (setting.listener.hear e.listener
    (.queueDrained e.recent.listed)).1.handled = true then _ else _ :
      Exploration σ).recent = _
  split
  · rfl
  · rw [recent_foldl_addRecent]
    rfl

theorem snapshots_drained (e : Exploration σ) (setting : Setting σ)
    (routine : Routine) :
    (e.drained setting routine).2.snapshots = e.snapshots ++
      [⟨e.recent.listed, (setting.listener.hear e.listener
        (.queueDrained e.recent.listed)).1.handled⟩] := by
  rw [snapshots, journal_drained, List.reverse_cons, List.filterMap_append]
  rfl

/-- The listener is shown recent classes in rounds only. -/
theorem snapshots_of_step (noRound : ∀ routine, task ≠ .drained routine)
    (silent : task.showsClasses = false)
    (stepped : e.step setting task = .ok (tasks, next)) :
    next.snapshots = e.snapshots := by
  refine (continues_of_step stepped).filterMap_journal fun event logged => ?_
  cases event with
  | told notice handled =>
      cases notice with
      | queueDrained classes =>
          cases task with
          | drained routine => exact absurd rfl (noRound routine)
          | announce notice =>
              obtain rfl := of_decide_eq_true logged
              cases silent
          | command member order => cases order <;> cases logged
          | register | demand | enlist | closurize | enterClass | instantiate
          | apply | release | takeNext | finish | runDeferred
          | resume => cases logged
      | queueOpened | queueClosed | closurized | staticTearOff | used
      | instantiatedType | instantiatedClass | implementedClass => rfl
  | visited | consumed | taken | ranDeferred => rfl

/-! ### The classes shown so far -/

theorem timesHandled_of_snapshots (same : next.snapshots = e.snapshots)
    (cls : ClassId) : next.timesHandled cls = e.timesHandled cls := by
  rw [timesHandled, same, timesHandled]

/-- What is known about the classes that the listener has been shown. -/
structure Rounds (e : Exploration σ) : Prop where
  recent : e.recent.Coherent
  shown : ∀ snapshot ∈ e.snapshots, snapshot.classes.Nodup
  handedOn : e.snapshots.IsChain fun earlier later =>
    earlier.IsContinuedBy later.classes
  handedBack : ∀ last ∈ e.snapshots.getLast?,
    last.IsContinuedBy e.recent.listed
  /-- A class that has been entered is recent, or has been handled once. -/
  once : ∀ cls, e.timesHandled cls + (decide (cls ∈ e.recent.listed)).toNat =
    (decide (cls ∈ e.processedClasses)).toNat

theorem Rounds.kept (rounds : Rounds e) (recent : next.recent = e.recent)
    (entered : next.processedClasses = e.processedClasses)
    (snapshots : next.snapshots = e.snapshots) : Rounds next := by
  constructor
  · rw [recent]
    exact rounds.recent
  · rw [snapshots]
    exact rounds.shown
  · rw [snapshots]
    exact rounds.handedOn
  · rw [snapshots, recent]
    exact rounds.handedBack
  · intro cls
    rw [timesHandled_of_snapshots snapshots, recent, entered]
    exact rounds.once cls

/-- A class that is entered for the first time has never been shown. -/
theorem Rounds.enter (rounds : Rounds e) (isNew : cls ∉ e.processedClasses)
    (recent : next.recent = e.recent.add cls)
    (entered : next.processedClasses = e.processedClasses.insert cls)
    (snapshots : next.snapshots = e.snapshots) : Rounds next := by
  have notRecent : cls ∉ e.recent.listed := by
    intro isRecent
    have known := rounds.once cls
    simp [isNew, isRecent] at known
  have listed : next.recent.listed = e.recent.listed ++ [cls] := by
    rw [recent, rounds.recent.listed_add, if_neg notRecent]
  constructor
  · rw [recent]
    exact rounds.recent.add cls
  · rw [snapshots]
    exact rounds.shown
  · rw [snapshots]
    exact rounds.handedOn
  · rw [snapshots, listed]
    intro last isLast isBack
    exact (rounds.handedBack last isLast isBack).trans (List.prefix_append _ _)
  · intro other
    have known := rounds.once other
    rw [timesHandled_of_snapshots snapshots, listed, entered]
    by_cases same : other = cls
    · subst same
      simp only [isNew, notRecent, decide_false, Bool.toNat_false,
        Nat.add_zero] at known
      simp [known]
    · simpa [same] using known

/-- A round shows the recent classes.  They are handled now, or stay recent. -/
theorem Rounds.drained (rounds : Rounds e) (setting : Setting σ)
    (routine : Routine) : Rounds (e.drained setting routine).2 := by
  have recent := recent_drained e setting routine
  have snapshots := snapshots_drained e setting routine
  have entered : (e.drained setting routine).2.processedClasses =
      e.processedClasses := by
    obtain ⟨work, turn, -⟩ :=
      turn_of_drained (rfl : e.drained setting routine = (_, _))
    exact turn.sameMembers.2
  generalize (setting.listener.hear e.listener
    (.queueDrained e.recent.listed)).1.handled = handled at recent snapshots
  obtain ⟨coherent, listed⟩ :
      (e.drained setting routine).2.recent.Coherent ∧
        (e.drained setting routine).2.recent.listed =
          if handled then [] else e.recent.listed := by
    rw [recent]
    cases handled with
    | true => exact ⟨RecentClasses.coherent_empty, rfl⟩
    | false => exact RecentClasses.coherent_empty.foldl_add rounds.recent.nodup
  constructor
  · exact coherent
  · rw [snapshots]
    intro snapshot shown
    rcases List.mem_append.1 shown with old | new
    · exact rounds.shown snapshot old
    · obtain rfl := List.mem_singleton.1 new
      exact rounds.recent.nodup
  · rw [snapshots, List.isChain_append]
    refine ⟨rounds.handedOn, List.isChain_singleton _, ?_⟩
    rintro last isLast - ⟨⟩
    exact rounds.handedBack last isLast
  · rw [snapshots, listed, List.getLast?_concat]
    rintro last ⟨⟩ isBack
    change handled = false at isBack
    simp [isBack]
  · intro cls
    have known := rounds.once cls
    have shownBefore : e.timesHandled cls =
        e.snapshots.countP (Snapshot.handles · cls) := rfl
    rw [timesHandled, snapshots, List.countP_append, List.countP_singleton,
      ← shownBefore, listed, entered]
    -- If the classes are handled, they pass from the recent ones to the count.
    cases handled with
    | false => simpa [Snapshot.handles] using known
    | true =>
        by_cases isRecent : cls ∈ e.recent.listed
        · simpa [Snapshot.handles, isRecent] using known
        · simpa [Snapshot.handles, isRecent] using known

theorem Rounds.effect (rounds : Rounds e)
    (classes : Classes setting history (task :: work) e)
    (effect : Effect setting e task tasks next)
    (snapshots : next.snapshots = e.snapshots) : Rounds next := by
  cases effect with
  | @entered cls world reports entered =>
      -- The class is about to be entered, so it has not been entered before.
      have isNew : cls ∉ e.processedClasses := by
        intro isOld
        have known := classes.entered cls
        have bound := Bool.toNat_le (e.world.isInstantiated cls)
        rw [List.countP_cons_of_pos (by simp [Task.enters])] at known
        simp only [isOld, decide_true, Bool.toNat_true] at known
        omega
      exact rounds.enter isNew rfl rfl snapshots
  | refused | static | dynamic | creation | test | untested | literal
  | superfluous | demanded | enlisted | skipped | closurized | announced
  | instantiated | unapplied | applied | released =>
      exact rounds.kept rfl rfl snapshots

/-! ### All rounds -/

/-- No consequence of a use shows classes to the listener. -/
theorem Effect.silent (effect : Effect setting e task tasks next) :
    ∀ follower ∈ tasks, follower.showsClasses = false := by
  intro follower follows
  cases effect with
  | static =>
      rcases List.mem_append.1 follows with reported | creates
      · exact Task.showsClasses_ofMemberReport reported
      · obtain ⟨type, flags, -, rfl⟩ := StaticUse.eq_of_mem_creation creates
        rfl
  | dynamic => exact Task.showsClasses_ofMemberReport follows
  | creation =>
      obtain rfl := List.mem_singleton.1 follows
      rfl
  | demanded =>
      rcases List.mem_append.1 follows with answered | enlists
      · exact Impact.showsClasses_tasks answered
      · obtain rfl := List.mem_singleton.1 enlists
        rfl
  | closurized | announced => exact Impact.showsClasses_tasks follows
  | entered =>
      rcases List.mem_append.1 follows with reported | announces
      · exact Task.showsClasses_ofMemberReport reported
      · obtain rfl := List.mem_singleton.1 announces
        rfl
  | instantiated =>
      rcases List.mem_append.1 follows with reported | announces
      · obtain ⟨report, -, ⟨-, rfl⟩ | ⟨-, rfl⟩⟩ :=
          Task.eq_of_mem_ofClassReport reported
        · rfl
        · rfl
      · obtain rfl := List.mem_singleton.1 announces
        rfl
  | applied =>
      rcases List.mem_append.1 follows with planned | releases
      · exact Impact.showsClasses_tasks planned
      · obtain rfl := List.mem_singleton.1 releases
        rfl
  | refused | test | untested | literal | superfluous | enlisted | skipped
  | unapplied | released => cases follows

theorem Turn.silent (turn : Turn setting routine e stage work nextStage next) :
    ∀ task ∈ work, task.showsClasses = false := by
  intro task listed
  cases turn with
  | applying | imposed | carriedOut =>
      obtain rfl := List.mem_singleton.1 listed
      rfl
  | drained => exact Impact.showsClasses_tasks listed
  | emptied | passed | taken | putOff | closed | finished | allCarriedOut
  | resumed | settled => cases listed

/-- Classes are tracked, and shown to the listener in rounds only. -/
structure ShownInRounds (setting : Setting σ) (history : List Use)
    (work : List Task) (stage : Stage) (e : Exploration σ) : Prop extends
    Tracked setting history work stage e where
  silent : ∀ task ∈ work, task.showsClasses = false

theorem shownInRounds_invariant (built : setting.program.Built)
    (routine : Routine) : Invariant setting routine (ShownInRounds setting) where
  step := by
    rintro history task work stage e tasks next known effect
    refine ⟨(tracked_invariant built routine).step known.toTracked effect, ?_⟩
    intro follower listed
    rcases List.mem_append.1 listed with follows | waits
    · exact effect.silent follower follows
    · exact known.silent follower (List.mem_cons_of_mem _ waits)
  turn known turn :=
    ⟨(tracked_invariant built routine).turn known.toTracked turn, turn.silent⟩

theorem Addresses.snapshots (addresses : Addresses setting e next) :
    next.snapshots = e.snapshots := by
  refine addresses.journal.filterMap_journal fun event closing => ?_
  cases event with
  | told notice handled =>
      cases notice with
      | queueDrained classes => cases closing
      | queueOpened | queueClosed | closurized | staticTearOff | used
      | instantiatedType | instantiatedClass | implementedClass => rfl
  | visited | consumed | taken | ranDeferred => rfl

theorem silent_of_commence {operation : Operation}
    (commenced : e.commence setting operation = .ok (agenda, next)) :
    ∀ task ∈ agenda, task.showsClasses = false := by
  cases operation with
  | start policy main libraries =>
      unfold commence at commenced
      dsimp only at commenced
      split at commenced
      · cases commenced
        simp [Task.showsClasses]
      · cases commenced
  | apply | forEach =>
      cases commenced
      simp [Task.showsClasses]
  | defer entity impact =>
      simp only [commence, bind_eq_ok_iff, pure_eq_ok_iff,
        Prod.mk.injEq] at commenced
      obtain ⟨deferred, -, rfl, -⟩ := commenced
      simp
  | close =>
      cases commenced
      simp

theorem Reachable.shownInRounds (reached : Reachable setting initial agenda e)
    (built : setting.program.Built) (fresh : initial.IsFresh) :
    Configured (ShownInRounds setting) agenda e := by
  refine reached.configured (shownInRounds_invariant built)
    ⟨tracked_of_fresh fresh, by simp⟩ ?_
  intro history e operation agenda next known commenced
  have silent := silent_of_commence commenced
  obtain ⟨work, stage, routine, rfl, isPlain, tracked⟩ :=
    known.toTracked.commence commenced
  exact ⟨history, work, stage, routine, rfl, isPlain, tracked,
    fun task listed => silent task (List.mem_append_left _ listed)⟩

theorem Reachable.rounds (reached : Reachable setting initial agenda e)
    (built : setting.program.Built) (fresh : initial.IsFresh)
    (start : Rounds initial) : Rounds e := by
  induction reached with
  | initial => exact start
  | commence reached commenced ih =>
      obtain ⟨rests, -⟩ := commence_cases commenced
      have addresses := addresses_of_commence commenced
      exact ih.kept addresses.recent rests.processedClasses
        addresses.snapshots
  | @step e next task agenda tasks reached stepped ih =>
      obtain ⟨history, work, stage, routine, split, isPlain, known⟩ :=
        reached.shownInRounds built fresh
      cases work with
      | cons first work =>
          obtain ⟨rfl, rfl⟩ := List.cons.inj split
          have plain := isPlain task List.mem_cons_self
          have noRound : ∀ routine, task ≠ .drained routine := by
            rintro routine rfl
            cases plain
          exact ih.effect known.classes (effect_of_step plain stepped)
            (snapshots_of_step noRound (known.silent task List.mem_cons_self)
              stepped)
      | nil =>
          rw [List.nil_append] at split
          obtain ⟨work, nextStage, turn, -⟩ := turn_of_step split.symm stepped
          cases turn with
          | drained =>
              -- The turn leaves open which classes are recent afterwards, so
              -- the round itself is looked at.
              obtain ⟨rfl, -⟩ := List.cons.inj split
              have isDrained : e.drained setting routine = _ :=
                Except.ok.inj stepped
              have shown := ih.drained setting routine
              rw [isDrained] at shown
              exact shown
          | emptied | passed | taken | applying | imposed | putOff | closed
          | finished | carriedOut | allCarriedOut | resumed | settled =>
              obtain ⟨rfl, -⟩ := List.cons.inj split
              exact ih.kept rfl rfl (snapshots_of_step (by simp) rfl stepped)

/-- The loop over the queue goes on as long as there are recent classes. -/
theorem recent_of_forEach {steps : Nat}
    (looped : e.forEach setting steps routine = .ok final) :
    final.recent.listed = [] := by
  have anything : Invariant setting routine fun _ _ _ _ => True :=
    ⟨fun _ _ => trivial, fun _ _ => trivial⟩
  obtain ⟨-, isSettled⟩ :=
    @Invariant.forEach σ setting routine e final _ anything steps [] trivial
      looped
  simp only [Exploration.isSettled, Bool.and_eq_true, List.isEmpty_iff]
    at isSettled
  exact isSettled.1.2

/-- Throughout the operations on a new exploration, the recent classes are listed
once each and the set beside them has just these, no snapshot shows a class twice,
no class is handled with two snapshots, and a snapshot that is handed back is the
beginning of the next one.  When the loop over the queue is over, every class that
has been entered has been handled with exactly one snapshot. -/
theorem recent_classes_are_handled_once (built : setting.program.Built)
    (listener : σ) (cache : ImpactCache) :
    (∀ agenda e, Reachable setting { listener, cache } agenda e →
      e.recent.Coherent ∧
      (∀ snapshot ∈ e.snapshots, snapshot.classes.Nodup) ∧
      (∀ cls, e.timesHandled cls ≤ 1) ∧
      e.snapshots.IsChain fun earlier later =>
        earlier.IsContinuedBy later.classes) ∧
    ∀ e steps routine final, Reachable setting { listener, cache } [] e →
      e.forEach setting steps routine = .ok final →
        ∀ cls ∈ final.processedClasses, final.timesHandled cls = 1 := by
  have start : Rounds ({ listener, cache } : Exploration σ) :=
    ⟨RecentClasses.coherent_empty, by simp [snapshots], List.isChain_nil,
      by simp [snapshots], by simp [timesHandled, snapshots]⟩
  have rounds : ∀ {agenda e}, Reachable setting { listener, cache } agenda e →
      Rounds e :=
    fun reached => reached.rounds built ⟨rfl, rfl, rfl, rfl⟩ start
  constructor
  · intro agenda e reached
    refine ⟨(rounds reached).recent, (rounds reached).shown, fun cls => ?_,
      (rounds reached).handedOn⟩
    have known := (rounds reached).once cls
    have bound := Bool.toNat_le (decide (cls ∈ e.processedClasses))
    omega
  · intro e steps routine final reached looped cls entered
    have performed : e.perform setting steps (.forEach routine) = .ok final :=
      looped
    have known := (rounds (reached.perform performed)).once cls
    simpa [recent_of_forEach looped, entered] using known

/-- A listener that hands the classes of the first round back, and needs an
instance of the subclass. -/
def handingBack : Script where
  onDrained := [{
    handled := false
    impact := { types := [⟨.instantiation, .interface ⟨1⟩ []⟩] } }]

def roundsSetting : Setting Script where
  program := Compilation.heirProgram
  scope := .resolution
  strategy := .treeShaking
  listener := Script.listener
  source := .table {}
  options := {}

/-- The class of the first round is shown again, before the subclass, and handled
once. -/
theorem handed_back_class_is_handled_once :
    ∃ created, performAll roundsSetting [
        (20, .start .retaining none []),
        (20, .apply { types := [⟨.instantiation, .interface ⟨0⟩ []⟩] } none)]
        { listener := handingBack } = .ok created ∧
      ∃ final, created.forEach roundsSetting 40 (fun _ => [.applyItem]) =
          .ok final ∧
        final.snapshots = [⟨[⟨0⟩], false⟩, ⟨[⟨0⟩, ⟨1⟩], true⟩] ∧
        final.timesHandled ⟨0⟩ = 1 ∧ final.timesHandled ⟨1⟩ = 1 := by
  obtain ⟨created, performed, final, looped, shown, entered⟩ :
      ∃ created, performAll roundsSetting [
          (20, .start .retaining none []),
          (20, .apply { types := [⟨.instantiation, .interface ⟨0⟩ []⟩] } none)]
          { listener := handingBack } = .ok created ∧
        ∃ final, created.forEach roundsSetting 40 (fun _ => [.applyItem]) =
            .ok final ∧
          final.snapshots = [⟨[⟨0⟩], false⟩, ⟨[⟨0⟩, ⟨1⟩], true⟩] ∧
          final.processedClasses = [⟨1⟩, ⟨0⟩] := ⟨_, rfl, _, rfl, rfl, rfl⟩
  have once := (recent_classes_are_handled_once
    Compilation.heirProgram_drafted.built handingBack {}).2 created 40 _ final
    (Reachable.initial.performAll performed) looped
  exact ⟨created, performed, final, looped, shown, once ⟨0⟩ (by simp [entered]),
    once ⟨1⟩ (by simp [entered])⟩

end Exploration

end TreeShaking
