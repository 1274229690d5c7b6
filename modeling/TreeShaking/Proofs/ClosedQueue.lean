import TreeShaking.Proofs.Accounting

/-!
# A closed queue takes no work

After the queue is closed, impacts may still be applied and the loop may still be
run.  A call that finds no work ends as it would on an open queue; one that finds
some fails.

The guard is asked when a member is demanded, after its ordinary use has been
consumed.  So what matters is that every such use leads to a demand before the
call is over, also if a listener has asked for it while it heard of something
else.  That no call gets by with the use and without the demand follows from the
law of places.  That a call fails rather than goes on forever is read off the same
call on an open queue: both take the same steps until the guard stops one of
them (`workOff_shut`).
-/

namespace TreeShaking

open Outcome World

/-- Whether an operation applies an impact or runs the loop over the queue. -/
def Operation.isCall : Operation → Bool
  | .apply _ _ | .forEach _ => true
  | .start _ _ _ | .defer _ _ | .close => false

/-- Whether a task puts a member into the queue. -/
def Task.enlists : Task → Bool
  | .enlist _ => true
  | _ => false

theorem Task.ne_enlist {task : Task} (notEnlisting : task.enlists = false)
    (member : MemberId) : task ≠ .enlist member := by
  rintro rfl
  cases notEnlisting

theorem Task.enlists_of_isNeutral {task : Task}
    (neutral : task.isNeutral = true) : task.enlists = false := by
  cases task with
  | enlist => cases neutral
  | register | demand | closurize | announce | enterClass | instantiate | apply
  | release | command | takeNext | finish | drained | runDeferred | resume => rfl

theorem Task.enlists_of_not_isPlain {task : Task}
    (notPlain : task.isPlain = false) : task.enlists = false := by
  cases task with
  | enlist => cases notPlain
  | register | demand | closurize | announce | enterClass | instantiate | apply
  | release | command | takeNext | finish | drained | runDeferred | resume => rfl

namespace Exploration

variable {σ : Type} {setting : Setting σ} {initial e now next final : Exploration σ}
  {task : Task} {agenda tasks work : List Task} {stage nextStage : Stage}
  {history : List Use} {operation : Operation} {steps : Nat}

/-! ### Steps on a closed queue -/

theorem demand_of_processed (e : Exploration σ) (setting : Setting σ)
    {member : MemberId} (processed : e.world.isProcessed member = true) :
    e.demand setting member = .ok ([], e) :=
  if_pos processed

/-- A demand is met on a closed queue only if there is nothing to do. -/
theorem demand_of_closed {member : MemberId} (isClosed : e.state = .closed)
    (demanded : e.demand setting member = .ok (tasks, next)) : tasks = [] := by
  unfold demand at demanded
  split at demanded
  · cases demanded
    rfl
  · rw [bind_eq_ok_iff] at demanded
    obtain ⟨display, -, impossible⟩ := demanded
    cases impossible

/-- Only a demand leads to a member being put into the queue. -/
theorem Effect.enlists_eq (effect : Effect setting e task tasks next)
    (other : ∀ member, task ≠ .demand member) :
    ∀ follower ∈ tasks, follower.enlists = false := by
  have ofReport : ∀ (reports : List MemberReport),
      ∀ follower ∈ reports.flatMap Task.ofMemberReport,
        follower.enlists = false := by
    intro reports follower listed
    obtain ⟨report, -, ⟨-, rfl⟩ | ⟨-, rfl⟩ | ⟨-, rfl⟩⟩ :=
      Task.eq_of_mem_ofMemberReport listed
    · rfl
    · rfl
    · rfl
  intro follower follows
  cases effect with
  | static =>
      rcases List.mem_append.1 follows with reported | creates
      · exact ofReport _ follower reported
      · exact Task.enlists_of_isNeutral
          (StaticUse.isNeutral_creation _ follower creates)
  | dynamic => exact ofReport _ follower follows
  | closurized | announced =>
      exact Task.enlists_of_isNeutral (Impact.isNeutral_tasks _ follower follows)
  | entered =>
      rcases List.mem_append.1 follows with reported | announces
      · exact ofReport _ follower reported
      · obtain rfl := List.mem_singleton.1 announces
        rfl
  | instantiated =>
      rcases List.mem_append.1 follows with reported | announces
      · exact Task.enlists_of_isNeutral
          (Task.isNeutral_ofClassReport _ follower reported)
      · obtain rfl := List.mem_singleton.1 announces
        rfl
  | applied =>
      rcases List.mem_append.1 follows with planned | releases
      · exact Task.enlists_of_isNeutral
          (Impact.isNeutral_tasks _ follower planned)
      · obtain rfl := List.mem_singleton.1 releases
        rfl
  | creation =>
      obtain rfl := List.mem_singleton.1 follows
      rfl
  | superfluous | demanded => exact absurd rfl (other _)
  | refused | test | untested | literal | enlisted | skipped | unapplied
  | released => cases follows

theorem Turn.enlists_eq {routine : Routine}
    (turn : Turn setting routine e stage work nextStage next) :
    ∀ task ∈ work, task.enlists = false := by
  intro task begins
  cases turn with
  | applying | imposed | carriedOut =>
      obtain rfl := List.mem_singleton.1 begins
      rfl
  | drained =>
      exact Task.enlists_of_isNeutral (Impact.isNeutral_tasks _ task begins)
  | emptied | passed | taken | putOff | closed | finished | allCarriedOut
  | resumed | settled => cases begins

theorem enlists_of_step (isClosed : e.state = .closed)
    (stepped : e.step setting task = .ok (tasks, next)) :
    ∀ follower ∈ tasks, follower.enlists = false := by
  rcases effect_or_turn stepped with
    effect | ⟨routine, _, rest, _, nextStage, -, turn, same⟩
  · by_cases demanding : ∃ member, task = .demand member
    · obtain ⟨member, rfl⟩ := demanding
      rw [demand_of_closed isClosed stepped]
      simp
    · exact effect.enlists_eq fun member isDemand => demanding ⟨member, isDemand⟩
  · intro follower follows
    have listed := List.mem_append_left rest follows
    rw [same] at listed
    rcases List.mem_append.1 listed with begins | remains
    · exact turn.enlists_eq follower begins
    · exact Task.enlists_of_not_isPlain
        (nextStage.isPlain_eq routine follower remains)

/-- A closed queue is not opened again. -/
theorem state_of_step (isClosed : e.state = .closed)
    (stepped : e.step setting task = .ok (tasks, next)) :
    next.state = .closed := by
  rcases effect_or_turn stepped with effect | ⟨_, _, _, _, _, -, turn, -⟩
  · rw [effect.state_eq, isClosed]
  · cases turn with
    | closed => rfl
    | emptied | passed | taken | applying | imposed | putOff | finished | drained
    | carriedOut | allCarriedOut | resumed | settled => exact isClosed

/-- What stays the same as long as no member is put into the queue. -/
structure Steady (e next : Exploration σ) : Prop where
  state : e.state = .closed → next.state = .closed
  workItems : next.tally.workItems = e.tally.workItems
  skipped : next.tally.skipped = e.tally.skipped
  used : next.world.used = e.world.used
  queue : next.queue.length ≤ e.queue.length

theorem Steady.refl (e : Exploration σ) : Steady e e :=
  ⟨id, rfl, rfl, rfl, Nat.le_refl _⟩

theorem Steady.trans (steady : Steady e now) (further : Steady now next) :
    Steady e next where
  state := fun isClosed => further.state (steady.state isClosed)
  workItems := further.workItems.trans steady.workItems
  skipped := further.skipped.trans steady.skipped
  used := further.used.trans steady.used
  queue := Nat.le_trans further.queue steady.queue

theorem steady_of_step (books : Books setting history e)
    (notEnlisting : task.enlists = false)
    (stepped : e.step setting task = .ok (tasks, next)) : Steady e next := by
  have counts := counts_of_step (Task.ne_enlist notEnlisting) stepped
  have used := used_of_step books (Task.ne_enlist notEnlisting) stepped
  have shorter : next.queue.length ≤ e.queue.length := by
    rcases effect_or_turn stepped with effect | ⟨_, _, _, _, _, -, turn, -⟩
    · cases effect with
      | enlisted => cases notEnlisting
      | refused | static | dynamic | creation | test | untested | literal
      | superfluous | demanded | skipped | closurized | announced | entered
      | instantiated | unapplied | applied | released => exact Nat.le_refl _
    · cases turn with
      | passed popped | taken popped =>
          rw [popped.length_eq]
          exact Nat.le_succ _
      | emptied | applying | imposed | putOff | closed | finished | drained
      | carriedOut | allCarriedOut | resumed | settled => exact Nat.le_refl _
  exact ⟨fun isClosed => state_of_step isClosed stepped, counts.workItems,
    counts.skipped, used, shorter⟩

/-! ### Calls on a closed queue -/

theorem Reachable.steady_workOff (isNew : initial.IsNew)
    (reached : Reachable setting initial agenda e) (isClosed : e.state = .closed)
    (noEnlisting : ∀ task ∈ agenda, task.enlists = false)
    (worked : Exploration.workOff setting steps agenda e = .ok final) :
    Steady e final := by
  revert reached isClosed noEnlisting
  refine workOff_induction (motive := fun agenda e =>
    Reachable setting initial agenda e → e.state = .closed →
      (∀ task ∈ agenda, task.enlists = false) → Steady e final) ?_ ?_ worked
  · exact fun _ _ _ => .refl final
  · intro task agenda tasks e next stepped ih reached isClosed noEnlisting
    obtain ⟨history, _, _, _, -, -, placed⟩ := reached.placed isNew
    have steady := steady_of_step placed.lifecycle.books
      (noEnlisting task List.mem_cons_self) stepped
    refine steady.trans (ih (reached.step stepped)
      (steady.state isClosed) fun follower listed => ?_)
    rcases List.mem_append.1 listed with follows | waits
    · exact enlists_of_step isClosed stepped follower follows
    · exact noEnlisting follower (List.mem_cons_of_mem _ waits)

theorem Reachable.steady_perform (isNew : initial.IsNew)
    (reached : Reachable setting initial [] e) (isClosed : e.state = .closed)
    (isCall : operation.isCall = true)
    (performed : e.perform setting steps operation = .ok final) :
    Steady e final := by
  cases operation with
  | apply impact source =>
      have commenced : e.commence setting (.apply impact source) =
          .ok ([.apply impact source], e) := rfl
      exact (reached.commence commenced).steady_workOff isNew isClosed
        (by simp [Task.enlists]) performed
  | forEach routine =>
      have commenced : e.commence setting (.forEach routine) =
          .ok ([.takeNext routine], e) := rfl
      exact (reached.commence commenced).steady_workOff isNew isClosed
        (by simp [Task.enlists]) performed
  | start | defer | close => cases isCall

theorem Reachable.steady_performAll (isNew : initial.IsNew)
    {operations : List (Nat × Operation)}
    (reached : Reachable setting initial [] e) (isClosed : e.state = .closed)
    (areCalls : ∀ entry ∈ operations, entry.2.isCall = true)
    (performed : Exploration.performAll setting operations e = .ok final) :
    Steady e final := by
  induction operations generalizing e with
  | nil =>
      cases performed
      exact .refl _
  | cons first rest ih =>
      obtain ⟨steps, operation⟩ := first
      rw [Exploration.performAll, bind_eq_ok_iff] at performed
      obtain ⟨middle, done, performed⟩ := performed
      have steady := reached.steady_perform isNew isClosed
        (areCalls _ List.mem_cons_self) done
      exact steady.trans (ih (reached.perform done)
        (steady.state isClosed)
        (fun entry listed => areCalls entry (List.mem_cons_of_mem _ listed))
        performed)

/-- Between operations, the members that are used are those noted as used. -/
theorem Reachable.mem_usedMembers_iff (reached : Reachable setting initial [] e)
    (isNew : initial.IsNew) (member : MemberId) :
    member ∈ e.world.usedMembers ↔ member ∈ e.world.used := by
  obtain ⟨history, _, _, _, -, -, placed⟩ := reached.placed isNew
  rw [← placed.lifecycle.books.membersWith_normal, mem_membersWith,
    reached.mem_used_iff isNew, MemberUses.has]

theorem Reachable.usedMembers_eq (isNew : initial.IsNew)
    (reached : Reachable setting initial [] e)
    (reachedLater : Reachable setting initial [] final)
    (used : final.world.used = e.world.used) :
    final.world.usedMembers = e.world.usedMembers := by
  refine Handle.eq_of_ascending fun member => ?_
  change member ∈ final.world.usedMembers ↔ member ∈ e.world.usedMembers
  rw [reachedLater.mem_usedMembers_iff isNew, reached.mem_usedMembers_iff isNew,
    used]

/-! ### The same calls on an open queue -/

/-- The exploration as if its queue had not been closed. -/
def reopened (e : Exploration σ) : Exploration σ :=
  { e with state := .opened }

/-- The exploration as if its queue were closed. -/
def shut (e : Exploration σ) : Exploration σ :=
  { e with state := .closed }

theorem shut_reopened (isClosed : e.state = .closed) : e.reopened.shut = e := by
  rw [shut, reopened, ← isClosed]

def shutProgress (progress : Progress σ) : Progress σ :=
  (progress.1, progress.2.shut)

theorem absorb_shut (e : Exploration σ) (impact : Impact) :
    e.shut.absorb impact = shutProgress (e.absorb impact) := by
  unfold absorb
  split
  · rfl
  · rfl

theorem announce_shut (e : Exploration σ) (setting : Setting σ)
    (notice : Notice) :
    e.shut.announce setting notice =
      shutProgress (e.announce setting notice) :=
  absorb_shut (e.tell setting.listener notice).2 _

theorem foldl_addRecent_shut (classes : List ClassId) (e : Exploration σ) :
    classes.foldl addRecent e.shut =
      (classes.foldl addRecent e).shut := by
  induction classes generalizing e with
  | nil => rfl
  | cons cls rest ih => exact ih (e.addRecent cls)

theorem register_shut (e : Exploration σ) (setting : Setting σ) (use : Use) :
    e.shut.register setting use =
      (e.register setting use).map shutProgress := by
  have test : ∀ type, (do
        let world ← e.world.registerIsCheck setting.program type
        return ([], { e.shut with world }) : Except Failure (Progress σ)) =
      (do
        let world ← e.world.registerIsCheck setting.program type
        return ([], { e with world }) : Except Failure (Progress σ)).map
          shutProgress := by
    intro type
    cases e.world.registerIsCheck setting.program type with
    | ok world => rfl
    | error failure => rfl
  cases use with
  | static use =>
      unfold register registerStatic
      dsimp only [shut]
      cases setting.scope.registerStatic setting.program use e.world with
      | ok outcome => rfl
      | error failure => rfl
  | dynamic use =>
      unfold register registerDynamic
      dsimp only [shut]
      cases setting.scope.registerDynamic setting.program use e.world with
      | ok outcome => rfl
      | error failure => rfl
  | type use =>
      unfold register registerType instantiateType
      dsimp only
      split
      · split <;> rfl
      · split <;> rfl
      · split <;> rfl
      · exact test use.type
      · exact test use.type
      · exact test use.type
      · split
        · exact test use.type
        · rfl
      · rfl

theorem enlist_shut (e : Exploration σ) (setting : Setting σ)
    (member : MemberId) :
    e.shut.enlist setting member =
      (e.enlist setting member).map shutProgress := by
  unfold enlist
  dsimp only [shut]
  cases e.world.registerUsed setting.program member with
  | error failure => rfl
  | ok world =>
      change (WorkItem.issue setting.program e.issued member >>= _) =
        (WorkItem.issue setting.program e.issued member >>= _).map _
      cases WorkItem.issue setting.program e.issued member with
      | error failure => rfl
      | ok issued => cases issued <;> rfl

theorem takeNext_shut (e : Exploration σ) (setting : Setting σ)
    (routine : Routine) :
    e.shut.takeNext setting routine =
      shutProgress (e.takeNext setting routine) := by
  have popped : e.shut.pop setting.options.queueOrder =
      (e.pop setting.options.queueOrder).map fun popped =>
        (popped.1, popped.2.shut) := by
    unfold pop
    split
    · rw [Option.map_map]
      rfl
    · rw [Option.map_map]
      rfl
  unfold takeNext
  rw [popped]
  cases e.pop setting.options.queueOrder with
  | none => rfl
  | some popped =>
      dsimp only [Option.map_some, shut]
      split
      · rfl
      · rfl

theorem drained_shut (e : Exploration σ) (setting : Setting σ)
    (routine : Routine) :
    e.shut.drained setting routine =
      shutProgress (e.drained setting routine) := by
  unfold drained
  dsimp only
  generalize isTold : ({ e with
    recent := {}
    tally := { e.tally with rounds := e.tally.rounds + 1 } } :
      Exploration σ).tell setting.listener (.queueDrained e.recent.listed) = told
  have alsoTold : ({ e.shut with
      recent := {}
      tally := { e.shut.tally with
        rounds := e.shut.tally.rounds + 1 } } : Exploration σ).tell
          setting.listener (.queueDrained e.shut.recent.listed) =
      (told.1, told.2.shut) := by
    rw [← isTold]
    rfl
  have sameRecent : e.shut.recent = e.recent := rfl
  rw [alsoTold, sameRecent]
  dsimp only
  split
  · rw [absorb_shut]
    rfl
  · rw [foldl_addRecent_shut, absorb_shut]
    rfl

theorem close_shut (e : Exploration σ) (setting : Setting σ) :
    e.shut.close setting = (e.close setting).shut := by
  by_cases recording : e.policy = .recording
  · simp [close, shut, log, tell, recording]
  · simp [close, shut, log, tell, recording]

end Exploration

/-- Whether carrying out a task depends on the state of the queue. -/
def Task.asksState : Task → Bool
  | .demand _ | .command _ (.defer _ _) => true
  | _ => false

namespace Exploration

variable {σ : Type} {setting : Setting σ} {initial e now next final : Exploration σ}
  {task : Task} {agenda tasks work : List Task} {operation : Operation}
  {steps : Nat}

/-- Most tasks are carried out on a closed queue as on an open one. -/
theorem step_shut (unasked : task.asksState = false) :
    e.shut.step setting task =
      (e.step setting task).map shutProgress := by
  cases task with
  | register use =>
      unfold step
      dsimp only
      split
      · exact register_shut e setting use
      · rfl
  | enlist member => exact enlist_shut e setting member
  | closurize member =>
      exact congrArg Except.ok (announce_shut
        { e with world := e.world.registerClosurized member } setting
        (.closurized member))
  | announce notice =>
      exact congrArg Except.ok (announce_shut e setting notice)
  | enterClass cls =>
      unfold step enterClass addRecent
      dsimp only [shut]
      cases e.world.enterClass setting.program setting.scope.live cls with
      | ok outcome => rfl
      | error failure => rfl
  | instantiate type constructor flags isGlobal =>
      unfold step instantiate
      dsimp only [shut]
      cases setting.scope.registerInstantiation setting.program type constructor
          flags e.world with
      | ok outcome => rfl
      | error failure => rfl
  | apply impact source =>
      refine congrArg Except.ok ?_
      unfold apply
      split
      · rfl
      · by_cases recording : e.policy = .recording
        · simp [shutProgress, shut, log, recording]
        · simp [shutProgress, shut, recording]
  | command member order =>
      cases order with
      | applyItem | apply => rfl
      | close =>
          unfold step obey
          dsimp only
          rw [close_shut]
          rfl
      | defer => cases unasked
  | takeNext routine =>
      exact congrArg Except.ok (takeNext_shut e setting routine)
  | drained routine =>
      exact congrArg Except.ok (drained_shut e setting routine)
  | runDeferred =>
      refine congrArg Except.ok ?_
      unfold runDeferred
      dsimp only [shut]
      split
      · rfl
      · rfl
  | demand => cases unasked
  | release | finish | resume => rfl

/-- The ways in which a step fails because the queue is closed. -/
inductive Refuses (setting : Setting σ) : Failure → Prop
  | work (member : MemberId) (display : String) :
      Refuses setting (.violation (.queueClosed setting.phase member display))
  | deferral (entity : Entity) :
      Refuses setting (.violation (.deferralAfterClose setting.phase entity))
  /-- The member that is refused cannot even be named. -/
  | unnamed (member : MemberId) {failure : Failure}
      (nameless : setting.program.memberDisplay member = .error failure) :
      Refuses setting failure

/-- A closed queue refuses every member that has not been processed. -/
theorem exists_refuses_of_demand {member : MemberId} (isClosed : e.state = .closed)
    (unprocessed : e.world.isProcessed member = false) :
    ∃ failure, e.demand setting member = .error failure ∧
      Refuses setting failure := by
  unfold demand
  rw [if_neg (by simp [unprocessed]), if_pos isClosed]
  cases displayed : setting.program.memberDisplay member with
  | ok display => exact ⟨_, rfl, .work member display⟩
  | error failure => exact ⟨failure, rfl, .unnamed member displayed⟩

/-- A step has the same outcome on a closed queue, or it fails because the queue
is closed. -/
theorem step_shut_or_refuses (e : Exploration σ) (setting : Setting σ)
    (task : Task) :
    e.shut.step setting task = (e.step setting task).map shutProgress ∨
      ∃ failure, e.shut.step setting task = .error failure ∧
        Refuses setting failure := by
  cases asksState : task.asksState with
  | false => exact .inl (step_shut asksState)
  | true =>
      cases task with
      | demand member =>
          cases processed : e.world.isProcessed member with
          | true =>
              left
              change e.shut.demand setting member =
                (e.demand setting member).map shutProgress
              rw [demand_of_processed e setting processed,
                demand_of_processed e.shut setting processed]
              rfl
          | false =>
              exact .inr (exists_refuses_of_demand (e := e.shut) rfl processed)
      | command member order =>
          cases order with
          | applyItem | apply | close => cases asksState
          | defer entity impact => exact .inr ⟨_, rfl, .deferral entity⟩
      | register | enlist | closurize | announce | enterClass | instantiate
      | apply | release | takeNext | finish | drained | runDeferred
      | resume => cases asksState

/-- A run has the same outcome on a closed queue, or it fails because the queue
is closed. -/
theorem workOff_shut (e : Exploration σ) (setting : Setting σ) (steps : Nat)
    (agenda : List Task) :
    workOff setting steps agenda e.shut =
        (workOff setting steps agenda e).map shut ∨
      ∃ failure, workOff setting steps agenda e.shut = .error (.failed failure) ∧
        Refuses setting failure := by
  induction steps generalizing agenda e with
  | zero => cases agenda <;> exact .inl rfl
  | succ steps ih =>
      cases agenda with
      | nil => exact .inl rfl
      | cons task agenda =>
          rw [workOff, workOff]
          rcases step_shut_or_refuses e setting task with
            same | ⟨failure, failed, refuses⟩
          · rw [same]
            cases stepped : e.step setting task with
            | ok progress => exact ih progress.2 _
            | error failure => exact .inl rfl
          · rw [failed]
            exact .inr ⟨failure, rfl, refuses⟩

/-- The configurations that one operation leads to. -/
inductive During (setting : Setting σ) (e : Exploration σ)
    (operation : Operation) : List Task → Exploration σ → Prop
  | commence {agenda : List Task} {next : Exploration σ}
      (commenced : e.commence setting operation = .ok (agenda, next)) :
      During setting e operation agenda next
  | step {now next : Exploration σ} {task : Task} {agenda tasks : List Task}
      (during : During setting e operation (task :: agenda) now)
      (stepped : now.step setting task = .ok (tasks, next)) :
      During setting e operation (tasks ++ agenda) next

theorem During.workOff (during : During setting e operation agenda now)
    (worked : Exploration.workOff setting steps agenda now = .ok final) :
    During setting e operation [] final := by
  revert during
  refine workOff_induction (motive := fun agenda now =>
    During setting e operation agenda now →
      During setting e operation [] final) ?_ ?_ worked
  · exact id
  · exact fun stepped ih during => ih (during.step stepped)

theorem within_of_workOff
    (worked : workOff setting steps agenda e = .ok final) :
    e.world.Within final.world := by
  refine workOff_induction (motive := fun _ e => e.world.Within final.world)
    ?_ ?_ worked
  · exact .refl final.world
  · exact fun stepped ih => (within_of_step stepped).trans ih

/-- What an operation comes across is still there when it is over. -/
theorem During.within (during : During setting e operation agenda now)
    (performed : e.perform setting steps operation = .ok final) :
    now.world.Within final.world := by
  have remaining : ∃ fewer,
      Exploration.workOff setting fewer agenda now = .ok final := by
    induction during with
    | commence commenced =>
        rw [perform_eq, commenced] at performed
        exact ⟨steps, performed⟩
    | step during stepped ih =>
        obtain ⟨more, worked⟩ := ih
        obtain ⟨fewer, tasks, next, -, same, worked⟩ := step_of_workOff worked
        rw [stepped] at same
        cases same
        exact ⟨fewer, worked⟩
  obtain ⟨fewer, worked⟩ := remaining
  exact within_of_workOff worked

/-- A call on a closed queue has the same outcome as on an open one, or it
fails because the queue is closed. -/
theorem perform_closed (isClosed : e.state = .closed)
    (isCall : operation.isCall = true) (setting : Setting σ) (steps : Nat) :
    e.perform setting steps operation =
        (e.reopened.perform setting steps operation).map shut ∨
      ∃ failure, e.perform setting steps operation = .error (.failed failure) ∧
        Refuses setting failure := by
  have simulated := workOff_shut e.reopened setting steps
  rw [shut_reopened isClosed] at simulated
  cases operation with
  | apply | forEach => exact simulated _
  | start | defer | close => cases isCall

/-- A call that would come to consume the ordinary use of another member does not
come back on a closed queue: it would have consumed the use there as well. -/
theorem Reachable.perform_ne_ok {member : MemberId} (isNew : initial.IsNew)
    (reached : Reachable setting initial [] e) (isClosed : e.state = .closed)
    (isCall : operation.isCall = true)
    (during : During setting e.reopened operation agenda now)
    (unused : member ∉ e.world.usedMembers)
    (consumed : (now.world.appliedTo member).normal = true) (steps : Nat)
    (final : Exploration σ) :
    e.perform setting steps operation ≠ .ok final := by
  intro performed
  rcases perform_closed isClosed isCall setting steps with
    same | ⟨failure, failed, -⟩
  · obtain ⟨other, reopenedCall, rfl⟩ : ∃ other,
        e.reopened.perform setting steps operation = .ok other ∧
          other.shut = final := by
      rw [performed] at same
      cases reopenedCall : e.reopened.perform setting steps operation with
      | ok other =>
          rw [reopenedCall] at same
          exact ⟨other, rfl, (Except.ok.inj same).symm⟩
      | error stop =>
          rw [reopenedCall] at same
          cases same
    have steady := reached.steady_perform isNew isClosed isCall performed
    have later := reached.perform performed
    have isUsed : member ∈ now.world.usedMembers :=
      (World.mem_usedMembers_iff _ _).2 ⟨.normal, consumed⟩
    apply unused
    rw [← reached.usedMembers_eq isNew later steady.used]
    exact (during.within reopenedCall).usedMembers isUsed
  · rw [performed] at failed
    cases failed

/-- As long as calls on a closed queue come back, no work is created or passed
over, the queue does not become longer, and the same members are used.  A call
that would come to consume the ordinary use of a member unused so far, be it for
the sake of a listener, never comes back, and it fails as soon as it would be over
on an open queue. -/
theorem closed_queue_takes_no_work (isNew : initial.IsNew)
    (reached : Reachable setting initial [] e) (isClosed : e.state = .closed) :
    (∀ operations final, (∀ entry ∈ operations, entry.2.isCall = true) →
      performAll setting operations e = .ok final →
        final.tally.workItems = e.tally.workItems ∧
        final.tally.skipped = e.tally.skipped ∧
        final.queue.length ≤ e.queue.length ∧
        final.world.usedMembers = e.world.usedMembers ∧
        final.world.used = e.world.used) ∧
    ∀ operation agenda now member, operation.isCall = true →
      During setting e.reopened operation agenda now →
      member ∉ e.world.usedMembers →
      (now.world.appliedTo member).normal = true →
        (∀ steps final, e.perform setting steps operation ≠ .ok final) ∧
        ∀ steps, e.reopened.perform setting steps operation ≠
            .error .outOfSteps →
          ∃ failure, e.perform setting steps operation =
              .error (.failed failure) ∧
            (e.reopened.perform setting steps operation =
                .error (.failed failure) ∨ Refuses setting failure) := by
  constructor
  · intro operations final areCalls performed
    have steady := reached.steady_performAll isNew isClosed areCalls performed
    have later := reached.performAll performed
    exact ⟨steady.workItems, steady.skipped, steady.queue,
      reached.usedMembers_eq isNew later steady.used, steady.used⟩
  · intro operation agenda now member isCall during unused consumed
    have neverReturns := reached.perform_ne_ok isNew isClosed isCall during
      unused consumed
    refine ⟨neverReturns, fun steps ends => ?_⟩
    rcases perform_closed isClosed isCall setting steps with
      same | ⟨failure, failed, refuses⟩
    · cases performed : e.reopened.perform setting steps operation with
      | ok final =>
          rw [performed] at same
          exact absurd same (neverReturns steps final.shut)
      | error stop =>
          rw [performed] at same
          cases stop with
          | failed failure => exact ⟨failure, same, .inl rfl⟩
          | outOfSteps => exact absurd performed ends
    · exact ⟨failure, failed, .inr refuses⟩

/-- A listener that needs the entry point as soon as the subclass has
instances. -/
def needingEntryPoint : Script where
  onInstantiatedClass := .ofList [
    (⟨1⟩, { statics := [⟨.general, ⟨0⟩, none⟩] })]

/-- An instance of the superclass may be asked for again after the queue is
closed.  If one of the subclass is, the listener asks for the entry point, and the
call fails. -/
theorem closed_queue_refuses_entry_point :
    ∃ closed, performAll roundsSetting [
        (20, .start .retaining none []),
        (20, .apply { types := [⟨.instantiation, .interface ⟨0⟩ []⟩] } none),
        (20, .forEach fun _ => [.applyItem]),
        (0, .close)] { listener := needingEntryPoint } = .ok closed ∧
      (∃ final, performAll roundsSetting [
          (20, .apply { types := [⟨.instantiation, .interface ⟨0⟩ []⟩] } none),
          (20, .forEach fun _ => [.applyItem])] closed = .ok final ∧
        final.world.usedMembers = closed.world.usedMembers) ∧
      ∃ failure, closed.perform roundsSetting 20
          (.apply { types := [⟨.instantiation, .interface ⟨1⟩ []⟩] } none) =
            .error (.failed failure) ∧
        Refuses roundsSetting failure := by
  obtain ⟨closed, performed, isClosed, unused, final, called, other, reopenedCall,
      consumed⟩ :
      ∃ closed, performAll roundsSetting [
          (20, .start .retaining none []),
          (20, .apply { types := [⟨.instantiation, .interface ⟨0⟩ []⟩] } none),
          (20, .forEach fun _ => [.applyItem]),
          (0, .close)] { listener := needingEntryPoint } = .ok closed ∧
        closed.state = .closed ∧ closed.world.usedMembers = [] ∧
        ∃ final, performAll roundsSetting [
            (20, .apply { types := [⟨.instantiation, .interface ⟨0⟩ []⟩] } none),
            (20, .forEach fun _ => [.applyItem])] closed = .ok final ∧
        ∃ other, closed.reopened.perform roundsSetting 20
            (.apply { types := [⟨.instantiation, .interface ⟨1⟩ []⟩] } none) =
              .ok other ∧
          (other.world.appliedTo ⟨0⟩).normal = true :=
    ⟨_, rfl, rfl, rfl, _, rfl, _, rfl, rfl⟩
  obtain ⟨returning, failing⟩ := closed_queue_takes_no_work
    ⟨⟨rfl, rfl, rfl, rfl⟩, rfl, rfl⟩ (Reachable.initial.performAll performed)
    isClosed
  obtain ⟨-, -, -, sameMembers, -⟩ := returning _ final (by simp [Operation.isCall])
    called
  obtain ⟨failure, failed, alsoFails | refuses⟩ := (failing
    (.apply { types := [⟨.instantiation, .interface ⟨1⟩ []⟩] } none) [] other ⟨0⟩
    rfl ((During.commence rfl).workOff reopenedCall) (by simp [unused])
    consumed).2 20 (by simp [reopenedCall])
  · rw [reopenedCall] at alsoFails
    cases alsoFails
  · exact ⟨closed, performed, ⟨final, called, sameMembers⟩, failure, failed,
      refuses⟩

end Exploration

end TreeShaking
