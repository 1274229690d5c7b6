import TreeShaking.Proofs.Run.Stage

/-!
# What a step adds to the journal

Nothing depends on the journal, so effects and turns leave it open.  Yet it alone
tells what has been done in which order.  The events that a step adds are due to
its task (`Task.logs`), and whoever looks for other events finds the same ones as
before (`Continues.filterMap_journal`).
-/

namespace TreeShaking

open Outcome

/-- Whether an event tells that the queue is closed. -/
def Event.isClosing : Event → Bool
  | .told .queueClosed _ | .consumed _ => true
  | _ => false

/-- Whether a task may add an event to the journal. -/
def Task.logs : Task → Event → Bool
  | .demand _, .told (.used _) _ => true
  | .closurize _, .told (.closurized _) _ => true
  | .announce notice, .told other _ => other = notice
  | .apply _ _, .visited _ _ => true
  | .takeNext _, .taken _ => true
  | .drained _, .told (.queueDrained _) _ => true
  | .runDeferred, .ranDeferred _ => true
  | .command _ .close, event => event.isClosing
  | _, _ => false

namespace Exploration

variable {σ : Type} {setting : Setting σ} {e next : Exploration σ} {task : Task}
  {tasks : List Task}

/-- The later journal holds some events of a kind on top of the earlier one. -/
def Continues (isLogged : Event → Bool) (e next : Exploration σ) : Prop :=
  ∃ events, next.journal = events ++ e.journal ∧
    ∀ event ∈ events, isLogged event = true

variable {isLogged : Event → Bool}

theorem continues_of_journal (same : next.journal = e.journal) :
    Continues isLogged e next :=
  ⟨[], same, by simp⟩

theorem continues_of_event {event : Event}
    (added : next.journal = event :: e.journal)
    (logged : isLogged event = true) : Continues isLogged e next :=
  ⟨[event], added, by simpa using logged⟩

/-- What is read off the journal stays the same if none of the events that may
have been added is of interest. -/
theorem Continues.filterMap_journal {α : Type} {read : Event → Option α}
    (continues : Continues isLogged e next)
    (unread : ∀ event, isLogged event = true → read event = none) :
    next.journal.reverse.filterMap read = e.journal.reverse.filterMap read := by
  obtain ⟨events, added, logged⟩ := continues
  have nothing : events.reverse.filterMap read = [] := by
    rw [List.filterMap_eq_nil_iff]
    intro event listed
    exact unread event (logged event (List.mem_reverse.1 listed))
  rw [added, List.reverse_append, List.filterMap_append, nothing,
    List.append_nil]

theorem journal_absorb (e : Exploration σ) (impact : Impact) :
    (e.absorb impact).2.journal = e.journal := by
  obtain ⟨tally, absorbed⟩ := absorb_eq e impact
  rw [absorbed]

theorem journal_announce (e : Exploration σ) (setting : Setting σ)
    (notice : Notice) :
    (e.announce setting notice).2.journal =
      .told notice (setting.listener.hear e.listener notice).1.handled ::
        e.journal :=
  journal_absorb (e.tell setting.listener notice).2 _

theorem journal_drained (e : Exploration σ) (setting : Setting σ)
    (routine : Routine) :
    (e.drained setting routine).2.journal =
      .told (.queueDrained e.recent.listed) (setting.listener.hear e.listener
        (.queueDrained e.recent.listed)).1.handled :: e.journal := by
  unfold drained
  dsimp only
  rw [journal_absorb]
  split
  · rfl
  · obtain ⟨recent, noted⟩ := foldl_addRecent _ e.recent.listed
    rw [noted]
    rfl

theorem continues_close (e : Exploration σ) (setting : Setting σ) :
    Continues Event.isClosing e (e.close setting) := by
  unfold close
  dsimp only
  split
  · exact ⟨[_, _], rfl, by simp [Event.isClosing]⟩
  · exact continues_of_event rfl rfl

/-- A step adds only what its task may log. -/
theorem continues_of_step (stepped : e.step setting task = .ok (tasks, next)) :
    Continues task.logs e next := by
  cases task with
  | register | enlist | enterClass | instantiate | release =>
      cases effect_of_step rfl stepped <;> exact continues_of_journal rfl
  | demand member =>
      unfold step demand at stepped
      dsimp only at stepped
      split at stepped
      · cases stepped
        exact continues_of_journal rfl
      · split at stepped
        · rw [bind_eq_ok_iff] at stepped
          obtain ⟨display, -, impossible⟩ := stepped
          cases impossible
        · cases stepped
          exact continues_of_event (journal_announce e setting _) rfl
  | closurize member =>
      obtain rfl : _ = next := congrArg Prod.snd (Except.ok.inj stepped)
      exact continues_of_event (journal_announce _ setting _) rfl
  | announce notice =>
      obtain rfl : _ = next := congrArg Prod.snd (Except.ok.inj stepped)
      exact continues_of_event (journal_announce e setting _)
        (decide_eq_true rfl)
  | apply impact source =>
      obtain rfl : _ = next := congrArg Prod.snd (Except.ok.inj stepped)
      unfold apply
      dsimp only
      split
      · exact continues_of_journal rfl
      · split
        · exact continues_of_event rfl rfl
        · exact continues_of_journal rfl
  | command member order =>
      have turn : Turn setting (fun _ => []) e (.obeying member [order]) tasks
          (.obeying member []) next := turn_of_command stepped
      cases order with
      | close =>
          have obeyed : Except.ok ([], e.close setting)
              = (.ok (tasks, next) : Except Failure _) := stepped
          obtain rfl : e.close setting = next :=
            congrArg Prod.snd (Except.ok.inj obeyed)
          exact continues_close e setting
      | applyItem | apply | defer =>
          cases turn; exact continues_of_journal rfl
  | takeNext routine =>
      have taken := Except.ok.inj stepped
      unfold takeNext at taken
      split at taken
      · cases taken
        exact continues_of_journal rfl
      · rename_i current popped isPopped
        obtain ⟨queue, -, rfl⟩ := pop_perm isPopped
        split at taken
        · cases taken
          exact continues_of_journal rfl
        · cases taken
          exact continues_of_event rfl rfl
  | finish member =>
      cases stepped
      exact continues_of_journal rfl
  | drained routine =>
      obtain rfl : _ = next := congrArg Prod.snd (Except.ok.inj stepped)
      exact continues_of_event (journal_drained e setting routine) rfl
  | runDeferred =>
      have ran := Except.ok.inj stepped
      unfold runDeferred at ran
      split at ran
      · cases ran
        exact continues_of_journal rfl
      · cases ran
        exact continues_of_event rfl rfl
  | resume routine =>
      cases stepped
      exact continues_of_journal rfl

end Exploration

end TreeShaking
