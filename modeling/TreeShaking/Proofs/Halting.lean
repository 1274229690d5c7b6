import TreeShaking.Proofs.Replay
import TreeShaking.Proofs.Run.Reachable

/-!
# Operations come to an end

The classes of a program may need each other at run time, themselves, or the class
of closures, so that the answers of the backend lead to further answers.  Still,
whatever operations have been carried out before, an operation comes to an end.
This holds in the middle of an operation too (`Reachable.ends`), for all that is
needed is known of every configuration: members and classes are tracked, and the
state of the listener is one in which it serves the runtime.
-/

namespace TreeShaking

namespace Exploration

variable {σ : Type} {setting : Setting σ} {support : RuntimeSupport}
  {serving : σ → Bool → Prop} {initial e : Exploration σ} {agenda : List Task}

/-- Members and classes are tracked, and the listener serves the runtime. -/
structure Serviced (setting : Setting σ) (serving : σ → Bool → Prop)
    (history : List Use) (work : List Task) (stage : Stage)
    (e : Exploration σ) : Prop extends
    Tracked setting history work stage e where
  serves : ∃ asked, serving e.listener asked

/-- There are weights for the code at hand. -/
theorem exists_weighed (serves : ∃ asked, serving e.listener asked)
    (setting : Setting σ) (support : RuntimeSupport) :
    ∃ scale : Scale, scale.support = support ∧
      Weighed scale setting serving e :=
  ⟨{ support
     routine := fun _ => []
     size := fun member => (setting.source.impactOf e.cache member).uses.length },
    rfl, serves, fun _ => Nat.le_refl _⟩

theorem serviced_invariant (built : setting.program.Built)
    (listens : setting.listener.Serves support serving) (routine : Routine) :
    Invariant setting routine (Serviced setting serving) where
  step := by
    rintro history task work stage e tasks next serviced effect
    obtain ⟨scale, rfl, weighed⟩ := exists_weighed serviced.serves setting support
    exact ⟨(tracked_invariant built routine).step serviced.toTracked effect,
      (weighed.step listens effect).serves⟩
  turn := by
    rintro history stage e work nextStage next serviced turn
    obtain ⟨scale, rfl, weighed⟩ := exists_weighed serviced.serves setting support
    exact ⟨(tracked_invariant built routine).turn serviced.toTracked turn,
      (weighed.turn listens turn).serves⟩

theorem Reachable.serviced (reached : Reachable setting initial agenda e)
    (built : setting.program.Built)
    (listens : setting.listener.Serves support serving)
    (start : Serviced setting serving [] [] .idle initial) :
    Configured (Serviced setting serving) agenda e := by
  refine reached.configured (serviced_invariant built listens) start ?_
  intro history e operation agenda next serviced commenced
  have serves : ∃ asked, serving next.listener asked := by
    rcases (addresses_of_commence commenced).listener with same | closed
    · rw [same]
      exact serviced.serves
    · obtain ⟨asked, serves⟩ := serviced.serves
      rw [closed]
      exact ⟨_, listens.next .queueClosed serves⟩
  obtain ⟨work, stage, routine, rfl, isPlain, tracked⟩ :=
    serviced.toTracked.commence commenced
  exact ⟨history, work, stage, routine, rfl, isPlain, tracked, serves⟩

/-- Wherever operations have led, the work at hand comes to an end. -/
theorem Reachable.ends (reached : Reachable setting initial agenda e)
    (built : setting.program.Built)
    (listens : setting.listener.Serves support serving)
    (start : Serviced setting serving [] [] .idle initial) :
    Ends setting agenda e := by
  obtain ⟨history, work, stage, routine, rfl, isPlain, serviced⟩ :=
    reached.serviced built listens start
  obtain ⟨asked, serves⟩ := serviced.serves
  exact serviced.toTracked.ends built listens serves routine isPlain

/-- Operations come to an end if the work at hand does. -/
theorem Reachable.performAll_ends
    (ends : ∀ agenda e, Reachable setting initial agenda e →
      Ends setting agenda e)
    (reached : Reachable setting initial [] e) (operations : List Operation) :
    ∃ bound outcome, outcome ≠ .error .outOfSteps ∧ ∀ steps, bound ≤ steps →
      Exploration.performAll setting (operations.map fun operation =>
        (steps, operation)) e = outcome := by
  induction operations generalizing e with
  | nil => exact ⟨0, .ok e, by simp, fun steps _ => rfl⟩
  | cons operation rest ih =>
      simp only [List.map_cons, Exploration.performAll, perform_eq]
      cases commenced : e.commence setting operation with
      | error failure =>
          exact ⟨0, .error (.failed failure), by simp, fun steps _ => rfl⟩
      | ok progress =>
          -- The steps that suffice for this operation and those that suffice for
          -- the others suffice together, since more steps change nothing.
          obtain ⟨agenda, begun⟩ := progress
          have beginning := reached.commence commenced
          obtain ⟨enough, ended⟩ := ends agenda begun beginning
          dsimp only
          cases worked : Exploration.workOff setting enough agenda begun with
          | error stop =>
              refine ⟨enough, .error stop, ?_, fun steps le => ?_⟩
              · rw [worked] at ended
                simpa using ended
              · rw [workOff_of_le ended le, worked]
                rfl
          | ok middle =>
              obtain ⟨bound, outcome, finite, settles⟩ :=
                ih (beginning.workOff worked)
              refine ⟨max enough bound, outcome, finite, fun steps le => ?_⟩
              rw [workOff_of_le ended (by omega), worked]
              exact settles steps (by omega)

/-- Whatever the runtime needs, operations on a new exploration come to an end,
with a result or with a failure, and more steps than they take make no difference.
Some actions may have been put off beforehand. -/
theorem operations_end (built : setting.program.Built) {listener : σ}
    (standard : setting.listener.Standard listener support)
    (cache : ImpactCache) (deferred : List (Entity × Impact))
    (operations : List Operation) :
    ∃ bound outcome, outcome ≠ .error .outOfSteps ∧ ∀ steps, bound ≤ steps →
      performAll setting (operations.map fun operation => (steps, operation))
        { listener, cache, deferred } = outcome := by
  obtain ⟨serving, listens, serves⟩ := standard.serves
  have start : Serviced setting serving [] [] .idle
      { listener, cache, deferred } :=
    ⟨⟨lifecycle_of_fresh rfl rfl rfl, classes_of_fresh rfl rfl⟩, false, serves⟩
  exact Reachable.initial.performAll_ends
    (fun agenda e reached => reached.ends built listens start) operations

/-- Each class needs another one at run time, or itself; the closure class needs
something torn off. -/
def entangledSupport : RuntimeSupport where
  helpers := [⟨1⟩]
  closureClass := some ⟨2⟩
  classImpacts := .ofList [
    (⟨0⟩, { types := [⟨.instantiation, .interface ⟨1⟩ []⟩] }),
    (⟨1⟩, { types := [⟨.instantiation, .interface ⟨0⟩ []⟩,
      ⟨.instantiation, .interface ⟨1⟩ []⟩] }),
    (⟨2⟩, {
      statics := [⟨.staticTearOff, ⟨1⟩, none⟩]
      types := [⟨.instantiation, .interface ⟨2⟩ []⟩] })]

def entangledSetting : Setting Backend where
  program := tearOffProgram
  scope := .resolution
  strategy := .treeShaking
  listener := Backend.listener
  source := .table (.ofList [
    (⟨0⟩, { statics := [⟨.general, ⟨1⟩, none⟩] }),
    (⟨1⟩, { statics := [⟨.general, ⟨0⟩, none⟩] })])
  options := {}

/-- The entry point is torn off. -/
def entangledOperations : List Operation := [
  .start .retaining none [],
  .apply { statics := [⟨.staticTearOff, ⟨0⟩, none⟩] } none,
  .forEach fun _ => [.applyItem]]

def entangled : Exploration Backend where
  listener := { support := entangledSupport }
  deferred := [(.member ⟨0⟩, { types := [⟨.instantiation, .interface ⟨0⟩ []⟩] })]

/-- The deferred action leads to the other classes, and all is done after a
while. -/
theorem entangled_operations_end :
    (∃ bound outcome, outcome ≠ .error .outOfSteps ∧ ∀ steps, bound ≤ steps →
      performAll entangledSetting (entangledOperations.map fun operation =>
        (steps, operation)) entangled = outcome) ∧
    ∃ final, performAll entangledSetting (entangledOperations.map fun operation =>
        (60, operation)) entangled = .ok final ∧
      final.processedClasses = [⟨1⟩, ⟨0⟩, ⟨2⟩] ∧ final.isSettled = true :=
  ⟨operations_end tearOffProgram_drafted.built
    (.backend entangledSupport) {} entangled.deferred entangledOperations,
    _, rfl, rfl, rfl⟩

end Exploration

end TreeShaking
