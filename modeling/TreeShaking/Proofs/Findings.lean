import TreeShaking.Compilation
import TreeShaking.Proofs.Outcome

/-!
# The findings of the sweep

A rehearsal looks at every member of a class in one and the same world, which it
leaves as it is (`visitClass_as_rehearsal`).  The sweep rehearses the entry into one
class after the other, so it leaves the exploration as it is (`sweep_eq`), and the
findings about one class do not depend on those about the others.
-/

namespace TreeShaking

open Outcome

namespace World

/-- The report that a member would give. -/
def foretell (world : World) (program : Program) (live : LiveClasses)
    (inherited : Inherited) : Except Failure MemberReport := do
  let (uses, _) ← world.encounter program live inherited.member inherited.decl
  return (inherited.member, uses)

/-- The reports that entering a class would give. -/
def previewClass (world : World) (program : Program) (live : LiveClasses)
    (cls : ClassId) : Except Failure (List MemberReport) := do
  let members ← concreteMembers program cls
  members.mapM (world.foretell program live)

theorem visitAll_as_rehearsal (world : World) (program : Program)
    (live : LiveClasses) (members : List Inherited) :
    world.visitAll program live true members =
      (members.mapM (world.foretell program live)).map (world, ·) := by
  induction members with
  | nil => rfl
  | cons inherited rest ih =>
      rw [visitAll, List.mapM_cons, foretell]
      cases world.encounter program live inherited.member inherited.decl with
      | error failure => rfl
      | ok outcome =>
          change (world.visitAll program live true rest >>= _) = _
          rw [ih]
          cases rest.mapM (world.foretell program live) <;> rfl

/-- A rehearsal gives the reports that each member would give, and leaves the world
as it is. -/
theorem visitClass_as_rehearsal (world : World) (program : Program)
    (live : LiveClasses) (cls : ClassId) :
    world.visitClass program live true cls =
      (world.previewClass program live cls).map (world, ·) := by
  unfold visitClass previewClass
  cases concreteMembers program cls with
  | error failure => rfl
  | ok members => exact visitAll_as_rehearsal world program live members

end World

namespace Exploration

variable {σ : Type}

/-- What the sweep finds in one class. -/
def findingsIn (e : Exploration σ) (setting : Setting σ) (cls : ClassId) :
    Except Failure (List Diagnostic) := do
  let reports ← e.world.previewClass setting.program setting.scope.live cls
  (reports.filter (fun report => !report.2.isEmpty)).mapM
    (missedMember setting cls)

/-- What the sweep finds. -/
def findings (e : Exploration σ) (setting : Setting σ) :
    Except Failure (List Diagnostic) :=
  if !setting.strategy.isTreeShaking ||
      setting.options.skipConsistencyCheck then
    .ok []
  else do
    let chains ← e.world.directClasses.mapM setting.program.superclassChain
    let each ← chains.flatten.eraseDups.mapM (e.findingsIn setting)
    return each.flatten

theorem sweepClass_eq (e : Exploration σ) (setting : Setting σ)
    (cls : ClassId) :
    e.sweepClass setting cls = (e.findingsIn setting cls).map (·, e) := by
  rw [sweepClass, findingsIn, World.visitClass_as_rehearsal]
  cases e.world.previewClass setting.program setting.scope.live cls with
  | error failure => rfl
  | ok reports =>
      change (List.mapM (missedMember setting cls)
        (reports.filter fun report => !report.2.isEmpty) >>= _) =
          Except.map _ (List.mapM (missedMember setting cls)
            (reports.filter fun report => !report.2.isEmpty))
      cases List.mapM (missedMember setting cls)
        (reports.filter fun report => !report.2.isEmpty) <;> rfl

theorem sweepAll_eq (e : Exploration σ) (setting : Setting σ)
    (classes : List ClassId) :
    e.sweepAll setting classes =
      (classes.mapM (e.findingsIn setting)).map
        fun each => (each.flatten, e) := by
  induction classes with
  | nil => rfl
  | cons cls rest ih =>
      rw [sweepAll, List.mapM_cons, sweepClass_eq]
      cases e.findingsIn setting cls with
      | error failure => rfl
      | ok found =>
          change (e.sweepAll setting rest >>= _) = _
          rw [ih]
          cases rest.mapM (e.findingsIn setting) <;> rfl

/-- The sweep leaves the exploration as it is. -/
theorem sweep_eq (e : Exploration σ) (setting : Setting σ) :
    e.sweep setting = (e.findings setting).map (·, e) := by
  unfold sweep findings
  split
  · rfl
  · cases e.world.directClasses.mapM setting.program.superclassChain with
    | error failure => rfl
    | ok chains =>
        change e.sweepAll setting chains.flatten.eraseDups =
          Except.map _ (chains.flatten.eraseDups.mapM (e.findingsIn setting) >>= _)
        rw [sweepAll_eq]
        cases chains.flatten.eraseDups.mapM (e.findingsIn setting) <;> rfl

end Exploration

/-- An exploration of a compilation ends with the closed queue; what the sweep
finds comes with it. -/
theorem Compilation.explore_eq {σ : Type} (setting : Setting σ) (steps : Nat)
    (policy : ImpactPolicy) (main : MemberId) (initial : Exploration σ) :
    explore setting steps policy main initial = (do
      let opened ← initial.start setting steps policy (some main)
        setting.program.libraryIds
      let entered ← opened.applyImpact setting steps (entryImpact main) none
      let settled ← entered.runToFixedPoint setting steps
      let closed := settled.close setting
      Exploration.orStop (closed.checkQueueIsEmpty setting)
      let findings ← Exploration.orStop (closed.findings setting)
      return (closed, findings)) := by
  unfold explore
  refine bind_congr fun opened => bind_congr fun entered =>
    bind_congr fun settled => bind_congr fun _ => ?_
  rw [Exploration.sweep_eq]
  cases (settled.close setting).findings setting <;> rfl

end TreeShaking
