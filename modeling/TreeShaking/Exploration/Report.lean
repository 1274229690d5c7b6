import TreeShaking.Exploration.Basic

/-!
# Reporting on an exploration

The counts and lines that sum an exploration up, and the sweep that looks for
members it should have found: the entry into every class that has instances is
rehearsed once more, and any use of a member that this would consume is a
fault.
-/

namespace TreeShaking

/-- What an exploration has done. -/
structure Summary where
  processedMembers : Nat
  processedClasses : Nat
  tally : Tally
deriving DecidableEq

namespace Exploration

variable {σ : Type}

/-- The members processed so far. -/
def processedMembers (exploration : Exploration σ) : List MemberId :=
  Handle.ascending exploration.world.processed

/-- The classes entered so far. -/
def enteredClasses (exploration : Exploration σ) : List ClassId :=
  Handle.ascending exploration.processedClasses

def summary (exploration : Exploration σ) : Summary where
  processedMembers := exploration.world.processed.length
  processedClasses := exploration.processedClasses.length
  tally := exploration.tally

/-- The lines that sum the exploration up for the log. -/
def logLines (exploration : Exploration σ) (setting : Setting σ) :
    List String :=
  let summary := exploration.summary
  let tally := summary.tally
  (setting.phase.name ++ " enqueuer: " ++
      toString summary.processedMembers ++ " members and " ++
      toString summary.processedClasses ++ " classes processed, " ++
      toString tally.workItems ++ " work items, " ++
      toString tally.skipped ++ " skipped, " ++
      toString tally.deferred ++ " deferred actions, " ++
      toString tally.rounds ++ " queue-empty rounds") ::
    setting.listener.report exploration.listener

/-- The printed form of an exploration. -/
def text (exploration : Exploration σ) (setting : Setting σ) : String :=
  "Enqueuer \x7b phase: " ++ setting.phase.label ++
    ", state: " ++ exploration.state.text ++
    ", queued: " ++ toString exploration.queue.length ++
    ", deferred: " ++ toString exploration.deferred.length ++ ", .. \x7d"

/-! ### The sweep -/

/-- The finding that uses of a member were missed. -/
def missedMember (setting : Setting σ) (cls : ClassId) (report : MemberReport) :
    Except Failure Diagnostic := do
  let display ← setting.program.memberDisplay report.1
  let className ← setting.program.className cls
  return {
    code := .missedMember
    message :=
      "`" ++ display ++ "` has unconsumed uses " ++ report.2.text ++
        " after the " ++ setting.phase.name ++ " queue closed"
    entity := some (.member report.1)
    notes := ["found while checking `" ++ className ++ "`"] }

/-- The findings about one class, which is visited as a rehearsal. -/
def sweepClass (exploration : Exploration σ) (setting : Setting σ)
    (cls : ClassId) : Except Failure (List Diagnostic × Exploration σ) := do
  let (world, reports) ←
    exploration.world.visitClass setting.program setting.scope.live true cls
  let findings ← (reports.filter (fun report => !report.2.isEmpty)).mapM
    (missedMember setting cls)
  return (findings, { exploration with world })

/-- The findings about several classes, one after the other. -/
def sweepAll (exploration : Exploration σ) (setting : Setting σ) :
    List ClassId → Except Failure (List Diagnostic × Exploration σ)
  | [] => .ok ([], exploration)
  | cls :: rest => do
      let (findings, next) ← exploration.sweepClass setting cls
      let (others, final) ← next.sweepAll setting rest
      return (findings ++ others, final)

/-- Look for uses of members that the exploration has missed, in every class
that has instances.  This makes sense only if all uses were taken notice of. -/
def sweep (exploration : Exploration σ) (setting : Setting σ) :
    Except Failure (List Diagnostic × Exploration σ) :=
  if !setting.strategy.isTreeShaking ||
      setting.options.skipConsistencyCheck then
    .ok ([], exploration)
  else do
    let chains ←
      exploration.world.directClasses.mapM setting.program.superclassChain
    exploration.sweepAll setting chains.flatten.eraseDups

end Exploration

end TreeShaking
