import TreeShaking.Impact.Basic
import TreeShaking.Phase
import TreeShaking.Table

/-!
# Stored impacts

The impacts of members are stored until nobody will read them again.  An
`ImpactPolicy` says what happens to a stored impact when it has been applied:
nothing, an entry in the journal, or its release.
-/

namespace TreeShaking

/-- The stored impacts of members. -/
abbrev ImpactCache := Table MemberId Impact

namespace ImpactCache

/-- Drop the impact of an entity.  Only members have one. -/
def release (cache : ImpactCache) : Entity → ImpactCache
  | .member member => cache.erase member
  | .library _ | .cls _ => cache

end ImpactCache

/-- What becomes of stored impacts that have been applied. -/
inductive ImpactPolicy where
  /-- They stay. -/
  | retaining
  /-- They stay, and the journal tells of every application. -/
  | recording
  /-- They go as soon as no later reader of impacts is supported. -/
  | releasing (deferredLoad dumpInfo : Bool)
deriving DecidableEq

namespace ImpactPolicy

/-- The cache after an impact of `source` has been applied. -/
def afterVisit (policy : ImpactPolicy) (source : Option Entity)
    (useCase : UseCase) (cache : ImpactCache) : ImpactCache :=
  match policy, source, useCase with
  | .releasing false _, some entity, .resolution => cache.release entity
  | _, _, _ => cache

/-- The cache after all impacts have served a purpose. -/
def afterUse (policy : ImpactPolicy) (useCase : UseCase) (cache : ImpactCache) :
    ImpactCache :=
  match policy, useCase with
  | .releasing _ false, .deferredLoad => {}
  | _, _ => cache

/-- The end of a phase takes nothing from the cache. -/
@[simp]
theorem afterUse_phase (policy : ImpactPolicy) (phase : Phase)
    (cache : ImpactCache) :
    policy.afterUse phase.useCase cache = cache := by
  cases phase <;> simp [afterUse, Phase.useCase]

/-- The printed form of a policy. -/
def text : ImpactPolicy → String
  | .retaining => "RetainingImpactStrategy"
  | .recording => "RecordingImpactStrategy"
  | .releasing deferredLoad dumpInfo =>
      "ReleasingImpactStrategy \x7b supports_deferred_load: " ++
        toString deferredLoad ++ ", supports_dump_info: " ++
        toString dumpInfo ++ ", .. \x7d"

end ImpactPolicy

end TreeShaking
