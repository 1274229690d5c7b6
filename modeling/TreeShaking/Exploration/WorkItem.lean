import TreeShaking.Impact.Cache
import TreeShaking.Program.Basic

/-!
# Work items

A work item is a member whose code is to be looked at.  It is issued at most
once, and a malformed member never.  Its impact is only read when the item is
worked on, from a fixed table or from the stored impacts.
-/

namespace TreeShaking

/-- Where the impacts of work items are read from. -/
inductive ImpactSource where
  | table (impacts : Table MemberId Impact)
  | cache

/-- The impact of a member; without an entry it is empty. -/
def ImpactSource.impactOf (source : ImpactSource) (cache : ImpactCache)
    (member : MemberId) : Impact :=
  match source with
  | .table impacts => impacts.getD member {}
  | .cache => cache.getD member {}

namespace WorkItem

/-- The members issued after one more has been issued, or `none` if it is
malformed. -/
def issue (program : Program) (issued : List MemberId) (member : MemberId) :
    Except Failure (Option (List MemberId)) := do
  let decl ← program.member member
  if decl.isMalformed then
    return none
  else if member ∈ issued then
    let display ← program.memberDisplay member
    .error (.secondWorkItem display)
  else
    return some (member :: issued)

/-- The printed form of a work item. -/
def text (member : MemberId) : String :=
  "WorkItem \x7b member: " ++ member.text ++ ", .. \x7d"

end WorkItem

end TreeShaking
