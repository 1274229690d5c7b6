import TreeShaking.World.Basic

/-!
# Using members

An instance member becomes live through two facts that may arrive in either
order: a class that has the member is instantiated, and a selector that applies
to it is used on a receiver that can have it.

* When a class is entered, each of its members is compared with all selectors
  used so far.  A member with pending uses is filed.
* When the receivers of a selector grow, only the members filed under its name
  are examined again, and only against the new constraint.

Both ways consume uses of the same `MemberUsage`, so that each use of a member
is reported once.
-/

namespace TreeShaking

/-- The access that a static use makes.  Inlining a member makes none. -/
def StaticUseKind.access? : StaticUseKind → Option Access
  | .fieldGet | .staticTearOff | .superTearOff => some .read
  | .fieldSet | .superFieldSet => some .write
  | .inlining => none
  | .general | .directUse | .constructorInvoke | .constConstructorInvoke
  | .redirection | .directInvoke => some .invoke

/-- The access that a selector makes. -/
def SelectorKind.access : SelectorKind → Access
  | .call => .invoke
  | .getter => .read
  | .setter => .write

namespace World

/-! ### Static uses -/

/-- Note what a static use says beyond the access that it makes. -/
def noteStatic (world : World) (use : StaticUse) (decl : MemberDecl) :
    World :=
  let refersStatic :=
    decl.isStatic && (use.kind == .fieldGet || use.kind == .fieldSet)
  let writesField := use.kind == .fieldSet || use.kind == .superFieldSet
  let tearsOffSuper := use.kind == .superTearOff
  { world with
    staticFields :=
      if refersStatic then
        world.staticFields.insert use.member
      else
        world.staticFields
    fieldSetters :=
      if writesField then
        world.fieldSetters.insert use.member
      else
        world.fieldSetters
    superGetters :=
      if tearsOffSuper then
        world.superGetters.insert use.member
      else
        world.superGetters }

/-- Note a static use.  The report tells which uses of the member it consumed,
also when there are none. -/
def registerStatic (world : World) (program : Program) (use : StaticUse) :
    Except Failure (World × List MemberReport) := do
  let decl ← program.member use.member
  let usage := world.usageOf use.member decl
  let (uses, accessed) :=
    match use.kind.access? with
    | some access => usage.access access
    | none => usage.unchanged
  return ((world.noteStatic use decl).setUsage use.member accessed,
    [(use.member, uses)])

/-! ### Dynamic uses -/

/-- Whether an instance member answers a selector whose receivers hit the
classes that `hits` tells. -/
def reaches (selector : Selector) (hits : ClassId → Except Failure Bool)
    (decl : MemberDecl) : Except Failure Bool :=
  match decl.owner with
  | none => .ok false
  | some declarer => do
      if ← selector.appliesTo decl then
        hits declarer
      else
        return false

/-- Examine filed members against a new dynamic use. -/
def examine (world : World) (program : Program) (live : LiveClasses)
    (use : DynamicUse) :
    List MemberId → Except Failure (World × List MemberReport)
  | [] => .ok (world, [])
  | member :: rest => do
      let decl ← program.member member
      let reached ←
        reaches use.selector (use.constraint.canHit program live) decl
      match reached, world.memberUsage.get? member with
      | true, some usage =>
          let (uses, accessed) := usage.access use.selector.kind.access
          let filed :=
            (world.setUsage member accessed).file member decl.name
              accessed.pending
          let (final, reports) ← filed.examine program live use rest
          return (final, (member, uses) :: reports)
      | _, _ =>
          world.examine program live use rest

/-- Note a dynamic use.  If the receivers of the selector grow, the filed
members of that name are examined; a read may also tear functions off. -/
def registerDynamic (world : World) (program : Program) (live : LiveClasses)
    (use : DynamicUse) : Except Failure (World × List MemberReport) := do
  let name := use.selector.name.text
  let (grew, receivers) :=
    (world.selectors.getD use.selector {}).add use.constraint
  let noted :=
    { world with selectors := world.selectors.insert use.selector receivers }
  if grew then
    let (examined, reports) ←
      noted.examine program live use (noted.awaitingUse.getD name [])
    if use.selector.isGetter then
      let (final, further) ←
        examined.examine program live use
          (examined.awaitingTearOff.getD name [])
      return (final, reports ++ further)
    else
      return (examined, reports)
  else
    return (noted, [])

/-! ### Entering a class -/

/-- Whether a selector of the given kind that was used reaches an instance
member. -/
def isSought (world : World) (program : Program) (live : LiveClasses)
    (kind : SelectorKind) (decl : MemberDecl) : Except Failure Bool :=
  world.selectors.entries.anyM fun entry =>
    if entry.1.kind = kind ∧ entry.1.name.text = decl.name then
      reaches entry.1 (fun declarer => entry.2.canHit program live declarer)
        decl
    else
      .ok false

/-- Make the access of a selector kind if a selector of that kind reaches the
member. -/
def seek (world : World) (program : Program) (live : LiveClasses)
    (decl : MemberDecl) (kind : SelectorKind) (usage : MemberUsage) :
    Except Failure (MemberUses × MemberUsage) := do
  if ← world.isSought program live kind decl then
    return usage.access kind.access
  else
    return usage.unchanged

/-- The usage of a member after its class has been entered, and the uses that
are consumed by this. -/
def encounter (world : World) (program : Program) (live : LiveClasses)
    (member : MemberId) (decl : MemberDecl) :
    Except Failure (MemberUses × MemberUsage) := do
  let usage := world.usageOf member decl
  if usage.isFullyUsed then
    return usage.unchanged
  else
    let (read, afterRead) ← world.seek program live decl .getter usage
    let (invoked, afterInvoke) ← world.seek program live decl .call afterRead
    let (written, final) ← world.seek program live decl .setter afterInvoke
    return ((read.union invoked).union written, final)

/-- Encounter members in turn and file them.  A rehearsal leaves the world as it
is. -/
def visitAll (world : World) (program : Program) (live : LiveClasses)
    (rehearsal : Bool) :
    List Inherited → Except Failure (World × List MemberReport)
  | [] => .ok (world, [])
  | inherited :: rest => do
      let (uses, usage) ←
        world.encounter program live inherited.member inherited.decl
      let next :=
        if rehearsal then
          world
        else
          (world.file inherited.member inherited.decl.name
            usage.pending).setUsage inherited.member usage
      let (final, reports) ← next.visitAll program live rehearsal rest
      return (final, (inherited.member, uses) :: reports)

/-- The members of a class that have code. -/
def concreteMembers (program : Program) (cls : ClassId) :
    Except Failure (List Inherited) := do
  let members ← program.classMembers cls
  return members.filter (fun inherited => !inherited.decl.isAbstract)

/-- Look at the members of a class, in earnest or as a rehearsal.  The reports
tell which uses of the members are consumed, also when there are none. -/
def visitClass (world : World) (program : Program) (live : LiveClasses)
    (rehearsal : Bool) (cls : ClassId) :
    Except Failure (World × List MemberReport) := do
  let members ← concreteMembers program cls
  world.visitAll program live rehearsal members

/-- Enter a class that has instances. -/
def enterClass (world : World) (program : Program) (live : LiveClasses)
    (cls : ClassId) : Except Failure (World × List MemberReport) :=
  world.visitClass program live false cls

end World

end TreeShaking
