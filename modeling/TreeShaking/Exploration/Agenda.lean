import TreeShaking.Exploration.Basic

/-!
# The agenda

An exploration works off an agenda, a list of tasks.  The first task is carried
out in one step, and what follows from it is put in front of the rest, so that
the consequences of a use are dealt with before the next use.

Processing a member, telling the listener of recent classes and carrying out
deferred actions are tasks as well: `Task.takeNext` stands for the whole loop
that ends when nothing is left to be done.
-/

namespace TreeShaking

/-- What is done with a member that is taken from the queue. -/
inductive Command where
  /-- Apply the impact of the member. -/
  | applyItem
  /-- Apply any other impact. -/
  | apply (impact : Impact) (source : Option Entity)
  /-- Put off the application of an impact until the queue runs empty. -/
  | defer (entity : Entity) (impact : Impact)
  /-- Close the queue. -/
  | close
deriving DecidableEq

/-- What is done with each member that is taken from the queue. -/
abbrev Routine := MemberId → List Command

/-- The routine that defers some actions for certain members, and then applies
the impact of the member or not. -/
def Routine.deferring (deferrals : List (MemberId × Entity × Impact))
    (applies : Bool) : Routine := fun member =>
  (deferrals.filter (fun entry => entry.1 = member)).map
      (fun entry => .defer entry.2.1 entry.2.2) ++
    (if applies then [.applyItem] else [])

/-- One step of work. -/
inductive Task where
  /-- Take notice of a use. -/
  | register (use : Use)
  /-- See that a member is put into the queue. -/
  | demand (member : MemberId)
  /-- Put a member into the queue, after the listener was told of it. -/
  | enlist (member : MemberId)
  /-- Note that an instance member is torn off. -/
  | closurize (member : MemberId)
  /-- Tell the listener something and apply the impact that it answers. -/
  | announce (notice : Notice)
  /-- Compare the members of a class that has instances with the selectors. -/
  | enterClass (cls : ClassId)
  /-- Note that a type is instantiated. -/
  | instantiate (type : InterfaceType) (constructor : Option MemberId)
      (flags : InstantiationFlags) (isGlobal : Bool)
  /-- Apply an impact under the impact policy. -/
  | apply (impact : Impact) (source : Option Entity)
  /-- Let the impact policy do away with an impact that was applied. -/
  | release (source : Option Entity)
  /-- Carry out a command for a member. -/
  | command (member : MemberId) (order : Command)
  /-- Process the members in the queue until nothing is left to be done. -/
  | takeNext (routine : Routine)
  /-- Note that a member has been processed. -/
  | finish (member : MemberId)
  /-- Tell the listener of the recent classes. -/
  | drained (routine : Routine)
  /-- Carry out the deferred actions. -/
  | runDeferred
  /-- Go on if there is something left to be done. -/
  | resume (routine : Routine)

namespace Task

/-- What follows from the news about a member. -/
def ofMemberReport (report : MemberReport) : List Task :=
  (if report.2.normal then [.demand report.1] else []) ++
    (if report.2.closurizeInstance then [.closurize report.1] else []) ++
    (if report.2.closurizeStatic then [.announce .staticTearOff] else [])

/-- What follows from the news about a class. -/
def ofClassReport (report : ClassReport) : List Task :=
  (if report.2.instantiated then [.enterClass report.1] else []) ++
    (if report.2.implemented then
      [.announce (.implementedClass report.1)]
    else
      [])

end Task

/-- The type that a static use instantiates, and in which way. -/
def StaticUse.instantiation? (use : StaticUse) :
    Option (InterfaceType × InstantiationFlags) :=
  match use.type with
  | none => none
  | some type =>
      if use.kind = .redirection then
        some (type, { redirection := true })
      else if use.kind.isConstructor then
        some (type, {})
      else
        none

namespace Exploration

variable {σ : Type}

/-- The tasks of an exploration and its state after a step. -/
abbrev Progress (σ : Type) := List Task × Exploration σ

/-- Plan the application of an impact that a listener answered.  An empty
impact is not counted. -/
def absorb (exploration : Exploration σ) (impact : Impact) : Progress σ :=
  if impact.isEmpty then
    ([], exploration)
  else
    (impact.uses.map .register,
      { exploration with
        tally := { exploration.tally with
          impacts := exploration.tally.impacts + 1 } })

/-- Tell the listener something and plan the application of its answer. -/
def announce (exploration : Exploration σ) (setting : Setting σ)
    (notice : Notice) : Progress σ :=
  let (answer, told) := exploration.tell setting.listener notice
  told.absorb answer.impact

/-- Take notice of a static use, and of the instances that a constructor
creates. -/
def registerStatic (exploration : Exploration σ) (setting : Setting σ)
    (use : StaticUse) : Except Failure (Progress σ) := do
  let (world, reports) ←
    setting.scope.registerStatic setting.program use exploration.world
  let creation :=
    match use.instantiation? with
    | some (type, flags) => [.instantiate type (some use.member) flags false]
    | none => []
  return (reports.flatMap Task.ofMemberReport ++ creation,
    { exploration with world })

/-- Take notice of a dynamic use. -/
def registerDynamic (exploration : Exploration σ) (setting : Setting σ)
    (use : DynamicUse) : Except Failure (Progress σ) := do
  let (world, reports) ←
    setting.scope.registerDynamic setting.program use exploration.world
  return (reports.flatMap Task.ofMemberReport, { exploration with world })

/-- Plan the instantiation that a type use asks for. -/
def instantiateType (exploration : Exploration σ) (use : TypeUse)
    (flags : InstantiationFlags) : Except Failure (Progress σ) :=
  match use.type.interface? with
  | some type =>
      .ok ([.instantiate type none flags flags.native], exploration)
  | none =>
      .error (.notInterface use.kind use.type)

/-- Take notice of a type use.  Instances created by native code are known
everywhere. -/
def registerType (exploration : Exploration σ) (setting : Setting σ)
    (use : TypeUse) : Except Failure (Progress σ) :=
  match use.kind with
  | .instantiation => exploration.instantiateType use {}
  | .mirrorInstantiation =>
      exploration.instantiateType use { byMirrors := true }
  | .nativeInstantiation => exploration.instantiateType use { native := true }
  | .isCheck | .asCast | .catchType => do
      let world ← exploration.world.registerIsCheck setting.program use.type
      return ([], { exploration with world })
  | .checkedModeCheck =>
      if setting.options.typeAssertions then do
        let world ← exploration.world.registerIsCheck setting.program use.type
        return ([], { exploration with world })
      else
        .ok ([], exploration)
  | .typeLiteral =>
      .ok ([], { exploration with
        world := exploration.world.registerTypeLiteral use.type })

/-- Take notice of a use. -/
def register (exploration : Exploration σ) (setting : Setting σ) :
    Use → Except Failure (Progress σ)
  | .static use => exploration.registerStatic setting use
  | .dynamic use => exploration.registerDynamic setting use
  | .type use => exploration.registerType setting use

/-- See that a member is put into the queue, unless it has been processed.  A
closed queue takes no more members. -/
def demand (exploration : Exploration σ) (setting : Setting σ)
    (member : MemberId) : Except Failure (Progress σ) :=
  if exploration.world.isProcessed member then
    .ok ([], exploration)
  else if exploration.state = .closed then do
    let display ← setting.program.memberDisplay member
    .error (.violation (.queueClosed setting.phase member display))
  else
    let (tasks, told) := exploration.announce setting (.used member)
    .ok (tasks ++ [.enlist member], told)

/-- Put a member into the queue, or skip it if it is malformed. -/
def enlist (exploration : Exploration σ) (setting : Setting σ)
    (member : MemberId) : Except Failure (Progress σ) := do
  let world ← exploration.world.registerUsed setting.program member
  let tally := exploration.tally
  match ← WorkItem.issue setting.program exploration.issued member with
  | some issued =>
      return ([], { exploration with
        world, issued
        queue := exploration.queue ++ [member]
        tally := { tally with workItems := tally.workItems + 1 } })
  | none =>
      return ([], { exploration with
        world
        tally := { tally with skipped := tally.skipped + 1 } })

/-- Compare the members of a class with the selectors used so far. -/
def enterClass (exploration : Exploration σ) (setting : Setting σ)
    (cls : ClassId) : Except Failure (Progress σ) := do
  let noted := exploration.addRecent cls
  let (world, reports) ←
    noted.world.enterClass setting.program setting.scope.live cls
  return (reports.flatMap Task.ofMemberReport ++
      [.announce (.instantiatedClass cls)],
    { noted with
      world
      processedClasses := noted.processedClasses.insert cls })

/-- Note that a type is instantiated. -/
def instantiate (exploration : Exploration σ) (setting : Setting σ)
    (type : InterfaceType) (constructor : Option MemberId)
    (flags : InstantiationFlags) (isGlobal : Bool) :
    Except Failure (Progress σ) := do
  let (world, reports) ←
    setting.scope.registerInstantiation setting.program type constructor flags
      exploration.world
  return (reports.flatMap Task.ofClassReport ++
      [.announce (.instantiatedType type isGlobal flags.native)],
    { exploration with world })

/-- Plan the application of an impact under the impact policy.  An empty impact
is neither counted nor released. -/
def apply (exploration : Exploration σ) (setting : Setting σ) (impact : Impact)
    (source : Option Entity) : Progress σ :=
  if impact.isEmpty then
    ([], exploration)
  else
    let counted := { exploration with
      tally := { exploration.tally with
        impacts := exploration.tally.impacts + 1 } }
    (impact.uses.map .register ++ [.release source],
      if exploration.policy = .recording then
        counted.log (.visited source setting.phase.useCase)
      else
        counted)

/-- Put an action off until the queue runs empty.  A closed queue takes no more
actions. -/
def defer (exploration : Exploration σ) (setting : Setting σ)
    (entity : Entity) (impact : Impact) : Except Failure (Exploration σ) :=
  if exploration.state = .closed then
    .error (.violation (.deferralAfterClose setting.phase entity))
  else
    .ok { exploration with
      deferred := exploration.deferred ++ [(entity, impact)]
      tally := { exploration.tally with
        deferred := exploration.tally.deferred + 1 } }

/-- Close the queue.  Stored impacts have then served the phase. -/
def close (exploration : Exploration σ) (setting : Setting σ) :
    Exploration σ :=
  let useCase := setting.phase.useCase
  let consumed := { exploration with
    cache := exploration.policy.afterUse useCase exploration.cache }
  let logged :=
    if exploration.policy = .recording then
      consumed.log (.consumed useCase)
    else
      consumed
  (({ logged with policy := .retaining, state := .closed }).tell
    setting.listener .queueClosed).2

/-- Carry out a command for a member.  Its impact is read only now. -/
def obey (exploration : Exploration σ) (setting : Setting σ)
    (member : MemberId) : Command → Except Failure (Progress σ)
  | .applyItem =>
      let impact := setting.source.impactOf exploration.cache member
      .ok ([.apply impact (some (.member member))], exploration)
  | .apply impact source => .ok ([.apply impact source], exploration)
  | .defer entity impact => do
      let next ← exploration.defer setting entity impact
      return ([], next)
  | .close => .ok ([], exploration.close setting)

/-- Take a member from the queue and plan what is to be done with it.  A member
that has been processed is passed over; an empty queue leads to the next
round. -/
def takeNext (exploration : Exploration σ) (setting : Setting σ)
    (routine : Routine) : Progress σ :=
  match exploration.pop setting.options.queueOrder with
  | none =>
      ([.drained routine], exploration)
  | some (member, popped) =>
      if popped.world.isProcessed member then
        ([.takeNext routine], popped)
      else
        ((routine member).map (.command member) ++
            [.finish member, .takeNext routine],
          popped.log (.taken member))

/-- Tell the listener of the recent classes.  It hears again of those that it
does not handle. -/
def drained (exploration : Exploration σ) (setting : Setting σ)
    (routine : Routine) : Progress σ :=
  let recent := exploration.recent.listed
  let counted := { exploration with
    recent := {}
    tally := { exploration.tally with
      rounds := exploration.tally.rounds + 1 } }
  let (answer, told) := counted.tell setting.listener (.queueDrained recent)
  let (tasks, next) :=
    (if answer.handled then told else recent.foldl addRecent told).absorb
      answer.impact
  (tasks ++ [.runDeferred, .resume routine], next)

/-- Carry out the oldest deferred action, and then the others. -/
def runDeferred (exploration : Exploration σ) : Progress σ :=
  match exploration.deferred with
  | [] =>
      ([], exploration)
  | (entity, impact) :: rest =>
      ([.apply impact none, .runDeferred],
        ({ exploration with deferred := rest }).log (.ranDeferred entity))

/-- Carry out one task.  The tasks that follow from it come before those that
are already planned. -/
def step (exploration : Exploration σ) (setting : Setting σ) :
    Task → Except Failure (Progress σ)
  | .register use =>
      if setting.strategy.admits use then
        exploration.register setting use
      else
        .ok ([], exploration)
  | .demand member => exploration.demand setting member
  | .enlist member => exploration.enlist setting member
  | .closurize member =>
      .ok (({ exploration with
        world := exploration.world.registerClosurized member }).announce
          setting (.closurized member))
  | .announce notice => .ok (exploration.announce setting notice)
  | .enterClass cls => exploration.enterClass setting cls
  | .instantiate type constructor flags isGlobal =>
      exploration.instantiate setting type constructor flags isGlobal
  | .apply impact source => .ok (exploration.apply setting impact source)
  | .release source =>
      .ok ([], { exploration with
        cache := exploration.policy.afterVisit source setting.phase.useCase
          exploration.cache })
  | .command member order => exploration.obey setting member order
  | .takeNext routine => .ok (exploration.takeNext setting routine)
  | .finish member =>
      .ok ([], { exploration with
        world := exploration.world.registerProcessed member })
  | .drained routine => .ok (exploration.drained setting routine)
  | .runDeferred => .ok exploration.runDeferred
  | .resume routine =>
      .ok (if exploration.isSettled then [] else [.takeNext routine],
        exploration)

end Exploration

end TreeShaking
