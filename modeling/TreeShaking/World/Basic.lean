import TreeShaking.Program.Lookup
import TreeShaking.Table
import TreeShaking.Usage.Class
import TreeShaking.Usage.Member
import TreeShaking.Use.Basic

/-!
# The world

The world of a phase is everything that the phase has found the program to need
so far.  It only grows.  Its sets are lists without order, and the views at the
end of this file answer them in ascending order.

Instance members whose uses have not all been consumed are filed under the text
of their name: in one file while they wait for their first use, in the other
while they wait to be torn off.
-/

namespace TreeShaking

/-- One way in which instances of a class come about. -/
structure Instantiation where
  constructor : Option MemberId
  type : InterfaceType
  /-- Whether the class is abstract, so that only the runtime creates it. -/
  isAbstract : Bool
  isRedirection : Bool
deriving DecidableEq

/-- The printed word for the kind of an instantiation. -/
def Instantiation.kindText (instantiation : Instantiation) : String :=
  if instantiation.isAbstract then "Abstract" else "Direct"

/-- Members filed under the text of their name, in order of arrival. -/
abbrev MemberFile := Table Name (List MemberId)

/-- Keep a member in a file, or keep it out. -/
def MemberFile.place (file : MemberFile) (name : Name) (member : MemberId)
    (present : Bool) : MemberFile :=
  let filed := file.getD name []
  if present then
    if member ∈ filed then file else file.insert name (filed ++ [member])
  else
    match filed.filter (fun other => other ≠ member) with
    | [] => file.erase name
    | rest => file.insert name rest

/-- What a phase has found the program to need. -/
structure World where
  classUsage : Table ClassId ClassUsage := {}
  instantiations : Table ClassId (List Instantiation) := {}
  /-- Classes that have instances of their own. -/
  direct : List ClassId := []
  /-- Classes that have instances as types. -/
  implemented : List ClassId := []
  instantiatedTypes : List InterfaceType := []
  memberUsage : Table MemberId MemberUsage := {}
  /-- Members that wait for their first use. -/
  awaitingUse : MemberFile := {}
  /-- Members that wait to be torn off. -/
  awaitingTearOff : MemberFile := {}
  /-- The selectors used so far, with their receivers. -/
  selectors : Table Selector ReceiverSet := {}
  isChecks : List Ty := []
  typeLiterals : List Ty := []
  closurized : List MemberId := []
  used : List MemberId := []
  processed : List MemberId := []
  fieldSetters : List MemberId := []
  superGetters : List MemberId := []
  staticFields : List MemberId := []
  /-- Dynamic uses that a single member answers. -/
  devirtualized : Table DynamicUse MemberId := {}
  inlined : List MemberId := []

/-- The news that a class is used in further ways. -/
abbrev ClassReport := ClassId × ClassUses

/-- The news that a member is used in further ways. -/
abbrev MemberReport := MemberId × MemberUses

namespace World

/-! ### Bookkeeping -/

/-- Note a type test.  A typedef counts as the type it stands for. -/
def registerIsCheck (world : World) (program : Program) (type : Ty) :
    Except Failure World := do
  let tested ← program.unalias type
  return { world with isChecks := world.isChecks.insert tested }

def registerTypeLiteral (world : World) (type : Ty) : World :=
  { world with typeLiterals := world.typeLiterals.insert type }

def registerClosurized (world : World) (member : MemberId) : World :=
  { world with closurized := world.closurized.insert member }

/-- Note that a member is needed.  A static field is then referred to. -/
def registerUsed (world : World) (program : Program) (member : MemberId) :
    Except Failure World := do
  let decl ← program.member member
  let referred :=
    if decl.isField && decl.isStatic then
      world.staticFields.insert member
    else
      world.staticFields
  return { world with
    staticFields := referred
    used := world.used.insert member }

def registerProcessed (world : World) (member : MemberId) : World :=
  { world with processed := world.processed.insert member }

/-- The usage of a member, which starts out unused. -/
def usageOf (world : World) (member : MemberId) (decl : MemberDecl) :
    MemberUsage :=
  world.memberUsage.getD member (.start decl)

/-- Store the usage of a member. -/
def setUsage (world : World) (member : MemberId) (usage : MemberUsage) :
    World :=
  { world with memberUsage := world.memberUsage.insert member usage }

/-- File a member exactly where its pending uses say that it belongs. -/
def file (world : World) (member : MemberId) (name : Name)
    (pending : MemberUses) : World :=
  { world with
    awaitingUse := world.awaitingUse.place name member pending.normal
    awaitingTearOff :=
      world.awaitingTearOff.place name member pending.closurizeInstance }

/-! ### Views -/

def isProcessed (world : World) (member : MemberId) : Bool :=
  world.processed.contains member

/-- Whether some use of a member has been consumed. -/
def isMemberUsed (world : World) (member : MemberId) : Bool :=
  (world.memberUsage.get? member).any MemberUsage.hasUse

/-- The members of which some use has been consumed. -/
def usedMembers (world : World) : List MemberId :=
  Handle.ascending
    ((world.memberUsage.entries.filter (fun entry => entry.2.hasUse)).map
      Prod.fst)

def isInstantiated (world : World) (cls : ClassId) : Bool :=
  (world.classUsage.get? cls).any ClassUsage.isInstantiated

def isImplemented (world : World) (cls : ClassId) : Bool :=
  world.implemented.contains cls

def isDirectlyInstantiated (world : World) (cls : ClassId) : Bool :=
  world.direct.contains cls

/-- The classes that have instances, be it through a subclass. -/
def instantiatedClasses (world : World) : List ClassId :=
  Handle.ascending
    ((world.classUsage.entries.filter
      (fun entry => entry.2.isInstantiated)).map Prod.fst)

def directClasses (world : World) : List ClassId :=
  Handle.ascending world.direct

def implementedClasses (world : World) : List ClassId :=
  Handle.ascending world.implemented

/-- The uses of a class that have been noted. -/
def classUses (world : World) (cls : ClassId) : ClassUses :=
  ((world.classUsage.get? cls).map ClassUsage.applied).getD {}

/-- The ways in which instances of a class come about, in order of arrival. -/
def instantiationsOf (world : World) (cls : ClassId) : List Instantiation :=
  world.instantiations.getD cls []

/-- The selectors used so far. -/
def usedSelectors (world : World) : List Selector :=
  world.selectors.keys

/-- The selectors used so far, in their listing order. -/
def listedSelectors (world : World) : List Selector :=
  Selector.listed world.usedSelectors

/-- The usages of the members that have one, in ascending order. -/
def listedUsages (world : World) : List (MemberId × MemberUsage) :=
  (Handle.ascending world.memberUsage.keys).filterMap fun member =>
    (world.memberUsage.get? member).map (member, ·)

end World

end TreeShaking
