import TreeShaking.Proofs.Account.Marks
import TreeShaking.Proofs.Receivers
import TreeShaking.Proofs.Run.Reachable
import TreeShaking.Proofs.Run.Records

/-!
# The world only grows

A world never loses what it has found.  Several operations replace parts of it
as a whole: an access stores a new usage over the old one, members leave the
files, and a receiver about which nothing is known makes all other constraints
disappear.  `World.Within` compares two worlds by what they answer, and each
operation leads to a world that contains the one before.  No assumption about
the world is needed for this.
-/

namespace TreeShaking

open Outcome

/-! ### Usages -/

/-- Nothing that one usage remembers is missing in another. -/
structure MemberUsage.Within (before after : MemberUsage) : Prop where
  shape : after.shape = before.shape
  applied : ∀ bit, before.applied.has bit = true → after.applied.has bit = true
  marks : ∀ mark, before.mark mark = true → after.mark mark = true

namespace MemberUsage.Within

theorem refl (usage : MemberUsage) : usage.Within usage :=
  ⟨rfl, fun _ => id, fun _ => id⟩

theorem trans {first second third : MemberUsage} (within : first.Within second)
    (further : second.Within third) : first.Within third where
  shape := further.shape.trans within.shape
  applied bit isApplied := further.applied bit (within.applied bit isApplied)
  marks mark isMarked := further.marks mark (within.marks mark isMarked)

end MemberUsage.Within

namespace MemberUsage

variable (usage : MemberUsage)

/-- Leaving further marks loses nothing, and neither does consuming uses. -/
theorem within_consume {hasInit hasRead hasWrite hasInvoke : Bool}
    (init : usage.hasInit = true → hasInit = true)
    (read : usage.hasRead = true → hasRead = true)
    (write : usage.hasWrite = true → hasWrite = true)
    (invoke : usage.hasInvoke = true → hasInvoke = true) (uses : MemberUses) :
    usage.Within ({ usage with hasInit, hasRead, hasWrite, hasInvoke }.consume
      uses).2 where
  shape := rfl
  applied bit isApplied := by
    rw [has_applied, Bool.and_eq_true, Bool.not_eq_true'] at isApplied
    rw [has_applied]
    simp [consume, isApplied]
  marks mark isMarked := by
    cases mark with
    | init => exact init isMarked
    | read => exact read isMarked
    | write => exact write isMarked
    | invoke => exact invoke isMarked

theorem within_readValue : usage.Within usage.readValue.2 := by
  unfold readValue
  split
  · exact .refl usage
  · exact usage.within_consume id (fun _ => rfl) id id _

theorem within_useFunction : usage.Within usage.useFunction.2 := by
  unfold useFunction
  dsimp only
  split
  · exact .refl usage
  · exact usage.within_consume id (fun _ => rfl) id id _
  · exact usage.within_consume id id id (fun _ => rfl) _
  · exact usage.within_consume id (fun _ => rfl) id (fun _ => rfl) _

theorem within_invokeCode : usage.Within usage.invokeCode.2 := by
  unfold invokeCode
  split
  · exact .refl usage
  · split
    · refine ⟨rfl, fun _ => id, fun mark isMarked => ?_⟩
      cases mark with
      | invoke => rfl
      | init | read | write => exact isMarked
    · exact usage.within_consume id id id (fun _ => rfl) _

/-- An access loses nothing. -/
theorem within_access (access : Access) :
    usage.Within (usage.access access).2 := by
  cases access with
  | init =>
      change usage.Within usage.init.2
      fun_cases MemberUsage.init usage with
      | case1 | case3 | case5 => exact .refl usage
      | case2 | case4 =>
          exact usage.within_consume (fun _ => rfl) id id id _
  | read =>
      change usage.Within usage.read.2
      fun_cases MemberUsage.read usage with
      | case1 | case2 | case3 => exact usage.within_readValue
      | case4 | case5 => exact usage.within_useFunction
      | case6 | case7 => exact .refl usage
  | write =>
      change usage.Within usage.write.2
      fun_cases MemberUsage.write usage with
      | case1 | case3 | case5 => exact .refl usage
      | case2 | case4 => exact usage.within_consume id id (fun _ => rfl) id _
  | invoke =>
      change usage.Within usage.invoke.2
      fun_cases MemberUsage.invoke usage with
      | case1 | case2 | case3 => exact usage.within_readValue
      | case4 | case5 | case6 => exact usage.within_invokeCode
      | case7 => exact .refl usage
  | full =>
      change usage.Within usage.useFully.2
      fun_cases MemberUsage.useFully usage with
      | case1 | case2 => exact usage.within_useFunction
      | case3 => exact usage.within_invokeCode
      | case4 | case6 | case8 | case10 => exact .refl usage
      | case5 | case7 | case9 | case11 =>
          exact usage.within_consume (fun _ => rfl) (fun _ => rfl)
            (fun _ => rfl) id _

end MemberUsage

/-! ### Receivers -/

/-- A search that has found something finds it in a longer list as well. -/
theorem Outcome.anyM_append_of_found {ε α : Type} {test : α → Except ε Bool}
    {list : List α} (found : list.anyM test = .ok true) (further : List α) :
    (list ++ further).anyM test = .ok true := by
  induction list with
  | nil => cases found
  | cons head tail ih =>
      rw [List.anyM_cons, bind_eq_ok_iff] at found
      obtain ⟨answer, tested, rest⟩ := found
      rw [List.cons_append, List.anyM_cons, tested]
      cases answer with
      | true => rfl
      | false => exact ih rest

/-- Receivers that one more constraint is added to still hit what they hit. -/
theorem ReceiverSet.canHit_add {receivers : ReceiverSet} {program : Program}
    {live : LiveClasses} {declarer : ClassId}
    (hits : receivers.canHit program live declarer = .ok true)
    (constraint : Constraint) :
    (receivers.add constraint).2.canHit program live declarer = .ok true := by
  unfold add
  split
  · exact hits
  · rename_i notAll
    split
    · rfl
    · split
      · exact hits
      · rw [canHit, if_neg notAll] at hits
        rw [canHit, if_neg notAll]
        exact anyM_append_of_found hits _

/-! ### Worlds -/

namespace World

/-- All that one world has found is found in another. -/
structure Within (before after : World) : Prop where
  /-- The uses applied and the accesses made to every member. -/
  usages : ∀ member usage, before.memberUsage.get? member = some usage →
    ∃ later, after.memberUsage.get? member = some later ∧ usage.Within later
  usedMembers : before.usedMembers ⊆ after.usedMembers
  /-- The uses applied to every class. -/
  instantiatedUse : ∀ cls, (before.classUses cls).instantiated = true →
    (after.classUses cls).instantiated = true
  implementedUse : ∀ cls, (before.classUses cls).implemented = true →
    (after.classUses cls).implemented = true
  instantiatedClasses : before.instantiatedClasses ⊆ after.instantiatedClasses
  implemented : before.implemented ⊆ after.implemented
  direct : before.direct ⊆ after.direct
  instantiatedTypes : before.instantiatedTypes ⊆ after.instantiatedTypes
  /-- The instantiations of a class stay in order of arrival. -/
  instantiations : ∀ cls,
    before.instantiationsOf cls <+: after.instantiationsOf cls
  isChecks : before.isChecks ⊆ after.isChecks
  typeLiterals : before.typeLiterals ⊆ after.typeLiterals
  closurized : before.closurized ⊆ after.closurized
  processed : before.processed ⊆ after.processed
  used : before.used ⊆ after.used
  fieldSetters : before.fieldSetters ⊆ after.fieldSetters
  superGetters : before.superGetters ⊆ after.superGetters
  staticFields : before.staticFields ⊆ after.staticFields
  inlined : before.inlined ⊆ after.inlined
  devirtualized : ∀ use target,
    before.devirtualized.get? use = some target →
      after.devirtualized.get? use = some target
  /-- The selectors used, and the classes whose members they can hit. -/
  selectors : ∀ selector receivers,
    before.selectors.get? selector = some receivers →
      ∃ later, after.selectors.get? selector = some later ∧
        ∀ program live declarer,
          receivers.canHit program live declarer = .ok true →
            later.canHit program live declarer = .ok true

namespace Within

theorem refl (world : World) : world.Within world where
  usages _ usage stored := ⟨usage, stored, .refl usage⟩
  usedMembers := List.Subset.refl _
  instantiatedUse _ := id
  implementedUse _ := id
  instantiatedClasses := List.Subset.refl _
  implemented := List.Subset.refl _
  direct := List.Subset.refl _
  instantiatedTypes := List.Subset.refl _
  instantiations _ := List.prefix_rfl
  isChecks := List.Subset.refl _
  typeLiterals := List.Subset.refl _
  closurized := List.Subset.refl _
  processed := List.Subset.refl _
  used := List.Subset.refl _
  fieldSetters := List.Subset.refl _
  superGetters := List.Subset.refl _
  staticFields := List.Subset.refl _
  inlined := List.Subset.refl _
  devirtualized _ _ := id
  selectors _ receivers stored :=
    ⟨receivers, stored, fun _ _ _ => id⟩

theorem trans {first second third : World} (within : first.Within second)
    (further : second.Within third) : first.Within third where
  usages member usage stored := by
    obtain ⟨later, isStored, grows⟩ := within.usages member usage stored
    obtain ⟨last, isLast, growsOn⟩ := further.usages member later isStored
    exact ⟨last, isLast, grows.trans growsOn⟩
  usedMembers := List.Subset.trans within.usedMembers further.usedMembers
  instantiatedUse cls noted :=
    further.instantiatedUse cls (within.instantiatedUse cls noted)
  implementedUse cls noted :=
    further.implementedUse cls (within.implementedUse cls noted)
  instantiatedClasses :=
    List.Subset.trans within.instantiatedClasses further.instantiatedClasses
  implemented := List.Subset.trans within.implemented further.implemented
  direct := List.Subset.trans within.direct further.direct
  instantiatedTypes :=
    List.Subset.trans within.instantiatedTypes further.instantiatedTypes
  instantiations cls :=
    (within.instantiations cls).trans (further.instantiations cls)
  isChecks := List.Subset.trans within.isChecks further.isChecks
  typeLiterals := List.Subset.trans within.typeLiterals further.typeLiterals
  closurized := List.Subset.trans within.closurized further.closurized
  processed := List.Subset.trans within.processed further.processed
  used := List.Subset.trans within.used further.used
  fieldSetters := List.Subset.trans within.fieldSetters further.fieldSetters
  superGetters := List.Subset.trans within.superGetters further.superGetters
  staticFields := List.Subset.trans within.staticFields further.staticFields
  inlined := List.Subset.trans within.inlined further.inlined
  devirtualized use target noted :=
    further.devirtualized use target (within.devirtualized use target noted)
  selectors selector receivers stored := by
    obtain ⟨later, isStored, hits⟩ := within.selectors selector receivers stored
    obtain ⟨last, isLast, hitsOn⟩ := further.selectors selector later isStored
    exact ⟨last, isLast, fun program live declarer hit =>
      hitsOn program live declarer (hits program live declarer hit)⟩

end Within

variable {program : Program} {live : LiveClasses} {world final : World}

theorem subset_insert {α : Type} [DecidableEq α] (list : List α) (added : α) :
    list ⊆ list.insert added :=
  fun _ => List.mem_insert_of_mem

/-! ### Members -/

/-- A member is used if some use of it has been applied. -/
theorem mem_usedMembers (world : World) (member : MemberId) :
    member ∈ world.usedMembers ↔
      ∃ usage, world.memberUsage.get? member = some usage ∧
        ∃ bit, usage.applied.has bit = true := by
  simp only [usedMembers, Handle.mem_ascending, List.mem_map, List.mem_filter,
    Prod.exists, exists_and_right, exists_eq_right, Table.get?_eq_some_iff,
    MemberUsage.hasUse, Bool.not_eq_true', MemberUses.isEmpty_eq_false_iff]

/-- Usages and files that are replaced without a loss. -/
theorem Within.of_usages
    (usages : ∀ member usage, world.memberUsage.get? member = some usage →
      ∃ later, final.memberUsage.get? member = some later ∧ usage.Within later)
    (frame : final = world.withMembersOf final) : world.Within final := by
  have usedMembers : world.usedMembers ⊆ final.usedMembers := by
    intro member isUsed
    rw [mem_usedMembers] at isUsed ⊢
    obtain ⟨usage, stored, bit, isApplied⟩ := isUsed
    obtain ⟨later, isStored, grows⟩ := usages member usage stored
    exact ⟨later, isStored, bit, grows.applied bit isApplied⟩
  rw [frame] at usedMembers ⊢
  exact { Within.refl world with
    usages := by rwa [frame] at usages
    usedMembers }

/-- One usage that is replaced without a loss. -/
theorem Within.of_usage (member : MemberId) (decl : MemberDecl)
    {usage : MemberUsage} (grows : (world.usageOf member decl).Within usage)
    (written : final.memberUsage = world.memberUsage.insert member usage)
    (frame : final = world.withMembersOf final) : world.Within final := by
  refine .of_usages (fun other stored isStored => ?_) frame
  rw [written, Table.get?_insert]
  by_cases same : other = member
  · subst same
    have isUsage : world.usageOf other decl = stored := by
      simp [World.usageOf, Table.getD, isStored]
    rw [isUsage] at grows
    exact ⟨usage, if_pos rfl, grows⟩
  · exact ⟨stored, by rw [if_neg same, isStored], .refl stored⟩

theorem within_noteStatic (world : World) (use : StaticUse)
    (decl : MemberDecl) : world.Within (world.noteStatic use decl) := by
  have kept : ∀ (noted : Bool) (members : List MemberId),
      members ⊆ if noted then members.insert use.member else members := by
    intro noted members
    split
    · exact subset_insert _ _
    · exact List.Subset.refl _
  exact { Within.refl world with
    staticFields := kept _ _
    fieldSetters := kept _ _
    superGetters := kept _ _ }

theorem within_registerStatic {use : StaticUse} {reports : List MemberReport}
    (registered : world.registerStatic program use = .ok (final, reports)) :
    world.Within final := by
  simp only [registerStatic, bind_eq_ok_iff, pure_eq_ok_iff,
    Prod.mk.injEq] at registered
  obtain ⟨decl, -, rfl, -⟩ := registered
  refine (within_noteStatic world use decl).trans
    (.of_usage use.member decl ?_ rfl rfl)
  change (world.usageOf use.member decl).Within _
  cases use.kind.access? with
  | none => exact .refl _
  | some access => exact MemberUsage.within_access _ access

theorem within_examine {use : DynamicUse} {candidates : List MemberId}
    {reports : List MemberReport}
    (examined : world.examine program live use candidates =
      .ok (final, reports)) : world.Within final := by
  induction candidates generalizing world reports with
  | nil =>
      simp only [examine, Except.ok.injEq, Prod.mk.injEq] at examined
      obtain ⟨rfl, -⟩ := examined
      exact .refl world
  | cons member rest ih =>
      simp only [examine, bind_eq_ok_iff] at examined
      obtain ⟨decl, -, reached, -, examined⟩ := examined
      split at examined
      · rename_i usage stored
        simp only [bind_eq_ok_iff, pure_eq_ok_iff, Prod.exists,
          Prod.mk.injEq] at examined
        obtain ⟨_, further, examined, rfl, -⟩ := examined
        have isUsage : world.usageOf member decl = usage := by
          simp [World.usageOf, Table.getD, stored]
        have grows : (world.usageOf member decl).Within
            (usage.access use.selector.kind.access).2 := by
          rw [isUsage]
          exact usage.within_access _
        exact (Within.of_usage member decl grows rfl rfl).trans (ih examined)
      · exact ih examined

theorem within_registerDynamic {use : DynamicUse} {reports : List MemberReport}
    (registered : world.registerDynamic program live use =
      .ok (final, reports)) : world.Within final := by
  have noted : world.Within { world with
      selectors := world.selectors.insert use.selector
        ((world.selectors.getD use.selector {}).add use.constraint).2 } :=
    { Within.refl world with
      selectors := fun selector receivers stored => by
        simp only [Table.get?_insert]
        by_cases same : selector = use.selector
        · subst same
          refine ⟨_, if_pos rfl, fun program live declarer hits => ?_⟩
          rw [Table.getD, stored]
          exact ReceiverSet.canHit_add hits use.constraint
        · exact ⟨receivers, by rw [if_neg same, stored], fun _ _ _ => id⟩ }
  simp only [registerDynamic] at registered
  split at registered
  · simp only [bind_eq_ok_iff, Prod.exists] at registered
    obtain ⟨examined, told, isExamined, registered⟩ := registered
    have within := noted.trans (within_examine isExamined)
    split at registered
    · simp only [bind_eq_ok_iff, pure_eq_ok_iff, Prod.exists,
        Prod.mk.injEq] at registered
      obtain ⟨_, further, tornOff, rfl, -⟩ := registered
      exact within.trans (within_examine tornOff)
    · obtain ⟨rfl, -⟩ := Prod.mk.inj (pure_eq_ok_iff.1 registered)
      exact within
  · obtain ⟨rfl, -⟩ := Prod.mk.inj (pure_eq_ok_iff.1 registered)
    exact noted

theorem within_seek {decl : MemberDecl} {kind : SelectorKind}
    {usage : MemberUsage} {outcome : MemberUses × MemberUsage}
    (sought : world.seek program live decl kind usage = .ok outcome) :
    usage.Within outcome.2 := by
  simp only [seek, bind_eq_ok_iff] at sought
  obtain ⟨isSought, -, sought⟩ := sought
  split at sought
  · obtain rfl := pure_eq_ok_iff.1 sought
    exact usage.within_access _
  · obtain rfl := pure_eq_ok_iff.1 sought
    exact .refl usage

theorem within_encounter {member : MemberId} {decl : MemberDecl}
    {uses : MemberUses} {usage : MemberUsage}
    (met : world.encounter program live member decl = .ok (uses, usage)) :
    (world.usageOf member decl).Within usage := by
  simp only [encounter] at met
  split at met
  · obtain ⟨-, rfl⟩ := Prod.mk.inj (pure_eq_ok_iff.1 met)
    exact .refl _
  · simp only [bind_eq_ok_iff, pure_eq_ok_iff, Prod.exists,
      Prod.mk.injEq] at met
    obtain ⟨read, afterRead, isRead, invoked, afterInvoke, isInvoked, written,
      _, isWritten, -, rfl⟩ := met
    exact ((within_seek isRead).trans (within_seek isInvoked)).trans
      (within_seek isWritten)

theorem within_visitClass {rehearsal : Bool} {cls : ClassId}
    {reports : List MemberReport}
    (visited : world.visitClass program live rehearsal cls =
      .ok (final, reports)) : world.Within final := by
  simp only [visitClass, bind_eq_ok_iff] at visited
  obtain ⟨members, -, met⟩ := visited
  induction members generalizing world reports with
  | nil =>
      simp only [visitAll, Except.ok.injEq, Prod.mk.injEq] at met
      obtain ⟨rfl, -⟩ := met
      exact .refl world
  | cons inherited rest ih =>
      simp only [visitAll, bind_eq_ok_iff, pure_eq_ok_iff, Prod.exists,
        Prod.mk.injEq] at met
      obtain ⟨uses, usage, isMet, _, further, met, rfl, -⟩ := met
      refine Within.trans ?_ (ih met)
      split
      · exact .refl world
      · exact .of_usage inherited.member inherited.decl
          (within_encounter isMet) rfl rfl

theorem within_enterClass {cls : ClassId} {reports : List MemberReport}
    (entered : world.enterClass program live cls = .ok (final, reports)) :
    world.Within final :=
  within_visitClass entered

/-! ### Classes -/

theorem classUses_getD (world : World) (cls : ClassId) :
    world.classUses cls = (world.classUsage.getD cls {}).applied := by
  unfold classUses Table.getD
  cases world.classUsage.get? cls <;> rfl

theorem instantiated_classUses (world : World) (cls : ClassId) :
    (world.classUses cls).instantiated = world.isInstantiated cls := by
  rw [classUses_getD, ← isInstantiated_getD]
  rfl

theorem implemented_classUses (world : World) (cls : ClassId) :
    (world.classUses cls).implemented =
      (world.classUsage.getD cls {}).isImplemented := by
  rw [classUses_getD]
  rfl

/-- Uses of classes that are noted without a loss. -/
theorem Within.of_classUses
    (instantiated : ∀ cls, world.isInstantiated cls = true →
      final.isInstantiated cls = true)
    (implementedUse : ∀ cls,
      (world.classUsage.getD cls {}).isImplemented = true →
        (final.classUsage.getD cls {}).isImplemented = true)
    (implemented : world.implemented ⊆ final.implemented)
    (frame : final = { world with
      classUsage := final.classUsage
      implemented := final.implemented }) : world.Within final := by
  have instantiatedUse : ∀ cls, (world.classUses cls).instantiated = true →
      (final.classUses cls).instantiated = true := by
    simpa only [instantiated_classUses] using instantiated
  have implementedToo : ∀ cls, (world.classUses cls).implemented = true →
      (final.classUses cls).implemented = true := by
    simpa only [implemented_classUses] using implementedUse
  have instantiatedClasses :
      world.instantiatedClasses ⊆ final.instantiatedClasses := by
    intro cls listed
    rw [mem_instantiatedClasses] at listed ⊢
    exact instantiated cls listed
  rw [frame] at instantiatedUse implementedToo instantiatedClasses ⊢
  exact { Within.refl world with
    instantiatedUse
    implementedUse := implementedToo
    instantiatedClasses
    implemented }

theorem within_record (world : World) (instantiation : Instantiation) :
    world.Within (world.record instantiation) := by
  refine { Within.refl world with
    direct := subset_insert _ _
    instantiatedTypes := subset_insert _ _
    instantiations := fun cls => ?_ }
  unfold World.record
  by_cases known : instantiation ∈ world.instantiationsOf instantiation.type.cls
  · simp only [known, if_true]
    exact List.prefix_rfl
  · simp only [known, if_false]
    simp only [instantiationsOf, Table.getD, Table.get?_insert]
    split
    · rename_i same
      rw [same]
      exact List.prefix_append _ _
    · exact List.prefix_rfl

theorem within_noteInstantiated (world : World) (chain : List ClassId) :
    world.Within (world.noteInstantiated chain).1 := by
  have frame := noteInstantiated_frame world chain
  refine .of_classUses (fun cls => isInstantiated_noteInstantiated chain)
    (fun cls noted => ?_) ?_ ?_
  · rwa [isImplemented_noteInstantiated]
  · rw [frame]
    exact List.Subset.refl _
  · rw [frame]

/-- A class that is noted as implemented stays so. -/
theorem isImplemented_noteImplemented_of_noted (world : World)
    (classes : List ClassId) {cls : ClassId}
    (noted : (world.classUsage.getD cls {}).isImplemented = true) :
    ((world.noteImplemented classes).1.classUsage.getD cls {}).isImplemented =
      true := by
  induction classes generalizing world with
  | nil => exact noted
  | cons next rest ih =>
      rw [noteImplemented]
      split
      · exact ih world noted
      · refine ih _ ?_
        by_cases same : cls = next
        · subst same
          simp [Table.getD, ClassUsage.implement, ClassUsage.isImplemented]
        · simpa [Table.getD, same] using noted

theorem within_noteImplemented (world : World) (classes : List ClassId) :
    world.Within (world.noteImplemented classes).1 := by
  refine .of_classUses (fun cls now => ?_)
    (fun cls => isImplemented_noteImplemented_of_noted world classes)
    (fun cls listed => ?_) (noteImplemented_frame world classes)
  · rwa [isInstantiated_noteImplemented]
  · exact (mem_implemented_noteImplemented world classes cls).2 (.inl listed)

theorem within_registerInstantiation {type : InterfaceType}
    {constructor : Option MemberId} {flags : InstantiationFlags}
    {reports : List ClassReport}
    (registered : world.registerInstantiation program type constructor flags =
      .ok (final, reports)) : world.Within final := by
  obtain ⟨decl, created, -, creation, classes, rfl⟩ :=
    registerInstantiation_walks registered
  refine Within.trans ?_ (within_noteImplemented created classes)
  split at creation
  · obtain ⟨chain, rfl⟩ := creation
    exact (within_record world _).trans (within_noteInstantiated _ chain)
  · rw [creation]
    exact .refl world

theorem within_registerUsed {member : MemberId}
    (registered : world.registerUsed program member = .ok final) :
    world.Within final := by
  simp only [registerUsed, bind_eq_ok_iff, pure_eq_ok_iff] at registered
  obtain ⟨decl, -, rfl⟩ := registered
  refine { Within.refl world with
    used := subset_insert _ _
    staticFields := ?_ }
  dsimp only
  split
  · exact subset_insert _ _
  · exact List.Subset.refl _

theorem within_registerIsCheck {type : Ty}
    (registered : world.registerIsCheck program type = .ok final) :
    world.Within final := by
  simp only [registerIsCheck, bind_eq_ok_iff, pure_eq_ok_iff] at registered
  obtain ⟨tested, -, rfl⟩ := registered
  exact { Within.refl world with isChecks := subset_insert _ _ }

theorem within_registerTypeLiteral (world : World) (type : Ty) :
    world.Within (world.registerTypeLiteral type) :=
  { Within.refl world with typeLiterals := subset_insert _ _ }

theorem within_registerClosurized (world : World) (member : MemberId) :
    world.Within (world.registerClosurized member) :=
  { Within.refl world with closurized := subset_insert _ _ }

theorem within_registerProcessed (world : World) (member : MemberId) :
    world.Within (world.registerProcessed member) :=
  { Within.refl world with processed := subset_insert _ _ }

end World

/-! ### Registrations -/

/-- What the world of a phase can be told. -/
inductive Registration where
  | instantiation (type : InterfaceType) (constructor : Option MemberId)
      (flags : InstantiationFlags)
  | static (use : StaticUse)
  | dynamic (use : DynamicUse)
  | isCheck (type : Ty)
  | typeLiteral (type : Ty)
  | enteredClass (cls : ClassId)
  /-- The members of a class are compared with the selectors, and nothing is
  noted. -/
  | rehearsedClass (cls : ClassId)
  | closurized (member : MemberId)
  | used (member : MemberId)
  | processed (member : MemberId)

namespace Scope

/-- Tell a world something, within the scope of its phase. -/
def register (scope : Scope) (program : Program) (world : World) :
    Registration → Except Failure World
  | .instantiation type constructor flags => do
      let (final, _) ←
        scope.registerInstantiation program type constructor flags world
      return final
  | .static use => do
      let (final, _) ← scope.registerStatic program use world
      return final
  | .dynamic use => do
      let (final, _) ← scope.registerDynamic program use world
      return final
  | .isCheck type => world.registerIsCheck program type
  | .typeLiteral type => .ok (world.registerTypeLiteral type)
  | .enteredClass cls => do
      let (final, _) ← world.enterClass program scope.live cls
      return final
  | .rehearsedClass cls => do
      let (final, _) ← world.visitClass program scope.live true cls
      return final
  | .closurized member => .ok (world.registerClosurized member)
  | .used member => world.registerUsed program member
  | .processed member => .ok (world.registerProcessed member)

variable {scope : Scope} {program : Program} {world final : World}

theorem within_registerStatic {use : StaticUse} {reports : List MemberReport}
    (registered : scope.registerStatic program use world =
      .ok (final, reports)) : world.Within final := by
  rcases registerStatic_cases registered with
    ⟨-, -, rfl⟩ | ⟨-, registered⟩
  · exact { World.Within.refl world with
      inlined := World.subset_insert _ _ }
  · exact World.within_registerStatic registered

theorem within_devirtualize {closed : ClosedWorld} {use : DynamicUse}
    (noted : devirtualize closed program use world = .ok final) :
    world.Within final := by
  unfold devirtualize at noted
  split at noted
  · obtain rfl := Except.ok.inj noted
    exact .refl world
  · rename_i isNew
    simp only [bind_eq_ok_iff] at noted
    obtain ⟨target?, -, noted⟩ := noted
    split at noted
    · obtain rfl := pure_eq_ok_iff.1 noted
      refine { World.Within.refl world with
        devirtualized := fun other target stored => ?_ }
      have different : other ≠ use := by
        rintro rfl
        simp [Table.contains, stored] at isNew
      simpa [different] using stored
    · obtain rfl := pure_eq_ok_iff.1 noted
      exact .refl world

theorem within_registerDynamic {use : DynamicUse} {reports : List MemberReport}
    (registered : scope.registerDynamic program use world =
      .ok (final, reports)) : world.Within final := by
  simp only [registerDynamic, bind_eq_ok_iff, Prod.exists] at registered
  obtain ⟨noted, told, isNoted, finished⟩ := registered
  have within := World.within_registerDynamic isNoted
  cases scope with
  | resolution =>
      obtain ⟨rfl, -⟩ := Prod.mk.inj (pure_eq_ok_iff.1 finished)
      exact within
  | codegen closed =>
      simp only [bind_eq_ok_iff, pure_eq_ok_iff, Prod.mk.injEq] at finished
      obtain ⟨_, devirtualized, rfl, -⟩ := finished
      exact within.trans (within_devirtualize devirtualized)

theorem within_register {registration : Registration}
    (registered : scope.register program world registration = .ok final) :
    world.Within final := by
  cases registration with
  | instantiation type constructor flags =>
      simp only [register, bind_eq_ok_iff, pure_eq_ok_iff, Prod.exists]
        at registered
      obtain ⟨_, reports, registered, rfl⟩ := registered
      exact World.within_registerInstantiation
        (registerInstantiation_within registered)
  | static use =>
      simp only [register, bind_eq_ok_iff, pure_eq_ok_iff, Prod.exists]
        at registered
      obtain ⟨_, reports, registered, rfl⟩ := registered
      exact within_registerStatic registered
  | dynamic use =>
      simp only [register, bind_eq_ok_iff, pure_eq_ok_iff, Prod.exists]
        at registered
      obtain ⟨_, reports, registered, rfl⟩ := registered
      exact within_registerDynamic registered
  | enteredClass cls =>
      simp only [register, bind_eq_ok_iff, pure_eq_ok_iff, Prod.exists]
        at registered
      obtain ⟨_, reports, entered, rfl⟩ := registered
      exact World.within_enterClass entered
  | rehearsedClass cls =>
      simp only [register, bind_eq_ok_iff, pure_eq_ok_iff, Prod.exists]
        at registered
      obtain ⟨_, reports, visited, rfl⟩ := registered
      exact World.within_visitClass visited
  | isCheck type => exact World.within_registerIsCheck registered
  | used member => exact World.within_registerUsed registered
  | typeLiteral type =>
      obtain rfl := Except.ok.inj registered
      exact world.within_registerTypeLiteral type
  | closurized member =>
      obtain rfl := Except.ok.inj registered
      exact world.within_registerClosurized member
  | processed member =>
      obtain rfl := Except.ok.inj registered
      exact world.within_registerProcessed member

end Scope

/-! ### Explorations -/

namespace Exploration

variable {σ : Type} {setting : Setting σ} {e next final : Exploration σ}
  {task : Task} {tasks agenda : List Task}

theorem Effect.within (effect : Effect setting e task tasks next) :
    e.world.Within next.world := by
  cases effect with
  | static admitted registered => exact Scope.within_registerStatic registered
  | dynamic admitted registered =>
      exact Scope.within_registerDynamic registered
  | test admitted isTest unaliased =>
      exact { World.Within.refl e.world with
        isChecks := World.subset_insert _ _ }
  | literal => exact e.world.within_registerTypeLiteral _
  | enlisted used | skipped used => exact World.within_registerUsed used
  | closurized => exact e.world.within_registerClosurized _
  | entered entered => exact World.within_enterClass entered
  | instantiated registered =>
      exact World.within_registerInstantiation
        (Scope.registerInstantiation_within registered)
  | refused | creation | untested | superfluous | demanded | announced
  | unapplied | applied | released => exact .refl e.world

theorem Turn.within {routine : Routine} {stage nextStage : Stage}
    (turn : Turn setting routine e stage tasks nextStage next) :
    e.world.Within next.world := by
  cases turn with
  | finished => exact e.world.within_registerProcessed _
  | emptied | passed | taken | applying | imposed | putOff | closed | drained
  | carriedOut | allCarriedOut | resumed | settled => exact .refl e.world

theorem within_of_step (stepped : e.step setting task = .ok (tasks, next)) :
    e.world.Within next.world := by
  rcases effect_or_turn stepped with effect | ⟨_, _, _, _, _, -, turn, -⟩
  · exact effect.within
  · exact turn.within

theorem Reachable.within {initial : Exploration σ}
    (reached : Reachable setting initial agenda e) :
    initial.world.Within e.world := by
  induction reached with
  | initial => exact .refl initial.world
  | commence reached commenced ih =>
      rw [(commence_cases commenced).1.world]
      exact ih
  | step reached stepped ih => exact ih.trans (within_of_step stepped)

end Exploration

/-- Whatever a world is told, and whatever an exploration does, nothing that was
found is lost. -/
theorem World.only_grows (scope : Scope) (program : Program) :
    (∀ world registration final,
      scope.register program world registration = .ok final →
        world.Within final) ∧
    ∀ (σ : Type) (setting : Setting σ) (e : Exploration σ),
      (∀ task tasks next, e.step setting task = .ok (tasks, next) →
        e.world.Within next.world) ∧
      (∀ steps operation final,
        e.perform setting steps operation = .ok final →
          e.world.Within final.world) ∧
      ∀ agenda later, Exploration.Reachable setting e agenda later →
        e.world.Within later.world := by
  refine ⟨fun world registration final => Scope.within_register, ?_⟩
  intro σ setting e
  refine ⟨fun task tasks next => Exploration.within_of_step, ?_, ?_⟩
  · intro steps operation final performed
    exact (Exploration.Reachable.initial.perform performed).within
  · intro agenda later reached
    exact reached.within

/-- The setting in which the call of a method is explored. -/
def heirSetting : Setting Unit where
  program := Compilation.heirProgram
  scope := .resolution
  strategy := .treeShaking
  listener := .silent
  source := .cache
  options := {}

/-- A call on one class is followed by the same call on any receiver, which makes
the constraint disappear, and by an instantiation, through which the call reaches
its method. -/
theorem World.grows_beyond_narrow_call :
    ∃ narrow wide final,
      Scope.resolution.register Compilation.heirProgram {}
        (.dynamic { Compilation.heirCall with constraint := .exact ⟨1⟩ }) =
          .ok narrow ∧
      Scope.resolution.register Compilation.heirProgram narrow
        (.dynamic Compilation.heirCall) = .ok wide ∧
      wide.selectors.get? Compilation.heirCall.selector =
        some { isAll := true } ∧
      narrow.Within wide ∧
      Exploration.perform { world := wide, listener := () } heirSetting 10
        (.apply { types := [⟨.instantiation, .interface ⟨0⟩ []⟩] } none) =
          .ok final ∧
      final.world.usedMembers = [⟨1⟩] ∧ wide.Within final.world := by
  obtain ⟨narrow, wide, final, called, calledAgain, forgotten, performed,
      isUsed⟩ :
      ∃ narrow wide final,
        Scope.resolution.register Compilation.heirProgram {}
          (.dynamic { Compilation.heirCall with constraint := .exact ⟨1⟩ }) =
            .ok narrow ∧
        Scope.resolution.register Compilation.heirProgram narrow
          (.dynamic Compilation.heirCall) = .ok wide ∧
        wide.selectors.get? Compilation.heirCall.selector =
          some { isAll := true } ∧
        Exploration.perform { world := wide, listener := () } heirSetting 10
          (.apply { types := [⟨.instantiation, .interface ⟨0⟩ []⟩] } none) =
            .ok final ∧
        final.world.usedMembers = [⟨1⟩] :=
    ⟨_, _, _, rfl, rfl, rfl, rfl, rfl⟩
  obtain ⟨told, explored⟩ := only_grows .resolution Compilation.heirProgram
  exact ⟨narrow, wide, final, called, calledAgain, forgotten,
    told _ _ _ calledAgain, performed, isUsed,
    (explored _ _ _).2.1 _ _ _ performed⟩

end TreeShaking
