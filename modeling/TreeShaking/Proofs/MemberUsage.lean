import TreeShaking.Usage.Member

/-!
# What an access consumes

A use of a member is one of three bits, and each access has a fixed set of bits
that it can consume from a member of a given shape: the bits that it *grants*.
An access to a coherent usage consumes exactly the granted bits that are still
pending (`access_applied`), and answers with exactly those (`access_reported`).
So the bits that have been applied after any accesses are those that one of the
accesses grants, whatever their order.

`MemberDecl.supports` says in terms of the declaration which accesses count, and
`grants_normal` that they are the ones that grant the ordinary use.
-/

namespace TreeShaking

/-- One of the uses that a member can have. -/
inductive UseBit where
  | normal
  | closurizeInstance
  | closurizeStatic
deriving DecidableEq

/-- Whether a use is in a set. -/
def MemberUses.has (uses : MemberUses) : UseBit → Bool
  | .normal => uses.normal
  | .closurizeInstance => uses.closurizeInstance
  | .closurizeStatic => uses.closurizeStatic

namespace MemberUses

@[simp]
theorem has_empty (bit : UseBit) : ({} : MemberUses).has bit = false := by
  cases bit <;> rfl

@[simp]
theorem has_union (first second : MemberUses) (bit : UseBit) :
    (first.union second).has bit = (first.has bit || second.has bit) := by
  cases bit <;> rfl

@[simp]
theorem has_inter (first second : MemberUses) (bit : UseBit) :
    (first.inter second).has bit = (first.has bit && second.has bit) := by
  cases bit <;> rfl

@[simp]
theorem has_diff (first second : MemberUses) (bit : UseBit) :
    (first.diff second).has bit = (first.has bit && !second.has bit) := by
  cases bit <;> rfl

theorem ext_has {first second : MemberUses}
    (same : ∀ bit, first.has bit = second.has bit) : first = second := by
  have normal := same .normal
  have closurizeInstance := same .closurizeInstance
  have closurizeStatic := same .closurizeStatic
  cases first
  cases second
  simp_all [has]

theorem isEmpty_eq_false_iff {uses : MemberUses} :
    uses.isEmpty = false ↔ ∃ bit, uses.has bit = true := by
  obtain ⟨normal, closurizeInstance, closurizeStatic⟩ := uses
  constructor
  · intro filled
    cases normal
    · cases closurizeInstance
      · cases closurizeStatic
        · simp [isEmpty] at filled
        · exact ⟨.closurizeStatic, rfl⟩
      · exact ⟨.closurizeInstance, rfl⟩
    · exact ⟨.normal, rfl⟩
  · rintro ⟨bit, held⟩
    cases bit <;> simp_all [has, isEmpty]

end MemberUses

/-- Whether a declared member can be accessed in a certain way at all. -/
def MemberDecl.supports (decl : MemberDecl) : Access → Bool
  | .init => decl.isField
  | .read => decl.isField || decl.isGetter || decl.isFunction
  | .write => decl.isAssignable || decl.isSetter
  | .invoke => !decl.isSetter
  | .full => true

/-- The bits that an access can consume from a member of a shape. -/
def MemberShape.grants : MemberShape → Access → UseBit → Bool
  | .field, .init, .normal | .finalField, .init, .normal => true
  | .field, .read, .normal | .finalField, .read, .normal
  | .getter, .read, .normal | .instanceFunction, .read, .normal
  | .staticFunction, .read, .normal => true
  | .instanceFunction, .read, .closurizeInstance => true
  | .staticFunction, .read, .closurizeStatic => true
  | .field, .write, .normal | .setter, .write, .normal => true
  | .setter, .invoke, _ => false
  | _, .invoke, .normal => true
  | shape, .full, bit => shape.potential.has bit
  | _, _, _ => false

namespace MemberDecl

/-- The bits that an access can consume from a declared member. -/
def grants (decl : MemberDecl) (access : Access) (bit : UseBit) : Bool :=
  decl.shape.grants access bit

theorem grants_normal (decl : MemberDecl) (access : Access) :
    decl.grants access .normal = decl.supports access := by
  unfold grants MemberDecl.shape supports
  cases kind : decl.kind with
  | field assignable =>
      cases assignable <;> cases access <;>
        simp [MemberShape.grants, MemberShape.potential, MemberUses.has, kind,
          isField, isGetter, isSetter, isFunction, isAssignable]
  | function | method =>
      cases instanceMember : decl.isInstanceMember <;> cases access <;>
        simp [MemberShape.grants, MemberShape.potential, MemberUses.has, kind,
          isField, isGetter, isSetter, isFunction, isAssignable]
  | getter | setter | constructor =>
      cases access <;>
        simp [MemberShape.grants, MemberShape.potential, MemberUses.has, kind,
          isField, isGetter, isSetter, isFunction, isAssignable]

theorem closurizeStatic_of_isInstance {decl : MemberDecl}
    (isInstance : decl.isInstanceMember = true) :
    decl.shape.potential.has .closurizeStatic = false := by
  unfold MemberDecl.shape
  cases decl.kind with
  | field assignable => cases assignable <;> rfl
  | function | method => simp [isInstance, MemberShape.potential, MemberUses.has]
  | getter | setter | constructor => rfl

end MemberDecl

namespace MemberUsage

/-- The accesses that a usage remembers account for the uses that it has
consumed. -/
def Coherent (usage : MemberUsage) : Prop :=
  match usage.shape with
  | .field | .finalField | .getter | .setter =>
      usage.pending.closurizeInstance = false ∧
        usage.pending.closurizeStatic = false ∧
        (usage.hasInit = true ∨ usage.hasRead = true ∨ usage.hasWrite = true →
          usage.pending.normal = false)
  | .instanceFunction =>
      usage.hasInvoke = !usage.pending.normal ∧
        usage.hasRead = !usage.pending.closurizeInstance ∧
        usage.pending.closurizeStatic = false ∧
        (usage.hasRead = true → usage.hasInvoke = true)
  | .staticFunction =>
      usage.hasInvoke = !usage.pending.normal ∧
        usage.hasRead = !usage.pending.closurizeStatic ∧
        usage.pending.closurizeInstance = false ∧
        (usage.hasRead = true → usage.hasInvoke = true)
  | .constructor =>
      usage.hasInvoke = !usage.pending.normal ∧
        usage.pending.closurizeInstance = false ∧
        usage.pending.closurizeStatic = false ∧ usage.hasRead = false

instance (usage : MemberUsage) : Decidable usage.Coherent := by
  unfold Coherent
  split <;> infer_instance

theorem coherent_start (decl : MemberDecl) : (start decl).Coherent := by
  unfold start Coherent
  cases decl.shape <;> simp [MemberShape.potential]

/-- What an access does to a usage: the granted bits that were pending are
consumed and reported, and nothing else happens to the bits. -/
structure Consumes (before : MemberUsage) (granted : UseBit → Bool)
    (outcome : MemberUses × MemberUsage) : Prop where
  shape : outcome.2.shape = before.shape
  coherent : outcome.2.Coherent
  applied : ∀ bit,
    outcome.2.applied.has bit = (before.applied.has bit || granted bit)
  reported : ∀ bit,
    outcome.1.has bit = (granted bit && !before.applied.has bit)

theorem has_applied (usage : MemberUsage) (bit : UseBit) :
    usage.applied.has bit =
      (usage.shape.potential.has bit && !usage.pending.has bit) := by
  simp [applied]

theorem Coherent.potential_of_pending {usage : MemberUsage}
    (coherent : usage.Coherent) (bit : UseBit)
    (pending : usage.pending.has bit = true) :
    usage.shape.potential.has bit = true := by
  unfold Coherent at coherent
  cases shape : usage.shape <;> rw [shape] at coherent <;> cases bit <;>
    simp_all [MemberShape.potential, MemberUses.has]

/-- Accesses that have been made already grant nothing new. -/
theorem Consumes.of_unchanged {before usage : MemberUsage}
    {granted : UseBit → Bool} (shape : usage.shape = before.shape)
    (pending : usage.pending = before.pending) (coherent : usage.Coherent)
    (done : ∀ bit, granted bit = true → before.applied.has bit = true) :
    Consumes before granted usage.unchanged where
  shape := shape
  coherent := coherent
  applied bit := by
    have same : usage.applied.has bit = before.applied.has bit := by
      rw [has_applied, has_applied, shape, pending]
    cases grant : granted bit with
    | false => simp [unchanged, same]
    | true => simp [unchanged, same, done bit grant]
  reported bit := by
    cases grant : granted bit with
    | false => simp [unchanged]
    | true => simp [unchanged, done bit grant]

/-- An access that consumes what it grants, as far as it is pending. -/
theorem Consumes.of_consume {before usage : MemberUsage} {uses : MemberUses}
    {granted : UseBit → Bool} (shape : usage.shape = before.shape)
    (pending : usage.pending = before.pending)
    (beforeCoherent : before.Coherent)
    (coherent : (usage.consume uses).2.Coherent)
    (potential : ∀ bit, granted bit = true →
      before.shape.potential.has bit = true)
    (offered : ∀ bit, before.pending.has bit = true →
      uses.has bit = granted bit) :
    Consumes before granted (usage.consume uses) where
  shape := shape
  coherent := coherent
  applied bit := by
    have isPotential := potential bit
    have isOffered := offered bit
    have isWithin := beforeCoherent.potential_of_pending bit
    simp only [has_applied, consume, MemberUses.has_diff, MemberUses.has_inter,
      shape, pending]
    cases isPending : before.pending.has bit <;>
      cases grant : granted bit <;> simp_all
  reported bit := by
    have isPotential := potential bit
    have isOffered := offered bit
    have isWithin := beforeCoherent.potential_of_pending bit
    simp only [has_applied, consume, MemberUses.has_inter, pending]
    cases isPending : before.pending.has bit <;>
      cases grant : granted bit <;> simp_all

/-- The grant of the ordinary use alone. -/
def onlyNormal : UseBit → Bool
  | .normal => true
  | .closurizeInstance | .closurizeStatic => false

/-- The grant of nothing. -/
def nothing : UseBit → Bool := fun _ => false

theorem Consumes.congr {before : MemberUsage} {granted other : UseBit → Bool}
    {outcome : MemberUses × MemberUsage}
    (consumes : Consumes before granted outcome)
    (agree : ∀ bit, granted bit = other bit) :
    Consumes before other outcome := by
  obtain rfl : granted = other := funext agree
  exact consumes

/-- Two accesses in turn consume what either of them grants. -/
theorem Consumes.trans {before : MemberUsage} {granted further : UseBit → Bool}
    {first second : MemberUses × MemberUsage}
    (consumes : Consumes before granted first)
    (thenConsumes : Consumes first.2 further second) :
    Consumes before (fun bit => granted bit || further bit)
      (first.1.union second.1, second.2) where
  shape := thenConsumes.shape.trans consumes.shape
  coherent := thenConsumes.coherent
  applied bit := by
    rw [thenConsumes.applied bit, consumes.applied bit, Bool.or_assoc]
  reported bit := by
    rw [MemberUses.has_union, consumes.reported bit, thenConsumes.reported bit,
      consumes.applied bit]
    cases before.applied.has bit <;> cases granted bit <;>
      cases further bit <;> rfl

/-- What is still pending after an access was pending before it. -/
theorem Consumes.pending_of_pending {before : MemberUsage}
    {granted : UseBit → Bool} {outcome : MemberUses × MemberUsage}
    (consumes : Consumes before granted outcome) (bit : UseBit)
    (pending : outcome.2.pending.has bit = true) :
    before.pending.has bit = true := by
  have potential := consumes.coherent.potential_of_pending bit pending
  have applied := consumes.applied bit
  rw [has_applied, has_applied, potential, pending, consumes.shape.symm,
    potential] at applied
  cases isPending : before.pending.has bit with
  | true => rfl
  | false => simp [isPending] at applied

theorem consumes_nothing {usage : MemberUsage} (coherent : usage.Coherent) :
    Consumes usage nothing usage.unchanged :=
  .of_unchanged rfl rfl coherent (by simp [nothing])

/-- Whether a member holds a value, as opposed to code that is called. -/
def HoldsValue (usage : MemberUsage) : Prop :=
  usage.shape = .field ∨ usage.shape = .finalField ∨ usage.shape = .getter ∨
    usage.shape = .setter

/-- The first access of its kind to a member that holds a value. -/
theorem consumes_firstValue {usage : MemberUsage} (coherent : usage.Coherent)
    (holdsValue : usage.HoldsValue) (hasInit hasRead hasWrite : Bool) :
    Consumes usage onlyNormal
      ({ usage with hasInit, hasRead, hasWrite }.consume { normal := true }) := by
  have pendingOnly : usage.pending.closurizeInstance = false ∧
      usage.pending.closurizeStatic = false := by
    rcases holdsValue with shape | shape | shape | shape <;>
      simp only [Coherent, shape] at coherent <;>
      exact ⟨coherent.1, coherent.2.1⟩
  refine .of_consume rfl rfl coherent ?_ ?_ ?_
  · rcases holdsValue with shape | shape | shape | shape <;>
      simp [Coherent, consume, shape, pendingOnly, MemberUses.diff,
        MemberUses.inter]
  · intro bit grant
    cases bit with
    | normal =>
        rcases holdsValue with shape | shape | shape | shape <;>
          simp [shape, MemberShape.potential, MemberUses.has]
    | closurizeInstance | closurizeStatic => simp [onlyNormal] at grant
  · intro bit pending
    cases bit with
    | normal => rfl
    | closurizeInstance => simp [MemberUses.has, pendingOnly.1] at pending
    | closurizeStatic => simp [MemberUses.has, pendingOnly.2] at pending

theorem consumes_repeatedValue {usage : MemberUsage}
    (coherent : usage.Coherent) (holdsValue : usage.HoldsValue)
    (repeated : usage.hasInit = true ∨ usage.hasRead = true ∨
      usage.hasWrite = true) :
    Consumes usage onlyNormal usage.unchanged := by
  refine .of_unchanged rfl rfl coherent fun bit grant => ?_
  cases bit with
  | normal =>
      have consumed : usage.pending.normal = false := by
        rcases holdsValue with shape | shape | shape | shape <;>
          simp only [Coherent, shape] at coherent <;>
          exact coherent.2.2 repeated
      rw [has_applied]
      rcases holdsValue with shape | shape | shape | shape <;>
        simp [shape, MemberShape.potential, MemberUses.has, consumed]
  | closurizeInstance | closurizeStatic => simp [onlyNormal] at grant

theorem consumes_readValue {usage : MemberUsage} (coherent : usage.Coherent)
    (holdsValue : usage.HoldsValue) :
    Consumes usage onlyNormal usage.readValue := by
  unfold readValue
  split
  · rename_i isRead
    exact consumes_repeatedValue coherent holdsValue (.inr (.inl isRead))
  · exact consumes_firstValue coherent holdsValue usage.hasInit true
      usage.hasWrite

/-- A tear-off of a function grants all that the function can have. -/
theorem consumes_useFunction {usage : MemberUsage} (coherent : usage.Coherent)
    (isFunction : usage.shape = .instanceFunction ∨
      usage.shape = .staticFunction) :
    Consumes usage usage.shape.potential.has usage.useFunction := by
  obtain ⟨shape, ⟨normal, tornInstance, tornStatic⟩, hasInit, hasRead, hasWrite,
    hasInvoke⟩ := usage
  -- Coherence determines both flags, which leaves three stages of a function.
  rcases isFunction with isInstance | isStatic
  · obtain rfl : shape = .instanceFunction := isInstance
    obtain ⟨invoked, torn, absent, order⟩ := coherent
    dsimp only at invoked torn absent order
    subst invoked torn absent
    cases normal <;> cases tornInstance <;>
      first
      | exact absurd (order rfl) (by decide)
      | exact ⟨rfl, by simp [useFunction, Coherent, consume, unchanged,
          MemberShape.potential, MemberUses.inter, MemberUses.diff],
          fun bit => by cases bit <;> rfl, fun bit => by cases bit <;> rfl⟩
  · obtain rfl : shape = .staticFunction := isStatic
    obtain ⟨invoked, torn, absent, order⟩ := coherent
    dsimp only at invoked torn absent order
    subst invoked torn absent
    cases normal <;> cases tornStatic <;>
      first
      | exact absurd (order rfl) (by decide)
      | exact ⟨rfl, by simp [useFunction, Coherent, consume, unchanged,
          MemberShape.potential, MemberUses.inter, MemberUses.diff],
          fun bit => by cases bit <;> rfl, fun bit => by cases bit <;> rfl⟩

theorem consumes_invokeCode {usage : MemberUsage} (coherent : usage.Coherent)
    (isCode : usage.shape = .instanceFunction ∨
      usage.shape = .staticFunction ∨ usage.shape = .constructor) :
    Consumes usage onlyNormal usage.invokeCode := by
  have invoked : usage.hasInvoke = !usage.pending.normal := by
    rcases isCode with shape | shape | shape <;>
      simp only [Coherent, shape] at coherent <;> exact coherent.1
  have order : usage.hasRead = true → usage.hasInvoke = true := by
    rcases isCode with shape | shape | shape <;>
      simp only [Coherent, shape] at coherent
    · exact coherent.2.2.2
    · exact coherent.2.2.2
    · simp [coherent.2.2.2]
  have potential : usage.shape.potential.normal = true := by
    rcases isCode with shape | shape | shape <;>
      simp [shape, MemberShape.potential]
  unfold invokeCode
  split
  · rename_i isInvoked
    refine .of_unchanged rfl rfl coherent fun bit grant => ?_
    cases bit with
    | normal =>
        have consumed : usage.pending.normal = false := by
          simpa [isInvoked] using invoked
        rw [has_applied]
        simp [MemberUses.has, potential, consumed]
    | closurizeInstance | closurizeStatic => simp [onlyNormal] at grant
  · rename_i notInvoked
    rw [if_neg fun isRead => notInvoked (order isRead)]
    refine .of_consume rfl rfl coherent ?_ ?_ ?_
    · rcases isCode with shape | shape | shape <;>
        simp only [Coherent, shape] at coherent <;>
        simp_all [Coherent, consume, MemberUses.inter, MemberUses.diff]
    · intro bit grant
      cases bit with
      | normal => exact potential
      | closurizeInstance | closurizeStatic => simp [onlyNormal] at grant
    · intro bit pending
      cases bit with
      | normal => rfl
      | closurizeInstance | closurizeStatic => rfl

theorem consumes_init {usage : MemberUsage} (coherent : usage.Coherent) :
    Consumes usage (usage.shape.grants .init) usage.init := by
  unfold init
  cases shape : usage.shape with
  | field | finalField =>
      have holdsValue : usage.HoldsValue := by simp [HoldsValue, shape]
      dsimp only
      split
      · rename_i isInit
        exact (consumes_repeatedValue coherent holdsValue (.inl isInit)).congr
          (by intro bit; cases bit <;> rfl)
      · rw [← shape]
        exact (consumes_firstValue coherent holdsValue true usage.hasRead
          usage.hasWrite).congr (by intro bit; rw [shape]; cases bit <;> rfl)
  | getter | setter | instanceFunction | staticFunction | constructor =>
      exact (consumes_nothing coherent).congr
        (by intro bit; cases bit <;> rfl)

theorem consumes_read {usage : MemberUsage} (coherent : usage.Coherent) :
    Consumes usage (usage.shape.grants .read) usage.read := by
  unfold read
  cases shape : usage.shape with
  | field | finalField | getter =>
      have holdsValue : usage.HoldsValue := by simp [HoldsValue, shape]
      exact (consumes_readValue coherent holdsValue).congr
        (by intro bit; cases bit <;> rfl)
  | instanceFunction | staticFunction =>
      exact (consumes_useFunction coherent (by simp [shape])).congr
        (by intro bit; rw [shape]; cases bit <;> rfl)
  | setter | constructor =>
      exact (consumes_nothing coherent).congr
        (by intro bit; cases bit <;> rfl)

theorem consumes_write {usage : MemberUsage} (coherent : usage.Coherent) :
    Consumes usage (usage.shape.grants .write) usage.write := by
  unfold write
  cases shape : usage.shape with
  | field | setter =>
      have holdsValue : usage.HoldsValue := by simp [HoldsValue, shape]
      dsimp only
      split
      · rename_i isWritten
        exact (consumes_repeatedValue coherent holdsValue
          (.inr (.inr isWritten))).congr (by intro bit; cases bit <;> rfl)
      · rw [← shape]
        exact (consumes_firstValue coherent holdsValue usage.hasInit
          usage.hasRead true).congr (by intro bit; rw [shape]; cases bit <;> rfl)
  | finalField | getter | instanceFunction | staticFunction | constructor =>
      exact (consumes_nothing coherent).congr
        (by intro bit; cases bit <;> rfl)

theorem consumes_invoke {usage : MemberUsage} (coherent : usage.Coherent) :
    Consumes usage (usage.shape.grants .invoke) usage.invoke := by
  unfold invoke
  cases shape : usage.shape with
  | field | finalField | getter =>
      have holdsValue : usage.HoldsValue := by simp [HoldsValue, shape]
      exact (consumes_readValue coherent holdsValue).congr
        (by intro bit; cases bit <;> rfl)
  | instanceFunction | staticFunction | constructor =>
      exact (consumes_invokeCode coherent (by simp [shape])).congr
        (by intro bit; cases bit <;> rfl)
  | setter =>
      exact (consumes_nothing coherent).congr
        (by intro bit; cases bit <;> rfl)

theorem consumes_useFully {usage : MemberUsage} (coherent : usage.Coherent) :
    Consumes usage (usage.shape.grants .full) usage.useFully := by
  unfold useFully
  cases shape : usage.shape with
  | instanceFunction | staticFunction =>
      exact (consumes_useFunction coherent (by simp [shape])).congr
        (by intro bit; rw [shape]; cases bit <;> rfl)
  | constructor =>
      exact (consumes_invokeCode coherent (by simp [shape])).congr
        (by intro bit; cases bit <;> rfl)
  | field | finalField | getter | setter =>
      have holdsValue : usage.HoldsValue := by simp [HoldsValue, shape]
      dsimp only
      split
      · rename_i isFull
        have repeated : usage.hasInit = true ∨ usage.hasRead = true ∨
            usage.hasWrite = true := by
          simp only [isFullyUsed, shape, Bool.and_eq_true] at isFull
          simp [isFull]
        exact (consumes_repeatedValue coherent holdsValue repeated).congr
          (by intro bit; cases bit <;> rfl)
      · rw [← shape]
        exact (consumes_firstValue coherent holdsValue true true true).congr
          (by intro bit; rw [shape]; cases bit <;> rfl)

/-- Every access consumes the bits that it grants to the shape. -/
theorem consumes_access {usage : MemberUsage} (coherent : usage.Coherent)
    (access : Access) :
    Consumes usage (usage.shape.grants access) (usage.access access) := by
  cases access with
  | init => exact consumes_init coherent
  | read => exact consumes_read coherent
  | write => exact consumes_write coherent
  | invoke => exact consumes_invoke coherent
  | full => exact consumes_useFully coherent

/-- A member that is fully used has nothing left to be consumed. -/
theorem Coherent.applied_of_isFullyUsed {usage : MemberUsage}
    (coherent : usage.Coherent) (isFull : usage.isFullyUsed = true)
    {bit : UseBit} (potential : usage.shape.potential.has bit = true) :
    usage.applied.has bit = true := by
  rw [has_applied, potential]
  unfold Coherent at coherent
  unfold isFullyUsed at isFull
  cases shape : usage.shape <;> simp only [shape] at coherent isFull potential <;>
    cases bit <;> simp_all [MemberShape.potential, MemberUses.has]

/-- Whoever has a use applied has the ordinary one applied. -/
theorem Coherent.normal_of_applied {usage : MemberUsage}
    (coherent : usage.Coherent) {bit : UseBit}
    (applied : usage.applied.has bit = true) :
    usage.applied.normal = true := by
  have normal := usage.has_applied .normal
  rw [has_applied] at applied
  unfold Coherent at coherent
  cases shape : usage.shape <;> cases bit <;>
    simp_all [MemberShape.potential, MemberUses.has]

end MemberUsage

theorem MemberShape.potential_of_grants {shape : MemberShape} {access : Access}
    {bit : UseBit} (grant : shape.grants access bit = true) :
    shape.potential.has bit = true := by
  cases shape <;> cases access <;> cases bit <;>
    simp_all [MemberShape.grants, MemberShape.potential, MemberUses.has]

end TreeShaking
