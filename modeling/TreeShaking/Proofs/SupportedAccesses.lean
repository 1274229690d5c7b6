import TreeShaking.Proofs.Accesses
import TreeShaking.Proofs.Account.Marks

/-!
# Accesses that a member does not support

A member carries marks for the accesses that it supports: only an assignable
field or a setter is written, only a function or a constructor is called.  Each
access leaves marks that the member carries, and a member is fully used when it
has them all (`isFullyUsed_iff`).

There is one exception.  A full access to a member that holds a value marks it as
initialised, read and written at once, whether it supports that or not, unless
the member is fully used already.  `mark_accessAll_iff` says what marks any
accesses leave in the end, and `marks_are_supported_iff` for which accesses a mark
is left that the member does not carry.
-/

namespace TreeShaking

/-- The marks of the accesses that a member of a shape supports. -/
def MemberShape.carries : MemberShape → AccessMark → Bool
  | .field, .init | .field, .read | .field, .write => true
  | .finalField, .init | .finalField, .read => true
  | .getter, .read => true
  | .setter, .write => true
  | .instanceFunction, .read | .instanceFunction, .invoke => true
  | .staticFunction, .read | .staticFunction, .invoke => true
  | .constructor, .invoke => true
  | _, _ => false

/-- The marks that a full access leaves although the member does not carry them.
It treats all members that hold a value alike. -/
def MemberShape.exceeds : MemberShape → AccessMark → Bool
  | .finalField, .write => true
  | .getter, .init | .getter, .write => true
  | .setter, .init | .setter, .read => true
  | _, _ => false

/-- The marks that an access is meant to leave.  A full access is meant to leave
all that the member carries. -/
def MemberShape.leaves (shape : MemberShape) (access : Access)
    (mark : AccessMark) : Bool :=
  match access with
  | .init => shape.carries .init && decide (mark = .init)
  | .full => shape.carries mark
  | .read | .write | .invoke => shape.marks access mark

namespace MemberShape

variable {shape : MemberShape} {access : Access} {mark : AccessMark}

theorem carries_of_leaves (leaves : shape.leaves access mark = true) :
    shape.carries mark = true := by
  cases access with
  | init =>
      obtain ⟨carries, isInit⟩ := Bool.and_eq_true_iff.1 leaves
      rwa [of_decide_eq_true isInit]
  | full => exact leaves
  | read | write | invoke =>
      cases shape <;> cases mark <;>
        simp_all [MemberShape.leaves, MemberShape.marks, MemberShape.carries]

theorem not_carries_of_exceeds (exceeds : shape.exceeds mark = true) :
    shape.carries mark = false := by
  cases shape <;> cases mark <;>
    simp_all [MemberShape.exceeds, MemberShape.carries]

end MemberShape

namespace MemberDecl

/-- The marks of the accesses that a declared member supports. -/
def carries (decl : MemberDecl) : AccessMark → Bool
  | .init => decl.isField
  | .read => decl.isField || decl.isGetter || decl.isFunction
  | .write => decl.isAssignable || decl.isSetter
  | .invoke => decl.isFunction || decl.isConstructor

theorem carries_shape (decl : MemberDecl) (mark : AccessMark) :
    decl.shape.carries mark = decl.carries mark := by
  unfold MemberDecl.shape
  cases kind : decl.kind with
  | field assignable =>
      cases assignable <;> cases mark <;>
        simp [MemberShape.carries, carries, kind, isField, isGetter, isSetter,
          isFunction, isConstructor, isAssignable]
  | function | method =>
      cases instanceMember : decl.isInstanceMember <;> cases mark <;>
        simp [MemberShape.carries, carries, kind, isField, isGetter, isSetter,
          isFunction, isConstructor, isAssignable]
  | getter | setter | constructor =>
      cases mark <;>
        simp [MemberShape.carries, carries, kind, isField, isGetter, isSetter,
          isFunction, isConstructor, isAssignable]

theorem exceeds_shape_iff {decl : MemberDecl} {mark : AccessMark} :
    decl.shape.exceeds mark = true ↔
      (decl.kind = .field false ∧ mark = .write) ∨
      (decl.kind = .getter ∧ (mark = .init ∨ mark = .write)) ∨
      (decl.kind = .setter ∧ (mark = .init ∨ mark = .read)) := by
  unfold MemberDecl.shape
  cases decl.kind with
  | field assignable =>
      cases assignable <;> cases mark <;> simp [MemberShape.exceeds]
  | function | method =>
      cases decl.isInstanceMember <;> simp [MemberShape.exceeds]
  | getter | setter | constructor => cases mark <;> simp [MemberShape.exceeds]

/-- Whether accesses leave every mark that a member carries. -/
def UsedUpBy (decl : MemberDecl) (accesses : List Access) : Prop :=
  ∀ mark, decl.carries mark = true →
    ∃ access ∈ accesses, decl.shape.leaves access mark = true

/-- Whether a full access is made to a member that the accesses before it have
not used up. -/
def CutShortBy (decl : MemberDecl) (accesses : List Access) : Prop :=
  ∃ earlier later, accesses = earlier ++ .full :: later ∧
    ¬ decl.UsedUpBy earlier

end MemberDecl

namespace MemberUsage

/-! ### The marks of one access -/

/-- A member is fully used when it has every mark that it carries. -/
theorem isFullyUsed_iff {usage : MemberUsage} :
    usage.isFullyUsed = true ↔
      ∀ mark, usage.shape.carries mark = true → usage.mark mark = true := by
  unfold isFullyUsed
  constructor
  · intro isFull mark carries
    cases shape : usage.shape <;> rw [shape] at isFull carries <;>
      cases mark <;> simp_all [MemberShape.carries, MemberUsage.mark]
  · intro marked
    have isInit := marked .init
    have isRead := marked .read
    have isWritten := marked .write
    have isInvoked := marked .invoke
    cases shape : usage.shape <;>
      simp_all [MemberShape.carries, MemberUsage.mark]

theorem mark_init (usage : MemberUsage) (mark : AccessMark) :
    usage.init.2.mark mark =
      (usage.mark mark || usage.shape.leaves .init mark) := by
  unfold init
  cases shape : usage.shape with
  | field | finalField =>
      dsimp only
      split
      · rename_i isInit
        cases mark <;> simp [unchanged, MemberUsage.mark, MemberShape.leaves,
          MemberShape.carries, isInit]
      · cases mark <;> simp [consume, MemberUsage.mark, MemberShape.leaves,
          MemberShape.carries]
  | getter | setter | instanceFunction | staticFunction | constructor =>
      simp [unchanged, MemberShape.leaves, MemberShape.carries]

/-- A full access leaves the marks that the member carries, and those beyond if
it finds the member not fully used. -/
theorem mark_useFully (usage : MemberUsage) (mark : AccessMark) :
    usage.useFully.2.mark mark =
      (usage.mark mark || usage.shape.leaves .full mark ||
        (!usage.isFullyUsed && usage.shape.exceeds mark)) := by
  unfold useFully
  cases shape : usage.shape with
  | instanceFunction | staticFunction =>
      dsimp only
      rw [mark_useFunction]
      cases mark <;>
        simp [MemberShape.leaves, MemberShape.carries, MemberShape.exceeds]
  | constructor =>
      dsimp only
      rw [mark_invokeCode]
      cases mark <;>
        simp [MemberShape.leaves, MemberShape.carries, MemberShape.exceeds]
  | field | finalField | getter | setter =>
      dsimp only
      split
      · rename_i isFull
        have marked := isFullyUsed_iff.1 isFull mark
        rw [shape] at marked
        simpa [unchanged, MemberShape.leaves, isFull] using marked
      · rename_i notFull
        cases mark <;> simp [consume, MemberUsage.mark, MemberShape.leaves,
          MemberShape.carries, MemberShape.exceeds, notFull]

/-- What marks an access leaves. -/
theorem mark_access_eq (usage : MemberUsage) (access : Access)
    (mark : AccessMark) :
    (usage.access access).2.mark mark =
      (usage.mark mark || usage.shape.leaves access mark ||
        (decide (access = .full) && !usage.isFullyUsed &&
          usage.shape.exceeds mark)) := by
  cases access with
  | init => simpa [MemberUsage.access] using usage.mark_init mark
  | full => simpa [MemberUsage.access] using usage.mark_useFully mark
  | read | write | invoke =>
      rw [mark_access _ rfl]
      simp [MemberShape.leaves]

/-! ### The marks of a sequence of accesses -/

/-- Whether a full access is made while the usage is not fully used. -/
def CutShort (usage : MemberUsage) (accesses : List Access) : Prop :=
  ∃ earlier later, accesses = earlier ++ .full :: later ∧
    (usage.accessAll earlier).2.isFullyUsed = false

theorem cutShort_cons_iff {usage : MemberUsage} {access : Access}
    {rest : List Access} :
    usage.CutShort (access :: rest) ↔
      (access = .full ∧ usage.isFullyUsed = false) ∨
        (usage.access access).2.CutShort rest := by
  constructor
  · rintro ⟨earlier, later, split, notFull⟩
    rcases List.cons_eq_append_iff.1 split with ⟨rfl, found⟩ | ⟨between, rfl, rfl⟩
    · exact .inl ⟨(List.cons.inj found).1.symm, notFull⟩
    · exact .inr ⟨between, later, rfl, notFull⟩
  · rintro (⟨rfl, notFull⟩ | ⟨earlier, later, rfl, notFull⟩)
    · exact ⟨[], rest, rfl, notFull⟩
    · exact ⟨access :: earlier, later, rfl, notFull⟩

/-- A mark is there in the end if it was there before, if an access is meant to
leave it, or if a full access leaves it beyond what the member carries. -/
theorem mark_accessAll_iff {usage : MemberUsage} (coherent : usage.Coherent)
    (accesses : List Access) (mark : AccessMark) :
    (usage.accessAll accesses).2.mark mark = true ↔
      usage.mark mark = true ∨
        (∃ access ∈ accesses, usage.shape.leaves access mark = true) ∨
        (usage.shape.exceeds mark = true ∧ usage.CutShort accesses) := by
  induction accesses generalizing usage with
  | nil => simp [accessAll, CutShort]
  | cons access rest ih =>
      have consumes := consumes_access coherent access
      have later := ih consumes.coherent
      rw [consumes.shape, mark_access_eq] at later
      simp only [Bool.or_eq_true, Bool.and_eq_true, decide_eq_true_eq,
        Bool.not_eq_true'] at later
      change ((usage.access access).2.accessAll rest).2.mark mark = true ↔ _
      rw [later, cutShort_cons_iff, List.exists_mem_cons_iff]
      constructor
      · rintro (((marked | leaves) | ⟨now, exceeds⟩) | left | ⟨exceeds, cutShort⟩)
        · exact .inl marked
        · exact .inr (.inl (.inl leaves))
        · exact .inr (.inr ⟨exceeds, .inl now⟩)
        · exact .inr (.inl (.inr left))
        · exact .inr (.inr ⟨exceeds, .inr cutShort⟩)
      · rintro (marked | (leaves | left) | ⟨exceeds, now | cutShort⟩)
        · exact .inl (.inl (.inl marked))
        · exact .inl (.inl (.inr leaves))
        · exact .inr (.inl left)
        · exact .inl (.inr ⟨now, exceeds⟩)
        · exact .inr (.inr ⟨exceeds, cutShort⟩)

variable {decl : MemberDecl}

/-- From the start on, a mark that the member carries is left by the accesses that
are meant to leave it. -/
theorem mark_accessAll_start_iff {accesses : List Access} {mark : AccessMark}
    (carries : decl.carries mark = true) :
    ((start decl).accessAll accesses).2.mark mark = true ↔
      ∃ access ∈ accesses, decl.shape.leaves access mark = true := by
  rw [mark_accessAll_iff (coherent_start decl), mark_start]
  have within : decl.shape.exceeds mark ≠ true := fun exceeds => by
    have absent := MemberShape.not_carries_of_exceeds exceeds
    rw [decl.carries_shape, carries] at absent
    cases absent
  simp [start, within]

theorem isFullyUsed_accessAll_iff {accesses : List Access} :
    ((start decl).accessAll accesses).2.isFullyUsed = true ↔
      decl.UsedUpBy accesses := by
  have account := account_of_accessAll (coherent_start decl)
    (rfl : (start decl).accessAll accesses = (_, _))
  have shape : ((start decl).accessAll accesses).2.shape = decl.shape :=
    account.shape
  rw [isFullyUsed_iff, shape]
  refine forall_congr' fun mark => ?_
  rw [decl.carries_shape]
  exact imp_congr_right mark_accessAll_start_iff

theorem cutShort_start_iff {accesses : List Access} :
    (start decl).CutShort accesses ↔ decl.CutShortBy accesses := by
  unfold CutShort MemberDecl.CutShortBy
  simp only [← Bool.not_eq_true, isFullyUsed_accessAll_iff]

/-- A mark is only left if the member carries it, unless a full access cuts other
accesses short and leaves the mark beyond. -/
theorem marks_are_carried_iff (decl : MemberDecl) (accesses : List Access)
    (mark : AccessMark) :
    (((start decl).accessAll accesses).2.mark mark = true →
        decl.carries mark = true) ↔
      ¬ (decl.shape.exceeds mark = true ∧ decl.CutShortBy accesses) := by
  rw [← cutShort_start_iff]
  constructor
  · rintro carried ⟨exceeds, cutShort⟩
    have marked := (mark_accessAll_iff (coherent_start decl) accesses mark).2
      (.inr (.inr ⟨exceeds, cutShort⟩))
    have absent := MemberShape.not_carries_of_exceeds exceeds
    rw [decl.carries_shape, carried marked] at absent
    cases absent
  · intro notBeyond marked
    rcases (mark_accessAll_iff (coherent_start decl) accesses mark).1 marked with
      before | ⟨access, -, leaves⟩ | beyond
    · simp at before
    · rw [← decl.carries_shape]
      exact MemberShape.carries_of_leaves leaves
    · exact absurd beyond notBeyond

/-- Whatever accesses are made to a declared member, only a function or a
constructor is ever marked as called.  Only an assignable field or a setter is
marked as written, except for a final field or a getter to which a full access is
made before other accesses have used it up.  Only a field, a getter or a function
is marked as read, except for a setter to which a full access is made before it is
written. -/
theorem marks_are_supported_iff (decl : MemberDecl) (accesses : List Access) :
    let final := ((start decl).accessAll accesses).2
    (final.hasInvoke = true →
      decl.isFunction = true ∨ decl.isConstructor = true) ∧
    ((final.hasWrite = true →
        decl.isAssignable = true ∨ decl.isSetter = true) ↔
      ¬ ((decl.kind = .field false ∨ decl.kind = .getter) ∧
        decl.CutShortBy accesses)) ∧
    ((final.hasRead = true →
        decl.isField = true ∨ decl.isGetter = true ∨ decl.isFunction = true) ↔
      ¬ (decl.kind = .setter ∧ decl.CutShortBy accesses)) := by
  have calls : decl.shape.exceeds .invoke ≠ true := by
    simp [MemberDecl.exceeds_shape_iff]
  have writes : decl.shape.exceeds .write = true ↔
      decl.kind = .field false ∨ decl.kind = .getter := by
    simp [MemberDecl.exceeds_shape_iff]
  have reads : decl.shape.exceeds .read = true ↔ decl.kind = .setter := by
    simp [MemberDecl.exceeds_shape_iff]
  have invoked := marks_are_carried_iff decl accesses .invoke
  have written := marks_are_carried_iff decl accesses .write
  have read := marks_are_carried_iff decl accesses .read
  rw [writes] at written
  rw [reads] at read
  simp only [MemberDecl.carries, MemberUsage.mark, Bool.or_eq_true, or_assoc]
    at invoked written read
  exact ⟨invoked.2 fun beyond => calls beyond.1, written, read⟩

def sizeGetter : MemberDecl where
  name := ⟨1⟩
  library := ⟨0⟩
  owner := some ⟨0⟩
  kind := .getter

def sizeSetter : MemberDecl :=
  { sizeGetter with kind := .setter }

/-- A full access marks a getter as written and a setter as read. -/
theorem full_access_exceeds_getter_and_setter :
    (((start sizeGetter).accessAll [.full]).2.hasWrite = true ∧
      sizeGetter.isAssignable = false ∧ sizeGetter.isSetter = false) ∧
    (((start sizeSetter).accessAll [.full]).2.hasRead = true ∧
      sizeSetter.isField = false ∧ sizeSetter.isGetter = false ∧
      sizeSetter.isFunction = false) := by
  decide

end MemberUsage

end TreeShaking
