import TreeShaking.Proofs.Account.Enter
import TreeShaking.Proofs.Drafting

/-!
# The order in which news arrives

A fresh world is told about entered classes, dynamic uses and static uses, in
any order and any number of times.  Which uses of a member are then applied
depends only on what was told, and each of them has been reported once.
-/

namespace TreeShaking

open Outcome

/-- What a world is told about members. -/
inductive MemberNews where
  | entered (cls : ClassId)
  | dynamic (use : DynamicUse)
  | static (use : StaticUse)
deriving DecidableEq

namespace World

def learn (world : World) (program : Program) (live : LiveClasses) :
    MemberNews → Except Failure (World × List MemberReport)
  | .entered cls => world.enterClass program live cls
  | .dynamic use => world.registerDynamic program live use
  | .static use => world.registerStatic program use

/-- Learn one thing after the other, and collect all reports. -/
def learnAll (world : World) (program : Program) (live : LiveClasses) :
    List MemberNews → Except Failure (World × List MemberReport)
  | [] => .ok (world, [])
  | news :: rest => do
      let (next, reports) ← world.learn program live news
      let (final, further) ← next.learnAll program live rest
      return (final, reports ++ further)

end World

namespace Evidence

/-- Add one piece of news to the evidence. -/
def withNews (evidence : Evidence) (program : Program) :
    MemberNews → Evidence
  | .entered cls => evidence.withClass program cls
  | .dynamic use => evidence.withDynamic use
  | .static use => evidence.withStatic use

/-- The evidence that a list of news amounts to, whatever its order. -/
def ofNews (program : Program) (news : List MemberNews) : Evidence where
  statics use := .static use ∈ news
  dynamics use := .dynamic use ∈ news
  met member decl := ∃ cls, .entered cls ∈ news ∧ program.Provides cls member decl

theorem ofNews_nil (program : Program) : ofNews program [] = .none := by
  simp [ofNews, none]

theorem ofNews_append_singleton (program : Program) (news : List MemberNews)
    (last : MemberNews) :
    ofNews program (news ++ [last]) = (ofNews program news).withNews program last := by
  cases last with
  | entered cls =>
      ext member decl
      · simp [ofNews, withNews, withClass]
      · simp [ofNews, withNews, withClass]
      · simp [ofNews, withNews, withClass, or_and_right, exists_or]
  | dynamic use =>
      ext member decl
      · simp [ofNews, withNews, withDynamic]
      · simp [ofNews, withNews, withDynamic]
      · simp [ofNews, withNews, withDynamic]
  | static use =>
      ext member decl
      · simp [ofNews, withNews, withStatic]
      · simp [ofNews, withNews, withStatic]
      · simp [ofNews, withNews, withStatic]

end Evidence

namespace World

variable {program : Program} {live : LiveClasses} {world final : World}
  {evidence : Evidence} {reports : List MemberReport}

theorem Balanced.learn {news : MemberNews}
    (balanced : world.Balanced program live evidence)
    (learned : world.learn program live news = .ok (final, reports)) :
    final.Balanced program live (evidence.withNews program news) ∧
      Grows world final reports := by
  cases news with
  | entered cls =>
      obtain ⟨entered, grows, -⟩ := balanced.enterClass learned
      exact ⟨entered, grows⟩
  | dynamic use =>
      obtain ⟨registered, grows, -⟩ := balanced.registerDynamic learned
      exact ⟨registered, grows⟩
  | static use => exact balanced.registerStatic learned

theorem Balanced.learnAll {earlier news : List MemberNews}
    (balanced : world.Balanced program live (.ofNews program earlier))
    (learned : world.learnAll program live news = .ok (final, reports)) :
    final.Balanced program live (.ofNews program (earlier ++ news)) ∧
      Grows world final reports := by
  induction news generalizing world earlier reports with
  | nil =>
      simp only [World.learnAll, Except.ok.injEq, Prod.mk.injEq] at learned
      obtain ⟨rfl, rfl⟩ := learned
      rw [List.append_nil]
      exact ⟨balanced, .of_same_usage rfl⟩
  | cons head tail ih =>
      simp only [World.learnAll, bind_eq_ok_iff, pure_eq_ok_iff, Prod.exists,
        Prod.mk.injEq] at learned
      obtain ⟨next, first, learnedHead, _, further, learnedTail, rfl, rfl⟩ :=
        learned
      obtain ⟨headBalanced, headGrows⟩ := balanced.learn learnedHead
      rw [← Evidence.ofNews_append_singleton] at headBalanced
      obtain ⟨tailBalanced, tailGrows⟩ := ih headBalanced learnedTail
      rw [List.append_assoc] at tailBalanced
      exact ⟨tailBalanced, headGrows.trans tailGrows⟩

/-- The books of a world that started out fresh are balanced. -/
theorem balanced_of_learnAll {news : List MemberNews}
    (learned : ({} : World).learnAll program live news = .ok (final, reports)) :
    final.Balanced program live (.ofNews program news) ∧
      Grows {} final reports := by
  have fresh := balanced_empty program live
  rw [← Evidence.ofNews_nil program] at fresh
  simpa using fresh.learnAll learned

end World

/-! ### The bits in terms of the declaration -/

namespace MemberDecl

/-- Instance functions are torn off by reads, apart from a full use. -/
theorem grants_closurizeInstance {decl : MemberDecl} {access : Access}
    (isPartial : access ≠ .full) :
    decl.grants access .closurizeInstance = true ↔
      access = .read ∧ decl.isFunction = true ∧
        decl.isInstanceMember = true := by
  unfold grants shape isFunction
  cases decl.kind with
  | field assignable =>
      cases assignable <;> cases access <;> simp_all [MemberShape.grants]
  | function | method =>
      cases decl.isInstanceMember <;> cases access <;>
        simp_all [MemberShape.grants]
  | getter | setter | constructor =>
      cases access <;> simp_all [MemberShape.grants]

theorem grants_closurizeStatic {decl : MemberDecl} {access : Access}
    (isPartial : access ≠ .full) :
    decl.grants access .closurizeStatic = true ↔
      access = .read ∧ decl.isFunction = true ∧
        decl.isInstanceMember = false := by
  unfold grants shape isFunction
  cases decl.kind with
  | field assignable =>
      cases assignable <;> cases access <;> simp_all [MemberShape.grants]
  | function | method =>
      cases decl.isInstanceMember <;> cases access <;>
        simp_all [MemberShape.grants]
  | getter | setter | constructor =>
      cases access <;> simp_all [MemberShape.grants]

end MemberDecl

theorem StaticUseKind.access?_ne_full {kind : StaticUseKind} {access : Access}
    (accesses : kind.access? = some access) : access ≠ .full := by
  rintro rfl
  cases kind <;> cases accesses

theorem SelectorKind.access_ne_full (kind : SelectorKind) :
    kind.access ≠ .full := by
  cases kind <;> simp [SelectorKind.access]

/-! ### The law of arrival -/

namespace MemberNews

/-- A static use among the news makes an access to a member. -/
def Accesses (news : List MemberNews) (member : MemberId) (access : Access) :
    Prop :=
  ∃ use, static use ∈ news ∧ use.member = member ∧
    use.kind.access? = some access

/-- A class among the news provides a member, and a dynamic use among the news
reaches it. -/
def Reaches (news : List MemberNews) (program : Program) (live : LiveClasses)
    (member : MemberId) (decl : MemberDecl) (use : DynamicUse) : Prop :=
  dynamic use ∈ news ∧ use.Reaches program live decl ∧
    ∃ cls, entered cls ∈ news ∧ program.Provides cls member decl

variable {news : List MemberNews} {program : Program} {live : LiveClasses}
  {member : MemberId} {decl : MemberDecl}

theorem justifies_iff {bit : UseBit} :
    (Evidence.ofNews program news).Justifies program live member decl bit ↔
      (∃ access, Accesses news member access ∧
        decl.grants access bit = true) ∨
      ∃ use, Reaches news program live member decl use ∧
        decl.grants use.selector.kind.access bit = true := by
  constructor
  · intro justified
    cases justified with
    | named use access told names accesses grants =>
        exact .inl ⟨access, ⟨use, told, names, accesses⟩, grants⟩
    | reached use told met reaches grants =>
        exact .inr ⟨use, ⟨told, reaches, met⟩, grants⟩
  · rintro (⟨access, ⟨use, told, names, accesses⟩, grants⟩ |
      ⟨use, ⟨told, reaches, met⟩, grants⟩)
    · exact .named use access told names accesses grants
    · exact .reached use told met reaches grants

theorem justifies_normal_iff :
    (Evidence.ofNews program news).Justifies program live member decl .normal ↔
      (∃ access, Accesses news member access ∧
        decl.supports access = true) ∨
      ∃ use, Reaches news program live member decl use := by
  rw [justifies_iff]
  refine or_congr ?_ (exists_congr fun use => ?_)
  · simp only [MemberDecl.grants_normal]
  · refine ⟨And.left, fun reaches => ⟨reaches, ?_⟩⟩
    obtain ⟨-, use, cls, -, provides⟩ := reaches
    rw [MemberDecl.grants_normal]
    exact MemberDecl.supports_of_appliesTo provides.isInstance use.applies

theorem justifies_closurizeInstance_iff :
    (Evidence.ofNews program news).Justifies program live member decl
        .closurizeInstance ↔
      decl.isFunction = true ∧ decl.isInstanceMember = true ∧
        (Accesses news member .read ∨
          ∃ use, Reaches news program live member decl use ∧
            use.selector.isGetter = true) := by
  rw [justifies_iff]
  constructor
  · rintro (⟨access, ⟨use, told, names, accesses⟩, grants⟩ |
      ⟨use, reaches, grants⟩)
    · obtain ⟨rfl, isFunction, isInstance⟩ :=
        (MemberDecl.grants_closurizeInstance
          (StaticUseKind.access?_ne_full accesses)).1 grants
      exact ⟨isFunction, isInstance, .inl ⟨use, told, names, accesses⟩⟩
    · obtain ⟨-, isFunction, isInstance⟩ :=
        (MemberDecl.grants_closurizeInstance
          (SelectorKind.access_ne_full _)).1 grants
      exact ⟨isFunction, isInstance,
        .inr ⟨use, reaches, Selector.isGetter_of_grants grants⟩⟩
  · rintro ⟨isFunction, isInstance, reads | ⟨use, reaches, isGetter⟩⟩
    · exact .inl ⟨.read, reads, (MemberDecl.grants_closurizeInstance
        (by simp)).2 ⟨rfl, isFunction, isInstance⟩⟩
    · have isRead : use.selector.kind.access = .read := by
        rw [show use.selector.kind = .getter from
          eq_of_beq isGetter]
        rfl
      exact .inr ⟨use, reaches, (MemberDecl.grants_closurizeInstance
        (SelectorKind.access_ne_full _)).2 ⟨isRead, isFunction, isInstance⟩⟩

theorem justifies_closurizeStatic_iff :
    (Evidence.ofNews program news).Justifies program live member decl
        .closurizeStatic ↔
      decl.isFunction = true ∧ decl.isInstanceMember = false ∧
        Accesses news member .read := by
  rw [justifies_iff]
  constructor
  · rintro (⟨access, ⟨use, told, names, accesses⟩, grants⟩ |
      ⟨use, ⟨-, -, cls, -, provides⟩, grants⟩)
    · obtain ⟨rfl, isFunction, isStatic⟩ :=
        (MemberDecl.grants_closurizeStatic
          (StaticUseKind.access?_ne_full accesses)).1 grants
      exact ⟨isFunction, isStatic, use, told, names, accesses⟩
    · obtain ⟨-, -, isStatic⟩ :=
        (MemberDecl.grants_closurizeStatic
          (SelectorKind.access_ne_full _)).1 grants
      simp [provides.isInstance] at isStatic
  · rintro ⟨isFunction, isStatic, reads⟩
    exact .inl ⟨.read, reads, (MemberDecl.grants_closurizeStatic
      (by simp)).2 ⟨rfl, isFunction, isStatic⟩⟩

end MemberNews

namespace World

/-- Whatever the order in which a fresh world learns, the ordinary use of a
member is applied exactly if it was accessed by name in a way that it supports,
or met and reached; a function is torn off exactly if it was read; and every
use that is applied has been reported once. -/
theorem learnAll_applies_told_uses_once {program : Program}
    {live : LiveClasses} {news : List MemberNews} {final : World}
    {reports : List MemberReport}
    (learned : ({} : World).learnAll program live news = .ok (final, reports)) :
    (∀ member, (final.appliedTo member).normal = true ↔
      ∃ decl, program.member member = .ok decl ∧
        ((∃ access, MemberNews.Accesses news member access ∧
            decl.supports access = true) ∨
          ∃ use, MemberNews.Reaches news program live member decl use)) ∧
    (∀ member, (final.appliedTo member).closurizeInstance = true ↔
      ∃ decl, program.member member = .ok decl ∧ decl.isFunction = true ∧
        decl.isInstanceMember = true ∧
        (MemberNews.Accesses news member .read ∨
          ∃ use, MemberNews.Reaches news program live member decl use ∧
            use.selector.isGetter = true)) ∧
    (∀ member, (final.appliedTo member).closurizeStatic = true ↔
      ∃ decl, program.member member = .ok decl ∧ decl.isFunction = true ∧
        decl.isInstanceMember = false ∧
        MemberNews.Accesses news member .read) ∧
    ∀ member bit, tellings reports member bit =
      if (final.appliedTo member).has bit then 1 else 0 := by
  obtain ⟨balanced, grows⟩ := balanced_of_learnAll learned
  refine ⟨fun member => ?_, fun member => ?_, fun member => ?_,
    fun member bit => ?_⟩
  · have applied := balanced.appliedTo_iff member .normal
    simp only [MemberNews.justifies_normal_iff] at applied
    exact applied
  · have applied := balanced.appliedTo_iff member .closurizeInstance
    simp only [MemberNews.justifies_closurizeInstance_iff] at applied
    exact applied
  · have applied := balanced.appliedTo_iff member .closurizeStatic
    simp only [MemberNews.justifies_closurizeStatic_iff] at applied
    exact applied
  · have told := grows member bit
    have fresh : (({} : World).appliedTo member).has bit = false := by
      simp [appliedTo]
    rw [fresh] at told
    simp only [Bool.toNat_false, Nat.add_zero] at told
    rw [told]
    cases (final.appliedTo member).has bit <;> rfl

/-- A function, and a class that inherits a method from another. -/
def inheritanceSteps : List Draft.Step := [
  .library "app",
  .cls ⟨0⟩ "A" none,
  .cls ⟨0⟩ "B" (some ⟨0⟩),
  .function ⟨0⟩ "main" {},
  .classMember ⟨0⟩ "foo" (.method {})]

def inheritance : Program where
  names := .ofTexts #["", "app", "A", "B", "main", "foo"]
  libraries := #[{ name := ⟨1⟩ }]
  classes := #[
    { name := ⟨2⟩, library := ⟨0⟩, superclass := none, members := [⟨1⟩] },
    { name := ⟨3⟩, library := ⟨0⟩, superclass := some ⟨0⟩ }]
  members := #[
    { name := ⟨4⟩, library := ⟨0⟩, owner := none, kind := .function
      isStatic := true },
    { name := ⟨5⟩, library := ⟨0⟩, owner := some ⟨0⟩, kind := .method }]
  typedefs := #[]
  supertypeTable := #[[], [⟨0⟩]]
  subclassTable := #[[⟨0⟩, ⟨1⟩], [⟨1⟩]]

theorem inheritance_drafted : inheritance.Drafted :=
  ⟨inheritanceSteps, _, rfl, rfl⟩

/-- The inherited method is called before its class is entered, and read
afterwards. -/
def inheritanceNews : List MemberNews := [
  .dynamic ⟨.call ⟨⟨5⟩, none⟩ {}, .exact ⟨1⟩⟩,
  .entered ⟨1⟩,
  .static ⟨.staticTearOff, ⟨0⟩, none⟩,
  .dynamic ⟨.getter ⟨⟨5⟩, none⟩, .unconstrained⟩]

theorem learnAll_applies_inherited_method :
    inheritance.Drafted ∧ ∃ final reports,
      ({} : World).learnAll inheritance none inheritanceNews =
        .ok (final, reports) ∧
      (final.appliedTo ⟨1⟩).normal = true ∧
      (final.appliedTo ⟨1⟩).closurizeInstance = true ∧
      (final.appliedTo ⟨0⟩).closurizeStatic = true ∧
      tellings reports ⟨1⟩ .closurizeInstance = 1 := by
  obtain ⟨final, reports, learned⟩ : ∃ final reports,
      ({} : World).learnAll inheritance none inheritanceNews =
        .ok (final, reports) :=
    ⟨_, _, rfl⟩
  have provides : inheritance.Provides ⟨1⟩ ⟨1⟩
      { name := ⟨5⟩, library := ⟨0⟩, owner := some ⟨0⟩, kind := .method } :=
    ⟨_, rfl, _, List.mem_singleton_self _, rfl, rfl, rfl⟩
  obtain ⟨normal, tornOff, tornOffStatic, once⟩ :=
    learnAll_applies_told_uses_once learned
  have used := (normal ⟨1⟩).2 ⟨_, rfl, .inr ⟨_, List.mem_cons_self,
    ⟨rfl, rfl, _, rfl, rfl⟩, ⟨1⟩, by simp [inheritanceNews], provides⟩⟩
  have isTornOff := (tornOff ⟨1⟩).2 ⟨_, rfl, rfl, rfl, .inr
    ⟨⟨.getter ⟨⟨5⟩, none⟩, .unconstrained⟩,
      ⟨by simp [inheritanceNews], ⟨rfl, rfl, _, rfl, rfl⟩, ⟨1⟩,
        by simp [inheritanceNews], provides⟩, rfl⟩⟩
  have isTornOffStatic := (tornOffStatic ⟨0⟩).2
    ⟨_, rfl, rfl, rfl, ⟨.staticTearOff, ⟨0⟩, none⟩,
      by simp [inheritanceNews], rfl, rfl⟩
  refine ⟨inheritance_drafted, final, reports, learned, used, isTornOff,
    isTornOffStatic, ?_⟩
  rw [once]
  exact if_pos isTornOff

end World

end TreeShaking
