import TreeShaking.Proofs.ArrivalOrder
import TreeShaking.Proofs.Rehearsal
import TreeShaking.Proofs.Run.Books

/-!
# The files of waiting members

A world files the members that it has met under their names, in one file as long
as they wait for their first use and in another as long as they wait to be torn
off.  A dynamic use examines what is filed and nothing else, so that a member
missing from its file would never be found.

Whatever calls a fresh world answers, the lists in its files are neither empty
nor do they repeat a member, they hold instance members with code under their own
names, and no member that waits is missing (`files_hold_waiting_members`).  That
members are filed where they belong is part of the books, `Balanced`; that the
lists are in order, `TidyFiles`, is kept by each call in the same way.
-/

namespace TreeShaking

open Outcome

/-! ### Lists in a file -/

namespace MemberFile

/-- No list in a file is empty or repeats a member. -/
def Tidy (file : MemberFile) : Prop :=
  ∀ name members, file.get? name = some members →
    members ≠ [] ∧ members.Nodup

variable {file : MemberFile} {name : Name} {member : MemberId}
  {members : List MemberId}

theorem tidy_empty : Tidy {} := by
  intro name members stored
  simp at stored

theorem Tidy.nodup_getD (tidy : file.Tidy) (name : Name) :
    (file.getD name []).Nodup := by
  unfold Table.getD
  cases stored : file.get? name with
  | none => exact List.nodup_nil
  | some members => exact (tidy name members stored).2

theorem Tidy.insert (tidy : file.Tidy) (filled : members ≠ [])
    (distinct : members.Nodup) : Tidy (Table.insert file name members) := by
  intro other listed stored
  rw [Table.get?_insert] at stored
  split at stored
  · obtain rfl := Option.some.inj stored
    exact ⟨filled, distinct⟩
  · exact tidy other listed stored

theorem Tidy.erase (tidy : file.Tidy) : Tidy (Table.erase file name) := by
  intro other listed stored
  rw [Table.get?_erase] at stored
  split at stored
  · cases stored
  · exact tidy other listed stored

theorem Tidy.place (tidy : file.Tidy) (name : Name) (member : MemberId)
    (present : Bool) : Tidy (file.place name member present) := by
  have distinct := tidy.nodup_getD name
  cases present with
  | true =>
      simp only [MemberFile.place, if_true]
      split
      · exact tidy
      · rename_i absent
        refine tidy.insert (by simp) ?_
        exact List.nodup_append.2 ⟨distinct, List.nodup_singleton _,
          fun filed isFiled _ isMember same => absent <| by
            rwa [← List.mem_singleton.1 isMember, ← same]⟩
  | false =>
      simp only [MemberFile.place, Bool.false_eq_true, if_false]
      split
      · exact tidy.erase
      · rename_i filled
        exact tidy.insert filled (distinct.filter _)

theorem mem_getD_of_get? (stored : file.get? name = some members)
    (listed : member ∈ members) : member ∈ file.getD name [] := by
  rwa [Table.getD, stored, Option.getD_some]

end MemberFile

namespace World

variable {program : Program} {live : LiveClasses} {world final : World}
  {reports : List MemberReport}

/-- The lists in both files are in order. -/
structure TidyFiles (world : World) : Prop where
  awaitingUse : world.awaitingUse.Tidy
  awaitingTearOff : world.awaitingTearOff.Tidy

namespace TidyFiles

theorem of_sameMembers (tidy : world.TidyFiles)
    (same : SameMembers world final) : final.TidyFiles where
  awaitingUse := same.awaitingUse ▸ tidy.awaitingUse
  awaitingTearOff := same.awaitingTearOff ▸ tidy.awaitingTearOff

theorem file (tidy : world.TidyFiles) (member : MemberId) (name : Name)
    (pending : MemberUses) : (world.file member name pending).TidyFiles where
  awaitingUse := tidy.awaitingUse.place name member _
  awaitingTearOff := tidy.awaitingTearOff.place name member _

theorem setUsage (tidy : world.TidyFiles) (member : MemberId)
    (usage : MemberUsage) : (world.setUsage member usage).TidyFiles :=
  ⟨tidy.awaitingUse, tidy.awaitingTearOff⟩

theorem note (tidy : world.TidyFiles) (use : DynamicUse) :
    (world.note use).TidyFiles :=
  ⟨tidy.awaitingUse, tidy.awaitingTearOff⟩

/-- The candidates were listed before the first of them was examined, and the
files change while the list is worked off. -/
theorem examine {use : DynamicUse} {candidates : List MemberId}
    (tidy : world.TidyFiles)
    (examined : world.examine program live use candidates =
      .ok (final, reports)) : final.TidyFiles := by
  induction candidates generalizing world reports with
  | nil =>
      simp only [World.examine, Except.ok.injEq, Prod.mk.injEq] at examined
      obtain ⟨rfl, -⟩ := examined
      exact tidy
  | cons member rest ih =>
      simp only [World.examine, bind_eq_ok_iff] at examined
      obtain ⟨decl, -, reached, -, examined⟩ := examined
      split at examined
      · simp only [bind_eq_ok_iff, pure_eq_ok_iff, Prod.exists,
          Prod.mk.injEq] at examined
        obtain ⟨_, further, examinedRest, rfl, -⟩ := examined
        exact ih ((tidy.setUsage member _).file member decl.name _) examinedRest
      · exact ih tidy examined

theorem registerDynamic {use : DynamicUse} (tidy : world.TidyFiles)
    (registered : world.registerDynamic program live use =
      .ok (final, reports)) : final.TidyFiles := by
  rcases registerDynamic_cases registered with
    ⟨-, rfl, -⟩ | ⟨middle, first, further, examined, continued, -⟩
  · exact tidy.note use
  · have afterUses := (tidy.note use).examine examined
    split at continued
    · exact afterUses.examine continued
    · obtain ⟨rfl, -⟩ := continued
      exact afterUses

theorem registerStatic {use : StaticUse} (tidy : world.TidyFiles)
    (registered : world.registerStatic program use = .ok (final, reports)) :
    final.TidyFiles := by
  simp only [World.registerStatic, bind_eq_ok_iff, pure_eq_ok_iff,
    Prod.mk.injEq] at registered
  obtain ⟨decl, -, rfl, -⟩ := registered
  exact ⟨tidy.awaitingUse, tidy.awaitingTearOff⟩

theorem visitAll {members : List Inherited} (tidy : world.TidyFiles)
    (encountered : world.visitAll program live false members =
      .ok (final, reports)) : final.TidyFiles := by
  induction members generalizing world reports with
  | nil =>
      simp only [World.visitAll, Except.ok.injEq, Prod.mk.injEq]
        at encountered
      obtain ⟨rfl, -⟩ := encountered
      exact tidy
  | cons head tail ih =>
      simp only [World.visitAll, Bool.false_eq_true, if_false,
        bind_eq_ok_iff, pure_eq_ok_iff, Prod.exists, Prod.mk.injEq] at encountered
      obtain ⟨uses, usage, -, _, further, encounteredTail, rfl, -⟩ := encountered
      exact ih ((tidy.file head.member head.decl.name _).setUsage _ _)
        encounteredTail

theorem learn {news : MemberNews} (tidy : world.TidyFiles)
    (learned : world.learn program live news = .ok (final, reports)) :
    final.TidyFiles := by
  cases news with
  | entered cls =>
      simp only [World.learn, World.enterClass, visitClass, bind_eq_ok_iff]
        at learned
      obtain ⟨members, -, encountered⟩ := learned
      exact tidy.visitAll encountered
  | dynamic use => exact tidy.registerDynamic learned
  | static use => exact tidy.registerStatic learned

end TidyFiles

/-! ### Calls -/

/-- What a world can be asked to do about classes and members. -/
inductive Call where
  | instantiate (type : InterfaceType) (constructor : Option MemberId)
      (flags : InstantiationFlags)
  | static (use : StaticUse)
  | dynamic (use : DynamicUse)
  | visit (rehearsal : Bool) (cls : ClassId)

/-- What a call tells the world about members.  A rehearsal tells nothing. -/
def Call.news? : Call → Option MemberNews
  | .static use => some (.static use)
  | .dynamic use => some (.dynamic use)
  | .visit false cls => some (.entered cls)
  | .instantiate _ _ _ | .visit true _ => none

def call (world : World) (program : Program) (live : LiveClasses) :
    Call → Except Failure World
  | .instantiate type constructor flags => do
      let (final, _) ←
        world.registerInstantiation program type constructor flags
      return final
  | .static use => do
      let (final, _) ← world.registerStatic program use
      return final
  | .dynamic use => do
      let (final, _) ← world.registerDynamic program live use
      return final
  | .visit rehearsal cls => do
      let (final, _) ← world.visitClass program live rehearsal cls
      return final

/-- Make calls one after the other. -/
def callAll (world : World) (program : Program) (live : LiveClasses) :
    List Call → Except Failure World
  | [] => .ok world
  | call :: rest => do
      let next ← world.call program live call
      next.callAll program live rest

/-- A call brings news about members, or it leaves what is known about them as
it was. -/
theorem call_cases {call : Call}
    (called : world.call program live call = .ok final) :
    (∃ news reports, call.news? = some news ∧
      world.learn program live news = .ok (final, reports)) ∨
    (call.news? = none ∧ SameMembers world final) := by
  cases call with
  | instantiate type constructor flags =>
      simp only [World.call, bind_eq_ok_iff, pure_eq_ok_iff, Prod.exists]
        at called
      obtain ⟨_, reports, registered, rfl⟩ := called
      rw [registerInstantiation_frame registered]
      exact .inr ⟨rfl, rfl, rfl, rfl, rfl⟩
  | static use =>
      simp only [World.call, bind_eq_ok_iff, pure_eq_ok_iff, Prod.exists]
        at called
      obtain ⟨_, reports, registered, rfl⟩ := called
      exact .inl ⟨_, reports, rfl, registered⟩
  | dynamic use =>
      simp only [World.call, bind_eq_ok_iff, pure_eq_ok_iff, Prod.exists]
        at called
      obtain ⟨_, reports, registered, rfl⟩ := called
      exact .inl ⟨_, reports, rfl, registered⟩
  | visit rehearsal cls =>
      simp only [World.call, bind_eq_ok_iff, pure_eq_ok_iff, Prod.exists]
        at called
      obtain ⟨_, reports, visited, rfl⟩ := called
      cases rehearsal with
      | false =>
          exact .inl ⟨_, reports, rfl, visited⟩
      | true =>
          rw [visitClass_as_rehearsal] at visited
          cases previewed : world.previewClass program live cls with
          | error failure => rw [previewed] at visited; cases visited
          | ok told =>
              rw [previewed] at visited
              obtain ⟨rfl, -⟩ := Prod.mk.inj (Except.ok.inj visited)
              exact .inr ⟨rfl, rfl, rfl, rfl, rfl⟩

/-- The books are balanced with respect to the calls made so far, and the files
are in order. -/
structure InOrder (world : World) (program : Program) (live : LiveClasses)
    (calls : List Call) : Prop where
  balanced : world.Balanced program live
    (.ofNews program (calls.filterMap Call.news?))
  tidy : world.TidyFiles

theorem inOrder_empty (program : Program) (live : LiveClasses) :
    ({} : World).InOrder program live [] where
  balanced := by
    rw [List.filterMap_nil, Evidence.ofNews_nil]
    exact balanced_empty program live
  tidy := ⟨MemberFile.tidy_empty, MemberFile.tidy_empty⟩

theorem InOrder.call {calls : List Call} {call : Call}
    (inOrder : world.InOrder program live calls)
    (called : world.call program live call = .ok final) :
    final.InOrder program live (calls ++ [call]) := by
  rcases call_cases called with
    ⟨news, reports, isNews, learned⟩ | ⟨noNews, same⟩
  · refine ⟨?_, inOrder.tidy.learn learned⟩
    rw [List.filterMap_append, List.filterMap_cons_some isNews,
      List.filterMap_nil, Evidence.ofNews_append_singleton]
    exact (inOrder.balanced.learn learned).1
  · refine ⟨?_, inOrder.tidy.of_sameMembers same⟩
    rw [List.filterMap_append, List.filterMap_cons_none noNews,
      List.filterMap_nil, List.append_nil]
    exact inOrder.balanced.of_sameMembers same

theorem InOrder.callAll {earlier calls : List Call}
    (inOrder : world.InOrder program live earlier)
    (called : world.callAll program live calls = .ok final) :
    final.InOrder program live (earlier ++ calls) := by
  induction calls generalizing world earlier with
  | nil =>
      obtain rfl := Except.ok.inj called
      rwa [List.append_nil]
  | cons call rest ih =>
      simp only [World.callAll, bind_eq_ok_iff] at called
      obtain ⟨next, calledFirst, calledRest⟩ := called
      have whole := ih (inOrder.call calledFirst) calledRest
      rwa [List.append_assoc] at whole

/-- A member that is filed was met, so that it has code and a usage. -/
theorem InOrder.filed {calls : List Call}
    (inOrder : final.InOrder program live calls) {name : Name}
    {member : MemberId}
    (filed : member ∈ final.awaitingUse.getD name [] ∨
      member ∈ final.awaitingTearOff.getD name []) :
    ∃ decl, program.member member = .ok decl ∧
      decl.isInstanceMember = true ∧ decl.isAbstract = false ∧
      decl.name = name ∧
      ∃ usage, final.memberUsage.get? member = some usage := by
  have orderly := inOrder.balanced.orderly
  obtain ⟨decl, met, named⟩ := orderly.filed name member filed
  obtain ⟨declared, isInstance, usage, stored, -⟩ := orderly.met member decl met
  obtain ⟨cls, -, provides⟩ := met
  obtain ⟨-, -, -, -, -, -, concrete⟩ := provides
  exact ⟨decl, declared, isInstance, concrete, named, usage, stored⟩

/-- Whatever calls a fresh world has answered, each list in its files has members
and repeats none of them, and its members are declared with the name that they
are filed under, belong to instances, have code and have a usage.  A member with
code that a visit in earnest has come across has a usage as well, and as long as
it waits for something it is in the file for that. -/
theorem files_hold_waiting_members {calls : List Call}
    (called : ({} : World).callAll program live calls = .ok final) :
    (∀ file ∈ [final.awaitingUse, final.awaitingTearOff], ∀ name members,
      file.get? name = some members →
        members ≠ [] ∧ members.Nodup ∧
          ∀ member ∈ members, ∃ decl, program.member member = .ok decl ∧
            decl.isInstanceMember = true ∧ decl.isAbstract = false ∧
            decl.name = name ∧
            ∃ usage, final.memberUsage.get? member = some usage) ∧
    ∀ cls, .visit false cls ∈ calls →
      ∀ member decl, program.Provides cls member decl →
        ∃ usage, final.memberUsage.get? member = some usage ∧
          (usage.pending.normal = true →
            member ∈ final.awaitingUse.getD decl.name []) ∧
          (usage.pending.closurizeInstance = true →
            member ∈ final.awaitingTearOff.getD decl.name []) := by
  have inOrder := (inOrder_empty program live).callAll called
  rw [List.nil_append] at inOrder
  refine ⟨fun file isFile name members stored => ?_, ?_⟩
  · have tidy : file.Tidy := by
      rcases List.mem_pair.1 isFile with rfl | rfl
      · exact inOrder.tidy.awaitingUse
      · exact inOrder.tidy.awaitingTearOff
    obtain ⟨filled, distinct⟩ := tidy name members stored
    refine ⟨filled, distinct, fun member listed => inOrder.filed ?_⟩
    have filed := MemberFile.mem_getD_of_get? stored listed
    rcases List.mem_pair.1 isFile with rfl | rfl
    · exact .inl filed
    · exact .inr filed
  · intro cls visited member decl provides
    have met : (Evidence.ofNews program (calls.filterMap Call.news?)).met
        member decl :=
      ⟨cls, List.mem_filterMap.2 ⟨_, visited, rfl⟩, provides⟩
    exact (inOrder.balanced.orderly.met member decl met).2.2

/-- The inherited method of `inheritance` is called before its class is visited,
first as a rehearsal and then in earnest, so that it waits for a tear-off
only. -/
def inheritanceCalls : List Call := [
  .instantiate ⟨⟨1⟩, []⟩ none {},
  .visit true ⟨1⟩,
  .dynamic ⟨.call ⟨⟨5⟩, none⟩ {}, .exact ⟨1⟩⟩,
  .static ⟨.staticTearOff, ⟨0⟩, none⟩,
  .visit false ⟨1⟩]

theorem files_hold_called_method :
    ∃ final,
      ({} : World).callAll inheritance none inheritanceCalls = .ok final ∧
      final.awaitingUse.get? ⟨5⟩ = none ∧
      ∃ members, final.awaitingTearOff.get? ⟨5⟩ = some members ∧
        members.Nodup ∧ ⟨1⟩ ∈ members := by
  obtain ⟨final, called, noneWaits, members, stored, usage, isUsage, waits⟩ :
      ∃ final,
        ({} : World).callAll inheritance none inheritanceCalls = .ok final ∧
        final.awaitingUse.get? ⟨5⟩ = none ∧
        ∃ members, final.awaitingTearOff.get? ⟨5⟩ = some members ∧
          ∃ usage, final.memberUsage.get? ⟨1⟩ = some usage ∧
            usage.pending.closurizeInstance = true :=
    ⟨_, rfl, rfl, _, rfl, _, rfl, rfl⟩
  have provides : inheritance.Provides ⟨1⟩ ⟨1⟩
      { name := ⟨5⟩, library := ⟨0⟩, owner := some ⟨0⟩, kind := .method } :=
    ⟨_, rfl, _, List.mem_singleton_self _, rfl, rfl, rfl⟩
  obtain ⟨inFiles, visited⟩ := files_hold_waiting_members called
  obtain ⟨-, distinct, -⟩ := inFiles _ (by simp) _ _ stored
  obtain ⟨found, isFound, -, filed⟩ :=
    visited ⟨1⟩ (by simp [inheritanceCalls]) _ _ provides
  obtain rfl : usage = found := Option.some.inj (isUsage.symm.trans isFound)
  have filed := filed waits
  rw [Table.getD, stored] at filed
  exact ⟨final, called, noneWaits, members, stored, distinct, filed⟩

end World

end TreeShaking
