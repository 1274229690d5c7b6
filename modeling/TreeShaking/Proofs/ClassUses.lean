import TreeShaking.Proofs.Answers
import TreeShaking.Proofs.Receivers
import TreeShaking.Proofs.Run.Records
import TreeShaking.Proofs.Subtyping

/-!
# The uses of classes

A fresh world is asked for instances again and again: of abstract classes or
not, by source code, by native code or by mirrors.  Which classes then have
instances and which are implemented depends only on what was asked for, and each
of the two uses of a class has been reported once.

Both walks of an instantiation stop early, so a report could be missed as well as
given twice.  One request is described by `Instantiates`, and its reports of
implemented classes by `registerInstantiation_tellings`; a list of
requests follows by induction.
-/

namespace TreeShaking

open Outcome

/-! ### Superclasses are supertypes -/

theorem Program.Built.hasSupertype_of_hasSuperclass {program : Program}
    (built : program.Built) {cls upper : ClassId}
    (inherits : program.HasSuperclass cls upper) :
    program.HasSupertype cls upper := by
  obtain ⟨chain, walked, onChain⟩ := inherits
  obtain ⟨decl, fetched⟩ := Program.cls_of_superclassChain walked
  obtain ⟨found, stored⟩ := built.exists_supertypes fetched
  by_cases same : upper = cls
  · exact .inl same
  · exact .inr ⟨found, stored,
      (Hierarchy.mem_supertypes_iff (built.supertypes_eq stored)).2
        ⟨same, ((Hierarchy.mem_chain_iff walked).1 onChain).above⟩⟩

namespace World

variable {program : Program} {world final : World}

/-! ### Reports of implemented classes -/

/-- How often a list of reports tells that a class is implemented. -/
def implementationTellings (reports : List ClassReport) (cls : ClassId) : Nat :=
  reports.countP fun report => report.1 = cls && report.2.implemented

@[simp]
theorem implementationTellings_append (first second : List ClassReport)
    (cls : ClassId) :
    implementationTellings (first ++ second) cls =
      implementationTellings first cls + implementationTellings second cls :=
  List.countP_append

theorem implementationTellings_of_silent {reports : List ClassReport}
    (silent : ∀ report ∈ reports, report.2.implemented = false)
    (cls : ClassId) : implementationTellings reports cls = 0 := by
  rw [implementationTellings, List.countP_eq_zero]
  intro report listed
  simp [silent report listed]

/-- The uses of classes repeat which of them are implemented. -/
def NotesImplemented (world : World) : Prop :=
  ∀ cls, (world.classUsage.getD cls {}).isImplemented = world.isImplemented cls

theorem ClassesAgree.notesImplemented (agree : world.ClassesAgree) :
    world.NotesImplemented := by
  intro cls
  rw [agree.implemented, isImplemented, List.contains_eq_mem]

/-- Note one class as implemented. -/
def markImplemented (world : World) (cls : ClassId) : World :=
  { world with
    implemented := world.implemented.insert cls
    classUsage := world.classUsage.insert cls
      (world.classUsage.getD cls {}).implement.2 }

@[simp]
theorem isImplemented_markImplemented (world : World) (cls other : ClassId) :
    (world.markImplemented cls).isImplemented other =
      (decide (other = cls) || world.isImplemented other) := by
  simp [isImplemented, markImplemented]

theorem NotesImplemented.markImplemented (notes : world.NotesImplemented)
    (cls : ClassId) : (world.markImplemented cls).NotesImplemented := by
  intro other
  rw [isImplemented_markImplemented, ← notes other]
  by_cases same : other = cls
  · simp [World.markImplemented, Table.getD, same, ClassUsage.implement,
      ClassUsage.isImplemented]
  · simp [World.markImplemented, Table.getD, same]

/-- One class of the walk: it is reported if it was not implemented. -/
theorem NotesImplemented.noteImplemented_cons (notes : world.NotesImplemented)
    (cls : ClassId) (rest : List ClassId) :
    world.noteImplemented (cls :: rest) =
      if cls ∈ world.implemented then
        world.noteImplemented rest
      else
        (((world.markImplemented cls).noteImplemented rest).1,
          (cls, { implemented := true }) ::
            ((world.markImplemented cls).noteImplemented rest).2) := by
  rw [World.noteImplemented]
  split
  · rfl
  · rename_i isNew
    have pending : (world.classUsage.getD cls {}).pending.implemented = true := by
      simpa [ClassUsage.isImplemented, isImplemented, isNew] using notes cls
    have news : (world.classUsage.getD cls {}).implement.1 =
        { implemented := true } := by
      simp [ClassUsage.implement, pending]
    dsimp only
    rw [news]
    rfl

/-- The reports of the walk tell each class that is newly implemented once. -/
theorem NotesImplemented.noteImplemented_tellings
    (notes : world.NotesImplemented) (classes : List ClassId) (cls : ClassId) :
    implementationTellings (world.noteImplemented classes).2 cls +
        (world.isImplemented cls).toNat =
      ((world.noteImplemented classes).1.isImplemented cls).toNat := by
  induction classes generalizing world with
  | nil => simp [noteImplemented, implementationTellings]
  | cons next rest ih =>
      rw [notes.noteImplemented_cons]
      split
      · exact ih notes
      · rename_i isNew
        rw [← ih (notes.markImplemented next), implementationTellings,
          List.countP_cons, isImplemented_markImplemented]
        by_cases same : cls = next
        · subst same
          simp [implementationTellings, isImplemented, isNew]
        · simp [implementationTellings, same, Ne.symm same]

/-- An instantiation tells each class that it newly implements once. -/
theorem ClassesAgree.registerInstantiation_tellings {type : InterfaceType}
    {constructor : Option MemberId} {flags : InstantiationFlags}
    {reports : List ClassReport} (agree : world.ClassesAgree)
    (registered : world.registerInstantiation program type constructor flags =
      .ok (final, reports)) (cls : ClassId) :
    implementationTellings reports cls + (world.isImplemented cls).toNat =
      (final.isImplemented cls).toNat := by
  have second : ∀ created creation, created.NotesImplemented →
      created.implemented = world.implemented →
      (∀ report ∈ creation, report.2.implemented = false) →
      (if type.cls ∈ created.implemented then
        pure (created, creation)
      else do
        let above ← program.supertypes type.cls
        pure ((created.noteImplemented (type.cls :: above)).1,
          creation ++ (created.noteImplemented (type.cls :: above)).2) :
        Except Failure (World × List ClassReport)) = .ok (final, reports) →
      implementationTellings reports cls + (world.isImplemented cls).toNat =
        (final.isImplemented cls).toNat := by
    intro created creation notes same silent finished
    have unheard := implementationTellings_of_silent silent cls
    have kept : created.isImplemented cls = world.isImplemented cls := by
      rw [isImplemented, isImplemented, same]
    split at finished
    · obtain ⟨rfl, rfl⟩ := Prod.mk.inj (pure_eq_ok_iff.1 finished)
      rw [unheard, kept, Nat.zero_add]
    · simp only [bind_eq_ok_iff, pure_eq_ok_iff, Prod.mk.injEq] at finished
      obtain ⟨above, -, rfl, rfl⟩ := finished
      rw [implementationTellings_append, unheard, Nat.zero_add, ← kept]
      exact notes.noteImplemented_tellings _ cls
  have notes := agree.notesImplemented
  simp only [World.registerInstantiation, bind_eq_ok_iff] at registered
  obtain ⟨decl, -, registered⟩ := registered
  split at registered
  · rw [bind_eq_ok_iff] at registered
    obtain ⟨chain, -, finished⟩ := registered
    have frame := noteInstantiated_frame (world.record {
      constructor, type
      isAbstract := decl.isAbstract
      isRedirection := flags.redirection }) chain
    refine second _ _ (fun other => ?_) ?_
      (fun report => noteInstantiated_silent) finished
    · rw [isImplemented_noteInstantiated, isImplemented, frame]
      exact notes other
    · rw [frame]
      rfl
  · exact second _ _ notes rfl (by simp) registered

end World

/-! ### Requests in a row -/

/-- A request for instances of a type. -/
structure InstanceRequest where
  type : InterfaceType
  constructor : Option MemberId
  flags : InstantiationFlags

namespace World

variable {program : Program} {world final : World}
  {requests : List InstanceRequest} {reports : List ClassReport}

/-- Register one request after the other, and collect all reports. -/
def instantiateAll (world : World) (program : Program) :
    List InstanceRequest → Except Failure (World × List ClassReport)
  | [] => .ok (world, [])
  | request :: rest => do
      let (next, reports) ← world.registerInstantiation program request.type
        request.constructor request.flags
      let (final, further) ← next.instantiateAll program rest
      return (final, reports ++ further)

/-- What a fresh world knows about classes after requests, and what it has
reported. -/
structure Served (program : Program) (requests : List InstanceRequest)
    (reports : List ClassReport) (world : World) : Prop where
  direct : ∀ cls, cls ∈ world.direct ↔ ∃ request ∈ requests,
    cls = request.type.cls ∧ program.Creates request.type.cls request.flags
  instantiated : ∀ cls, world.isInstantiated cls = true ↔
    ∃ request ∈ requests, program.Creates request.type.cls request.flags ∧
      program.HasSuperclass request.type.cls cls
  implemented : ∀ cls, cls ∈ world.implemented ↔ ∃ request ∈ requests,
    program.HasSupertype request.type.cls cls
  instances : ∀ cls,
    instanceTellings reports cls = (world.isInstantiated cls).toNat
  implementations : ∀ cls,
    implementationTellings reports cls = (world.isImplemented cls).toNat
  closed : world.ClassesClosed program
  agree : world.ClassesAgree

theorem served_empty (program : Program) : Served program [] [] {} where
  direct := by simp
  instantiated := by simp [isInstantiated]
  implemented := by simp
  instances := by simp [isInstantiated]
  implementations := by simp [implementationTellings, isImplemented]
  closed := classesClosed_empty program
  agree := classesAgree_empty

/-- One more request. -/
theorem Served.registerInstantiation (built : program.Built)
    (served : Served program requests reports world)
    {request : InstanceRequest} {further : List ClassReport}
    (registered : world.registerInstantiation program request.type
      request.constructor request.flags = .ok (final, further)) :
    Served program (requests ++ [request]) (reports ++ further) final := by
  have instantiates := served.closed.registerInstantiation built registered
  constructor
  · intro cls
    rw [instantiates.direct, served.direct]
    simp only [List.mem_append, List.mem_singleton, or_and_right, exists_or,
      exists_eq_left]
  · intro cls
    rw [instantiates.instantiated, served.instantiated]
    simp only [List.mem_append, List.mem_singleton, or_and_right, exists_or,
      exists_eq_left]
  · intro cls
    rw [instantiates.implemented, served.implemented]
    simp only [List.mem_append, List.mem_singleton, or_and_right, exists_or,
      exists_eq_left]
  · intro cls
    rw [instanceTellings_append, served.instances, Nat.add_comm]
    exact instantiates.tellings cls
  · intro cls
    rw [implementationTellings_append, served.implementations, Nat.add_comm]
    exact served.agree.registerInstantiation_tellings registered cls
  · exact instantiates.closed
  · exact served.agree.registerInstantiation registered

theorem Served.instantiateAll (built : program.Built)
    {rest : List InstanceRequest} {further : List ClassReport}
    (served : Served program requests reports world)
    (registered : world.instantiateAll program rest = .ok (final, further)) :
    Served program (requests ++ rest) (reports ++ further) final := by
  induction rest generalizing world requests reports further with
  | nil =>
      simp only [World.instantiateAll, Except.ok.injEq, Prod.mk.injEq]
        at registered
      obtain ⟨rfl, rfl⟩ := registered
      simpa using served
  | cons request rest ih =>
      simp only [World.instantiateAll, bind_eq_ok_iff, pure_eq_ok_iff,
        Prod.exists, Prod.mk.injEq] at registered
      obtain ⟨next, first, isFirst, _, others, areOthers, rfl, rfl⟩ := registered
      have done := ih (served.registerInstantiation built isFirst) areOthers
      simpa using done

/-- Requests can be served exactly if their classes are declared. -/
theorem succeeds_instantiateAll_iff (built : program.Built) (world : World)
    (requests : List InstanceRequest) :
    Succeeds (world.instantiateAll program requests) ↔
      ∀ request ∈ requests, Succeeds (program.cls request.type.cls) := by
  induction requests generalizing world with
  | nil => simp [instantiateAll, Succeeds.ok]
  | cons request rest ih =>
      rw [List.forall_mem_cons]
      constructor
      · rintro ⟨⟨final, reports⟩, registered⟩
        simp only [instantiateAll, bind_eq_ok_iff, Prod.exists] at registered
        obtain ⟨next, first, isFirst, _, others, areOthers, -⟩ := registered
        refine ⟨?_, (ih next).1 ⟨_, areOthers⟩⟩
        simp only [registerInstantiation, bind_eq_ok_iff] at isFirst
        obtain ⟨decl, fetched, -⟩ := isFirst
        exact ⟨decl, fetched⟩
      · rintro ⟨⟨decl, fetched⟩, others⟩
        refine Succeeds.bind (succeeds_registerInstantiation built fetched
          request.constructor request.flags) fun first _ => ?_
        exact Succeeds.bind ((ih first.1).2 others) fun _ _ => .pure _

theorem mem_implementedClasses (world : World) (cls : ClassId) :
    cls ∈ world.implementedClasses ↔ world.isImplemented cls = true := by
  rw [implementedClasses, Handle.mem_ascending, isImplemented,
    List.contains_iff_mem]

theorem toNat_eq_ite {answer : Bool} {fact : Prop} [Decidable fact]
    (iff : fact ↔ answer = true) :
    answer.toNat = if fact then 1 else 0 := by
  cases answer with
  | true => rw [if_pos (iff.2 rfl), Bool.toNat_true]
  | false => rw [if_neg (mt iff.1 Bool.false_ne_true), Bool.toNat_false]

/-- Whatever instances a fresh world is asked for, the classes with instances are
closed under superclasses, the implemented ones under supertypes, neither holds
more than was asked for, and each use of a class is reported once. -/
theorem instantiateAll_uses_classes_once (built : program.Built)
    (requests : List InstanceRequest) :
    (Succeeds (({} : World).instantiateAll program requests) ↔
      ∀ request ∈ requests, Succeeds (program.cls request.type.cls)) ∧
    ∀ final reports,
      ({} : World).instantiateAll program requests = .ok (final, reports) →
      (∀ cls, cls ∈ final.instantiatedClasses ↔ ∃ request ∈ requests,
        program.Creates request.type.cls request.flags ∧
          program.HasSuperclass request.type.cls cls) ∧
      (∀ cls, cls ∈ final.implementedClasses ↔ ∃ request ∈ requests,
        program.HasSupertype request.type.cls cls) ∧
      (∀ cls, cls ∈ final.implementedClasses ↔
        (final.classUses cls).implemented = true) ∧
      (∀ cls, cls ∈ final.directClasses ↔ ∃ request ∈ requests,
        cls = request.type.cls ∧
          program.Creates request.type.cls request.flags) ∧
      final.instantiatedClasses ⊆ final.implementedClasses ∧
      (∀ cls, instanceTellings reports cls =
        if cls ∈ final.instantiatedClasses then 1 else 0) ∧
      ∀ cls, implementationTellings reports cls =
        if cls ∈ final.implementedClasses then 1 else 0 := by
  refine ⟨succeeds_instantiateAll_iff built _ requests, ?_⟩
  intro final reports registered
  have served : Served program requests reports final := by
    simpa using (served_empty program).instantiateAll built registered
  have implemented : ∀ cls, cls ∈ final.implementedClasses ↔
      cls ∈ final.implemented := fun _ => Handle.mem_ascending
  refine ⟨fun cls => ?_, fun cls => ?_, fun cls => ?_, fun cls => ?_,
    fun cls isInstantiated => ?_, fun cls => ?_, fun cls => ?_⟩
  · rw [mem_instantiatedClasses, served.instantiated]
  · rw [implemented, served.implemented]
  · rw [implemented, served.agree.classUses_eq, decide_eq_true_eq]
  · rw [directClasses, Handle.mem_ascending, served.direct]
  · rw [mem_instantiatedClasses, served.instantiated] at isInstantiated
    rw [implemented, served.implemented]
    obtain ⟨request, listed, -, inherits⟩ := isInstantiated
    exact ⟨request, listed, built.hasSupertype_of_hasSuperclass inherits⟩
  · rw [served.instances, toNat_eq_ite mem_instantiatedClasses]
  · rw [served.implementations, toNat_eq_ite (final.mem_implementedClasses cls)]

def squareSteps : List Draft.Step := [
  .library "app", .cls ⟨0⟩ "Shape" none, .markAbstract ⟨0⟩,
  .cls ⟨0⟩ "Drawable" none, .cls ⟨0⟩ "Square" (some ⟨0⟩),
  .addInterface ⟨2⟩ ⟨1⟩]

/-- A class with an abstract superclass and an interface. -/
def squareProgram : Program where
  names := .ofTexts #["", "app", "Shape", "Drawable", "Square"]
  libraries := #[{ name := ⟨1⟩ }]
  classes := #[
    { name := ⟨2⟩, library := ⟨0⟩, superclass := none, isAbstract := true },
    { name := ⟨3⟩, library := ⟨0⟩, superclass := none },
    { name := ⟨4⟩, library := ⟨0⟩, superclass := some ⟨0⟩
      interfaces := [⟨1⟩] }]
  members := #[]
  typedefs := #[]
  supertypeTable := #[[], [], [⟨0⟩, ⟨1⟩]]
  subclassTable := #[[⟨0⟩, ⟨2⟩], [⟨1⟩], [⟨2⟩]]

theorem squareProgram_drafted : squareProgram.Drafted :=
  ⟨squareSteps, _, rfl, rfl⟩

/-- The abstract class is mentioned, its subclass is created, and then mirrors
create the abstract class itself. -/
def squareRequests : List InstanceRequest := [
  ⟨⟨⟨0⟩, []⟩, none, {}⟩, ⟨⟨⟨2⟩, []⟩, none, {}⟩,
  ⟨⟨⟨0⟩, []⟩, none, { byMirrors := true }⟩]

/-- The superclass is reported twice in all, once for each of its uses. -/
theorem instantiateAll_uses_superclass_once :
    ∃ final reports, ({} : World).instantiateAll squareProgram squareRequests =
        .ok (final, reports) ∧
      reports = [(⟨0⟩, { implemented := true }),
        (⟨2⟩, { instantiated := true }), (⟨0⟩, { instantiated := true }),
        (⟨2⟩, { implemented := true }), (⟨1⟩, { implemented := true })] ∧
      final.directClasses = [⟨0⟩, ⟨2⟩] ∧
      instanceTellings reports ⟨0⟩ = 1 ∧
      implementationTellings reports ⟨0⟩ = 1 := by
  obtain ⟨final, reports, registered, told, direct, isInstantiated,
      isImplemented⟩ :
      ∃ final reports,
        ({} : World).instantiateAll squareProgram squareRequests =
          .ok (final, reports) ∧
        reports = [(⟨0⟩, { implemented := true }),
          (⟨2⟩, { instantiated := true }), (⟨0⟩, { instantiated := true }),
          (⟨2⟩, { implemented := true }), (⟨1⟩, { implemented := true })] ∧
        final.directClasses = [⟨0⟩, ⟨2⟩] ∧
        ⟨0⟩ ∈ final.instantiatedClasses ∧ ⟨0⟩ ∈ final.implementedClasses :=
    ⟨_, _, rfl, rfl, rfl, by decide, by decide⟩
  obtain ⟨-, -, -, -, -, instances, implementations⟩ :=
    (instantiateAll_uses_classes_once squareProgram_drafted.built
      squareRequests).2 final reports registered
  refine ⟨final, reports, registered, told, direct, ?_, ?_⟩
  · rw [instances, if_pos isInstantiated]
  · rw [implementations, if_pos isImplemented]

end World

end TreeShaking
