import TreeShaking.Proofs.Repetition

/-!
# Applying an impact again

When the application of an impact has come to an end, every use in it has been
registered, and the instantiations that follow have been carried out.  This stays
so whatever is done later (`Accomplished`).  So the second application finds
everything done that it asks for, and no task follows but that the listener hears
again of the types that are instantiated.
-/

namespace TreeShaking

open Outcome

/-- A listener needs nothing for the types that are instantiated, and being told
of them leads to a state that counts as the same. -/
structure Listener.Indifferent {σ : Type} (listener : Listener σ)
    (same : σ → σ → Prop) : Prop where
  refl : ∀ state, same state state
  trans : ∀ {first second third}, same first second → same second third →
    same first third
  impact : ∀ state type isGlobal isNative, (listener.hear state
    (.instantiatedType type isGlobal isNative)).1.impact = {}
  heard : ∀ state type isGlobal isNative, same state (listener.hear state
    (.instantiatedType type isGlobal isNative)).2

namespace Exploration

variable {σ : Type} {setting : Setting σ} {e next final : Exploration σ}
  {task : Task} {tasks agenda : List Task}

/-! ### What was done in a run -/

theorem Effect.precedes (effect : Effect setting e task tasks next) :
    e.world.Precedes next.world := by
  have within := effect.within
  cases effect with
  | dynamic admitted registered =>
      exact (Scope.precedes_registerDynamic registered).1
  | static admitted registered =>
      refine .of_selectors within ?_
      rcases Scope.registerStatic_cases registered with
        ⟨-, -, rfl⟩ | ⟨-, registered⟩
      · rfl
      · obtain ⟨decl, usage, -, rfl, -⟩ :=
          World.registerStatic_stores registered
        rfl
  | entered entered =>
      simp only [World.enterClass, World.visitClass, bind_eq_ok_iff] at entered
      obtain ⟨members, listed, met⟩ := entered
      exact .of_selectors within (World.visited_of_visitAll
        (Program.distinct_concreteMembers listed) met).selectors
  | instantiated registered =>
      refine .of_selectors within ?_
      rw [World.registerInstantiation_frame
        (Scope.registerInstantiation_within registered)]
      rfl
  | enlisted used | skipped used =>
      simp only [World.registerUsed, bind_eq_ok_iff, pure_eq_ok_iff] at used
      obtain ⟨decl, -, rfl⟩ := used
      exact .of_selectors within rfl
  | refused | creation | test | untested | literal | superfluous | demanded
  | closurized | announced | unapplied | applied | released =>
      exact .of_selectors within rfl

theorem precedes_of_step (stepped : e.step setting task = .ok (tasks, next)) :
    e.world.Precedes next.world := by
  rcases effect_or_turn stepped with effect | ⟨_, _, _, _, _, -, turn, -⟩
  · exact effect.precedes
  · exact .of_selectors turn.within turn.sameMembers.1.selectors

/-- A task was carried out before a world came about, with all that follows from
it. -/
inductive Accomplished (setting : Setting σ) (final : World) : Task → Prop
  | intro {task : Task} {tasks : List Task} {e next : Exploration σ}
      (stepped : e.step setting task = .ok (tasks, next))
      (precedes : next.world.Precedes final)
      (follow : ∀ follower ∈ tasks, Accomplished setting final follower) :
      Accomplished setting final task

/-- At the end of a run every task on its agenda is accomplished. -/
theorem accomplished_of_workOff {steps : Nat}
    (worked : workOff setting steps agenda e = .ok final) :
    ∀ task ∈ agenda, Accomplished setting final.world task := by
  refine (workOff_induction
    (motive := fun agenda e => e.world.Precedes final.world ∧
      ∀ task ∈ agenda, Accomplished setting final.world task)
    ⟨.refl _, by simp⟩ ?_ worked).2
  intro task agenda tasks e next stepped ih
  obtain ⟨precedes, accomplished⟩ := ih
  refine ⟨(precedes_of_step stepped).trans precedes,
    List.forall_mem_cons.2 ⟨?_, ?_⟩⟩
  · exact .intro stepped precedes fun follower listed =>
      accomplished follower (List.mem_append_left _ listed)
  · exact fun other listed =>
      accomplished other (List.mem_append_right _ listed)

/-! ### Doing it again -/

/-- Two explorations are at the same point, but for what the listener counts and
the journal. -/
structure Unmoved (same : σ → σ → Prop) (e next : Exploration σ) : Prop where
  listener : same e.listener next.listener
  rest : next = { e with listener := next.listener, journal := next.journal }

variable {same : σ → σ → Prop}

theorem Unmoved.world (unmoved : Unmoved same e next) :
    next.world = e.world := by
  rw [unmoved.rest]

theorem Unmoved.refl (indifferent : setting.listener.Indifferent same)
    (e : Exploration σ) : Unmoved same e e :=
  ⟨indifferent.refl _, rfl⟩

theorem Unmoved.trans {first second third : Exploration σ}
    (indifferent : setting.listener.Indifferent same)
    (unmoved : Unmoved same first second)
    (further : Unmoved same second third) : Unmoved same first third where
  listener := indifferent.trans unmoved.listener further.listener
  rest := by
    have replaced := congrArg (fun e : Exploration σ => { e with
      listener := third.listener
      journal := third.journal }) unmoved.rest
    exact further.rest.trans replaced

/-- Telling the listener of an instantiated type leads to nothing. -/
theorem announce_again (indifferent : setting.listener.Indifferent same)
    (e : Exploration σ) (type : InterfaceType) (isGlobal isNative : Bool) :
    ∃ next, e.step setting (.announce (.instantiatedType type isGlobal
        isNative)) = .ok ([], next) ∧ Unmoved same e next := by
  refine ⟨(e.tell setting.listener
    (.instantiatedType type isGlobal isNative)).2, ?_,
    indifferent.heard e.listener type isGlobal isNative, rfl⟩
  have answered : (e.tell setting.listener (.instantiatedType type isGlobal
      isNative)).1.impact = {} :=
    indifferent.impact e.listener type isGlobal isNative
  simp only [step, announce, answered]
  rfl

theorem instantiate_again (indifferent : setting.listener.Indifferent same)
    {type : InterfaceType} {constructor : Option MemberId}
    {flags : InstantiationFlags} {isGlobal : Bool}
    (accomplished : Accomplished setting e.world
      (.instantiate type constructor flags isGlobal)) :
    ∃ next, Unmoved same e next ∧ ∀ steps agenda,
      workOff setting (steps + 2)
          (.instantiate type constructor flags isGlobal :: agenda) e =
        workOff setting steps agenda next := by
  obtain ⟨stepped, precedes, -⟩ := accomplished
  simp only [step, instantiate, bind_eq_ok_iff, pure_eq_ok_iff, Prod.mk.injEq,
    Prod.exists] at stepped
  obtain ⟨_, reports, registered, -, rfl⟩ := stepped
  have instantiates : e.step setting
      (.instantiate type constructor flags isGlobal) =
        .ok ([.announce (.instantiatedType type isGlobal flags.native)], e) := by
    simp only [step, instantiate,
      Scope.registerInstantiation_again registered precedes.toWithin]
    rfl
  obtain ⟨next, announces, unmoved⟩ :=
    announce_again indifferent e type isGlobal flags.native
  refine ⟨next, unmoved, fun steps agenda => ?_⟩
  rw [workOff, instantiates]
  dsimp only [List.singleton_append]
  rw [workOff, announces]
  rfl

theorem registerType_again {use : TypeUse} {before : Exploration σ}
    (registered : before.registerType setting use = .ok (tasks, next))
    (within : next.world.Within e.world) :
    e.registerType setting use = .ok (tasks, e) := by
  have creation : ∀ flags,
      before.instantiateType use flags = .ok (tasks, next) →
        e.instantiateType use flags = .ok (tasks, e) := by
    intro flags planned
    unfold instantiateType at planned ⊢
    split at planned
    · obtain ⟨rfl, -⟩ := Prod.mk.inj (Except.ok.inj planned)
      rfl
    · cases planned
  have test : (do
        let world ← before.world.registerIsCheck setting.program use.type
        return ([], { before with world })) = .ok (tasks, next) →
      (do
        let world ← e.world.registerIsCheck setting.program use.type
        return ([], { e with world })) = .ok (tasks, e) := by
    intro checked
    simp only [World.registerIsCheck, bind_eq_ok_iff, pure_eq_ok_iff]
      at checked
    obtain ⟨_, ⟨tested, unaliased, rfl⟩, checked⟩ := checked
    obtain ⟨rfl, rfl⟩ := Prod.mk.inj checked
    simp only [World.registerIsCheck, unaliased, bind, Except.bind, pure,
      Except.pure, List.insert_of_mem (within.isChecks List.mem_insert_self)]
  unfold registerType at registered ⊢
  cases kind : use.kind with
  | instantiation | mirrorInstantiation | nativeInstantiation =>
      rw [kind] at registered
      exact creation _ registered
  | isCheck | asCast | catchType =>
      rw [kind] at registered
      exact test registered
  | checkedModeCheck =>
      rw [kind] at registered
      dsimp only at registered ⊢
      split at registered
      · rename_i asserts
        rw [if_pos asserts]
        exact test registered
      · rename_i assertsNot
        obtain ⟨rfl, -⟩ := Prod.mk.inj (Except.ok.inj registered)
        rw [if_neg assertsNot]
  | typeLiteral =>
      rw [kind] at registered
      obtain ⟨rfl, rfl⟩ := Prod.mk.inj (Except.ok.inj registered)
      dsimp only [World.registerTypeLiteral] at within ⊢
      rw [List.insert_of_mem (within.typeLiterals List.mem_insert_self)]

/-- A type use leads to nothing or to an instantiation. -/
theorem tasks_of_registerType {use : TypeUse}
    (admitted : setting.strategy.admits (.type use) = true)
    (registered : e.registerType setting use = .ok (tasks, next)) :
    tasks = [] ∨
      ∃ type flags, tasks = [.instantiate type none flags flags.native] := by
  cases effect_of_registerType admitted registered with
  | creation => exact .inr ⟨_, _, rfl⟩
  | refused | test | untested | literal => exact .inl rfl

/-- A use that was registered with all its consequences leads at most to the
announcement of an instantiated type. -/
theorem register_again (indifferent : setting.listener.Indifferent same)
    {use : Use} (accomplished : Accomplished setting e.world (.register use)) :
    ∃ cost next, cost ≤ 3 ∧ Unmoved same e next ∧ ∀ steps agenda,
      workOff setting (steps + cost) (.register use :: agenda) e =
        workOff setting steps agenda next := by
  obtain ⟨stepped, precedes, follow⟩ := accomplished
  -- Either nothing follows, or the instantiation that was carried out as well.
  have alone : e.step setting (.register use) = .ok ([], e) →
      ∃ cost next, cost ≤ 3 ∧ Unmoved same e next ∧ ∀ steps agenda,
        workOff setting (steps + cost) (.register use :: agenda) e =
          workOff setting steps agenda next := by
    intro registers
    refine ⟨1, e, by omega, .refl indifferent e, fun steps agenda => ?_⟩
    rw [workOff, registers]
    rfl
  have creating : ∀ type constructor flags isGlobal,
      e.step setting (.register use) =
        .ok ([.instantiate type constructor flags isGlobal], e) →
      Accomplished setting e.world
        (.instantiate type constructor flags isGlobal) →
        ∃ cost next, cost ≤ 3 ∧ Unmoved same e next ∧ ∀ steps agenda,
          workOff setting (steps + cost) (.register use :: agenda) e =
            workOff setting steps agenda next := by
    intro type constructor flags isGlobal registers instantiated
    obtain ⟨next, unmoved, again⟩ := instantiate_again indifferent instantiated
    refine ⟨3, next, by omega, unmoved, fun steps agenda => ?_⟩
    rw [workOff, registers]
    exact again steps agenda
  unfold step at stepped
  dsimp only at stepped
  split at stepped
  · rename_i admitted
    cases use with
    | static use =>
        simp only [register, registerStatic, bind_eq_ok_iff, pure_eq_ok_iff,
          Prod.mk.injEq, Prod.exists] at stepped
        obtain ⟨_, reports, registered, rfl, rfl⟩ := stepped
        obtain ⟨silence, repeated, isSilent⟩ :=
          Scope.registerStatic_again registered precedes.toWithin
        have registers : e.step setting (.register (.static use)) =
            .ok (use.creation, e) := by
          simp only [step, admitted, if_true, register, registerStatic, repeated,
            bind, Except.bind, isSilent, List.nil_append]
          rfl
        cases instantiates : use.instantiation? with
        | none =>
            rw [StaticUse.creation, instantiates] at registers
            exact alone registers
        | some instantiation =>
            obtain ⟨type, flags⟩ := instantiation
            rw [StaticUse.creation, instantiates] at registers
            refine creating type _ flags _ registers
              (follow _ (List.mem_append_right _ ?_))
            rw [instantiates]
            exact List.mem_cons_self
    | dynamic use =>
        simp only [register, registerDynamic, bind_eq_ok_iff, pure_eq_ok_iff,
          Prod.mk.injEq, Prod.exists] at stepped
        obtain ⟨_, reports, registered, rfl, rfl⟩ := stepped
        refine alone ?_
        simp only [step, admitted, if_true, register, registerDynamic,
          Scope.registerDynamic_again registered precedes]
        rfl
    | type use =>
        have registers : e.step setting (.register (.type use)) = _ :=
          (if_pos admitted).trans
            (registerType_again stepped precedes.toWithin)
        rcases tasks_of_registerType admitted stepped with rfl | ⟨type, flags, rfl⟩
        · exact alone registers
        · exact creating type none flags flags.native registers
            (follow _ List.mem_cons_self)
  · rename_i refused
    obtain ⟨rfl, rfl⟩ := Prod.mk.inj (Except.ok.inj stepped)
    exact alone (if_neg refused)

theorem registerAll_again (indifferent : setting.listener.Indifferent same)
    {uses : List Use}
    (accomplished : ∀ use ∈ uses,
      Accomplished setting e.world (.register use)) :
    ∃ cost next, cost ≤ 3 * uses.length ∧ Unmoved same e next ∧
      ∀ steps agenda,
        workOff setting (steps + cost) (uses.map .register ++ agenda) e =
          workOff setting steps agenda next := by
  induction uses generalizing e with
  | nil => exact ⟨0, e, by simp, .refl indifferent e, fun _ _ => rfl⟩
  | cons use rest ih =>
      obtain ⟨isFirst, areOthers⟩ := List.forall_mem_cons.1 accomplished
      obtain ⟨cost, middle, le, unmoved, registers⟩ :=
        register_again indifferent isFirst
      obtain ⟨restCost, next, restLe, restUnmoved, restRegisters⟩ :=
        ih (e := middle) (by rwa [unmoved.world])
      refine ⟨restCost + cost, next, ?_, unmoved.trans indifferent restUnmoved,
        fun steps agenda => ?_⟩
      · rw [List.length_cons]
        omega
      · rw [List.map_cons, List.cons_append, ← Nat.add_assoc, registers,
          restRegisters]

/-- An exploration after an impact was applied again: the world is the same, the
impact is counted unless it is empty, and all that is planned is as before. -/
structure Reapplied (same : σ → σ → Prop) (impact : Impact)
    (once again : Exploration σ) : Prop where
  listener : same once.listener again.listener
  rest : again = { once with
    listener := again.listener
    tally := { once.tally with
      impacts := once.tally.impacts + (!impact.isEmpty).toNat }
    journal := again.journal }

/-- An impact that was applied can be applied again, in a number of steps that is
known beforehand. -/
theorem applyImpact_again (indifferent : setting.listener.Indifferent same)
    {once : Exploration σ} {steps : Nat} {impact : Impact}
    (applied : e.applyImpact setting steps impact none = .ok once) :
    ∃ again, Reapplied same impact once again ∧
      ∀ further, 3 * impact.uses.length + 2 ≤ further →
        once.applyImpact setting further impact none = .ok again := by
  obtain ⟨stepped, -, follow⟩ :=
    accomplished_of_workOff applied _ List.mem_cons_self
  have planned := Except.ok.inj stepped
  cases isEmpty : impact.isEmpty with
  | true =>
      refine ⟨once, ⟨indifferent.refl _, by rw [isEmpty]; rfl⟩,
        fun further le => ?_⟩
      obtain ⟨fewer, rfl⟩ : ∃ fewer, further = fewer + 1 :=
        ⟨further - 1, by omega⟩
      rw [applyImpact, workOff, step, apply, isEmpty]
      cases fewer <;> rfl
  | false =>
      rw [apply, isEmpty] at planned
      obtain ⟨rfl, -⟩ := Prod.mk.inj planned
      have registered : ∀ use ∈ impact.uses,
          Accomplished setting once.world (.register use) := fun use listed =>
        follow _ (List.mem_append_left _ (List.mem_map_of_mem listed))
      obtain ⟨counted, applies, isCounted⟩ : ∃ counted,
          once.step setting (.apply impact none) =
            .ok (impact.uses.map .register ++ [.release none], counted) ∧
          counted = { once with
            tally := { once.tally with impacts := once.tally.impacts + 1 }
            journal := counted.journal } := by
        rw [step, apply, isEmpty]
        refine ⟨_, rfl, ?_⟩
        split
        · rfl
        · rfl
      have sameWorld : counted.world = once.world := by rw [isCounted]
      have sameListener : counted.listener = once.listener := by rw [isCounted]
      obtain ⟨cost, again, le, unmoved, registers⟩ := registerAll_again
        (e := counted) indifferent (by rwa [sameWorld])
      have releases : again.step setting (.release none) = .ok ([], again) := by
        simp [step, ImpactPolicy.afterVisit]
      refine ⟨again, ⟨sameListener ▸ unmoved.listener, ?_⟩,
        fun further enough => ?_⟩
      · have replaced := congrArg (fun e : Exploration σ => { e with
          listener := again.listener
          journal := again.journal }) isCounted
        rw [isEmpty]
        exact unmoved.rest.trans replaced
      · obtain ⟨left, rfl⟩ : ∃ left, further = left + 1 + cost + 1 :=
          ⟨further - cost - 2, by omega⟩
        rw [applyImpact, workOff, applies]
        dsimp only
        rw [List.append_nil, registers, workOff, releases]
        cases left <;> rfl

end Exploration

/-! ### The listeners of a compilation -/

/-- Two states of the backend differ at most in how often it was told of an
instantiated type. -/
def Backend.SameButTypes (backend other : Backend) : Prop :=
  ∃ instantiatedTypes nativeInstantiations, other = { backend with
    counters := { backend.counters with
      instantiatedTypes, nativeInstantiations } }

theorem Listener.indifferent_silent : Listener.silent.Indifferent Eq :=
  ⟨fun _ => rfl, Eq.trans, fun _ _ _ _ => rfl, fun _ _ _ _ => rfl⟩

theorem Backend.indifferent_listener :
    Backend.listener.Indifferent Backend.SameButTypes where
  refl backend := ⟨_, _, rfl⟩
  trans := by
    rintro first _ _ ⟨_, _, rfl⟩ ⟨types, natives, rfl⟩
    exact ⟨types, natives, rfl⟩
  impact _ _ _ _ := rfl
  heard _ _ _ _ := ⟨_, _, rfl⟩

/-- Applying an impact is idempotent, in either phase and wherever an exploration
has got to.  After an application that has come to an end, the next one comes to
an end as well, in a number of steps that depends on the impact only.  It leaves
the world and all plans as they are; the impact is counted, and the backend counts
the types that are instantiated. -/
theorem Exploration.applyImpact_is_idempotent :
    (∀ (setting : Setting Unit) (e once : Exploration Unit) (steps : Nat)
        (impact : Impact), setting.listener = .silent →
      e.applyImpact setting steps impact none = .ok once →
        ∃ again, Reapplied Eq impact once again ∧
          ∀ further, 3 * impact.uses.length + 2 ≤ further →
            once.applyImpact setting further impact none = .ok again) ∧
    ∀ (setting : Setting Backend) (e once : Exploration Backend) (steps : Nat)
        (impact : Impact), setting.listener = Backend.listener →
      e.applyImpact setting steps impact none = .ok once →
        ∃ again, Reapplied Backend.SameButTypes impact once again ∧
          ∀ further, 3 * impact.uses.length + 2 ≤ further →
            once.applyImpact setting further impact none = .ok again := by
  constructor
  · intro setting e once steps impact isSilent applied
    exact applyImpact_again (isSilent ▸ Listener.indifferent_silent) applied
  · intro setting e once steps impact isBackend applied
    exact applyImpact_again (isBackend ▸ Backend.indifferent_listener) applied

/-- The need for a method that is called and for an instance that has it. -/
def heirImpact : Impact where
  statics := [⟨.general, ⟨0⟩, none⟩]
  dynamics := [Compilation.heirCall]
  types := [⟨.instantiation, .interface ⟨1⟩ []⟩,
    ⟨.isCheck, .interface ⟨0⟩ []⟩]

/-- The methods are found in the first application, and the second one only tells
the backend of the instance again. -/
theorem Exploration.applyImpact_is_idempotent_for_heir :
    ∃ once again,
      applyImpact { listener := {} } (Compilation.resolutionSetting
        (Compilation.heirInput ⟨1⟩) {}) 30 heirImpact none = .ok once ∧
      once.applyImpact (Compilation.resolutionSetting
        (Compilation.heirInput ⟨1⟩) {}) 14 heirImpact none = .ok again ∧
      once.queue = [⟨0⟩, ⟨2⟩, ⟨1⟩] ∧ again.queue = [⟨0⟩, ⟨2⟩, ⟨1⟩] ∧
      again.world = once.world ∧
      once.listener.SameButTypes again.listener ∧
      again.tally.impacts = once.tally.impacts + 1 := by
  obtain ⟨once, applied, queue⟩ : ∃ once,
      applyImpact { listener := {} } (Compilation.resolutionSetting
        (Compilation.heirInput ⟨1⟩) {}) 30 heirImpact none = .ok once ∧
      once.queue = [⟨0⟩, ⟨2⟩, ⟨1⟩] := ⟨_, rfl, rfl⟩
  obtain ⟨again, reapplied, applies⟩ :=
    applyImpact_is_idempotent.2 _ _ once 30 heirImpact rfl applied
  refine ⟨once, again, applied, applies 14 (by decide), queue, ?_, ?_,
    reapplied.listener, ?_⟩
  · rw [reapplied.rest]
    exact queue
  · rw [reapplied.rest]
  · rw [reapplied.rest]
    rfl

end TreeShaking
