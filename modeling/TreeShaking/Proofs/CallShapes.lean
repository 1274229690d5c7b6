import TreeShaking.Dispatch.Selector

/-!
# The shapes of calls

Selectors are told apart by the shapes of their calls, so the same arguments must
have one shape, in whatever order they are written.  `withNamed` lists the named
arguments in ascending order and each of them once, which makes the shape depend
on the set of names alone (`withNamed_eq_withNamed_iff`).  Whether a call fits the
parameters of a member depends on that set as well, and on the set of names that
the member declares (`fits_eq_ok`).
-/

namespace TreeShaking

theorem Parameters.total_eq_ok {parameters : Parameters}
    (small : parameters.required + parameters.optional < UInt32.size) :
    parameters.total = .ok (parameters.required + parameters.optional) :=
  if_pos small

namespace CallShape

variable {positional other : Nat} {named others : List Name}
  {parameters : Parameters}

@[simp]
theorem positional_withNamed :
    (withNamed positional named).positional = positional :=
  rfl

@[simp]
theorem mem_named_withNamed {name : Name} :
    name ∈ (withNamed positional named).named ↔ name ∈ named :=
  Handle.mem_ascending

theorem withNamed_eq_withNamed_iff :
    withNamed positional named = withNamed other others ↔
      positional = other ∧ ∀ name, name ∈ named ↔ name ∈ others := by
  rw [withNamed, withNamed, mk.injEq, Handle.ascending_eq_ascending_iff]

/-- Whether a call fits parameters that can be counted. -/
theorem fits_eq_ok (shape : CallShape)
    (small : parameters.required + parameters.optional < UInt32.size) :
    shape.fits parameters =
      .ok (decide (parameters.required ≤ shape.positional ∧
        shape.positional ≤ parameters.required + parameters.optional ∧
        ∀ name ∈ shape.named, name ∈ parameters.named)) := by
  unfold fits
  split
  · rename_i few
    have tooFew : ¬ parameters.required ≤ shape.positional := Nat.not_le.2 few
    simp [tooFew]
  · rename_i enough
    have reached : parameters.required ≤ shape.positional := Nat.not_lt.1 enough
    rw [Parameters.total_eq_ok small]
    refine congrArg Except.ok (Bool.eq_iff_iff.2 ?_)
    simp [reached]

/-- The named arguments of a shape are in strictly ascending order and are the
given ones.  Two calls have the same shape if and only if they have as many
positional arguments and the same set of named ones.  If the positional parameters
of a member can be counted, it takes the call if and only if there are enough
positional arguments, not too many of them, and every named one is declared, and
neither order nor repetition of names matters on either side. -/
theorem withNamed_is_canonical (positional other : Nat)
    (named others : List Name) :
    ((withNamed positional named).named.Pairwise
        (fun first second => first.index < second.index) ∧
      ∀ name, name ∈ (withNamed positional named).named ↔ name ∈ named) ∧
    (withNamed positional named = withNamed other others ↔
      positional = other ∧ ∀ name, name ∈ named ↔ name ∈ others) ∧
    ∀ parameters : Parameters,
      parameters.required + parameters.optional < UInt32.size →
      (∃ applies, (withNamed positional named).fits parameters = .ok applies ∧
        (applies = true ↔ parameters.required ≤ positional ∧
          positional ≤ parameters.required + parameters.optional ∧
          ∀ name ∈ named, name ∈ parameters.named)) ∧
      ∀ rearranged declared : List Name,
        (∀ name, name ∈ rearranged ↔ name ∈ named) →
        (∀ name, name ∈ declared ↔ name ∈ parameters.named) →
        (withNamed positional rearranged).fits
            { parameters with named := declared } =
          (withNamed positional named).fits parameters := by
  refine ⟨⟨Handle.pairwise_ascending named, fun name => mem_named_withNamed⟩,
    withNamed_eq_withNamed_iff, fun parameters small => ⟨?_, ?_⟩⟩
  · exact ⟨_, fits_eq_ok _ small, by simp⟩
  · intro rearranged declared sameArguments sameParameters
    have sameShape : withNamed positional rearranged = withNamed positional named :=
      withNamed_eq_withNamed_iff.2 ⟨rfl, sameArguments⟩
    have rearrangedFits := (withNamed positional named).fits_eq_ok
      (small : { parameters with named := declared }.required + _ < _)
    rw [sameShape, rearrangedFits, fits_eq_ok _ small]
    simp only [sameParameters]

/-- Names in another order and written twice make the same call, and as many
positional parameters as can be counted take it. -/
theorem withNamed_of_shuffled_names :
    withNamed 3 [⟨5⟩, ⟨2⟩, ⟨5⟩] = withNamed 3 [⟨2⟩, ⟨5⟩] ∧
      (withNamed 3 [⟨5⟩, ⟨2⟩, ⟨5⟩]).fits
        { required := 1, optional := 4294967294, named := [⟨7⟩, ⟨5⟩, ⟨2⟩] } =
          .ok true := by
  obtain ⟨-, sameShape, fitting⟩ :=
    withNamed_is_canonical 3 3 [⟨5⟩, ⟨2⟩, ⟨5⟩] [⟨2⟩, ⟨5⟩]
  obtain ⟨⟨applies, fits, takes⟩, -⟩ := fitting
    { required := 1, optional := 4294967294, named := [⟨7⟩, ⟨5⟩, ⟨2⟩] }
    (by decide)
  refine ⟨sameShape.2 ⟨rfl, fun name => by grind⟩, ?_⟩
  rw [fits, takes.2 ⟨by decide, by decide, by decide⟩]

end CallShape

end TreeShaking
