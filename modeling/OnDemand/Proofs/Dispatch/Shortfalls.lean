import OnDemand.Proofs.Dispatch.Failures
import OnDemand.Proofs.Dispatch.Sequence

/-!
# What is there after a failure

A look-up that fails reports the signatures that are known by then.  Its attempt may have inserted
entries before it failed, and nothing takes them out again.  So what is reported as unavailable is
missing just when the attempt has inserted no entry for it: `Traffic.missing_iff_not_inserted`.

The look-up is that of a caller by itself.  The catalogue may have been through any run of callers
side by side before, as long as all of them have their answers.
-/

namespace OnDemand

/-! ## Catalogues at rest -/

theorem Caller.not_owns_of_answered {c : Caller} (h : c.answer?.isSome = true) :
    c.phase.owns = false := by
  rcases Option.isSome_iff_exists.1 h with ⟨answer, hanswer⟩
  rw [Caller.phase_of_answer? hanswer]
  rfl

namespace Traffic

variable {σ τ : Type}

/-- Every caller has its answer. -/
def AtRest (t : Traffic σ) : Prop := ∀ c ∈ t.callers, c.answer?.isSome = true

instance (t : Traffic σ) : Decidable t.AtRest := inferInstanceAs (Decidable (∀ _ ∈ _, _))

/-- A flight that is listed has an owner under way, so there is none when all callers are done. -/
theorem Manned.quiet {t : Traffic σ} (h : t.Manned) (hrest : t.AtRest) : t.registries.Quiet := by
  intro r s
  cases hflying : t.registries.flying? r s with
  | none => rfl
  | some f =>
      rcases h r s f hflying with ⟨c, hc, -, -, howns⟩
      rw [Caller.not_owns_of_answered (hrest c hc)] at howns
      cases howns

end Traffic

/-! ## Failed attempts -/

namespace Catalogue

variable {σ : Type} {specializer : Option (Specializer σ)} {rs rs' : Registries} {r : Nat}
  {operation operation' : Text} {s s' : Signature} {state state' : σ} {available : List Signature}
  {source : SpecializationError}

/-- The attempt that a single caller makes when it misses an entry. -/
def attempt (specializer : Option (Specializer σ)) (rs : Registries) (r : Nat) (s : Signature)
    (state : σ) : Registries × Outcome × σ :=
  specialize specializer ⟨(rs.registry r).name, s⟩ (rs.attempting r s) state

/-- What that attempt inserts. -/
def attempted (specializer : Option (Specializer σ)) (rs : Registries) (r : Nat) (s : Signature)
    (state : σ) : List Insertion :=
  insertionsFor specializer ⟨(rs.registry r).name, s⟩ (rs.attempting r s) state

/-- The error of a look-up tells of the attempt, and of the registries that it has left. -/
theorem getFrom_eq_unavailable (hquiet : rs.Quiet)
    (h : getFrom specializer r operation s rs state =
      (rs', .error (.unavailable operation' s' available source), state')) :
    rs.entry? r s = none ∧ (operation' = operation ∧ s' = s) ∧
      (attempt specializer rs r s state).2.1 = .error source ∧
      rs' = (attempt specializer rs r s state).1.settled rs.flights.length (.error source) r s ∧
      available = rs'.signatures r := by
  cases hentry : rs.entry? r s with
  | some entry =>
      rw [getFrom_of_entry specializer operation state hentry] at h
      cases h
  | none =>
      have hgot := getFrom_of_absent specializer operation state hentry (hquiet r s)
      rw [h] at hgot
      unfold attempt
      dsimp only at hgot
      generalize specialize specializer ⟨(rs.registry r).name, s⟩ (rs.attempting r s) state = made
        at hgot ⊢
      rcases made with ⟨rs₁, outcome, state₁⟩
      cases outcome with
      | error source' =>
          cases hgot
          exact ⟨rfl, ⟨rfl, rfl⟩, rfl, rfl, rfl⟩
      | ok done =>
          -- After a success the entry is there or the invariant is broken.
          dsimp only at hgot
          split at hgot <;> cases hgot

/-- What is found of the missed signature afterwards is what the attempt has inserted for it. -/
theorem entry?_of_unavailable (hindexed : rs.Indexed) (hr : r < rs.registries.length)
    (hquiet : rs.Quiet)
    (h : getFrom specializer r operation s rs state =
      (rs', .error (.unavailable operation' s' available source), state')) :
    rs'.entry? r s = lastWrite (attempted specializer rs r s state) (rs.registry r).name s := by
  rcases getFrom_eq_unavailable hquiet h with ⟨hentry, -, -, hrs', -⟩
  have hattempting := Registries.gains_attempting rs r s
  have hattempt := gains_specialize specializer ⟨(rs.registry r).name, s⟩ (rs.attempting r s)
    (hattempting.indexed hindexed) state
  have hgains : rs.Gains rs' (attempted specializer rs r s state) := by
    rw [hrs']
    exact (hattempting.after hattempt).before (Registries.gains_settled _ _ _ _ _)
  have hr' : r < rs'.registries.length := Nat.lt_of_lt_of_le hr hgains.length
  calc rs'.entry? r s
      = rs'.known (rs.registry r).name s := by
        rw [← hgains.name r hr, (hgains.indexed hindexed).known_name hr']
    _ = (lastWrite (attempted specializer rs r s state) (rs.registry r).name s).or
          (rs.known (rs.registry r).name s) := hgains.known hindexed _ _
    _ = lastWrite (attempted specializer rs r s state) (rs.registry r).name s := by
        rw [hindexed.known_name hr, hentry, Option.or_none]

end Catalogue

/-! ## Whether the signature is missing -/

namespace Traffic

variable {σ τ : Type}

/--
Whatever the callers have done, once all have their answers a look-up that fails with `unavailable`
has missed its entry and asked the specializer, whose error it reports with the signatures known
afterwards.  The signature is missing then, and not among those, just when the specializer has
inserted no entry for it.
-/
theorem missing_iff_not_inserted (state : σ) (ms : List (Move σ))
    (hrest : (run { state } ms).AtRest) (specializer : Option (Specializer τ)) (state' : τ) {r : Nat}
    (hr : r < (run { state } ms).registries.registries.length) (operation : Operation)
    (s : Signature) {c : Catalogue τ} {operation' : Text} {s' : Signature}
    {available : List Signature} {source : SpecializationError} {state'' : τ}
    (h : Catalogue.get ⟨(run { state } ms).registries, specializer⟩ r operation s state' =
      (c, .error (.unavailable operation' s' available source), state'')) :
    (((run { state } ms).registries.look r s).2 = none ∧ operation' = operation.name ∧ s' = s ∧
      (Catalogue.attempt specializer (run { state } ms).registries r s state').2.1 = .error source ∧
      available = c.registries.signatures r) ∧
    ((c.registries.look r s).2 = none ∧ s ∉ available ↔
      ∀ i ∈ Catalogue.attempted specializer (run { state } ms).registries r s state',
        i.operation = ((run { state } ms).registries.registry r).name → i.signature ≠ s) := by
  have hmanned := (manned_start state).run (coherent_start state) ms
  have hindexed := (gains_run { state } Registries.indexed_empty ms).indexed Registries.indexed_empty
  generalize (run { state } ms) = t at *
  have hquiet := hmanned.quiet hrest
  rcases hget : Catalogue.getFrom specializer r operation.name s t.registries state' with
    ⟨rs', result, state₁⟩
  simp only [Catalogue.get, hget, Prod.mk.injEq] at h
  rcases h with ⟨rfl, rfl, -⟩
  rcases Catalogue.getFrom_eq_unavailable hquiet hget with
    ⟨hentry, ⟨hoperation, hs⟩, houtcome, -, havailable⟩
  refine ⟨⟨hentry, hoperation, hs, houtcome, havailable⟩, ?_⟩
  have hafter := Catalogue.entry?_of_unavailable hindexed hr hquiet hget
  have hlook : (rs'.look r s).2 = rs'.entry? r s := rfl
  -- A signature is listed when its entry is there, so the two halves say the same.
  have hlisted : s ∉ available ↔ rs'.entry? r s = none := by
    rw [havailable, Registries.mem_signatures_iff, Registries.present]
    simp
  rw [hlook, hlisted, and_self, hafter]
  exact lastWrite_eq_none_iff

/-- The registry of `f`, opened by somebody. -/
def opened : List (Move Unit) := [.opens ⟨['f'], [], .value⟩]

/-- Inserts an entry for the signature `(c)` of the operation it is asked for, and fails. -/
def strays : Specializer Unit := fun request _ _ =>
  ⟨[⟨request.operation, [['c']], ⟨1, Nat.one_ne_zero⟩⟩], .error .noSpecializer, ()⟩

/-- Inserts an entry for what it is asked for, and fails. -/
def failsLate : Specializer Unit := fun request _ _ =>
  ⟨[⟨request.operation, request.signature, ⟨1, Nat.one_ne_zero⟩⟩], .error .noSpecializer, ()⟩

/-- What the specializer has inserted is listed, and what was asked for is missing. -/
theorem missing_iff_not_inserted_strays :
    ∃ c : Catalogue Unit,
      Catalogue.get ⟨(run { state := () } opened).registries, some strays⟩ 0 ⟨['f'], [], .value⟩
          [['b']] () =
        (c, .error (.unavailable ['f'] [['b']] [[['c']]] .noSpecializer), ()) ∧
      (c.registries.look 0 [['b']]).2 = none ∧ [['b']] ∉ [[['c']]] := by
  refine ⟨_, rfl, ?_⟩
  refine (missing_iff_not_inserted () opened (by decide) (some strays) () (by decide)
    ⟨['f'], [], .value⟩ [['b']] rfl).2.2 ?_
  decide +kernel

/--
What was asked for has been inserted before the attempt failed: it is reported as unavailable, in a
report that lists it, and it is found right afterwards.
-/
theorem unavailable_yet_found :
    (∃ c : Catalogue Unit,
      Catalogue.get ⟨(run { state := () } opened).registries, some failsLate⟩ 0 ⟨['f'], [], .value⟩
          [['b']] () =
        (c, .error (.unavailable ['f'] [['b']] [[['b']]] .noSpecializer), ()) ∧
      (c.registries.look 0 [['b']]).2 = some ⟨1, Nat.one_ne_zero⟩) ∧
    ¬∀ (ms : List (Move Unit)), (run { state := () } ms).AtRest →
      ∀ (specializer : Option (Specializer Unit)) (r : Nat),
      r < (run { state := () } ms).registries.registries.length →
      ∀ (operation : Operation) (s : Signature) (c : Catalogue Unit) (operation' : Text)
        (s' : Signature) (available : List Signature) (source : SpecializationError),
      Catalogue.get ⟨(run { state := () } ms).registries, specializer⟩ r operation s () =
        (c, .error (.unavailable operation' s' available source), ()) →
      (c.registries.look r s).2 = none ∧ s ∉ available := by
  refine ⟨⟨_, rfl, by decide +kernel⟩, ?_⟩
  intro hclaim
  have hmissing := hclaim opened (by decide) (some failsLate) 0 (by decide) ⟨['f'], [], .value⟩
    [['b']] _ _ _ _ _ rfl
  exact absurd hmissing.2 (by decide +kernel)

end Traffic
end OnDemand
