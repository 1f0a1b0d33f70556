import Mathlib.Control.Monad.Basic
import OnDemand.Proofs.Dispatch.Records

/-!
# Which attempt a failure is about

A caller that is told of a failure has taken part in a flight.  That flight may have landed before
the caller came, but then it was still among those under way, because the caller that owns it had
yet to take it out: a flight among those under way has an owner (`Traffic.Manned`).  So a failure is
handed on for as long as the look-up that owns the flight goes on, and no longer.
-/

namespace OnDemand

/-- The failure that a caller's answer is or will be. -/
def Phase.failure? : Phase → Option SpecializationError
  | .leave (.error source) | .landed (.error source) => some source
  | .done (.error (.unavailable _ _ _ source)) => some source
  | _ => none

namespace Caller

variable {σ : Type} {specializer : Option (Specializer σ)} {c : Caller} {rs rs' : Registries}
  {state state' : σ} {p : Phase} {f : Nat}

theorem failure?_withOutcome {owner : Bool} {outcome : Outcome} {source : SpecializationError}
    (h : (withOutcome owner outcome).failure? = some source) : outcome = .error source := by
  cases outcome with
  | ok done => cases owner <;> cases h
  | error source' => cases owner <;> cases h <;> rfl

theorem phase_of_answer? {answer : Except DispatchError Entry} (h : c.answer? = some answer) :
    c.phase = .done answer := by
  unfold answer? at h
  split at h
  next answer' hphase =>
      cases h
      exact hphase
  next => cases h

/-- A failure is that of a flight that the caller was aboard, or it was the caller's before. -/
theorem Turns.failure_cases (h : c.Turns specializer rs state p rs' state') (hc : c.Fits rs)
    {source : SpecializationError} (hp : p.failure? = some source) :
    c.phase.failure? = some source ∨
      ∃ f, c.phase.aboard? = some f ∧ rs'.flight f = .finished (.error source) := by
  cases h with
  | @shares f owner outcome hphase hfinished =>
      rw [failure?_withOutcome hp] at hfinished
      exact .inr ⟨f, by rw [hphase]; rfl, hfinished⟩
  -- The specializer has failed, and so has the flight that it was asked in.
  | @returns f owner rs₁ outcome state' hphase hattempt =>
      have hkeeps := Registries.keeps_specialize specializer
        ⟨(rs.registry c.registry).name, c.signature⟩ rs state
      rw [hattempt] at hkeeps
      have hlt := (hc.keeps hkeeps).flight_lt f (by rw [hphase]; rfl)
      rw [failure?_withOutcome hp]
      refine .inr ⟨f, by rw [hphase]; rfl, ?_⟩
      rw [Registries.flight_setFlight hlt, if_pos rfl]
  -- A failure that the caller has had before stays with it.
  | @leaves outcome hphase =>
      cases outcome with
      | ok done => cases hp
      | error source' =>
          cases hp
          exact .inl (by rw [hphase]; rfl)
  | fails hphase =>
      cases hp
      exact .inl (by rw [hphase]; rfl)
  | rests hphase =>
      rw [hphase]
      exact .inl hp
  | hits | misses | overtaken | joins | launches | begins | waits | finds | lacks => cases hp

/-- A caller comes aboard the flight under way for its signature. -/
theorem Steps.aboard_cases (hstep : c.Steps rs p rs') (hc : c.registry < rs.registries.length)
    (hf : p.aboard? = some f) :
    c.phase.aboard? = some f ∨ rs'.flying? c.registry c.signature = some f := by
  cases hstep with
  | aside hstart hp hkeeps =>
      rw [hp.1] at hf
      cases hf
  | joins hphase habsent hflying =>
      cases hf
      exact .inr hflying
  | launches hphase habsent hnone =>
      cases hf
      refine .inr ?_
      rw [Registries.flying?_launched hc, if_pos ⟨rfl, rfl⟩]
  | begins hphase | waits hphase =>
      rw [hphase]
      exact .inl hf
  | shares hphase | returns hphase =>
      rw [aboard?_withOutcome] at hf
      cases hf
  | leaves hphase => cases hf

/-- An outcome does not change any more. -/
theorem Steps.finished (hstep : c.Steps rs p rs') (hc : c.Fits rs) {outcome : Outcome}
    (h : rs.flight f = .finished outcome) : rs'.flight f = .finished outcome := by
  cases hstep with
  | aside hstart hp hkeeps =>
      rw [hkeeps.flight]
      exact h
  | launches hphase habsent hnone =>
      rw [Registries.flight_launched ?_]
      · exact h
      · -- A flight that is over has a number.
        refine Decidable.byContradiction ?_
        intro hf
        rw [Registries.flight_of_le (Nat.le_of_not_lt hf)] at h
        cases h
  | @begins g owner hphase hidle =>
      rw [Registries.flight_setFlight (hc.flight_lt g (by rw [hphase]; rfl))]
      split
      next heq =>
          rw [heq, hidle] at h
          cases h
      next => exact h
  | @returns g owner outcome' rs₁ hphase hkeeps =>
      have hg : c.phase.aboard? = some g := by rw [hphase]; rfl
      rw [Registries.flight_setFlight ((hc.keeps hkeeps).flight_lt g hg), hkeeps.flight]
      split
      next heq =>
          -- The flight that the caller runs is not over.
          rw [heq, hc.running g hg (by rw [hphase]; rfl)] at h
          cases h
      next => exact h
  | joins | waits | shares | leaves => exact h

theorem Steps.length_flights (hstep : c.Steps rs p rs') :
    rs.flights.length ≤ rs'.flights.length := by
  cases hstep with
  | aside hstart hp hkeeps => exact Nat.le_of_eq (by rw [hkeeps.flights])
  | launches hphase habsent hnone =>
      rw [Registries.length_flights_launched]
      exact Nat.le_succ _
  | begins hphase hidle => exact Nat.le_of_eq (Registries.length_setFlight _ _ _).symm
  | returns hphase hkeeps =>
      exact Nat.le_of_eq (by rw [Registries.length_setFlight, hkeeps.flights])
  | joins | waits | shares | leaves => exact Nat.le_refl _

/-- An owner stays one until it has taken the flight out. -/
theorem Steps.owns (hstep : c.Steps rs p rs') (h : c.phase.owns = true) :
    p.owns = true ∨ rs'.flying? c.registry c.signature = none := by
  cases hstep with
  | aside hstart hp hkeeps =>
      rw [hstart.2] at h
      cases h
  | joins hphase | launches hphase =>
      rw [hphase] at h
      cases h
  | begins hphase | waits hphase =>
      rw [hphase] at h
      exact .inl h
  | shares hphase | returns hphase =>
      rw [hphase] at h
      exact .inl ((owns_withOutcome _ _).trans h)
  | leaves hphase =>
      refine .inr ?_
      rw [Registries.flying?_leave, if_pos ⟨rfl, rfl⟩]

end Caller

namespace Traffic

variable {σ : Type} {t t' : Traffic σ} {m : Move σ} {r : Nat} {s : Signature}

/-! ## Owners -/

/-- Some caller has yet to take the flight for the signature out of those under way. -/
def HasOwner (t : Traffic σ) (r : Nat) (s : Signature) : Prop :=
  ∃ c ∈ t.callers, c.registry = r ∧ c.signature = s ∧ c.phase.owns = true

/-- Every flight under way has an owner. -/
def Manned (t : Traffic σ) : Prop :=
  ∀ r s f, t.registries.flying? r s = some f → t.HasOwner r s

theorem manned_start (state : σ) : Manned { state } := by
  intro r s f hf
  simp [Registries.flying?, Registries.registry, Table.get?] at hf

theorem Manned.step (h : t.Manned) (hcoherent : t.Coherent) {i : Nat} {c : Caller}
    (hc : t.callers[i]? = some c) (specializer : Option (Specializer σ)) :
    (t.step i c specializer).Manned := by
  rcases t.exists_step i c specializer with ⟨p, rs, state, heq, hstep⟩
  rw [heq]
  have hi := (List.getElem?_eq_some_iff.1 hc).1
  have hself : { c with phase := p } ∈ t.callers.set i { c with phase := p } :=
    List.mem_of_getElem? (List.getElem?_set_self hi)
  have hlt := (hcoherent.fits c (List.mem_of_getElem? hc)).registry_lt
  intro r s f hf
  rcases hstep.flying?_cases hlt hf with hold | ⟨-, ⟨rfl, rfl⟩, howns⟩
  · rcases h r s f hold with ⟨d, hd, rfl, rfl, howns⟩
    rcases List.getElem?_of_mem hd with ⟨j, hj⟩
    by_cases hij : i = j
    · subst hij
      rw [hc] at hj
      cases hj
      rcases hstep.owns howns with hstill | hnone
      · exact ⟨_, hself, rfl, rfl, hstill⟩
      · -- The owner has just taken the flight out.
        have hsome : rs.flying? c.registry c.signature = some f := hf
        rw [hnone] at hsome
        cases hsome
    · exact ⟨d, List.mem_of_getElem? ((List.getElem?_set_ne hij).trans hj), rfl, rfl, howns⟩
  · exact ⟨_, hself, rfl, rfl, howns⟩

theorem Manned.next (h : t.Manned) (hcoherent : t.Coherent) (hmoves : t.Moves m t') :
    t'.Manned := by
  cases hmoves with
  | steps hm hc => exact h.step hcoherent hc _
  | @keeps rs hkeeps =>
      intro r s f hf
      have hold : rs.flying? r s = some f := hf
      rw [hkeeps.flying] at hold
      exact h r s f hold
  | arrives hr hnew =>
      intro r s f hf
      rcases h r s f hf with ⟨c, hc, hkey⟩
      exact ⟨c, List.mem_append_left _ hc, hkey⟩

theorem Manned.run (h : t.Manned) (hcoherent : t.Coherent) (ms : List (Move σ)) :
    (t.run ms).Manned := by
  induction ms generalizing t with
  | nil => exact h
  | cons m ms ih => exact ih (h.next hcoherent (t.moves m)) (hcoherent.next (t.moves m))

/-! ## Flights since a caller came -/

/-- A flight for the signature that has not landed, or is still among those under way. -/
def Open (t : Traffic σ) (r : Nat) (s : Signature) (f : Nat) : Prop :=
  (t.registries.flight f).isOver = false ∨ t.registries.flying? r s = some f

/-- In the course of the moves the caller with this number is aboard the flight. -/
def Boards (t : Traffic σ) (ms : List (Move σ)) (i f : Nat) : Prop :=
  ∃ ms₁ ms₂ c, ms = ms₁ ++ ms₂ ∧ (t.run ms₁).callers[i]? = some c ∧ c.phase.aboard? = some f

theorem Boards.append {ms : List (Move σ)} {i f : Nat} (h : t.Boards ms i f)
    (ms' : List (Move σ)) : t.Boards (ms ++ ms') i f := by
  rcases h with ⟨ms₁, ms₂, c, rfl, hc, hf⟩
  exact ⟨ms₁, ms₂ ++ ms', c, List.append_assoc _ _ _, hc, hf⟩

theorem boards_of_aboard {ms : List (Move σ)} {i f : Nat} {c : Caller}
    (hc : (t.run ms).callers[i]? = some c) (hf : c.phase.aboard? = some f) : t.Boards ms i f :=
  ⟨ms, [], c, (List.append_nil _).symm, hc, hf⟩

theorem run_append (t : Traffic σ) (ms ms' : List (Move σ)) :
    t.run (ms ++ ms') = (t.run ms).run ms' :=
  List.foldl_append

/-- No flight that there was is listed anew, and outcomes stay. -/
structure Since (t t' : Traffic σ) : Prop where
  length : t.registries.flights.length ≤ t'.registries.flights.length
  flying : ∀ r s f, f < t.registries.flights.length → t'.registries.flying? r s = some f →
    t.registries.flying? r s = some f
  finished : ∀ f outcome, t.registries.flight f = .finished outcome →
    t'.registries.flight f = .finished outcome

theorem Since.refl (t : Traffic σ) : Since t t where
  length := Nat.le_refl _
  flying := fun _ _ _ _ h => h
  finished := fun _ _ h => h

theorem Since.trans {t'' : Traffic σ} (h : Since t t') (h' : Since t' t'') : Since t t'' where
  length := Nat.le_trans h.length h'.length
  flying := fun r s f hf hlisted =>
    h.flying r s f hf (h'.flying r s f (Nat.lt_of_lt_of_le hf h.length) hlisted)
  finished := fun f outcome hf => h'.finished f outcome (h.finished f outcome hf)

theorem since_move (hcoherent : t.Coherent) (m : Move σ) : Since t (t.move m) := by
  have hmoves := t.moves m
  generalize t.move m = t' at hmoves
  cases hmoves with
  | @steps i c specializer hm hc =>
      have hfits := hcoherent.fits c (List.mem_of_getElem? hc)
      rcases t.exists_step i c specializer with ⟨p, rs, state, heq, hstep⟩
      rw [heq]
      refine ⟨hstep.length_flights, ?_, fun f outcome hf => hstep.finished hfits hf⟩
      intro r s f hlt hf
      rcases hstep.flying?_cases hfits.registry_lt hf with hold | ⟨rfl, -, -⟩
      · exact hold
      · exact absurd hlt (Nat.lt_irrefl _)
  | @keeps rs hkeeps =>
      refine ⟨Nat.le_of_eq (by rw [hkeeps.flights]), ?_, ?_⟩
      · intro r s f hlt hf
        have hold : rs.flying? r s = some f := hf
        rwa [hkeeps.flying] at hold
      · intro f outcome hf
        have hstill := hkeeps.flight f
        rw [hf] at hstill
        exact hstill
  | arrives hr hnew => exact ⟨Nat.le_refl _, fun _ _ _ _ h => h, fun _ _ h => h⟩

/-- What is listed now was open when the caller came. -/
theorem Since.open_of_flying (h : Since t t') {f : Nat}
    (hf : t'.registries.flying? r s = some f) : t.Open r s f := by
  by_cases hlt : f < t.registries.flights.length
  · exact .inr (h.flying r s f hlt hf)
  · -- The flight was not there yet.
    refine .inl ?_
    rw [Registries.flight_of_le (Nat.le_of_not_lt hlt)]
    rfl

/-- The flights that a caller has been aboard since it came, and the one it was failed by. -/
structure Accounted (t : Traffic σ) (ms : List (Move σ)) (i : Nat) (c : Caller) : Prop where
  aboard : ∀ f, c.phase.aboard? = some f → t.Open c.registry c.signature f
  failed : ∀ source, c.phase.failure? = some source → ∃ f, t.Boards ms i f ∧
    t.Open c.registry c.signature f ∧ (t.run ms).registries.flight f = .finished (.error source)

theorem Accounted.move {ms : List (Move σ)} {i : Nat} {c : Caller} (h : t.Accounted ms i c)
    (hcoherent : (t.run ms).Coherent) (m : Move σ) : t.Accounted (ms ++ [m]) i c where
  aboard := h.aboard
  failed := by
    intro source hsource
    rcases h.failed source hsource with ⟨f, hboards, hopen, hfinished⟩
    refine ⟨f, hboards.append [m], hopen, ?_⟩
    rw [run_append]
    exact (since_move hcoherent m).finished f _ hfinished

theorem Accounted.step {ms : List (Move σ)} {i : Nat} {c : Caller} (h : t.Accounted ms i c)
    (hcoherent : (t.run ms).Coherent) (hsince : Since t (t.run ms))
    (hc : (t.run ms).callers[i]? = some c) (specializer : Option (Specializer σ)) :
    ∃ d, (t.run (ms ++ [.steps i specializer])).callers[i]? = some d ∧
      d.registry = c.registry ∧ d.signature = c.signature ∧
      t.Accounted (ms ++ [.steps i specializer]) i d := by
  have hrun : t.run (ms ++ [.steps i specializer]) = (t.run ms).step i c specializer := by
    rw [run_append]
    exact move_steps hc specializer
  have hlater := hsince.trans (since_move hcoherent (.steps i specializer))
  rw [move_steps hc] at hlater
  have hnow := since_move hcoherent (.steps i specializer)
  rw [move_steps hc] at hnow
  have hfits := hcoherent.fits c (List.mem_of_getElem? hc)
  rcases (t.run ms).exists_turn i c specializer with ⟨p, rs, state, heq, hturns⟩
  rw [heq] at hrun hlater hnow
  refine ⟨{ c with phase := p }, ?_, rfl, rfl, ?_, ?_⟩
  · rw [hrun]
    exact List.getElem?_set_self (List.getElem?_eq_some_iff.1 hc).1
  · intro f hf
    rcases hturns.steps.aboard_cases hfits.registry_lt hf with hold | hflying
    · exact h.aboard f hold
    · exact hlater.open_of_flying hflying
  · intro source hsource
    rw [hrun]
    -- The failure is an old one, or that of the flight which the caller was aboard.
    rcases hturns.failure_cases hfits hsource with hold | ⟨f, hf, hfinished⟩
    · rcases h.failed source hold with ⟨f, hboards, hopen, hfinished⟩
      exact ⟨f, hboards.append _, hopen, hnow.finished f _ hfinished⟩
    · exact ⟨f, (boards_of_aboard hc hf).append _, h.aboard f hf, hfinished⟩

theorem Accounted.run {ms : List (Move σ)} {i : Nat} {c : Caller} (h : t.Accounted ms i c)
    (hcoherent : (t.run ms).Coherent) (hsince : Since t (t.run ms))
    (hc : (t.run ms).callers[i]? = some c) (ms' : List (Move σ)) :
    ∃ d, (t.run (ms ++ ms')).callers[i]? = some d ∧ d.registry = c.registry ∧
      d.signature = c.signature ∧ t.Accounted (ms ++ ms') i d := by
  induction ms' generalizing ms c with
  | nil =>
      rw [List.append_nil]
      exact ⟨c, hc, rfl, rfl, h⟩
  | cons m ms' ih =>
      have hrun : t.run (ms ++ [m]) = (t.run ms).move m := run_append t ms [m]
      have hnext : (t.run (ms ++ [m])).Coherent := by
        rw [hrun]
        exact hcoherent.next (moves _ m)
      have hlater : Since t (t.run (ms ++ [m])) := by
        rw [hrun]
        exact hsince.trans (since_move hcoherent m)
      rw [show ms ++ m :: ms' = (ms ++ [m]) ++ ms' by simp]
      -- The caller does not move, or it takes a step.
      rcases caller_move hc m with hstays | ⟨specializer, rfl⟩
      · rw [← hrun] at hstays
        exact ih (h.move hcoherent m) hnext hlater hstays
      · rcases h.step hcoherent hsince hc specializer with ⟨d, hd, hr, hs, haccounted⟩
        rcases ih haccounted hnext hlater hd with ⟨e, he, hr', hs', haccounted'⟩
        exact ⟨e, he, hr'.trans hr, hs'.trans hs, haccounted'⟩

theorem accounted_of_look (t : Traffic σ) (i : Nat) {c : Caller} (hphase : c.phase = .look) :
    t.Accounted [] i c where
  aboard := by
    intro f hf
    rw [hphase] at hf
    cases hf
  failed := by
    intro source hsource
    rw [hphase] at hsource
    cases hsource

/-! ## Whose failure it is -/

/--
A caller that is told of a failure was aboard the flight that failed so.  When the caller came, that
flight had not landed; or it was still listed, and the caller that owned it was still under way.
-/
theorem failure_of_open_flight (state : σ) (ms ms' : List (Move σ)) (r : Nat) (operation : Text)
    (s : Signature) (hr : r < (run { state } ms).registries.registries.length) {c : Caller}
    (hc : (run { state } (ms ++ .arrives r operation s :: ms')).callers[
      (run { state } ms).callers.length]? = some c)
    {operation' : Text} {s' : Signature} {available : List Signature}
    {source : SpecializationError}
    (hdone : c.phase = .done (.error (.unavailable operation' s' available source))) :
    ∃ f, ((run { state } ms).move (.arrives r operation s)).Boards ms'
        (run { state } ms).callers.length f ∧
      (run { state } (ms ++ .arrives r operation s :: ms')).registries.flight f =
        .finished (.error source) ∧
      (((run { state } ms).registries.flight f).isOver = false ∨
        ((run { state } ms).registries.flying? r s = some f ∧
          (run { state } ms).HasOwner r s)) := by
  have hcoherent := (coherent_start state).run ms
  have hmanned := (manned_start state).run (coherent_start state) ms
  have hmove : (run { state } ms).move (.arrives r operation s) = { run { state } ms with
      callers := (run { state } ms).callers ++ [{ registry := r, operation, signature := s }] } :=
    if_pos hr
  have hcaller : ((run { state } ms).move (.arrives r operation s)).callers[
      (run { state } ms).callers.length]? = some { registry := r, operation, signature := s } := by
    rw [hmove]
    exact List.getElem?_concat_length
  have hrun : run { state } (ms ++ .arrives r operation s :: ms') =
      ((run { state } ms).move (.arrives r operation s)).run ms' := run_append _ _ _
  rw [hrun] at hc ⊢
  have hnew := accounted_of_look ((run { state } ms).move (.arrives r operation s))
    (run { state } ms).callers.length (c := { registry := r, operation, signature := s }) rfl
  have harrived := hcoherent.next (moves _ (.arrives r operation s))
  rcases hnew.run harrived (Since.refl _) hcaller ms' with
    ⟨d, hd, hregistry, hsignature, haccounted⟩
  rw [List.nil_append] at hd haccounted
  rw [hc] at hd
  cases hd
  rcases haccounted.failed source (by rw [hdone]; rfl) with ⟨f, hboards, hopen, hfinished⟩
  refine ⟨f, hboards, hfinished, ?_⟩
  rw [hregistry, hsignature, hmove] at hopen
  rcases hopen with hunder | hflying
  · exact .inl hunder
  · exact .inr ⟨hflying, hmanned r s f hflying⟩

/-- The caller that joined the flight runs it and is told of the failure. -/
def failedJoiner : List (Move Unit) :=
  let fails : Option (Specializer Unit) := none
  let arrives : Move Unit := .arrives 0 ['f'] [['b']]
  [.opens ⟨['f'], [], .value⟩, arrives, arrives, .steps 0 none, .steps 1 none, .steps 0 none,
    .steps 1 none, .steps 1 none, .steps 1 fails, .steps 1 none]

/-- A third caller comes then, before the owner has gone on, and finds the flight. -/
def lateComer : List (Move Unit) := [.steps 2 none, .steps 2 none, .steps 2 none, .steps 2 none]

/-- The third caller is told of a failure that was over when it came; nothing was tried for it. -/
theorem failure_handed_on :
    ((run { state := () } failedJoiner).callers.map Caller.answer? =
        [none, some (.error (.unavailable ['f'] [['b']] [] .noSpecializer))] ∧
      history (run { state := () } failedJoiner) (.arrives 0 ['f'] [['b']] :: lateComer) = []) ∧
    ¬∀ (ms ms' : List (Move Unit)) (r : Nat) (operation : Text) (s : Signature) (c : Caller)
      (operation' : Text) (s' : Signature) (available : List Signature)
      (source : SpecializationError), r < (run { state := () } ms).registries.registries.length →
      (run { state := () } (ms ++ .arrives r operation s :: ms')).callers[
        (run { state := () } ms).callers.length]? = some c →
      c.phase = .done (.error (.unavailable operation' s' available source)) →
      ∃ f, (run { state := () } (ms ++ .arrives r operation s :: ms')).registries.flight f =
          .finished (.error source) ∧
        ((run { state := () } ms).registries.flight f).isOver = false := by
  refine ⟨by decide +kernel, ?_⟩
  intro hclaim
  have hlength : (run { state := () } failedJoiner).callers.length = 2 := by decide +kernel
  have hregistry : 0 < (run { state := () } failedJoiner).registries.registries.length := by
    decide +kernel
  rcases hc : (run { state := () }
    (failedJoiner ++ .arrives 0 ['f'] [['b']] :: lateComer)).callers[2]? with _ | c
  · exact absurd hc (by decide +kernel)
  · have hanswer : c.answer? = some (.error (.unavailable ['f'] [['b']] [] .noSpecializer)) := by
      have hall : ((run { state := () }
          (failedJoiner ++ .arrives 0 ['f'] [['b']] :: lateComer)).callers[2]?).bind
            Caller.answer? = some (.error (.unavailable ['f'] [['b']] [] .noSpecializer)) := by
        decide +kernel
      rwa [hc] at hall
    rcases hclaim failedJoiner lateComer 0 ['f'] [['b']] c _ _ _ _ hregistry
      (by rw [hlength]; exact hc) (Caller.phase_of_answer? hanswer) with ⟨f, hfinished, hopen⟩
    -- There is but one flight, which was over when the third caller came.
    cases f with
    | zero => exact absurd hopen (by decide +kernel)
    | succ f =>
        have hflights : (run { state := () }
            (failedJoiner ++ .arrives 0 ['f'] [['b']] :: lateComer)).registries.flights.length =
              1 := by
          decide +kernel
        rw [Registries.flight_of_le (by omega)] at hfinished
        cases hfinished

/-- The failure that the third caller is told of is that of the first flight, which has an owner. -/
theorem failure_of_open_flight_lateComer :
    ∃ c f, (run { state := () } (failedJoiner ++ .arrives 0 ['f'] [['b']] :: lateComer)).callers[
        (run { state := () } failedJoiner).callers.length]? = some c ∧
      (run { state := () } (failedJoiner ++ .arrives 0 ['f'] [['b']] :: lateComer)).registries.flight
        f = .finished (.error .noSpecializer) ∧
      (((run { state := () } failedJoiner).registries.flight f).isOver = false ∨
        ((run { state := () } failedJoiner).registries.flying? 0 [['b']] = some f ∧
          (run { state := () } failedJoiner).HasOwner 0 [['b']])) := by
  have hregistry : 0 < (run { state := () } failedJoiner).registries.registries.length := by
    decide +kernel
  have hanswer : ((run { state := () }
      (failedJoiner ++ .arrives 0 ['f'] [['b']] :: lateComer)).callers[
        (run { state := () } failedJoiner).callers.length]?).bind Caller.answer? =
      some (.error (.unavailable ['f'] [['b']] [] .noSpecializer)) := by
    decide +kernel
  rcases Option.bind_eq_some_iff.1 hanswer with ⟨c, hc, hc'⟩
  rcases failure_of_open_flight () failedJoiner lateComer 0 ['f'] [['b']] hregistry hc
    (Caller.phase_of_answer? hc') with ⟨f, -, hfinished, hopen⟩
  exact ⟨c, f, hc, hfinished, hopen⟩

end Traffic
end OnDemand
