import OnDemand.Proofs.Dispatch.Flights

/-!
# One attempt at a time

Whatever the order in which callers take their steps, the specializer is never at work on the same
signature of a registry twice at once, and once it has left the signature present it is not asked
for it again.
-/

namespace OnDemand

/-! ## What a step does to flights and entries -/

namespace Caller

variable {c : Caller} {rs rs' : Registries} {p : Phase} {r : Nat} {s : Signature}

theorem Steps.present (hstep : c.Steps rs p rs') (h : rs.present r s = true) :
    rs'.present r s = true := by
  cases hstep with
  | aside hstart hp hkeeps => exact hkeeps.present r s h
  | launches hphase habsent hnone =>
      rw [Registries.present_launched]
      exact h
  | returns hphase hkeeps => exact hkeeps.present r s h
  | leaves hphase =>
      rw [Registries.present_leave]
      exact h
  | joins hphase habsent hflying => exact h
  | begins hphase hidle => exact h
  | waits hphase hrunning => exact h
  | shares hphase hfinished => exact h

/-- A flight that somebody has begun does not become idle again. -/
theorem Steps.flight_ne_idle (hstep : c.Steps rs p rs') (hc : c.Fits rs) {f : Nat}
    (hf : f < rs.flights.length) (h : rs.flight f ≠ .idle) : rs'.flight f ≠ .idle := by
  cases hstep with
  | aside hstart hp hkeeps =>
      rw [hkeeps.flight]
      exact h
  | launches hphase habsent hnone =>
      rw [Registries.flight_launched hf]
      exact h
  -- A flight that begins, or has come to its end, is not idle.
  | @begins g owner hphase hidle =>
      have hg := hc.flight_lt g (by rw [hphase]; rfl)
      rw [Registries.flight_setFlight hg]
      split
      next =>
          intro heq
          cases heq
      next => exact h
  | @returns g owner outcome rs₁ hphase hkeeps =>
      have hg := (hc.keeps hkeeps).flight_lt g (by rw [hphase]; rfl)
      rw [Registries.flight_setFlight hg, hkeeps.flight]
      split
      next =>
          intro heq
          cases heq
      next => exact h
  | leaves hphase => exact h
  | joins hphase habsent hflying => exact h
  | waits hphase hrunning => exact h
  | shares hphase hfinished => exact h

/-- A caller does not come aboard an idle flight for an entry that is there. -/
theorem Steps.boarded_ne_idle (hstep : c.Steps rs p rs') (hc : c.Fits rs)
    (hpresent : rs.present c.registry c.signature = true)
    {f : Nat} (hf : p.aboard? = some f) : rs'.flight f ≠ .idle := by
  cases hstep with
  | aside hstart hp hkeeps =>
      rw [hp.1] at hf
      cases hf
  -- With an entry there, nobody joins a flight or launches one.
  | joins hphase habsent hflying =>
      rw [hpresent] at habsent
      cases habsent
  | launches hphase habsent hnone =>
      rw [hpresent] at habsent
      cases habsent
  | @begins g owner hphase hidle =>
      cases hf
      rw [Registries.flight_setFlight (hc.flight_lt f (by rw [hphase]; rfl)), if_pos rfl]
      intro heq
      cases heq
  | waits hphase hrunning =>
      cases hf
      rw [hrunning]
      intro heq
      cases heq
  | shares hphase hfinished =>
      rw [aboard?_withOutcome] at hf
      cases hf
  | returns hphase hkeeps =>
      rw [aboard?_withOutcome] at hf
      cases hf
  | leaves hphase => cases hf

/-- The specializer is done in one step. -/
theorem Steps.aboard?_of_running (hstep : c.Steps rs p rs') {f : Nat} {owner : Bool}
    (hphase : c.phase = .running f owner) : p.aboard? = none := by
  cases hstep with
  | aside hstart hp hkeeps => exact hp.1
  | shares hphase' hfinished => exact aboard?_withOutcome _ _
  | returns hphase' hkeeps => exact aboard?_withOutcome _ _
  | leaves hphase' => rfl
  | joins hphase' | launches hphase' | begins hphase' | waits hphase' =>
      rw [hphase] at hphase'
      cases hphase'

end Caller

namespace Traffic

variable {σ : Type} {t t' : Traffic σ} {m : Move σ} {r : Nat} {s : Signature}

/-! ## What signals stand for -/

theorem exists_of_starts (h : t.signal? m = some (.starts r s)) :
    ∃ i c specializer f owner, m = .steps i specializer ∧ t.callers[i]? = some c ∧
      c.phase = .board f owner ∧ t.registries.flight f = .idle ∧ c.registry = r ∧
      c.signature = s := by
  unfold signal? at h
  split at h
  next i specializer =>
      split at h
      next c hc =>
          unfold signalOf at h
          split at h
          next f owner hphase =>
              split at h
              next hidle =>
                  cases h
                  exact ⟨i, c, specializer, f, owner, rfl, hc, hphase, hidle, rfl, rfl⟩
              next => cases h
          next => cases h
          next => cases h
      next => cases h
  next => cases h

theorem exists_of_returns {b : Bool} (h : t.signal? m = some (.returns r s b)) :
    ∃ i c specializer f owner, m = .steps i specializer ∧ t.callers[i]? = some c ∧
      c.phase = .running f owner ∧ c.registry = r ∧ c.signature = s ∧
      (t.step i c specializer).registries.present r s = b := by
  unfold signal? at h
  split at h
  next i specializer =>
      split at h
      next c hc =>
          unfold signalOf at h
          split at h
          next f owner hphase =>
              split at h
              next => cases h
              next => cases h
          next f owner hphase =>
              cases h
              exact ⟨i, c, specializer, f, owner, rfl, hc, hphase, rfl, rfl, rfl⟩
          next => cases h
      next => cases h
  next => cases h

theorem move_steps {i : Nat} {c : Caller} (hc : t.callers[i]? = some c)
    (specializer : Option (Specializer σ)) :
    t.move (.steps i specializer) = t.step i c specializer := by
  simp [move, hc]

/-! ## The specializer at work -/

/-- Only one caller at a time has the specializer at work on a signature of a registry. -/
theorem Coherent.eq_of_atWork (h : t.Coherent) {i j : Nat} {c d : Caller}
    (hc : t.callers[i]? = some c) (hd : t.callers[j]? = some d)
    (hkey : c.registry = d.registry ∧ c.signature = d.signature)
    (hworkc : c.phase.atWork = true) (hworkd : d.phase.atWork = true) : i = j := by
  refine Decidable.byContradiction ?_
  intro hij
  have hcfits := h.fits c (List.mem_of_getElem? hc)
  have hdfits := h.fits d (List.mem_of_getElem? hd)
  rcases Phase.exists_aboard?_of_atWork hworkc with ⟨f, hf⟩
  rcases Phase.exists_aboard?_of_atWork hworkd with ⟨g, hg⟩
  -- Both flights are in the air for the same signature, so there is but one.
  have hfg : f = g := by
    refine hcfits.flight_unique hdfits hkey hf ?_ hg ?_
    · rw [hcfits.running f hf hworkc]
      rfl
    · rw [hdfits.running g hg hworkd]
      rfl
  refine (h.apart i j c d hij hc hd).runners hworkc hworkd ?_
  rw [hf, hg, hfg]

/-- When the specializer is asked for a signature, it is not at work on it. -/
theorem Coherent.not_atWork_of_starts (h : t.Coherent) (hm : t.signal? m = some (.starts r s)) :
    ¬t.AtWork r s := by
  rintro ⟨d, hd, hwork, hregistry, hsignature⟩
  rcases exists_of_starts hm with ⟨i, c, specializer, f, owner, rfl, hc, hphase, hidle, rfl, rfl⟩
  have hcfits := h.fits c (List.mem_of_getElem? hc)
  have hdfits := h.fits d hd
  rcases Phase.exists_aboard?_of_atWork hwork with ⟨g, hg⟩
  have hrunning := hdfits.running g hg hwork
  -- Both are aboard flights in the air for the same signature, but one is idle and one is not.
  have hfg : f = g := by
    refine hcfits.flight_unique hdfits ⟨hregistry.symm, hsignature.symm⟩
      (by rw [hphase]; rfl) ?_ hg ?_
    · rw [hidle]
      rfl
    · rw [hrunning]
      rfl
  rw [← hfg, hidle] at hrunning
  cases hrunning

theorem atWork_of_starts (hm : t.signal? m = some (.starts r s)) : (t.move m).AtWork r s := by
  rcases exists_of_starts hm with ⟨i, c, specializer, f, owner, rfl, hc, hphase, hidle, rfl, rfl⟩
  have heq : t.step i c specializer = ⟨t.callers.set i { c with phase := .running f owner },
      t.registries.setFlight f .running, t.state⟩ := by
    simp [step, Caller.step, hphase, hidle]
  rw [move_steps hc, heq]
  have hi : i < t.callers.length := (List.getElem?_eq_some_iff.1 hc).1
  exact ⟨_, List.mem_of_getElem? (List.getElem?_set_self hi), rfl, rfl, rfl⟩

/-- The specializer is at work until it is done. -/
theorem AtWork.move (h : t.AtWork r s) (hm : ∀ b, t.signal? m ≠ some (.returns r s b)) :
    (t.move m).AtWork r s := by
  rcases h with ⟨d, hd, hwork, hregistry, hsignature⟩
  have hmoves := t.moves m
  generalize t.move m = t' at hmoves
  cases hmoves with
  | keeps hkeeps => exact ⟨d, hd, hwork, hregistry, hsignature⟩
  | arrives hr hc => exact ⟨d, List.mem_append_left _ hd, hwork, hregistry, hsignature⟩
  | @steps i c specializer hm' hc =>
      rcases List.getElem?_of_mem hd with ⟨j, hj⟩
      by_cases hij : i = j
      · -- The caller's own step would be the end of it.
        exfalso
        subst hij
        rw [hj] at hc
        cases hc
        cases hphase : d.phase with
        | running f owner =>
            refine hm ((t.step i d specializer).registries.present r s) ?_
            rw [hm']
            simp [signal?, signalOf, hj, hphase, hregistry, hsignature]
        | _ =>
            rw [hphase] at hwork
            cases hwork
      · rcases t.exists_step i c specializer with ⟨p, rs, state, heq, hstep⟩
        rw [heq]
        refine ⟨d, List.mem_of_getElem? ((List.getElem?_set_ne hij).trans hj), hwork, hregistry,
          hsignature⟩

/-- While the specializer is at work, it is done before it is asked again. -/
theorem AtWork.exists_returns (h : t.AtWork r s) (hcoherent : t.Coherent) {ms : List (Move σ)}
    {between after : List Signal} (hms : t.history ms = between ++ .starts r s :: after) :
    ∃ b, .returns r s b ∈ between := by
  induction ms generalizing t between with
  | nil => simp [history] at hms
  | cons m ms ih =>
      have hnext := hcoherent.next (t.moves m)
      cases hsignal : t.signal? m with
      | none =>
          rw [history_of_none hsignal] at hms
          refine ih (h.move ?_) hnext hms
          intro b hb
          rw [hsignal] at hb
          cases hb
      | some x =>
          rw [history_of_some hsignal] at hms
          cases between with
          | nil =>
              -- The request would come while the specializer is at work.
              cases hms
              exact absurd h (hcoherent.not_atWork_of_starts hsignal)
          | cons y between =>
              by_cases hreturns : ∃ b, x = .returns r s b
              · rcases hreturns with ⟨b, hb⟩
                rw [← List.head_eq_of_cons_eq hms, hb]
                exact ⟨b, List.mem_cons_self⟩
              · have hwork : (t.move m).AtWork r s := by
                  refine h.move ?_
                  intro b hb
                  rw [hsignal] at hb
                  exact hreturns ⟨b, Option.some.inj hb⟩
                rcases ih hwork hnext (List.tail_eq_of_cons_eq hms) with ⟨b, hb⟩
                exact ⟨b, List.mem_cons_of_mem _ hb⟩

/-! ## Signatures that are settled -/

/-- There is an entry, and nobody is aboard a flight for it that is yet to begin. -/
def Settled (t : Traffic σ) (r : Nat) (s : Signature) : Prop :=
  t.registries.present r s = true ∧
    ∀ c ∈ t.callers, c.registry = r ∧ c.signature = s → ∀ f, c.phase.aboard? = some f →
      t.registries.flight f ≠ .idle

theorem Settled.not_starts (h : t.Settled r s) : t.signal? m ≠ some (.starts r s) := by
  intro hm
  rcases exists_of_starts hm with ⟨i, c, specializer, f, owner, rfl, hc, hphase, hidle, hr, hs⟩
  refine h.2 c (List.mem_of_getElem? hc) ⟨hr, hs⟩ f ?_ hidle
  rw [hphase]
  rfl

theorem Settled.step (h : t.Settled r s) (hcoherent : t.Coherent) {i : Nat} {c : Caller}
    (hc : t.callers[i]? = some c) (specializer : Option (Specializer σ)) :
    (t.step i c specializer).Settled r s := by
  rcases t.exists_step i c specializer with ⟨p, rs, state, heq, hstep⟩
  rw [heq]
  have hfits := hcoherent.fits c (List.mem_of_getElem? hc)
  refine ⟨hstep.present h.1, ?_⟩
  intro d hd hkey f hf
  rcases List.getElem?_of_mem hd with ⟨j, hj⟩
  rcases getElem?_set_cases hj with ⟨-, rfl⟩ | ⟨-, hdj⟩
  · -- The caller that took the step would have found the entry.
    refine hstep.boarded_ne_idle hfits ?_ hf
    have hpresent := h.1
    rw [← hkey.1, ← hkey.2] at hpresent
    exact hpresent
  · have hold := List.mem_of_getElem? hdj
    exact hstep.flight_ne_idle hfits ((hcoherent.fits d hold).flight_lt f hf)
      (h.2 d hold hkey f hf)

theorem Settled.next (h : t.Settled r s) (hcoherent : t.Coherent) (hmoves : t.Moves m t') :
    t'.Settled r s := by
  cases hmoves with
  | steps hm hc => exact h.step hcoherent hc _
  | @keeps rs hkeeps =>
      refine ⟨hkeeps.present r s h.1, ?_⟩
      intro c hc hkey f hf
      have hidle : rs.flight f ≠ .idle := by
        rw [hkeeps.flight]
        exact h.2 c hc hkey f hf
      exact hidle
  | arrives hr hnew =>
      refine ⟨h.1, ?_⟩
      intro c hc hkey f hf
      rcases List.mem_append.1 hc with hc | hc
      · exact h.2 c hc hkey f hf
      · rw [List.mem_singleton.1 hc, hnew.1] at hf
        cases hf

/-- The specializer is not asked for what is settled. -/
theorem Settled.notMem_history (h : t.Settled r s) (hcoherent : t.Coherent)
    (ms : List (Move σ)) : .starts r s ∉ t.history ms := by
  induction ms generalizing t with
  | nil => exact List.not_mem_nil
  | cons m ms ih =>
      have hrest := ih (h.next hcoherent (t.moves m)) (hcoherent.next (t.moves m))
      intro hmem
      rw [history, List.mem_append] at hmem
      rcases hmem with hnow | hlater
      · exact h.not_starts (Option.mem_toList.1 hnow)
      · exact hrest hlater

/-- What the specializer leaves present is settled. -/
theorem Coherent.settled_of_returns (h : t.Coherent)
    (hm : t.signal? m = some (.returns r s true)) : (t.move m).Settled r s := by
  rcases exists_of_returns hm with ⟨i, c, specializer, f, owner, rfl, hc, hphase, rfl, rfl, hthere⟩
  rw [move_steps hc]
  refine ⟨hthere, ?_⟩
  rcases t.exists_step i c specializer with ⟨p, rs, state, heq, hstep⟩
  have hfits := h.fits c (List.mem_of_getElem? hc)
  have hf : c.phase.aboard? = some f := by rw [hphase]; rfl
  have hrunning := hfits.running f hf (by rw [hphase]; rfl)
  rw [heq]
  intro d hd hkey g hg
  rcases List.getElem?_of_mem hd with ⟨j, hj⟩
  rcases getElem?_set_cases hj with ⟨-, rfl⟩ | ⟨-, hdj⟩
  · -- The caller on whose behalf the specializer was at work has left the flight.
    have hnone : p.aboard? = none := hstep.aboard?_of_running hphase
    have hsome : p.aboard? = some g := hg
    rw [hnone] at hsome
    cases hsome
  · have hold := List.mem_of_getElem? hdj
    have hdfits := h.fits d hold
    refine hstep.flight_ne_idle hfits (hdfits.flight_lt g hg) ?_
    -- An idle flight for the signature would be the flight that has just landed.
    intro hidle
    have hfg : f = g := by
      refine hfits.flight_unique hdfits ⟨hkey.1.symm, hkey.2.symm⟩ hf ?_ hg ?_
      · rw [hrunning]
        rfl
      · rw [hidle]
        rfl
    rw [hfg, hidle] at hrunning
    cases hrunning

/-! ## Single flight -/

/--
In a run that begins with an empty catalogue, at most one caller at a time has the specializer at
work on a signature of a registry; between two requests for the signature the specializer is done
with it; and once it is done and the signature is present, there are no more requests.
-/
theorem single_flight (state : σ) (ms : List (Move σ)) (r : Nat) (s : Signature) :
    (∀ (i j : Nat) (c d : Caller),
      (run { state } ms).callers[i]? = some c → (run { state } ms).callers[j]? = some d →
      (c.registry = r ∧ c.signature = s) → (d.registry = r ∧ d.signature = s) →
      c.phase.atWork = true → d.phase.atWork = true → i = j) ∧
    (∀ before between after,
      history { state } ms = before ++ .starts r s :: (between ++ .starts r s :: after) →
      ∃ b, .returns r s b ∈ between) ∧
    (∀ before after,
      history { state } ms = before ++ .returns r s true :: after → .starts r s ∉ after) := by
  have hstart := coherent_start state
  refine ⟨?_, ?_, ?_⟩
  · intro i j c d hc hd hckey hdkey
    exact (hstart.run ms).eq_of_atWork hc hd
      ⟨hckey.1.trans hdkey.1.symm, hckey.2.trans hdkey.2.symm⟩
  · intro before between after hms
    rcases exists_move_of_history hms with ⟨ms₁, m, ms₂, rfl, hm, hrest⟩
    have hcoherent := (hstart.run ms₁).next (moves _ m)
    exact (atWork_of_starts hm).exists_returns hcoherent hrest
  · intro before after hms
    rcases exists_move_of_history hms with ⟨ms₁, m, ms₂, rfl, hm, hrest⟩
    have hcoherent := hstart.run ms₁
    rw [← hrest]
    exact (hcoherent.settled_of_returns hm).notMem_history (hcoherent.next (moves _ m)) ms₂

/--
The caller that joined the flight runs it and gets nothing.  A third caller still finds the flight
among those under way; a fourth has another attempt, and a fifth finds the entry.
-/
def secondAttempt : List (Move Unit) :=
  let s : Signature := [['b']]
  let fails : Option (Specializer Unit) := none
  let inserts : Option (Specializer Unit) := some fun request _ _ =>
    ⟨[⟨request.operation, request.signature, ⟨1, Nat.one_ne_zero⟩⟩], .ok (), ()⟩
  let arrives : Move Unit := .arrives 0 ['f'] s
  [.opens ⟨['f'], [], .value⟩, arrives, arrives,
    .steps 0 none, .steps 1 none, .steps 0 none, .steps 1 none,
    .steps 1 none, .steps 0 none, .steps 1 fails, .steps 0 none,
    arrives, .steps 2 none, .steps 2 none, .steps 2 none, .steps 0 none,
    arrives, .steps 3 none, .steps 3 none, .steps 3 none, .steps 3 inserts, .steps 3 none,
    arrives, .steps 4 none, .steps 4 none]

/-- The two attempts come one after the other. -/
theorem single_flight_secondAttempt :
    history { state := () } secondAttempt =
        [.starts 0 [['b']], .returns 0 [['b']] false, .starts 0 [['b']],
          .returns 0 [['b']] true] ∧
      (∃ b, .returns 0 [['b']] b ∈ [Signal.returns 0 [['b']] false]) ∧
      .starts 0 [['b']] ∉ ([] : List Signal) := by
  have hhistory : history { state := () } secondAttempt =
      [.starts 0 [['b']], .returns 0 [['b']] false, .starts 0 [['b']],
        .returns 0 [['b']] true] := by
    decide +kernel
  have hflight := single_flight () secondAttempt 0 [['b']]
  refine ⟨hhistory, ?_, ?_⟩
  · exact hflight.2.1 [] [.returns 0 [['b']] false] [.returns 0 [['b']] true] hhistory
  · exact hflight.2.2
      [.starts 0 [['b']], .returns 0 [['b']] false, .starts 0 [['b']]] [] hhistory

end Traffic
end OnDemand
