import OnDemand.Proofs.Dispatch.Interleaving

/-!
# How callers and flights hang together

The caller that runs a flight need not be the one that takes it out of those under way, and the
flight may land long before it is taken out.  What holds between any two steps, in whichever order
callers take them, is `Traffic.Coherent`: each caller fits the flights (`Caller.Fits`), and no two
callers are in each other's way (`Caller.Apart`).
-/

namespace OnDemand

/-- Whether the outcome is there. -/
def Flight.isOver : Flight → Bool
  | .finished _ => true
  | _ => false

namespace Registries

/-- Every flight under way has begun to exist. -/
def Numbered (rs : Registries) : Prop :=
  ∀ r s f, rs.flying? r s = some f → f < rs.flights.length

/-- No flight is under way for two signatures. -/
def Distinct (rs : Registries) : Prop :=
  ∀ r s r' s' f, rs.flying? r s = some f → rs.flying? r' s' = some f → r = r' ∧ s = s'

end Registries

namespace Caller

/-- What a caller's phase says about the flights. -/
structure Fits (rs : Registries) (c : Caller) : Prop where
  registry_lt : c.registry < rs.registries.length
  flight_lt : ∀ f, c.phase.aboard? = some f → f < rs.flights.length
  /-- A flight that has not landed is the one under way for the caller's signature. -/
  flying : ∀ f, c.phase.aboard? = some f → (rs.flight f).isOver = false →
    rs.flying? c.registry c.signature = some f
  running : ∀ f, c.phase.aboard? = some f → c.phase.atWork = true → rs.flight f = .running
  /-- What the owner will take out is the flight that it is aboard or one that has landed. -/
  owner : c.phase.owns = true → ∃ f, rs.flying? c.registry c.signature = some f ∧
    (c.phase.aboard? = some f ∨ (rs.flight f).isOver = true)

/-- Two callers do not run the same flight, nor own the flight for the same signature. -/
structure Apart (c d : Caller) : Prop where
  runners : c.phase.atWork = true → d.phase.atWork = true → c.phase.aboard? ≠ d.phase.aboard?
  owners : c.phase.owns = true → d.phase.owns = true →
    ¬(c.registry = d.registry ∧ c.signature = d.signature)

theorem Apart.symm {c d : Caller} (h : c.Apart d) : d.Apart c where
  runners := fun hd hc heq => h.runners hc hd heq.symm
  owners := fun hd hc hkey => h.owners hc hd ⟨hkey.1.symm, hkey.2.symm⟩

section Effects

variable {c d : Caller} {rs rs' : Registries} {p : Phase} {r f : Nat} {s : Signature}

/-! ## What operations do to the callers that fit -/

theorem fits_of_grounded (hr : c.registry < rs.registries.length) (hc : c.phase.Grounded) :
    c.Fits rs where
  registry_lt := hr
  flight_lt := by simp [hc.1]
  flying := by simp [hc.1]
  running := by simp [hc.1]
  owner := by simp [hc.2]

/-- A caller may come aboard the flight under way for its signature, be it its own or not. -/
theorem fits_board {owner : Bool} (hr : c.registry < rs.registries.length)
    (hf : f < rs.flights.length) (hflying : rs.flying? c.registry c.signature = some f) :
    Fits rs { c with phase := .board f owner } where
  registry_lt := hr
  flight_lt := by
    intro g hg
    cases hg
    exact hf
  flying := by
    intro g hg hopen
    cases hg
    exact hflying
  running := by
    intro g hg hwork
    cases hwork
  owner := fun _ => ⟨f, hflying, .inl rfl⟩

/-- A caller with an outcome still has to take out a flight that has landed, if it owns one. -/
theorem fits_withOutcome {owner : Bool} {outcome : Outcome}
    (hr : c.registry < rs.registries.length)
    (howner : owner = true → ∃ f, rs.flying? c.registry c.signature = some f ∧
      (rs.flight f).isOver = true) :
    Fits rs { c with phase := withOutcome owner outcome } where
  registry_lt := hr
  flight_lt := by simp [aboard?_withOutcome]
  flying := by simp [aboard?_withOutcome]
  running := by simp [aboard?_withOutcome]
  owner := by
    intro howns
    rw [owns_withOutcome] at howns
    rcases howner howns with ⟨f, hflying, hover⟩
    exact ⟨f, hflying, .inr hover⟩

theorem Fits.keeps (h : d.Fits rs) (hkeeps : rs.Keeps rs') : d.Fits rs' where
  registry_lt := Nat.lt_of_lt_of_le h.registry_lt hkeeps.length
  flight_lt := by
    rw [hkeeps.flights]
    exact h.flight_lt
  flying := by
    intro f hf hopen
    rw [hkeeps.flight] at hopen
    rw [hkeeps.flying]
    exact h.flying f hf hopen
  running := by
    intro f hf hwork
    rw [hkeeps.flight]
    exact h.running f hf hwork
  owner := by
    intro howns
    rcases h.owner howns with ⟨f, hflying, hf⟩
    refine ⟨f, ?_, ?_⟩
    · rw [hkeeps.flying]
      exact hflying
    · rw [hkeeps.flight]
      exact hf

theorem Fits.launched (h : d.Fits rs) (hnumbered : rs.Numbered) (hr : r < rs.registries.length)
    (hnone : rs.flying? r s = none) : d.Fits (rs.launched r s) := by
  -- Nobody who has a flight under way has it for this signature.
  have hother : ∀ f, rs.flying? d.registry d.signature = some f →
      (rs.launched r s).flying? d.registry d.signature = some f := by
    intro f hflying
    rw [Registries.flying?_launched hr]
    split
    next hkey =>
        rw [hkey.1, hkey.2, hnone] at hflying
        cases hflying
    next => exact hflying
  have hlength := Registries.length_flights_launched rs r s
  refine ⟨?_, ?_, ?_, ?_, ?_⟩
  · rw [Registries.length_registries_launched]
    exact h.registry_lt
  · intro f hf
    have hlt := h.flight_lt f hf
    omega
  · intro f hf hopen
    rw [Registries.flight_launched (h.flight_lt f hf)] at hopen
    exact hother f (h.flying f hf hopen)
  · intro f hf hwork
    rw [Registries.flight_launched (h.flight_lt f hf)]
    exact h.running f hf hwork
  · intro howns
    rcases h.owner howns with ⟨f, hflying, hf⟩
    refine ⟨f, hother f hflying, ?_⟩
    rwa [Registries.flight_launched (hnumbered _ _ f hflying)]

theorem Fits.begun (h : d.Fits rs) (hf : f < rs.flights.length) (hidle : rs.flight f = .idle) :
    d.Fits (rs.setFlight f .running) := by
  -- A flight that begins was not over before, and is not over now.
  have hover : ∀ g, ((rs.setFlight f .running).flight g).isOver = (rs.flight g).isOver := by
    intro g
    rw [Registries.flight_setFlight hf]
    split
    next hg =>
        rw [hg, hidle]
        rfl
    next => rfl
  refine ⟨h.registry_lt, ?_, ?_, ?_, ?_⟩
  · rw [Registries.length_setFlight]
    exact h.flight_lt
  · intro g hg hopen
    rw [hover] at hopen
    exact h.flying g hg hopen
  · intro g hg hwork
    rw [Registries.flight_setFlight hf]
    split
    next => rfl
    next => exact h.running g hg hwork
  · intro howns
    rcases h.owner howns with ⟨g, hflying, hg⟩
    refine ⟨g, hflying, ?_⟩
    rwa [hover]

theorem Fits.landed (h : d.Fits rs) (hf : f < rs.flights.length) (outcome : Outcome)
    (hidle : d.phase.atWork = true → d.phase.aboard? ≠ some f) :
    d.Fits (rs.setFlight f (.finished outcome)) := by
  have hover : ∀ g, (rs.flight g).isOver = true →
      ((rs.setFlight f (.finished outcome)).flight g).isOver = true := by
    intro g hg
    rw [Registries.flight_setFlight hf]
    split
    next => rfl
    next => exact hg
  refine ⟨h.registry_lt, ?_, ?_, ?_, ?_⟩
  · rw [Registries.length_setFlight]
    exact h.flight_lt
  · intro g hg hopen
    refine h.flying g hg ?_
    -- A flight that is not over now was not over before.
    cases hnow : (rs.flight g).isOver with
    | false => rfl
    | true =>
        rw [hover g hnow] at hopen
        cases hopen
  · intro g hg hwork
    have hne : g ≠ f := by
      intro heq
      rw [heq] at hg
      exact hidle hwork hg
    rw [Registries.flight_setFlight hf, if_neg hne]
    exact h.running g hg hwork
  · intro howns
    rcases h.owner howns with ⟨g, hflying, hg⟩
    exact ⟨g, hflying, hg.imp_right (hover g)⟩

theorem Fits.left (h : d.Fits rs) (hflying : rs.flying? r s = some f)
    (hover : (rs.flight f).isOver = true)
    (howns : d.phase.owns = true → ¬(d.registry = r ∧ d.signature = s)) :
    d.Fits (rs.leave r s) := by
  refine ⟨?_, h.flight_lt, ?_, h.running, ?_⟩
  · rw [Registries.length_leave]
    exact h.registry_lt
  · intro g hg hopen
    have hg' := h.flying g hg hopen
    rw [Registries.flying?_leave]
    split
    next hkey =>
        -- The flight that is taken out has landed, so it is not `g`.
        rw [hkey.1, hkey.2, hflying] at hg'
        cases hg'
        have hopen' : (rs.flight f).isOver = false := hopen
        rw [hover] at hopen'
        cases hopen'
    next => exact hg'
  · intro hd
    rcases h.owner hd with ⟨g, hg⟩
    refine ⟨g, ?_⟩
    rw [Registries.flying?_leave, if_neg (howns hd)]
    exact hg

end Effects

/-! ## What a step does to the callers that fit -/

section Step

variable {c d : Caller} {rs rs' : Registries} {p : Phase}

/-- A caller whose flight is in the air does not meet another flight for its signature. -/
theorem Fits.flight_unique (hc : c.Fits rs) (hd : d.Fits rs)
    (hkey : c.registry = d.registry ∧ c.signature = d.signature) {f g : Nat}
    (hf : c.phase.aboard? = some f) (hopen : (rs.flight f).isOver = false)
    (hg : d.phase.aboard? = some g) (hopen' : (rs.flight g).isOver = false) : f = g := by
  have hcf := hc.flying f hf hopen
  have hdg := hd.flying g hg hopen'
  rw [hkey.1, hkey.2, hdg] at hcf
  exact (Option.some.inj hcf).symm

theorem Fits.step (h : c.Fits rs) (hnumbered : rs.Numbered) (hstep : c.Steps rs p rs') :
    Fits rs' { c with phase := p } := by
  cases hstep with
  | aside hstart hp hkeeps =>
      exact fits_of_grounded (Nat.lt_of_lt_of_le h.registry_lt hkeeps.length) hp
  | @joins f hphase habsent hflying =>
      exact fits_board h.registry_lt (hnumbered _ _ f hflying) hflying
  | launches hphase habsent hnone =>
      refine fits_board ?_ ?_ ?_
      · rw [Registries.length_registries_launched]
        exact h.registry_lt
      · rw [Registries.length_flights_launched]
        exact Nat.lt_succ_self _
      · rw [Registries.flying?_launched h.registry_lt, if_pos ⟨rfl, rfl⟩]
  | @begins f owner hphase hidle =>
      have hf : c.phase.aboard? = some f := by rw [hphase]; rfl
      have howner : c.phase.owns = owner := by rw [hphase]; rfl
      have hlt := h.flight_lt f hf
      -- All is as before, except that the flight is under way now.
      have hbegun := h.begun hlt hidle
      refine ⟨hbegun.registry_lt, ?_, ?_, ?_, ?_⟩
      · intro g hg
        exact hbegun.flight_lt g (hf.trans hg)
      · intro g hg hopen
        exact hbegun.flying g (hf.trans hg) hopen
      · intro g hg hwork
        cases hg
        rw [Registries.flight_setFlight hlt, if_pos rfl]
      · intro howns
        rcases hbegun.owner (howner.trans howns) with ⟨g, hflying, hg⟩
        exact ⟨g, hflying, hg.imp_left hf.symm.trans⟩
  | waits hphase hrunning =>
      rw [← hphase]
      exact h
  | @shares f owner outcome hphase hfinished =>
      refine fits_withOutcome h.registry_lt ?_
      intro howns
      rcases h.owner (by rw [hphase]; exact howns) with ⟨g, hflying, hg⟩
      refine ⟨g, hflying, ?_⟩
      -- Either way, the flight that the owner has to take out has landed.
      rcases hg with hg | hover
      · rw [hphase] at hg
        cases hg
        rw [hfinished]
        rfl
      · exact hover
  | @returns f owner outcome rs₁ hphase hkeeps =>
      have h' := h.keeps hkeeps
      have hlt : f < rs₁.flights.length := h'.flight_lt f (by rw [hphase]; rfl)
      refine fits_withOutcome h'.registry_lt ?_
      intro howns
      rcases h'.owner (by rw [hphase]; exact howns) with ⟨g, hflying, hg⟩
      refine ⟨g, hflying, ?_⟩
      rw [Registries.flight_setFlight hlt]
      split
      next => rfl
      next hne =>
          rcases hg with hg | hover
          · rw [hphase] at hg
            cases hg
            exact absurd rfl hne
          · exact hover
  | leaves hphase =>
      refine fits_of_grounded ?_ ⟨rfl, rfl⟩
      rw [Registries.length_leave]
      exact h.registry_lt

/-- A step of one caller does not get in the way of another. -/
theorem Fits.step_other (hd : d.Fits rs) (hc : c.Fits rs) (hapart : c.Apart d)
    (hnumbered : rs.Numbered) (hstep : c.Steps rs p rs') : d.Fits rs' := by
  cases hstep with
  | aside hstart hp hkeeps => exact hd.keeps hkeeps
  | joins hphase habsent hflying => exact hd
  | launches hphase habsent hnone => exact hd.launched hnumbered hc.registry_lt hnone
  | @begins f owner hphase hidle =>
      have hf : c.phase.aboard? = some f := by rw [hphase]; rfl
      exact hd.begun (hc.flight_lt f hf) hidle
  | waits hphase hrunning => exact hd
  | shares hphase hfinished => exact hd
  | @returns f owner outcome rs₁ hphase hkeeps =>
      have hf : c.phase.aboard? = some f := by rw [hphase]; rfl
      refine (hd.keeps hkeeps).landed ((hc.keeps hkeeps).flight_lt f hf) outcome ?_
      intro hwork heq
      exact hapart.runners (by rw [hphase]; rfl) hwork (hf.trans heq.symm)
  | leaves hphase =>
      -- The owner takes out its own flight, which has landed, and no other caller's.
      have howns : c.phase.owns = true := by rw [hphase]; rfl
      rcases hc.owner howns with ⟨f, hflying, hf⟩
      have hover : (rs.flight f).isOver = true := by
        rcases hf with hf | hover
        · rw [hphase] at hf
          cases hf
        · exact hover
      refine hd.left hflying hover ?_
      intro hown' hkey
      exact hapart.owners howns hown' ⟨hkey.1.symm, hkey.2.symm⟩

theorem Apart.step (h : c.Apart d) (hd : d.Fits rs) (hstep : c.Steps rs p rs') :
    Apart { c with phase := p } d := by
  cases hstep with
  | aside hstart hp hkeeps =>
      refine ⟨?_, ?_⟩
      · intro hwork
        exact absurd hwork hp.not_atWork
      · intro howns
        have hnot : p.owns = true := howns
        rw [hp.2] at hnot
        cases hnot
  -- A caller that comes aboard is neither at work nor the owner of its flight.
  | joins hphase habsent hflying =>
      refine ⟨?_, ?_⟩
      · intro hwork
        cases hwork
      · intro howns
        cases howns
  | launches hphase habsent hnone =>
      refine ⟨?_, ?_⟩
      · intro hwork
        cases hwork
      · -- Another owner would have a flight under way for the signature.
        intro howns howns' hkey
        rcases hd.owner howns' with ⟨g, hflying, hg⟩
        rw [← hkey.1, ← hkey.2, hnone] at hflying
        cases hflying
  | @begins f owner hphase hidle =>
      refine ⟨?_, ?_⟩
      · -- The flight of another runner is not idle.
        intro hwork hwork' heq
        have hrunning := hd.running f heq.symm hwork'
        rw [hidle] at hrunning
        cases hrunning
      · intro howns
        exact h.owners (by rw [hphase]; exact howns)
  | waits hphase hrunning =>
      rw [← hphase]
      exact h
  -- From here on the caller runs nothing, and owns its flight if it did before.
  | @shares f owner outcome hphase hfinished =>
      refine ⟨?_, ?_⟩
      · intro hwork
        exact absurd hwork (not_atWork_withOutcome owner outcome)
      · intro howns
        rw [owns_withOutcome] at howns
        exact h.owners (by rw [hphase]; exact howns)
  | @returns f owner outcome rs₁ hphase hkeeps =>
      refine ⟨?_, ?_⟩
      · intro hwork
        exact absurd hwork (not_atWork_withOutcome owner outcome)
      · intro howns
        rw [owns_withOutcome] at howns
        exact h.owners (by rw [hphase]; exact howns)
  | leaves hphase =>
      refine ⟨?_, ?_⟩
      · intro hwork
        cases hwork
      · intro howns
        cases howns

theorem numbered_step (hnumbered : rs.Numbered) (hc : c.Fits rs) (hstep : c.Steps rs p rs') :
    rs'.Numbered := by
  intro r s g hg
  cases hstep with
  | aside hstart hp hkeeps =>
      rw [hkeeps.flying] at hg
      rw [hkeeps.flights]
      exact hnumbered r s g hg
  | launches hphase habsent hnone =>
      rw [Registries.length_flights_launched]
      rw [Registries.flying?_launched hc.registry_lt] at hg
      split at hg
      next =>
          cases hg
          exact Nat.lt_succ_self _
      next => exact Nat.lt_succ_of_lt (hnumbered r s g hg)
  | @returns f owner outcome rs₁ hphase hkeeps =>
      have hg' : rs₁.flying? r s = some g := hg
      rw [hkeeps.flying] at hg'
      rw [Registries.length_setFlight, hkeeps.flights]
      exact hnumbered r s g hg'
  | begins hphase hidle =>
      rw [Registries.length_setFlight]
      exact hnumbered r s g hg
  | leaves hphase =>
      rw [Registries.flying?_leave] at hg
      split at hg
      next => cases hg
      next => exact hnumbered r s g hg
  | joins hphase habsent hflying => exact hnumbered r s g hg
  | waits hphase hrunning => exact hnumbered r s g hg
  | shares hphase hfinished => exact hnumbered r s g hg

end Step

/-! ## Which flights are under way, and which are over -/

section Outcomes

variable {σ : Type} {specializer : Option (Specializer σ)} {c : Caller} {rs rs' : Registries}
  {state state' : σ} {p : Phase} {r f : Nat} {s : Signature} {outcome : Outcome}

/-- A flight is under way after a step that was so before, or the step has launched it. -/
theorem Steps.flying?_cases (hstep : c.Steps rs p rs') (hc : c.registry < rs.registries.length)
    (hf : rs'.flying? r s = some f) :
    rs.flying? r s = some f ∨
      (f = rs.flights.length ∧ (r = c.registry ∧ s = c.signature) ∧ p.owns = true) := by
  cases hstep with
  | aside hstart hp hkeeps =>
      rw [hkeeps.flying] at hf
      exact .inl hf
  -- A flight that is listed now was listed before, or has been launched in the step.
  | launches hphase habsent hnone =>
      rw [Registries.flying?_launched hc] at hf
      split at hf
      next hkey => exact .inr ⟨(Option.some.inj hf).symm, hkey, rfl⟩
      next => exact .inl hf
  | @returns g owner outcome rs₁ hphase hkeeps =>
      have hf' : rs₁.flying? r s = some f := hf
      rw [hkeeps.flying] at hf'
      exact .inl hf'
  | leaves hphase =>
      rw [Registries.flying?_leave] at hf
      split at hf
      next => cases hf
      next => exact .inl hf
  | joins hphase habsent hflying => exact .inl hf
  | begins hphase hidle => exact .inl hf
  | waits hphase hrunning => exact .inl hf
  | shares hphase hfinished => exact .inl hf

theorem Steps.distinct (hstep : c.Steps rs p rs') (hc : c.Fits rs) (hnumbered : rs.Numbered)
    (h : rs.Distinct) : rs'.Distinct := by
  intro r s r' s' f hf hf'
  rcases hstep.flying?_cases hc.registry_lt hf with hold | ⟨rfl, hkey, -⟩
  · rcases hstep.flying?_cases hc.registry_lt hf' with hold' | ⟨rfl, hkey', -⟩
    · exact h r s r' s' f hold hold'
    · exact absurd (hnumbered _ _ _ hold) (Nat.lt_irrefl _)
  · rcases hstep.flying?_cases hc.registry_lt hf' with hold' | ⟨-, hkey', -⟩
    · exact absurd (hnumbered _ _ _ hold') (Nat.lt_irrefl _)
    · exact ⟨hkey.1.trans hkey'.1.symm, hkey.2.trans hkey'.2.symm⟩

/-- The outcome of a flight was there before the step, or it is what the specializer came to. -/
theorem Turns.finished_cases (h : c.Turns specializer rs state p rs' state') (hc : c.Fits rs)
    (hf : rs'.flight f = .finished outcome) :
    rs.flight f = .finished outcome ∨
      ∃ owner, c.phase = .running f owner ∧
        (Catalogue.specialize specializer ⟨(rs.registry c.registry).name, c.signature⟩ rs
          state).2.1 = outcome := by
  cases h with
  | launches hphase habsent hnone =>
      -- A flight that has been launched now is idle, and the numbers beyond it are free.
      rcases Nat.lt_trichotomy f rs.flights.length with hlt | heq | hgt
      · rw [Registries.flight_launched hlt] at hf
        exact .inl hf
      · rw [heq, Registries.flight_launched_self] at hf
        cases hf
      · have hle : (rs.launched c.registry c.signature).flights.length ≤ f := by
          rw [Registries.length_flights_launched]
          exact hgt
        rw [Registries.flight_of_le hle] at hf
        cases hf
  | @begins g owner hphase hidle =>
      rw [Registries.flight_setFlight (hc.flight_lt g (by rw [hphase]; rfl))] at hf
      split at hf
      next => cases hf
      next => exact .inl hf
  | @returns g owner rs₁ outcome' state' hphase hattempt =>
      have hkeeps := Registries.keeps_specialize specializer
        ⟨(rs.registry c.registry).name, c.signature⟩ rs state
      rw [hattempt] at hkeeps
      have hg := (hc.keeps hkeeps).flight_lt g (by rw [hphase]; rfl)
      rw [Registries.flight_setFlight hg] at hf
      split at hf
      next heq =>
          cases hf
          refine .inr ⟨owner, ?_, ?_⟩
          · rw [hphase, heq]
          · rw [hattempt]
      next =>
          rw [hkeeps.flight] at hf
          exact .inl hf
  | hits | misses | overtaken | joins | waits | shares | leaves | fails | finds | lacks | rests =>
      exact .inl hf

end Outcomes
end Caller

/-! ## Runs -/

namespace Traffic

variable {σ : Type} {t : Traffic σ}

/-- What holds whenever no caller is within a step. -/
structure Coherent (t : Traffic σ) : Prop where
  numbered : t.registries.Numbered
  fits : ∀ c ∈ t.callers, c.Fits t.registries
  apart : ∀ (i j : Nat) (c d : Caller),
    i ≠ j → t.callers[i]? = some c → t.callers[j]? = some d → c.Apart d

theorem coherent_start (state : σ) : Coherent { state } where
  numbered := by
    intro r s f hf
    simp [Registries.flying?, Registries.registry, Table.get?] at hf
  fits := by
    intro c hc
    cases hc
  apart := by
    intro i j c d hij hc
    cases hc

theorem Coherent.step (h : t.Coherent) {i : Nat} {c : Caller} (hc : t.callers[i]? = some c)
    (specializer : Option (Specializer σ)) : (t.step i c specializer).Coherent := by
  rcases t.exists_step i c specializer with ⟨p, rs, state, heq, hstep⟩
  rw [heq]
  have hfits := h.fits c (List.mem_of_getElem? hc)
  refine ⟨Caller.numbered_step h.numbered hfits hstep, ?_, ?_⟩
  · intro d hd
    rcases List.getElem?_of_mem hd with ⟨j, hj⟩
    rcases getElem?_set_cases hj with ⟨-, rfl⟩ | ⟨hji, hd⟩
    · exact hfits.step h.numbered hstep
    · exact (h.fits d (List.mem_of_getElem? hd)).step_other hfits
        (h.apart i j c d (Ne.symm hji) hc hd) h.numbered hstep
  · -- Either of the two may be the caller that took the step.
    have hself : ∀ j d, j ≠ i → t.callers[j]? = some d → Caller.Apart { c with phase := p } d := by
      intro j d hji hd
      exact (h.apart i j c d (Ne.symm hji) hc hd).step
        (h.fits d (List.mem_of_getElem? hd)) hstep
    intro j k d e hjk hd he
    rcases getElem?_set_cases hd with ⟨rfl, rfl⟩ | ⟨hji, hdj⟩
    · rcases getElem?_set_cases he with ⟨rfl, -⟩ | ⟨hkj, hek⟩
      · exact absurd rfl hjk
      · exact hself k e hkj hek
    · rcases getElem?_set_cases he with ⟨rfl, rfl⟩ | ⟨hki, hek⟩
      · exact (hself j d hji hdj).symm
      · exact h.apart j k d e hjk hdj hek

/-- What leaves the flights alone leaves the callers as they are. -/
theorem Coherent.keeps (h : t.Coherent) {rs : Registries} (hkeeps : t.registries.Keeps rs) :
    Coherent { t with registries := rs } where
  numbered := by
    intro r s f hf
    have hf' : rs.flying? r s = some f := hf
    rw [hkeeps.flying] at hf'
    have hlt := h.numbered r s f hf'
    rwa [← hkeeps.flights] at hlt
  fits := fun c hc => (h.fits c hc).keeps hkeeps
  apart := h.apart

/-- A caller that has just arrived has nothing to do with any flight. -/
theorem Coherent.arrives (h : t.Coherent) {c : Caller}
    (hr : c.registry < t.registries.registries.length) (hc : c.phase.Grounded) :
    Coherent { t with callers := t.callers ++ [c] } := by
  -- A caller that has only come meets nobody.
  have hnew : ∀ d : Caller, c.Apart d := by
    intro d
    refine ⟨fun hwork => absurd hwork hc.not_atWork, fun howns => ?_⟩
    rw [hc.2] at howns
    cases howns
  refine ⟨h.numbered, ?_, ?_⟩
  · intro d hd
    rcases List.mem_append.1 hd with hd | hd
    · exact h.fits d hd
    · rw [List.mem_singleton.1 hd]
      exact Caller.fits_of_grounded hr hc
  · intro i j d e hij hd he
    rw [List.getElem?_append] at hd he
    split at hd
    next =>
        split at he
        next => exact h.apart i j d e hij hd he
        next =>
            rw [List.mem_singleton.1 (List.mem_of_getElem? he)]
            exact (hnew d).symm
    next =>
        rw [List.mem_singleton.1 (List.mem_of_getElem? hd)]
        exact hnew e

theorem Coherent.next (h : t.Coherent) {m : Move σ} {t' : Traffic σ} (hmoves : t.Moves m t') :
    t'.Coherent := by
  cases hmoves with
  | steps hm hc => exact h.step hc _
  | keeps hkeeps => exact h.keeps hkeeps
  | arrives hr hc => exact h.arrives hr hc

theorem Coherent.run (h : t.Coherent) (ms : List (Move σ)) : (t.run ms).Coherent := by
  induction ms generalizing t with
  | nil => exact h
  | cons m ms ih => exact ih (h.next (t.moves m))

end Traffic
end OnDemand
