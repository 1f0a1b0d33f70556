import OnDemand.Proofs.Dispatch.Records

/-!
# What callers are answered

An entry that a caller is given has been inserted before for what the caller looked up, and a caller
that comes when the entry is there is given one without further ado.  As long as specializers that
report success leave the entry that they were asked for, no caller is told of an internal error:
whoever takes part in a flight that has succeeded finds the entry there, whoever ran the flight and
whoever owns it (`Traffic.Filled`).
-/

namespace OnDemand

/-! ## Flights that have succeeded -/

/-- The caller has the outcome of a flight, which is a success. -/
def Phase.succeeded : Phase → Bool
  | .leave (.ok ()) | .landed (.ok ()) => true
  | _ => false

namespace Caller

variable {σ : Type} {specializer : Option (Specializer σ)} {c d : Caller} {rs rs' : Registries}
  {state state' : σ} {p : Phase}

theorem succeeded_withOutcome {owner : Bool} {outcome : Outcome}
    (h : (withOutcome owner outcome).succeeded = true) : outcome = .ok () := by
  cases outcome with
  | ok done => rfl
  | error source => cases owner <;> cases h

/-- Where a caller is concerned with a success, there is an entry. -/
structure Served (rs : Registries) (c : Caller) : Prop where
  aboard : ∀ f, c.phase.aboard? = some f → rs.flight f = .finished (.ok ()) →
    rs.present c.registry c.signature = true
  succeeded : c.phase.succeeded = true → rs.present c.registry c.signature = true
  answer : ∀ operation s, c.phase ≠ .done (.error (.registrationInvariant operation s))

/-- A phase that has to do with no flight, and with no success either. -/
theorem served_of_plain (haboard : c.phase.aboard? = none) (hsucceeded : c.phase.succeeded = false)
    (hanswer : ∀ operation s, c.phase ≠ .done (.error (.registrationInvariant operation s))) :
    c.Served rs where
  aboard := by
    intro f hf
    cases haboard.symm.trans hf
  succeeded := by
    intro h
    cases hsucceeded.symm.trans h
  answer := hanswer

theorem served_of_look (hphase : c.phase = .look) : c.Served rs := by
  refine served_of_plain ?_ ?_ ?_
  · rw [hphase]
    rfl
  · rw [hphase]
    rfl
  · intro operation s heq
    cases hphase.symm.trans heq

theorem served_of_board {f : Nat} {owner : Bool}
    (hphase : c.phase = .board f owner ∨ c.phase = .running f owner)
    (hflight : rs.flight f = .finished (.ok ()) → rs.present c.registry c.signature = true) :
    c.Served rs where
  aboard := by
    intro g hg hover
    have hfg : c.phase.aboard? = some f := by rcases hphase with h | h <;> rw [h] <;> rfl
    cases hfg.symm.trans hg
    exact hflight hover
  succeeded := by
    intro h
    rcases hphase with hp | hp <;> rw [hp] at h <;> cases h
  answer := by
    intro operation s heq
    rcases hphase with hp | hp <;> cases hp.symm.trans heq

theorem served_of_withOutcome (owner : Bool) (outcome : Outcome)
    (hphase : c.phase = withOutcome owner outcome)
    (hpresent : outcome = .ok () → rs.present c.registry c.signature = true) : c.Served rs where
  aboard := by
    intro f hf
    rw [hphase, aboard?_withOutcome] at hf
    cases hf
  succeeded := fun h => hpresent (succeeded_withOutcome (by rwa [hphase] at h))
  answer := by
    intro operation s heq
    rw [hphase] at heq
    cases owner <;> cases heq

theorem Served.keeps (h : c.Served rs) (hkeeps : rs.Keeps rs') : c.Served rs' where
  aboard := by
    intro f hf hover
    rw [hkeeps.flight] at hover
    exact hkeeps.present _ _ (h.aboard f hf hover)
  succeeded := fun hp => hkeeps.present _ _ (h.succeeded hp)
  answer := h.answer

/-- The caller that takes a step is served as before, if the specializer leaves what it promises. -/
theorem Served.step (h : c.Served rs)
    (hlisted : ∀ f, rs.flying? c.registry c.signature = some f →
      rs.flight f = .finished (.ok ()) → rs.present c.registry c.signature = true)
    (hc : c.Fits rs) (hturns : c.Turns specializer rs state p rs' state')
    (hdelivers : ∀ f owner, c.phase = .running f owner →
      (Catalogue.specialize specializer ⟨(rs.registry c.registry).name, c.signature⟩ rs
        state).2.1 = .ok () → rs'.present c.registry c.signature = true) :
    Served rs' { c with phase := p } := by
  cases hturns with
  | hits hphase hentry => exact served_of_plain rfl rfl (fun _ _ heq => by cases heq)
  | misses hphase hentry => exact served_of_plain rfl rfl (fun _ _ heq => by cases heq)
  | overtaken hphase hpresent => exact served_of_withOutcome false (.ok ()) rfl fun _ => hpresent
  | @joins f hphase habsent hflying => exact served_of_board (.inl rfl) (hlisted f hflying)
  | launches hphase habsent hnone =>
      refine served_of_board (.inl rfl) ?_
      rw [Registries.flight_launched_self]
      intro hover
      cases hover
  | @begins f owner hphase hidle =>
      refine served_of_board (.inr rfl) ?_
      rw [Registries.flight_setFlight (hc.flight_lt f (by rw [hphase]; rfl)), if_pos rfl]
      intro hover
      cases hover
  | @waits f owner hphase hrunning =>
      refine served_of_board (.inl rfl) ?_
      rw [hrunning]
      intro hover
      cases hover
  | @shares f owner outcome hphase hfinished =>
      refine served_of_withOutcome owner outcome rfl ?_
      rintro rfl
      exact h.aboard f (by rw [hphase]; rfl) hfinished
  | @returns f owner rs₁ outcome state' hphase hattempt =>
      refine served_of_withOutcome owner outcome rfl ?_
      rintro rfl
      exact hdelivers f owner hphase (by rw [hattempt])
  | @leaves outcome hphase =>
      refine served_of_withOutcome false outcome rfl ?_
      rintro rfl
      rw [Registries.present_leave]
      exact h.succeeded (by rw [hphase]; rfl)
  | fails hphase => exact served_of_plain rfl rfl (fun _ _ heq => by cases heq)
  | finds hphase hentry => exact served_of_plain rfl rfl (fun _ _ heq => by cases heq)
  | lacks hphase hentry =>
      have hpresent := h.succeeded (by rw [hphase]; rfl)
      rw [Registries.present, hentry] at hpresent
      cases hpresent
  | @rests answer hphase =>
      exact served_of_plain rfl rfl fun operation s heq => h.answer operation s (hphase.trans heq)

/-- A flight that succeeds is one for the signature that it was run for. -/
theorem Served.step_other (hd : d.Served rs) (hdfits : d.Fits rs) (hc : c.Fits rs)
    (hdistinct : rs.Distinct) (hturns : c.Turns specializer rs state p rs' state')
    (hdelivers : ∀ f owner, c.phase = .running f owner →
      (Catalogue.specialize specializer ⟨(rs.registry c.registry).name, c.signature⟩ rs
        state).2.1 = .ok () → rs'.present c.registry c.signature = true) : d.Served rs' where
  aboard := by
    intro f hf hover
    rcases hturns.finished_cases hc hover with hold | ⟨owner, hphase, hok⟩
    · exact hturns.steps.present (hd.aboard f hf hold)
    · have haboard : c.phase.aboard? = some f := by rw [hphase]; rfl
      have hopen : (rs.flight f).isOver = false := by
        rw [hc.running f haboard (by rw [hphase]; rfl)]
        rfl
      rcases hdistinct _ _ _ _ f (hc.flying f haboard hopen) (hdfits.flying f hf hopen) with
        ⟨hr, hs⟩
      rw [← hr, ← hs]
      exact hdelivers f owner hphase hok
  succeeded := fun hp => hturns.steps.present (hd.succeeded hp)
  answer := hd.answer

end Caller

namespace Traffic

variable {σ : Type} {t t' : Traffic σ} {m : Move σ}

/-- Whether the specializer, if it reports success in the step of a caller, has left an entry. -/
def deliversTo (t : Traffic σ) (i : Nat) (c : Caller) (specializer : Option (Specializer σ)) :
    Bool :=
  match c.phase, (Catalogue.specialize specializer
    ⟨(t.registries.registry c.registry).name, c.signature⟩ t.registries t.state).2.1 with
  | .running .., .ok () => (t.step i c specializer).registries.present c.registry c.signature
  | _, _ => true

/-- Whether the specializer leaves an entry if it reports success in the move. -/
def delivers (t : Traffic σ) : Move σ → Bool
  | .steps i specializer =>
    match t.callers[i]? with
    | some c => t.deliversTo i c specializer
    | none => true
  | _ => true

/-- Whether in each of the moves the specializer leaves an entry if it reports success. -/
def deliversAll (t : Traffic σ) : List (Move σ) → Bool
  | [] => true
  | m :: ms => t.delivers m && (t.move m).deliversAll ms

theorem present_of_deliversTo {i : Nat} {c : Caller} {specializer : Option (Specializer σ)}
    (h : t.deliversTo i c specializer = true) {f : Nat} {owner : Bool}
    (hphase : c.phase = .running f owner)
    (hok : (Catalogue.specialize specializer
      ⟨(t.registries.registry c.registry).name, c.signature⟩ t.registries t.state).2.1 = .ok ()) :
    (t.step i c specializer).registries.present c.registry c.signature = true := by
  simpa only [deliversTo, hphase, hok] using h

/-- Where there has been a success, there is an entry. -/
structure Filled (t : Traffic σ) : Prop where
  distinct : t.registries.Distinct
  listed : ∀ r s f, t.registries.flying? r s = some f →
    t.registries.flight f = .finished (.ok ()) → t.registries.present r s = true
  served : ∀ c ∈ t.callers, c.Served t.registries

theorem filled_start (state : σ) : Filled { state } where
  distinct := by
    intro r s r' s' f hf
    simp [Registries.flying?, Registries.registry, Table.get?] at hf
  listed := by
    intro r s f hf
    simp [Registries.flying?, Registries.registry, Table.get?] at hf
  served := by
    intro c hc
    cases hc

theorem Filled.step (h : t.Filled) (hcoherent : t.Coherent) {i : Nat} {c : Caller}
    (hc : t.callers[i]? = some c) (specializer : Option (Specializer σ))
    (hdelivers : t.deliversTo i c specializer = true) : (t.step i c specializer).Filled := by
  have hleft : ∀ f owner, c.phase = .running f owner →
      (Catalogue.specialize specializer ⟨(t.registries.registry c.registry).name, c.signature⟩
        t.registries t.state).2.1 = .ok () →
      (t.step i c specializer).registries.present c.registry c.signature = true :=
    fun f owner => present_of_deliversTo hdelivers
  rcases t.exists_turn i c specializer with ⟨p, rs, state, heq, hturns⟩
  rw [heq] at hleft ⊢
  have hmem := List.mem_of_getElem? hc
  have hfits := hcoherent.fits c hmem
  refine ⟨hturns.steps.distinct hfits hcoherent.numbered h.distinct, ?_, ?_⟩
  · intro r s f hf hover
    rcases hturns.steps.flying?_cases hfits.registry_lt hf with hold | ⟨rfl, -, -⟩
    · rcases hturns.finished_cases hfits hover with hover' | ⟨owner, hphase, hok⟩
      · exact hturns.steps.present (h.listed r s f hold hover')
      · -- The flight that has just succeeded is the caller's, so it is for the same signature.
        have haboard : c.phase.aboard? = some f := by rw [hphase]; rfl
        have hopen : (t.registries.flight f).isOver = false := by
          rw [hfits.running f haboard (by rw [hphase]; rfl)]
          rfl
        rcases h.distinct _ _ _ _ f (hfits.flying f haboard hopen) hold with ⟨rfl, rfl⟩
        exact hleft f owner hphase hok
    · -- A flight that has just been launched has not succeeded yet.
      rcases hturns.finished_cases hfits hover with hover' | ⟨owner, hphase, -⟩
      · rw [Registries.flight_of_le (Nat.le_refl _)] at hover'
        cases hover'
      · exact absurd (hfits.flight_lt _ (by rw [hphase]; rfl)) (Nat.lt_irrefl _)
  · intro d hd
    rcases List.getElem?_of_mem hd with ⟨j, hj⟩
    rcases getElem?_set_cases hj with ⟨-, rfl⟩ | ⟨-, hdj⟩
    · exact (h.served c hmem).step (h.listed _ _) hfits hturns hleft
    · have hold := List.mem_of_getElem? hdj
      exact (h.served d hold).step_other (hcoherent.fits d hold) hfits h.distinct hturns hleft

theorem Filled.keeps (h : t.Filled) {rs : Registries} (hkeeps : t.registries.Keeps rs) :
    Filled { t with registries := rs } where
  distinct := by
    intro r s r' s' f hf hf'
    have hold : rs.flying? r s = some f := hf
    have hold' : rs.flying? r' s' = some f := hf'
    rw [hkeeps.flying] at hold hold'
    exact h.distinct r s r' s' f hold hold'
  listed := by
    intro r s f hf hover
    have hold : rs.flying? r s = some f := hf
    have hover' : rs.flight f = .finished (.ok ()) := hover
    rw [hkeeps.flying] at hold
    rw [hkeeps.flight] at hover'
    exact hkeeps.present r s (h.listed r s f hold hover')
  served := fun c hc => (h.served c hc).keeps hkeeps

theorem Filled.next (h : t.Filled) (hcoherent : t.Coherent) (hdelivers : t.delivers m = true) :
    (t.move m).Filled := by
  cases m with
  | arrives registry operation signature =>
      rcases t.move_arrives_cases registry operation signature with ⟨-, heq⟩ | ⟨-, heq⟩
      · rw [heq]
        refine ⟨h.distinct, h.listed, ?_⟩
        intro c hc
        rcases List.mem_append.1 hc with hold | hnew
        · exact h.served c hold
        · rw [List.mem_singleton.1 hnew]
          exact Caller.served_of_look rfl
      · rw [heq]
        exact h
  | steps i specializer =>
      cases hc : t.callers[i]? with
      | some c =>
          rw [move_steps hc]
          exact h.step hcoherent hc specializer (by simpa [delivers, hc] using hdelivers)
      | none =>
          have hstays : t.move (.steps i specializer) = t := by simp [move, hc]
          rw [hstays]
          exact h
  | opens operation => exact h.keeps (Registries.keeps_registryOf _ operation)
  | looks registry signature => exact h.keeps (Registries.keeps_look _ registry signature)
  | stores registry signature entry =>
      exact h.keeps (Registries.keeps_store _ registry signature entry)
  | inserts operation signature entry =>
      exact h.keeps (Registries.keeps_insert _ operation signature entry)

theorem Filled.run (h : t.Filled) (hcoherent : t.Coherent) {ms : List (Move σ)}
    (hdelivers : t.deliversAll ms = true) : (t.run ms).Filled := by
  induction ms generalizing t with
  | nil => exact h
  | cons m ms ih =>
      rw [deliversAll, Bool.and_eq_true] at hdelivers
      exact ih (h.next hcoherent hdelivers.1) (hcoherent.next (t.moves m)) hdelivers.2

/-! ## Callers that find the entry there -/

theorem present_move {r : Nat} {s : Signature} (h : t.registries.present r s = true)
    (m : Move σ) : (t.move m).registries.present r s = true := by
  have hmoves := t.moves m
  generalize t.move m = t' at hmoves
  cases hmoves with
  | keeps hkeeps => exact hkeeps.present r s h
  | arrives hr hnew => exact h
  | @steps i c specializer hm hc =>
      rcases t.exists_step i c specializer with ⟨p, rs, state, heq, hstep⟩
      rw [heq]
      exact hstep.present h

theorem present_run {r : Nat} {s : Signature} (h : t.registries.present r s = true)
    (ms : List (Move σ)) : (t.run ms).registries.present r s = true := by
  induction ms generalizing t with
  | nil => exact h
  | cons m ms ih => exact ih (present_move h m)

/-- The caller with this number is about to look for an entry that is there, or has been given it. -/
structure Quick (t : Traffic σ) (i : Nat) (r : Nat) (s : Signature) : Prop where
  present : t.registries.present r s = true
  caller : ∃ c, t.callers[i]? = some c ∧ c.registry = r ∧ c.signature = s ∧
    (c.phase = .look ∨ ∃ entry, c.phase = .done (.ok entry))

variable {i r : Nat} {s : Signature}

/-- The caller's own step gives it the entry. -/
theorem Quick.answered (h : t.Quick i r s) (specializer : Option (Specializer σ)) :
    ∃ c entry, (t.move (.steps i specializer)).callers[i]? = some c ∧ c.registry = r ∧
      c.signature = s ∧ c.phase = .done (.ok entry) := by
  rcases h.caller with ⟨c, hc, rfl, rfl, hphase⟩
  rcases caller_step hc specializer with ⟨p, rs, state, hp, hturns⟩
  rcases hphase with hlook | ⟨entry, hdone⟩
  · rcases hturns.done_of_present hlook h.present with ⟨entry, rfl⟩
    exact ⟨_, entry, hp, rfl, rfl, rfl⟩
  · exact ⟨_, entry, hp, rfl, rfl, hturns.eq_of_done hdone⟩

theorem Quick.next (h : t.Quick i r s) (m : Move σ) : (t.move m).Quick i r s := by
  refine ⟨present_move h.present m, ?_⟩
  rcases h.caller with ⟨c, hc, hr, hs, hphase⟩
  rcases caller_move hc m with hstays | ⟨specializer, rfl⟩
  · exact ⟨c, hstays, hr, hs, hphase⟩
  · rcases h.answered specializer with ⟨c', entry, hc', hr', hs', hdone⟩
    exact ⟨c', hc', hr', hs', .inr ⟨entry, hdone⟩⟩

theorem Quick.run (h : t.Quick i r s) (ms : List (Move σ)) : (t.run ms).Quick i r s := by
  induction ms generalizing t with
  | nil => exact h
  | cons m ms ih => exact ih (h.next m)

theorem Quick.signal?_eq_none (h : t.Quick i r s) (specializer : Option (Specializer σ)) :
    t.signal? (.steps i specializer) = none := by
  rcases h.caller with ⟨c, hc, -, -, hphase⟩
  rcases hphase with hlook | ⟨entry, hdone⟩
  · simp [signal?, signalOf, hc, hlook]
  · simp [signal?, signalOf, hc, hdone]

theorem quick_of_arrives (h : t.registries.present r s = true) (operation : Text) :
    (t.move (.arrives r operation s)).Quick t.callers.length r s := by
  have hr := Registries.lt_of_present h
  rw [show t.move (.arrives r operation s) = _ from if_pos hr]
  exact ⟨h, _, List.getElem?_concat_length, rfl, rfl, .inl rfl⟩

/--
The caller with this number, which looks up the signature, has been given an entry or will be in its
next step, and in none of its steps is the specializer asked.
-/
structure AnsweredAtOnce (t : Traffic σ) (i : Nat) (r : Nat) (s : Signature) : Prop where
  caller : ∃ c, t.callers[i]? = some c ∧ c.registry = r ∧ c.signature = s ∧
    (c.phase = .look ∨ ∃ entry, c.phase = .done (.ok entry))
  quiet : ∀ specializer, t.signal? (.steps i specializer) = none
  answer : ∀ specializer, ∃ c entry,
    (t.move (.steps i specializer)).callers[i]? = some c ∧ c.phase = .done (.ok entry)

theorem Quick.answeredAtOnce (h : t.Quick i r s) : t.AnsweredAtOnce i r s where
  caller := h.caller
  quiet := h.signal?_eq_none
  answer := by
    intro specializer
    rcases h.answered specializer with ⟨c, entry, hc, -, -, hdone⟩
    exact ⟨c, entry, hc, hdone⟩

/-! ## Answers -/

/--
In a run that begins with an empty catalogue, no caller is told of an internal error if specializers
leave what they report; every entry that a caller is given or that a mere look-up finds has been
inserted for that very operation and signature; and once a signature is present, mere look-ups find
it, and a caller that comes is given an entry in one step, without asking the specializer.
-/
theorem answers_are_insertions (state : σ) (ms : List (Move σ)) :
    (deliversAll { state } ms = true → ∀ c ∈ (run { state } ms).callers, ∀ operation s,
      c.phase ≠ .done (.error (.registrationInvariant operation s))) ∧
    (∀ c ∈ (run { state } ms).callers, ∀ entry, c.phase = .done (.ok entry) →
      ⟨((run { state } ms).registries.registry c.registry).name, c.signature, entry⟩ ∈
        inserted { state } ms) ∧
    (∀ r s entry, ((run { state } ms).registries.look r s).2 = some entry →
      ⟨((run { state } ms).registries.registry r).name, s, entry⟩ ∈ inserted { state } ms) ∧
    (∀ operation s entry, ((run { state } ms).registries.lookIn operation s).2 = some entry →
      ⟨operation, s, entry⟩ ∈ inserted { state } ms) ∧
    (∀ r s, (run { state } ms).registries.present r s = true → ∀ ms',
      (((run { state } ms).run ms').registries.look r s).2.isSome = true ∧
      (((run { state } ms).run ms').registries.lookIn
        ((run { state } ms).registries.registry r).name s).2.isSome = true ∧
      ∀ operation, (((run { state } ms).move (.arrives r operation s)).run ms').AnsweredAtOnce
        (run { state } ms).callers.length r s) := by
  have hrecorded := (recorded_start state).run ms
  rw [List.nil_append] at hrecorded
  refine ⟨?_, hrecorded.answers, ?_, ?_, ?_⟩
  · intro hdelivers c hc
    have hfilled := (filled_start state).run (coherent_start state) hdelivers
    exact (hfilled.served c hc).answer
  · intro r s entry hlook
    exact hrecorded.mem_of_look hlook
  · intro operation s entry hlook
    exact hrecorded.mem_of_lookIn hlook
  · intro r s hpresent ms'
    have hlater := present_run hpresent ms'
    have hr := Registries.lt_of_present hpresent
    have hindexed := hrecorded.run ms' |>.indexed
    refine ⟨hlater, ?_, ?_⟩
    · have hname := (gains_run _ hrecorded.indexed ms').name r hr
      rw [Registries.lookIn_eq_known, ← hname,
        hindexed.known_name (Registries.lt_of_present hlater)]
      exact hlater
    · intro operation
      exact ((quick_of_arrives hpresent operation).run ms').answeredAtOnce

/-- In this run the third and the fourth caller are given the entry of the second attempt. -/
theorem answers_are_insertions_secondAttempt :
    deliversAll { state := () } secondAttempt = true ∧
      (run { state := () } secondAttempt).registries.present 0 [['b']] = true ∧
      (∀ c ∈ (run { state := () } secondAttempt).callers, ∀ operation s,
        c.phase ≠ .done (.error (.registrationInvariant operation s))) ∧
      ⟨['f'], [['b']], ⟨1, Nat.one_ne_zero⟩⟩ ∈ inserted { state := () } secondAttempt ∧
      ((run { state := () } secondAttempt).move (.arrives 0 ['f'] [['b']])).AnsweredAtOnce
        5 0 [['b']] := by
  have hdelivers : deliversAll { state := () } secondAttempt = true := by decide +kernel
  have hpresent : (run { state := () } secondAttempt).registries.present 0 [['b']] = true := by
    decide +kernel
  have hlook : ((run { state := () } secondAttempt).registries.lookIn ['f'] [['b']]).2 =
      some ⟨1, Nat.one_ne_zero⟩ := by
    decide +kernel
  have hlength : (run { state := () } secondAttempt).callers.length = 5 := by decide +kernel
  have hanswers := answers_are_insertions () secondAttempt
  refine ⟨hdelivers, hpresent, hanswers.1 hdelivers, ?_, ?_⟩
  · exact hanswers.2.2.2.1 ['f'] [['b']] _ hlook
  · rw [← hlength]
    exact (hanswers.2.2.2.2 0 [['b']] hpresent []).2.2 ['f']

end Traffic
end OnDemand
