import OnDemand.Proofs.Dispatch.Entries
import OnDemand.Proofs.Dispatch.SingleFlight

/-!
# What runs insert

The moves of a run insert entries, some of them on a specializer's behalf.  With the list of all
insertions up to now, `Traffic.Recorded` accounts for all that the registries know and for each
entry that a caller has been given.
-/

namespace OnDemand

namespace Caller

variable {σ : Type} {specializer : Option (Specializer σ)} {c : Caller} {rs rs' : Registries}
  {state state' : σ} {p : Phase}

/-- An entry that a caller is given was there at the last step, or the caller had it already. -/
theorem Turns.entry?_of_done {entry : Entry}
    (h : c.Turns specializer rs state (.done (.ok entry)) rs' state') :
    rs.entry? c.registry c.signature = some entry ∨ c.phase = .done (.ok entry) := by
  generalize hp : Phase.done (.ok entry) = p at h
  cases h with
  | hits hphase hentry | finds hphase hentry =>
      cases hp
      exact .inl hentry
  | rests hphase => exact .inr hphase
  | @shares f owner outcome hphase | @returns f owner rs' outcome state' hphase =>
      cases owner <;> cases hp
  | _ => cases hp

/-- A caller that comes when the entry is there has it after one step. -/
theorem Turns.done_of_present (h : c.Turns specializer rs state p rs' state')
    (hphase : c.phase = .look) (hpresent : rs.present c.registry c.signature = true) :
    ∃ entry, p = .done (.ok entry) := by
  cases h with
  | @hits entry _ _ => exact ⟨entry, rfl⟩
  | misses _ hnone =>
      rw [Registries.present, hnone] at hpresent
      cases hpresent
  | overtaken h | joins h | launches h | begins h | waits h | shares h | returns h | leaves h
  | fails h | finds h | lacks h | rests h =>
      rw [hphase] at h
      cases h

theorem Turns.eq_of_done (h : c.Turns specializer rs state p rs' state')
    {answer : Except DispatchError Entry} (hphase : c.phase = .done answer) :
    p = .done answer := by
  cases h with
  | rests h => rw [← h, hphase]
  | hits h | misses h | overtaken h | joins h | launches h | begins h | waits h | shares h
  | returns h | leaves h | fails h | finds h | lacks h =>
      rw [hphase] at h
      cases h

/-- What the specializer inserts in the caller's next step. -/
def insertions (specializer : Option (Specializer σ)) (c : Caller) (rs : Registries)
    (state : σ) : List Insertion :=
  match c.phase with
  | .running .. =>
    Catalogue.insertionsFor specializer ⟨(rs.registry c.registry).name, c.signature⟩ rs state
  | _ => []

theorem Turns.gains (h : c.Turns specializer rs state p rs' state') (hrs : rs.Indexed) :
    rs.Gains rs' (c.insertions specializer rs state) := by
  unfold insertions
  cases h with
  | hits hphase | misses hphase | finds hphase | lacks hphase =>
      rw [hphase]
      exact Registries.gains_look _ _ _
  | overtaken hphase | joins hphase | waits hphase | shares hphase | fails hphase
  | rests hphase =>
      rw [hphase]
      exact Registries.Gains.refl _
  | launches hphase =>
      rw [hphase]
      exact Registries.gains_launched _ _ _
  | begins hphase =>
      rw [hphase]
      exact Registries.gains_setFlight _ _ _
  | leaves hphase =>
      rw [hphase]
      exact Registries.gains_leave _ _ _
  | @returns f owner rs₁ outcome state' hphase hattempt =>
      rw [hphase]
      have hgains := Catalogue.gains_specialize specializer
        ⟨(rs.registry c.registry).name, c.signature⟩ rs hrs state
      rw [hattempt] at hgains
      exact hgains.before (Registries.gains_setFlight _ _ _)

end Caller

/-! ## What runs insert -/

namespace Traffic

variable {σ : Type} {t t' : Traffic σ} {m : Move σ}

/-- What a move inserts. -/
def insertions (t : Traffic σ) : Move σ → List Insertion
  | .stores r s entry =>
    if r < t.registries.registries.length then [⟨(t.registries.registry r).name, s, entry⟩] else []
  | .inserts operation s entry => [⟨operation, s, entry⟩]
  | .steps i specializer =>
    match t.callers[i]? with
    | some c => c.insertions specializer t.registries t.state
    | none => []
  | _ => []

/-- What the moves insert in order. -/
def inserted (t : Traffic σ) : List (Move σ) → List Insertion
  | [] => []
  | m :: ms => t.insertions m ++ (t.move m).inserted ms

theorem move_arrives_cases (t : Traffic σ) (r : Nat) (operation : Text) (s : Signature) :
    (r < t.registries.registries.length ∧ t.move (.arrives r operation s) =
        { t with callers := t.callers ++ [{ registry := r, operation, signature := s }] }) ∨
      (¬r < t.registries.registries.length ∧ t.move (.arrives r operation s) = t) := by
  by_cases hr : r < t.registries.registries.length
  · exact .inl ⟨hr, if_pos hr⟩
  · exact .inr ⟨hr, if_neg hr⟩

theorem gains_move (t : Traffic σ) (hrs : t.registries.Indexed) (m : Move σ) :
    t.registries.Gains (t.move m).registries (t.insertions m) := by
  cases m with
  | opens operation => exact Registries.gains_registryOf _ operation
  | arrives registry operation signature =>
      rcases t.move_arrives_cases registry operation signature with ⟨-, heq⟩ | ⟨-, heq⟩
      · rw [heq]
        exact Registries.Gains.refl _
      · rw [heq]
        exact Registries.Gains.refl _
  | steps i specializer =>
      cases hc : t.callers[i]? with
      | some c =>
          have heq : t.insertions (.steps i specializer) =
              c.insertions specializer t.registries t.state := by simp [insertions, hc]
          rcases t.exists_turn i c specializer with ⟨p, rs, state, hstep, hturns⟩
          rw [move_steps hc, heq, hstep]
          exact hturns.gains hrs
      | none =>
          have heq : t.insertions (.steps i specializer) = [] := by simp [insertions, hc]
          have hstays : t.move (.steps i specializer) = t := by simp [move, hc]
          rw [heq, hstays]
          exact Registries.Gains.refl _
  | looks registry signature => exact Registries.gains_look _ _ _
  | stores registry signature entry =>
      by_cases hr : registry < t.registries.registries.length
      · rw [show t.insertions (.stores registry signature entry) = _ from if_pos hr]
        exact Registries.gains_store _ hr _ _
      · rw [show t.insertions (.stores registry signature entry) = _ from if_neg hr]
        exact Registries.gains_store_of_not_lt _ hr _ _
  | inserts operation signature entry => exact Registries.gains_insert _ hrs _ _ _

theorem gains_run (t : Traffic σ) (hrs : t.registries.Indexed) (ms : List (Move σ)) :
    t.registries.Gains (t.run ms).registries (t.inserted ms) := by
  induction ms generalizing t with
  | nil => exact Registries.Gains.refl _
  | cons m ms ih =>
      have hmove := t.gains_move hrs m
      exact hmove.trans (ih _ (hmove.indexed hrs))

/-- A caller is where it was, unless it took the step itself. -/
theorem caller_move {i : Nat} {c : Caller} (hc : t.callers[i]? = some c) (m : Move σ) :
    (t.move m).callers[i]? = some c ∨ ∃ specializer, m = .steps i specializer := by
  have hmoves := t.moves m
  generalize t.move m = t' at hmoves
  cases hmoves with
  | keeps hkeeps => exact .inl hc
  | arrives hr hnew =>
      rw [List.getElem?_append_left (List.getElem?_eq_some_iff.1 hc).1]
      exact .inl hc
  | @steps j d specializer hm hd =>
      by_cases hij : j = i
      · exact .inr ⟨specializer, by rw [hm, hij]⟩
      · rcases t.exists_step j d specializer with ⟨p, rs, state, heq, -⟩
        rw [heq]
        exact .inl ((List.getElem?_set_ne hij).trans hc)

/-- Where a caller with this number is after its own step. -/
theorem caller_step {i : Nat} {c : Caller} (hc : t.callers[i]? = some c)
    (specializer : Option (Specializer σ)) :
    ∃ p rs state, (t.move (.steps i specializer)).callers[i]? = some { c with phase := p } ∧
      c.Turns specializer t.registries t.state p rs state := by
  rcases t.exists_turn i c specializer with ⟨p, rs, state, heq, hturns⟩
  refine ⟨p, rs, state, ?_, hturns⟩
  rw [move_steps hc, heq]
  exact List.getElem?_set_self (List.getElem?_eq_some_iff.1 hc).1

/-- The callers are where they were, but for the one that took the step or has come. -/
theorem mem_callers_move {c : Caller} (h : c ∈ (t.move m).callers) :
    c ∈ t.callers ∨ (c.phase = .look ∧ c.registry < t.registries.registries.length) ∨
      ∃ d ∈ t.callers, ∃ specializer p rs state,
        c = { d with phase := p } ∧ d.Turns specializer t.registries t.state p rs state := by
  cases m with
  | arrives registry operation signature =>
      rcases t.move_arrives_cases registry operation signature with ⟨hr, heq⟩ | ⟨-, heq⟩
      · rw [heq] at h
        rcases List.mem_append.1 h with hold | hnew
        · exact .inl hold
        · rw [List.mem_singleton.1 hnew]
          exact .inr (.inl ⟨rfl, hr⟩)
      · rw [heq] at h
        exact .inl h
  | steps i specializer =>
      cases hd : t.callers[i]? with
      | some d =>
          rcases t.exists_turn i d specializer with ⟨p, rs, state, hstep, hturns⟩
          rw [move_steps hd, hstep] at h
          rcases List.getElem?_of_mem h with ⟨j, hj⟩
          rcases getElem?_set_cases hj with ⟨-, rfl⟩ | ⟨-, hold⟩
          · exact .inr (.inr ⟨d, List.mem_of_getElem? hd, specializer, p, rs, state, rfl, hturns⟩)
          · exact .inl (List.mem_of_getElem? hold)
      | none =>
          have hstays : t.move (.steps i specializer) = t := by simp [move, hd]
          rw [hstays] at h
          exact .inl h
  | _ => exact .inl h

/-- The log of all insertions accounts for the entries and for what callers have been given. -/
structure Recorded (t : Traffic σ) (log : List Insertion) : Prop where
  indexed : t.registries.Indexed
  registry_lt : ∀ c ∈ t.callers, c.registry < t.registries.registries.length
  known : ∀ operation s, t.registries.known operation s = lastWrite log operation s
  answers : ∀ c ∈ t.callers, ∀ entry, c.phase = .done (.ok entry) →
    ⟨(t.registries.registry c.registry).name, c.signature, entry⟩ ∈ log

theorem recorded_start (state : σ) : Recorded { state } [] where
  indexed := Registries.indexed_empty
  registry_lt := by
    intro c hc
    cases hc
  known := fun _ _ => rfl
  answers := by
    intro c hc
    cases hc

theorem Recorded.next {log : List Insertion} (h : t.Recorded log) (m : Move σ) :
    (t.move m).Recorded (log ++ t.insertions m) := by
  have hgains := t.gains_move h.indexed m
  -- Whoever is there now was there before, or has come with a registry that is there.
  have hlt : ∀ c ∈ (t.move m).callers, c.registry < t.registries.registries.length := by
    intro c hc
    rcases mem_callers_move hc with hold | ⟨-, hr⟩ | ⟨d, hd, specializer, p, rs, state, rfl, -⟩
    · exact h.registry_lt c hold
    · exact hr
    · exact h.registry_lt d hd
  refine ⟨hgains.indexed h.indexed, ?_, ?_, ?_⟩
  · intro c hc
    exact Nat.lt_of_lt_of_le (hlt c hc) hgains.length
  · intro operation s
    rw [hgains.known h.indexed, h.known, lastWrite_append]
  · intro c hc entry hentry
    rw [hgains.name c.registry (hlt c hc)]
    refine List.mem_append_left _ ?_
    rcases mem_callers_move hc with hold | ⟨hphase, -⟩ |
      ⟨d, hd, specializer, p, rs, state, rfl, hturns⟩
    · exact h.answers c hold entry hentry
    · rw [hphase] at hentry
      cases hentry
    · -- The caller has just been given what the registries knew, or it had its answer before.
      have hp : p = .done (.ok entry) := hentry
      rw [hp] at hturns
      rcases hturns.entry?_of_done with hthere | hdone
      · refine mem_of_lastWrite ?_
        rw [← h.known, h.indexed.known_name (h.registry_lt d hd)]
        exact hthere
      · exact h.answers d hd entry hdone

theorem Recorded.run {log : List Insertion} (h : t.Recorded log) (ms : List (Move σ)) :
    (t.run ms).Recorded (log ++ t.inserted ms) := by
  induction ms generalizing t log with
  | nil =>
      rw [inserted, List.append_nil]
      exact h
  | cons m ms ih =>
      rw [inserted, ← List.append_assoc]
      exact ih (h.next m)

/-- Whatever can be found has been inserted. -/
theorem Recorded.mem_of_look {log : List Insertion} (h : t.Recorded log) {r : Nat} {s : Signature}
    {entry : Entry} (hlook : (t.registries.look r s).2 = some entry) :
    ⟨(t.registries.registry r).name, s, entry⟩ ∈ log := by
  have hentry : t.registries.entry? r s = some entry := hlook
  have hr : r < t.registries.registries.length := by
    refine Registries.lt_of_present (s := s) ?_
    rw [Registries.present, hentry]
    rfl
  refine mem_of_lastWrite ?_
  rw [← h.known, h.indexed.known_name hr]
  exact hentry

theorem Recorded.mem_of_lookIn {log : List Insertion} (h : t.Recorded log) {operation : Text}
    {s : Signature} {entry : Entry}
    (hlook : (t.registries.lookIn operation s).2 = some entry) : ⟨operation, s, entry⟩ ∈ log := by
  rw [Registries.lookIn_eq_known, h.known] at hlook
  exact mem_of_lastWrite hlook

end Traffic

end OnDemand
