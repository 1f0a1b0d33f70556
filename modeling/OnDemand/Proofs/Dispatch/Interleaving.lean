import OnDemand.Proofs.Dispatch.Effects
import OnDemand.Proofs.Positions

/-!
# Look-ups in any order

Any number of callers look up signatures in the registries of one catalogue while others store
entries.  A run is a list of moves: the next step of one caller, or what somebody does from outside.
Each step of a caller may have a specializer of its own choice, so a run may replace the specializer
and a specializer may do anything that specializers can do.  Its own look-ups and insertions while
it is at work are moves like all others.
-/

namespace OnDemand

/-! ## Where callers stand -/

namespace Phase

/-- The flight that the caller takes part in, if there is one. -/
def aboard? : Phase → Option Nat
  | .board flight _ | .running flight _ => some flight
  | _ => none

/-- Whether the caller has yet to take the flight out of those under way. -/
def owns : Phase → Bool
  | .board _ owner | .running _ owner => owner
  | .leave _ => true
  | _ => false

/-- Whether the specializer is at work on the caller's behalf. -/
def atWork : Phase → Bool
  | .running .. => true
  | _ => false

/-- The caller has nothing to do with any flight. -/
def Grounded (p : Phase) : Prop := p.aboard? = none ∧ p.owns = false

theorem exists_aboard?_of_atWork {p : Phase} (h : p.atWork = true) : ∃ f, p.aboard? = some f := by
  cases p with
  | running f owner => exact ⟨f, rfl⟩
  | _ => cases h

theorem Grounded.not_atWork {p : Phase} (h : p.Grounded) : p.atWork ≠ true := by
  intro hwork
  rcases exists_aboard?_of_atWork hwork with ⟨f, hf⟩
  rw [h.1] at hf
  cases hf

end Phase

namespace Caller

variable {σ : Type}

theorem aboard?_withOutcome (owner : Bool) (outcome : Outcome) :
    (withOutcome owner outcome).aboard? = none := by
  cases owner <;> rfl

theorem owns_withOutcome (owner : Bool) (outcome : Outcome) :
    (withOutcome owner outcome).owns = owner := by
  cases owner <;> rfl

theorem not_atWork_withOutcome (owner : Bool) (outcome : Outcome) :
    (withOutcome owner outcome).atWork ≠ true := by
  cases owner <;> exact Bool.false_ne_true

/-- What a caller's step does, from its phase to the next, with the registries after it. -/
inductive Turns (specializer : Option (Specializer σ)) (c : Caller) (rs : Registries) (state : σ) :
    Phase → Registries → σ → Prop where
  | hits {entry : Entry} :
      c.phase = .look → rs.entry? c.registry c.signature = some entry →
      Turns specializer c rs state (.done (.ok entry)) (rs.look c.registry c.signature).1 state
  | misses :
      c.phase = .look → rs.entry? c.registry c.signature = none →
      Turns specializer c rs state .enter (rs.look c.registry c.signature).1 state
  /-- The entry has come since the caller missed it. -/
  | overtaken :
      c.phase = .enter → rs.present c.registry c.signature = true →
      Turns specializer c rs state (.landed (.ok ())) rs state
  | joins {f : Nat} :
      c.phase = .enter → rs.present c.registry c.signature = false →
      rs.flying? c.registry c.signature = some f →
      Turns specializer c rs state (.board f false) rs state
  | launches :
      c.phase = .enter → rs.present c.registry c.signature = false →
      rs.flying? c.registry c.signature = none →
      Turns specializer c rs state (.board rs.flights.length true)
        (rs.launched c.registry c.signature) state
  | begins {f : Nat} {owner : Bool} :
      c.phase = .board f owner → rs.flight f = .idle →
      Turns specializer c rs state (.running f owner) (rs.setFlight f .running) state
  | waits {f : Nat} {owner : Bool} :
      c.phase = .board f owner → rs.flight f = .running →
      Turns specializer c rs state (.board f owner) rs state
  | shares {f : Nat} {owner : Bool} {outcome : Outcome} :
      c.phase = .board f owner → rs.flight f = .finished outcome →
      Turns specializer c rs state (withOutcome owner outcome) rs state
  | returns {f : Nat} {owner : Bool} {rs' : Registries} {outcome : Outcome} {state' : σ} :
      c.phase = .running f owner →
      Catalogue.specialize specializer ⟨(rs.registry c.registry).name, c.signature⟩ rs state =
        (rs', outcome, state') →
      Turns specializer c rs state (withOutcome owner outcome)
        (rs'.setFlight f (.finished outcome)) state'
  | leaves {outcome : Outcome} :
      c.phase = .leave outcome →
      Turns specializer c rs state (.landed outcome) (rs.leave c.registry c.signature) state
  | fails {source : SpecializationError} :
      c.phase = .landed (.error source) →
      Turns specializer c rs state
        (.done (.error (.unavailable c.operation c.signature (rs.signatures c.registry) source)))
        rs state
  | finds {entry : Entry} :
      c.phase = .landed (.ok ()) → rs.entry? c.registry c.signature = some entry →
      Turns specializer c rs state (.done (.ok entry)) (rs.look c.registry c.signature).1 state
  | lacks :
      c.phase = .landed (.ok ()) → rs.entry? c.registry c.signature = none →
      Turns specializer c rs state
        (.done (.error (.registrationInvariant c.operation c.signature)))
        (rs.look c.registry c.signature).1 state
  | rests {answer : Except DispatchError Entry} :
      c.phase = .done answer → Turns specializer c rs state (.done answer) rs state

theorem exists_turns (specializer : Option (Specializer σ)) (c : Caller) (rs : Registries)
    (state : σ) :
    ∃ p rs' state', c.step specializer rs state = ({ c with phase := p }, rs', state') ∧
      Turns specializer c rs state p rs' state' := by
  -- What a step does depends on the phase, and then on what the caller meets.
  cases hphase : c.phase with
  | look =>
      cases hentry : rs.entry? c.registry c.signature with
      | some entry =>
          refine ⟨_, _, _, ?_, .hits hphase hentry⟩
          simp [step, hphase, Registries.look, hentry]
      | none =>
          refine ⟨_, _, _, ?_, .misses hphase hentry⟩
          simp [step, hphase, Registries.look, hentry]
  | enter =>
      rcases rs.enter_cases c.registry c.signature with
        ⟨hpresent, henter⟩ | ⟨habsent, f, hflying, henter⟩ | ⟨habsent, hflying, henter⟩
      · refine ⟨_, _, _, ?_, .overtaken hphase hpresent⟩
        simp [step, hphase, henter]
      · refine ⟨_, _, _, ?_, .joins hphase habsent hflying⟩
        simp [step, hphase, henter]
      · refine ⟨_, _, _, ?_, .launches hphase habsent hflying⟩
        simp [step, hphase, henter]
  | board f owner =>
      cases hflight : rs.flight f with
      | idle =>
          refine ⟨_, _, _, ?_, .begins hphase hflight⟩
          simp [step, hphase, hflight]
      | running =>
          refine ⟨_, _, _, ?_, .waits hphase hflight⟩
          simp [step, hphase, hflight]
      | finished outcome =>
          refine ⟨_, _, _, ?_, .shares hphase hflight⟩
          simp [step, hphase, hflight]
  | running f owner =>
      rcases hattempt : Catalogue.specialize specializer
        ⟨(rs.registry c.registry).name, c.signature⟩ rs state with ⟨rs', outcome, state'⟩
      refine ⟨_, _, _, ?_, .returns hphase hattempt⟩
      simp [step, hphase, hattempt]
  | leave outcome =>
      refine ⟨_, _, _, ?_, .leaves hphase⟩
      simp [step, hphase]
  | landed outcome =>
      -- With a success, the caller looks for the entry that should be there.
      cases outcome with
      | error source =>
          refine ⟨_, _, _, ?_, .fails hphase⟩
          simp [step, hphase]
      | ok done =>
          cases hentry : rs.entry? c.registry c.signature with
          | some entry =>
              refine ⟨_, _, _, ?_, .finds hphase hentry⟩
              simp [step, hphase, Registries.look, hentry]
          | none =>
              refine ⟨_, _, _, ?_, .lacks hphase hentry⟩
              simp [step, hphase, Registries.look, hentry]
  | done answer =>
      refine ⟨_, _, _, ?_, .rests hphase⟩
      simp [step, hphase]

/-- What a caller's step is to the flights, where entries matter only by being there. -/
inductive Steps (c : Caller) (rs : Registries) : Phase → Registries → Prop where
  /-- A step that no flight is concerned with. -/
  | aside {p : Phase} {rs' : Registries} :
      c.phase.Grounded → p.Grounded → rs.Keeps rs' → Steps c rs p rs'
  | joins {f : Nat} :
      c.phase = .enter → rs.present c.registry c.signature = false →
      rs.flying? c.registry c.signature = some f → Steps c rs (.board f false) rs
  | launches :
      c.phase = .enter → rs.present c.registry c.signature = false →
      rs.flying? c.registry c.signature = none →
      Steps c rs (.board rs.flights.length true) (rs.launched c.registry c.signature)
  | begins {f : Nat} {owner : Bool} :
      c.phase = .board f owner → rs.flight f = .idle →
      Steps c rs (.running f owner) (rs.setFlight f .running)
  | waits {f : Nat} {owner : Bool} :
      c.phase = .board f owner → rs.flight f = .running → Steps c rs (.board f owner) rs
  | shares {f : Nat} {owner : Bool} {outcome : Outcome} :
      c.phase = .board f owner → rs.flight f = .finished outcome →
      Steps c rs (withOutcome owner outcome) rs
  | returns {f : Nat} {owner : Bool} {outcome : Outcome} {rs' : Registries} :
      c.phase = .running f owner → rs.Keeps rs' →
      Steps c rs (withOutcome owner outcome) (rs'.setFlight f (.finished outcome))
  | leaves {outcome : Outcome} :
      c.phase = .leave outcome →
      Steps c rs (.landed outcome) (rs.leave c.registry c.signature)

/-- A caller that no flight is concerned with may take a step that keeps flights and entries. -/
theorem Turns.steps {specializer : Option (Specializer σ)} {c : Caller} {rs rs' : Registries}
    {state state' : σ} {p : Phase} (h : Turns specializer c rs state p rs' state') :
    Steps c rs p rs' := by
  have hgrounded : ∀ q : Phase, q.Grounded → c.phase = q → c.phase.Grounded := by
    intro q hq heq
    rwa [heq]
  have hlook := Registries.keeps_look rs c.registry c.signature
  have hstays := Registries.Keeps.refl rs
  cases h with
  | hits hphase hentry => exact .aside (hgrounded _ ⟨rfl, rfl⟩ hphase) ⟨rfl, rfl⟩ hlook
  | misses hphase hentry => exact .aside (hgrounded _ ⟨rfl, rfl⟩ hphase) ⟨rfl, rfl⟩ hlook
  | overtaken hphase hpresent => exact .aside (hgrounded _ ⟨rfl, rfl⟩ hphase) ⟨rfl, rfl⟩ hstays
  | joins hphase habsent hflying => exact .joins hphase habsent hflying
  | launches hphase habsent hflying => exact .launches hphase habsent hflying
  | begins hphase hidle => exact .begins hphase hidle
  | waits hphase hrunning => exact .waits hphase hrunning
  | shares hphase hfinished => exact .shares hphase hfinished
  | @returns f owner rs₁ outcome state' hphase hattempt =>
      -- Whatever the specializer does, it does to entries only.
      have hkeeps := Registries.keeps_specialize specializer
        ⟨(rs.registry c.registry).name, c.signature⟩ rs state
      rw [hattempt] at hkeeps
      exact .returns hphase hkeeps
  | leaves hphase => exact .leaves hphase
  | fails hphase => exact .aside (hgrounded _ ⟨rfl, rfl⟩ hphase) ⟨rfl, rfl⟩ hstays
  | finds hphase hentry => exact .aside (hgrounded _ ⟨rfl, rfl⟩ hphase) ⟨rfl, rfl⟩ hlook
  | lacks hphase hentry => exact .aside (hgrounded _ ⟨rfl, rfl⟩ hphase) ⟨rfl, rfl⟩ hlook
  | rests hphase => exact .aside (hgrounded _ ⟨rfl, rfl⟩ hphase) ⟨rfl, rfl⟩ hstays

end Caller

/-! ## Runs -/

/-- Callers with the registries that they share. -/
structure Traffic (σ : Type) where
  callers : List Caller := []
  registries : Registries := {}
  /-- The state of the specializers. -/
  state : σ

/-- What happens next. -/
inductive Move (σ : Type) where
  /-- Somebody opens the registry of an operation, which is created if need be. -/
  | opens (operation : Operation)
  /-- A caller begins to look up a signature in a registry that has been created. -/
  | arrives (registry : Nat) (operation : Text) (signature : Signature)
  /-- The caller with this number takes its next step. -/
  | steps (caller : Nat) (specializer : Option (Specializer σ))
  /-- Somebody looks for an entry and takes what there is. -/
  | looks (registry : Nat) (signature : Signature)
  /-- Somebody stores an entry in a registry. -/
  | stores (registry : Nat) (signature : Signature) (entry : Entry)
  /-- Somebody stores an entry of a named operation, whose registry is created if need be. -/
  | inserts (operation : Text) (signature : Signature) (entry : Entry)

/-- What the moves of a run do that concerns the specializer. -/
inductive Signal where
  /-- The specializer is asked for a signature of a registry. -/
  | starts (registry : Nat) (signature : Signature)
  /-- The specializer is done with the signature, which is `present` in the registry or not. -/
  | returns (registry : Nat) (signature : Signature) (present : Bool)
  deriving DecidableEq, Repr

namespace Traffic

variable {σ : Type}

/-- The traffic after the step of a caller. -/
def step (t : Traffic σ) (i : Nat) (c : Caller) (specializer : Option (Specializer σ)) :
    Traffic σ :=
  let (c, registries, state) := c.step specializer t.registries t.state
  ⟨t.callers.set i c, registries, state⟩

/-- The traffic after a move. -/
def move (t : Traffic σ) : Move σ → Traffic σ
  | .opens operation => { t with registries := (t.registries.registryOf operation).1 }
  | .arrives registry operation signature =>
    if registry < t.registries.registries.length then
      { t with callers := t.callers ++ [{ registry, operation, signature }] }
    else t
  | .steps i specializer =>
    match t.callers[i]? with
    | some c => t.step i c specializer
    | none => t
  | .looks registry signature => { t with registries := (t.registries.look registry signature).1 }
  | .stores registry signature entry =>
    { t with registries := t.registries.store registry signature entry }
  | .inserts operation signature entry =>
    { t with registries := t.registries.insert operation signature entry }

/-- The traffic after the moves in order. -/
def run (t : Traffic σ) (ms : List (Move σ)) : Traffic σ := ms.foldl move t

/-- What the step of a caller does that concerns the specializer. -/
def signalOf (t : Traffic σ) (i : Nat) (c : Caller) (specializer : Option (Specializer σ)) :
    Option Signal :=
  match c.phase with
  | .board f _ =>
    match t.registries.flight f with
    | .idle => some (.starts c.registry c.signature)
    | _ => none
  | .running .. =>
    some (.returns c.registry c.signature
      ((t.step i c specializer).registries.present c.registry c.signature))
  | _ => none

/-- What a move does that concerns the specializer. -/
def signal? (t : Traffic σ) : Move σ → Option Signal
  | .steps i specializer =>
    match t.callers[i]? with
    | some c => t.signalOf i c specializer
    | none => none
  | _ => none

/-- What the moves do in order that concerns the specializer. -/
def history (t : Traffic σ) : List (Move σ) → List Signal
  | [] => []
  | m :: ms => (t.signal? m).toList ++ (t.move m).history ms

/-- All that a move can be, from one traffic to the next. -/
inductive Moves (t : Traffic σ) (m : Move σ) : Traffic σ → Prop where
  | steps {i : Nat} {c : Caller} {specializer : Option (Specializer σ)} :
      m = .steps i specializer → t.callers[i]? = some c → Moves t m (t.step i c specializer)
  | keeps {rs : Registries} :
      t.registries.Keeps rs → Moves t m { t with registries := rs }
  | arrives {c : Caller} :
      c.registry < t.registries.registries.length → c.phase.Grounded →
      Moves t m { t with callers := t.callers ++ [c] }

theorem moves (t : Traffic σ) (m : Move σ) : t.Moves m (t.move m) := by
  have hstays : t.Moves m t := .keeps (Registries.Keeps.refl _)
  cases m with
  | opens operation => exact .keeps (Registries.keeps_registryOf _ operation)
  | arrives registry operation signature =>
      by_cases hr : registry < t.registries.registries.length
      · rw [show t.move (.arrives registry operation signature) = _ from if_pos hr]
        exact .arrives hr ⟨rfl, rfl⟩
      · rw [show t.move (.arrives registry operation signature) = _ from if_neg hr]
        exact hstays
  | steps i specializer =>
      cases hc : t.callers[i]? with
      | some c =>
          have heq : t.move (.steps i specializer) = t.step i c specializer := by simp [move, hc]
          rw [heq]
          exact .steps rfl hc
      | none =>
          have heq : t.move (.steps i specializer) = t := by simp [move, hc]
          rw [heq]
          exact hstays
  | looks registry signature => exact .keeps (Registries.keeps_look _ registry signature)
  | stores registry signature entry =>
      exact .keeps (Registries.keeps_store _ registry signature entry)
  | inserts operation signature entry =>
      exact .keeps (Registries.keeps_insert _ operation signature entry)

/-- The step of a caller, with all that can be said of it. -/
theorem exists_turn (t : Traffic σ) (i : Nat) (c : Caller) (specializer : Option (Specializer σ)) :
    ∃ p rs state, t.step i c specializer = ⟨t.callers.set i { c with phase := p }, rs, state⟩ ∧
      c.Turns specializer t.registries t.state p rs state := by
  rcases c.exists_turns specializer t.registries t.state with ⟨p, rs, state, heq, hturns⟩
  exact ⟨p, rs, state, by simp [step, heq], hturns⟩

theorem exists_step (t : Traffic σ) (i : Nat) (c : Caller) (specializer : Option (Specializer σ)) :
    ∃ p rs state, t.step i c specializer = ⟨t.callers.set i { c with phase := p }, rs, state⟩ ∧
      c.Steps t.registries p rs := by
  rcases t.exists_turn i c specializer with ⟨p, rs, state, heq, hturns⟩
  exact ⟨p, rs, state, heq, hturns.steps⟩

/-- Whether the specializer is at work on a signature of a registry. -/
def AtWork (t : Traffic σ) (r : Nat) (s : Signature) : Prop :=
  ∃ c ∈ t.callers, c.phase.atWork = true ∧ c.registry = r ∧ c.signature = s

theorem history_of_some {t : Traffic σ} {m : Move σ} {x : Signal} (h : t.signal? m = some x)
    (ms : List (Move σ)) : t.history (m :: ms) = x :: (t.move m).history ms := by
  simp [history, h]

theorem history_of_none {t : Traffic σ} {m : Move σ} (h : t.signal? m = none)
    (ms : List (Move σ)) : t.history (m :: ms) = (t.move m).history ms := by
  simp [history, h]

/-- Each signal of a history belongs to a move of the run. -/
theorem exists_move_of_history {t : Traffic σ} {ms : List (Move σ)} {before after : List Signal}
    {x : Signal} (h : t.history ms = before ++ x :: after) :
    ∃ ms₁ m ms₂, ms = ms₁ ++ m :: ms₂ ∧ (t.run ms₁).signal? m = some x ∧
      ((t.run ms₁).move m).history ms₂ = after := by
  induction ms generalizing t before with
  | nil => simp [history] at h
  | cons m ms ih =>
      cases hsignal : t.signal? m with
      | none =>
          rw [history_of_none hsignal] at h
          rcases ih h with ⟨ms₁, m', ms₂, rfl, hx, hafter⟩
          exact ⟨m :: ms₁, m', ms₂, rfl, hx, hafter⟩
      | some y =>
          rw [history_of_some hsignal] at h
          cases before with
          | nil =>
              -- It is the signal of the first move.
              cases h
              exact ⟨[], m, ms, rfl, hsignal, rfl⟩
          | cons z before =>
              rcases ih (List.tail_eq_of_cons_eq h) with ⟨ms₁, m', ms₂, rfl, hx, hafter⟩
              exact ⟨m :: ms₁, m', ms₂, rfl, hx, hafter⟩

end Traffic
end OnDemand
