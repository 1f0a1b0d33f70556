import OnDemand.Dispatch.Catalogue

/-!
# Look-ups side by side

A caller's look-up is a sequence of steps, between which other callers take theirs.  `Caller.step`
is one such step; `together` lets callers take turns until all of them have their answer.
-/

namespace OnDemand

/-- Where a caller stands in its look-up. -/
inductive Phase where
  /-- About to look for the entry. -/
  | look
  /-- The entry was missing; about to join or start a flight. -/
  | enter
  /-- About to take part in a flight, its own or another caller's. -/
  | board (flight : Nat) (owner : Bool)
  /-- The specializer is at work on this caller's behalf. -/
  | running (flight : Nat) (owner : Bool)
  /-- With the outcome of its own flight, which is still among those under way. -/
  | leave (outcome : Outcome)
  /-- With the outcome of the flight. -/
  | landed (outcome : Outcome)
  | done (answer : Except DispatchError Entry)

/-- A caller that looks up a signature. -/
structure Caller where
  registry : Nat
  operation : Text
  signature : Signature
  phase : Phase := .look

namespace Caller

variable {σ : Type}

/-- Where a caller stands that has got the outcome of a flight. -/
def withOutcome (owner : Bool) (outcome : Outcome) : Phase :=
  if owner then .leave outcome else .landed outcome

/-- The caller's next step.  One that waits for another's flight to finish does nothing. -/
def step (specializer : Option (Specializer σ)) (c : Caller) (rs : Registries) (state : σ) :
    Caller × Registries × σ :=
  let goOn (phase : Phase) (rs : Registries) : Caller × Registries × σ :=
    ({ c with phase }, rs, state)
  match c.phase with
  | .look =>
    match rs.look c.registry c.signature with
    | (rs, some entry) => goOn (.done (.ok entry)) rs
    | (rs, none) => goOn .enter rs
  | .enter =>
    match rs.enter c.registry c.signature with
    | (rs, .present) => goOn (.landed (.ok ())) rs
    | (rs, .joined f) => goOn (.board f false) rs
    | (rs, .owned f) => goOn (.board f true) rs
  | .board f owner =>
    match rs.flight f with
    | .idle => goOn (.running f owner) (rs.setFlight f .running)
    -- Another caller is at it.
    | .running => goOn (.board f owner) rs
    | .finished outcome => goOn (withOutcome owner outcome) rs
  | .running f owner =>
    let request := ⟨(rs.registry c.registry).name, c.signature⟩
    let (rs, outcome, state) := Catalogue.specialize specializer request rs state
    ({ c with phase := withOutcome owner outcome }, rs.setFlight f (.finished outcome), state)
  | .leave outcome => goOn (.landed outcome) (rs.leave c.registry c.signature)
  | .landed (.error source) =>
    goOn (.done (.error
      (.unavailable c.operation c.signature (rs.signatures c.registry) source))) rs
  | .landed (.ok ()) =>
    match rs.look c.registry c.signature with
    | (rs, some entry) => goOn (.done (.ok entry)) rs
    | (rs, none) => goOn (.done (.error (.registrationInvariant c.operation c.signature))) rs
  | .done answer => goOn (.done answer) rs

/-- The caller's answer, once it has one. -/
def answer? (c : Caller) : Option (Except DispatchError Entry) :=
  match c.phase with
  | .done answer => some answer
  | _ => none

/-- One step of each caller in turn. -/
def round (specializer : Option (Specializer σ)) :
    List Caller → Registries → σ → List Caller × Registries × σ
  | [], rs, state => ([], rs, state)
  | c :: cs, rs, state =>
    let (c, rs, state) := c.step specializer rs state
    let (cs, rs, state) := round specializer cs rs state
    (c :: cs, rs, state)

/-- So many rounds. -/
def rounds (specializer : Option (Specializer σ)) :
    Nat → List Caller → Registries → σ → List Caller × Registries × σ
  | 0, cs, rs, state => (cs, rs, state)
  | n + 1, cs, rs, state =>
    let (cs, rs, state) := round specializer cs rs state
    rounds specializer n cs rs state

end Caller

namespace Catalogue

variable {σ : Type}

/-- How many steps a look-up takes at most when callers take turns. -/
def longestLookup : Nat := 7

/-- The answers to as many callers at once who look up the same signature and take turns. -/
def together (c : Catalogue σ) (r : Nat) (operation : Operation) (signature : Signature)
    (callers : Nat) (state : σ) :
    Catalogue σ × List (Except DispatchError Entry) × σ :=
  let caller : Caller := { registry := r, operation := operation.name, signature }
  let (cs, rs, state) := Caller.rounds c.specializer longestLookup (List.replicate callers caller)
    c.registries state
  ({ c with registries := rs }, cs.filterMap Caller.answer?, state)

end Catalogue
end OnDemand
