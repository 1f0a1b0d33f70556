import OnDemand.Dispatch.Registries

/-!
# Look-ups that produce what they miss

A catalogue is the registries together with a specializer, which is asked for entries that are
missing.  `Catalogue.get` is the look-up of a single caller, made of the steps of `Registries` in
the order in which a caller takes them.
-/

namespace OnDemand

/-- A missing entry. -/
structure Request where
  operation : Text
  signature : Signature
  deriving DecidableEq, Repr

/-- How a log shows the request. -/
def Request.text (r : Request) : Text := r.operation ++ r.signature.text

/-- An entry for the registries. -/
structure Insertion where
  operation : Text
  signature : Signature
  entry : Entry
  deriving DecidableEq, Repr

/-- What a specializer did: it inserted entries in order, and then it was done or failed. -/
structure Attempt (σ : Type) where
  insertions : List Insertion
  outcome : Outcome
  /-- The state of the specializer afterwards. -/
  state : σ

/-- A means to produce entries, which may look at the registries and has a state of its own. -/
abbrev Specializer (σ : Type) := Request → Registries → σ → Attempt σ

namespace Registries

/-- The registries with all of the entries inserted in order. -/
def insertAll (rs : Registries) (insertions : List Insertion) : Registries :=
  insertions.foldl (fun rs i => rs.insert i.operation i.signature i.entry) rs

end Registries

/-- Registries, and what produces the entries that are missing in them. -/
structure Catalogue (σ : Type) where
  registries : Registries := {}
  specializer : Option (Specializer σ) := none

namespace Catalogue

variable {σ : Type}

/-- How the catalogue is shown. -/
def text (c : Catalogue σ) : Text :=
  "Registries \x7b names: ".toList ++ Quoted.list c.registries.names ++
    ", specializer: ".toList ++ (if c.specializer.isSome then "true" else "false").toList ++
    " \x7d".toList

/-- Asks the specializer for an entry. -/
def specialize (specializer : Option (Specializer σ)) (request : Request) (rs : Registries)
    (state : σ) : Registries × Outcome × σ :=
  match specializer with
  | none => (rs, .error .noSpecializer, state)
  | some ask =>
    let attempt := ask request rs state
    (rs.insertAll attempt.insertions, attempt.outcome, attempt.state)

/-- Takes part in a flight: runs it, unless it is finished. -/
def board (specializer : Option (Specializer σ)) (r : Nat) (signature : Signature) (f : Nat)
    (rs : Registries) (state : σ) : Registries × Outcome × σ :=
  match rs.flight f with
  | .finished outcome => (rs, outcome, state)
  | _ =>
    let request := ⟨(rs.registry r).name, signature⟩
    let (rs, outcome, state) := specialize specializer request (rs.setFlight f .running) state
    (rs.setFlight f (.finished outcome), outcome, state)

/-- Has the entry for a signature produced, alone or together with others. -/
def produce (specializer : Option (Specializer σ)) (r : Nat) (signature : Signature)
    (rs : Registries) (state : σ) : Registries × Outcome × σ :=
  match rs.enter r signature with
  | (rs, .present) => (rs, .ok (), state)
  | (rs, .joined f) => board specializer r signature f rs state
  | (rs, .owned f) =>
    let (rs, outcome, state) := board specializer r signature f rs state
    (rs.leave r signature, outcome, state)

/-- The entry for a signature, produced if it is missing. -/
def getFrom (specializer : Option (Specializer σ)) (r : Nat) (operation : Text)
    (signature : Signature) (rs : Registries) (state : σ) :
    Registries × Except DispatchError Entry × σ :=
  match rs.look r signature with
  | (rs, some entry) => (rs, .ok entry, state)
  | (rs, none) =>
    match produce specializer r signature rs state with
    | (rs, .error source, state) =>
      (rs, .error (.unavailable operation signature (rs.signatures r) source), state)
    -- The attempt is said to have succeeded, but that does not put an entry there.
    | (rs, .ok (), state) =>
      match rs.look r signature with
      | (rs, some entry) => (rs, .ok entry, state)
      | (rs, none) => (rs, .error (.registrationInvariant operation signature), state)

/-- Opens the registry of an operation. -/
def openRegistry (c : Catalogue σ) (operation : Operation) :
    Catalogue σ × Except DispatchError Nat :=
  let (rs, result) := c.registries.registryOf operation
  ({ c with registries := rs }, result)

/-- The entry in an open registry for a signature, produced if it is missing. -/
def get (c : Catalogue σ) (r : Nat) (operation : Operation) (signature : Signature) (state : σ) :
    Catalogue σ × Except DispatchError Entry × σ :=
  let (rs, result, state) :=
    getFrom c.specializer r operation.name signature c.registries state
  ({ c with registries := rs }, result, state)

/-- What is to be called for the signature on the operands. -/
def callWith (c : Catalogue σ) (r : Nat) (operation : Operation) (signature : Signature)
    (operands : List Operand) (state : σ) :
    Catalogue σ × Except DispatchError Invocation × σ :=
  let (c, result, state) := c.get r operation signature state
  (c, result.map fun entry => ⟨entry, operands⟩, state)

/-- What is to be called for the signature that the operands name. -/
def call (c : Catalogue σ) (r : Nat) (operation : Operation) (operands : List Operand)
    (state : σ) : Catalogue σ × Except DispatchError Invocation × σ :=
  c.callWith r operation (Signature.ofOperands operands) operands state

end Catalogue
end OnDemand
