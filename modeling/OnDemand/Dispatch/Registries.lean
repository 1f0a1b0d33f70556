import OnDemand.Dispatch.Error
import OnDemand.Table

/-!
# Registries

A registry maps signatures to entry points, for one operation.  The catalogue of registries finds
each by its name.  Callers that miss the same entry share one flight: a single attempt to produce
it, whose outcome they all get.

Every operation in this module is one step that no other caller can come between.
-/

namespace OnDemand

/-- What an attempt to produce an implementation came to. -/
abbrev Outcome := Except SpecializationError Unit

/-- An attempt to produce an implementation, shared by all who wait for it. -/
inductive Flight where
  /-- Nobody has begun it. -/
  | idle
  /-- Somebody is at it. -/
  | running
  | finished (outcome : Outcome)

/-- The registry of one operation. -/
structure Registry where
  name : Text
  /-- The type of the entries, once somebody has asked for it. -/
  entryType : Option EntryType := none
  entries : Table Signature Entry := []
  /-- The flights under way, by number. -/
  flights : Table Signature Nat := []

/-- A look-up or an insertion, as a log shows it. -/
inductive Event where
  | looked (operation : Text) (signature : Signature)
  | stored (operation : Text) (signature : Signature)
  deriving DecidableEq, Repr

/-- How a log shows the event. -/
def Event.text : Event → Text
  | .looked operation signature =>
    "registry get operation=".toList ++ operation ++ " signature=".toList ++ signature.text
  | .stored operation signature =>
    "registry set operation=".toList ++ operation ++ " signature=".toList ++ signature.text

/-- All registries of a catalogue, and all flights there have been. -/
structure Registries where
  /-- Which registry has a name. -/
  index : Table Text Nat := []
  registries : List Registry := []
  flights : List Flight := []
  /-- What has happened, the latest first. -/
  journal : List Event := []

namespace Registries

/-! ## Registries by name -/

/-- The registry with this number. -/
def registry (rs : Registries) (r : Nat) : Registry := rs.registries.getD r { name := [] }

/-- The registries with one of them changed. -/
def update (rs : Registries) (r : Nat) (f : Registry → Registry) : Registries :=
  { rs with registries := rs.registries.modify r f }

/-- The number of the registry with this name, if there is one. -/
def find? (rs : Registries) (name : Text) : Option Nat := Table.get? name rs.index

/-- The number of the registry with this name, which is created unless it is there by now. -/
def create (rs : Registries) (name : Text) : Registries × Nat :=
  match rs.find? name with
  -- Somebody may have created it since the caller last looked.
  | some r => (rs, r)
  | none =>
    let r := rs.registries.length
    ({ rs with
        index := Table.insert name r rs.index
        registries := rs.registries ++ [{ name := name }] }, r)

/-- The names of the registries, in order. -/
def names (rs : Registries) : List Text := Table.keys rs.index

/--
Whether a registry has entries of the type asked for.  The first to ask decides it, and those after
are told the type that the registry has.
-/
def bind (rs : Registries) (r : Nat) (t : EntryType) : Registries × EntryType :=
  match (rs.registry r).entryType with
  | some t' => (rs, t')
  | none => (rs.update r fun registry => { registry with entryType := some t }, t)

/-! ## Entries -/

/-- The entry for a signature, if there is one. -/
def entry? (rs : Registries) (r : Nat) (signature : Signature) : Option Entry :=
  Table.get? signature (rs.registry r).entries

/-- Looks for the entry for a signature. -/
def look (rs : Registries) (r : Nat) (signature : Signature) : Registries × Option Entry :=
  ({ rs with journal := .looked (rs.registry r).name signature :: rs.journal },
    rs.entry? r signature)

/-- Inserts or replaces the entry for a signature. -/
def store (rs : Registries) (r : Nat) (signature : Signature) (entry : Entry) : Registries :=
  let rs := rs.update r fun registry =>
    { registry with entries := Table.insert signature entry registry.entries }
  { rs with journal := .stored (rs.registry r).name signature :: rs.journal }

/-- The known signatures, in order. -/
def signatures (rs : Registries) (r : Nat) : List Signature := Table.keys (rs.registry r).entries

/-! ## Flights -/

/-- What a caller that has missed an entry finds. -/
inductive Entrance where
  /-- The entry is there by now. -/
  | present
  /-- Another caller owns the flight. -/
  | joined (flight : Nat)
  /-- The flight is this caller's own. -/
  | owned (flight : Nat)
  deriving DecidableEq, Repr

/-- Joins the flight for a signature or starts one, unless the entry is there. -/
def enter (rs : Registries) (r : Nat) (signature : Signature) : Registries × Entrance :=
  match rs.entry? r signature with
  -- The entry may have come since the caller missed it.
  | some _ => (rs, .present)
  | none =>
    match Table.get? signature (rs.registry r).flights with
    | some f => (rs, .joined f)
    | none =>
      let f := rs.flights.length
      let rs := rs.update r fun registry =>
        { registry with flights := Table.insert signature f registry.flights }
      ({ rs with flights := rs.flights ++ [.idle] }, .owned f)

/-- The state of a flight. -/
def flight (rs : Registries) (f : Nat) : Flight := rs.flights.getD f .idle

/-- The flights with the state of one of them changed. -/
def setFlight (rs : Registries) (f : Nat) (state : Flight) : Registries :=
  { rs with flights := rs.flights.set f state }

/-- Takes the flight for a signature out of those under way. -/
def leave (rs : Registries) (r : Nat) (signature : Signature) : Registries :=
  rs.update r fun registry =>
    { registry with flights := Table.erase signature registry.flights }

/-! ## Access by name -/

/-- Inserts or replaces an entry of the named operation. -/
def insert (rs : Registries) (operation : Text) (signature : Signature) (entry : Entry) :
    Registries :=
  let (rs, r) := rs.create operation
  rs.store r signature entry

/-- Looks for an entry of the named operation. -/
def lookIn (rs : Registries) (operation : Text) (signature : Signature) :
    Registries × Option Entry :=
  match rs.find? operation with
  | some r => rs.look r signature
  | none => (rs, none)

/-- The known signatures of the named operation, in order. -/
def signaturesOf (rs : Registries) (operation : Text) : List Signature :=
  match rs.find? operation with
  | some r => rs.signatures r
  | none => []

/-- The number of the registry of an operation, which is created if need be and must fit. -/
def registryOf (rs : Registries) (operation : Operation) :
    Registries × Except DispatchError Nat :=
  let (rs, r) := rs.create operation.name
  let (rs, t) := rs.bind r operation.entryType
  (rs, if t = operation.entryType then .ok r
    else .error (.entryTypeMismatch operation.name t operation.entryType))

end Registries
end OnDemand
