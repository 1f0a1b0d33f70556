import OnDemand.Disk.Basic
import OnDemand.Dispatch.Catalogue

/-!
# Hosts and modules

A loaded module registers its entry points by calling back the host that runs it.  Texts cross that
boundary as bytes, and pointers may be null, so the host checks all of a call before it changes
anything.
-/

namespace OnDemand

/-- What a call across the boundary comes to. -/
inductive Status where
  | ok
  | failed
  | incompatible
  | invalidArgument
  deriving DecidableEq, Repr

/-- How a status is shown. -/
def Status.text : Status → Text
  | .ok => "Ok".toList
  | .failed => "Failed".toList
  | .incompatible => "Incompatible".toList
  | .invalidArgument => "InvalidArgument".toList

/-! ## What modules pass -/

/-- A view of bytes, or a null pointer that claims a length. -/
inductive View where
  | null (length : Nat)
  | slice (bytes : List UInt8)
  deriving DecidableEq, Repr

/-- The text in view; there is an empty one behind a null pointer, whatever it claims. -/
def View.text? : View → Option Text
  | .null _ => some []
  | .slice bytes => Content.decode? bytes

/-- A list of views, or a null pointer that claims a length. -/
inductive Views where
  | null (length : Nat)
  | list (views : List View)
  deriving DecidableEq, Repr

/-- The texts in view; behind a null pointer there are none, and none may be claimed. -/
def Views.texts? : Views → Option (List Text)
  | .null 0 => some []
  | .null (_ + 1) => none
  | .list views => views.mapM View.text?

/-- A call of the host by a module. -/
structure Call where
  /-- Whether the host's own handle is passed, rather than a null pointer. -/
  handle : Bool := true
  operation : View
  signature : Views
  /-- The entry point, or a null pointer. -/
  entry : Option Entry
  deriving DecidableEq, Repr

/-- The insertion that the call asks for, if it can be made. -/
def Call.insertion? (c : Call) : Option Insertion :=
  if c.handle then do
    let operation ← c.operation.text?
    let signature ← c.signature.texts?
    let entry ← c.entry
    return ⟨operation, signature, entry⟩
  else none

/-! ## Running a module -/

/-- What a module does when it is run: calls of the host, each with an answer, and a status. -/
inductive Script where
  | finish (status : Status)
  | call (c : Call) (next : Status → Script)

/-- Registries that a module is being run against. -/
structure Loading where
  registries : Registries
  /-- How many entries the module has registered. -/
  count : Nat := 0

namespace Loading

/-- Answers a call of the module. -/
def register (l : Loading) (c : Call) : Loading × Status :=
  match c.insertion? with
  | some i => (⟨l.registries.insert i.operation i.signature i.entry, l.count + 1⟩, .ok)
  | none => (l, .invalidArgument)

/-- Runs a module: its calls are answered in order.  The answers are kept. -/
def run (l : Loading) : Script → Loading × List Status × Status
  | .finish status => (l, [], status)
  | .call c next =>
    let (l, status) := l.register c
    let (l, answers, last) := l.run (next status)
    (l, status :: answers, last)

end Loading

/-- What running a module comes to. -/
structure Run where
  registries : Registries
  /-- The answers to its calls. -/
  answers : List Status
  /-- How many entries it registered, and the status it ended with if that is a failure. -/
  result : Except (Status × Nat) Nat

/-- Runs a module against registries. -/
def Script.runAgainst (script : Script) (rs : Registries) : Run :=
  let (l, answers, status) := Loading.run { registries := rs } script
  { registries := l.registries
    answers
    result := if status = .ok then .ok l.count else .error (status, l.count) }

/-! ## The module's view of the host -/

/-- The version of the boundary. -/
def hostVersion : Nat := 1

/-- The size of the table that a host passes. -/
def hostSize : Nat := 32

/-- The table that a host passes to the modules it runs. -/
structure HostTable where
  size : Nat
  version : Nat
  /-- The host's answer to a call. -/
  register : Call → Status

/-- A host that has passed a table fit for use. -/
structure Host where
  table : HostTable

namespace Host

/-- The host behind a pointer to a table. -/
def ofTable? : Option HostTable → Except Status Host
  | none => .error .invalidArgument
  | some table =>
    -- A table that is larger than needed only has more to offer.
    if table.version ≠ hostVersion ∨ table.size < hostSize then .error .incompatible
    else .ok ⟨table⟩

/-- The bytes of a text, in view. -/
def view (t : Text) : View := .slice (Content.text t).bytes

/-- Registers an entry point; the host is not asked about a null one. -/
def register (h : Host) (operation : Text) (signature : Signature) (entry : Option Entry) :
    Status :=
  match entry with
  | none => .invalidArgument
  | some _ =>
    h.table.register
      { operation := view operation, signature := .list (signature.map view), entry }

end Host
end OnDemand
