import OnDemand.Dispatch.Catalogue

/-!
# Operations

The operations that can be called, and what is called for them.  The registry of an operation is
opened by its first call.
-/

namespace OnDemand

namespace EntryType

/-- From an automaton to an automaton. -/
def unary : EntryType := ⟨[.value], .value⟩

/-- A question about an automaton. -/
def predicate : EntryType := ⟨[.value], .bool⟩

/-- From an automaton and the name of an algorithm. -/
def withAlgorithm : EntryType := ⟨[.value, .string], .value⟩

end EntryType

namespace Operation

/-- An operation that has a declaration. -/
def named (name : String) (t : EntryType) : Operation := ⟨name.toList, t⟩

/-- The operation that makes a context from its full name. -/
def makeContext : Operation := named "make_context" ⟨[.string], .value⟩

/-- The declared operations, by name. -/
def declared : List Operation := [
  named "accessible" .unary,
  named "coaccessible" .unary,
  named "codeterminize" .withAlgorithm,
  named "complete" .unary,
  named "derivation" ⟨[.value, .value, .bool], .value⟩,
  named "determinize" .withAlgorithm,
  named "focus" ⟨[.value, .integral], .value⟩,
  named "is_deterministic" .predicate,
  named "is_proper" .predicate,
  named "is_trim" .predicate,
  makeContext,
  named "minimize" .withAlgorithm,
  named "product" ⟨[.value, .value], .value⟩,
  named "proper" ⟨[.value, .direction, .bool], .value⟩,
  named "shortest" ⟨[.value, .unsigned], .value⟩,
  named "transpose" .unary,
  named "trim" .unary]

/-- The declared operation with this name. -/
def declared? (name : Text) : Option Operation := declared.find? fun op => op.name = name

end Operation

/-- Why a call by name gives nothing to call. -/
inductive CallError where
  /-- The name of a context is none. -/
  | malformed (e : DescriptorError)
  | dispatch (e : DispatchError)
  deriving DecidableEq, Repr

namespace Catalogue

variable {σ : Type}

/-- What is to be called for an operation on the operands. -/
def apply (c : Catalogue σ) (operation : Operation) (operands : List Operand) (state : σ) :
    Catalogue σ × Except DispatchError Invocation × σ :=
  match c.openRegistry operation with
  | (c, .error e) => (c, .error e, state)
  | (c, .ok r) => c.call r operation operands state

/-- What is to be called for an operation on the operands, under a signature of one's own. -/
def applyWith (c : Catalogue σ) (operation : Operation) (signature : Signature)
    (operands : List Operand) (state : σ) :
    Catalogue σ × Except DispatchError Invocation × σ :=
  match c.openRegistry operation with
  | (c, .error e) => (c, .error e, state)
  | (c, .ok r) => c.callWith r operation signature operands state

/--
What is to be called to make the named context.  It is looked up by the short name of the context
and gets the full one.
-/
def makeContext (c : Catalogue σ) (name : Text) (state : σ) :
    Catalogue σ × Except CallError Invocation × σ :=
  match normalizeContext name with
  | .error e => (c, .error (.malformed e), state)
  | .ok n =>
    -- Contexts that differ in their alphabets share an entry point, which gets the alphabet.
    let (c, result, state) := c.applyWith Operation.makeContext [n.short] [.string n.full] state
    (c, result.mapError .dispatch, state)

end Catalogue
end OnDemand
