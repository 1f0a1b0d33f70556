import OnDemand.Native.Builder
import OnDemand.Trial.StandIn

/-!
# Tools for trials

Tools that stand in for a compiler, for a loader of modules, and for all of them together.  The
toolchain copies sources; the loader reads back what a copied source would register.
-/

namespace OnDemand.Trial

/-- What the tools remember. -/
structure Memory where
  builds : Nat := 0
  loads : Nat := 0
  /-- What the scripted specializer was asked for, the latest first. -/
  requests : List Request := []

/-! ## A scripted specializer -/

/-- What a scripted specializer does whenever it is asked. -/
structure Behaviour where
  insertions : List Insertion := []
  /-- The entry for the request, if it gets one. -/
  entry : Option Entry := none
  failure : Option SpecializationError := none

/-- The specializer that behaves so. -/
def Behaviour.specializer (b : Behaviour) : Specializer (Site Memory) := fun request _ s =>
  let own : List Insertion := match b.entry with
    | some entry => [⟨request.operation, request.signature, entry⟩]
    | none => []
  { insertions := b.insertions ++ own
    outcome := match b.failure with
      | some e => .error e
      | none => .ok ()
    state := { s with memory := { s.memory with requests := request :: s.memory.requests } } }

/-! ## A toolchain that copies -/

/-- An operation whose sources are refused, and what is reported then. -/
structure Refusal where
  operation : Text
  report : Text

/-- Whether the source is one that is refused. -/
def Refusal.appliesTo (r : Refusal) (source : Text) : Bool :=
  Text.contains ('"' :: r.operation ++ "\",".toList) source

/-- The command that the report of a refusal shows. -/
def commandText (job : Job) : Text :=
  "fake ".toList ++ job.source ++ ' ' :: Text.joinWith " ".toList job.linkArgs

/-- Copies the source to the output, unless it is refused. -/
def copying (refusals : List Refusal) : Toolchain Memory := fun job s =>
  let s := { s with memory := { s.memory with builds := s.memory.builds + 1 } }
  match s.disk.read job.source with
  | .error fault => (s, .error (.io job.source fault.message))
  | .ok source =>
    match refusals.find? fun r => r.appliesTo source with
    | some r =>
      (s, .error (.compile (Diagnostics.assertions r.report) (commandText job) r.report))
    | none => s.change job.output fun d => d.copy job.source job.output

/-- Runs a compiler. -/
def compiling (compiler : Compiler) : Toolchain Memory := fun job s => (s, compiler.run job)

/-! ## Modules -/

/-- How a module ends that has made all of its calls. -/
inductive Close where
  | with (status : Status)
  /-- With the answer to its last call. -/
  | asAnswered
  deriving DecidableEq, Repr

/--
The module that makes the calls in order, the last answer being `last` so far.  A `careful` one ends
with the first answer that is a refusal.
-/
def scriptOf (careful : Bool) (close : Close) (last : Status) : List Call → Script
  | [] =>
    match close with
    | .with status => .finish status
    | .asAnswered => .finish last
  | c :: cs =>
    .call c fun answer =>
      if careful && answer ≠ .ok then .finish answer else scriptOf careful close answer cs

/-! ## Loaders -/

/-- The registration that the text after `host.register(` describes. -/
def registration? (t : Text) : Option (Text × Signature) := do
  let (operation, r) ← Quoted.read? (Text.trimStart t)
  let r ← Text.dropPrefix? ",".toList r
  let r ← Text.dropPrefix? "&".toList (Text.trimStart r)
  return (operation, ← Quoted.readList? r)

/-- The registrations that a source makes. -/
def registrations : Text → List (Text × Signature)
  | [] => []
  | c :: t =>
    match (Text.dropPrefix? "host.register(".toList (c :: t)).bind registration? with
    | some found => found :: registrations t
    | none => registrations t

/-- What loaders do with the registrations they find. -/
inductive Diligence where
  /-- They make them. -/
  | diligent
  /-- They forget to make them. -/
  | forgetful
  deriving DecidableEq, Repr

/-- The name that a module must mention. -/
def entryName : Text := "vcsn_register_v1".toList

/-- Reads back what a copied source registers. -/
def reading (diligence : Diligence) : Loader Memory := fun path s =>
  let s := { s with memory := { s.memory with loads := s.memory.loads + 1 } }
  match s.disk.read path with
  | .error fault => (s, ⟨[], .error (.unopened path fault.message)⟩)
  | .ok source =>
    if !Text.contains entryName source then (s, ⟨[], .error (.registration path .failed 0)⟩)
    else
      let found := match diligence with
        | .diligent => registrations source
        | .forgetful => []
      (s, ⟨found.map fun (operation, signature) => ⟨operation, signature, StandIn.entry 0⟩,
        .ok found.length⟩)

@[simp] theorem disk_reading (diligence : Diligence) (p : Path) (s : Site Memory) :
    (reading diligence p s).1.disk = s.disk := by
  unfold reading
  dsimp only
  split
  · rfl
  · split <;> rfl

/-- Why the platform does not open a file: it is no library. -/
def noLibrary (path : Path) : LoadError := .unopened path "not a library".toList

/-- The platform's loader, to which no file that can be built here is a library. -/
def platform : Loader Memory := fun path s => (s, ⟨[], .error (noLibrary path)⟩)

end OnDemand.Trial
