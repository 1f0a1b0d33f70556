import OnDemand.Dispatch.Concurrent
import OnDemand.Settings.Loading
import OnDemand.Trial.Tools

/-!
# Sessions

A session is a catalogue at work on a site: it remembers which builder was installed last, and
whether the events of the registries are shown.
-/

namespace OnDemand.Trial

/-- An empty directory to work in, on a disk whose clock shows `clock`. -/
def emptySite (clock process : Nat) : Site Memory :=
  let here : Place := ["tmp".toList, "work".toList]
  let disk : Disk := { clock, here }
  { disk := (disk.makeDirectories ("/".toList ++ Text.joinWith "/".toList here)).1
    process
    memory := {} }

/-- A session. -/
structure Session where
  catalogue : Catalogue (Site Memory) := {}
  site : Site Memory
  /-- The builder that was made last. -/
  builder : Option (Builder Memory) := none
  /-- Whether events are shown. -/
  debug : Bool := false

namespace Session

/-! ## Specializers -/

/-- Installs what produces missing entries. -/
def install (s : Session) (specializer : Specializer (Site Memory)) : Session :=
  { s with catalogue := { s.catalogue with specializer := some specializer } }

/-- Which toolchain a builder uses. -/
inductive Tool where
  | copying (refusals : List Refusal)
  | compiler
  deriving Inhabited

/-- The toolchain, or why there is none. -/
def Tool.toolchain (programs : List Program) (settings : Settings) :
    Tool → Except BuildError (Toolchain Memory)
  | .copying refusals => .ok (Trial.copying refusals)
  | .compiler => (Compiler.find? programs settings).map compiling

/-- Makes a builder and installs it. -/
def installBuilder (s : Session) (around : Surroundings) (programs : List Program)
    (settings : Settings) (tool : Tool) (loader : Loader Memory) :
    Session × Except BuildError Path :=
  match tool.toolchain programs settings with
  | .error e => (s, .error e)
  | .ok toolchain =>
    let plugins := settings.pluginDirectory around
    let builder : Builder Memory := { settings, plugins, toolchain, loader }
    ({ s.install builder.specializer with builder := some builder }, .ok plugins)

/-! ## Look-ups and calls -/

/-- Opens the registry of an operation. -/
def openRegistry (s : Session) (operation : Operation) : Session × Except DispatchError Nat :=
  let (catalogue, result) := s.catalogue.openRegistry operation
  ({ s with catalogue }, result)

/-- The session with its registries changed. -/
def withRegistries (s : Session) (rs : Registries) : Session :=
  { s with catalogue := { s.catalogue with registries := rs } }

/-- The entry for a signature, if there is one. -/
def find? (s : Session) (r : Nat) (signature : Signature) : Session × Option Entry :=
  let (rs, entry) := s.catalogue.registries.look r signature
  (s.withRegistries rs, entry)

/-- The entry of the named operation for a signature, if there is one. -/
def findIn? (s : Session) (operation : Text) (signature : Signature) : Session × Option Entry :=
  let (rs, entry) := s.catalogue.registries.lookIn operation signature
  (s.withRegistries rs, entry)

/-- Inserts an entry into an open registry. -/
def store (s : Session) (r : Nat) (signature : Signature) (entry : Entry) : Session :=
  s.withRegistries (s.catalogue.registries.store r signature entry)

/-- Inserts an entry of the named operation. -/
def insert (s : Session) (operation : Text) (signature : Signature) (entry : Entry) : Session :=
  s.withRegistries (s.catalogue.registries.insert operation signature entry)

/-- The entry for a signature, produced if it is missing. -/
def get (s : Session) (r : Nat) (operation : Operation) (signature : Signature) :
    Session × Except DispatchError Entry :=
  let (catalogue, result, site) := s.catalogue.get r operation signature s.site
  ({ s with catalogue, site }, result)

/-- The answers to callers that look up the same signature at once. -/
def together (s : Session) (r : Nat) (operation : Operation) (signature : Signature)
    (callers : Nat) : Session × List (Except DispatchError Entry) :=
  let (catalogue, results, site) :=
    s.catalogue.together r operation signature callers s.site
  ({ s with catalogue, site }, results)

/-- What a call comes to. -/
inductive Answer where
  | result (r : Operand)
  /-- The entry point failed. -/
  | rejected (message : Text)
  /-- There was nothing to call. -/
  | missing (e : CallError)

/-- Performs what is to be called. -/
def Answer.of (operation : Operation) : Except CallError Invocation → Answer
  | .error e => .missing e
  | .ok i =>
    match StandIn.perform operation.entryType i with
    | .ok r => .result r
    | .error message => .rejected message

/-- Calls an operation in its open registry, perhaps under a signature of one's own. -/
def call (s : Session) (r : Nat) (operation : Operation) (signature : Option Signature)
    (operands : List Operand) : Session × Answer :=
  let (catalogue, result, site) :=
    s.catalogue.callWith r operation (signature.getD (Signature.ofOperands operands)) operands
      s.site
  ({ s with catalogue, site }, Answer.of operation (result.mapError .dispatch))

/-- Calls an operation by its name. -/
def apply (s : Session) (operation : Operation) (operands : List Operand) : Session × Answer :=
  let (catalogue, result, site) := s.catalogue.apply operation operands s.site
  ({ s with catalogue, site }, Answer.of operation (result.mapError .dispatch))

/-- Makes a context by its name. -/
def makeContext (s : Session) (name : Text) : Session × Answer :=
  let (catalogue, result, site) := s.catalogue.makeContext name s.site
  ({ s with catalogue, site }, Answer.of Operation.makeContext result)

/-! ## Modules -/

/-- Runs a module against the registries. -/
def loadModule (s : Session) (script : Script) : Session × Run :=
  let run := script.runAgainst s.catalogue.registries
  (s.withRegistries run.registries, run)

/-- Keeps what building a module changed. -/
def keep (s : Session) : Site Memory × Built → Session × Except BuildError Report
  | (site, built) =>
    ({ s.withRegistries (s.catalogue.registries.insertAll built.insertions) with site },
      built.result)

/-- Builds and loads the module of an operation for a signature. -/
def compile (s : Session) (b : Builder Memory) (operation : Text) (signature : Signature) :
    Session × Except BuildError Report :=
  s.keep (b.compile operation signature s.site)

/-- Builds and loads the module of a context. -/
def compileContext (s : Session) (b : Builder Memory) (context : Text) :
    Session × Except BuildError Report :=
  s.keep (b.compileContext context s.site)

/-- Writes the source of the module of an operation for a signature. -/
def generate (s : Session) (b : Builder Memory) (operation : Text) (signature : Signature) :
    Session × Except BuildError Path :=
  match GeneratedModule.ofAlgorithm operation signature with
  | .error e => (s, .error (.generation e))
  | .ok m =>
    let (site, result) := b.generate m s.site
    ({ s with site }, result)

/-- Stages a file. -/
def stage (s : Session) (path : Path) (content : Text) : Session × Except BuildError Bool :=
  let (site, result) := s.site.stage path content
  ({ s with site }, result)

/-! ## Files -/

/-- Changes the disk. -/
def onDisk (s : Session) (f : Disk → Disk) : Session :=
  { s with site := { s.site with disk := f s.site.disk } }

/-- Writes a file and gives it a time, if one is named; directories are created as needed. -/
def write (s : Session) (path : Path) (content : Content) (time : Option Nat) : Session :=
  s.onDisk fun d =>
    let d := d.install path content
    match time with
    | some t => d.setTime path t
    | none => d

/-- Removes a file, and says whether there was one to remove. -/
def remove (s : Session) (path : Path) : Session × Bool :=
  match s.site.disk.remove path with
  | (disk, .ok ()) => (s.onDisk fun _ => disk, true)
  | (disk, .error _) => (s.onDisk fun _ => disk, false)

/-! ## Events -/

/-- The session without events, and the events as they are shown, in order. -/
def takeEvents (s : Session) : Session × List Text :=
  let rs := s.catalogue.registries
  (s.withRegistries { rs with journal := [] },
    if s.debug then (rs.journal.map Event.text).reverse else [])

end Session
end OnDemand.Trial
