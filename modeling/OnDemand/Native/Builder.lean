import OnDemand.Native.Compiler
import OnDemand.Native.Site

/-!
# Building modules on demand

The native means to produce entries: generate a source, build it unless that has been done, and load
what was built.  A source is staged so that its time changes only with its text, and a module is
built only when its source is newer.
-/

namespace OnDemand

/-- Builds the output of a job from its source. -/
abbrev Toolchain (τ : Type) := Job → Site τ → Site τ × Except BuildError Unit

/-- What loading a module comes to. -/
structure Loaded where
  /-- What the module registered, in order. -/
  insertions : List Insertion
  /-- How many entries it registered, if it did not fail. -/
  result : Except LoadError Nat

/-- Loads a module. -/
abbrev Loader (τ : Type) := Path → Site τ → Site τ × Loaded

/-- What is needed to build and load modules. -/
structure Builder (τ : Type) where
  settings : Settings
  /-- The plugin directory. -/
  plugins : Path
  toolchain : Toolchain τ
  loader : Loader τ

/-- A module that has been loaded. -/
structure Report where
  path : Path
  registered : Nat
  deriving DecidableEq, Repr

/-- What building and loading comes to: what was inserted, and the report. -/
structure Built where
  insertions : List Insertion := []
  result : Except BuildError Report

namespace Builder

variable {τ : Type}

/-- The place of a module, without an extension. -/
def base (b : Builder τ) (m : GeneratedModule) : Path := Path.join b.plugins m.base

/-- The source of a module. -/
def source (b : Builder τ) (m : GeneratedModule) : Path :=
  Path.withEnding (b.base m) Plugin.sourceEnding

/-- The built module. -/
def library (b : Builder τ) (m : GeneratedModule) : Path :=
  Path.withEnding (b.base m) Plugin.libraryEnding

/-- Writes the source of a module and gives its path. -/
def generate (b : Builder τ) (m : GeneratedModule) (s : Site τ) :
    Site τ × Except BuildError Path :=
  match s.stage (b.source m) m.source with
  | (s, .ok _) => (s, .ok (b.source m))
  | (s, .error e) => (s, .error e)

/-- The line about a build in the log of times.  No time passes while a toolchain works. -/
def timingLine (m : GeneratedModule) : Text :=
  "0ms, '".toList ++ m.base ++ "'\n".toList

/-- Records a build, if that is asked for and can be done. -/
def recordTime (b : Builder τ) (m : GeneratedModule) (s : Site τ) : Site τ :=
  match b.settings.timingLog with
  | some log => { s with disk := (s.disk.append log (timingLine m)).1 }
  | none => s

/-- Builds a module from its source, under a temporary name first. -/
def build (b : Builder τ) (m : GeneratedModule) (s : Site τ) :
    Site τ × Except BuildError Unit :=
  let (s, temporary) := s.temporary (b.base m) Plugin.libraryExtension
  match b.toolchain ⟨b.source m, temporary, m.linkArgs⟩ s with
  -- A toolchain that fails may have written some of its output.
  | (s, .error e) => ({ s with disk := (s.disk.remove temporary).1 }, .error e)
  | (s, .ok ()) =>
    match s.change (b.library m) fun d => d.rename temporary (b.library m) with
    | (s, .error e) => (s, .error e)
    | (s, .ok ()) => (b.recordTime m s, .ok ())

/-- Builds a module unless it is up to date. -/
def refresh (b : Builder τ) (m : GeneratedModule) (s : Site τ) :
    Site τ × Except BuildError Unit :=
  if s.disk.needsRebuild (b.source m) (b.library m) then b.build m s else (s, .ok ())

/-- Loads a built module. -/
def load (b : Builder τ) (m : GeneratedModule) (s : Site τ) : Site τ × Built :=
  let (s, loaded) := b.loader (b.library m) s
  (s, {
    insertions := loaded.insertions
    result := match loaded.result with
      | .ok registered => .ok ⟨b.library m, registered⟩
      | .error e => .error (.load e) })

/-- Generates, builds and loads a module. -/
def buildAndLoad (b : Builder τ) (m : GeneratedModule) (s : Site τ) : Site τ × Built :=
  match b.generate m s with
  | (s, .error e) => (s, { result := .error e })
  | (s, .ok _) =>
    match b.refresh m s with
    | (s, .error e) => (s, { result := .error e })
    | (s, .ok ()) => b.load m s

/-- Builds and loads a module that may have no source. -/
def produce (b : Builder τ) (m : Except GenerationError GeneratedModule) (s : Site τ) :
    Site τ × Built :=
  match m with
  | .error e => (s, { result := .error (.generation e) })
  | .ok m => b.buildAndLoad m s

/-- Builds and loads the module of an operation for a signature. -/
def compile (b : Builder τ) (operation : Text) (signature : Signature) (s : Site τ) :
    Site τ × Built :=
  b.produce (GeneratedModule.ofAlgorithm operation signature) s

/-- Builds and loads the module of a context. -/
def compileContext (b : Builder τ) (context : Text) (s : Site τ) : Site τ × Built :=
  b.produce (GeneratedModule.ofContext context) s

/-- Produces missing entries by building and loading modules. -/
def specializer (b : Builder τ) : Specializer (Site τ) := fun request _ s =>
  let (s, built) := b.compile request.operation request.signature s
  { insertions := built.insertions
    outcome := match built.result with
      | .ok _ => .ok ()
      | .error e => .error (e.toSpecialization b.settings.verbose)
    state := s }

end Builder
end OnDemand
