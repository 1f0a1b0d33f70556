import OnDemand.Disk.Changes
import OnDemand.Native.Error

/-!
# Sites

A site is where modules are built: a disk, and what temporary names are made from.  A file is staged
by writing a temporary one and moving it into place, so that nobody ever sees half of it.
-/

namespace OnDemand

/-- Where modules are built, for a process whose tools have a memory of their own. -/
structure Site (τ : Type) where
  disk : Disk
  /-- The number of the process. -/
  process : Nat
  /-- How many temporary names there have been. -/
  serial : Nat := 0
  memory : τ

namespace Site

variable {τ : Type}

/-- A temporary name next to `base`, which has not been used before. -/
def temporary (s : Site τ) (base : Path) (extension : Text) : Site τ × Path :=
  ({ s with serial := s.serial + 1 },
    Path.withEnding base
      ('.' :: Text.ofNat s.process ++ '.' :: Text.ofNat s.serial ++ '.' :: extension))

/-- Makes a change to the disk; a fault is reported for `path`. -/
def change (s : Site τ) (path : Path) (f : Disk → Disk.Change) :
    Site τ × Except BuildError Unit :=
  match f s.disk with
  | (disk, .ok ()) => ({ s with disk }, .ok ())
  | (disk, .error fault) => ({ s with disk }, .error (.io path fault.message))

/-- Creates the directory that a file belongs to. -/
def prepare (s : Site τ) (target : Path) : Site τ × Except BuildError Unit :=
  match Path.parent? target with
  | some dir => s.change dir fun d => d.makeDirectories dir
  | none => (s, .ok ())

/-- Writes a temporary file. -/
def draft (s : Site τ) (temporary : Path) (content : Text) : Site τ × Except BuildError Unit :=
  s.change temporary fun d => d.write temporary (.text content)

/-- Removes a temporary file.  The target did not change. -/
def discard (s : Site τ) (temporary : Path) : Site τ × Except BuildError Bool :=
  match s.change temporary fun d => d.remove temporary with
  | (s, .ok ()) => (s, .ok false)
  | (s, .error e) => (s, .error e)

/-- Moves a temporary file into place.  The target did change. -/
def publish (s : Site τ) (temporary target : Path) : Site τ × Except BuildError Bool :=
  match s.change target fun d => d.rename temporary target with
  | (s, .ok ()) => (s, .ok true)
  | (s, .error e) => (s, .error e)

/-- Makes the temporary file the target, unless the target has been seen to hold the same. -/
def settle (s : Site τ) (temporary target : Path) (same : Bool) :
    Site τ × Except BuildError Bool :=
  if same then s.discard temporary else s.publish temporary target

/--
Writes a file through a temporary one, and says whether it changed.  A target that holds the same
text already is left alone, so that its time tells when its text last changed.
-/
def stage (s : Site τ) (target : Path) (content : Text) : Site τ × Except BuildError Bool :=
  match s.prepare target with
  | (s, .error e) => (s, .error e)
  | (s, .ok ()) =>
    let (s, temporary) := s.temporary target "tmp".toList
    match s.draft temporary content with
    | (s, .error e) => (s, .error e)
    | (s, .ok ()) => s.settle temporary target (s.disk.holds target content)

end Site

namespace Disk

/-- Whether the output is missing or older than the source. -/
def needsRebuild (d : Disk) (source output : Path) : Bool :=
  match d.time? source, d.time? output with
  | some src, some out => out < src
  | _, _ => true

end Disk

/-- A generated module on a disk. -/
structure Artifact where
  located : Plugin.Located
  source : Path
  /-- Whether there is a module beside the source that is up to date. -/
  built : Bool
  deriving DecidableEq, Repr

namespace Artifact

/-- The artifact whose source is at `source`, if it is one under `plugins`. -/
def ofSource? (d : Disk) (plugins source : Path) : Option Artifact := do
  let base ← Text.dropSuffix? Plugin.sourceEnding source
  let located ← Plugin.located? plugins source
  return {
    located
    source
    built := !d.needsRebuild source (Path.withEnding base Plugin.libraryEnding) }

/-- What artifacts are sorted by. -/
def key (a : Artifact) : List (List Text) :=
  [[a.located.kind.directory], [a.located.operation], [a.located.name], Path.components a.source]

/-- The artifacts under a plugin directory, in order. -/
def inventory (d : Disk) (plugins : Path) : List Artifact :=
  ((d.filesBelow plugins).filterMap (ofSource? d plugins)).mergeSort fun a b => ¬ b.key < a.key

end Artifact
end OnDemand
