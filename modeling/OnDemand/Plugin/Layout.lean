import OnDemand.Path

/-!
# Layout of the plugin directory

Modules lie under `algos/<operation>/<signature>` and `contexts/<context>`.  Type names can be
arbitrarily long, so a component derived from one is cut into segments.  `Plugin.located?` reads a
place back.
-/

namespace OnDemand.Plugin

/-! ## Places -/

/-- How many characters of a type name one component holds. -/
def segmentLength : Nat := 150

/-- The text cut into segments, the first of which takes `room` characters. -/
def cut : (room : Nat) → Text → Text
  | _, [] => []
  -- A segment begins only when there is something to put into it.
  | 0, c :: t => '/' :: c :: cut (segmentLength - 1) t
  | room + 1, c :: t => c :: cut room t

/-- The name as a path: underscores take the place of its slashes, and then it is cut. -/
def splitLong (name : Text) : Path := cut segmentLength (Text.replace '/' ['_'] name)

/-- The two kinds of module. -/
inductive Kind where
  /-- One operation for one signature. -/
  | algorithm
  /-- All that a context comes with. -/
  | context
  deriving DecidableEq, Repr

/-- The directory of the modules of this kind. -/
def Kind.directory : Kind → Text
  | .algorithm => "algos".toList
  | .context => "contexts".toList

/-- Where the module of `operation` for a signature lies, without an extension. -/
def algorithmBase (operation signature : Text) : Path :=
  Path.join (Path.join Kind.algorithm.directory operation) (splitLong signature)

/-- Where the module of a context lies, without an extension. -/
def contextBase (context : Text) : Path :=
  Path.join Kind.context.directory (splitLong context)

/-- The ending of sources. -/
def sourceEnding : Text := ".rs".toList

/-- The extension of built modules. -/
def libraryExtension : Text := "so".toList

/-- The ending of built modules. -/
def libraryEnding : Text := '.' :: libraryExtension

/-! ## Reading a place back -/

/-- What the place of a module tells of it. -/
structure Located where
  kind : Kind
  /-- Empty for a context. -/
  operation : Text
  /-- The signature or the context. -/
  name : Text
  deriving DecidableEq, Repr

/-- What the components below the plugin directory tell of a module. -/
def Located.ofComponents? : List Text → Option Located
  | folder :: operation :: segment :: segments =>
    if folder = Kind.algorithm.directory then
      some ⟨.algorithm, operation, (segment :: segments).flatten⟩
    else if folder = Kind.context.directory then
      some ⟨.context, [], (operation :: segment :: segments).flatten⟩
    else none
  | [folder, name] =>
    if folder = Kind.context.directory then some ⟨.context, [], name⟩ else none
  | _ => none

/-- What the source at `source` is the source of, if it is one under `plugins`. -/
def located? (plugins source : Path) : Option Located := do
  let base ← Text.dropSuffix? sourceEnding source
  Located.ofComponents? (← Path.componentsBelow? plugins base)

end OnDemand.Plugin
