import OnDemand.Path
import OnDemand.Text.Blank
import OnDemand.Settings.Statement

/-!
# Settings

What the builder of modules can be told: from a settings file, and then, setting by setting, by
environment variables.
-/

namespace OnDemand

/-- The directories that settings refer to. -/
structure Surroundings where
  /-- The home directory. -/
  home : Path
  /-- The directory of temporary files. -/
  temporary : Path
  deriving DecidableEq, Repr

/-- The value of a variable, if it has one. -/
abbrev Environment := Text → Option Text

/--
The directories that the environment names.  Where it names no home directory, that of the account
holds if it has one, and else the directory of temporary files.
-/
def Surroundings.ofEnvironment (account : Option Path) (env : Environment) : Surroundings :=
  let temporary := (env "TMPDIR".toList).getD "/tmp".toList
  let named := (env "HOME".toList).filter fun home => !home.isEmpty
  { home := (named <|> account).getD temporary, temporary }

/-- The settings. -/
structure Settings where
  /-- The compiler, if it is not the usual one. -/
  compiler : Option Path := none
  flags : List Text := []
  edition : Text := "2024".toList
  optimization : Text := "2".toList
  /-- The libraries that modules are linked against, by name. -/
  externs : Table Text Path := []
  /-- Where the compiler looks for libraries. -/
  libraryPath : List Path := []
  /-- Where sources and modules belong, if not under `home`. -/
  plugins : Option Path := none
  /-- Whether errors show all that the compiler reports. -/
  verbose : Bool := false
  /-- Whether intermediate files are kept. -/
  debug : Bool := false
  /-- The file that gets a line for each build. -/
  timingLog : Option Path := none
  /-- The directory of the settings file. -/
  home : Path
  deriving DecidableEq, Repr

namespace Settings

/-- The directory of the settings file when none is named. -/
def usualHome (around : Surroundings) : Path := Path.join around.home ".vcsn".toList

/-- The settings that hold when nothing is said. -/
def usual (around : Surroundings) : Settings := { home := usualHome around }

/-- Where sources and modules belong. -/
def pluginDirectory (s : Settings) (around : Surroundings) : Path :=
  match s.plugins with
  | some dir => Path.expandTilde around.home dir
  | none => Path.join s.home "plugins".toList

/-! ## Settings files -/

/-- The name of the table of libraries. -/
def externKey : Text := "extern".toList

/-- How the table of libraries has come to be. -/
inductive Externs where
  /-- It has not been mentioned. -/
  | absent
  /-- As a value: nothing can be added. -/
  | closed
  /-- By keys that name its entries: more of them can be added. -/
  | dotted
  /-- By its own heading, under which its entries stand. -/
  | headed
  deriving DecidableEq, Repr

/-- The settings read so far. -/
structure Reading where
  settings : Settings
  /-- The keys that have a value. -/
  assigned : List Text := []
  externs : Externs := .absent
  deriving DecidableEq, Repr

/-- The settings that are texts, by key. -/
def textSettings : List (Text × (Text → Settings → Settings)) := [
  ("rustc".toList, fun t s => { s with compiler := some t }),
  ("edition".toList, fun t s => { s with edition := t }),
  ("opt_level".toList, fun t s => { s with optimization := t }),
  ("plugindir".toList, fun t s => { s with plugins := some t }),
  ("timing_log".toList, fun t s => { s with timingLog := some t })]

/-- The settings that are lists of texts, by key. -/
def listSettings : List (Text × (List Text → Settings → Settings)) := [
  ("rustflags".toList, fun ts s => { s with flags := ts }),
  ("library_path".toList, fun ts s => { s with libraryPath := ts })]

/-- The settings that are flags, by key. -/
def flagSettings : List (Text × (Bool → Settings → Settings)) := [
  ("verbose".toList, fun b s => { s with verbose := b }),
  ("debug".toList, fun b s => { s with debug := b })]

/-- The settings with the setting `key` set to the value, if it can have it. -/
def assign? (s : Settings) (key : Text) : Item → Option Settings
  | .text t => (textSettings.lookup key).map fun set => set t s
  | .texts ts => (listSettings.lookup key).map fun set => set ts s
  | .flag b => (flagSettings.lookup key).map fun set => set b s
  | .table _ => none

/-- The libraries with one more, whose name must be new. -/
def addExtern? (s : Settings) (name path : Text) : Option Settings :=
  match Table.get? name s.externs with
  | some _ => none
  | none => some { s with externs := Table.insert name path s.externs }

namespace Reading

/-- Follows one statement of a settings file. -/
def follow (r : Reading) : Statement → Option Reading
  | .open key =>
    if key = [externKey] ∧ r.externs = .absent then some { r with externs := .headed } else none
  | .assign key item =>
    -- Under the heading every key is the name of a library.
    if r.externs = .headed then
      match key, item with
      | [name], .text path => do return { r with settings := ← r.settings.addExtern? name path }
      | _, _ => none
    else
      match key, item with
      | [table, name], .text path =>
        if table = externKey ∧ r.externs ≠ .closed then do
          return { r with settings := ← r.settings.addExtern? name path, externs := .dotted }
        else none
      | [key], .table entries =>
        if key = externKey ∧ r.externs = .absent then do
          let s ← entries.foldlM (fun s (name, path) => s.addExtern? name path) r.settings
          return { r with settings := s, externs := .closed }
        else none
      | [key], item =>
        if r.assigned.contains key then none
        else do
          let settings ← r.settings.assign? key item
          return { r with settings, assigned := key :: r.assigned }
      | _, _ => none

end Reading

/-- The settings that a settings file describes, if it is one. -/
def ofFile? (around : Surroundings) (file : Text) : Option Settings := do
  let r ← (← statements? file).foldlM Reading.follow { settings := usual around }
  return r.settings

/-! ## Environment variables -/

/-- A variable that cannot have its value. -/
structure InvalidVariable where
  name : Text
  problem : Text
  deriving DecidableEq, Repr

/-- What is reported of the variable. -/
def InvalidVariable.message (v : InvalidVariable) : Text :=
  "invalid $".toList ++ v.name ++ ": ".toList ++ v.problem

/-- Whether the value of a variable means yes. -/
def isYes (value : Text) : Bool := !value.isEmpty && value != "0".toList

/-- The levels of optimization. -/
def optimizations : List Text :=
  ["0".toList, "1".toList, "2".toList, "3".toList, "s".toList, "z".toList]

/-- The refusal of a level of optimization. -/
def invalidOptimization (value : Text) : InvalidVariable :=
  ⟨"VCSN_OPT_LEVEL".toList, "expected 0-3, s or z, got ".toList ++ Quoted.text value⟩

/-- The refusal of an item in a list of libraries. -/
def invalidExtern (item : Text) : InvalidVariable :=
  ⟨"VCSN_EXTERN".toList, "expected name=path, got ".toList ++ Quoted.text item⟩

/-- The items of a list of libraries, which semicolons separate. -/
def externItems (value : Text) : List Text :=
  ((Text.splitAt ';' value).map Text.trim).filter fun item => !item.isEmpty

/-- The library that an item names. -/
def externOfItem (item : Text) : Except InvalidVariable (Text × Path) :=
  match Text.splitFirst? "=".toList item with
  | some (name, path) => .ok (Text.trim name, Text.trim path)
  | none => .error (invalidExtern item)

/-- The file that gets a line for each build when the variable says so. -/
def timingLogOf (around : Surroundings) (value : Text) : Path :=
  if value = "1".toList then Path.join around.temporary "vcsn-compile.log".toList else value

/-- The settings as the environment changes them: a variable that is set wins. -/
def withEnvironment (around : Surroundings) (env : Environment) (s : Settings) :
    Except InvalidVariable Settings := do
  let optimization ← match env "VCSN_OPT_LEVEL".toList with
    | some level =>
      if optimizations.contains level then .ok level else .error (invalidOptimization level)
    | none => .ok s.optimization
  let externs ← match env "VCSN_EXTERN".toList with
    | some value => do
      let items ← (externItems value).mapM externOfItem
      .ok (Table.insertAll items s.externs)
    | none => .ok s.externs
  return {
    compiler := env "VCSN_RUSTC".toList <|> s.compiler
    flags := ((env "VCSN_RUSTFLAGS".toList).map Text.words).getD s.flags
    edition := (env "VCSN_EDITION".toList).getD s.edition
    optimization
    externs
    libraryPath := ((env "VCSN_LIBRARY_PATH".toList).map (Text.splitAt ':')).getD s.libraryPath
    plugins := env "VCSN_PLUGINDIR".toList <|> s.plugins
    verbose := ((env "VCSN_VERBOSE".toList).map isYes).getD s.verbose
    debug := ((env "VCSN_DEBUG".toList).map isYes).getD s.debug
    timingLog := ((env "VCSN_TIME".toList).bind fun value =>
      if isYes value then some (timingLogOf around value) else none) <|> s.timingLog
    home := s.home }

/-- The directory of the settings file. -/
def homeOf (around : Surroundings) (env : Environment) : Path :=
  match env "VCSN_HOME".toList with
  | some home => Path.expandTilde around.home home
  | none => usualHome around

/-- The settings file in a directory. -/
def fileIn (home : Path) : Path := Path.join home "config.toml".toList

end Settings
end OnDemand
