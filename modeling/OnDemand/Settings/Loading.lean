import OnDemand.Disk.Basic
import OnDemand.Native.Error

/-!
# Loading settings

Settings come from a file, if there is one, and from the environment.
-/

namespace OnDemand.Settings

/-- The settings in a file; where there is none, the usual settings hold. -/
def ofPath (around : Surroundings) (d : Disk) (path : Path) : Except SettingsError Settings :=
  match d.read path with
  | .ok file =>
    match ofFile? around file with
    | some s => .ok s
    | none => .error (.parse path)
  -- Nobody has to have a file, but one that is there has to be readable.
  | .error .notFound => .ok (usual around)
  | .error fault => .error (.read path fault.message)

/-- The settings that the environment selects and changes. -/
def load (around : Surroundings) (env : Environment) (d : Disk) :
    Except SettingsError Settings := do
  let home := homeOf around env
  let s ← ofPath around d (fileIn home)
  match withEnvironment around env { s with home } with
  | .ok s => .ok s
  | .error v => .error (.invalid v)

end OnDemand.Settings
