import OnDemand.Native.Host
import OnDemand.Plugin.Generation
import OnDemand.Settings.Basic

/-!
# Why a module cannot be built or loaded

The errors of reading settings, of building and of loading, and what the registries are told of
them.
-/

namespace OnDemand

/-- Why there are no settings. -/
inductive SettingsError where
  /-- The settings file cannot be read. -/
  | read (path : Path) (message : Text)
  /-- The settings file is none. -/
  | parse (path : Path)
  | invalid (setting : Settings.InvalidVariable)
  deriving DecidableEq, Repr

namespace SettingsError

/-- What is reported of the error. -/
def message : SettingsError → Text
  | .read path message => "failed to read ".toList ++ path ++ ": ".toList ++ message
  | .parse path => "failed to parse ".toList ++ path
  | .invalid setting => setting.message

/-- The error behind the error, if there is one. -/
def cause? : SettingsError → Option Text
  | .read _ message => some message
  | _ => none

end SettingsError

/-- Why a module could not be loaded. -/
inductive LoadError where
  | unopened (path : Path) (message : Text)
  /-- The module has no entry point for the host. -/
  | missingEntry (path : Path) (message : Text)
  /-- The module ended with a failure, after so many registrations. -/
  | registration (path : Path) (status : Status) (registered : Nat)
  deriving DecidableEq, Repr

namespace LoadError

/-- The path of the module. -/
def path : LoadError → Path
  | .unopened path _ => path
  | .missingEntry path _ => path
  | .registration path _ _ => path

/-- What is reported of the error. -/
def message : LoadError → Text
  | .unopened path message => "cannot open ".toList ++ path ++ ": ".toList ++ message
  | .missingEntry path message =>
    path ++ " does not export vcsn_register_v1: ".toList ++ message
  | .registration path status registered =>
    path ++ " registration failed with ".toList ++ status.text ++ " after ".toList ++
      Text.ofNat registered ++ " entries".toList

end LoadError

/-- Why a module could not be built and loaded. -/
inductive BuildError where
  /-- The compiler refused the source. -/
  | compile (assertions : List Text) (command diagnostics : Text)
  /-- There is no compiler. -/
  | toolchain (message : Text)
  /-- Something cannot be done with a path. -/
  | io (path : Path) (message : Text)
  | settings (e : SettingsError)
  /-- There is no source to build. -/
  | generation (e : GenerationError)
  | load (e : LoadError)
  deriving DecidableEq, Repr

namespace BuildError

/-- What is reported of the error. -/
def message : BuildError → Text
  | .compile _ command _ => "compilation failed\n  failed command:\n    ".toList ++ command
  | .toolchain message => "toolchain unavailable: ".toList ++ message
  | .io path message => "I/O error on ".toList ++ path ++ ": ".toList ++ message
  | .settings e => e.message
  | .generation e => e.message
  | .load e => e.message

/-- The error behind the error, if there is one. -/
def cause? : BuildError → Option Text
  | .io _ message => some message
  | .settings e => e.cause?
  | _ => none

/--
What the registries are told.  All that the compiler reported is passed on when `verbose`, or when
no assertion explains the failure.
-/
def toSpecialization (verbose : Bool) : BuildError → SpecializationError
  | .compile assertions command diagnostics =>
    let report := if verbose || assertions.isEmpty then Text.trimEnd diagnostics ++ ['\n'] else []
    .compile assertions command (report ++ "failed command:\n  ".toList ++ command)
  | .generation (.malformed e) => .malformed e
  | .generation (.unsupported what) => .unsupported what
  | .load e => .load e.path e.message
  | e => .environment e.message

end BuildError
end OnDemand
