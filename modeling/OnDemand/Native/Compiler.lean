import OnDemand.Command
import OnDemand.Diagnostics
import OnDemand.Native.Error

/-!
# The compiler

How the compiler is found and called.  Programs are known by what they do when they are run.
-/

namespace OnDemand

/-- A source to compile. -/
structure Job where
  source : Path
  output : Path
  linkArgs : List Text
  deriving DecidableEq, Repr

/-- A program that can be run: whether it succeeds, and what it reports. -/
structure Program where
  path : Path
  succeeds : Bool
  report : Text := []
  deriving DecidableEq, Repr

/-- A compiler that has been found. -/
structure Compiler where
  program : Program
  settings : Settings
  deriving DecidableEq, Repr

namespace Compiler

/-- The compiler when the settings name none. -/
def usual : Path := "rustc".toList

/-- Finds the compiler among the programs there are. -/
def find? (programs : List Program) (settings : Settings) : Except BuildError Compiler :=
  let wanted := settings.compiler.getD usual
  match programs.find? fun p => p.path = wanted with
  | some program => .ok { program, settings }
  | none => .error (.toolchain (wanted ++ ": cannot find binary path".toList))

/-- The command that does a job. -/
def command (c : Compiler) (job : Job) : Command :=
  let s := c.settings
  let fixed := ["--crate-type", "cdylib", "--crate-name", "vcsn_plugin", "--edition"]
  { program := c.program.path
    arguments :=
      fixed.map String.toList ++ [s.edition, "-C".toList, "opt-level=".toList ++ s.optimization] ++
        ["--color".toList, "never".toList] ++
        (if s.debug then ["-C", "debuginfo=2", "-C", "save-temps"].map String.toList else []) ++
        s.flags ++
        s.externs.flatMap (fun (name, path) => ["--extern".toList, name ++ '=' :: path]) ++
        s.libraryPath.flatMap (fun dir => ["-L".toList, dir]) ++
        job.linkArgs.flatMap (fun arg => ["-C".toList, "link-arg=".toList ++ arg]) ++
        ["-o".toList, job.output, job.source]
    environment := [("LC_ALL".toList, "C".toList)] }

/-- Has the compiler do a job.  No program that is known writes any output. -/
def run (c : Compiler) (job : Job) : Except BuildError Unit :=
  match (c.command job).obstacle? with
  | some message => .error (.io c.program.path message)
  | none =>
    if c.program.succeeds then .ok ()
    else
      .error (.compile (Diagnostics.assertions c.program.report) (c.command job).render
        c.program.report)

end Compiler
end OnDemand
