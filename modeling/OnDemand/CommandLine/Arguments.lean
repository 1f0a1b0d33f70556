import OnDemand.Path

/-!
# Command line arguments

A command line names a task.  Two options belong to every task and may stand anywhere: one asks for
more output, the other names the plugin directory.  A task may have a flag of its own.
-/

namespace OnDemand

/-- What a command line asks for. -/
inductive Task where
  /-- Shows the names of a context, or of any type. -/
  | normalize (anyType : Bool) (text : Text)
  /-- Shows the source generated for an operation, or for a context. -/
  | generate (context : Bool) (name : Text) (types : List Text)
  /-- Builds and loads the module of an operation. -/
  | compile (operation : Text) (types : List Text)
  /-- Builds and loads the module of a context. -/
  | compileContext (context : Text)
  /-- Lists the operations and the modules there are. -/
  | list
  deriving DecidableEq, Repr

/-- A command line that has been understood. -/
structure CommandLine where
  verbose : Bool
  plugins : Option Path
  task : Task
  deriving DecidableEq, Repr

/-- Why there is no task. -/
inductive Refusal where
  /-- Help is asked for. -/
  | help
  /-- The version is asked for. -/
  | version
  /-- The command line makes no sense. -/
  | misuse
  deriving DecidableEq, Repr

namespace Refusal

/-- The exit code. -/
def code : Refusal → Nat
  | .misuse => 2
  | _ => 0

/-- The name and the version. -/
def versionLine : Text := "vcsn 0.1.0\n".toList

/-- What is printed. -/
def output : Refusal → Text
  | .version => versionLine
  | _ => []

end Refusal

namespace CommandLine

/-! ## Options -/

/-- The options given so far, before the name of the task or after it. -/
structure Given where
  verbose : Bool := false
  plugins : Option Path := none
  /-- The flag of the task. -/
  flag : Bool := false
  deriving DecidableEq, Repr

/-- How an argument looks. -/
inductive Shape where
  /-- Two hyphens: no options follow. -/
  | escape
  /-- A word after two hyphens, and what follows an equals sign. -/
  | long (name : Text) (value : Option Text)
  /-- Letters after a hyphen. -/
  | short (letters : Text)
  | plain (t : Text)
  deriving DecidableEq, Repr

/-- How the argument looks. -/
def Shape.of : Text → Shape
  | ['-', '-'] => .escape
  | '-' :: '-' :: t =>
    match Text.splitFirst? "=".toList t with
    | some (name, value) => .long name (some value)
    | none => .long t none
  | '-' :: c :: t => .short (c :: t)
  | t => .plain t

/-- Which options are known in a place besides those that belong to every task. -/
structure Known where
  /-- The name of the task's own flag. -/
  flag : Option Text := none
  /-- Whether the version can be asked for. -/
  version : Bool := false
  deriving DecidableEq, Repr

namespace Given

/-- Asks for more output; once is enough. -/
def setVerbose (g : Given) : Except Refusal Given :=
  if g.verbose then .error .misuse else .ok { g with verbose := true }

/-- Names the plugin directory, which must not be empty; once is enough. -/
def setPlugins (g : Given) (dir : Path) : Except Refusal Given :=
  if g.plugins.isSome || dir.isEmpty then .error .misuse else .ok { g with plugins := some dir }

/-- Sets the flag of the task; once is enough. -/
def setFlag (g : Given) : Except Refusal Given :=
  if g.flag then .error .misuse else .ok { g with flag := true }

/-- Takes the letters after a hyphen one by one. -/
def takeLetters (known : Known) (g : Given) : Text → Except Refusal Given
  | [] => .ok g
  | c :: t =>
    if c = 'v' then do takeLetters known (← g.setVerbose) t
    else if c = 'h' then .error .help
    else if c = 'V' ∧ known.version then .error .version
    else .error .misuse

/-- Takes a long option that has no value. -/
def takeLong (known : Known) (g : Given) (name : Text) : Except Refusal Given :=
  if name = "verbose".toList then g.setVerbose
  else if name = "help".toList then .error .help
  else if name = "version".toList ∧ known.version then .error .version
  else if some name = known.flag then g.setFlag
  else .error .misuse

end Given

/-- The name of the option that takes a directory. -/
def pluginsOption : Text := "plugindir".toList

/-! ## Tasks -/

/-- The tasks by kind. -/
inductive TaskKind where
  | normalize
  | generate
  | compile
  | compileContext
  | list
  deriving DecidableEq, Repr

namespace TaskKind

/-- The kinds of task by name. -/
def names : List (Text × TaskKind) := [
  ("normalize".toList, .normalize),
  ("generate".toList, .generate),
  ("compile".toList, .compile),
  ("compile-context".toList, .compileContext),
  ("list".toList, .list)]

/-- The options of the task. -/
def known : TaskKind → Known
  | .normalize => { flag := some "type".toList }
  | .generate => { flag := some "context".toList }
  | _ => {}

/-- Whether the task can have another operand after so many. -/
def takesAnother : TaskKind → Nat → Bool
  | .normalize, n => n = 0
  | .compileContext, n => n = 0
  | .list, _ => false
  | _, _ => true

/-- The task with its operands. -/
def task (kind : TaskKind) (flag : Bool) (operands : List Text) : Except Refusal Task :=
  match kind, operands with
  | .normalize, [text] => .ok (.normalize flag text)
  | .generate, name :: types => .ok (.generate flag name types)
  | .compile, operation :: types => .ok (.compile operation types)
  | .compileContext, [context] => .ok (.compileContext context)
  | .list, [] => .ok .list
  | _, _ => .error .misuse

end TaskKind

/-- The operands of a task and the options among them; `free` says whether options may follow. -/
def operands (kind : TaskKind) (free : Bool) (g : Given) (before : List Text) :
    List Text → Except Refusal (Given × List Text)
  | [] => .ok (g, before)
  | arg :: args =>
    let another (t : Text) (free : Bool) : Except Refusal (Given × List Text) :=
      if kind.takesAnother before.length then operands kind free g (before ++ [t]) args
      else .error .misuse
    -- Once two hyphens have been seen, even two hyphens are an operand.
    if !free then another arg false
    else
      match Shape.of arg with
      | .escape => operands kind false g before args
      | .plain t => another t true
      | .short letters => do operands kind true (← g.takeLetters kind.known letters) before args
      | .long name (some value) =>
        if name = pluginsOption then do operands kind true (← g.setPlugins value) before args
        else .error .misuse
      | .long name none =>
        if name = pluginsOption then
          match args with
          | dir :: args =>
            match Shape.of dir with
            | .plain dir => do operands kind true (← g.setPlugins dir) before args
            | _ => .error .misuse
          | [] => .error .misuse
        else do operands kind true (← g.takeLong kind.known name) before args

/-- The task of the given kind, with the options before its name and what stands after it. -/
def ofTask (kind : TaskKind) (outer : Given) (args : List Text) : Except Refusal CommandLine := do
  let (inner, texts) ← operands kind true {} [] args
  let task ← kind.task inner.flag texts
  return {
    verbose := outer.verbose || inner.verbose
    plugins := inner.plugins <|> outer.plugins
    task }

/-- The options known before the name of the task. -/
def outerKnown : Known := { version := true }

/-- The name under which help is asked for instead of a task. -/
def helpName : Text := "help".toList

/-- The answer to a call for help with what the arguments name: one task, or nothing. -/
def helpWith : List Text → Refusal
  | [] => .help
  | [t] => if t = helpName ∨ (TaskKind.names.lookup t).isSome then .help else .misuse
  | _ => .misuse

/-- Understands the arguments after the options given so far. -/
def after (g : Given) : List Text → Except Refusal CommandLine
  | [] => .error .misuse
  | arg :: args =>
    match Shape.of arg with
    | .escape => .error .misuse
    | .plain t =>
      match TaskKind.names.lookup t with
      | some kind => ofTask kind g args
      | none => .error (if t = helpName then helpWith args else .misuse)
    | .short letters => do after (← g.takeLetters outerKnown letters) args
    | .long name (some value) =>
      if name = pluginsOption then do after (← g.setPlugins value) args else .error .misuse
    | .long name none =>
      if name = pluginsOption then
        match args with
        | dir :: args =>
          match Shape.of dir with
          | .plain dir => do after (← g.setPlugins dir) args
          | _ => .error .misuse
        | [] => .error .misuse
      else do after (← g.takeLong outerKnown name) args

/-- Understands a command line. -/
def ofArguments (args : List Text) : Except Refusal CommandLine := after {} args

end CommandLine
end OnDemand
