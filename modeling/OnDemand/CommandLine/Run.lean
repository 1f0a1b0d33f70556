import OnDemand.CommandLine.Arguments
import OnDemand.Native.Builder
import OnDemand.Operations
import OnDemand.Settings.Loading

/-!
# Running command lines

What a command line prints, and how it ends.  An error is reported with the errors behind it.
-/

namespace OnDemand

/-- An error and the errors behind it, the first of which is what went wrong on the whole. -/
structure Chain where
  top : Text
  causes : List Text := []
  deriving DecidableEq, Repr

namespace Chain

/-- The text with `lead` before its first line and `margin` before each other line. -/
def indented (lead margin t : Text) : Text :=
  lead ++ Text.joinWith ('\n' :: margin) (Text.splitAt '\n' t)

/-- The number of a cause, in a column of its own. -/
def number (n : Nat) : Text :=
  let digits := Text.ofNat n
  List.replicate (5 - digits.length) ' ' ++ digits ++ ": ".toList

/-- The causes, numbered if there are several. -/
def causeLines : List Text → List Text
  | [cause] => [indented "    ".toList "    ".toList cause]
  | causes => causes.zipIdx.map fun (cause, n) => indented (number n) "       ".toList cause

/-- The report of the error. -/
def report (c : Chain) : Text :=
  let causes :=
    if c.causes.isEmpty then []
    else "\n\nCaused by:\n".toList ++ Text.joinWith "\n".toList (causeLines c.causes)
  "Error: ".toList ++ c.top ++ causes ++ "\n".toList

/-- A settings error with the error behind it. -/
def ofSettings (e : SettingsError) : Chain := ⟨e.message, e.cause?.toList⟩

/-- A build error with the error behind it. -/
def ofBuild (e : BuildError) : Chain := ⟨e.message, e.cause?.toList⟩

/-- The error as the cause of another. -/
def under (c : Chain) (top : Text) : Chain := ⟨top, c.top :: c.causes⟩

end Chain

/-- The world around a command line. -/
structure World (τ : Type) where
  around : Surroundings
  environment : Environment
  site : Site τ

/-- What building takes: a toolchain for settings, and a loader. -/
structure Workshop (τ : Type) where
  toolchain : Settings → Except BuildError (Toolchain τ)
  loader : Loader τ

/-- How a command line ends. -/
structure Ending (τ : Type) where
  site : Site τ
  /-- What has been printed. -/
  output : Text := []
  /-- The error, if there was one. -/
  error : Option Chain := none

namespace Ending

/-- The exit code. -/
def code {τ : Type} (e : Ending τ) : Nat := if e.error.isSome then 1 else 0

end Ending

namespace CommandLine

variable {τ : Type}

/-- The lines, each ended. -/
def printed (lines : List Text) : Text := lines.flatMap (· ++ ['\n'])

/-- The settings, as the command line changes them. -/
def settings (line : CommandLine) (w : World τ) : Except SettingsError Settings := do
  let s ← Settings.load w.around w.environment w.site.disk
  return { s with plugins := line.plugins <|> s.plugins, verbose := s.verbose || line.verbose }

/-- What is said of a build that failed.  A refusal by the compiler is told in full. -/
def explained (verbose : Bool) : BuildError → Chain
  | .compile assertions command diagnostics =>
    let shown := assertions.flatMap fun a => "\n  ".toList ++ a
    let rest :=
      if verbose || assertions.isEmpty then
        "\n  diagnostics:\n".toList ++ Text.trimEnd diagnostics
      else []
    { top := "compilation failed".toList ++ shown ++ rest ++ "\n  failed command:\n    ".toList ++
        command }
  | e => .ofBuild e

/-- What is printed of a loaded module: its path, and all that is registered now. -/
def reportLines (r : Report) (rs : Registries) : List Text :=
  (r.path ++ " (".toList ++ Text.ofNat r.registered ++ " entries)".toList) ::
    rs.names.flatMap fun name =>
      (rs.signaturesOf name).map fun s => "  ".toList ++ name ++ s.text

/-- How an artifact is listed. -/
def artifactLine (a : Artifact) : Text :=
  let state := if a.built then "built" else "source only"
  let subject :=
    if a.located.operation.isEmpty then "context".toList else a.located.operation
  "  ".toList ++ subject ++ ' ' :: a.located.name ++ " [".toList ++ state.toList ++ "]".toList

/-- Shows the two names of a description. -/
def normalize (anyType : Bool) (text : Text) : Except Chain Text :=
  match if anyType then normalizeType text else normalizeContext text with
  | .ok n => .ok (printed [n.short, n.full])
  | .error e => .error ⟨e.message, []⟩

/-- Shows a generated source. -/
def generate (context : Bool) (name : Text) (types : List Text) : Except Chain Text :=
  let generated : Except Chain (Except GenerationError GeneratedModule) :=
    if context then
      if types.isEmpty then .ok (GeneratedModule.ofContext name)
      else .error ⟨"--context takes a single context name".toList, []⟩
    else
      match Signature.normalized types with
      | .ok s => .ok (GeneratedModule.ofAlgorithm name s)
      | .error e => .error ⟨e.message, []⟩
  match generated with
  | .error c => .error c
  | .ok (.error e) => .error ⟨e.message, []⟩
  | .ok (.ok m) => .ok m.source

/-- Ends without a change. -/
def ended (w : World τ) : Except Chain Text → Ending τ
  | .ok output => { site := w.site, output }
  | .error e => { site := w.site, error := some e }

/-- The builder for the command line. -/
def builder (line : CommandLine) (w : World τ) (shop : Workshop τ) : Except Chain (Builder τ) :=
  match line.settings w with
  | .error e => .error (.ofSettings e)
  | .ok settings =>
    match shop.toolchain settings with
    | .error e => .error (.ofBuild e)
    | .ok toolchain =>
      .ok {
        settings
        plugins := settings.pluginDirectory w.around
        toolchain
        loader := shop.loader }

/-- Builds and loads a module, which `subject` describes. -/
def build (line : CommandLine) (w : World τ) (shop : Workshop τ) (subject : Text)
    (produce : Builder τ → Site τ → Site τ × Built) : Ending τ :=
  match line.builder w shop with
  | .error e => { site := w.site, error := some e }
  | .ok b =>
    let (site, built) := produce b w.site
    match built.result with
    | .ok r =>
      { site, output := printed (reportLines r (Registries.insertAll {} built.insertions)) }
    | .error e =>
      let top := "while compiling ".toList ++ subject
      { site, error := some ((explained line.verbose e).under top) }

/-- Lists the operations and the modules. -/
def list (line : CommandLine) (w : World τ) : Ending τ :=
  let operations := printed
    ("operations:".toList :: Operation.declared.map fun op => "  ".toList ++ op.name)
  -- The operations are known without settings, so they are printed in any case.
  match line.settings w with
  | .error e => { site := w.site, output := operations, error := some (.ofSettings e) }
  | .ok settings =>
    let plugins := settings.pluginDirectory w.around
    let artifacts := Artifact.inventory w.site.disk plugins
    { site := w.site
      output := operations ++ printed
        (("modules in ".toList ++ plugins ++ ":".toList) :: artifacts.map artifactLine) }

/-- Does what the command line asks for. -/
def run (line : CommandLine) (w : World τ) (shop : Workshop τ) : Ending τ :=
  match line.task with
  | .normalize anyType text => ended w (normalize anyType text)
  | .generate context name types => ended w (generate context name types)
  | .compile operation types =>
    match Signature.normalized types with
    | .error e => ended w (.error ⟨e.message, []⟩)
    | .ok signature =>
      line.build w shop (operation ++ " for ".toList ++ signature.text) fun b s =>
        b.compile operation signature s
  | .compileContext context =>
    line.build w shop ("context ".toList ++ context) fun b s => b.compileContext context s
  | .list => line.list w

end CommandLine
end OnDemand
