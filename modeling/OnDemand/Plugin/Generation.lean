import OnDemand.Plugin.Layout
import OnDemand.Signature
import OnDemand.Source.Algorithm
import OnDemand.Source.Rendering

/-!
# Generated modules

The source of a module that registers an operation for a signature, and of one that instantiates a
context.  A module for an operation declares one alias for each part of the signature and exports an
entry point that hands the instance over those aliases to the host.
-/

namespace OnDemand

/-- A source to build, and where it belongs. -/
structure GeneratedModule where
  /-- The place below the plugin directory, without an extension. -/
  base : Path
  source : Text
  linkArgs : List Text
  deriving DecidableEq, Repr

/-- Why no source can be generated. -/
inductive GenerationError where
  | malformed (e : DescriptorError)
  | unsupported (what : Unsupported)
  deriving DecidableEq, Repr

/-- What is reported of the error. -/
def GenerationError.message : GenerationError → Text
  | .malformed e => e.message
  | .unsupported what => what.message

namespace GeneratedModule

/-! ## Companions -/

/-- Operations each of which needs the others of its group, in alphabetical order. -/
def groups : List (List Text) := [["delay_automaton".toList, "is_synchronized".toList]]

/-- The operations that share a module with `operation`, itself included, in order. -/
def companions (operation : Text) : List Text :=
  (groups.find? fun group => group.contains operation).getD [operation]

/-! ## Pieces of source -/

/-- A line of its own. -/
def line (t : Text) : List Mark := [.text t, .newline]

/-- The imports of every module. -/
def hostImports : List Mark :=
  [.use "vcsn_abi::Host".toList, .use "vcsn_abi::VcsnHostV1".toList,
    .use "vcsn_abi::VcsnStatus".toList]

/-- An alias for the type of a descriptor. -/
def typeAlias (name : Text) (d : Descriptor) : List Mark :=
  .text ("type ".toList ++ name ++ " = ".toList) :: d.marks ++ line ";".toList

/-- The beginning of the entry point, up to the host it is given. -/
def opening : List Mark :=
  [.newline] ++ line "#[unsafe(no_mangle)]".toList ++
    line ("pub unsafe extern \"C\" fn vcsn_register_v1" ++
      "(host: *const VcsnHostV1) -> VcsnStatus \x7b").toList ++
    [.indent] ++ line "let host = match unsafe \x7b Host::from_raw(host) \x7d \x7b".toList ++
    [.indent] ++ line "Ok(host) => host,".toList ++ line "Err(status) => return status,".toList ++
    [.dedent] ++ line "\x7d;".toList

/-- The end of the entry point, which answers with `result`. -/
def closing (result : Text) : List Mark := line result ++ [.dedent] ++ line "\x7d".toList

/-- The line that begins a registration. -/
def registration : Text := "let status = host.register(".toList

/-- Registers the instance of `operation` over the aliases for the signature. -/
def register (operation : Text) (signature : Signature) (aliases : List Text) : List Mark :=
  line registration ++ [.indent] ++ line (Quoted.text operation ++ ",".toList) ++
    line ('&' :: Quoted.list signature ++ ",".toList) ++
    line (Algorithm.module operation ++ "::dyn_::".toList ++ operation ++ "::<".toList ++
      Text.joinWith ", ".toList aliases ++ "> as *const (),".toList) ++
    [.dedent] ++ line ");".toList ++ line "if !status.is_ok() \x7b".toList ++
    [.indent] ++ line "return status;".toList ++ [.dedent] ++ line "\x7d".toList

/-! ## Whole modules -/

/-- The marks on a fresh sheet, as the module at `base`. -/
def ofMarks (base : Path) (marks : List Mark) : Except GenerationError GeneratedModule :=
  match ({} : Sheet).write marks with
  | (sheet, none) => .ok ⟨base, sheet.finish, sheet.linkArgs⟩
  | (_, some what) => .error (.unsupported what)

/-- The descriptors of the parts, up to the first part for which there is no type to write. -/
def descriptors : Signature → Except GenerationError (List Descriptor)
  | [] => .ok []
  | part :: parts =>
    match Descriptor.ofType part with
    | .error e => .error (.malformed e)
    | .ok d =>
      -- A part without a type hides whatever is wrong with the parts after it.
      match firstRefusal? d.marks with
      | some what => .error (.unsupported what)
      | none => (descriptors parts).map (d :: ·)

/-- The name of the alias with this number. -/
def aliasName (n : Nat) : Text := 'T' :: Text.ofNat n

/-- The names of the aliases of the `k`-th companion, when each has `n` of them. -/
def aliasNames (k n : Nat) : List Text := (List.range' (k * n) n).map aliasName

/-- Imports the module of the `k`-th companion and declares its aliases. -/
def declarations (ds : List Descriptor) (operation : Text) (k : Nat) : List Mark :=
  .useLate (Algorithm.path operation) :: line ("// ".toList ++ operation ++ ".".toList) ++
    ((aliasNames k ds.length).zip ds).flatMap (fun (name, d) => typeAlias name d) ++ [.newline]

/-- The module that registers `operation` and its companions for the signature. -/
def ofAlgorithm (operation : Text) (signature : Signature) :
    Except GenerationError GeneratedModule := do
  let ds ← descriptors signature
  let operations := (companions operation).zipIdx
  let declared := operations.flatMap fun (op, k) => declarations ds op k
  let registered := operations.flatMap fun (op, k) =>
    register op signature (aliasNames k signature.length)
  ofMarks (Plugin.algorithmBase ((companions operation).headD operation) signature.text)
    (hostImports ++ declared ++ opening ++ registered ++ closing "VcsnStatus::Ok".toList)

/-- The module that instantiates the context. -/
def ofContext (context : Text) : Except GenerationError GeneratedModule := do
  match normalizeContext context with
  | .error e => .error (.malformed e)
  | .ok n =>
    ofMarks (Plugin.contextBase n.short)
      (hostImports ++ [.use "vcsn::ctx::instantiate".toList] ++
        typeAlias "Ctx".toList n.descriptor ++ opening ++
        closing "instantiate::register_all::<Ctx>(&host)".toList)

end GeneratedModule
end OnDemand
