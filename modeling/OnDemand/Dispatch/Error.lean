import OnDemand.Dispatch.Entry
import OnDemand.Path
import OnDemand.Source.Sheet

/-!
# Why there is no entry point

A request for an implementation can fail in several ways, some of which are the user's business and
some the engine's.  The report of a failed look-up tells which versions there are instead.
-/

namespace OnDemand

/-- Why an implementation could not be produced. -/
inductive SpecializationError where
  /-- There is nothing that could produce one. -/
  | noSpecializer
  /-- The compiler refused the source; its assertions tell why there can be no implementation. -/
  | compile (assertions : List Text) (command diagnostics : Text)
  | malformed (e : DescriptorError)
  | unsupported (what : Unsupported)
  /-- A built module could not be loaded. -/
  | load (path : Path) (message : Text)
  /-- The means to build are missing. -/
  | environment (message : Text)
  deriving DecidableEq, Repr

namespace SpecializationError

/-- The summary of a failed compilation. -/
def compileSummary : List Text → Text
  | [] => "compilation failed".toList
  | [one] => "compilation failed: ".toList ++ one
  | many => "compilation failed:\n  ".toList ++ Text.joinWith "\n  ".toList many

/-- What is reported of the error. -/
def message : SpecializationError → Text
  | .noSpecializer => "no specializer installed".toList
  | .compile assertions _ _ => compileSummary assertions
  | .malformed e => e.message
  | .unsupported what => what.message
  | .load path message => "failed to load ".toList ++ path ++ ": ".toList ++ message
  | .environment message => "build environment: ".toList ++ message

/-- Whether the engine is at fault. -/
def isInternal : SpecializationError → Bool
  | .load .. => true
  | _ => false

/-- The assertions that the compiler reported. -/
def assertions : SpecializationError → List Text
  | .compile assertions _ _ => assertions
  | _ => []

/-- What else the compiler reported, if anything. -/
def diagnostics? : SpecializationError → Option Text
  | .compile _ _ diagnostics => if diagnostics.isEmpty then none else some diagnostics
  | _ => none

end SpecializationError

/-- Why a look-up or a call gives no entry point. -/
inductive DispatchError where
  /-- There is none, and none could be produced. -/
  | unavailable (operation : Text) (signature : Signature) (available : List Signature)
      (source : SpecializationError)
  /-- One was said to be produced, but there is none. -/
  | registrationInvariant (operation : Text) (signature : Signature)
  /-- The registry holds entry points of another type. -/
  | entryTypeMismatch (operation : Text) (registered requested : EntryType)
  deriving DecidableEq, Repr

namespace DispatchError

/-- The report of an unavailable implementation. -/
def unavailableReport (operation : Text) (signature : Signature) (available : List Signature)
    (source : SpecializationError) : Text :=
  let diagnostics := match source.diagnostics? with
    | some report =>
      "\n  diagnostics:".toList ++
        (Text.lines report).flatMap fun line => "\n    ".toList ++ line
    | none => []
  operation ++ ": no implementation available for ".toList ++ signature.text ++
    "\n  available versions:\n".toList ++
    available.flatMap (fun s => "    ".toList ++ s.text ++ ['\n']) ++
    "  failed signature:\n    ".toList ++ signature.text ++ "\n  ".toList ++ source.message ++
    diagnostics

/-- What is reported of the error. -/
def message : DispatchError → Text
  | .unavailable operation signature available source =>
    unavailableReport operation signature available source
  | .registrationInvariant operation signature =>
    operation ++ (": internal error: specialization succeeded but no implementation was " ++
      "registered for ").toList ++ signature.text
  | .entryTypeMismatch operation registered requested =>
    operation ++ ": registry holds entries of type ".toList ++ registered.text ++
      ", requested ".toList ++ requested.text

/-- Whether the engine is at fault. -/
def isInternal : DispatchError → Bool
  | .unavailable _ _ _ source => source.isInternal
  | .registrationInvariant .. | .entryTypeMismatch .. => true

end DispatchError
end OnDemand
