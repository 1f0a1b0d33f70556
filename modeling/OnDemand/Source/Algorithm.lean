import OnDemand.Text.Basic

/-!
# Algorithm modules

Which module of the algorithm library defines an operation.  The kind of value an operation works
on plays no part in the name of its module, and some operations live in the module of another.
-/

namespace OnDemand.Algorithm

/-- The endings that say what kind of value an operation works on, in the order they are dropped. -/
def valueKinds : List Text := [
  "-automaton".toList,
  "-ctx".toList,
  "-expansion".toList,
  "-label".toList,
  "-polynomial".toList,
  "-expression".toList,
  "-vector".toList,
  "-weight".toList]

/-- The operations that live in the module of another. -/
def residents : List (Text × Text) := [
  ("ambiguous-word".toList, "is-ambiguous".toList),
  ("chain".toList, "concatenate".toList),
  ("coaccessible".toList, "accessible".toList),
  ("codeterminize".toList, "determinize".toList),
  ("cominimize".toList, "minimize".toList),
  ("component".toList, "scc".toList),
  ("condense".toList, "scc".toList),
  ("conjunction".toList, "product".toList),
  ("context-of".toList, "make-context".toList),
  ("copy-convert".toList, "copy".toList),
  ("costandard".toList, "standard".toList),
  ("difference".toList, "are-equivalent".toList),
  ("eliminate-state".toList, "to-expression".toList),
  ("factor".toList, "prefix".toList),
  ("infiltration".toList, "product".toList),
  ("is-accessible".toList, "accessible".toList),
  ("is-coaccessible".toList, "accessible".toList),
  ("is-codeterministic".toList, "is-deterministic".toList),
  ("is-costandard".toList, "standard".toList),
  ("is-cycle-ambiguous".toList, "is-ambiguous".toList),
  ("is-empty".toList, "accessible".toList),
  ("is-normalized".toList, "normalize".toList),
  ("is-out-sorted".toList, "sort".toList),
  ("is-standard".toList, "standard".toList),
  ("is-synchronized-by".toList, "synchronizing-word".toList),
  ("is-trim".toList, "accessible".toList),
  ("is-useless".toList, "accessible".toList),
  ("ldiv".toList, "divide".toList),
  ("lgcd".toList, "divide".toList),
  ("list".toList, "print".toList),
  ("make-expressionset".toList, "make-context".toList),
  ("make-word-context".toList, "make-context".toList),
  ("multiply".toList, "concatenate".toList),
  ("num-components".toList, "scc".toList),
  ("pair".toList, "synchronizing-word".toList),
  ("power".toList, "product".toList),
  ("rdiv".toList, "divide".toList),
  ("right-mult".toList, "left-mult".toList),
  ("shortest".toList, "enumerate".toList),
  ("shuffle".toList, "product".toList),
  ("subword".toList, "prefix".toList),
  ("suffix".toList, "prefix".toList),
  ("trim".toList, "accessible".toList),
  ("union-a".toList, "union".toList)]

/-- The name without the ending, except that `to-expression` is kept whole. -/
def dropKind (name kind : Text) : Text :=
  if name = "to-expression".toList then name else (Text.dropSuffix? kind name).getD name

/-- The module that defines `operation`. -/
def module (operation : Text) : Text :=
  let hyphened := Text.replace '_' ['-'] operation
  let stem :=
    if hyphened = "is-valid-expression".toList then hyphened
    else valueKinds.foldl dropKind hyphened
  Text.replace '-' ['_'] ((residents.lookup stem).getD stem)

/-- The path by which the module of `operation` is imported. -/
def path (operation : Text) : Text := "vcsn::algos::".toList ++ module operation

end OnDemand.Algorithm
