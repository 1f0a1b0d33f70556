import OnDemand.Descriptor.Basic

/-!
# Known type names

The tables of letter types, weight sets, automaton types and plain types for which a type can be
written, with the module each is imported from.
-/

namespace OnDemand

/-- A type and the module that defines it. -/
structure Import where
  home : Text
  type : Text
  deriving DecidableEq, Repr

/-- The path by which the type is imported. -/
def Import.path (i : Import) : Text := i.home ++ "::".toList ++ i.type

namespace Vocabulary

/-- The type with this name from the module `home`. -/
def named (home type : String) : Import := ⟨home.toList, type.toList⟩

/-- The letter types. -/
def letters : List (Text × Import) := [
  ("char_letters".toList, named "vcsn::alphabets::chars" "CharLetters"),
  ("string_letters".toList, named "vcsn::alphabets::string" "StringLetters")]

/-- The weight sets. -/
def weightsets : List (Text × Import) := [
  ("b".toList, named "vcsn::weightset::b" "B"),
  ("f2".toList, named "vcsn::weightset::f2" "F2"),
  ("log".toList, named "vcsn::weightset::log" "Log"),
  ("nmin".toList, named "vcsn::weightset::nmin" "NMin"),
  ("q".toList, named "vcsn::weightset::q" "Q"),
  ("qmp".toList, named "vcsn::weightset::qmp" "QMp"),
  ("r".toList, named "vcsn::weightset::r" "R"),
  ("rmin".toList, named "vcsn::weightset::rmin" "RMin"),
  ("z".toList, named "vcsn::weightset::z" "Z"),
  ("zmin".toList, named "vcsn::weightset::zmin" "ZMin")]

/-- The automaton types. -/
def automata : List (Text × Import) := [
  ("determinized_automaton".toList, named "vcsn::algos::determinize" "DeterminizedAutomaton"),
  ("detweighted_automaton".toList, named "vcsn::algos::determinize" "DetweightedAutomaton"),
  ("expression_automaton".toList, named "vcsn::core::expression_automaton" "ExpressionAutomaton"),
  ("filter_automaton".toList, named "vcsn::algos::filter" "FilterAutomaton"),
  ("focus_automaton".toList, named "vcsn::algos::focus" "FocusAutomaton"),
  ("mutable_automaton".toList, named "vcsn::core::mutable_automaton" "MutableAutomaton"),
  ("pair_automaton".toList, named "vcsn::algos::synchronizing_word" "PairAutomaton"),
  ("partition_automaton".toList, named "vcsn::core::partition_automaton" "PartitionAutomaton"),
  ("permutation_automaton".toList,
    named "vcsn::core::permutation_automaton" "PermutationAutomaton"),
  ("product_automaton".toList, named "vcsn::algos::product" "ProductAutomaton"),
  ("scc_automaton".toList, named "vcsn::algos::scc" "SccAutomaton"),
  ("transpose_automaton".toList, named "vcsn::algos::transpose" "TransposeAutomaton"),
  ("tuple_automaton".toList, named "vcsn::core::tuple_automaton" "TupleAutomaton")]

/-- The opaque names that are written as types of the language itself. -/
def plain : List (Text × Text) := [
  ("bool".toList, "bool".toList),
  ("int".toList, "i32".toList),
  ("unsigned".toList, "u32".toList),
  ("float".toList, "f32".toList),
  ("std::string".toList, "String".toList),
  ("const std::string".toList, "String".toList),
  ("boost::optional<unsigned>".toList, "Option<u32>".toList)]

/-- The opaque names that are written as imported types. -/
def imported : List (Text × Import) := [
  ("vcsn::rat::identities".toList, named "vcsn::core::rat" "Identities"),
  ("vcsn::direction".toList, named "vcsn::misc" "Direction")]

/-- The type of numbers that are part of a type. -/
def integralConstant : Import := named "vcsn::misc" "IntegralConstant"

/-- The number in the name of an integral constant. -/
def integral? (name : Text) : Option Text := do
  let rest ← Text.dropPrefix? "std::integral_constant<unsigned, ".toList name
  Text.dropSuffix? ['>'] rest

end Vocabulary
end OnDemand
