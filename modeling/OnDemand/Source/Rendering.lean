import OnDemand.Source.Sheet
import OnDemand.Source.Vocabulary

/-!
# Writing types

The marks that write the type of a descriptor: the imports it needs at the place of their first use,
the text, and a refusal in front of every name that has no type.  A generic type with several lines
of arguments has one argument a line, indented; tuples and one-line generics stay on their line.
-/

namespace OnDemand

/-- `head<`, the arguments on lines of their own, and `>`. -/
def generic (head : Text) (arguments : List (List Mark)) : List Mark :=
  .text head :: .text "<".toList :: .indent ::
    List.intercalate [.text ",".toList] (arguments.map (.newline :: ·)) ++
    [.dedent, .newline, .text ">".toList]

/-- `head<`, the argument, and `>` on one line. -/
def oneLine (head : Text) (argument : List Mark) : List Mark :=
  .text (head ++ "<".toList) :: argument ++ [.text ">".toList]

/-- The members in parentheses, each with a comma after it, a space between neighbours. -/
def parenthesized (members : List (List Mark)) : List Mark :=
  .text "(".toList ::
    List.intercalate [.text " ".toList] (members.map (· ++ [.text ",".toList])) ++
    [.text ")".toList]

/-- The marks for a name that a table knows, or else a refusal. -/
def known (kind : Text) (table : List (Text × Import)) (name : Text)
    (marks : Import → List Mark) : List Mark :=
  match table.lookup name with
  | some i => marks i
  | none => [.refuse ⟨kind, name⟩]

/-- The marks for an opaque name. -/
def opaqueMarks (name : Text) : List Mark :=
  match Vocabulary.plain.lookup name, Vocabulary.imported.lookup name,
    Vocabulary.integral? name with
  | some type, _, _ => [.text type]
  | none, some i, _ => [.use i.path, .text i.type]
  | none, none, some n =>
    [.use Vocabulary.integralConstant.path,
      .text (Vocabulary.integralConstant.type ++ "<".toList ++ n ++ ">".toList)]
  | none, none, none => [.text name]

namespace Descriptor

mutual

/-- The marks that write the type of the descriptor. -/
def marks : Descriptor → List Mark
  | .context l w =>
    .use "vcsn::ctx::Context".toList :: generic "Context".toList [l.marks, w.marks]
  | .tupleset sets =>
    .useLate "vcsn::labelset::tupleset::TupleSet".toList ::
      oneLine "TupleSet".toList (parenthesized (marksOfAll sets))
  | .tuple sets => parenthesized (marksOfAll sets)
  | .oneset => [.use "vcsn::labelset::oneset::OneSet".toList, .text "OneSet".toList]
  | .genset letters _ =>
    known "letter type".toList Vocabulary.letters letters fun i =>
      [.use "vcsn::alphabets::setalpha::SetAlphabet".toList, .use i.path,
        .text ("SetAlphabet<".toList ++ i.type ++ ">".toList)]
  | .letterset g =>
    .use "vcsn::labelset::letterset::LetterSet".toList :: oneLine "LetterSet".toList g.marks
  | .wordset g =>
    .use "vcsn::labelset::wordset::WordSet".toList :: oneLine "WordSet".toList g.marks
  | .nullableset l =>
    .use "vcsn::labelset::nullableset::NullableSet".toList ::
      generic "NullableSet".toList [l.marks]
  | .expressionset c _ =>
    .use "vcsn::core::rat::expressionset::ExpressionSet".toList ::
      generic "ExpressionSet".toList [c.marks]
  | .expansionset e =>
    .use "vcsn::core::rat::expansionset::ExpansionSet".toList ::
      generic "ExpansionSet".toList [e.marks]
  | .weightset name =>
    known "weightset".toList Vocabulary.weightsets name fun i =>
      .use i.path :: (if name = "qmp".toList then [.link "-lgmp".toList] else []) ++
        [.text i.type]
  | .automaton name children =>
    known "automaton type".toList Vocabulary.automata name fun i =>
      .use i.path :: generic i.type (marksOfAll children)
  | .polynomialset c =>
    .use "vcsn::weightset::polynomialset::PolynomialSet".toList ::
      generic "PolynomialSet".toList [c.marks]
  | .other name => opaqueMarks name

/-- The marks of each of the descriptors. -/
def marksOfAll : List Descriptor → List (List Mark)
  | [] => []
  | d :: ds => d.marks :: marksOfAll ds

end

end Descriptor

/-- The refusal that stops the marks, if there is one. -/
def firstRefusal? (marks : List Mark) : Option Unsupported :=
  marks.findSome? fun
    | .refuse what => some what
    | _ => none

/-- Writes the type of the descriptor. -/
def Sheet.visit (s : Sheet) (d : Descriptor) : Sheet × Option Unsupported := s.write d.marks

end OnDemand
