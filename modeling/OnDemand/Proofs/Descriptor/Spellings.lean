import OnDemand.Proofs.Descriptor.Tokens

/-!
# The spellings of contexts

The same context may be written in many ways: `lal_char(ab), b`, `[ab] -> b`, `lal<char(ab)>_b` and
`context<letterset<char_letters(ab)>, b>` all mean one thing.  The relations of this module say
which texts spell a descriptor.  They have tables of words of their own and know nothing of the
reader.

Each set is spelled by a word and by the text that follows the word.  The word is empty for the
forms that start with a bracket.  Blanks may stand between most pieces, but not after the name of a
label set that an underscore follows, and not between the bracket and the star of `[ab]*`.
-/

namespace OnDemand
namespace Spelling

open Reader (IsWord)

/-! ## Blanks and brackets -/

/-- Blanks, of which there may be none. -/
structure Blanks where
  text : Text
  blank : text.all isBlank = true

/-- No blanks. -/
def Blanks.none : Blanks := ⟨[], rfl⟩

/-- One space. -/
def Blanks.space : Blanks := ⟨[' '], rfl⟩

/-- The word `w` and the text `p` after it in angle brackets, with blanks where they may stand. -/
def within (b b₁ : Blanks) (w p : Text) (b₂ : Blanks) : Text :=
  b.text ++ '<' :: (b₁.text ++ (w ++ (p ++ (b₂.text ++ ['>']))))

/-! ## Words -/

/-- Short names of letter types. -/
def shortLetters : List (Text × Text) := [
  ("char".toList, "char_letters".toList),
  ("string".toList, "string_letters".toList)]

/-- All names of the two usual letter types. -/
def usualLetters : List (Text × Text) := shortLetters ++ [
  ("char_letters".toList, "char_letters".toList),
  ("string_letters".toList, "string_letters".toList)]

/-- The label sets that are named together with their letter type. -/
def letteredWords : List (Text × Shape × Text) := [
  ("lal_char".toList, .letters, "char_letters".toList),
  ("lan_char".toList, .nullableLetters, "char_letters".toList),
  ("law_char".toList, .words, "char_letters".toList),
  ("lal_string".toList, .letters, "string_letters".toList),
  ("lan_string".toList, .nullableLetters, "string_letters".toList),
  ("law_string".toList, .words, "string_letters".toList)]

/-- The label sets whose letter type may follow in brackets. -/
def typedWords : List (Text × Shape) := [
  ("lal".toList, .letters), ("letterset".toList, .letters),
  ("law".toList, .words), ("wordset".toList, .words)]

/-- The names of a label set with the empty word added. -/
def nullableWords : List Text := ["lan".toList, "nullableset".toList]

/-- The names of the label set of the empty word alone. -/
def oneWords : List Text := ["lao".toList, "oneset".toList]

/-- The names of products. -/
def productWords : List Text := ["lat".toList, "tupleset".toList]

/-- The names of expression sets, with their identities when none are given. -/
def expressionWords : List (Text × Identities) := [
  ("expressionset".toList, .associative), ("seriesset".toList, .distributive)]

/-- The names of identities. -/
def identityWords : List (Text × Identities) := [
  ("none".toList, .none), ("trivial".toList, .trivial), ("associative".toList, .associative),
  ("linear".toList, .linear), ("distributive".toList, .distributive),
  ("series".toList, .distributive)]

/-- The weight sets that have nothing but a name. -/
def terminalWords : List Text :=
  ["b".toList, "z".toList, "q".toList, "qmp".toList, "r".toList, "nmin".toList, "rmin".toList,
    "zmin".toList, "log".toList, "f2".toList]

/-- The label set words that brackets may follow or not. -/
def openWords : List Text := typedWords.map Prod.fst ++ nullableWords

/-! ## Alphabets -/

/-- The raw text stands for the generators before the bracket `close`. -/
inductive Escaped (close : Char) : (generators raw : Text) → Prop where
  | nil : Escaped close [] []
  | plain {c : Char} {gens raw : Text} :
      c ≠ close → c ≠ '\\' → Escaped close gens raw → Escaped close (c :: gens) (c :: raw)
  | escaped {c : Char} {gens raw : Text} :
      Escaped close gens raw → Escaped close (c :: gens) ('\\' :: c :: raw)

/-- The generators in parentheses, or nothing where there is no alphabet. -/
inductive SpellsAlphabet : Option Text → Text → Prop where
  | absent : SpellsAlphabet none []
  | given {gens raw : Text} (b : Blanks) :
      Escaped ')' gens raw → SpellsAlphabet (some gens) (b.text ++ '(' :: (raw ++ [')']))

/-- An alphabet with its letter type. -/
inductive SpellsGenset : Descriptor → (word after : Text) → Prop where
  | short {w letters p : Text} {gens : Option Text} :
      (w, letters) ∈ shortLetters → SpellsAlphabet gens p →
      SpellsGenset (.genset letters gens) w p
  | named {w p : Text} {gens : Option Text} :
      IsWord w → w ∉ shortLetters.map Prod.fst → w ≠ "set_alphabet".toList →
      SpellsAlphabet gens p → SpellsGenset (.genset w gens) w p
  | wrapped {g : Descriptor} {w p : Text} (b b₁ b₂ : Blanks) :
      SpellsGenset g w p → SpellsGenset g "set_alphabet".toList (within b b₁ w p b₂)

/-- An alphabet in square brackets; with a star it is one of words. -/
inductive SpellsBracketed (letters : Text) : Descriptor → Text → Prop where
  | letterset {gens raw : Text} : Escaped ']' gens raw →
      SpellsBracketed letters (.letterset (.genset letters (some gens))) ('[' :: (raw ++ [']']))
  | wordset {gens raw : Text} : Escaped ']' gens raw →
      SpellsBracketed letters (.wordset (.genset letters (some gens)))
        ('[' :: (raw ++ [']', '*']))

/-! ## Identities and separators -/

/-- The identities in parentheses, or nothing for the usual ones. -/
inductive SpellsIdentities (usual : Identities) : Identities → Text → Prop where
  | usual : SpellsIdentities usual usual []
  | given {w : Text} {i : Identities} (b b₁ b₂ : Blanks) :
      (w, i) ∈ identityWords →
      SpellsIdentities usual i (b.text ++ '(' :: (b₁.text ++ (w ++ (b₂.text ++ [')']))))

/--
What stands between a label set and its weight set, where `p` is what follows the word of the label
set.  An underscore may not stand directly behind a word: it would be part of it.
-/
inductive SpellsSeparator (p : Text) : Text → Prop where
  | comma (b b' : Blanks) : SpellsSeparator p (b.text ++ ',' :: b'.text)
  | arrow (b b' : Blanks) : SpellsSeparator p (b.text ++ '-' :: '>' :: b'.text)
  | underscore (b b' : Blanks) :
      p ++ b.text ≠ [] → SpellsSeparator p (b.text ++ '_' :: b'.text)

/-! ## Label sets, weight sets and contexts -/

section

/-
A label set word and a weight set word may be joined by an underscore, as in `lal_char_b`.  Which of
them may, and with what after them, is left open here: `joins w p q` is asked for the label set word
`w` with the texts that follow for the label set and for the weight set.
-/
variable (joins : (w p q : Text) → Prop)

mutual

/-- A label set. -/
inductive SpellsLabelset : Descriptor → (word after : Text) → Prop where
  | lettered {w letters p : Text} {shape : Shape} {gens : Option Text} :
      (w, shape, letters) ∈ letteredWords → SpellsAlphabet gens p →
      SpellsLabelset (shape.over (.genset letters gens)) w p
  | untyped {w p : Text} {shape : Shape} {gens : Option Text} :
      (w, shape) ∈ typedWords → SpellsAlphabet gens p →
      SpellsLabelset (shape.over (.genset "char_letters".toList gens)) w p
  | typed {w v p : Text} {shape : Shape} {g : Descriptor} (b b₁ b₂ : Blanks) :
      (w, shape) ∈ typedWords → SpellsGenset g v p →
      SpellsLabelset (shape.over g) w (within b b₁ v p b₂)
  | bracketed {d : Descriptor} {p : Text} :
      SpellsBracketed "char_letters".toList d p → SpellsLabelset d [] p
  | prefixed {v letters p : Text} {d : Descriptor} (b₁ b₂ b₃ : Blanks) :
      (v, letters) ∈ usualLetters → SpellsBracketed letters d p →
      SpellsLabelset d [] ('<' :: (b₁.text ++ (v ++ (b₂.text ++ '>' :: (b₃.text ++ p)))))
  | nullableBare {w p : Text} {gens : Option Text} :
      w ∈ nullableWords → SpellsAlphabet gens p →
      SpellsLabelset (.nullableset (.letterset (.genset "char_letters".toList gens))) w p
  | nullableGenset {w v p : Text} {g : Descriptor} (b b₁ b₂ : Blanks) :
      w ∈ nullableWords → v ∈ usualLetters.map Prod.fst ∨ v = "set_alphabet".toList →
      SpellsGenset g v p →
      SpellsLabelset (.nullableset (.letterset g)) w (within b b₁ v p b₂)
  | nullable {w v p : Text} {l : Descriptor} (b b₁ b₂ : Blanks) :
      w ∈ nullableWords → SpellsLabelset l v p →
      SpellsLabelset (.nullableset l) w (within b b₁ v p b₂)
  | one {w : Text} : w ∈ oneWords → SpellsLabelset .oneset w []
  | product {w p : Text} {d : Descriptor} :
      w ∈ productWords → SpellsProduct d p → SpellsLabelset d w p
  | expressions {w p : Text} {usual : Identities} {d : Descriptor} :
      (w, usual) ∈ expressionWords → SpellsExpressions usual d p → SpellsLabelset d w p

/-- A weight set. -/
inductive SpellsWeightset : Descriptor → (word after : Text) → Prop where
  | terminal {w : Text} : w ∈ terminalWords → SpellsWeightset (.weightset w) w []
  | polynomials {v p : Text} {c : Descriptor} (b b₁ b₂ : Blanks) : SpellsContext c v p →
      SpellsWeightset (.polynomialset c) "polynomialset".toList (within b b₁ v p b₂)
  | product {w p : Text} {d : Descriptor} :
      w ∈ productWords → SpellsProduct d p → SpellsWeightset d w p
  | expressions {w p : Text} {usual : Identities} {d : Descriptor} :
      (w, usual) ∈ expressionWords → SpellsExpressions usual d p → SpellsWeightset d w p

/-- A member of a product. -/
inductive SpellsMember : Descriptor → (word after : Text) → Prop where
  | labelset {w p : Text} {d : Descriptor} : SpellsLabelset d w p → SpellsMember d w p
  | weightset {w p : Text} {d : Descriptor} : SpellsWeightset d w p → SpellsMember d w p

/-- The further members of a product. -/
inductive SpellsMembers : List Descriptor → Text → Prop where
  | nil : SpellsMembers [] []
  | cons {w p q : Text} {d : Descriptor} {ds : List Descriptor} (b b₁ : Blanks) :
      SpellsMember d w p → SpellsMembers ds q →
      SpellsMembers (d :: ds) (b.text ++ ',' :: (b₁.text ++ (w ++ (p ++ q))))

/-- A product, after its word. -/
inductive SpellsProduct : Descriptor → Text → Prop where
  | tupleset {w p q : Text} {d : Descriptor} {ds : List Descriptor} (b b₁ b₂ : Blanks) :
      SpellsMember d w p → SpellsMembers ds q →
      SpellsProduct (.tupleset (d :: ds)) (within b b₁ w (p ++ q) b₂)

/-- An expression set, after its word. -/
inductive SpellsExpressions : Identities → Descriptor → Text → Prop where
  | expressionset {w p q : Text} {c : Descriptor} {usual i : Identities} (b b₁ b₂ : Blanks) :
      SpellsContext c w p → SpellsIdentities usual i q →
      SpellsExpressions usual (.expressionset c i) (within b b₁ w p b₂ ++ q)

/-- A context. -/
inductive SpellsContext : Descriptor → (word after : Text) → Prop where
  | wrapped {w p : Text} {c : Descriptor} (b b₁ b₂ : Blanks) : SpellsContext c w p →
      SpellsContext c "context".toList (within b b₁ w p b₂)
  | separated {w p s v q : Text} {l d : Descriptor} :
      SpellsLabelset l w p → SpellsSeparator p s → SpellsWeightset d v q →
      SpellsContext (.context l d) w (p ++ (s ++ (v ++ q)))
  | joined {w p v q : Text} {l d : Descriptor} :
      w ≠ [] → SpellsLabelset l w p → SpellsWeightset d v q → joins w p q →
      SpellsContext (.context l d) (w ++ '_' :: v) (p ++ q)

end

end

/-- As in `lal_char_zmin`, nothing follows for the label set. -/
def Plain (_w p _q : Text) : Prop := p = []

/--
Brackets of the weight set do not follow a label set word that brackets may follow.  They do in
`lal_lat<b>`.
-/
def Apart (w p q : Text) : Prop := w ∈ openWords → p = [] → q = []

/-- Only words that are kept apart are joined. -/
def KeepsApart (joins : (w p q : Text) → Prop) : Prop := ∀ w p q, joins w p q → Apart w p q

/-! ## Decorations -/

/-- The names that may stand before a context. -/
def homeWords : List Text :=
  ["vcsn::".toList, "vcsn_".toList, "ctx::".toList, "ctx_".toList]

/-- The text behind any number of homes. -/
inductive Homed (core : Text) : Text → Prop where
  | core : Homed core core
  | home {h t : Text} (b : Blanks) :
      h ∈ homeWords → Homed core t → Homed core (h ++ (b.text ++ t))

/-- The text behind homes, in quotes or not, with blanks around it. -/
inductive Decorated (core : Text) : Text → Prop where
  | plain {t : Text} (b b' : Blanks) :
      Homed core t → Decorated core (b.text ++ (t ++ b'.text))
  | quoted {t : Text} {q : Char} (b b₁ b₂ b' : Blanks) :
      q = '\'' ∨ q = '"' → Homed core t →
      Decorated core (b.text ++ q :: (b₁.text ++ (t ++ (b₂.text ++ q :: b'.text))))

/-- The text is a spelling of the context. -/
def IsSpelling (joins : (w p q : Text) → Prop) (text : Text) (d : Descriptor) : Prop :=
  ∃ w p, SpellsContext joins d w p ∧ Decorated (w ++ p) text

end Spelling
end OnDemand
