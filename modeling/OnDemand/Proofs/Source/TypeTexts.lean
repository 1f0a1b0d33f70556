import OnDemand.Proofs.Descriptor.Decoration
import OnDemand.Proofs.Source.Laying
import OnDemand.Proofs.Text.Pieces

/-!
# The texts of types

The type of a descriptor takes several lines as soon as it has arguments.  Opaque names stand in it
as they are, so a line of it may have nearly anything on it; but none looks like a statement of the
language.  Behind its tabs, a line of a type begins with a word and a delimiter.
-/

namespace OnDemand

open Stand

/-! ## Lines that begin like types -/

/-- What may stand behind a word of a type. -/
def delimiters : Text := '\n' :: "<>,();".toList

/--
The text begins like a type: behind tabs stands a word, perhaps an empty one, and behind the word a
delimiter.  After `const` there is a space.
-/
def OpensType (t : Text) : Prop :=
  ∃ (tabs w : Text) (c : Char) (r : Text), t = tabs ++ (w ++ c :: r) ∧ (∀ d ∈ tabs, d = '\t') ∧
    w.all inWord = true ∧ (c ∈ delimiters ∨ c = ' ' ∧ w = "const".toList)

/-- Each line behind the first one begins like a type. -/
def Lined (t : Text) : Prop := ∀ a b, t = a ++ '\n' :: b → OpensType b

theorem OpensType.append {t : Text} (h : OpensType t) (u : Text) : OpensType (t ++ u) := by
  obtain ⟨tabs, w, c, r, rfl, htabs, hw, hc⟩ := h
  exact ⟨tabs, w, c, r ++ u, by simp, htabs, hw, hc⟩

theorem OpensType.indented {t : Text} (h : OpensType t) (k : Nat) :
    OpensType (List.replicate k '\t' ++ t) := by
  obtain ⟨tabs, w, c, r, rfl, htabs, hw, hc⟩ := h
  refine ⟨List.replicate k '\t' ++ tabs, w, c, r, by simp, ?_, hw, hc⟩
  intro d hd
  rcases List.mem_append.1 hd with hd | hd
  · exact (List.mem_replicate.1 hd).2
  · exact htabs d hd

theorem lined_of_not_mem {t : Text} (h : '\n' ∉ t) : Lined t := by
  rintro a b rfl
  exact absurd (by simp) h

theorem Lined.append {t u : Text} (ht : Lined t) (hu : Lined u) : Lined (t ++ u) := by
  intro a b hab
  rcases List.append_eq_append_iff.1 hab with ⟨a', rfl, hu'⟩ | ⟨c, rfl, hc⟩
  · exact hu a' b hu'
  · cases c with
    | nil => exact hu [] b hc.symm
    | cons d c =>
        cases hc
        exact (ht a c rfl).append u

theorem lined_joinWith {sep : Text} (hsep : '\n' ∉ sep) {pieces : List Text}
    (h : ∀ piece ∈ pieces, Lined piece) : Lined (Text.joinWith sep pieces) := by
  induction pieces with
  | nil => exact lined_of_not_mem List.not_mem_nil
  | cons piece pieces ih =>
      cases pieces with
      | nil => exact h piece (by simp)
      | cons next rest =>
          rw [Text.joinWith]
          have hrest := ih fun q hq => h q (List.mem_cons_of_mem _ hq)
          exact ((h piece (by simp)).append (lined_of_not_mem hsep)).append hrest

theorem Lined.newline {t : Text} (h : OpensType t) (ht : Lined t) : Lined ('\n' :: t) := by
  intro a b hab
  cases a with
  | nil =>
      cases hab
      exact h
  | cons c a =>
      cases hab
      exact ht a b rfl

/-! ## Type texts -/

/-- A text that is written for a type. -/
structure IsTypeText (t : Text) : Prop where
  opens : ∀ c ∈ delimiters, OpensType (t ++ [c])
  lined : Lined t
  return_not_mem : '\r' ∉ t

namespace IsTypeText

variable {w p : Text}

theorem word (h : w.all inWord = true) : IsTypeText w := by
  have hmem : ∀ c ∈ w, inWord c = true := List.all_eq_true.1 h
  refine ⟨fun c hc => ⟨[], w, c, [], rfl, by simp, h, .inl hc⟩, lined_of_not_mem ?_, ?_⟩
  · exact fun hc => absurd (hmem _ hc) (by decide)
  · exact fun hc => absurd (hmem _ hc) (by decide)

/-- A text that begins like a type does so whatever stands behind it. -/
theorem of_opens (h : OpensType p) (hlined : Lined p) (hreturn : '\r' ∉ p) : IsTypeText p :=
  ⟨fun _ _ => h.append _, hlined, hreturn⟩

theorem opened {c : Char} (hw : w.all inWord = true) (hc : c ∈ "<(".toList) (hlined : Lined p)
    (hreturn : '\r' ∉ p) : IsTypeText (w ++ c :: p) := by
  have hmem : ∀ d ∈ w, inWord d = true := List.all_eq_true.1 hw
  have hc' : c = '<' ∨ c = '(' := by simpa using hc
  have hhead : Lined (w ++ [c]) := by
    refine lined_of_not_mem fun hd => ?_
    rcases List.mem_append.1 hd with hd | hd
    · exact absurd (hmem _ hd) (by decide)
    · rw [List.mem_singleton] at hd
      subst hd
      exact absurd hc (by decide)
  refine of_opens ⟨[], w, c, p, rfl, by simp, hw, .inl ?_⟩ ?_ ?_
  · rcases hc' with rfl | rfl <;> decide
  · have hsplit : w ++ c :: p = w ++ [c] ++ p := by simp
    rw [hsplit]
    exact hhead.append hlined
  · intro hd
    rcases List.mem_append.1 hd with hd | hd
    · exact absurd (hmem _ hd) (by decide)
    · rcases List.mem_cons.1 hd with rfl | hd
      · exact absurd hc (by decide)
      · exact hreturn hd

end IsTypeText

/-! ## Opaque names -/

theorem Parameters.eq_space_of_mem_spaced {t : Text} {last : Option Char} {gap : Bool} {c : Char}
    (h : c ∈ spaced last gap t) (hc : isBlank c = true) : c = ' ' := by
  induction t generalizing last gap with
  | nil => cases h
  | cons d t ih =>
      cases hd : isBlank d with
      | true =>
          rw [spaced_blank hd] at h
          exact ih h
      | false =>
          rw [spaced_cons hd] at h
          unfold spacedAfter at h
          -- The space between words, the character itself, and what comes after it.
          have hcd : c ≠ d := by
            rintro rfl
            rw [hc] at hd
            cases hd
          split at h <;> split at h <;> grind

namespace Descriptor

open Reader

/-- The only blanks in an opaque name are spaces. -/
theorem IsOpaque.eq_space {name : Text} (h : IsOpaque name) {c : Char} (hc : c ∈ name)
    (hblank : isBlank c = true) : c = ' ' := by
  have hword : ∀ w : Text, OpensOpaque w → c ∉ w := by
    intro w hw hmem
    rw [isBlank_of_inWord (hw.isWord.inWord_of_mem hmem)] at hblank
    cases hblank
  induction h with
  | bare hw => exact absurd hc (hword _ hw)
  | applied hw hp =>
      obtain ⟨raw, -, hcanonical, rfl⟩ := hp
      rcases List.mem_append.1 hc with hc | hc
      · exact absurd hc (hword _ hw)
      · rw [List.cons_append, List.mem_cons, List.mem_append, List.mem_singleton] at hc
        rcases hc with rfl | hc | rfl
        · exact absurd hblank (by decide)
        · rw [← hcanonical] at hc
          exact Parameters.eq_space_of_mem_spaced hc hblank
        · exact absurd hblank (by decide)
  | constant _ ih =>
      have hconst : ("const ".toList.all fun d => !isBlank d || d == ' ') = true := by decide
      rcases List.mem_append.1 hc with hc | hc
      · simpa [hblank] using List.all_eq_true.1 hconst c hc
      · exact ih hc

theorem IsOpaque.newline_not_mem {name : Text} (h : IsOpaque name) : '\n' ∉ name := fun hc =>
  absurd (h.eq_space hc rfl) (by decide)

theorem IsOpaque.return_not_mem {name : Text} (h : IsOpaque name) : '\r' ∉ name := fun hc =>
  absurd (h.eq_space hc rfl) (by decide)

theorem IsOpaque.isTypeText {name : Text} (h : IsOpaque name) : IsTypeText name := by
  have hlined := lined_of_not_mem h.newline_not_mem
  have hreturn := h.return_not_mem
  cases h with
  | bare hw => exact .word hw.isWord.2
  | @applied w p hw hp =>
      obtain ⟨raw, -, -, rfl⟩ := hp
      exact .of_opens ⟨[], w, '<', raw ++ ['>'], rfl, by simp, hw.isWord.2, .inl (by decide)⟩
        hlined hreturn
  | @constant name hname =>
      exact .of_opens ⟨[], "const".toList, ' ', name, rfl, by simp, by decide, .inr ⟨rfl, rfl⟩⟩
        hlined hreturn

end Descriptor

/-! ## Writing types -/

/-- At level `k`, the marks write a type, and its text is `t`. -/
structure WritesType (k : Nat) (ms : List Mark) (t : Text) : Prop where
  writes : Writes k ms t
  isTypeText : IsTypeText t

namespace WritesType

variable {k : Nat} {ms : List Mark} {mss : List (List Mark)} {t head : Text} {ts : List Text}

theorem use {item : Text} (h : WritesType k ms t) (hitem : '\n' ∉ item) :
    WritesType k (.use item :: ms) t :=
  ⟨h.writes.use hitem, h.isTypeText⟩

theorem useLate {item : Text} (h : WritesType k ms t) (hitem : '\n' ∉ item) :
    WritesType k (.useLate item :: ms) t :=
  ⟨h.writes.useLate hitem, h.isTypeText⟩

theorem link (argument : Text) (h : WritesType k ms t) : WritesType k (.link argument :: ms) t :=
  ⟨h.writes.link argument, h.isTypeText⟩

theorem text (k : Nat) (hne : t ≠ []) (hline : '\n' ∉ t) (h : IsTypeText t) :
    WritesType k [.text t] t :=
  ⟨.text k hne hline, h⟩

theorem isTypeTexts (h : List.Forall₂ (WritesType k) mss ts) : ∀ t ∈ ts, IsTypeText t := by
  induction h with
  | nil => simp
  | cons hfirst _ ih =>
      intro t ht
      rcases List.mem_cons.1 ht with rfl | ht
      · exact hfirst.isTypeText
      · exact ih t ht

/-- The arguments of a generic type, each on a line of its own, and the line that closes it. -/
theorem lined_arguments (k : Nat) (h : ∀ t ∈ ts, IsTypeText t) :
    Lined (Text.joinWith ",".toList (ts.map fun t => '\n' :: (List.replicate (k + 1) '\t' ++ t)) ++
      '\n' :: (List.replicate k '\t' ++ ">".toList)) := by
  have hclose : OpensType (List.replicate k '\t' ++ ">".toList) :=
    OpensType.indented ⟨[], [], '>', [], rfl, by simp, rfl, .inl (by decide)⟩ k
  have htabs : Lined (List.replicate k '\t' ++ ">".toList) :=
    lined_of_not_mem (by simp [List.mem_replicate])
  -- An argument is followed by a comma or by the end of its line, so its line opens like a type.
  have hargument : ∀ t ∈ ts, ∀ c ∈ delimiters, ∀ rest, Lined (c :: rest) →
      Lined ('\n' :: (List.replicate (k + 1) '\t' ++ t) ++ c :: rest) := by
    intro t ht c hc rest hrest
    have hopens : OpensType (List.replicate (k + 1) '\t' ++ t ++ c :: rest) := by
      have happend := (((h t ht).opens c hc).indented (k + 1)).append rest
      simpa using happend
    have hindent : Lined (List.replicate (k + 1) '\t') :=
      lined_of_not_mem (by simp [List.mem_replicate])
    exact .newline hopens ((hindent.append (h t ht).lined).append hrest)
  induction ts with
  | nil => exact .newline hclose htabs
  | cons t ts ih =>
      cases ts with
      | nil => exact hargument t (by simp) '\n' (by decide) _ (.newline hclose htabs)
      | cons u us =>
          have hrest := ih (fun t ht => h t (List.mem_cons_of_mem _ ht))
            (fun t ht => hargument t (List.mem_cons_of_mem _ ht))
          rw [List.map_cons, List.map_cons, Text.joinWith, List.append_assoc, List.append_assoc]
          refine hargument t (by simp) ',' (by decide) _ ?_
          exact (lined_of_not_mem (t := ",".toList) (by decide)).append hrest

theorem isTypeText_genericText (hhead : head.all inWord = true) (h : ∀ t ∈ ts, IsTypeText t) :
    IsTypeText (genericText k head ts) := by
  refine .opened hhead (by decide) (lined_arguments k h) ?_
  have hjoined : '\r' ∉ Text.joinWith ",".toList
      (ts.map fun t => '\n' :: (List.replicate (k + 1) '\t' ++ t)) := by
    intro hc
    rcases Text.mem_joinWith hc with hsep | ⟨piece, hpiece, hc⟩
    · exact absurd hsep (by decide)
    · obtain ⟨t, ht, rfl⟩ := List.mem_map.1 hpiece
      simp [List.mem_replicate, (h t ht).return_not_mem] at hc
  rw [List.mem_append, not_or]
  exact ⟨hjoined, by simp [List.mem_replicate]⟩

theorem newline_not_mem_of_inWord (h : head.all inWord = true) : '\n' ∉ head := fun hc =>
  absurd (List.all_eq_true.1 h _ hc) (by decide)

theorem generic (hne : head ≠ []) (hhead : head.all inWord = true)
    (h : List.Forall₂ (WritesType (k + 1)) mss ts) :
    WritesType k (generic head mss) (genericText k head ts) where
  writes := .generic hne (newline_not_mem_of_inWord hhead) (h.imp fun _ _ hms => hms.writes)
  isTypeText := isTypeText_genericText hhead (isTypeTexts h)

theorem oneLine (hhead : head.all inWord = true) (h : WritesType k ms t) :
    WritesType k (oneLine head ms) (head ++ '<' :: (t ++ ">".toList)) := by
  refine ⟨h.writes.oneLine (newline_not_mem_of_inWord hhead), .opened hhead (by decide) ?_ ?_⟩
  · exact h.isTypeText.lined.append (lined_of_not_mem (by decide))
  · simp [h.isTypeText.return_not_mem]

theorem parenthesized (h : List.Forall₂ (WritesType k) mss ts) :
    WritesType k (parenthesized mss)
      ('(' :: (Text.joinWith " ".toList (ts.map (· ++ ",".toList)) ++ ")".toList)) := by
  have hpieces : ∀ piece ∈ ts.map (· ++ ",".toList), Lined piece ∧ '\r' ∉ piece := by
    intro piece hpiece
    obtain ⟨t, ht, rfl⟩ := List.mem_map.1 hpiece
    have htext := isTypeTexts h t ht
    exact ⟨htext.lined.append (lined_of_not_mem (by decide)), by simp [htext.return_not_mem]⟩
  have hreturn : '\r' ∉ Text.joinWith " ".toList (ts.map (· ++ ",".toList)) := by
    intro hc
    rcases Text.mem_joinWith hc with hsep | ⟨piece, hpiece, hc⟩
    · exact absurd hsep (by decide)
    · exact (hpieces piece hpiece).2 hc
  refine ⟨.parenthesized (h.imp fun _ _ hms => hms.writes), .opened (w := []) rfl (by decide) ?_ ?_⟩
  · refine (lined_joinWith (by decide) fun piece hpiece => (hpieces piece hpiece).1).append ?_
    exact lined_of_not_mem (by decide)
  · rw [List.mem_append, not_or]
    exact ⟨hreturn, by decide⟩

end WritesType

/-! ## The types of descriptors -/

/-- None of the marks refuses. -/
def Unrefused (ms : List Mark) : Prop := ∀ what, .refuse what ∉ ms

theorem unrefused_of_firstRefusal? {ms : List Mark} (h : firstRefusal? ms = none) :
    Unrefused ms := by
  intro what hmem
  have hnone := List.findSome?_eq_none_iff.1 h _ hmem
  cases hnone

theorem Unrefused.of_subset {ms ms' : List Mark} (h : Unrefused ms) (hsub : ms' ⊆ ms) :
    Unrefused ms' := fun what hmem => h what (hsub hmem)

theorem Unrefused.known {kind name : Text} {table : List (Text × Import)}
    {marks : Import → List Mark} (h : Unrefused (known kind table name marks)) :
    ∃ i, (name, i) ∈ table ∧ known kind table name marks = marks i := by
  unfold OnDemand.known at h ⊢
  cases hlookup : table.lookup name with
  | none =>
      rw [hlookup] at h
      exact absurd (List.mem_singleton.2 rfl) (h ⟨kind, name⟩)
  | some i => exact ⟨i, Text.mem_of_lookup hlookup, rfl⟩

theorem subset_intercalate (sep : List Mark) {ms : List Mark} {mss : List (List Mark)}
    (h : ms ∈ mss) : ms ⊆ List.intercalate sep mss := by
  induction mss with
  | nil => cases h
  | cons first rest ih =>
      cases rest with
      | nil =>
          rw [List.mem_singleton] at h
          simp [h]
      | cons next rest =>
          rw [List.intercalate_cons_cons]
          rcases List.mem_cons.1 h with rfl | h
          · intro m hm
            simp [hm]
          · exact List.subset_append_of_subset_right _ (ih h)

theorem Unrefused.generic {head : Text} {mss : List (List Mark)}
    (h : Unrefused (generic head mss)) {ms : List Mark} (hms : ms ∈ mss) : Unrefused ms := by
  refine h.of_subset fun m hm => ?_
  have hjoined := subset_intercalate [.text [',']]
    (List.mem_map_of_mem (f := (Mark.newline :: ·)) hms) (List.mem_cons_of_mem _ hm)
  simp [OnDemand.generic, hjoined]

theorem Unrefused.oneLine {head : Text} {ms : List Mark} (h : Unrefused (oneLine head ms)) :
    Unrefused ms := by
  refine h.of_subset fun m hm => ?_
  simp [OnDemand.oneLine, hm]

theorem Unrefused.parenthesized {mss : List (List Mark)} (h : Unrefused (parenthesized mss))
    {ms : List Mark} (hms : ms ∈ mss) : Unrefused ms := by
  refine h.of_subset fun m hm => ?_
  have hjoined := subset_intercalate [.text [' ']]
    (List.mem_map_of_mem (f := (· ++ [Mark.text [',']])) hms)
    (List.mem_append_left _ hm)
  simp [OnDemand.parenthesized, hjoined]

theorem Unrefused.cons {m : Mark} {ms : List Mark} (h : Unrefused (m :: ms)) : Unrefused ms :=
  h.of_subset (List.subset_cons_self m ms)

namespace Descriptor

open Vocabulary

/-- The types of the tables are words, and the paths to them are on one line. -/
theorem isWord_type_of_mem :
    ∀ p ∈ letters ++ weightsets ++ automata ++ imported,
      p.2.type ≠ [] ∧ p.2.type.all inWord = true ∧ '\n' ∉ p.2.path := by
  decide +kernel

theorem isTypeText_plain : ∀ p ∈ plain, p.2 ≠ [] ∧ '\n' ∉ p.2 ∧ IsTypeText p.2 := by
  have hall : ∀ p ∈ plain, p.2 ≠ [] ∧ '\n' ∉ p.2 ∧
      (p.2.all inWord = true ∨ p.2 = "Option".toList ++ '<' :: "u32>".toList) := by decide
  intro p hp
  obtain ⟨hne, hline, hword | hoption⟩ := hall p hp
  · exact ⟨hne, hline, .word hword⟩
  · refine ⟨hne, hline, ?_⟩
    rw [hoption]
    exact .opened (by decide) (by decide) (lined_of_not_mem (by decide)) (by decide)

/-- A number in the name of an integral constant has no blanks but spaces. -/
theorem eq_space_of_integral {name n : Text} (h : IsOpaque name) (hn : integral? name = some n)
    {c : Char} (hc : c ∈ n) (hblank : isBlank c = true) : c = ' ' := by
  obtain ⟨rest, hrest, hn⟩ := Option.bind_eq_some_iff.1 hn
  obtain ⟨reversed, hreversed, rfl⟩ := Option.map_eq_some_iff.1 hn
  rw [Text.dropPrefix?_eq_some_iff] at hrest hreversed
  refine h.eq_space ?_ hblank
  have hmem : c ∈ rest := by
    rw [← List.mem_reverse, hreversed]
    exact List.mem_append_right _ (List.mem_reverse.1 hc)
  rw [hrest]
  exact List.mem_append_right _ hmem

theorem writesType_word (k : Nat) {i : Import} (hne : i.type ≠ [])
    (hword : i.type.all inWord = true) : WritesType k [.text i.type] i.type :=
  .text k hne (fun hc => absurd (List.all_eq_true.1 hword _ hc) (by decide)) (.word hword)

theorem writesType_opaqueMarks {name : Text} (h : IsOpaque name) (k : Nat) :
    ∃ t, WritesType k (opaqueMarks name) t := by
  unfold opaqueMarks
  split
  next type hplain =>
    obtain ⟨hne, hline, htext⟩ := isTypeText_plain _ (Text.mem_of_lookup hplain)
    exact ⟨type, .text k hne hline htext⟩
  next i _ himported =>
    obtain ⟨hne, hword, hpath⟩ := isWord_type_of_mem _
      (List.mem_append_right _ (Text.mem_of_lookup himported))
    exact ⟨i.type, (writesType_word k hne hword).use hpath⟩
  next n _ _ hintegral =>
    have hline : '\n' ∉ n := fun hc =>
      absurd (eq_space_of_integral h hintegral hc rfl) (by decide)
    have hreturn : '\r' ∉ n := fun hc =>
      absurd (eq_space_of_integral h hintegral hc rfl) (by decide)
    refine ⟨_, WritesType.use (.text k (by simp) ?_ ?_) (by decide)⟩
    · simp [hline, integralConstant, named]
    · have htext : integralConstant.type ++ "<".toList ++ n ++ ">".toList =
          integralConstant.type ++ '<' :: (n ++ ">".toList) := by simp
      rw [htext]
      exact .opened (by decide) (by decide) (lined_of_not_mem (by simp [hline])) (by simp [hreturn])
  next =>
    refine ⟨name, .text k ?_ h.newline_not_mem h.isTypeText⟩
    rintro rfl
    exact h.takeWhile_ne_nil rfl

theorem writesType_genset {g : Descriptor} (h : IsGenset g) (hok : Unrefused g.marks) (k : Nat) :
    ∃ t, WritesType k g.marks t := by
  cases h with
  | @genset letters generators _ _ _ =>
      rw [marks] at hok ⊢
      obtain ⟨i, hi, hmarks⟩ := hok.known
      obtain ⟨-, hword, hpath⟩ := isWord_type_of_mem _ (by simp [hi] : (letters, i) ∈ _)
      have hline : '\n' ∉ i.type := fun hc => absurd (List.all_eq_true.1 hword _ hc) (by decide)
      have hreturn : '\r' ∉ i.type := fun hc => absurd (List.all_eq_true.1 hword _ hc) (by decide)
      have htext : IsTypeText ("SetAlphabet".toList ++ '<' :: (i.type ++ ">".toList)) :=
        .opened (by decide) (by decide) (lined_of_not_mem (by simp [hline])) (by simp [hreturn])
      rw [hmarks]
      exact ⟨_, ((WritesType.text k (by simp) (by simp [hline]) htext).use hpath).use
        (by decide)⟩

mutual

/-- The marks of a type that can be read write it, unless one of them refuses. -/
theorem writesType_marks (d : Descriptor) (h : HasParts d) (hok : Unrefused d.marks) (k : Nat) :
    ∃ t, WritesType k d.marks t := by
  match d with
  | .context l w =>
      rw [marks] at hok ⊢
      obtain ⟨t, ht⟩ := writesType_marks l h.1.hasParts (hok.cons.generic (by simp)) (k + 1)
      obtain ⟨u, hu⟩ := writesType_marks w h.2.hasParts (hok.cons.generic (by simp)) (k + 1)
      have hne : "Context".toList ≠ [] := by decide
      have hgeneric := WritesType.generic hne (by decide) (.cons ht (.cons hu .nil))
      exact ⟨_, hgeneric.use (by decide)⟩
  | .tupleset ds =>
      rw [marks] at hok ⊢
      obtain ⟨ts, hts⟩ := writesType_marksOfAll ds (fun e he => (h.2 e he).isType.hasParts)
        (fun ms hms => hok.cons.oneLine.parenthesized hms) k
      exact ⟨_, ((WritesType.parenthesized hts).oneLine (by decide)).useLate (by decide)⟩
  | .tuple ds =>
      rw [marks] at hok ⊢
      obtain ⟨ts, hts⟩ := writesType_marksOfAll ds (fun e he => (h.2 e he).hasParts)
        (fun ms hms => hok.parenthesized hms) k
      exact ⟨_, WritesType.parenthesized hts⟩
  | .oneset =>
      rw [marks]
      exact ⟨_, (WritesType.text k (by decide) (by decide) (.word (by decide))).use (by decide)⟩
  | .genset letters generators => exact h.elim
  | .letterset g =>
      rw [marks] at hok ⊢
      obtain ⟨t, ht⟩ := writesType_genset h hok.cons.oneLine k
      exact ⟨_, (ht.oneLine (by decide)).use (by decide)⟩
  | .wordset g =>
      rw [marks] at hok ⊢
      obtain ⟨t, ht⟩ := writesType_genset h hok.cons.oneLine k
      exact ⟨_, (ht.oneLine (by decide)).use (by decide)⟩
  | .nullableset l =>
      rw [marks] at hok ⊢
      obtain ⟨t, ht⟩ := writesType_marks l h.hasParts (hok.cons.generic (by simp)) (k + 1)
      exact ⟨_, (WritesType.generic (by decide) (by decide) (.cons ht .nil)).use (by decide)⟩
  | .expressionset c i =>
      rw [marks] at hok ⊢
      obtain ⟨t, ht⟩ := writesType_marks c (IsType.context h).hasParts
        (hok.cons.generic (by simp)) (k + 1)
      exact ⟨_, (WritesType.generic (by decide) (by decide) (.cons ht .nil)).use (by decide)⟩
  | .expansionset e =>
      rw [marks] at hok ⊢
      obtain ⟨t, ht⟩ := writesType_marks e (IsExpressions.hasParts h)
        (hok.cons.generic (by simp)) (k + 1)
      exact ⟨_, (WritesType.generic (by decide) (by decide) (.cons ht .nil)).use (by decide)⟩
  | .weightset name =>
      rw [marks] at hok ⊢
      obtain ⟨i, hi, hmarks⟩ := hok.known
      obtain ⟨hne, hword, hpath⟩ := isWord_type_of_mem _ (by simp [hi] : (name, i) ∈ _)
      rw [hmarks]
      refine ⟨i.type, WritesType.use ?_ hpath⟩
      split
      · exact (writesType_word k hne hword).link _
      · exact writesType_word k hne hword
  | .automaton name ds =>
      rw [marks] at hok ⊢
      obtain ⟨i, hi, hmarks⟩ := hok.known
      obtain ⟨hne, hword, hpath⟩ := isWord_type_of_mem _ (by simp [hi] : (name, i) ∈ _)
      rw [hmarks] at hok ⊢
      obtain ⟨ts, hts⟩ := writesType_marksOfAll ds (fun e he => (h.2.2 e he).hasParts)
        (fun ms hms => hok.cons.generic hms) (k + 1)
      exact ⟨_, (WritesType.generic hne hword hts).use hpath⟩
  | .polynomialset c =>
      rw [marks] at hok ⊢
      obtain ⟨t, ht⟩ := writesType_marks c (IsType.context h).hasParts
        (hok.cons.generic (by simp)) (k + 1)
      exact ⟨_, (WritesType.generic (by decide) (by decide) (.cons ht .nil)).use (by decide)⟩
  | .other name =>
      rw [marks]
      exact writesType_opaqueMarks h k

theorem writesType_marksOfAll (ds : List Descriptor) (h : ∀ e ∈ ds, HasParts e)
    (hok : ∀ ms ∈ marksOfAll ds, Unrefused ms) (k : Nat) :
    ∃ ts, List.Forall₂ (WritesType k) (marksOfAll ds) ts := by
  match ds with
  | [] => exact ⟨[], .nil⟩
  | d :: ds =>
      obtain ⟨t, ht⟩ := writesType_marks d (h d (by simp)) (hok _ (by simp [marksOfAll])) k
      obtain ⟨ts, hts⟩ := writesType_marksOfAll ds (fun e he => h e (List.mem_cons_of_mem d he))
        (fun ms hms => hok ms (by simp [marksOfAll, hms])) k
      exact ⟨t :: ts, .cons ht hts⟩

end

/-- How the type of a descriptor is written on a sheet of its own. -/
def rendering (d : Descriptor) : Text := (({} : Sheet).visit d).1.body

theorem writesType_rendering {d : Descriptor} (h : HasParts d) (hok : Unrefused d.marks) :
    WritesType 0 d.marks d.rendering := by
  obtain ⟨t, ht⟩ := writesType_marks d h hok 0
  obtain ⟨s, hwrite, hbody, -, -⟩ := ht.writes (start 0) rfl {} rfl
  have hrendering : d.rendering = t := by
    rw [rendering, Sheet.visit, hwrite, hbody]
    rfl
  rw [hrendering]
  exact ht

end Descriptor

/-! ## The lines of a type -/

/-- A line of a type: like the beginning of one, but the line may end behind the word. -/
def IsTypeLine (l : Text) : Prop :=
  ∃ tabs w r : Text, l = tabs ++ (w ++ r) ∧ (∀ d ∈ tabs, d = '\t') ∧ w.all inWord = true ∧
    ∀ c, r.head? = some c → c ∈ "<>,();".toList ∨ c = ' ' ∧ w = "const".toList

/-- The lines behind the first are lines of a type. -/
theorem Lined.isTypeLine {t l : Text} (h : Lined t) (hl : l ∈ (Text.splitAt '\n' t).tail) :
    IsTypeLine l := by
  obtain ⟨a, b, rfl, rfl⟩ := Text.mem_tail_splitAt hl
  obtain ⟨tabs, w, c, r, rfl, htabs, hw, hc⟩ := h a b rfl
  have hmem : ∀ d ∈ w, inWord d = true := List.all_eq_true.1 hw
  have htabs' : ∀ d ∈ tabs, (d != '\n') = true := by
    intro d hd
    rw [htabs d hd]
    rfl
  have hw' : ∀ d ∈ w, (d != '\n') = true := by
    intro d hd
    rw [bne_iff_ne]
    rintro rfl
    exact absurd (hmem _ hd) (by decide)
  refine ⟨tabs, w, (c :: r).takeWhile fun d => d != '\n', ?_, htabs, hw, ?_⟩
  · rw [List.takeWhile_append_of_pos htabs', List.takeWhile_append_of_pos hw']
  · intro d hd
    -- The line goes on behind the word only if the delimiter is not its end.
    by_cases hline : c = '\n'
    · subst hline
      simp at hd
    · have hcd : c = d := by simpa [hline] using hd
      subst hcd
      exact hc.imp_left fun hdelimiter => (List.mem_cons.1 hdelimiter).resolve_left hline

theorem of_mem_delimiters {c : Char} (h : c ∈ "<>,();".toList) :
    isBlank c = false ∧ inWord c = false := by
  have hall : ("<>,();".toList.all fun d => !isBlank d && !inWord d) = true := by decide
  simpa using List.all_eq_true.1 hall c h

/-- What stands behind the first word of a line of a type is a delimiter. -/
theorem IsTypeLine.delimiter {l v r : Text} {c : Char} (h : IsTypeLine l)
    (hl : Text.trimStart l = v ++ c :: r) (hv : v.all inWord = true) (hc : inWord c = false) :
    c ∈ "<>,();".toList ∨ c = ' ' ∧ v = "const".toList := by
  obtain ⟨tabs, w, r', rfl, htabs, hw, hr'⟩ := h
  have hblank : ∀ d ∈ tabs, isBlank d = true := by
    intro d hd
    rw [htabs d hd]
    rfl
  have htrim : Text.trimStart (w ++ r') = w ++ r' := by
    cases w with
    | cons d w => exact Text.trimStart_cons (isBlank_of_inWord (by simp_all)) _
    | nil =>
        cases r' with
        | nil => rfl
        | cons d r' =>
            rcases hr' d rfl with hd | ⟨-, hconst⟩
            · exact Text.trimStart_cons (of_mem_delimiters hd).1 _
            · cases hconst
  have hbreak : Reader.BreaksWord r' := by
    cases r' with
    | nil => rfl
    | cons d r' =>
        rcases hr' d rfl with hd | ⟨rfl, -⟩
        · exact (of_mem_delimiters hd).2
        · rfl
  -- Both sides have their first word up to the delimiter.
  rw [Text.trimStart_append_of_blank hblank, htrim] at hl
  have hwords := congrArg (List.takeWhile inWord) hl
  rw [Descriptor.takeWhile_append_of_breaksWord w hbreak, Descriptor.takeWhile_of_all hw,
    Descriptor.takeWhile_append_of_breaksWord v (show Reader.BreaksWord (c :: r) from hc),
    Descriptor.takeWhile_of_all hv] at hwords
  subst hwords
  have hrest := List.append_cancel_left hl
  exact hr' c (by rw [hrest]; rfl)

end OnDemand
