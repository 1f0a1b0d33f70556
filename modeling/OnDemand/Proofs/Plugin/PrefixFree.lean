import Mathlib.Data.List.Forall2
import OnDemand.Plugin.Generation
import OnDemand.Proofs.Descriptor.Carrying
import OnDemand.Proofs.Descriptor.ReadBack

/-!
# No name goes on behind another

The texts of signatures are what places of modules are made of, once their slashes have become
underscores.  A signature all of whose parts can be read is read part by part, whatever stands
behind it, so no text of a signature is the beginning of the text of another; neither does the name
of a context go on behind the name of another.
-/

namespace OnDemand

open Reader Descriptor

/-! ## Reading past a part -/

namespace Signature

/-- What follows a type at the front of a text, blanks aside. -/
def afterType (s : Text) : Option Text := (gives (type s)).map fun p => Text.trimStart p.2

/-- What follows a type and the quote after it. -/
def afterQuoted (q : Char) (s : Text) : Option Text :=
  (afterType (Text.trimStart s)).bind fun r => (leaves (expect q r)).map Text.trimStart

/-- What follows a part of a signature, which may stand in quotes. -/
def afterPart (s : Text) : Option Text :=
  match Text.trimStart s with
  | '\'' :: r => afterQuoted '\'' r
  | '"' :: r => afterQuoted '"' r
  | r => afterType r

/-- A character that ends a part. -/
structure Ends (c : Char) : Prop where
  blank : isBlank c = false
  word : inWord c = false
  star : c ≠ '*'
  alphabet : c ≠ '('
  bracket : c ≠ '<'

instance (c : Char) : Decidable (Ends c) :=
  decidable_of_iff (isBlank c = false ∧ inWord c = false ∧ c ≠ '*' ∧ c ≠ '(' ∧ c ≠ '<')
    ⟨fun ⟨h₁, h₂, h₃, h₄, h₅⟩ => ⟨h₁, h₂, h₃, h₄, h₅⟩,
      fun h => ⟨h.blank, h.word, h.star, h.alphabet, h.bracket⟩⟩

theorem halts_of_ends {c : Char} (hc : Ends c) {blanks : Text}
    (h : ∀ b ∈ blanks, isBlank b = true) (t : Text) : Halts (blanks ++ c :: t) := by
  have hpeek : peek (blanks ++ c :: t) = some c := by
    rw [peek, Text.trimStart_append_of_blank h, Text.trimStart_cons hc.blank]
    rfl
  have hhead : ∃ b, (blanks ++ c :: t).head? = some b ∧ (isBlank b = true ∨ b = c) := by
    cases blanks with
    | nil => exact ⟨c, rfl, .inr rfl⟩
    | cons b blanks => exact ⟨b, rfl, .inl (h b (by simp))⟩
  obtain ⟨b, hb, hkind⟩ := hhead
  refine ⟨?_, ?_, ?_, ?_⟩
  · rw [hb, Option.any_some]
    rcases hkind with hblank | rfl
    · cases hword : inWord b with
      | false => rfl
      | true =>
          rw [isBlank_of_inWord hword] at hblank
          cases hblank
    · exact hc.word
  · rw [hb]
    intro hstar
    cases hstar
    rcases hkind with hblank | rfl
    · revert hblank
      decide
    · exact hc.star rfl
  · rw [hpeek]
    intro h
    exact hc.alphabet (by simpa using h)
  · rw [hpeek]
    intro h
    exact hc.bracket (by simpa using h)

theorem blank_of_mem_flat {blanks : Text} (h : ∀ c ∈ blanks, isBlank c = true) :
    ∀ c ∈ flat blanks, isBlank c = true := by
  intro c hc
  obtain ⟨b, hb, rfl⟩ := List.mem_map.1 hc
  rw [isBlank_flatChar]
  exact h b hb

theorem flat_append (s t : Text) : flat (s ++ t) = flat s ++ flat t := List.map_append

theorem afterType_extend {s r t : Text} {d : Descriptor} (h : gives (type s) = some (d, r))
    (hr : Text.trimStart r = []) (ht : Halts t) : afterType (flat s ++ t) = some (Text.trimStart t) := by
  have hslash : ¬Slashed r := by
    intro hslash
    rw [Slashed, peek, hr] at hslash
    cases hslash
  obtain ⟨d', hd', -⟩ := (type_carries ht s _ _ h).2 hslash
  have hd'' : gives (type (flat s ++ t)) = some (d', extend t r) := hd'
  rw [afterType, hd'']
  exact congrArg some (trimStart_extend_nil hr)

theorem gives_type_nil : gives (type []) = none :=
  (gives_type []).trans gives_typeFrom_nil

/-- No type begins with a character that begins no word and opens nothing. -/
theorem gives_type_stray {c : Char} (hblank : isBlank c = false) (hword : startsWord c = false)
    (hbracket : c ≠ '[') (htyped : c ≠ '<') (u : Text) : gives (type (c :: u)) = none := by
  have hvalue : (word (c :: u)).value = wordOf (Text.trimStart (c :: u)) := rfl
  have hrest : (word (c :: u)).rest = afterWord (Text.trimStart (c :: u)) := rfl
  have hstart : (c :: u).head?.any startsWord = false := hword
  have hpeek : peek (c :: u) = some c := by
    rw [peek, Text.trimStart_cons hblank]
    rfl
  rw [gives_type, hvalue, hrest, Text.trimStart_cons hblank, wordOf, afterWord, hstart,
    if_neg (by simp), if_neg (by simp), gives_typeFrom_unnamed]
  exact gives_unnamedType_none (by simp [hpeek, hbracket]) (by simp [hpeek, htyped])

theorem unquoted?_eq_some {q : Char} {s u : Text} (h : Stripping.unquoted? q s = some u) :
    ∃ inner, s = q :: (inner ++ [q]) ∧ u = Text.trim inner := by
  unfold Stripping.unquoted? at h
  split at h
  next c d rest =>
      split at h
      next hquotes =>
          cases h
          obtain ⟨inner, hinner⟩ := List.getLast?_eq_some_iff.1 hquotes.2
          refine ⟨inner, ?_, ?_⟩
          · rw [hquotes.1, hinner]
          · rw [hinner, List.dropLast_concat]
      next => cases h
  next => cases h

/-- How the quotes are taken off a text. -/
theorem quotes_cases (t : Text) :
    (∃ q ∈ ['\'', '"'], ∃ inner, Text.trim t = q :: (inner ++ [q]) ∧
      Stripping.quotes t = Text.trim inner) ∨ Stripping.quotes t = Text.trim t := by
  unfold Stripping.quotes
  dsimp only
  cases hsingle : Stripping.unquoted? '\'' (Text.trim t) with
  | some u =>
      obtain ⟨inner, hinner, rfl⟩ := unquoted?_eq_some hsingle
      exact .inl ⟨'\'', by simp, inner, hinner, rfl⟩
  | none =>
      cases hdouble : Stripping.unquoted? '"' (Text.trim t) with
      | some u =>
          obtain ⟨inner, hinner, rfl⟩ := unquoted?_eq_some hdouble
          exact .inl ⟨'"', by simp, inner, hinner, rfl⟩
      | none => exact .inr rfl

theorem ends_of_quote {q : Char} (h : q ∈ ['\'', '"']) : Ends q := by
  simp only [List.mem_cons, List.not_mem_nil, or_false] at h
  rcases h with rfl | rfl
  · decide
  · decide

/-- A type is read off a text that has blanks around it, up to what comes after the blanks. -/
theorem afterType_trim {s r : Text} {d : Descriptor}
    (h : gives (type (Text.trim s)) = some (d, r)) (hr : Text.trimStart r = []) {c : Char}
    (hc : Ends c) (t : Text) :
    afterType (Text.trimStart (flat s ++ c :: t)) = some (c :: t) ∧
      ∃ b u, Text.trimStart (flat s ++ c :: t) = b :: u ∧ ∃ v, Text.trim s = b :: v := by
  obtain ⟨before, after, hbefore, hafter, hsplit, hhead⟩ := Text.trim_split s
  cases htrim : Text.trim s with
  | nil =>
      rw [htrim, gives_type_nil] at h
      cases h
  | cons b v =>
      have hb : isBlank b = false := hhead b v htrim
      have hslash : b ≠ '/' := by
        rintro rfl
        rw [htrim, gives_type_stray (by decide) (by decide) (by decide) (by decide)] at h
        cases h
      have hflat : flat s ++ c :: t = flat before ++ (flat (b :: v) ++ (flat after ++ c :: t)) := by
        conv => lhs; rw [hsplit, htrim]
        rw [flat_append, flat_append, List.append_assoc, List.append_assoc]
      have hstart : Text.trimStart (flat s ++ c :: t) = flat (b :: v) ++ (flat after ++ c :: t) := by
        rw [hflat, Text.trimStart_append_of_blank (blank_of_mem_flat hbefore)]
        exact Text.trimStart_cons (by rw [isBlank_flatChar, hb]) _
      rw [hstart]
      refine ⟨?_, b, flat v ++ (flat after ++ c :: t), ?_, v, rfl⟩
      · rw [afterType_extend (htrim ▸ h) hr (halts_of_ends hc (blank_of_mem_flat hafter) t),
          Text.trimStart_append_of_blank (blank_of_mem_flat hafter),
          Text.trimStart_cons hc.blank]
      · show flatChar b :: _ = _
        rw [flatChar_of_ne hslash]
        rfl

/-- A part in quotes, where the type stands in the blanks between them. -/
theorem afterPart_of_quoted {part inner r : Text} {q : Char} (hq : q ∈ ['\'', '"'])
    (htrim : Text.trim part = q :: (inner ++ [q])) {d : Descriptor}
    (hd : gives (type (Text.trim inner)) = some (d, r)) (hr : Text.trimStart r = []) {c : Char}
    (hc : Ends c) (t : Text) : afterPart (flat part ++ c :: t) = some (c :: t) := by
  obtain ⟨before, after, hbefore, hafter, hsplit, -⟩ := Text.trim_split part
  have hends := ends_of_quote hq
  have hqflat : flatChar q = q := by
    simp only [List.mem_cons, List.not_mem_nil, or_false] at hq
    rcases hq with rfl | rfl
    · rfl
    · rfl
  have hflat : Text.trimStart (flat part ++ c :: t) =
      q :: (flat inner ++ q :: (flat after ++ c :: t)) := by
    conv => lhs; rw [hsplit, htrim]
    rw [flat_append, List.append_assoc,
      Text.trimStart_append_of_blank (blank_of_mem_flat hbefore)]
    have hquoted : flat (q :: (inner ++ [q]) ++ after) ++ c :: t =
        q :: (flat inner ++ q :: (flat after ++ c :: t)) := by
      simp [flat, hqflat]
    rw [hquoted]
    exact Text.trimStart_cons hends.blank _
  have hafterQuoted : afterQuoted q (flat inner ++ q :: (flat after ++ c :: t)) =
      some (c :: t) := by
    rw [afterQuoted, (afterType_trim hd hr hends _).1, Option.bind_some]
    have hexpect : leaves (expect q (q :: (flat after ++ c :: t))) =
        some (flat after ++ c :: t) := by
      rw [leaves_expect, Text.trimStart_cons hends.blank]
      simp
    rw [hexpect, Option.map_some, Text.trimStart_append_of_blank (blank_of_mem_flat hafter),
      Text.trimStart_cons hc.blank]
  unfold afterPart
  rw [hflat]
  simp only [List.mem_cons, List.not_mem_nil, or_false] at hq
  rcases hq with rfl | rfl
  · exact hafterQuoted
  · exact hafterQuoted

theorem afterPart_of_bare {part r : Text} {d : Descriptor}
    (hd : gives (type (Text.trim part)) = some (d, r)) (hr : Text.trimStart r = []) {c : Char}
    (hc : Ends c) (t : Text) : afterPart (flat part ++ c :: t) = some (c :: t) := by
  obtain ⟨hafter, b, u, hstart, v, htrim⟩ := afterType_trim hd hr hc t
  have hsingle : b ≠ '\'' := by
    rintro rfl
    rw [htrim, gives_type_stray (by decide) (by decide) (by decide) (by decide)] at hd
    cases hd
  have hdouble : b ≠ '"' := by
    rintro rfl
    rw [htrim, gives_type_stray (by decide) (by decide) (by decide) (by decide)] at hd
    cases hd
  rw [hstart] at hafter
  unfold afterPart
  rw [hstart]
  split
  next heq => exact absurd (List.cons.inj heq).1 hsingle
  next heq => exact absurd (List.cons.inj heq).1 hdouble
  next => exact hafter

/-- A part that can be read is read up to the character that ends it. -/
theorem afterPart_append {part : Text} {d : Descriptor} (h : Descriptor.ofType part = .ok d)
    {c : Char} (hc : Ends c) (t : Text) : afterPart (flat part ++ c :: t) = some (c :: t) := by
  rw [Descriptor.ofType, reported_eq_ok_iff] at h
  obtain ⟨r, hd, hr⟩ := finish_eq_ok_iff.1 h
  rcases quotes_cases part with ⟨q, hq, inner, htrim, hquotes⟩ | hquotes
  · exact afterPart_of_quoted hq htrim (hquotes ▸ hd) hr hc t
  · exact afterPart_of_bare (hquotes ▸ hd) hr hc t

/-! ## Texts of signatures -/

/-- Every part of the signature can be read. -/
def Readable (s : Signature) : Prop := ∀ part ∈ s, ∃ d, Descriptor.ofType part = .ok d

theorem afterPart_close (t : Text) : afterPart (')' :: t) = none := by
  have hstart : Text.trimStart (')' :: t) = ')' :: t :=
    Text.trimStart_cons (by decide) t
  have hplain : afterPart (')' :: t) = afterType (')' :: t) := by
    unfold afterPart
    rw [hstart]
    rfl
  rw [hplain, afterType, gives_type_stray (by decide) (by decide) (by decide) (by decide)]
  rfl

/-- The text of the parts up to the closing parenthesis, and more text. -/
def listed (parts : Signature) (t : Text) : Text :=
  flat (Text.joinWith ", ".toList parts) ++ ')' :: t

/-- What follows the first part. -/
theorem listed_cons (part : Text) (parts : Signature) (t : Text) :
    ∃ c u, listed (part :: parts) t = flat part ++ c :: u ∧ Ends c ∧
      ((parts = [] ∧ c = ')' ∧ u = t) ∨ (parts ≠ [] ∧ c = ',' ∧ u = ' ' :: listed parts t)) := by
  cases parts with
  | nil => exact ⟨')', t, rfl, by decide, .inl ⟨rfl, rfl, rfl⟩⟩
  | cons next parts =>
      refine ⟨',', ' ' :: listed (next :: parts) t, ?_, by decide, .inr ⟨by simp, rfl, rfl⟩⟩
      rw [listed, listed, Text.joinWith, flat_append, flat_append]
      simp only [List.append_assoc]
      rfl

/-- The parts that can be read are read one by one, so they are the same and end at one place. -/
theorem listed_unique {s s' : Signature} (hs : Readable s) (hs' : Readable s') {t t' : Text}
    (h : listed s t = listed s' t') : s.map flat = s'.map flat ∧ t = t' := by
  induction s generalizing s' with
  | nil =>
      cases s' with
      | nil => exact ⟨rfl, (List.cons.inj h).2⟩
      | cons part' parts' =>
          obtain ⟨d', hd'⟩ := hs' part' (by simp)
          obtain ⟨c', u', hlisted', hc', -⟩ := listed_cons part' parts' t'
          -- A list that closes has no part to read, and the other has.
          have hread := afterPart_append hd' hc' u'
          rw [← hlisted', ← h] at hread
          have hnone : afterPart (listed [] t) = none := afterPart_close t
          rw [hnone] at hread
          cases hread
  | cons part parts ih =>
      obtain ⟨d, hd⟩ := hs part (by simp)
      obtain ⟨c, u, hlisted, hc, hcases⟩ := listed_cons part parts t
      have hread := afterPart_append hd hc u
      cases s' with
      | nil =>
          rw [← hlisted, h] at hread
          have hnone : afterPart (listed [] t') = none := afterPart_close t'
          rw [hnone] at hread
          cases hread
      | cons part' parts' =>
          obtain ⟨d', hd'⟩ := hs' part' (by simp)
          obtain ⟨c', u', hlisted', hc', hcases'⟩ := listed_cons part' parts' t'
          have hread' := afterPart_append hd' hc' u'
          rw [← hlisted, h, hlisted', hread'] at hread
          injection hread with hafter
          -- What follows the first parts is the same, and so are these.
          have hpart : flat part = flat part' := by
            rw [hlisted, hlisted', hafter] at h
            exact List.append_cancel_right h
          injection hafter with hchar hrest
          rcases hcases with ⟨rfl, rfl, rfl⟩ | ⟨-, rfl, rfl⟩
          · rcases hcases' with ⟨rfl, rfl, rfl⟩ | ⟨-, rfl, rfl⟩
            · exact ⟨by rw [List.map_cons, List.map_cons, hpart], hrest.symm⟩
            · cases hchar
          · rcases hcases' with ⟨-, rfl, rfl⟩ | ⟨-, rfl, rfl⟩
            · cases hchar
            · injection hrest with _ hrest
              obtain ⟨hparts, hend⟩ := ih (fun p hp => hs p (by simp [hp]))
                (fun p hp => hs' p (by simp [hp])) hrest.symm
              exact ⟨by rw [List.map_cons, List.map_cons, hpart, hparts], hend⟩

theorem flat_text_append (s : Signature) (t : Text) : flat s.text ++ t = '(' :: listed s t := by
  rw [text, listed]
  simp [flat, flatChar]

/-- The text of a signature is not the beginning of another's. -/
theorem text_prefix_free {s s' : Signature} (hs : Readable s) (hs' : Readable s') {t t' : Text}
    (h : flat s.text ++ t = flat s'.text ++ t') : t = t' := by
  rw [flat_text_append, flat_text_append] at h
  exact (listed_unique hs hs' (List.cons.inj h).2).2

/-- The text of a signature tells its parts, but for slashes that have become underscores. -/
theorem map_flat_of_flat_text {s s' : Signature} (hs : Readable s) (hs' : Readable s')
    (h : flat s.text = flat s'.text) : s.map flat = s'.map flat := by
  have htext := congrArg (· ++ []) h
  rw [flat_text_append, flat_text_append] at htext
  exact (listed_unique hs hs' (List.cons.inj htext).2).1

end Signature

namespace GeneratedModule

/-- The descriptors of a signature are read part by part, and each has a type. -/
theorem forall₂_of_descriptors {s : Signature} {ds : List Descriptor}
    (h : descriptors s = .ok ds) :
    List.Forall₂ (fun part d => Descriptor.ofType part = .ok d ∧ firstRefusal? d.marks = none)
      s ds := by
  induction s generalizing ds with
  | nil =>
      cases h
      exact .nil
  | cons part parts ih =>
      rw [descriptors] at h
      cases hd : Descriptor.ofType part with
      | error e =>
          rw [hd] at h
          cases h
      | ok d =>
          rw [hd] at h
          dsimp only at h
          split at h
          next => cases h
          next hnone =>
              cases hds : descriptors parts with
              | error e =>
                  rw [hds] at h
                  cases h
              | ok ds' =>
                  rw [hds] at h
                  cases h
                  exact .cons ⟨hd, hnone⟩ (ih hds)

/-- A signature for which there are descriptors can be read. -/
theorem readable_of_descriptors {s : Signature} {ds : List Descriptor}
    (h : descriptors s = .ok ds) : s.Readable := by
  have hforall := (forall₂_of_descriptors h).imp fun part d hd =>
    (⟨⟨d, hd.1⟩, hd.1⟩ : (∃ d, Descriptor.ofType part = .ok d) ∧ Descriptor.ofType part = .ok d)
  exact ((List.forall₂_and_left s ds).1 hforall).1

/-- The name of a context does not go on behind another with a character that ends it. -/
theorem shortName_prefix_free {d d' : Descriptor} (hd : IsContext d) (hd' : IsContext d') {c : Char}
    (hc : Signature.Ends c) (t : Text) :
    flat d'.shortName ≠ flat d.shortName ++ c :: t := by
  intro h
  have hread : ∀ {d : Descriptor}, IsContext d → Descriptor.ofType d.shortName = .ok d.erase := by
    intro d hd
    rw [← Descriptor.fullName_erase]
    exact hd.erase.ofType_fullName
  have hclose : Signature.Ends ')' := by decide
  have hnow := Signature.afterPart_append (hread hd) hc (t ++ [')'])
  have hthen := Signature.afterPart_append (hread hd') hclose []
  rw [h] at hthen
  have heq : flat d.shortName ++ c :: t ++ [')'] = flat d.shortName ++ c :: (t ++ [')']) := by simp
  rw [heq, hnow] at hthen
  simp at hthen

end GeneratedModule
end OnDemand
