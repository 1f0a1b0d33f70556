import OnDemand.Proofs.Plugin.Segments
import OnDemand.Proofs.Plugin.SourceLines

/-!
# Modules at one place

The place of a module is made of an operation, which stands for its companions, and of the text of a
signature.  The parts of the signature are found again in its text, so two modules have one place
just when they are for the same companions and for the same parts, slashes and underscores aside
(`base_eq_iff`).  Only opaque names can have slashes.
-/

namespace OnDemand

open Reader Plugin

namespace Signature

theorem flat_joinWith {sep : Text} (h : '/' ∉ sep) (pieces : List Text) :
    flat (Text.joinWith sep pieces) = Text.joinWith sep (pieces.map flat) := by
  induction pieces with
  | nil => rfl
  | cons piece pieces ih =>
      cases pieces with
      | nil => rfl
      | cons next pieces =>
          rw [Text.joinWith, flat_append, flat_append, ih, flat_eq_self h]
          rfl

/-- Slashes of the text are slashes of the parts. -/
theorem flat_text (s : Signature) : flat s.text = text (s.map flat) := by
  have hcomma : '/' ∉ ", ".toList := by decide
  rw [text, text, ← flat_joinWith hcomma s]
  simp [flat, flatChar]

/-- Signatures that can be read have one text just when they have the same parts. -/
theorem flat_text_eq_iff {s s' : Signature} (hs : Readable s) (hs' : Readable s') :
    flat s.text = flat s'.text ↔ s.map flat = s'.map flat := by
  constructor
  · exact map_flat_of_flat_text hs hs'
  · intro h
    rw [flat_text, flat_text, h]

theorem map_flat_eq_self {s : Signature} (h : ∀ part ∈ s, '/' ∉ part) : s.map flat = s := by
  rw [List.map_congr_left fun part hpart => flat_eq_self (h part hpart), List.map_id']

end Signature

namespace Plugin

theorem splitLong_eq_iff {name name' : Text} (hname : name ≠ []) (hname' : name' ≠ []) :
    splitLong name = splitLong name' ↔ flat name = flat name' := by
  constructor
  · intro h
    rw [← flatten_segments hname, ← flatten_segments hname', segments, segments, h]
  · intro h
    rw [splitLong_eq, splitLong_eq, h]

theorem algorithmBase_eq_iff {operation operation' name name' : Text}
    (hoperation : IsOrdinary operation) (hoperation' : IsOrdinary operation') (hname : name ≠ [])
    (hname' : name' ≠ []) :
    algorithmBase operation name = algorithmBase operation' name' ↔
      operation = operation' ∧ flat name = flat name' := by
  constructor
  · intro h
    have hsplit := congrArg (Text.splitAt '/') h
    rw [splitAt_algorithmBase hoperation, splitAt_algorithmBase hoperation'] at hsplit
    injection hsplit with _ hsplit
    injection hsplit with hhead hsegments
    refine ⟨hhead, ?_⟩
    rw [← flatten_segments hname, ← flatten_segments hname', hsegments]
  · rintro ⟨rfl, h⟩
    rw [algorithmBase, algorithmBase, (splitLong_eq_iff hname hname').2 h]

end Plugin

namespace GeneratedModule

open Descriptor

theorem headD_mem_companions (operation : Text) :
    (companions operation).headD operation ∈ companions operation := by
  have hmem := mem_companions_self operation
  cases hcompanions : companions operation with
  | nil =>
      rw [hcompanions] at hmem
      cases hmem
  | cons first rest => exact List.mem_cons_self

/-- The first of the companions tells which they are. -/
theorem companions_eq_iff {p q : Text} :
    (companions p).headD p = (companions q).headD q ↔ companions p = companions q := by
  constructor
  · intro h
    calc
      companions p = companions ((companions p).headD p) :=
        (companions_eq_of_mem (headD_mem_companions p)).symm
      _ = companions ((companions q).headD q) := by rw [h]
      _ = companions q := companions_eq_of_mem (headD_mem_companions q)
  · intro h
    have hmem := mem_companions_self q
    rw [h]
    cases hcompanions : companions q with
    | nil =>
        rw [hcompanions] at hmem
        cases hmem
    | cons first rest => rfl

/-- Where the modules of operations lie at one place. -/
theorem base_eq_iff {p q : Text} (hp : IsOrdinary p) (hq : IsOrdinary q) {s t : Signature}
    {m m' : GeneratedModule} (hm : ofAlgorithm p s = .ok m) (hm' : ofAlgorithm q t = .ok m') :
    m.base = m'.base ↔ companions p = companions q ∧ s.map flat = t.map flat := by
  obtain ⟨ds, hds, hbase⟩ := base_of_ofAlgorithm hm
  obtain ⟨ds', hds', hbase'⟩ := base_of_ofAlgorithm hm'
  rw [hbase, hbase', algorithmBase_eq_iff (isOrdinary_companion hp) (isOrdinary_companion hq)
    (text_ne_nil s) (text_ne_nil t), companions_eq_iff,
    Signature.flat_text_eq_iff (readable_of_descriptors hds) (readable_of_descriptors hds')]

/--
Modules of declared operations lie at one place just when they are for the same companions and for
signatures that differ in slashes and underscores at most: for the same signature, if no part has a
slash.
-/
theorem places_meet_iff {p q : Operation} (hp : p ∈ Operation.declared)
    (hq : q ∈ Operation.declared) {s t : Signature} {m m' : GeneratedModule}
    (hm : ofAlgorithm p.name s = .ok m) (hm' : ofAlgorithm q.name t = .ok m') :
    (m.base = m'.base ↔
      companions p.name = companions q.name ∧ s.map flat = t.map flat) ∧
    ((∀ part ∈ s ++ t, '/' ∉ part) →
      (m.base = m'.base ↔ companions p.name = companions q.name ∧ s = t)) := by
  have hiff := base_eq_iff (isOrdinary_declared p hp) (isOrdinary_declared q hq) hm hm'
  refine ⟨hiff, ?_⟩
  intro hslash
  rw [List.forall_mem_append] at hslash
  rw [hiff, Signature.map_flat_eq_self hslash.1, Signature.map_flat_eq_self hslash.2]

/-- An opaque name, which has parameters of its own. -/
def sampled (raw : String) : Text := "x".toList ++ ('<' :: raw.toList ++ ['>'])

theorem isOpaque_sampled {raw : String} (h : raw.toList.all isSteady = true) :
    IsOpaque (sampled raw) :=
  .applied ⟨by decide, by decide, by decide⟩ (isParameters_of_all h)

/-- Two signatures with different places, and one with the place of another. -/
theorem sampled_places :
    (⟨"trim".toList, .unary⟩ : Operation) ∈ Operation.declared ∧
      (∃ m m', ofAlgorithm "trim".toList [sampled "a.b"] = .ok m ∧
        ofAlgorithm "trim".toList [sampled "a_b"] = .ok m' ∧ m.base ≠ m'.base) ∧
      ∃ m m', ofAlgorithm "trim".toList [sampled "a/b"] = .ok m ∧
        ofAlgorithm "trim".toList [sampled "a_b"] = .ok m' ∧ m.base = m'.base := by
  have hdot : IsOpaque (sampled "a.b") := isOpaque_sampled (by decide)
  have hslash : IsOpaque (sampled "a/b") := isOpaque_sampled (by decide)
  have hunderscore : IsOpaque (sampled "a_b") := isOpaque_sampled (by decide)
  obtain ⟨m, hm⟩ := exists_ofAlgorithm_of_isOpaque hdot "trim".toList
  obtain ⟨m', hm'⟩ := exists_ofAlgorithm_of_isOpaque hunderscore "trim".toList
  obtain ⟨m'', hm''⟩ := exists_ofAlgorithm_of_isOpaque hslash "trim".toList
  refine ⟨trim_mem_declared, ⟨m, m', hm, hm', ?_⟩, m'', m', hm'', hm', ?_⟩
  · intro heq
    have hmeet := places_meet_iff trim_mem_declared trim_mem_declared hm hm'
    have hsame := (hmeet.2 (by decide)).1 heq
    exact absurd hsame.2 (by decide)
  · exact (places_meet_iff trim_mem_declared trim_mem_declared hm'' hm').1.2 ⟨rfl, by decide⟩

theorem normalized_of_isOpaque {name : Text} (h : IsOpaque name) :
    Signature.normalized [name] = .ok [name] := by
  have hread : Descriptor.ofType name = .ok (.other name) :=
    (IsType.other h).ofType_fullName_iff.2 rfl
  have hn : normalizeType name = .ok (.of (.other name)) :=
    normalizeType_eq_ok_iff.2 ⟨hread, rfl⟩
  rw [Signature.normalized, List.mapM_cons, hn]
  rfl

/-- A slash in one signature, and an underscore in the other, do not keep their modules apart. -/
theorem slash_meets_underscore :
    ¬∀ p ∈ Operation.declared, ∀ q ∈ Operation.declared,
      ∀ (descriptions descriptions' : List Text) (s t : Signature) (m m' : GeneratedModule),
        Signature.normalized descriptions = .ok s → Signature.normalized descriptions' = .ok t →
        ofAlgorithm p.name s = .ok m → ofAlgorithm q.name t = .ok m' → m.base = m'.base →
        s = t ∧ companions p.name = companions q.name := by
  intro h
  have hslash : IsOpaque (sampled "a/b") := isOpaque_sampled (by decide)
  have hunderscore : IsOpaque (sampled "a_b") := isOpaque_sampled (by decide)
  obtain ⟨m, hm⟩ := exists_ofAlgorithm_of_isOpaque hslash "trim".toList
  obtain ⟨m', hm'⟩ := exists_ofAlgorithm_of_isOpaque hunderscore "trim".toList
  have hordinary := isOrdinary_declared _ trim_mem_declared
  have hbase : m.base = m'.base :=
    (base_eq_iff hordinary hordinary hm hm').2 ⟨rfl, by decide⟩
  have hsame := (h _ trim_mem_declared _ trim_mem_declared _ _ _ _ m m'
    (normalized_of_isOpaque hslash) (normalized_of_isOpaque hunderscore) hm hm' hbase).1
  exact absurd hsame (by decide)

end GeneratedModule
end OnDemand
