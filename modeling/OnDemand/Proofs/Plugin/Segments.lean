import OnDemand.Disk.Basic
import OnDemand.Operations
import OnDemand.Proofs.Descriptor.Idempotence
import OnDemand.Proofs.Descriptor.PlainNames
import OnDemand.Proofs.Plugin.Seats
import OnDemand.Proofs.Source.Refusals
import OnDemand.Proofs.Source.TypeTexts

/-!
# How long the components of a place are

The components that a name is cut into are the stretches of its text, of a fixed number of
characters each.  A disk counts bytes, so the components of a module are short enough for one just
when no stretch of the text of its signature has too many (`components_fit_iff`).  Names of contexts
are made of plain characters, which take a byte each, and so their components always fit.
-/

namespace OnDemand

open Reader

/-! ## Stretches of text -/

namespace Text

/-- An underscore is as long as the slash whose place it takes. -/
theorem byteSize_flat (t : Text) : byteSize (flat t) = byteSize t := by
  induction t with
  | nil => rfl
  | cons c t ih =>
      have hc : (flatChar c).utf8Size = c.utf8Size := by
        unfold flatChar
        split
        next hslash => rw [hslash]; rfl
        next => rfl
      have hcons : flat (c :: t) = flatChar c :: flat t := rfl
      rw [hcons, byteSize, byteSize, hc, ih]

end Text

namespace Plugin

open Text (stretch)

theorem flat_eq_self {t : Text} (h : '/' ∉ t) : flat t = t := by
  have hself : ∀ c ∈ t, flatChar c = id c := fun c hc => flatChar_of_ne fun heq => h (heq ▸ hc)
  rw [flat, List.map_congr_left hself, List.map_id]

/-! ## Cutting into stretches -/

theorem cut_of_length_le {room : Nat} {t : Text} (h : t.length ≤ room) : cut room t = t := by
  induction t generalizing room with
  | nil => rw [cut]
  | cons c t ih =>
      cases room with
      | zero => cases h
      | succ room => rw [cut, ih (Nat.le_of_succ_le_succ h)]

/-- Where the room ends, a new component begins if there is more text. -/
theorem cut_append (front : Text) {rest : Text} (h : rest ≠ []) :
    cut front.length (front ++ rest) = front ++ '/' :: cut segmentLength rest := by
  induction front with
  | nil =>
      cases rest with
      | nil => exact absurd rfl h
      | cons c rest => rfl
  | cons c front ih => rw [List.cons_append, List.length_cons, cut, ih, List.cons_append]

/-- A text that is too long for one component has its first stretch cut off. -/
theorem splitAt_cut_of_lt {t : Text} (hslash : '/' ∉ t) (h : segmentLength < t.length) :
    Text.splitAt '/' (cut segmentLength t) =
      t.take segmentLength :: Text.splitAt '/' (cut segmentLength (t.drop segmentLength)) := by
  have hroom : (t.take segmentLength).length = segmentLength := by
    rw [List.length_take, Nat.min_eq_left h.le]
  have hrest : t.drop segmentLength ≠ [] := by
    rw [ne_eq, List.drop_eq_nil_iff]
    exact Nat.not_le_of_lt h
  have hcut : cut segmentLength t =
      t.take segmentLength ++ '/' :: cut segmentLength (t.drop segmentLength) := by
    have happend := cut_append (t.take segmentLength) hrest
    rwa [List.take_append_drop, hroom] at happend
  have hfirst : '/' ∉ t.take segmentLength := fun hmem => hslash (List.mem_of_mem_take hmem)
  rw [hcut, Text.splitAt_append_self, Text.splitAt_of_not_mem hfirst, List.singleton_append]

/-- The components of a cut text are its stretches, as far as there is text. -/
theorem mem_splitAt_cut {t : Text} (hslash : '/' ∉ t) (hne : t ≠ []) {piece : Text} :
    piece ∈ Text.splitAt '/' (cut segmentLength t) ↔
      piece ≠ [] ∧ ∃ i, stretch segmentLength i t = piece := by
  -- The induction takes the first stretch off the text.
  induction hlength : t.length using Nat.strongRecOn generalizing t with
  | ind length ih =>
      subst hlength
      by_cases hfits : t.length ≤ segmentLength
      · rw [cut_of_length_le hfits, Text.splitAt_of_not_mem hslash, List.mem_singleton]
        have hfirst : stretch segmentLength 0 t = t :=
          (Text.stretch_zero _ _).trans (List.take_of_length_le hfits)
        constructor
        · rintro rfl
          exact ⟨hne, 0, hfirst⟩
        · rintro ⟨hpiece, i, rfl⟩
          cases i with
          | zero => exact hfirst
          | succ i =>
              rw [Text.stretch_succ, List.drop_of_length_le hfits, stretch, List.drop_nil] at hpiece
              exact absurd rfl hpiece
      · have hlong : segmentLength < t.length := Nat.lt_of_not_le hfits
        have hrest : t.drop segmentLength ≠ [] := by
          rwa [ne_eq, List.drop_eq_nil_iff]
        have hfirst : t.take segmentLength ≠ [] := by
          cases t with
          | nil => exact absurd rfl hne
          | cons c t => exact List.cons_ne_nil _ _
        have hshorter : (t.drop segmentLength).length < t.length := by
          rw [List.length_drop]
          exact Nat.sub_lt (Nat.zero_lt_of_lt hlong) (by decide)
        have hpieces := ih _ hshorter (fun hmem => hslash (List.mem_of_mem_drop hmem)) hrest rfl
        rw [splitAt_cut_of_lt hslash hlong, List.mem_cons, hpieces]
        constructor
        · rintro (rfl | ⟨hpiece, i, rfl⟩)
          · exact ⟨hfirst, 0, Text.stretch_zero _ _⟩
          · exact ⟨hpiece, i + 1, Text.stretch_succ _ _ _⟩
        · rintro ⟨hpiece, i, rfl⟩
          cases i with
          | zero => exact .inl (Text.stretch_zero _ _)
          | succ i => exact .inr ⟨hpiece, i, (Text.stretch_succ _ _ _).symm⟩

theorem stretch_flat (n i : Nat) (t : Text) : stretch n i (flat t) = flat (stretch n i t) := by
  rw [stretch, stretch, flat, flat, ← List.map_drop, ← List.map_take]

/-- The components that the place of a name is made of. -/
def segments (name : Text) : List Text := Text.splitAt '/' (splitLong name)

theorem mem_segments {name : Text} (hne : name ≠ []) {piece : Text} :
    piece ∈ segments name ↔ piece ≠ [] ∧ ∃ i, flat (stretch segmentLength i name) = piece := by
  have hflat : flat name ≠ [] := fun hnil => hne (List.map_eq_nil_iff.1 hnil)
  rw [segments, splitLong_eq, mem_splitAt_cut (slash_not_mem_flat name) hflat]
  simp only [stretch_flat]

/-- A component has some characters, and not too many. -/
theorem length_segment {name piece : Text} (hne : name ≠ []) (h : piece ∈ segments name) :
    piece ≠ [] ∧ piece.length ≤ segmentLength := by
  obtain ⟨hpiece, i, rfl⟩ := (mem_segments hne).1 h
  refine ⟨hpiece, ?_⟩
  rw [flat, List.length_map]
  exact Text.length_stretch_le _ _ _

theorem flatten_segments {name : Text} (hne : name ≠ []) : (segments name).flatten = flat name := by
  obtain ⟨front, last, hsplit, hflatten, -⟩ := splitLong_pieces hne
  rw [segments, hsplit, hflatten]

/-- The components fit where no stretch of the name has too many bytes. -/
theorem segments_fit_iff {name : Text} (hne : name ≠ []) (bytes : Nat) :
    (∀ piece ∈ segments name, Text.byteSize piece ≤ bytes) ↔
      ∀ i, Text.byteSize (stretch segmentLength i name) ≤ bytes := by
  constructor
  · intro h i
    by_cases hnil : stretch segmentLength i name = []
    · rw [hnil]
      exact Nat.zero_le bytes
    · have hpiece : flat (stretch segmentLength i name) ∈ segments name :=
        (mem_segments hne).2 ⟨fun h => hnil (List.map_eq_nil_iff.1 h), i, rfl⟩
      rw [← Text.byteSize_flat]
      exact h _ hpiece
  · intro h piece hpiece
    obtain ⟨-, i, rfl⟩ := (mem_segments hne).1 hpiece
    rw [Text.byteSize_flat]
    exact h i

theorem splitAt_algorithmBase {operation : Text} (h : IsOrdinary operation) (name : Text) :
    Text.splitAt '/' (algorithmBase operation name) =
      Kind.algorithm.directory :: operation :: segments name := by
  rw [algorithmBase, join_operation h,
    join_splitLong (beginsNamed_directory _) (isOrdinary_way h), Text.splitAt_append_self]
  exact congrArg (· ++ segments name) (Text.splitAt_joinWith (List.cons_ne_nil _ _)
    fun piece hpiece => (isOrdinary_way h piece hpiece).1)

theorem splitAt_contextBase (name : Text) :
    Text.splitAt '/' (contextBase name) = Kind.context.directory :: segments name := by
  have hway : ∀ piece ∈ [Kind.context.directory], IsOrdinary piece :=
    List.forall_mem_singleton.2 (isOrdinary_directory _)
  have hjoin := join_splitLong (beginsNamed_directory .context) hway name
  rw [contextBase]
  exact (congrArg (Text.splitAt '/') hjoin).trans (Text.splitAt_append_self _ _ _)

end Plugin

namespace GeneratedModule

open Descriptor Plugin

/-! ## Modules that are generated -/

theorem firstRefusal?_of_unrefused {ms : List Mark} (h : Unrefused ms) : firstRefusal? ms = none := by
  refine List.findSome?_eq_none_iff.2 fun m hm => ?_
  cases m with
  | refuse what => exact absurd hm (h what)
  | _ => rfl

theorem unrefused_typeAlias {d : Descriptor} (h : firstRefusal? d.marks = none) (name : Text) :
    Unrefused (typeAlias name d) := by
  intro what hmem
  simp only [typeAlias, line, List.mem_append, List.mem_cons, List.not_mem_nil, or_false,
    reduceCtorEq, false_or] at hmem
  exact unrefused_of_firstRefusal? h what hmem

theorem exists_ofMarks {marks : List Mark} (h : Unrefused marks) (base : Path) :
    ∃ m, ofMarks base marks = .ok m := by
  have hsnd := (Sheet.write_snd {} marks).trans (firstRefusal?_of_unrefused h)
  unfold ofMarks
  split
  next => exact ⟨_, rfl⟩
  next hwrite =>
      rw [hwrite] at hsnd
      cases hsnd

theorem unrefused_declarations {ds : List Descriptor}
    (h : ∀ d ∈ ds, firstRefusal? d.marks = none) (operation : Text) (k : Nat) :
    Unrefused (declarations ds operation k) := by
  intro what hmem
  simp only [declarations, line, List.mem_append, List.mem_cons, List.not_mem_nil, or_false,
    reduceCtorEq, false_or, List.mem_flatMap] at hmem
  obtain ⟨⟨name, d⟩, hpair, hrefuse⟩ := hmem
  exact unrefused_typeAlias (h d (List.of_mem_zip hpair).2) name what hrefuse

theorem unrefused_register (operation : Text) (s : Signature) (aliases : List Text) :
    Unrefused (register operation s aliases) := by
  intro what hmem
  simp [register, line] at hmem

/-- Where there are descriptors, there is a module for every operation. -/
theorem exists_ofAlgorithm {s : Signature} {ds : List Descriptor} (h : descriptors s = .ok ds)
    (operation : Text) : ∃ m, ofAlgorithm operation s = .ok m := by
  have hflip : List.Forall₂ (fun d part =>
      firstRefusal? d.marks = none ∧ Descriptor.ofType part = .ok d) ds s :=
    .flip ((forall₂_of_descriptors h).imp fun _ _ hd => hd.symm)
  have hnone := ((List.forall₂_and_left ds s).1 hflip).1
  unfold ofAlgorithm
  rw [h]
  refine exists_ofMarks ?_ _
  intro what hmem
  simp only [List.mem_append, List.mem_flatMap] at hmem
  rcases hmem with (((hmem | ⟨p, -, hmem⟩) | hmem) | ⟨p, -, hmem⟩) | hmem
  · simp [hostImports] at hmem
  · exact unrefused_declarations hnone _ _ what hmem
  · simp [opening, line] at hmem
  · exact unrefused_register _ _ _ what hmem
  · simp [closing, line] at hmem

/-- A context whose letter types have types has a module. -/
theorem exists_ofContext {text : Text} {n : Normalized} (h : normalizeContext text = .ok n)
    (hmarks : firstRefusal? n.descriptor.marks = none) : ∃ m, ofContext text = .ok m := by
  rw [ofContext_eq_of_normalizeContext h]
  refine exists_ofMarks ?_ _
  intro what hmem
  simp only [List.mem_append] at hmem
  rcases hmem with (((hmem | hmem) | hmem) | hmem) | hmem
  · simp [hostImports] at hmem
  · simp at hmem
  · exact unrefused_typeAlias hmarks _ what hmem
  · simp [opening, line] at hmem
  · simp [closing, line] at hmem

/-- Whether parameters keep the character as it is: it is no blank, no comma and no bracket. -/
def isSteady (c : Char) : Bool := !isBlank c && !",<>".toList.contains c

theorem ne_of_isSteady {c d : Char} (h : isSteady c = true) (hd : isSteady d = false) : c ≠ d := by
  rintro rfl
  rw [h] at hd
  cases hd

theorem isParameters_of_all {raw : Text} (h : raw.all isSteady = true) :
    IsParameters ('<' :: raw ++ ['>']) := by
  have hspaced : ∀ last, Parameters.spaced last false raw = raw := by
    induction raw with
    | nil => exact fun _ => rfl
    | cons c raw ih =>
        rw [List.all_cons, Bool.and_eq_true] at h
        have hblank : isBlank c = false := by
          have hsteady := h.1
          simp only [isSteady, Bool.and_eq_true, Bool.not_eq_true'] at hsteady
          exact hsteady.1
        intro last
        rw [Parameters.spaced_cons hblank, Parameters.spacedAfter,
          if_neg (ne_of_isSteady h.1 (by decide)), ih h.2]
        rfl
  have hbalanced : Balanced 0 raw := by
    clear hspaced
    induction raw with
    | nil => exact rfl
    | cons c raw ih =>
        rw [List.all_cons, Bool.and_eq_true] at h
        exact (balanced_plain (ne_of_isSteady h.1 (by decide))
          (ne_of_isSteady h.1 (by decide))).2 (ih h.2)
  exact ⟨raw, hbalanced, hspaced none, rfl⟩

/-- An opaque name is a part by itself, and every operation has a module for it. -/
theorem exists_ofAlgorithm_of_isOpaque {name : Text} (h : IsOpaque name) (operation : Text) :
    ∃ m, ofAlgorithm operation [name] = .ok m := by
  have hread : Descriptor.ofType name = .ok (.other name) :=
    (IsType.other h).ofType_fullName_iff.2 rfl
  have hmarks : firstRefusal? (Descriptor.other name).marks = none := by
    rw [marks]
    exact firstRefusal?_opaqueMarks name
  have hdescriptors : descriptors [name] = .ok [.other name] := by
    rw [descriptors, hread]
    simp only [hmarks]
    rfl
  exact exists_ofAlgorithm hdescriptors operation

/-! ## Components that fit -/

/-- No declared operation shares its modules with another. -/
theorem companions_declared : ∀ op ∈ Operation.declared, companions op.name = [op.name] := by
  decide

theorem isOrdinary_declared : ∀ op ∈ Operation.declared, IsOrdinary op.name := by
  decide

/-- The components of the module of a declared operation. -/
theorem splitAt_base {op : Operation} (hop : op ∈ Operation.declared) {s : Signature}
    {m : GeneratedModule} (h : ofAlgorithm op.name s = .ok m) :
    Text.splitAt '/' m.base = Kind.algorithm.directory :: op.name :: segments s.text := by
  obtain ⟨-, -, hbase⟩ := base_of_ofAlgorithm h
  rw [companions_declared op hop] at hbase
  rw [hbase]
  exact splitAt_algorithmBase (isOrdinary_declared op hop) s.text

theorem text_ne_nil (s : Signature) : s.text ≠ [] := List.cons_ne_nil _ _

theorem shortName_ne_nil {d : Descriptor} (h : IsContext d) : d.shortName ≠ [] := by
  obtain ⟨front, c, hclosed, -⟩ := closed_shortName h
  rw [hclosed]
  simp

/--
The components that the text of a signature is cut into are short enough for a disk just when no
stretch of it takes too many bytes.  Those of a context are always short enough.
-/
theorem components_fit_iff {op : Operation} (hop : op ∈ Operation.declared) (s : Signature)
    (text : Text) :
    (∀ m, ofAlgorithm op.name s = .ok m →
      ∃ pieces, Text.splitAt '/' m.base = Kind.algorithm.directory :: op.name :: pieces ∧
        pieces.flatten = flat s.text ∧
        (∀ piece ∈ pieces, piece ≠ [] ∧ piece.length ≤ segmentLength) ∧
        ((∀ piece ∈ pieces, Text.byteSize piece ≤ Disk.longestName) ↔
          ∀ i, Text.byteSize (Text.stretch segmentLength i s.text) ≤ Disk.longestName)) ∧
    (∀ m, ofContext text = .ok m →
      ∃ pieces, Text.splitAt '/' m.base = Kind.context.directory :: pieces ∧
        ∀ piece ∈ pieces, piece ≠ [] ∧ Text.byteSize piece ≤ segmentLength) := by
  refine ⟨?_, ?_⟩
  · intro m h
    have hne := text_ne_nil s
    exact ⟨segments s.text, splitAt_base hop h, flatten_segments hne,
      fun piece hpiece => length_segment hne hpiece, segments_fit_iff hne _⟩
  · intro m h
    obtain ⟨n, hn, hbase⟩ := base_of_ofContext h
    obtain ⟨hcontext, hshort⟩ := normalizeContext_eq_ok hn
    have hne : n.short ≠ [] := hshort ▸ shortName_ne_nil hcontext
    have hplain : IsPlain n.short := hshort ▸ hcontext.isPlain
    refine ⟨segments n.short, hbase ▸ splitAt_contextBase n.short, ?_⟩
    intro piece hpiece
    obtain ⟨hnonempty, hlength⟩ := length_segment hne hpiece
    -- The characters of a component are those of the name, which take one byte each.
    have hpiecePlain : IsPlain piece := by
      refine List.all_eq_true.2 fun c hc => List.all_eq_true.1 hplain c ?_
      rw [← flat_eq_self hplain.slash_not_mem, ← flatten_segments hne]
      exact List.mem_flatten.2 ⟨piece, hpiece, hc⟩
    exact ⟨hnonempty, hpiecePlain.byteSize_eq ▸ hlength⟩

theorem trim_mem_declared : (⟨"trim".toList, .unary⟩ : Operation) ∈ Operation.declared :=
  List.mem_of_getElem? (i := 16) rfl

/-- A name with as many letters of two bytes each in its parameters. -/
def accented (n : Nat) : Text := "x".toList ++ ('<' :: List.replicate n 'é' ++ ['>'])

theorem isOpaque_accented (n : Nat) : IsOpaque (accented n) := by
  refine .applied ⟨by decide, by decide, by decide⟩ (isParameters_of_all ?_)
  rw [List.all_eq_true]
  intro c hc
  rw [(List.mem_replicate.1 hc).2]
  decide

theorem text_accented (n : Nat) :
    Signature.text [accented n] = "(x<".toList ++ List.replicate n 'é' ++ ">)".toList := by
  simp [Signature.text, Text.joinWith, accented]

/-- The letters count twice, and what is around them once. -/
theorem byteSize_text_accented (n : Nat) :
    Text.byteSize (Signature.text [accented n]) = 2 * n + 5 := by
  have hletter : 'é'.utf8Size = 2 := by decide
  have hbefore : Text.byteSize "(x<".toList = 3 := by decide
  have hafter : Text.byteSize ">)".toList = 2 := by decide
  rw [text_accented, Text.byteSize_append, Text.byteSize_append, Text.byteSize_replicate, hletter,
    hbefore, hafter]
  omega

/-- A signature of a hundred such letters fits, and so does a context whose alphabet has them. -/
theorem accented_components_fit :
    (⟨"trim".toList, .unary⟩ : Operation) ∈ Operation.declared ∧
      (∃ m, ofAlgorithm "trim".toList [accented 100] = .ok m ∧
        ∀ piece ∈ (Text.splitAt '/' m.base).drop 2, Text.byteSize piece ≤ Disk.longestName) ∧
      ∃ m, ofContext (overLetters (some "é".toList)).fullName = .ok m ∧
        ∀ piece ∈ (Text.splitAt '/' m.base).drop 1, Text.byteSize piece ≤ segmentLength := by
  obtain ⟨m, hm⟩ := exists_ofAlgorithm_of_isOpaque (isOpaque_accented 100) "trim".toList
  have hcomponents := components_fit_iff trim_mem_declared [accented 100]
    (overLetters (some "é".toList)).fullName
  obtain ⟨pieces, hpieces, -, -, hfit⟩ := hcomponents.1 _ hm
  have hsize : Text.byteSize (Signature.text [accented 100]) ≤ Disk.longestName := by
    rw [byteSize_text_accented]
    decide
  have hn := normalizeContext_fullName (isContext_overLetters (some "é".toList))
  obtain ⟨m', hm'⟩ := exists_ofContext hn rfl
  obtain ⟨pieces', hpieces', hfit'⟩ := hcomponents.2 _ hm'
  refine ⟨trim_mem_declared, ⟨m, hm, ?_⟩, m', hm', ?_⟩
  · rw [hpieces]
    exact hfit.2 fun i => (Text.byteSize_stretch_le _ i _).trans hsize
  · rw [hpieces']
    exact fun piece hpiece => (hfit' piece hpiece).2

/-- With some letters more, the only component is too long for a disk. -/
theorem accented_component_too_long :
    ¬∀ op ∈ Operation.declared, ∀ (s : Signature) (m : GeneratedModule),
      ofAlgorithm op.name s = .ok m →
        ∀ piece ∈ (Text.splitAt '/' m.base).drop 2, Text.byteSize piece ≤ Disk.longestName := by
  intro h
  obtain ⟨m, hm⟩ := exists_ofAlgorithm_of_isOpaque (isOpaque_accented 126) "trim".toList
  have hlong := h _ trim_mem_declared _ m hm
  rw [splitAt_base trim_mem_declared hm, List.drop_succ_cons, List.drop_succ_cons, List.drop_zero,
    segments_fit_iff (text_ne_nil [accented 126])] at hlong
  -- The first stretch is the whole text: it is short in characters, though not in bytes.
  have hwhole : Text.stretch segmentLength 0 (Signature.text [accented 126]) =
      Signature.text [accented 126] := by
    rw [Text.stretch_zero, text_accented]
    exact List.take_of_length_le (by simp [segmentLength])
  have hbytes := hlong 0
  rw [hwhole, byteSize_text_accented] at hbytes
  revert hbytes
  decide

end GeneratedModule
end OnDemand
