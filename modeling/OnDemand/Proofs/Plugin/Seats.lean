import OnDemand.Proofs.Disk.Paths
import OnDemand.Proofs.Plugin.Alphabets
import OnDemand.Proofs.Plugin.PrefixFree

/-!
# Where modules lie

The module of a request lies at the end of a way of directories below the plugin directory, under a
name that ends with a closing bracket.  What is put after that name begins with a dot and has no
such bracket, so files of different modules have different places, and files of one module are told
apart by their endings.  Since no text of a signature goes on behind another, no built module stands
where another module needs a directory.
-/

namespace OnDemand

open Reader

/-! ## Cutting -/

namespace Plugin

theorem slash_not_mem_flat (s : Text) : '/' ∉ flat s := by
  intro h
  obtain ⟨c, -, hc⟩ := List.mem_map.1 h
  exact absurd hc (by unfold flatChar; split <;> simp_all)

theorem splitLong_eq (name : Text) : splitLong name = cut segmentLength (flat name) := by
  rw [splitLong, replace_slash]

/--
The pieces of a cut text make up the text.  All but the last are full, the first one if it fills the
room that it has.  The last is not empty unless there is nothing to put into it.
-/
structure Cut (room : Nat) (t : Text) (front : List Text) (last : Text) : Prop where
  flatten : (front ++ [last]).flatten = t
  full : ∀ first rest, front = first :: rest →
    first.length = room ∧ ∀ piece ∈ rest, piece.length = segmentLength
  last : front ≠ [] ∨ t ≠ [] ∧ 0 < room → last ≠ []

theorem Cut.cons {room : Nat} {t : Text} {front : List Text} {last : Text}
    (h : Cut room t front last) (c : Char) :
    ∃ front' last', Cut (room + 1) (c :: t) front' last' ∧
      ∀ piece rest, front ++ [last] = piece :: rest → front' ++ [last'] = (c :: piece) :: rest := by
  cases front with
  | nil =>
      refine ⟨[], c :: last, ⟨?_, ?_, ?_⟩, ?_⟩
      · rw [← h.flatten]
        rfl
      · intro first rest hnil
        cases hnil
      · exact fun _ => List.cons_ne_nil _ _
      · intro piece rest heq
        cases heq
        rfl
  | cons first rest =>
      obtain ⟨hfirst, hrest⟩ := h.full first rest rfl
      refine ⟨(c :: first) :: rest, last, ⟨?_, ?_, ?_⟩, ?_⟩
      · rw [← h.flatten]
        rfl
      · intro first' rest' heq
        cases heq
        exact ⟨by rw [List.length_cons, hfirst], hrest⟩
      · exact fun _ => h.last (.inl (by simp))
      · intro piece rest' heq
        cases heq
        rfl

theorem cut_pieces (room : Nat) {t : Text} (h : '/' ∉ t) :
    ∃ front last, Text.splitAt '/' (cut room t) = front ++ [last] ∧ Cut room t front last := by
  induction t generalizing room with
  | nil =>
      refine ⟨[], [], by rw [cut]; rfl, rfl, ?_, ?_⟩
      · intro first rest hnil
        cases hnil
      · rintro (hne | ⟨hne, -⟩)
        · exact absurd rfl hne
        · exact absurd rfl hne
  | cons c t ih =>
      rw [List.mem_cons, not_or] at h
      cases room with
      | zero =>
          -- A new piece begins, and it has room for the character.
          obtain ⟨front, last, hsplit, hcut⟩ := ih (segmentLength - 1) h.2
          obtain ⟨front', last', hcut', hcons⟩ := hcut.cons c
          obtain ⟨piece, rest, hpieces, hpieces'⟩ :=
            Text.splitAt_cons_of_ne (Ne.symm h.1) (cut (segmentLength - 1) t)
          rw [hsplit] at hpieces
          refine ⟨[] :: front', last', ?_, ?_, ?_, ?_⟩
          · rw [cut, Text.splitAt_cons_self, hpieces', ← hcons piece rest hpieces]
            rfl
          · rw [← hcut'.flatten]
            rfl
          · intro first rest heq
            cases heq
            refine ⟨rfl, ?_⟩
            intro piece hpiece
            cases front' with
            | nil => cases hpiece
            | cons first' rest' =>
                obtain ⟨hfirst, hrest⟩ := hcut'.full first' rest' rfl
                rcases List.mem_cons.1 hpiece with rfl | hpiece
                · exact hfirst
                · exact hrest piece hpiece
          · exact fun _ => hcut'.last (.inr ⟨by simp, by decide⟩)
      | succ room =>
          obtain ⟨front, last, hsplit, hcut⟩ := ih room h.2
          obtain ⟨front', last', hcut', hcons⟩ := hcut.cons c
          obtain ⟨piece, rest, hpieces, hpieces'⟩ :=
            Text.splitAt_cons_of_ne (Ne.symm h.1) (cut room t)
          rw [hsplit] at hpieces
          refine ⟨front', last', ?_, hcut'⟩
          rw [cut, hpieces', ← hcons piece rest hpieces]

/-- The pieces that the place of a name is made of. -/
theorem splitLong_pieces {name : Text} (h : name ≠ []) :
    ∃ front last, Text.splitAt '/' (splitLong name) = front ++ [last] ∧
      (front ++ [last]).flatten = flat name ∧ last ≠ [] ∧
      ∀ piece ∈ front, piece.length = segmentLength := by
  have hflat : flat name ≠ [] := fun hnil => h (List.map_eq_nil_iff.1 hnil)
  obtain ⟨front, last, hsplit, hcut⟩ := cut_pieces segmentLength (slash_not_mem_flat name)
  refine ⟨front, last, by rw [splitLong_eq, hsplit], hcut.flatten,
    hcut.last (.inr ⟨hflat, by decide⟩), ?_⟩
  intro piece hpiece
  cases front with
  | nil => cases hpiece
  | cons first rest =>
      obtain ⟨hfirst, hrest⟩ := hcut.full first rest rfl
      rcases List.mem_cons.1 hpiece with rfl | hpiece
      · exact hfirst
      · exact hrest piece hpiece

/-! ## Endings -/

/-- The brackets with which names of modules end. -/
def isClosing (c : Char) : Bool := c == ')' || c == '>'

/-- A name that ends with a closing bracket. -/
def Closed (leaf : Text) : Prop := ∃ front c, leaf = front ++ [c] ∧ isClosing c = true

/-- Whether a character may be part of an ending: neither a name nor a path ends with it. -/
def isFree (c : Char) : Bool := !isClosing c && c != '/' && c != '\x00'

/-- An ending of a file name, which begins with a dot. -/
structure IsEnding (e : Text) : Prop where
  dot : e.head? = some '.'
  free : e.all isFree = true

theorem IsEnding.not_closing {e : Text} (h : IsEnding e) {c : Char} (hc : c ∈ e) :
    isClosing c = false := by
  have hfree := List.all_eq_true.1 h.free c hc
  simp only [isFree, Bool.and_eq_true, Bool.not_eq_true'] at hfree
  exact hfree.1.1

theorem IsEnding.slash_not_mem {e : Text} (h : IsEnding e) : '/' ∉ e := by
  intro hmem
  have hfree := List.all_eq_true.1 h.free '/' hmem
  revert hfree
  decide

theorem IsEnding.null_not_mem {e : Text} (h : IsEnding e) : '\x00' ∉ e := by
  intro hmem
  have hfree := List.all_eq_true.1 h.free '\x00' hmem
  revert hfree
  decide

theorem takeWhile_reverse_of_closed {leaf e : Text} (hleaf : Closed leaf) (he : IsEnding e) :
    (leaf ++ e).reverse.takeWhile (fun c => !isClosing c) = e.reverse := by
  obtain ⟨front, c, rfl, hc⟩ := hleaf
  have hall : ∀ d ∈ e.reverse, (!isClosing d) = true := by
    intro d hd
    simp [he.not_closing (List.mem_reverse.1 hd)]
  rw [List.reverse_append, List.takeWhile_append_of_pos hall]
  simp [hc]

/-- Names with endings are told apart by the names and by the endings. -/
theorem append_ending_inj {leaf leaf' e e' : Text} (hleaf : Closed leaf) (hleaf' : Closed leaf')
    (he : IsEnding e) (he' : IsEnding e') (h : leaf ++ e = leaf' ++ e') : leaf = leaf' ∧ e = e' := by
  have hreverse := takeWhile_reverse_of_closed hleaf he
  rw [h, takeWhile_reverse_of_closed hleaf' he'] at hreverse
  have hending : e = e' := List.reverse_injective hreverse.symm
  subst hending
  exact ⟨List.append_cancel_right h, rfl⟩

theorem isName_append_ending {leaf : Text} (hleaf : Closed leaf) (e : Text) :
    Disk.IsName (leaf ++ e) := by
  obtain ⟨front, c, rfl, hc⟩ := hleaf
  have hmem : c ∈ front ++ [c] ++ e := by simp
  have hdots : ∀ t : Text, t.any isClosing = false → front ++ [c] ++ e ≠ t := by
    intro t ht heq
    have htrue : t.any isClosing = true := List.any_eq_true.2 ⟨c, heq ▸ hmem, hc⟩
    rw [ht] at htrue
    cases htrue
  refine ⟨?_, hdots _ (by decide)⟩
  rw [Path.isIdle, Bool.or_eq_false_iff]
  refine ⟨?_, beq_eq_false_iff_ne.2 (hdots _ (by decide))⟩
  simp

/-! ## Seats -/

/-- The base path of a module leads along a way of directories to a name. -/
structure Seated (base : Path) (way : List Text) (leaf : Text) : Prop where
  written : base = Text.joinWith "/".toList (way ++ [leaf])
  front : ∃ front, base = front ++ '/' :: leaf ∧ Path.BeginsNamed front ∧ Path.steps front = way
  flat : '/' ∉ leaf
  closed : Closed leaf
  down : "..".toList ∉ way

theorem isAbsolute_splitLong (name : Text) : Path.isAbsolute (splitLong name) = false := by
  rw [splitLong_eq]
  have hslash := slash_not_mem_flat name
  cases hflat : flat name with
  | nil => rfl
  | cons c t =>
      have hc : c ≠ '/' := by
        rintro rfl
        rw [hflat] at hslash
        simp at hslash
      rw [segmentLength, cut]
      simp [Path.isAbsolute, hc]

theorem closed_of_flatten {front : List Text} {last name : Text} (hlast : last ≠ [])
    (h : (front ++ [last]).flatten = flat name) (hname : Closed name) : Closed last := by
  obtain ⟨name', c, rfl, hc⟩ := hname
  have hflat : flatChar c = c := by
    refine flatChar_of_ne ?_
    rintro rfl
    revert hc
    decide
  have heq : front.flatten ++ last = flat name' ++ [c] := by
    rw [Signature.flat_append] at h
    simpa [flat, hflat] using h
  refine ⟨last.dropLast, c, ?_, hc⟩
  have hend : (front.flatten ++ last).getLast? = some c := by
    rw [heq]
    simp
  rw [List.getLast?_append, List.getLast?_eq_some_getLast hlast] at hend
  have hgetLast : last.getLast hlast = c := by simpa using hend
  rw [← hgetLast, List.dropLast_append_getLast]

/-- A name that is one component of a path, and an ordinary one. -/
def IsOrdinary (name : Text) : Prop := '/' ∉ name ∧ Disk.IsName name

instance (name : Text) : Decidable (IsOrdinary name) :=
  inferInstanceAs (Decidable (_ ∧ _ ∧ _))

theorem IsOrdinary.ne_nil {name : Text} (h : IsOrdinary name) : name ≠ [] := by
  rintro rfl
  have hidle := h.2.1
  simp [Path.isIdle] at hidle

theorem isOrdinary_of_length {piece : Text} (hslash : '/' ∉ piece)
    (hlength : piece.length = segmentLength) : IsOrdinary piece := by
  refine ⟨hslash, ?_, ?_⟩
  · rw [Path.isIdle, Bool.or_eq_false_iff, beq_eq_false_iff_ne]
    refine ⟨?_, ?_⟩
    · cases piece with
      | nil => cases hlength
      | cons c piece => rfl
    · rintro rfl
      cases hlength
  · rintro rfl
    cases hlength

theorem getLast?_joinWith {pieces : List Text} (h : ∀ piece ∈ pieces, IsOrdinary piece) :
    (Text.joinWith "/".toList pieces).getLast? ≠ some '/' := by
  have hlast : ∀ front last : Text, IsOrdinary last → (front ++ last).getLast? ≠ some '/' := by
    intro front last hordinary heq
    rw [List.getLast?_append, List.getLast?_eq_some_getLast hordinary.ne_nil] at heq
    have hslash : last.getLast hordinary.ne_nil = '/' := by simpa using heq
    exact hordinary.1 (hslash ▸ List.getLast_mem hordinary.ne_nil)
  rcases pieces.eq_nil_or_concat with rfl | ⟨front, last, rfl⟩
  · decide
  · have hordinary : IsOrdinary last := h last (by simp)
    by_cases hfront : front = []
    · subst hfront
      exact hlast [] last hordinary
    · rw [List.concat_eq_append, Text.joinWith_append _ hfront (by simp)]
      exact hlast _ last hordinary

theorem steps_joinWith_ordinary {pieces : List Text} (h : ∀ piece ∈ pieces, IsOrdinary piece) :
    Path.steps (Text.joinWith "/".toList pieces) = pieces := by
  rw [Path.steps_joinWith fun piece hpiece => (h piece hpiece).1]
  refine List.filter_eq_self.2 fun piece hpiece => ?_
  rw [(h piece hpiece).2.1]
  rfl

theorem beginsNamed_joinWith {first : Text} (h : Path.BeginsNamed first) (pieces : List Text) :
    Path.BeginsNamed (Text.joinWith "/".toList (first :: pieces)) := by
  obtain ⟨c, rest, rfl, hc, hdot⟩ := h
  cases pieces with
  | nil => exact ⟨c, rest, rfl, hc, hdot⟩
  | cons next pieces => exact ⟨c, _, rfl, hc, hdot⟩

/-- What is cut into pieces comes behind a slash below a directory. -/
theorem join_splitLong {first : Text} {way : List Text} (hfirst : Path.BeginsNamed first)
    (hway : ∀ piece ∈ first :: way, IsOrdinary piece) (name : Text) :
    Path.join (Text.joinWith "/".toList (first :: way)) (splitLong name) =
      Text.joinWith "/".toList (first :: way) ++ '/' :: splitLong name := by
  obtain ⟨c, rest, hcons, -⟩ := beginsNamed_joinWith hfirst way
  have hlast := getLast?_joinWith hway
  rw [Path.join, if_neg (by simp [isAbsolute_splitLong]), if_neg]
  rw [hcons] at hlast ⊢
  simpa using hlast

/-- What is cut into pieces below a directory is seated there. -/
theorem seated_below {first name : Text} {way : List Text} (hfirst : Path.BeginsNamed first)
    (hway : ∀ piece ∈ first :: way, IsOrdinary piece) (hname : Closed name) :
    ∃ front last,
      Seated (Path.join (Text.joinWith "/".toList (first :: way)) (splitLong name))
        (first :: way ++ front) last ∧
      (front ++ [last]).flatten = flat name := by
  have hne : name ≠ [] := by
    obtain ⟨front, c, rfl, -⟩ := hname
    simp
  obtain ⟨front, last, hsplit, hflatten, hlast, hlength⟩ := splitLong_pieces hne
  -- A piece was cut at the slashes, so it has none, and it is within the length that one file name
  -- may have: what is named above it is a plain step down.
  have hslash : ∀ piece ∈ front ++ [last], '/' ∉ piece := by
    intro piece hpiece
    exact Text.not_mem_of_mem_splitAt (hsplit ▸ hpiece)
  have hall : ∀ piece ∈ first :: way ++ front, IsOrdinary piece := by
    intro piece hpiece
    rcases List.mem_append.1 hpiece with hpiece | hpiece
    · exact hway piece hpiece
    · exact isOrdinary_of_length (hslash piece (by simp [hpiece])) (hlength piece hpiece)
  have hpieces : splitLong name = Text.joinWith "/".toList (front ++ [last]) := by
    rw [← hsplit]
    exact (Text.joinWith_splitAt '/' _).symm
  have hwritten : Path.join (Text.joinWith "/".toList (first :: way)) (splitLong name) =
      Text.joinWith "/".toList (first :: way ++ front ++ [last]) := by
    rw [join_splitLong hfirst hway, hpieces, List.append_assoc,
      Text.joinWith_append _ (List.cons_ne_nil _ _) (by simp)]
    simp
  refine ⟨front, last, ⟨hwritten, ?_, hslash last (by simp),
    closed_of_flatten hlast hflatten hname, ?_⟩, hflatten⟩
  · refine ⟨Text.joinWith "/".toList (first :: way ++ front), ?_, beginsNamed_joinWith hfirst _,
      steps_joinWith_ordinary hall⟩
    rw [hwritten, Text.joinWith_append _ (by simp) (by simp)]
    simp [Text.joinWith]
  · -- No step of the way is the parent, since each is ordinary.
    exact fun hmem => (hall _ hmem).2.2 rfl

theorem isOrdinary_companion {operation : Text} (h : IsOrdinary operation) :
    IsOrdinary ((GeneratedModule.companions operation).headD operation) := by
  unfold GeneratedModule.companions GeneratedModule.groups
  rw [List.find?_cons]
  split
  next =>
      have hfirst : IsOrdinary "delay_automaton".toList := ⟨by decide, by decide, by decide⟩
      exact hfirst
  next => exact h

theorem closed_text (s : Signature) : Closed s.text :=
  ⟨'(' :: Text.joinWith ", ".toList s, ')', by simp [Signature.text], by decide⟩

theorem isOrdinary_directory (kind : Kind) : IsOrdinary kind.directory := by
  cases kind with
  | algorithm => exact ⟨by decide, by decide, by decide⟩
  | context => exact ⟨by decide, by decide, by decide⟩

theorem beginsNamed_directory (kind : Kind) : Path.BeginsNamed kind.directory := by
  cases kind with
  | algorithm => exact ⟨'a', _, rfl, by decide, by decide⟩
  | context => exact ⟨'c', _, rfl, by decide, by decide⟩

/-- The way to the modules of an operation. -/
theorem join_operation {operation : Text} (h : IsOrdinary operation) :
    Path.join Kind.algorithm.directory operation =
      Text.joinWith "/".toList [Kind.algorithm.directory, operation] := by
  have habsolute : Path.isAbsolute operation = false := by
    cases operation with
    | nil => rfl
    | cons c operation =>
        have hc : c ≠ '/' := by
          rintro rfl
          exact h.1 (by simp)
        simp [Path.isAbsolute, hc]
  rw [Path.join, if_neg (by simp [habsolute]), if_neg (by decide)]
  rfl

theorem isOrdinary_way {operation : Text} (h : IsOrdinary operation) :
    ∀ piece ∈ [Kind.algorithm.directory, operation], IsOrdinary piece := by
  intro piece hpiece
  simp only [List.mem_cons, List.not_mem_nil, or_false] at hpiece
  rcases hpiece with rfl | rfl
  · exact isOrdinary_directory _
  · exact h

theorem seated_algorithm {operation : Text} (h : IsOrdinary operation) (s : Signature) :
    ∃ front last,
      Seated (algorithmBase operation s.text) (Kind.algorithm.directory :: operation :: front)
        last ∧
      (front ++ [last]).flatten = flat s.text := by
  rw [algorithmBase, join_operation h]
  exact seated_below (beginsNamed_directory _) (isOrdinary_way h) (closed_text s)

theorem seated_context {name : Text} (h : Closed name) :
    ∃ front last, Seated (contextBase name) (Kind.context.directory :: front) last ∧
      (front ++ [last]).flatten = flat name := by
  have hway : ∀ piece ∈ [Kind.context.directory], IsOrdinary piece := by
    intro piece hpiece
    rw [List.mem_singleton.1 hpiece]
    exact isOrdinary_directory _
  exact seated_below (beginsNamed_directory .context) hway h

/-- The way and the name that a text of a signature, or the name of a context, is cut into. -/
inductive Spelled : List Text → Text → Prop
  | algorithm {operation : Text} {s : Signature} {front : List Text} {last : Text} :
    s.Readable → (front ++ [last]).flatten = flat s.text →
      Spelled (Kind.algorithm.directory :: operation :: front) last
  | context {d : Descriptor} {front : List Text} {last : Text} :
    Descriptor.IsContext d → (front ++ [last]).flatten = flat d.shortName →
      Spelled (Kind.context.directory :: front) last

theorem flatten_front {front front' : List Text} {last last' name name' : Text} (e : Text)
    (hname : (front ++ [last]).flatten = name) (hname' : (front' ++ [last']).flatten = name')
    (h : front ++ [last ++ e] <+: front') : ∃ t, name' = name ++ e ++ t := by
  obtain ⟨more, rfl⟩ := h
  refine ⟨more.flatten ++ last', ?_⟩
  rw [← hname, ← hname']
  simp

/-- No built module stands on the way to a module. -/
theorem Spelled.apart {way way' : List Text} {leaf leaf' : Text} (h : Spelled way leaf)
    (h' : Spelled way' leaf') : ¬way ++ [leaf ++ libraryEnding] <+: way' := by
  intro hprefix
  have hkinds : Kind.algorithm.directory ≠ Kind.context.directory := by decide
  have hends : Signature.Ends '.' := by decide
  cases h with
  | algorithm hs hname =>
      cases h' with
      | algorithm hs' hname' =>
          obtain ⟨-, hprefix⟩ := List.cons_prefix_cons.1 hprefix
          obtain ⟨-, hprefix⟩ := List.cons_prefix_cons.1 hprefix
          obtain ⟨t, ht⟩ := flatten_front libraryEnding hname hname' hprefix
          rw [List.append_assoc, ← List.append_nil (flat _)] at ht
          cases Signature.text_prefix_free hs' hs ht
      | context => exact hkinds (List.cons_prefix_cons.1 hprefix).1
  | context hd hname =>
      cases h' with
      | algorithm => exact hkinds (List.cons_prefix_cons.1 hprefix).1.symm
      | context hd' hname' =>
          obtain ⟨-, hprefix⟩ := List.cons_prefix_cons.1 hprefix
          obtain ⟨t, ht⟩ := flatten_front libraryEnding hname hname' hprefix
          rw [List.append_assoc] at ht
          exact GeneratedModule.shortName_prefix_free hd hd' hends _ ht

end Plugin

namespace GeneratedModule

open Plugin

theorem base_of_ofMarks {base : Path} {marks : List Mark} {m : GeneratedModule}
    (h : ofMarks base marks = .ok m) : m.base = base := by
  unfold ofMarks at h
  split at h
  next =>
      cases h
      rfl
  next => cases h

theorem base_of_ofAlgorithm {operation : Text} {s : Signature} {m : GeneratedModule}
    (h : ofAlgorithm operation s = .ok m) :
    ∃ ds, descriptors s = .ok ds ∧
      m.base = algorithmBase ((companions operation).headD operation) s.text := by
  unfold ofAlgorithm at h
  cases hds : descriptors s with
  | error e =>
      rw [hds] at h
      cases h
  | ok ds =>
      rw [hds] at h
      exact ⟨ds, rfl, base_of_ofMarks h⟩

theorem base_of_ofContext {text : Text} {m : GeneratedModule} (h : ofContext text = .ok m) :
    ∃ n, normalizeContext text = .ok n ∧ m.base = contextBase n.short := by
  cases hn : normalizeContext text with
  | error e =>
      unfold ofContext at h
      simp only [hn] at h
      cases h
  | ok n =>
      rw [ofContext_eq_of_normalizeContext hn] at h
      exact ⟨n, rfl, base_of_ofMarks h⟩

/-- Where the module of an operation lies. -/
theorem seated_of_ofAlgorithm {operation : Text} {s : Signature} {m : GeneratedModule}
    (hoperation : IsOrdinary operation) (h : GeneratedModule.ofAlgorithm operation s = .ok m) :
    ∃ way leaf, Seated m.base way leaf ∧ Spelled way leaf := by
  obtain ⟨ds, hds, hbase⟩ := base_of_ofAlgorithm h
  obtain ⟨front, last, hseated, hflatten⟩ := seated_algorithm (isOrdinary_companion hoperation) s
  rw [← hbase] at hseated
  exact ⟨_, last, hseated, .algorithm (readable_of_descriptors hds) hflatten⟩

theorem closed_shortName {d : Descriptor} (h : Descriptor.IsContext d) : Closed d.shortName := by
  cases h with
  | @context l w hl hw =>
      refine ⟨"context".toList ++ '<' :: (l.nameWith false ++ ", ".toList ++ w.nameWith false), '>',
        ?_, by decide⟩
      rw [Descriptor.shortName, Descriptor.nameWith, Descriptor.applied]

/-- Where the module of a context lies. -/
theorem seated_of_ofContext {text : Text} {m : GeneratedModule}
    (h : GeneratedModule.ofContext text = .ok m) :
    ∃ way leaf, Seated m.base way leaf ∧ Spelled way leaf := by
  obtain ⟨n, hn, hbase⟩ := base_of_ofContext h
  obtain ⟨hcontext, hshort⟩ := normalizeContext_eq_ok hn
  rw [hshort] at hbase
  obtain ⟨front, last, hseated, hflatten⟩ := seated_context (closed_shortName hcontext)
  rw [← hbase] at hseated
  exact ⟨_, last, hseated, .context hcontext hflatten⟩

end GeneratedModule
end OnDemand
