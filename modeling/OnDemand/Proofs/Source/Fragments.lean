import OnDemand.Proofs.Source.Laying
import OnDemand.Proofs.Text.Pieces

/-!
# Lines and the fragments on them

A text is written piece by piece, a newline between neighbours, so it does not matter where a text
is cut into some that are written one after another.  The tabs of a line are written with the first
fragment that is put on it.  They are as many as the level is at that moment, whatever it was when
the line before was ended and whatever it becomes while the line goes on.

`Stroke.rows` keeps the fragments of each line, with their levels, for any strokes; no sheet plays a
part in it.  `Adds s rows s'` says that the sheet `s'` is `s` with such lines written on it; it is
shown of a piece, of a text, of a stroke and then of any number of strokes, each time from every
sheet.
-/

namespace OnDemand

open Text

/-! ## Fragments -/

/-- What is put on a line at once, with the level at that moment. -/
structure Fragment where
  level : Nat
  text : Text
  ne_nil : text ≠ []
  deriving DecidableEq, Repr

/-- The fragments on a line, in order. -/
abbrev Row := List Fragment

namespace Row

/-- The fragments one after another. -/
def text (row : Row) : Text := row.flatMap Fragment.text

/-- The row of a piece that is written at the level `k`. -/
def ofPiece (k : Nat) (piece : Text) : Row :=
  if h : piece = [] then [] else [⟨k, piece, h⟩]

/-- The rows of a text that is written at the level `k`, one for each line. -/
def ofText (k : Nat) (t : Text) : List Row := (splitAt '\n' t).map (ofPiece k)

/--
The line is as empty as the row, or it has the fragments behind as many tabs as the level was at the
first of them.
-/
def Fills (row : Row) (line : Text) : Prop :=
  row = [] ∧ line = [] ∨
    ∃ first more, row = first :: more ∧ row.text ≠ [] ∧
      line = List.replicate first.level '\t' ++ row.text

/-- What the row writes; `fresh` says whether it starts a line. -/
def laid (fresh : Bool) : Row → Text
  | [] => []
  | first :: more => (Stand.mk first.level fresh).lead ++ text (first :: more)

/-- What the rows write; `fresh` says whether the first of them starts a line. -/
def laidAll (fresh : Bool) : List Row → List Text
  | [] => []
  | row :: rows => row.laid fresh :: laidAll true rows

/-- Whether a line starts behind the rows. -/
def endsFresh (fresh : Bool) : List Row → Bool
  | [] => fresh
  | [row] => fresh && row.isEmpty
  | _ :: next :: rows => endsFresh true (next :: rows)

theorem text_append (row row' : Row) : text (row ++ row') = text row ++ text row' :=
  List.flatMap_append

theorem text_cons_ne_nil (first : Fragment) (more : Row) : text (first :: more) ≠ [] := by
  simp [text, first.ne_nil]

theorem text_ofPiece (k : Nat) (piece : Text) : (ofPiece k piece).text = piece := by
  unfold ofPiece
  split
  next h => exact h.symm
  next => simp [text]

theorem map_text_ofText (k : Nat) (t : Text) : (ofText k t).map text = splitAt '\n' t := by
  simp [ofText, Function.comp_def, text_ofPiece]

theorem fills_laid (row : Row) : row.Fills (row.laid true) := by
  cases row with
  | nil => exact .inl ⟨rfl, rfl⟩
  | cons first more => exact .inr ⟨first, more, rfl, text_cons_ne_nil first more, rfl⟩

theorem laid_append (fresh : Bool) (row row' : Row) :
    laid fresh (row ++ row') = laid fresh row ++ laid (fresh && row.isEmpty) row' := by
  cases row with
  | nil => simp [laid]
  | cons first more => cases row' <;> simp [laid, text, Stand.lead]

theorem laidAll_true (rows : List Row) : laidAll true rows = rows.map (laid true) := by
  induction rows with
  | nil => rfl
  | cons row rows ih => rw [laidAll, ih, List.map_cons]

theorem laidAll_continued {rows : List Row} (h : rows ≠ []) (fresh : Bool) (others : List Row) :
    laidAll fresh (continued rows others) =
      continued (laidAll fresh rows) (laidAll (endsFresh fresh rows) others) := by
  induction rows generalizing fresh with
  | nil => exact absurd rfl h
  | cons row rows ih =>
      cases rows with
      | nil =>
          rw [continued, laidAll, laid_append]
          cases others <;> rfl
      | cons next rest =>
          calc
            laidAll fresh (continued (row :: next :: rest) others)
                = row.laid fresh :: laidAll true (continued (next :: rest) others) := rfl
            _ = row.laid fresh :: continued (laidAll true (next :: rest))
                  (laidAll (endsFresh true (next :: rest)) others) := by
                rw [ih (List.cons_ne_nil next rest)]
            _ = continued (laidAll fresh (row :: next :: rest))
                  (laidAll (endsFresh fresh (row :: next :: rest)) others) := rfl

theorem endsFresh_cons {rows : List Row} (h : rows ≠ []) (fresh : Bool) (row : Row) :
    endsFresh fresh (row :: rows) = endsFresh true rows := by
  cases rows with
  | nil => exact absurd rfl h
  | cons next rows => rfl

theorem endsFresh_continued {rows : List Row} (h : rows ≠ []) (fresh : Bool) (others : List Row) :
    endsFresh fresh (continued rows others) = endsFresh (endsFresh fresh rows) others := by
  induction rows generalizing fresh with
  | nil => exact absurd rfl h
  | cons row rows ih =>
      cases rows with
      | nil =>
          -- The last row decides, and it is the joined one only if nothing more follows.
          cases others with
          | nil => simp [continued, endsFresh]
          | cons first others =>
              cases others with
              | nil => cases row <;> simp [continued, endsFresh]
              | cons second others => rfl
      | cons next rest =>
          have hne : next :: rest ≠ [] := List.cons_ne_nil next rest
          rw [continued_cons hne, endsFresh_cons (continued_ne_nil hne others), ih hne,
            endsFresh_cons hne]

end Row

namespace Sheet

/-! ## Writing piece by piece -/

/-- Puts a piece on the line; an empty one does not even start it. -/
def putPiece (s : Sheet) (piece : Text) : Sheet :=
  if piece = [] then s
  else { s with reversed := piece.reverse ++ s.stand.lead.reverse ++ s.reversed, fresh := false }

/-- Puts the pieces on a line each. -/
def emitPieces (s : Sheet) : List Text → Sheet
  | [] => s
  | [piece] => s.putPiece piece
  | piece :: next :: rest => (s.putPiece piece).newline.emitPieces (next :: rest)

theorem emit_append (s : Sheet) (a b : Text) : s.emit (a ++ b) = (s.emit a).emit b :=
  List.foldl_append

theorem emit_newline (s : Sheet) : s.emit ['\n'] = s.newline := rfl

theorem line_eq_emit (s : Sheet) (t : Text) : s.line t = s.emit (t ++ ['\n']) := by
  rw [emit_append, emit_newline, line]

theorem emit_eq_putPiece {piece : Text} (h : '\n' ∉ piece) (s : Sheet) :
    s.emit piece = s.putPiece piece := by
  unfold putPiece
  split
  next hnil =>
    rw [hnil]
    rfl
  next hne => exact emit_of_not_mem hne h s

theorem emit_joinWith {pieces : List Text} (h : ∀ piece ∈ pieces, '\n' ∉ piece) (s : Sheet) :
    s.emit (joinWith ['\n'] pieces) = s.emitPieces pieces := by
  induction pieces generalizing s with
  | nil => rfl
  | cons piece pieces ih =>
      have hpiece := emit_eq_putPiece (h piece List.mem_cons_self)
      cases pieces with
      | nil => exact hpiece s
      | cons next rest =>
          -- The newline between neighbours is written like a text of its own.
          rw [joinWith, emit_append, emit_append, hpiece, emit_newline, emitPieces,
            ih fun p hp => h p (List.mem_cons_of_mem piece hp)]

/-- A text is written as its pieces between the newlines. -/
theorem emit_eq_emitPieces (s : Sheet) (t : Text) : s.emit t = s.emitPieces (splitAt '\n' t) := by
  rw [← emit_joinWith fun _ => not_mem_of_mem_splitAt, joinWith_splitAt]

/-! ## Rows on a sheet -/

/--
The sheet `s'` is `s` with lines for the rows written on it.  The first of them goes on with the
line that `s` is at, and the last is the one that `s'` is at.
-/
structure Adds (s : Sheet) (rows : List Row) (s' : Sheet) : Prop where
  body : ∃ t, s'.body = s.body ++ t ∧ splitAt '\n' t = Row.laidAll s.fresh rows
  fresh : s'.fresh = Row.endsFresh s.fresh rows

namespace Adds

variable {s s' s'' : Sheet} {rows rows' : List Row}

theorem ne_nil (h : Adds s rows s') : rows ≠ [] := by
  rintro rfl
  obtain ⟨t, -, ht⟩ := h.body
  exact splitAt_ne_nil _ t ht

theorem trans (h : Adds s rows s') (h' : Adds s' rows' s'') :
    Adds s (continued rows rows') s'' := by
  obtain ⟨t, hbody, ht⟩ := h.body
  obtain ⟨t', hbody', ht'⟩ := h'.body
  refine ⟨⟨t ++ t', ?_, ?_⟩, ?_⟩
  · rw [hbody', hbody, List.append_assoc]
  · rw [splitAt_append, ht, ht', h.fresh, Row.laidAll_continued h.ne_nil]
  · rw [h'.fresh, h.fresh, Row.endsFresh_continued h.ne_nil]

/-- A step that writes nothing, whatever becomes of the level. -/
theorem silent (hbody : s'.body = s.body) (hfresh : s'.fresh = s.fresh) : Adds s [[]] s' := by
  refine ⟨⟨[], ?_, rfl⟩, ?_⟩
  · rw [hbody, List.append_nil]
  · rw [hfresh]
    simp [Row.endsFresh]

theorem newline (s : Sheet) : Adds s [[], []] s.newline := by
  refine ⟨⟨['\n'], ?_, rfl⟩, rfl⟩
  simp [Sheet.body, Sheet.newline]

theorem putPiece {piece : Text} (h : '\n' ∉ piece) (s : Sheet) :
    Adds s [Row.ofPiece s.level piece] (s.putPiece piece) := by
  unfold Row.ofPiece Sheet.putPiece
  split
  next => exact silent rfl rfl
  next hne =>
    -- Neither the tabs nor the piece ends the line.
    have hlead : '\n' ∉ s.stand.lead := by
      unfold Stand.lead
      split <;> simp
    refine ⟨⟨s.stand.lead ++ piece, ?_, ?_⟩, ?_⟩
    · simp [Sheet.body]
    · rw [splitAt_of_not_mem (by simp [hlead, h])]
      simp [Row.laidAll, Row.laid, Row.text, stand]
    · simp [Row.endsFresh]

theorem emitPieces {pieces : List Text} (hne : pieces ≠ []) (h : ∀ piece ∈ pieces, '\n' ∉ piece)
    (s : Sheet) : Adds s (pieces.map (Row.ofPiece s.level)) (s.emitPieces pieces) := by
  induction pieces generalizing s with
  | nil => exact absurd rfl hne
  | cons piece pieces ih =>
      have hpiece := putPiece (h piece List.mem_cons_self) s
      cases pieces with
      | nil => exact hpiece
      | cons next rest =>
          have hrest := ih (List.cons_ne_nil next rest)
            (fun p hp => h p (List.mem_cons_of_mem piece hp)) (s.putPiece piece).newline
          -- All pieces are written at one level: neither a piece nor a newline changes it.
          have hlevel : (s.putPiece piece).newline.level = s.level := by
            unfold Sheet.putPiece
            split <;> rfl
          rw [hlevel] at hrest
          rw [Sheet.emitPieces]
          simpa [continued] using (hpiece.trans (newline _)).trans hrest

theorem emit (s : Sheet) (t : Text) : Adds s (Row.ofText s.level t) (s.emit t) := by
  rw [emit_eq_emitPieces]
  exact emitPieces (splitAt_ne_nil _ t) (fun _ => not_mem_of_mem_splitAt) s

end Adds
end Sheet

/-! ## Strokes -/

/-- One thing that is done to the body of a sheet, or to its level. -/
inductive Stroke where
  | emit (t : Text)
  | line (t : Text)
  | newline
  | indent
  | dedent
  deriving DecidableEq, Repr

namespace Stroke

/-- The text that a stroke writes. -/
def text : Stroke → Text
  | .emit t => t
  | .line t => t ++ ['\n']
  | .newline => ['\n']
  | .indent => []
  | .dedent => []

/-- The level behind a stroke at the level `k`. -/
def shift (k : Nat) : Stroke → Nat
  | .emit _ => k
  | .line _ => k
  | .newline => k
  | .indent => k + 1
  | .dedent => k - 1

/-- The fragments that the strokes put on each line, from one at the level `k` on. -/
def rows (k : Nat) : List Stroke → List Row
  | [] => [[]]
  | stroke :: strokes => continued (Row.ofText k stroke.text) (rows (stroke.shift k) strokes)

/-- The fragments are the texts of the strokes in order, cut at the newlines. -/
theorem map_text_rows (k : Nat) (strokes : List Stroke) :
    (rows k strokes).map Row.text = splitAt '\n' (strokes.flatMap text) := by
  induction strokes generalizing k with
  | nil => rfl
  | cons stroke strokes ih =>
      rw [rows, map_continued Row.text_append, Row.map_text_ofText, ih, List.flatMap_cons,
        splitAt_append]

end Stroke

namespace Sheet

/-- The sheet after one stroke. -/
def stroke (s : Sheet) : Stroke → Sheet
  | .emit t => s.emit t
  | .line t => s.line t
  | .newline => s.newline
  | .indent => s.indent
  | .dedent => s.dedent

/-- The sheet after the strokes, one after another. -/
def after (s : Sheet) (strokes : List Stroke) : Sheet := strokes.foldl stroke s

theorem level_stroke (s : Sheet) (stroke : Stroke) :
    (s.stroke stroke).level = stroke.shift s.level := by
  cases stroke with
  | emit t => exact s.level_emit t
  | line t => exact s.level_emit t
  | newline => rfl
  | indent => rfl
  | dedent => rfl

theorem level_after (s : Sheet) (strokes : List Stroke) :
    (s.after strokes).level = strokes.foldl Stroke.shift s.level := by
  induction strokes generalizing s with
  | nil => rfl
  | cons stroke strokes ih =>
      rw [List.foldl_cons, ← level_stroke]
      exact ih (s.stroke stroke)

theorem adds_stroke (s : Sheet) (stroke : Stroke) :
    Adds s (Row.ofText s.level stroke.text) (s.stroke stroke) := by
  cases stroke with
  | emit t => exact .emit s t
  | line t =>
      rw [Sheet.stroke, line_eq_emit]
      exact .emit s (t ++ ['\n'])
  | newline => exact .emit s ['\n']
  | indent => exact .silent rfl rfl
  | dedent => exact .silent rfl rfl

theorem adds_after (s : Sheet) (strokes : List Stroke) :
    Adds s (Stroke.rows s.level strokes) (s.after strokes) := by
  induction strokes generalizing s with
  | nil => exact .silent rfl rfl
  | cons stroke strokes ih =>
      -- The rest starts at the level that the stroke leaves behind, on the line that it is at.
      have hrest := ih (s.stroke stroke)
      rw [level_stroke] at hrest
      exact (s.adds_stroke stroke).trans hrest

/-- The lines of a new sheet after some strokes. -/
theorem splitAt_body_after (strokes : List Stroke) :
    splitAt '\n' (({} : Sheet).after strokes).body =
      (Stroke.rows 0 strokes).map (Row.laid true) := by
  obtain ⟨t, hbody, ht⟩ := (({} : Sheet).adds_after strokes).body
  have hnew : (({} : Sheet).after strokes).body = t := hbody
  rw [hnew, ht]
  exact Row.laidAll_true _

/--
Texts may be cut anywhere: writing one and then another is writing both at once, ending a line is
writing a newline, and every text is written as its pieces between the newlines.  After any strokes
on a new sheet there is a line for each row of fragments.  It is empty if there are none, and else
it has as many tabs as the level was at the first of them, and then all of them.
-/
theorem emitting_composes_and_indents :
    (∀ (s : Sheet) (a b : Text), (s.emit a).emit b = s.emit (a ++ b)) ∧
    (∀ (s : Sheet) (a : Text), s.line a = s.emit (a ++ ['\n'])) ∧
    (∀ (s : Sheet) (t : Text), s.emit t = s.emitPieces (splitAt '\n' t)) ∧
    ∀ strokes : List Stroke,
      (({} : Sheet).after strokes).level = strokes.foldl Stroke.shift 0 ∧
      (Stroke.rows 0 strokes).map Row.text = splitAt '\n' (strokes.flatMap Stroke.text) ∧
      List.Forall₂ Row.Fills (Stroke.rows 0 strokes)
        (splitAt '\n' (({} : Sheet).after strokes).body) := by
  refine ⟨fun s a b => (emit_append s a b).symm, line_eq_emit, emit_eq_emitPieces, ?_⟩
  intro strokes
  refine ⟨level_after {} strokes, Stroke.map_text_rows 0 strokes, ?_⟩
  rw [splitAt_body_after, List.forall₂_map_right_iff, List.forall₂_same]
  intro row _
  exact row.fills_laid

example :
    (({} : Sheet).after [.line "f \x7b".toList, .indent, .emit "g".toList, .indent,
      .emit "();\nh();\n\n".toList, .dedent, .dedent, .line "\x7d".toList]).body =
      "f \x7b\n\tg();\n\t\th();\n\n\x7d\n".toList := by
  decide +kernel

end Sheet
end OnDemand
