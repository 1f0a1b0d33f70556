import Mathlib.Data.List.Infix
import Mathlib.Data.List.TakeWhile
import OnDemand.Proofs.Disk.Places
import OnDemand.Proofs.Text.Occurrences
import OnDemand.Proofs.Text.Pieces
import OnDemand.Proofs.Text.Sizes

/-!
# The steps of paths

Where a path leads is in its steps (`Disk.place`), so that is what is said of the operations on
paths: joining adds steps, the parent lacks the last one, and the directories that a path passes
through have the steps at the front.  Two paths that differ in the ending of their last step lead to
the same directory.
-/

namespace OnDemand

namespace Path

open Text

/-! ## Steps -/

theorem steps_nil : steps [] = [] := by decide

theorem steps_append_slash (p q : Path) : steps (p ++ '/' :: q) = steps p ++ steps q := by
  rw [steps, splitAt_append_self, List.filter_append, steps, steps]

theorem steps_slash (q : Path) : steps ('/' :: q) = steps q :=
  steps_append_slash [] q

theorem steps_dot_slash (q : Path) : steps ('.' :: '/' :: q) = steps q :=
  steps_append_slash ['.'] q

theorem steps_joinWith {pieces : List Text} (h : ∀ piece ∈ pieces, '/' ∉ piece) :
    steps (joinWith "/".toList pieces) = pieces.filter fun piece => !isIdle piece := by
  cases pieces with
  | nil => exact steps_nil
  | cons piece rest =>
      have hsplit : splitAt '/' (joinWith "/".toList (piece :: rest)) = piece :: rest :=
        splitAt_joinWith (by simp) h
      rw [steps, hsplit]

theorem steps_of_not_mem {piece : Text} (h : '/' ∉ piece) (hidle : isIdle piece = false) :
    steps piece = [piece] := by
  rw [steps, splitAt_of_not_mem h]
  simp [hidle]

theorem steps_join (p : Path) {q : Path} (h : isAbsolute q = false) :
    steps (join p q) = steps p ++ steps q := by
  rw [join, if_neg (by simp [h])]
  split
  next hend =>
      rw [Bool.or_eq_true] at hend
      rcases hend with hempty | hslash
      · rw [List.isEmpty_iff.1 hempty, steps_nil]
        rfl
      · -- The slash between the paths is the last character of the first one.
        obtain ⟨front, rfl⟩ := List.getLast?_eq_some_iff.1 (by simpa using hslash)
        rw [List.append_assoc, List.singleton_append, steps_append_slash, steps_append_slash,
          steps_nil, List.append_nil]
  next => exact steps_append_slash p q

theorem isAbsolute_append {p : Path} (h : p ≠ []) (q : Path) :
    isAbsolute (p ++ q) = isAbsolute p := by
  cases p with
  | nil => exact absurd rfl h
  | cons c p => rfl

theorem isAbsolute_join (p : Path) {q : Path} (h : isAbsolute q = false) :
    isAbsolute (join p q) = isAbsolute p := by
  rw [join, if_neg (by simp [h])]
  by_cases hp : p = []
  · subst hp
    exact h
  · split
    · exact isAbsolute_append hp q
    · exact isAbsolute_append hp _

theorem join_append (p : Path) {q : Path} (hempty : q ≠ []) (habsolute : isAbsolute q = false)
    (r : Text) : join p (q ++ r) = join p q ++ r := by
  rw [join, join, isAbsolute_append hempty, habsolute]
  split
  next htrue => cases htrue
  next =>
      split
      · rw [List.append_assoc]
      · rw [List.append_assoc, List.cons_append]

/-! ## Components -/

/-- What the components say of how a path begins. -/
def lead (p : Path) : List Text :=
  match p with
  | '/' :: _ => ["/".toList]
  | ['.'] => [".".toList]
  | '.' :: '/' :: _ => [".".toList]
  | _ => []

/-- The four ways in which a path begins. -/
theorem start_cases (p : Path) :
    (∃ rest, p = '/' :: rest) ∨ p = ['.'] ∨ (∃ rest, p = '.' :: '/' :: rest) ∨
      (start p = ([], p) ∧ lead p = [] ∧ isAbsolute p = false) := by
  cases p with
  | nil => exact .inr (.inr (.inr ⟨rfl, rfl, rfl⟩))
  | cons c p =>
      by_cases hslash : c = '/'
      · exact .inl ⟨p, by rw [hslash]⟩
      · have habsolute : isAbsolute (c :: p) = false := by simp [isAbsolute, hslash]
        by_cases hdot : c = '.'
        · subst hdot
          match p with
          | [] => exact .inr (.inl rfl)
          | d :: p =>
              by_cases hd : d = '/'
              · exact .inr (.inr (.inl ⟨p, by rw [hd]⟩))
              · exact .inr (.inr (.inr ⟨by simp [start, hd], by simp [lead, hd], habsolute⟩))
        · exact .inr (.inr (.inr ⟨by simp [start, hslash, hdot], by simp [lead, hslash, hdot],
            habsolute⟩))

theorem components_eq (p : Path) : components p = lead p ++ steps p := by
  rcases start_cases p with ⟨rest, rfl⟩ | rfl | ⟨rest, rfl⟩ | ⟨hstart, hlead, -⟩
  · exact congrArg ("/".toList :: ·) (steps_slash rest).symm
  · decide
  · rw [steps_dot_slash, ← steps_slash rest]
    rfl
  · rw [components, hstart, hlead]
    rfl

theorem lead_append_slash {p : Path} (h : p ≠ []) (q : Path) : lead (p ++ '/' :: q) = lead p := by
  match p with
  | [] => exact absurd rfl h
  | [c] =>
      by_cases hslash : c = '/'
      · subst hslash
        rfl
      · by_cases hdot : c = '.'
        · subst hdot
          rfl
        · simp [lead, hslash, hdot]
  | c :: d :: p =>
      by_cases hslash : c = '/'
      · subst hslash
        rfl
      · by_cases hdot : c = '.'
        · subst hdot
          by_cases hd : d = '/'
          · subst hd
            rfl
          · simp [lead, hd]
        · simp [lead, hslash, hdot]

/-- Whether the path begins with a name, and not with a slash or a dot. -/
def BeginsNamed (p : Path) : Prop := ∃ c q, p = c :: q ∧ c ≠ '/' ∧ c ≠ '.'

theorem BeginsNamed.append {p : Path} (h : BeginsNamed p) (q : Text) : BeginsNamed (p ++ q) := by
  obtain ⟨c, rest, rfl, hc, hdot⟩ := h
  exact ⟨c, rest ++ q, rfl, hc, hdot⟩

theorem BeginsNamed.ne_nil {p : Path} (h : BeginsNamed p) : p ≠ [] := by
  obtain ⟨c, rest, rfl, -⟩ := h
  exact List.cons_ne_nil _ _

theorem BeginsNamed.isAbsolute {p : Path} (h : BeginsNamed p) : isAbsolute p = false := by
  obtain ⟨c, q, rfl, hc, -⟩ := h
  simp [Path.isAbsolute, hc]

/-- Where a path begins with a name, its components below a directory are its steps. -/
theorem components_join (p : Path) {q : Path} (h : BeginsNamed q) :
    components (join p q) = components p ++ steps q := by
  have habsolute := h.isAbsolute
  rw [components_eq, components_eq, steps_join p habsolute, List.append_assoc]
  refine congrArg (· ++ _) ?_
  rw [join, if_neg (by simp [habsolute])]
  split
  next hend =>
      rw [Bool.or_eq_true] at hend
      rcases hend with hempty | hslash
      · obtain ⟨c, q, rfl, hslash, hdot⟩ := h
        rw [List.isEmpty_iff.1 hempty, List.nil_append]
        simp [lead, hslash, hdot]
      · obtain ⟨front, rfl⟩ := List.getLast?_eq_some_iff.1 (by simpa using hslash)
        rw [List.append_assoc, List.singleton_append]
        by_cases hfront : front = []
        · subst hfront
          rfl
        · rw [lead_append_slash hfront, lead_append_slash hfront]
  next hend =>
      refine lead_append_slash ?_ q
      rintro rfl
      simp at hend

/-! ## Parents -/

theorem trimmedEnd_append (pieces : List Text) :
    ∃ idle, (∀ piece ∈ idle, isIdle piece = true) ∧ pieces = trimmedEnd pieces ++ idle := by
  refine ⟨(pieces.reverse.takeWhile isIdle).reverse, ?_, ?_⟩
  · intro piece hpiece
    exact List.mem_takeWhile_imp (List.mem_reverse.1 hpiece)
  · rw [trimmedEnd, ← List.reverse_append, List.takeWhile_append_dropWhile, List.reverse_reverse]

theorem filter_trimmedEnd (pieces : List Text) :
    (trimmedEnd pieces).filter (fun piece => !isIdle piece) =
      pieces.filter fun piece => !isIdle piece := by
  obtain ⟨idle, hidle, heq⟩ := trimmedEnd_append pieces
  have hnone : idle.filter (fun piece => !isIdle piece) = [] :=
    List.filter_eq_nil_iff.2 fun piece hpiece => by simp [hidle piece hpiece]
  calc
    (trimmedEnd pieces).filter (fun piece => !isIdle piece)
        = (trimmedEnd pieces ++ idle).filter (fun piece => !isIdle piece) := by
          rw [List.filter_append, hnone, List.append_nil]
    _ = pieces.filter fun piece => !isIdle piece := by rw [← heq]

theorem isIdle_getLast_trimmedEnd {pieces : List Text} (h : trimmedEnd pieces ≠ []) :
    isIdle ((trimmedEnd pieces).getLast h) = false := by
  have hne : pieces.reverse.dropWhile isIdle ≠ [] := fun hnil => h (by rw [trimmedEnd, hnil]; rfl)
  have hhead := List.head_dropWhile_not isIdle hne
  simpa [trimmedEnd] using hhead

theorem trimmedEnd_front (pieces : List Text) : trimmedEnd pieces <+: pieces := by
  obtain ⟨idle, -, heq⟩ := trimmedEnd_append pieces
  exact ⟨idle, heq.symm⟩

/-- Without its last piece, which is not idle, a list lacks its last step. -/
theorem filter_dropLast_trimmedEnd (pieces : List Text) :
    (trimmedEnd pieces).dropLast.filter (fun piece => !isIdle piece) =
      (pieces.filter fun piece => !isIdle piece).dropLast := by
  rw [← filter_trimmedEnd pieces]
  by_cases h : trimmedEnd pieces = []
  · rw [h]
    rfl
  · have hlast := isIdle_getLast_trimmedEnd h
    generalize trimmedEnd pieces = trimmed at h hlast ⊢
    conv => rhs; rw [← List.dropLast_append_getLast h]
    rw [List.filter_append, List.filter_cons_of_pos (by simp [hlast]), List.filter_nil,
      List.dropLast_concat]

/-- The pieces of the parent of what stands after the beginning of a path. -/
def parentPieces (rest : Path) : List Text := trimmedEnd (trimmedEnd (splitAt '/' rest)).dropLast

theorem parentPieces_front (rest : Path) : parentPieces rest <+: splitAt '/' rest :=
  ((trimmedEnd_front _).trans (List.dropLast_prefix _)).trans (trimmedEnd_front _)

/-- What the parent joins has the steps of the path but the last. -/
theorem steps_parentPieces (rest : Path) :
    steps (joinWith "/".toList (parentPieces rest)) = (steps rest).dropLast := by
  have hmem : ∀ piece ∈ parentPieces rest, '/' ∉ piece := fun piece hpiece =>
    not_mem_of_mem_splitAt ((parentPieces_front rest).subset hpiece)
  rw [steps_joinWith hmem, parentPieces, filter_trimmedEnd, filter_dropLast_trimmedEnd, ← steps]

/-- Where a slash comes first, it comes first in what the parent joins, if that is anything. -/
theorem joinWith_parentPieces_slash (rest : Path) :
    joinWith "/".toList (parentPieces ('/' :: rest)) = [] ∨
      ∃ r, joinWith "/".toList (parentPieces ('/' :: rest)) = '/' :: r := by
  have hprefix := parentPieces_front ('/' :: rest)
  rw [splitAt_cons_self] at hprefix
  generalize parentPieces ('/' :: rest) = pieces at hprefix
  match pieces, hprefix with
  | [], _ => exact .inl rfl
  | [piece], hprefix =>
      obtain ⟨rfl, -⟩ := List.cons_prefix_cons.1 hprefix
      exact .inl rfl
  | piece :: next :: more, hprefix =>
      obtain ⟨rfl, -⟩ := List.cons_prefix_cons.1 hprefix
      exact .inr ⟨_, rfl⟩

/-- Where a slash does not come first, it does not in what the parent joins. -/
theorem isAbsolute_joinWith_parentPieces {p : Path} (h : isAbsolute p = false) :
    isAbsolute (joinWith "/".toList (parentPieces p)) = false := by
  cases p with
  | nil => decide
  | cons c p =>
      have hc : c ≠ '/' := by simpa [isAbsolute] using h
      obtain ⟨first, rest, -, hsplit⟩ := splitAt_cons_of_ne hc p
      have hprefix := parentPieces_front (c :: p)
      rw [hsplit] at hprefix
      generalize parentPieces (c :: p) = pieces at hprefix
      match pieces, hprefix with
      | [], _ => rfl
      | [piece], hprefix =>
          obtain ⟨rfl, -⟩ := List.cons_prefix_cons.1 hprefix
          exact h
      | piece :: next :: more, hprefix =>
          obtain ⟨rfl, -⟩ := List.cons_prefix_cons.1 hprefix
          exact h

theorem parent?_eq {p front rest : Path} (h : start p = (front, rest)) {q : Path}
    (hq : parent? p = some q) :
    q = front ++ joinWith "/".toList (parentPieces rest) ∨
      q = [] ∧ front = ".".toList ∧ parentPieces rest = [] ∧ (steps rest).dropLast = [] := by
  unfold parent? at hq
  rw [h] at hq
  dsimp only at hq
  split at hq
  next hnil =>
      split at hq
      next hdot =>
          cases hq
          refine .inr ⟨rfl, hdot, by rw [parentPieces, hnil]; rfl, ?_⟩
          rw [steps, ← filter_trimmedEnd, hnil]
          rfl
      next => cases hq
  next piece more hpieces =>
      cases hq
      exact .inl (by rw [parentPieces, hpieces])

/-- The parent of a path starts where the path starts, and lacks its last step. -/
theorem steps_parent? {p q : Path} (h : parent? p = some q) :
    steps q = (steps p).dropLast ∧ isAbsolute q = isAbsolute p := by
  rcases start_cases p with ⟨rest, rfl⟩ | rfl | ⟨rest, rfl⟩ | ⟨hstart, -, habsolute⟩
  · rcases parent?_eq rfl h with rfl | ⟨-, hdot, -⟩
    · refine ⟨?_, rfl⟩
      rw [steps_slash, ← steps_parentPieces]
      exact steps_slash _
    · cases hdot
  · rcases parent?_eq rfl h with rfl | ⟨rfl, -⟩
    · decide
    · decide
  · have hsteps : steps ('.' :: '/' :: rest) = steps ('/' :: rest) :=
      (steps_dot_slash rest).trans (steps_slash rest).symm
    have hstart : start ('.' :: '/' :: rest) = (".".toList, '/' :: rest) := rfl
    rcases parent?_eq hstart h with rfl | ⟨rfl, -, -, hnone⟩
    · refine ⟨?_, rfl⟩
      rw [hsteps, ← steps_parentPieces]
      -- What follows the dot is nothing, or begins with a slash.
      rcases joinWith_parentPieces_slash rest with hempty | ⟨r, hslash⟩
      · rw [hempty]
        rfl
      · rw [hslash]
        exact (steps_dot_slash r).trans (steps_slash r).symm
    · rw [hsteps, hnone]
      exact ⟨rfl, rfl⟩
  · rcases parent?_eq hstart h with rfl | ⟨-, hdot, -⟩
    · exact ⟨steps_parentPieces p, (isAbsolute_joinWith_parentPieces habsolute).trans habsolute.symm⟩
    · cases hdot

/-- A path without steps has no pieces before the idle ones at its end. -/
theorem trimmedEnd_eq_nil {p : Path} (h : steps p = []) : trimmedEnd (splitAt '/' p) = [] := by
  have hidle : ∀ piece ∈ splitAt '/' p, isIdle piece = true := by
    simpa [steps, List.filter_eq_nil_iff] using h
  rw [trimmedEnd, List.reverse_eq_nil_iff, List.dropWhile_eq_nil_iff]
  exact fun piece hpiece => hidle piece (List.mem_reverse.1 hpiece)

/-- No path is its own parent. -/
theorem parent?_ne {p q : Path} (h : parent? p = some q) : q ≠ p := by
  rintro rfl
  have hlength := congrArg List.length (steps_parent? h).1
  rw [List.length_dropLast] at hlength
  have hnone : steps q = [] := List.length_eq_zero_iff.1 (by omega)
  have hrest : steps (start q).2 = [] := by
    rcases start_cases q with ⟨rest, rfl⟩ | rfl | ⟨rest, rfl⟩ | ⟨hstart, -⟩
    · exact (steps_slash rest).symm.trans hnone
    · rfl
    · exact ((steps_slash rest).trans (steps_dot_slash rest).symm).trans hnone
    · rw [hstart]
      exact hnone
  rw [parent?] at h
  dsimp only at h
  rw [trimmedEnd_eq_nil hrest] at h
  dsimp only at h
  split at h
  next hdot =>
      cases h
      cases hdot
  next => cases h

/-- A directory that a path passes through starts where the path starts, and has its first steps. -/
theorem steps_of_mem_ancestors {p q : Path} (h : q ∈ Disk.ancestors p) :
    steps q <+: steps p ∧ isAbsolute q = isAbsolute p := by
  -- The induction goes from a path to its parent, of which the steps are fewer.
  induction p using Disk.ancestors.induct with
  | case1 p hempty =>
      rw [Disk.ancestors, if_pos hempty] at h
      cases h
  | case2 p hempty parent hparent hlt ih =>
      rw [Disk.ancestors, if_neg hempty, hparent] at h
      dsimp only at h
      rw [dif_pos hlt] at h
      rcases List.mem_cons.1 h with rfl | h
      · exact ⟨List.prefix_refl _, rfl⟩
      · rcases ih h with ⟨hsteps, habsolute⟩
        rcases steps_parent? hparent with ⟨hparentSteps, hparentAbsolute⟩
        rw [hparentSteps] at hsteps
        exact ⟨hsteps.trans (List.dropLast_prefix _), habsolute.trans hparentAbsolute⟩
  | case3 p hempty parent hparent hlt =>
      rw [Disk.ancestors, if_neg hempty, hparent] at h
      dsimp only at h
      rw [dif_neg hlt] at h
      rw [List.mem_singleton.1 h]
      exact ⟨List.prefix_refl _, rfl⟩
  | case4 p hempty hparent =>
      rw [Disk.ancestors, if_neg hempty, hparent] at h
      rw [List.mem_singleton.1 h]
      exact ⟨List.prefix_refl _, rfl⟩

end Path

namespace Disk

/-! ## Places below a path -/

/-- Below a path lead the steps of what is joined to it. -/
theorem place_join (d : Disk) (p : Path) {q : Path} (h : Path.isAbsolute q = false) :
    d.place (Path.join p q) = (Path.steps q).foldl follow (d.place p) := by
  rw [place, place, Path.steps_join p h, List.foldl_append, startOf, startOf,
    Path.isAbsolute_join p h]

/-- A file is among the files below a directory when steps down from there lead to its place. -/
theorem mem_filesBelow {d : Disk} {p : Path} {root : Place} {time : Nat} {names : List Text}
    {file : Content × Nat} (hroot : d.nodeAt p = .ok (root, .directory time))
    (hfile : d.file? (root ++ names) = some file) :
    Path.join p (Text.joinWith "/".toList names) ∈ d.filesBelow p := by
  have hmem : (root ++ names, Node.file file.1 file.2) ∈ d.nodes :=
    Table.mem_of_get? (file?_eq_some_iff.1 hfile)
  unfold filesBelow
  rw [hroot]
  refine List.mem_filterMap.2 ⟨_, hmem, ?_⟩
  dsimp only
  rw [Text.dropPrefix?_append]

/-! ## Siblings -/

section Siblings

variable {d : Disk}

theorem walk_append {place end' : Place} {pieces : List Text}
    (h : d.walk place pieces = .ok (.present end')) (rest : List Text) :
    d.walk place (pieces ++ rest) = d.walk end' rest := by
  induction pieces generalizing place with
  | nil =>
      cases h
      rfl
  | cons piece pieces ih =>
      rw [List.cons_append]
      rcases walk_cons h with ⟨hdirectory, ⟨hidle, hrest⟩ | ⟨hidle, hup, hrest⟩ |
        ⟨hidle, hup, hshort, ⟨hsome, hrest⟩ | ⟨-, -, heq⟩⟩⟩
      · rw [walk_idle hdirectory hidle]
        exact ih hrest
      · rw [walk_up hdirectory hidle hup]
        exact ih hrest
      · rw [walk_there hdirectory hidle hup hshort hsome]
        exact ih hrest
      · cases heq

/-- What comes before a name that a walk ends with is there. -/
theorem walk_front {place : Place} {pieces : List Text} {last : Text} {t : Target}
    (hlast : last ≠ []) (h : d.walk place (pieces ++ [last]) = .ok t) :
    ∃ front, d.walk place pieces = .ok (.present front) := by
  induction pieces generalizing place with
  | nil => exact ⟨place, rfl⟩
  | cons piece pieces ih =>
      rw [List.cons_append] at h
      rcases walk_cons h with ⟨hdirectory, ⟨hidle, hrest⟩ | ⟨hidle, hup, hrest⟩ |
        ⟨hidle, hup, hshort, ⟨hsome, hrest⟩ | ⟨-, hempty, -⟩⟩⟩
      · rw [walk_idle hdirectory hidle]
        exact ih hrest
      · rw [walk_up hdirectory hidle hup]
        exact ih hrest
      · rw [walk_there hdirectory hidle hup hshort hsome]
        exact ih hrest
      · simp [hlast] at hempty

/-- Whether a piece is a name: it says something, and does not lead up. -/
def IsName (piece : Text) : Prop := Path.isIdle piece = false ∧ piece ≠ "..".toList

theorem isAbsolute_append_slash (front name name' : Text) :
    Path.isAbsolute (front ++ '/' :: name) = Path.isAbsolute (front ++ '/' :: name') := by
  cases front with
  | nil => rfl
  | cons c front => rfl

/-- A shorter name in the same directory has a target, which is that name. -/
theorem target_sibling {front name name' : Text} {t : Target} (hslash : '/' ∉ name)
    (hname : IsName name) (hslash' : '/' ∉ name') (hname' : IsName name')
    (hnull : '\x00' ∉ name') (hshorter : Text.byteSize name' ≤ Text.byteSize name)
    (h : d.target (front ++ '/' :: name) = .ok t) :
    ∃ directory, d.target (front ++ '/' :: name') = .ok (.present (directory ++ [name'])) ∨
      d.target (front ++ '/' :: name') = .ok (.absent directory name' false) := by
  rcases target_eq_ok h with ⟨hnulls, -, hlong, hwalk⟩
  rw [Text.splitAt_append_self, Text.splitAt_of_not_mem hslash] at hwalk
  have hne : name ≠ [] := by
    rintro rfl
    simp [IsName, Path.isIdle] at hname
  obtain ⟨directory, hfront⟩ := walk_front hne hwalk
  rw [walk_append hfront] at hwalk
  -- The directory is one, and the longer name is not too long for it.
  have hdirectory := (walk_cons hwalk).1
  have hshort : Text.byteSize name ≤ longestName := by
    rcases (walk_cons hwalk).2 with ⟨hidle, -⟩ | ⟨-, hup, -⟩ | ⟨-, -, hshort, -⟩
    · rw [hname.1] at hidle
      cases hidle
    · exact absurd hup hname.2
    · exact hshort
  have htarget : d.target (front ++ '/' :: name') = d.walk directory [name'] := by
    rw [target_of_walk, Text.splitAt_append_self, Text.splitAt_of_not_mem hslash', startOf,
      isAbsolute_append_slash front name' name, ← startOf, walk_append hfront]
    · simp only [List.mem_append, List.mem_cons, not_or] at hnulls ⊢
      exact ⟨hnulls.1, hnulls.2.1, hnull⟩
    · simp
    · refine Nat.le_trans ?_ hlong
      simp only [Text.byteSize_append, Text.byteSize]
      omega
  refine ⟨directory, ?_⟩
  rw [htarget]
  cases hnode : d.node? (directory ++ [name']) with
  | none =>
      exact .inr (walk_free hdirectory hname'.1 hname'.2 (Nat.le_trans hshorter hshort) hnode)
  | some node =>
      refine .inl ?_
      rw [walk_there hdirectory hname'.1 hname'.2 (Nat.le_trans hshorter hshort) (by simp [hnode])]
      rfl

theorem endsNamed_append_slash {front name : Text} (hslash : '/' ∉ name) (hname : IsName name) :
    endsNamed (front ++ '/' :: name) = true := by
  have hne : name ≠ [] := by
    rintro rfl
    simp [IsName, Path.isIdle] at hname
  have hlast : ((Text.splitAt '/' (front ++ '/' :: name)).filter fun piece =>
      !piece.isEmpty).getLast? = some name := by
    rw [Text.splitAt_append_self, Text.splitAt_of_not_mem hslash, List.filter_append,
      List.filter_cons_of_pos (by simp [hne]), List.filter_nil, List.getLast?_append]
    rfl
  rcases hname with ⟨hidle, hup⟩
  rw [Path.isIdle, Bool.or_eq_false_iff, beq_eq_false_iff_ne] at hidle
  rw [endsNamed, hlast]
  exact Bool.and_eq_true_iff.2 ⟨bne_iff_ne.2 hidle.2, bne_iff_ne.2 hup⟩

/-- A file can be given a shorter name in its directory, unless that names a directory. -/
theorem rename_sibling {front name name' : Text} {r : Place} {content : Content} {time : Nat}
    (hslash : '/' ∉ name) (hname : IsName name) (hslash' : '/' ∉ name') (hname' : IsName name')
    (hnull : '\x00' ∉ name') (hshorter : Text.byteSize name' ≤ Text.byteSize name)
    (hfile : d.nodeAt (front ++ '/' :: name) = .ok (r, .file content time))
    (hno : d.isDirectoryAt (d.place (front ++ '/' :: name')) = false) :
    ∃ d', d.rename (front ++ '/' :: name) (front ++ '/' :: name') = (d', .ok ()) := by
  obtain ⟨directory, htarget⟩ :=
    target_sibling hslash hname hslash' hname' hnull hshorter (nodeAt_eq_file hfile).1
  -- A name without slashes does not end in one, so a directory is not demanded.
  have hlast : (front ++ '/' :: name').getLast? ≠ some '/' := by
    intro hlast
    rw [List.getLast?_append, List.getLast?_cons] at hlast
    cases hname'' : name'.getLast? with
    | none =>
        rw [List.getLast?_eq_none_iff] at hname''
        subst hname''
        simp [IsName, Path.isIdle] at hname'
    | some c =>
        have hmem : c ∈ name' := List.mem_of_getLast? hname''
        rw [hname''] at hlast
        have hc : c = '/' := by simpa using hlast
        exact hslash' (hc ▸ hmem)
  -- Under the other name there is a file or nothing, and neither is an obstacle.
  rcases htarget with htarget | htarget
  · have hobstacle : d.obstacle? (front ++ '/' :: name') (.present (directory ++ [name'])) =
        none := by
      have hplace : directory ++ [name'] = d.place (front ++ '/' :: name') := target_place htarget
      rw [obstacle?, if_neg (by simp [endsNamed_append_slash hslash' hname']), if_neg hlast,
        hplace, hno]
      rfl
    refine ⟨d.move r content time (.present (directory ++ [name'])), ?_⟩
    rw [rename, hfile, htarget]
    simp only [hobstacle]
  · refine ⟨d.move r content time (.absent directory name' false), ?_⟩
    rw [rename, hfile, htarget]
    rfl

end Siblings
end Disk
end OnDemand
