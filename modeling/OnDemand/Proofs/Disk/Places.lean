import OnDemand.Disk.Changes

/-!
# Where paths lead

Where a path leads depends on the disk only in that it may lead nowhere: otherwise it leads to its
place, which its steps determine (`Disk.place`).  Names that are steps lead down from there, below
the place where they start.  A path that leads to a node leads there as long as no directory is
removed and the node stays (`Disk.target_present_of_stays`).
-/

namespace OnDemand.Disk

/-! ## Places -/

/-- Where one step leads. -/
def follow (place : Place) (step : Text) : Place :=
  if step = "..".toList then place.dropLast else place ++ [step]

/-- The directory in which a path starts. -/
def startOf (d : Disk) (p : Path) : Place := if Path.isAbsolute p then [] else d.here

/-- The place of a path, whether there is something or not. -/
def place (d : Disk) (p : Path) : Place := (Path.steps p).foldl follow (d.startOf p)

/-- The place that a target is at. -/
def Target.place : Target → Place
  | .present place => place
  | .absent directory name _ => directory ++ [name]

theorem startOf_of_here {d d' : Disk} (h : d'.here = d.here) (p : Path) :
    d'.startOf p = d.startOf p := by
  rw [startOf, h, startOf]

theorem place_of_here {d d' : Disk} (h : d'.here = d.here) (p : Path) :
    d'.place p = d.place p := by
  rw [place, startOf_of_here h, place]

/-- Whether a place lies below another, and is not the same. -/
def IsBelow (root q : Place) : Prop := ∃ name names, q = root ++ name :: names

theorem isBelow_append {root : Place} {names : List Text} (h : names ≠ []) :
    IsBelow root (root ++ names) := by
  cases names with
  | nil => exact absurd rfl h
  | cons name names => exact ⟨name, names, rfl⟩

/-- A step that leads up is none of these. -/
theorem foldl_follow {names : List Text} (h : "..".toList ∉ names) (q : Place) :
    names.foldl follow q = q ++ names := by
  induction names generalizing q with
  | nil => simp
  | cons name names ih =>
      rw [List.mem_cons, not_or] at h
      rw [List.foldl_cons, follow, if_neg (Ne.symm h.1), ih h.2, List.append_assoc,
        List.singleton_append]

section Walk

variable {d d' : Disk}

theorem node?_of_isDirectoryAt {place : Place} (h : d.isDirectoryAt place = true) :
    place = [] ∨ ∃ time, d.node? place = some (.directory time) := by
  cases place with
  | nil => exact .inl rfl
  | cons name names =>
      refine .inr ?_
      cases hnode : d.node? (name :: names) with
      | none => simp [isDirectoryAt, hnode] at h
      | some node =>
          cases node with
          | directory time => exact ⟨time, rfl⟩
          | file content time => simp [isDirectoryAt, hnode] at h

theorem isDirectoryAt_of_node? {place : Place} {time : Nat}
    (h : d.node? place = some (.directory time)) : d.isDirectoryAt place = true := by
  simp [isDirectoryAt, h]

/-- The steps of a walk that leads somewhere, one by one. -/
theorem walk_cons {place : Place} {piece : Text} {rest : List Text} {t : Target}
    (h : d.walk place (piece :: rest) = .ok t) :
    d.isDirectoryAt place = true ∧
      ((Path.isIdle piece = true ∧ d.walk place rest = .ok t) ∨
        (Path.isIdle piece = false ∧ piece = "..".toList ∧ d.walk place.dropLast rest = .ok t) ∨
        (Path.isIdle piece = false ∧ piece ≠ "..".toList ∧ Text.byteSize piece ≤ longestName ∧
          ((d.node? (place ++ [piece])).isSome = true ∧ d.walk (place ++ [piece]) rest = .ok t ∨
            d.node? (place ++ [piece]) = none ∧ rest.all List.isEmpty = true ∧
              t = .absent place piece (!rest.isEmpty)))) := by
  rw [walk] at h
  split at h
  next => cases h
  next hdirectory =>
      refine ⟨by simpa using hdirectory, ?_⟩
      split at h
      -- The cases are those of the walk: an idle piece, a step up, a name that is there or is not.
      next hidle => exact .inl ⟨hidle, h⟩
      next hidle =>
          have hidle' : Path.isIdle piece = false := by simpa using hidle
          split at h
          next hup => exact .inr (.inl ⟨hidle', hup, h⟩)
          next hup =>
              split at h
              next => cases h
              next hlong =>
                  refine .inr (.inr ⟨hidle', hup, Nat.le_of_not_lt hlong, ?_⟩)
                  split at h
                  next hsome => exact .inl ⟨hsome, h⟩
                  next hnone =>
                      split at h
                      next hrest =>
                          cases h
                          exact .inr ⟨by simpa using hnone, hrest, rfl⟩
                      next => cases h

/-- Empty pieces are no steps. -/
theorem filter_of_all_isEmpty {pieces : List Text} (h : pieces.all List.isEmpty = true) :
    (pieces.filter fun piece => !Path.isIdle piece) = [] := by
  rw [List.filter_eq_nil_iff]
  intro piece hmem
  have hpiece := List.all_eq_true.1 h piece hmem
  simp [Path.isIdle, hpiece]

/-- A walk leads to the place that its steps determine. -/
theorem walk_place {place : Place} {pieces : List Text} {t : Target}
    (h : d.walk place pieces = .ok t) :
    t.place = (pieces.filter fun piece => !Path.isIdle piece).foldl follow place := by
  induction pieces generalizing place with
  | nil =>
      cases h
      rfl
  | cons piece rest ih =>
      rcases (walk_cons h).2 with ⟨hidle, hrest⟩ | ⟨hidle, hup, hrest⟩ |
        ⟨hidle, hup, -, ⟨-, hrest⟩ | ⟨-, hempty, rfl⟩⟩
      · simpa [hidle] using ih hrest
      · rw [ih hrest, List.filter_cons_of_pos (by simp [hidle]), List.foldl_cons, follow,
          if_pos hup]
      · rw [ih hrest, List.filter_cons_of_pos (by simp [hidle]), List.foldl_cons, follow,
          if_neg hup]
      · -- Nothing follows a name that is free.
        rw [List.filter_cons_of_pos (by simp [hidle]), filter_of_all_isEmpty hempty,
          List.foldl_cons, List.foldl_nil, follow, if_neg hup, Target.place]

/-- A walk passes through directories. -/
theorem walk_through {place : Place} {pieces front : List Text} {t : Target}
    (h : d.walk place pieces = .ok t)
    (hfront : front <+: pieces.filter fun piece => !Path.isIdle piece)
    (hne : front ≠ pieces.filter fun piece => !Path.isIdle piece) :
    d.isDirectoryAt (front.foldl follow place) = true := by
  induction pieces generalizing place front with
  | nil => exact absurd (List.prefix_nil.1 hfront) hne
  | cons piece rest ih =>
      obtain ⟨hdirectory, hcases⟩ := walk_cons h
      cases front with
      | nil => exact hdirectory
      | cons step front =>
          cases hidle : Path.isIdle piece with
          -- An idle piece is no step, so the same steps are left.
          | true =>
              rw [List.filter_cons_of_neg (by simp [hidle])] at hfront hne
              rcases hcases with ⟨-, hrest⟩ | ⟨hidle', -⟩ | ⟨hidle', -⟩
              · exact ih hrest hfront hne
              · rw [hidle] at hidle'
                cases hidle'
              · rw [hidle] at hidle'
                cases hidle'
          | false =>
              rw [List.filter_cons_of_pos (by simp [hidle])] at hfront hne
              obtain ⟨rfl, hfront'⟩ := List.cons_prefix_cons.1 hfront
              have hne' : front ≠ rest.filter fun piece => !Path.isIdle piece :=
                fun heq => hne (heq ▸ rfl)
              rw [List.foldl_cons, follow]
              rcases hcases with ⟨hidle', -⟩ | ⟨-, hup, hrest⟩ |
                ⟨-, hup, -, ⟨-, hrest⟩ | ⟨-, hempty, -⟩⟩
              · rw [hidle] at hidle'
                cases hidle'
              · rw [if_pos hup]
                exact ih hrest hfront' hne'
              · rw [if_neg hup]
                exact ih hrest hfront' hne'
              · -- Nothing follows a name that is free.
                refine absurd ?_ hne'
                rw [filter_of_all_isEmpty hempty] at hfront' ⊢
                exact List.prefix_nil.1 hfront'

/-- What is free is free, and in a directory. -/
theorem walk_absent {place directory : Place} {name : Text} {slashed : Bool} {pieces : List Text}
    (h : d.walk place pieces = .ok (.absent directory name slashed)) :
    d.isDirectoryAt directory = true ∧ d.node? (directory ++ [name]) = none := by
  induction pieces generalizing place with
  | nil => cases h
  | cons piece rest ih =>
      rcases walk_cons h with ⟨hdirectory, ⟨-, hrest⟩ | ⟨-, -, hrest⟩ |
        ⟨-, -, -, ⟨-, hrest⟩ | ⟨hnone, -, heq⟩⟩⟩
      · exact ih hrest
      · exact ih hrest
      · exact ih hrest
      · cases heq
        exact ⟨hdirectory, hnone⟩

/-- A name that is not free stands for something that is there. -/
theorem walk_present_of_last {place end' : Place} {pieces : List Text} {last : Text}
    (hidle : Path.isIdle last = false) (hup : last ≠ "..".toList)
    (h : d.walk place (pieces ++ [last]) = .ok (.present end')) :
    (d.node? end').isSome = true := by
  induction pieces generalizing place with
  | nil =>
      rcases (walk_cons h).2 with ⟨hidle', -⟩ | ⟨-, hup', -⟩ |
        ⟨-, -, -, ⟨hsome, hrest⟩ | ⟨-, -, heq⟩⟩
      · rw [hidle] at hidle'
        cases hidle'
      · exact absurd hup' hup
      · cases hrest
        exact hsome
      · cases heq
  | cons piece rest ih =>
      rcases (walk_cons h).2 with ⟨-, hrest⟩ | ⟨-, -, hrest⟩ |
        ⟨-, -, -, ⟨-, hrest⟩ | ⟨-, -, heq⟩⟩
      · exact ih hrest
      · exact ih hrest
      · exact ih hrest
      · cases heq

/-! ## Walks one step at a time -/

theorem walk_idle {place : Place} {piece : Text} (hdirectory : d.isDirectoryAt place = true)
    (hidle : Path.isIdle piece = true) (rest : List Text) :
    d.walk place (piece :: rest) = d.walk place rest := by
  simp [walk, hdirectory, hidle]

theorem walk_up {place : Place} {piece : Text} (hdirectory : d.isDirectoryAt place = true)
    (hidle : Path.isIdle piece = false) (hup : piece = "..".toList) (rest : List Text) :
    d.walk place (piece :: rest) = d.walk place.dropLast rest := by
  rw [walk, if_neg (by simp [hdirectory]), if_neg (by simp [hidle]), if_pos hup]

theorem walk_there {place : Place} {piece : Text} (hdirectory : d.isDirectoryAt place = true)
    (hidle : Path.isIdle piece = false) (hup : piece ≠ "..".toList)
    (hshort : Text.byteSize piece ≤ longestName)
    (hsome : (d.node? (place ++ [piece])).isSome = true) (rest : List Text) :
    d.walk place (piece :: rest) = d.walk (place ++ [piece]) rest := by
  rw [walk, if_neg (by simp [hdirectory]), if_neg (by simp [hidle]), if_neg hup,
    if_neg (Nat.not_lt_of_le hshort), if_pos hsome]

theorem walk_free {place : Place} {piece : Text} (hdirectory : d.isDirectoryAt place = true)
    (hidle : Path.isIdle piece = false) (hup : piece ≠ "..".toList)
    (hshort : Text.byteSize piece ≤ longestName) (hnone : d.node? (place ++ [piece]) = none) :
    d.walk place [piece] = .ok (.absent place piece false) := by
  rw [walk, if_neg (by simp [hdirectory]), if_neg (by simp [hidle]), if_neg hup,
    if_neg (Nat.not_lt_of_le hshort), if_neg (by simp [hnone])]
  rfl

theorem node?_isSome_of_isDirectoryAt {place : Place} {name : Text}
    (h : d.isDirectoryAt (place ++ [name]) = true) : (d.node? (place ++ [name])).isSome = true := by
  rcases node?_of_isDirectoryAt h with hnil | ⟨time, hnode⟩
  · simp at hnil
  · rw [hnode]
    rfl

/-! ## Walks on a disk that has changed -/

/-- A walk leads to a node as long as directories stay directories and the node stays. -/
theorem walk_present_of_stays
    (hstays : ∀ q, d.isDirectoryAt q = true → d'.isDirectoryAt q = true)
    {place end' : Place} {pieces : List Text} (h : d.walk place pieces = .ok (.present end'))
    (hend : (d.node? end').isSome = true → (d'.node? end').isSome = true) :
    d'.walk place pieces = .ok (.present end') := by
  induction pieces generalizing place with
  | nil => exact h
  | cons piece rest ih =>
      rcases walk_cons h with ⟨hdirectory, ⟨hidle, hrest⟩ | ⟨hidle, hup, hrest⟩ |
        ⟨hidle, hup, hshort, ⟨hsome, hrest⟩ | ⟨-, -, heq⟩⟩⟩
      · rw [walk_idle (hstays _ hdirectory) hidle]
        exact ih hrest
      · rw [walk_up (hstays _ hdirectory) hidle hup]
        exact ih hrest
      · -- What a name stands for is the end, or a directory because the walk goes on from there.
        have hthere : (d'.node? (place ++ [piece])).isSome = true := by
          cases rest with
          | nil =>
              cases hrest
              exact hend hsome
          | cons piece' rest' =>
              exact node?_isSome_of_isDirectoryAt (hstays _ (walk_cons hrest).1)
        rw [walk_there (hstays _ hdirectory) hidle hup hshort hthere]
        exact ih hrest
      · cases heq

/-- Once there is something under a name that was free, a walk leads to it. -/
theorem walk_present_of_absent
    (hstays : ∀ q, d.isDirectoryAt q = true → d'.isDirectoryAt q = true)
    {place directory : Place} {name : Text} {pieces : List Text}
    (h : d.walk place pieces = .ok (.absent directory name false))
    (hnow : (d'.node? (directory ++ [name])).isSome = true) :
    d'.walk place pieces = .ok (.present (directory ++ [name])) := by
  induction pieces generalizing place with
  | nil => cases h
  | cons piece rest ih =>
      rcases walk_cons h with ⟨hdirectory, ⟨hidle, hrest⟩ | ⟨hidle, hup, hrest⟩ |
        ⟨hidle, hup, hshort, ⟨hsome, hrest⟩ | ⟨-, -, heq⟩⟩⟩
      · rw [walk_idle (hstays _ hdirectory) hidle]
        exact ih hrest
      · rw [walk_up (hstays _ hdirectory) hidle hup]
        exact ih hrest
      · -- The walk goes on from there, so a directory is meant, and directories stay.
        have hthere : (d'.node? (place ++ [piece])).isSome = true := by
          cases rest with
          | nil => cases hrest
          | cons piece' rest' =>
              exact node?_isSome_of_isDirectoryAt (hstays _ (walk_cons hrest).1)
        rw [walk_there (hstays _ hdirectory) hidle hup hshort hthere]
        exact ih hrest
      · -- Here the name was free; now something is there.
        injection heq with hplace hname hslashed
        cases rest with
        | nil =>
            rw [hplace, hname] at hnow
            rw [walk_there (hstays _ hdirectory) hidle hup hshort hnow, hplace, hname]
            rfl
        | cons piece' rest' => cases hslashed

end Walk

/-! ## Targets -/

section Targets

variable {d d' : Disk} {p : Path}

/-- A path with a target can be followed. -/
theorem target_eq_ok {t : Target} (h : d.target p = .ok t) :
    '\x00' ∉ p ∧ p ≠ [] ∧ Text.byteSize p ≤ longestPath ∧
      d.walk (d.startOf p) (Text.splitAt '/' p) = .ok t := by
  unfold target at h
  split at h
  next => cases h
  next hnull =>
      split at h
      next => cases h
      next hempty =>
          split at h
          next => cases h
          next hlong => exact ⟨hnull, by simpa using hempty, Nat.le_of_not_lt hlong, h⟩

theorem target_of_walk (hnull : '\x00' ∉ p) (hempty : p ≠ [])
    (hlong : Text.byteSize p ≤ longestPath) :
    d.target p = d.walk (d.startOf p) (Text.splitAt '/' p) := by
  rw [target, if_neg hnull, if_neg (by simpa using hempty), if_neg (Nat.not_lt_of_le hlong),
    startOf]

theorem target_place {t : Target} (h : d.target p = .ok t) : t.place = d.place p :=
  walk_place (target_eq_ok h).2.2.2

theorem target_present_of_stays (hhere : d'.here = d.here)
    (hstays : ∀ q, d.isDirectoryAt q = true → d'.isDirectoryAt q = true) {q : Place}
    (h : d.target p = .ok (.present q))
    (hq : (d.node? q).isSome = true → (d'.node? q).isSome = true) :
    d'.target p = .ok (.present q) := by
  rcases target_eq_ok h with ⟨hnull, hempty, hlong, hwalk⟩
  rw [target_of_walk hnull hempty hlong, startOf_of_here hhere]
  exact walk_present_of_stays hstays hwalk hq

theorem target_present_of_absent (hhere : d'.here = d.here)
    (hstays : ∀ q, d.isDirectoryAt q = true → d'.isDirectoryAt q = true) {directory : Place}
    {name : Text} (h : d.target p = .ok (.absent directory name false))
    (hnow : (d'.node? (directory ++ [name])).isSome = true) :
    d'.target p = .ok (.present (directory ++ [name])) := by
  rcases target_eq_ok h with ⟨hnull, hempty, hlong, hwalk⟩
  rw [target_of_walk hnull hempty hlong, startOf_of_here hhere]
  exact walk_present_of_absent hstays hwalk hnow

/-! ## Files -/

/-- The file at a place, if there is one. -/
def file? (d : Disk) (q : Place) : Option (Content × Nat) :=
  match d.node? q with
  | some (.file content time) => some (content, time)
  | _ => none

theorem file?_eq_some_iff {q : Place} {content : Content} {time : Nat} :
    d.file? q = some (content, time) ↔ d.node? q = some (.file content time) := by
  unfold file?
  split
  next content' time' hnode => simp [hnode]
  next hnone =>
      refine ⟨?_, ?_⟩
      · intro h
        cases h
      · intro h
        exact absurd h (hnone content time)

theorem node?_isSome_of_file? {q : Place} {file : Content × Nat} (h : d.file? q = some file) :
    (d.node? q).isSome = true := by
  rw [file?_eq_some_iff.1 h]
  rfl

theorem not_isDirectoryAt_of_file? {q : Place} {file : Content × Nat}
    (h : d.file? q = some file) (hq : q ≠ []) : d.isDirectoryAt q = false := by
  rw [isDirectoryAt, file?_eq_some_iff.1 h]
  simpa using hq

theorem nodeAt_place {p : Path} {q : Place} {node : Node} (h : d.nodeAt p = .ok (q, node)) :
    q = d.place p := by
  unfold nodeAt at h
  split at h
  next => cases h
  next => cases h
  next place htarget =>
      cases h
      exact target_place htarget

/-- A path leads to the file at its place, if it leads to a file. -/
theorem nodeAt_eq_file {q : Place} {content : Content} {time : Nat}
    (h : d.nodeAt p = .ok (q, .file content time)) :
    d.target p = .ok (.present q) ∧ q = d.place p ∧ d.file? q = some (content, time) := by
  unfold nodeAt at h
  split at h
  next => cases h
  next => cases h
  next place htarget =>
      injection h with h
      injection h with hplace hnode
      subst hplace
      refine ⟨htarget, target_place htarget, ?_⟩
      rw [file?_eq_some_iff]
      cases hnode' : d.node? place with
      | none =>
          rw [hnode'] at hnode
          cases hnode
      | some node =>
          rw [hnode'] at hnode
          exact congrArg some hnode

theorem nodeAt_of_target {q : Place} {content : Content} {time : Nat}
    (htarget : d.target p = .ok (.present q)) (hfile : d.file? q = some (content, time)) :
    d.nodeAt p = .ok (q, .file content time) := by
  rw [nodeAt, htarget]
  simp [file?_eq_some_iff.1 hfile]

/-- A path leads to a file as long as directories stay directories and there is a file. -/
theorem nodeAt_of_stays (hhere : d'.here = d.here)
    (hstays : ∀ q, d.isDirectoryAt q = true → d'.isDirectoryAt q = true) {q : Place}
    (htarget : d.target p = .ok (.present q)) {content : Content} {time : Nat}
    (hfile : d'.file? q = some (content, time)) : d'.nodeAt p = .ok (q, .file content time) :=
  nodeAt_of_target
    (target_present_of_stays hhere hstays htarget fun _ => node?_isSome_of_file? hfile) hfile

end Targets
end OnDemand.Disk
