import OnDemand.Proofs.Disk.Places

/-!
# What changes leave alone

A change of a disk touches the files at one or two places, or makes one directory.  All other files
stay as they are, no directory is ever removed, and times stay behind the clock: `Disk.Alters` says
so, of one change and of any number of them.
-/

namespace OnDemand.Disk

/-! ## Nodes -/

section Nodes

variable (d : Disk)

theorem node?_put (q q' : Place) (node : Node) :
    (d.put q node).node? q' = if q' = q then some node else d.node? q' :=
  Table.get?_insert q' q node d.nodes

theorem node?_tick (q : Place) : d.tick.node? q = d.node? q := rfl

theorem node?_touch_cases (directory : Place) (time : Nat) (q : Place) :
    (d.touch directory time).node? q = d.node? q ∨
      (q = directory ∧ (d.touch directory time).node? q = some (.directory time) ∧
        ∃ before, d.node? q = some (.directory before)) := by
  unfold touch
  split
  next before hnode =>
      rw [node?_put]
      split
      next hq => exact .inr ⟨hq, rfl, before, by rw [hq]; exact hnode⟩
      next => exact .inl rfl
  next => exact .inl rfl

theorem node?_erase (q q' : Place) :
    node? { d with nodes := Table.erase q d.nodes } q' = if q' = q then none else d.node? q' :=
  Table.get?_erase q' q d.nodes

@[simp] theorem here_put (q : Place) (node : Node) : (d.put q node).here = d.here := rfl

@[simp] theorem clock_put (q : Place) (node : Node) : (d.put q node).clock = d.clock := rfl

@[simp] theorem here_tick : d.tick.here = d.here := rfl

@[simp] theorem clock_tick : d.tick.clock = d.clock + 1 := rfl

@[simp] theorem here_touch (q : Place) (time : Nat) : (d.touch q time).here = d.here := by
  unfold touch
  split
  · rfl
  · rfl

@[simp] theorem clock_touch (q : Place) (time : Nat) : (d.touch q time).clock = d.clock := by
  unfold touch
  split
  · rfl
  · rfl

@[simp] theorem here_create (q : Place) (name : Text) (node : Node) :
    (d.create q name node).here = d.here := by
  simp [create]

@[simp] theorem clock_create (q : Place) (name : Text) (node : Node) :
    (d.create q name node).clock = d.clock + 1 := by
  simp [create]

@[simp] theorem here_drop (q : Place) : (d.drop q).here = d.here := by
  simp [drop]

@[simp] theorem clock_drop (q : Place) : (d.drop q).clock = d.clock + 1 := by
  simp [drop]

end Nodes

/-! ## Files and directories -/

section Views

variable (d : Disk)

theorem isDirectoryAt_congr {d d' : Disk} {q : Place} (h : d'.node? q = d.node? q) :
    d'.isDirectoryAt q = d.isDirectoryAt q := by
  rw [isDirectoryAt, h, isDirectoryAt]

theorem file?_congr {d d' : Disk} {q : Place} (h : d'.node? q = d.node? q) :
    d'.file? q = d.file? q := by
  rw [file?, h, file?]

theorem file?_touch (directory : Place) (time : Nat) (q : Place) :
    (d.touch directory time).file? q = d.file? q := by
  rcases d.node?_touch_cases directory time q with hsame | ⟨-, hnow, before, hbefore⟩
  · exact file?_congr hsame
  · rw [file?, hnow, file?, hbefore]

theorem isDirectoryAt_touch (directory : Place) (time : Nat) (q : Place) :
    (d.touch directory time).isDirectoryAt q = d.isDirectoryAt q := by
  rcases d.node?_touch_cases directory time q with hsame | ⟨-, hnow, before, hbefore⟩
  · exact isDirectoryAt_congr hsame
  · rw [isDirectoryAt, hnow, isDirectoryAt, hbefore]

theorem file?_put_file (q q' : Place) (content : Content) (time : Nat) :
    (d.put q (.file content time)).file? q' =
      if q' = q then some (content, time) else d.file? q' := by
  unfold file?
  rw [node?_put]
  by_cases h : q' = q
  · simp [h]
  · simp [h]

theorem file?_put_directory (q q' : Place) (time : Nat) :
    (d.put q (.directory time)).file? q' = if q' = q then none else d.file? q' := by
  unfold file?
  rw [node?_put]
  by_cases h : q' = q
  · simp [h]
  · simp [h]

theorem isDirectoryAt_put_of_ne {q q' : Place} (h : q' ≠ q) (node : Node) :
    (d.put q node).isDirectoryAt q' = d.isDirectoryAt q' := by
  refine isDirectoryAt_congr ?_
  rw [node?_put, if_neg h]

/-- A file may be put where there is no directory. -/
theorem isDirectoryAt_put_file {q : Place} (h : q = [] ∨ d.isDirectoryAt q = false) (q' : Place)
    (content : Content) (time : Nat) :
    (d.put q (.file content time)).isDirectoryAt q' = d.isDirectoryAt q' := by
  by_cases hq : q' = q
  · subst hq
    rcases h with rfl | hno
    · rfl
    · rw [hno, isDirectoryAt, node?_put, if_pos rfl]
      rw [isDirectoryAt, Bool.or_eq_false_iff] at hno
      simp [hno.1]
  · exact d.isDirectoryAt_put_of_ne hq _

theorem isDirectoryAt_put_directory (q q' : Place) (time : Nat) :
    (d.put q (.directory time)).isDirectoryAt q' = (decide (q' = q) || d.isDirectoryAt q') := by
  by_cases hq : q' = q
  · subst hq
    rw [isDirectoryAt, node?_put, if_pos rfl]
    simp
  · rw [d.isDirectoryAt_put_of_ne hq]
    simp [hq]

theorem file?_create_file (directory : Place) (name : Text) (content : Content) (time : Nat)
    (q : Place) : (d.create directory name (.file content time)).file? q =
      if q = directory ++ [name] then some (content, time) else d.file? q := by
  have hcreate : (d.create directory name (.file content time)).file? q =
      ((d.put (directory ++ [name]) (.file content time)).touch directory d.clock).file? q :=
    file?_congr (node?_tick _ q)
  rw [hcreate, file?_touch, file?_put_file]

theorem isDirectoryAt_create (directory : Place) (name : Text) (node : Node) (q : Place) :
    (d.create directory name node).isDirectoryAt q =
      (d.put (directory ++ [name]) node).isDirectoryAt q := by
  have hcreate : (d.create directory name node).isDirectoryAt q =
      ((d.put (directory ++ [name]) node).touch directory d.clock).isDirectoryAt q :=
    isDirectoryAt_congr (node?_tick _ q)
  rw [hcreate, isDirectoryAt_touch]

theorem file?_drop (q q' : Place) :
    (d.drop q).file? q' = if q' = q then none else d.file? q' := by
  have hdrop : (d.drop q).file? q' = file? { d with nodes := Table.erase q d.nodes } q' :=
    (file?_congr (node?_tick _ q')).trans (file?_touch _ _ _ _)
  rw [hdrop, file?, node?_erase, file?]
  by_cases h : q' = q
  · simp [h]
  · simp [h]

/-- Where a file was dropped there was no directory. -/
theorem isDirectoryAt_drop {q : Place} {file : Content × Nat} (h : d.file? q = some file)
    (q' : Place) : (d.drop q).isDirectoryAt q' = d.isDirectoryAt q' := by
  have hdrop : (d.drop q).isDirectoryAt q' =
      isDirectoryAt { d with nodes := Table.erase q d.nodes } q' :=
    (isDirectoryAt_congr (node?_tick _ q')).trans (isDirectoryAt_touch _ _ _ _)
  rw [hdrop]
  by_cases hq : q' = q
  · subst hq
    cases q' with
    | nil => rfl
    | cons name names =>
        rw [not_isDirectoryAt_of_file? h (by simp), isDirectoryAt, node?_erase, if_pos rfl]
        rfl
  · refine isDirectoryAt_congr ?_
    rw [node?_erase, if_neg hq]

end Views

/-! ## Times -/

/-- Nothing on the disk was changed at the time or later. -/
def Before (d : Disk) (time : Nat) : Prop := ∀ q node, d.node? q = some node → node.time < time

/-- All times are behind the clock. -/
def Timely (d : Disk) : Prop := d.Before d.clock

section Times

variable {d : Disk} {time : Nat}

theorem Before.mono (h : d.Before time) {time' : Nat} (hle : time ≤ time') : d.Before time' :=
  fun q node hnode => Nat.lt_of_lt_of_le (h q node hnode) hle

theorem Before.put (h : d.Before time) (q : Place) {node : Node} (hnode : node.time < time) :
    (d.put q node).Before time := by
  intro q' node' hnode'
  rw [node?_put] at hnode'
  split at hnode'
  next =>
      cases hnode'
      exact hnode
  next => exact h q' node' hnode'

theorem Before.touch (h : d.Before time) (q : Place) {now : Nat} (hnow : now < time) :
    (d.touch q now).Before time := by
  unfold Disk.touch
  split
  · exact h.put q hnow
  · exact h

theorem Before.create (h : d.Before time) (directory : Place) (name : Text) {node : Node}
    (hnode : node.time < time) (hclock : d.clock < time) :
    (d.create directory name node).Before time :=
  (h.put _ hnode).touch directory hclock

theorem Before.drop (h : d.Before time) (q : Place) (hclock : d.clock < time) :
    (d.drop q).Before time := by
  refine Before.touch (d := { d with nodes := Table.erase q d.nodes }) ?_ _ hclock
  intro q' node hnode
  rw [node?_erase] at hnode
  split at hnode
  next => cases hnode
  next => exact h q' node hnode

theorem Timely.before_next (h : d.Timely) : d.Before (d.clock + 1) := h.mono (Nat.le_succ _)

theorem Timely.of_file? (h : d.Timely) {q : Place} {content : Content} {time : Nat}
    (hfile : d.file? q = some (content, time)) : time < d.clock :=
  h q _ (file?_eq_some_iff.1 hfile)

end Times

/-! ## Alterations -/

/-- A change that touches files at certain places only, and makes directories at certain places. -/
structure Alters (files directories : Place → Prop) (d d' : Disk) : Prop where
  here : d'.here = d.here
  clock : d.clock ≤ d'.clock
  timely : d.Timely → d'.Timely
  file : ∀ q, ¬files q → d'.file? q = d.file? q
  stays : ∀ q, d.isDirectoryAt q = true → d'.isDirectoryAt q = true
  made : ∀ q, d'.isDirectoryAt q = true → d.isDirectoryAt q = true ∨ directories q

/-- No place. -/
def Nowhere : Place → Prop := fun _ => False

namespace Alters

variable {files files' directories directories' : Place → Prop} {d d' d'' : Disk}

theorem refl (files directories : Place → Prop) (d : Disk) : Alters files directories d d where
  here := rfl
  clock := Nat.le_refl _
  timely := id
  file := fun _ _ => rfl
  stays := fun _ h => h
  made := fun _ h => .inl h

theorem trans (h : Alters files directories d d') (h' : Alters files directories d' d'') :
    Alters files directories d d'' where
  here := h'.here.trans h.here
  clock := Nat.le_trans h.clock h'.clock
  timely := fun hd => h'.timely (h.timely hd)
  file := fun q hq => (h'.file q hq).trans (h.file q hq)
  stays := fun q hq => h'.stays q (h.stays q hq)
  made := by
    intro q hq
    rcases h'.made q hq with hbefore | hmade
    · exact h.made q hbefore
    · exact .inr hmade

theorem mono (h : Alters files directories d d') (hfiles : ∀ q, files q → files' q)
    (hdirectories : ∀ q, directories q → directories' q) : Alters files' directories' d d' where
  here := h.here
  clock := h.clock
  timely := h.timely
  file := fun q hq => h.file q fun hfile => hq (hfiles q hfile)
  stays := h.stays
  made := fun q hq => (h.made q hq).imp_right (hdirectories q)

/-- A change that makes no directories. -/
theorem of_nowhere (h : Alters files Nowhere d d') : Alters files directories d d' :=
  h.mono (fun _ => id) fun _ => False.elim

theorem place_eq (h : Alters files directories d d') (p : Path) : d'.place p = d.place p :=
  place_of_here h.here p

/-- A path that leads to a file leads there still, if the file is not touched. -/
theorem nodeAt_eq (h : Alters files directories d d') {p : Path} {q : Place} {content : Content}
    {time : Nat} (hfile : d.nodeAt p = .ok (q, .file content time)) (hq : ¬files q) :
    d'.nodeAt p = .ok (q, .file content time) := by
  rcases nodeAt_eq_file hfile with ⟨htarget, -, hthere⟩
  exact nodeAt_of_stays h.here h.stays htarget ((h.file q hq).trans hthere)

end Alters

/-! ## Changes -/

section Changes

variable {d d' : Disk} {p q : Path}

/-- Puts a file at a place where there is no directory, and moves the clock on. -/
theorem alters_put_tick (d : Disk) {q : Place} (h : q = [] ∨ d.isDirectoryAt q = false)
    (content : Content) :
    Alters (· = q) Nowhere d (d.put q (.file content d.clock)).tick where
  here := rfl
  clock := Nat.le_succ _
  timely := fun hd => hd.before_next.put q (Nat.lt_succ_self _)
  file := by
    intro q' hq'
    rw [file?_congr (node?_tick _ q'), file?_put_file, if_neg hq']
  stays := by
    intro q' hq'
    rw [isDirectoryAt_congr (node?_tick _ q'), d.isDirectoryAt_put_file h]
    exact hq'
  made := by
    intro q' hq'
    rw [isDirectoryAt_congr (node?_tick _ q'), d.isDirectoryAt_put_file h] at hq'
    exact .inl hq'

theorem not_isDirectoryAt_of_node? {q : Place} (h : d.node? q = none) (hq : q ≠ []) :
    d.isDirectoryAt q = false := by
  rw [isDirectoryAt, h]
  simpa using hq

theorem alters_create_file (d : Disk) {directory : Place} {name : Text}
    (hnone : d.node? (directory ++ [name]) = none) {content : Content} {time : Nat}
    (htime : time ≤ d.clock) :
    Alters (· = directory ++ [name]) Nowhere d (d.create directory name (.file content time)) where
  here := here_create d _ _ _
  clock := by
    rw [clock_create]
    exact Nat.le_succ _
  timely := by
    intro hd
    rw [Timely, clock_create]
    exact hd.before_next.create _ _ (Nat.lt_succ_of_le htime) (Nat.lt_succ_self _)
  file := by
    intro q hq
    rw [file?_create_file, if_neg hq]
  stays := by
    intro q hq
    rw [isDirectoryAt_create,
      d.isDirectoryAt_put_file (.inr (not_isDirectoryAt_of_node? hnone (by simp)))]
    exact hq
  made := by
    intro q hq
    rw [isDirectoryAt_create,
      d.isDirectoryAt_put_file (.inr (not_isDirectoryAt_of_node? hnone (by simp)))] at hq
    exact .inl hq

theorem alters_revise (d : Disk) (p : Path) (f : Option Content → Content) :
    Alters (· = d.place p) Nowhere d (d.revise p f).1 := by
  unfold revise
  split
  next => exact Alters.refl _ _ d
  next => exact Alters.refl _ _ d
  next directory name htarget =>
      have hplace : directory ++ [name] = d.place p := target_place htarget
      rw [← hplace]
      exact alters_create_file d (walk_absent (target_eq_ok htarget).2.2.2).2 (Nat.le_refl _)
  next q htarget =>
      have hplace : q = d.place p := target_place htarget
      subst hplace
      split
      next content time hnode =>
          refine alters_put_tick d ?_ _
          by_cases hq : d.place p = []
          · exact .inl hq
          · exact .inr (not_isDirectoryAt_of_file? (file?_eq_some_iff.2 hnode) hq)
      next => exact Alters.refl _ _ d

theorem alters_write (d : Disk) (p : Path) (content : Content) :
    Alters (· = d.place p) Nowhere d (d.write p content).1 :=
  alters_revise d p _

theorem alters_append (d : Disk) (p : Path) (t : Text) :
    Alters (· = d.place p) Nowhere d (d.append p t).1 :=
  alters_revise d p _

/-- Where nothing can be written, nothing changes. -/
theorem write_error {content : Content} {fault : Fault}
    (h : d.write p content = (d', .error fault)) : d' = d := by
  unfold write revise at h
  split at h
  next => exact (congrArg Prod.fst h).symm
  next => exact (congrArg Prod.fst h).symm
  next => cases h
  next =>
      split at h
      next => cases h
      next => exact (congrArg Prod.fst h).symm

/-- What is written is there, with the time of the clock. -/
theorem file?_of_write {content : Content} (h : d.write p content = (d', .ok ())) :
    d'.file? (d.place p) = some (content, d.clock) := by
  unfold write revise at h
  split at h
  next => cases h
  next => cases h
  next directory name htarget =>
      have hplace : directory ++ [name] = d.place p := target_place htarget
      cases h
      rw [← hplace, file?_create_file, if_pos rfl]
  next q htarget =>
      have hplace : q = d.place p := target_place htarget
      split at h
      next =>
          cases h
          rw [hplace, file?_congr (node?_tick _ _), file?_put_file, if_pos rfl]
      next => cases h

/-- What has been written is where the path leads. -/
theorem nodeAt_of_write {content : Content} (h : d.write p content = (d', .ok ())) :
    d'.nodeAt p = .ok (d.place p, .file content d.clock) := by
  have halters := alters_write d p content
  have hthere := file?_of_write h
  rw [h] at halters
  unfold write revise at h
  split at h
  next => cases h
  next => cases h
  next directory name htarget =>
      have hplace : directory ++ [name] = d.place p := target_place htarget
      rw [← hplace] at hthere ⊢
      exact nodeAt_of_target (target_present_of_absent halters.here halters.stays htarget
        (node?_isSome_of_file? hthere)) hthere
  next q htarget =>
      have hplace : q = d.place p := target_place htarget
      rw [← hplace] at hthere ⊢
      exact nodeAt_of_stays halters.here halters.stays htarget hthere

theorem alters_drop (d : Disk) {q : Place} {file : Content × Nat} (hfile : d.file? q = some file) :
    Alters (· = q) Nowhere d (d.drop q) where
  here := here_drop d q
  clock := by
    rw [clock_drop]
    exact Nat.le_succ _
  timely := by
    intro hd
    rw [Timely, clock_drop]
    exact hd.before_next.drop q (Nat.lt_succ_self _)
  file := by
    intro q' hq'
    rw [file?_drop, if_neg hq']
  stays := by
    intro q' hq'
    rw [d.isDirectoryAt_drop hfile]
    exact hq'
  made := by
    intro q' hq'
    rw [d.isDirectoryAt_drop hfile] at hq'
    exact .inl hq'

theorem alters_remove (d : Disk) (p : Path) :
    Alters (· = d.place p) Nowhere d (d.remove p).1 := by
  unfold remove
  split
  next => exact Alters.refl _ _ d
  next => exact Alters.refl _ _ d
  next q content time hnode =>
      rcases nodeAt_eq_file hnode with ⟨-, rfl, hfile⟩
      exact alters_drop d hfile

/-- Where nothing can be removed, nothing changes. -/
theorem remove_error {fault : Fault} (h : d.remove p = (d', .error fault)) : d' = d := by
  unfold remove at h
  split at h
  next => exact (congrArg Prod.fst h).symm
  next => exact (congrArg Prod.fst h).symm
  next => cases h

/-- A file that has been removed is gone. -/
theorem file?_of_remove (h : d.remove p = (d', .ok ())) : d'.file? (d.place p) = none := by
  unfold remove at h
  split at h
  next => cases h
  next => cases h
  next q content time hnode =>
      obtain ⟨-, rfl, -⟩ := nodeAt_eq_file hnode
      cases h
      rw [file?_drop, if_pos rfl]

/-! ## Moving files -/

/-- The places that a move has to do with. -/
def Between (q q' : Place) : Place → Prop := fun r => r = q ∨ r = q'

/-- What a file can be moved over is free, and not followed by slashes, or no directory. -/
theorem obstacle?_eq_none {t : Target} (h : d.obstacle? q t = none) :
    (∃ directory name, t = .absent directory name false) ∨
      ∃ other, t = .present other ∧ d.isDirectoryAt other = false := by
  unfold obstacle? at h
  split at h
  next directory name slashed =>
      cases slashed with
      | false => exact .inl ⟨directory, name, rfl⟩
      | true => cases h
  next other =>
      split at h
      next => cases h
      next =>
          split at h
          next => cases h
          next =>
              split at h
              next => cases h
              next hdirectory => exact .inr ⟨other, rfl, by simpa using hdirectory⟩

/-- A file that is moved to a free name. -/
theorem alters_move_absent {r directory : Place} {name : Text} {content : Content} {time : Nat}
    (hfile : d.file? r = some (content, time)) (hnone : d.node? (directory ++ [name]) = none) :
    Alters (Between r (directory ++ [name])) Nowhere d
      (d.move r content time (.absent directory name false)) := by
  -- Taking the file away does not put anything under the free name.
  have hnone' : (d.drop r).node? (directory ++ [name]) = none := by
    rcases node?_touch_cases { d with nodes := Table.erase r d.nodes } r.dropLast d.clock
      (directory ++ [name]) with hsame | ⟨-, -, before, hbefore⟩
    · refine hsame.trans ?_
      rw [node?_erase, hnone]
      split <;> rfl
    · rw [node?_erase, hnone] at hbefore
      split at hbefore <;> cases hbefore
  have hdrop := alters_drop d hfile
  refine ⟨?_, ?_, ?_, ?_, ?_, ?_⟩
  · exact (here_create _ _ _ _).trans hdrop.here
  · have hclock : (d.move r content time (.absent directory name false)).clock =
        (d.drop r).clock + 1 := clock_create _ _ _ _
    rw [hclock]
    exact Nat.le_trans hdrop.clock (Nat.le_succ _)
  · -- The file keeps its time, which is a past one.
    intro hd
    have htime := hd.of_file? hfile
    rw [Timely, move, clock_create]
    refine ((hdrop.timely hd).before_next).create _ _ ?_ (Nat.lt_succ_self _)
    exact Nat.lt_of_lt_of_le htime (Nat.le_trans hdrop.clock (Nat.le_succ _))
  · intro q' hq'
    rw [move, file?_create_file, if_neg fun h => hq' (.inr h), file?_drop,
      if_neg fun h => hq' (.inl h)]
  · intro q' hq'
    rw [move, isDirectoryAt_create,
      isDirectoryAt_put_file _ (.inr (not_isDirectoryAt_of_node? hnone' (by simp)))]
    exact hdrop.stays q' hq'
  · intro q' hq'
    rw [move, isDirectoryAt_create,
      isDirectoryAt_put_file _ (.inr (not_isDirectoryAt_of_node? hnone' (by simp)))] at hq'
    exact hdrop.made q' hq'

theorem move_present_self (d : Disk) (r : Place) (content : Content) (time : Nat) :
    d.move r content time (.present r) = d :=
  if_pos rfl

theorem move_present {r other : Place} (hne : r ≠ other) (content : Content) (time : Nat) :
    d.move r content time (.present other) =
      ((d.drop r).put other (.file content time)).touch other.dropLast d.clock :=
  if_neg hne

/-- A file that is moved over what is no directory. -/
theorem alters_move_present {r other : Place} {content : Content} {time : Nat}
    (hfile : d.file? r = some (content, time)) (hother : d.isDirectoryAt other = false) :
    Alters (Between r other) Nowhere d (d.move r content time (.present other)) := by
  by_cases hne : r = other
  · -- A file that is moved to where it is stays as it is.
    subst hne
    rw [move_present_self]
    exact Alters.refl _ _ d
  · rw [move_present hne]
    have hdrop := alters_drop d hfile
    have hother' : other = [] ∨ (d.drop r).isDirectoryAt other = false :=
      .inr ((d.isDirectoryAt_drop hfile other).trans hother)
    refine ⟨?_, ?_, ?_, ?_, ?_, ?_⟩
    · rw [here_touch, here_put]
      exact hdrop.here
    · rw [clock_touch, clock_put]
      exact hdrop.clock
    · intro hd
      -- The file keeps its time, which is a past one.
      have htime := hd.of_file? hfile
      have hput : ((d.drop r).put other (.file content time)).Before (d.drop r).clock :=
        Before.put (hdrop.timely hd) other (Nat.lt_of_lt_of_le htime hdrop.clock)
      rw [Timely, clock_touch, clock_put]
      refine hput.touch _ ?_
      rw [clock_drop]
      exact Nat.lt_succ_self _
    · intro q' hq'
      rw [file?_touch, file?_put_file, if_neg fun h => hq' (.inr h), file?_drop,
        if_neg fun h => hq' (.inl h)]
    · intro q' hq'
      rw [isDirectoryAt_touch, isDirectoryAt_put_file _ hother']
      exact hdrop.stays q' hq'
    · intro q' hq'
      rw [isDirectoryAt_touch, isDirectoryAt_put_file _ hother'] at hq'
      exact hdrop.made q' hq'

theorem file?_move {r : Place} {t : Target} {content : Content} {time : Nat}
    (hfile : d.file? r = some (content, time)) :
    (d.move r content time t).file? t.place = some (content, time) := by
  cases t with
  | absent directory name slashed => rw [move, Target.place, file?_create_file, if_pos rfl]
  | present other =>
      rw [Target.place]
      by_cases hne : r = other
      · subst hne
        rw [move_present_self]
        exact hfile
      · rw [move_present hne, file?_touch, file?_put_file, if_pos rfl]

theorem alters_rename (d : Disk) (p q : Path) :
    Alters (Between (d.place p) (d.place q)) Nowhere d (d.rename p q).1 := by
  unfold rename
  split
  next => exact Alters.refl _ _ d
  next => exact Alters.refl _ _ d
  next => exact Alters.refl _ _ d
  next r content time t hnode htarget =>
      rcases nodeAt_eq_file hnode with ⟨-, rfl, hfile⟩
      split
      next => exact Alters.refl _ _ d
      next hobstacle =>
          rw [← target_place htarget]
          rcases obstacle?_eq_none hobstacle with ⟨directory, name, rfl⟩ | ⟨other, rfl, hother⟩
          · exact alters_move_absent hfile (walk_absent (target_eq_ok htarget).2.2.2).2
          · exact alters_move_present hfile hother

/-- Where nothing can be moved, nothing changes. -/
theorem rename_error {fault : Fault} (h : d.rename p q = (d', .error fault)) : d' = d := by
  unfold rename at h
  split at h
  next => exact (congrArg Prod.fst h).symm
  next => exact (congrArg Prod.fst h).symm
  next => exact (congrArg Prod.fst h).symm
  next =>
      split at h
      next => exact (congrArg Prod.fst h).symm
      next => cases h

/-- A file that has been moved is where the other path leads. -/
theorem nodeAt_of_rename (h : d.rename p q = (d', .ok ())) {r : Place} {content : Content}
    {time : Nat} (hnode : d.nodeAt p = .ok (r, .file content time)) :
    d'.nodeAt q = .ok (d.place q, .file content time) := by
  have halters := alters_rename d p q
  rw [h] at halters
  unfold rename at h
  rw [hnode] at h
  rcases nodeAt_eq_file hnode with ⟨-, rfl, hfile⟩
  split at h
  next => cases h
  next => cases h
  next => cases h
  next r content' time' t hnode' htarget =>
      cases hnode'
      split at h
      next => cases h
      next hobstacle =>
          have hmove : d.move (d.place p) content time t = d' := congrArg Prod.fst h
          have hthere : d'.file? t.place = some (content, time) := by
            rw [← hmove]
            exact file?_move hfile
          rw [← target_place htarget]
          refine nodeAt_of_target ?_ hthere
          -- The name was free, or it was that of a file; either way it leads to the file now.
          rcases obstacle?_eq_none hobstacle with ⟨directory, name, rfl⟩ | ⟨other, rfl, -⟩
          · exact target_present_of_absent halters.here halters.stays htarget
              (node?_isSome_of_file? hthere)
          · exact target_present_of_stays halters.here halters.stays htarget
              fun _ => node?_isSome_of_file? hthere

/-- A file that has been moved to another place is gone from its own. -/
theorem file?_of_rename (h : d.rename p q = (d', .ok ())) (hne : d.place p ≠ d.place q) :
    d'.file? (d.place p) = none := by
  unfold rename at h
  split at h
  next => cases h
  next => cases h
  next => cases h
  next r content time t hnode htarget =>
      obtain ⟨-, rfl, -⟩ := nodeAt_eq_file hnode
      split at h
      next => cases h
      next =>
          have hmove : d.move (d.place p) content time t = d' := congrArg Prod.fst h
          rw [← target_place htarget] at hne
          rw [← hmove]
          cases t with
          | absent directory name slashed =>
              rw [Target.place] at hne
              rw [move, file?_create_file, if_neg hne, file?_drop, if_pos rfl]
          | present other =>
              rw [Target.place] at hne
              rw [move_present hne, file?_touch, file?_put_file, if_neg hne, file?_drop, if_pos rfl]

/-! ## Making directories -/

theorem alters_makeDirectory (d : Disk) (p : Path) :
    Alters Nowhere (· = d.place p) d (d.makeDirectory p).1 := by
  unfold makeDirectory
  split
  next => exact Alters.refl _ _ d
  next => exact Alters.refl _ _ d
  next directory name slashed htarget =>
      have hplace : directory ++ [name] = d.place p := target_place htarget
      have hnone := (walk_absent (target_eq_ok htarget).2.2.2).2
      refine ⟨by simp, by simp, ?_, ?_, ?_, ?_⟩
      · intro hd
        rw [Timely, clock_create]
        exact hd.before_next.create _ _ (Nat.lt_succ_self _) (Nat.lt_succ_self _)
      · intro q hq
        -- A new directory hides no file, since nothing was there.
        have hcreate : (d.create directory name (.directory d.clock)).file? q =
            (d.put (directory ++ [name]) (.directory d.clock)).file? q :=
          (file?_congr (node?_tick _ q)).trans (file?_touch _ _ _ _)
        rw [hcreate, file?_put_directory]
        split
        next heq =>
            rw [file?, heq, hnone]
        next => rfl
      · intro q hq
        rw [isDirectoryAt_create, isDirectoryAt_put_directory, hq, Bool.or_true]
      · intro q hq
        rw [isDirectoryAt_create, isDirectoryAt_put_directory, Bool.or_eq_true,
          decide_eq_true_iff] at hq
        rcases hq with rfl | hbefore
        · exact .inr hplace
        · exact .inl hbefore

theorem alters_ensureDirectory (d : Disk) (p : Path) :
    Alters Nowhere (· = d.place p) d (d.ensureDirectory p).1 := by
  have halters := d.alters_makeDirectory p
  unfold ensureDirectory
  cases hmake : d.makeDirectory p with
  | mk d' result =>
      rw [hmake] at halters
      cases result with
      | ok done => exact halters
      | error fault => exact halters

/-- Directories are made at the places of these paths only, and no file is touched. -/
theorem alters_makeUpwards (d : Disk) (paths : List Path) :
    Alters Nowhere (fun q => ∃ p ∈ paths, q = d.place p) d (d.makeUpwards paths).1 := by
  induction paths generalizing d with
  | nil => exact Alters.refl _ _ d
  | cons p outer ih =>
      have hmade := (d.alters_makeDirectory p).mono (fun _ => id)
        fun q hq => (⟨p, List.mem_cons_self, hq⟩ : ∃ p' ∈ p :: outer, q = d.place p')
      cases hmake : d.makeDirectory p with
      | mk d₁ result =>
          rw [hmake] at hmade
          -- Only where a directory further out is missing are there more changes.
          by_cases hresult : result = .error .notFound
          · subst hresult
            have hup : Alters Nowhere (fun q => ∃ p' ∈ p :: outer, q = d.place p') d₁
                (d₁.makeUpwards outer).1 := by
              refine (ih d₁).mono (fun _ => id) ?_
              rintro q ⟨p', hp', rfl⟩
              exact ⟨p', List.mem_cons_of_mem p hp', hmade.place_eq p'⟩
            cases houter : d₁.makeUpwards outer with
            | mk d₂ result =>
                rw [houter] at hup
                cases result with
                | error fault =>
                    simp only [makeUpwards, hmake, houter]
                    exact hmade.trans hup
                | ok done =>
                    simp only [makeUpwards, hmake, houter]
                    refine hmade.trans (hup.trans ((d₂.alters_ensureDirectory p).mono
                      (fun _ => id) ?_))
                    rintro q rfl
                    exact ⟨p, List.mem_cons_self, (hmade.trans hup).place_eq p⟩
          · have hsame : (d.makeUpwards (p :: outer)).1 = d₁ := by
              simp only [makeUpwards, hmake]
              split
              next heq => exact (congrArg Prod.fst heq).symm
              next heq => exact absurd (congrArg Prod.snd heq) hresult
              next heq => exact (congrArg Prod.fst heq).symm
            rw [hsame]
            exact hmade

end Changes
/-! ## Files at the end of paths -/

section Has

variable {d d' : Disk} {p : Path} {content : Content} {time : Nat}

/-- Whether the path leads to a file with this content, written at this time. -/
def Has (d : Disk) (p : Path) (content : Content) (time : Nat) : Prop :=
  d.nodeAt p = .ok (d.place p, .file content time)

theorem has_of_nodeAt {q : Place} (h : d.nodeAt p = .ok (q, .file content time)) :
    d.Has p content time := by
  obtain ⟨-, rfl, -⟩ := nodeAt_eq_file h
  exact h

theorem Has.file? (h : d.Has p content time) : d.file? (d.place p) = some (content, time) :=
  (nodeAt_eq_file h).2.2

theorem Has.time? (h : d.Has p content time) : d.time? p = some time := by
  rw [Disk.time?, h]
  rfl

theorem read_eq_ok_iff {t : Text} : d.read p = .ok t ↔ ∃ time, d.Has p (.text t) time := by
  constructor
  · intro h
    rw [read] at h
    split at h
    next => cases h
    next => cases h
    next q t' time hnode =>
        cases h
        exact ⟨time, has_of_nodeAt hnode⟩
    next => cases h
  · rintro ⟨time, h⟩
    rw [read, h]

theorem holds_iff {t : Text} : d.holds p t = true ↔ d.read p = .ok t := by
  rw [holds]
  cases d.read p with
  | error fault => simp
  | ok t' => simp

theorem Has.alters {files directories : Place → Prop} (h : d.Has p content time)
    (halters : Alters files directories d d') (hp : ¬files (d.place p)) : d'.Has p content time :=
  has_of_nodeAt (halters.nodeAt_eq h hp)

theorem remove_of_has (h : d.Has p content time) : (d.remove p).2 = .ok () := by
  rw [remove, h]

theorem Has.of_same (h : d.Has p content time) (hhere : d'.here = d.here)
    (hstays : ∀ q, d.isDirectoryAt q = true → d'.isDirectoryAt q = true)
    (hfile : d'.file? (d.place p) = d.file? (d.place p)) : d'.Has p content time :=
  has_of_nodeAt (nodeAt_of_stays hhere hstays (nodeAt_eq_file h).1 (hfile.trans h.file?))

end Has

end OnDemand.Disk
