import Mathlib.Data.List.Forall2
import OnDemand.Source.Rendering

/-!
# What marks add to a sheet

Marks that refuse nothing add a text to the body of a sheet.  Which text it is depends on two things
alone, the level of the sheet and whether a line starts there: its stand.  `Lays p marks t q` says
that the marks add `t` to every sheet at the stand `p` and leave it at `q`, so what a list of marks
adds is put together from what its pieces add.  Imports are looked at by themselves.
-/

namespace OnDemand

/-! ## Stands -/

/-- Where on a sheet the next character goes. -/
structure Stand where
  /-- How many tabs a line starts with. -/
  level : Nat
  /-- Whether the next character starts a line. -/
  fresh : Bool

namespace Stand

/-- Where a line starts. -/
def start (k : Nat) : Stand := ⟨k, true⟩

/-- Within a line. -/
def within (k : Nat) : Stand := ⟨k, false⟩

/-- The tabs that go before the next character. -/
def lead (p : Stand) : Text := if p.fresh then List.replicate p.level '\t' else []

@[simp] theorem lead_start (k : Nat) : (start k).lead = List.replicate k '\t' := rfl

@[simp] theorem lead_within (k : Nat) : (within k).lead = [] := rfl

@[simp] theorem level_start (k : Nat) : (start k).level = k := rfl

@[simp] theorem level_within (k : Nat) : (within k).level = k := rfl

end Stand

namespace Sheet

/-- Where the next character goes. -/
def stand (s : Sheet) : Stand := ⟨s.level, s.fresh⟩

/-! ## Writing -/

theorem write_append (s : Sheet) (ms ms' : List Mark) :
    s.write (ms ++ ms') =
      match s.write ms with
      | (s', none) => s'.write ms'
      | (s', some what) => (s', some what) := by
  induction ms generalizing s with
  | nil => rfl
  | cons m ms ih =>
      rw [List.cons_append, write, write]
      cases s.follow m with
      | ok s' => exact ih s'
      | error what => rfl

theorem put_of_ne {c : Char} (h : c ≠ '\n') (s : Sheet) :
    s.put c = { s with reversed := c :: s.stand.lead.reverse ++ s.reversed, fresh := false } := by
  rw [put, if_neg h]
  cases hfresh : s.fresh <;> simp [stand, Stand.lead, hfresh]

/-- A text on one line is written behind the tabs of the line. -/
theorem emit_of_not_mem {t : Text} (hne : t ≠ []) (h : '\n' ∉ t) (s : Sheet) :
    s.emit t =
      { s with reversed := t.reverse ++ s.stand.lead.reverse ++ s.reversed, fresh := false } := by
  induction t generalizing s with
  | nil => exact absurd rfl hne
  | cons c t ih =>
      rw [List.mem_cons, not_or] at h
      have hput := put_of_ne (Ne.symm h.1) s
      cases t with
      | nil =>
          rw [emit, List.foldl_cons, List.foldl_nil, hput]
          rfl
      | cons d t =>
          have hrest := ih (List.cons_ne_nil d t) h.2 (s.put c)
          have hemit : s.emit (c :: d :: t) = (s.put c).emit (d :: t) := rfl
          rw [hemit, hrest, hput]
          simp [stand, Stand.lead]

/-! ## Imports -/

theorem mem_mention {x y : Text} {xs : List Text} : y ∈ mention x xs ↔ y ∈ xs ∨ y = x := by
  unfold mention
  split
  · rename_i h
    constructor
    · exact .inl
    · rintro (hy | rfl)
      · exact hy
      · exact h
  · simp

/-- Writing changes the body, and whether a line starts, and nothing else. -/
theorem exists_emit (s : Sheet) (t : Text) :
    ∃ reversed fresh, s.emit t = { s with reversed, fresh } := by
  induction t generalizing s with
  | nil => exact ⟨s.reversed, s.fresh, rfl⟩
  | cons c t ih =>
      have hput : ∃ reversed fresh, s.put c = { s with reversed, fresh } := by
        unfold put newline
        split
        · exact ⟨_, _, rfl⟩
        · split <;> exact ⟨_, _, rfl⟩
      obtain ⟨reversed, fresh, hput⟩ := hput
      obtain ⟨reversed', fresh', hemit⟩ := ih (s.put c)
      refine ⟨reversed', fresh', ?_⟩
      have hcons : s.emit (c :: t) = (s.put c).emit t := rfl
      rw [hcons, hemit, hput]

theorem level_emit (s : Sheet) (t : Text) : (s.emit t).level = s.level := by
  obtain ⟨reversed, fresh, hemit⟩ := s.exists_emit t
  rw [hemit]

theorem uses_emit (s : Sheet) (t : Text) :
    (s.emit t).uses = s.uses ∧ (s.emit t).lateUses = s.lateUses := by
  obtain ⟨reversed, fresh, hemit⟩ := s.exists_emit t
  rw [hemit]
  exact ⟨rfl, rfl⟩

theorem linkArgs_emit (s : Sheet) (t : Text) : (s.emit t).linkArgs = s.linkArgs := by
  obtain ⟨reversed, fresh, hemit⟩ := s.exists_emit t
  rw [hemit]

/-- What one mark asks to import is imported, and nothing else. -/
theorem mem_uses_of_follow {s s' : Sheet} {m : Mark} (h : s.follow m = .ok s') (x : Text) :
    (x ∈ s'.uses ↔ x ∈ s.uses ∨ m = .use x) ∧
      (x ∈ s'.lateUses ↔ x ∈ s.lateUses ∨ m = .useLate x) := by
  cases m with
  | use item =>
      cases h
      simp [use, mem_mention, eq_comm]
  | useLate item =>
      cases h
      simp [useLate, mem_mention, eq_comm]
  | text t =>
      cases h
      simp [uses_emit]
  | refuse what => cases h
  | link argument =>
      cases h
      simp [link]
  | _ =>
      cases h
      simp [newline, indent, dedent]

/-- The marks that are followed say what is imported. -/
theorem mem_uses_of_write {s s' : Sheet} {ms : List Mark} (h : s.write ms = (s', none)) (x : Text) :
    (x ∈ s'.uses ↔ x ∈ s.uses ∨ .use x ∈ ms) ∧
      (x ∈ s'.lateUses ↔ x ∈ s.lateUses ∨ .useLate x ∈ ms) := by
  induction ms generalizing s with
  | nil =>
      cases h
      simp
  | cons m ms ih =>
      rw [write] at h
      cases hm : s.follow m with
      | error what =>
          rw [hm] at h
          cases h
      | ok s₁ =>
          rw [hm] at h
          obtain ⟨huses, hlate⟩ := ih h
          obtain ⟨hfirst, hfirstLate⟩ := mem_uses_of_follow hm x
          rw [huses, hlate, hfirst, hfirstLate, List.mem_cons, List.mem_cons]
          simp only [eq_comm, or_assoc, and_self]

/-- Each import is on one line. -/
def Tidy (s : Sheet) : Prop := ∀ item, item ∈ s.uses ∨ item ∈ s.lateUses → '\n' ∉ item

end Sheet

/-! ## Laying -/

/--
The marks add `t` to each sheet at the stand `p`, and leave it at the stand `q`.  What they import
is on one line each.
-/
def Lays (p : Stand) (ms : List Mark) (t : Text) (q : Stand) : Prop :=
  ∀ s : Sheet, s.stand = p →
    ∃ s', s.write ms = (s', none) ∧ s'.body = s.body ++ t ∧ s'.stand = q ∧ (s.Tidy → s'.Tidy)

namespace Lays

open Stand

variable {p q r : Stand} {ms ms' : List Mark} {t t' : Text} {k : Nat}

theorem nil (p : Stand) : Lays p [] [] p := fun s hs => ⟨s, rfl, by simp, hs, id⟩

theorem append (h : Lays p ms t q) (h' : Lays q ms' t' r) : Lays p (ms ++ ms') (t ++ t') r := by
  intro s hs
  obtain ⟨s₁, hwrite, hbody, hstand, htidy⟩ := h s hs
  obtain ⟨s₂, hwrite', hbody', hstand', htidy'⟩ := h' s₁ hstand
  refine ⟨s₂, ?_, ?_, hstand', htidy' ∘ htidy⟩
  · rw [Sheet.write_append, hwrite]
    exact hwrite'
  · rw [hbody', hbody, List.append_assoc]

/-- A mark that puts nothing on the sheet. -/
theorem silent {m : Mark}
    (hm : ∀ s : Sheet, ∃ s', s.follow m = .ok s' ∧ s'.body = s.body ∧ s'.stand = s.stand ∧
      (s.Tidy → s'.Tidy))
    (h : Lays p ms t q) : Lays p (m :: ms) t q := by
  intro s hs
  obtain ⟨s₁, hfollow, hbody, hstand, htidy⟩ := hm s
  obtain ⟨s₂, hwrite, hbody₂, hstand₂, htidy₂⟩ := h s₁ (hstand.trans hs)
  refine ⟨s₂, ?_, by rw [hbody₂, hbody], hstand₂, htidy₂ ∘ htidy⟩
  rw [Sheet.write, hfollow]
  exact hwrite

theorem use {item : Text} (hitem : '\n' ∉ item) (h : Lays p ms t q) :
    Lays p (.use item :: ms) t q := by
  refine silent (fun s => ⟨s.use item, rfl, rfl, rfl, fun htidy x hx => ?_⟩) h
  rcases hx with hx | hx
  · rcases Sheet.mem_mention.1 hx with hx | rfl
    · exact htidy x (.inl hx)
    · exact hitem
  · exact htidy x (.inr hx)

theorem useLate {item : Text} (hitem : '\n' ∉ item) (h : Lays p ms t q) :
    Lays p (.useLate item :: ms) t q := by
  refine silent (fun s => ⟨s.useLate item, rfl, rfl, rfl, fun htidy x hx => ?_⟩) h
  rcases hx with hx | hx
  · exact htidy x (.inl hx)
  · rcases Sheet.mem_mention.1 hx with hx | rfl
    · exact htidy x (.inr hx)
    · exact hitem

theorem link (argument : Text) (h : Lays p ms t q) : Lays p (.link argument :: ms) t q :=
  silent (fun s => ⟨s.link argument, rfl, rfl, rfl, id⟩) h

theorem text (p : Stand) (hne : t ≠ []) (h : '\n' ∉ t) :
    Lays p [.text t] (p.lead ++ t) (within p.level) := by
  intro s hs
  subst hs
  refine ⟨s.emit t, rfl, ?_, ?_, fun htidy x hx => ?_⟩
  · rw [Sheet.emit_of_not_mem hne h]
    simp [Sheet.body]
  · rw [Sheet.emit_of_not_mem hne h]
    rfl
  · rw [(Sheet.uses_emit s t).1, (Sheet.uses_emit s t).2] at hx
    exact htidy x hx

theorem newline (p : Stand) : Lays p [.newline] ['\n'] (start p.level) := by
  intro s hs
  subst hs
  exact ⟨s.newline, rfl, by simp [Sheet.body, Sheet.newline], rfl, id⟩

theorem indent (p : Stand) : Lays p [.indent] [] ⟨p.level + 1, p.fresh⟩ := by
  intro s hs
  subst hs
  exact ⟨s.indent, rfl, by simp [Sheet.body, Sheet.indent], rfl, id⟩

theorem dedent (p : Stand) : Lays p [.dedent] [] ⟨p.level - 1, p.fresh⟩ := by
  intro s hs
  subst hs
  exact ⟨s.dedent, rfl, by simp [Sheet.body, Sheet.dedent], rfl, id⟩

/-- Pieces within a line, with a separator between neighbours. -/
theorem intercalate (sep : Text) (hne : sep ≠ []) (hsep : '\n' ∉ sep) {mss : List (List Mark)}
    {ts : List Text}
    (h : List.Forall₂ (fun ms t => Lays (within k) ms t (within k)) mss ts) :
    Lays (within k) (List.intercalate [.text sep] mss) (Text.joinWith sep ts) (within k) := by
  induction h with
  | nil => exact nil _
  | @cons ms t mss ts hfirst hrest ih =>
      cases hrest with
      | nil => simpa [Text.joinWith] using hfirst
      | cons hsecond hmore =>
          rw [List.intercalate_cons_cons, Text.joinWith]
          exact (hfirst.append (text (within k) hne hsep)).append ih

end Lays

/-! ## Texts at a level -/

/-- The text of a generic type at level `k`. -/
def genericText (k : Nat) (head : Text) (ts : List Text) : Text :=
  head ++ '<' ::
    (Text.joinWith ",".toList (ts.map fun t => '\n' :: (List.replicate (k + 1) '\t' ++ t)) ++
      '\n' :: (List.replicate k '\t' ++ ">".toList))

/-- On a sheet at level `k`, the marks add `t` behind the tabs of the line, and end within a line. -/
def Writes (k : Nat) (ms : List Mark) (t : Text) : Prop :=
  ∀ p : Stand, p.level = k → Lays p ms (p.lead ++ t) (.within k)

namespace Writes

open Stand

variable {k : Nat} {ms : List Mark} {mss : List (List Mark)} {t head : Text} {ts : List Text}

theorem use {item : Text} (h : Writes k ms t) (hitem : '\n' ∉ item) :
    Writes k (.use item :: ms) t := fun p hp => (h p hp).use hitem

theorem useLate {item : Text} (h : Writes k ms t) (hitem : '\n' ∉ item) :
    Writes k (.useLate item :: ms) t := fun p hp => (h p hp).useLate hitem

theorem link (argument : Text) (h : Writes k ms t) : Writes k (.link argument :: ms) t :=
  fun p hp => (h p hp).link argument

theorem text (k : Nat) (hne : t ≠ []) (hline : '\n' ∉ t) : Writes k [.text t] t :=
  fun p hp => hp ▸ Lays.text p hne hline

theorem generic (hne : head ≠ []) (hline : '\n' ∉ head)
    (h : List.Forall₂ (Writes (k + 1)) mss ts) :
    Writes k (generic head mss) (genericText k head ts) := by
  rintro p rfl
  have harguments : List.Forall₂
      (fun ms t => Lays (within (p.level + 1)) ms t (within (p.level + 1)))
      (mss.map (.newline :: ·))
      (ts.map fun t => '\n' :: (List.replicate (p.level + 1) '\t' ++ t)) := by
    rw [List.forall₂_map_left_iff, List.forall₂_map_right_iff]
    exact h.imp fun ms t hms =>
      (Lays.newline (within (p.level + 1))).append (hms (start _) rfl)
  have hopen := (Lays.text p hne hline).append
    (Lays.text (within p.level) (t := "<".toList) (by decide) (by decide))
  have hinner := (Lays.indent (within p.level)).append
    (Lays.intercalate ",".toList (by decide) (by decide) harguments)
  have hclose := (Lays.dedent (within (p.level + 1))).append
    ((Lays.newline (within p.level)).append
      (Lays.text (start p.level) (t := ">".toList) (by decide) (by decide)))
  have hall := (hopen.append hinner).append hclose
  simpa [genericText, OnDemand.generic] using hall

theorem oneLine (hline : '\n' ∉ head) (h : Writes k ms t) :
    Writes k (oneLine head ms) (head ++ '<' :: (t ++ ">".toList)) := by
  rintro p rfl
  have hopen := Lays.text p (t := head ++ "<".toList) (by simp) (by simp [hline])
  have hall := (hopen.append (h (within p.level) rfl)).append
    (Lays.text (within p.level) (t := ">".toList) (by decide) (by decide))
  simpa [OnDemand.oneLine] using hall

theorem parenthesized (h : List.Forall₂ (Writes k) mss ts) :
    Writes k (parenthesized mss)
      ('(' :: (Text.joinWith " ".toList (ts.map (· ++ ",".toList)) ++ ")".toList)) := by
  have hmembers : List.Forall₂ (fun ms t => Lays (within k) ms t (within k))
      (mss.map (· ++ [.text ",".toList])) (ts.map (· ++ ",".toList)) := by
    rw [List.forall₂_map_left_iff, List.forall₂_map_right_iff]
    exact h.imp fun ms t hms => (hms (within k) rfl).append
      (Lays.text (within k) (t := ",".toList) (by decide) (by decide))
  rintro p rfl
  have hall := ((Lays.text p (t := "(".toList) (by decide) (by decide)).append
    (Lays.intercalate " ".toList (by decide) (by decide) hmembers)).append
    (Lays.text (within p.level) (t := ")".toList) (by decide) (by decide))
  simpa [OnDemand.parenthesized] using hall

end Writes
end OnDemand
