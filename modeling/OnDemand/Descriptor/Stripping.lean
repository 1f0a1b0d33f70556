import OnDemand.Text.Blank

/-!
# What may stand around a description

A description may come between quotes and behind the names of its home: `"vcsn::ctx::lal_char, b"`.
-/

namespace OnDemand.Stripping

/-- The text inside one pair of matching quotes `q`, if it stands in one. -/
def unquoted? (q : Char) (t : Text) : Option Text :=
  match t with
  | c :: d :: rest =>
    if c = q ∧ (d :: rest).getLast? = some q then some (Text.trim (d :: rest).dropLast) else none
  | _ => none

/-- The text without the blanks around it and without one pair of matching quotes. -/
def quotes (t : Text) : Text :=
  let s := Text.trim t
  ((unquoted? '\'' s) <|> (unquoted? '"' s)).getD s

/-- The names that may stand before a description. -/
def homes : List Text :=
  ["vcsn::".toList, "vcsn_".toList, "ctx::".toList, "ctx_".toList]

/-- What follows the first home that `t` begins with. -/
def withoutHome? (t : Text) : Option Text :=
  homes.findSome? fun home => Text.dropPrefix? home t

theorem length_dropPrefix? {p t r : Text} (h : Text.dropPrefix? p t = some r) :
    t.length = p.length + r.length := by
  induction p generalizing t with
  | nil => simp_all [Text.dropPrefix?]
  | cons c p ih =>
    cases t with
    | nil => simp [Text.dropPrefix?] at h
    | cons d t =>
      rw [Text.dropPrefix?] at h
      split at h
      · have := ih h
        simp only [List.length_cons]
        omega
      · simp at h

theorem length_withoutHome? {t r : Text} (h : withoutHome? t = some r) : r.length < t.length := by
  simp only [withoutHome?, homes, List.findSome?_eq_some_iff] at h
  obtain ⟨before, home, after, hs, hd, -⟩ := h
  have hlen := length_dropPrefix? hd
  have hmem : home ∈ homes := by
    rw [homes, hs]
    simp
  have hpos : 0 < home.length := by
    simp only [homes, List.mem_cons, List.not_mem_nil, or_false] at hmem
    rcases hmem with h | h | h | h <;> rw [h] <;> decide
  omega

/-- The text without any homes before it, blanks after each home aside. -/
def homeless (t : Text) : Text :=
  match _h : withoutHome? t with
  | some r => homeless (Text.trimStart r)
  | none => t
termination_by t.length
decreasing_by
  have := length_withoutHome? _h
  have := Text.length_trimStart_le r
  omega

/-- The text without quotes, then without homes. -/
def decoration (t : Text) : Text := homeless (quotes t)

end OnDemand.Stripping
