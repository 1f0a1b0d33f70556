import Mathlib.Data.List.Perm.Basic
import OnDemand.Diagnostics
import OnDemand.Proofs.Repetitions
import OnDemand.Proofs.Text.Occurrences
import OnDemand.Proofs.Text.Pieces

/-!
# Assertions are found line by line

A report is searched as a whole, once for each way to announce an assertion, and what is found is
put in order afterwards.  The outcome is that of a much simpler procedure: take the lines one by
one, look for the first mark of each kind on the line, and put the few messages of the line in the
order in which they start (`assertions_line_by_line`).

The search does not look past the end of a line (`search_append_line`), finds at most one message of
each kind on it (`search_line`), and no two messages start at the same place (`start_unique`), so
that there is only one way to put them in order.
-/

namespace OnDemand.Diagnostics

/-! ## The messages of a line -/

/--
What is announced by the first `mark` on a line, and where on the line it starts; `upTo?` finds the
message in what follows the mark.
-/
def contribution? (mark : Text) (upTo? : Text → Option Text) (line : Text) : Option (Nat × Text) :=
  (Text.splitFirst? mark line).bind fun (front, rest) =>
    (upTo? rest).map fun message => (front.length + mark.length, message)

/--
The marks, and how much of the line after each is the message: all of it, what stands before the
last ending, or what stands before a quote at the end of the line.
-/
def manners : List (Text × (Text → Option Text)) := [
  ("evaluation panicked: ".toList, some),
  ("the evaluated program panicked at '".toList,
    fun rest => (Text.splitLast? "', ".toList rest).map Prod.fst),
  ("static assertion failed: ".toList, some),
  ("static_assert failed \"".toList, Text.dropSuffix? "\"".toList)]

/-- What a line contributes, each message with the place on the line where it starts. -/
def contributions (line : Text) : List (Nat × Text) :=
  manners.filterMap fun (mark, upTo?) => contribution? mark upTo? line

/-- Messages with their places, in the order in which they start, and then without the places. -/
def inOrder (found : List (Nat × Text)) : List Text :=
  (found.mergeSort fun a b => a.1 ≤ b.1).map Prod.snd

/-- Messages as they are reported: trimmed, none empty, once each. -/
def reported (messages : List Text) : List Text :=
  ((messages.map Text.trim).filter fun message => !message.isEmpty).eraseDups

namespace Form

variable {form : Form}

/-! ## Messages end on their line -/

/-- A form whose mark is not empty, and which does not announce a message across lines. -/
structure OnOneLine (form : Form) : Prop where
  mark_ne_nil : form.mark ≠ []
  newline_not_mem_mark : '\n' ∉ form.mark
  newline_not_mem_ending : '\n' ∉ form.ending

theorem onOneLine_of_mem (h : form ∈ forms) : form.OnOneLine := by
  have hall : ∀ form ∈ forms, form.mark ≠ [] ∧ '\n' ∉ form.mark ∧ '\n' ∉ form.ending := by decide
  obtain ⟨hne, hmark, hending⟩ := hall form h
  exact ⟨hne, hmark, hending⟩

theorem eq_of_close? {t r : Text} (h : form.close? t = some r) : t = form.ending ++ r :=
  Text.dropPrefix?_eq_some_iff.1 (Option.filter_eq_some_iff.1 h).1

/-- The message found here is what stands before an ending. -/
theorem eq_of_message? {t m r : Text} (h : form.message? t = some (m, r)) :
    t = m ++ form.ending ++ r := by
  induction t generalizing m with
  | nil =>
      obtain ⟨r', hr, heq⟩ := Option.map_eq_some_iff.1 h
      cases heq
      exact eq_of_close? hr
  | cons c t ih =>
      rw [message?] at h
      split at h
      next m' r' hrest =>
          cases h
          split at hrest
          next => cases hrest
          next =>
              rw [ih hrest]
              rfl
      next =>
          obtain ⟨r', hr, heq⟩ := Option.map_eq_some_iff.1 h
          cases heq
          exact eq_of_close? hr

theorem message?_cons {c : Char} (hc : c ≠ '\n') (t : Text) :
    form.message? (c :: t) =
      match form.message? t with
      | some (m, r) => some (c :: m, r)
      | none => (form.close? (c :: t)).map fun r => ([], r) := by
  rcases hfound : form.message? t with _ | ⟨m, r⟩ <;> simp [message?, hc, hfound]

/-- A message that ends where another one does, and starts earlier on the line, is found as well. -/
theorem message?_append {a t m r : Text} (ha : '\n' ∉ a) (h : form.message? t = some (m, r)) :
    form.message? (a ++ t) = some (a ++ m, r) := by
  induction a with
  | nil => exact h
  | cons c a ih =>
      rw [List.mem_cons, not_or] at ha
      rw [List.cons_append, message?_cons (Ne.symm ha.1), ih ha.2]
      rfl

/-- A message is preferred to those that end earlier on the line, so none is found after it. -/
theorem message?_after {t m r a rest : Text} (ht : '\n' ∉ t) (h : form.message? t = some (m, r))
    (hr : r = a ++ rest) (ha : a ≠ []) : form.message? rest = none := by
  refine Option.eq_none_iff_forall_ne_some.2 fun later hlater => ?_
  obtain ⟨m', r'⟩ := later
  have hsplit : t = (m ++ form.ending ++ a) ++ rest := by
    rw [eq_of_message? h, hr, List.append_assoc _ a]
  have hfront : '\n' ∉ m ++ form.ending ++ a := by
    rw [hsplit] at ht
    exact fun hmem => ht (List.mem_append_left _ hmem)
  have hsame : form.message? t = some (m ++ form.ending ++ a ++ m', r') := by
    rw [hsplit]
    exact message?_append hfront hlater
  have hr' : r = r' := (Prod.mk.inj (Option.some.inj (h.symm.trans hsame))).2
  have hrest := congrArg List.length (eq_of_message? hlater)
  have hwhole := congrArg List.length hr
  have hpos : 0 < a.length := List.length_pos_iff.2 ha
  simp only [List.length_append, ← hr'] at hrest hwhole
  omega

/-! ### Lines -/

theorem startsAfresh_append (t r : Text) : startsAfresh (t ++ '\n' :: r) = startsAfresh t := by
  cases t <;> rfl

/-- What follows a line makes no difference to where a message on it ends. -/
theorem close?_append_line (hform : form.OnOneLine) (l r : Text) :
    form.close? (l ++ '\n' :: r) = (form.close? l).map (· ++ '\n' :: r) := by
  rw [close?, close?, Text.dropPrefix?_append_cons hform.newline_not_mem_ending]
  cases Text.dropPrefix? form.ending l with
  | none => rfl
  | some rest =>
      simp only [Option.map_some, Option.filter_some, startsAfresh_append]
      split <;> rfl

theorem message?_append_line (hform : form.OnOneLine) {l : Text} (hl : '\n' ∉ l) (r : Text) :
    form.message? (l ++ '\n' :: r) =
      (form.message? l).map fun (m, rest) => (m, rest ++ '\n' :: r) := by
  induction l with
  | nil =>
      have hclose := close?_append_line hform [] r
      rw [List.nil_append] at hclose
      simp [message?, hclose, Function.comp_def]
  | cons c l ih =>
      rw [List.mem_cons, not_or] at hl
      rw [List.cons_append, message?_cons (Ne.symm hl.1), message?_cons (Ne.symm hl.1), ih hl.2]
      cases form.message? l with
      | some found => rfl
      | none =>
          have hclose := close?_append_line hform (c :: l) r
          rw [List.cons_append] at hclose
          simp [hclose, Function.comp_def]

theorem announced?_append_line (hform : form.OnOneLine) {l : Text} (hl : '\n' ∉ l) (r : Text) :
    form.announced? (l ++ '\n' :: r) = form.announced? l := by
  rw [announced?, announced?, Text.dropPrefix?_append_cons hform.newline_not_mem_mark]
  cases hmark : Text.dropPrefix? form.mark l with
  | none => rfl
  | some rest =>
      have hrest : '\n' ∉ rest := by
        rw [Text.dropPrefix?_eq_some_iff.1 hmark] at hl
        exact fun hmem => hl (List.mem_append_right _ hmem)
      have hmessage := message?_append_line hform hrest r
      cases hfound : form.message? rest with
      | none => simp [hmessage, hfound]
      | some found => simp [hmessage, hfound, Nat.add_sub_add_right]

/-! ## The search -/

theorem search_nil (here taken : Nat) : form.search here taken [] = [] := by
  cases taken <;> rfl

theorem search_of_none {c : Char} {t : Text} (h : form.announced? (c :: t) = none) (here : Nat) :
    form.search here 0 (c :: t) = form.search (here + 1) 0 t := by
  rw [search, h]

theorem search_of_some {c : Char} {t m : Text} {length : Nat}
    (h : form.announced? (c :: t) = some (m, length)) (here : Nat) :
    form.search here 0 (c :: t) =
      (here + form.mark.length, m) :: form.search (here + 1) (length - 1) t := by
  rw [search, h]

theorem search_taken (here taken : Nat) (t : Text) :
    form.search here taken t = form.search (here + taken) 0 (t.drop taken) := by
  induction taken generalizing here t with
  | zero => rfl
  | succ taken ih =>
      cases t with
      | nil => rw [List.drop_nil, search_nil, search_nil]
      | cons c t =>
          rw [search, ih, List.drop_succ_cons, Nat.add_right_comm, Nat.add_assoc]

/-- The search of a text from another place on finds the same, so much further on. -/
theorem search_shift (k here taken : Nat) (t : Text) :
    form.search (here + k) taken t =
      (form.search here taken t).map fun (start, m) => (start + k, m) := by
  induction t generalizing here taken with
  | nil => rw [search_nil, search_nil, List.map_nil]
  | cons c t ih =>
      cases taken with
      | succ taken => rw [search, search, Nat.add_right_comm, ih]
      | zero =>
          cases h : form.announced? (c :: t) with
          | none => rw [search_of_none h, search_of_none h, Nat.add_right_comm, ih]
          | some found =>
              rw [search_of_some h, search_of_some h, List.map_cons, Nat.add_right_comm here k 1, ih,
                Nat.add_right_comm here k]

/-- What is found is announced by the mark right before it. -/
theorem mem_search {here taken start : Nat} {t m : Text}
    (h : (start, m) ∈ form.search here taken t) :
    ∃ a rest r, t = a ++ form.mark ++ rest ∧ form.message? rest = some (m, r) ∧
      start = here + a.length + form.mark.length := by
  induction t generalizing here taken with
  | nil =>
      rw [search_nil] at h
      cases h
  | cons c t ih =>
      have hlater {taken : Nat} (h : (start, m) ∈ form.search (here + 1) taken t) :
          ∃ a rest r, c :: t = a ++ form.mark ++ rest ∧ form.message? rest = some (m, r) ∧
            start = here + a.length + form.mark.length := by
        obtain ⟨a, rest, r, rfl, hmessage, hstart⟩ := ih h
        refine ⟨c :: a, rest, r, rfl, hmessage, ?_⟩
        rw [hstart, List.length_cons]
        omega
      cases taken with
      | succ taken => exact hlater h
      | zero =>
          cases hannounced : form.announced? (c :: t) with
          | none =>
              rw [search_of_none hannounced] at h
              exact hlater h
          | some found =>
              rw [search_of_some hannounced] at h
              rcases List.mem_cons.1 h with heq | h
              · obtain ⟨rest, hrest, hannounced⟩ := Option.bind_eq_some_iff.1 hannounced
                obtain ⟨⟨m', r⟩, hmessage, hfound⟩ := Option.bind_eq_some_iff.1 hannounced
                cases hfound
                cases heq
                exact ⟨[], rest, r, Text.dropPrefix?_eq_some_iff.1 hrest, hmessage, rfl⟩
              · exact hlater h

theorem search_eq_nil {t : Text}
    (h : ∀ a rest, t = a ++ form.mark ++ rest → form.message? rest = none) (here taken : Nat) :
    form.search here taken t = [] := by
  refine List.eq_nil_iff_forall_not_mem.2 fun ⟨start, m⟩ hmem => ?_
  obtain ⟨a, rest, r, ht, hmessage, -⟩ := mem_search hmem
  rw [h a rest ht] at hmessage
  cases hmessage

theorem dropPrefix?_mark_nil (hform : form.OnOneLine) : Text.dropPrefix? form.mark [] = none := by
  refine Option.eq_none_iff_forall_ne_some.2 fun rest hrest => hform.mark_ne_nil ?_
  exact (List.append_eq_nil_iff.1 (Text.dropPrefix?_eq_some_iff.1 hrest).symm).1

/-- A line is searched by itself. -/
theorem search_append_line (hform : form.OnOneLine) {l : Text} (hl : '\n' ∉ l) (r : Text)
    (here : Nat) {taken : Nat} (htaken : taken ≤ l.length) :
    form.search here taken (l ++ '\n' :: r) =
      form.search here taken l ++ form.search (here + l.length + 1) 0 r := by
  -- The induction is on the line, with any number of characters of it taken already.
  induction l generalizing here taken with
  | nil =>
      have hnone : form.announced? ('\n' :: r) = none := by
        have hsame := announced?_append_line hform (l := []) List.not_mem_nil r
        simpa [announced?, dropPrefix?_mark_nil hform] using hsame
      obtain rfl : taken = 0 := by simpa using htaken
      rw [List.nil_append, search_of_none hnone, search_nil, List.nil_append, List.length_nil,
        Nat.add_zero]
  | cons c l ih =>
      have hl' : '\n' ∉ l := fun hmem => hl (List.mem_cons_of_mem c hmem)
      have hlength : here + 1 + l.length + 1 = here + (c :: l).length + 1 := by
        rw [List.length_cons]
        omega
      cases taken with
      | succ taken =>
          rw [List.cons_append, search, search, ih hl' (here + 1) (by simpa using htaken), hlength]
      | zero =>
          have hsame := announced?_append_line hform hl r
          rw [List.cons_append] at hsame
          rw [List.cons_append]
          cases hfound : form.announced? (c :: l) with
          | none =>
              rw [search_of_none (hsame.trans hfound), search_of_none hfound,
                ih hl' (here + 1) (Nat.zero_le _), hlength]
          | some found =>
              -- What a message takes is on the line, too.
              have hlast : found.2 - 1 ≤ l.length := by
                obtain ⟨rest, -, hfound⟩ := Option.bind_eq_some_iff.1 hfound
                obtain ⟨⟨m, r⟩, -, hfound⟩ := Option.bind_eq_some_iff.1 hfound
                cases hfound
                simp only [List.length_cons]
                omega
              rw [search_of_some (hsame.trans hfound), search_of_some hfound,
                ih hl' (here + 1) hlast, hlength, List.cons_append]

/-! ### One message on a line -/

/-- What is announced by the form's first mark on a line. -/
def first? (form : Form) (line : Text) : Option (Nat × Text) :=
  contribution? form.mark (fun rest => (form.message? rest).map Prod.fst) line

theorem announced?_of_mark {t rest : Text} (h : t = form.mark ++ rest) :
    form.announced? t = (form.message? rest).map fun (m, r) => (m, t.length - r.length) := by
  rw [announced?, Text.dropPrefix?_eq_some_iff.2 h]
  cases hmessage : form.message? rest <;> simp [hmessage]

/-- A mark that announces nothing is followed by no other that does. -/
theorem search_after_mark {c : Char} {l rest : Text} (hl : '\n' ∉ c :: l)
    (hmark : c :: l = form.mark ++ rest) (h : form.message? rest = none) (here : Nat) :
    form.search here 0 l = [] := by
  refine search_eq_nil (fun a rest' hsplit => ?_) here 0
  have hlater : rest' <:+ rest := by
    have hsuffix : rest' <:+ c :: l := ⟨c :: (a ++ form.mark), by rw [hsplit]; simp⟩
    refine List.suffix_of_suffix_length_le hsuffix ⟨form.mark, hmark.symm⟩ ?_
    have hlength := congrArg List.length hmark
    simp only [hsplit, List.length_cons, List.length_append] at hlength
    omega
  obtain ⟨b, rfl⟩ := hlater
  have hb : '\n' ∉ b := by
    rw [hmark] at hl
    exact fun hmem => hl (List.mem_append_right _ (List.mem_append_left _ hmem))
  refine Option.eq_none_iff_forall_ne_some.2 fun found hfound => ?_
  rw [message?_append (r := found.2) hb hfound] at h
  cases h

/-- After a message there is no other on its line. -/
theorem search_after_message (hform : form.OnOneLine) {c : Char} {l rest m r : Text}
    (hl : '\n' ∉ c :: l) (hmark : c :: l = form.mark ++ rest)
    (hmessage : form.message? rest = some (m, r)) (here : Nat) :
    form.search here ((c :: l).length - r.length - 1) l = [] := by
  have hend : c :: l = (form.mark ++ m ++ form.ending) ++ r := by
    calc
      c :: l = form.mark ++ rest := hmark
      _ = form.mark ++ (m ++ form.ending ++ r) := by rw [eq_of_message? hmessage]
      _ = (form.mark ++ m ++ form.ending) ++ r := by simp only [List.append_assoc]
  have hlength : (c :: l).length - r.length = (form.mark ++ m ++ form.ending).length := by
    rw [hend, List.length_append, Nat.add_sub_cancel]
  have hpos : 0 < form.mark.length := List.length_pos_iff.2 hform.mark_ne_nil
  -- The search goes on right behind the ending of the message.
  have hdrop : l.drop ((c :: l).length - r.length - 1) = r := by
    have hcons : (c :: l).drop ((c :: l).length - r.length) = r := by
      rw [hlength, hend, List.drop_left]
    cases hn : (c :: l).length - r.length with
    | zero =>
        simp only [hn, List.length_append] at hlength
        omega
    | succ n => rwa [hn] at hcons
  have hrest : '\n' ∉ rest := by
    rw [hmark] at hl
    exact fun hmem => hl (List.mem_append_right _ hmem)
  rw [search_taken, hdrop]
  apply search_eq_nil
  intro a rest' hr
  exact message?_after hrest hmessage hr (by simp [hform.mark_ne_nil])

/-- On a line the search finds what the first mark announces, and nothing more. -/
theorem search_line (hform : form.OnOneLine) {l : Text} (hl : '\n' ∉ l) (here : Nat) :
    form.search here 0 l =
      ((form.first? l).map fun (start, m) => (here + start, m)).toList := by
  induction l generalizing here with
  | nil =>
      simp [search_nil, first?, contribution?, Text.splitFirst?, dropPrefix?_mark_nil hform]
  | cons c l ih =>
      have hl' : '\n' ∉ l := fun hmem => hl (List.mem_cons_of_mem c hmem)
      cases hhere : Text.dropPrefix? form.mark (c :: l) with
      -- No mark stands here, so the first one of the line is the first one of the rest.
      | none =>
          have hannounced : form.announced? (c :: l) = none := by simp [announced?, hhere]
          have hsplit : Text.splitFirst? form.mark (c :: l) =
              (Text.splitFirst? form.mark l).map fun (a, r) => (c :: a, r) := by
            rw [Text.splitFirst?, hhere]
          rw [search_of_none hannounced, ih hl']
          cases hfirst : Text.splitFirst? form.mark l with
          | none => simp [first?, contribution?, hsplit, hfirst]
          | some pair =>
              cases hmessage : form.message? pair.2 with
              | none => simp [first?, contribution?, hsplit, hfirst, hmessage]
              | some found =>
                  simp [first?, contribution?, hsplit, hfirst, hmessage]
                  omega
      -- The mark stands here. Whether a message follows or not, no other is found on the line.
      | some rest =>
          have hmark : c :: l = form.mark ++ rest := Text.dropPrefix?_eq_some_iff.1 hhere
          have hsplit : Text.splitFirst? form.mark (c :: l) = some ([], rest) := by
            rw [Text.splitFirst?, hhere]
          have hannounced := announced?_of_mark hmark
          cases hmessage : form.message? rest with
          | none =>
              rw [hmessage] at hannounced
              rw [search_of_none hannounced, search_after_mark hl hmark hmessage]
              simp [first?, contribution?, hsplit, hmessage]
          | some found =>
              obtain ⟨m, r⟩ := found
              rw [hmessage] at hannounced
              rw [search_of_some hannounced, search_after_message hform hl hmark hmessage]
              simp [first?, contribution?, hsplit, hmessage]

/-! ### Where a message on a line ends -/

theorem close?_of_endsLine (hends : form.endsLine = true) {t : Text} (ht : '\n' ∉ t) :
    form.close? t = if t = form.ending then some [] else none := by
  rw [close?]
  by_cases heq : t = form.ending
  · have hdrop : Text.dropPrefix? form.ending t = some [] :=
      Text.dropPrefix?_eq_some_iff.2 (by simp [heq])
    rw [hdrop, if_pos heq]
    simp [startsAfresh]
  · simp only [heq, if_false]
    refine Option.eq_none_iff_forall_ne_some.2 fun r hr => ?_
    obtain ⟨hdrop, hafresh⟩ := Option.filter_eq_some_iff.1 hr
    have hsplit : t = form.ending ++ r := Text.dropPrefix?_eq_some_iff.1 hdrop
    cases r with
    | nil => exact heq (by simpa using hsplit)
    | cons c r =>
        have hc : c = '\n' := by simpa [hends, startsAfresh] using hafresh
        exact ht (by simp [hsplit, hc])

/-- A message that must end with the line is what stands before the ending of the line. -/
theorem message?_of_endsLine (hends : form.endsLine = true) {t : Text} (ht : '\n' ∉ t) :
    form.message? t = (Text.dropSuffix? form.ending t).map fun m => (m, []) := by
  induction t with
  | nil =>
      have hsuffix : Text.dropSuffix? form.ending [] = if [] = form.ending then some [] else none := by
        by_cases hnil : [] = form.ending
        · rw [if_pos hnil, ← hnil]
          rfl
        · rw [if_neg hnil]
          refine Option.eq_none_iff_forall_ne_some.2 fun r hr => hnil ?_
          exact (List.append_eq_nil_iff.1 (Text.dropSuffix?_eq_some_iff.1 hr).symm).2.symm
      rw [message?, close?_of_endsLine hends ht, hsuffix]
      split <;> rfl
  | cons c t ih =>
      have hclose := close?_of_endsLine hends ht
      rw [List.mem_cons, not_or] at ht
      rw [message?_cons (Ne.symm ht.1), ih ht.2, hclose, Text.dropSuffix?_cons]
      cases Text.dropSuffix? form.ending t with
      | some m => rfl
      | none =>
          simp only [Option.map_none]
          split <;> rfl

/-- Another message is what stands before the last ending on the line. -/
theorem message?_of_not_endsLine (hends : form.endsLine = false) {t : Text} (ht : '\n' ∉ t) :
    form.message? t = Text.splitLast? form.ending t := by
  have hclose (t : Text) : form.close? t = Text.dropPrefix? form.ending t := by
    rw [close?]
    cases Text.dropPrefix? form.ending t <;> simp [hends]
  induction t with
  | nil => rw [message?, hclose, Text.splitLast?]
  | cons c t ih =>
      rw [List.mem_cons, not_or] at ht
      rw [message?_cons (Ne.symm ht.1), ih ht.2, hclose]
      rcases hlast : Text.splitLast? form.ending t with _ | ⟨m, r⟩ <;>
        simp [Text.splitLast?, hlast]

end Form

/-! ## The messages of a report -/

/-- What a search for all the forms finds, one form after the other. -/
def found (here : Nat) (t : Text) : List (Nat × Text) :=
  forms.flatMap fun form => form.search here 0 t

theorem messages_eq (report : Text) : messages report = inOrder (found 0 report) := rfl

theorem contribution?_congr {mark : Text} {upTo? upTo?' : Text → Option Text} {line : Text}
    (hline : '\n' ∉ line) (h : ∀ rest, '\n' ∉ rest → upTo? rest = upTo?' rest) :
    contribution? mark upTo? line = contribution? mark upTo?' line := by
  refine Option.bind_congr fun ⟨front, rest⟩ hsplit => ?_
  have hrest : '\n' ∉ rest := by
    rw [Text.eq_of_splitFirst? hsplit] at hline
    exact fun hmem => hline (List.mem_append_right _ hmem)
  simp only [h rest hrest]

section Line

variable {line : Text}

theorem Form.first?_of_endsLine {form : Form} (hends : form.endsLine = true)
    (h : '\n' ∉ line) :
    form.first? line = contribution? form.mark (Text.dropSuffix? form.ending) line := by
  refine contribution?_congr h fun rest hrest => ?_
  rw [message?_of_endsLine hends hrest, Option.map_map]
  exact Option.map_id'

theorem Form.first?_of_not_endsLine {form : Form} (hends : form.endsLine = false)
    (h : '\n' ∉ line) :
    form.first? line =
      contribution? form.mark (fun rest => (Text.splitLast? form.ending rest).map Prod.fst) line :=
  contribution?_congr h fun rest hrest => by rw [message?_of_not_endsLine hends hrest]

/-- The forms announce their messages in the manners that have been said. -/
theorem map_first?_forms (h : '\n' ∉ line) :
    forms.map (fun form => form.first? line) =
      manners.map fun (mark, upTo?) => contribution? mark upTo? line := by
  have hall : Text.dropSuffix? [] = some :=
    funext fun t => Text.dropSuffix?_eq_some_iff.2 (List.append_nil t).symm
  simp only [forms, manners, List.map_cons, List.map_nil, List.cons.injEq, and_true]
  refine ⟨?_, Form.first?_of_not_endsLine rfl h, ?_, Form.first?_of_endsLine rfl h⟩
  · rw [Form.first?_of_endsLine rfl h, hall]
  · rw [Form.first?_of_endsLine rfl h, hall]

/-- On a line, the search finds what the line contributes. -/
theorem found_line (h : '\n' ∉ line) : found 0 line = contributions line := by
  have hsearch : ∀ form ∈ forms, form.search 0 0 line = (form.first? line).toList := by
    intro form hmem
    simp [Form.search_line (Form.onOneLine_of_mem hmem) h]
  calc found 0 line
      = forms.flatMap fun form => (form.first? line).toList :=
        List.flatMap_congr hsearch
    _ = (forms.map fun form => form.first? line).filterMap id := by
        rw [List.filterMap_map, List.filterMap_eq_flatMap_toList]
        rfl
    _ = contributions line := by
        rw [map_first?_forms h, List.filterMap_map]
        rfl

end Line

/-! ## The order of messages -/

/-- What is found in a text starts where the mark before it ends. -/
theorem mem_found {here start : Nat} {t m : Text} (h : (start, m) ∈ found here t) :
    ∃ form ∈ forms, ∃ a rest r, t = a ++ form.mark ++ rest ∧
      form.message? rest = some (m, r) ∧ start = here + (a ++ form.mark).length := by
  obtain ⟨form, hform, hmem⟩ := List.mem_flatMap.1 h
  obtain ⟨a, rest, r, ht, hmessage, hstart⟩ := Form.mem_search hmem
  exact ⟨form, hform, a, rest, r, ht, hmessage, by rw [hstart, List.length_append]; omega⟩

/-- Two marks that end at the same place are the same, since none is the ending of another. -/
theorem eq_of_marks {form form' : Form} (hform : form ∈ forms) (hform' : form' ∈ forms) {a a' : Text}
    (h : a ++ form.mark = a' ++ form'.mark) : form = form' := by
  have hapart : ∀ form ∈ forms, ∀ form' ∈ forms, form.mark <:+ form'.mark → form = form' := by
    decide
  rcases List.suffix_or_suffix_of_suffix (List.suffix_append a form.mark)
    (h ▸ List.suffix_append a' form'.mark) with hsuffix | hsuffix
  · exact hapart form hform form' hform' hsuffix
  · exact (hapart form' hform' form hform hsuffix).symm

/-- No two messages start at the same place. -/
theorem start_unique {here : Nat} {t : Text} {x y : Nat × Text} (hx : x ∈ found here t)
    (hy : y ∈ found here t) (h : x.1 = y.1) : x = y := by
  obtain ⟨start, m⟩ := x
  obtain ⟨start', m'⟩ := y
  obtain ⟨form, hform, a, rest, r, ht, hmessage, hstart⟩ := mem_found hx
  obtain ⟨form', hform', a', rest', r', ht', hmessage', hstart'⟩ := mem_found hy
  have hlength : (a ++ form.mark).length = (a' ++ form'.mark).length := by
    simp only [hstart, hstart'] at h
    omega
  obtain ⟨hmarks, rfl⟩ := List.append_inj (ht.symm.trans ht') hlength
  cases eq_of_marks hform hform' hmarks
  rw [hmessage] at hmessage'
  cases hmessage'
  exact congrArg (·, m) h

/-- Messages that start at different places are in order in one way only. -/
theorem inOrder_eq_append {found early late : List (Nat × Text)} (hperm : found.Perm (early ++ late))
    (hunique : ∀ x ∈ found, ∀ y ∈ found, x.1 = y.1 → x = y)
    (hearly : ∀ x ∈ early, ∀ y ∈ late, x.1 < y.1) :
    inOrder found = inOrder early ++ inOrder late := by
  have hsorted (l : List (Nat × Text)) :
      (l.mergeSort fun a b => a.1 ≤ b.1).Pairwise fun a b => a.1 ≤ b.1 := by
    have htrans : ∀ a b c : Nat × Text, decide (a.1 ≤ b.1) = true → decide (b.1 ≤ c.1) = true →
        decide (a.1 ≤ c.1) = true := by
      simp only [decide_eq_true_eq]
      omega
    have htotal : ∀ a b : Nat × Text, (decide (a.1 ≤ b.1) || decide (b.1 ≤ a.1)) = true := by
      simp only [Bool.or_eq_true, decide_eq_true_eq]
      omega
    simpa using List.pairwise_mergeSort htrans htotal l
  -- Both sides are sorted and hold the same, and no two places are the same.
  rw [inOrder, inOrder, inOrder, ← List.map_append]
  refine congrArg (List.map Prod.snd) (List.Perm.eq_of_pairwise ?_ (hsorted found) ?_ ?_)
  · intro x y hx hy hxy hyx
    rw [List.mem_mergeSort] at hx
    rw [List.mem_append, List.mem_mergeSort, List.mem_mergeSort, ← List.mem_append,
      ← hperm.mem_iff] at hy
    exact hunique x hx y hy (Nat.le_antisymm hxy hyx)
  · refine List.pairwise_append.2 ⟨hsorted early, hsorted late, fun x hx y hy => ?_⟩
    exact Nat.le_of_lt (hearly x (List.mem_mergeSort.1 hx) y (List.mem_mergeSort.1 hy))
  · calc (found.mergeSort fun a b => a.1 ≤ b.1).Perm found := List.mergeSort_perm _ _
      _ |>.Perm (early ++ late) := hperm
      _ |>.Perm _ := ((List.mergeSort_perm early _).append (List.mergeSort_perm late _)).symm

/-- Where messages start does not matter, as long as all of them are moved by as much. -/
theorem inOrder_shift (k : Nat) (found : List (Nat × Text)) :
    inOrder (found.map fun (start, m) => (start + k, m)) = inOrder found := by
  have hsame := List.map_mergeSort (r := fun a b : Nat × Text => decide (a.1 ≤ b.1))
    (s := fun a b : Nat × Text => decide (a.1 ≤ b.1)) (f := fun (start, m) => (start + k, m))
    (l := found) (by simp)
  rw [inOrder, ← hsame, List.map_map]
  rfl

/-! ## Line by line -/

/-- The messages of the first line come before those of the others. -/
theorem messages_append_line {l : Text} (hl : '\n' ∉ l) (r : Text) :
    messages (l ++ '\n' :: r) = messages l ++ messages r := by
  have hfound : (found 0 (l ++ '\n' :: r)).Perm (found 0 l ++ found (0 + (l.length + 1)) r) := by
    have hsearch : ∀ form ∈ forms, form.search 0 0 (l ++ '\n' :: r) =
        form.search 0 0 l ++ form.search (0 + (l.length + 1)) 0 r := fun form hform =>
      Form.search_append_line (Form.onOneLine_of_mem hform) hl r 0 (Nat.zero_le _)
    rw [found, List.flatMap_congr hsearch]
    exact (List.flatMap_append_perm forms _ _).symm
  have hearly : ∀ x ∈ found 0 l, ∀ y ∈ found (0 + (l.length + 1)) r, x.1 < y.1 := by
    intro x hx y hy
    obtain ⟨form, -, a, rest, -, hsplit, -, hstart⟩ := mem_found (m := x.2) hx
    obtain ⟨form', -, a', -, -, -, -, hstart'⟩ := mem_found (m := y.2) hy
    have hlength := congrArg List.length hsplit
    rw [List.length_append] at hlength
    omega
  have hshift : found (0 + (l.length + 1)) r =
      (found 0 r).map fun (start, m) => (start + (l.length + 1), m) := by
    rw [found, found, List.map_flatMap]
    exact List.flatMap_congr fun form _ => form.search_shift (l.length + 1) 0 0 r
  calc messages (l ++ '\n' :: r)
      = inOrder (found 0 l) ++ inOrder (found (0 + (l.length + 1)) r) :=
        inOrder_eq_append hfound (fun x hx y hy => start_unique hx hy) hearly
    _ = messages l ++ messages r := by rw [hshift, inOrder_shift, messages_eq, messages_eq]

/-- The messages of a report are those of its lines, one line after the other. -/
theorem messages_eq_flatMap (report : Text) :
    messages report =
      (Text.splitAt '\n' report).flatMap fun line => inOrder (contributions line) := by
  have hline (line : Text) (h : '\n' ∉ line) : messages line = inOrder (contributions line) := by
    rw [messages_eq, found_line h]
  have hpieces (pieces : List Text) (hne : pieces ≠ []) (h : ∀ l ∈ pieces, '\n' ∉ l) :
      messages (Text.joinWith ['\n'] pieces) =
        pieces.flatMap fun line => inOrder (contributions line) := by
    induction pieces with
    | nil => exact absurd rfl hne
    | cons l pieces ih =>
        rw [List.forall_mem_cons] at h
        cases pieces with
        | nil => simpa [Text.joinWith] using hline l h.1
        | cons next pieces =>
            rw [Text.joinWith, List.append_assoc, List.singleton_append, messages_append_line h.1,
              ih (by simp) h.2, hline l h.1]
            rfl
  have hjoined := hpieces (Text.splitAt '\n' report) (Text.splitAt_ne_nil _ _)
    fun l hl => Text.not_mem_of_mem_splitAt hl
  rwa [Text.joinWith_splitAt] at hjoined

theorem messages_append (a b : Text) :
    messages (a ++ '\n' :: b) = messages a ++ messages b := by
  rw [messages_eq_flatMap, messages_eq_flatMap a, messages_eq_flatMap b, Text.splitAt_append_self,
    List.flatMap_append]

/-! ## Repetitions -/

theorem reported_append (xs ys : List Text) :
    reported (xs ++ ys) = (reported xs ++ reported ys).eraseDups := by
  rw [reported, reported, reported, List.map_append, List.filter_append,
    eraseDups_append_eraseDups]

/-! ## The assertions of a report -/

theorem eq_of_contribution? {mark line m : Text} {upTo? : Text → Option Text} {start : Nat}
    (h : contribution? mark upTo? line = some (start, m)) :
    ∃ a rest, line = a ++ mark ++ rest ∧ start = (a ++ mark).length := by
  obtain ⟨⟨a, rest⟩, hsplit, hmessage⟩ := Option.bind_eq_some_iff.1 h
  obtain ⟨m', -, heq⟩ := Option.map_eq_some_iff.1 hmessage
  cases heq
  exact ⟨a, rest, Text.eq_of_splitFirst? hsplit, List.length_append.symm⟩

/-- What a line contributes starts at different places. -/
theorem nodup_starts (line : Text) : ((contributions line).map Prod.fst).Nodup := by
  have hapart : manners.Pairwise fun x y => ¬ x.1 <:+ y.1 ∧ ¬ y.1 <:+ x.1 :=
    List.pairwise_map.1 (show (manners.map Prod.fst).Pairwise
      fun mark mark' => ¬ mark <:+ mark' ∧ ¬ mark' <:+ mark by decide)
  rw [List.Nodup, List.pairwise_map, contributions, List.pairwise_filterMap]
  refine hapart.imp fun {x y} hxy => ?_
  rintro ⟨start, m⟩ hx ⟨start', m'⟩ hy rfl
  obtain ⟨a, rest, hline, hstart⟩ := eq_of_contribution? hx
  obtain ⟨a', rest', hline', hstart'⟩ := eq_of_contribution? hy
  -- Both marks end where the messages start.
  obtain ⟨hmarks, -⟩ := List.append_inj (hline.symm.trans hline') (hstart.symm.trans hstart')
  rcases List.suffix_or_suffix_of_suffix (List.suffix_append a x.1)
    (hmarks ▸ List.suffix_append a' y.1) with hsuffix | hsuffix
  · exact hxy.1 hsuffix
  · exact hxy.2 hsuffix

/--
The assertions of a report are the messages of its lines, trimmed, none empty, and once each in the
order in which they first appear.  The messages of a line are in the order in which they start, and
no two of them start at the same place.  So the assertions of a report in two parts are those of
the parts, once each.
-/
theorem assertions_line_by_line (report : Text) :
    (assertions report =
        reported ((Text.splitAt '\n' report).flatMap fun line => inOrder (contributions line))) ∧
      (∀ line, ((contributions line).map Prod.fst).Nodup) ∧
      ∀ a b, assertions (a ++ '\n' :: b) = (assertions a ++ assertions b).eraseDups := by
  have hassertions (report : Text) : assertions report = reported (messages report) := rfl
  refine ⟨?_, nodup_starts, fun a b => ?_⟩
  · rw [hassertions, messages_eq_flatMap]
  · rw [hassertions, hassertions, hassertions, messages_append, reported_append]

end OnDemand.Diagnostics
