import OnDemand.Proofs.Tables
import OnDemand.Settings.Basic

/-!
# What a settings file says

A settings file is followed one statement at a time, and refused as soon as a statement does not fit
those before it.  When it is accepted, the outcome does not depend on the order of the statements
any more (`ofFile?_says`): each setting has the value that is written under its key, and the usual
value where nothing is; the libraries are those that are written in any of three ways.
-/

namespace OnDemand.Settings

/-! ## Settings one by one -/

/-- A single setting. -/
inductive Setting where
  | compiler
  | flags
  | edition
  | optimization
  | externs
  | libraryPath
  | plugins
  | verbose
  | debug
  | timingLog
  | home
  deriving DecidableEq, Repr

namespace Setting

/-- The key of the setting in a settings file, if it has a value of its own there. -/
def key? : Setting → Option Text
  | .compiler => some "rustc".toList
  | .flags => some "rustflags".toList
  | .edition => some "edition".toList
  | .optimization => some "opt_level".toList
  | .libraryPath => some "library_path".toList
  | .plugins => some "plugindir".toList
  | .verbose => some "verbose".toList
  | .debug => some "debug".toList
  | .timingLog => some "timing_log".toList
  | .externs | .home => none

/-- Whether the setting is the same in both. -/
def Same : Setting → Settings → Settings → Prop
  | .compiler, s, s' => s.compiler = s'.compiler
  | .flags, s, s' => s.flags = s'.flags
  | .edition, s, s' => s.edition = s'.edition
  | .optimization, s, s' => s.optimization = s'.optimization
  | .externs, s, s' => s.externs = s'.externs
  | .libraryPath, s, s' => s.libraryPath = s'.libraryPath
  | .plugins, s, s' => s.plugins = s'.plugins
  | .verbose, s, s' => s.verbose = s'.verbose
  | .debug, s, s' => s.debug = s'.debug
  | .timingLog, s, s' => s.timingLog = s'.timingLog
  | .home, s, s' => s.home = s'.home

/-- Whether the setting has the value that an item of a settings file says. -/
def Reads : Setting → Item → Settings → Prop
  | .compiler, .text t, s => s.compiler = some t
  | .flags, .texts ts, s => s.flags = ts
  | .edition, .text t, s => s.edition = t
  | .optimization, .text t, s => s.optimization = t
  | .libraryPath, .texts ts, s => s.libraryPath = ts
  | .plugins, .text t, s => s.plugins = some t
  | .verbose, .flag b, s => s.verbose = b
  | .debug, .flag b, s => s.debug = b
  | .timingLog, .text t, s => s.timingLog = some t
  | _, _, _ => False

/-- The setting has the value that is written, and where nothing is, it is what it was. -/
def Settled (x : Setting) (before : Settings) : Option Item → Settings → Prop
  | some item, after => x.Reads item after
  | none, after => x.Same after before

variable {x : Setting} {s s' s'' : Settings}

theorem same_refl (x : Setting) (s : Settings) : x.Same s s := by
  cases x <;> rfl

theorem Same.trans (h : x.Same s s') (h' : x.Same s' s'') : x.Same s s'' := by
  cases x <;> exact Eq.trans h h'

theorem Settled.of_same {item : Option Item} (h : x.Settled s' item s'') (hsame : x.Same s' s) :
    x.Settled s item s'' := by
  cases item with
  | none => exact Same.trans h hsame
  | some item => exact h

theorem Reads.of_same {item : Item} (h : x.Reads item s) (hsame : x.Same s' s) :
    x.Reads item s' := by
  cases x <;> cases item <;> first | exact Eq.trans hsame h | exact h

end Setting

/-! ## What is written -/

namespace Statement

/-- Whether the statement is the heading of a table. -/
def isHeading : Statement → Bool
  | .open _ => true
  | .assign _ _ => false

/-- What the statement assigns to a key that stands alone. -/
def value? (key : Text) : Statement → Option Item
  | .assign [k] item => if k = key then some item else none
  | _ => none

/-- The libraries that the statement names; `headed` says whether it stands under their heading. -/
def libraries (headed : Bool) : Statement → List (Text × Path)
  | .assign [name] (.text path) => if headed then [(name, path)] else []
  | .assign [_, name] (.text path) => [(name, path)]
  | .assign _ (.table entries) => entries
  | _ => []

end Statement

/-- What is written under a key: before the heading of the libraries, where every key is a name. -/
def written? (key : Text) (sts : List Statement) : Option Item :=
  (sts.takeWhile fun st => !st.isHeading).findSome? (Statement.value? key)

/-- The libraries that the statements name, in their order. -/
def librariesOf (headed : Bool) : List Statement → List (Text × Path)
  | [] => []
  | st :: sts => st.libraries headed ++ librariesOf (headed || st.isHeading) sts

theorem written?_cons {st : Statement} (h : st.isHeading = false) (key : Text)
    (sts : List Statement) : written? key (st :: sts) = (st.value? key).or (written? key sts) := by
  simp only [written?, List.takeWhile_cons, h, Bool.not_false, if_true, List.findSome?_cons]
  cases st.value? key <;> rfl

/-- The settings with more libraries. -/
def withLibraries (s : Settings) (pairs : List (Text × Path)) : Settings :=
  { s with externs := Table.insertAll pairs s.externs }

/-! ## One statement -/

theorem addExtern?_eq_some {s s' : Settings} {name path : Text}
    (h : s.addExtern? name path = some s') : s' = s.withLibraries [(name, path)] := by
  unfold addExtern? at h
  split at h
  next => cases h
  next =>
      cases h
      rfl

theorem foldlM_addExtern?_eq_some {entries : List (Text × Path)} {s s' : Settings}
    (h : entries.foldlM (fun s (name, path) => s.addExtern? name path) s = some s') :
    s' = s.withLibraries entries := by
  induction entries generalizing s with
  | nil =>
      cases h
      rfl
  | cons entry entries ih =>
      rw [List.foldlM_cons] at h
      obtain ⟨s₁, hfirst, hrest⟩ := Option.bind_eq_some_iff.1 h
      rw [ih hrest, addExtern?_eq_some hfirst]
      rfl

/-- An assignment sets the setting of its key, and no other. -/
theorem settled_of_assign? {s s' : Settings} {key : Text} {item : Item}
    (h : s.assign? key item = some s') (x : Setting) :
    x.Settled s (if x.key? = some key then some item else none) s' := by
  cases item with
  | text t =>
      obtain ⟨set, hlookup, rfl⟩ := Option.map_eq_some_iff.1 h
      have hmem := Text.mem_of_lookup hlookup
      simp only [textSettings, List.mem_cons, Prod.mk.injEq, List.not_mem_nil, or_false] at hmem
      rcases hmem with ⟨rfl, rfl⟩ | ⟨rfl, rfl⟩ | ⟨rfl, rfl⟩ | ⟨rfl, rfl⟩ | ⟨rfl, rfl⟩ <;>
        cases x <;> rfl
  | texts ts =>
      obtain ⟨set, hlookup, rfl⟩ := Option.map_eq_some_iff.1 h
      have hmem := Text.mem_of_lookup hlookup
      simp only [listSettings, List.mem_cons, Prod.mk.injEq, List.not_mem_nil, or_false] at hmem
      rcases hmem with ⟨rfl, rfl⟩ | ⟨rfl, rfl⟩ <;> cases x <;> rfl
  | flag b =>
      obtain ⟨set, hlookup, rfl⟩ := Option.map_eq_some_iff.1 h
      have hmem := Text.mem_of_lookup hlookup
      simp only [flagSettings, List.mem_cons, Prod.mk.injEq, List.not_mem_nil, or_false] at hmem
      rcases hmem with ⟨rfl, rfl⟩ | ⟨rfl, rfl⟩ <;> cases x <;> rfl
  | table entries => cases h

theorem key?_ne_externKey {x : Setting} {key : Text} (h : x.key? = some key) : key ≠ externKey := by
  rintro rfl
  cases x <;> exact absurd h (by decide)

namespace Reading

variable {r r' : Reading} {st : Statement}

/-- What a statement does before the heading of the libraries. -/
inductive Follows (r : Reading) : Statement → Reading → Prop where
  /-- The heading begins. -/
  | heads : Follows r (.open [externKey]) { r with externs := .headed }
  /-- Libraries are named. -/
  | names {st : Statement} {state : Externs} :
      st.isHeading = false → (∀ key, key ≠ externKey → st.value? key = none) → state ≠ .headed →
        Follows r st
          { r with settings := r.settings.withLibraries (st.libraries false), externs := state }
  /-- A setting gets its value, which it did not have before. -/
  | assigns {key : Text} {item : Item} {s : Settings} :
      key ∉ r.assigned → r.settings.assign? key item = some s →
        Follows r (.assign [key] item) { r with settings := s, assigned := key :: r.assigned }

theorem follows_of_follow (hr : r.externs ≠ .headed) (h : r.follow st = some r') :
    r.Follows st r' := by
  cases st with
  | «open» key =>
      simp only [follow, Option.ite_none_right_eq_some] at h
      obtain ⟨⟨rfl, -⟩, heq⟩ := h
      cases heq
      exact .heads
  | assign key item =>
      unfold follow at h
      simp only [if_neg hr] at h
      split at h
      next table name path =>
          obtain ⟨⟨rfl, -⟩, hadd⟩ := Option.ite_none_right_eq_some.1 h
          obtain ⟨s, hs, heq⟩ := Option.bind_eq_some_iff.1 hadd
          cases heq
          rw [addExtern?_eq_some hs]
          exact .names rfl (fun _ _ => rfl) (by decide)
      next key entries =>
          obtain ⟨⟨rfl, -⟩, hadd⟩ := Option.ite_none_right_eq_some.1 h
          obtain ⟨s, hs, heq⟩ := Option.bind_eq_some_iff.1 hadd
          cases heq
          rw [foldlM_addExtern?_eq_some hs]
          exact .names rfl (fun key hkey => if_neg (Ne.symm hkey)) (by decide)
      next key item _ =>
          obtain ⟨hnew, hassign⟩ := Option.ite_none_left_eq_some.1 h
          obtain ⟨s, hs, heq⟩ := Option.bind_eq_some_iff.1 hassign
          cases heq
          exact .assigns (by simpa using hnew) hs
      next => cases h

/-! ## All statements -/

/-- Under the heading, libraries are all that is said. -/
theorem settings_of_headed {sts : List Statement} (hr : r.externs = .headed)
    (h : sts.foldlM follow r = some r') :
    r'.settings = r.settings.withLibraries (librariesOf true sts) := by
  induction sts generalizing r with
  | nil =>
      cases h
      rfl
  | cons st sts ih =>
      rw [List.foldlM_cons] at h
      obtain ⟨r₁, hfirst, hrest⟩ := Option.bind_eq_some_iff.1 h
      cases st with
      | «open» key => simp [follow, hr] at hfirst
      | assign key item =>
          unfold follow at hfirst
          simp only [if_pos hr] at hfirst
          split at hfirst
          next name path =>
              obtain ⟨s, hs, heq⟩ := Option.bind_eq_some_iff.1 hfirst
              cases heq
              rw [ih (r := { r with settings := s }) hr hrest, addExtern?_eq_some hs]
              rfl
          next => cases hfirst

theorem kept_of_assign? {s s' : Settings} {key : Text} {item : Item}
    (h : s.assign? key item = some s') : s'.home = s.home ∧ s'.externs = s.externs := by
  have hhome := settled_of_assign? h .home
  have hexterns := settled_of_assign? h .externs
  exact ⟨hhome, hexterns⟩

/-- What statements before the heading of the libraries, and behind it, come to. -/
structure Says (r : Reading) (sts : List Statement) (r' : Reading) : Prop where
  /-- A key that has a value gets no other. -/
  once : ∀ key ∈ r.assigned, key ≠ externKey → written? key sts = none
  settled : ∀ (x : Setting) (key : Text), x.key? = some key →
    x.Settled r.settings (written? key sts) r'.settings
  externs : r'.settings.externs = Table.insertAll (librariesOf false sts) r.settings.externs
  home : r'.settings.home = r.settings.home

variable {sts : List Statement}

/-- Under the heading nothing is assigned any more. -/
theorem says_of_heads (h : sts.foldlM follow { r with externs := .headed } = some r') :
    r.Says (.open [externKey] :: sts) r' := by
  have hsettings := settings_of_headed rfl h
  have hnone (key : Text) : written? key (.open [externKey] :: sts) = none := by
    simp [written?, Statement.isHeading]
  refine ⟨fun key _ _ => hnone key, fun x key hkey => ?_, ?_, ?_⟩
  · rw [hnone, hsettings]
    cases x <;> first | rfl | exact absurd hkey (by simp [Setting.key?])
  · rw [hsettings]
    rfl
  · rw [hsettings]
    rfl

theorem Says.names {state : Externs} (hheading : st.isHeading = false)
    (hvalue : ∀ key, key ≠ externKey → st.value? key = none)
    (h : Says { r with
      settings := r.settings.withLibraries (st.libraries false), externs := state } sts r') :
    r.Says (st :: sts) r' := by
  have hwritten (key : Text) (hkey : key ≠ externKey) :
      written? key (st :: sts) = written? key sts := by
    rw [written?_cons hheading, hvalue key hkey, Option.none_or]
  refine ⟨fun key hkey hne => (hwritten key hne).trans (h.once key hkey hne),
    fun x key hkey => ?_, ?_, h.home⟩
  · rw [hwritten key (key?_ne_externKey hkey)]
    refine (h.settled x key hkey).of_same ?_
    cases x <;> first | rfl | exact absurd hkey (by simp [Setting.key?])
  · rw [h.externs, librariesOf, hheading, Table.insertAll_append]
    rfl

theorem Says.assigns {key : Text} {item : Item} {s : Settings} (hnew : key ∉ r.assigned)
    (hassign : r.settings.assign? key item = some s)
    (h : Says { r with settings := s, assigned := key :: r.assigned } sts r') :
    r.Says (.assign [key] item :: sts) r' := by
  have hwritten (key' : Text) : written? key' (.assign [key] item :: sts) =
      (if key = key' then some item else none).or (written? key' sts) :=
    written?_cons rfl key' sts
  have hnamed : Statement.libraries false (.assign [key] item) = [] := by
    cases item with
    | table entries => cases hassign
    | _ => rfl
  refine ⟨fun key' hkey' hne => ?_, fun x key' hkey' => ?_, ?_,
    h.home.trans (kept_of_assign? hassign).1⟩
  · have hother : key ≠ key' := by
      rintro rfl
      exact hnew hkey'
    rw [hwritten, if_neg hother, Option.none_or]
    exact h.once key' (List.mem_cons_of_mem key hkey') hne
  · have hset := settled_of_assign? hassign x
    have hlater := h.settled x key' hkey'
    rw [hwritten]
    by_cases hsame : key = key'
    · subst hsame
      -- The value stands, since the key gets no other.
      rw [h.once key List.mem_cons_self (key?_ne_externKey hkey')] at hlater
      rw [if_pos hkey'] at hset
      rw [if_pos rfl]
      exact Setting.Reads.of_same hset hlater
    · rw [hkey', if_neg (by simpa using Ne.symm hsame)] at hset
      rw [if_neg hsame, Option.none_or]
      exact hlater.of_same hset
  · rw [h.externs, librariesOf, hnamed, (kept_of_assign? hassign).2]
    rfl

/--
Before the heading, a key that has a value gets no other, each setting is what is written under its
key, and the libraries are those that are named, before the heading and after it.
-/
theorem says_of_follow (hr : r.externs ≠ .headed) (h : sts.foldlM follow r = some r') :
    r.Says sts r' := by
  -- What a statement assigns stands only because no later one assigns its key again, so the first
  -- part, which excludes that, is proved along with the second.
  induction sts generalizing r with
  | nil =>
      cases h
      exact ⟨fun _ _ _ => rfl, fun x _ _ => x.same_refl _, rfl, rfl⟩
  | cons st sts ih =>
      rw [List.foldlM_cons] at h
      obtain ⟨r₁, hfirst, hrest⟩ := Option.bind_eq_some_iff.1 h
      cases follows_of_follow hr hfirst with
      | heads => exact says_of_heads hrest
      | names hheading hvalue hstate => exact .names hheading hvalue (ih hstate hrest)
      | assigns hnew hassign => exact .assigns hnew hassign (ih hr hrest)

end Reading

/-- What a settings file says, setting by setting. -/
theorem ofFile?_says {around : Surroundings} {file : Text} {s : Settings}
    (h : ofFile? around file = some s) :
    ∃ sts, statements? file = some sts ∧
      (∀ (x : Setting) (key : Text), x.key? = some key →
        x.Settled (usual around) (written? key sts) s) ∧
      s.externs = Table.insertAll (librariesOf false sts) [] ∧ s.home = usualHome around := by
  obtain ⟨sts, hsts, h⟩ := Option.bind_eq_some_iff.1 h
  obtain ⟨r, hr, heq⟩ := Option.bind_eq_some_iff.1 h
  cases heq
  have hsays : Reading.Says { settings := usual around } sts r :=
    Reading.says_of_follow Externs.noConfusion hr
  exact ⟨sts, hsts, hsays.settled, hsays.externs, hsays.home⟩

end OnDemand.Settings
