import OnDemand.Proofs.Fallible
import OnDemand.Proofs.Settings.Files
import OnDemand.Proofs.Text.Occurrences
import OnDemand.Settings.Loading

/-!
# Settings in layers

What a load ends with has three layers: what is usual, what the settings file says, and what the
environment says.  Each setting has a variable of its own, and the layers are laid setting by setting
(`load_in_layers`): a setting depends on its variable and on what the file says of it, and on nothing
else.  To lay the environment over the outcome once more changes nothing.

The home directory and the directory of temporary files are not asked of the environment here: they
are the `Surroundings` of all that is loaded.
-/

namespace OnDemand.Settings

/-- The variable of the setting. -/
def Setting.variableName : Setting → Text
  | .compiler => "VCSN_RUSTC".toList
  | .flags => "VCSN_RUSTFLAGS".toList
  | .edition => "VCSN_EDITION".toList
  | .optimization => "VCSN_OPT_LEVEL".toList
  | .externs => "VCSN_EXTERN".toList
  | .libraryPath => "VCSN_LIBRARY_PATH".toList
  | .plugins => "VCSN_PLUGINDIR".toList
  | .verbose => "VCSN_VERBOSE".toList
  | .debug => "VCSN_DEBUG".toList
  | .timingLog => "VCSN_TIME".toList
  | .home => "VCSN_HOME".toList

/-! ## The libraries of the environment -/

/-- The item names the library: the name stands before the first `=`, and the path after it. -/
def Names (item : Text) (library : Text × Path) : Prop :=
  ∃ name path, item = name ++ '=' :: path ∧ '=' ∉ name ∧
    library = (Text.trim name, Text.trim path)

theorem externOfItem_eq_ok_iff {item : Text} {library : Text × Path} :
    externOfItem item = .ok library ↔ Names item library := by
  unfold externOfItem
  constructor
  · intro h
    split at h
    next name path hsplit =>
        cases h
        obtain ⟨heq, hnot⟩ := Text.splitFirst?_char_eq_some_iff.1 hsplit
        exact ⟨name, path, heq, hnot, rfl⟩
    next => cases h
  · rintro ⟨name, path, heq, hnot, rfl⟩
    have hsplit : Text.splitFirst? "=".toList item = some (name, path) :=
      Text.splitFirst?_char_eq_some_iff.2 ⟨heq, hnot⟩
    rw [hsplit]

theorem mapM_externOfItem {items : List Text} {libraries : List (Text × Path)}
    (h : items.mapM externOfItem = .ok libraries) : List.Forall₂ Names items libraries :=
  (mapM_eq_ok_iff.1 h).imp fun _ _ => externOfItem_eq_ok_iff.1

/-- The items of the environment's list of libraries. -/
def environmentItems (env : Environment) : List Text :=
  (env Setting.externs.variableName).elim [] externItems

/-! ## The environment as a layer -/

/-- The settings under the values that the environment has, and under the libraries. -/
def overlaid (around : Surroundings) (env : Environment) (libraries : List (Text × Path))
    (s : Settings) : Settings where
  compiler := (env Setting.compiler.variableName).elim s.compiler some
  flags := (env Setting.flags.variableName).elim s.flags Text.words
  edition := (env Setting.edition.variableName).elim s.edition id
  optimization := (env Setting.optimization.variableName).elim s.optimization id
  externs := Table.insertAll libraries s.externs
  libraryPath := (env Setting.libraryPath.variableName).elim s.libraryPath (Text.splitAt ':')
  plugins := (env Setting.plugins.variableName).elim s.plugins some
  verbose := (env Setting.verbose.variableName).elim s.verbose isYes
  debug := (env Setting.debug.variableName).elim s.debug isYes
  timingLog := ((env Setting.timingLog.variableName).filter isYes).elim s.timingLog fun value =>
    some (timingLogOf around value)
  home := s.home

/-- What the environment says is a level of optimization, if it is none. -/
def badLevel? (env : Environment) : Option Text :=
  (env Setting.optimization.variableName).filter fun level => !optimizations.contains level

section Environments

variable {around : Surroundings} {env env' : Environment} {libraries libraries' : List (Text × Path)}
  {s s' c c' : Settings} {d d' : Disk}

/-- The environment is laid over the settings unless it says something that cannot be. -/
theorem withEnvironment_eq :
    withEnvironment around env s =
      (badLevel? env).elim
        (((environmentItems env).mapM externOfItem).map fun libraries =>
          overlaid around env libraries s)
        fun level => .error (invalidOptimization level) := by
  -- However a variable wins, its value is read if it has one, and else the setting stays.
  have hor {α : Type} (o x : Option α) : (o <|> x) = o.elim x some := by
    cases o <;> rfl
  have hmap {α β : Type} (f : α → β) (o : Option α) (x : β) : (o.map f).getD x = o.elim x f := by
    cases o <;> rfl
  have hget {α : Type} (o : Option α) (x : α) : o.getD x = o.elim x id := by
    cases o <;> rfl
  have htiming (o : Option Text) (x : Option Path) :
      (o.bind fun value => if isYes value then some (timingLogOf around value) else none).elim x
          some =
        (o.filter isYes).elim x fun value => some (timingLogOf around value) := by
    cases o with
    | none => rfl
    | some value => cases hyes : isYes value <;> simp [Option.filter, hyes]
  have hlevels : env Setting.optimization.variableName = env "VCSN_OPT_LEVEL".toList := rfl
  have hitems : environmentItems env = (env "VCSN_EXTERN".toList).elim [] externItems := rfl
  unfold withEnvironment badLevel? overlaid
  dsimp only
  simp only [hor, hmap, hget, htiming]
  rw [hlevels, hitems]
  -- What is left is whether the level may be used and whether the libraries can be read.
  cases env "VCSN_OPT_LEVEL".toList with
  | none =>
      cases env "VCSN_EXTERN".toList with
      | none => rfl
      | some value =>
          dsimp only [Option.elim]
          cases (externItems value).mapM externOfItem <;> rfl
  | some level =>
      by_cases hmem : optimizations.contains level = true
      · rw [Option.filter_some_neg (by simpa using hmem)]
        dsimp only
        rw [if_pos hmem]
        cases env "VCSN_EXTERN".toList with
        | none => rfl
        | some value =>
            dsimp only [Option.elim]
            cases (externItems value).mapM externOfItem <;> rfl
      · rw [Option.filter_some_pos (by simpa using hmem)]
        dsimp only
        rw [if_neg hmem]
        rfl

theorem withEnvironment_eq_ok_iff :
    withEnvironment around env s = .ok c ↔
      badLevel? env = none ∧ ∃ libraries, (environmentItems env).mapM externOfItem = .ok libraries ∧
        overlaid around env libraries s = c := by
  rw [withEnvironment_eq]
  cases badLevel? env with
  | some level => exact ⟨nofun, nofun⟩
  | none =>
      cases (environmentItems env).mapM externOfItem with
      | error v => exact ⟨nofun, nofun⟩
      | ok libraries =>
          constructor
          · intro h
            cases h
            exact ⟨rfl, libraries, rfl, rfl⟩
          · rintro ⟨-, libraries', heq, rfl⟩
            cases heq
            rfl

/-- The same layer once more changes nothing. -/
theorem overlaid_overlaid (h : (Table.keys s.externs).Pairwise (· < ·)) :
    overlaid around env libraries (overlaid around env libraries s) =
      overlaid around env libraries s := by
  have helim {α β : Type} (o : Option α) (f : α → β) (x : β) :
      o.elim (o.elim x f) f = o.elim x f := by
    cases o <;> rfl
  simp only [overlaid, helim, Table.insertAll_insertAll libraries h]

/-- What a setting is under the layer depends on its variable and on what it was. -/
theorem same_overlaid {x : Setting} (hvalue : env' x.variableName = env x.variableName)
    (h : (environmentItems env).mapM externOfItem = .ok libraries)
    (h' : (environmentItems env').mapM externOfItem = .ok libraries') (hsame : x.Same s' s) :
    x.Same (overlaid around env' libraries' s') (overlaid around env libraries s) := by
  cases x with
  | externs =>
      have hitems : environmentItems env' = environmentItems env :=
        congrArg (Option.elim · [] externItems) hvalue
      rw [hitems, h] at h'
      cases h'
      exact congrArg (Table.insertAll libraries) hsame
  | home => exact hsame
  | _ =>
      simp only [Setting.Same] at hsame
      simp only [Setting.Same, overlaid, hvalue, hsame]

theorem homeOf_congr
    (hvalue : env' Setting.home.variableName = env Setting.home.variableName) :
    homeOf around env' = homeOf around env := by
  have heq : env' "VCSN_HOME".toList = env "VCSN_HOME".toList := hvalue
  rw [homeOf, homeOf, heq]

/-! ## The settings file as a layer -/

/-- The settings are those of the file at the path: what it does not say is as usual. -/
inductive Says (around : Surroundings) (d : Disk) (path : Path) (s : Settings) : Prop where
  /-- There is no file. -/
  | nothing : d.read path = .error .notFound → s = usual around → Says around d path s
  /-- A setting is what is written under its key, and the libraries are those that are named. -/
  | written {text : Text} {sts : List Statement} :
      d.read path = .ok text → statements? text = some sts →
      (∀ (x : Setting) (key : Text), x.key? = some key →
        x.Settled (usual around) (written? key sts) s) →
      s.externs = Table.insertAll (librariesOf false sts) [] → Says around d path s

theorem says_of_ofPath {path : Path} (h : ofPath around d path = .ok s) : Says around d path s := by
  unfold ofPath at h
  split at h
  next text hread =>
      split at h
      next hfile =>
          cases h
          obtain ⟨sts, hsts, hsettled, hexterns, -⟩ := ofFile?_says hfile
          exact .written hread hsts hsettled hexterns
      next => cases h
  next hread =>
      cases h
      exact .nothing hread rfl
  next => cases h

theorem Says.ascending {path : Path} (h : Says around d path s) :
    (Table.keys s.externs).Pairwise (· < ·) := by
  cases h with
  | nothing _ heq =>
      rw [heq]
      exact List.Pairwise.nil
  | written _ _ _ hexterns =>
      rw [hexterns]
      exact Table.pairwise_keys_insertAll _ List.Pairwise.nil

theorem load_eq_ok_iff :
    load around env d = .ok c ↔ ∃ file, ofPath around d (fileIn (homeOf around env)) = .ok file ∧
      withEnvironment around env { file with home := homeOf around env } = .ok c := by
  unfold load
  rw [bind_eq_ok_iff]
  refine exists_congr fun file => and_congr_right fun _ => ?_
  cases withEnvironment around env { file with home := homeOf around env } with
  | error v => exact ⟨nofun, nofun⟩
  | ok s => exact ⟨fun h => by cases h; rfl, fun h => by cases h; rfl⟩

/-! ## All layers -/

/-- The settings `c` lie over those of the file, each as its own variable says. -/
structure Layered (around : Surroundings) (env : Environment) (file c : Settings) : Prop where
  compiler : c.compiler = (env Setting.compiler.variableName).elim file.compiler some
  flags : c.flags = (env Setting.flags.variableName).elim file.flags Text.words
  edition : c.edition = (env Setting.edition.variableName).elim file.edition id
  optimization : c.optimization = (env Setting.optimization.variableName).elim file.optimization id
  libraryPath : c.libraryPath =
    (env Setting.libraryPath.variableName).elim file.libraryPath (Text.splitAt ':')
  plugins : c.plugins = (env Setting.plugins.variableName).elim file.plugins some
  verbose : c.verbose = (env Setting.verbose.variableName).elim file.verbose fun value =>
    decide (value ≠ [] ∧ value ≠ "0".toList)
  debug : c.debug = (env Setting.debug.variableName).elim file.debug fun value =>
    decide (value ≠ [] ∧ value ≠ "0".toList)
  /-- The last item for a name counts, and where there is none, the file. -/
  externs : ∃ libraries, List.Forall₂ Names (environmentItems env) libraries ∧
    ∀ name, Table.get? name c.externs =
      (libraries.reverse.lookup name).or (Table.get? name file.externs)
  ascending : (Table.keys c.externs).Pairwise (· < ·)
  /-- Nothing but a value that means yes changes the file of times. -/
  timingLog_yes : ∀ value, env Setting.timingLog.variableName = some value → value ≠ [] →
    value ≠ "0".toList → c.timingLog = some (timingLogOf around value)
  timingLog_no : (∀ value, env Setting.timingLog.variableName = some value →
    value = [] ∨ value = "0".toList) → c.timingLog = file.timingLog
  home : c.home = homeOf around env
  pluginDirectory : c.pluginDirectory around =
    ((env Setting.plugins.variableName).elim file.plugins some).elim
      (Path.join (homeOf around env) "plugins".toList) (Path.expandTilde around.home)

theorem isYes_eq (value : Text) : isYes value = decide (value ≠ [] ∧ value ≠ "0".toList) := by
  rw [Bool.eq_iff_iff]
  simp [isYes]

theorem layered_overlaid {file : Settings} (hfile : (Table.keys file.externs).Pairwise (· < ·))
    (h : (environmentItems env).mapM externOfItem = .ok libraries) :
    Layered around env file
      (overlaid around env libraries { file with home := homeOf around env }) where
  compiler := rfl
  flags := rfl
  edition := rfl
  optimization := rfl
  libraryPath := rfl
  plugins := rfl
  verbose := by
    rw [← funext isYes_eq]
    rfl
  debug := by
    rw [← funext isYes_eq]
    rfl
  externs := ⟨libraries, mapM_externOfItem h, fun name => Table.get?_insertAll name libraries _⟩
  ascending := Table.pairwise_keys_insertAll libraries hfile
  timingLog_yes value hvalue hne hzero := by
    have hyes : isYes value = true := by
      rw [isYes_eq]
      exact decide_eq_true ⟨hne, hzero⟩
    simp only [overlaid, hvalue, Option.filter_some_pos hyes, Option.elim]
  timingLog_no hno := by
    have hnone : (env Setting.timingLog.variableName).filter isYes = none := by
      refine Option.filter_eq_none_iff.2 fun value hvalue hyes => ?_
      rw [isYes_eq] at hyes
      obtain ⟨hne, hzero⟩ := of_decide_eq_true hyes
      exact (hno value hvalue).elim hne hzero
    simp only [overlaid, hnone, Option.elim]
  home := rfl
  pluginDirectory := by
    unfold pluginDirectory overlaid
    cases (env Setting.plugins.variableName).elim file.plugins some <;> rfl

/--
Settings that can be loaded lie over those of their file, and loading the environment once more
leaves them as they are.  Any other load, from whatever file and environment, agrees on each setting
for which the file and the variable agree; for the home directory the variable is enough.
-/
theorem load_in_layers (h : load around env d = .ok c) :
    ∃ file, ofPath around d (fileIn (homeOf around env)) = .ok file ∧
      Says around d (fileIn (homeOf around env)) file ∧ Layered around env file c ∧
      withEnvironment around env c = .ok c ∧
      ∀ (env' : Environment) (d' : Disk) (file' c' : Settings),
        ofPath around d' (fileIn (homeOf around env')) = .ok file' →
        load around env' d' = .ok c' →
          ∀ x : Setting, env' x.variableName = env x.variableName →
            x = .home ∨ x.Same file' file → x.Same c' c := by
  obtain ⟨file, hfile, hc⟩ := load_eq_ok_iff.1 h
  have hsays := says_of_ofPath hfile
  obtain ⟨hlevel, libraries, hlibraries, rfl⟩ := withEnvironment_eq_ok_iff.1 hc
  refine ⟨file, hfile, hsays, layered_overlaid hsays.ascending hlibraries, ?_, ?_⟩
  · exact withEnvironment_eq_ok_iff.2
      ⟨hlevel, libraries, hlibraries, overlaid_overlaid hsays.ascending⟩
  · intro env' d' file' c' hfile' hload' x hvalue hx
    obtain ⟨found, hfound, hc'⟩ := load_eq_ok_iff.1 hload'
    obtain rfl : file' = found := Except.ok.inj (hfile'.symm.trans hfound)
    obtain ⟨-, libraries', hlibraries', rfl⟩ := withEnvironment_eq_ok_iff.1 hc'
    refine same_overlaid hvalue hlibraries hlibraries' ?_
    -- The home directory is chosen before there is a file, by the variable alone.
    cases x with
    | home => exact homeOf_congr hvalue
    | _ => exact hx.resolve_left nofun

/-- A directory with a settings file. -/
def servedDisk : Disk where
  nodes := [
    (["srv".toList], .directory 0),
    (["srv".toList, "config.toml".toList],
      .file (.text "opt_level = \"3\"\n\n[extern]\nvcsn = \"/opt/vcsn\"\n".toList) 1)]
  clock := 2
  here := []

/-- An environment that names the directory and libraries. -/
def servedEnvironment : Environment := fun name =>
  [("VCSN_HOME".toList, "/srv".toList),
    ("VCSN_EXTERN".toList, "abi=/opt/abi; vcsn=/usr/vcsn".toList),
    ("VCSN_VERBOSE".toList, "1".toList)].lookup name

/-- What is loaded from the directory. -/
def servedSettings : Settings where
  optimization := "3".toList
  externs := [("abi".toList, "/opt/abi".toList), ("vcsn".toList, "/usr/vcsn".toList)]
  verbose := true
  home := "/srv".toList

theorem load_in_layers_served :
    load ⟨"/root".toList, "/tmp".toList⟩ servedEnvironment servedDisk = .ok servedSettings ∧
      ∃ file, Says ⟨"/root".toList, "/tmp".toList⟩ servedDisk "/srv/config.toml".toList file ∧
        Layered ⟨"/root".toList, "/tmp".toList⟩ servedEnvironment file servedSettings := by
  have hload : load ⟨"/root".toList, "/tmp".toList⟩ servedEnvironment servedDisk =
      .ok servedSettings := by decide +kernel
  obtain ⟨file, -, hsays, hlayered, -⟩ := load_in_layers hload
  exact ⟨hload, file, hsays, hlayered⟩

end Environments

end OnDemand.Settings
