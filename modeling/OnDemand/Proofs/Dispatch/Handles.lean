import OnDemand.Proofs.Dispatch.Openings
import OnDemand.Proofs.Positions

/-!
# One registry and one entry type for each name

Any number of visitors go about their errands in one catalogue, in any order of their steps, and
those that have opened a registry use it.  Whatever they do, there is one registry for a name, and
all who have opened it see the same entries; its entry type is the one that was bound first, and
only openings bind one.
-/

namespace OnDemand

/-- Visitors with the registries that they share. -/
structure Visits where
  visits : List Visit := []
  registries : Registries := {}

namespace Visits

/-- What happens next. -/
inductive Turn where
  /-- A visitor comes. -/
  | comes (errand : Errand)
  /-- The visitor with this number takes its next step. -/
  | steps (visit : Nat)
  /-- The registry that this visitor has opened is used to store an entry. -/
  | stores (visit : Nat) (signature : Signature) (entry : Entry)
  /-- The registry that this visitor has opened is used to look for an entry. -/
  | looks (visit : Nat) (signature : Signature)
  deriving DecidableEq

/-- The registry that the visitor with this number has opened. -/
def handle? (t : Visits) (i : Nat) : Option Nat := t.visits[i]?.bind Visit.handle?

/-- The visits after a turn. -/
def turn (t : Visits) : Turn → Visits
  | .comes errand => { t with visits := t.visits ++ [{ errand }] }
  | .steps i =>
    match t.visits[i]? with
    | some v =>
      let (v, registries) := v.step t.registries
      ⟨t.visits.set i v, registries⟩
    | none => t
  | .stores i signature entry =>
    { t with
      registries := match t.handle? i with
        | some r => t.registries.store r signature entry
        | none => t.registries }
  | .looks i signature =>
    { t with
      registries := match t.handle? i with
        | some r => (t.registries.look r signature).1
        | none => t.registries }

/-- The visits after the turns in order. -/
def run (t : Visits) (ts : List Turn) : Visits := ts.foldl turn t

/-- What a turn inserts: an operation is meant by its name. -/
def insertions (t : Visits) : Turn → List Insertion
  | .steps i => (t.visits[i]?.map Visit.insertions).getD []
  | .stores i signature entry =>
    match t.visits[i]? with
    | some v => if v.handle?.isSome then [⟨v.errand.name, signature, entry⟩] else []
    | none => []
  | _ => []

/-- What the turns insert in order. -/
def inserted (t : Visits) : List Turn → List Insertion
  | [] => []
  | m :: ts => t.insertions m ++ (t.turn m).inserted ts

/-- Which operation a turn binds, unless its name is bound. -/
def asks (t : Visits) : Turn → List Operation
  | .steps i => (t.visits[i]?.map Visit.asks).getD []
  | _ => []

/-- Which operations the turns ask for in order. -/
def asked (t : Visits) : List Turn → List Operation
  | [] => []
  | m :: ts => t.asks m ++ (t.turn m).asked ts

/-! ## Turns -/

section

variable {t : Visits} {i : Nat} {v : Visit}

theorem turn_steps (hv : t.visits[i]? = some v) :
    ∃ p rs, t.turn (.steps i) = ⟨t.visits.set i { v with stage := p }, rs⟩ ∧
      v.Turns t.registries p rs := by
  rcases v.exists_turns t.registries with ⟨p, rs, hstep, hturns⟩
  exact ⟨p, rs, by simp [turn, hv, hstep], hturns⟩

theorem turn_steps_none (hv : t.visits[i]? = none) : t.turn (.steps i) = t := by
  simp [turn, hv]

/-- A visitor is where it was, unless it took the step itself. -/
theorem visit_turn (hv : t.visits[i]? = some v) {m : Turn} (hm : m ≠ .steps i) :
    (t.turn m).visits[i]? = some v := by
  have hlt : i < t.visits.length := (List.getElem?_eq_some_iff.1 hv).1
  cases m with
  | comes errand => exact (List.getElem?_append_left hlt).trans hv
  | steps j =>
      have hij : j ≠ i := fun h => hm (by rw [h])
      cases hj : t.visits[j]? with
      | some w =>
          rcases turn_steps hj with ⟨p, rs, heq, -⟩
          rw [heq]
          exact (List.getElem?_set_ne hij).trans hv
      | none =>
          rw [turn_steps_none hj]
          exact hv
  | stores j signature entry => exact hv
  | looks j signature => exact hv

/-- Where a visitor is after its own step. -/
theorem visit_steps (hv : t.visits[i]? = some v) :
    ∃ p, (t.turn (.steps i)).visits[i]? = some { v with stage := p } ∧
      v.Turns t.registries p (t.turn (.steps i)).registries := by
  rcases turn_steps hv with ⟨p, rs, heq, hturns⟩
  rw [heq]
  exact ⟨p, List.getElem?_set_self (List.getElem?_eq_some_iff.1 hv).1, hturns⟩

theorem asks_cases (t : Visits) (m : Turn) :
    t.asks m = [] ∨ ∃ i v operation r, m = .steps i ∧ t.visits[i]? = some v ∧
      v.errand = .opens operation ∧ v.stage = .holds r ∧ t.asks m = [operation] := by
  cases m with
  | steps i =>
      cases hv : t.visits[i]? with
      | none => exact .inl (by simp [asks, hv])
      | some v =>
          rcases v.asks_cases with hnone | ⟨operation, r, herrand, hstage, hasks⟩
          · exact .inl (by simp [asks, hv, hnone])
          · exact .inr ⟨i, v, operation, r, rfl, hv, herrand, hstage, by simp [asks, hv, hasks]⟩
  | _ => exact .inl rfl

end

/-! ## What every run preserves -/

/-- Registries are found by name, and what each visitor knows is so. -/
structure Sound (t : Visits) : Prop where
  indexed : t.registries.Indexed
  visits : ∀ v ∈ t.visits, v.Fits t.registries

theorem sound_start : Sound {} where
  indexed := Registries.indexed_empty
  visits := by
    intro v hv
    cases hv

section

variable {t : Visits}

/-- A turn is a step of a visitor, or it leaves all visitors where they are. -/
theorem Sound.effects (h : t.Sound) (m : Turn) :
    t.registries.Gains (t.turn m).registries (t.insertions m) ∧
      t.registries.Binds (t.turn m).registries (t.asks m) := by
  have hstays : t.registries.Gains t.registries [] ∧ t.registries.Binds t.registries [] :=
    ⟨.refl _, .of_eq fun _ => rfl⟩
  cases m with
  | comes errand => exact hstays
  | steps i =>
      cases hv : t.visits[i]? with
      | some v =>
          rcases turn_steps hv with ⟨p, rs, heq, hturns⟩
          have hfits := h.visits v (List.mem_of_getElem? hv)
          simp only [insertions, asks, hv, Option.map_some, Option.getD_some, heq]
          exact ⟨hturns.gains hfits h.indexed, hturns.binds hfits h.indexed⟩
      | none =>
          rw [turn_steps_none hv]
          simp only [insertions, asks, hv, Option.map_none, Option.getD_none]
          exact hstays
  -- Only a visitor that has been given a handle can store anything.
  | stores i signature entry =>
      cases hv : t.visits[i]? with
      | none => simpa [turn, insertions, asks, handle?, hv] using hstays
      | some v =>
          cases hr : v.handle? with
          | none => simpa [turn, insertions, asks, handle?, hv, hr] using hstays
          | some r =>
              have hfound := (h.visits v (List.mem_of_getElem? hv)).find?_handle hr
              have hstore := t.registries.gains_store (h.indexed.lt hfound) signature entry
              rw [h.indexed.name_eq hfound] at hstore
              simp only [turn, insertions, asks, handle?, hv, hr, Option.bind_some]
              exact ⟨hstore, t.registries.binds_store r signature entry⟩
  | looks i signature =>
      cases hr : t.handle? i with
      | none => simpa [turn, insertions, asks, hr] using hstays
      | some r =>
          simp only [turn, insertions, asks, hr]
          exact ⟨t.registries.gains_look r signature, t.registries.binds_look r signature⟩

theorem Sound.turn (h : t.Sound) (m : Turn) : (t.turn m).Sound := by
  rcases h.effects m with ⟨hgains, hbinds⟩
  have hothers : ∀ v ∈ t.visits, v.Fits (t.turn m).registries := fun v hv =>
    (h.visits v hv).mono h.indexed hgains hbinds
  refine ⟨hgains.indexed h.indexed, ?_⟩
  cases m with
  | comes errand =>
      intro v hv
      rcases List.mem_append.1 hv with hold | hnew
      · exact hothers v hold
      · rw [List.mem_singleton.1 hnew]
        exact Visit.fits_start _ errand
  | steps i =>
      cases hv : t.visits[i]? with
      | some v =>
          rcases turn_steps hv with ⟨p, rs, heq, hturns⟩
          rw [heq] at hothers ⊢
          intro w hw
          -- One visitor has taken a step, the others see the registries change.
          rcases List.getElem?_of_mem hw with ⟨j, hj⟩
          rcases getElem?_set_cases hj with ⟨-, rfl⟩ | ⟨-, hold⟩
          · exact hturns.fits (h.visits v (List.mem_of_getElem? hv)) h.indexed
          · exact hothers w (List.mem_of_getElem? hold)
      | none =>
          rw [turn_steps_none hv]
          exact h.visits
  | stores i signature entry => exact hothers
  | looks i signature => exact hothers

theorem Sound.run (h : t.Sound) (ts : List Turn) :
    (t.run ts).Sound ∧ t.registries.Gains (t.run ts).registries (t.inserted ts) ∧
      t.registries.Binds (t.run ts).registries (t.asked ts) := by
  induction ts generalizing t with
  | nil => exact ⟨h, .refl _, .of_eq fun _ => rfl⟩
  | cons m ts ih =>
      have heffects := h.effects m
      rcases ih (h.turn m) with ⟨hsound, hgains, hbinds⟩
      exact ⟨hsound, heffects.1.trans hgains, heffects.2.trans hbinds⟩

/-- Where a visitor is after a run: at its answer, if it has taken so many steps. -/
theorem visit_run {i : Nat} {v : Visit} (hv : t.visits[i]? = some v) (ts : List Turn) :
    ∃ p, (t.run ts).visits[i]? = some { v with stage := p } ∧
      Visit.stepsLeft { v with stage := p } ≤ v.stepsLeft - ts.count (.steps i) ∧
      ∀ answer, v.stage = .done answer → p = .done answer := by
  induction ts generalizing t v with
  | nil => exact ⟨v.stage, hv, Nat.le_refl _, fun _ h => h⟩
  | cons m ts ih =>
      by_cases hm : m = .steps i
      · subst hm
        rcases visit_steps hv with ⟨p, hp, hturns⟩
        rcases ih hp with ⟨p', hp', hleft, hanswer⟩
        refine ⟨p', hp', ?_, ?_⟩
        · rw [List.count_cons_self]
          by_cases hzero : v.stepsLeft = 0
          · rcases Visit.stepsLeft_eq_zero hzero with ⟨answer, hdone⟩
            -- There are no steps to take any more.
            have hsame : { v with stage := p } = v := by rw [(hturns.eq_of_done hdone).1]
            rw [hsame] at hleft
            omega
          · have hlt := hturns.stepsLeft_lt hzero
            have hleft' : Visit.stepsLeft { v with stage := p' } ≤
                Visit.stepsLeft { v with stage := p } - ts.count (.steps i) := hleft
            omega
        · intro answer hdone
          exact hanswer answer ((hturns.eq_of_done hdone).1.trans hdone)
      · rcases ih (visit_turn hv hm) with ⟨p, hp, hleft, hanswer⟩
        refine ⟨p, hp, ?_, hanswer⟩
        rwa [List.count_cons_of_ne (Ne.symm (fun h => hm h.symm))]

end

/-! ## One of each -/

/--
There is one registry and one entry type for each name, where the entries of `log` have been
inserted in order and the operations of `asked` have been asked for in order.
-/
structure OneForEach (t : Visits) (log : List Insertion) (asked : List Operation) : Prop where
  /-- No two registries have been created with the same name. -/
  unique : (t.registries.registries.map Registry.name).Nodup
  /-- Whoever has found or created a registry has the one with its name. -/
  held : ∀ v ∈ t.visits, ∀ r, v.stage = .holds r → t.registries.find? v.errand.name = some r
  /-- So has whoever has opened one. -/
  handle : ∀ v ∈ t.visits, ∀ r, v.handle? = some r →
    t.registries.find? v.errand.name = some r ∧ (t.registries.registry r).name = v.errand.name
  /-- An opening has been answered with what has come of it, and each other errand in kind. -/
  answered : ∀ v ∈ t.visits, ∀ answer, v.stage = .done answer → v.errand.CallsFor answer
  /-- What anybody has stored for a name is seen by all who have opened its registry. -/
  seen : ∀ v ∈ t.visits, ∀ r, v.handle? = some r → ∀ s,
    (t.registries.look r s).2 = lastWrite log v.errand.name s
  /-- It is seen by name as well. -/
  known : ∀ name s, (t.registries.lookIn name s).2 = lastWrite log name s
  /-- The entry type of a name is the one that was asked for first. -/
  bound : ∀ name, t.registries.bound? name = Registries.firstAsked asked name
  /-- Whoever has opened a registry has asked for this type. -/
  opened : ∀ v ∈ t.visits, ∀ operation r, v.errand = .opens operation →
    v.stage = .done (.opened (.ok r)) →
    Registries.firstAsked asked operation.name = some operation.entryType
  /-- Whoever was refused has asked for another one, and was told so. -/
  refused : ∀ v ∈ t.visits, ∀ operation e, v.errand = .opens operation →
    v.stage = .done (.opened (.error e)) →
    ∃ own, Registries.firstAsked asked operation.name = some own ∧ own ≠ operation.entryType ∧
      e = .entryTypeMismatch operation.name own operation.entryType

/-- What a turn may do to entries and to entry types. -/
structure Careful (t : Visits) (m : Turn) : Prop where
  /-- No step of an opening changes an entry. -/
  opens : ∀ i v operation, m = .steps i → t.visits[i]? = some v → v.errand = .opens operation →
    ∀ name s, (t.turn m).registries.known name s = t.registries.known name s
  /-- Only an opening binds an entry type, and only where none is bound. -/
  binds : ∀ name, (t.turn m).registries.bound? name = t.registries.bound? name ∨
    ∃ i v operation r, m = .steps i ∧ t.visits[i]? = some v ∧ v.errand = .opens operation ∧
      v.stage = .holds r ∧ operation.name = name ∧ t.registries.bound? name = none ∧
      (t.turn m).registries.bound? name = some operation.entryType
  /-- An opening with another type than the bound one is refused and changes nothing. -/
  refuses : ∀ i v operation r own, m = .steps i → t.visits[i]? = some v →
    v.errand = .opens operation → v.stage = .holds r →
    t.registries.bound? operation.name = some own → own ≠ operation.entryType →
    t.turn m = ⟨t.visits.set i { v with
      stage := .done (.opened (.error
        (.entryTypeMismatch operation.name own operation.entryType))) }, t.registries⟩
  /-- Whoever looks by name is given the entry that is known at that time. -/
  looks : ∀ i v name s entry, m = .steps i → t.visits[i]? = some v → v.errand = .looks name s →
    v.stepsLeft ≠ 0 → (t.turn m).visits[i]? = some { v with stage := .done (.found entry) } →
    entry = t.registries.known name s
  /-- Whoever lists signatures by name is given those that are known at that time. -/
  lists : ∀ i v name signatures, m = .steps i → t.visits[i]? = some v → v.errand = .lists name →
    v.stepsLeft ≠ 0 →
    (t.turn m).visits[i]? = some { v with stage := .done (.listed signatures) } →
    signatures = t.registries.signaturesOf name

/-- What stays as it is, whatever turns come, and what they lead to. -/
structure Continues (t : Visits) (ts : List Turn) : Prop where
  /-- Registries are never removed or renamed. -/
  names : t.registries.registries.map Registry.name <+:
    (t.run ts).registries.registries.map Registry.name
  found : ∀ name r, t.registries.find? name = some r → (t.run ts).registries.find? name = some r
  bound : ∀ name type, t.registries.bound? name = some type →
    (t.run ts).registries.bound? name = some type
  /-- Answers are not taken back. -/
  answers : ∀ (i : Nat) (v : Visit) answer, t.visits[i]? = some v → v.stage = .done answer →
    (t.run ts).visits[i]? = some v
  /-- A visitor waits for nobody. -/
  answered : ∀ (i : Nat) (v : Visit), t.visits[i]? = some v → 3 ≤ ts.count (.steps i) →
    ∃ answer, (t.run ts).visits[i]? = some { v with stage := .done answer }
  /-- An opening of a bound name is decided. -/
  decided : ∀ (i : Nat) (v : Visit) operation own, t.visits[i]? = some v →
    v.errand = .opens operation → t.registries.bound? operation.name = some own →
    own ≠ operation.entryType → 3 ≤ ts.count (.steps i) →
    (t.run ts).visits[i]? = some { v with
      stage := .done (.opened (.error
        (.entryTypeMismatch operation.name own operation.entryType))) }

section

variable {t : Visits}

theorem Sound.oneForEach {log : List Insertion} {asked : List Operation} (h : t.Sound)
    (hknown : ∀ name s, t.registries.known name s = lastWrite log name s)
    (hbound : ∀ name, t.registries.bound? name = Registries.firstAsked asked name) :
    t.OneForEach log asked where
  unique := h.indexed.nodup_names
  held := fun v hv => (h.visits v hv).holds
  handle := by
    intro v hv r hr
    have hfound := (h.visits v hv).find?_handle hr
    exact ⟨hfound, h.indexed.name_eq hfound⟩
  answered := fun v hv => (h.visits v hv).answered
  seen := by
    intro v hv r hr s
    have hfound := (h.visits v hv).find?_handle hr
    rw [← hknown, Registries.known, hfound, Option.bind_some]
    rfl
  known := by
    intro name s
    rw [Registries.lookIn_eq_known, hknown]
  bound := hbound
  opened := by
    intro v hv operation r herrand hstage
    rw [← hbound]
    exact ((h.visits v hv).opened operation r herrand hstage).2
  refused := by
    intro v hv operation e herrand hstage
    rw [← hbound]
    exact (h.visits v hv).refused operation e herrand hstage

theorem Sound.careful (h : t.Sound) (m : Turn) : t.Careful m where
  opens := by
    rintro i v operation rfl hv herrand name s
    have hgains := (h.effects (.steps i)).1
    have hnone : t.insertions (.steps i) = [] := by
      simp [insertions, hv, Visit.insertions, herrand]
    rw [hnone] at hgains
    rw [hgains.known h.indexed, lastWrite, Option.none_or]
  binds := by
    intro name
    have hbinds := (h.effects m).2
    -- A name is bound by a step that opens the registry, and by nothing else.
    rcases t.asks_cases m with hnone | ⟨i, v, operation, r, rfl, hv, herrand, hstage, hasks⟩
    · rw [hnone] at hbinds
      exact .inl (hbinds.bound?_eq name)
    · rw [hasks] at hbinds
      have hafter := hbinds name
      rw [Registries.firstAsked_singleton] at hafter
      by_cases hname : operation.name = name
      · rw [if_pos hname] at hafter
        -- The type that was asked for first stays.
        cases hbefore : t.registries.bound? name with
        | some own =>
            rw [hbefore, Option.some_or] at hafter
            exact .inl hafter
        | none =>
            rw [hbefore, Option.none_or] at hafter
            exact .inr ⟨i, v, operation, r, rfl, hv, herrand, hstage, hname, rfl, hafter⟩
      · rw [if_neg hname, Option.or_none] at hafter
        exact .inl hafter
  refuses := by
    rintro i v operation r own rfl hv herrand hstage hown hne
    have hr := (h.visits v (List.mem_of_getElem? hv)).holds r hstage
    rw [herrand] at hr
    -- The name is bound to another type, so the registry is not opened.
    rcases Visit.act_opens h.indexed hr with ⟨own', hown', -, hact⟩ | ⟨hbound, -, -⟩
    · cases hown.symm.trans hown'
      have hstep : v.step t.registries = ({ v with
          stage := .done (.opened (.error
            (.entryTypeMismatch operation.name own operation.entryType))) }, t.registries) := by
        simp only [Visit.step, hstage, herrand, hact]
      simp only [Visits.turn, hv, hstep]
    · rw [hown] at hbound
      exact absurd hbound hne
  looks := by
    rintro i v name s entry rfl hv herrand hleft hafter
    rcases visit_steps hv with ⟨p, hp, hturns⟩
    refine hturns.found_eq (h.visits v (List.mem_of_getElem? hv)) herrand hleft ?_
    exact congrArg Visit.stage (Option.some.inj (hp.symm.trans hafter))
  lists := by
    rintro i v name signatures rfl hv herrand hleft hafter
    rcases visit_steps hv with ⟨p, hp, hturns⟩
    refine hturns.listed_eq (h.visits v (List.mem_of_getElem? hv)) herrand hleft ?_
    exact congrArg Visit.stage (Option.some.inj (hp.symm.trans hafter))

theorem Sound.continues (h : t.Sound) (ts : List Turn) : t.Continues ts := by
  rcases h.run ts with ⟨hsound, hgains, hbinds⟩
  have hanswered : ∀ i v, t.visits[i]? = some v → 3 ≤ ts.count (.steps i) →
      ∃ answer, (t.run ts).visits[i]? = some { v with stage := .done answer } := by
    intro i v hv hcount
    rcases visit_run hv ts with ⟨p, hp, hleft, -⟩
    have hmost : v.stepsLeft ≤ 3 := by
      unfold Visit.stepsLeft
      split <;> omega
    rcases Visit.stepsLeft_eq_zero (v := { v with stage := p }) (by omega) with ⟨answer, hdone⟩
    exact ⟨answer, by rw [hp]; exact congrArg some (by rw [← hdone])⟩
  refine ⟨hgains.names_prefix, fun name r => hgains.find? h.indexed,
    fun name type => hbinds.persists, ?_, hanswered, ?_⟩
  · intro i v answer hv hdone
    rcases visit_run hv ts with ⟨p, hp, -, hanswer⟩
    rw [hp, hanswer answer hdone, ← hdone]
  · intro i v operation own hv herrand hown hne hcount
    rcases hanswered i v hv hcount with ⟨answer, hafter⟩
    -- An opening that has its answer was given the registry or refused; the binding excludes one.
    have hfits := hsound.visits _ (List.mem_of_getElem? hafter)
    have hown' := hbinds.persists hown
    have hanswer := hfits.answered answer rfl
    rw [herrand] at hanswer
    rcases hanswer.eq_opened with ⟨result, rfl⟩
    cases result with
    | ok r =>
        have hopened := (hfits.opened operation r herrand rfl).2
        exact absurd (Option.some.inj (hown'.symm.trans hopened)) hne
    | error e =>
        rcases hfits.refused operation e herrand rfl with ⟨own', hbound, -, rfl⟩
        cases hown'.symm.trans hbound
        exact hafter

end

/--
However many visitors open, fill and read the registries of a catalogue, in whatever order they take
their steps: there is one registry and one entry type for each name, and an opening that does not
fit is refused and changes nothing.
-/
theorem one_registry_for_each_name (ts : List Turn) :
    (run {} ts).OneForEach (inserted {} ts) (asked {} ts) ∧ (∀ m, (run {} ts).Careful m) ∧
      ∀ ts', (run {} ts).Continues ts' := by
  rcases sound_start.run ts with ⟨hsound, hgains, hbinds⟩
  refine ⟨hsound.oneForEach ?_ ?_, hsound.careful, hsound.continues⟩
  · intro name s
    rw [hgains.known Registries.indexed_empty]
    exact Option.or_none
  · intro name
    rw [hbinds name]
    exact Option.none_or

/-- Both have missed the registry; the second to create it is the first to bind it. -/
example :
    let t := run {} [.comes (.opens ⟨['f'], [], .value⟩),
      .comes (.opens ⟨['f'], [.string], .value⟩), .steps 0, .steps 1, .steps 0, .steps 1, .steps 1,
      .steps 0, .stores 1 [['b']] ⟨1, by decide⟩]
    t.registries.registries.length = 1 ∧ t.handle? 0 = none ∧ t.handle? 1 = some 0 ∧
      t.registries.bound? ['f'] = some ⟨[.string], .value⟩ ∧
      t.registries.known ['f'] [['b']] = some ⟨1, by decide⟩ := by
  decide +kernel

end Visits
end OnDemand
