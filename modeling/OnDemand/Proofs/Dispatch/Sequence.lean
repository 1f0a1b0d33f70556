import OnDemand.Proofs.Dispatch.Entries

/-!
# A catalogue used by one caller

A single caller that uses a catalogue step by step sees a map from operations and signatures to
entries, where the last insertion counts.  Each look-up that misses asks the specializer once, and
between steps no flight is under way.  `Usage` is the catalogue with the handles that the caller has
opened, and with a record that the specializer itself keeps (`Specializer.recorded`).  What has been
inserted is read off the steps that the caller has taken and off this record (`Usage.inserted`).
-/

namespace OnDemand

/-! ## Look-ups by a single caller -/

namespace Registries

/-- No flight is under way. -/
def Quiet (rs : Registries) : Prop := ∀ r s, rs.flying? r s = none

theorem quiet_empty : Quiet {} := fun _ _ => rfl

theorem Quiet.flights_eq_nil {rs : Registries} (h : rs.Quiet) {registry : Registry}
    (hmem : registry ∈ rs.registries) : registry.flights = [] := by
  rcases List.getElem?_of_mem hmem with ⟨r, hr⟩
  have hregistry : rs.registry r = registry := by simp [Registries.registry, hr]
  cases hflights : registry.flights with
  | nil => rfl
  | cons b t =>
      have hnone := h r b.1
      rw [flying?, hregistry, hflights, Table.get?, if_pos rfl] at hnone
      cases hnone

theorem Quiet.keeps {rs rs' : Registries} (h : rs.Quiet) (hkeeps : rs.Keeps rs') : rs'.Quiet := by
  intro r s
  rw [hkeeps.flying]
  exact h r s

/-- The registries when a single caller that has missed an entry asks the specializer. -/
def attempting (rs : Registries) (r : Nat) (s : Signature) : Registries :=
  ((rs.look r s).1.launched r s).setFlight rs.flights.length .running

/-- The registries when the caller has taken out its flight, which has come to an outcome. -/
def settled (rs : Registries) (f : Nat) (outcome : Outcome) (r : Nat) (s : Signature) :
    Registries :=
  (rs.setFlight f (.finished outcome)).leave r s

theorem gains_attempting (rs : Registries) (r : Nat) (s : Signature) :
    Gains rs (rs.attempting r s) [] :=
  (gains_look rs r s).after ((gains_launched _ r s).after (gains_setFlight _ _ _))

theorem gains_settled (rs : Registries) (f : Nat) (outcome : Outcome) (r : Nat) (s : Signature) :
    Gains rs (rs.settled f outcome r s) [] :=
  (gains_setFlight rs f _).after (gains_leave _ r s)

/-- The flight of a single caller is the only one, and it takes it out. -/
theorem Quiet.settled {rs rs' : Registries} (h : rs.Quiet) {r : Nat}
    (hr : r < rs.registries.length) {s : Signature} (hkeeps : (rs.attempting r s).Keeps rs')
    (f : Nat) (outcome : Outcome) : (rs'.settled f outcome r s).Quiet := by
  intro r' s'
  rw [Registries.settled, flying?_leave]
  split
  next => rfl
  next hkey =>
      have hlook := keeps_look rs r s
      have hattempting : (rs.attempting r s).flying? r' s' =
          ((rs.look r s).1.launched r s).flying? r' s' := rfl
      change rs'.flying? r' s' = none
      rw [hkeeps.flying, hattempting, flying?_launched (Nat.lt_of_lt_of_le hr hlook.length),
        if_neg hkey, hlook.flying]
      exact h r' s'

end Registries

namespace Catalogue

variable {σ : Type} (specializer : Option (Specializer σ)) {rs : Registries} {r : Nat}
  (operation : Text) {s : Signature} (state : σ)

theorem getFrom_of_entry {entry : Entry} (h : rs.entry? r s = some entry) :
    getFrom specializer r operation s rs state = ((rs.look r s).1, .ok entry, state) := by
  simp [getFrom, Registries.look, h]

/-- A single caller that misses an entry launches a flight and runs it. -/
theorem produce_of_absent (hentry : rs.entry? r s = none) (hflying : rs.flying? r s = none) :
    produce specializer r s rs state =
      let attempt := specialize specializer ⟨(rs.registry r).name, s⟩
        ((rs.launched r s).setFlight rs.flights.length .running) state
      (attempt.1.settled rs.flights.length attempt.2.1 r s, attempt.2.1, attempt.2.2) := by
  have henter : rs.enter r s = (rs.launched r s, .owned rs.flights.length) := by
    rcases rs.enter_cases r s with ⟨hpresent, -⟩ | ⟨-, f, hf, -⟩ | ⟨-, -, henter⟩
    · rw [Registries.present, hentry] at hpresent
      cases hpresent
    · rw [hflying] at hf
      cases hf
    · exact henter
  have hname : ((rs.launched r s).registry r).name = (rs.registry r).name := by
    change ((rs.update r _).registry r).name = _
    rw [Registries.registry_update]
    split <;> rfl
  simp only [produce, henter, board, Registries.flight_launched_self, hname]
  rfl

theorem getFrom_of_absent (hentry : rs.entry? r s = none) (hflying : rs.flying? r s = none) :
    getFrom specializer r operation s rs state =
      let attempt := specialize specializer ⟨(rs.registry r).name, s⟩ (rs.attempting r s) state
      let rs' := attempt.1.settled rs.flights.length attempt.2.1 r s
      match attempt.2.1 with
      | .error source =>
        (rs', .error (.unavailable operation s (rs'.signatures r) source), attempt.2.2)
      | .ok () =>
        match Registries.entry? rs' r s with
        | some entry => ((rs'.look r s).1, .ok entry, attempt.2.2)
        | none => ((rs'.look r s).1, .error (.registrationInvariant operation s), attempt.2.2) := by
  have hlook : rs.look r s = ((rs.look r s).1, none) := by simp [Registries.look, hentry]
  have hentry' : Registries.entry? (rs.look r s).1 r s = none := hentry
  have hproduce := produce_of_absent specializer state hentry' hflying
  have hattempting : ((rs.look r s).1.launched r s).setFlight (rs.look r s).1.flights.length
      .running = rs.attempting r s := rfl
  have hname : ((rs.look r s).1.registry r).name = (rs.registry r).name := rfl
  have hlength : (rs.look r s).1.flights.length = rs.flights.length := rfl
  rw [hattempting, hname, hlength] at hproduce
  rw [getFrom, hlook]
  simp only [hproduce]
  generalize specialize specializer ⟨(rs.registry r).name, s⟩ (rs.attempting r s) state = attempt
  rcases attempt with ⟨rs', outcome, state'⟩
  cases outcome with
  | error source => rfl
  | ok done =>
      cases hfound :
          Registries.entry? (rs'.settled rs.flights.length (.ok done) r s) r s with
      | some entry => simp [Registries.look, hfound]
      | none => simp [Registries.look, hfound]

end Catalogue

/-! ## Records -/

/-- A request to the specializer, with what it inserted and what it reported. -/
structure Consultation where
  request : Request
  insertions : List Insertion
  outcome : Outcome

/-- What the specializer has been asked for, in order. -/
structure Record where
  consultations : List Consultation := []

/-- The record with one more consultation. -/
def Record.consult (record : Record) (c : Consultation) : Record where
  consultations := record.consultations ++ [c]

/-- The specializer that does the same and keeps a record of it. -/
def Specializer.recorded {σ : Type} (ask : Specializer σ) : Specializer (σ × Record) :=
  fun request rs state =>
    let attempt := ask request rs state.1
    { attempt with
      state := (attempt.state, state.2.consult ⟨request, attempt.insertions, attempt.outcome⟩) }

/-! ## Steps of a single caller -/

/-- A catalogue with the handles on its registries that have been opened. -/
structure Usage (σ : Type) where
  registries : Registries := {}
  specializer : Option (Specializer σ) := none
  /-- The number of a registry and the operation that it has been opened for. -/
  handles : List (Nat × Operation) := []
  state : σ
  record : Record := {}

/-- What the caller does next.  Handles are told by their number. -/
inductive Use (σ : Type) where
  | opens (operation : Operation)
  | stores (handle : Nat) (signature : Signature) (entry : Entry)
  | inserts (operation : Text) (signature : Signature) (entry : Entry)
  | looks (handle : Nat) (signature : Signature)
  | looksIn (operation : Text) (signature : Signature)
  | gets (handle : Nat) (signature : Signature)
  | callsWith (handle : Nat) (signature : Signature) (operands : List Operand)
  | calls (handle : Nat) (operands : List Operand)
  | installs (specializer : Specializer σ)

/-- The number of the handle that the caller uses. -/
def Use.handle? {σ : Type} : Use σ → Option Nat
  | .stores handle _ _ | .looks handle _ | .gets handle _ | .callsWith handle _ _
  | .calls handle _ => some handle
  | .opens _ | .inserts _ _ _ | .looksIn _ _ | .installs _ => none

/-- What the caller gets for it. -/
inductive Reply where
  | nothing
  | opened (result : Except DispatchError Nat)
  | found (entry : Option Entry)
  | answered (result : Except DispatchError Entry)
  | called (result : Except DispatchError Invocation)

namespace Usage

variable {σ : Type}

/-- The catalogue, whose specializer keeps a record. -/
def catalogue (u : Usage σ) : Catalogue (σ × Record) where
  registries := u.registries
  specializer := u.specializer.map Specializer.recorded

/-- What the use comes to when the catalogue and the specializer's state are as given. -/
def become (u : Usage σ) (c : Catalogue (σ × Record)) (state : σ × Record) : Usage σ :=
  { u with registries := c.registries, state := state.1, record := state.2 }

/-- A look-up in an open registry. -/
def get (u : Usage σ) (r : Nat) (operation : Operation) (s : Signature) :
    Usage σ × Except DispatchError Entry :=
  let (c, result, state) := u.catalogue.get r operation s (u.state, u.record)
  (u.become c state, result)

/-- The step of a caller that has a handle. -/
def withHandle (u : Usage σ) (handle : Nat) (f : Nat → Operation → Usage σ × Reply) :
    Usage σ × Reply :=
  match u.handles[handle]? with
  | some (r, operation) => f r operation
  | none => (u, .nothing)

/-- One step, with what the caller gets for it. -/
def step (u : Usage σ) : Use σ → Usage σ × Reply
  | .opens operation =>
    let (c, result) := u.catalogue.openRegistry operation
    let handles := match result with
      | .ok r => u.handles ++ [(r, operation)]
      | .error _ => u.handles
    ({ u with registries := c.registries, handles := handles }, .opened result)
  | .stores handle s entry => u.withHandle handle fun r _ =>
    ({ u with registries := u.registries.store r s entry }, .nothing)
  | .inserts operation s entry =>
    ({ u with registries := u.registries.insert operation s entry }, .nothing)
  | .looks handle s => u.withHandle handle fun r _ =>
    ({ u with registries := (u.registries.look r s).1 }, .found (u.registries.look r s).2)
  | .looksIn operation s =>
    ({ u with registries := (u.registries.lookIn operation s).1 },
      .found (u.registries.lookIn operation s).2)
  | .gets handle s => u.withHandle handle fun r operation =>
    let (u, result) := u.get r operation s
    (u, .answered result)
  | .callsWith handle s operands => u.withHandle handle fun r operation =>
    let (c, result, state) := u.catalogue.callWith r operation s operands (u.state, u.record)
    (u.become c state, .called result)
  | .calls handle operands => u.withHandle handle fun r operation =>
    let (c, result, state) := u.catalogue.call r operation operands (u.state, u.record)
    (u.become c state, .called result)
  | .installs specializer => ({ u with specializer := some specializer }, .nothing)

/-- The use after the steps in order. -/
def run (u : Usage σ) (steps : List (Use σ)) : Usage σ :=
  steps.foldl (fun u step => (u.step step).1) u

/-! ## What is inserted and what is asked for -/

/-- What the specializer has been asked for from `u` to `u'`. -/
def consulted (u u' : Usage σ) : List Consultation :=
  u'.record.consultations.drop u.record.consultations.length

/-- What the specializer has inserted from `u` to `u'`. -/
def supplied (u u' : Usage σ) : List Insertion :=
  (u.consulted u').flatMap Consultation.insertions

/-- What the caller inserts in a step: an operation is meant by its name. -/
def stored (u : Usage σ) : Use σ → List Insertion
  | .stores handle s entry =>
    match u.handles[handle]? with
    | some (_, operation) => [⟨operation.name, s, entry⟩]
    | none => []
  | .inserts operation s entry => [⟨operation, s, entry⟩]
  | _ => []

/-- What a step inserts. -/
def insertions (u : Usage σ) (step : Use σ) : List Insertion :=
  u.stored step ++ u.supplied (u.step step).1

/-- What the steps insert in order. -/
def inserted (u : Usage σ) : List (Use σ) → List Insertion
  | [] => []
  | step :: steps => u.insertions step ++ (u.step step).1.inserted steps

/--
What the specializer has to be asked for when a signature is looked up, where the entries of `log`
have been inserted.
-/
def missed (u : Usage σ) (log : List Insertion) (operation : Text) (s : Signature) : List Request :=
  if lastWrite log operation s = none ∧ u.specializer.isSome = true then [⟨operation, s⟩] else []

/-- What the specializer has to be asked for in a step. -/
def requests (u : Usage σ) (log : List Insertion) : Use σ → List Request
  | .gets handle s | .callsWith handle s _ =>
    match u.handles[handle]? with
    | some (_, operation) => u.missed log operation.name s
    | none => []
  | .calls handle operands =>
    match u.handles[handle]? with
    | some (_, operation) => u.missed log operation.name (Signature.ofOperands operands)
    | none => []
  | _ => []

/-- What the specializer has to be asked for in the steps in order. -/
def requested (u : Usage σ) (log : List Insertion) : List (Use σ) → List Request
  | [] => []
  | step :: steps =>
    u.requests log step ++ (u.step step).1.requested (log ++ u.insertions step) steps

/-- The entry that was inserted last, where one should have been inserted. -/
def promised (log : List Insertion) (operation : Text) (s : Signature) :
    Except DispatchError Entry :=
  match lastWrite log operation s with
  | some entry => .ok entry
  | none => .error (.registrationInvariant operation s)

/-- The answer when the entry was missing, by what has come of the attempt to produce it. -/
def outcome (u : Usage σ) (log : List Insertion) (operation : Text) (s : Signature) :
    Outcome → Except DispatchError Entry
  | .ok () => promised log operation s
  | .error source =>
    .error (.unavailable operation s (u.registries.signaturesOf operation) source)

/--
The answer to a look-up from `u` to `u'`, where the entries of `log` have been inserted before: a
map from signatures to entries would give it.
-/
def answer (u u' : Usage σ) (log : List Insertion) (operation : Text) (s : Signature) :
    Except DispatchError Entry :=
  match lastWrite log operation s with
  | some entry => .ok entry
  | none =>
    u'.outcome (log ++ u.supplied u') operation s <|
      match u.specializer, u'.record.consultations.getLast? with
      | some _, some consultation => consultation.outcome
      | _, _ => .error .noSpecializer

/-! ## What holds between steps -/

/-- The registries hold what has been inserted, and nothing is under way. -/
structure Sound (u : Usage σ) (log : List Insertion) : Prop where
  indexed : u.registries.Indexed
  ordered : u.registries.Ordered
  quiet : u.registries.Quiet
  known : ∀ operation s, u.registries.known operation s = lastWrite log operation s
  handles : ∀ h ∈ u.handles, u.registries.find? h.2.name = some h.1

theorem sound_start (state : σ) : Sound { state } [] where
  indexed := Registries.indexed_empty
  ordered := Registries.ordered_empty
  quiet := Registries.quiet_empty
  known := fun _ _ => rfl
  handles := by
    intro h hmem
    cases hmem

variable {u u' : Usage σ} {log : List Insertion}

/-- What follows from insertions into the registries, if the log has them. -/
theorem Sound.gains (h : u.Sound log) {new : List Insertion}
    (hgains : u.registries.Gains u'.registries new) (hquiet : u'.registries.Quiet)
    (hhandles : ∀ handle ∈ u'.handles,
      handle ∈ u.handles ∨ u'.registries.find? handle.2.name = some handle.1) :
    u'.Sound (log ++ new) where
  indexed := hgains.indexed h.indexed
  ordered := hgains.ordered h.ordered
  quiet := hquiet
  known := by
    intro operation s
    rw [hgains.known h.indexed, h.known, lastWrite_append]
  handles := by
    intro handle hmem
    rcases hhandles handle hmem with hold | hnew
    · exact hgains.find? h.indexed (h.handles handle hold)
    · exact hnew

theorem Sound.entry_eq (h : u.Sound log) {operation : Text} {r : Nat}
    (hr : u.registries.find? operation = some r) (s : Signature) :
    u.registries.entry? r s = lastWrite log operation s := by
  rw [← h.known, Registries.known, hr, Option.bind_some]

/-- The signatures that are listed are the keys of the map. -/
theorem Sound.mem_signaturesOf (h : u.Sound log) {operation : Text} {s : Signature} :
    s ∈ u.registries.signaturesOf operation ↔ (lastWrite log operation s).isSome = true := by
  rw [Registries.mem_signaturesOf_iff, h.known]

theorem supplied_of_record {told : List Consultation}
    (h : u'.record.consultations = u.record.consultations ++ told) :
    u.supplied u' = told.flatMap Consultation.insertions := by
  rw [supplied, consulted, h, List.drop_left]

/-- Who has not been asked has inserted nothing. -/
theorem supplied_of_unasked (h : u'.record = u.record) : u.supplied u' = [] := by
  have hnone : u'.record.consultations = u.record.consultations ++ [] := by
    rw [h, List.append_nil]
  exact supplied_of_record hnone

/-- The registries come to hold what `log` has, and the specializer is asked for what is missed. -/
structure Steps (u u' : Usage σ) (log : List Insertion) (requests : List Request) : Prop where
  sound : u'.Sound log
  requests : u'.record.consultations.map Consultation.request =
    u.record.consultations.map Consultation.request ++ requests

/-- What a look-up does and gives. -/
structure Answered (u u' : Usage σ) (log : List Insertion) (operation : Text) (s : Signature)
    (result : Except DispatchError Entry) : Prop
    extends u.Steps u' (log ++ u.supplied u') (u.missed log operation s) where
  result : result = u.answer u' log operation s

/-- A look-up that misses, by what comes of the attempt to produce the entry. -/
theorem Sound.get_of_absent (h : u.Sound log) {r : Nat} {operation : Operation}
    (hr : u.registries.find? operation.name = some r) {s : Signature}
    (habsent : lastWrite log operation.name s = none)
    {attempt : Registries × Outcome × (σ × Record)}
    (hattempt : Catalogue.specialize u.catalogue.specializer ⟨operation.name, s⟩
      (u.registries.attempting r s) (u.state, u.record) = attempt)
    {new : List Insertion} (hgains : (u.registries.attempting r s).Gains attempt.1 new) :
    (u.get r operation s).1.Sound (log ++ new) ∧
      (u.get r operation s).1.record = attempt.2.2.2 ∧
      (u.get r operation s).2 =
        (u.get r operation s).1.outcome (log ++ new) operation.name s attempt.2.1 := by
  have hentry := (h.entry_eq hr s).trans habsent
  have hkeeps := Registries.keeps_specialize u.catalogue.specializer ⟨operation.name, s⟩
    (u.registries.attempting r s) (u.state, u.record)
  have hgot := Catalogue.getFrom_of_absent u.catalogue.specializer operation.name
    (u.state, u.record) hentry (h.quiet r s)
  rw [h.indexed.name_eq hr] at hgot
  rw [hattempt] at hkeeps hgot
  rcases attempt with ⟨rs, outcome, state', record'⟩
  dsimp only at hgot
  -- What is left of the attempt, once the flight has been taken out.
  have hsettled : u.registries.Gains (rs.settled u.registries.flights.length outcome r s) new :=
    ((Registries.gains_attempting _ r s).after hgains).before (Registries.gains_settled _ _ _ _ _)
  have hquiet := h.quiet.settled (h.indexed.lt hr) hkeeps u.registries.flights.length outcome
  generalize rs.settled u.registries.flights.length outcome r s = rs' at hgot hsettled hquiet
  have hfound := hsettled.find? h.indexed hr
  have hlook := Registries.gains_look rs' r s
  have hquiet' := hquiet.keeps (Registries.keeps_look rs' r s)
  cases outcome with
  | error source =>
      have hget : u.get r operation s =
          ({ u with registries := rs', state := state', record := record' },
            .error (.unavailable operation.name s (rs'.signatures r) source)) := by
        simp only [get, Catalogue.get, catalogue, become] at hgot ⊢
        rw [hgot]
      rw [hget]
      refine ⟨h.gains hsettled hquiet (fun handle hmem => .inl hmem), rfl, ?_⟩
      simp [Usage.outcome, Registries.signaturesOf, hfound]
  | ok done =>
      have hsound : Sound { u with
          registries := (rs'.look r s).1, state := state', record := record' } (log ++ new) :=
        h.gains (hsettled.before hlook) hquiet' (fun handle hmem => .inl hmem)
      have hwritten : Registries.entry? rs' r s = lastWrite (log ++ new) operation.name s :=
        hsound.entry_eq (hlook.find? (hsettled.indexed h.indexed) hfound) s
      rw [hwritten] at hgot
      have hget : u.get r operation s =
          ({ u with registries := (rs'.look r s).1, state := state', record := record' },
            promised (log ++ new) operation.name s) := by
        simp only [get, Catalogue.get, catalogue, promised, become] at hgot ⊢
        rw [hgot]
        cases lastWrite (log ++ new) operation.name s with
        | some entry => rfl
        | none => rfl
      rw [hget]
      exact ⟨hsound, rfl, rfl⟩

theorem Sound.get (h : u.Sound log) {r : Nat} {operation : Operation}
    (hr : u.registries.find? operation.name = some r) (s : Signature) :
    u.Answered (u.get r operation s).1 log operation.name s (u.get r operation s).2 := by
  have hentry := h.entry_eq hr s
  cases hwritten : lastWrite log operation.name s with
  | some entry =>
      rw [hwritten] at hentry
      have hget : u.get r operation s =
          ({ u with registries := (u.registries.look r s).1 }, .ok entry) := by
        simp only [Usage.get, Catalogue.get, catalogue, become,
          Catalogue.getFrom_of_entry _ _ _ hentry]
      have hsupplied : u.supplied (u.get r operation s).1 = [] :=
        supplied_of_unasked (by rw [hget])
      rw [hget] at hsupplied ⊢
      refine ⟨⟨?_, ?_⟩, ?_⟩
      · rw [hsupplied]
        exact h.gains (Registries.gains_look _ _ _) (h.quiet.keeps (Registries.keeps_look _ _ _))
          (fun handle hmem => .inl hmem)
      · simp [missed, hwritten]
      · simp [answer, hwritten]
  | none =>
      cases hspecializer : u.specializer with
      | none =>
          have hattempt : Catalogue.specialize u.catalogue.specializer ⟨operation.name, s⟩
              (u.registries.attempting r s) (u.state, u.record) =
              (u.registries.attempting r s, .error .noSpecializer, (u.state, u.record)) := by
            simp [catalogue, hspecializer, Catalogue.specialize]
          rcases h.get_of_absent hr hwritten hattempt (Registries.Gains.refl _)
            with ⟨hsound, hrecord, hresult⟩
          have hsupplied := supplied_of_unasked hrecord
          refine ⟨⟨?_, ?_⟩, ?_⟩
          · rw [hsupplied]
            exact hsound
          · rw [hrecord]
            simp [missed, hspecializer]
          · rw [hresult]
            simp [answer, hwritten, hspecializer, hsupplied]
      | some ask =>
          have hattempt : Catalogue.specialize u.catalogue.specializer ⟨operation.name, s⟩
              (u.registries.attempting r s) (u.state, u.record) =
              Catalogue.specialize (some ask.recorded) ⟨operation.name, s⟩
                (u.registries.attempting r s) (u.state, u.record) := by
            simp [catalogue, hspecializer]
          have hgains := Registries.gains_insertAll (u.registries.attempting r s)
            ((Registries.gains_attempting _ r s).indexed h.indexed)
            (ask ⟨operation.name, s⟩ (u.registries.attempting r s) u.state).insertions
          rcases h.get_of_absent hr hwritten hattempt hgains with ⟨hsound, hrecord, hresult⟩
          -- The specializer has been asked once, and its record says so.
          have hconsultations := congrArg Record.consultations hrecord
          have hsupplied := supplied_of_record hconsultations
          rw [List.flatMap_singleton] at hsupplied
          refine ⟨⟨?_, ?_⟩, ?_⟩
          · rw [hsupplied]
            exact hsound
          · rw [hconsultations]
            simp [Catalogue.specialize, Specializer.recorded, Record.consult, missed, hwritten,
              hspecializer]
          · rw [hresult, answer, hwritten, hspecializer, hsupplied, hconsultations]
            simp [Catalogue.specialize, Specializer.recorded, Record.consult]

theorem callWith_eq (u : Usage σ) (r : Nat) (operation : Operation) (s : Signature)
    (operands : List Operand) :
    u.catalogue.callWith r operation s operands (u.state, u.record) =
      let got := u.catalogue.get r operation s (u.state, u.record)
      (got.1, got.2.1.map fun entry => ⟨entry, operands⟩, got.2.2) :=
  rfl

/-- The three kinds of look-ups that may ask the specializer, with what each calls the entry on. -/
theorem withHandle_eq (u : Usage σ) {handle r : Nat} {operation : Operation}
    (hhandle : u.handles[handle]? = some (r, operation)) (s : Signature)
    (operands : List Operand) :
    u.step (.gets handle s) =
        ((u.get r operation s).1, .answered (u.get r operation s).2) ∧
      u.step (.callsWith handle s operands) = ((u.get r operation s).1,
        .called ((u.get r operation s).2.map fun entry => ⟨entry, operands⟩)) ∧
      u.step (.calls handle operands) =
        u.step (.callsWith handle (Signature.ofOperands operands) operands) := by
  refine ⟨?_, ?_, ?_⟩
  · simp [step, withHandle, hhandle]
  · simp [step, withHandle, hhandle, get, callWith_eq]
  · simp [step, withHandle, hhandle, Catalogue.call]

theorem Sound.stays (h : u.Sound log) : u.Steps u log [] := ⟨h, (List.append_nil _).symm⟩

/-- A handle that has been given away is that of the registry with the name it was asked for. -/
theorem handles_opens (u : Usage σ) (operation : Operation) :
    ∀ handle ∈ (u.step (.opens operation)).1.handles, handle ∈ u.handles ∨
      (u.step (.opens operation)).1.registries.find? handle.2.name = some handle.1 := by
  intro handle hmem
  cases hresult : (u.registries.registryOf operation).2 with
  | error e =>
      have hopen : (u.step (.opens operation)).1.handles = u.handles := by
        simp [step, Catalogue.openRegistry, catalogue, hresult]
      rw [hopen] at hmem
      exact .inl hmem
  | ok r =>
      have hopen : (u.step (.opens operation)).1.handles = u.handles ++ [(r, operation)] := by
        simp [step, Catalogue.openRegistry, catalogue, hresult]
      rw [hopen] at hmem
      rcases List.mem_append.1 hmem with hold | hnew
      · exact .inl hold
      · rw [List.mem_singleton.1 hnew]
        exact .inr (Registries.find?_registryOf hresult)

/-- A step that leaves the specializer alone inserts what its caller stores. -/
theorem Sound.unasked (h : u.Sound log) {step : Use σ} (hstep : (u.step step).1 = u')
    (hrecord : u'.record = u.record)
    (hhandles : ∀ handle ∈ u'.handles,
      handle ∈ u.handles ∨ u'.registries.find? handle.2.name = some handle.1)
    (hgains : u.registries.Gains u'.registries (u.stored step))
    (hkeeps : u.registries.Keeps u'.registries) (hrequests : u.requests log step = []) :
    u.Steps (u.step step).1 (log ++ u.insertions step) (u.requests log step) := by
  rw [insertions, hstep, supplied_of_unasked hrecord, List.append_nil, hrequests]
  refine ⟨h.gains hgains (h.quiet.keeps hkeeps) hhandles, ?_⟩
  rw [hrecord, List.append_nil]

/-- Without the handle nothing happens, and nothing is asked for. -/
theorem step_of_unopened {step : Use σ} {handle : Nat} (hstep : step.handle? = some handle)
    (hnone : u.handles[handle]? = none) :
    u.step step = (u, .nothing) ∧ u.stored step = [] ∧ u.requests log step = [] := by
  cases step with
  | stores | looks | gets | callsWith | calls =>
      cases hstep
      simp [Usage.step, withHandle, stored, requests, hnone]
  | opens | inserts | looksIn | installs => cases hstep

/-- A step with a handle, which is that of the registry with the name of its operation. -/
theorem Sound.handled (h : u.Sound log) {step : Use σ} {handle : Nat}
    (hhandle : step.handle? = some handle)
    (hsome : ∀ r operation, u.handles[handle]? = some (r, operation) →
      u.registries.find? operation.name = some r →
      u.Steps (u.step step).1 (log ++ u.insertions step) (u.requests log step)) :
    u.Steps (u.step step).1 (log ++ u.insertions step) (u.requests log step) := by
  cases hopened : u.handles[handle]? with
  | none =>
      rcases u.step_of_unopened hhandle hopened with ⟨hstep, hstored, hrequests⟩
      rw [insertions, hstored, hstep, hrequests, supplied_of_unasked rfl, List.append_nil,
        List.append_nil]
      exact h.stays
  | some opened =>
      exact hsome opened.1 opened.2 hopened (h.handles _ (List.mem_of_getElem? hopened))

theorem Sound.step (h : u.Sound log) (step : Use σ) :
    u.Steps (u.step step).1 (log ++ u.insertions step) (u.requests log step) := by
  cases step with
  | opens operation =>
      exact h.unasked rfl rfl (u.handles_opens operation) (Registries.gains_registryOf _ operation)
        (Registries.keeps_registryOf _ operation) rfl
  | stores handle s entry =>
      refine h.handled rfl ?_
      intro r operation hhandle hr
      have hstep : (u.step (.stores handle s entry)).1 =
          { u with registries := u.registries.store r s entry } := by
        simp [Usage.step, withHandle, hhandle]
      have hstored : u.stored (.stores handle s entry) = [⟨operation.name, s, entry⟩] := by
        simp [stored, hhandle]
      have hgains := Registries.gains_store u.registries (h.indexed.lt hr) s entry
      rw [h.indexed.name_eq hr, ← hstored] at hgains
      exact h.unasked hstep rfl (fun handle hmem => .inl hmem) hgains
        (Registries.keeps_store _ _ _ _) rfl
  | inserts operation s entry =>
      exact h.unasked rfl rfl (fun handle hmem => .inl hmem)
        (Registries.gains_insert _ h.indexed operation s entry)
        (Registries.keeps_insert _ _ _ _) rfl
  | looks handle s =>
      refine h.handled rfl ?_
      intro r operation hhandle _
      have hstep : (u.step (.looks handle s)).1 =
          { u with registries := (u.registries.look r s).1 } := by
        simp [Usage.step, withHandle, hhandle]
      exact h.unasked hstep rfl (fun handle hmem => .inl hmem) (Registries.gains_look _ _ _)
        (Registries.keeps_look _ _ _) rfl
  | looksIn operation s =>
      have hlook : u.registries.Gains (u.registries.lookIn operation s).1 [] ∧
          u.registries.Keeps (u.registries.lookIn operation s).1 := by
        unfold Registries.lookIn
        cases u.registries.find? operation with
        | some r => exact ⟨Registries.gains_look _ _ _, Registries.keeps_look _ _ _⟩
        | none => exact ⟨Registries.Gains.refl _, Registries.Keeps.refl _⟩
      exact h.unasked rfl rfl (fun handle hmem => .inl hmem) hlook.1 hlook.2 rfl
  -- The three steps that may ask the specializer insert what it supplies, and store nothing.
  | gets handle s =>
      refine h.handled rfl ?_
      intro r operation hhandle hr
      rw [insertions, requests, hhandle, (u.withHandle_eq hhandle s []).1]
      exact (h.get hr s).toSteps
  | callsWith handle s operands =>
      refine h.handled rfl ?_
      intro r operation hhandle hr
      rw [insertions, requests, hhandle, (u.withHandle_eq hhandle s operands).2.1]
      exact (h.get hr s).toSteps
  | calls handle operands =>
      refine h.handled rfl ?_
      intro r operation hhandle hr
      have heq := u.withHandle_eq hhandle (Signature.ofOperands operands) operands
      rw [insertions, requests, hhandle, heq.2.2, heq.2.1]
      exact (h.get hr (Signature.ofOperands operands)).toSteps
  | installs specializer =>
      exact h.unasked rfl rfl (fun handle hmem => .inl hmem) (Registries.Gains.refl _)
        (Registries.Keeps.refl _) rfl

theorem Sound.run (h : u.Sound log) (steps : List (Use σ)) :
    u.Steps (u.run steps) (log ++ u.inserted steps) (u.requested log steps) := by
  induction steps generalizing u log with
  | nil =>
      rw [inserted, List.append_nil]
      exact h.stays
  | cons step steps ih =>
      have hstep := h.step step
      have hrest := ih hstep.sound
      refine ⟨?_, ?_⟩
      · rw [inserted, ← List.append_assoc]
        exact hrest.sound
      · rw [requested, ← List.append_assoc, ← hstep.requests]
        exact hrest.requests

/-! ## A map -/

/--
To its caller the catalogue is a map, in which the last insertion counts, where the entries of `log`
have been inserted in order: what is listed are its keys, in order, what is found are its values,
and what is asked for with a handle is answered by them or, where there is none, by what has come of
the attempt to produce it.
-/
structure IsMap (u : Usage σ) (log : List Insertion) : Prop where
  entries : ∀ operation s, (u.registries.lookIn operation s).2 = lastWrite log operation s
  ordered : ∀ operation, (u.registries.signaturesOf operation).Pairwise (· < ·)
  keys : ∀ operation s, s ∈ u.registries.signaturesOf operation ↔
    (lastWrite log operation s).isSome = true
  idle : ∀ registry ∈ u.registries.registries, registry.flights = []
  looks : ∀ handle r operation s, u.handles[handle]? = some (r, operation) →
    (u.step (.looks handle s)).2 = .found (lastWrite log operation.name s)
  looksIn : ∀ operation s,
    (u.step (.looksIn operation s)).2 = .found (lastWrite log operation s)
  gets : ∀ handle r operation s, u.handles[handle]? = some (r, operation) →
    (u.step (.gets handle s)).2 =
      .answered (u.answer (u.step (.gets handle s)).1 log operation.name s)
  callsWith : ∀ handle r operation s operands, u.handles[handle]? = some (r, operation) →
    (u.step (.callsWith handle s operands)).2 =
      .called ((u.answer (u.step (.callsWith handle s operands)).1 log operation.name s).map
        fun entry => ⟨entry, operands⟩)
  calls : ∀ handle r operation operands, u.handles[handle]? = some (r, operation) →
    (u.step (.calls handle operands)).2 =
      .called ((u.answer (u.step (.calls handle operands)).1 log operation.name
        (Signature.ofOperands operands)).map fun entry => ⟨entry, operands⟩)

theorem Sound.isMap (h : u.Sound log) : u.IsMap log where
  entries := by
    intro operation s
    rw [Registries.lookIn_eq_known, h.known]
  ordered := h.ordered.signaturesOf
  keys := fun operation s => h.mem_signaturesOf
  idle := fun registry hmem => h.quiet.flights_eq_nil hmem
  looks := by
    intro handle r operation s hhandle
    have hentry := h.entry_eq (h.handles _ (List.mem_of_getElem? hhandle)) s
    rw [Usage.step, withHandle, hhandle, ← hentry]
    rfl
  looksIn := by
    intro operation s
    rw [← h.known, ← Registries.lookIn_eq_known]
    rfl
  gets := by
    intro handle r operation s hhandle
    have hget := h.get (h.handles _ (List.mem_of_getElem? hhandle)) s
    rw [(u.withHandle_eq hhandle s []).1, ← hget.result]
  callsWith := by
    intro handle r operation s operands hhandle
    have hget := h.get (h.handles _ (List.mem_of_getElem? hhandle)) s
    rw [(u.withHandle_eq hhandle s operands).2.1, ← hget.result]
  calls := by
    intro handle r operation operands hhandle
    have hget := h.get (h.handles _ (List.mem_of_getElem? hhandle)) (Signature.ofOperands operands)
    have heq := u.withHandle_eq hhandle (Signature.ofOperands operands) operands
    rw [heq.2.2, heq.2.1, ← hget.result]

/--
After any steps from an empty catalogue, it is a map of what they have inserted, and the specializer
has been asked once for each look-up of a signature that was missing when a specializer was
installed, in order.
-/
theorem catalogue_is_map (state : σ) (steps : List (Use σ)) :
    (run { state } steps).IsMap (inserted { state } steps) ∧
      (run { state } steps).record.consultations.map Consultation.request =
        requested { state } [] steps := by
  have hrun := (sound_start state).run steps
  exact ⟨hrun.sound.isMap, hrun.requests⟩

/-- A request is repeated after a failure, and not after a success. -/
example :
    let failsOnce : Specializer Nat := fun request _ n =>
      if n = 0 then ⟨[⟨['g'], [['c']], ⟨2, by decide⟩⟩], .error .noSpecializer, 1⟩
      else ⟨[⟨request.operation, request.signature, ⟨1, by decide⟩⟩], .ok (), n + 1⟩
    let u := run { state := 0 } [.opens ⟨['f'], [], .value⟩, .gets 0 [['b']], .installs failsOnce,
      .gets 0 [['b']], .gets 0 [['b']], .gets 0 [['b']]]
    u.record.consultations.map Consultation.request = [⟨['f'], [['b']]⟩, ⟨['f'], [['b']]⟩] ∧
      u.registries.signaturesOf ['g'] = [[['c']]] := by
  decide +kernel

end Usage
end OnDemand
