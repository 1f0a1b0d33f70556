import OnDemand.Proofs.Dispatch.Interleaving
import OnDemand.Proofs.Tables

/-!
# What the registries know

Whatever a catalogue goes through, the entry for a signature of an operation is the last one that
was inserted for just that operation and that signature: `Registries.Gains` says so of one change of
the registries, and composes.  It takes that every registry is found under its own name, which no
other registry has (`Registries.Indexed`).
-/

namespace OnDemand

/-! ## Logs of insertions -/

/-- The entry that was inserted last for a signature of an operation. -/
def lastWrite (log : List Insertion) (operation : Text) (s : Signature) : Option Entry :=
  match log with
  | [] => none
  | i :: log =>
    (lastWrite log operation s).or
      (if i.operation = operation ∧ i.signature = s then some i.entry else none)

section LastWrite

variable {operation : Text} {s : Signature}

theorem lastWrite_append (log log' : List Insertion) :
    lastWrite (log ++ log') operation s =
      (lastWrite log' operation s).or (lastWrite log operation s) := by
  induction log with
  | nil => simp [lastWrite]
  | cons i log ih => rw [List.cons_append, lastWrite, lastWrite, ih, Option.or_assoc]

/-- What was inserted last was inserted. -/
theorem mem_of_lastWrite {log : List Insertion} {entry : Entry}
    (h : lastWrite log operation s = some entry) : ⟨operation, s, entry⟩ ∈ log := by
  induction log with
  | nil => cases h
  | cons i log ih =>
      rw [lastWrite, Option.or_eq_some_iff] at h
      rcases h with hlater | ⟨-, hfirst⟩
      · exact List.mem_cons_of_mem _ (ih hlater)
      · split at hfirst
        next hi =>
            rcases i with ⟨operation', s', entry'⟩
            rcases hi with ⟨rfl, rfl⟩
            cases hfirst
            exact List.mem_cons_self
        next => cases hfirst

theorem lastWrite_eq_none_iff {log : List Insertion} :
    lastWrite log operation s = none ↔ ∀ i ∈ log, i.operation = operation → i.signature ≠ s := by
  induction log with
  | nil => simp [lastWrite]
  | cons i log ih => simp [lastWrite, ih, and_comm]

end LastWrite

namespace Registries

/-! ## Registries by name -/

/-- Every registry is found under its name, and nothing else is found. -/
def Indexed (rs : Registries) : Prop :=
  ∀ name r, rs.find? name = some r ↔ r < rs.registries.length ∧ (rs.registry r).name = name

theorem indexed_empty : Indexed {} := by
  intro name r
  simp [find?, Table.get?]

section Indexed

variable {rs : Registries} {r r' : Nat} {name : Text}

theorem Indexed.lt (h : rs.Indexed) (hr : rs.find? name = some r) : r < rs.registries.length :=
  ((h name r).1 hr).1

theorem Indexed.name_eq (h : rs.Indexed) (hr : rs.find? name = some r) :
    (rs.registry r).name = name :=
  ((h name r).1 hr).2

theorem Indexed.find?_name (h : rs.Indexed) (hr : r < rs.registries.length) :
    rs.find? (rs.registry r).name = some r :=
  (h _ r).2 ⟨hr, rfl⟩

/-- Different registries have different names. -/
theorem Indexed.eq_of_name_eq (h : rs.Indexed) (hr : r < rs.registries.length)
    (hr' : r' < rs.registries.length) (hname : (rs.registry r).name = (rs.registry r').name) :
    r = r' := by
  have hfound := h.find?_name hr
  rw [hname, h.find?_name hr'] at hfound
  exact (Option.some.inj hfound).symm

end Indexed

/-- The entry of a named operation for a signature, if there is one. -/
def known (rs : Registries) (operation : Text) (s : Signature) : Option Entry :=
  (rs.find? operation).bind fun r => rs.entry? r s

/-- What a look-up by name gives is what is known. -/
theorem lookIn_eq_known (rs : Registries) (operation : Text) (s : Signature) :
    (rs.lookIn operation s).2 = rs.known operation s := by
  unfold lookIn known
  cases rs.find? operation <;> rfl

theorem entry?_eq_none {rs : Registries} {r : Nat} (hr : ¬r < rs.registries.length)
    (s : Signature) : rs.entry? r s = none := by
  have hnone : rs.registry r = { name := [] } := by
    simp [registry, List.getElem?_eq_none_iff.2 (Nat.le_of_not_lt hr)]
  unfold entry?
  rw [hnone]
  rfl

theorem lt_of_present {rs : Registries} {r : Nat} {s : Signature} (h : rs.present r s = true) :
    r < rs.registries.length := by
  refine Decidable.byContradiction ?_
  intro hr
  rw [present, entry?_eq_none hr] at h
  cases h

theorem Indexed.known_name {rs : Registries} (h : rs.Indexed) {r : Nat}
    (hr : r < rs.registries.length) (s : Signature) :
    rs.known (rs.registry r).name s = rs.entry? r s := by
  rw [known, h.find?_name hr, Option.bind_some]

theorem mem_signatures_iff {rs : Registries} {r : Nat} {s : Signature} :
    s ∈ rs.signatures r ↔ rs.present r s = true :=
  Table.mem_keys_iff

/-- The signatures that are listed are those of which something is known. -/
theorem mem_signaturesOf_iff {rs : Registries} {operation : Text} {s : Signature} :
    s ∈ rs.signaturesOf operation ↔ (rs.known operation s).isSome = true := by
  unfold signaturesOf known
  cases rs.find? operation with
  | some r => exact mem_signatures_iff
  | none => simp

/-- Every registry lists its signatures in order. -/
def Ordered (rs : Registries) : Prop := ∀ r, (rs.signatures r).Pairwise (· < ·)

theorem ordered_empty : Ordered {} := fun _ => List.Pairwise.nil

theorem Ordered.signaturesOf {rs : Registries} (h : rs.Ordered) (operation : Text) :
    (rs.signaturesOf operation).Pairwise (· < ·) := by
  unfold Registries.signaturesOf
  cases rs.find? operation with
  | some r => exact h r
  | none => exact List.Pairwise.nil

/-! ## Changes by insertions -/

/-- From `rs` to `rs'` the entries of `new` have been inserted in order, and registries created. -/
structure Gains (rs rs' : Registries) (new : List Insertion) : Prop where
  indexed : rs.Indexed → rs'.Indexed
  length : rs.registries.length ≤ rs'.registries.length
  name : ∀ r < rs.registries.length, (rs'.registry r).name = (rs.registry r).name
  known : rs.Indexed → ∀ operation s,
    rs'.known operation s = (lastWrite new operation s).or (rs.known operation s)
  ordered : rs.Ordered → rs'.Ordered

namespace Gains

variable {rs rs' rs'' : Registries} {new new' : List Insertion}

theorem refl (rs : Registries) : Gains rs rs [] where
  indexed := id
  length := Nat.le_refl _
  name := fun _ _ => rfl
  known := fun _ _ _ => rfl
  ordered := id

theorem trans (h : Gains rs rs' new) (h' : Gains rs' rs'' new') :
    Gains rs rs'' (new ++ new') where
  indexed := fun hrs => h'.indexed (h.indexed hrs)
  length := Nat.le_trans h.length h'.length
  name := by
    intro r hr
    rw [h'.name r (Nat.lt_of_lt_of_le hr h.length), h.name r hr]
  known := by
    intro hrs operation s
    rw [h'.known (h.indexed hrs), h.known hrs, lastWrite_append, Option.or_assoc]
  ordered := fun hrs => h'.ordered (h.ordered hrs)

/-- A change before which nothing is inserted adds nothing to the insertions. -/
theorem after (h : Gains rs rs' []) (h' : Gains rs' rs'' new) : Gains rs rs'' new :=
  h.trans h'

theorem before (h : Gains rs rs' new) (h' : Gains rs' rs'' []) : Gains rs rs'' new := by
  have hboth := h.trans h'
  rwa [List.append_nil] at hboth

theorem find? (h : Gains rs rs' new) (hrs : rs.Indexed) {name : Text} {r : Nat}
    (hr : rs.find? name = some r) : rs'.find? name = some r := by
  have hlt := hrs.lt hr
  rw [h.indexed hrs, h.name r hlt, hrs.name_eq hr]
  exact ⟨Nat.lt_of_lt_of_le hlt h.length, rfl⟩

end Gains

/-- Registries with the same index, and registries of the same names, know what these hold. -/
theorem gains_of_names {rs rs' : Registries} {new : List Insertion}
    (hindex : rs'.index = rs.index) (hlength : rs'.registries.length = rs.registries.length)
    (hname : ∀ r, (rs'.registry r).name = (rs.registry r).name)
    (hentry : rs.Indexed → ∀ r < rs.registries.length, ∀ s,
      Registries.entry? rs' r s = (lastWrite new (rs.registry r).name s).or (rs.entry? r s))
    (hnew : rs.Indexed → ∀ operation s, rs.find? operation = none →
      lastWrite new operation s = none)
    (hordered : rs.Ordered → rs'.Ordered) : Gains rs rs' new where
  indexed := by
    intro h name r
    rw [hname, hlength]
    have hfind : rs'.find? name = rs.find? name := by rw [find?, hindex, find?]
    rw [hfind]
    exact h name r
  length := Nat.le_of_eq hlength.symm
  name := fun r _ => hname r
  known := by
    intro h operation s
    have hfind : rs'.find? operation = rs.find? operation := by rw [find?, hindex, find?]
    rw [known, known, hfind]
    cases hr : rs.find? operation with
    | none => simp [hnew h operation s hr]
    | some r => simp [hentry h r (h.lt hr), h.name_eq hr]
  ordered := hordered

/-- A change of one registry's flights or entry type. -/
theorem gains_update (rs : Registries) (r : Nat) (f : Registry → Registry)
    (hname : ∀ registry, (f registry).name = registry.name)
    (hentries : ∀ registry, (f registry).entries = registry.entries) :
    Gains rs (rs.update r f) [] := by
  refine gains_of_names rfl (by simp) ?_ ?_ ?_ ?_
  · intro r'
    rw [registry_update]
    split
    · exact hname _
    · rfl
  · intro h r' hr' s
    unfold entry?
    rw [registry_update]
    split
    · rw [hentries]
      rfl
    · rfl
  · intro h operation s hnone
    rfl
  · intro h r'
    rw [signatures, registry_update]
    split
    · rw [hentries]
      exact h r'
    · exact h r'

/-- Neither the journal nor the state of flights is part of what is known. -/
theorem gains_rest (rs : Registries) (flights : List Flight) (journal : List Event) :
    Gains rs { rs with flights := flights, journal := journal } [] :=
  gains_of_names rfl rfl (fun _ => rfl) (fun _ _ _ _ => rfl) (fun _ _ _ _ => rfl) id

theorem gains_look (rs : Registries) (r : Nat) (s : Signature) : Gains rs (rs.look r s).1 [] :=
  gains_rest rs rs.flights _

theorem gains_setFlight (rs : Registries) (f : Nat) (state : Flight) :
    Gains rs (rs.setFlight f state) [] :=
  gains_rest rs _ rs.journal

theorem gains_leave (rs : Registries) (r : Nat) (s : Signature) : Gains rs (rs.leave r s) [] :=
  gains_update rs r _ (fun _ => rfl) (fun _ => rfl)

theorem gains_launched (rs : Registries) (r : Nat) (s : Signature) :
    Gains rs (rs.launched r s) [] := by
  have hupdate := gains_update rs r
    (fun registry => { registry with flights := Table.insert s rs.flights.length registry.flights })
    (fun _ => rfl) (fun _ => rfl)
  exact hupdate.after (gains_rest _ _ _)

theorem gains_store (rs : Registries) {r : Nat} (hr : r < rs.registries.length) (s : Signature)
    (entry : Entry) : Gains rs (rs.store r s entry) [⟨(rs.registry r).name, s, entry⟩] := by
  have hupdate : Gains rs (rs.update r fun registry =>
      { registry with entries := Table.insert s entry registry.entries })
      [⟨(rs.registry r).name, s, entry⟩] := by
    refine gains_of_names rfl (by simp) ?_ ?_ ?_ ?_
    · intro r'
      rw [registry_update]
      split
      · rfl
      · rfl
    · intro h r' hr' s'
      unfold entry?
      rw [registry_update]
      by_cases hrr' : r = r'
      · subst hrr'
        rw [if_pos ⟨rfl, hr⟩, Table.get?_insert]
        by_cases hs : s' = s
        · simp [lastWrite, hs]
        · simp [lastWrite, hs, Ne.symm hs]
      · -- The name is that of another registry, too.
        have hname : (rs.registry r).name ≠ (rs.registry r').name := fun heq =>
          hrr' (h.eq_of_name_eq hr hr' heq)
        simp [lastWrite, hrr', hname]
    · -- A name that leads nowhere is not that of the registry.
      intro h operation s' hnone
      have hname : (rs.registry r).name ≠ operation := by
        intro heq
        rw [← heq, h.find?_name hr] at hnone
        cases hnone
      simp [lastWrite, hname]
    · intro h r'
      rw [signatures, registry_update]
      split
      · exact Table.pairwise_keys_insert s entry (h r')
      · exact h r'
  exact hupdate.before (gains_rest _ _ _)

/-- There is no registry to store an entry in. -/
theorem gains_store_of_not_lt (rs : Registries) {r : Nat} (hr : ¬r < rs.registries.length)
    (s : Signature) (entry : Entry) : Gains rs (rs.store r s entry) [] := by
  have hupdate : rs.update r (fun registry =>
      { registry with entries := Table.insert s entry registry.entries }) = rs := by
    simp [update, List.modify_eq_self (Nat.le_of_not_lt hr)]
  unfold store
  rw [hupdate]
  exact gains_rest rs rs.flights _

theorem registry_create_of_lt {rs : Registries} {r : Nat} (hr : r < rs.registries.length)
    (name : Text) : (rs.create name).1.registry r = rs.registry r := by
  unfold create
  cases rs.find? name with
  | some r' => rfl
  | none => simp [registry, List.getElem?_append_left hr]

theorem find?_create (rs : Registries) (name : Text) :
    (rs.create name).1.find? name = some (rs.create name).2 := by
  unfold create
  cases hname : rs.find? name with
  | some r => exact hname
  | none => simp [find?, Table.get?_insert]

theorem find?_create_of_ne (rs : Registries) {name name' : Text} (h : name' ≠ name) :
    (rs.create name).1.find? name' = rs.find? name' := by
  unfold create
  cases rs.find? name with
  | some r => rfl
  | none => simp [find?, Table.get?_insert, h]

theorem Indexed.create {rs : Registries} (h : rs.Indexed) (name : Text) :
    (rs.create name).1.Indexed := by
  unfold Registries.create
  cases hnone : rs.find? name with
  | some r => exact h
  | none =>
      intro name' r
      have hfind : find? { rs with
          index := Table.insert name rs.registries.length rs.index
          registries := rs.registries ++ [{ name := name }] } name' =
          if name' = name then some rs.registries.length else rs.find? name' := by
        rw [find?, Table.get?_insert, find?]
      simp only [hfind, List.length_append, List.length_singleton, registry,
        List.getD_eq_getElem?_getD]
      rcases Nat.lt_trichotomy r rs.registries.length with hr | hr | hr
      · -- The registries that were there have not got the new name.
        rw [List.getElem?_append_left hr, ← List.getD_eq_getElem?_getD]
        have hold := h name' r
        unfold registry at hold
        split
        next hname =>
            rw [hname, hnone] at hold
            refine ⟨fun heq => absurd (Option.some.inj heq) (Nat.ne_of_gt hr), ?_⟩
            rintro ⟨-, heq⟩
            have hfalse := hold.2 ⟨hr, heq.trans hname⟩
            cases hfalse
        next =>
            rw [hold]
            exact ⟨fun hboth => ⟨Nat.lt_succ_of_lt hboth.1, hboth.2⟩, fun hboth => ⟨hr, hboth.2⟩⟩
      · -- The new registry is the one that the new name leads to.
        subst hr
        have hlt : ¬rs.find? name' = some rs.registries.length := by
          intro hfound
          exact absurd (h.lt hfound) (Nat.lt_irrefl _)
        split
        next hname => simp [hname]
        next hname => simp [hlt, Ne.symm hname]
      · -- There are no registries beyond the new one.
        refine ⟨?_, fun hboth => absurd hboth.1 (by omega)⟩
        intro hfound
        split at hfound
        next => exact absurd (Option.some.inj hfound) (Nat.ne_of_lt hr)
        next => exact absurd (h.lt hfound) (by omega)

theorem gains_create (rs : Registries) (name : Text) : Gains rs (rs.create name).1 [] where
  indexed := fun h => h.create name
  length := (keeps_create rs name).length
  name := fun r hr => by rw [registry_create_of_lt hr]
  known := by
    intro h operation s
    have hentry : ∀ r, Registries.entry? (rs.create name).1 r s = rs.entry? r s := by
      intro r
      unfold entry?
      rw [(registry_create rs name r).2]
    unfold known
    by_cases hname : operation = name
    · -- The new registry has no entries, and an old one keeps its own.
      subst hname
      rw [find?_create, Option.bind_some, hentry]
      unfold create
      cases rs.find? operation with
      | some r => rfl
      | none => exact entry?_eq_none (Nat.lt_irrefl _) s
    · rw [find?_create_of_ne rs hname]
      simp only [hentry]
      rfl
  ordered := by
    intro h r
    rw [signatures, (registry_create rs name r).2]
    exact h r

theorem gains_insert (rs : Registries) (hrs : rs.Indexed) (operation : Text) (s : Signature)
    (entry : Entry) : Gains rs (rs.insert operation s entry) [⟨operation, s, entry⟩] := by
  have hcreate := gains_create rs operation
  have hindexed := hrs.create operation
  have hfound := find?_create rs operation
  have hstore := gains_store (rs.create operation).1 (hindexed.lt hfound) s entry
  rw [hindexed.name_eq hfound] at hstore
  exact hcreate.after hstore

theorem gains_insertAll (rs : Registries) (hrs : rs.Indexed) (insertions : List Insertion) :
    Gains rs (rs.insertAll insertions) insertions := by
  induction insertions generalizing rs with
  | nil => exact Gains.refl rs
  | cons i insertions ih =>
      have hfirst := gains_insert rs hrs i.operation i.signature i.entry
      exact hfirst.trans (ih _ (hfirst.indexed hrs))

/-- An opened registry is the one that is found under the name of the operation. -/
theorem find?_registryOf {rs : Registries} {operation : Operation} {r : Nat}
    (h : (rs.registryOf operation).2 = .ok r) :
    (rs.registryOf operation).1.find? operation.name = some r := by
  have hfound := find?_create rs operation.name
  unfold registryOf at h ⊢
  generalize rs.create operation.name = created at h hfound ⊢
  rcases created with ⟨rs', r'⟩
  have hindex : (rs'.bind r' operation.entryType).1.index = rs'.index := by
    unfold bind
    split <;> rfl
  simp only at h hfound ⊢
  split at h
  next =>
      cases h
      rw [find?, hindex]
      exact hfound
  next => cases h

theorem gains_registryOf (rs : Registries) (operation : Operation) :
    Gains rs (rs.registryOf operation).1 [] := by
  refine (gains_create rs operation.name).after ?_
  change Gains _ ((rs.create operation.name).1.bind _ operation.entryType).1 []
  unfold bind
  split
  · exact Gains.refl _
  · exact gains_update _ _ _ (fun _ => rfl) (fun _ => rfl)

end Registries

namespace Catalogue

variable {σ : Type}

/-- What the specializer inserts when it is asked. -/
def insertionsFor (specializer : Option (Specializer σ)) (request : Request) (rs : Registries)
    (state : σ) : List Insertion :=
  match specializer with
  | none => []
  | some ask => (ask request rs state).insertions

theorem gains_specialize (specializer : Option (Specializer σ)) (request : Request)
    (rs : Registries) (hrs : rs.Indexed) (state : σ) :
    rs.Gains (specialize specializer request rs state).1
      (insertionsFor specializer request rs state) := by
  cases specializer with
  | none => exact Registries.Gains.refl rs
  | some ask => exact Registries.gains_insertAll rs hrs _

end Catalogue
end OnDemand
