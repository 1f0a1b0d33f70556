import OnDemand.Dispatch.Concurrent

/-!
# What the steps do to the registries

Of the registries, the look-ups of several callers depend on the entries, on the flights under way
and on the state of each flight.  Each operation gets its effect on these three, and those that
leave the flights alone and lose no entry have that in common: `Keeps`.
-/

namespace OnDemand

namespace Registries

/-! ## Views -/

/-- The number of the flight under way for a signature, if there is one. -/
def flying? (rs : Registries) (r : Nat) (s : Signature) : Option Nat :=
  Table.get? s (rs.registry r).flights

/-- Whether there is an entry for a signature. -/
def present (rs : Registries) (r : Nat) (s : Signature) : Bool := (rs.entry? r s).isSome

theorem registry_update (rs : Registries) (r r' : Nat) (f : Registry → Registry) :
    (rs.update r f).registry r' =
      if r = r' ∧ r < rs.registries.length then f (rs.registry r') else rs.registry r' := by
  unfold registry update
  simp only [List.getD_eq_getElem?_getD, List.getElem?_modify]
  by_cases h : r = r'
  · subst h
    by_cases hr : r < rs.registries.length
    · simp [hr]
    · simp [hr]
  · simp [h]

@[simp] theorem length_update (rs : Registries) (r : Nat) (f : Registry → Registry) :
    (rs.update r f).registries.length = rs.registries.length := by
  simp [update]

/-! ## Operations that leave the flights alone -/

/-- The flights are the same, and no entry has been lost. -/
structure Keeps (rs rs' : Registries) : Prop where
  flights : rs'.flights = rs.flights
  flying : ∀ r s, rs'.flying? r s = rs.flying? r s
  present : ∀ r s, rs.present r s = true → rs'.present r s = true
  length : rs.registries.length ≤ rs'.registries.length

namespace Keeps

variable {rs rs' rs'' : Registries}

theorem refl (rs : Registries) : Keeps rs rs where
  flights := rfl
  flying := fun _ _ => rfl
  present := fun _ _ h => h
  length := Nat.le_refl _

theorem trans (h : Keeps rs rs') (h' : Keeps rs' rs'') : Keeps rs rs'' where
  flights := h'.flights.trans h.flights
  flying := fun r s => (h'.flying r s).trans (h.flying r s)
  present := fun r s hs => h'.present r s (h.present r s hs)
  length := Nat.le_trans h.length h'.length

theorem flight (h : Keeps rs rs') (f : Nat) : rs'.flight f = rs.flight f := by
  unfold Registries.flight
  rw [h.flights]

end Keeps

/-- A change of one registry that leaves its flights alone and loses none of its entries. -/
theorem keeps_update (rs : Registries) (r : Nat) (f : Registry → Registry)
    (hflights : ∀ registry, (f registry).flights = registry.flights)
    (hentries : ∀ registry s, (Table.get? s registry.entries).isSome = true →
      (Table.get? s (f registry).entries).isSome = true) : Keeps rs (rs.update r f) where
  flights := rfl
  flying := by
    intro r' s
    unfold flying?
    rw [registry_update]
    split
    · rw [hflights]
    · rfl
  present := by
    intro r' s hs
    unfold present entry? at hs ⊢
    rw [registry_update]
    split
    · exact hentries _ _ hs
    · exact hs
  length := by simp

/-- What is written in the journal is not looked at. -/
theorem keeps_journal (rs : Registries) (journal : List Event) :
    Keeps rs { rs with journal := journal } where
  flights := rfl
  flying := fun _ _ => rfl
  present := fun _ _ h => h
  length := Nat.le_refl _

theorem keeps_look (rs : Registries) (r : Nat) (s : Signature) : Keeps rs (rs.look r s).1 :=
  keeps_journal rs _

theorem keeps_store (rs : Registries) (r : Nat) (s : Signature) (entry : Entry) :
    Keeps rs (rs.store r s entry) := by
  have hupdate : Keeps rs (rs.update r fun registry =>
      { registry with entries := Table.insert s entry registry.entries }) := by
    refine keeps_update rs r _ (fun _ => rfl) ?_
    intro registry s' hs'
    rw [Table.get?_insert]
    split
    · rfl
    · exact hs'
  exact hupdate.trans (keeps_journal _ _)

theorem registry_create (rs : Registries) (name : Text) (r : Nat) :
    ((rs.create name).1.registry r).flights = (rs.registry r).flights ∧
      ((rs.create name).1.registry r).entries = (rs.registry r).entries := by
  unfold create
  cases rs.find? name with
  | some r' => exact ⟨rfl, rfl⟩
  | none =>
      simp only [registry, List.getD_eq_getElem?_getD]
      rcases Nat.lt_trichotomy r rs.registries.length with h | h | h
      · simp [List.getElem?_append_left h]
      · subst h
        simp
      · -- Neither list has a registry with this number.
        have hnew : (rs.registries ++ [{ name := name : Registry }])[r]? = none := by
          rw [List.getElem?_eq_none_iff, List.length_append, List.length_singleton]
          exact h
        have hold : rs.registries[r]? = none := List.getElem?_eq_none_iff.2 (Nat.le_of_lt h)
        simp [hnew, hold]

theorem keeps_create (rs : Registries) (name : Text) : Keeps rs (rs.create name).1 where
  flights := by
    unfold create
    cases rs.find? name with
    | some r => rfl
    | none => rfl
  flying := by
    intro r s
    unfold flying?
    rw [(registry_create rs name r).1]
  present := by
    intro r s hs
    unfold present entry? at hs ⊢
    rwa [(registry_create rs name r).2]
  length := by
    unfold create
    cases rs.find? name with
    | some r => exact Nat.le_refl _
    | none => simp

theorem keeps_insert (rs : Registries) (operation : Text) (s : Signature) (entry : Entry) :
    Keeps rs (rs.insert operation s entry) :=
  (keeps_create rs operation).trans (keeps_store _ _ s entry)

theorem keeps_insertAll (rs : Registries) (insertions : List Insertion) :
    Keeps rs (rs.insertAll insertions) := by
  induction insertions generalizing rs with
  | nil => exact Keeps.refl rs
  | cons i insertions ih =>
      exact (keeps_insert rs i.operation i.signature i.entry).trans (ih _)

theorem keeps_registryOf (rs : Registries) (operation : Operation) :
    Keeps rs (rs.registryOf operation).1 := by
  refine (keeps_create rs operation.name).trans ?_
  change Keeps _ ((rs.create operation.name).1.bind _ operation.entryType).1
  unfold bind
  split
  · exact Keeps.refl _
  · exact keeps_update _ _ _ (fun _ => rfl) (fun _ _ h => h)

/-- All that a specializer does is to insert entries. -/
theorem keeps_specialize {σ : Type} (specializer : Option (Specializer σ)) (request : Request)
    (rs : Registries) (state : σ) :
    Keeps rs (Catalogue.specialize specializer request rs state).1 := by
  cases specializer with
  | none => exact Keeps.refl rs
  | some ask => exact keeps_insertAll rs _

/-! ## Operations on flights -/

/-- The registries with a new flight under way for a signature. -/
def launched (rs : Registries) (r : Nat) (s : Signature) : Registries :=
  let launched := rs.update r fun registry =>
    { registry with flights := Table.insert s rs.flights.length registry.flights }
  { launched with flights := rs.flights ++ [.idle] }

/-- What a caller that has missed an entry may find. -/
theorem enter_cases (rs : Registries) (r : Nat) (s : Signature) :
    (rs.present r s = true ∧ rs.enter r s = (rs, .present)) ∨
      (rs.present r s = false ∧ ∃ f, rs.flying? r s = some f ∧ rs.enter r s = (rs, .joined f)) ∨
      (rs.present r s = false ∧ rs.flying? r s = none ∧
        rs.enter r s = (rs.launched r s, .owned rs.flights.length)) := by
  cases hentry : rs.entry? r s with
  | some entry => exact .inl ⟨by simp [present, hentry], by simp [enter, hentry]⟩
  | none =>
      refine .inr ?_
      have habsent : rs.present r s = false := by simp [present, hentry]
      cases hflying : rs.flying? r s with
      | some f =>
          have htable : Table.get? s (rs.registry r).flights = some f := hflying
          exact .inl ⟨habsent, f, rfl, by simp [enter, hentry, htable]⟩
      | none =>
          have htable : Table.get? s (rs.registry r).flights = none := hflying
          exact .inr ⟨habsent, rfl, by simp [enter, hentry, htable, launched, update]⟩

theorem flying?_launched {rs : Registries} {r : Nat} (hr : r < rs.registries.length)
    (s : Signature) (r' : Nat) (s' : Signature) :
    (rs.launched r s).flying? r' s' =
      if r' = r ∧ s' = s then some rs.flights.length else rs.flying? r' s' := by
  have hregistry : (rs.launched r s).registry r' =
      (rs.update r fun registry =>
        { registry with
            flights := Table.insert s rs.flights.length registry.flights }).registry r' := rfl
  unfold flying?
  rw [hregistry, registry_update]
  by_cases h : r = r'
  · subst h
    simp [hr, Table.get?_insert]
  · simp [h, Ne.symm h]

theorem present_launched (rs : Registries) (r : Nat) (s : Signature) (r' : Nat) (s' : Signature) :
    (rs.launched r s).present r' s' = rs.present r' s' := by
  have hregistry : (rs.launched r s).registry r' =
      (rs.update r fun registry =>
        { registry with
            flights := Table.insert s rs.flights.length registry.flights }).registry r' := rfl
  unfold present entry?
  rw [hregistry, registry_update]
  split
  · rfl
  · rfl

theorem flight_launched {rs : Registries} {f : Nat} (h : f < rs.flights.length) (r : Nat)
    (s : Signature) : (rs.launched r s).flight f = rs.flight f := by
  unfold flight launched
  simp [List.getElem?_append_left h]

theorem flight_of_le {rs : Registries} {f : Nat} (h : rs.flights.length ≤ f) :
    rs.flight f = .idle := by
  simp [flight, List.getElem?_eq_none_iff.2 h]

theorem flight_launched_self (rs : Registries) (r : Nat) (s : Signature) :
    (rs.launched r s).flight rs.flights.length = .idle := by
  simp [flight, launched]

theorem length_flights_launched (rs : Registries) (r : Nat) (s : Signature) :
    (rs.launched r s).flights.length = rs.flights.length + 1 := by
  simp [launched]

theorem length_registries_launched (rs : Registries) (r : Nat) (s : Signature) :
    (rs.launched r s).registries.length = rs.registries.length := by
  simp [launched]

theorem flight_setFlight {rs : Registries} {f : Nat} (h : f < rs.flights.length)
    (state : Flight) (g : Nat) :
    (rs.setFlight f state).flight g = if g = f then state else rs.flight g := by
  unfold flight setFlight
  by_cases hg : g = f
  · subst hg
    simp [h]
  · simp [hg, Ne.symm hg]

theorem length_setFlight (rs : Registries) (f : Nat) (state : Flight) :
    (rs.setFlight f state).flights.length = rs.flights.length := by
  simp [setFlight]

theorem flying?_leave (rs : Registries) (r : Nat) (s : Signature) (r' : Nat) (s' : Signature) :
    (rs.leave r s).flying? r' s' = if r' = r ∧ s' = s then none else rs.flying? r' s' := by
  unfold leave flying?
  rw [registry_update]
  by_cases h : r = r'
  · subst h
    by_cases hr : r < rs.registries.length
    · simp [hr, Table.get?_erase]
    · -- A registry that is not there has no flights anyway.
      have hnone : rs.registry r = { name := [] } := by
        simp [registry, List.getElem?_eq_none_iff.2 (Nat.le_of_not_lt hr)]
      simp [hr, hnone, Table.get?]
  · simp [h, Ne.symm h]

theorem present_leave (rs : Registries) (r : Nat) (s : Signature) (r' : Nat) (s' : Signature) :
    (rs.leave r s).present r' s' = rs.present r' s' := by
  unfold leave present entry?
  rw [registry_update]
  split
  · rfl
  · rfl

theorem length_leave (rs : Registries) (r : Nat) (s : Signature) :
    (rs.leave r s).registries.length = rs.registries.length := by
  simp [leave]

end Registries
end OnDemand
