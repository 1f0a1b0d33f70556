import OnDemand.Operations
import OnDemand.Proofs.Descriptor.Carrying
import OnDemand.Proofs.Dispatch.Openings
import OnDemand.Proofs.Dispatch.Records
import OnDemand.Proofs.Dispatch.Sequence
import OnDemand.Proofs.Plugin.Alphabets

/-!
# Contexts share what makes them

A context is looked up by its short name, which leaves out its alphabets.  So once some context has
been made, whatever has happened before, all contexts with the same short name are made by the entry
that is stored for that name.  The specializer is not asked again, and each context hands its own
full name over (`makeContext_shared`).  The argument is that a look-up takes nothing away: neither
the registry, nor its entry type, nor the entry that it has found.
-/

namespace OnDemand

/-! ## What look-ups leave in place -/

namespace Registries

/-- From `rs` to `rs'` registries stay where they are found, and keep their entry types. -/
structure Upholds (rs rs' : Registries) : Prop where
  indexed : rs'.Indexed
  find? : ∀ {name : Text} {r : Nat}, rs.find? name = some r → rs'.find? name = some r
  bound? : ∀ {name : Text} {t : EntryType}, rs.bound? name = some t → rs'.bound? name = some t

namespace Upholds

variable {rs rs' rs'' : Registries}

theorem refl (hrs : rs.Indexed) : Upholds rs rs := ⟨hrs, id, id⟩

theorem trans (h : Upholds rs rs') (h' : Upholds rs' rs'') : Upholds rs rs'' :=
  ⟨h'.indexed, fun hr => h'.find? (h.find? hr), fun ht => h'.bound? (h.bound? ht)⟩

theorem of_gains (hrs : rs.Indexed) {new : List Insertion} {asked : List Operation}
    (hgains : Gains rs rs' new) (hbinds : Binds rs rs' asked) : Upholds rs rs' :=
  ⟨hgains.indexed hrs, hgains.find? hrs, hbinds.persists⟩

end Upholds

variable {rs : Registries}

theorem upholds_look (hrs : rs.Indexed) (r : Nat) (s : Signature) : Upholds rs (rs.look r s).1 :=
  .of_gains hrs (gains_look rs r s) (binds_look rs r s)

theorem upholds_setFlight (hrs : rs.Indexed) (f : Nat) (state : Flight) :
    Upholds rs (rs.setFlight f state) :=
  .of_gains hrs (gains_setFlight rs f state) (.of_eq (bound?_of_registries rfl fun _ => rfl))

/-- The flights of a registry are no part of its entry type. -/
theorem bound?_update (rs : Registries) (r : Nat) {f : Registry → Registry}
    (hf : ∀ registry, (f registry).entryType = registry.entryType) (name : Text) :
    (rs.update r f).bound? name = rs.bound? name := by
  have htype : ∀ r', ((rs.update r f).registry r').entryType = (rs.registry r').entryType := by
    intro r'
    rw [registry_update]
    split
    · exact hf _
    · rfl
  have hindex : (rs.update r f).index = rs.index := rfl
  exact bound?_of_registries hindex htype name

theorem upholds_leave (hrs : rs.Indexed) (r : Nat) (s : Signature) : Upholds rs (rs.leave r s) :=
  .of_gains hrs (gains_leave rs r s) (.of_eq (bound?_update rs r fun _ => rfl))

theorem upholds_enter (hrs : rs.Indexed) (r : Nat) (s : Signature) :
    Upholds rs (rs.enter r s).1 := by
  rcases rs.enter_cases r s with ⟨-, henter⟩ | ⟨-, f, -, henter⟩ | ⟨-, -, henter⟩
  · rw [henter]
    exact .refl hrs
  · rw [henter]
    exact .refl hrs
  · rw [henter]
    exact .of_gains hrs (gains_launched rs r s) (.of_eq (bound?_update rs r fun _ => rfl))

/-- An operation whose registry is open has its own entry type there. -/
theorem bound?_registryOf (hrs : rs.Indexed) {operation : Operation} {r : Nat}
    (h : (rs.registryOf operation).2 = .ok r) :
    (rs.registryOf operation).1.bound? operation.name = some operation.entryType := by
  have hcreate := (gains_create rs operation.name).indexed hrs
  have hfound := find?_create rs operation.name
  unfold registryOf at h ⊢
  generalize rs.create operation.name = created at h hcreate hfound ⊢
  rcases created with ⟨rs', r'⟩
  dsimp only at h hcreate hfound ⊢
  rcases rs'.bind_cases hcreate hfound operation.entryType with
    ⟨own, hown, hbind⟩ | ⟨-, htype, hbound⟩
  · rw [hbind] at h ⊢
    dsimp only at h ⊢
    split at h
    next heq => rw [hown, heq]
    next => cases h
  · rw [hbound, if_pos rfl]

/-- A registry that is there and has the entry type of an operation is opened as it is. -/
theorem registryOf_of_bound {operation : Operation} {r : Nat}
    (hr : rs.find? operation.name = some r)
    (ht : rs.bound? operation.name = some operation.entryType) :
    rs.registryOf operation = (rs, .ok r) := by
  have htype : (rs.registry r).entryType = some operation.entryType := by
    rwa [bound?, hr, Option.bind_some] at ht
  simp [registryOf, create, hr, bind, htype]

end Registries

namespace Catalogue

variable {σ : Type} (specializer : Option (Specializer σ)) {rs : Registries}

theorem upholds_specialize (hrs : rs.Indexed) (request : Request) (state : σ) :
    rs.Upholds (specialize specializer request rs state).1 := by
  -- A specializer may insert entries, but opens no registry.
  have hbinds : rs.Binds (specialize specializer request rs state).1 [] := by
    cases specializer with
    | none => exact .of_eq fun _ => rfl
    | some ask => exact Registries.binds_insertAll rs hrs _
  exact .of_gains hrs (gains_specialize specializer request rs hrs state) hbinds

theorem upholds_board (hrs : rs.Indexed) (r : Nat) (s : Signature) (f : Nat) (state : σ) :
    rs.Upholds (board specializer r s f rs state).1 := by
  unfold board
  split
  next => exact .refl hrs
  next =>
      have hrunning := Registries.upholds_setFlight hrs f .running
      have hasked := upholds_specialize specializer hrunning.indexed ⟨(rs.registry r).name, s⟩ state
      exact (hrunning.trans hasked).trans (Registries.upholds_setFlight hasked.indexed f _)

theorem upholds_produce (hrs : rs.Indexed) (r : Nat) (s : Signature) (state : σ) :
    rs.Upholds (produce specializer r s rs state).1 := by
  have henter := Registries.upholds_enter hrs r s
  unfold produce
  generalize rs.enter r s = entered at henter ⊢
  rcases entered with ⟨rs', entrance⟩
  cases entrance with
  | present => exact henter
  | joined f => exact henter.trans (upholds_board specializer henter.indexed r s f state)
  | owned f =>
      have hboard := upholds_board specializer henter.indexed r s f state
      exact (henter.trans hboard).trans (Registries.upholds_leave hboard.indexed r s)

theorem upholds_getFrom (hrs : rs.Indexed) (r : Nat) (operation : Text) (s : Signature)
    (state : σ) : rs.Upholds (getFrom specializer r operation s rs state).1 := by
  have hlook := Registries.upholds_look hrs r s
  unfold getFrom
  generalize rs.look r s = looked at hlook ⊢
  rcases looked with ⟨rs', found⟩
  cases found with
  | some entry => exact hlook
  -- After the attempt to produce the entry it is looked up once more.
  | none =>
      have hproduce := upholds_produce specializer hlook.indexed r s state
      dsimp only at hproduce ⊢
      generalize produce specializer r s rs' state = produced at hproduce ⊢
      rcases produced with ⟨rs'', outcome, state'⟩
      have hboth := hlook.trans hproduce
      cases outcome with
      | error source => exact hboth
      | ok done =>
          have hagain := Registries.upholds_look hboth.indexed r s
          dsimp only at hagain ⊢
          generalize rs''.look r s = looked at hagain ⊢
          rcases looked with ⟨rs₃, found⟩
          cases found with
          | some entry => exact hboth.trans hagain
          | none => exact hboth.trans hagain

/-- What a look-up gives is in the registry afterwards. -/
theorem entry?_of_getFrom {r : Nat} {operation : Text} {s : Signature} {state state' : σ}
    {rs' : Registries} {entry : Entry}
    (h : getFrom specializer r operation s rs state = (rs', .ok entry, state')) :
    rs'.entry? r s = some entry := by
  -- Either look-up leaves the entry where it has found it.
  have hlooked : ∀ {rs rs' : Registries}, rs.look r s = (rs', some entry) →
      rs'.entry? r s = some entry := by
    intro rs rs' hlook
    injection hlook with hregistries hentry
    rw [← hregistries]
    exact hentry
  unfold getFrom at h
  split at h
  next rs₁ found hlook =>
      cases h
      exact hlooked hlook
  next rs₁ hlook =>
      split at h
      next => cases h
      next rs₂ state₂ hproduce =>
          split at h
          next rs₃ found hlook' =>
              cases h
              exact hlooked hlook'
          next => cases h

/-! ## Calls that find their entry -/

/-- The registry of the operation is open, and has the entry for the signature. -/
structure Stocked (c : Catalogue σ) (operation : Operation) (s : Signature) (entry : Entry) :
    Prop where
  indexed : c.registries.Indexed
  bound : c.registries.bound? operation.name = some operation.entryType
  stored : (c.registries.lookIn operation.name s).2 = some entry

variable {specializer} {operation : Operation} {s : Signature} {operands : List Operand}
  {state state' : σ}

/-- Where the entry is, it is called, and the specializer is left alone. -/
theorem Stocked.applyWith {c : Catalogue σ} {entry : Entry} (h : c.Stocked operation s entry)
    (operands : List Operand) (state : σ) :
    c.applyWith operation s operands state =
      ({ c with registries := (c.registries.lookIn operation.name s).1 },
        .ok ⟨entry, operands⟩, state) := by
  have hstored := h.stored
  rw [Registries.lookIn_eq_known, Registries.known, Option.bind_eq_some_iff] at hstored
  obtain ⟨r, hr, hentry⟩ := hstored
  have hopen := Registries.registryOf_of_bound hr h.bound
  have hlook : c.registries.lookIn operation.name s = c.registries.look r s := by
    rw [Registries.lookIn, hr]
  simp only [Catalogue.applyWith, openRegistry, hopen, callWith, Catalogue.get, hlook,
    getFrom_of_entry c.specializer operation.name state hentry]
  rfl

/-- A call that has found something to call, or had it produced, leaves it in the registry. -/
theorem stocked_of_applyWith {c c' : Catalogue σ} (hc : c.registries.Indexed) {call : Invocation}
    (h : c.applyWith operation s operands state = (c', .ok call, state')) :
    ∃ entry, call = ⟨entry, operands⟩ ∧ c'.Stocked operation s entry := by
  have hrs := (Registries.gains_registryOf c.registries operation).indexed hc
  cases hopen : (c.registries.registryOf operation).2 with
  | error e =>
      simp only [Catalogue.applyWith, openRegistry, hopen] at h
      cases h
  | ok r =>
      have hfound := Registries.find?_registryOf hopen
      have hbound := Registries.bound?_registryOf hc hopen
      simp only [Catalogue.applyWith, openRegistry, hopen, callWith, Catalogue.get] at h
      -- The look-up upholds what the opening has found.
      have hupholds := upholds_getFrom c.specializer hrs r operation.name s state
      rcases hget : getFrom c.specializer r operation.name s (c.registries.registryOf operation).1
        state with ⟨rs', result, state₁⟩
      rw [hget] at h hupholds
      cases result with
      | error e => cases h
      | ok entry =>
          cases h
          refine ⟨entry, rfl, hupholds.indexed, hupholds.bound? hbound, ?_⟩
          rw [Registries.lookIn_eq_known, Registries.known, hupholds.find? hfound, Option.bind_some]
          exact entry?_of_getFrom c.specializer hget

/-! ## Making contexts -/

/-- A context is made by the entry for its short name, which gets its full name. -/
theorem makeContext_eq (c : Catalogue σ) {name : Text} {n : Normalized}
    (h : normalizeContext name = .ok n) (state : σ) :
    c.makeContext name state =
      let made := c.applyWith Operation.makeContext [n.short] [.string n.full] state
      (made.1, made.2.1.mapError .dispatch, made.2.2) := by
  rw [Catalogue.makeContext, h]

theorem makeContext_of_malformed (c : Catalogue σ) {name : Text} {e : DescriptorError}
    (h : normalizeContext name = .error e) (state : σ) :
    c.makeContext name state = (c, .error (.malformed e), state) := by
  rw [Catalogue.makeContext, h]

theorem stocked_of_makeContext {c c' : Catalogue σ} (hc : c.registries.Indexed) {name : Text}
    {n : Normalized} (hn : normalizeContext name = .ok n) {call : Invocation}
    (h : c.makeContext name state = (c', .ok call, state')) :
    ∃ entry, call = ⟨entry, [.string n.full]⟩ ∧
      c'.Stocked Operation.makeContext [n.short] entry := by
  rw [makeContext_eq c hn] at h
  rcases happly : c.applyWith Operation.makeContext [n.short] [.string n.full] state with
    ⟨c₁, result, state₁⟩
  rw [happly] at h
  cases result with
  | error e => cases h
  | ok call' =>
      cases h
      exact stocked_of_applyWith hc happly

end Catalogue

/-- The empty text is no context. -/
theorem exists_malformed_nil : ∃ e, normalizeContext [] = .error e := by
  unfold normalizeContext
  cases hread : Descriptor.ofContext [] with
  | error e => exact ⟨e, rfl⟩
  | ok d =>
      have hdecoration : Stripping.decoration [] = [] :=
        Stripping.homeless_of_withoutHome? (by decide)
      rw [Descriptor.ofContext, hdecoration, Descriptor.reported_eq_ok_iff] at hread
      obtain ⟨r, hgives, -⟩ := Reader.finish_eq_ok_iff.1 hread
      cases Reader.gives_context_nil.symm.trans hgives

namespace Traffic

variable {σ τ : Type}

/--
Whatever callers have done before, once a context has been made, every context with its short name
is made by the entry that is stored for that name: the specializer is not asked, so its record stays
as it is, and the entry gets a full name that is read as the context.  What names no context is
refused at any time and changes nothing.
-/
theorem makeContext_shared (state : σ) (ms : List (Move σ)) (specializer : Option (Specializer τ)) :
    (∀ (a : Text) (na : Normalized) (now then' : τ × Record) (c : Catalogue (τ × Record))
        (call : Invocation),
      normalizeContext a = .ok na →
      Catalogue.makeContext
          ⟨(run { state } ms).registries, specializer.map Specializer.recorded⟩ a now =
        (c, .ok call, then') →
      ∃ entry, call = ⟨entry, [.string na.full]⟩ ∧
        (c.registries.lookIn Operation.makeContext.name [na.short]).2 = some entry ∧
        ∀ (b : Text) (nb : Normalized), normalizeContext b = .ok nb → nb.short = na.short →
          c.makeContext b then' =
            ({ c with
                registries := (c.registries.lookIn Operation.makeContext.name [na.short]).1 },
              .ok ⟨entry, [.string nb.full]⟩, then') ∧
          normalizeContext nb.full = .ok nb) ∧
    ∀ (c : Catalogue (τ × Record)) (now : τ × Record) (b : Text) (e : DescriptorError),
      normalizeContext b = .error e →
      c.makeContext b now = (c, .error (.malformed e), now) := by
  refine ⟨?_, fun c now b e hb => c.makeContext_of_malformed hb now⟩
  intro a na now then' c call ha h
  have hindexed :=
    (gains_run { state } Registries.indexed_empty ms).indexed Registries.indexed_empty
  obtain ⟨entry, hcall, hstocked⟩ := Catalogue.stocked_of_makeContext hindexed ha h
  refine ⟨entry, hcall, hstocked.stored, ?_⟩
  intro b nb hb hshort
  refine ⟨?_, GeneratedModule.normalizeContext_full hb⟩
  rw [c.makeContext_eq hb, hshort, hstocked.applyWith]
  rfl

/-- Inserts an entry for what it is asked for. -/
def provides : Specializer Unit := fun request _ _ =>
  ⟨[⟨request.operation, request.signature, ⟨1, Nat.one_ne_zero⟩⟩], .ok (), ()⟩

/-- One context is made, and after it another, which has no alphabet.  The empty text is refused. -/
theorem makeContext_shared_letters :
    ∃ (c c' : Catalogue (Unit × Record)) (now : Unit × Record) (entry : Entry)
        (e : DescriptorError),
      Catalogue.makeContext ⟨(run { state := () } []).registries, some provides.recorded⟩
          "context<letterset<char_letters(ab)>, b>".toList ((), {}) =
        (c, .ok ⟨entry, [.string "context<letterset<char_letters(ab)>, b>".toList]⟩, now) ∧
      c.makeContext "context<letterset<char_letters>, b>".toList now =
        (c', .ok ⟨entry, [.string "context<letterset<char_letters>, b>".toList]⟩, now) ∧
      c.makeContext [] now = (c, .error (.malformed e), now) := by
  have ha := GeneratedModule.normalizeContext_fullName
    (GeneratedModule.isContext_overLetters (some "ab".toList))
  have hb := GeneratedModule.normalizeContext_fullName (GeneratedModule.isContext_overLetters none)
  obtain ⟨e, he⟩ := exists_malformed_nil
  -- The specializer provides an entry for the short name, which leaves the alphabet out.
  obtain ⟨c, now, happly⟩ : ∃ c now,
      Catalogue.applyWith ⟨(run { state := () } []).registries, some provides.recorded⟩
          Operation.makeContext ["context<letterset<char_letters>, b>".toList]
          [.string "context<letterset<char_letters(ab)>, b>".toList] ((), {}) =
        (c, .ok ⟨⟨1, Nat.one_ne_zero⟩, [.string "context<letterset<char_letters(ab)>, b>".toList]⟩,
          now) :=
    ⟨_, _, rfl⟩
  have hmake := Catalogue.makeContext_eq
    ⟨(run { state := () } []).registries, some provides.recorded⟩ ha ((), {})
  have hmade := hmake.trans (congrArg
    (fun made : Catalogue _ × Except DispatchError Invocation × _ =>
      (made.1, made.2.1.mapError CallError.dispatch, made.2.2)) happly)
  have hshared := makeContext_shared () [] (some provides)
  obtain ⟨entry, hcall, -, hnext⟩ := hshared.1 _ _ _ _ _ _ ha hmade
  cases hcall
  exact ⟨c, _, now, _, e, hmade, (hnext _ _ hb rfl).1, hshared.2 c now [] e he⟩

end Traffic
end OnDemand
