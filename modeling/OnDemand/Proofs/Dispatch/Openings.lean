import OnDemand.Proofs.Dispatch.Entries

/-!
# Visits to the catalogue

To open a registry, to insert an entry by name and to look for one are each made of several steps,
between which others take theirs: a caller seeks the registry of a name, creates it if it was
missing, and only then does what it came for.  By the time it creates a registry, or binds its entry
type, somebody else may have done so.
-/

namespace OnDemand

namespace Registries

/-! ## Entry types by name -/

/-- The entry type that a name is bound to, once it is. -/
def bound? (rs : Registries) (name : Text) : Option EntryType :=
  (rs.find? name).bind fun r => (rs.registry r).entryType

/-- What was asked first of those operations that have a name. -/
def firstAsked (asked : List Operation) (name : Text) : Option EntryType :=
  (asked.find? fun operation => operation.name = name).map Operation.entryType

theorem firstAsked_singleton (operation : Operation) (name : Text) :
    firstAsked [operation] name =
      if operation.name = name then some operation.entryType else none := by
  by_cases hname : operation.name = name
  · simp [firstAsked, hname]
  · simp [firstAsked, hname]

theorem firstAsked_append (asked asked' : List Operation) (name : Text) :
    firstAsked (asked ++ asked') name = (firstAsked asked name).or (firstAsked asked' name) := by
  rw [firstAsked, List.find?_append, Option.map_or, firstAsked, firstAsked]

/-- From `rs` to `rs'` the names of `asked` have been bound in order, unless they were by then. -/
def Binds (rs rs' : Registries) (asked : List Operation) : Prop :=
  ∀ name, rs'.bound? name = (rs.bound? name).or (firstAsked asked name)

namespace Binds

variable {rs rs' rs'' : Registries} {asked asked' : List Operation}

theorem of_eq (h : ∀ name, rs'.bound? name = rs.bound? name) : Binds rs rs' [] := by
  intro name
  rw [h, firstAsked, List.find?_nil, Option.map_none, Option.or_none]

theorem trans (h : Binds rs rs' asked) (h' : Binds rs' rs'' asked') :
    Binds rs rs'' (asked ++ asked') := by
  intro name
  rw [h', h, firstAsked_append, Option.or_assoc]

theorem bound?_eq (h : Binds rs rs' []) (name : Text) : rs'.bound? name = rs.bound? name := by
  rw [h, firstAsked, List.find?_nil, Option.map_none, Option.or_none]

/-- A binding stays. -/
theorem persists (h : Binds rs rs' asked) {name : Text} {t : EntryType}
    (ht : rs.bound? name = some t) : rs'.bound? name = some t := by
  rw [h, ht, Option.some_or]

end Binds

section

variable (rs : Registries) (r : Nat)

theorem bound?_of_registries {rs rs' : Registries} (hindex : rs'.index = rs.index)
    (htype : ∀ r, (rs'.registry r).entryType = (rs.registry r).entryType) (name : Text) :
    rs'.bound? name = rs.bound? name := by
  have hfind : rs'.find? name = rs.find? name := by rw [find?, hindex, find?]
  simp only [bound?, hfind, htype]

theorem binds_look (s : Signature) : Binds rs (rs.look r s).1 [] :=
  .of_eq (bound?_of_registries rfl fun _ => rfl)

theorem binds_store (s : Signature) (entry : Entry) : Binds rs (rs.store r s entry) [] := by
  refine .of_eq (bound?_of_registries rfl fun r' => ?_)
  change ((rs.update r _).registry r').entryType = _
  rw [registry_update]
  split
  · rfl
  · rfl

/-- A new registry is not bound, and those that were there stay as they are. -/
theorem binds_create (hrs : rs.Indexed) (name : Text) : Binds rs (rs.create name).1 [] := by
  refine .of_eq fun name' => ?_
  by_cases hname : name' = name
  · subst hname
    unfold create
    cases hfound : rs.find? name' with
    | some r => rfl
    | none =>
        have hnone : Table.get? name' rs.index = none := hfound
        simp [bound?, find?, Table.get?_insert, registry, hnone]
  · simp only [bound?, find?_create_of_ne rs hname]
    cases hfound : rs.find? name' with
    | none => rfl
    | some r => simp only [Option.bind_some, registry_create_of_lt (hrs.lt hfound)]

/-- Of those who bind a registry, the first decides, and the others are told. -/
theorem bind_cases {name : Text} {r : Nat} (hrs : rs.Indexed) (hr : rs.find? name = some r)
    (t : EntryType) :
    (∃ own, rs.bound? name = some own ∧ rs.bind r t = (rs, own)) ∨
      (rs.bound? name = none ∧ (rs.bind r t).2 = t ∧ ∀ name', (rs.bind r t).1.bound? name' =
        if name' = name then some t else rs.bound? name') := by
  have hbound : rs.bound? name = (rs.registry r).entryType := by rw [bound?, hr, Option.bind_some]
  rw [hbound]
  unfold bind
  cases hown : (rs.registry r).entryType with
  | some own => exact .inl ⟨own, rfl, rfl⟩
  | none =>
      refine .inr ⟨rfl, rfl, fun name' => ?_⟩
      have hfind : ∀ name', (rs.update r fun registry =>
          { registry with entryType := some t }).find? name' = rs.find? name' := fun _ => rfl
      simp only [bound?, hfind]
      by_cases hname : name' = name
      · subst hname
        rw [hr, if_pos rfl, Option.bind_some, registry_update, if_pos ⟨rfl, hrs.lt hr⟩]
      · rw [if_neg hname]
        cases hfound : rs.find? name' with
        | none => rfl
        | some r' =>
            -- Another name is another registry, and that has not been touched.
            have hne : r ≠ r' := by
              rintro rfl
              exact hname ((hrs.name_eq hfound).symm.trans (hrs.name_eq hr))
            rw [Option.bind_some, Option.bind_some, registry_update,
              if_neg fun hboth => hne hboth.1]

theorem binds_bind {rs : Registries} {operation : Operation} {r : Nat} (hrs : rs.Indexed)
    (hr : rs.find? operation.name = some r) :
    Binds rs (rs.bind r operation.entryType).1 [operation] := by
  intro name
  rw [firstAsked_singleton]
  rcases rs.bind_cases hrs hr operation.entryType with ⟨own, hown, heq⟩ | ⟨hnone, -, hafter⟩
  · rw [heq]
    split
    next hname => rw [← hname, hown, Option.some_or]
    next => rw [Option.or_none]
  · rw [hafter]
    by_cases hname : name = operation.name
    · rw [if_pos hname, if_pos hname.symm, hname, hnone, Option.none_or]
    · rw [if_neg hname, if_neg fun h => hname h.symm, Option.or_none]

theorem binds_insertAll (rs : Registries) (hrs : rs.Indexed) (new : List Insertion) :
    Binds rs (rs.insertAll new) [] := by
  induction new generalizing rs with
  | nil => exact .of_eq fun _ => rfl
  | cons i new ih =>
      have hcreate := rs.binds_create hrs i.operation
      have hstore := (rs.create i.operation).1.binds_store (rs.create i.operation).2 i.signature
        i.entry
      have hindexed := (rs.gains_insert hrs i.operation i.signature i.entry).indexed hrs
      exact (hcreate.trans hstore).trans (ih _ hindexed)

theorem gains_bind (t : EntryType) : Gains rs (rs.bind r t).1 [] := by
  unfold bind
  split
  · exact Gains.refl _
  · exact gains_update _ _ _ (fun _ => rfl) (fun _ => rfl)

end

/-! ## Names -/

/-- The registries that have been created keep their names and their places. -/
theorem Gains.names_prefix {rs rs' : Registries} {new : List Insertion} (h : Gains rs rs' new) :
    rs.registries.map Registry.name <+: rs'.registries.map Registry.name := by
  rw [List.prefix_iff_getElem?]
  intro i hi
  have hlt : i < rs.registries.length := by simpa using hi
  have hlt' : i < rs'.registries.length := Nat.lt_of_lt_of_le hlt h.length
  have hname := h.name i hlt
  simpa [registry, hlt, hlt'] using hname

/-- No two registries have the same name. -/
theorem Indexed.nodup_names {rs : Registries} (h : rs.Indexed) :
    (rs.registries.map Registry.name).Nodup := by
  rw [List.Nodup, List.pairwise_iff_getElem]
  intro i j hi hj hij heq
  have hi' : i < rs.registries.length := by simpa using hi
  have hj' : j < rs.registries.length := by simpa using hj
  refine absurd (h.eq_of_name_eq hi' hj' ?_) (Nat.ne_of_lt hij)
  simpa [registry, hi', hj'] using heq

end Registries

/-! ## Visits -/

/-- What a visitor comes for. -/
inductive Errand where
  /-- To open the registry of an operation. -/
  | opens (operation : Operation)
  /-- To insert an entry of a named operation. -/
  | inserts (operation : Text) (signature : Signature) (entry : Entry)
  /-- To look for an entry of a named operation. -/
  | looks (operation : Text) (signature : Signature)
  /-- To list the known signatures of a named operation. -/
  | lists (operation : Text)
  deriving DecidableEq

/-- What a visitor leaves with. -/
inductive Answer where
  | opened (result : Except DispatchError Nat)
  | inserted
  | found (entry : Option Entry)
  | listed (signatures : List Signature)

/-- Where a visitor stands. -/
inductive Stage where
  /-- About to look which registry has the name. -/
  | seeks
  /-- There was none; about to create it. -/
  | creates
  /-- With the registry in hand. -/
  | holds (registry : Nat)
  | done (answer : Answer)

/-- A visitor of the catalogue. -/
structure Visit where
  errand : Errand
  stage : Stage := .seeks

namespace Errand

/-- The name of the registry that the visitor is concerned with. -/
def name : Errand → Text
  | opens operation => operation.name
  | inserts operation _ _ | looks operation _ | lists operation => operation

/-- Where a visitor stands that has found no registry: only some create it. -/
def missing : Errand → Stage
  | opens _ | inserts .. => .creates
  | looks .. => .done (.found none)
  | lists _ => .done (.listed [])

/-- What a visitor does with the registry in hand. -/
def act (rs : Registries) (r : Nat) : Errand → Registries × Answer
  | opens operation =>
    let (rs, t) := rs.bind r operation.entryType
    (rs, .opened (if t = operation.entryType then .ok r
      else .error (.entryTypeMismatch operation.name t operation.entryType)))
  | inserts _ signature entry => (rs.store r signature entry, .inserted)
  | looks _ signature =>
    let (rs, entry) := rs.look r signature
    (rs, .found entry)
  | lists _ => (rs, .listed (rs.signatures r))

/-- An answer in kind: it is of the sort that the errand calls for. -/
inductive CallsFor : Errand → Answer → Prop where
  | opened {operation : Operation} {result : Except DispatchError Nat} :
      CallsFor (opens operation) (.opened result)
  | inserted {operation : Text} {s : Signature} {entry : Entry} :
      CallsFor (inserts operation s entry) .inserted
  | found {operation : Text} {s : Signature} {entry : Option Entry} :
      CallsFor (looks operation s) (.found entry)
  | listed {operation : Text} {signatures : List Signature} :
      CallsFor (lists operation) (.listed signatures)

theorem CallsFor.eq_opened {operation : Operation} {answer : Answer}
    (h : (opens operation).CallsFor answer) : ∃ result, answer = .opened result := by
  cases h with
  | opened => exact ⟨_, rfl⟩

theorem callsFor_act (errand : Errand) (rs : Registries) (r : Nat) :
    errand.CallsFor (errand.act rs r).2 := by
  cases errand with
  | opens operation => exact .opened
  | inserts operation s entry => exact .inserted
  | looks operation s => exact .found
  | lists operation => exact .listed

theorem callsFor_missing {errand : Errand} {answer : Answer} (h : errand.missing = .done answer) :
    errand.CallsFor answer := by
  cases errand with
  | opens operation => cases h
  | inserts operation s entry => cases h
  | looks operation s =>
      cases h
      exact .found
  | lists operation =>
      cases h
      exact .listed

end Errand

namespace Visit

/-- The visitor's next step. -/
def step (v : Visit) (rs : Registries) : Visit × Registries :=
  match v.stage with
  | .seeks =>
    match rs.find? v.errand.name with
    | some r => ({ v with stage := .holds r }, rs)
    | none => ({ v with stage := v.errand.missing }, rs)
  | .creates =>
    let (rs, r) := rs.create v.errand.name
    ({ v with stage := .holds r }, rs)
  | .holds r =>
    let (rs, answer) := v.errand.act rs r
    ({ v with stage := .done answer }, rs)
  | .done _ => (v, rs)

/-- Three steps of a visitor that nobody comes between. -/
def alone (errand : Errand) (rs : Registries) : Visit × Registries :=
  let (v, rs) := step { errand } rs
  let (v, rs) := v.step rs
  v.step rs

/-- What the operations on the registries do in one step. -/
def atOnce (rs : Registries) : Errand → Registries × Answer
  | .opens operation =>
    let (rs, result) := rs.registryOf operation
    (rs, .opened result)
  | .inserts operation signature entry => (rs.insert operation signature entry, .inserted)
  | .looks operation signature =>
    let (rs, entry) := rs.lookIn operation signature
    (rs, .found entry)
  | .lists operation => (rs, .listed (rs.signaturesOf operation))

/-- A visitor that nobody comes between does at once what it came for. -/
theorem alone_eq (errand : Errand) (rs : Registries) :
    alone errand rs = (⟨errand, .done (atOnce rs errand).2⟩, (atOnce rs errand).1) := by
  cases hfound : rs.find? errand.name with
  -- The registry is there, so the visitor acts on it at once.
  | some r =>
      have hstep : alone errand rs =
          (⟨errand, .done (errand.act rs r).2⟩, (errand.act rs r).1) := by
        simp [alone, step, hfound]
      rw [hstep]
      cases errand with
      | opens operation =>
          simp only [Errand.name] at hfound
          simp [Errand.act, atOnce, Registries.registryOf, Registries.create, hfound]
      | inserts operation signature entry =>
          simp only [Errand.name] at hfound
          simp [Errand.act, atOnce, Registries.insert, Registries.create, hfound]
      | looks operation signature =>
          simp only [Errand.name] at hfound
          simp [Errand.act, atOnce, Registries.lookIn, hfound]
      | lists operation =>
          simp only [Errand.name] at hfound
          simp [Errand.act, atOnce, Registries.signaturesOf, hfound]
  -- Looking something up leaves it at that; the other errands have a registry made first.
  | none =>
      cases errand with
      | opens operation =>
          simp only [Errand.name] at hfound
          simp [alone, step, Errand.name, Errand.missing, hfound, Errand.act, atOnce,
            Registries.registryOf]
      | inserts operation signature entry =>
          simp only [Errand.name] at hfound
          simp [alone, step, Errand.name, Errand.missing, hfound, Errand.act, atOnce,
            Registries.insert]
      | looks operation signature =>
          simp only [Errand.name] at hfound
          simp [alone, step, Errand.name, Errand.missing, hfound, atOnce, Registries.lookIn]
      | lists operation =>
          simp only [Errand.name] at hfound
          simp [alone, step, Errand.name, Errand.missing, hfound, atOnce, Registries.signaturesOf]

/-! ## Steps of visitors -/

/-- What a visitor's step does, from its stage to the next, with the registries after it. -/
inductive Turns (v : Visit) (rs : Registries) : Stage → Registries → Prop where
  | finds {r : Nat} :
      v.stage = .seeks → rs.find? v.errand.name = some r → Turns v rs (.holds r) rs
  | misses : v.stage = .seeks → rs.find? v.errand.name = none → Turns v rs v.errand.missing rs
  | creates :
      v.stage = .creates →
      Turns v rs (.holds (rs.create v.errand.name).2) (rs.create v.errand.name).1
  | acts {r : Nat} :
      v.stage = .holds r → Turns v rs (.done (v.errand.act rs r).2) (v.errand.act rs r).1
  | rests {answer : Answer} : v.stage = .done answer → Turns v rs (.done answer) rs

theorem exists_turns (v : Visit) (rs : Registries) :
    ∃ p rs', v.step rs = ({ v with stage := p }, rs') ∧ v.Turns rs p rs' := by
  cases hstage : v.stage with
  | seeks =>
      cases hfound : rs.find? v.errand.name with
      | some r => exact ⟨_, _, by simp [step, hstage, hfound], .finds hstage hfound⟩
      | none => exact ⟨_, _, by simp [step, hstage, hfound], .misses hstage hfound⟩
  | creates => exact ⟨_, _, by simp [step, hstage], .creates hstage⟩
  | holds r => exact ⟨_, _, by simp [step, hstage], .acts hstage⟩
  | done answer =>
      have hsame : { v with stage := .done answer } = v := by rw [← hstage]
      refine ⟨_, _, ?_, .rests hstage⟩
      rw [hsame]
      simp only [step, hstage]

/-- What the visitor's next step inserts. -/
def insertions (v : Visit) : List Insertion :=
  match v.stage, v.errand with
  | .holds _, .inserts operation signature entry => [⟨operation, signature, entry⟩]
  | _, _ => []

/-- Which operation the visitor's next step binds, unless its name is bound. -/
def asks (v : Visit) : List Operation :=
  match v.stage, v.errand with
  | .holds _, .opens operation => [operation]
  | _, _ => []

theorem asks_cases (v : Visit) :
    v.asks = [] ∨ ∃ operation r, v.errand = .opens operation ∧ v.stage = .holds r ∧
      v.asks = [operation] := by
  unfold asks
  split
  next r operation hstage herrand => exact .inr ⟨operation, r, herrand, hstage, rfl⟩
  next => exact .inl rfl

/-- The registry that the visitor may use from now on. -/
def handle? (v : Visit) : Option Nat :=
  match v.errand, v.stage with
  | .opens _, .done (.opened (.ok r)) => some r
  | _, _ => none

/-- What a visitor has in hand or was told is so in the registries. -/
structure Fits (rs : Registries) (v : Visit) : Prop where
  holds : ∀ r, v.stage = .holds r → rs.find? v.errand.name = some r
  answered : ∀ answer, v.stage = .done answer → v.errand.CallsFor answer
  opened : ∀ operation r, v.errand = .opens operation → v.stage = .done (.opened (.ok r)) →
    rs.find? operation.name = some r ∧ rs.bound? operation.name = some operation.entryType
  refused : ∀ operation e, v.errand = .opens operation → v.stage = .done (.opened (.error e)) →
    ∃ own, rs.bound? operation.name = some own ∧ own ≠ operation.entryType ∧
      e = .entryTypeMismatch operation.name own operation.entryType

theorem fits_start (rs : Registries) (errand : Errand) : Fits rs { errand } where
  holds := by
    intro r h
    cases h
  answered := by
    intro answer h
    cases h
  opened := by
    intro operation r _ h
    cases h
  refused := by
    intro operation e _ h
    cases h

section

variable {v : Visit} {rs rs' : Registries} {p : Stage}

/-- What others do to the registries leaves a visitor what it has. -/
theorem Fits.mono {new : List Insertion} {asked : List Operation} (h : v.Fits rs)
    (hrs : rs.Indexed) (hgains : rs.Gains rs' new) (hbinds : rs.Binds rs' asked) : v.Fits rs' where
  holds := fun r hr => hgains.find? hrs (h.holds r hr)
  answered := h.answered
  opened := by
    intro operation r herrand hstage
    have hopened := h.opened operation r herrand hstage
    exact ⟨hgains.find? hrs hopened.1, hbinds.persists hopened.2⟩
  refused := by
    intro operation e herrand hstage
    rcases h.refused operation e herrand hstage with ⟨own, hown, hne, he⟩
    exact ⟨own, hbinds.persists hown, hne, he⟩

theorem Turns.gains (h : v.Turns rs p rs') (hv : v.Fits rs) (hrs : rs.Indexed) :
    rs.Gains rs' v.insertions := by
  cases h with
  | finds hstage | misses hstage | rests hstage =>
      simp only [insertions, hstage]
      exact .refl rs
  | creates hstage =>
      simp only [insertions, hstage]
      exact rs.gains_create _
  | @acts r hstage =>
      have hr := hv.holds r hstage
      simp only [insertions, hstage]
      cases herrand : v.errand with
      | opens operation => exact rs.gains_bind r _
      | inserts operation signature entry =>
          rw [herrand] at hr
          have hstore := rs.gains_store (hrs.lt hr) signature entry
          rwa [hrs.name_eq hr] at hstore
      | looks operation signature => exact rs.gains_look r signature
      | lists operation => exact .refl rs

theorem Turns.binds (h : v.Turns rs p rs') (hv : v.Fits rs) (hrs : rs.Indexed) :
    rs.Binds rs' v.asks := by
  have hstays : rs.Binds rs [] := .of_eq fun _ => rfl
  cases h with
  | finds hstage | misses hstage | rests hstage =>
      simp only [asks, hstage]
      exact hstays
  | creates hstage =>
      simp only [asks, hstage]
      exact rs.binds_create hrs _
  | @acts r hstage =>
      have hr := hv.holds r hstage
      simp only [asks, hstage]
      cases herrand : v.errand with
      | opens operation =>
          rw [herrand] at hr
          exact Registries.binds_bind hrs hr
      | inserts operation signature entry => exact rs.binds_store r signature entry
      | looks operation signature => exact rs.binds_look r signature
      | lists operation => exact hstays

/-- What an opening with a registry in hand comes to. -/
theorem act_opens {operation : Operation} {r : Nat} (hrs : rs.Indexed)
    (hr : rs.find? operation.name = some r) :
    (∃ own, rs.bound? operation.name = some own ∧ own ≠ operation.entryType ∧
      (Errand.opens operation).act rs r =
        (rs, .opened (.error (.entryTypeMismatch operation.name own operation.entryType)))) ∨
    ((rs.bound? operation.name).getD operation.entryType = operation.entryType ∧
      ((Errand.opens operation).act rs r).2 = .opened (.ok r) ∧
      ((Errand.opens operation).act rs r).1.bound? operation.name =
        some operation.entryType) := by
  rcases rs.bind_cases hrs hr operation.entryType with ⟨own, hown, hbind⟩ | ⟨hnone, hown, hafter⟩
  · by_cases hfits : own = operation.entryType
    · subst hfits
      refine .inr ⟨by rw [hown, Option.getD_some], ?_, ?_⟩
      · simp [Errand.act, hbind]
      · simp [Errand.act, hbind, hown]
    · exact .inl ⟨own, hown, hfits, by simp [Errand.act, hbind, hfits]⟩
  · refine .inr ⟨by rw [hnone, Option.getD_none], ?_, ?_⟩
    · simp [Errand.act, hown]
    · simp [Errand.act, hafter]

theorem handle?_eq_some_iff {r : Nat} :
    v.handle? = some r ↔
      ∃ operation, v.errand = .opens operation ∧ v.stage = .done (.opened (.ok r)) := by
  constructor
  · intro h
    unfold handle? at h
    split at h
    next operation r' herrand hstage =>
        cases h
        exact ⟨operation, herrand, hstage⟩
    next => cases h
  · rintro ⟨operation, herrand, hstage⟩
    simp [handle?, herrand, hstage]

/-- What a visitor has opened is the registry of the name. -/
theorem Fits.find?_handle (h : v.Fits rs) {r : Nat} (hr : v.handle? = some r) :
    rs.find? v.errand.name = some r := by
  rcases handle?_eq_some_iff.1 hr with ⟨operation, herrand, hstage⟩
  rw [herrand]
  exact (h.opened operation r herrand hstage).1

theorem fits_holds {r : Nat} (hr : rs.find? v.errand.name = some r) :
    Fits rs { v with stage := .holds r } where
  holds := by
    intro r' h
    cases h
    exact hr
  answered := by
    intro answer h
    cases h
  opened := by
    intro operation r' _ h
    cases h
  refused := by
    intro operation e _ h
    cases h

theorem fits_missing : Fits rs { v with stage := v.errand.missing } where
  holds := by
    intro r h
    cases herrand : v.errand with
    | _ => simp [Errand.missing, herrand] at h
  answered := fun answer h => Errand.callsFor_missing h
  opened := by
    intro operation r herrand h
    have herrand' : v.errand = .opens operation := herrand
    simp [Errand.missing, herrand'] at h
  refused := by
    intro operation e herrand h
    have herrand' : v.errand = .opens operation := herrand
    simp [Errand.missing, herrand'] at h

theorem fits_act {r : Nat} (hrs : rs.Indexed) (hr : rs.find? v.errand.name = some r) :
    Fits (v.errand.act rs r).1 { v with stage := .done (v.errand.act rs r).2 } where
  holds := by
    intro r' h
    cases h
  answered := by
    intro answer h
    cases h
    exact v.errand.callsFor_act rs r
  opened := by
    intro operation r' herrand h
    have herrand' : v.errand = .opens operation := herrand
    rw [herrand'] at hr h ⊢
    -- The registry is given only where it is bound to the type that was asked for.
    rcases act_opens hrs hr with ⟨own, -, -, hact⟩ | ⟨-, hanswer, hbound⟩
    · rw [hact] at h
      cases h
    · rw [hanswer] at h
      cases h
      exact ⟨(rs.gains_bind r _).find? hrs hr, hbound⟩
  refused := by
    intro operation e herrand h
    have herrand' : v.errand = .opens operation := herrand
    rw [herrand'] at hr h ⊢
    rcases act_opens hrs hr with ⟨own, hown, hne, hact⟩ | ⟨-, hanswer, -⟩
    · rw [hact] at h ⊢
      cases h
      exact ⟨own, hown, hne, rfl⟩
    · rw [hanswer] at h
      cases h

theorem Turns.fits (h : v.Turns rs p rs') (hv : v.Fits rs) (hrs : rs.Indexed) :
    Fits rs' { v with stage := p } := by
  cases h with
  | finds hstage hr => exact fits_holds hr
  | misses hstage _ => exact fits_missing
  | creates hstage => exact fits_holds (rs.find?_create _)
  | acts hstage => exact fits_act hrs (hv.holds _ hstage)
  | @rests answer hstage =>
      have hsame : { v with stage := .done answer } = v := by rw [← hstage]
      rw [hsame]
      exact hv

/-- How many steps of its own a visitor is from its answer, at most. -/
def stepsLeft (v : Visit) : Nat :=
  match v.stage with
  | .seeks => 3
  | .creates => 2
  | .holds _ => 1
  | .done _ => 0

theorem Turns.stepsLeft_lt (h : v.Turns rs p rs') (hv : v.stepsLeft ≠ 0) :
    stepsLeft { v with stage := p } < v.stepsLeft := by
  cases h with
  | finds hstage _ => simp [stepsLeft, hstage]
  | misses hstage _ =>
      cases herrand : v.errand with
      | _ => simp [stepsLeft, hstage, Errand.missing]
  | creates hstage => simp [stepsLeft, hstage]
  | acts hstage => simp [stepsLeft, hstage]
  | rests hstage => simp [stepsLeft, hstage] at hv

/-- A visitor that has its answer keeps it, and the registries stay as they are. -/
theorem Turns.eq_of_done (h : v.Turns rs p rs') {answer : Answer} (hv : v.stage = .done answer) :
    p = v.stage ∧ rs' = rs := by
  cases h with
  | finds hstage _ => simp [hv] at hstage
  | misses hstage _ => simp [hv] at hstage
  | creates hstage => simp [hv] at hstage
  | acts hstage => simp [hv] at hstage
  | rests hstage => exact ⟨hstage.symm, rfl⟩

theorem stepsLeft_eq_zero (h : v.stepsLeft = 0) : ∃ answer, v.stage = .done answer := by
  cases hstage : v.stage with
  | done answer => exact ⟨answer, rfl⟩
  | _ => simp [stepsLeft, hstage] at h

/-- Whoever looks is given what is known at that time, also where there is no registry. -/
theorem Turns.found_eq (h : v.Turns rs p rs') (hv : v.Fits rs) {name : Text} {s : Signature}
    (herrand : v.errand = .looks name s) (hleft : v.stepsLeft ≠ 0) {entry : Option Entry}
    (hp : p = .done (.found entry)) : entry = rs.known name s := by
  cases h with
  | finds hstage _ => cases hp
  | creates hstage => cases hp
  | rests hstage => simp [stepsLeft, hstage] at hleft
  | misses hstage hnone =>
      rw [herrand] at hp hnone
      cases hp
      have hnone' : rs.find? name = none := hnone
      rw [Registries.known, hnone', Option.bind_none]
  | acts hstage =>
      have hr := hv.holds _ hstage
      rw [herrand] at hp hr
      cases hp
      have hr' : rs.find? name = some _ := hr
      rw [Registries.known, hr', Option.bind_some]

/-- Whoever lists signatures is given those that are known at that time. -/
theorem Turns.listed_eq (h : v.Turns rs p rs') (hv : v.Fits rs) {name : Text}
    (herrand : v.errand = .lists name) (hleft : v.stepsLeft ≠ 0) {signatures : List Signature}
    (hp : p = .done (.listed signatures)) : signatures = rs.signaturesOf name := by
  cases h with
  | finds hstage _ => cases hp
  | creates hstage => cases hp
  | rests hstage => simp [stepsLeft, hstage] at hleft
  | misses hstage hnone =>
      rw [herrand] at hp hnone
      cases hp
      have hnone' : rs.find? name = none := hnone
      rw [Registries.signaturesOf, hnone']
  | acts hstage =>
      have hr := hv.holds _ hstage
      rw [herrand] at hp hr
      cases hp
      have hr' : rs.find? name = some _ := hr
      rw [Registries.signaturesOf, hr']

end

end Visit
end OnDemand
