import OnDemand.Native.Host
import OnDemand.Proofs.Dispatch.Openings
import OnDemand.Proofs.Fallible

/-!
# What a host makes of the calls of a module

A module is run against registries and calls its host in whatever way it likes.  A call that is in
order maps one operation and one signature to one entry and is counted; any other call changes
nothing and is refused.  So a run comes to the calls that were in order, whatever the module made of
the answers.
-/

namespace OnDemand

/-! ## Bytes and texts -/

/-- The text that bytes encode is the one whose bytes they are. -/
theorem Content.decode?_eq_some_iff {bytes : List UInt8} {t : Text} :
    Content.decode? bytes = some t ↔ bytes = (Content.text t).bytes := by
  have hbytes : (Content.text t).bytes = (String.ofList t).toByteArray.data.toList := rfl
  rw [hbytes, Content.decode?, Option.map_eq_some_iff]
  constructor
  · rintro ⟨s, hs, rfl⟩
    unfold String.fromUTF8? at hs
    split at hs
    next h =>
        cases hs
        rw [String.ofList_toList]
        rfl
    next => cases hs
  · rintro rfl
    refine ⟨String.ofList t, ?_, String.toList_ofList⟩
    rw [Array.toArray_toList, String.fromUTF8?, dif_pos (String.ofList t).isValidUTF8]
    rfl

/-- The view shows the text: in its encoding, or an empty one behind a null pointer. -/
def View.Shows : View → Text → Prop
  | .null _, t => t = []
  | .slice bytes, t => bytes = (Content.text t).bytes

theorem View.text?_eq_some_iff {v : View} {t : Text} : v.text? = some t ↔ v.Shows t := by
  cases v with
  | null length =>
      constructor
      · intro h
        exact (Option.some.inj h).symm
      · rintro rfl
        rfl
  | slice bytes => exact Content.decode?_eq_some_iff

/-- The views show the texts one by one; a null pointer shows none, and must not claim any. -/
def Views.Shows : Views → List Text → Prop
  | .null length, texts => length = 0 ∧ texts = []
  | .list views, texts => List.Forall₂ View.Shows views texts

theorem Views.texts?_eq_some_iff {vs : Views} {texts : List Text} :
    vs.texts? = some texts ↔ vs.Shows texts := by
  cases vs with
  | null length =>
      cases length with
      | zero => simp [texts?, Shows, eq_comm]
      | succ n => simp [texts?, Shows]
  | list views =>
      simp only [texts?, Shows, mapM_eq_some_iff, View.text?_eq_some_iff]

/-! ## Calls in order -/

/-- The call is in order and asks for this insertion. -/
structure Call.Asks (c : Call) (i : Insertion) : Prop where
  handle : c.handle = true
  operation : c.operation.Shows i.operation
  signature : c.signature.Shows i.signature
  entry : c.entry = some i.entry

theorem Call.insertion?_eq_some_iff {c : Call} {i : Insertion} :
    c.insertion? = some i ↔ c.Asks i := by
  unfold insertion?
  by_cases hhandle : c.handle = true
  · simp only [if_pos hhandle, Option.bind_eq_bind, Option.bind_eq_some_iff, Option.pure_def,
      Option.some.injEq, View.text?_eq_some_iff, Views.texts?_eq_some_iff]
    constructor
    · rintro ⟨operation, hoperation, signature, hsignature, entry, hentry, rfl⟩
      exact ⟨hhandle, hoperation, hsignature, hentry⟩
    · intro h
      exact ⟨_, h.operation, _, h.signature, _, h.entry, rfl⟩
  · rw [if_neg hhandle]
    constructor
    · intro h
      cases h
    · intro h
      exact absurd h.handle hhandle

/-- What a call in order asks for is determined by it. -/
theorem Call.Asks.unique {c : Call} {i i' : Insertion} (h : c.Asks i) (h' : c.Asks i') : i = i' :=
  Option.some.inj ((insertion?_eq_some_iff.2 h).symm.trans (insertion?_eq_some_iff.2 h'))

/-! ## Insertions and nothing else -/

namespace Registries

/-- From `rs` to `rs'` the entries of `new` have been mapped in order, and nothing else changed. -/
structure OnlyMaps (rs rs' : Registries) (new : List Insertion) : Prop where
  known : ∀ operation s,
    rs'.known operation s = (lastWrite new operation s).or (rs.known operation s)
  names : ∀ name, name ∈ rs'.names ↔ name ∈ rs.names ∨ ∃ i ∈ new, i.operation = name
  bound : ∀ name, rs'.bound? name = rs.bound? name
  flights : rs'.flights = rs.flights
  flying : ∀ r s, rs'.flying? r s = rs.flying? r s

theorem mem_names_iff {rs : Registries} {name : Text} :
    name ∈ rs.names ↔ (rs.find? name).isSome = true :=
  Table.mem_keys_iff

theorem mem_names_insert (rs : Registries) (i : Insertion) (name : Text) :
    name ∈ (rs.insert i.operation i.signature i.entry).names ↔
      name ∈ rs.names ∨ i.operation = name := by
  rw [mem_names_iff, mem_names_iff]
  change ((rs.create i.operation).1.find? name).isSome = true ↔ _
  by_cases hname : name = i.operation
  · simp [hname, find?_create]
  · simp [find?_create_of_ne rs hname, Ne.symm hname]

theorem mem_names_insertAll (rs : Registries) (new : List Insertion) (name : Text) :
    name ∈ (rs.insertAll new).names ↔ name ∈ rs.names ∨ ∃ i ∈ new, i.operation = name := by
  induction new generalizing rs with
  | nil => simp [insertAll]
  | cons i new ih =>
      change name ∈ ((rs.insert i.operation i.signature i.entry).insertAll new).names ↔ _
      rw [ih, mem_names_insert]
      simp [or_assoc]

theorem onlyMaps_insertAll (rs : Registries) (hrs : rs.Indexed) (new : List Insertion) :
    rs.OnlyMaps (rs.insertAll new) new where
  known := (rs.gains_insertAll hrs new).known hrs
  names := rs.mem_names_insertAll new
  bound := (rs.binds_insertAll hrs new).bound?_eq
  flights := (rs.keeps_insertAll new).flights
  flying := (rs.keeps_insertAll new).flying

end Registries

/-! ## The answers of the host -/

/-- The host's answer to a call, whatever came before. -/
def Call.answer (c : Call) : Status := if c.insertion?.isSome then .ok else .invalidArgument

namespace Script

/-- The calls that a module makes of a host. -/
def calls : Script → List Call
  | .finish _ => []
  | .call c next => c :: (next c.answer).calls

/-- The status that a module ends with. -/
def last : Script → Status
  | .finish status => status
  | .call c next => (next c.answer).last

/-- What a module has inserted by its calls, in order. -/
def accepted (script : Script) : List Insertion := script.calls.filterMap Call.insertion?

/-- A module that makes the calls whatever it is answered. -/
def heedless (calls : List Call) (status : Status) : Script :=
  calls.foldr (fun c script => .call c fun _ => script) (.finish status)

theorem calls_heedless (calls : List Call) (status : Status) :
    (heedless calls status).calls = calls ∧ (heedless calls status).last = status := by
  induction calls with
  | nil => exact ⟨rfl, rfl⟩
  | cons c calls ih =>
      have heq : heedless (c :: calls) status = .call c fun _ => heedless calls status := rfl
      rw [heq]
      exact ⟨congrArg (c :: ·) ih.1, ih.2⟩

end Script

namespace Loading

theorem register_of_asks (l : Loading) {c : Call} {i : Insertion} (h : c.Asks i) :
    l.register c = (⟨l.registries.insertAll [i], l.count + 1⟩, .ok) := by
  rw [register, Call.insertion?_eq_some_iff.2 h]
  rfl

theorem register_of_not_asks (l : Loading) {c : Call} (h : ∀ i, ¬c.Asks i) :
    l.register c = (l, .invalidArgument) := by
  have hnone : c.insertion? = none := by
    refine Option.eq_none_iff_forall_not_mem.2 fun i hi => ?_
    exact h i (Call.insertion?_eq_some_iff.1 hi)
  rw [register, hnone]

theorem register_eq (l : Loading) (c : Call) :
    l.register c =
      (⟨l.registries.insertAll c.insertion?.toList, l.count + c.insertion?.toList.length⟩,
        c.answer) := by
  cases hinsertion : c.insertion? with
  | some i =>
      rw [l.register_of_asks (Call.insertion?_eq_some_iff.1 hinsertion), Call.answer, hinsertion]
      rfl
  | none =>
      have hrefused : ∀ i, ¬c.Asks i := by
        intro i hi
        rw [Call.insertion?_eq_some_iff.2 hi] at hinsertion
        cases hinsertion
      rw [l.register_of_not_asks hrefused, Call.answer, hinsertion]
      rfl

/-- A run comes to the insertions that are asked for in order, and counts them. -/
theorem run_eq (l : Loading) (script : Script) :
    l.run script =
      (⟨l.registries.insertAll script.accepted, l.count + script.accepted.length⟩,
        script.calls.map Call.answer, script.last) := by
  induction script generalizing l with
  | finish status => rfl
  | call c next ih =>
      -- The module goes on from the answer, which is the same whatever came before the call.
      have haccepted : (Script.call c next).accepted =
          c.insertion?.toList ++ (next c.answer).accepted := by
        unfold Script.accepted
        rw [Script.calls, List.filterMap_cons]
        cases c.insertion? <;> rfl
      have hinsertAll : ∀ new new' : List Insertion, ∀ rs : Registries,
          (rs.insertAll new).insertAll new' = rs.insertAll (new ++ new') := by
        intro new new' rs
        simp only [Registries.insertAll, List.foldl_append]
      simp only [run, register_eq, ih, haccepted, hinsertAll, List.length_append, Script.calls,
        List.map_cons, Script.last, Nat.add_assoc]

end Loading

/-! ## Calls and runs -/

/-- A call is made as a whole or not at all, and counted if it is made. -/
structure Loading.Atomic (l : Loading) (c : Call) : Prop where
  /-- The call is made if the host gets its own handle, texts in all views and an entry point. -/
  ok_iff : (l.register c).2 = .ok ↔ c.handle = true ∧ (∃ t, c.operation.Shows t) ∧
    (∃ texts, c.signature.Shows texts) ∧ ∃ entry, c.entry = some entry
  /-- Then what it shows is mapped to the entry, and it is counted. -/
  made : ∀ operation signature entry, (l.register c).2 = .ok → c.operation.Shows operation →
    c.signature.Shows signature → c.entry = some entry →
    l.registries.OnlyMaps (l.register c).1.registries [⟨operation, signature, entry⟩] ∧
      (l.register c).1.count = l.count + 1
  /-- Otherwise nothing changes. -/
  refused : (l.register c).2 ≠ .ok → l.register c = (l, .invalidArgument)

theorem Loading.atomic (l : Loading) (hl : l.registries.Indexed) (c : Call) : l.Atomic c := by
  have hcases : (∃ i, c.Asks i) ∨ ∀ i, ¬c.Asks i := by
    by_cases h : ∃ i, c.Asks i
    · exact .inl h
    · exact .inr fun i hi => h ⟨i, hi⟩
  rcases hcases with ⟨i, hi⟩ | hrefused
  · have hregister := l.register_of_asks hi
    refine ⟨?_, ?_, ?_⟩
    · rw [hregister]
      exact ⟨fun _ => ⟨hi.handle, ⟨_, hi.operation⟩, ⟨_, hi.signature⟩, _, hi.entry⟩, fun _ => rfl⟩
    · intro operation signature entry _ hoperation hsignature hentry
      have hi' : c.Asks ⟨operation, signature, entry⟩ :=
        ⟨hi.handle, hoperation, hsignature, hentry⟩
      -- The views show nothing else than what the host has read in them.
      cases hi.unique hi'
      rw [hregister]
      exact ⟨l.registries.onlyMaps_insertAll hl _, rfl⟩
    · intro hnot
      rw [hregister] at hnot
      exact absurd rfl hnot
  · have hregister := l.register_of_not_asks hrefused
    refine ⟨?_, ?_, fun _ => hregister⟩
    · rw [hregister]
      constructor
      · intro h
        cases h
      · rintro ⟨hhandle, ⟨t, ht⟩, ⟨texts, htexts⟩, entry, hentry⟩
        exact absurd ⟨hhandle, ht, htexts, hentry⟩ (hrefused ⟨t, texts, entry⟩)
    · intro operation signature entry hok
      rw [hregister] at hok
      cases hok

/-- A run of a module comes to its calls that are in order and to the status that it ends with. -/
structure Script.Faithful (script : Script) (rs : Registries) : Prop where
  /-- What is inserted is what calls in order ask for. -/
  accepted : ∀ (c : Call) (i : Insertion), c.insertion? = some i ↔ c.Asks i
  registries : (script.runAgainst rs).registries = rs.insertAll script.accepted
  maps : rs.OnlyMaps (script.runAgainst rs).registries script.accepted
  answers : (script.runAgainst rs).answers = script.calls.map Call.answer
  result : (script.runAgainst rs).result =
    if script.last = .ok then .ok script.accepted.length
    else .error (script.last, script.accepted.length)

theorem Script.faithful (script : Script) (rs : Registries) (hrs : rs.Indexed) :
    script.Faithful rs := by
  have hrun : script.runAgainst rs =
      ⟨rs.insertAll script.accepted, script.calls.map Call.answer,
        if script.last = .ok then .ok script.accepted.length
        else .error (script.last, script.accepted.length)⟩ := by
    simp only [runAgainst, Loading.run_eq, Nat.zero_add]
  refine ⟨fun _ _ => Call.insertion?_eq_some_iff, ?_, ?_, ?_, ?_⟩
  · rw [hrun]
  · rw [hrun]
    exact rs.onlyMaps_insertAll hrs _
  · rw [hrun]
  · rw [hrun]

/--
Each call that a host is asked is made as a whole or not at all, and a run of a module leaves the
calls that were made and their number, whatever the module does with the answers.
-/
theorem host_calls_are_atomic (rs : Registries) (hrs : rs.Indexed) :
    (∀ count c, Loading.Atomic ⟨rs, count⟩ c) ∧ (∀ script : Script, script.Faithful rs) ∧
      ∀ calls status, (Script.heedless calls status).calls = calls ∧
        (Script.heedless calls status).last = status :=
  ⟨fun _ c => Loading.atomic _ hrs c, fun script => script.faithful rs hrs,
    Script.calls_heedless⟩

/-- A module with three calls, of which the first shows no text and the last has no entry point. -/
def lastAndFirstRefused : Script :=
  .heedless [
    { operation := .slice [0xff], signature := .list [], entry := some ⟨1, by decide⟩ },
    { operation := .slice [0x66], signature := .list [.null 4], entry := some ⟨2, by decide⟩ },
    { operation := .null 4, signature := .null 0, entry := none }] .failed

theorem accepted_lastAndFirstRefused :
    lastAndFirstRefused.accepted = [⟨['f'], [[]], ⟨2, by decide⟩⟩] := by
  decide +kernel

theorem host_calls_are_atomic_lastAndFirstRefused :
    Registries.Indexed {} ∧
      (lastAndFirstRefused.runAgainst {}).registries.known ['f'] [[]] = some ⟨2, by decide⟩ ∧
      (lastAndFirstRefused.runAgainst {}).result = .error (.failed, 1) := by
  have hfaithful := (host_calls_are_atomic {} Registries.indexed_empty).2.1 lastAndFirstRefused
  refine ⟨Registries.indexed_empty, ?_, ?_⟩
  · rw [hfaithful.maps.known, accepted_lastAndFirstRefused]
    rfl
  · rw [hfaithful.result, accepted_lastAndFirstRefused]
    rfl

end OnDemand
