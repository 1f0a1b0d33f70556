import Mathlib.Data.List.Nodup
import OnDemand.Proofs.Dispatch.Entries
import OnDemand.Proofs.Plugin.SourceLines

/-!
# What a generated module registers

A loader can find the registrations of a module in its source, line by line: below each line that
begins one stand the operation, the parts of the signature, and the path of the instance.  What is
found there is what was requested, whatever the parts and the operation look like
(`GeneratedModule.registers_companions`).
-/

namespace OnDemand

/-! ## Reading registrations -/

/-- A registration in a source. -/
structure Registration where
  operation : Text
  parts : Signature
  /-- The path of the instance that is registered. -/
  path : Text
  deriving DecidableEq, Repr

namespace Registration

/-- The operation on a line: its literal and a comma. -/
def operationOn? (l : Text) : Option Text :=
  match Quoted.read? (Text.trim l) with
  | some (operation, [',']) => some operation
  | _ => none

/-- The parts on a line: a reference to the list of their literals, and a comma. -/
def partsOn? (l : Text) : Option Signature := do
  let r ← Text.dropPrefix? "&".toList (Text.trim l)
  let parts ← Quoted.readList? r
  if r = Quoted.list parts ++ ",".toList then some parts else none

/-- The path on a line.  It may begin with blanks of its own, so just the tabs are taken off. -/
def pathOn? (l : Text) : Option Text := do
  let r ← Text.dropPrefix? "\t\t".toList l
  Text.dropSuffix? " as *const (),".toList r

/-- The registration on the three lines below the one that begins it. -/
def read? : List Text → Option Registration
  | a :: b :: c :: _ => do
    return ⟨← operationOn? a, ← partsOn? b, ← pathOn? c⟩
  | _ => none

/-- Whether a registration begins on the line. -/
def BeginsOn (l : Text) : Prop := Text.trim l = GeneratedModule.registration

instance (l : Text) : Decidable (BeginsOn l) := inferInstanceAs (Decidable (_ = _))

/-- The registrations that begin on the lines, in order; nothing for one that cannot be read. -/
def readAll : List Text → List (Option Registration)
  | [] => []
  | l :: ls => if BeginsOn l then read? ls :: readAll ls else readAll ls

/-- The insertions are what the source registers, in order, with any entries. -/
def MadeOf (source : Text) (insertions : List Insertion) : Prop :=
  insertions.map (fun i => some (i.operation, i.signature)) =
    (readAll (Text.lines source)).map (Option.map fun r => (r.operation, r.parts))

theorem length_readAll (ls : List Text) :
    (readAll ls).length = ls.countP fun l => decide (BeginsOn l) := by
  induction ls with
  | nil => rfl
  | cons l ls ih =>
      rw [readAll, List.countP_cons]
      split <;> simp_all

theorem readAll_append_of_not {ls : List Text} (h : ∀ l ∈ ls, ¬BeginsOn l) (rest : List Text) :
    readAll (ls ++ rest) = readAll rest := by
  induction ls with
  | nil => rfl
  | cons l ls ih =>
      rw [List.cons_append, readAll, if_neg (h l (by simp)),
        ih fun l' hl' => h l' (List.mem_cons_of_mem l hl')]

end Registration

/-! ## Lines beside the registrations -/

namespace GeneratedModule

/-- An alias by this name is declared on the line. -/
def DeclaresOn (name l : Text) : Prop := aliasHead name <+: l

instance (name l : Text) : Decidable (DeclaresOn name l) := inferInstanceAs (Decidable (_ <+: _))

theorem countP_of_not_declares {ls : List Text} (h : ∀ l ∈ ls, ¬"type ".toList <+: l)
    (name : Text) : ls.countP (fun l => decide (DeclaresOn name l)) = 0 := by
  refine List.countP_eq_zero.2 fun l hl => ?_
  rw [decide_eq_true_eq]
  have hhead : "type ".toList <+: aliasHead name := ⟨_, (aliasHead_eq name).symm⟩
  exact fun hdeclares => h l hl (hhead.trans hdeclares)

/-- A line that begins no registration and no declaration, and is not above the entry point. -/
structure Aside (l : Text) : Prop where
  isLine : Text.IsLine l
  not_beginsOn : ¬Registration.BeginsOn l
  not_declares : ¬"type ".toList <+: l
  ne_exportLine : l ≠ exportLine

theorem not_beginsOn_concat {c : Char} (hc : isBlank c = false) (hne : c ≠ '(') (t : Text) :
    ¬Registration.BeginsOn (t ++ [c]) := by
  intro h
  have hlast := Text.getLast?_trim hc t
  rw [h] at hlast
  exact hne (Option.some.inj hlast).symm

/-- A line can be told apart by its first character and its last one. -/
theorem Aside.of_ends {c d : Char} {t : Text} (hline : '\n' ∉ c :: t)
    (hfirst : c ∉ "t#".toList) (hlast : d ∉ "\n\r(".toList) (hblank : isBlank d = false) :
    Aside (c :: t ++ [d]) := by
  simp only [String.reduceToList, List.mem_cons, List.not_mem_nil, or_false, not_or] at hfirst hlast
  refine ⟨.concat hline (by simp [hlast]), not_beginsOn_concat hblank hlast.2.2 _, ?_, ?_⟩
  · rintro ⟨r, hr⟩
    exact hfirst.1 (List.cons.inj hr).1.symm
  · intro heq
    exact hfirst.2 (List.cons.inj heq).1

instance (l : Text) : Decidable (Text.IsLine l) :=
  decidable_of_iff ('\n' ∉ l ∧ l.getLast? ≠ some '\r') ⟨fun h => ⟨h.1, h.2⟩, fun h => ⟨h.1, h.2⟩⟩

instance (l : Text) : Decidable (Aside l) :=
  decidable_of_iff (Text.IsLine l ∧ ¬Registration.BeginsOn l ∧ ¬"type ".toList <+: l ∧
    l ≠ exportLine)
    ⟨fun h => ⟨h.1, h.2.1, h.2.2.1, h.2.2.2⟩,
      fun h => ⟨h.isLine, h.not_beginsOn, h.not_declares, h.ne_exportLine⟩⟩

/-- No line of a type is taken for something else. -/
theorem Aside.of_isTypeLine {l : Text} (hl : Text.IsLine l) (h : IsTypeLine l) : Aside l := by
  refine ⟨hl, ?_, ?_, ?_⟩
  · intro hbegins
    obtain ⟨after, hafter⟩ := Text.trim_prefix l
    rw [hbegins] at hafter
    have hdelimiter := h.delimiter (v := "let".toList) (c := ' ')
      (r := "status = host.register(".toList ++ after) hafter.symm (by decide) rfl
    exact absurd hdelimiter (by decide)
  · rintro ⟨r, rfl⟩
    have hdelimiter := h.delimiter (v := "type".toList) (c := ' ') (r := r) rfl (by decide) rfl
    exact absurd hdelimiter (by decide)
  · rintro rfl
    have hdelimiter := h.delimiter (v := []) (c := '#') (r := "[unsafe(no_mangle)]".toList) rfl
      (by decide) rfl
    exact absurd hdelimiter (by decide)

theorem aside_blank : Aside [] := by decide

theorem aside_headLines {uses lateUses : List Text}
    (h : ∀ item, item ∈ uses ∨ item ∈ lateUses → '\n' ∉ item) :
    ∀ l ∈ Sheet.headLines uses lateUses, Aside l := by
  have hpreamble : ∀ l ∈ Sheet.preambleLines, Aside l := by decide +kernel
  have huse : ∀ item, '\n' ∉ item → Aside (Sheet.useText item) := by
    intro item hitem
    exact .of_ends (c := 'u') (t := "se ".toList ++ item) (d := ';') (by simp [hitem])
      (by decide) (by decide) rfl
  intro l hl
  simp only [Sheet.headLines, List.mem_append, List.mem_map, List.mem_singleton] at hl
  rcases hl with ((((hl | rfl) | ⟨item, hitem, rfl⟩) | rfl) | ⟨item, hitem, rfl⟩) | rfl
  · exact hpreamble l hl
  · exact aside_blank
  · exact huse item (h item (.inl hitem))
  · exact aside_blank
  · exact huse item (h item (.inr hitem))
  · exact aside_blank

/-! ## The lines of the declarations -/

/-- The first line of a declaration names the alias, and the others are beside it. -/
theorem aliasLines_eq {name : Text} {d : Descriptor} (hname : '\n' ∉ name) (hname' : '\r' ∉ name)
    (h : IsTypeText d.rendering) :
    ∃ t rest, aliasLines name d = (aliasHead name ++ t) :: rest ∧
      Text.IsLine (aliasHead name ++ t) ∧ ∀ l ∈ rest, Aside l := by
  have hhead := not_mem_aliasHead (c := '\n') (by decide) hname
  have hlined : Lined (aliasHead name ++ d.rendering ++ ";".toList) :=
    ((lined_of_not_mem hhead).append h.lined).append (lined_of_not_mem (by decide))
  have hreturn : '\r' ∉ aliasHead name ++ d.rendering ++ ";".toList := by
    rw [List.mem_append, List.mem_append, not_or, not_or]
    exact ⟨⟨not_mem_aliasHead (by decide) hname', h.return_not_mem⟩, by decide⟩
  have hlines : ∀ l ∈ aliasLines name d, Text.IsLine l := fun l hl =>
    Text.isLine_of_not_mem (Text.not_mem_of_mem_splitAt hl)
      fun hc => hreturn (Text.mem_of_mem_splitAt hl hc)
  -- Behind a line break all is text of the type, up to the semicolon.
  have hrest : ∀ l ∈ (aliasLines name d).tail, Aside l := fun l hl =>
    .of_isTypeLine (hlines l (List.mem_of_mem_tail hl)) (hlined.isTypeLine hl)
  have hfirst : (aliasLines name d).head? =
      some (aliasHead name ++ (d.rendering ++ ";".toList).takeWhile fun c => c != '\n') := by
    rw [aliasLines, Text.head?_splitAt, List.append_assoc, List.takeWhile_append_of_pos]
    intro c hc
    rw [bne_iff_ne]
    rintro rfl
    exact hhead hc
  cases hall : aliasLines name d with
  | nil => exact absurd hall (Text.splitAt_ne_nil _ _)
  | cons first rest =>
      rw [hall] at hlines hrest hfirst
      cases hfirst
      exact ⟨_, rest, rfl, hlines _ (by simp), hrest⟩

theorem aliasName_injective : Function.Injective aliasName := by
  intro m n h
  have hdigits : Nat.toDigits 10 m = Nat.toDigits 10 n := (List.cons.inj h).2
  rw [← Nat.ofDigitChars_toDigits (b := 10) (n := m) (by decide) (by decide), hdigits,
    Nat.ofDigitChars_toDigits (by decide) (by decide)]

/-- What is declared on the first line of a declaration is its own alias. -/
theorem declaresOn_aliasHead {m n : Nat} {t : Text} :
    DeclaresOn (aliasName m) (aliasHead (aliasName n) ++ t) ↔ m = n := by
  constructor
  · rintro ⟨r, hr⟩
    have hspace : ∀ n, ' ' ∉ aliasName n := not_mem_aliasName (by decide) rfl
    have hnames : aliasName m ++ ' ' :: ("= ".toList ++ r) =
        aliasName n ++ ' ' :: ("= ".toList ++ t) := by
      rw [aliasHead_eq, aliasHead_eq] at hr
      simp only [List.append_assoc, List.append_cancel_left_eq] at hr
      exact hr
    -- The names end at the first space.
    have hpieces := congrArg (Text.splitAt ' ') hnames
    rw [Text.splitAt_append_self, Text.splitAt_append_self, Text.splitAt_of_not_mem (hspace m),
      Text.splitAt_of_not_mem (hspace n)] at hpieces
    exact aliasName_injective (List.cons.inj hpieces).1
  · rintro rfl
    exact List.prefix_append _ _

/-- How many of the lines of a declaration declare an alias. -/
theorem countP_aliasLines (m : Nat) {n : Nat} {d : Descriptor} (h : IsTypeText d.rendering) :
    (aliasLines (aliasName n) d).countP (fun l => decide (DeclaresOn (aliasName m) l)) =
      if m = n then 1 else 0 := by
  obtain ⟨t, rest, hlines, -, hrest⟩ := aliasLines_eq (not_mem_aliasName (by decide) rfl n)
    (not_mem_aliasName (by decide) rfl n) h
  rw [hlines, List.countP_cons, countP_of_not_declares fun l hl => (hrest l hl).not_declares]
  simp only [decide_eq_true_eq, declaresOn_aliasHead, Nat.zero_add]

theorem aside_comment {operation : Text} (hop : '\n' ∉ operation) :
    Aside ("// ".toList ++ operation ++ ".".toList) :=
  .of_ends (c := '/') (t := "/ ".toList ++ operation) (d := '.') (by simp [hop])
    (by decide) (by decide) rfl

/-- The lines of the declarations come before the entry point, and none begins a registration. -/
theorem of_mem_declaredLines {ds : List Descriptor} {operations : List Text}
    (hops : ∀ c ∈ operations, '\n' ∉ c) (hds : ∀ d ∈ ds, IsTypeText d.rendering) :
    ∀ l ∈ declaredLines ds operations,
      Text.IsLine l ∧ ¬Registration.BeginsOn l ∧ l ≠ exportLine := by
  have haside : ∀ {l}, Aside l → Text.IsLine l ∧ ¬Registration.BeginsOn l ∧ l ≠ exportLine :=
    fun h => ⟨h.isLine, h.not_beginsOn, h.ne_exportLine⟩
  intro l hl
  obtain ⟨⟨operation, k⟩, hmem, hl⟩ := List.mem_flatMap.1 hl
  have hop := hops operation (List.fst_mem_of_mem_zipIdx hmem)
  simp only [declarationLines, List.mem_append, List.mem_singleton] at hl
  rcases hl with (rfl | hl) | rfl
  · exact haside (aside_comment hop)
  · obtain ⟨⟨name, d⟩, hpair, hl⟩ := List.mem_flatMap.1 hl
    obtain ⟨hname, hd⟩ := List.of_mem_zip hpair
    obtain ⟨n, -, rfl⟩ := List.mem_map.1 hname
    obtain ⟨t, rest, hlines, hfirst, hrest⟩ := aliasLines_eq
      (not_mem_aliasName (by decide) rfl n) (not_mem_aliasName (by decide) rfl n) (hds d hd)
    rw [hlines] at hl
    rcases List.mem_cons.1 hl with rfl | hl
    · -- Only the line that begins an alias is not an aside: it begins with the word of an alias,
      -- and neither a registration nor the exported line does.
      refine ⟨hfirst, fun hbegins => ?_, fun heq => ?_⟩
      · obtain ⟨after, hafter⟩ := Text.trim_prefix (aliasHead (aliasName n) ++ t)
        rw [hbegins] at hafter
        exact absurd (List.cons.inj hafter).1 (by decide)
      · exact absurd (List.cons.inj heq).1 (by decide)
    · exact haside (hrest l hl)
  · exact haside aside_blank

/-! ## Numbers of aliases -/

theorem countP_aliases (m : Nat) {ns : List Nat} {ds : List Descriptor}
    (hlength : ns.length = ds.length) (hds : ∀ d ∈ ds, IsTypeText d.rendering) :
    (((ns.map aliasName).zip ds).flatMap fun (name, d) => aliasLines name d).countP
      (fun l => decide (DeclaresOn (aliasName m) l)) = ns.count m := by
  induction ns generalizing ds with
  | nil => rfl
  | cons n ns ih =>
      cases ds with
      | nil => cases hlength
      | cons d ds =>
          rw [List.map_cons, List.zip_cons_cons, List.flatMap_cons, List.countP_append,
            countP_aliasLines m (hds d (by simp)),
            ih (Nat.succ.inj hlength) fun d hd => hds d (List.mem_cons_of_mem _ hd),
            List.count_cons, Nat.add_comm]
          rcases Decidable.em (m = n) with rfl | hne
          · simp
          · simp [hne, Ne.symm hne]

/-- The aliases of the companions are numbered one after the other. -/
theorem countP_declarations (m : Nat) {ds : List Descriptor}
    (hds : ∀ d ∈ ds, IsTypeText d.rendering) {operations : List Text}
    (hops : ∀ c ∈ operations, '\n' ∉ c) (j : Nat) :
    ((operations.zipIdx j).flatMap fun (operation, k) => declarationLines ds operation k).countP
      (fun l => decide (DeclaresOn (aliasName m) l)) =
        (List.range' (j * ds.length) (operations.length * ds.length)).count m := by
  have hnone : ∀ l, Aside l → [l].countP (fun l => decide (DeclaresOn (aliasName m) l)) = 0 := by
    intro l hl
    refine countP_of_not_declares (fun l' hl' => ?_) _
    rw [List.mem_singleton.1 hl']
    exact hl.not_declares
  induction operations generalizing j with
  | nil => simp
  | cons operation operations ih =>
      -- The numbers of the first operation stand before those of the operations after it.
      have hrange : List.range' (j * ds.length) ((operation :: operations).length * ds.length) =
          List.range' (j * ds.length) ds.length ++
            List.range' ((j + 1) * ds.length) (operations.length * ds.length) := by
        rw [Nat.succ_mul, List.range'_append_1, List.length_cons, Nat.succ_mul, Nat.add_comm]
      rw [List.zipIdx_cons, List.flatMap_cons, List.countP_append,
        ih fun c hc => hops c (List.mem_cons_of_mem _ hc), hrange, List.count_append]
      congr 1
      dsimp only [declarationLines]
      rw [List.countP_append, List.countP_append,
        hnone _ (aside_comment (hops operation (by simp))), hnone _ aside_blank, aliasNames,
        countP_aliases m (by simp) hds]
      simp

/-! ## The lines of the registrations -/

theorem aside_openingLines : ∀ l ∈ openingLines, l = exportLine ∨ Aside l := by decide +kernel

theorem isLine_exportLine : Text.IsLine exportLine := by decide

theorem aside_closingLines : ∀ l ∈ closingLines, Aside l := by decide +kernel

section Register

variable {operation : Text} {s : Signature}

theorem operationOn?_registerLines (operation : Text) :
    Registration.operationOn? ("\t\t".toList ++ (Quoted.text operation ++ ",".toList)) =
      some operation := by
  have htrim : Text.trim ("\t\t".toList ++ (Quoted.text operation ++ ",".toList)) =
      Quoted.text operation ++ ",".toList :=
    Text.trim_indented (c := '"') (d := ',') rfl rfl 2 (operation.flatMap Quoted.character ++ ['"'])
  rw [Registration.operationOn?, htrim, Quoted.read?_text]
  rfl

theorem partsOn?_registerLines (s : Signature) :
    Registration.partsOn? ("\t\t".toList ++ ('&' :: Quoted.list s ++ ",".toList)) = some s := by
  have htrim : Text.trim ("\t\t".toList ++ ('&' :: Quoted.list s ++ ",".toList)) =
      '&' :: Quoted.list s ++ ",".toList :=
    Text.trim_indented (c := '&') (d := ',') rfl rfl 2 (Quoted.list s)
  have hdrop : Text.dropPrefix? "&".toList ('&' :: Quoted.list s ++ ",".toList) =
      some (Quoted.list s ++ ",".toList) := Text.dropPrefix?_eq_some_iff.2 rfl
  rw [Registration.partsOn?, htrim, hdrop]
  simp only [Option.bind_eq_bind, Option.bind_some, Quoted.readList?_list, ↓reduceIte]

theorem pathOn?_registerLines (path : Text) :
    Registration.pathOn? ("\t\t".toList ++ (path ++ " as *const (),".toList)) = some path := by
  have hdrop : Text.dropPrefix? "\t\t".toList
      ("\t\t".toList ++ (path ++ " as *const (),".toList)) =
        some (path ++ " as *const (),".toList) := Text.dropPrefix?_eq_some_iff.2 rfl
  have hsuffix : Text.dropPrefix? " as *const (),".toList.reverse
      (path ++ " as *const (),".toList).reverse = some path.reverse :=
    Text.dropPrefix?_eq_some_iff.2 List.reverse_append
  rw [Registration.pathOn?, hdrop, Option.bind_eq_bind, Option.bind_some, Text.dropSuffix?, hsuffix,
    Option.map_some, List.reverse_reverse]

/-- Behind the line that begins a registration, nothing is taken for something else. -/
theorem aside_registerLines (hop : '\n' ∉ operation) (k : Nat) :
    ∀ l ∈ (registerLines operation s (aliasNames k s.length)).tail, Aside l := by
  have hindented : ∀ t : Text, '\n' ∉ t → Aside ("\t\t".toList ++ (t ++ ",".toList)) := by
    intro t ht
    exact .of_ends (c := '\t') (t := '\t' :: t) (d := ',') (by simp [ht]) (by decide)
      (by decide) rfl
  have hfixed : ∀ l ∈ ["\t);".toList, "\tif !status.is_ok() \x7b".toList,
      "\t\treturn status;".toList, "\t\x7d".toList], Aside l := by decide +kernel
  have hpath : '\n' ∉ instancePath operation (aliasNames k s.length) ++ " as *const ()".toList := by
    simp [newline_not_mem_instancePath hop]
  intro l hl
  rw [registerLines, List.tail_cons] at hl
  rcases List.mem_cons.1 hl with rfl | hl
  · exact hindented _ (Quoted.newline_not_mem_text operation)
  rcases List.mem_cons.1 hl with rfl | hl
  · exact hindented ('&' :: Quoted.list s) (by simp [Quoted.newline_not_mem_list])
  rcases List.mem_cons.1 hl with rfl | hl
  · simpa using hindented _ hpath
  · exact hfixed l hl

theorem readAll_registerLines (hop : '\n' ∉ operation) (k : Nat) (rest : List Text) :
    Registration.readAll (registerLines operation s (aliasNames k s.length) ++ rest) =
      some ⟨operation, s, instancePath operation (aliasNames k s.length)⟩ ::
        Registration.readAll rest := by
  have hbegins : Registration.BeginsOn ("\t".toList ++ registration) := by decide +kernel
  have htail := Registration.readAll_append_of_not
    (fun l hl => (aside_registerLines (s := s) hop k l hl).not_beginsOn) rest
  have hread : Registration.read?
      ((registerLines operation s (aliasNames k s.length)).tail ++ rest) =
        some ⟨operation, s, instancePath operation (aliasNames k s.length)⟩ := by
    have hparts := partsOn?_registerLines s
    rw [List.cons_append] at hparts
    simp only [registerLines, List.tail_cons, List.cons_append, Registration.read?,
      operationOn?_registerLines, hparts, pathOn?_registerLines, Option.bind_eq_bind,
      Option.bind_some, Option.pure_def]
  rw [← htail, ← hread]
  exact if_pos hbegins

end Register

/-! ## Whole modules -/

/-- All the registrations of a source, and what is read behind them. -/
theorem readAll_registeredLines {s : Signature} {operations : List Text}
    (hops : ∀ c ∈ operations, '\n' ∉ c) (rest : List Text) (j : Nat) :
    Registration.readAll ((operations.zipIdx j).flatMap (fun (operation, k) =>
        registerLines operation s (aliasNames k s.length)) ++ rest) =
      (operations.zipIdx j).map (fun (operation, k) =>
        some ⟨operation, s, instancePath operation (aliasNames k s.length)⟩) ++
          Registration.readAll rest := by
  induction operations generalizing j with
  | nil => rfl
  | cons operation operations ih =>
      rw [List.zipIdx_cons, List.flatMap_cons, List.append_assoc, List.map_cons, List.cons_append,
        ← ih fun c hc => hops c (List.mem_cons_of_mem _ hc)]
      exact readAll_registerLines (hops operation (by simp)) j _

/-- The declaration of each alias is among the lines of the declarations. -/
theorem infix_declaredLines {ds : List Descriptor} {operations : List Text} {k i : Nat}
    (hk : k < operations.length) (hi : i < ds.length) :
    aliasLines (aliasName (k * ds.length + i)) ds[i] <:+: declaredLines ds operations := by
  have hoperation : (operations[k], k) ∈ operations.zipIdx := by
    rw [List.mem_zipIdx_iff_getElem?, List.getElem?_eq_getElem hk]
  have hpair : (aliasName (k * ds.length + i), ds[i]) ∈ (aliasNames k ds.length).zip ds := by
    refine List.mem_of_getElem? (i := i) ?_
    rw [List.getElem?_zip_eq_some, List.getElem?_eq_getElem hi]
    exact ⟨by simp [aliasNames, hi], rfl⟩
  have halias := List.infix_of_mem_flatten
    (List.mem_map_of_mem (f := fun (name, d) => aliasLines name d) hpair)
  have hdeclaration : ((aliasNames k ds.length).zip ds).flatMap
      (fun (name, d) => aliasLines name d) <:+: declarationLines ds operations[k] k :=
    ⟨_, _, rfl⟩
  have hall := List.infix_of_mem_flatten (List.mem_map_of_mem
    (f := fun (operation, k) => declarationLines ds operation k) hoperation)
  exact (halias.trans hdeclaration).trans hall

theorem of_mem_registeredLines {s : Signature} {operations : List Text}
    (hops : ∀ c ∈ operations, '\n' ∉ c) :
    ∀ l ∈ registeredLines s operations, Text.IsLine l ∧ ¬"type ".toList <+: l := by
  have hfirst : Text.IsLine ("\t".toList ++ registration) ∧
      ¬"type ".toList <+: "\t".toList ++ registration := by decide
  intro l hl
  obtain ⟨⟨operation, k⟩, hmem, hl⟩ := List.mem_flatMap.1 hl
  have hop := hops operation (List.fst_mem_of_mem_zipIdx hmem)
  rcases List.mem_cons.1 hl with rfl | hl
  · exact hfirst
  · have haside := aside_registerLines hop k l hl
    exact ⟨haside.isLine, haside.not_declares⟩

/--
The source declares the alias on one line only, and above the entry point: there stands the
declaration, of the type of `d`.
-/
structure DeclaredOnce (source name : Text) (d : Descriptor) : Prop where
  once : (Text.lines source).countP (fun l => decide (DeclaresOn name l)) = 1
  declared : ∃ before after,
    source = before ++ (aliasHead name ++ d.rendering ++ ";\n".toList) ++ after ∧
      before.getLast? = some '\n' ∧
      exportLine ∉ Text.lines before ∧ exportLine ∈ Text.lines after

/-- The module registers the operation and its companions for the signature, and nothing else. -/
structure Registers (operation : Text) (s : Signature) (u : GeneratedModule) : Prop where
  /-- The companions are in order, and none comes twice. -/
  sorted : (companions operation).Pairwise (· < ·)
  member : operation ∈ companions operation
  /-- As many registrations begin in the source as there are companions. -/
  count : (Text.lines u.source).countP (fun l => decide (Registration.BeginsOn l)) =
    (companions operation).length
  /-- Each can be read, and is that of the companion whose turn it is. -/
  registrations : Registration.readAll (Text.lines u.source) =
    (companions operation).zipIdx.map fun (c, k) =>
      some ⟨c, s, instancePath c (aliasNames k s.length)⟩
  /-- The aliases of each companion are declared as the types of the parts. -/
  declared : ∃ ds : List Descriptor, s.map Descriptor.ofType = ds.map .ok ∧
    ∀ k < (companions operation).length, ∀ i (hi : i < ds.length),
      DeclaredOnce u.source (aliasName (k * s.length + i)) ds[i]
  imported : ∀ c ∈ companions operation,
    "use vcsn::algos::".toList ++ Algorithm.module c ++ ";".toList ∈ Text.lines u.source
  /-- The module is that of every companion. -/
  shared : ∀ c ∈ companions operation, ofAlgorithm c s = .ok u
  /-- Making just these registrations makes all the companions known. -/
  present : ∀ (rs : Registries) (insertions : List Insertion), rs.Indexed →
    Registration.MadeOf u.source insertions →
      ∀ c ∈ companions operation, ((rs.insertAll insertions).lookIn c s).2.isSome = true

namespace LaidOut

variable {operation : Text} {s : Signature} {u : GeneratedModule} {ds : List Descriptor}
  {uses lateUses : List Text}

theorem isLine (h : LaidOut operation s u ds uses lateUses) (hop : '\n' ∉ operation) :
    ∀ l ∈ Sheet.headLines uses lateUses ++
      (declaredLines ds (companions operation) ++ openingLines ++
        registeredLines s (companions operation) ++ closingLines), Text.IsLine l := by
  have hops := newline_not_mem_companion hop
  intro l hl
  simp only [List.mem_append] at hl
  rcases hl with hl | (((hl | hl) | hl) | hl)
  · exact (aside_headLines h.tidy l hl).isLine
  · exact (of_mem_declaredLines hops h.isTypeText l hl).1
  · rcases aside_openingLines l hl with rfl | haside
    · exact isLine_exportLine
    · exact haside.isLine
  · exact (of_mem_registeredLines hops l hl).1
  · exact (aside_closingLines l hl).isLine

/-- The lines of the source are the lines it is made of. -/
theorem lines_source (h : LaidOut operation s u ds uses lateUses) (hop : '\n' ∉ operation) :
    Text.lines u.source = Sheet.headLines uses lateUses ++
      (declaredLines ds (companions operation) ++ openingLines ++
        registeredLines s (companions operation) ++ closingLines) := by
  rw [h.source, Text.lines_unlines (h.isLine hop)]

theorem readAll_source (h : LaidOut operation s u ds uses lateUses) (hop : '\n' ∉ operation) :
    Registration.readAll (Text.lines u.source) =
      (companions operation).zipIdx.map fun (c, k) =>
        some ⟨c, s, instancePath c (aliasNames k s.length)⟩ := by
  have hops := newline_not_mem_companion hop
  have hexport : ¬Registration.BeginsOn exportLine := by decide +kernel
  have hclosing : Registration.readAll closingLines = [] := by decide +kernel
  -- Nothing above the registrations begins one, and nothing below them.
  rw [h.lines_source hop,
    Registration.readAll_append_of_not fun l hl => (aside_headLines h.tidy l hl).not_beginsOn,
    List.append_assoc, List.append_assoc,
    Registration.readAll_append_of_not fun l hl =>
      (of_mem_declaredLines hops h.isTypeText l hl).2.1,
    Registration.readAll_append_of_not, registeredLines, readAll_registeredLines hops, hclosing,
    List.append_nil]
  intro l hl
  rcases aside_openingLines l hl with rfl | haside
  · exact hexport
  · exact haside.not_beginsOn

theorem countP_source (h : LaidOut operation s u ds uses lateUses) (hop : '\n' ∉ operation)
    {m : Nat} (hm : m < (companions operation).length * ds.length) :
    (Text.lines u.source).countP (fun l => decide (DeclaresOn (aliasName m) l)) = 1 := by
  have hops := newline_not_mem_companion hop
  have hexport : ¬"type ".toList <+: exportLine := by decide
  have hopening : ∀ l ∈ openingLines, ¬"type ".toList <+: l := by
    intro l hl
    rcases aside_openingLines l hl with rfl | haside
    · exact hexport
    · exact haside.not_declares
  have hdeclared := countP_declarations m h.isTypeText hops 0
  rw [Nat.zero_mul, List.count_eq_one_of_mem List.nodup_range' (by simpa using hm)] at hdeclared
  rw [h.lines_source hop, List.countP_append, List.countP_append, List.countP_append,
    List.countP_append,
    countP_of_not_declares fun l hl => (aside_headLines h.tidy l hl).not_declares,
    countP_of_not_declares hopening,
    countP_of_not_declares fun l hl => (of_mem_registeredLines hops l hl).2,
    countP_of_not_declares fun l hl => (aside_closingLines l hl).not_declares,
    declaredLines, hdeclared]

theorem declaredOnce (h : LaidOut operation s u ds uses lateUses) (hop : '\n' ∉ operation)
    {k i : Nat} (hk : k < (companions operation).length) (hi : i < ds.length) :
    DeclaredOnce u.source (aliasName (k * s.length + i)) ds[i] := by
  have hops := newline_not_mem_companion hop
  have hlength : s.length = ds.length := h.read.length_eq
  have hnumber : k * s.length + i < (companions operation).length * ds.length := by
    rw [hlength]
    calc k * ds.length + i < k * ds.length + ds.length := Nat.add_lt_add_left hi _
      _ = (k + 1) * ds.length := (Nat.succ_mul k ds.length).symm
      _ ≤ (companions operation).length * ds.length := Nat.mul_le_mul_right _ hk
  -- The lines of the declaration are some of the lines above the entry point.
  have hinfix : aliasLines (aliasName (k * s.length + i)) ds[i] <:+:
      declaredLines ds (companions operation) := by
    rw [hlength]
    exact infix_declaredLines hk hi
  obtain ⟨before, after, hsplit⟩ := hinfix
  have hdeclaration : Text.unlines (aliasLines (aliasName (k * s.length + i)) ds[i]) =
      aliasHead (aliasName (k * s.length + i)) ++ ds[i].rendering ++ ";\n".toList := by
    rw [aliasLines, Text.unlines_splitAt]
    simp
  have habove : ∀ l ∈ Sheet.headLines uses lateUses ++ before,
      Text.IsLine l ∧ l ≠ exportLine := by
    intro l hl
    rcases List.mem_append.1 hl with hl | hl
    · have haside := aside_headLines h.tidy l hl
      exact ⟨haside.isLine, haside.ne_exportLine⟩
    · have hmem := of_mem_declaredLines hops h.isTypeText l (by rw [← hsplit]; simp [hl])
      exact ⟨hmem.1, hmem.2.2⟩
  refine ⟨h.countP_source hop hnumber, Text.unlines (Sheet.headLines uses lateUses ++ before),
    Text.unlines (after ++ openingLines ++ registeredLines s (companions operation) ++
      closingLines), ?_, ?_, ?_, ?_⟩
  · rw [h.source, ← hsplit, ← hdeclaration]
    simp only [Text.unlines_append, List.append_assoc]
  · exact Text.getLast?_unlines (by simp [Sheet.headLines])
  · rw [Text.lines_unlines fun l hl => (habove l hl).1]
    exact fun hmem => (habove _ hmem).2 rfl
  · have hbelow : ∀ l ∈ after ++ openingLines ++ registeredLines s (companions operation) ++
        closingLines, Text.IsLine l := by
      intro l hl
      refine h.isLine hop l ?_
      rw [← hsplit]
      simp only [List.mem_append] at hl ⊢
      grind
    rw [Text.lines_unlines hbelow]
    simp [openingLines]

/-- The insertions that the source describes leave nothing missing. -/
theorem present (h : LaidOut operation s u ds uses lateUses) (hop : '\n' ∉ operation)
    {rs : Registries} (hrs : rs.Indexed) {insertions : List Insertion}
    (hmade : Registration.MadeOf u.source insertions) {c : Text} (hc : c ∈ companions operation) :
    ((rs.insertAll insertions).lookIn c s).2.isSome = true := by
  have hsome : some (c, s) ∈ insertions.map fun i => some (i.operation, i.signature) := by
    obtain ⟨k, hk, rfl⟩ := List.getElem_of_mem hc
    have hpair : ((companions operation)[k], k) ∈ (companions operation).zipIdx := by
      rw [List.mem_zipIdx_iff_getElem?, List.getElem?_eq_getElem hk]
    rw [hmade, h.readAll_source hop, List.map_map]
    exact List.mem_map.2 ⟨_, hpair, rfl⟩
  obtain ⟨i, hi, heq⟩ := List.mem_map.1 hsome
  have hpair : (i.operation, i.signature) = (c, s) := Option.some.inj heq
  have hwritten : lastWrite insertions c s ≠ none := fun hnone =>
    lastWrite_eq_none_iff.1 hnone i hi (congrArg Prod.fst hpair) (congrArg Prod.snd hpair)
  rw [Registries.lookIn_eq_known, (Registries.gains_insertAll rs hrs insertions).known hrs,
    Option.isSome_or, Option.isSome_iff_ne_none.2 hwritten, Bool.true_or]

end LaidOut

/--
A module registers the operation that was requested and its companions, each for just the parts of
the signature, over aliases that are declared as the types of the parts.
-/
theorem registers_companions {operation : Text} {s : Signature} {u : GeneratedModule}
    (hop : '\n' ∉ operation) (h : ofAlgorithm operation s = .ok u) : Registers operation s u := by
  obtain ⟨ds, uses, lateUses, hlaid⟩ := laidOut_of_ofAlgorithm hop h
  have hread := hlaid.readAll_source hop
  refine
    { sorted := pairwise_companions operation
      member := mem_companions_self operation
      count := ?_
      registrations := hread
      declared := ⟨ds, ?_, fun k hk i hi => hlaid.declaredOnce hop hk hi⟩
      imported := ?_
      shared := fun c hc => (ofAlgorithm_companion hc s).trans h
      present := fun rs insertions hrs hmade c hc => hlaid.present hop hrs hmade hc }
  · rw [← Registration.length_readAll, hread, List.length_map, List.length_zipIdx]
  · rw [← List.forall₂_eq_eq_eq, List.forall₂_map_left_iff, List.forall₂_map_right_iff]
    exact hlaid.read
  · intro c hc
    have hmem : Sheet.useText (Algorithm.path c) ∈ Sheet.headLines uses lateUses := by
      have hlate := List.mem_map_of_mem (f := Sheet.useText) (hlaid.imported c hc)
      simp [Sheet.headLines, hlate]
    rw [hlaid.lines_source hop]
    exact List.mem_append_left _ hmem

/-- A request for one operation of a group, with a part whose type takes several lines. -/
theorem registers_synchronized :
    '\n' ∉ "is_synchronized".toList ∧
      ∃ u, ofAlgorithm "is_synchronized".toList ["context<letterset<char_letters>, b>".toList] =
          .ok u ∧
        Registers "is_synchronized".toList ["context<letterset<char_letters>, b>".toList] u := by
  let d : Descriptor :=
    .context (.letterset (.genset "char_letters".toList none)) (.weightset "b".toList)
  have hcontext : Descriptor.IsContext d :=
    .context (.letterset (.genset (by decide) (by decide) (by decide))) (.weightset (by decide))
  have hname : d.fullName = "context<letterset<char_letters>, b>".toList := by decide
  have hread := hcontext.ofType_fullName
  rw [hname] at hread
  have hds : descriptors ["context<letterset<char_letters>, b>".toList] = .ok [d] := by
    rw [descriptors, hread]
    rfl
  obtain ⟨u, hu⟩ : ∃ u, ofAlgorithm "is_synchronized".toList
      ["context<letterset<char_letters>, b>".toList] = .ok u := by
    unfold ofAlgorithm
    rw [hds]
    exact ⟨_, rfl⟩
  have hline : '\n' ∉ "is_synchronized".toList := by decide
  exact ⟨hline, u, hu, registers_companions hline hu⟩

end GeneratedModule
end OnDemand
