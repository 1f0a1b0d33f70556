import OnDemand.Proofs.Plugin.PrefixFree
import OnDemand.Proofs.Source.TypeTexts
import OnDemand.Proofs.Text.Quoted

/-!
# The lines of a generated module

The source of a module for an operation, line by line: the head with the imports, the declarations
of the aliases, the beginning of the entry point, the registrations and the end.  All that varies is
where a type takes several lines.
-/

namespace OnDemand

open Stand

/-! ## Writing whole lines -/

/-- The marks write whole lines, and lead from level `k` to level `k'`. -/
def LaysLines (k : Nat) (ms : List Mark) (ls : List Text) (k' : Nat) : Prop :=
  Lays (start k) ms (Text.unlines ls) (start k')

namespace LaysLines

variable {k k' k'' : Nat} {ms ms' : List Mark} {ls ls' : List Text}

theorem nil (k : Nat) : LaysLines k [] [] k := Lays.nil _

theorem append (h : LaysLines k ms ls k') (h' : LaysLines k' ms' ls' k'') :
    LaysLines k (ms ++ ms') (ls ++ ls') k'' := by
  rw [LaysLines, Text.unlines_append]
  exact Lays.append h h'

theorem flatMap {α : Type} (xs : List α) {f : α → List Mark} {g : α → List Text}
    (h : ∀ x ∈ xs, LaysLines k (f x) (g x) k) : LaysLines k (xs.flatMap f) (xs.flatMap g) k := by
  induction xs with
  | nil => exact nil k
  | cons x xs ih =>
      rw [List.flatMap_cons, List.flatMap_cons]
      exact (h x (by simp)).append (ih fun y hy => h y (List.mem_cons_of_mem x hy))

theorem blank (k : Nat) : LaysLines k [.newline] [[]] k := Lays.newline (start k)

theorem indent (k : Nat) : LaysLines k [.indent] [] (k + 1) := Lays.indent (start k)

theorem dedent (k : Nat) : LaysLines (k + 1) [.dedent] [] k := Lays.dedent (start (k + 1))

theorem line (k : Nat) {t : Text} (hne : t ≠ []) (h : '\n' ∉ t) :
    LaysLines k (GeneratedModule.line t) [List.replicate k '\t' ++ t] k := by
  have hall := (Lays.text (start k) hne h).append (Lays.newline (within k))
  simpa [LaysLines, GeneratedModule.line, Text.unlines] using hall

end LaysLines

/-! ## The head -/

namespace Sheet

/-- The line that imports `item`. -/
def useText (item : Text) : Text := "use ".toList ++ item ++ ";".toList

/-- The lines of the fixed head of every file. -/
def preambleLines : List Text :=
  ["// Generated by the vcsn dyn runtime. Do not edit.".toList,
    "#![allow(unused_imports, non_camel_case_types, non_snake_case, clippy::all)]".toList]

/-- The lines above the body. -/
def headLines (uses lateUses : List Text) : List Text :=
  preambleLines ++ [[]] ++ uses.map useText ++ [[]] ++ lateUses.map useText ++ [[]]

theorem useLine_eq (item : Text) : useLine item = useText item ++ ['\n'] :=
  (List.append_assoc ("use ".toList ++ item) ";".toList ['\n']).symm

theorem unlines_map_useText (items : List Text) :
    Text.unlines (items.map useText) = items.flatMap useLine := by
  induction items with
  | nil => rfl
  | cons item items ih =>
      rw [List.map_cons, Text.unlines_cons, ih, List.flatMap_cons, useLine_eq, List.append_assoc]
      rfl

theorem preamble_eq : preamble = Text.unlines preambleLines := by decide +kernel

theorem finish_eq (s : Sheet) :
    s.finish = Text.unlines (headLines s.uses s.lateUses) ++ s.body := by
  rw [finish, preamble_eq, headLines]
  simp only [Text.unlines_append, Text.unlines_cons, Text.unlines_nil, unlines_map_useText,
    List.append_assoc, List.cons_append, List.nil_append]

end Sheet

/-! ## Names on one line -/

namespace Algorithm

theorem newline_not_mem_replace {c : Char} {u t : Text} (hu : '\n' ∉ u) (ht : '\n' ∉ t) :
    '\n' ∉ Text.replace c u t := by
  unfold Text.replace
  intro h
  obtain ⟨d, hd, hmem⟩ := List.mem_flatMap.1 h
  split at hmem
  · exact hu hmem
  · rw [List.mem_singleton] at hmem
    exact ht (hmem ▸ hd)

theorem newline_not_mem_dropKind {name : Text} (h : '\n' ∉ name) (kind : Text) :
    '\n' ∉ dropKind name kind := by
  unfold dropKind
  split
  · exact h
  · cases hdrop : Text.dropSuffix? kind name with
    | none => exact h
    | some stem =>
        obtain ⟨reversed, hreversed, rfl⟩ := Option.map_eq_some_iff.1 hdrop
        rw [Text.dropPrefix?_eq_some_iff] at hreversed
        intro hmem
        refine h (List.mem_reverse.1 ?_)
        rw [hreversed]
        exact List.mem_append_right _ (List.mem_reverse.1 hmem)

/-- The module of an operation has no line break unless the operation has. -/
theorem newline_not_mem_module {operation : Text} (h : '\n' ∉ operation) :
    '\n' ∉ module operation := by
  have hhyphened : '\n' ∉ Text.replace '_' ['-'] operation :=
    newline_not_mem_replace (by decide) h
  have hfold : ∀ (kinds : List Text) (name : Text), '\n' ∉ name →
      '\n' ∉ kinds.foldl dropKind name := by
    intro kinds
    induction kinds with
    | nil => exact fun _ hname => hname
    | cons kind kinds ih => exact fun name hname => ih _ (newline_not_mem_dropKind hname kind)
  have hresidents : ∀ p ∈ residents, '\n' ∉ p.2 := by decide +kernel
  have hlookup : ∀ stem : Text, '\n' ∉ stem → '\n' ∉ (residents.lookup stem).getD stem := by
    intro stem hstem
    cases hresident : residents.lookup stem with
    | none => exact hstem
    | some home => exact hresidents _ (Text.mem_of_lookup hresident)
  refine newline_not_mem_replace (by decide) (hlookup _ ?_)
  split
  · exact hhyphened
  · exact hfold _ _ hhyphened

theorem newline_not_mem_path {operation : Text} (h : '\n' ∉ operation) : '\n' ∉ path operation := by
  intro hmem
  rcases List.mem_append.1 hmem with hhome | hmodule
  · exact absurd hhome (by decide)
  · exact newline_not_mem_module h hmodule

end Algorithm

namespace GeneratedModule

/-- The name of an alias is made of its letter and digits. -/
theorem not_mem_aliasName {c : Char} (hc : c ≠ 'T') (hdigit : c.isDigit = false) (n : Nat) :
    c ∉ aliasName n := by
  rw [aliasName, List.mem_cons, not_or]
  refine ⟨hc, fun h => ?_⟩
  rw [Nat.isDigit_of_mem_toDigits (by decide) (by decide) h] at hdigit
  cases hdigit

/-! ## Companions -/

/-- An operation is by itself, or it is one of a group. -/
theorem companions_cases (operation : Text) :
    companions operation = [operation] ∨
      companions operation ∈ groups ∧ operation ∈ companions operation := by
  unfold companions
  cases hfind : groups.find? fun group => group.contains operation with
  | none => exact .inl rfl
  | some group =>
      refine .inr ⟨List.mem_of_find?_eq_some hfind, ?_⟩
      have hcontains := List.find?_some hfind
      simpa using hcontains

theorem mem_companions_self (operation : Text) : operation ∈ companions operation := by
  rcases companions_cases operation with heq | ⟨-, hmem⟩
  · rw [heq]
    exact List.mem_singleton.2 rfl
  · exact hmem

/-- Companions have the same companions. -/
theorem companions_eq_of_mem {operation c : Text} (h : c ∈ companions operation) :
    companions c = companions operation := by
  have hgroups : ∀ group ∈ groups, ∀ c ∈ group, companions c = group := by decide
  rcases companions_cases operation with heq | ⟨hgroup, -⟩
  · rw [heq, List.mem_singleton] at h
    rw [h]
  · exact hgroups _ hgroup c h

theorem pairwise_companions (operation : Text) : (companions operation).Pairwise (· < ·) := by
  have hgroups : ∀ group ∈ groups, group.Pairwise (· < ·) := by decide
  rcases companions_cases operation with heq | ⟨hgroup, -⟩
  · rw [heq]
    exact List.pairwise_singleton _ _
  · exact hgroups _ hgroup

theorem newline_not_mem_companion {operation : Text} (hop : '\n' ∉ operation) :
    ∀ c ∈ companions operation, '\n' ∉ c := by
  have hgroups : ∀ group ∈ groups, ∀ c ∈ group, '\n' ∉ c := by decide
  intro c h
  rcases companions_cases operation with heq | ⟨hgroup, -⟩
  · rw [heq, List.mem_singleton] at h
    rw [h]
    exact hop
  · exact hgroups _ hgroup c h

/-- Companions share their module. -/
theorem ofAlgorithm_companion {operation c : Text} (h : c ∈ companions operation) (s : Signature) :
    ofAlgorithm c s = ofAlgorithm operation s := by
  have hhead : (companions operation).headD c = (companions operation).headD operation := by
    cases hcompanions : companions operation with
    | nil =>
        rw [hcompanions] at h
        cases h
    | cons first rest => rfl
  unfold ofAlgorithm
  rw [companions_eq_of_mem h, hhead]

/-! ## Pieces of source, line by line -/

/-- What the declaration of an alias begins with. -/
def aliasHead (name : Text) : Text := "type ".toList ++ name ++ " = ".toList

/-- The lines that declare an alias for the type of a descriptor. -/
def aliasLines (name : Text) (d : Descriptor) : List Text :=
  Text.splitAt '\n' (aliasHead name ++ d.rendering ++ ";".toList)

/-- The lines that declare the aliases of the `k`-th companion. -/
def declarationLines (ds : List Descriptor) (operation : Text) (k : Nat) : List Text :=
  ["// ".toList ++ operation ++ ".".toList] ++
    ((aliasNames k ds.length).zip ds).flatMap (fun (name, d) => aliasLines name d) ++ [[]]

/-- The line above the entry point. -/
def exportLine : Text := "#[unsafe(no_mangle)]".toList

/-- The lines with which the entry point begins. -/
def openingLines : List Text :=
  [[], exportLine,
    ("pub unsafe extern \"C\" fn vcsn_register_v1" ++
      "(host: *const VcsnHostV1) -> VcsnStatus \x7b").toList,
    "\tlet host = match unsafe \x7b Host::from_raw(host) \x7d \x7b".toList,
    "\t\tOk(host) => host,".toList,
    "\t\tErr(status) => return status,".toList,
    "\t\x7d;".toList]

/-- The path of the instance of `operation` over the aliases. -/
def instancePath (operation : Text) (aliases : List Text) : Text :=
  Algorithm.module operation ++ "::dyn_::".toList ++ operation ++ "::<".toList ++
    Text.joinWith ", ".toList aliases ++ ">".toList

/-- The lines that register an operation. -/
def registerLines (operation : Text) (signature : Signature) (aliases : List Text) : List Text :=
  ["\t".toList ++ registration,
    "\t\t".toList ++ (Quoted.text operation ++ ",".toList),
    "\t\t".toList ++ ('&' :: Quoted.list signature ++ ",".toList),
    "\t\t".toList ++ (instancePath operation aliases ++ " as *const (),".toList),
    "\t);".toList,
    "\tif !status.is_ok() \x7b".toList,
    "\t\treturn status;".toList,
    "\t\x7d".toList]

/-- The lines with which the entry point ends. -/
def closingLines : List Text := ["\tVcsnStatus::Ok".toList, "\x7d".toList]

theorem aliasHead_eq (name : Text) :
    aliasHead name = "type ".toList ++ (name ++ " = ".toList) :=
  List.append_assoc "type ".toList name " = ".toList

theorem not_mem_aliasHead {c : Char} (hc : c ∉ "type ".toList ++ " = ".toList) {name : Text}
    (h : c ∉ name) : c ∉ aliasHead name := by
  rw [List.mem_append, not_or] at hc
  rw [aliasHead_eq, List.mem_append, List.mem_append, not_or, not_or]
  exact ⟨hc.1, h, hc.2⟩

theorem laysLines_typeAlias {name : Text} {d : Descriptor} (hname : '\n' ∉ name)
    (h : WritesType 0 d.marks d.rendering) :
    LaysLines 0 (typeAlias name d) (aliasLines name d) 0 := by
  have hmarks : typeAlias name d = [.text (aliasHead name)] ++ d.marks ++
      ([.text ";".toList] ++ [.newline]) := rfl
  have hne : aliasHead name ≠ [] := by
    rw [aliasHead_eq]
    exact List.append_ne_nil_of_left_ne_nil (by decide) _
  have hhead := Lays.text (start 0) hne (not_mem_aliasHead (by decide) hname)
  have hend := (Lays.text (within 0) (t := ";".toList) (by decide) (by decide)).append
    (Lays.newline (within 0))
  rw [LaysLines, hmarks, aliasLines, Text.unlines_splitAt, List.append_assoc _ ";".toList]
  exact (hhead.append (h.writes (within 0) rfl)).append hend

theorem laysLines_declarations {ds : List Descriptor} {operation : Text}
    (hop : '\n' ∉ operation) (h : ∀ d ∈ ds, WritesType 0 d.marks d.rendering) (k : Nat) :
    LaysLines 0 (declarations ds operation k) (declarationLines ds operation k) 0 := by
  have hcomment : LaysLines 0 (line ("// ".toList ++ operation ++ ".".toList))
      ["// ".toList ++ operation ++ ".".toList] 0 := .line 0 (by simp) (by simp [hop])
  have haliases : LaysLines 0
      (((aliasNames k ds.length).zip ds).flatMap fun (name, d) => typeAlias name d)
      (((aliasNames k ds.length).zip ds).flatMap fun (name, d) => aliasLines name d) 0 := by
    refine .flatMap _ fun p hp => ?_
    obtain ⟨hname, hd⟩ := List.of_mem_zip hp
    obtain ⟨n, -, hn⟩ := List.mem_map.1 hname
    exact laysLines_typeAlias (hn ▸ not_mem_aliasName (by decide) rfl n) (h p.2 hd)
  exact Lays.useLate (Algorithm.newline_not_mem_path hop)
    ((hcomment.append haliases).append (.blank 0))

theorem laysLines_opening : LaysLines 0 opening openingLines 1 := by
  have hexport := (LaysLines.blank 0).append
    (.line 0 (t := exportLine) (by decide) (by decide))
  have hfirst := hexport.append
    (.line 0 (t := ("pub unsafe extern \"C\" fn vcsn_register_v1" ++
      "(host: *const VcsnHostV1) -> VcsnStatus \x7b").toList) (by decide) (by decide))
  have hhost := (LaysLines.indent 0).append
    (.line 1 (t := "let host = match unsafe \x7b Host::from_raw(host) \x7d \x7b".toList)
      (by decide) (by decide))
  have hmatch := ((LaysLines.indent 1).append
    (.line 2 (t := "Ok(host) => host,".toList) (by decide) (by decide))).append
    (.line 2 (t := "Err(status) => return status,".toList) (by decide) (by decide))
  have hend := (LaysLines.dedent 1).append (.line 1 (t := "\x7d;".toList) (by decide) (by decide))
  exact ((hfirst.append hhost).append hmatch).append hend

theorem newline_not_mem_instancePath {operation : Text} (hop : '\n' ∉ operation) (k n : Nat) :
    '\n' ∉ instancePath operation (aliasNames k n) := by
  have haliases : '\n' ∉ Text.joinWith ", ".toList (aliasNames k n) := by
    intro h
    rcases Text.mem_joinWith h with hsep | ⟨name, hname, hc⟩
    · exact absurd hsep (by decide)
    · obtain ⟨i, -, rfl⟩ := List.mem_map.1 hname
      exact not_mem_aliasName (by decide) rfl i hc
  have hmodule := Algorithm.newline_not_mem_module hop
  unfold instancePath
  simp only [List.mem_append, not_or]
  exact ⟨⟨⟨⟨⟨hmodule, by decide⟩, hop⟩, by decide⟩, haliases⟩, by decide⟩

theorem laysLines_register {operation : Text} (hop : '\n' ∉ operation) (s : Signature) (k : Nat) :
    LaysLines 1 (register operation s (aliasNames k s.length))
      (registerLines operation s (aliasNames k s.length)) 1 := by
  have hcall : LaysLines 1 (line registration) ["\t".toList ++ registration] 1 :=
    .line 1 (by decide) (by decide)
  have hoperation : LaysLines 2 (line (Quoted.text operation ++ ",".toList))
      ["\t\t".toList ++ (Quoted.text operation ++ ",".toList)] 2 :=
    .line 2 (by simp) (by simp [Quoted.newline_not_mem_text])
  have hparts : LaysLines 2 (line ('&' :: Quoted.list s ++ ",".toList))
      ["\t\t".toList ++ ('&' :: Quoted.list s ++ ",".toList)] 2 :=
    .line 2 (by simp) (by simp [Quoted.newline_not_mem_list])
  have hpath : LaysLines 2
      (line (instancePath operation (aliasNames k s.length) ++ " as *const (),".toList))
      ["\t\t".toList ++
        (instancePath operation (aliasNames k s.length) ++ " as *const (),".toList)] 2 :=
    .line 2 (by simp) (by simp [newline_not_mem_instancePath hop])
  have hanswer := (LaysLines.dedent 1).append
    ((LaysLines.line 1 (t := ");".toList) (by decide) (by decide)).append
      (.line 1 (t := "if !status.is_ok() \x7b".toList) (by decide) (by decide)))
  have hreturn := (LaysLines.indent 1).append
    (.line 2 (t := "return status;".toList) (by decide) (by decide))
  have hend := (LaysLines.dedent 1).append (.line 1 (t := "\x7d".toList) (by decide) (by decide))
  have hall := (((((hcall.append (.indent 1)).append hoperation).append hparts).append hpath).append
    hanswer).append (hreturn.append hend)
  simpa [register, registerLines, instancePath] using hall

theorem laysLines_closing : LaysLines 1 (closing "VcsnStatus::Ok".toList) closingLines 0 := by
  have hresult := LaysLines.line 1 (t := "VcsnStatus::Ok".toList) (by decide) (by decide)
  exact (hresult.append (.dedent 0)).append (.line 0 (t := "\x7d".toList) (by decide) (by decide))

/-! ## Whole modules -/

/-- The lines that declare the aliases of all the operations. -/
def declaredLines (ds : List Descriptor) (operations : List Text) : List Text :=
  operations.zipIdx.flatMap fun (operation, k) => declarationLines ds operation k

/-- The lines that register all the operations. -/
def registeredLines (signature : Signature) (operations : List Text) : List Text :=
  operations.zipIdx.flatMap fun (operation, k) =>
    registerLines operation signature (aliasNames k signature.length)

/-- The source `u` is made of such lines, for the descriptors `ds` of the parts of `s`. -/
structure LaidOut (operation : Text) (s : Signature) (u : GeneratedModule) (ds : List Descriptor)
    (uses lateUses : List Text) : Prop where
  read : List.Forall₂ (fun part d => Descriptor.ofType part = .ok d) s ds
  isTypeText : ∀ d ∈ ds, IsTypeText d.rendering
  /-- The imports are on one line each. -/
  tidy : ∀ item, item ∈ uses ∨ item ∈ lateUses → '\n' ∉ item
  /-- The modules of the operations are imported. -/
  imported : ∀ c ∈ companions operation, Algorithm.path c ∈ lateUses
  source : u.source = Text.unlines (Sheet.headLines uses lateUses ++
    (declaredLines ds (companions operation) ++ openingLines ++
      registeredLines s (companions operation) ++ closingLines))

theorem lays_hostImports (p : Stand) : Lays p hostImports [] p :=
  (((Lays.nil p).use (by decide)).use (by decide)).use (by decide)

theorem useLate_mem_declared {operation c : Text} (h : c ∈ companions operation)
    (ds : List Descriptor) :
    .useLate (Algorithm.path c) ∈
      (companions operation).zipIdx.flatMap fun (op, k) => declarations ds op k := by
  obtain ⟨k, hk, hget⟩ := List.getElem_of_mem h
  refine List.mem_flatMap.2 ⟨(c, k), ?_, ?_⟩
  · rw [List.mem_zipIdx_iff_getElem?, List.getElem?_eq_getElem hk, hget]
  · simp [declarations]

/-- Every module for an operation is laid out so. -/
theorem laidOut_of_ofAlgorithm {operation : Text} {s : Signature} {u : GeneratedModule}
    (hop : '\n' ∉ operation) (h : ofAlgorithm operation s = .ok u) :
    ∃ ds uses lateUses, LaidOut operation s u ds uses lateUses := by
  unfold ofAlgorithm at h
  cases hds : descriptors s with
  | error e =>
      rw [hds] at h
      cases h
  | ok ds =>
      rw [hds] at h
      have hread := forall₂_of_descriptors hds
      have hwrites : ∀ d ∈ ds, WritesType 0 d.marks d.rendering := by
        have hflip : List.Forall₂ (fun d part =>
            WritesType 0 d.marks d.rendering ∧ Descriptor.ofType part = .ok d) ds s :=
          .flip (hread.imp fun part d hd => ⟨Descriptor.writesType_rendering
            (Descriptor.isType_of_ofType hd.1).hasParts (unrefused_of_firstRefusal? hd.2), hd.1⟩)
        exact ((List.forall₂_and_left ds s).1 hflip).1
      have hdeclared := LaysLines.flatMap (companions operation).zipIdx fun p hp =>
        laysLines_declarations
          (newline_not_mem_companion hop _ (List.fst_mem_of_mem_zipIdx hp)) hwrites p.2
      have hregistered := LaysLines.flatMap (companions operation).zipIdx fun p hp =>
        laysLines_register
          (newline_not_mem_companion hop _ (List.fst_mem_of_mem_zipIdx hp)) s p.2
      have hbody := ((hdeclared.append laysLines_opening).append hregistered).append
        laysLines_closing
      obtain ⟨sheet, hwrite, hsheet, -, htidy⟩ :=
        ((lays_hostImports (start 0)).append hbody) {} rfl
      -- The imports of the host put nothing on the sheet, so the body starts behind them.
      have hmarks : ∀ m₁ m₂ m₃ m₄ : List Mark,
          hostImports ++ m₁ ++ m₂ ++ m₃ ++ m₄ = hostImports ++ (m₁ ++ m₂ ++ m₃ ++ m₄) := by
        simp
      change ofMarks _ (hostImports ++ _ ++ _ ++ _ ++ _) = .ok u at h
      rw [hmarks, ofMarks, hwrite] at h
      cases h
      refine ⟨ds, sheet.uses, sheet.lateUses, hread.imp fun _ _ hd => hd.1,
        fun d hd => (hwrites d hd).isTypeText, htidy (by simp [Sheet.Tidy]), ?_, ?_⟩
      · intro c hc
        have hmem := useLate_mem_declared hc ds
        exact ((Sheet.mem_uses_of_write hwrite _).2).2 (.inr (by simp [hmem]))
      · rw [Text.unlines_append (Sheet.headLines _ _)]
        exact (Sheet.finish_eq sheet).trans (congrArg _ hsheet)

end GeneratedModule
end OnDemand
