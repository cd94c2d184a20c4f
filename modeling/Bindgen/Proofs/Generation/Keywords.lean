import Bindgen.Proofs.Generation.Identifiers
import Bindgen.Proofs.Identifier.Keywords

/-!
# Keywords in generated code

What generated code calls a thing depends on the thing: it escapes the names of fields, parameters and callables,
turns those of variants and members to another case, and puts exported symbols together from several. So whether a
keyword comes out is a question for each of them. None does in Kotlin. In Python the classes of variants go by names
that are not escaped, and in C the arguments do.

Results:
* `headLines_called`, `functionLines_called`, `alternateLines_called`: where callables get their names.
* **`emitted_keyword_iff`**: the identifiers of the code for an accepted model that are keywords.
-/

namespace Bindgen.Emit

open Interface Boundary Identifier

namespace Backend

/-- The keywords of the language of a backend. -/
def keywords : Backend → List String
  | python => pythonKeywords
  | kotlin => kotlinKeywords
  | c => cKeywords

/-- What a backend calls a callable, besides its exported symbol. -/
def called : Backend → Option Object → Callable → List String
  | python, owner, f => [if owner.isSome && f.isPrimary then "__init__" else escapePython f.name]
  | kotlin, owner, f => if owner.isSome && f.isPrimary then [] else [KotlinSource.memberName f.name]
  | c, _, _ => []

/-- The local in which a backend keeps a lowered argument. -/
def kept : Backend → Param → List String
  | python, p => [PythonModule.localName p.name]
  | kotlin, p => [KotlinSource.localName p.name]
  | c, _ => []

/-- The class that a backend makes for a variant besides its name inside the owner. -/
def aside : Backend → Choice → Variant → List String
  | python, e, v => [PythonModule.variantClass e.name v]
  | kotlin, _, _ => []
  | c, _, _ => []

end Backend

/-- **The identifiers of generated code** for the fields, variants, members, parameters and callables of a model. -/
inductive Emitted (m : Model) (symbols : List Signature) (b : Backend) (id : String) : Prop where
  /-- One that is bound at a site. -/
  | bound {site : Site} (hsite : site ∈ Site.ofModel m symbols) (hid : id ∈ b.identifiers site)
  /-- What a callable is called. -/
  | called {owner : Option Object} {f : Callable} (hf : (owner, f) ∈ m.callables) (hid : id ∈ b.called owner f)
  /-- The local of an argument. -/
  | kept {owner : Option Object} {f : Callable} {p : Param} (hf : (owner, f) ∈ m.callables) (hp : p ∈ f.params)
      (hid : id ∈ b.kept p)
  /-- The class of a variant. -/
  | aside {e : Choice} {v : Variant} (he : e ∈ m.enums ∨ e ∈ m.errors) (hv : v ∈ e.variants) (hid : id ∈ b.aside e v)
  /-- An exported symbol. -/
  | symbol {f : Signature} (hf : f ∈ symbols) (hid : id = f.name)

/-- **The identifiers that nothing keeps from being keywords**: the names of the classes of variants in Python, and in C
the names of arguments and, without a namespace, two symbols. -/
inductive Slips (m : Model) : Backend → String → Prop where
  | variant {e : Choice} {v : Variant} (he : e ∈ m.enums ∧ e.isFlat = false ∨ e ∈ m.errors) (hv : v ∈ e.variants)
      (hname : ConstantName v.name) : Slips m .python (pascal v.name)
  | argument {owner : Option Object} {f : Callable} {p : Param} (hf : (owner, f) ∈ m.callables) (hp : p ∈ f.params)
      (hname : p.name ∈ cKeywords) : Slips m .c p.name
  | symbol {o : Object} {f : Callable} (hf : (some o, f) ∈ m.callables) (hns : m.ns = "")
      (hname : (o.name, f.name) ∈ linedKeywords) : Slips m .c (symbolName m.ns f (some o))

variable {m : Model} {b : Backend} {id : String}

/-! ## Where callables get their names -/

theorem PythonModule.headLines_called (owner : Option Object) (f : Callable) : ∃ front name after,
    front ∈ ["def ", "    def "] ∧ Backend.python.called owner f = [name] ∧
      (headLines owner f).getLast? = some (front ++ name ++ "(" ++ after) := by
  unfold headLines Backend.called
  cases owner with
  | none =>
    refine ⟨"def ", escapePython f.name, ", ".intercalate (declareParams f.params) ++ ") -> " ++
      resultHint f.returns ++ ":", by simp, by simp, ?_⟩
    simp [String.append_assoc]
  | some o =>
    by_cases hkind : f.kind = .constructor
    · cases hprimary : f.isPrimary with
      | true =>
        refine ⟨"    def ", "__init__", ", ".intercalate ("self" :: declareParams f.params) ++ "):",
          by simp, by simp [hprimary], ?_⟩
        simp [hkind, ← String.append_assoc]
      | false =>
        refine ⟨"    def ", escapePython f.name, ", ".intercalate ("cls" :: declareParams f.params) ++ ") -> \"" ++
          o.name ++ "\":", by simp, by simp [hprimary], ?_⟩
        simp [hkind, String.append_assoc]
    · have hprimary : f.isPrimary = false := by simp [Callable.isPrimary, hkind]
      refine ⟨"    def ", escapePython f.name, ", ".intercalate ("self" :: declareParams f.params) ++ ") -> " ++
        resultHint f.returns ++ ":", by simp, by simp [hprimary], ?_⟩
      simp [hkind, String.append_assoc]

namespace KotlinSource

variable (s : Surface) (symbol : String) (name : Ty → String)

theorem functionLines_called {owner : Option Object} {f : Callable} (h : (owner.isSome && f.isPrimary) = false) :
    ∃ id after, Backend.kotlin.called owner f = [id] ∧
      (functionLines s symbol f).head?.map (·.textWith name) = some ("fun " ++ id ++ "(" ++ after) := by
  refine ⟨memberName f.name, declareParams f.params ++ ")" ++ returnType f.returns ++ " \x7b", ?_, ?_⟩
  · rw [Backend.called, h]
    rfl
  · have htext : (functionLines s symbol f).head?.map (·.textWith name) = some ("fun " ++ memberName f.name ++ "(" ++
      declareParams f.params ++ ")" ++ returnType f.returns ++ " \x7b") := rfl
    simp only [htext, String.append_assoc]

theorem alternateLines_called (o : Object) {f : Callable} (h : f.isPrimary = false) :
    ∃ id after, Backend.kotlin.called (some o) f = [id] ∧
      (alternateLines s o symbol f).head?.map (·.textWith name) = some ("fun " ++ id ++ "(" ++ after) := by
  refine ⟨memberName f.name, declareParams f.params ++ "): " ++ o.name ++ " =", ?_, ?_⟩
  · rw [Backend.called, h]
    rfl
  · have htext : (alternateLines s o symbol f).head?.map (·.textWith name) = some ("fun " ++ memberName f.name ++ "(" ++
      declareParams f.params ++ "): " ++ o.name ++ " =") := rfl
    simp only [htext, String.append_assoc]

end KotlinSource

/-! ## What no site and no callable has -/

theorem identifiers_of_none {site : Site} (h : b.renaming? site = none) : b.identifiers site = [] := by
  cases b <;> cases site <;> first | rfl | simp [Backend.renaming?] at h

/-- The identifiers at a site come from a name of the model or of the backend. -/
theorem mem_identifiers_iff {site : Site} (hsite : site ∈ Site.ofModel m m.symbols) :
    id ∈ b.identifiers site ↔
      ∃ r, b.renaming? site = some r ∧ ∃ name ∈ b.own site ++ site.names, r.apply name = id := by
  cases hr : b.renaming? site with
  | none => simp [identifiers_of_none hr]
  | some r => simp only [(identifiers_perm hsite hr).mem_iff, List.mem_map, Option.some.injEq, exists_eq_left']

/-- The variants at a site are those of an enum with fields, or of an error. -/
theorem choice_of_site {vs : List Variant} {symbols : List Signature} (h : .variants vs ∈ Site.ofModel m symbols) :
    ∃ e, (e ∈ m.enums ∧ e.isFlat = false ∨ e ∈ m.errors) ∧ e.variants = vs := by
  have hmem : (∃ e ∈ m.enums, .variants vs ∈ Site.ofEnum e) ∨ ∃ e ∈ m.errors, .variants vs ∈ Site.ofError e := by
    simpa [Site.ofModel] using h
  obtain ⟨e, he, hvs⟩ | ⟨e, he, hvs⟩ := hmem
  · unfold Site.ofEnum at hvs
    split at hvs
    · simp at hvs
    · next hflat => exact ⟨e, .inl ⟨he, by simpa using hflat⟩, by simpa [eq_comm] using hvs⟩
  · exact ⟨e, .inr he, by simpa [Site.ofError, eq_comm] using hvs⟩

theorem site_of_choice {e : Choice} (symbols : List Signature) (he : e ∈ m.enums ∧ e.isFlat = false ∨ e ∈ m.errors) :
    .variants e.variants ∈ Site.ofModel m symbols := by
  have hmem : (∃ e' ∈ m.enums, .variants e.variants ∈ Site.ofEnum e') ∨
      ∃ e' ∈ m.errors, .variants e.variants ∈ Site.ofError e' := by
    obtain ⟨he, hflat⟩ | he := he
    · exact .inl ⟨e, he, by simp [Site.ofEnum, hflat]⟩
    · exact .inr ⟨e, he, List.mem_cons_self⟩
  simpa [Site.ofModel] using hmem

/-- The names that a backend puts in beside the arguments of a symbol are no keywords. -/
theorem own_not_mem_cKeywords {f : Signature} (hf : f ∈ m.symbols) :
    ∀ name ∈ Backend.c.own (.arguments f), name ∉ cKeywords := by
  have hwords : ∀ name ∈ errorOutName :: supportArguments, name ∉ cKeywords := by decide
  have hboth : [receiverName, errorOutName] ⊆ errorOutName :: supportArguments := by decide
  intro name hname
  refine hwords name ?_
  obtain ⟨owner, c, rfl⟩ | ⟨hnone, a, ha, hmem⟩ := symbol_cases hf
  · exact hboth ((argument_names c).subset hname)
  · have heq : name = a.name := by simpa [Backend.own, hnone, ha] using hname
    exact List.mem_cons_of_mem _ (heq ▸ hmem)

/-! ## Exported symbols -/

/-- Exported symbols have two low lines, and without a member of an object other words around them than keywords. -/
theorem symbol_parts {f : Signature} (hf : f ∈ m.symbols) : ∃ x y z, f.name = x ++ "_" ++ y ++ "_" ++ z ∧
    ((∃ o c, (some o, c) ∈ m.callables ∧ f = signatureOf m (some o) c ∧ x = m.ns ∧ y = o.name ∧ z = c.name) ∨
      x = "ffi" ∨ y = "fn" ∨ z = "free") := by
  cases hsource : f.source with
  | some c =>
    obtain ⟨owner, hc, rfl⟩ := callable_of_source hf hsource
    cases owner with
    | none =>
      have hname : (signatureOf m none c).name = m.ns ++ "_" ++ "fn" ++ "_" ++ c.name := by
        simp [signatureOf, symbolName, toString, ← String.toList_inj]
      exact ⟨m.ns, "fn", c.name, hname, .inr (.inr (.inl rfl))⟩
    | some o => exact ⟨m.ns, o.name, c.name, rfl, .inl ⟨o, c, hc, rfl, rfl, rfl, rfl⟩⟩
  | none =>
    rcases List.mem_append.1 hf with hf | hf
    · rcases List.mem_append.1 hf with hf | hf
      · have hsupport : ∀ x ∈ supportFunctions m.ns, ∃ z, x.name = "ffi" ++ "_" ++ m.ns ++ "_" ++ z := by
          simp only [supportFunctions, List.forall_mem_cons]
          refine ⟨⟨"buffer_alloc", ?_⟩, ⟨"buffer_from_bytes", ?_⟩, ⟨"buffer_free", ?_⟩, List.forall_mem_nil _⟩ <;>
            simp [bufferAllocName, bufferFromBytesName, bufferFreeName, toString, ← String.toList_inj]
        obtain ⟨z, hz⟩ := hsupport f hf
        exact ⟨"ffi", m.ns, z, hz, .inr (.inl rfl)⟩
      · obtain ⟨c, -, rfl⟩ := List.mem_map.1 hf
        exact absurd hsource (by simp [signatureOf])
    · obtain ⟨o, -, hf⟩ := List.mem_flatMap.1 hf
      rcases List.mem_append.1 hf with hf | hf
      · obtain ⟨c, -, rfl⟩ := List.mem_map.1 hf
        exact absurd hsource (by simp [signatureOf])
      · obtain rfl := List.mem_singleton.1 hf
        have hname : (deriveRelease m.ns o).name = m.ns ++ "_" ++ o.name ++ "_" ++ "free" := by
          simp [deriveRelease, releaseName, toString, ← String.toList_inj]
        exact ⟨m.ns, o.name, "free", hname, .inr (.inr (.inr rfl))⟩

theorem slips_of_symbol {f : Signature} (hf : f ∈ m.symbols) (hk : f.name ∈ b.keywords) : Slips m b f.name := by
  have hone : f.name ∈ pythonKeywords ++ kotlinKeywords ++ cKeywords := by
    cases b <;> simp only [Backend.keywords] at hk <;> simp [hk]
  have hwords : ∀ p ∈ linedKeywords, p.1 ≠ "fn" ∧ p.2 ≠ "free" ∧
      "" ++ "_" ++ p.1 ++ "_" ++ p.2 ∉ pythonKeywords ++ kotlinKeywords := by decide
  obtain ⟨x, y, z, hname, hparts⟩ := symbol_parts hf
  rw [hname] at hone
  obtain ⟨rfl, hlined⟩ := keyword_of_three hone
  obtain ⟨hfn, hfree, hother⟩ := hwords _ hlined
  obtain ⟨o, c, hc, rfl, hns, rfl, rfl⟩ | hx | hy | hz := hparts
  · have hbackend : b = .c := by
      rw [hname] at hk
      cases b with
      | c => rfl
      | python => exact absurd (List.mem_append_left _ hk) hother
      | kotlin => exact absurd (List.mem_append_right _ hk) hother
    exact hbackend ▸ .symbol hc hns.symm hlined
  · exact absurd hx (by decide)
  · exact absurd hy hfn
  · exact absurd hz hfree

/-! ## Keywords -/

/-- A keyword that is bound at a site has slipped through. -/
theorem slips_of_bound {site : Site} (hsite : site ∈ Site.ofModel m m.symbols) (hid : id ∈ b.identifiers site)
    (hk : id ∈ b.keywords) : Slips m b id := by
  obtain ⟨r, hr, name, hname, rfl⟩ := (mem_identifiers_iff hsite).1 hid
  cases b with
  | python =>
    cases site with
    | variants vs =>
      cases hr
      obtain ⟨e, he, rfl⟩ := choice_of_site hsite
      obtain ⟨v, hv, rfl⟩ := List.mem_map.1 hname
      exact .variant he hv (pascal_mem_python_iff.1 hk)
    | fields | errorFields | members | params =>
      cases hr
      exact absurd hk (Renaming.apply_not_mem_python (by decide) name)
    | arguments => cases hr
  | kotlin => cases site <;> cases hr <;> exact absurd hk (Renaming.apply_not_mem_kotlin (by decide) name)
  | c =>
    cases site with
    | arguments f =>
      cases hr
      have hf := mem_symbols_of_site hsite
      rcases List.mem_append.1 hname with hname | hname
      · exact absurd hk (own_not_mem_cKeywords hf name hname)
      · cases hsource : f.source with
        | none => simp [Site.names, hsource] at hname
        | some c =>
          obtain ⟨owner, hc, -⟩ := callable_of_source hf hsource
          obtain ⟨p, hp, rfl⟩ : ∃ p ∈ c.params, p.name = name := by simpa [Site.names, hsource] using hname
          exact .argument hc hp hk
    | fields | errorFields | members | variants | params => cases hr

theorem called_not_mem {owner : Option Object} {f : Callable} (hid : id ∈ b.called owner f) : id ∉ b.keywords := by
  cases b with
  | c => exact absurd hid List.not_mem_nil
  | python =>
    have hinit : "__init__" ∉ pythonKeywords := by decide
    obtain rfl := List.mem_singleton.1 hid
    split
    exacts [hinit, escapePython_not_mem f.name]
  | kotlin =>
    rw [Backend.called] at hid
    split at hid
    · exact absurd hid List.not_mem_nil
    · obtain rfl := List.mem_singleton.1 hid
      exact escapeKotlin_not_mem _

/-- No keyword of Python begins with a low line, and none of Kotlin like a local. -/
theorem not_mem_keywords_of_front {front rest : String}
    (h : front = "_" ∧ b = .python ∨ front = "lowered" ∧ b = .kotlin) : front ++ rest ∉ b.keywords := by
  have hpython : ∀ k ∈ pythonKeywords, ¬ "_".toList <+: k.toList := by decide
  have hkotlin : ∀ k ∈ kotlinKeywords, ¬ "lowered".toList <+: k.toList := by decide
  have hprefix : front.toList <+: (front ++ rest).toList := String.toList_append ▸ List.prefix_append _ _
  intro hk
  obtain ⟨rfl, rfl⟩ | ⟨rfl, rfl⟩ := h
  exacts [hpython _ hk hprefix, hkotlin _ hk hprefix]

theorem kept_not_mem {p : Param} (hid : id ∈ b.kept p) : id ∉ b.keywords := by
  cases b with
  | c => exact absurd hid List.not_mem_nil
  | python => exact List.mem_singleton.1 hid ▸ not_mem_keywords_of_front (.inl ⟨rfl, rfl⟩)
  | kotlin => exact List.mem_singleton.1 hid ▸ not_mem_keywords_of_front (.inr ⟨rfl, rfl⟩)

theorem aside_not_mem {e : Choice} {v : Variant} (hid : id ∈ b.aside e v) : id ∉ b.keywords := by
  cases b with
  | c | kotlin => exact absurd hid List.not_mem_nil
  | python =>
    obtain rfl := List.mem_singleton.1 hid
    rw [PythonModule.variantClass, String.append_assoc, String.append_assoc]
    exact not_mem_keywords_of_front (.inl ⟨rfl, rfl⟩)

/-- What slips through is there, and is a keyword. -/
theorem Slips.emitted (h : Slips m b id) : Emitted m m.symbols b id ∧ id ∈ b.keywords := by
  cases h with
  | @variant e v he hv hname =>
    exact ⟨.bound (site_of_choice m.symbols he) (List.mem_map_of_mem hv), pascal_mem_python_iff.2 hname⟩
  | @argument owner f p hf hp hname =>
    have hsite : .arguments (signatureOf m owner f) ∈ Site.ofModel m m.symbols :=
      List.mem_append_right _ (List.mem_map_of_mem (signatureOf_mem hf))
    have hargument : argumentOf (Resolve.named m.definitions) p ∈ (signatureOf m owner f).arguments :=
      List.mem_append_left _ (List.mem_append_right _ (List.mem_map_of_mem hp))
    exact ⟨.bound hsite (List.mem_map_of_mem (f := (·.name)) hargument), hname⟩
  | @symbol o f hf hns hname =>
    have hkeyword : ∀ p ∈ linedKeywords, "" ++ "_" ++ p.1 ++ "_" ++ p.2 ∈ cKeywords := by decide
    refine ⟨.symbol (signatureOf_mem hf) rfl, ?_⟩
    rw [hns]
    exact hkeyword _ hname

end Bindgen.Emit

namespace Bindgen

open Interface Boundary Emit Identifier

/-- **Which identifiers are keywords.** Of the identifiers that a backend emits for the fields, variants, members,
parameters and callables of an accepted model, just those are keywords of its language that slip through: in Python the
variants called like one of the three constants, in C the arguments called like a keyword, and without a namespace two
symbols. In Kotlin there is none. -/
theorem emitted_keyword_iff (g : Generation) {symbols : List Signature}
    (h : Generation.fresh Generation.derive g = .ok symbols) (b : Backend) (id : String) :
    (Emitted g.model symbols b id ∧ id ∈ b.keywords) ↔ Slips g.model b id := by
  rw [fresh_derive] at h
  obtain ⟨-, rfl, -⟩ := derived_eq_ok h
  refine ⟨fun ⟨hemitted, hk⟩ => ?_, Slips.emitted⟩
  cases hemitted with
  | bound hsite hid => exact slips_of_bound hsite hid hk
  | called hf hid => exact absurd hk (called_not_mem hid)
  | kept hf hp hid => exact absurd hk (kept_not_mem hid)
  | aside he hv hid => exact absurd hk (aside_not_mem hid)
  | symbol hf hid => exact hid ▸ slips_of_symbol hf (hid ▸ hk)

/-- An enum with a variant that is called like a constant. -/
def perhaps : Choice := ⟨"Perhaps", [⟨"none", []⟩, ⟨"some", [⟨"class", .prim .i32⟩]⟩]⟩

/-- A function with a keyword of all languages for a name, and one of C for the name of its parameter. -/
def whileInt : Callable := ⟨.function, "while", [⟨"int", .prim .i32, false⟩], none, none⟩

/-- An object with a constructor whose symbol is a keyword of C without a namespace. -/
def static : Object := ⟨"Static", [⟨.constructor, "assert", [], none, none⟩], [], Eq.refl true, Eq.refl true⟩

/-- A model with all of them. -/
def keywordModel : Model := ⟨"", [], [perhaps], [], [static], [whileInt], Eq.refl true⟩

/-- The class, the argument and the symbol slip through, the names of the function and of the field do not. -/
theorem emitted_keyword_perhaps : ∃ g symbols, Generation.fresh Generation.derive g = .ok symbols ∧
    (Emitted g.model symbols .python "None" ∧ "None" ∈ pythonKeywords) ∧
      (Emitted g.model symbols .c "int" ∧ "int" ∈ cKeywords) ∧
      (Emitted g.model symbols .c "_Static_assert" ∧ "_Static_assert" ∈ cKeywords) ∧
      Emitted g.model symbols .python "while_" ∧ Emitted g.model symbols .kotlin "`class`" ∧
      ∀ id, ¬ (Emitted g.model symbols .kotlin id ∧ id ∈ kotlinKeywords) := by
  have hpasses : keywordModel.Passes := passes_of_isOk (by decide +kernel)
  let g := Generation.ofModel keywordModel .default .full
  have h : Generation.fresh Generation.derive g = .ok keywordModel.symbols :=
    (fresh_derive g).trans (derived_of_nodup hpasses (by decide))
  have hiff := emitted_keyword_iff g h
  have hvariant : Slips keywordModel .python "None" :=
    .variant (e := perhaps) (v := ⟨"none", []⟩) (.inl ⟨List.mem_cons_self, by decide⟩) List.mem_cons_self
      ⟨"none", by decide, 0, 0, by decide⟩
  have hwhile : (none, whileInt) ∈ keywordModel.callables := List.mem_cons_self
  have hargument : Slips keywordModel .c "int" :=
    .argument (p := ⟨"int", .prim .i32, false⟩) hwhile List.mem_cons_self (by decide)
  have hsymbol : Slips keywordModel .c "_Static_assert" :=
    .symbol (o := static) (f := ⟨.constructor, "assert", [], none, none⟩) (List.mem_of_getElem? (i := 1) rfl) rfl
      (by decide)
  have hfields : Site.fields [⟨"class", .prim .i32⟩] ∈ Site.ofModel keywordModel keywordModel.symbols :=
    List.mem_of_getElem? (i := 2) rfl
  refine ⟨g, _, h, (hiff .python _).2 hvariant, (hiff .c _).2 hargument, (hiff .c _).2 hsymbol,
    .called hwhile (by decide), .bound hfields (by decide), ?_⟩
  intro id hid
  cases (hiff .kotlin id).1 hid

end Bindgen
