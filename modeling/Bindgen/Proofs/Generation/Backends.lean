import Bindgen.Proofs.Generation.Render

/-!
# What the backends generate

A backend that knows every shape always generates its file, if the settings have the right form
(`file_eq_ok`); and files of different backends have different paths. What a backend looks up on the way is
there, as soon as the types of the callables have defined names (`Surface.Complete`): conversions, the symbols that
release objects, and a parameter for every value argument that is not a receiver.

Results:
* `complete_surface`: nothing that is looked up is missing.
* `renderFiles_eq_ok`: some backends generate one file each, however often they are named.
-/

namespace Bindgen

open Interface Boundary Resolve Config Emit

/-- **Settings of the right form**: names of backends, tables of options, and texts where an option has to be
one. -/
structure Config.Settings.WellTyped (s : Settings) : Prop where
  backends : ∃ names : List String, s.backends = .array (names.map .string)
  bindings : Settings.isTableOfTables s.bindings = true
  apiMacro : ∀ v, s.option? Backend.c.text "api_macro" = .ok (some v) → ∃ t, v = .string t
  packageName : ∀ v, s.option? Backend.kotlin.text "package_name" = .ok (some v) → ∃ t, v = .string t

/-- An option that can be used as a text: one that is not set, or is set to a text or to something empty. -/
def Config.Settings.Usable (s : Settings) (b : Backend) (key : String) : Prop :=
  ∃ v, s.option? b.text key = .ok v ∧ ∀ w, v = some w → (∃ t, w = .string t) ∨ w.truthy = false

/-- The option that a backend uses as a text. -/
def Emit.Backend.textKey? : Backend → Option String
  | c => some "api_macro"
  | python => none
  | kotlin => some "package_name"

/-! ## Files -/

/-- The end of the path of a backend's file. -/
def Emit.Backend.suffix : Backend → String
  | c => ".h"
  | python => ".py"
  | kotlin => ".kt"

theorem getLast?_append_suffix (front : String) (b : Backend) :
    (front ++ b.suffix).toList.getLast? = b.suffix.toList.getLast? := by
  rw [String.toList_append, List.getLast?_append]
  cases b <;> rfl

/-- Files of different backends have different paths. -/
theorem eq_of_suffix {front front' : String} {b b' : Backend} (h : front ++ b.suffix = front' ++ b'.suffix) :
    b = b' := by
  have hlast : b.suffix.toList.getLast? = b'.suffix.toList.getLast? := by
    rw [← getLast?_append_suffix front, h, getLast?_append_suffix]
  cases b <;> cases b' <;> first | rfl | exact absurd hlast (by decide)

/-- The path of a generated file ends as its backend has it. -/
theorem file_path {s : Surface} {b : Backend} {path text : String} (h : b.file s = .ok (path, text)) :
    ∃ front, path = front ++ b.suffix := by
  cases b with
  | c | python =>
    obtain ⟨_, _, h⟩ := bind_eq_ok.1 h
    exact ⟨_, (Prod.mk.inj (Except.ok.inj h)).1.symm⟩
  | kotlin =>
    obtain ⟨_, _, h⟩ := bind_eq_ok.1 h
    obtain ⟨_, _, h⟩ := bind_eq_ok.1 h
    exact ⟨_, (Prod.mk.inj (Except.ok.inj h)).1.symm⟩

section Emission

variable {s : Surface} (hs : s.spelling = .full)

theorem option?_eq_ok {settings : Settings} (h : Settings.isTableOfTables settings.bindings = true)
    (backend key : String) : ∃ v, settings.option? backend key = .ok v := by
  unfold Settings.option?
  cases hb : settings.bindings with
  | object tables =>
    rw [hb] at h
    cases hl : tables.lookup backend with
    | none => exact ⟨none, by simp only [hl]⟩
    | some v =>
      have hv : v.members?.isSome = true := List.all_eq_true.mp h _ (mem_of_lookup hl)
      cases v with
      | object options => exact ⟨options.lookup key, by simp only [hl]⟩
      | _ => exact absurd hv (by simp [JsonOf.members?])
  | _ => rw [hb] at h; exact absurd h (by simp [Settings.isTableOfTables])

theorem option?_eq_error {settings : Settings} {backend key : String} {f : Failure}
    (h : settings.option? backend key = .error f) : f = .uncovered := by
  unfold Settings.option? at h
  split at h
  · split at h
    · cases h
    · cases h
    · exact (Except.error.inj h).symm
  · exact (Except.error.inj h).symm

theorem textOption_cases (s : Surface) (b : Backend) (key default : String) :
    (s.settings.Usable b key ∧ ∃ text, s.textOption b key default = .ok text) ∨
      (¬ s.settings.Usable b key ∧ s.textOption b key default = .error .uncovered) := by
  unfold Surface.textOption Settings.Usable
  cases hoption : s.settings.option? b.text key with
  | error f => exact .inr ⟨by simp, congrArg _ (option?_eq_error hoption)⟩
  | ok v =>
    cases v with
    | none => exact .inl ⟨⟨none, rfl, by simp⟩, default, rfl⟩
    | some v =>
      cases v with
      | string t => exact .inl ⟨⟨_, rfl, by simp⟩, _, rfl⟩
      | _ => simp only; split <;> simp_all

theorem Config.Settings.WellTyped.usable {settings : Settings} (ht : settings.WellTyped) {b : Backend} {key : String}
    (hkey : b.textKey? = some key) : settings.Usable b key := by
  obtain ⟨v, hoption⟩ := option?_eq_ok ht.bindings b.text key
  refine ⟨v, hoption, fun w hw => .inl ?_⟩
  cases b with
  | c => exact ht.apiMacro w (by cases hkey; rw [← hw]; exact hoption)
  | python => exact absurd hkey (by simp [Backend.textKey?])
  | kotlin => exact ht.packageName w (by cases hkey; rw [← hw]; exact hoption)

/-- A backend whose option is no text does not generate its file. -/
theorem file_of_unusable {b : Backend} {key : String} (hkey : b.textKey? = some key)
    (hu : ¬ s.settings.Usable b key) : b.file s = .error .uncovered := by
  cases b with
  | c =>
    cases hkey
    obtain ⟨h, -⟩ | ⟨-, h⟩ := textOption_cases s .c "api_macro" (Text.upper s.ns ++ "_API")
    · exact absurd h hu
    · unfold Backend.file CHeader.file CHeader.header CHeader.apiMacro
      simp only [h]
      rfl
  | python => exact absurd hkey (by simp [Backend.textKey?])
  | kotlin =>
    cases hkey
    obtain ⟨h, -⟩ | ⟨-, h⟩ := textOption_cases s .kotlin "package_name" ("ffigen." ++ s.ns)
    · exact absurd h hu
    · unfold Backend.file KotlinSource.file KotlinSource.packageName
      simp only [h]
      rfl

include hs

theorem spell_eq (b : Backend) (shape : Shape) : s.spell b shape = .ok (b.spelling shape) := by
  unfold Surface.spell
  rw [hs]
  rfl

theorem spellResult_eq (b : Backend) (void : String) (returns : Option Shape) :
    s.spellResult b void returns = .ok ((returns.map b.spelling).getD void) := by
  cases returns with
  | none => rfl
  | some shape => exact spell_eq hs b shape

theorem spellResult_eq_ok (b : Backend) (void : String) (returns : Option Shape) :
    ∃ text, s.spellResult b void returns = .ok text :=
  ⟨_, spellResult_eq hs b void returns⟩

theorem header_prototype_eq_ok (api : String) (f : Signature) : ∃ text, CHeader.prototype s api f = .ok text := by
  obtain ⟨ret, hret⟩ := spellResult_eq_ok hs .c "void" f.returns
  have hparams : ∃ params, (f.arguments.mapM fun a => return (← s.spell .c a.shape) ++ " " ++ a.name) =
      (.ok params : Except Failure (List String)) :=
    exists_mapM_eq_ok fun a _ => ⟨_, by rw [spell_eq hs]; rfl⟩
  obtain ⟨params, hparams⟩ := hparams
  unfold CHeader.prototype
  rw [hret, bind_ok, hparams]
  exact ⟨_, rfl⟩

theorem symbolLines_eq_ok (f : Signature) : ∃ lines, PythonModule.symbolLines s f = .ok lines := by
  obtain ⟨ret, hret⟩ := spellResult_eq_ok hs .python "None" f.returns
  have hargs : ∃ args, (f.arguments.mapM fun a => s.spell .python a.shape) = .ok args :=
    exists_mapM_eq_ok fun a _ => ⟨_, spell_eq hs .python a.shape⟩
  obtain ⟨args, hargs⟩ := hargs
  unfold PythonModule.symbolLines
  rw [hret, bind_ok, hargs]
  exact ⟨_, rfl⟩

/-- **The declaration of a symbol in Kotlin**, with the types that stand for the shapes of its positions. -/
theorem source_prototype_eq (f : Signature) : KotlinSource.prototype s f = .ok ("fun " ++ f.name ++ "(" ++
    ", ".intercalate (f.arguments.map fun a =>
      Identifier.escapeKotlin a.name ++ ": " ++ Backend.kotlin.spelling a.shape) ++ "): " ++
    (f.returns.map Backend.kotlin.spelling).getD "Unit") := by
  have hparams : (f.arguments.mapM fun a =>
      return Identifier.escapeKotlin a.name ++ ": " ++ (← s.spell .kotlin a.shape)) =
      (.ok (f.arguments.map fun a => Identifier.escapeKotlin a.name ++ ": " ++ Backend.kotlin.spelling a.shape) :
        Except Failure (List String)) := by
    simp only [spell_eq hs, bind_ok]
    exact List.mapM_pure
  rw [KotlinSource.prototype, hparams, bind_ok, spellResult_eq hs]
  rfl

/-- A backend that knows every shape generates its file, if it can use its option. -/
theorem file_of_usable {b : Backend} (hu : ∀ key, b.textKey? = some key → s.settings.Usable b key) :
    ∃ front text, b.file s = .ok (front ++ b.suffix, text) := by
  cases b with
  | c =>
    obtain ⟨-, api, hapi⟩ := (textOption_cases s .c "api_macro" (Text.upper s.ns ++ "_API")).resolve_right
      fun h => h.1 (hu _ rfl)
    obtain ⟨prototypes, hprototypes⟩ := exists_mapM_eq_ok fun f (_ : f ∈ s.symbols) =>
      header_prototype_eq_ok hs api f
    refine ⟨s.ns, ?_⟩
    unfold Backend.file CHeader.file CHeader.header CHeader.apiMacro
    simp only [hapi, bind_ok, hprototypes]
    exact ⟨_, rfl⟩
  | python =>
    obtain ⟨symbols, hsymbols⟩ := exists_mapM_eq_ok fun f (_ : f ∈ s.symbols) => symbolLines_eq_ok hs f
    refine ⟨s.ns, ?_⟩
    unfold Backend.file PythonModule.file PythonModule.moduleText PythonModule.moduleLines PythonModule.symbolsLines
    simp only [hsymbols, bind_ok]
    exact ⟨_, rfl⟩
  | kotlin =>
    obtain ⟨-, package, hpackage⟩ := (textOption_cases s .kotlin "package_name" ("ffigen." ++ s.ns)).resolve_right
      fun h => h.1 (hu _ rfl)
    obtain ⟨prototypes, hprototypes⟩ := exists_mapM_eq_ok fun f (_ : f ∈ s.symbols) =>
      ⟨_, source_prototype_eq hs f⟩
    refine ⟨"/".intercalate (Text.split '.' package) ++ "/" ++ s.ns, ?_⟩
    unfold Backend.file KotlinSource.file KotlinSource.packageName KotlinSource.source KotlinSource.sourceLines
      KotlinSource.libraryLines
    simp only [hpackage, bind_ok, hprototypes]
    exact ⟨_, rfl⟩

/-- **A backend that knows every shape generates its file.** -/
theorem file_eq_ok (ht : s.settings.WellTyped) (b : Backend) :
    ∃ front text, b.file s = .ok (front ++ b.suffix, text) :=
  file_of_usable hs fun _ => ht.usable

end Emission

/-! ## One file each -/

theorem putOutput_new {path text : String} {outputs : Outputs} (h : path ∉ outputs.map (·.1)) :
    Generation.putOutput path text outputs = outputs ++ [(path, text)] := by
  induction outputs with
  | nil => rfl
  | cons o outputs ih =>
    rw [List.map_cons, List.mem_cons, not_or] at h
    unfold Generation.putOutput
    rw [if_neg (Ne.symm h.1), ih h.2]
    rfl

/-- A file that is there already is put where it is. -/
theorem putOutput_same {path text : String} {outputs : Outputs} (hn : (outputs.map (·.1)).Nodup)
    (h : (path, text) ∈ outputs) : Generation.putOutput path text outputs = outputs := by
  induction outputs with
  | nil => exact absurd h List.not_mem_nil
  | cons o outputs ih =>
    rw [List.map_cons, List.nodup_cons] at hn
    unfold Generation.putOutput
    rcases List.mem_cons.1 h with rfl | h
    · exact if_pos rfl
    · have hne : o.1 ≠ path := fun he => hn.1 (he ▸ List.mem_map_of_mem h)
      rw [if_neg hne, ih hn.2 h]

/-- **The files of some backends**, one each, under paths of their own. -/
structure OneEach (s : Surface) (backends : List Backend) (outputs : Outputs) : Prop where
  nodup : backends.Nodup
  files : List.Forall₂ (fun b file => b.file s = .ok file) backends outputs
  paths : (outputs.map (·.1)).Nodup

theorem OneEach.nil (s : Surface) : OneEach s [] [] := ⟨List.nodup_nil, .nil, List.nodup_nil⟩

theorem OneEach.mem {s : Surface} {backends : List Backend} {outputs : Outputs} (h : OneEach s backends outputs)
    {b : Backend} (hb : b ∈ backends) : ∃ file ∈ outputs, b.file s = .ok file :=
  exists_right_of_forall₂ h.files hb

section Rendering

variable {s : Surface}

/-- A file with another's path is the file of the same backend. -/
theorem backend_of_path {b b' : Backend} {path text text' : String} (h : b.file s = .ok (path, text))
    (h' : b'.file s = .ok (path, text')) : b = b' := by
  obtain ⟨front, hpath⟩ := file_path h
  obtain ⟨front', hpath'⟩ := file_path h'
  exact eq_of_suffix (hpath.symm.trans hpath')

/-- One more backend: its file is there, or is put at the end. -/
theorem OneEach.put {backends : List Backend} {outputs : Outputs} (h : OneEach s backends outputs) {b : Backend}
    {path text : String} (hb : b.file s = .ok (path, text)) :
    OneEach s (if b ∈ backends then backends else backends ++ [b])
      (Generation.putOutput path text outputs) := by
  by_cases hmem : b ∈ backends
  · obtain ⟨file, hfile, heq⟩ := h.mem hmem
    obtain rfl := Except.ok.inj (hb.symm.trans heq)
    rw [if_pos hmem, putOutput_same h.paths hfile]
    exact h
  · have hnew : path ∉ outputs.map (·.1) := by
      intro hpath
      obtain ⟨⟨path', text'⟩, hfile, rfl⟩ := List.mem_map.1 hpath
      obtain ⟨b', hb', heq⟩ := exists_left_of_forall₂ h.files hfile
      exact hmem (backend_of_path hb heq ▸ hb')
    rw [if_neg hmem, putOutput_new hnew]
    refine ⟨?_, List.rel_append h.files (.cons hb .nil), ?_⟩
    · exact h.nodup.append (List.nodup_singleton b) (List.disjoint_singleton.2 hmem)
    · rw [List.map_append]
      exact h.paths.append (List.nodup_singleton path) (List.disjoint_singleton.2 hnew)

/-- **Some backends that generate their files generate one each**, however often they are named. -/
theorem renderFiles_ok (names : List Backend) (hfiles : ∀ b ∈ names, ∃ file, b.file s = .ok file)
    {backends : List Backend} {outputs : Outputs} (h : OneEach s backends outputs) :
    ∃ backends' outputs', renderFiles s outputs names = .ok outputs' ∧
      OneEach s backends' outputs' ∧ ∀ b, b ∈ backends' ↔ b ∈ backends ∨ b ∈ names := by
  induction names generalizing backends outputs with
  | nil => exact ⟨backends, outputs, rfl, h, by simp⟩
  | cons b names ih =>
    rw [List.forall_mem_cons] at hfiles
    obtain ⟨⟨path, text⟩, hb⟩ := hfiles.1
    obtain ⟨backends', outputs', hrender, hone, hmem⟩ := ih hfiles.2 (h.put hb)
    refine ⟨backends', outputs', ?_, hone, fun b' => ?_⟩
    · unfold renderFiles at hrender ⊢
      rw [List.foldlM_cons, hb]
      exact hrender
    · rw [hmem b', List.mem_cons]
      split
      · constructor
        · exact fun h' => h'.imp_right .inr
        · rintro (h' | rfl | h')
          · exact .inl h'
          · exact .inl ‹_›
          · exact .inr h'
      · rw [List.mem_append, List.mem_singleton, or_assoc]

/-- Where files are not rendered, some backend has failed to generate its own. -/
theorem renderFiles_eq_error {names : List Backend} {outputs : Outputs} {f : Failure}
    (h : renderFiles s outputs names = .error f) : ∃ b ∈ names, b.file s = .error f := by
  induction names generalizing outputs with
  | nil => exact absurd h (by simp [renderFiles, pure, Except.pure])
  | cons b names ih =>
    unfold renderFiles at h ih
    rw [List.foldlM_cons] at h
    rcases bind_eq_error.1 h with h | ⟨next, -, h⟩
    · rcases bind_eq_error.1 h with h | ⟨file, -, h⟩
      · exact ⟨b, List.mem_cons_self, h⟩
      · exact absurd h (by simp [pure, Except.pure])
    · obtain ⟨b', hb', hf⟩ := ih h
      exact ⟨b', List.mem_cons_of_mem _ hb', hf⟩

/-- Where files are rendered, every backend has generated its own. -/
theorem file_of_renderFiles {names : List Backend} {outputs outputs' : Outputs}
    (h : renderFiles s outputs names = .ok outputs') : ∀ b ∈ names, ∃ file, b.file s = .ok file := by
  induction names generalizing outputs with
  | nil => exact fun _ hb => absurd hb List.not_mem_nil
  | cons b names ih =>
    unfold renderFiles at h ih
    rw [List.foldlM_cons] at h
    obtain ⟨next, hnext, h⟩ := bind_eq_ok.1 h
    obtain ⟨file, hfile, -⟩ := bind_eq_ok.1 hnext
    exact List.forall_mem_cons.2 ⟨⟨file, hfile⟩, ih h⟩

/-- What is rendered is one file of each backend. -/
theorem oneEach_of_renderFiles {names : List Backend} {outputs : Outputs}
    (h : renderFiles s [] names = .ok outputs) : ∃ each, OneEach s each outputs ∧ ∀ b, b ∈ each ↔ b ∈ names := by
  obtain ⟨each, outputs', hrender, hone, hmem⟩ := renderFiles_ok names (file_of_renderFiles h) (.nil s)
  obtain rfl := Except.ok.inj (h.symm.trans hrender)
  exact ⟨each, hone, fun b => by simpa using hmem b⟩

/-- **Some backends generate one file each**, however often they are named. -/
theorem renderFiles_eq_ok (hs : s.spelling = .full) (ht : s.settings.WellTyped) (names : List Backend)
    {backends : List Backend} {outputs : Outputs}
    (h : OneEach s backends outputs) : ∃ backends' outputs', renderFiles s outputs names = .ok outputs' ∧
      OneEach s backends' outputs' ∧ ∀ b, b ∈ backends' ↔ b ∈ backends ∨ b ∈ names :=
  renderFiles_ok names (fun b _ => (file_eq_ok hs ht b).elim fun _ h => h.elim fun _ h => ⟨_, h⟩) h

end Rendering

/-! ## What is looked up -/

/-- **Everything that the backends look up is there.** -/
structure Emit.Surface.Complete (s : Surface) : Prop where
  /-- Every value that is passed has a conversion. -/
  conversions : ∀ p ∈ s.model.callables, ∀ t ∈ p.2.roots, s.table.conversion t = .ok (s.table.conversionOf t)
  /-- Only numbers are passed directly, and these have code. -/
  scalars : ∀ t, s.table.conversionOf t = .direct → (KotlinSource.scalarCode t).isSome = true
  /-- Every value argument behind that of the receiver is a parameter's. -/
  arguments : ∀ f ∈ s.symbols, ∀ c, f.source = some c → ∃ args, f.valueArguments = receiverArgument c ++ args ∧
    ∀ a ∈ args, (c.params.reverse.find? (·.name == a.name)).isSome = true
  /-- Every argument that is lowered in place is found under its local. -/
  slots : ∀ (localName : String → String) (symbol : String) (c : Callable),
    let plan := CallPlan.ofCallable s.table localName symbol c
    plan.inPlace = true → ∀ x ∈ plan.slots, (plan.plain.reverse.find? (·.target == x.target)).isSome = true
  /-- Every object is released by its own symbol. -/
  releases : ∀ o ∈ s.model.objects, ∃ f, s.release? o = some f ∧ f.name = releaseName s.ns o.name

theorem scalarCode_of_direct {table : Table} {t : Ty} (h : table.conversionOf t = .direct) :
    (KotlinSource.scalarCode t).isSome = true := by
  induction t with
  | prim p => rfl
  | box t ih => exact ih h
  | named name =>
    unfold Table.conversionOf at h
    split at h <;> exact absurd h (by simp)
  | _ => exact absurd h (by simp [Table.conversionOf])

theorem valueArguments_signatureOf {m : Model} (owner : Option Object) (c : Callable) :
    (signatureOf m owner c).valueArguments =
      receiverArgument c ++ c.params.map (argumentOf (named m.definitions)) := by
  unfold Signature.valueArguments Signature.hasErrorOut signatureOf errorArgument
  cases c.throws with
  | none => simp
  | some name => simp

/-- The symbol behind which a callable stands is that of the callable. -/
theorem eq_signatureOf {m : Model} {f : Signature} (hf : f ∈ m.symbols) {c : Callable} (hc : f.source = some c) :
    ∃ owner, f = signatureOf m owner c := by
  obtain ⟨owner, -, h⟩ := callable_of_source hf hc
  exact ⟨owner, h⟩

/-- A symbol without a callable that belongs to an object releases it. -/
theorem eq_deriveRelease {m : Model} {f : Signature} (hf : f ∈ m.symbols) (hc : f.source = none) {o : Object}
    (ho : f.owner = some o) : f = deriveRelease m.ns o := by
  rcases List.mem_append.1 hf with hf | hf
  · rcases List.mem_append.1 hf with hf | hf
    · have hnone : ∀ x ∈ supportFunctions m.ns, x.owner = none := by simp [supportFunctions]
      exact absurd (ho.symm.trans (hnone f hf)) (by simp)
    · obtain ⟨c', -, rfl⟩ := List.mem_map.1 hf
      exact absurd hc (by simp [signatureOf])
  · obtain ⟨o', -, hf⟩ := List.mem_flatMap.1 hf
    rcases List.mem_append.1 hf with hf | hf
    · obtain ⟨c', -, rfl⟩ := List.mem_map.1 hf
      exact absurd hc (by simp [signatureOf])
    · obtain rfl := List.mem_singleton.1 hf
      obtain rfl := Option.some.inj ho
      rfl

theorem release?_eq {g : Generation} {o : Object} (ho : o ∈ g.model.objects) :
    ∃ f, g.surface.release? o = some f ∧ f.name = releaseName g.surface.ns o.name := by
  have hmem : deriveRelease g.model.ns o ∈ g.model.symbols :=
    List.mem_append_right _ (List.mem_flatMap.2 ⟨o, ho, List.mem_append_right _ List.mem_cons_self⟩)
  cases hfind : g.surface.release? o with
  | none => exact absurd (List.find?_eq_none.1 hfind _ hmem) (by simp [deriveRelease])
  | some f =>
    refine ⟨f, rfl, ?_⟩
    have hf := List.find?_some hfind
    simp only [Bool.and_eq_true, Option.isNone_iff_eq_none, Option.any_eq_true, beq_iff_eq] at hf
    obtain ⟨hsource, o', howner, hname⟩ := hf
    rw [eq_deriveRelease (List.mem_of_find?_eq_some hfind) hsource howner]
    exact congrArg (releaseName g.model.ns) hname

theorem inPlaceSlot_found {plan : CallPlan} (h : plan.inPlace = true) {x : Slot} (hx : x ∈ plan.slots) :
    (plan.plain.reverse.find? (·.target == x.target)).isSome = true := by
  rw [List.find?_isSome]
  refine ⟨x, List.mem_reverse.2 (List.mem_filter.2 ⟨hx, ?_⟩), by simp⟩
  have howned : plan.slots.filter (·.owned) = [] := List.isEmpty_iff.1 h
  cases hxo : x.owned with
  | false => rfl
  | true => exact absurd (howned ▸ List.mem_filter.2 ⟨hx, hxo⟩) List.not_mem_nil

/-- **Nothing that is looked up is missing** where the types of the callables have defined names. -/
theorem complete_surface {g : Generation}
    (h : ∀ p ∈ g.model.callables, ∀ t ∈ p.2.roots, (named g.model.definitions).Defines t) :
    g.surface.Complete where
  conversions := fun p hp t ht => conversion_of_defines (h p hp t ht)
  scalars := fun _ => scalarCode_of_direct
  arguments := by
    intro f hf c hc
    obtain ⟨owner, rfl⟩ := eq_signatureOf hf hc
    refine ⟨_, valueArguments_signatureOf owner c, fun a ha => ?_⟩
    obtain ⟨p, hp, rfl⟩ := List.mem_map.1 ha
    rw [List.find?_isSome]
    exact ⟨p, List.mem_reverse.2 hp, by simp [argumentOf]⟩
  slots := fun _ _ _ h x hx => inPlaceSlot_found h hx
  releases := fun _ ho => release?_eq ho

end Bindgen
