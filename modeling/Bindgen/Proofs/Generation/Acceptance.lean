import Bindgen.Proofs.Generation.Backends

/-!
# What is accepted

`Model.Sound` says what makes a model sound, in terms of the names in it: the definitions differ by name, every
type that is used has a definition, no definition contains itself by value, what is thrown is an error, and the
exported symbols differ. `Generation.Justified` says of a failure that the condition it reports really fails.

Results:
* `sound_iff`: a model is sound just when it passes its check and its symbols differ.
* `render_decides`: a generation renders just when its backends are known and its model is sound; then there is
  one file for each backend, and otherwise the failure is justified.
-/

namespace Bindgen

open Interface Boundary Resolve Config Emit

/-- The names of the definitions of a model. -/
def Interface.Model.names (m : Model) : List String := m.definitions.map (·.name)

/-- The names that the types of fields, parameters and results mention. -/
def Interface.Model.typeNames (m : Model) : List String :=
  (m.definitions.flatMap fun d => d.fields.flatMap (·.type.names)) ++
    m.callables.flatMap fun p => p.2.roots.flatMap (·.names)

/-- The names that callables throw. -/
def Interface.Model.thrownNames (m : Model) : List String :=
  m.callables.flatMap (·.2.throws.toList)

/-- The names of the exported symbols: support functions, callables, and one release for each object. -/
def Interface.Model.symbolNames (m : Model) : List String :=
  [bufferAllocName m.ns, bufferFromBytesName m.ns, bufferFreeName m.ns] ++
    m.functions.map (symbolName m.ns · none) ++
    m.objects.flatMap fun o => o.callables.map (symbolName m.ns · (some o)) ++ [releaseName m.ns o.name]

/-- **A sound model.** -/
structure Interface.Model.Sound (m : Model) : Prop where
  names : m.names.Nodup
  types : ∀ name ∈ m.typeNames, name ∈ m.names
  /-- No definition is stored in itself: through fields, optionals, sequences and maps, but not through a box or
  an object. -/
  acyclic : ∀ name, ¬ Relation.TransGen (Stores (named m.definitions)) name name
  throws : ∀ name ∈ m.thrownNames, ∃ c, .error c ∈ m.definitions ∧ c.name = name
  symbols : m.symbolNames.Nodup

/-- The configured backends are known. -/
def Config.Settings.KnowsBackends (s : Settings) : Prop :=
  ∃ backends : List Backend, s.backendNames = .ok (backends.map (·.text))

/-- **The condition that a failure reports really fails.** -/
inductive Generation.Justified (g : Generation) : Failure → Prop where
  | unknownBackends {names unknown : List String} (hn : g.settings.backendNames = .ok names)
      (hu : ∀ name, name ∈ unknown ↔ name ∈ names ∧ ∀ b : Backend, b.text ≠ name) (hne : unknown ≠ []) :
      Justified g (.config (.unknownBackends unknown (Backend.all.map (·.text))))
  | duplicateType {name : String} (h : List.Duplicate name g.model.names) : Justified g (.duplicateType name)
  | unresolved {name : String} {context : Option String} (hu : name ∈ g.model.typeNames ++ g.model.thrownNames)
      (hd : name ∉ g.model.names) : Justified g (.unresolved name context)
  | recursive {first : String} {others : List String}
      (h : List.IsChain (Stores (named g.model.definitions)) (first :: others ++ [first])) :
      Justified g (.recursive (first :: others ++ [first]))
  | notAnError {name place : String} {d : Definition} (ht : name ∈ g.model.thrownNames)
      (hd : d ∈ g.model.definitions) (hn : d.name = name) (hk : d.kind ≠ .error) :
      Justified g (.notAnError name (some place) d.kind)
  | duplicateSymbol {name : String} (h : List.Duplicate name g.model.symbolNames) :
      Justified g (.duplicateSymbol name)

variable {m : Model} {g : Generation}

/-! ## Names -/

theorem symbols_map_name (m : Model) : m.symbols.map (·.name) = m.symbolNames := by
  have hobject : ∀ o, (objectSymbols m o).map (·.name) =
      o.callables.map (symbolName m.ns · (some o)) ++ [releaseName m.ns o.name] := by
    intro o
    unfold objectSymbols
    rw [List.map_append, List.map_map]
    rfl
  unfold Interface.Model.symbols Interface.Model.symbolNames
  simp only [List.map_append, List.map_map, List.map_flatMap, hobject]
  rfl

theorem mem_names {name : String} : name ∈ m.names ↔ ∃ d, (named m.definitions).lookup name = some d := by
  unfold Interface.Model.names
  rw [← named_keys]
  constructor
  · exact exists_lookup
  · rintro ⟨d, hd⟩
    exact List.mem_map_of_mem (f := (·.1)) (mem_of_lookup hd)

/-- The definitions of a model with a checker differ by name. -/
theorem Resolve.Checker.Of.names_nodup {c : Checker} (hc : c.Of m) : m.names.Nodup := by
  obtain ⟨-, hreached⟩ := hc
  induction hreached with
  | new h =>
    obtain ⟨table, htable, -⟩ := bind_eq_ok.1 h
    exact (tableOf_eq_ok.1 htable).1
  | check _ _ ih => exact ih

theorem defines_iff {t : Ty} : (named m.definitions).Defines t ↔ ∀ name ∈ t.names, name ∈ m.names :=
  forall₂_congr fun _ _ => mem_names.symm

theorem field_names_subset {d : Definition} (hd : d ∈ m.definitions) {f : Field} (hf : f ∈ d.fields) :
    f.type.names ⊆ m.typeNames := fun _ hn =>
  List.mem_append_left _ (List.mem_flatMap.2 ⟨d, hd, List.mem_flatMap.2 ⟨f, hf, hn⟩⟩)

theorem root_names_subset {p : Option Object × Callable} (hp : p ∈ m.callables) {t : Ty} (ht : t ∈ p.2.roots) :
    t.names ⊆ m.typeNames := fun _ hn =>
  List.mem_append_right _ (List.mem_flatMap.2 ⟨p, hp, List.mem_flatMap.2 ⟨t, ht, hn⟩⟩)

/-- Whatever is reached mentions names of the type that it is reached from, or names that the model uses. -/
theorem names_of_reaches {t s : Ty} (h : Reaches (named m.definitions) t s) :
    s.names ⊆ t.names ++ m.typeNames := by
  induction h with
  | refl => exact List.subset_append_left _ _
  | tail _ hu ih =>
    cases hu with
    | child hs => exact List.Subset.trans (names_of_mem_children hs) ih
    | field hd hf =>
      have hmem := (mem_named.1 (mem_of_lookup hd)).1
      exact List.Subset.trans (field_names_subset hmem hf) (List.subset_append_right _ _)

/-- The types that a model uses: those of its definitions, and those of its callables. -/
theorem mem_uses_value {t : Ty} {place : String} (h : .value t place ∈ m.uses) :
    (∃ d ∈ m.definitions, t = .named d.name) ∨ ∃ p ∈ m.callables, t ∈ p.2.roots := by
  rcases List.mem_append.1 h with h | h
  · obtain ⟨d, hd, he⟩ := List.mem_map.1 h
    exact .inl ⟨d, hd, (Use.value.inj he).1.symm⟩
  · obtain ⟨⟨owner, c⟩, hc, h⟩ := List.mem_flatMap.1 h
    refine .inr ⟨(owner, c), hc, ?_⟩
    rcases List.mem_append.1 h with h | h
    · rcases List.mem_append.1 h with h | h
      · obtain ⟨q, hq, he⟩ := List.mem_map.1 h
        exact List.mem_append_left _ (List.mem_map.2 ⟨q, hq, (Use.value.inj he).1⟩)
      · obtain ⟨s, hs, he⟩ := List.mem_map.1 h
        exact List.mem_append_right _ ((Use.value.inj he).1 ▸ hs)
    · obtain ⟨name, -, he⟩ := List.mem_map.1 h
      exact absurd he (by simp)

theorem mem_uses_thrown {name place : String} (h : .thrown name place ∈ m.uses) : name ∈ m.thrownNames := by
  rcases List.mem_append.1 h with h | h
  · obtain ⟨d, -, he⟩ := List.mem_map.1 h
    exact absurd he (by simp)
  · obtain ⟨⟨owner, c⟩, hc, h⟩ := List.mem_flatMap.1 h
    rcases List.mem_append.1 h with h | h
    · rcases List.mem_append.1 h with h | h
      · obtain ⟨q, -, he⟩ := List.mem_map.1 h
        exact absurd he (by simp)
      · obtain ⟨s, -, he⟩ := List.mem_map.1 h
        exact absurd he (by simp)
    · obtain ⟨n, hn, he⟩ := List.mem_map.1 h
      obtain ⟨rfl, -⟩ := Use.thrown.inj he
      exact List.mem_flatMap.2 ⟨(owner, c), hc, hn⟩

/-! ## Soundness -/

theorem Interface.Model.Sound.closed (h : m.Sound) : (named m.definitions).Closed :=
  fun _ _ hd _ hf => defines_iff.2 fun _ hn =>
    h.types _ (field_names_subset (mem_named.1 (mem_of_lookup hd)).1 hf hn)

theorem Interface.Model.Sound.use (h : m.Sound) {u : Use} (hu : u ∈ m.uses) : u.Sound (named m.definitions) := by
  cases u with
  | value t place =>
    refine sound_of_defines h.closed h.acyclic (defines_iff.2 fun name hn => ?_)
    rcases mem_uses_value hu with ⟨d, hd, rfl⟩ | ⟨p, hp, ht⟩
    · obtain rfl := List.mem_singleton.1 hn
      exact List.mem_map_of_mem hd
    · exact h.types name (root_names_subset hp ht hn)
  | thrown name place =>
    obtain ⟨c, hc, hname⟩ := h.throws name (mem_uses_thrown hu)
    exact ⟨c, (lookup_named h.names).2 ⟨hc, hname⟩⟩

/-- Every definition of a model that passes its check is sound. -/
theorem Interface.Model.Passes.definition (h : m.Passes) {name : String} {d : Definition}
    (hd : (named m.definitions).lookup name = some d) : Resolve.Sound (named m.definitions) (.named name) := by
  obtain ⟨hmem, rfl⟩ := mem_named.1 (mem_of_lookup hd)
  have huse : Use.value (.named d.name) d.name ∈ m.uses := List.mem_append_left _ (List.mem_map_of_mem hmem)
  exact (checked_eq_ok_iff.1 h).2 _ huse

theorem Interface.Model.Passes.closed (h : m.Passes) : (named m.definitions).Closed :=
  fun _ _ hd _ hf => ((h.definition hd).reached (.single (.field hd hf))).defines

theorem Interface.Model.Passes.roots (h : m.Passes) :
    ∀ p ∈ m.callables, ∀ t ∈ p.2.roots, (named m.definitions).Defines t :=
  fun p hp t ht => (roots_sound h p hp t ht).defines

/-- **A model is sound just when it passes its check and its symbols differ.** -/
theorem sound_iff : m.Sound ↔ m.Passes ∧ m.symbolNames.Nodup := by
  constructor
  · intro h
    exact ⟨checked_eq_ok_iff.2 ⟨h.names, fun _ hu => h.use hu⟩, h.symbols⟩
  · rintro ⟨h, hsymbols⟩
    have hnames := (checked_eq_ok_iff.1 h).1
    refine ⟨hnames, fun name hn => ?_, fun name ht => ?_, fun name hn => ?_, hsymbols⟩
    · rcases List.mem_append.1 hn with hn | hn
      · obtain ⟨d, hd, hn⟩ := List.mem_flatMap.1 hn
        obtain ⟨f, hf, hn⟩ := List.mem_flatMap.1 hn
        exact defines_iff.1 (h.closed d.name d ((lookup_named hnames).2 ⟨hd, rfl⟩) f hf) name hn
      · obtain ⟨p, hp, hn⟩ := List.mem_flatMap.1 hn
        obtain ⟨t, ht, hn⟩ := List.mem_flatMap.1 hn
        exact defines_iff.1 (h.roots p hp t ht) name hn
    · obtain ⟨next, ⟨d, hd, -⟩, -⟩ := Relation.TransGen.head'_iff.1 ht
      exact (h.definition hd).acyclic name .refl ht
    · obtain ⟨p, hp, hn⟩ := List.mem_flatMap.1 hn
      obtain ⟨c, hc⟩ := (callables_sound h p hp).throws name (Option.mem_toList.1 hn)
      exact ⟨c, mem_named.1 (mem_of_lookup hc)⟩

/-! ## Failures -/

/-- What is said of a use is true of the model. -/
theorem justified_of_faulted {u : Use} {e : Failure} (hu : u ∈ g.model.uses)
    (h : u.Faulted (named g.model.definitions) e) : g.Justified e := by
  have habsent : ∀ name, (named g.model.definitions).lookup name = none → name ∉ g.model.names := by
    intro name hl hn
    obtain ⟨d, hd⟩ := mem_names.1 hn
    exact absurd (hl.symm.trans hd) (by simp)
  cases h with
  | value hb =>
    cases hb with
    | recursive hc => exact .recursive hc
    | @unresolved name context hl hr =>
      refine .unresolved (List.mem_append_left _ ?_) (habsent name hl)
      rcases List.mem_append.1 (names_of_reaches hr List.mem_cons_self) with hn | hn
      · rcases mem_uses_value hu with ⟨d, hd, rfl⟩ | ⟨p, hp, ht⟩
        · obtain rfl := List.mem_singleton.1 hn
          exact absurd (List.mem_map_of_mem hd) (habsent _ hl)
        · exact root_names_subset hp ht hn
      · exact hn
  | @missing name place hl =>
    exact .unresolved (List.mem_append_right _ (mem_uses_thrown hu)) (habsent name hl)
  | unfit hl hk =>
    obtain ⟨hd, hn⟩ := mem_named.1 (mem_of_lookup hl)
    exact .notAnError (mem_uses_thrown hu) hd hn hk

theorem justified_of_derived {e : Failure} (h : g.model.derived = .error e) : g.Justified e := by
  rcases derived_eq_error h with h | ⟨name, rfl, hname⟩
  · rcases checked_eq_error h with ⟨name, rfl, hname⟩ | ⟨u, hu, hf⟩
    · exact .duplicateType hname
    · exact justified_of_faulted hu hf
  · exact .duplicateSymbol (symbols_map_name g.model ▸ hname)

/-! ## Backends -/

theorem ofText?_text (b : Backend) : Backend.ofText? b.text = some b := by
  cases b <;> decide

theorem text_of_ofText? {name : String} {b : Backend} (h : Backend.ofText? name = some b) : b.text = name := by
  simpa using List.find?_some h

theorem ofText?_eq_none {name : String} : Backend.ofText? name = none ↔ ∀ b : Backend, b.text ≠ name := by
  unfold Backend.ofText?
  rw [List.find?_eq_none]
  constructor
  · intro h b
    have hb : b ∈ Backend.all := by cases b <;> decide
    simpa using h b hb
  · intro h b _
    simpa using h b

theorem backendNames_eq {s : Settings} {names : List String} (h : s.backends = .array (names.map .string)) :
    s.backendNames = .ok names := by
  have hstrings : (names.map JsonOf.string).mapM JsonOf.string? = some names := by
    clear h
    induction names with
    | nil => rfl
    | cons name names ih =>
      rw [List.map_cons, List.mapM_cons, ih]
      rfl
  unfold Settings.backendNames Settings.itemsOf?
  rw [h]
  simp only [Option.bind_some, hstrings]

/-- The backends of a generation are those that are named, unless one is unknown. -/
theorem backends_cases {names : List String} (hn : g.settings.backendNames = .ok names) :
    (∃ backends : List Backend, g.backends = .ok backends ∧ names = backends.map (·.text)) ∨
      ∃ e, g.backends = .error e ∧ g.Justified e ∧ ¬ g.settings.KnowsBackends := by
  unfold Generation.backends
  rw [hn, bind_ok]
  cases hu : names.filter fun name => (Backend.ofText? name).isNone with
  | nil =>
    refine .inl ⟨_, rfl, ?_⟩
    clear hn
    induction names with
    | nil => rfl
    | cons name names ih =>
      cases hb : Backend.ofText? name with
      | none => exact absurd hu (by simp [hb])
      | some b =>
        rw [List.filter_cons, hb] at hu
        rw [List.filterMap_cons, hb, List.map_cons, text_of_ofText? hb, ← ih hu]
  | cons first rest =>
    have hmem : ∀ name, name ∈ first :: rest ↔ name ∈ names ∧ ∀ b : Backend, b.text ≠ name := by
      intro name
      rw [← hu, List.mem_filter, Option.isNone_iff_eq_none, ofText?_eq_none]
    refine .inr ⟨_, rfl, .unknownBackends hn hmem (List.cons_ne_nil _ _), ?_⟩
    rintro ⟨backends, hb⟩
    obtain rfl := Except.ok.inj (hn.symm.trans hb)
    obtain ⟨hfirst, hunknown⟩ := (hmem first).1 List.mem_cons_self
    obtain ⟨b, -, he⟩ := List.mem_map.1 hfirst
    exact hunknown b he

/-! ## Rendering -/

/-- The outcome of a derivation in a generation of which no step was taken. -/
theorem fresh_derive (g : Generation) : Generation.fresh Generation.derive g = g.model.derived := by
  obtain ⟨p', hderive, -⟩ := derive_apply (g := g) (p := .start .empty) (.inl rfl)
  exact congrArg Prod.fst hderive

/-- The outcome of rendering in a generation of which no step was taken. -/
theorem fresh_render (g : Generation) : Generation.fresh Generation.render g = g.rendered := by
  obtain ⟨p', hrender, -⟩ := render_apply (g := g) (p := .start .empty) (.inl rfl)
  exact congrArg Prod.fst hrender

/-- What comes of rendering for some backends: what the backends generate if all of them are known and the model is
sound, and a justified failure otherwise. -/
theorem rendered_outcome {names : List String} (hn : g.settings.backendNames = .ok names) :
    (g.settings.KnowsBackends ∧ g.model.Sound ∧ ∃ backends : List Backend, names = backends.map (·.text) ∧
      g.rendered = renderFiles g.surface [] backends) ∨
    ∃ e, g.rendered = .error e ∧ g.Justified e ∧ ¬ (g.settings.KnowsBackends ∧ g.model.Sound) := by
  unfold Generation.rendered
  obtain ⟨named, hb, rfl⟩ | ⟨e, hb, hj, hknown⟩ := backends_cases hn
  · rw [hb, bind_ok]
    cases hderived : g.model.derived with
    | error e =>
      refine .inr ⟨e, rfl, justified_of_derived hderived, fun h => ?_⟩
      obtain ⟨hpasses, hsymbols⟩ := sound_iff.1 h.2
      have hok := derived_of_nodup hpasses (symbols_map_name g.model ▸ hsymbols)
      exact absurd (hderived.symm.trans hok) (by simp)
    | ok symbols =>
      obtain ⟨hpasses, rfl, hsymbols⟩ := derived_eq_ok hderived
      exact .inl ⟨⟨named, hn⟩, sound_iff.2 ⟨hpasses, symbols_map_name g.model ▸ hsymbols⟩, named, rfl, rfl⟩
  · rw [hb]
    exact .inr ⟨e, rfl, hj, fun h => hknown h.1⟩

theorem text_mem_iff {backends : List Backend} {b : Backend} : b.text ∈ backends.map (·.text) ↔ b ∈ backends := by
  rw [List.mem_map]
  constructor
  · rintro ⟨b', h, he⟩
    have hsame := congrArg Backend.ofText? he
    rw [ofText?_text, ofText?_text] at hsame
    exact Option.some.inj hsame ▸ h
  · exact fun h => ⟨b, h, rfl⟩

/-- What comes of rendering under settings of the right form: the files of sound models for known backends. -/
theorem rendered_cases (ht : g.settings.WellTyped) (hs : g.spelling = .full) :
    (∃ names backends outputs, g.settings.backendNames = .ok names ∧ g.rendered = .ok outputs ∧
      g.settings.KnowsBackends ∧ g.model.Sound ∧ OneEach g.surface backends outputs ∧
      ∀ b : Backend, b ∈ backends ↔ b.text ∈ names) ∨
    ∃ e, g.rendered = .error e ∧ g.Justified e ∧ ¬ (g.settings.KnowsBackends ∧ g.model.Sound) := by
  obtain ⟨names, hnames⟩ := ht.backends
  have hn := backendNames_eq hnames
  obtain ⟨hknown, hsound, named, rfl, hr⟩ | h := rendered_outcome hn
  · obtain ⟨backends, outputs, hrender, hone, hmem⟩ := renderFiles_eq_ok (s := g.surface) hs ht named (.nil _)
    refine .inl ⟨_, backends, outputs, hn, hr.trans hrender, hknown, hsound, hone, fun b => ?_⟩
    rw [hmem b, text_mem_iff]
    simp
  · exact .inr h

theorem wellTyped_default : Settings.default.WellTyped :=
  ⟨⟨_, rfl⟩, rfl, fun v h => absurd (Except.ok.inj h).symm (Option.some_ne_none v),
    fun v h => absurd (Except.ok.inj h).symm (Option.some_ne_none v)⟩

/-- A model is accepted: files are rendered for it. -/
def Interface.Model.Accepted (m : Model) : Prop :=
  ∃ outputs, Generation.fresh Generation.render (.ofModel m .default .full) = .ok outputs

theorem accepted_iff : m.Accepted ↔ m.Sound := by
  have hknown : Settings.default.KnowsBackends := ⟨Backend.all, rfl⟩
  unfold Interface.Model.Accepted
  rw [fresh_render]
  obtain ⟨_, _, outputs, _, hr, _, hsound, _, _⟩ | ⟨e, hr, _, hnot⟩ :=
    rendered_cases (g := .ofModel m .default .full) wellTyped_default rfl
  · exact ⟨fun _ => hsound, fun _ => ⟨outputs, hr⟩⟩
  · exact ⟨fun ⟨_, h⟩ => absurd (hr.symm.trans h) (by simp), fun h => absurd ⟨hknown, h⟩ hnot⟩

theorem ofModel_settings (m : Model) (settings : Settings) (spelling : Spelling) :
    (Generation.ofModel m settings spelling).settings = settings := by
  unfold Generation.ofModel
  split <;> rfl

theorem ofModel_spelling (m : Model) (settings : Settings) (spelling : Spelling) :
    (Generation.ofModel m settings spelling).spelling = spelling := by
  unfold Generation.ofModel
  split <;> rfl

/-- **Exactly the sound models are accepted.** Under settings of the right form, rendering by a generation of
which no step was taken gives files just when every configured backend is known and the model, under its
namespace, is sound. There is one file for each configured backend then, however often it is named, and nothing
that a backend looks up is missing. Otherwise a condition is reported that really fails. -/
theorem render_decides (m : Model) (settings : Settings) (ht : settings.WellTyped) :
    let g := Generation.ofModel m settings .full
    ((∃ outputs, Generation.fresh Generation.render g = .ok outputs) ↔
      settings.KnowsBackends ∧ g.model.Sound) ∧
    (∀ outputs, Generation.fresh Generation.render g = .ok outputs → g.surface.Complete ∧
      ∃ names backends, settings.backendNames = .ok names ∧ (∀ b : Backend, b ∈ backends ↔ b.text ∈ names) ∧
        OneEach g.surface backends outputs) ∧
    ∀ e, Generation.fresh Generation.render g = .error e → g.Justified e := by
  intro g
  have hsettings : g.settings = settings := ofModel_settings m settings .full
  have hspelling : g.spelling = .full := ofModel_spelling m settings .full
  rw [fresh_render, ← hsettings]
  obtain ⟨names, backends, outputs, hn, hr, hknown, hsound, hone, hmem⟩ | ⟨e, hr, hj, hnot⟩ :=
    rendered_cases (hsettings ▸ ht) hspelling
  · rw [hr]
    refine ⟨⟨fun _ => ⟨hknown, hsound⟩, fun _ => ⟨outputs, rfl⟩⟩, fun outputs' h => ?_, fun e h => ?_⟩
    · obtain rfl := Except.ok.inj h
      exact ⟨complete_surface (sound_iff.1 hsound).1.roots, names, backends, hn, hmem, hone⟩
    · exact absurd h (by simp)
  · rw [hr]
    refine ⟨⟨fun ⟨_, h⟩ => absurd h (by simp), fun h => absurd h hnot⟩, fun outputs' h => ?_, fun e' h => ?_⟩
    · exact absurd h (by simp)
    · exact Except.error.inj h ▸ hj

/-- A shop with a function that throws, and the orders that it takes. -/
def shopModel : Model where
  ns := "shop"
  records := [⟨"Item", [⟨"name", .string⟩, ⟨"parts", .sequence (.box (.named "Item"))⟩]⟩]
  enums := []
  errors := [⟨"Refusal", [⟨"SoldOut", [⟨"item", .named "Item"⟩]⟩]⟩]
  objects := [⟨"Order", [⟨.constructor, "new", [], none, none⟩],
    [⟨.method, "add", [⟨"item", .named "Item", true⟩], none, some "Refusal"⟩], Eq.refl true, Eq.refl true⟩]
  functions := [⟨.function, "find", [⟨"name", .string, false⟩], some (.optional (.named "Item")), some "Refusal"⟩]

/-- Settings that name a backend twice and set an option. -/
def shopSettings : Settings :=
  { Settings.default with
    backends := .array (["python", "c", "python"].map .string)
    bindings := .object [("c", .object [("api_macro", .string "SHOP_API")])] }

/-- Two files are rendered for the shop. -/
theorem render_decides_shop : shopSettings.WellTyped ∧ ∃ outputs,
    Generation.fresh Generation.render (.ofModel shopModel shopSettings .full) = .ok outputs ∧
      outputs.length = 2 := by
  have ht : shopSettings.WellTyped := by
    refine ⟨⟨_, rfl⟩, by decide, fun v h => ?_, fun v h => ?_⟩
    · exact ⟨_, (Option.some.inj (Except.ok.inj h)).symm⟩
    · exact absurd (Except.ok.inj h).symm (Option.some_ne_none v)
  have hpasses : shopModel.Passes := passes_of_isOk (by decide +kernel)
  have hknown : shopSettings.KnowsBackends := ⟨[.python, .c, .python], by decide⟩
  obtain ⟨hiff, hfiles, -⟩ := render_decides shopModel shopSettings ht
  obtain ⟨outputs, houtputs⟩ := hiff.2 ⟨hknown, sound_iff.2 ⟨hpasses, by decide⟩⟩
  obtain ⟨-, names, backends, hnames, hmem, hone⟩ := hfiles outputs houtputs
  obtain rfl := Except.ok.inj (hnames.symm.trans (rfl : _ = Except.ok ["python", "c", "python"]))
  have hperm : backends.Perm [.python, .c] := by
    refine (List.perm_ext_iff_of_nodup hone.nodup (by decide)).2 fun b => (hmem b).trans ?_
    cases b <;> decide
  exact ⟨ht, outputs, houtputs, hone.files.length_eq.symm.trans hperm.length_eq⟩

end Bindgen
