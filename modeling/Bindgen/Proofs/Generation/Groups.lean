import Bindgen.Proofs.Generation.Acceptance

/-!
# One symbol for each callable

A model is traversed twice: `Model.callables` lists what can be called, and the derivation goes through functions
and objects by itself, with support functions in front and a release behind each object. Backends then look for
the symbols of an owner by its name. Here the three are brought together. `Model.Derives` says which symbol is a
callable's, and `Surface.Lists` what there is among the symbols of a model and in which order, in terms of the
groups that backends see.

The groups are filters over all symbols, so each is found part by part: the support functions, the functions, and
the symbols of each object, which are in no group of an object with another name. Definitions of a model with a
checker differ by name, so that one part is left.

Results:
* `SameInterface.form_eq`: the form of a signature depends on no name.
* `lists_derived`: what is derived lists the exports of the model, whatever was checked before; and callables with
  the same interface get signatures of the same form.
-/

namespace Bindgen

open Interface Boundary Resolve Emit

/-! ## What is exported -/

/-- A type is mapped to a shape by every checker of the model. -/
def Interface.Model.MapsTo (m : Model) (t : Ty) (shape : Shape) : Prop :=
  ∀ c : Checker, c.Of m → ∀ context, ∃ c', c.map t context = .ok (shape, c')

/-- The argument of a parameter, which takes over what is consumed. -/
structure Interface.Model.ArgumentFor (m : Model) (p : Param) (a : Argument) : Prop where
  name : a.name = p.name
  shape : m.MapsTo p.type a.shape
  ownership : a.ownership = if p.consumed then .transferred else .borrowed

/-- **The symbol of a callable** of an owner: the receiver of a method, then one argument for each parameter, then
the error record of what throws. -/
structure Interface.Model.Derives (m : Model) (entry : Option Object × Callable) (f : Signature) : Prop where
  source : f.source = some entry.2
  owner : f.owner = entry.1
  name : f.name = symbolName m.ns entry.2 entry.1
  error : f.error = entry.2.throws
  arguments : ∃ params, f.arguments = receiverArgument entry.2 ++ params ++ errorArgument entry.2 ∧
    List.Forall₂ m.ArgumentFor entry.2.params params
  constructed : entry.2.kind = .constructor → f.returns = some .handle
  returned : entry.2.kind ≠ .constructor → Option.Rel m.MapsTo entry.2.returns f.returns

/-- **A surface lists the exports of a model**, in the groups that backends see. -/
structure Emit.Surface.Lists (s : Surface) (m : Model) : Prop where
  /-- Support functions, then functions, then for each object what can be called on it, and its release. -/
  order : s.symbols = supportFunctions m.ns ++ s.functions ++
    m.objects.flatMap fun o => s.objectFunctions o ++ (s.release? o).toList
  /-- All that can be called, in order. -/
  callables : List.Forall₂ m.Derives m.callables (s.symbols.filter (·.source.isSome))
  functions : List.Forall₂ m.Derives (m.functions.map (none, ·)) s.functions
  methods : ∀ o ∈ m.objects, List.Forall₂ m.Derives (o.callables.map (some o, ·)) (s.objectFunctions o)
  releases : ∀ o ∈ m.objects, s.release? o = some (deriveRelease m.ns o)
  distinct : (s.symbols.map (·.name)).Nodup

/-- Two callables, perhaps of two models, **have the same interface** but for names: the same kind, types, results
and consumed parameters, and both throw or none does. A name in the types has to stand for an object in both models
or in none. -/
structure SameInterface (m m' : Model) (c c' : Callable) : Prop where
  kind : c.kind = c'.kind
  params : c.params.map (fun p => (p.type, p.consumed)) = c'.params.map fun p => (p.type, p.consumed)
  returns : c.returns = c'.returns
  throws : c.throws.isSome = c'.throws.isSome
  objects : ∀ t ∈ c.roots, ∀ name ∈ t.names,
    (named m.definitions).isObject name = (named m'.definitions).isObject name

variable {m : Model} {c c' : Checker} {symbols : List Signature}

/-! ## What is derived -/

/-- What is derived from a model are its symbols, which differ by name. -/
theorem deriveAll_ok (hc : c.Of m) (h : deriveAll c = .ok (symbols, c')) :
    symbols = m.symbols ∧ (m.symbols.map (·.name)).Nodup ∧
      ∀ p ∈ m.callables, p.2.Sound (named m.definitions) := by
  obtain ⟨⟨derived, last⟩, hsymbols, h⟩ := bind_eq_ok.1 h
  have hsound := deriveSymbols_sound hc hsymbols
  obtain ⟨c'', hall, -⟩ := deriveSymbols_eq hc hsound
  obtain ⟨rfl, rfl⟩ := Prod.mk.inj (Except.ok.inj (hsymbols.symm.trans hall))
  cases hrepeated : (distinctSymbols [] m.symbols).2 with
  | some name =>
    simp only [hrepeated] at h
    exact absurd h (by simp [throw, throwThe, MonadExceptOf.throw])
  | none =>
    simp only [hrepeated] at h
    exact ⟨(Prod.mk.inj (pure_eq_ok.1 h)).1.symm, (distinctSymbols_eq_none.1 hrepeated).1, hsound⟩

/-- Sound callables whose symbols differ by name are derived. -/
theorem deriveAll_eq (hc : c.Of m) (hsound : ∀ p ∈ m.callables, p.2.Sound (named m.definitions))
    (hn : (m.symbols.map (·.name)).Nodup) : ∃ c', deriveAll c = .ok (m.symbols, c') := by
  obtain ⟨c', hsymbols, -⟩ := deriveSymbols_eq hc hsound
  refine ⟨c', ?_⟩
  unfold deriveAll
  simp only [hsymbols, bind_ok, distinctSymbols_eq_none.2 ⟨hn, fun _ _ => List.not_mem_nil⟩]
  rfl

/-- A sound model is derived from its checker. -/
theorem Interface.Model.Sound.derives (h : m.Sound) :
    ∃ c c' : Checker, c.Of m ∧ deriveAll c = .ok (m.symbols, c') := by
  obtain ⟨⟨c, hc⟩, hn⟩ := sound_iff.1 h
  obtain ⟨c', hall⟩ := deriveAll_eq (checked_ok hc) (callables_sound ⟨c, hc⟩) (symbols_map_name m ▸ hn)
  exact ⟨c, c', checked_ok hc, hall⟩

theorem mapsTo_of_sound {t : Ty} (ht : Resolve.Sound (named m.definitions) t) :
    m.MapsTo t ((named m.definitions).shapeOf t) := by
  intro c hc context
  obtain ⟨c', hmap, -⟩ := map_eq hc ht context
  exact ⟨c', hmap⟩

theorem derives_signatureOf {f : Callable} (owner : Option Object) (hf : f.Sound (named m.definitions)) :
    m.Derives (owner, f) (signatureOf m owner f) where
  source := rfl
  owner := rfl
  name := rfl
  error := rfl
  arguments := by
    refine ⟨_, rfl, List.forall₂_map_right_iff.2 (List.forall₂_same.2 fun p hp => ?_)⟩
    exact ⟨rfl, mapsTo_of_sound (hf.params p hp), rfl⟩
  constructed := fun hkind => if_pos hkind
  returned := by
    intro hkind
    show Option.Rel m.MapsTo f.returns (resultOf (named m.definitions) f)
    unfold resultOf
    rw [if_neg hkind]
    cases hreturns : f.returns with
    | none => exact .none
    | some t => exact .some (mapsTo_of_sound (hf.returns hkind t hreturns))

theorem forall₂_signatureOf {owner : Option Object} {fs : List Callable}
    (h : ∀ f ∈ fs, f.Sound (named m.definitions)) :
    List.Forall₂ m.Derives (fs.map (owner, ·)) (fs.map (signatureOf m owner)) := by
  rw [List.forall₂_map_left_iff, List.forall₂_map_right_iff, List.forall₂_same]
  exact fun f hf => derives_signatureOf owner (h f hf)

/-! ## Groups -/

section Groups

variable {p : Signature → Bool}

/-- A group is found part by part. -/
theorem filter_symbols (p : Signature → Bool) : m.symbols.filter p =
    (supportFunctions m.ns).filter p ++ (m.functions.map (signatureOf m none)).filter p ++
      m.objects.flatMap fun o => (objectSymbols m o).filter p := by
  unfold Interface.Model.symbols
  rw [List.filter_append, List.filter_append, List.filter_flatMap]

theorem filter_objectSymbols (p : Signature → Bool) (o : Object) : (objectSymbols m o).filter p =
    (o.callables.map (signatureOf m (some o))).filter p ++ [deriveRelease m.ns o].filter p := by
  unfold objectSymbols
  rw [List.filter_append]

/-- Of the callables of one owner, all are in a group or none. -/
theorem filter_signatureOf {owner : Option Object} {b : Bool} (h : ∀ f, p (signatureOf m owner f) = b)
    (fs : List Callable) : (fs.map (signatureOf m owner)).filter p =
      if b then fs.map (signatureOf m owner) else [] := by
  cases b with
  | true =>
    rw [if_pos rfl, List.filter_eq_self]
    exact List.forall_mem_map.2 fun f _ => h f
  | false =>
    rw [if_neg Bool.false_ne_true, List.filter_eq_nil_iff]
    exact List.forall_mem_map.2 fun f _ => Bool.not_eq_true _ ▸ h f

theorem objects_nodup (hn : m.names.Nodup) : (m.objects.map (·.name)).Nodup := by
  have hsub : (m.objects.map Definition.object).Sublist m.definitions := List.sublist_append_right _ _
  have hnames := hn.sublist (hsub.map Definition.name)
  rwa [List.map_map] at hnames

variable {s : Surface} (hs : s.symbols = m.symbols)
include hs

theorem functions_eq : s.functions = m.functions.map (signatureOf m none) := by
  unfold Surface.functions
  rw [hs, filter_symbols, filter_signatureOf (b := true) fun f => rfl]
  have hobject : ∀ o, (objectSymbols m o).filter (fun f => f.source.isSome && f.owner.isNone) = [] := by
    intro o
    rw [filter_objectSymbols, filter_signatureOf (b := false) fun f => rfl]
    rfl
  simp only [hobject]
  rw [List.flatMap_eq_nil_iff.2 fun _ _ => rfl, List.append_nil]
  rfl

theorem objectFunctions_eq (hn : m.names.Nodup) {o : Object} (ho : o ∈ m.objects) :
    s.objectFunctions o = o.callables.map (signatureOf m (some o)) := by
  unfold Surface.objectFunctions
  rw [hs, filter_symbols, filter_signatureOf (b := false) fun f => rfl]
  have hobject : ∀ o', (objectSymbols m o').filter (fun f => f.source.isSome && f.owner.any (·.name == o.name)) =
      if o'.name == o.name then o'.callables.map (signatureOf m (some o')) else [] := by
    intro o'
    rw [filter_objectSymbols, filter_signatureOf (b := o'.name == o.name) fun f => rfl]
    exact List.append_nil _
  simp only [hobject]
  rw [flatMap_eq_of_mem (objects_nodup hn) ho fun o' hne => if_neg (by simpa using hne)]
  simp [supportFunctions]

theorem release?_eq_some (hn : m.names.Nodup) {o : Object} (ho : o ∈ m.objects) :
    s.release? o = some (deriveRelease m.ns o) := by
  unfold Surface.release?
  rw [hs, ← List.head?_filter, filter_symbols, filter_signatureOf (b := false) fun f => rfl]
  have hobject : ∀ o', (objectSymbols m o').filter (fun f => f.source.isNone && f.owner.any (·.name == o.name)) =
      if o'.name == o.name then [deriveRelease m.ns o'] else [] := by
    intro o'
    rw [filter_objectSymbols, filter_signatureOf (b := false) fun f => rfl]
    cases hname : o'.name == o.name <;> simp [deriveRelease, hname]
  simp only [hobject]
  rw [flatMap_eq_of_mem (objects_nodup hn) ho fun o' hne => if_neg (by simpa using hne)]
  simp [supportFunctions]

/-- What has a callable, in the order of the callables. -/
theorem filter_source_eq : s.symbols.filter (·.source.isSome) =
    m.functions.map (signatureOf m none) ++ m.objects.flatMap fun o => o.callables.map (signatureOf m (some o)) := by
  have hobject : ∀ o, (objectSymbols m o).filter (·.source.isSome) = o.callables.map (signatureOf m (some o)) := by
    intro o
    rw [filter_objectSymbols, filter_signatureOf (b := true) fun f => rfl]
    exact List.append_nil _
  rw [hs, filter_symbols, filter_signatureOf (b := true) fun f => rfl]
  simp only [hobject]
  rfl

/-- The symbols of a model list its exports. -/
theorem lists_of_symbols (hn : m.names.Nodup) (hd : (m.symbols.map (·.name)).Nodup)
    (hsound : ∀ p ∈ m.callables, p.2.Sound (named m.definitions)) : s.Lists m := by
  have hfunctions : List.Forall₂ m.Derives (m.functions.map (none, ·)) (m.functions.map (signatureOf m none)) :=
    forall₂_signatureOf fun f hf => hsound (none, f) (List.mem_append_left _ (List.mem_map_of_mem hf))
  have hmethods : ∀ o ∈ m.objects, List.Forall₂ m.Derives (o.callables.map (some o, ·))
      (o.callables.map (signatureOf m (some o))) := fun o ho => forall₂_signatureOf fun f hf =>
    hsound (some o, f) (List.mem_append_right _ (List.mem_flatMap.2 ⟨o, ho, List.mem_map_of_mem hf⟩))
  refine ⟨?_, ?_, functions_eq hs ▸ hfunctions, fun o ho => ?_, fun o ho => release?_eq_some hs hn ho, hs ▸ hd⟩
  · have hparts : m.objects.flatMap (objectSymbols m) =
        m.objects.flatMap fun o => s.objectFunctions o ++ (s.release? o).toList := by
      refine List.flatMap_congr fun o ho => ?_
      rw [objectFunctions_eq hs hn ho, release?_eq_some hs hn ho]
      rfl
    rw [functions_eq hs, ← hparts]
    exact hs
  · rw [filter_source_eq hs]
    refine List.rel_append hfunctions ?_
    refine List.rel_flatMap (R := fun o o' => o = o' ∧ o ∈ m.objects) ?_ ?_
    · exact List.forall₂_same.2 fun o ho => ⟨rfl, ho⟩
    · rintro o _ ⟨rfl, ho⟩
      exact hmethods o ho
  · rw [objectFunctions_eq hs hn ho]
    exact hmethods o ho

end Groups

/-! ## Forms -/

/-- The shape of a type depends on the names in it only by whether they stand for objects. -/
theorem shapeOf_congr {table table' : Table} {t : Ty}
    (h : ∀ name ∈ t.names, table.isObject name = table'.isObject name) : table.shapeOf t = table'.shapeOf t := by
  induction t with
  | named name =>
    unfold Table.shapeOf
    rw [h name List.mem_cons_self]
  | box t ih => exact ih h
  | _ => rfl

/-- **Callables with the same interface have signatures of the same form**, whatever they and their owners are
called. -/
theorem SameInterface.form_eq {m m' : Model} {owner owner' : Option Object} {f f' : Callable}
    (h : SameInterface m m' f f') : (signatureOf m owner f).form = (signatureOf m' owner' f').form := by
  have hparams : (f.params.map (argumentOf (named m.definitions))).map (fun a => (a.shape, a.ownership)) =
      (f'.params.map (argumentOf (named m'.definitions))).map fun a => (a.shape, a.ownership) := by
    let value (table : Table) (x : Ty × Bool) : Shape × Ownership :=
      (table.shapeOf x.1, if x.2 then .transferred else .borrowed)
    calc (f.params.map (argumentOf (named m.definitions))).map (fun a => (a.shape, a.ownership))
        = (f.params.map fun p => (p.type, p.consumed)).map (value (named m.definitions)) := by
          rw [List.map_map, List.map_map]
          rfl
      _ = (f.params.map fun p => (p.type, p.consumed)).map (value (named m'.definitions)) := by
          refine List.map_congr_left fun x hx => ?_
          obtain ⟨p, hp, rfl⟩ := List.mem_map.1 hx
          have ht : p.type ∈ f.roots := List.mem_append_left _ (List.mem_map_of_mem hp)
          exact congrArg (·, _) (shapeOf_congr (h.objects p.type ht))
      _ = (f'.params.map (argumentOf (named m'.definitions))).map (fun a => (a.shape, a.ownership)) := by
          rw [h.params, List.map_map, List.map_map]
          rfl
  have hreceiver : receiverArgument f = receiverArgument f' := by
    unfold receiverArgument
    rw [h.kind]
  have herror : errorArgument f = errorArgument f' := by
    have hthrows := h.throws
    unfold errorArgument
    cases hf : f.throws <;> cases hf' : f'.throws <;> simp [hf, hf'] at hthrows ⊢
  have hresult : resultOf (named m.definitions) f = resultOf (named m'.definitions) f' := by
    unfold resultOf
    rw [h.kind, ← h.returns]
    refine if_congr Iff.rfl rfl (Option.map_congr fun t ht => shapeOf_congr (h.objects t ?_))
    exact List.mem_append_right _ (Option.mem_toList.2 ht)
  unfold Signature.form signatureOf
  simp only [List.map_append, hparams, hreceiver, herror, hresult]

/-! ## What is derived -/

/-- **Derivation gives one symbol for each callable, in order.** Whatever the checker has checked before, what is
derived lists the exports of the model: the support functions, then the callables with a release behind each object,
in the groups in which backends find them again. Callables with the same interface have signatures of the same
form, also where the models differ. -/
theorem lists_derived (hc : c.Of m) (h : deriveAll c = .ok (symbols, c')) :
    (∀ s : Surface, s.symbols = symbols → s.Lists m) ∧
    ∀ (m₂ : Model) (c₂ c₂' : Checker) (symbols₂ : List Signature), c₂.Of m₂ → deriveAll c₂ = .ok (symbols₂, c₂') →
      ∀ f ∈ symbols, ∀ f₂ ∈ symbols₂, ∀ g g₂, f.source = some g → f₂.source = some g₂ →
        SameInterface m m₂ g g₂ → f.form = f₂.form := by
  obtain ⟨rfl, hdistinct, hsound⟩ := deriveAll_ok hc h
  refine ⟨fun s hs => lists_of_symbols hs hc.names_nodup hdistinct hsound, ?_⟩
  intro m₂ c₂ c₂' symbols₂ hc₂ h₂ f hf f₂ hf₂ g g₂ hg hg₂ hsame
  obtain ⟨rfl, -, -⟩ := deriveAll_ok hc₂ h₂
  obtain ⟨owner, rfl⟩ := eq_signatureOf hf hg
  obtain ⟨owner₂, rfl⟩ := eq_signatureOf hf₂ hg₂
  exact hsame.form_eq

/-- The shop of another namespace, where things are found by handing over the name. -/
def marketModel : Model :=
  { shopModel with
    ns := "market"
    functions := [
      ⟨.function, "look_up", [⟨"key", .string, false⟩], some (.optional (.named "Item")), some "Refusal"⟩]
    onlyFunctions := Eq.refl true }

/-- What finds an item in the shop has the form of what looks one up in the market. -/
theorem lists_derived_shop : ∃ c c' c₂ c₂' : Checker, ∃ symbols symbols₂ : List Signature,
    (c.Of shopModel ∧ deriveAll c = .ok (symbols, c')) ∧ (c₂.Of marketModel ∧ deriveAll c₂ = .ok (symbols₂, c₂')) ∧
      (∀ s : Surface, s.symbols = symbols → s.Lists shopModel) ∧
      symbols.map (·.name) = ["ffi_shop_buffer_alloc", "ffi_shop_buffer_from_bytes", "ffi_shop_buffer_free",
        "shop_fn_find", "shop_Order_new", "shop_Order_add", "shop_Order_free"] ∧
      symbols[3]?.map (·.form) = symbols₂[3]?.map (·.form) := by
  have hshop : shopModel.Sound := sound_iff.2 ⟨passes_of_isOk (by decide +kernel), by decide⟩
  have hmarket : marketModel.Sound := sound_iff.2 ⟨passes_of_isOk (by decide +kernel), by decide⟩
  obtain ⟨c, c', hc, h⟩ := hshop.derives
  obtain ⟨c₂, c₂', hc₂, h₂⟩ := hmarket.derives
  obtain ⟨hlists, hforms⟩ := lists_derived hc h
  refine ⟨c, c', c₂, c₂', _, _, ⟨hc, h⟩, ⟨hc₂, h₂⟩, hlists, by decide, congrArg some ?_⟩
  refine hforms marketModel c₂ c₂' _ hc₂ h₂ _ (List.mem_of_getElem? (i := 3) rfl) _
    (List.mem_of_getElem? (i := 3) rfl) _ _ rfl rfl ⟨rfl, rfl, rfl, rfl, fun _ _ _ _ => rfl⟩

end Bindgen
