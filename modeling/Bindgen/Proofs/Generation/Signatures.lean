import Bindgen.Derive
import Bindgen.Proofs.Outcome
import Bindgen.Proofs.Resolve.Check
import Bindgen.Proofs.Resolve.Defined

/-!
# The symbols of a model

`Model.symbols` lists the exported symbols of a model without a checker: the support functions, the functions,
and for each object its callables with the release symbol after them. Where all types that the callables use
are sound, this is what is derived, whatever the checker has checked before (`deriveSymbols_eq`), so that
deriving twice gives the same symbols. Nothing is derived where one of them is not (`deriveSymbols_sound`).
-/

namespace Bindgen

open Interface Boundary Resolve

/-- The argument for a parameter. -/
def argumentOf (table : Table) (p : Param) : Argument :=
  ⟨p.name, table.shapeOf p.type, if p.consumed then .transferred else .borrowed⟩

/-- The result of a callable: constructors give a handle. -/
def resultOf (table : Table) (c : Callable) : Option Shape :=
  if c.kind = .constructor then some .handle else c.returns.map table.shapeOf

/-- The error record argument of a callable, if it throws. -/
def errorArgument (c : Callable) : List Argument :=
  c.throws.toList.map fun _ => ⟨errorOutName, .errorRecord, .callerOwned⟩

/-- The symbol of a callable. -/
def signatureOf (m : Model) (owner : Option Object) (c : Callable) : Signature :=
  ⟨symbolName m.ns c owner,
    receiverArgument c ++ c.params.map (argumentOf (named m.definitions)) ++ errorArgument c,
    resultOf (named m.definitions) c, c.throws, some c, owner⟩

/-- The symbols of an object: those of its callables, and the one that releases it. -/
def objectSymbols (m : Model) (o : Object) : List Signature :=
  o.callables.map (signatureOf m (some o)) ++ [deriveRelease m.ns o]

/-- The exported symbols of a model, in order. -/
def Interface.Model.symbols (m : Model) : List Signature :=
  supportFunctions m.ns ++ m.functions.map (signatureOf m none) ++ m.objects.flatMap (objectSymbols m)

/-- **What a callable uses is sound**: the types of its parameters and its result, which is always a handle for
a constructor, and what it throws is an error. -/
structure Interface.Callable.Sound (table : Table) (c : Callable) : Prop where
  params : ∀ p ∈ c.params, Resolve.Sound table p.type
  returns : c.kind ≠ .constructor → ∀ t ∈ c.returns, Resolve.Sound table t
  throws : ∀ name ∈ c.throws, ∃ e, table.lookup name = some (.error e)

/-- A checker of a model, whatever it has checked. -/
structure Resolve.Checker.Of (m : Model) (c : Checker) : Prop where
  model : c.model = m
  reached : Checker.Reached m c

variable {m : Model} {c : Checker}

/-- The callable behind a symbol of a model is one of the model's, and the symbol is that of the callable. -/
theorem callable_of_source {f : Signature} (hf : f ∈ m.symbols) {c : Callable} (hc : f.source = some c) :
    ∃ owner, (owner, c) ∈ m.callables ∧ f = signatureOf m owner c := by
  have hsupport : ∀ x ∈ supportFunctions m.ns, x.source = none := by simp [supportFunctions]
  rcases List.mem_append.1 hf with hf | hf
  · rcases List.mem_append.1 hf with hf | hf
    · exact absurd (hc.symm.trans (hsupport f hf)) (by simp)
    · obtain ⟨c', hc', rfl⟩ := List.mem_map.1 hf
      obtain rfl := Option.some.inj hc
      exact ⟨none, List.mem_append_left _ (List.mem_map_of_mem hc'), rfl⟩
  · obtain ⟨o, ho, hf⟩ := List.mem_flatMap.1 hf
    rcases List.mem_append.1 hf with hf | hf
    · obtain ⟨c', hc', rfl⟩ := List.mem_map.1 hf
      obtain rfl := Option.some.inj hc
      exact ⟨some o, List.mem_append_right _ (List.mem_flatMap.2 ⟨o, ho, List.mem_map_of_mem hc'⟩), rfl⟩
    · obtain rfl := List.mem_singleton.1 hf
      exact absurd hc (by simp [deriveRelease])

theorem signatureOf_mem {owner : Option Object} {f : Callable} (h : (owner, f) ∈ m.callables) :
    signatureOf m owner f ∈ m.symbols := by
  rcases List.mem_append.1 h with h | h
  · obtain ⟨f', hf, heq⟩ := List.mem_map.1 h
    cases heq
    exact List.mem_append_left _ (List.mem_append_right _ (List.mem_map_of_mem hf))
  · obtain ⟨o, ho, h⟩ := List.mem_flatMap.1 h
    obtain ⟨f', hf, heq⟩ := List.mem_map.1 h
    cases heq
    exact List.mem_append_right _ (List.mem_flatMap.2 ⟨o, ho, List.mem_append_left _ (List.mem_map_of_mem hf)⟩)

/-! ## Steps of a derivation -/

theorem Resolve.Checker.Of.new {c : Checker} (h : Checker.ofModel m = .ok c) : c.Of m := by
  refine ⟨?_, .new h⟩
  obtain ⟨table, -, h⟩ := bind_eq_ok.1 h
  rw [← pure_eq_ok.1 h]

theorem Resolve.Checker.Of.checked (hc : c.Of m) {c' : Checker} {t : Ty} {context : Option String}
    (h : c.check t context = .ok c') : c'.Of m := by
  refine ⟨?_, .check hc.reached h⟩
  obtain ⟨_, -, h⟩ := bind_eq_ok.1 h
  rw [← pure_eq_ok.1 h]
  exact hc.model

/-- A sound type passes every checker of its model. -/
theorem Resolve.Checker.Of.check (hc : c.Of m) {t : Ty} (ht : Resolve.Sound (named m.definitions) t)
    (context : Option String) : ∃ c' : Checker, c.check t context = .ok c' ∧ c'.Of m := by
  cases h : c.check t context with
  | ok c' => exact ⟨c', rfl, hc.checked h⟩
  | error e =>
    have hblames := hc.reached.valid.check_blames h
    rw [hc.reached.table_eq] at hblames
    exact absurd hblames ht.not_blames

theorem map_eq (hc : c.Of m) {t : Ty} (ht : Resolve.Sound (named m.definitions) t) (context : Option String) :
    ∃ c' : Checker, c.map t context = .ok ((named m.definitions).shapeOf t, c') ∧ c'.Of m := by
  obtain ⟨c', hcheck, hof⟩ := hc.check ht context
  refine ⟨c', ?_, hof⟩
  unfold Checker.map
  rw [hcheck, bind_ok, hof.reached.table_eq, shape_eq_ok ht.defines]
  rfl

theorem deriveParams_eq (place : String) {ps : List Param} (hc : c.Of m)
    (hs : ∀ p ∈ ps, Resolve.Sound (named m.definitions) p.type) :
    ∃ c' : Checker, deriveParams place c ps = .ok (ps.map (argumentOf (named m.definitions)), c') ∧ c'.Of m := by
  induction ps generalizing c with
  | nil => exact ⟨c, rfl, hc⟩
  | cons p ps ih =>
    rw [List.forall_mem_cons] at hs
    obtain ⟨mapped, hmap, hmapped⟩ := map_eq hc hs.1 (some (p.place place))
    obtain ⟨c', hrest, hc'⟩ := ih hmapped hs.2
    refine ⟨c', ?_, hc'⟩
    unfold deriveParams
    simp only [hmap, bind_ok, hrest]
    rfl

theorem deriveResult_eq (place : String) {f : Callable} (hc : c.Of m)
    (hs : f.kind ≠ .constructor → ∀ t ∈ f.returns, Resolve.Sound (named m.definitions) t) :
    ∃ c' : Checker, deriveResult place c f = .ok (resultOf (named m.definitions) f, c') ∧ c'.Of m := by
  unfold deriveResult resultOf
  cases hkind : f.kind with
  | constructor => exact ⟨c, rfl, hc⟩
  | function | method =>
    cases hreturns : f.returns with
    | none => exact ⟨c, rfl, hc⟩
    | some t =>
      obtain ⟨c', hmap, hc'⟩ := map_eq hc (hs (by simp [hkind]) t hreturns) (some s!"{place} return")
      refine ⟨c', ?_, hc'⟩
      simp only [hmap]
      rfl

theorem deriveErrorOut_eq {place : String} {f : Callable} (hc : c.Of m)
    (hs : ∀ name ∈ f.throws, ∃ e, (named m.definitions).lookup name = some (.error e)) :
    deriveErrorOut place c f = .ok (errorArgument f) := by
  unfold deriveErrorOut errorArgument
  cases hthrows : f.throws with
  | none => rfl
  | some name =>
    obtain ⟨e, he⟩ := hs name hthrows
    simp only [hc.reached.table_eq, resolveError_eq, he]
    rfl

theorem derive_eq (owner : Option Object) {f : Callable} (hc : c.Of m)
    (hs : f.Sound (named m.definitions)) :
    ∃ c' : Checker, derive c owner f = .ok (signatureOf m owner f, c') ∧ c'.Of m := by
  obtain ⟨c₁, hparams, hc₁⟩ := deriveParams_eq (f.place owner) hc hs.params
  obtain ⟨c₂, hresult, hc₂⟩ := deriveResult_eq (f.place owner) hc₁ hs.returns
  refine ⟨c₂, ?_, hc₂⟩
  unfold derive
  simp only [hparams, bind_ok, hresult, deriveErrorOut_eq hc₂ hs.throws, hc₂.model]
  rfl

/-! ## What was derived is sound -/

theorem map_sound {c' : Checker} {t : Ty} {context : Option String} {shape : Shape} (hc : c.Of m)
    (h : c.map t context = .ok (shape, c')) : c'.Of m ∧ Resolve.Sound (named m.definitions) t := by
  obtain ⟨checked, hcheck, h⟩ := bind_eq_ok.1 h
  obtain ⟨_, -, h⟩ := bind_eq_ok.1 h
  obtain ⟨-, rfl⟩ := Prod.mk.inj (pure_eq_ok.1 h)
  refine ⟨hc.checked hcheck, ?_⟩
  rw [← hc.reached.table_eq]
  exact (hc.reached.valid.check_ok hcheck).2.2

theorem deriveParams_sound {c' : Checker} {place : String} {ps : List Param} {args : List Argument} (hc : c.Of m)
    (h : deriveParams place c ps = .ok (args, c')) :
    c'.Of m ∧ ∀ p ∈ ps, Resolve.Sound (named m.definitions) p.type := by
  induction ps generalizing c args with
  | nil =>
    obtain ⟨-, rfl⟩ := Prod.mk.inj (Except.ok.inj h)
    exact ⟨hc, fun _ hp => absurd hp List.not_mem_nil⟩
  | cons p ps ih =>
    obtain ⟨⟨shape, mapped⟩, hmap, h⟩ := bind_eq_ok.1 h
    obtain ⟨⟨rest, last⟩, hrest, h⟩ := bind_eq_ok.1 h
    obtain ⟨-, rfl⟩ := Prod.mk.inj (pure_eq_ok.1 h)
    obtain ⟨hmapped, hfirst⟩ := map_sound hc hmap
    obtain ⟨hlast, hothers⟩ := ih hmapped hrest
    exact ⟨hlast, List.forall_mem_cons.2 ⟨hfirst, hothers⟩⟩

theorem deriveResult_sound {c' : Checker} {place : String} {f : Callable} {returns : Option Shape} (hc : c.Of m)
    (h : deriveResult place c f = .ok (returns, c')) :
    c'.Of m ∧ (f.kind ≠ .constructor → ∀ t ∈ f.returns, Resolve.Sound (named m.definitions) t) := by
  unfold deriveResult at h
  split at h
  · obtain ⟨-, rfl⟩ := Prod.mk.inj (Except.ok.inj h)
    exact ⟨hc, fun hkind => absurd ‹_› hkind⟩
  · rename_i hreturns _
    obtain ⟨-, rfl⟩ := Prod.mk.inj (Except.ok.inj h)
    exact ⟨hc, fun _ t ht => absurd (hreturns.symm.trans ht) (by simp)⟩
  · rename_i t hreturns _
    obtain ⟨⟨shape, mapped⟩, hmap, h⟩ := bind_eq_ok.1 h
    obtain ⟨-, rfl⟩ := Prod.mk.inj (pure_eq_ok.1 h)
    obtain ⟨hmapped, ht⟩ := map_sound hc hmap
    exact ⟨hmapped, fun _ t' ht' => Option.some.inj (hreturns.symm.trans ht') ▸ ht⟩

theorem deriveErrorOut_sound {place : String} {f : Callable} {args : List Argument} (hc : c.Of m)
    (h : deriveErrorOut place c f = .ok args) :
    ∀ name ∈ f.throws, ∃ e, (named m.definitions).lookup name = some (.error e) := by
  intro name hname
  unfold deriveErrorOut at h
  simp only [Option.mem_def.1 hname] at h
  obtain ⟨e, he, -⟩ := bind_eq_ok.1 h
  rw [hc.reached.table_eq] at he
  exact ⟨e, resolveError_eq_ok.1 he⟩

theorem derive_sound {c' : Checker} {owner : Option Object} {f : Callable} {s : Signature} (hc : c.Of m)
    (h : derive c owner f = .ok (s, c')) : c'.Of m ∧ f.Sound (named m.definitions) := by
  obtain ⟨⟨params, c₁⟩, hparams, h⟩ := bind_eq_ok.1 h
  obtain ⟨⟨returns, c₂⟩, hresult, h⟩ := bind_eq_ok.1 h
  obtain ⟨errorOut, herror, h⟩ := bind_eq_ok.1 h
  obtain ⟨-, rfl⟩ := Prod.mk.inj (pure_eq_ok.1 h)
  obtain ⟨hc₁, hsparams⟩ := deriveParams_sound hc hparams
  obtain ⟨hc₂, hsreturns⟩ := deriveResult_sound hc₁ hresult
  exact ⟨hc₂, hsparams, hsreturns, deriveErrorOut_sound hc₂ herror⟩

/-! ## Whole models -/

theorem deriveEach_eq (owner : Option Object) {fs : List Callable} (hc : c.Of m)
    (hs : ∀ f ∈ fs, f.Sound (named m.definitions)) :
    ∃ c' : Checker, deriveEach owner c fs = .ok (fs.map (signatureOf m owner), c') ∧ c'.Of m := by
  induction fs generalizing c with
  | nil => exact ⟨c, rfl, hc⟩
  | cons f fs ih =>
    rw [List.forall_mem_cons] at hs
    obtain ⟨c₁, hfirst, hc₁⟩ := derive_eq owner hc hs.1
    obtain ⟨c₂, hrest, hc₂⟩ := ih hc₁ hs.2
    refine ⟨c₂, ?_, hc₂⟩
    unfold deriveEach
    simp only [hfirst, bind_ok, hrest]
    rfl

theorem deriveEach_sound {c' : Checker} {owner : Option Object} {fs : List Callable} {ss : List Signature}
    (hc : c.Of m) (h : deriveEach owner c fs = .ok (ss, c')) :
    c'.Of m ∧ ∀ f ∈ fs, f.Sound (named m.definitions) := by
  induction fs generalizing c ss with
  | nil =>
    obtain ⟨-, rfl⟩ := Prod.mk.inj (Except.ok.inj h)
    exact ⟨hc, fun _ hf => absurd hf List.not_mem_nil⟩
  | cons f fs ih =>
    obtain ⟨⟨s, c₁⟩, hfirst, h⟩ := bind_eq_ok.1 h
    obtain ⟨⟨rest, c₂⟩, hrest, h⟩ := bind_eq_ok.1 h
    obtain ⟨-, rfl⟩ := Prod.mk.inj (pure_eq_ok.1 h)
    obtain ⟨hc₁, hsound⟩ := derive_sound hc hfirst
    obtain ⟨hc₂, hothers⟩ := ih hc₁ hrest
    exact ⟨hc₂, List.forall_mem_cons.2 ⟨hsound, hothers⟩⟩

theorem deriveObjects_eq {os : List Object} (hc : c.Of m)
    (hs : ∀ o ∈ os, ∀ f ∈ o.callables, f.Sound (named m.definitions)) :
    ∃ c' : Checker, deriveObjects c os = .ok (os.flatMap (objectSymbols m), c') ∧ c'.Of m := by
  induction os generalizing c with
  | nil => exact ⟨c, rfl, hc⟩
  | cons o os ih =>
    rw [List.forall_mem_cons] at hs
    obtain ⟨c₁, hown, hc₁⟩ := deriveEach_eq (some o) hc hs.1
    obtain ⟨c₂, hrest, hc₂⟩ := ih hc₁ hs.2
    refine ⟨c₂, ?_, hc₂⟩
    unfold deriveObjects
    simp only [hown, bind_ok, hrest, hc₂.model, List.flatMap_cons]
    unfold objectSymbols
    rw [List.append_assoc]
    rfl

theorem deriveObjects_sound {c' : Checker} {os : List Object} {ss : List Signature} (hc : c.Of m)
    (h : deriveObjects c os = .ok (ss, c')) :
    c'.Of m ∧ ∀ o ∈ os, ∀ f ∈ o.callables, f.Sound (named m.definitions) := by
  induction os generalizing c ss with
  | nil =>
    obtain ⟨-, rfl⟩ := Prod.mk.inj (Except.ok.inj h)
    exact ⟨hc, fun _ ho => absurd ho List.not_mem_nil⟩
  | cons o os ih =>
    obtain ⟨⟨own, c₁⟩, hown, h⟩ := bind_eq_ok.1 h
    obtain ⟨⟨rest, c₂⟩, hrest, h⟩ := bind_eq_ok.1 h
    obtain ⟨-, rfl⟩ := Prod.mk.inj (pure_eq_ok.1 h)
    obtain ⟨hc₁, hsound⟩ := deriveEach_sound hc hown
    obtain ⟨hc₂, hothers⟩ := ih hc₁ hrest
    exact ⟨hc₂, List.forall_mem_cons.2 ⟨hsound, hothers⟩⟩

/-- **The symbols of a model are derived**, whatever was checked before. -/
theorem deriveSymbols_eq (hc : c.Of m) (hs : ∀ p ∈ m.callables, p.2.Sound (named m.definitions)) :
    ∃ c' : Checker, deriveSymbols c = .ok (m.symbols, c') ∧ c'.Of m := by
  have hfunctions : ∀ f ∈ m.functions, f.Sound (named m.definitions) := fun f hf =>
    hs (none, f) (List.mem_append_left _ (List.mem_map_of_mem hf))
  have hobjects : ∀ o ∈ m.objects, ∀ f ∈ o.callables, f.Sound (named m.definitions) := fun o ho f hf =>
    hs (some o, f) (List.mem_append_right _ (List.mem_flatMap.2 ⟨o, ho, List.mem_map_of_mem hf⟩))
  obtain ⟨c₁, hone, hc₁⟩ := deriveEach_eq none hc hfunctions
  obtain ⟨c₂, htwo, hc₂⟩ := deriveObjects_eq hc₁ hobjects
  refine ⟨c₂, ?_, hc₂⟩
  unfold deriveSymbols
  simp only [hc.model, hone, bind_ok, hc₁.model, htwo, hc₂.model]
  rfl

/-- **Symbols are derived only where all that the callables use is sound.** -/
theorem deriveSymbols_sound {c' : Checker} {ss : List Signature} (hc : c.Of m)
    (h : deriveSymbols c = .ok (ss, c')) : ∀ p ∈ m.callables, p.2.Sound (named m.definitions) := by
  obtain ⟨⟨functions, c₁⟩, hone, h⟩ := bind_eq_ok.1 h
  obtain ⟨⟨objects, c₂⟩, htwo, -⟩ := bind_eq_ok.1 h
  rw [hc.model] at hone
  obtain ⟨hc₁, hfunctions⟩ := deriveEach_sound hc hone
  rw [hc₁.model] at htwo
  obtain ⟨-, hobjects⟩ := deriveObjects_sound hc₁ htwo
  intro p hp
  rcases List.mem_append.1 hp with hp | hp
  · obtain ⟨f, hf, rfl⟩ := List.mem_map.1 hp
    exact hfunctions f hf
  · obtain ⟨o, ho, hp⟩ := List.mem_flatMap.1 hp
    obtain ⟨f, hf, rfl⟩ := List.mem_map.1 hp
    exact hobjects o ho f hf

end Bindgen
