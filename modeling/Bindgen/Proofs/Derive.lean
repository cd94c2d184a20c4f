import Bindgen.Generation.Run
import Bindgen.Proofs.Outcome

/-!
# Derived symbols

The symbols that are derived for an accepted model have the arguments that their callables have
(`derived_of_mem`): the handle of a receiver first, and then one argument for each parameter in its place.
-/

namespace Bindgen

open Interface Boundary Resolve

variable {m : Model} {c : Callable}

/-- **The value argument of a parameter.** -/
structure ArgumentOf (p : Param) (a : Argument) : Prop where
  name : a.name = p.name
  ownership : a.ownership = if p.consumed then .transferred else .borrowed

/-- **A symbol that is derived** for a callable. -/
structure DerivedFor (m : Model) (c : Callable) (sig : Signature) : Prop where
  name : sig.name = symbolName m.ns c sig.owner
  arguments : ∃ params, sig.valueArguments = receiverArgument c ++ params ∧
    List.Forall₂ ArgumentOf c.params params

theorem map_model {checker checker' : Checker} {t : Ty} {context : Option String} {shape : Shape}
    (h : checker.map t context = .ok (shape, checker')) : checker'.model = checker.model := by
  obtain ⟨checked, hcheck, h⟩ := bind_eq_ok.mp h
  obtain ⟨_, -, h⟩ := bind_eq_ok.mp h
  obtain ⟨_, -, hcheck⟩ := bind_eq_ok.mp hcheck
  have hchecked := pure_eq_ok.mp hcheck
  rw [← (Prod.mk.inj (pure_eq_ok.mp h)).2, ← hchecked]

theorem deriveParams_ok {place : String} {ps : List Param} {checker checker' : Checker} {args : List Argument}
    (h : deriveParams place checker ps = .ok (args, checker')) :
    checker'.model = checker.model ∧ List.Forall₂ ArgumentOf ps args := by
  induction ps generalizing checker args with
  | nil =>
    obtain ⟨rfl, rfl⟩ := Prod.mk.inj (Except.ok.inj h)
    exact ⟨rfl, .nil⟩
  | cons p ps ih =>
    obtain ⟨⟨shape, mapped⟩, hmap, h⟩ := bind_eq_ok.mp h
    obtain ⟨⟨rest, checked⟩, hrest, h⟩ := bind_eq_ok.mp h
    obtain ⟨rfl, rfl⟩ := Prod.mk.inj (pure_eq_ok.mp h)
    obtain ⟨hmodel, hparams⟩ := ih hrest
    exact ⟨hmodel.trans (map_model hmap), .cons ⟨rfl, rfl⟩ hparams⟩

theorem deriveResult_model {place : String} {checker checker' : Checker} {shape : Option Shape}
    (h : deriveResult place checker c = .ok (shape, checker')) : checker'.model = checker.model := by
  unfold deriveResult at h
  split at h
  · rw [(Prod.mk.inj (Except.ok.inj h)).2]
  · rw [(Prod.mk.inj (Except.ok.inj h)).2]
  · obtain ⟨⟨shape', mapped⟩, hmap, h⟩ := bind_eq_ok.mp h
    rw [← (Prod.mk.inj (pure_eq_ok.mp h)).2]
    exact map_model hmap

/-- **One derived symbol.** -/
theorem derive_ok {checker checker' : Checker} {owner : Option Object} {sig : Signature}
    (h : derive checker owner c = .ok (sig, checker')) :
    checker'.model = checker.model ∧ sig.source = some c ∧ DerivedFor checker.model c sig := by
  obtain ⟨⟨params, mapped⟩, hparams, h⟩ := bind_eq_ok.mp h
  obtain ⟨⟨returns, checked⟩, hresult, h⟩ := bind_eq_ok.mp h
  obtain ⟨errorOut, herror, h⟩ := bind_eq_ok.mp h
  obtain ⟨rfl, rfl⟩ := Prod.mk.inj (pure_eq_ok.mp h)
  obtain ⟨hmodel, hargs⟩ := deriveParams_ok hparams
  have hchecked : checked.model = checker.model := (deriveResult_model hresult).trans hmodel
  refine ⟨hchecked, rfl, ⟨by rw [hchecked], params, ?_, hargs⟩⟩
  unfold Signature.valueArguments Signature.hasErrorOut
  unfold deriveErrorOut at herror
  cases hthrows : c.throws with
  | none =>
    rw [hthrows] at herror
    obtain rfl := Except.ok.inj herror
    simp
  | some name =>
    rw [hthrows] at herror
    obtain ⟨_, -, herror⟩ := bind_eq_ok.mp herror
    obtain rfl := pure_eq_ok.mp herror
    simp

/-! ## All symbols -/

/-- **Some symbols** of a model, of which each that has a callable behind it is derived for it. -/
def AllDerived (m : Model) (symbols : List Signature) : Prop :=
  ∀ sig ∈ symbols, ∀ c, sig.source = some c → DerivedFor m c sig

theorem AllDerived.append {xs ys : List Signature} (hx : AllDerived m xs) (hy : AllDerived m ys) :
    AllDerived m (xs ++ ys) := by
  intro sig hsig
  rcases List.mem_append.mp hsig with h | h
  · exact hx sig h
  · exact hy sig h

theorem deriveEach_ok {owner : Option Object} {cs : List Callable} {checker checker' : Checker}
    {symbols : List Signature} (h : deriveEach owner checker cs = .ok (symbols, checker')) :
    checker'.model = checker.model ∧ AllDerived checker.model symbols := by
  induction cs generalizing checker symbols with
  | nil =>
    obtain ⟨rfl, rfl⟩ := Prod.mk.inj (Except.ok.inj h)
    exact ⟨rfl, fun _ h => absurd h (by simp)⟩
  | cons c cs ih =>
    obtain ⟨⟨sig, derived⟩, hsig, h⟩ := bind_eq_ok.mp h
    obtain ⟨⟨rest, last⟩, hrest, h⟩ := bind_eq_ok.mp h
    obtain ⟨rfl, rfl⟩ := Prod.mk.inj (pure_eq_ok.mp h)
    obtain ⟨hmodel, hsource, hfor⟩ := derive_ok hsig
    obtain ⟨hlast, hall⟩ := ih hrest
    rw [hmodel] at hlast hall
    refine ⟨hlast, fun sig' hmem c' hc' => ?_⟩
    rcases List.mem_cons.mp hmem with rfl | hmem
    · obtain rfl := Option.some.inj (hsource.symm.trans hc')
      exact hfor
    · exact hall sig' hmem c' hc'

theorem deriveObjects_ok {os : List Object} {checker checker' : Checker} {symbols : List Signature}
    (h : deriveObjects checker os = .ok (symbols, checker')) : AllDerived checker.model symbols := by
  induction os generalizing checker symbols with
  | nil =>
    obtain ⟨rfl, rfl⟩ := Prod.mk.inj (Except.ok.inj h)
    exact fun _ h => absurd h (by simp)
  | cons o os ih =>
    obtain ⟨⟨own, derived⟩, hown, h⟩ := bind_eq_ok.mp h
    obtain ⟨⟨rest, last⟩, hrest, h⟩ := bind_eq_ok.mp h
    obtain ⟨rfl, rfl⟩ := Prod.mk.inj (pure_eq_ok.mp h)
    obtain ⟨hmodel, hall⟩ := deriveEach_ok hown
    have hothers := ih hrest
    rw [hmodel] at hothers
    refine hall.append fun sig hmem c hc => ?_
    rcases List.mem_cons.mp hmem with rfl | hmem
    · exact absurd hc (by simp [deriveRelease])
    · exact hothers sig hmem c hc

/-- **The symbols of a model.** -/
theorem deriveSymbols_ok {checker checker' : Checker} {symbols : List Signature}
    (h : deriveSymbols checker = .ok (symbols, checker')) : AllDerived checker.model symbols := by
  obtain ⟨⟨functions, derived⟩, hfunctions, h⟩ := bind_eq_ok.mp h
  obtain ⟨⟨objects, last⟩, hobjects, h⟩ := bind_eq_ok.mp h
  obtain ⟨rfl, rfl⟩ := Prod.mk.inj (pure_eq_ok.mp h)
  obtain ⟨hmodel, hall⟩ := deriveEach_ok hfunctions
  have hothers := deriveObjects_ok hobjects
  rw [hmodel] at hothers
  refine (AllDerived.append (fun sig hsig c hc => ?_) hall).append hothers
  have hnone (ns : String) : ∀ x ∈ supportFunctions ns, x.source = none := by simp [supportFunctions]
  exact absurd (hc.symm.trans (hnone _ sig hsig)) (by simp)

/-! ## Accepted models -/

theorem checkUse_model {checker checker' : Checker} {use : Use} (h : checker.checkUse use = .ok checker') :
    checker'.model = checker.model := by
  cases use with
  | value t context =>
    obtain ⟨_, -, h⟩ := bind_eq_ok.mp h
    rw [← pure_eq_ok.mp h]
  | thrown name context =>
    obtain ⟨_, -, h⟩ := bind_eq_ok.mp h
    rw [← pure_eq_ok.mp h]

theorem ofExcept_eq_ok {α : Type} {r : Except Failure α} {p p' : Progress} {a : α}
    (h : Step.ofExcept r p = (.ok a, p')) : r = .ok a := by
  cases r with
  | ok x => exact congrArg Except.ok (Except.ok.inj (Prod.mk.inj h).1)
  | error e => exact absurd (Prod.mk.inj h).1 (by simp)

/-- A check keeps to its model. -/
theorem check_model {g : Generation} {p : Progress} {checker : Checker} (h : (g.check p).1 = .ok checker) :
    checker.model = g.model := by
  obtain ⟨first, p₁, hfirst, h⟩ := state_bind_eq_ok h
  obtain ⟨table, -, hnew⟩ := bind_eq_ok.mp (ofExcept_eq_ok hfirst)
  have hmodel : first.model = g.model := by rw [← pure_eq_ok.mp hnew]
  obtain ⟨_, p₂, -, h⟩ := state_bind_eq_ok h
  refine state_foldlM (P := fun x : Checker => x.model = g.model) (fun x use p y hx hy => ?_) _ first p₂ checker
    hmodel h
  obtain ⟨checked, p₃, hchecked, hy⟩ := state_bind_eq_ok hy
  obtain ⟨_, p₄, -, hy⟩ := state_bind_eq_ok hy
  rw [← Except.ok.inj hy, checkUse_model (ofExcept_eq_ok hchecked), hx]

/-- **The symbols of an accepted model**: each that has a callable behind it is derived for it. -/
theorem derived_of_mem {symbols : List Signature}
    (h : Generation.fresh Generation.derive (.ofModel m .default .full) = .ok symbols) {sig : Signature}
    (hsig : sig ∈ symbols) (hc : sig.source = some c) : DerivedFor m c sig := by
  obtain ⟨checker, p₁, hchecker, h⟩ := state_bind_eq_ok h
  obtain ⟨⟨all, last⟩, p₂, hall, h⟩ := state_bind_eq_ok h
  have hmodel : checker.model = m := check_model (g := .ofModel m .default .full) (p := .start .empty)
    (congrArg Prod.fst hchecker)
  have hderived := deriveSymbols_ok (ofExcept_eq_ok hall)
  rw [hmodel] at hderived
  obtain ⟨_, p₃, -, h⟩ := state_bind_eq_ok h
  obtain ⟨_, p₄, -, h⟩ := state_bind_eq_ok h
  cases hrepeated : (distinctSymbols [] all).2 with
  | some name =>
    rw [hrepeated] at h
    have hthrown : (Except.error (.duplicateSymbol name) : Except Failure (List Signature)) = .ok symbols := h
    exact absurd hthrown (by simp)
  | none =>
    rw [hrepeated] at h
    obtain rfl : all = symbols := Except.ok.inj h
    exact hderived sig hsig c hc

end Bindgen
