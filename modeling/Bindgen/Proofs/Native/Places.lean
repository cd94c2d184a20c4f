import Bindgen.Proofs.Derive
import Bindgen.Proofs.Emit.Places
import Bindgen.Proofs.Native.Module
import Bindgen.Proofs.Native.PlainNames

/-!
# What is passed is what the plan says

A run of a wrapper passes in the slots of its call what the terms of its plan stand for (`Wrapper.passes_terms`):
the handle of the receiver, the lowered arguments, and the copies of the consumed buffers. The terms are those
of the slots themselves where the plan is placed, so that every argument of the call is then lowered from the
argument that belongs there.
-/

namespace Bindgen.Native

open Interface Resolve Emit Identifier Wire Emit.CallPlan

variable {b : Wrappers} {s : Session} {f : Frame} {scope₀ : Scope}

/-- How the names in a wrapper are read in a frame. -/
abbrev Frame.scoping (f : Frame) : Scoping Term := pythonScoping f.inside

namespace Wrappers

/-- **What a term stands for** in a run: `scope₀` holds the arguments, and `copies` the copies that were made for
slots. -/
inductive Denotes (b : Wrappers) (f : Frame) (s : Session) (scope₀ : Scope) (copies : List (Slot × Copy)) :
    Term → Bound → Prop
  | given {name : String} {bound : Bound} (found : scope₀.lookup (f.inside (escapePython name)) = some bound) :
      Denotes b f s scope₀ copies (.given name) bound
  | handle {slot : Slot} {label : String} {h : Value} (plain : slot.owned = false)
      (label_eq : f.self = some label) (held : Steady (Action.requireHandle label) s h) :
      Denotes b f s scope₀ copies (.handle slot) (.lowered (.value h))
  | lent {slot : Slot} {p : Param} {τ : Term} {of : Bound} {passed : Passed} (origin : slot.origin = .param p)
      (plain : slot.owned = false) (source : Denotes b f s scope₀ copies τ of)
      (lowers : b.Lowers p.type of.asValue passed) :
      Denotes b f s scope₀ copies (.lowered slot τ) (.lowered passed)
  | copied {slot : Slot} {p : Param} {τ : Term} {of : Bound} {c : Copy} (origin : slot.origin = .param p)
      (owned : slot.owned = true) (source : Denotes b f s scope₀ copies τ of)
      (encodes : (b.converter p.type).encode of.asValue = .ok c.bytes) (made : (slot, c) ∈ copies) :
      Denotes b f s scope₀ copies (.lowered slot τ) (.lowered (.buffer c.buffer))

variable {copies : List (Slot × Copy)}

/-- **A scope that is as some terms say**: the arguments, with a local for each term before them. -/
def Realizes (b : Wrappers) (f : Frame) (s : Session) (scope₀ : Scope) (copies : List (Slot × Copy)) (σ : Terms)
    (scope : Scope) : Prop :=
  ∃ top, scope = top ++ scope₀ ∧
    List.Forall₂ (fun e e' => e.1 = e'.1 ∧ b.Denotes f s scope₀ copies e.2 e'.2) σ top

theorem Realizes.nil : b.Realizes f s scope₀ copies [] scope₀ := ⟨[], rfl, .nil⟩

theorem Realizes.cons {σ : Terms} {scope : Scope} (h : b.Realizes f s scope₀ copies σ scope) (x : String)
    {τ : Term} {bound : Bound} (hτ : b.Denotes f s scope₀ copies τ bound) :
    b.Realizes f s scope₀ copies ((x, τ) :: σ) ((x, bound) :: scope) := by
  obtain ⟨top, rfl, htop⟩ := h
  exact ⟨(x, bound) :: top, rfl, .cons ⟨rfl, hτ⟩ htop⟩

/-- What a name stands for is what its term says, or what it stood for at first. -/
theorem Realizes.lookup {σ : Terms} {scope : Scope} (h : b.Realizes f s scope₀ copies σ scope) {x : String}
    {bound : Bound} (hx : scope.lookup x = some bound) :
    (∃ τ, σ.lookup x = some τ ∧ b.Denotes f s scope₀ copies τ bound) ∨
      (σ.lookup x = none ∧ scope₀.lookup x = some bound) := by
  obtain ⟨top, rfl, htop⟩ := h
  induction htop with
  | nil => exact Or.inr ⟨rfl, hx⟩
  | @cons e e' σ top hfirst _ ih =>
    obtain ⟨hkey, hτ⟩ := hfirst
    rw [List.cons_append, List.lookup_cons] at hx
    rw [List.lookup_cons, hkey]
    cases hxe : x == e'.1 with
    | true =>
      rw [hxe] at hx
      obtain rfl := Option.some.inj hx
      exact Or.inl ⟨e.2, rfl, hτ⟩
    | false =>
      rw [hxe] at hx
      exact ih hx

/-- The value of a parameter is what the term of its name stands for. -/
theorem Realizes.source {σ : Terms} {scope : Scope} (h : b.Realizes f s scope₀ copies σ scope) {p : Param}
    {v : Value} (hp : Stands f scope p v) :
    ∃ of, b.Denotes f s scope₀ copies (f.scoping.sourceOf σ p) of ∧ v = of.asValue := by
  obtain ⟨bound, hfound, rfl⟩ := hp
  refine ⟨bound, ?_, rfl⟩
  change b.Denotes f s scope₀ copies ((σ.lookup (f.inside (escapePython p.name))).getD (.given p.name)) bound
  obtain ⟨τ, hτ, hden⟩ | ⟨hnone, hfirst⟩ := h.lookup hfound
  · rw [hτ]; exact hden
  · rw [hnone]; exact .given hfirst

/-- **What a slot gives** is what its term stands for. -/
theorem Realizes.gives {σ : Terms} {scope : Scope} (h : b.Realizes f s scope₀ copies σ scope) {slot : Slot}
    (hplain : slot.owned = false) {p : Passed} (hp : b.Gives f s scope slot p) :
    b.Denotes f s scope₀ copies (f.scoping.termOf σ slot) (.lowered p) := by
  unfold Gives at hp
  unfold Scoping.termOf
  cases horigin : slot.origin with
  | receiver =>
    rw [horigin] at hp
    obtain ⟨label, v, hself, hheld, rfl⟩ := hp
    exact .handle hplain hself hheld
  | param q =>
    rw [horigin] at hp
    obtain ⟨v, hv, hlowers⟩ := hp
    obtain ⟨of, hof, rfl⟩ := h.source hv
    exact .lent horigin hplain hof hlowers

/-- **Locals that are bound** one after another are what their terms say. -/
theorem Realizes.binds {σ : Terms} {scope scope' : Scope} {slots : List Slot}
    (h : b.Realizes f s scope₀ copies σ scope) (hplain : ∀ slot ∈ slots, slot.owned = false)
    (hbinds : b.Binds f s scope slots scope') :
    b.Realizes f s scope₀ copies (f.scoping.bind σ slots) scope' := by
  induction hbinds generalizing σ with
  | nil => exact h
  | @cons scope scope' slot rest p given _ ih =>
    have hslot := h.gives (hplain slot List.mem_cons_self) given
    exact ih (h.cons _ hslot) fun x hx => hplain x (List.mem_cons_of_mem slot hx)

/-- The locals of consumed buffers are what their terms say. -/
theorem Realizes.owned {σ : Terms} {scope : Scope} (h : b.Realizes f s scope₀ copies σ scope)
    {slots : List Slot} {cs : List Copy}
    (hcs : List.Forall₂ (fun slot c => b.Encodes f scope slot c.bytes ∧ c.Sound) slots cs)
    (howned : ∀ slot ∈ slots, slot.owned = true) (hmade : ∀ e ∈ slots.zip cs, e ∈ copies) :
    List.Forall₂ (fun e e' => e.1 = e'.1 ∧ b.Denotes f s scope₀ copies e.2 e'.2)
      (f.scoping.copies σ slots) (ownedScope f slots cs) := by
  unfold Scoping.copies ownedScope
  refine List.forall₂_reverse_iff.mpr ?_
  induction hcs with
  | nil => exact .nil
  | @cons slot c slots cs hfirst _ ih =>
    obtain ⟨⟨p, v, horigin, hv, hbytes⟩, -⟩ := hfirst
    obtain ⟨of, hof, rfl⟩ := h.source hv
    have hterm : f.scoping.termOf σ slot = .lowered slot (f.scoping.sourceOf σ p) := by
      simp only [Scoping.termOf, horigin]
      rfl
    have hden : b.Denotes f s scope₀ copies (f.scoping.termOf σ slot) (.lowered (.buffer c.buffer)) := by
      rw [hterm]
      exact .copied horigin (howned slot List.mem_cons_self) hof hbytes (hmade _ List.mem_cons_self)
    exact .cons ⟨rfl, hden⟩ (ih (fun x hx => howned x (List.mem_cons_of_mem slot hx)) fun e he =>
      hmade e (List.mem_cons_of_mem _ he))

/-- **The locals of a plan** are what its terms say. -/
theorem BindsAll.realizes {plan : CallPlan} {cs : List Copy} {scope : Scope}
    (h : b.BindsAll f s scope₀ plan cs scope) :
    b.Realizes f s scope₀ (plan.owned.zip cs) (f.scoping.bound plan) scope := by
  obtain ⟨plain, hplain, hcs, rfl⟩ := h
  have hbound : b.Realizes f s scope₀ (plan.owned.zip cs) (f.scoping.bind [] plan.plain) plain :=
    Realizes.nil.binds (fun slot hslot => (mem_slots_of_plain hslot).2) hplain
  have howned := hbound.owned hcs (fun slot hslot => (mem_slots_of_owned hslot).2) fun _ he => he
  obtain ⟨top, rfl, htop⟩ := hbound
  refine ⟨ownedScope f plan.owned cs ++ top, (List.append_assoc _ _ _).symm, ?_⟩
  exact List.rel_append howned htop

/-- **What is passed** in the slots of a plan is what its terms stand for. -/
theorem Passes.terms {plan : CallPlan} {cs : List Copy} {scope : Scope} {passed : List Passed}
    (hscope : b.Scoped f s scope₀ plan cs scope) (h : b.Passes f s scope plan passed) :
    List.Forall₂ (fun τ p => ∃ bound, b.Denotes f s scope₀ (plan.owned.zip cs) τ bound ∧ p = bound.asPassed)
      (plan.terms f.inside) passed := by
  unfold Passes at h
  unfold Scoped at hscope
  unfold CallPlan.terms Scoping.terms
  cases hplace : plan.inPlace with
  | true =>
    rw [if_pos hplace] at h hscope
    obtain ⟨-, rfl⟩ := hscope
    rw [if_pos rfl, List.forall₂_map_left_iff]
    refine (forall₂_with_mem h).imp fun slot p hboth => ?_
    obtain ⟨hslot, hp⟩ := hboth
    obtain ⟨found, hfound, hfind, -⟩ := find_target hplace hslot
    have hplain : (plan.inPlaceSlot slot).owned = false := by
      rw [inPlaceSlot, hfind]
      exact (mem_slots_of_plain (by rwa [plain_of_inPlace hplace])).2
    exact ⟨.lowered p, Realizes.nil.gives hplain hp, rfl⟩
  | false =>
    rw [if_neg (by simp [hplace])] at h hscope
    rw [if_neg (by simp), List.forall₂_map_left_iff]
    refine (forall₂_with_mem h).imp fun slot p hboth => ?_
    obtain ⟨hslot, bound, hfound, hp⟩ := hboth
    refine ⟨bound, ?_, hp⟩
    obtain ⟨τ, hτ, hden⟩ | ⟨hnone, -⟩ := hscope.realizes.lookup (x := f.scoping.inside slot.target) hfound
    · rw [hτ]
      exact hden
    · obtain ⟨τ, hτ⟩ := Scoping.exists_lookup_bound f.scoping hslot
      exact absurd (hnone.symm.trans hτ) (by simp)

end Wrappers

namespace Wrapper

/-- **Passed as some terms say**: each of them stands for what is passed in its slot. -/
def PassedFor (b : Wrappers) (w : Wrapper) (s : Session) (args : List Value) (cs : List Copy) (τs : List Term)
    (passed : List Passed) : Prop :=
  List.Forall₂ (fun τ p => ∃ bound,
    b.Denotes (w.frame b) s (w.arguments args) ((w.plan b).owned.zip cs) τ bound ∧ p = bound.asPassed) τs passed

/-- **A run without a call**: it ends in a fault, and only copies were asked for and freed. -/
def Uncalled (b : Wrappers) (r : Except Fault Value) (δ : List Request) : Prop :=
  (∃ e, r = .error e) ∧ (b.Refused δ ∨ ∃ cs : List Copy, δ = cs.map Copy.asked)

/-- **A wrapper that calls passes what the terms of its plan stand for**, right after its copies. -/
theorem passes_terms (hb : b.Grows) (w : Wrapper) (args : List Value) (s : Session) :
    Ends (w.run b args) s fun r δ _ => Uncalled b r δ ∨ ∃ cs passed hasRecord after,
      δ = cs.map Copy.asked ++ .called ((w.frame b).inside (w.plan b).symbol) passed hasRecord :: after ∧
        w.PassedFor b s args cs ((w.plan b).terms (w.frame b).inside) passed := by
  refine (w.run_course hb args s).mono fun r δ s' _ _ hcourse => ?_
  cases hcourse with
  | refused h => exact Or.inl ⟨⟨_, rfl⟩, Or.inl h⟩
  | abandoned _ _ _ => exact Or.inl ⟨⟨_, rfl⟩, Or.inr ⟨_, rfl⟩⟩
  | @called cs scope passed hasRecord _ _ _ ready calls completes =>
    have hpassed := Wrappers.Passes.terms ready calls.passes
    obtain ⟨aside, -, hdone⟩ := completes
    by_cases hfails : Wrappers.Fails s hasRecord
    · rw [if_pos hfails] at hdone
      exact Or.inr ⟨cs, passed, hasRecord, _, by rw [hdone.2]; rfl, hpassed⟩
    · rw [if_neg hfails] at hdone
      exact Or.inr ⟨cs, passed, hasRecord, _, by rw [hdone.2]; rfl, hpassed⟩

end Wrapper

/-! ## Value arguments -/

/-- **The slot of a value argument.** Its local is named after the argument. The receiver's handle has the slot
of the receiver, and the argument of a parameter that of the parameter, which is a consumed buffer where the
argument is handed over in one. -/
structure SlotFor (table : Table) (a : Boundary.Argument) (slot : Slot) : Prop where
  target : slot.target = PythonModule.localName a.name
  origin : (slot.origin = .receiver ∧ a = ⟨receiverName, .handle, .borrowed⟩ ∧ slot.owned = false) ∨
    ∃ p, slot.origin = .param p ∧ ArgumentOf p a ∧
      slot.owned = (decide (a.ownership = .transferred) && (table.conversionOf p.type).usesBuffer)

theorem slotFor_param {table : Table} {p : Param} {a : Boundary.Argument} (h : ArgumentOf p a) :
    SlotFor table a (paramSlot table PythonModule.localName p) := by
  refine ⟨congrArg PythonModule.localName h.name.symm, Or.inr ⟨p, rfl, h, ?_⟩⟩
  rw [h.ownership]
  cases hconsumed : p.consumed <;> simp [paramSlot, hconsumed]

/-- **The slots of a plan are those of the value arguments**, one after another. -/
theorem slots_for {table : Table} {m : Model} {c : Callable} {sig : Boundary.Signature}
    (h : DerivedFor m c sig) (hnames : (c.params.map (·.name)).Nodup) (symbol : String) :
    List.Forall₂ (SlotFor table) sig.valueArguments
      (ofCallable table PythonModule.localName symbol c).slots := by
  obtain ⟨params, hargs, hparams⟩ := h.arguments
  rw [hargs, ofCallable_slots hnames symbol]
  refine List.rel_append ?_ ?_
  · unfold receiverArgument receiverSlots
    split
    · exact .cons ⟨rfl, Or.inl ⟨rfl, rfl, rfl⟩⟩ .nil
    · exact .nil
  · rw [List.forall₂_map_right_iff]
    exact hparams.flip.imp fun a p hp => slotFor_param hp

/-- The plan of a wrapper in the module of a model is that of the symbol. -/
theorem Wrapper.plan_of_ofModel {m : Model} {limit : ℕ} (hb : Wrappers.ofModel m limit = .ok b) {table : Table}
    (htable : tableOf m = .ok table) {c : Callable} {sig : Boundary.Signature} (h : DerivedFor m c sig) (w : Wrapper)
    (howner : w.owner = sig.owner) (hsource : w.source = c) :
    w.plan b = ofCallable table PythonModule.localName sig.name c := by
  unfold Wrapper.plan Wrappers.plan
  rw [howner, hsource, Wrappers.table_of_ofModel hb htable, Wrappers.model_of_ofModel hb, ← h.name]

/-! ## Every argument in its place -/

/-- **Every argument in its place**, or which is not. The slots of the call of an accepted model's callable are
those of the value arguments that are derived for it: the receiver's first, and then one for each parameter in
its place. Each of them gets what belongs there (`ownTerm`) unless a method has a parameter that is called like
the receiver's handle, or the locals, where there are any, are not different from each other and from the
parameters that are lowered after them. And what a run of the wrapper passes is what the terms of the plan stand
for, in the same places. -/
theorem arguments_placed {m : Model} {symbols : List Boundary.Signature}
    (hm : Generation.fresh Generation.derive (.ofModel m .default .full) = .ok symbols)
    {sig : Boundary.Signature} (hsig : sig ∈ symbols) {c : Callable} (hc : sig.source = some c)
    (hnames : (c.params.map (·.name)).Nodup) {table : Table} (htable : tableOf m = .ok table) :
    let plan := ofCallable table PythonModule.localName sig.name c
    let inside := nameInside sig.owner
    plan.slots = receiverSlots PythonModule.localName c ++
        c.params.map (paramSlot table PythonModule.localName) ∧
      List.Forall₂ (SlotFor table) sig.valueArguments plan.slots ∧
      (plan.terms inside = plan.slots.map ownTerm ↔ ¬TakesHandleName c ∧ (plan.inPlace = false →
        (plan.slots.map fun slot => inside slot.target).Nodup ∧
          (plan.plain ++ plan.owned).Pairwise (Spares inside))) ∧
      ∀ (limit : ℕ) (b : Wrappers), Wrappers.ofModel m limit = .ok b →
        ∀ w : Wrapper, w.owner = sig.owner → w.source = c → ∀ (args : List Value) (s : Session),
          Ends (w.run b args) s fun r δ _ => Wrapper.Uncalled b r δ ∨ ∃ cs passed hasRecord after,
            δ = cs.map Copy.asked ++ .called (inside sig.name) passed hasRecord :: after ∧
              w.PassedFor b s args cs (plan.terms inside) passed := by
  intro plan inside
  have hderived := derived_of_mem hm hsig hc
  have hslots : plan.slots.Nodup := slots_nodup hnames sig.name
  refine ⟨ofCallable_slots hnames sig.name, slots_for hderived hnames sig.name,
    (terms_eq_iff hslots).trans (placed_iff hnames sig.name fun _ _ => localName_inj), ?_⟩
  intro limit b hb w howner hsource args s
  have hplan : w.plan b = plan := w.plan_of_ofModel hb htable hderived howner hsource
  have hinside : (w.frame b).inside = inside := by
    funext name
    change nameInside w.owner name = nameInside sig.owner name
    rw [howner]
  have hruns := w.passes_terms (Wrappers.grows_of_ofModel hb) args s
  rw [hplan, hinside] at hruns
  exact hruns

/-- A method with a parameter that is called like the handle of its receiver. -/
def setHandle : Callable := ⟨.method, "set", [⟨"handle", .prim .u64, false⟩], none, none⟩

/-- A model with that method. -/
def setHandleModel : Model where
  ns := "n"
  records := []
  enums := []
  errors := []
  objects := [⟨"Thing", [⟨.constructor, "new", [], none, none⟩], [setHandle], Eq.refl true, Eq.refl true⟩]
  functions := []

/-- The receiver's handle is not passed in its place. -/
theorem arguments_placed_setHandle : ∃ symbols sig table,
    Generation.fresh Generation.derive (.ofModel setHandleModel .default .full) = .ok symbols ∧ sig ∈ symbols ∧
      sig.source = some setHandle ∧ tableOf setHandleModel = .ok table ∧
      let plan := ofCallable table PythonModule.localName sig.name setHandle
      plan.terms (nameInside sig.owner) ≠ plan.slots.map ownTerm := by
  have hderives : (Generation.fresh Generation.derive (.ofModel setHandleModel .default .full)).toOption.map
      (fun symbols => symbols.any fun sig => sig.source == some setHandle) = some true := by decide +kernel
  cases hm : Generation.fresh Generation.derive (.ofModel setHandleModel .default .full) with
  | error e => rw [hm] at hderives; exact absurd hderives (by simp [Except.toOption])
  | ok symbols =>
    rw [hm] at hderives
    obtain ⟨sig, hsig, hsource⟩ := List.any_eq_true.mp (Option.some.inj hderives)
    have hc : sig.source = some setHandle := by simpa using hsource
    refine ⟨symbols, sig, _, rfl, hsig, hc, rfl, fun hterms => ?_⟩
    exact ((arguments_placed hm hsig hc (by decide) rfl).2.2.1.mp hterms).1 (by decide)

end Bindgen.Native
