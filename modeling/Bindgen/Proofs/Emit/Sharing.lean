import Bindgen.Proofs.Emit.Places
import Bindgen.Proofs.Generation.Signatures
import Bindgen.Proofs.Resolve.Agreement

/-!
# Locals that are shared

What is passed for a value argument is found under the name of its local. Where two arguments share a local, what
is found there is what was lowered for the last of them (`CallPlan.holder`), and it is passed for both. So the
shapes of what is passed (`CallPlan.heldShapes`) are those of the arguments, just where all arguments that share a
local have one shape (`heldShapes_iff`).

Results:
* `slots_stand`: the slots of a plan stand for the value arguments of its callable.
* `ownSlots_own`: lowered for itself, each argument has its shape.
* **`heldShapes_iff`**: when what is passed has the shapes of the arguments.
* **`Scoping.terms_shapes`**: what a plan passes has the shapes of the slots that its locals hold, in any language whose
  slots have their shapes; `terms_shape?` for Python.
-/

namespace Bindgen.Emit

open Interface Boundary Resolve Identifier

/-- The shape of what is lowered in a slot. -/
def Slot.shape (table : Table) (slot : Slot) : Shape :=
  match slot.origin with
  | .receiver => .handle
  | .param p => table.shapeOf p.type

/-- A slot in which the receiver of a callable is lowered, or an argument for one of its parameters. -/
def Slot.IsOf (c : Callable) (slot : Slot) : Prop :=
  match slot.origin with
  | .receiver => c.kind = .method
  | .param p => p ∈ c.params

namespace CallPlan

variable {table : Table} {key localName : String → String} {plan : CallPlan} {args : List Argument} {c : Callable}

/-- **The slot that a local holds in the end**: of the slots that share it the last one, where the copies of
consumed buffers come last. Names are the same that have the same `key`. -/
def holder (key : String → String) (plan : CallPlan) (slot : Slot) : Slot :=
  ((plan.plain ++ plan.owned).reverse.find? fun other => key slot.target == key other.target).getD slot

/-- **The shapes of what is passed**, if what a local holds in the end is passed for each slot that has it. -/
def heldShapes (table : Table) (key : String → String) (plan : CallPlan) : List Shape :=
  plan.slots.map fun slot => (plan.holder key slot).shape table

/-- **Arguments that share a local have one shape.** -/
def ShareShapes (localName : String → String) (args : List Argument) : Prop :=
  ∀ a ∈ args, ∀ a' ∈ args, localName a.name = localName a'.name → a.shape = a'.shape

instance (localName : String → String) (args : List Argument) : Decidable (ShareShapes localName args) :=
  inferInstanceAs (Decidable (∀ a ∈ args, ∀ a' ∈ args, _))

/-! ## Slots and arguments -/

/-- **A slot that stands for a value argument**: its local is that of the argument, and its shape that of an
argument with the same name. -/
structure Stands (table : Table) (localName : String → String) (args : List Argument) (a : Argument)
    (slot : Slot) : Prop where
  target : slot.target = localName a.name
  shape : ∃ a' ∈ args, a'.name = a.name ∧ slot.shape table = a'.shape

/-- **The slots of a callable** stand for its value arguments, one after another. -/
theorem slots_stand (table : Table) (localName : String → String) (symbol : String) (c : Callable) :
    let args := receiverArgument c ++ c.params.map (argumentOf table)
    List.Forall₂ (Stands table localName args) args (ofCallable table localName symbol c).slots := by
  intro args
  refine List.rel_append ?_ ?_
  · unfold receiverArgument
    split
    · next hmethod =>
      have hmem : (⟨receiverName, .handle, .borrowed⟩ : Argument) ∈ args :=
        List.mem_append_left _ (by rw [receiverArgument, if_pos hmethod]; exact List.mem_singleton_self _)
      exact .cons ⟨rfl, _, hmem, rfl, rfl⟩ .nil
    · exact .nil
  · rw [List.forall₂_map_left_iff, List.forall₂_map_right_iff, List.forall₂_same]
    intro p hp
    obtain ⟨hfound, hname⟩ := paramNamed_found hp
    exact ⟨rfl, argumentOf table (paramNamed c.params p), List.mem_append_right _ (List.mem_map_of_mem hfound), hname,
      rfl⟩

/-- What is consumed by a type that needs a buffer has the shape of one. -/
theorem shapeOf_consumed {t : Ty} {consumed : Bool}
    (h : (consumed && (table.conversionOf t).usesBuffer) = true) : table.shapeOf t = .buffer :=
  usesBuffer_iff.1 ((Bool.and_eq_true _ _).mp h).2

theorem shape_of_owned {symbol : String} {slot : Slot} (h : slot ∈ (ofCallable table localName symbol c).slots)
    (howned : slot.owned = true) : slot.shape table = .buffer := by
  obtain ⟨-, rfl⟩ | ⟨p, -, rfl⟩ := mem_slots h
  · exact absurd howned (by simp)
  · exact shapeOf_consumed howned

/-- **The slots of a callable's own arguments**, each lowered for itself. -/
def ownSlots (table : Table) (localName : String → String) (c : Callable) : List Slot :=
  receiverSlots localName c ++ c.params.map (paramSlot table localName)

/-- **The own slot of a value argument** has its shape. Only buffers are copied. -/
structure Own (table : Table) (c : Callable) (a : Argument) (slot : Slot) : Prop where
  isOf : slot.IsOf c
  shape : slot.shape table = a.shape
  buffer : slot.owned = true → a.shape = .buffer

theorem ownSlots_own (table : Table) (localName : String → String) (c : Callable) : List.Forall₂ (Own table c)
    (receiverArgument c ++ c.params.map (argumentOf table)) (ownSlots table localName c) := by
  refine List.rel_append ?_ ?_
  · unfold receiverArgument receiverSlots
    split
    · next hmethod => exact .cons ⟨hmethod, rfl, fun h => absurd h (by simp)⟩ .nil
    · exact .nil
  · rw [List.forall₂_map_left_iff, List.forall₂_map_right_iff, List.forall₂_same]
    exact fun p hp => ⟨hp, rfl, fun howned => shapeOf_consumed howned⟩

/-! ## What a local holds -/

/-- A local holds one of the slots that share it. -/
theorem holder_shares (key : String → String) {slot : Slot} (h : slot ∈ plan.slots) :
    plan.holder key slot ∈ plan.slots ∧ key (plan.holder key slot).target = key slot.target := by
  unfold holder
  cases hfind : (plan.plain ++ plan.owned).reverse.find? fun other => key slot.target == key other.target with
  | none => exact ⟨h, rfl⟩
  | some found =>
    have hkey : key slot.target = key found.target := by
      simpa using List.find?_some (p := fun other : Slot => key slot.target == key other.target) hfind
    exact ⟨mem_order.1 (List.mem_reverse.1 (List.mem_of_find?_eq_some hfind)), hkey.symm⟩

/-- Slots that share a local are held by one slot. -/
theorem holder_eq {slot other : Slot} (hslot : slot ∈ plan.slots) (h : key slot.target = key other.target) :
    plan.holder key slot = plan.holder key other := by
  unfold holder
  rw [← h]
  cases hfind : (plan.plain ++ plan.owned).reverse.find? fun x => key slot.target == key x.target with
  | none => exact absurd (List.find?_eq_none.1 hfind slot (List.mem_reverse.2 (mem_order.2 hslot))) (by simp)
  | some found => rfl

/-- **What is passed has the shapes of the arguments**, just where those that share a local have one shape. -/
theorem heldShapes_iff (h : List.Forall₂ (Stands table localName args) args plan.slots) :
    plan.heldShapes table key = args.map (·.shape) ↔ ShareShapes (fun name => key (localName name)) args := by
  obtain ⟨hlength, hstands⟩ := List.forall₂_iff_zip.1 h
  have hpairs : List.Forall₂ (fun a slot => (a, slot) ∈ args.zip plan.slots) args plan.slots :=
    List.forall₂_iff_zip.2 ⟨hlength, fun hmem => hmem⟩
  have hheld : plan.heldShapes table key = args.map (·.shape) ↔
      ∀ a slot, (a, slot) ∈ args.zip plan.slots → (plan.holder key slot).shape table = a.shape := by
    rw [heldShapes, eq_comm, map_eq_map_iff, List.forall₂_iff_zip]
    exact ⟨fun hall a slot hpair => (hall.2 hpair).symm, fun hall => ⟨hlength, fun hpair => (hall _ _ hpair).symm⟩⟩
  rw [hheld]
  constructor
  · intro hall a ha a' ha' hlocal
    obtain ⟨slot, hslot, hpair⟩ := exists_right_of_forall₂ hpairs ha
    obtain ⟨slot', -, hpair'⟩ := exists_right_of_forall₂ hpairs ha'
    have hkey : key slot.target = key slot'.target := by
      rw [(hstands hpair).target, (hstands hpair').target]
      exact hlocal
    rw [← hall a slot hpair, ← hall a' slot' hpair', holder_eq hslot hkey]
  · intro hshare a slot hpair
    obtain ⟨ha, hslot⟩ := List.of_mem_zip hpair
    obtain ⟨hmem, hkey⟩ := holder_shares key hslot
    obtain ⟨b, hb, hpair'⟩ := exists_left_of_forall₂ hpairs hmem
    obtain ⟨a', ha', hname, hshape⟩ := (hstands hpair').shape
    rw [hshape]
    refine hshare a' ha' a ha ?_
    rw [(hstands hpair').target, (hstands hpair).target] at hkey
    rw [hname]
    exact hkey

/-! ## The shapes of what is passed -/

/-- **How locals are read**: where they are bound they have the names that they have inside a class. -/
def readAs (inside : String → String) (plan : CallPlan) : String → String :=
  if plan.inPlace then id else inside

/-- In place a local holds what is lowered there. -/
theorem holder_inPlace (hplace : plan.inPlace = true) (slot : Slot) : plan.holder id slot = plan.inPlaceSlot slot := by
  have howned : plan.owned = [] := List.isEmpty_iff.1 hplace
  unfold holder inPlaceSlot
  rw [howned, List.append_nil]
  simp only [id, BEq.comm]

namespace Scoping

variable {M : Type} {L : Scoping M} {shape? : M → Option Shape} {σ : List (String × M)} {slots : List Slot}

/-- **A slot with its shape**: whatever it is lowered from, it has the shape of its parameter. -/
def Shaped (L : Scoping M) (shape? : M → Option Shape) (table : Table) (slot : Slot) : Prop :=
  ∀ σ, shape? (L.termOf σ slot) = some (slot.shape table)

/-- Locals with the shapes of some slots, one after another. -/
def HoldShapes (L : Scoping M) (shape? : M → Option Shape) (table : Table) : List (String × M) → List Slot → Prop :=
  List.Forall₂ fun e slot => e.1 = L.inside slot.target ∧ shape? e.2 = some (slot.shape table)

theorem HoldShapes.lookup (h : L.HoldShapes shape? table σ slots) (x : String) :
    (σ.lookup x).bind shape? = (slots.find? fun slot => x == L.inside slot.target).map (·.shape table) := by
  induction h with
  | nil => rfl
  | @cons e slot σ slots hfirst _ ih =>
    rw [List.lookup_cons, List.find?_cons, hfirst.1]
    cases x == L.inside slot.target with
    | true => exact hfirst.2
    | false => exact ih

theorem HoldShapes.bind {before : List Slot} (h : L.HoldShapes shape? table σ before)
    (hslots : ∀ slot ∈ slots, L.Shaped shape? table slot) :
    L.HoldShapes shape? table (L.bind σ slots) (slots.reverse ++ before) := by
  induction slots generalizing σ before with
  | nil => exact h
  | cons slot slots ih =>
    obtain ⟨hslot, hslots⟩ := List.forall_mem_cons.1 hslots
    rw [List.reverse_cons, List.append_assoc]
    exact ih (.cons ⟨rfl, hslot σ⟩ h) hslots

/-- **The locals of a plan** have the shapes of its slots, the consumed buffers last. -/
theorem holdShapes_bound (hslots : ∀ slot ∈ plan.slots, L.Shaped shape? table slot) :
    L.HoldShapes shape? table (L.bound plan) (plan.plain ++ plan.owned).reverse := by
  have hplain : L.HoldShapes shape? table (L.bind [] plan.plain) (plan.plain.reverse ++ []) :=
    HoldShapes.bind .nil fun slot hslot => hslots slot (mem_slots_of_plain hslot).1
  rw [List.append_nil] at hplain
  rw [List.reverse_append]
  refine List.rel_append ?_ hplain
  unfold copies
  rw [List.forall₂_reverse_iff, List.forall₂_map_left_iff, List.forall₂_same]
  exact fun slot hslot => ⟨rfl, hslots slot (mem_slots_of_owned hslot).1 _⟩

/-- **What a plan passes** has the shapes of the slots that its locals hold in the end. -/
theorem terms_shapes (hslots : ∀ slot ∈ plan.slots, L.Shaped shape? table slot) :
    (L.terms plan).map shape? = (plan.heldShapes table (plan.readAs L.inside)).map some := by
  unfold terms readAs heldShapes
  cases hplace : plan.inPlace with
  | true =>
    rw [if_pos rfl, if_pos rfl, List.map_map, List.map_map]
    refine List.map_congr_left fun slot hslot => ?_
    simp only [Function.comp_apply, ← holder_inPlace hplace]
    exact hslots _ (holder_shares id hslot).1 []
  | false =>
    rw [if_neg (by simp), if_neg (by simp), List.map_map, List.map_map]
    refine List.map_congr_left fun slot hslot => ?_
    have hlookup := (holdShapes_bound hslots).lookup (L.inside slot.target)
    cases hfind : (plan.plain ++ plan.owned).reverse.find? fun x => L.inside slot.target == L.inside x.target with
    | none => exact absurd (List.find?_eq_none.1 hfind slot (List.mem_reverse.2 (mem_order.2 hslot))) (by simp)
    | some found =>
      rw [hfind] at hlookup
      obtain ⟨m, hm, hshape⟩ := Option.bind_eq_some_iff.1 hlookup
      simp only [Function.comp_apply, holder, hfind, hm, Option.getD_some, hshape]

end Scoping

/-- The shape of what a term stands for; arguments as they are given have none. -/
def Term.shape? (table : Table) : Term → Option Shape
  | .handle _ => some .handle
  | .given _ => none
  | .lowered slot _ => some (slot.shape table)

/-- **The terms of a plan** have the shapes of the slots that its locals hold in the end. -/
theorem terms_shape? (table : Table) (inside : String → String) (plan : CallPlan) :
    (plan.terms inside).map (·.shape? table) = (plan.heldShapes table (plan.readAs inside)).map some := by
  refine Scoping.terms_shapes fun slot _ σ => ?_
  unfold Scoping.termOf
  cases horigin : slot.origin with
  | receiver => simp [pythonScoping, Term.shape?, Slot.shape, horigin]
  | param p => rfl

end CallPlan

end Bindgen.Emit
