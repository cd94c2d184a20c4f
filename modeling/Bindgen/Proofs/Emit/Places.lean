import Bindgen.Identifier.Reserved
import Bindgen.Proofs.Emit.Scoping

/-!
# What a Python wrapper passes

In a Python wrapper a parameter has its own name, escaped, and inside a class both this name and that of a local may
have become another one. What is passed is a `Term`: the handle of the receiver, or what an argument is lowered to.

Results:
* **`terms_eq_iff`**: a plan passes in every slot the term of that slot, just where the locals keep out of the way of
  each other and of the parameters.
* `placed_iff`: which callables have such a plan.
-/

namespace Bindgen.Emit.CallPlan

open Interface Resolve Identifier

/-- **What is passed in a slot**, in terms of what is given. -/
inductive Term where
  /-- The handle of the receiver. -/
  | handle (slot : Slot)
  /-- The argument for a parameter. -/
  | given (name : String)
  /-- What a slot makes of something: a lowered value, or a copy of it for a consumed buffer. -/
  | lowered (slot : Slot) (of : Term)
  deriving DecidableEq

/-- What locals stand for, the latest first. -/
abbrev Terms := List (String × Term)

/-- **The term that belongs in a slot**: the receiver's handle, or the argument for the slot's own parameter,
lowered. -/
def ownTerm (slot : Slot) : Term :=
  match slot.origin with
  | .receiver => .handle slot
  | .param p => .lowered slot (.given p.name)

/-- **How the names in a wrapper are read** where they are found as they are `inside` a class. -/
def pythonScoping (inside : String → String) : Scoping Term where
  inside := inside
  source p := inside (escapePython p.name)
  handle := .handle
  given p := .given p.name
  lowered slot _ of := .lowered slot of
  lowered_inj h := (Term.lowered.inj h).2
  handle_ne _ _ := Term.noConfusion
  lowered_ne _ _ _ _ := Term.noConfusion

section Names

variable (inside : String → String)

/-- **What a plan passes** in its slots. -/
abbrev terms (plan : CallPlan) : List Term := (pythonScoping inside).terms plan

/-- **A slot that spares a later one**: its local is not the name of the later one's parameter. The locals of
consumed buffers spare every slot, since they are bound last. -/
abbrev Spares : Slot → Slot → Prop := (pythonScoping inside).Spares

/-- **A plan whose locals keep out of the way.** -/
abbrev Placed (plan : CallPlan) : Prop := (pythonScoping inside).Placed plan

end Names

variable {inside : String → String} {plan : CallPlan}

theorem ownTerm_inj {slot slot' : Slot} (h : ownTerm slot = ownTerm slot') : slot = slot' := by
  unfold ownTerm at h
  cases horigin : slot.origin <;> cases horigin' : slot'.origin <;> rw [horigin, horigin'] at h
  · exact Term.handle.inj h
  · exact absurd h (by simp)
  · exact absurd h (by simp)
  · exact (Term.lowered.inj h).1

/-- **With locals**, every slot gets its own term just where the locals differ and spare the later slots. -/
theorem bound_terms_iff (hslots : plan.slots.Nodup) (hplace : plan.inPlace = false) :
    plan.terms inside = plan.slots.map ownTerm ↔
      (plan.slots.map fun slot => inside slot.target).Nodup ∧
        (plan.plain ++ plan.owned).Pairwise (Spares inside) :=
  Scoping.bound_terms_iff hslots (fun _ _ _ _ => ownTerm_inj) hplace

/-- **Every argument in its place.** A plan passes in each slot the term of that slot, just where its locals
keep out of the way. -/
theorem terms_eq_iff (hslots : plan.slots.Nodup) :
    plan.terms inside = plan.slots.map ownTerm ↔ plan.Placed inside :=
  Scoping.terms_eq_iff hslots fun _ _ _ _ => ownTerm_inj

/-- **The plan of a callable is placed** unless it is a method with a parameter that is called like the receiver's
handle, or its locals get in the way of each other where they are bound. -/
theorem placed_iff {table : Table} {localName : String → String} {c : Callable}
    (hnames : (c.params.map (·.name)).Nodup) (symbol : String)
    (hlocals : ∀ x y, localName x = localName y → x = y) :
    let plan := ofCallable table localName symbol c
    plan.Placed inside ↔ ¬TakesHandleName c ∧ (plan.inPlace = false →
      (plan.slots.map fun slot => inside slot.target).Nodup ∧
        (plan.plain ++ plan.owned).Pairwise (Spares inside)) := by
  intro plan
  rw [← targets_nodup_iff table hnames symbol hlocals]
  exact ⟨fun h => ⟨h.targets, fun hplace => ⟨h.locals hplace, h.spares hplace⟩⟩,
    fun h => ⟨h.1, fun hplace => (h.2 hplace).1, fun hplace => (h.2 hplace).2⟩⟩

end Bindgen.Emit.CallPlan
