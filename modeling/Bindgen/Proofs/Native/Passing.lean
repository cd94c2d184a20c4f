import Bindgen.Proofs.Lists
import Bindgen.Proofs.Native.Call
import Bindgen.Proofs.Native.Copies

/-!
# Binding and passing

Where a plan has consumed buffers, everything else is bound to locals first, and then the copies are made
(`Wrappers.BindsAll`); what is passed is then what the locals stand for. Without consumed buffers the arguments
are lowered where they are passed (`Wrappers.Passes`).

Results:
* `bindAll_ends`: the locals and copies of a plan, or a refusal (`Wrappers.Refused`).
* `BindsAll.keys`: which names are bound.
* `passing_ends`: what is passed.
-/

namespace Bindgen.Native

open Interface Resolve Emit Identifier Wire

variable {b : Wrappers} {s : Session}

namespace Wrappers

/-! ## Binding everything -/

/-- **A refusal.** Some copies are made and then one fails, or nothing is copied at all; and every copy that
was made is freed, once. -/
def Refused (b : Wrappers) (δ : List Request) : Prop :=
  ∃ (cs : List Copy) (tail : List Request), b.Spoilt tail ∧ δ = cs.map Copy.asked ++ tail ++ cs.map Copy.given

theorem Refused.of_aside {δ : List Request} (h : b.Aside δ) : b.Refused δ :=
  ⟨[], δ, Or.inl h, by simp⟩

/-- The locals of consumed buffers, the latest first. -/
def ownedScope (f : Frame) (slots : List Slot) (cs : List Copy) : Scope :=
  ((slots.zip (cs.map (·.buffer))).map fun (s, copy) => (f.inside s.target, .lowered (.buffer copy))).reverse

/-- **The locals of a plan**: everything else is bound first, and then the copies are made. -/
def BindsAll (b : Wrappers) (f : Frame) (s : Session) (scope : Scope) (plan : CallPlan) (cs : List Copy)
    (scope' : Scope) : Prop :=
  ∃ plain, b.Binds f s scope plan.plain plain ∧
    List.Forall₂ (fun slot c => b.Encodes f plain slot c.bytes ∧ c.Sound) plan.owned cs ∧
    scope' = ownedScope f plan.owned cs ++ plain

theorem bindAll_ends (hb : b.Grows) (f : Frame) (scope : Scope) (plan : CallPlan) (s : Session) :
    Ends (b.bindAll f scope plan) s fun r δ _ => match r with
      | .ok scope' => ∃ cs, ¬b.Lacks f protocolName ∧ b.BindsAll f s scope plan cs scope' ∧
          δ = cs.map Copy.asked
      | .error _ => b.Refused δ := by
  unfold bindAll
  refine (bindSlots_prepares hb f plan.plain scope).ends (fun plain _ hplain => ?_)
    fun _ _ _ ha => Refused.of_aside ha
  refine (need_checks b f protocolName).ends (fun _ _ hprotocol => ?_)
    fun _ => Refused.of_aside b.aside_nil
  refine (Prepares.mapM plan.owned fun slot _ => ownedEncoding_prepares hb f plain slot).ends
    (fun encodes _ hencodes => ?_) fun _ _ _ ha => Refused.of_aside ha
  refine Ends.bind (lowerOwnedAll_ends hencodes s) (fun buffers δ s' _ _ hq => Ends.pure ?_)
    fun e δ s' _ hq => ?_
  · obtain ⟨cs, rfl, rfl, hcs⟩ := hq
    exact ⟨cs, hprotocol, ⟨plain, hplain, hcs, rfl⟩, by simp⟩
  · obtain ⟨cs, tail, -, htail, rfl⟩ := hq
    exact ⟨cs, tail, htail, rfl⟩

/-! ## What the locals are -/

theorem Binds.keys {f : Frame} {scope scope' : Scope} {slots : List Slot} (h : b.Binds f s scope slots scope') :
    scope'.map (·.1) = (slots.map fun slot => f.inside slot.target).reverse ++ scope.map (·.1) := by
  induction h with
  | nil scope => simp
  | cons _ _ ih => rw [ih]; simp

theorem ownedScope_keys (f : Frame) {R : Slot → Copy → Prop} {slots : List Slot} {cs : List Copy}
    (h : List.Forall₂ R slots cs) :
    (ownedScope f slots cs).map (·.1) = (slots.map fun slot => f.inside slot.target).reverse := by
  unfold ownedScope
  rw [List.map_reverse, List.map_map]
  congr 1
  induction h with
  | nil => rfl
  | cons _ _ ih => simpa using ih

theorem BindsAll.keys {f : Frame} {scope scope' : Scope} {plan : CallPlan} {cs : List Copy}
    (h : b.BindsAll f s scope plan cs scope') (x : String) :
    x ∈ scope'.map (·.1) ↔ x ∈ plan.slots.map (fun slot => f.inside slot.target) ∨ x ∈ scope.map (·.1) := by
  obtain ⟨plain, hplain, hcs, rfl⟩ := h
  rw [List.map_append, ownedScope_keys f hcs, hplain.keys]
  have hsplit : x ∈ plan.slots.map (fun slot => f.inside slot.target) ↔
      x ∈ plan.owned.map (fun slot => f.inside slot.target) ∨
        x ∈ plan.plain.map (fun slot => f.inside slot.target) := by
    simp only [List.mem_map, CallPlan.owned, CallPlan.plain, List.mem_filter]
    constructor
    · rintro ⟨slot, hslot, rfl⟩
      cases howned : slot.owned with
      | true => exact Or.inl ⟨slot, ⟨hslot, howned⟩, rfl⟩
      | false => exact Or.inr ⟨slot, ⟨hslot, by simp [howned]⟩, rfl⟩
    · rintro (⟨slot, ⟨hslot, -⟩, rfl⟩ | ⟨slot, ⟨hslot, -⟩, rfl⟩)
      · exact ⟨slot, hslot, rfl⟩
      · exact ⟨slot, hslot, rfl⟩
  rw [hsplit, List.mem_append, List.mem_append, List.mem_reverse, List.mem_reverse, or_assoc]

/-! ## What is passed -/

/-- **What stands in the slots of a call**: what each slot gives in place, or what its local stands for. -/
def Passes (b : Wrappers) (f : Frame) (s : Session) (scope : Scope) (plan : CallPlan) : List Passed → Prop :=
  if plan.inPlace then List.Forall₂ (fun slot => b.Gives f s scope (plan.inPlaceSlot slot)) plan.slots
  else List.Forall₂ (fun slot p => ∃ bound, scope.lookup (f.inside slot.target) = some bound ∧
    p = bound.asPassed) plan.slots

theorem passedLocal_eq (f : Frame) {scope : Scope} {slot : Slot} {bound : Bound}
    (h : scope.lookup (f.inside slot.target) = some bound) :
    passedLocal f scope slot = pure bound.asPassed := by
  unfold passedLocal
  rw [h]
  cases bound with
  | argument v => rfl
  | lowered p => rfl

/-- Locals that stand for something are passed. -/
theorem passedLocals_eq (f : Frame) (scope : Scope) :
    ∀ slots : List Slot, (∀ slot ∈ slots, f.inside slot.target ∈ scope.map (·.1)) →
      ∃ passed, List.Forall₂ (fun slot p => ∃ bound, scope.lookup (f.inside slot.target) = some bound ∧
        p = bound.asPassed) slots passed ∧ slots.mapM (passedLocal f scope) = pure passed
  | [], _ => ⟨[], .nil, List.mapM_nil⟩
  | slot :: rest, h => by
    obtain ⟨bound, hbound⟩ := exists_lookup (h slot List.mem_cons_self)
    obtain ⟨passed, hpassed, hrun⟩ := passedLocals_eq f scope rest fun x hx => h x (List.mem_cons_of_mem slot hx)
    refine ⟨bound.asPassed :: passed, .cons ⟨bound, hbound, rfl⟩ hpassed, ?_⟩
    rw [List.mapM_cons, passedLocal_eq f hbound, hrun]
    simp

/-- What has to be there before a plan is called in place, and what is there once it is bound. -/
def Scoped (b : Wrappers) (f : Frame) (s : Session) (scope₀ : Scope) (plan : CallPlan) (cs : List Copy)
    (scope : Scope) : Prop :=
  if plan.inPlace then cs = [] ∧ scope = scope₀ else b.BindsAll f s scope₀ plan cs scope

/-- **Passing arguments**: they are lowered in place, which may fail, or they stand ready. -/
theorem passing_ends (hb : b.Grows) {f : Frame} {scope₀ scope : Scope} {plan : CallPlan} {cs : List Copy}
    {s₀ : Session} (h : b.Scoped f s₀ scope₀ plan cs scope) (s : Session) :
    Ends (b.passing f scope plan) s fun r δ s' => match r with
      | .ok passed => δ = [] ∧ s' = s ∧ b.Passes f s scope plan passed
      | .error _ => plan.inPlace = true ∧ b.Aside δ := by
  unfold passing Passes
  unfold Scoped at h
  cases hplace : plan.inPlace with
  | true =>
    refine Ends.mono (Prepares.mapM plan.slots fun slot _ => lowerSlot_prepares hb f scope _)
      fun r δ s' _ _ hq => ?_
    cases r with
    | ok passed => exact hq
    | error e => exact ⟨rfl, hq⟩
  | false =>
    simp only [hplace] at h
    obtain ⟨passed, hpassed, hrun⟩ := passedLocals_eq f scope plan.slots fun slot hslot =>
      (h.keys _).mpr (Or.inl (List.mem_map_of_mem hslot))
    simp only [hrun]
    exact Ends.pure ⟨rfl, rfl, hpassed⟩

end Wrappers

end Bindgen.Native
