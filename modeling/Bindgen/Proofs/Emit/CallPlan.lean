import Bindgen.Emit.CallPlan
import Mathlib.Data.List.Nodup

/-!
# Slots of a plan

A plan has a slot for the receiver and one for each parameter. Where the parameters of a callable have
different names each slot is that of its own parameter (`ofCallable_slots`), and the locals of the slots differ
unless a parameter of a method has the name of the receiver's handle (`targets_nodup`).
-/

namespace Bindgen.Emit.CallPlan

open Interface Boundary Resolve

variable {table : Table} {localName : String → String} {params : List Param} {c : Callable}

/-- **Different names.** Every parameter is found under its own name. -/
theorem paramNamed_eq (hnames : (params.map (·.name)).Nodup) {p : Param} (hp : p ∈ params) :
    paramNamed params p = p := by
  unfold paramNamed
  cases hfind : params.reverse.find? (·.name == p.name) with
  | none => exact absurd (List.find?_eq_none.mp hfind p (List.mem_reverse.mpr hp)) (by simp)
  | some q =>
    have hq : q ∈ params := List.mem_reverse.mp (List.mem_of_find?_eq_some hfind)
    have hname : q.name = p.name := by simpa using List.find?_some hfind
    exact List.inj_on_of_nodup_map hnames hq hp hname

/-- A parameter stands for one of its name. -/
theorem paramNamed_found {p : Param} (hp : p ∈ params) :
    paramNamed params p ∈ params ∧ (paramNamed params p).name = p.name := by
  unfold paramNamed
  cases hfind : params.reverse.find? (·.name == p.name) with
  | none => exact ⟨hp, rfl⟩
  | some q => exact ⟨List.mem_reverse.1 (List.mem_of_find?_eq_some hfind), by simpa using List.find?_some hfind⟩

/-- **Every slot** is that of the receiver, which methods have, or of a parameter. -/
theorem mem_slots {symbol : String} {slot : Slot} (h : slot ∈ (ofCallable table localName symbol c).slots) :
    (c.kind = .method ∧ slot = ⟨localName receiverName, .receiver, false⟩) ∨
      ∃ p ∈ c.params, slot = slotOf table localName c.params p := by
  rcases List.mem_append.1 h with h | h
  · split at h
    · next hmethod => exact .inl ⟨hmethod, List.mem_singleton.1 h⟩
    · exact absurd h List.not_mem_nil
  · obtain ⟨p, hp, rfl⟩ := List.mem_map.1 h
    exact .inr ⟨p, hp, rfl⟩

/-- The slot of a parameter that is found under its own name. -/
def paramSlot (table : Table) (localName : String → String) (p : Param) : Slot :=
  ⟨localName p.name, .param p, p.consumed && (table.conversionOf p.type).usesBuffer⟩

/-- The slot of the receiver, which methods have. -/
def receiverSlots (localName : String → String) (c : Callable) : List Slot :=
  if c.kind = .method then [⟨localName receiverName, .receiver, false⟩] else []

/-- **The slots of a callable** whose parameters have different names: that of the receiver, and one for each
parameter in its place. -/
theorem ofCallable_slots (hnames : (c.params.map (·.name)).Nodup) (symbol : String) :
    (ofCallable table localName symbol c).slots =
      receiverSlots localName c ++ c.params.map (paramSlot table localName) := by
  unfold ofCallable receiverSlots
  refine congrArg _ (List.map_congr_left fun p hp => ?_)
  unfold slotOf paramSlot
  rw [paramNamed_eq hnames hp]

/-- **Different locals.** The slots of a callable have different locals, unless the local of a parameter is that
of the receiver's handle. -/
theorem targets_nodup (inside : String → String) (hnames : (c.params.map (·.name)).Nodup) (symbol : String)
    (hlocals : ∀ p ∈ c.params, ∀ q ∈ c.params, inside (localName p.name) = inside (localName q.name) →
      p.name = q.name)
    (hhandle : c.kind = .method → ∀ p ∈ c.params, inside (localName p.name) ≠ inside (localName receiverName)) :
    ((ofCallable table localName symbol c).slots.map fun slot => inside slot.target).Nodup := by
  rw [ofCallable_slots hnames symbol, List.map_append, List.map_map]
  have hparams : (c.params.map fun p => inside (localName p.name)).Nodup := by
    refine (List.nodup_map_iff_inj_on (List.Nodup.of_map _ hnames)).mpr fun p hp q hq h => ?_
    exact List.inj_on_of_nodup_map hnames hp hq (hlocals p hp q hq h)
  unfold receiverSlots
  split
  · next hmethod =>
    refine List.nodup_cons.mpr ⟨?_, hparams⟩
    rintro hmem
    obtain ⟨p, hp, heq⟩ := List.mem_map.mp hmem
    exact hhandle hmethod p hp heq
  · exact hparams

/-- The slots of a callable differ. -/
theorem slots_nodup (hnames : (c.params.map (·.name)).Nodup) (symbol : String) :
    (ofCallable table localName symbol c).slots.Nodup := by
  rw [ofCallable_slots hnames symbol]
  have hparams : (c.params.map (paramSlot table localName)).Nodup := by
    refine (List.nodup_map_iff_inj_on (List.Nodup.of_map _ hnames)).mpr fun p _ q _ h => ?_
    exact Origin.param.inj (congrArg Slot.origin h)
  unfold receiverSlots
  split
  · refine List.nodup_cons.mpr ⟨fun hmem => ?_, hparams⟩
    obtain ⟨p, -, heq⟩ := List.mem_map.mp hmem
    exact absurd (congrArg Slot.origin heq) (by simp [paramSlot])
  · exact hparams

/-- A method that has a parameter of the name of its receiver's handle. -/
def TakesHandleName (c : Callable) : Prop := c.kind = .method ∧ receiverName ∈ c.params.map (·.name)

instance (c : Callable) : Decidable (TakesHandleName c) := inferInstanceAs (Decidable (_ ∧ _))

/-- **Locals that are one and the same**: those of a method's receiver and of a parameter of that name. -/
theorem targets_nodup_iff (table : Table) (hnames : (c.params.map (·.name)).Nodup) (symbol : String)
    (hlocals : ∀ x y, localName x = localName y → x = y) :
    ((ofCallable table localName symbol c).slots.map (·.target)).Nodup ↔ ¬TakesHandleName c := by
  constructor
  · rintro hnodup ⟨hmethod, hmem⟩
    obtain ⟨p, hp, hname⟩ := List.mem_map.mp hmem
    rw [ofCallable_slots hnames symbol, receiverSlots, if_pos hmethod] at hnodup
    refine (List.nodup_cons.mp hnodup).1 (List.mem_map.mpr ⟨paramSlot table localName p, ?_, ?_⟩)
    · exact List.mem_map_of_mem hp
    · exact congrArg localName hname
  · intro htakes
    refine targets_nodup id hnames symbol (fun p _ q _ h => hlocals _ _ h) fun hmethod p hp h => ?_
    exact htakes ⟨hmethod, List.mem_map.mpr ⟨p, hp, hlocals _ _ h⟩⟩

end Bindgen.Emit.CallPlan
