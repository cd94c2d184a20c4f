import Bindgen.Proofs.Emit.CallPlan
import Bindgen.Proofs.Lists

/-!
# Arguments in their places

A plan is printed in several languages, and each reads the names in a wrapper in its own way. A `Scoping` is such a
reading: the names under which locals and parameters are found, and what is passed for them. What a plan passes in its
slots (`Scoping.terms`) follows the text of the wrapper: in place a local stands for the last slot that has it, and
otherwise the slots are lowered one after another, each where the locals before it are bound already, the consumed
buffers last of all.

Results:
* `bind_spared`, `spared_of_bind`: locals that take no parameter's name away, and only those, are bound to what belongs
  in their slots.
* **`terms_eq_iff`**: a plan passes in every slot what belongs there, just where the locals keep out of the way of each
  other and of the parameters (`Placed`).
-/

namespace Bindgen.Emit.CallPlan

open Interface

/-- **How the names in a wrapper are read** in a language, and what is passed then. -/
structure Scoping (M : Type) where
  /-- A local where it is bound and read. -/
  inside : String → String
  /-- The name of a parameter where its slot is lowered. -/
  source : Param → String
  /-- The handle of the receiver. -/
  handle : Slot → M
  /-- The argument for a parameter, as it is given. -/
  given : Param → M
  /-- What a slot makes of what its parameter's name stands for. -/
  lowered : Slot → Param → M → M
  lowered_inj : ∀ {slot p m m'}, lowered slot p m = lowered slot p m' → m = m'
  handle_ne : ∀ slot p, handle slot ≠ given p
  lowered_ne : ∀ slot p m q, lowered slot p m ≠ given q

namespace Scoping

section Terms

variable {M : Type} (L : Scoping M)

/-- **What belongs in a slot**: the receiver's handle, or the argument for the slot's own parameter, lowered. -/
def own (slot : Slot) : M :=
  match slot.origin with
  | .receiver => L.handle slot
  | .param p => L.lowered slot p (L.given p)

/-- What the name of a parameter stands for: a local that has taken it, or its argument. -/
def sourceOf (σ : List (String × M)) (p : Param) : M := (σ.lookup (L.source p)).getD (L.given p)

/-- What is lowered for a slot where some locals are bound. -/
def termOf (σ : List (String × M)) (slot : Slot) : M :=
  match slot.origin with
  | .receiver => L.handle slot
  | .param p => L.lowered slot p (L.sourceOf σ p)

/-- Binds the locals of slots, one after another. -/
def bind : List (String × M) → List Slot → List (String × M)
  | σ, [] => σ
  | σ, slot :: rest => bind ((L.inside slot.target, L.termOf σ slot) :: σ) rest

/-- The locals of consumed buffers, which are all copied before one is bound. -/
def copies (σ : List (String × M)) (slots : List Slot) : List (String × M) :=
  (slots.map fun slot => (L.inside slot.target, L.termOf σ slot)).reverse

/-- What the locals of a plan stand for when its symbol is called. -/
def bound (plan : CallPlan) : List (String × M) :=
  let plain := L.bind [] plan.plain
  L.copies plain plan.owned ++ plain

/-- **What a plan passes** in its slots. -/
def terms (plan : CallPlan) : List M :=
  if plan.inPlace then plan.slots.map fun slot => L.termOf [] (plan.inPlaceSlot slot)
  else plan.slots.map fun slot => ((L.bound plan).lookup (L.inside slot.target)).getD (L.own slot)

/-- **A slot that spares a later one**: its local is not the name of the later one's parameter. The locals of consumed
buffers spare every slot, since they are bound last. -/
def Spares (slot later : Slot) : Prop :=
  slot.owned = false → ∀ p, later.origin = .param p → L.inside slot.target ≠ L.source p

/-- **A plan whose locals keep out of the way**: they differ, and where they are bound they spare the slots that are
lowered later. -/
structure Placed (plan : CallPlan) : Prop where
  targets : (plan.slots.map (·.target)).Nodup
  locals : plan.inPlace = false → (plan.slots.map fun slot => L.inside slot.target).Nodup
  spares : plan.inPlace = false → (plan.plain ++ plan.owned).Pairwise L.Spares

/-- No name that is bound is that of a slot's parameter. -/
def SparedBy (keys : List String) (slot : Slot) : Prop :=
  ∀ p, slot.origin = .param p → L.source p ∉ keys

/-- No local stands for an argument as it is given. -/
def Lowered (σ : List (String × M)) : Prop := ∀ e ∈ σ, ∀ p, e.2 ≠ L.given p

end Terms

variable {M : Type} {L : Scoping M} {σ : List (String × M)} {slot : Slot} {slots : List Slot} {plan : CallPlan}

/-! ## What is lowered for a slot -/

theorem termOf_spared (h : L.SparedBy (σ.map (·.1)) slot) : L.termOf σ slot = L.own slot := by
  unfold termOf own
  cases horigin : slot.origin with
  | receiver => rfl
  | param p =>
    have hnone : σ.lookup (L.source p) = none := List.lookup_eq_none_iff.2 fun e he => by
      have hne : L.source p ≠ e.1 := fun heq => h p horigin (heq ▸ List.mem_map_of_mem he)
      simpa using hne
    simp [sourceOf, hnone]

theorem termOf_nil (L : Scoping M) (slot : Slot) : L.termOf [] slot = L.own slot :=
  termOf_spared fun _ _ => List.not_mem_nil

theorem termOf_ne (σ : List (String × M)) (slot : Slot) (p : Param) : L.termOf σ slot ≠ L.given p := by
  unfold termOf
  cases slot.origin with
  | receiver => exact L.handle_ne slot p
  | param q => exact L.lowered_ne slot q _ p

theorem Lowered.cons (h : L.Lowered σ) (x : String) (slot : Slot) : L.Lowered ((x, L.termOf σ slot) :: σ) :=
  List.forall_mem_cons.2 ⟨termOf_ne σ slot, h⟩

theorem spared_of_termOf (hσ : L.Lowered σ) (h : L.termOf σ slot = L.own slot) :
    L.SparedBy (σ.map (·.1)) slot := by
  intro p horigin hmem
  unfold termOf own at h
  rw [horigin] at h
  have hsource : L.sourceOf σ p = L.given p := L.lowered_inj h
  obtain ⟨m, hm⟩ := exists_lookup hmem
  rw [sourceOf, hm] at hsource
  exact hσ _ (mem_of_lookup hm) p hsource

/-! ## Binding locals -/

theorem bind_keys (L : Scoping M) (σ : List (String × M)) (slots : List Slot) :
    (L.bind σ slots).map (·.1) = (slots.map fun slot => L.inside slot.target).reverse ++ σ.map (·.1) := by
  induction slots generalizing σ with
  | nil => rfl
  | cons slot rest ih => rw [bind, ih]; simp

theorem copies_keys (L : Scoping M) (σ : List (String × M)) (slots : List Slot) :
    (L.copies σ slots).map (·.1) = (slots.map fun slot => L.inside slot.target).reverse := by
  simp [copies]

/-- A later binding of other locals leaves a name as it is. -/
theorem lookup_bind {x : String} (hx : x ∉ slots.map fun slot => L.inside slot.target) (σ : List (String × M)) :
    (L.bind σ slots).lookup x = σ.lookup x := by
  induction slots generalizing σ with
  | nil => rfl
  | cons slot rest ih =>
    obtain ⟨hfirst, hrest⟩ := not_or.1 (List.mem_cons.not.1 hx)
    rw [bind, ih hrest, List.lookup_cons, beq_eq_false_iff_ne.2 hfirst]

/-- **Spared slots** are bound to what belongs in them. -/
theorem bind_spared (howned : ∀ slot ∈ slots, slot.owned = false) (σ : List (String × M))
    (hσ : ∀ slot ∈ slots, L.SparedBy (σ.map (·.1)) slot) (hpairs : slots.Pairwise L.Spares) :
    L.bind σ slots = (slots.map fun slot => (L.inside slot.target, L.own slot)).reverse ++ σ := by
  induction slots generalizing σ with
  | nil => rfl
  | cons slot rest ih =>
    obtain ⟨hfirst, hrest⟩ := List.pairwise_cons.1 hpairs
    rw [bind, termOf_spared (hσ slot List.mem_cons_self),
      ih (fun x hx => howned x (List.mem_cons_of_mem slot hx)) _ (fun x hx => ?_) hrest]
    · simp
    · intro p horigin hmem
      rcases List.mem_cons.1 hmem with heq | hmem
      · exact hfirst x hx (howned slot List.mem_cons_self) p horigin heq.symm
      · exact hσ x (List.mem_cons_of_mem slot hx) p horigin hmem

/-- Slots that are bound to what belongs in them **are spared**, by the locals before them and by each other. -/
theorem spared_of_bind (hkeys : (slots.map fun slot => L.inside slot.target).Nodup) (σ : List (String × M))
    (hσ : L.Lowered σ)
    (hown : ∀ slot ∈ slots, (L.bind σ slots).lookup (L.inside slot.target) = some (L.own slot)) :
    (∀ slot ∈ slots, L.SparedBy (σ.map (·.1)) slot) ∧ slots.Pairwise L.Spares ∧ L.Lowered (L.bind σ slots) := by
  induction slots generalizing σ with
  | nil => exact ⟨by simp, .nil, hσ⟩
  | cons slot rest ih =>
    obtain ⟨hfirst, hrest⟩ := List.nodup_cons.1 hkeys
    have hslot : L.termOf σ slot = L.own slot := by
      have hfound := hown slot List.mem_cons_self
      rw [bind, lookup_bind hfirst, List.lookup_cons_self] at hfound
      exact Option.some.inj hfound
    obtain ⟨hspared, hpairs, hlowered⟩ := ih hrest ((L.inside slot.target, L.termOf σ slot) :: σ)
      (hσ.cons _ _) fun x hx => hown x (List.mem_cons_of_mem slot hx)
    refine ⟨fun x hx => ?_, List.pairwise_cons.2 ⟨fun x hx _ p horigin heq => ?_, hpairs⟩, hlowered⟩
    · rcases List.mem_cons.1 hx with rfl | hx
      · exact spared_of_termOf hσ hslot
      · exact fun p horigin hmem => hspared x hx p horigin (List.mem_cons_of_mem _ hmem)
    · exact hspared x hx p horigin (heq ▸ List.mem_cons_self)

end Scoping

/-! ## Slots in place -/

section Slots

variable {plan : CallPlan} {slot : Slot}

theorem plain_of_inPlace (hplace : plan.inPlace = true) : plan.plain = plan.slots := by
  have hnone : ∀ slot ∈ plan.slots, ¬slot.owned = true := by
    simpa [inPlace, owned] using hplace
  exact List.filter_eq_self.2 fun slot hslot => by simpa using hnone slot hslot

theorem find_target (hplace : plan.inPlace = true) (hslot : slot ∈ plan.slots) :
    ∃ found ∈ plan.slots, plan.plain.reverse.find? (·.target == slot.target) = some found ∧
      found.target = slot.target := by
  cases hfind : plan.plain.reverse.find? (·.target == slot.target) with
  | none =>
    have hmem : slot ∈ plan.plain.reverse := by rwa [List.mem_reverse, plain_of_inPlace hplace]
    exact absurd (List.find?_eq_none.1 hfind slot hmem) (by simp)
  | some found =>
    have hmem := List.mem_reverse.1 (List.mem_of_find?_eq_some hfind)
    rw [plain_of_inPlace hplace] at hmem
    exact ⟨found, hmem, rfl, by simpa using List.find?_some hfind⟩

theorem mem_slots_of_plain (h : slot ∈ plan.plain) : slot ∈ plan.slots ∧ slot.owned = false := by
  simpa [plain] using h

theorem mem_slots_of_owned (h : slot ∈ plan.owned) : slot ∈ plan.slots ∧ slot.owned = true := by
  simpa [owned] using h

theorem mem_order : slot ∈ plan.plain ++ plan.owned ↔ slot ∈ plan.slots := by
  rw [List.mem_append]
  refine ⟨fun h => h.elim (fun h => (mem_slots_of_plain h).1) fun h => (mem_slots_of_owned h).1, fun h => ?_⟩
  cases howned : slot.owned with
  | true => exact .inr (List.mem_filter.2 ⟨h, howned⟩)
  | false => exact .inl (List.mem_filter.2 ⟨h, by simp [howned]⟩)

end Slots

namespace Scoping

variable {M : Type} {L : Scoping M} {slot : Slot} {plan : CallPlan}

/-- Locals that are no parameter's name spare every slot. -/
theorem spares_of_ne (h : ∀ slot ∈ plan.slots, ∀ later ∈ plan.slots, ∀ p, later.origin = .param p →
    L.inside slot.target ≠ L.source p) : (plan.plain ++ plan.owned).Pairwise L.Spares :=
  List.pairwise_of_forall_mem_list fun slot hslot later hlater _ =>
    h slot (mem_order.1 hslot) later (mem_order.1 hlater)

/-- **In place**, every slot gets what belongs there just where the locals differ. -/
theorem inPlace_terms_iff (hslots : plan.slots.Nodup)
    (hinj : ∀ slot ∈ plan.slots, ∀ other ∈ plan.slots, L.own slot = L.own other → slot = other)
    (hplace : plan.inPlace = true) :
    L.terms plan = plan.slots.map L.own ↔ (plan.slots.map (·.target)).Nodup := by
  unfold terms
  rw [if_pos hplace, List.map_inj_left]
  constructor
  · intro hall
    refine (List.nodup_map_iff_inj_on hslots).2 fun slot hslot other hother heq => hinj slot hslot other hother ?_
    rw [← hall slot hslot, ← hall other hother, inPlaceSlot, inPlaceSlot, heq]
    obtain ⟨found, -, hfound, -⟩ := find_target hplace hother
    rw [hfound]
    rfl
  · intro htargets slot hslot
    obtain ⟨found, hmem, hfound, htarget⟩ := find_target hplace hslot
    rw [inPlaceSlot, hfound, termOf_nil]
    exact congrArg L.own (List.inj_on_of_nodup_map htargets hmem hslot htarget)

/-! ## Slots with locals -/

theorem bound_keys (L : Scoping M) (plan : CallPlan) :
    ((L.bound plan).map (·.1)).Perm (plan.slots.map fun slot => L.inside slot.target) := by
  rw [bound, List.map_append, copies_keys, bind_keys, List.map_nil, List.append_nil]
  refine ((List.reverse_perm _).append (List.reverse_perm _)).trans ?_
  rw [← List.map_append]
  refine List.Perm.map _ ?_
  unfold owned plain
  exact List.filter_append_perm (·.owned) plan.slots

/-- The local of every slot stands for something. -/
theorem exists_lookup_bound (L : Scoping M) (hslot : slot ∈ plan.slots) :
    ∃ m, (L.bound plan).lookup (L.inside slot.target) = some m :=
  exists_lookup ((bound_keys L plan).mem_iff.2 (List.mem_map_of_mem hslot))

/-- Locals that differ and spare each other stand for what belongs in their slots. -/
theorem lookup_bound (hkeys : (plan.slots.map fun slot => L.inside slot.target).Nodup)
    (hpairs : (plan.plain ++ plan.owned).Pairwise L.Spares) (hslot : slot ∈ plan.slots) :
    (L.bound plan).lookup (L.inside slot.target) = some (L.own slot) := by
  obtain ⟨hplain, -, hcross⟩ := List.pairwise_append.1 hpairs
  have hbound : L.bind [] plan.plain =
      (plan.plain.map fun slot => (L.inside slot.target, L.own slot)).reverse ++ [] :=
    bind_spared (fun x hx => (mem_slots_of_plain hx).2) [] (fun _ _ _ _ => List.not_mem_nil) hplain
  refine lookup_of_mem ((bound_keys L plan).nodup_iff.2 hkeys) ?_
  rw [bound, List.mem_append]
  cases howned : slot.owned with
  | false =>
    refine Or.inr ?_
    rw [hbound, List.append_nil, List.mem_reverse]
    exact List.mem_map_of_mem (List.mem_filter.2 ⟨hslot, by simp [howned]⟩)
  | true =>
    have hmem : slot ∈ plan.owned := List.mem_filter.2 ⟨hslot, howned⟩
    have hterm : L.termOf (L.bind [] plan.plain) slot = L.own slot := by
      refine termOf_spared fun p horigin hkey => ?_
      rw [bind_keys] at hkey
      obtain ⟨x, hx, heq⟩ : ∃ x ∈ plan.plain, L.inside x.target = L.source p := by simpa using hkey
      exact hcross x hx slot hmem (mem_slots_of_plain hx).2 p horigin heq
    refine Or.inl ?_
    rw [copies, List.mem_reverse, ← hterm]
    exact List.mem_map_of_mem (f := fun slot => (L.inside slot.target, L.termOf _ slot)) hmem

/-- Locals that stand for what belongs in their slots differ, and spare each other. -/
theorem spares_of_lookup (hslots : plan.slots.Nodup)
    (hinj : ∀ slot ∈ plan.slots, ∀ other ∈ plan.slots, L.own slot = L.own other → slot = other)
    (hown : ∀ slot ∈ plan.slots, (L.bound plan).lookup (L.inside slot.target) = some (L.own slot)) :
    (plan.slots.map fun slot => L.inside slot.target).Nodup ∧ (plan.plain ++ plan.owned).Pairwise L.Spares := by
  have hkeys : (plan.slots.map fun slot => L.inside slot.target).Nodup := by
    refine (List.nodup_map_iff_inj_on hslots).2 fun slot hslot other hother heq => hinj slot hslot other hother ?_
    exact Option.some.inj ((hown slot hslot).symm.trans (heq ▸ hown other hother))
  have hbound := (bound_keys L plan).nodup_iff.2 hkeys
  have hplain : ∀ slot ∈ plan.plain,
      (L.bind [] plan.plain).lookup (L.inside slot.target) = some (L.own slot) := by
    intro slot hslot
    obtain ⟨hmem, hflag⟩ := mem_slots_of_plain hslot
    have hentry := mem_of_lookup (hown slot hmem)
    have hnodup : ((L.bind [] plan.plain).map (·.1)).Nodup := by
      rw [bound, List.map_append] at hbound
      exact hbound.of_append_right
    refine lookup_of_mem hnodup ((List.mem_append.1 hentry).resolve_left fun howned => ?_)
    rw [copies, List.mem_reverse] at howned
    obtain ⟨x, hx, hxeq⟩ := List.mem_map.1 howned
    obtain ⟨hxmem, hxflag⟩ := mem_slots_of_owned hx
    have hsame := List.inj_on_of_nodup_map hkeys hxmem hmem (Prod.mk.inj hxeq).1
    rw [hsame, hflag] at hxflag
    exact absurd hxflag (by simp)
  have hplainKeys : (plan.plain.map fun slot => L.inside slot.target).Nodup :=
    hkeys.sublist (List.filter_sublist.map _)
  obtain ⟨-, hpairs, hlowered⟩ := spared_of_bind hplainKeys [] (fun _ he => absurd he List.not_mem_nil) hplain
  refine ⟨hkeys, List.pairwise_append.2 ⟨hpairs, ?_, fun x hx slot hslot _ p horigin heq => ?_⟩⟩
  · refine List.pairwise_of_forall_mem_list fun x hx y _ hflag => ?_
    exact absurd ((mem_slots_of_owned hx).2.symm.trans hflag) (by simp)
  · have hentry : (L.inside slot.target, L.termOf (L.bind [] plan.plain) slot) ∈ L.bound plan := by
      rw [bound, List.mem_append, copies, List.mem_reverse]
      exact Or.inl (List.mem_map_of_mem (f := fun slot => (L.inside slot.target, L.termOf _ slot)) hslot)
    have hterm := (lookup_of_mem hbound hentry).symm.trans (hown slot (mem_slots_of_owned hslot).1)
    refine spared_of_termOf hlowered (Option.some.inj hterm) p horigin ?_
    rw [bind_keys, ← heq]
    exact List.mem_append_left _ (List.mem_reverse.2 (List.mem_map_of_mem hx))

/-- **With locals**, every slot gets what belongs there just where the locals differ and spare the later slots. -/
theorem bound_terms_iff (hslots : plan.slots.Nodup)
    (hinj : ∀ slot ∈ plan.slots, ∀ other ∈ plan.slots, L.own slot = L.own other → slot = other)
    (hplace : plan.inPlace = false) :
    L.terms plan = plan.slots.map L.own ↔
      (plan.slots.map fun slot => L.inside slot.target).Nodup ∧ (plan.plain ++ plan.owned).Pairwise L.Spares := by
  unfold terms
  rw [if_neg (by simp [hplace]), List.map_inj_left]
  constructor
  · intro hall
    refine spares_of_lookup hslots hinj fun slot hslot => ?_
    obtain ⟨m, hm⟩ := exists_lookup_bound L hslot
    have hterm := hall slot hslot
    rw [hm] at hterm
    rw [hm, ← hterm, Option.getD_some]
  · rintro ⟨hkeys, hpairs⟩ slot hslot
    rw [lookup_bound hkeys hpairs hslot, Option.getD_some]

/-- **Every argument in its place.** A plan passes in each slot what belongs there, just where its locals keep out of
the way. -/
theorem terms_eq_iff (hslots : plan.slots.Nodup)
    (hinj : ∀ slot ∈ plan.slots, ∀ other ∈ plan.slots, L.own slot = L.own other → slot = other) :
    L.terms plan = plan.slots.map L.own ↔ L.Placed plan := by
  cases hplace : plan.inPlace with
  | true =>
    rw [inPlace_terms_iff hslots hinj hplace]
    have hnone : ¬plan.inPlace = false := by simp [hplace]
    exact ⟨fun h => ⟨h, fun hbound => absurd hbound hnone, fun hbound => absurd hbound hnone⟩, fun h => h.targets⟩
  | false =>
    rw [bound_terms_iff hslots hinj hplace]
    refine ⟨fun h => ⟨List.Nodup.of_map L.inside ?_, fun _ => h.1, fun _ => h.2⟩, fun h =>
      ⟨h.locals hplace, h.spares hplace⟩⟩
    rw [List.map_map]
    exact h.1

end Scoping

end Bindgen.Emit.CallPlan
