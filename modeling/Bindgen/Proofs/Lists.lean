import Mathlib.Data.List.Forall2
import Mathlib.Data.List.Nodup

/-!
# Lists

Tables and scopes are lists of names with what these stand for. The first entry of a name is what it stands
for, so that finding a name is the same as being in the list where all names differ (`mem_of_lookup`,
`lookup_of_mem`).
-/

namespace Bindgen

section Names

variable {α β : Type} [BEq α] [LawfulBEq α] {l : List (α × β)} {x : α} {y : β}

theorem lookup_cons_eq [DecidableEq α] (x a : α) (b : β) (l : List (α × β)) :
    ((a, b) :: l).lookup x = if x = a then some b else l.lookup x := by
  rw [List.lookup_cons]
  by_cases h : x = a
  · rw [if_pos h, beq_iff_eq.2 h]
  · rw [if_neg h, beq_eq_false_iff_ne.2 h]

theorem mem_of_lookup (h : l.lookup x = some y) : (x, y) ∈ l := by
  obtain ⟨l₁, l₂, rfl, -⟩ := List.lookup_eq_some_iff.1 h
  exact List.mem_append_right _ List.mem_cons_self

theorem lookup_of_mem (hn : (l.map (·.1)).Nodup) (h : (x, y) ∈ l) : l.lookup x = some y := by
  induction l with
  | nil => exact absurd h List.not_mem_nil
  | cons p l ih =>
    rw [List.map_cons, List.nodup_cons] at hn
    rcases List.mem_cons.1 h with rfl | h
    · exact List.lookup_cons_self
    · have hne : x ≠ p.1 := fun he => hn.1 (he ▸ List.mem_map_of_mem h)
      rw [List.lookup_cons, beq_eq_false_iff_ne.2 hne]
      exact ih hn.2 h

/-- Lists with the same entries, of which each name has one, are the same table. -/
theorem lookup_congr {l' : List (α × β)} (hn : (l.map (·.1)).Nodup) (hn' : (l'.map (·.1)).Nodup)
    (h : ∀ p, p ∈ l ↔ p ∈ l') (x : α) : l.lookup x = l'.lookup x := by
  cases hl : l.lookup x with
  | some y => exact (lookup_of_mem hn' ((h _).1 (mem_of_lookup hl))).symm
  | none =>
    cases hl' : l'.lookup x with
    | none => rfl
    | some y => exact absurd (lookup_of_mem hn ((h _).2 (mem_of_lookup hl'))) (by simp [hl])

/-- A name in a list stands for something. -/
theorem exists_lookup (h : x ∈ l.map (·.1)) : ∃ y, l.lookup x = some y := by
  obtain ⟨⟨x, y⟩, hmem, rfl⟩ := List.mem_map.1 h
  cases hlook : l.lookup x with
  | some y' => exact ⟨y', rfl⟩
  | none => exact absurd (List.lookup_eq_none_iff.1 hlook _ hmem) (by simp)

end Names

theorem zip_keys_nodup {α β : Type} {xs : List α} (h : xs.Nodup) (ys : List β) :
    ((xs.zip ys).map (·.1)).Nodup := by
  rw [List.zip_eq_zip_take_min, List.map_fst_zip (by simp)]
  exact h.sublist (List.take_sublist _ _)

/-- Where the keys in a list differ, what comes of one key comes of one entry. -/
theorem flatMap_eq_of_mem {α β γ : Type} {key : α → β} {l : List α} (hn : (l.map key).Nodup) {x : α} (hx : x ∈ l)
    {g : α → List γ} (hg : ∀ y, key y ≠ key x → g y = []) : l.flatMap g = g x := by
  induction l with
  | nil => exact absurd hx List.not_mem_nil
  | cons y l ih =>
    rw [List.map_cons, List.nodup_cons] at hn
    rw [List.flatMap_cons]
    rcases List.mem_cons.1 hx with rfl | hx
    · have hrest : l.flatMap g = [] := List.flatMap_eq_nil_iff.2 fun z hz =>
        hg z fun he => hn.1 (he ▸ List.mem_map_of_mem hz)
      rw [hrest, List.append_nil]
    · have hne : key y ≠ key x := fun he => hn.1 (he ▸ List.mem_map_of_mem hx)
      rw [hg y hne, List.nil_append]
      exact ih hn.2 hx

/-- What comes of the entries from which something comes. -/
theorem filterMap_filter_isSome {α β : Type} (f : α → Option β) (l : List α) :
    (l.filter fun x => (f x).isSome).filterMap f = l.filterMap f := by
  rw [List.filterMap_filter]
  refine List.filterMap_congr fun x _ => ?_
  cases f x <;> rfl

/-- Two that come one after the other in a list and a second one: both in one of them, or one in each. -/
theorem pair_sublist_append {α : Type} {a b : α} {xs ys : List α} :
    [a, b].Sublist (xs ++ ys) ↔ [a, b].Sublist xs ∨ (a ∈ xs ∧ b ∈ ys) ∨ [a, b].Sublist ys := by
  constructor
  · intro h
    obtain ⟨front, back, heq, hfront, hback⟩ := List.sublist_append_iff.1 h
    rcases front with _ | ⟨x, _ | ⟨y, front⟩⟩
    · obtain rfl : [a, b] = back := heq
      exact .inr (.inr hback)
    · obtain ⟨rfl, rfl⟩ := List.cons.inj heq
      exact .inr (.inl ⟨List.singleton_sublist.1 hfront, List.singleton_sublist.1 hback⟩)
    · obtain ⟨rfl, rfl, rfl, -⟩ : a = x ∧ b = y ∧ front = [] ∧ back = [] := by simpa using heq
      exact .inl hfront
  · rintro (h | ⟨ha, hb⟩ | h)
    · exact h.trans (List.sublist_append_left _ _)
    · exact (List.singleton_sublist.2 ha).append (List.singleton_sublist.2 hb)
    · exact h.trans (List.sublist_append_right _ _)

section Pairs

variable {α β : Type} {R : α → β → Prop} {xs : List α} {ys : List β}

/-- What stands next to each other belongs to the lists. -/
theorem forall₂_with_mem (h : List.Forall₂ R xs ys) : List.Forall₂ (fun x y => x ∈ xs ∧ R x y) xs ys :=
  (List.forall₂_and_left _ _).mpr ⟨fun _ hx => hx, h⟩

/-- What stands at a place on the left stands next to what is there on the right. -/
theorem getElem?_of_forall₂ (h : List.Forall₂ R xs ys) {i : ℕ} {x : α} (hx : xs[i]? = some x) :
    ∃ y, ys[i]? = some y ∧ R x y := by
  induction h generalizing i with
  | nil => exact absurd hx (by simp)
  | cons hfirst _ ih =>
    cases i with
    | zero =>
      obtain rfl := Option.some.inj hx
      exact ⟨_, rfl, hfirst⟩
    | succ i => exact ih hx

/-- What stands on the right stands next to something on the left. -/
theorem exists_left_of_forall₂ (h : List.Forall₂ R xs ys) {y : β} (hy : y ∈ ys) : ∃ x ∈ xs, R x y := by
  induction h with
  | nil => exact absurd hy List.not_mem_nil
  | cons hfirst _ ih =>
    rcases List.mem_cons.1 hy with rfl | hy
    · exact ⟨_, List.mem_cons_self, hfirst⟩
    · obtain ⟨x, hx, hR⟩ := ih hy
      exact ⟨x, List.mem_cons_of_mem _ hx, hR⟩

/-- What stands on the left stands next to something on the right. -/
theorem exists_right_of_forall₂ (h : List.Forall₂ R xs ys) {x : α} (hx : x ∈ xs) : ∃ y ∈ ys, R x y :=
  exists_left_of_forall₂ h.flip hx

/-- Two lists come to the same just where what stands next to each other does. -/
theorem map_eq_map_iff {γ : Type} {f : α → γ} {g : β → γ} :
    xs.map f = ys.map g ↔ List.Forall₂ (fun x y => f x = g y) xs ys := by
  rw [← List.forall₂_eq_eq_eq, List.forall₂_map_left_iff, List.forall₂_map_right_iff]

/-- What stands next to the same things goes together. -/
theorem forall₂_compose {γ : Type} {S : α → γ → Prop} {T : β → γ → Prop} {zs : List γ} (h : List.Forall₂ R xs ys)
    (h' : List.Forall₂ S xs zs) (hT : ∀ x y z, R x y → S x z → T y z) : List.Forall₂ T ys zs := by
  induction h generalizing zs with
  | nil =>
    cases h'
    exact .nil
  | cons hfirst _ ih =>
    cases h' with
    | cons hfirst' hrest' => exact .cons (hT _ _ _ hfirst hfirst') (ih hrest')

theorem forall_right_of_forall₂ {P : β → Prop} (h : List.Forall₂ R xs ys) (hP : ∀ x y, R x y → P y) :
    ∀ y ∈ ys, P y := by
  induction h with
  | nil => exact fun y hy => absurd hy List.not_mem_nil
  | cons hfirst _ ih => exact List.forall_mem_cons.mpr ⟨hP _ _ hfirst, ih⟩

end Pairs

end Bindgen
