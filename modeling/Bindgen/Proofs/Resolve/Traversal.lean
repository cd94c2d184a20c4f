import Bindgen.Resolve.Traversal
import Mathlib.Data.List.Induction
import Mathlib.Data.List.Nodup
import Mathlib.Logic.Relation

/-!
# The order of types

The types of a model stand after those inside them. `InnerFirst` says so of a list by how it has grown: each type is
new, and what is directly inside it is there already. Adding a type with everything inside it keeps a list in that
order (`addTypes_grown`), so that the types of a model are (`types_innerFirst`), whatever they have in common.

`Ty.Within` says that a type is inside another one. It tells which types are added (`mem_addTypes`).

Results:
* `InnerFirst.nodup`, `InnerFirst.children_mem`: each type is there once, and what is inside it as well.
* `InnerFirst.front`: of a list in order every beginning is in order.
* `mem_types`, `forall_types`: the types of a model are those that it mentions, and what is inside them.
* **`types_listed`**: which types are listed, that each is listed once, and in which order.
-/

namespace Bindgen.Interface

/-- **Inner types first**: each type of a list is new, and those directly inside it stand before it. -/
inductive InnerFirst : List Ty → Prop where
  | nil : InnerFirst []
  | snoc {l : List Ty} {t : Ty} (h : InnerFirst l) (hnew : t ∉ l) (hinner : t.children ⊆ l) : InnerFirst (l ++ [t])

/-- A list in order that has grown by a type, and perhaps by types inside it. -/
structure Grown (l : List Ty) (t : Ty) (l' : List Ty) : Prop where
  ordered : InnerFirst l'
  old : l ⊆ l'
  new : t ∈ l'

variable {l l' : List Ty} {t : Ty}

/-! ## Inside a type -/

/-- **A type inside another one**, at any depth, or that type itself. -/
abbrev Ty.Within : Ty → Ty → Prop := Relation.ReflTransGen fun s t => s ∈ t.children

/-- What is inside a type is the type itself or inside one directly inside it. -/
theorem Ty.within_iff {s t : Ty} : s.Within t ↔ s = t ∨ ∃ inner ∈ t.children, s.Within inner := by
  unfold Ty.Within
  rw [Relation.ReflTransGen.cases_tail_iff, eq_comm (a := t)]
  simp only [and_comm]

/-- Nothing is inside a name but the name. -/
theorem Ty.within_named {s : Ty} {name : String} : s.Within (.named name) ↔ s = .named name := by
  rw [Ty.within_iff, or_iff_left]
  rintro ⟨inner, hinner, -⟩
  exact List.not_mem_nil hinner

/-! ## Lists in order -/

theorem InnerFirst.nodup (h : InnerFirst l) : l.Nodup := by
  induction h with
  | nil => exact List.nodup_nil
  | snoc _ hnew _ ih =>
    rw [← List.concat_eq_append]
    exact ih.concat hnew

/-- **Every beginning of a list in order is in order.** -/
theorem InnerFirst.front {rest : List Ty} (h : InnerFirst (l ++ rest)) : InnerFirst l := by
  induction rest using List.reverseRecOn with
  | nil => exact List.append_nil l ▸ h
  | append_singleton rest t ih =>
    refine ih ?_
    generalize hall : l ++ (rest ++ [t]) = all at h
    rw [← List.append_assoc] at hall
    cases h with
    | nil => exact absurd hall (by simp)
    | snoc h _ _ => exact (List.append_inj' hall rfl).1 ▸ h

/-- What is directly inside a type stands before it. -/
theorem InnerFirst.children_before {rest : List Ty} (h : InnerFirst (l ++ t :: rest)) : t.children ⊆ l := by
  rw [List.append_cons] at h
  generalize hall : l ++ [t] = all at h
  cases h.front with
  | nil => exact absurd hall (by simp)
  | snoc _ _ hinner =>
    obtain ⟨rfl, ht⟩ := List.append_inj' hall rfl
    exact List.head_eq_of_cons_eq ht ▸ hinner

theorem InnerFirst.children_mem (h : InnerFirst l) (ht : t ∈ l) : t.children ⊆ l := by
  obtain ⟨front, rest, rfl⟩ := List.append_of_mem ht
  exact List.subset_append_of_subset_left _ h.children_before

/-- What is in the boxes of a list in order is in the list. -/
theorem InnerFirst.unbox_mem (h : InnerFirst l) (ht : t ∈ l) : t.unbox ∈ l := by
  induction t with
  | box t ih => exact ih (h.children_mem ht List.mem_cons_self)
  | _ => exact ht

/-! ## Adding types -/

theorem addNew_grown (h : InnerFirst l) (hinner : t.children ⊆ l) : Grown l t (addNew l t) := by
  unfold addNew
  split
  · exact ⟨h, List.Subset.refl l, ‹_›⟩
  · exact ⟨h.snoc ‹_› hinner, List.subset_append_left l [t], List.mem_append_right l List.mem_cons_self⟩

theorem Grown.add {inner : Ty} (h : Grown l inner l') (hinner : t.children ⊆ l') : Grown l t (addNew l' t) :=
  have hadd := addNew_grown h.ordered hinner
  ⟨hadd.ordered, List.Subset.trans h.old hadd.old, hadd.new⟩

/-- **Adding a type with everything inside it** keeps a list in order. -/
theorem addTypes_grown (t : Ty) (h : InnerFirst l) : Grown l t (addTypes t l) := by
  induction t generalizing l with
  | prim | string | bytes | named => exact addNew_grown h (List.nil_subset l)
  | optional t ih | sequence t ih | box t ih => exact (ih h).add (List.cons_subset.2 ⟨(ih h).new, List.nil_subset _⟩)
  | map k v ihk ihv =>
    have hk := ihk h
    have hv := ihv hk.ordered
    refine Grown.add ⟨hv.ordered, List.Subset.trans hk.old hv.old, hv.new⟩ ?_
    exact List.cons_subset.2 ⟨hv.old hk.new, List.cons_subset.2 ⟨hv.new, List.nil_subset _⟩⟩

theorem mem_addNew {s : Ty} : s ∈ addNew l t ↔ s ∈ l ∨ s = t := by
  unfold addNew
  split
  · exact ⟨.inl, fun h => h.elim id fun he => he ▸ ‹_›⟩
  · rw [List.mem_append, List.mem_singleton]

/-- **Nothing is added but a type and what is inside it.** -/
theorem mem_addTypes {s : Ty} : s ∈ addTypes t l ↔ s ∈ l ∨ s.Within t := by
  induction t generalizing l with
  | prim | string | bytes | named =>
    rw [Ty.within_iff]
    simp only [addTypes, mem_addNew, Ty.children, List.not_mem_nil, false_and, exists_false, or_false]
  | optional t ih | sequence t ih | box t ih =>
    rw [Ty.within_iff, addTypes, mem_addNew, ih]
    simp only [Ty.children, List.mem_singleton, exists_eq_left]
    rw [or_assoc, or_comm (a := s.Within t)]
  | map k v ihk ihv =>
    rw [Ty.within_iff, addTypes, mem_addNew, ihv, ihk]
    simp only [Ty.children, List.mem_cons, List.not_mem_nil, or_false, exists_eq_or_imp, exists_eq_left]
    rw [or_assoc (a := s ∈ l), or_assoc (a := s ∈ l), or_comm (b := s = .map k v)]

/-! ## The types of a model -/

theorem foldl_addTypes (roots : List Ty) (h : InnerFirst l) :
    InnerFirst (roots.foldl (fun seen t => addTypes t seen) l) := by
  induction roots generalizing l with
  | nil => exact h
  | cons t roots ih => exact ih (addTypes_grown t h).ordered

/-- **The types of a model are in order.** -/
theorem types_innerFirst (m : Model) : InnerFirst m.types := foldl_addTypes m.roots .nil

theorem mem_foldl_addTypes {s : Ty} (roots : List Ty) :
    s ∈ roots.foldl (fun seen t => addTypes t seen) l ↔ s ∈ l ∨ ∃ t ∈ roots, s.Within t := by
  induction roots generalizing l with
  | nil => simp only [List.foldl_nil, List.not_mem_nil, false_and, exists_false, or_false]
  | cons t roots ih => rw [List.foldl_cons, ih, mem_addTypes, or_assoc, List.exists_mem_cons_iff]

/-- **The types of a model are those that it mentions, and what is inside them.** -/
theorem mem_types {m : Model} {s : Ty} : s ∈ m.types ↔ ∃ t ∈ m.roots, s.Within t := by
  unfold Model.types
  rw [mem_foldl_addTypes, or_iff_right List.not_mem_nil]

theorem roots_mem_types (m : Model) : m.roots ⊆ m.types := fun t ht => mem_types.2 ⟨t, ht, .refl⟩

/-- What holds of all types that a model mentions, and goes on to hold inside a type, holds of the types of the
model. -/
theorem forall_types {P : Ty → Prop} (hP : ∀ t, P t → ∀ s ∈ t.children, P s) {m : Model} (h : ∀ t ∈ m.roots, P t) :
    ∀ t ∈ m.types, P t := by
  intro s hs
  obtain ⟨t, ht, hwithin⟩ := mem_types.1 hs
  induction hwithin using Relation.ReflTransGen.head_induction_on with
  | refl => exact h t ht
  | head hinner _ ih => exact hP _ (ih (mem_types.2 ⟨t, ht, ‹_›⟩)) _ hinner

/-! ## Where types stand in a model -/

/-- **A type that a model gives to something**: to a field, a parameter or a result. -/
inductive Model.Gives (m : Model) : Ty → Prop where
  | field {d : Definition} {f : Field} (hd : d ∈ m.definitions) (hf : f ∈ d.fields) : m.Gives f.type
  | param {owner : Option Object} {c : Callable} {p : Param} (hc : (owner, c) ∈ m.callables) (hp : p ∈ c.params) :
    m.Gives p.type
  | result {owner : Option Object} {c : Callable} {t : Ty} (hc : (owner, c) ∈ m.callables)
      (ht : c.returns = some t) : m.Gives t

/-- A model mentions its definitions, and the types that it gives. -/
theorem mem_roots {m : Model} : t ∈ m.roots ↔ (∃ d ∈ m.definitions, t = .named d.name) ∨ m.Gives t := by
  unfold Model.roots Definition.roots Callable.roots
  simp only [List.mem_append, List.mem_flatMap, List.mem_cons, List.mem_map, Option.mem_toList]
  constructor
  · rintro (⟨d, hd, rfl | ⟨f, hf, rfl⟩⟩ | ⟨⟨owner, c⟩, hc, ⟨p, hp, rfl⟩ | ht⟩)
    · exact .inl ⟨d, hd, rfl⟩
    · exact .inr (.field hd hf)
    · exact .inr (.param hc hp)
    · exact .inr (.result hc ht)
  · rintro (⟨d, hd, rfl⟩ | h)
    · exact .inl ⟨d, hd, .inl rfl⟩
    · cases h with
      | field hd hf => exact .inl ⟨_, hd, .inr ⟨_, hf, rfl⟩⟩
      | param hc hp => exact .inr ⟨_, hc, .inl ⟨_, hp, rfl⟩⟩
      | result hc ht => exact .inr ⟨_, hc, .inr ht⟩

/-- **The types of a model are all there, once each, inner ones first.** They are the names of its definitions, the
types that it gives to fields, parameters and results, and all that is inside these. -/
theorem types_listed (m : Model) :
    (∀ t, t ∈ m.types ↔ (∃ d ∈ m.definitions, t = .named d.name) ∨ ∃ u, m.Gives u ∧ t.Within u) ∧
      m.types.Nodup ∧ ∀ before t after, m.types = before ++ t :: after → t.children ⊆ before := by
  refine ⟨fun t => ?_, (types_innerFirst m).nodup, fun before t after h => ?_⟩
  · rw [mem_types]
    constructor
    · rintro ⟨u, hu, hwithin⟩
      rcases mem_roots.1 hu with ⟨d, hd, rfl⟩ | hgives
      · exact .inl ⟨d, hd, Ty.within_named.1 hwithin⟩
      · exact .inr ⟨u, hgives, hwithin⟩
    · rintro (⟨d, hd, rfl⟩ | ⟨u, hgives, hwithin⟩)
      · exact ⟨_, mem_roots.2 (.inl ⟨d, hd, rfl⟩), .refl⟩
      · exact ⟨u, mem_roots.2 (.inr hgives), hwithin⟩
  · exact (h ▸ types_innerFirst m).children_before

/-- What two fields have in common is there once, before both. -/
example :
    let optional := Ty.optional .string
    let record : Record := ⟨"Note", [⟨"text", optional⟩, ⟨"tags", .map .string optional⟩]⟩
    ({ ns := "n", records := [record], enums := [], errors := [], objects := [], functions := [] } : Model).types =
      [.named "Note", .string, optional, .map .string optional] := by decide

end Bindgen.Interface
