import Bindgen.Proofs.Lists
import Bindgen.Resolve.Table
import Mathlib.Data.List.Duplicate

/-!
# The type table

`tableOf` succeeds just when all definitions have names of their own, and then lists them under these names
(`tableOf_eq_ok`). A name then stands for a definition just when the definition is in the list. Otherwise it names
one that two definitions share (`tableOf_eq_error`).
-/

namespace Bindgen.Resolve

open Interface

/-- Definitions under their names. -/
def named (ds : List Definition) : Table := ds.map fun d => (d.name, d)

theorem named_keys (ds : List Definition) : (named ds).map (·.1) = ds.map (·.name) := by
  unfold named
  rw [List.map_map]
  rfl

theorem mem_named {ds : List Definition} {name : String} {d : Definition} :
    (name, d) ∈ named ds ↔ d ∈ ds ∧ d.name = name := by
  unfold named
  rw [List.mem_map]
  constructor
  · rintro ⟨e, he, h⟩
    obtain ⟨rfl, rfl⟩ := Prod.mk.inj h
    exact ⟨he, rfl⟩
  · rintro ⟨h, rfl⟩
    exact ⟨d, h, rfl⟩

/-- Definitions are added up to the first whose name is taken. -/
theorem addAll_eq_ok {table t : Table} {ds : List Definition} :
    table.addAll ds = .ok t ↔
      (ds.map (·.name)).Nodup ∧ (∀ d ∈ ds, table.lookup d.name = none) ∧ t = table ++ named ds := by
  induction ds generalizing table with
  | nil =>
    simp only [Table.addAll, Except.ok.injEq, List.map_nil, List.nodup_nil, List.not_mem_nil, named,
      List.append_nil, false_imp_iff, implies_true, true_and]
    exact eq_comm
  | cons d ds ih =>
    unfold Table.addAll
    cases hd : table.lookup d.name with
    | some e =>
      rw [if_pos (by rw [Option.isSome_some])]
      constructor
      · intro h; exact absurd h (by simp)
      · rintro ⟨-, h, -⟩
        exact absurd (h d List.mem_cons_self) (by rw [hd]; simp)
    | none =>
      rw [if_neg (by simp), ih, List.map_cons, List.nodup_cons, List.forall_mem_cons, hd]
      have hlook : ∀ e ∈ ds, (table ++ [(d.name, d)]).lookup e.name = none ↔
          table.lookup e.name = none ∧ e.name ≠ d.name := by
        intro e _
        rw [List.lookup_append, Option.or_eq_none_iff, List.lookup_eq_none_iff (l := [(d.name, d)])]
        simp
      constructor
      · rintro ⟨hnd, h, rfl⟩
        refine ⟨⟨?_, hnd⟩, ⟨rfl, fun e he => ((hlook e he).1 (h e he)).1⟩, ?_⟩
        · intro hm
          obtain ⟨e, he, hne⟩ := List.mem_map.1 hm
          exact ((hlook e he).1 (h e he)).2 hne
        · rw [List.append_assoc]
          rfl
      · rintro ⟨⟨hm, hnd⟩, ⟨-, h⟩, rfl⟩
        refine ⟨hnd, fun e he => (hlook e he).2 ⟨h e he, fun hne => hm ?_⟩, ?_⟩
        · exact List.mem_map.2 ⟨e, he, hne⟩
        · rw [List.append_assoc]
          rfl

/-- **A model has a type table just when all its definitions have names of their own.** -/
theorem tableOf_eq_ok {m : Model} {t : Table} :
    tableOf m = .ok t ↔ (m.definitions.map (·.name)).Nodup ∧ t = named m.definitions := by
  unfold tableOf
  rw [addAll_eq_ok]
  simp only [List.lookup_nil, implies_true, true_and, List.nil_append]

/-- Where definitions cannot be added, there is a first whose name is taken. -/
theorem addAll_eq_error {table : Table} {ds : List Definition} {e : Failure}
    (h : table.addAll ds = .error e) : ∃ front d rest, ds = front ++ d :: rest ∧ e = .duplicateType d.name ∧
      ((table.lookup d.name).isSome = true ∨ d.name ∈ front.map (·.name)) := by
  induction ds generalizing table with
  | nil => exact absurd h (by simp [Table.addAll])
  | cons d ds ih =>
    unfold Table.addAll at h
    by_cases hd : (table.lookup d.name).isSome = true
    · rw [if_pos hd] at h
      exact ⟨[], d, ds, rfl, (Except.error.inj h).symm, .inl hd⟩
    · rw [if_neg hd] at h
      obtain ⟨front, d', rest, rfl, rfl, htaken⟩ := ih h
      refine ⟨d :: front, d', rest, rfl, rfl, ?_⟩
      rw [List.lookup_append, Option.isSome_or, Bool.or_eq_true] at htaken
      rw [List.map_cons, List.mem_cons]
      rcases htaken with (htaken | htaken) | htaken
      · exact .inl htaken
      · obtain ⟨d'', hfound⟩ := Option.isSome_iff_exists.mp htaken
        obtain ⟨hname, -⟩ := Prod.mk.inj (List.mem_singleton.mp (mem_of_lookup hfound))
        exact .inr (.inl hname)
      · exact .inr (.inr htaken)

/-- **A model without a type table has a name that two definitions share.** -/
theorem tableOf_eq_error {m : Model} {e : Failure} (h : tableOf m = .error e) :
    ∃ name, e = .duplicateType name ∧ List.Duplicate name (m.definitions.map (·.name)) := by
  obtain ⟨front, d, rest, hds, rfl, htaken⟩ := addAll_eq_error h
  refine ⟨d.name, rfl, ?_⟩
  have hfront : d.name ∈ front.map (·.name) := htaken.resolve_left (by simp)
  rw [List.duplicate_iff_sublist, hds, List.map_append]
  exact (List.singleton_sublist.mpr hfront).append (List.singleton_sublist.mpr List.mem_cons_self)

end Bindgen.Resolve
