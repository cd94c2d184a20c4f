import Bindgen.Proofs.Resolve.Reach
import Bindgen.Proofs.Resolve.Table
import Bindgen.Resolve.Mapping

/-!
# Defined names

`Table.Defines` says that every name in a type has a definition, behind boxes too. Where that holds of the
fields of all definitions, everything that is reached from such a type has a definition, and the type is
`Sound` as soon as no definition is stored in itself (`sound_of_defines`).

What is thrown has to be an error (`resolveError_eq`).

The shape and the conversion of a type need no more than defined names. `Table.shapeOf` is the shape without the
lookups that can fail, and is what `Table.shape` gives (`shape_eq_ok`).
-/

namespace Bindgen.Interface

/-- The names in a type. -/
def Ty.names : Ty → List String
  | .named name => [name]
  | .optional t | .sequence t | .box t => t.names
  | .map k w => k.names ++ w.names
  | .prim _ | .string | .bytes => []

end Bindgen.Interface

namespace Bindgen.Resolve

open Interface Boundary

/-- Every name in a type has a definition. -/
def Table.Defines (table : Table) (t : Ty) : Prop :=
  ∀ name ∈ t.names, ∃ d, table.lookup name = some d

variable {table : Table}

theorem lookup_named {ds : List Definition} (hn : (ds.map (·.name)).Nodup) {name : String} {d : Definition} :
    (named ds).lookup name = some d ↔ d ∈ ds ∧ d.name = name := by
  rw [← mem_named]
  exact ⟨mem_of_lookup, lookup_of_mem (by rwa [named_keys])⟩

/-! ## What is reached -/

theorem names_of_mem_children {t s : Ty} (h : s ∈ t.children) : s.names ⊆ t.names := by
  cases t with
  | optional t | sequence t | box t =>
    obtain rfl := List.mem_singleton.1 h
    exact List.Subset.refl _
  | map k w =>
    rcases List.mem_cons.1 h with rfl | h
    · exact List.subset_append_left _ _
    · obtain rfl := List.mem_singleton.1 h
      exact List.subset_append_right _ _
  | prim | string | bytes | named => exact absurd h List.not_mem_nil

theorem reaches_of_mem_names {t : Ty} {name : String} (h : name ∈ t.names) :
    Reaches table t (.named name) := by
  induction t with
  | named n =>
    obtain rfl := List.mem_singleton.1 h
    exact .refl
  | optional t ih | sequence t ih | box t ih => exact (ih h).child List.mem_cons_self
  | map k w ihk ihw =>
    rcases List.mem_append.1 h with h | h
    · exact (ihk h).child List.mem_cons_self
    · exact (ihw h).child (List.mem_cons_of_mem k List.mem_cons_self)
  | prim | string | bytes => exact absurd h List.not_mem_nil

/-- The fields of every definition have defined names. -/
def Table.Closed (table : Table) : Prop :=
  ∀ name d, table.lookup name = some d → ∀ f ∈ d.fields, table.Defines f.type

/-- **Whatever is reached has defined names** where the fields of all definitions have. -/
theorem Table.Closed.defines (hc : table.Closed) {t s : Ty} (ht : table.Defines t)
    (h : Reaches table t s) : table.Defines s := by
  induction h with
  | refl => exact ht
  | tail _ hu ih =>
    cases hu with
    | child hs => exact fun name hn => ih name (names_of_mem_children hs hn)
    | field hd hf => exact hc _ _ hd _ hf

theorem sound_of_defines (hc : table.Closed) (ha : ∀ name, ¬ Relation.TransGen (Stores table) name name)
    {t : Ty} (ht : table.Defines t) : Sound table t :=
  ⟨fun _ h => hc.defines ht h _ List.mem_cons_self, fun name _ => ha name⟩

theorem Sound.defines {t : Ty} (h : Sound table t) : table.Defines t :=
  fun name hn => h.resolved name (reaches_of_mem_names hn)

theorem Sound.reached {t s : Ty} (h : Sound table t) (hr : Reaches table t s) : Sound table s :=
  ⟨fun name hn => h.resolved name (hr.trans hn), fun name hn => h.acyclic name (hr.trans hn)⟩

/-! ## Shapes -/

/-- The shape of a type in a checked model, where every name that is no object's is a value's. -/
def Table.shapeOf (table : Table) : Ty → Shape
  | .prim p => .ofPrim p
  | .box t => shapeOf table t
  | .named name => if table.isObject name then .handle else .buffer
  | _ => .buffer

theorem resolve_of_lookup {name : String} {d : Definition} (h : table.lookup name = some d)
    (context : Option String) : table.resolve name context = .ok d := by
  unfold Table.resolve
  rw [h]

/-- What is thrown passes where it is an error, and what is said of anything else is true. -/
theorem resolveError_eq {name : String} {context : Option String} :
    table.resolveError name context = match table.lookup name with
      | some (.error c) => .ok c
      | some d => .error (.notAnError name context d.kind)
      | none => .error (.unresolved name context) := by
  unfold Table.resolveError Table.resolve
  cases table.lookup name with
  | none => rfl
  | some d => cases d <;> rfl

theorem resolveError_eq_ok {name : String} {context : Option String} {e : Choice} :
    table.resolveError name context = .ok e ↔ table.lookup name = some (.error e) := by
  rw [resolveError_eq]
  constructor
  · intro h
    split at h
    · exact Except.ok.inj h ▸ ‹_›
    · exact absurd h (by simp)
    · exact absurd h (by simp)
  · intro h
    rw [h]

theorem isObject_of_lookup {name : String} {d : Definition} (h : table.lookup name = some d) :
    table.isObject name = d.isObject := by
  unfold Table.isObject
  rw [h]
  rfl

theorem shape_eq_ok {t : Ty} (h : table.Defines t) : table.shape t = .ok (table.shapeOf t) := by
  induction t with
  | named name =>
    obtain ⟨d, hd⟩ := h name List.mem_cons_self
    unfold Table.shape Table.shapeOf
    rw [resolve_of_lookup hd, isObject_of_lookup hd]
    rfl
  | box t ih => exact ih h
  | _ => rfl

/-- The conversion of a type with defined names is found. -/
theorem conversion_of_defines {t : Ty} (h : table.Defines t) :
    table.conversion t = .ok (table.conversionOf t) := by
  induction t with
  | prim p => cases p <;> rfl
  | named name =>
    obtain ⟨d, hd⟩ := h name List.mem_cons_self
    unfold Table.conversion Table.conversionOf
    rw [resolve_of_lookup hd, isObject_of_lookup hd]
    rfl
  | box t ih => exact ih h
  | _ => rfl

end Bindgen.Resolve
