import Bindgen.Resolve.Table
import Mathlib.Data.List.Chain
import Mathlib.Logic.Relation

/-!
# What can be reached from a type

A type uses the types inside it, and a name uses the types of the fields of its definition. An object has no
fields, so nothing is reached through one. `Reaches` is any number of such steps.

A definition `Stores` another one if a field of it holds a value of the other that is not behind a box.
`Sound` is what a check decides: every name that is reached has a definition, and none stores itself, directly
or through others.
-/

namespace Bindgen.Resolve

open Interface

/-- One type uses another: the other is directly inside it, or is the type of a field of its definition. -/
inductive Uses (table : Table) : Ty → Ty → Prop where
  | child {t s : Ty} (h : s ∈ t.children) : Uses table t s
  | field {name : String} {d : Definition} {f : Field} (hd : table.lookup name = some d)
      (hf : f ∈ d.fields) : Uses table (.named name) f.type

/-- One type uses another directly or through others, or is the other. -/
abbrev Reaches (table : Table) : Ty → Ty → Prop := Relation.ReflTransGen (Uses table)

variable {table : Table}

theorem Reaches.child {t s r : Ty} (h : s ∈ t.children) (hr : Reaches table s r) : Reaches table t r :=
  Relation.ReflTransGen.head (.child h) hr

theorem Reaches.field {name : String} {d : Definition} {f : Field} {r : Ty}
    (hd : table.lookup name = some d) (hf : f ∈ d.fields) (hr : Reaches table f.type r) :
    Reaches table (.named name) r :=
  Relation.ReflTransGen.head (.field hd hf) hr

/-- The types that a type uses, in order. -/
def usesOf (table : Table) : Ty → List Ty
  | .named name => ((table.lookup name).map fun d => d.fields.map (·.type)).getD []
  | t => t.children

theorem mem_usesOf {t s : Ty} (h : Uses table t s) : s ∈ usesOf table t := by
  cases h with
  | child h =>
    cases t with
    | named => exact absurd h List.not_mem_nil
    | _ => exact h
  | field hd hf =>
    simp only [usesOf, hd]
    exact List.mem_map_of_mem hf

/-- What is closed under uses has everything that is reached from it. -/
theorem Reaches.mem_of_closed {ts : List Ty} (hc : ∀ t ∈ ts, ∀ s ∈ usesOf table t, s ∈ ts) {t s : Ty}
    (ht : t ∈ ts) (h : Reaches table t s) : s ∈ ts := by
  induction h with
  | refl => exact ht
  | tail _ hu ih => exact hc _ ih _ (mem_usesOf hu)

/-! ## By value -/

/-- The names in the by-value part of a type, which ends at a box. -/
def valueNames : Ty → List String
  | .named name => [name]
  | .optional t | .sequence t => valueNames t
  | .map k w => valueNames k ++ valueNames w
  | .prim _ | .string | .bytes | .box _ => []

/-- A name is stored in a definition: it is in the by-value part of a field. An object stores nothing. -/
def Stores (table : Table) (a b : String) : Prop :=
  ∃ d, table.lookup a = some d ∧ ∃ f ∈ d.fields, b ∈ valueNames f.type

theorem reaches_of_mem_valueNames {t : Ty} {name : String} (h : name ∈ valueNames t) :
    Reaches table t (.named name) := by
  induction t with
  | named n =>
    obtain rfl := List.mem_singleton.1 h
    exact .refl
  | optional t ih | sequence t ih => exact (ih h).child List.mem_cons_self
  | map k w ihk ihw =>
    rcases List.mem_append.1 h with h | h
    · exact (ihk h).child List.mem_cons_self
    · exact (ihw h).child (List.mem_cons_of_mem k List.mem_cons_self)
  | prim | string | bytes | box => exact absurd h List.not_mem_nil

/-- Every name that a type reaches has a definition, and none is stored in itself. -/
structure Sound (table : Table) (t : Ty) : Prop where
  resolved : ∀ name, Reaches table t (.named name) → ∃ d, table.lookup name = some d
  acyclic : ∀ name, Reaches table t (.named name) → ¬ Relation.TransGen (Stores table) name name

/-- What a failure may say about a type: a name that it reaches has no definition, or some that it reaches
are stored in each other all the way round. -/
inductive Blames (table : Table) (t : Ty) : Failure → Prop where
  | unresolved {name : String} {context : Option String} (hl : table.lookup name = none)
      (hr : Reaches table t (.named name)) : Blames table t (.unresolved name context)
  | recursive {first : String} {others : List String}
      (hc : List.IsChain (Stores table) (first :: others ++ [first]))
      (hr : ∀ name ∈ first :: others ++ [first], Reaches table t (.named name)) :
      Blames table t (.recursive (first :: others ++ [first]))

/-- A chain with both ends leads from one to the other. -/
theorem transGen_of_isChain {α : Type} {r : α → α → Prop} {a b : α} {l : List α}
    (h : List.IsChain r (a :: l ++ [b])) : Relation.TransGen r a b := by
  induction l generalizing a with
  | nil => exact .single (List.isChain_pair.1 h)
  | cons c l ih =>
    obtain ⟨hac, hl⟩ := List.isChain_cons_cons.1 h
    exact .head hac (ih hl)

/-- Nothing can be said against a sound type. -/
theorem Sound.not_blames {t : Ty} {e : Failure} (h : Sound table t) : ¬ Blames table t e := by
  intro hb
  cases hb with
  | unresolved hl hr =>
    obtain ⟨d, hd⟩ := h.resolved _ hr
    exact absurd (hl.symm.trans hd) (by simp)
  | @recursive first others hc hr =>
    exact h.acyclic first (hr first List.mem_cons_self) (transGen_of_isChain hc)

end Bindgen.Resolve
