import Bindgen.Interface.Draft

/-!
# Which drafts stand for a model

A draft is put together part by part, and each part asks of its own names that they are proper texts (`Needs`). So
the whole draft stands for a model just if all its names are.

Results:
* `Needs.bind`, `Needs.mapM`: what parts ask one after another is asked by the whole.
* `isSome_model`: the drafts that stand for a model.
-/

namespace Bindgen.Interface.Draft

open Json (Raw)

/-- A value is a proper text. -/
def IsName (j : Raw) : Prop :=
  ∃ s, j = .string (.text s)

/-! ## The names in a draft -/

/-- The name of what is thrown: null stands for nothing. -/
def thrownNames : Raw → List Raw
  | .null => []
  | j => [j]

def Field.names (f : Draft.Field) : List Raw :=
  [f.name]

def Record.names (r : Draft.Record) : List Raw :=
  r.name :: r.fields.flatMap Field.names

def Variant.names (v : Draft.Variant) : List Raw :=
  v.name :: v.fields.flatMap Field.names

def Choice.names (c : Draft.Choice) : List Raw :=
  c.name :: c.variants.flatMap Variant.names

def Param.names (p : Draft.Param) : List Raw :=
  [p.name]

def Callable.names (c : Draft.Callable) : List Raw :=
  c.name :: (c.params.flatMap Param.names ++ thrownNames c.throws)

def Object.names (o : Draft.Object) : List Raw :=
  o.name :: (o.constructors.flatMap Callable.names ++ o.methods.flatMap Callable.names)

/-- **All names in a draft.** -/
def names (d : Draft) : List Raw :=
  d.ns :: (d.records.flatMap Record.names ++ (d.enums.flatMap Choice.names ++
    (d.errors.flatMap Choice.names ++ (d.objects.flatMap Object.names ++ d.functions.flatMap Callable.names))))

/-! ## Parts and their names -/

/-- A part stands for something just if some values are names. -/
def Needs {α : Type} (x : Option α) (names : List Raw) : Prop :=
  x.isSome ↔ ∀ j ∈ names, IsName j

section Parts

variable {α β : Type} {x : Option α} {ns ms : List Raw}

theorem Needs.pure (a : α) : Needs (Pure.pure a) [] := by simp [Needs]

theorem Needs.bind {f : α → Option β} (hx : Needs x ns) (hf : ∀ a, Needs (f a) ms) : Needs (x >>= f) (ns ++ ms) := by
  unfold Needs at *
  rw [List.forall_mem_append]
  cases x with
  | none =>
    have hmissing : ¬ ∀ j ∈ ns, IsName j := fun h => absurd (hx.mpr h) (by simp)
    exact ⟨fun h => absurd h (by simp), fun h => absurd h.1 hmissing⟩
  | some a =>
    have hall : ∀ j ∈ ns, IsName j := hx.mp rfl
    exact (hf a).trans (and_iff_right hall).symm

theorem Needs.bind_pure {g : α → β} (hx : Needs x ns) : Needs (x >>= fun a => Pure.pure (g a)) ns :=
  List.append_nil ns ▸ hx.bind fun a => .pure (g a)

theorem Needs.map {g : α → β} (hx : Needs x ns) : Needs (g <$> x) ns := by
  rw [← bind_pure_comp]
  exact hx.bind_pure

theorem Needs.mapM {f : α → Option β} {names : α → List Raw} (hf : ∀ a, Needs (f a) (names a)) (xs : List α) :
    Needs (xs.mapM f) (xs.flatMap names) := by
  induction xs with
  | nil => exact .pure []
  | cons x xs ih =>
    rw [List.mapM_cons, List.flatMap_cons]
    exact (hf x).bind fun _ => ih.bind_pure

end Parts

theorem nameOf_needs (j : Raw) : Needs (nameOf j) [j] := by
  simp only [Needs, List.forall_mem_singleton, IsName]
  cases j with
  | string s => cases s <;> simp [nameOf, Text.Str.text?]
  | _ => simp [nameOf]

theorem throwsOf_needs (j : Raw) : Needs (throwsOf j) (thrownNames j) := by
  cases j with
  | null => exact .pure none
  | _ => exact (nameOf_needs _).map

theorem Field.field_needs (f : Draft.Field) : Needs f.field f.names :=
  (nameOf_needs _).bind_pure

theorem Record.record_needs (r : Draft.Record) : Needs r.record r.names :=
  (nameOf_needs _).bind fun _ => (Needs.mapM Field.field_needs _).bind_pure

theorem Variant.variant_needs (v : Draft.Variant) : Needs v.variant v.names :=
  (nameOf_needs _).bind fun _ => (Needs.mapM Field.field_needs _).bind_pure

theorem Choice.choice_needs (c : Draft.Choice) : Needs c.choice c.names :=
  (nameOf_needs _).bind fun _ => (Needs.mapM Variant.variant_needs _).bind_pure

theorem Param.param_needs (p : Draft.Param) : Needs p.param p.names :=
  (nameOf_needs _).bind_pure

theorem Callable.callable_needs (kind : CallableKind) (c : Draft.Callable) : Needs (c.callable kind) c.names :=
  (nameOf_needs _).bind fun _ => (Needs.mapM Param.param_needs _).bind fun _ => (throwsOf_needs _).bind_pure

theorem Object.object_needs (o : Draft.Object) : Needs o.object o.names :=
  (nameOf_needs _).bind fun _ => (Needs.mapM (Callable.callable_needs _) _).bind fun _ =>
    (Needs.mapM (Callable.callable_needs _) _).bind_pure

/-- **A draft stands for a model just if all its names are proper texts.** -/
theorem isSome_model (d : Draft) : d.model.isSome ↔ ∀ j ∈ d.names, IsName j :=
  (nameOf_needs _).bind fun _ => (Needs.mapM Record.record_needs _).bind fun _ =>
    (Needs.mapM Choice.choice_needs _).bind fun _ => (Needs.mapM Choice.choice_needs _).bind fun _ =>
      (Needs.mapM Object.object_needs _).bind fun _ => (Needs.mapM (Callable.callable_needs _) _).bind_pure

end Bindgen.Interface.Draft
