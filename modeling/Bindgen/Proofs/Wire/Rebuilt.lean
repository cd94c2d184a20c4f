import Bindgen.Wire.Codec
import Mathlib.Logic.Basic

/-!
# Values built anew

A value that is built anew (`Value.rebuilt`) may have other handles in it, and nothing left of what gives its items
only once. Everything else about it stays: its class, its attributes, and its items unless they were used up. Building
it anew twice comes to doing it once (`rebuilt_rebuilt`).
-/

namespace Bindgen.Wire.Value

variable (f g : Option Value → Option String → Option Value) (b c : Bool) (v : Value)

theorem rebuiltAll_eq (xs : List Value) : rebuiltAll f b xs = xs.map (rebuilt f b) := by
  induction xs with
  | nil => rfl
  | cons v xs ih => rw [rebuiltAll, ih, List.map_cons]

theorem rebuiltEntries_eq (entries : List (Value × Value)) :
    rebuiltEntries f b entries = entries.map fun p => (rebuilt f b p.1, rebuilt f b p.2) := by
  induction entries with
  | nil => rfl
  | cons p entries ih => rw [rebuiltEntries, ih, List.map_cons]

theorem lookup_rebuiltFields (fields : List (String × Value)) (name : String) :
    (rebuiltFields f b fields).lookup name = (fields.lookup name).map (rebuilt f b) := by
  induction fields with
  | nil => rfl
  | cons p fields ih =>
    obtain ⟨key, v⟩ := p
    rw [rebuiltFields, List.lookup_cons, List.lookup_cons]
    cases name == key with
    | true => rfl
    | false => exact ih

theorem typeName_rebuilt (s : Schema) : (v.rebuilt f b).typeName s = v.typeName s := by
  cases v <;> rfl

theorem class?_rebuilt : (v.rebuilt f b).class? = v.class? := by
  cases v <;> rfl

theorem givesOnce_rebuilt : (v.rebuilt f b).givesOnce = v.givesOnce := by
  cases v <;> rfl

theorem rebuilt_eq_none : v.rebuilt f b = none ↔ v = none := by
  cases v <;> simp [rebuilt]

theorem variantOf?_rebuilt (c : Interface.Choice) : (v.rebuilt f b).variantOf? c = v.variantOf? c := by
  unfold variantOf?
  rw [class?_rebuilt]

theorem attr?_rebuilt (s : Schema) (name : String) :
    (v.rebuilt f b).attr? s name = (v.attr? s name).map (rebuilt f b) := by
  cases v with
  | «instance» cls fields => exact lookup_rebuiltFields f b fields name
  | failure cls code message fields =>
    unfold attr? rebuilt
    dsimp only
    rw [lookup_rebuiltFields]
    cases fields.lookup name with
    | some w => rfl
    | none => dsimp only [Option.map]; split <;> first | rfl | contradiction
  | int | bool | real | member => unfold attr? rebuilt; dsimp only; split <;> rfl
  | _ => rfl

variable {b v}

/-- The items of a value stay, unless they are used up. -/
theorem items?_rebuilt (h : b = false ∨ v.givesOnce = false) :
    (v.rebuilt f b).items? = v.items?.map (·.map (rebuilt f b)) := by
  cases v with
  | list xs | tuple xs => exact congrArg some (rebuiltAll_eq f b xs)
  | iterable className xs once =>
    have hkept : (b && once) = false := by
      rcases h with rfl | h
      · rfl
      · exact Bool.and_eq_false_iff.2 (.inr h)
    simp [rebuilt, items?, rebuiltAll_eq, hkept]
  | map entries => simp [rebuilt, items?, rebuiltEntries_eq]
  | byteArray _ | view _ => simp [rebuilt, items?]
  | _ => rfl

theorem parts?_rebuilt (h : b = false ∨ v.givesOnce = false) :
    (v.rebuilt f b).parts? = v.parts?.map (·.map (rebuilt f b)) := by
  have hstr : ∀ t, (ofStr t).rebuilt f b = ofStr t := fun t => by cases t <;> rfl
  have hitems := items?_rebuilt f h
  cases v with
  | text t => simp [rebuilt, parts?]
  | broken t => simp [rebuilt, parts?, hstr]
  | bytes _ => simp [rebuilt, parts?]
  | none | bool | int | real | member | object => rfl
  | _ => exact hitems

/-! ## Twice -/

mutual

theorem rebuilt_rebuilt (v : Value) :
    (v.rebuilt f b).rebuilt g c = v.rebuilt (fun handle label => g (f handle label) label) (b || c) := by
  cases v with
  | list xs => exact congrArg list (rebuiltAll_rebuiltAll xs)
  | tuple xs => exact congrArg tuple (rebuiltAll_rebuiltAll xs)
  | map entries => exact congrArg map (rebuiltEntries_rebuiltEntries entries)
  | iterable className xs once =>
    have hitems := rebuiltAll_rebuiltAll xs
    cases once <;> cases b <;> cases c <;> simp_all [rebuilt, rebuiltAll]
  | «instance» cls fields => exact congrArg (Value.instance cls) (rebuiltFields_rebuiltFields fields)
  | failure cls code message fields =>
    exact congrArg (failure cls code message) (rebuiltFields_rebuiltFields fields)
  | _ => rfl

theorem rebuiltAll_rebuiltAll (xs : List Value) : rebuiltAll g c (rebuiltAll f b xs) =
    rebuiltAll (fun handle label => g (f handle label) label) (b || c) xs := by
  cases xs with
  | nil => rfl
  | cons v xs => exact congrArg₂ List.cons (rebuilt_rebuilt v) (rebuiltAll_rebuiltAll xs)

theorem rebuiltEntries_rebuiltEntries (entries : List (Value × Value)) :
    rebuiltEntries g c (rebuiltEntries f b entries) =
      rebuiltEntries (fun handle label => g (f handle label) label) (b || c) entries := by
  cases entries with
  | nil => rfl
  | cons p entries =>
    exact congrArg₂ List.cons (congrArg₂ Prod.mk (rebuilt_rebuilt p.1) (rebuilt_rebuilt p.2))
      (rebuiltEntries_rebuiltEntries entries)

theorem rebuiltFields_rebuiltFields (fields : List (String × Value)) :
    rebuiltFields g c (rebuiltFields f b fields) =
      rebuiltFields (fun handle label => g (f handle label) label) (b || c) fields := by
  cases fields with
  | nil => rfl
  | cons p fields =>
    exact congrArg₂ List.cons (congrArg (Prod.mk p.1) (rebuilt_rebuilt p.2)) (rebuiltFields_rebuiltFields fields)

end

end Bindgen.Wire.Value
