import Bindgen.Interface.Decode
import Bindgen.Proofs.Outcome

/-!
# Which serialized models are read

Reading a model asks one thing after another of its text. `demands` lists what is asked, in the order in which it
is: that a section can be gone through, that a constructor is an object, that a key is there, that a type
expression is one. Each step of the reader follows its own demands (`Follows`), so the whole fails just as the first
demand that is not met (`draftOf_follows`). Demands of the first two kinds are made without looking, and there the
failure is not one of form.

Results:
* `Follows.bind`, `Follows.mapM`: demands of steps one after another are demands of the whole.
* `draftOfText_outcome`: when a text is read, and when reading breaks off with something else than an error of form.
-/

namespace Bindgen.Interface.Model

open Json (Raw)

/-- The value under a key, null if there is none. -/
def valueAt (j : Raw) (key : String) : Raw :=
  (j.get? key).getD .null

/-- The name of an item as messages show it. -/
def nameAt (j : Raw) : String :=
  shown (valueAt j "name")

/-- The items of a section, none if it has none. -/
def itemsAt (j : Raw) (key : String) : List Raw :=
  ((j.get? key).bind items?).getD []

/-- What reading asks of a place. -/
inductive Demand where
  /-- A section is missing, or it is something that has items. -/
  | listed (holder : Raw) (key : String)
  /-- A constructor is an object. -/
  | table (constructor : Raw)
  /-- There is something under a key. -/
  | present (holder : Raw) (key context : String)
  /-- A type expression is a text, and well-formed. -/
  | typed (j : Raw) (context : String)

namespace Demand

/-- What goes wrong where a demand is not met. -/
def fault : Demand → Option Failure
  | listed j key => if (j.get? key).all fun v => (items? v).isSome then none else some .uncovered
  | table j => if j.members?.isSome then none else some .uncovered
  | present j key context => if (j.get? key).isSome then none else some (.format (.missing key context))
  | typed (.string (.text expr)) _ =>
    match TypeExpr.parse expr with
    | .ok _ => none
    | .error e => some (.format (.typeExpr expr e))
  | typed (.string (.broken expr)) _ => some (.format (.brokenTypeExpr expr))
  | typed _ context => some (.format (.typeNotText context))

/-- A demand is met. -/
def Met (d : Demand) : Prop :=
  d.fault = none

/-- A demand that is relied on without a look at it: of a section or a constructor. -/
def Unguarded : Demand → Prop
  | listed .. | table .. => True
  | present .. | typed .. => False

end Demand

/-- The first fault of some demands. -/
def firstFault (ds : List Demand) : Option Failure :=
  ds.findSome? Demand.fault

/-- A step fails just as the first of some demands that is not met. -/
def Follows {α : Type} (x : Except Failure α) (ds : List Demand) : Prop :=
  match x with
  | .ok _ => firstFault ds = none
  | .error e => firstFault ds = some e

/-! ## The demands of the parts -/

/-- The demands of a section and its items. -/
def sectionDemands (j : Raw) (key : String) (item : Raw → List Demand) : List Demand :=
  .listed j key :: (itemsAt j key).flatMap item

/-- The demands of something with a name and a type, such as a field. -/
def typedDemands (context : String) (place : Raw → String) (j : Raw) : List Demand :=
  [.present j "name" context, .present j "type" context, .typed (valueAt j "type") (place (valueAt j "name"))]

def fieldsDemands (context : String) (j : Raw) : List Demand :=
  sectionDemands j "fields" (typedDemands context fun name => s!"{context}.{shown name}")

def paramsDemands (context : String) (j : Raw) : List Demand :=
  sectionDemands j "params" (typedDemands context fun name => s!"{context}({shown name})")

/-- The demand of a declared result; nothing is asked where there is none. -/
def returnsDemands (context : String) (j : Raw) : List Demand :=
  match j.get? "returns" with
  | none | some .null => []
  | some v => [.typed v context]

def recordDemands (j : Raw) : List Demand :=
  .present j "name" "record" :: fieldsDemands (nameAt j) j

/-- The demands of a variant; a text alone is one. -/
def variantDemands (owner : Raw) (j : Raw) : List Demand :=
  match j with
  | .string _ => []
  | _ => .present j "name" (shown owner) :: fieldsDemands s!"{shown owner}.{nameAt j}" j

def choiceDemands (word : String) (j : Raw) : List Demand :=
  .present j "name" word :: sectionDemands j "variants" (variantDemands (valueAt j "name"))

/-- The demands of the enums or errors: first of all names, and then of each. -/
def choicesDemands (j : Raw) (key word : String) : List Demand :=
  .listed j key :: ((itemsAt j key).map (.present · "name" word) ++ (itemsAt j key).flatMap (choiceDemands word))

def functionDemands (j : Raw) : List Demand :=
  .present j "name" "function" ::
    (paramsDemands (nameAt j) j ++ returnsDemands s!"{nameAt j} return" j)

/-- The demands of a constructor: a name is none of them. -/
def constructorDemands (owner : Raw) (j : Raw) : List Demand :=
  let name := (j.get? "name").getD (.string "new")
  .table j :: paramsDemands s!"{shown owner}.{shown name}" j

def methodDemands (owner : Raw) (j : Raw) : List Demand :=
  .present j "name" (shown owner) ::
    (paramsDemands s!"{shown owner}.{nameAt j}" j ++
      returnsDemands s!"{shown owner}.{nameAt j} return" j)

def objectDemands (j : Raw) : List Demand :=
  .present j "name" "object" ::
    (sectionDemands j "constructors" (constructorDemands (valueAt j "name")) ++
      sectionDemands j "methods" (methodDemands (valueAt j "name")))

/-- **What reading asks of a model**, in the order in which it does. -/
def demands (j : Raw) : List Demand :=
  .present j "namespace" "model" ::
    (sectionDemands j "records" recordDemands ++ choicesDemands j "enums" "enum" ++
      choicesDemands j "errors" "error" ++ sectionDemands j "objects" objectDemands ++
      sectionDemands j "functions" functionDemands)

/-! ## Steps and their demands -/

section Steps

variable {α β : Type} {x : Except Failure α} {ds es : List Demand}

theorem firstFault_append (ds es : List Demand) :
    firstFault (ds ++ es) = (firstFault ds).or (firstFault es) :=
  List.findSome?_append

theorem Follows.pure (a : α) : Follows (Pure.pure a : Except Failure α) [] := rfl

theorem Follows.bind {f : α → Except Failure β} (hx : Follows x ds) (hf : ∀ a, x = .ok a → Follows (f a) es) :
    Follows (x >>= f) (ds ++ es) := by
  cases x with
  | error e =>
    have hfirst : firstFault ds = some e := hx
    show firstFault (ds ++ es) = some e
    rw [firstFault_append, hfirst, Option.some_or]
  | ok a =>
    have hnone : firstFault ds = none := hx
    have hrest := hf a rfl
    rw [bind_ok]
    cases hb : f a with
    | ok b => rw [hb] at hrest; exact (firstFault_append ds es).trans (by rw [hnone]; exact hrest)
    | error e => rw [hb] at hrest; exact (firstFault_append ds es).trans (by rw [hnone]; exact hrest)

/-- A last step that only puts together what there is asks nothing. -/
theorem Follows.bind_pure {g : α → β} (hx : Follows x ds) : Follows (x >>= fun a => Pure.pure (g a)) ds :=
  List.append_nil ds ▸ hx.bind fun a _ => .pure (g a)

theorem Follows.map {g : α → β} (hx : Follows x ds) : Follows (g <$> x) ds := by
  rw [← bind_pure_comp]
  exact hx.bind_pure

theorem Follows.mapM {f : Raw → Except Failure α} {item : Raw → List Demand} {xs : List Raw}
    (hf : ∀ x, Follows (f x) (item x)) : Follows (xs.mapM f) (xs.flatMap item) := by
  induction xs with
  | nil => exact .pure []
  | cons x xs ih =>
    rw [List.mapM_cons, List.flatMap_cons]
    exact (hf x).bind fun _ _ => ih.bind_pure

theorem Follows.forM {f : Raw → Except Failure Unit} {item : Raw → Demand} {xs : List Raw}
    (hf : ∀ x, Follows (f x) [item x]) : Follows (xs.forM f) (xs.map item) := by
  induction xs with
  | nil => exact .pure ()
  | cons x xs ih => exact (hf x).bind fun _ _ => ih

/-- A demand that is met leaves the others. -/
theorem Follows.met {d : Demand} (hd : d.fault = none) (hx : Follows x ds) : Follows x (d :: ds) := by
  have hfirst : firstFault (d :: ds) = firstFault ds := by rw [firstFault, List.findSome?_cons, hd]; rfl
  unfold Follows
  rw [hfirst]
  exact hx

/-- A demand that is not met is where a step fails. -/
theorem Follows.unmet {d : Demand} {e : Failure} (hd : d.fault = some e) :
    Follows (.error e : Except Failure α) (d :: ds) := by
  show firstFault (d :: ds) = some e
  rw [firstFault, List.findSome?_cons, hd]

end Steps

/-! ## The reader and its demands -/

variable {β : Type}

theorem require_follows (j : Raw) (key context : String) :
    Follows (require j key context) [.present j key context] := by
  unfold require
  cases h : j.get? key with
  | none => exact .unmet (by simp [Demand.fault, h])
  | some v => exact .met (by simp [Demand.fault, h]) (.pure v)

theorem valueAt_of_require {j v : Raw} {key context : String} (h : require j key context = .ok v) :
    v = valueAt j key := by
  unfold require at h
  unfold valueAt
  cases hget : j.get? key <;> simp_all

theorem sectionItems_follows (j : Raw) (key : String) : Follows (sectionItems j key) [.listed j key] := by
  unfold sectionItems
  cases h : j.get? key with
  | none => exact .met (by simp [Demand.fault, h]) (.pure [])
  | some v =>
    cases hv : items? v with
    | none => simp only [hv]; exact .unmet (by simp [Demand.fault, h, hv])
    | some xs => simp only [hv]; exact .met (by simp [Demand.fault, h, hv]) (.pure xs)

theorem itemsAt_of_section {j : Raw} {xs : List Raw} {key : String} (h : sectionItems j key = .ok xs) :
    xs = itemsAt j key := by
  unfold sectionItems at h
  unfold itemsAt
  cases hget : j.get? key with
  | none => simp_all
  | some v => cases hv : items? v <;> simp_all

theorem typeOf_follows (j : Raw) (context : String) : Follows (typeOf j context) [.typed j context] := by
  cases j with
  | string expr =>
    unfold typeOf
    cases expr with
    | text e =>
      cases h : TypeExpr.parse e with
      | ok t => simp only [h]; exact .met (by simp [Demand.fault, h]) (.pure t)
      | error _ => simp only [h]; exact .unmet (by simp [Demand.fault, h])
    | broken b => exact .unmet rfl
  | _ => exact .unmet rfl

/-- A key that has to be there, before what is done with its value. -/
theorem Follows.require {j : Raw} {key context : String} {k : Raw → Except Failure β} {es : List Demand}
    (h : Follows (k (valueAt j key)) es) : Follows (require j key context >>= k) (.present j key context :: es) :=
  (require_follows j key context).bind fun _ hv => valueAt_of_require hv ▸ h

/-- A section that is read item by item, before what comes after it. -/
theorem Follows.items {α : Type} {j : Raw} {key : String} {f : Raw → Except Failure α}
    {k : List α → Except Failure β} {item : Raw → List Demand} {es : List Demand} (hf : ∀ x, Follows (f x) (item x))
    (hk : ∀ ys, Follows (k ys) es) :
    Follows (sectionItems j key >>= fun xs => xs.mapM f >>= k) (sectionDemands j key item ++ es) :=
  (sectionItems_follows j key).bind fun _ hxs =>
    itemsAt_of_section hxs ▸ (Follows.mapM hf).bind fun ys _ => hk ys

theorem section_follows {α : Type} {j : Raw} {key : String} {f : Raw → Except Failure α}
    {item : Raw → List Demand} (hf : ∀ x, Follows (f x) (item x)) :
    Follows (sectionItems j key >>= fun xs => xs.mapM f) (sectionDemands j key item) :=
  (sectionItems_follows j key).bind fun _ hxs => itemsAt_of_section hxs ▸ Follows.mapM hf

theorem Follows.items_pure {α : Type} {j : Raw} {key : String} {f : Raw → Except Failure α} {g : List α → β}
    {item : Raw → List Demand} (hf : ∀ x, Follows (f x) (item x)) :
    Follows (sectionItems j key >>= fun xs => xs.mapM f >>= fun ys => Pure.pure (g ys)) (sectionDemands j key item) :=
  List.append_nil (sectionDemands j key item) ▸ .items hf fun ys => .pure (g ys)

theorem fieldsOf_follows (j : Raw) (context : String) : Follows (fieldsOf j context) (fieldsDemands context j) :=
  section_follows fun _ => .require (.require (typeOf_follows _ _).bind_pure)

theorem paramsOf_follows (j : Raw) (context : String) : Follows (paramsOf j context) (paramsDemands context j) :=
  section_follows fun _ => .require (.require (typeOf_follows _ _).bind_pure)

theorem returnsOf_follows (j : Raw) (context : String) : Follows (returnsOf j context) (returnsDemands context j) := by
  unfold returnsOf returnsDemands
  cases j.get? "returns" with
  | none => exact .pure none
  | some v =>
    cases v with
    | null => exact .pure none
    | _ => exact (typeOf_follows _ _).map

theorem recordOf_follows (j : Raw) : Follows (recordOf j) (recordDemands j) :=
  .require (fieldsOf_follows j _).bind_pure

theorem variantOf_follows (owner j : Raw) : Follows (variantOf owner j) (variantDemands owner j) := by
  cases j with
  | string _ => exact .pure _
  | _ => exact .require (fieldsOf_follows _ _).bind_pure

theorem choiceOf_follows (word : String) (j : Raw) : Follows (choiceOf word j) (choiceDemands word j) :=
  .require (.items_pure (variantOf_follows _))

theorem choicesOf_follows (j : Raw) (key word : String) :
    Follows (choicesOf j key word) (choicesDemands j key word) := by
  refine (sectionItems_follows j key).bind fun xs hxs => ?_
  obtain rfl := itemsAt_of_section hxs
  have hnames : ∀ d, Follows (discard (require d "name" word)) [.present d "name" word] :=
    fun d => (require_follows d "name" word).map
  exact (Follows.forM hnames).bind fun _ _ => .mapM (choiceOf_follows word)

theorem functionOf_follows (j : Raw) : Follows (functionOf j) (functionDemands j) :=
  .require ((paramsOf_follows j _).bind fun _ _ => (returnsOf_follows j _).bind_pure)

theorem methodOf_follows (owner j : Raw) : Follows (methodOf owner j) (methodDemands owner j) :=
  .require ((paramsOf_follows j _).bind fun _ _ => (returnsOf_follows j _).bind_pure)

theorem constructorOf_follows (owner j : Raw) : Follows (constructorOf owner j) (constructorDemands owner j) := by
  unfold constructorOf
  cases h : j.members? with
  | none => exact .unmet (by simp [Demand.fault, h])
  | some _ => exact .met (by simp [Demand.fault, h]) (paramsOf_follows j _).bind_pure

theorem objectOf_follows (j : Raw) : Follows (objectOf j) (objectDemands j) :=
  .require (.items (constructorOf_follows _) fun _ => .items_pure (methodOf_follows _))

/-- **Reading fails just as the first demand that is not met.** -/
theorem draftOf_follows (j : Raw) : Follows (draftOf j) (demands j) := by
  refine .require ?_
  simp only [List.append_assoc]
  exact .items recordOf_follows fun _ => (choicesOf_follows j _ _).bind fun _ _ =>
    (choicesOf_follows j _ _).bind fun _ _ => .items objectOf_follows fun _ => .items_pure functionOf_follows

/-! ## What reading a text comes to -/

/-- A section that is relied on without a look is null, a truth value or a number where it breaks the reading. -/
theorem Demand.not_met_listed {j : Raw} {key : String} :
    ¬ (Demand.listed j key).Met ↔
      ∃ v, j.get? key = some v ∧ (v = .null ∨ (∃ b, v = .bool b) ∨ ∃ n, v = .number n) := by
  cases h : j.get? key with
  | none => simp [Met, fault, h]
  | some v => cases v <;> simp [Met, fault, h, items?]

theorem Demand.not_met_table {j : Raw} : ¬ (Demand.table j).Met ↔ ∀ members, j ≠ .object members := by
  cases j <;> simp [Met, fault, JsonOf.members?]

/-- What is looked at is reported as an error of form, and what is not breaks the reading off. -/
theorem Demand.unguarded_iff {d : Demand} {f : Failure} (h : d.fault = some f) :
    d.Unguarded ↔ ∀ e, f ≠ .format e := by
  unfold fault at h
  split at h
  · obtain ⟨-, h⟩ := (ite_eq_iff.mp h).resolve_left (by simp)
    simp [Unguarded, ← Option.some.inj h]
  · obtain ⟨-, h⟩ := (ite_eq_iff.mp h).resolve_left (by simp)
    simp [Unguarded, ← Option.some.inj h]
  · obtain ⟨-, h⟩ := (ite_eq_iff.mp h).resolve_left (by simp)
    simp [Unguarded, ← Option.some.inj h]
  · split at h
    · exact absurd h (by simp)
    · simp [Unguarded, ← Option.some.inj h]
  · simp [Unguarded, ← Option.some.inj h]
  · simp [Unguarded, ← Option.some.inj h]

theorem firstFault_eq_some {ds : List Demand} {f : Failure} : firstFault ds = some f ↔
    ∃ front d rest, ds = front ++ d :: rest ∧ d.fault = some f ∧ ∀ d' ∈ front, d'.Met :=
  List.findSome?_eq_some_iff

/-- **When a text is read, and when reading breaks off.** It is read just if it is an object of which all demands
are met. It fails with something else than an error of form just if it has an integer of too many digits, or if the
first demand that is not met is one that is relied on without a look: a section with no items, or a constructor
that is no object. -/
theorem draftOfText_outcome (text : String) :
    ((∃ draft, draftOfText text = .ok draft) ↔
      ∃ j, Json.parse text = .ok j ∧ j.members?.isSome ∧ ∀ d ∈ demands j, d.Met) ∧
    ((∃ f, draftOfText text = .error f ∧ ∀ e, f ≠ .format e) ↔
      Json.parse text = .error .tooManyDigits ∨
        ∃ j front d rest, Json.parse text = .ok j ∧ j.members?.isSome ∧ demands j = front ++ d :: rest ∧
          (∀ d' ∈ front, d'.Met) ∧ ¬ d.Met ∧ d.Unguarded) := by
  unfold draftOfText
  cases hparse : Json.parse text with
  | error e => cases e <;> simp
  | ok j =>
    by_cases hroot : j.members?.isSome
    · have hfollows := draftOf_follows j
      simp only [hroot, if_true, Except.ok.injEq, exists_eq_left', true_and]
      cases hdraft : draftOf j with
      | ok draft =>
        rw [hdraft] at hfollows
        have hmet : ∀ d ∈ demands j, d.Met := List.findSome?_eq_none_iff.mp hfollows
        refine ⟨by simpa using hmet, ?_⟩
        simp only [reduceCtorEq, false_and, exists_false, false_or, false_iff]
        rintro ⟨_, front, d, rest, rfl, -, hds, -, hd, -⟩
        exact hd (hmet d (hds ▸ by simp))
      | error f =>
        rw [hdraft] at hfollows
        obtain ⟨front, d, rest, hds, hd, hfront⟩ := firstFault_eq_some.mp hfollows
        simp only [reduceCtorEq, exists_false, false_iff, false_or, Except.error.injEq, exists_eq_left']
        refine ⟨fun hmet => ?_, fun hf => ?_, ?_⟩
        · have hnone : d.fault = none := hmet d (hds ▸ by simp)
          simp [hnone] at hd
        · exact ⟨j, front, d, rest, rfl, hroot, hds, hfront, by simp [Demand.Met, hd], (Demand.unguarded_iff hd).mpr hf⟩
        · rintro ⟨_, front', d', rest', rfl, -, hds', hfront', hunmet, hd'⟩
          obtain ⟨f', hf'⟩ := Option.ne_none_iff_exists'.mp hunmet
          -- whatever comes first is what the reader has failed with
          have hfirst : firstFault (demands j) = some f' := firstFault_eq_some.mpr ⟨front', d', rest', hds', hf', hfront'⟩
          obtain rfl := Option.some.inj (hfirst.symm.trans hfollows)
          exact (Demand.unguarded_iff hf').mp hd'
    · simp [hroot]

/-- A number in the place of a method is reported, and in the place of a constructor it is not. -/
example : methodOf (.string "T") (.int 3) = .error (.format (.missing "name" "T")) ∧
    constructorOf (.string "T") (.int 3) = .error .uncovered := ⟨rfl, rfl⟩

end Bindgen.Interface.Model
