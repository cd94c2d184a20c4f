import Bindgen.Emit.PythonModule
import Bindgen.Proofs.Emit.Mentions
import Bindgen.Proofs.Outcome

/-!
# Converters in the Python module

Only in its section of converters does the module assign any: all other lines are within (`Code.Within`), those of
wrappers because they are moved to the right, and those of classes because they refer to no converter. In that
section there is one assignment for each definition and composite (`assignmentOf`); a class that goes with it stands
before it.

Results:
* `moduleLines_assigns`: the assignments of a module, in order, and the converters to which it refers: those of the
  types that its surface has to do with.
-/

namespace Bindgen.Emit.PythonModule

open Interface Boundary Resolve Identifier Code

variable {P : Ty → Prop} {s : Surface} {table : Table} {plan : CallPlan} {t : Ty}

/-! ## Calls -/

theorem lowerExpr_only (ht : P t) (value : String) : (lowerExpr table t value).Only P := by
  unfold lowerExpr
  split <;> simpa using ht

theorem liftExpr_only (ht : P t) {value : Code} (hvalue : value.Only P) : (liftExpr table t value).Only P := by
  unfold liftExpr
  split <;> simpa using ⟨ht, hvalue⟩

theorem slotExpr_only {slot : Slot} (h : slot.Only P) : (slotExpr table slot).Only P := by
  unfold slotExpr
  split
  · exact only_text _
  · next p horigin => exact lowerExpr_only (h p horigin) _

theorem ownedPair_only {slot : Slot} (h : slot.Only P) : (ownedPair slot).Only P := by
  unfold ownedPair
  split
  · exact only_text _
  · next p horigin => simpa using h p horigin

theorem preludeLines_only (table : Table) (h : ∀ slot ∈ plan.slots, slot.Only P) :
    Each (Only P) (preludeLines table plan) := by
  have howned := owned_only h
  have hbound : Each (Only P) (plan.plain.map fun slot => slot.target ++ " = " ++ slotExpr table slot) :=
    .map fun slot hslot => by simpa using slotExpr_only (plain_only h slot hslot)
  unfold preludeLines
  split
  · exact .nil
  · split
    · next slot hslots =>
      have hslot : slot.Only P := howned slot (hslots ▸ List.mem_cons_self)
      exact hbound.append (.single (by simpa using ownedPair_only hslot))
    · have hpairs : (Code.join ", " (plan.owned.map ownedPair)).Only P :=
        only_join _ (.map fun slot hslot => ownedPair_only (howned slot hslot))
      exact hbound.append (.single (by simpa using hpairs))

theorem callExpr_only (table : Table) (h : ∀ slot ∈ plan.slots, slot.Only P) : (callExpr table plan).Only P := by
  have hargs : Each (Only P) (plan.slots.map fun slot =>
      if plan.inPlace then slotExpr table (plan.inPlaceSlot slot) else slot.target) := by
    refine .map fun slot hslot => ?_
    split
    · exact slotExpr_only (inPlaceSlot_only h hslot)
    · exact only_text _
  exact only_between (only_join _ (((texts_within _).only.append hargs).append (texts_within _).only))

theorem body_only (h : ∀ slot ∈ plan.slots, slot.Only P) {returns : Option Ty} (hr : ∀ t ∈ returns, P t) :
    Each (Only P) (body table plan returns) := by
  have hcall := callExpr_only table h
  refine (preludeLines_only table h).append ?_
  cases returns with
  | none => exact .single hcall
  | some t => exact .single (only_append.2 ⟨only_text _, liftExpr_only (hr t rfl) hcall⟩)

/-! ## Classes and functions -/

section Wrappers

variable {f : Callable} (h : ∀ t ∈ f.roots, P t)
include h

theorem planOf_only (symbol : String) : ∀ slot ∈ (planOf s symbol f).slots, slot.Only P := slots_only h

theorem constructorLines_within (o : Object) (symbol : String) :
    Each (Within P) (constructorLines s o symbol f) := by
  have hslots := planOf_only (s := s) h symbol
  have hprelude := indent_within (n := 8) (preludeLines_only s.table hslots)
  have hcall := callExpr_only s.table hslots
  unfold constructorLines
  split
  · exact ((texts_within _).append hprelude).append (.cons (within_between hcall (by decide)) (texts_within [""]))
  · exact ((texts_within _).append hprelude).append (.cons (within_between hcall (by decide)) (texts_within [""]))

theorem wrapperBody_within (n : Nat) (symbol : String) :
    Each (Within P) (indent n (body s.table (planOf s symbol f) f.returns)) :=
  indent_within (body_only (planOf_only h symbol) fun t ht =>
    h t (List.mem_append_right _ (Option.mem_toList.2 ht)))

theorem methodLines_within (symbol : String) : Each (Within P) (methodLines s symbol f) :=
  ((texts_within _).append (wrapperBody_within h 8 symbol)).append (texts_within [""])

end Wrappers

section Sections

variable (hs : s.Covers P)
include hs

theorem memberLines_within (o : Object) {f : Signature} (hf : f ∈ s.symbols) :
    Each (Within P) (memberLines s o f) := by
  unfold memberLines
  split
  · exact .nil
  · next c hc =>
    have hroots := hs.callables f hf c hc
    exact .ite (constructorLines_within hroots o f.name) (methodLines_within hroots f.name)

theorem objectLines_within (o : Object) : Each (Within P) (objectLines s o) := by
  have hmembers : Each (Within P) ((s.objectFunctions o).flatMap (memberLines s o)) :=
    .flatMap fun f hf => memberLines_within hs o (List.mem_filter.1 hf).1
  exact ((texts_within _).append hmembers).append (texts_within _)

theorem functionLines_within {f : Signature} (hf : f ∈ s.symbols) : Each (Within P) (functionLines s f) := by
  unfold functionLines
  split
  · exact .nil
  · next c hc =>
    have hbody := wrapperBody_within (s := s) (hs.callables f hf c hc) 4 f.name
    exact ((texts_within _).append hbody).append (texts_within ["", ""])

end Sections

theorem sectionFor_within {α : Type} {xs : List α} {lines : α → List Code} (title : String)
    (h : ∀ x ∈ xs, Each (Within P) (lines x)) : Each (Within P) (sectionFor title xs lines) :=
  .ite .nil ((texts_within _).append (.flatMap h))

/-! ## Converters -/

/-- The assignment of the converter of a definition. -/
def instanceLine (name : String) : Code :=
  .converter (.named name) ++ " = " ++ converterClass name ++ "()"

/-- What the section of converters assigns for a definition or composite. -/
def assignmentOf : Converted → List Code
  | .definition d => [instanceLine d.name]
  | .composite t => compositeConverter t

/-- Lines with some assignments, which refer to the converters of some types. -/
structure Assigns (P : Ty → Prop) (assigned lines : List Code) : Prop where
  only : Each (Only P) lines
  assignments : assignments lines = assigned

theorem Assigns.append {xs ys as bs : List Code} (hx : Assigns P as xs) (hy : Assigns P bs ys) :
    Assigns P (as ++ bs) (xs ++ ys) := by
  refine ⟨hx.only.append hy.only, ?_⟩
  rw [← hx.assignments, ← hy.assignments]
  exact List.filter_append xs ys

theorem assigns_nothing {lines : List Code} (h : Each (Within P) lines) : Assigns P [] lines :=
  ⟨h.only, assignments_of_within h⟩

theorem Assigns.flatMap {α : Type} {xs : List α} {f g : α → List Code} (h : ∀ x ∈ xs, Assigns P (g x) (f x)) :
    Assigns P (xs.flatMap g) (xs.flatMap f) := by
  induction xs with
  | nil => exact assigns_nothing .nil
  | cons x xs ih =>
    obtain ⟨hx, hxs⟩ := List.forall_mem_cons.1 h
    exact hx.append (ih hxs)

/-- **The converter of a definition** is assigned behind its class. -/
theorem converterInstance_assigns {front : List Code} {name : String} (hfront : Each (Within P) front)
    (hname : P (.named name)) : Assigns P [instanceLine name] (front ++ converterInstance name) := by
  have hline : (instanceLine name).Only P := by simpa [instanceLine] using hname
  have hempty : Each (Within P) (texts ["", ""]) := texts_within _
  exact (assigns_nothing hfront).append ⟨(hempty.only.append (.single hline)).append hempty.only, rfl⟩

section Fields

variable {fields : List Field} (h : ∀ f ∈ fields, P f.type)
include h

theorem checkFields_only : Each (Only P) (checkFields fields) := .map fun f hf => by simpa using h f hf

theorem writeFields_only : Each (Only P) (writeFields fields) := .map fun f hf => by simpa using h f hf

theorem readFields_only : (readFields fields).Only P := only_join _ (.map fun f hf => by simpa using h f hf)

end Fields

theorem recordConverter_assigns {r : Record} (hname : P (.named r.name)) (h : ∀ f ∈ r.fields, P f.type) :
    Assigns P [instanceLine r.name] (recordConverter r) := by
  have hread : Each (Within P) ["        return " ++ r.name ++ "(" ++ readFields r.fields ++ ")"] :=
    .single (within_of_first (by simpa using readFields_only h) rfl (by decide))
  have hwrite : Each (Only P) (if r.fields.isEmpty then texts ["pass"] else writeFields r.fields) :=
    .ite (texts_within _).only (writeFields_only h)
  refine converterInstance_assigns ?_ hname
  exact (((((texts_within _).append (indent_within (checkFields_only h))).append (texts_within _)).append
    hread).append (texts_within _)).append (indent_within hwrite)

section Choices

variable {e : Choice} {v : Variant}

theorem flatConverter_assigns (hname : P (.named e.name)) : Assigns P [instanceLine e.name] (flatConverter e) :=
  converterInstance_assigns (texts_within _) hname

theorem checkVariant_within (h : ∀ f ∈ v.fields, P f.type) (owner : String) :
    Each (Within P) (checkVariant owner v) :=
  ((texts_within _).append (indent_within (checkFields_only h))).append (texts_within _)

theorem readVariant_within (h : ∀ f ∈ v.fields, P f.type) (owner : String) (number : Nat) :
    Each (Within P) (readVariant owner number v) :=
  (texts_within _).append (.single (within_of_first (by simpa using readFields_only h) rfl (by decide)))

theorem writeVariant_within (h : ∀ f ∈ v.fields, P f.type) (owner : String) (number : Nat) :
    Each (Within P) (writeVariant owner number v) :=
  ((texts_within _).append (indent_within (writeFields_only h))).append (texts_within _)

theorem variantsConverter_assigns (hname : P (.named e.name)) (h : ∀ v ∈ e.variants, ∀ f ∈ v.fields, P f.type) :
    Assigns P [instanceLine e.name] (variantsConverter e) := by
  have hcheck : Each (Within P) (e.variants.flatMap (checkVariant e.name)) :=
    .flatMap fun v hv => checkVariant_within (h v hv) e.name
  have hread : Each (Within P) ((numbered e.variants).flatMap fun p => readVariant e.name p.1 p.2) :=
    .flatMap fun p hp => readVariant_within (h p.2 (mem_numbered hp)) e.name p.1
  have hwrite : Each (Within P) ((numbered e.variants).flatMap fun p => writeVariant e.name p.1 p.2) :=
    .flatMap fun p hp => writeVariant_within (h p.2 (mem_numbered hp)) e.name p.1
  refine converterInstance_assigns ?_ hname
  exact ((((((texts_within _).append hcheck).append (texts_within _)).append hread).append
    (texts_within _)).append hwrite).append (texts_within _)

end Choices

/-- **The converter of a definition.** -/
theorem definition_assigns {d : Definition} (h : ∀ t ∈ d.roots, P t) :
    Assigns P [instanceLine d.name] (converterLines (.definition d)) := by
  obtain ⟨hname, htypes⟩ := List.forall_mem_cons.1 h
  have hfields : ∀ f ∈ d.fields, P f.type := List.forall_mem_map.1 htypes
  cases d with
  | record r => exact recordConverter_assigns hname hfields
  | enum e =>
    show Assigns P [instanceLine e.name] (enumConverter e)
    unfold enumConverter
    split
    · exact flatConverter_assigns hname
    · exact variantsConverter_assigns hname fun v hv f hf => hfields f (List.mem_flatMap.2 ⟨v, hv, hf⟩)
  | error e => exact variantsConverter_assigns hname fun v hv f hf => hfields f (List.mem_flatMap.2 ⟨v, hv, hf⟩)
  | object o => exact converterInstance_assigns (texts_within _) hname

/-- **The converter of a composite.** -/
theorem compositeConverter_assigns (ht : P t) (hinner : ∀ u ∈ t.children, P u) :
    Assigns P (compositeConverter t) (compositeConverter t) := by
  cases t with
  | optional u | sequence u =>
    have hu : P u := hinner u List.mem_cons_self
    exact ⟨.single (by simpa using ⟨ht, hu⟩), rfl⟩
  | map k v =>
    have hk : P k := hinner k List.mem_cons_self
    have hv : P v := hinner v (List.mem_cons_of_mem k List.mem_cons_self)
    exact ⟨.single (by simpa using ⟨ht, hk, hv⟩), rfl⟩
  | prim | string | bytes | named | box => exact assigns_nothing .nil

/-! ## The module -/

/-- **The assignments of a module**, in order: one for each definition and composite. It refers to the converters of
no other types than its surface has to do with. -/
theorem moduleLines_assigns (hs : s.Covers P) {lines : List Code} (h : moduleLines s = .ok lines) :
    Assigns P ((Converted.all s.model).flatMap assignmentOf) lines := by
  obtain ⟨symbols, -, h⟩ := bind_eq_ok.1 h
  obtain rfl := pure_eq_ok.1 h
  have hdata : Each (Within P) (texts (preamble s ++ symbols) ++
      sectionFor "Records" s.model.records (texts <| recordLines ·) ++
      sectionFor "Enums" s.model.enums (texts <| enumLines ·) ++
      sectionFor "Errors" s.model.errors (texts <| errorLines ·) ++ s.model.objects.flatMap (objectLines s)) :=
    ((((texts_within _).append
      (sectionFor_within _ fun _ _ => texts_within _)).append
      (sectionFor_within _ fun _ _ => texts_within _)).append
      (sectionFor_within _ fun _ _ => texts_within _)).append
      (.flatMap fun o _ => objectLines_within hs o)
  have hconverters : Assigns P ((Converted.all s.model).flatMap assignmentOf) (convertersLines s.model) := by
    have hall : ∀ x ∈ Converted.all s.model, Assigns P (assignmentOf x) (converterLines x) := by
      intro x hx
      rcases List.mem_append.1 hx with hx | hx
      · obtain ⟨d, hd, rfl⟩ := List.mem_map.1 hx
        exact definition_assigns (hs.definitions d hd)
      · obtain ⟨t, ht, rfl⟩ := List.mem_map.1 hx
        obtain ⟨hself, hinner⟩ := hs.composites t (List.mem_filter.1 ht).1
        exact compositeConverter_assigns hself hinner
    have hpart := ((assigns_nothing (texts_within (sectionTitle "Converters"))).append (.flatMap hall)).append
      (assigns_nothing (texts_within ["", ""]))
    rwa [List.append_nil] at hpart
  have hfunctions : Each (Within P) (sectionFor "Functions" s.functions (functionLines s)) :=
    sectionFor_within _ fun f hf => functionLines_within hs (List.mem_filter.1 hf).1
  have hmodule := ((assigns_nothing hdata).append hconverters).append (assigns_nothing hfunctions)
  rwa [List.append_nil] at hmodule

end Bindgen.Emit.PythonModule
