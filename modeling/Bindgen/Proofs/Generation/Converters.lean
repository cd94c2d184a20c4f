import Bindgen.Proofs.Emit.Assignments
import Bindgen.Proofs.Emit.Declarations
import Bindgen.Proofs.Generation.Acceptance
import Bindgen.Proofs.Interface.Canonical
import Bindgen.Proofs.Resolve.Traversal

/-!
# Converters are declared

Generated code calls converters by names that come from types, in many places, and declares them in one. Whatever
accepted model it is generated for, the names that a module or source declares differ, and every name that it uses is
among them: `PythonModule.Assigned` and `KotlinSource.Declared` say so of the lines of a file, where `Code.converter`
is any use of a name; all else in a line is text, with the names that the model brings along. In Python a converter
is assigned to its name while the module is loaded, so that what one is made of has to have been assigned before.

The types that have a converter are those of the definitions and the composites of the model, which differ, and so do
their canonical names (`Ty.eq_of_canonical`). What stands in a type stands before it in the types of the model
(`InnerFirst`), and a box has the converter of what is in it, which stands before it too.

Results:
* `unbox_converted`: what a model uses has a converter, or is in boxes around something that has one.
* `parts_before`: the converters of which one is made are declared before it.
* `converters_declared`: converters are declared once and, in Python, before use.
-/

namespace Bindgen

open Interface Boundary Resolve Emit

/-! ## Files -/

namespace Emit.PythonModule

/-- The names of the converters in the support code. -/
def supportConverters : List String :=
  ["_rt.INT8", "_rt.UINT8", "_rt.INT16", "_rt.UINT16", "_rt.INT32", "_rt.UINT32", "_rt.INT64", "_rt.UINT64",
    "_rt.FLOAT32", "_rt.FLOAT64", "_rt.BOOLEAN", "_rt.STRING", "_rt.BYTES"]

/-- The names that lines assign to converters, in order. -/
def assignedNames (lines : List Code) : List String := (lines.filterMap (·.assigned?)).map converterExpr

/-- **What is assigned to the name of a converter**: an instance of its own class, or what is made of converters with
known names. -/
inductive RightSide (known : String → Prop) : Ty → String → Prop where
  | definition (name : String) : RightSide known (.named name) (converterClass name ++ "()")
  | optional {t : Ty} (h : known (converterExpr t)) :
      RightSide known (.optional t) ("_rt.OptionalConverter(" ++ converterExpr t ++ ")")
  | sequence {t : Ty} (h : known (converterExpr t)) :
      RightSide known (.sequence t) ("_rt.SequenceConverter(" ++ converterExpr t ++ ")")
  | map {k v : Ty} (hk : known (converterExpr k)) (hv : known (converterExpr v)) :
      RightSide known (.map k v) ("_rt.MapConverter(" ++ converterExpr k ++ ", " ++ converterExpr v ++ ")")

/-- **The converters of a module**: each name is assigned once, and before what is made of its converter. -/
structure Assigned (lines : List Code) : Prop where
  once : (assignedNames lines).Nodup
  own : ∀ name ∈ assignedNames lines, name ∉ supportConverters
  /-- Whatever converter is used anywhere in the module is one of the support code, or is assigned. -/
  used : ∀ t ∈ mentioned lines, converterExpr t ∈ supportConverters ∨ converterExpr t ∈ assignedNames lines
  earlier : ∀ front line rest t, lines = front ++ line :: rest → line.assigned? = some t →
    ∃ right, line.textWith converterExpr = converterExpr t ++ " = " ++ right ∧
      RightSide (fun name => name ∈ supportConverters ∨ name ∈ assignedNames front) t right

end Emit.PythonModule

namespace Emit.KotlinSource

/-- The names of the converters that lines declare, in order. -/
def declaredNames (lines : List Code) : List String := (lines.filterMap (·.declared?)).map converter

/-- **The converters of a source**: each is declared once. -/
structure Declared (lines : List Code) : Prop where
  once : (declaredNames lines).Nodup
  /-- Whatever converter is used anywhere in the source is declared. -/
  used : ∀ t ∈ mentioned lines, converter t ∈ declaredNames lines
  form : ∀ line ∈ lines, ∀ t, line.declared? = some t →
    line.textWith converter = "object " ++ converter t ++ " : FfiConverter<" ++ typeName t ++ "> \x7b"

end Emit.KotlinSource

variable {m : Model} {s t : Ty}

/-! ## Types with converters -/

/-- A type for which a converter is generated: no box, and none of which the support code has the converter. -/
structure Generated (t : Ty) : Prop where
  other : t ∉ builtins
  unboxed : Converted.isBox t = false

theorem unbox_not_box (t : Ty) : Converted.isBox t.unbox = false := by
  induction t with
  | box t ih => exact ih
  | _ => rfl

/-- **The types of a model are all that its surface has to do with.** -/
theorem covers_surface (g : Generation) : g.surface.Covers (· ∈ g.model.types) where
  definitions := fun d hd t ht =>
    roots_mem_types g.model (List.mem_append_left _ (List.mem_flatMap.2 ⟨d, hd, ht⟩))
  callables := by
    intro f hf c hc t ht
    obtain ⟨owner, hmem, -⟩ := callable_of_source hf hc
    exact roots_mem_types g.model (List.mem_append_right _ (List.mem_flatMap.2 ⟨_, hmem, ht⟩))
  composites := by
    intro t ht
    have hmem := (List.mem_filter.1 ht).1
    exact ⟨hmem, fun u hu => (types_innerFirst g.model).children_mem hmem hu⟩

/-- The names in the types of a model that passes its check have definitions. -/
theorem Interface.Model.Passes.types (h : m.Passes) : ∀ t ∈ m.types, (named m.definitions).Defines t := by
  refine forall_types (fun t ht s hs name hn => ht name (names_of_mem_children hs hn)) fun t ht => ?_
  rcases List.mem_append.1 ht with ht | ht
  · obtain ⟨d, hd, ht⟩ := List.mem_flatMap.1 ht
    have hname : d.name ∈ m.names := List.mem_map_of_mem hd
    obtain ⟨d', hlookup⟩ := mem_names.1 hname
    rcases List.mem_cons.1 ht with rfl | ht
    · exact (h.definition hlookup).defines
    · obtain ⟨f, hf, rfl⟩ := List.mem_map.1 ht
      have hd' := (lookup_named (checked_eq_ok_iff.1 h).1).2 ⟨hd, rfl⟩
      exact h.closed d.name d hd' f hf
  · obtain ⟨p, hp, ht⟩ := List.mem_flatMap.1 ht
    exact h.roots p hp t ht

/-- The types that have a converter of their own, in the order in which these are declared. -/
abbrev Interface.Model.convertedTypes (m : Model) : List Ty := (Converted.all m).map (·.type)

/-- Whether a composite type has a converter of its own. -/
def hasOwn (t : Ty) : Bool := t.isComposite && !Converted.isBox t

theorem convertedTypes_eq (m : Model) :
    m.convertedTypes = m.definitions.map (fun d => .named d.name) ++ m.types.filter hasOwn := by
  have hcomposites : m.composites.filter (!Converted.isBox ·) = m.types.filter hasOwn := by
    unfold Interface.Model.composites
    rw [List.filter_filter]
    exact List.filter_congr fun t _ => Bool.and_comm _ _
  unfold Interface.Model.convertedTypes Converted.all
  rw [List.map_append, List.map_map, List.map_map, hcomposites]
  exact congrArg _ (List.map_id _)

theorem generated_of_mem (ht : t ∈ m.convertedTypes) : Generated t := by
  rw [convertedTypes_eq] at ht
  rcases List.mem_append.1 ht with ht | ht
  · obtain ⟨d, -, rfl⟩ := List.mem_map.1 ht
    exact ⟨by simp [builtins], rfl⟩
  · have hown := (List.mem_filter.1 ht).2
    cases t with
    | optional | sequence | map => exact ⟨by simp [builtins], rfl⟩
    | prim | string | bytes | named | box => exact absurd hown (by simp [hasOwn, Ty.isComposite, Converted.isBox])

/-- The types with converters differ. -/
theorem convertedTypes_nodup (h : m.Passes) : m.convertedTypes.Nodup := by
  rw [convertedTypes_eq]
  have hnames : (m.definitions.map fun d => Ty.named d.name).Nodup := by
    have hnodup := (checked_eq_ok_iff.1 h).1.map (f := Ty.named) fun _ _ => Ty.named.inj
    rwa [List.map_map] at hnodup
  refine hnames.append ((types_innerFirst m).nodup.filter _) ?_
  intro t ht ht'
  obtain ⟨d, -, rfl⟩ := List.mem_map.1 ht
  exact absurd (List.mem_filter.1 ht').2 (by simp [hasOwn, Ty.isComposite])

/-- **Everything that a model uses has a converter**, or is in boxes around what has one. -/
theorem unbox_converted (h : m.Passes) (ht : t ∈ m.types) : t.unbox ∈ builtins ∨ t.unbox ∈ m.convertedTypes := by
  rw [convertedTypes_eq]
  have hmem := (types_innerFirst m).unbox_mem ht
  have hbox := unbox_not_box t
  have hdefined := h.types _ hmem
  generalize t.unbox = u at hmem hbox hdefined
  cases u with
  | prim p => exact .inl (List.mem_append_left _ (List.mem_map_of_mem p.mem_all))
  | string | bytes => exact .inl (by simp [builtins])
  | optional | sequence | map =>
    exact .inr (List.mem_append_right _ (List.mem_filter.2 ⟨hmem, rfl⟩))
  | named name =>
    obtain ⟨d, hd⟩ := hdefined name List.mem_cons_self
    obtain ⟨hdef, rfl⟩ := mem_named.1 (mem_of_lookup hd)
    exact .inr (List.mem_append_left _ (List.mem_map.2 ⟨d, hdef, rfl⟩))
  | box => exact absurd hbox (by simp [Converted.isBox])

/-- A composite stands among the types of a model as it does among those with converters: in front of it are the
definitions, and then what stands before it. -/
theorem front_of_composite {front rest : List Ty} (hall : m.convertedTypes = front ++ t :: rest)
    (hc : t.isComposite = true) : ∃ before after, m.types = before ++ t :: after ∧
      front = m.definitions.map (fun d => .named d.name) ++ before.filter hasOwn := by
  rw [convertedTypes_eq] at hall
  -- The definitions are no composites, so all of them are in front.
  obtain ⟨middle, rfl, hcomposites⟩ : ∃ middle, front = m.definitions.map (fun d => .named d.name) ++ middle ∧
      m.types.filter hasOwn = middle ++ t :: rest := by
    rcases List.append_eq_append_iff.1 hall with ⟨middle, hfront, hrest⟩ | ⟨last, hnames, hrest⟩
    · exact ⟨middle, hfront, hrest⟩
    · cases last with
      | nil => exact ⟨[], by simpa using hnames.symm, hrest.symm⟩
      | cons t' last =>
        obtain ⟨rfl, -⟩ := List.cons.inj hrest
        have hmem : t ∈ m.definitions.map fun d => Ty.named d.name := hnames ▸ by simp
        obtain ⟨d, -, rfl⟩ := List.mem_map.1 hmem
        exact absurd hc (by simp [Ty.isComposite])
  obtain ⟨before, behind, htypes, rfl, hbehind⟩ := List.filter_eq_append_iff.1 hcomposites
  obtain ⟨skipped, after, rfl, hskipped, -, -⟩ := List.filter_eq_cons_iff.1 hbehind
  refine ⟨before ++ skipped, after, htypes.trans (List.append_assoc _ _ _).symm, ?_⟩
  rw [List.filter_append, List.filter_eq_nil_iff.2 hskipped, List.append_nil]

/-- **The converters of which one is made** are declared before it, where they are not those of the support code. -/
theorem parts_before (h : m.Passes) {front rest : List Ty} (hall : m.convertedTypes = front ++ t :: rest)
    (hc : t.isComposite = true) : ∀ u ∈ t.children, u.unbox ∈ builtins ∨ u.unbox ∈ front := by
  intro u hu
  obtain ⟨before, after, htypes, rfl⟩ := front_of_composite hall hc
  have hordered : InnerFirst (before ++ t :: after) := htypes ▸ types_innerFirst m
  have hbefore : u ∈ before := hordered.children_before hu
  have htype : u ∈ m.types := htypes ▸ List.mem_append_left _ hbefore
  have hconverted := unbox_converted h htype
  rw [convertedTypes_eq] at hconverted
  refine hconverted.imp_right fun hconverted => ?_
  rcases List.mem_append.1 hconverted with hname | hcomposite
  · exact List.mem_append_left _ hname
  · have hinner : u.unbox ∈ before := hordered.front.unbox_mem hbefore
    exact List.mem_append_right _ (List.mem_filter.2 ⟨hinner, (List.mem_filter.1 hcomposite).2⟩)

/-! ## Names -/

theorem converterExpr_unbox (t : Ty) : converterExpr t.unbox = converterExpr t := by
  induction t with
  | box t ih => exact ih
  | _ => rfl

theorem converterExpr_builtin (ht : t ∈ builtins) : converterExpr t ∈ PythonModule.supportConverters := by
  have hall : ∀ t ∈ builtins, converterExpr t ∈ PythonModule.supportConverters := by decide
  exact hall t ht

theorem Generated.converterExpr_eq (h : Generated t) : converterExpr t = "_converter_" ++ t.canonical := by
  cases t with
  | prim p => exact absurd (List.mem_append_left _ (List.mem_map_of_mem p.mem_all)) h.other
  | string | bytes => exact absurd h.other (by simp [builtins])
  | box => exact absurd h.unboxed (by simp [Converted.isBox])
  | optional | sequence | map | named => rfl

/-- No converter that is generated has a name of the support code. -/
theorem Generated.not_support (h : Generated t) : converterExpr t ∉ PythonModule.supportConverters := by
  have hletters : ∀ name ∈ PythonModule.supportConverters, name.toList[1]? = some 'r' := by decide
  intro hmem
  have hsecond := hletters _ hmem
  rw [h.converterExpr_eq, String.toList_append] at hsecond
  exact absurd hsecond (by simp)

theorem converterExpr_inj (hs : Generated s) (ht : Generated t) (h : converterExpr s = converterExpr t) : s = t := by
  rw [hs.converterExpr_eq, ht.converterExpr_eq] at h
  exact Ty.eq_of_canonical (String.append_right_inj _ |>.1 h)

theorem converter_unbox (t : Ty) : KotlinSource.converter t.unbox = KotlinSource.converter t := by
  induction t with
  | box t ih => exact ih
  | _ => rfl

theorem builtin_unbox (ht : t ∈ builtins) : t.unbox ∈ builtins := by
  have hall : ∀ t ∈ builtins, t.unbox ∈ builtins := by decide
  exact hall t ht

theorem converter_inj (hs : Converted.isBox s = false) (ht : Converted.isBox t = false)
    (h : KotlinSource.converter s = KotlinSource.converter t) : s = t := by
  have heq : ∀ t, Converted.isBox t = false → KotlinSource.converter t = "FfiConverter" ++ t.canonical := by
    intro t ht
    cases t with
    | box => exact absurd ht (by simp [Converted.isBox])
    | _ => rfl
  rw [heq s hs, heq t ht] at h
  exact Ty.eq_of_canonical (String.append_right_inj _ |>.1 h)

/-! ## Modules -/

section Modules

open PythonModule

variable {lines : List Code} {P : Ty → Prop}

/-- What is assigned for a definition or composite is its converter. -/
theorem assigned?_assignmentOf {x : Converted} (hx : x ∈ Converted.all m) :
    (assignmentOf x).filterMap (·.assigned?) = [x.type] := by
  rcases List.mem_append.1 hx with hx | hx
  · obtain ⟨d, -, rfl⟩ := List.mem_map.1 hx
    rfl
  · obtain ⟨t, ht, rfl⟩ := List.mem_map.1 hx
    obtain ⟨hcomposite, hbox⟩ := List.mem_filter.1 ht
    have hc := (List.mem_filter.1 hcomposite).2
    cases t with
    | optional | sequence | map => rfl
    | box => exact absurd hbox (by simp [Converted.isBox])
    | prim | string | bytes | named => exact absurd hc (by simp [Ty.isComposite])

/-- The converters that a module assigns are those of the model. -/
theorem assigned_types (h : Assigns P ((Converted.all m).flatMap assignmentOf) lines) :
    lines.filterMap (·.assigned?) = m.convertedTypes := by
  have hlines : (assignments lines).filterMap (·.assigned?) = lines.filterMap (·.assigned?) :=
    filterMap_filter_isSome _ lines
  rw [← hlines, h.assignments, List.filterMap_flatMap, List.flatMap_congr fun x hx => assigned?_assignmentOf hx]
  exact List.map_eq_flatMap.symm

/-- What stands in an assignment, where the converters of the parts are known. -/
theorem rightSide_of_assignment {known : String → Prop} {x : Converted} {line : Code} (hline : line ∈ assignmentOf x)
    (hknown : x.type.isComposite = true → ∀ u ∈ x.type.children, known (converterExpr u)) :
    ∃ right, line.textWith converterExpr = converterExpr x.type ++ " = " ++ right ∧ RightSide known x.type right := by
  cases x with
  | definition d =>
    obtain rfl := List.mem_singleton.1 hline
    exact ⟨_, String.append_assoc, .definition d.name⟩
  | composite t =>
    cases t with
    | optional u =>
      obtain rfl := List.mem_singleton.1 hline
      exact ⟨_, rfl, .optional (hknown rfl u List.mem_cons_self)⟩
    | sequence u =>
      obtain rfl := List.mem_singleton.1 hline
      exact ⟨_, rfl, .sequence (hknown rfl u List.mem_cons_self)⟩
    | map k v =>
      obtain rfl := List.mem_singleton.1 hline
      exact ⟨_, rfl, .map (hknown rfl k List.mem_cons_self)
        (hknown rfl v (List.mem_cons_of_mem k List.mem_cons_self))⟩
    | prim | string | bytes | named | box => exact absurd hline List.not_mem_nil

/-- **A module that assigns the converters of its model** assigns them once and before use. -/
theorem assigned_of_assigns (hm : m.Passes)
    (h : Assigns (· ∈ m.types) ((Converted.all m).flatMap assignmentOf) lines) : Assigned lines where
  once := by
    unfold assignedNames
    rw [assigned_types h]
    refine (List.nodup_map_iff_inj_on (convertedTypes_nodup hm)).2 fun s hs t ht heq => ?_
    exact converterExpr_inj (generated_of_mem hs) (generated_of_mem ht) heq
  own := by
    intro name hname
    unfold assignedNames at hname
    rw [assigned_types h] at hname
    obtain ⟨t, ht, rfl⟩ := List.mem_map.1 hname
    exact (generated_of_mem ht).not_support
  used := by
    intro t ht
    have hmem : t ∈ m.types := mentioned_of_only h.only t ht
    unfold assignedNames
    rw [assigned_types h, ← converterExpr_unbox]
    exact (unbox_converted hm hmem).imp converterExpr_builtin List.mem_map_of_mem
  earlier := by
    rintro front line rest t rfl hassigned
    have hline : line ∈ assignments (front ++ line :: rest) :=
      List.mem_filter.2 ⟨List.mem_append_right _ List.mem_cons_self, by rw [hassigned]; rfl⟩
    rw [h.assignments] at hline
    obtain ⟨x, hx, hline⟩ := List.mem_flatMap.1 hline
    have hfront : m.convertedTypes = front.filterMap (·.assigned?) ++ t :: rest.filterMap (·.assigned?) := by
      rw [← assigned_types h, List.filterMap_append, List.filterMap_cons_some hassigned]
    have htype : t = x.type := by
      have hmem : t ∈ (assignmentOf x).filterMap (·.assigned?) := List.mem_filterMap.2 ⟨line, hline, hassigned⟩
      rw [assigned?_assignmentOf hx] at hmem
      exact List.mem_singleton.1 hmem
    subst htype
    refine rightSide_of_assignment hline fun hc u hu => ?_
    rw [← converterExpr_unbox]
    exact (parts_before hm hfront hc u hu).imp converterExpr_builtin List.mem_map_of_mem

end Modules

/-! ## Sources -/

section Sources

open KotlinSource

variable {lines : List Code}

theorem declared?_headLine (t : Ty) : (headLine t).declared? = some t := rfl

theorem headLine_text (t : Ty) : (headLine t).textWith converter =
    "object " ++ converter t ++ " : FfiConverter<" ++ typeName t ++ "> \x7b" :=
  String.append_assoc

/-- The converters of the support code and those of a model are of different types, none of them boxes. -/
theorem declared_own (hm : m.Passes) : (builtins ++ m.convertedTypes).Nodup ∧
    ∀ t ∈ builtins ++ m.convertedTypes, Converted.isBox t = false := by
  refine ⟨?_, List.forall_mem_append.2 ⟨by decide, fun t ht => (generated_of_mem ht).unboxed⟩⟩
  have hbuiltins : builtins.Nodup := by decide
  exact hbuiltins.append (convertedTypes_nodup hm) fun t ht ht' => (generated_of_mem ht').other ht

/-- **A source that declares the converters of its model** declares them once. -/
theorem declared_of_declares (hm : m.Passes)
    (h : Declares (fun t => t ∈ builtins ∨ t ∈ m.types) (builtins ++ m.convertedTypes) lines) : Declared lines := by
  have htypes : lines.filterMap (·.declared?) = builtins ++ m.convertedTypes := by
    have hlines : (declarations lines).filterMap (·.declared?) = lines.filterMap (·.declared?) :=
      filterMap_filter_isSome _ lines
    rw [← hlines, h.declarations, List.filterMap_map]
    exact List.filterMap_some
  obtain ⟨hnodup, hboxes⟩ := declared_own hm
  refine ⟨?_, fun t ht => ?_, fun line hline t ht => ?_⟩
  · unfold declaredNames
    rw [htypes]
    refine (List.nodup_map_iff_inj_on hnodup).2 fun s hs t ht heq => ?_
    exact converter_inj (hboxes s hs) (hboxes t ht) heq
  · unfold declaredNames
    rw [htypes, ← converter_unbox]
    refine List.mem_map_of_mem (List.mem_append.2 ?_)
    rcases mentioned_of_only h.only t ht with hbuiltin | hmem
    · exact .inl (builtin_unbox hbuiltin)
    · exact unbox_converted hm hmem
  · have hdeclaration : line ∈ declarations lines := List.mem_filter.2 ⟨hline, by rw [ht]; rfl⟩
    rw [h.declarations] at hdeclaration
    obtain ⟨u, -, rfl⟩ := List.mem_map.1 hdeclaration
    obtain rfl := Option.some.inj ((declared?_headLine u).symm.trans ht)
    exact headLine_text u

end Sources

/-! ## Rendered files -/

theorem mem_putOutput {path text : String} {outputs : Outputs} {file : String × String}
    (h : file ∈ Generation.putOutput path text outputs) : file = (path, text) ∨ file ∈ outputs := by
  induction outputs with
  | nil => exact .inl (List.mem_singleton.1 h)
  | cons o outputs ih =>
    unfold Generation.putOutput at h
    split at h
    · next heq =>
      subst heq
      exact (List.mem_cons.1 h).imp_right (List.mem_cons_of_mem o)
    · rcases List.mem_cons.1 h with rfl | h
      · exact .inr List.mem_cons_self
      · exact (ih h).imp_right (List.mem_cons_of_mem o)

/-- What is rendered are files of backends. -/
theorem mem_renderFiles {s : Surface} {backends : List Backend} {outputs outputs' : Outputs}
    (h : renderFiles s outputs backends = .ok outputs')
    (hold : ∀ file ∈ outputs, ∃ b : Backend, b.file s = .ok file) :
    ∀ file ∈ outputs', ∃ b : Backend, b.file s = .ok file := by
  induction backends generalizing outputs with
  | nil => exact pure_eq_ok.1 h ▸ hold
  | cons b backends ih =>
    unfold renderFiles at h ih
    rw [List.foldlM_cons] at h
    obtain ⟨next, hnext, h⟩ := bind_eq_ok.1 h
    obtain ⟨file, hfile, hnext⟩ := bind_eq_ok.1 hnext
    obtain rfl := pure_eq_ok.1 hnext
    refine ih h fun other hother => ?_
    rcases mem_putOutput hother with rfl | hother
    · exact ⟨b, hfile⟩
    · exact hold other hother

/-- **Converters are declared once and, in Python, before use.** Whatever is rendered are files of backends. The
Python module is the text of lines in which every name of a converter is assigned once, after the names that are used
on its right side, and every converter that is used anywhere is assigned or belongs to the support code. The Kotlin
source is the text of lines in which every converter is declared once, and every converter is declared that is used
anywhere. -/
theorem converters_declared (g : Generation) {outputs : Outputs}
    (h : Generation.fresh Generation.render g = .ok outputs) :
    (∀ file ∈ outputs, ∃ b : Backend, b.file g.surface = .ok file) ∧
    (∀ path text, Backend.python.file g.surface = .ok (path, text) → ∃ lines,
      PythonModule.moduleLines g.surface = .ok lines ∧ text = fileText converterExpr lines ∧
        PythonModule.Assigned lines) ∧
    ∀ path text, Backend.kotlin.file g.surface = .ok (path, text) → ∃ package lines,
      KotlinSource.packageName g.surface = .ok package ∧ KotlinSource.sourceLines g.surface package = .ok lines ∧
        text = fileText KotlinSource.converter lines ∧ KotlinSource.Declared lines := by
  rw [fresh_render] at h
  obtain ⟨backends, -, h⟩ := bind_eq_ok.1 h
  obtain ⟨symbols, hderived, h⟩ := bind_eq_ok.1 h
  obtain ⟨hm, -, -⟩ := derived_eq_ok hderived
  have hcovers := covers_surface g
  refine ⟨mem_renderFiles h fun _ hfile => absurd hfile List.not_mem_nil, fun path text hfile => ?_,
    fun path text hfile => ?_⟩
  · obtain ⟨module, hmodule, hfile⟩ := bind_eq_ok.1 hfile
    obtain ⟨lines, hlines, htext⟩ := bind_eq_ok.1 hmodule
    obtain ⟨-, rfl⟩ := Prod.mk.inj (pure_eq_ok.1 hfile)
    exact ⟨lines, hlines, (pure_eq_ok.1 htext).symm,
      assigned_of_assigns hm (PythonModule.moduleLines_assigns hcovers hlines)⟩
  · obtain ⟨package, hpackage, hfile⟩ := bind_eq_ok.1 hfile
    obtain ⟨source, hsource, hfile⟩ := bind_eq_ok.1 hfile
    obtain ⟨lines, hlines, htext⟩ := bind_eq_ok.1 hsource
    obtain ⟨-, rfl⟩ := Prod.mk.inj (pure_eq_ok.1 hfile)
    refine ⟨package, lines, hpackage, hlines, (pure_eq_ok.1 htext).symm, ?_⟩
    have hwide := hcovers.mono fun t ht => Or.inr (a := t ∈ builtins) ht
    exact declared_of_declares hm (KotlinSource.sourceLines_declares hwide (fun t ht => .inl ht) hlines)

/-- In the shop the converter of lists of boxed items is made of that of items. -/
theorem converters_declared_shop : ∃ outputs lines, Generation.fresh Generation.render
      (.ofModel shopModel .default .full) = .ok outputs ∧
    PythonModule.moduleLines (Generation.ofModel shopModel .default .full).surface = .ok lines ∧
    PythonModule.Assigned lines ∧ PythonModule.assignedNames lines = ["_converter_TypeItem", "_converter_TypeRefusal",
      "_converter_TypeOrder", "_converter_SequenceBoxTypeItem", "_converter_OptionalTypeItem"] := by
  have hsound : shopModel.Sound := sound_iff.2 ⟨passes_of_isOk (by decide +kernel), by decide⟩
  obtain ⟨outputs, houtputs⟩ := accepted_iff.2 hsound
  obtain ⟨-, hmodule, -⟩ := converters_declared (.ofModel shopModel .default .full) houtputs
  obtain ⟨front, text, hfile⟩ := file_eq_ok (s := (Generation.ofModel shopModel .default .full).surface) rfl
    wellTyped_default .python
  obtain ⟨lines, hlines, -, hassigned⟩ := hmodule _ text hfile
  refine ⟨outputs, lines, houtputs, hlines, hassigned, ?_⟩
  unfold PythonModule.assignedNames
  rw [assigned_types (PythonModule.moduleLines_assigns (covers_surface _) hlines)]
  decide

end Bindgen
