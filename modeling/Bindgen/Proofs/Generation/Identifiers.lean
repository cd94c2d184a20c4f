import Bindgen.Proofs.Emit.Readings
import Bindgen.Proofs.Generation.Acceptance
import Bindgen.Proofs.Identifier.Renaming
import Mathlib.Data.List.Flatten

/-!
# Identifiers in generated code

A `Site` is a place of a model where generated code binds identifiers beside each other: the fields of a record or a
variant, the variants of an enum or an error, the parameters of a wrapper and the arguments of an exported symbol.
Each backend renames the names of the model there in its way, and puts in names of its own (`own`), such as
`receiverName` and `errorOutName`. Nothing checks what comes out.

Different names stay different identifiers just where none of them is one that the backend puts in, and no two clash
(`Keeps`). Names in plain snake case never clash, but `handle` and `out_err` are such names too.

The lines that a backend prints for a site (`Prints`) show its identifiers in order, each of them in an item of its
own (`Bears`).

Results:
* `identifiers_perm`: the identifiers at a site are its names and those of the backend, renamed.
* `identifiers_printed`: what is printed at a site bears its identifiers.
* **`identifiers_distinct`**: where the identifiers of an accepted model are distinct.
-/

namespace Bindgen.Emit

open Interface Boundary Identifier

/-- The places where generated code binds identifiers beside each other. -/
inductive Site where
  /-- The fields of a record, or of a variant of an enum. -/
  | fields (fields : List Field)
  /-- The fields of a variant of an error, which are given to its constructor. -/
  | errorFields (fields : List Field)
  /-- The members of an enum without fields. -/
  | members (variants : List Variant)
  /-- The classes of the variants of another enum, or of an error. -/
  | variants (variants : List Variant)
  /-- The parameters of the wrapper of a callable, which belongs to an object or to none. -/
  | params (owner : Option Object) (c : Callable)
  /-- The arguments of an exported symbol. -/
  | arguments (f : Signature)

namespace Site

/-- The names of the model that are in scope together at a site. -/
def names : Site → List String
  | fields fs | errorFields fs => fs.map (·.name)
  | members vs | variants vs => vs.map (·.name)
  | params _ c => c.params.map (·.name)
  | arguments f => f.source.toList.flatMap fun c => c.params.map (·.name)

/-- The sites of an enum. -/
def ofEnum (e : Choice) : List Site :=
  if e.isFlat then [members e.variants] else variants e.variants :: e.variants.map fun v => fields v.fields

/-- The sites of an error. -/
def ofError (e : Choice) : List Site :=
  variants e.variants :: e.variants.map fun v => errorFields v.fields

/-- The sites of a model with given symbols. -/
def ofModel (m : Model) (symbols : List Signature) : List Site :=
  m.records.map (fun r => fields r.fields) ++ m.enums.flatMap ofEnum ++ m.errors.flatMap ofError ++
    m.callables.map (fun p => params p.1 p.2) ++ symbols.map arguments

end Site

namespace Backend

/-- How a backend makes identifiers at a site, if it has any there. -/
def renaming? : Backend → Site → Option Renaming
  | python, .fields _ | python, .errorFields _ | python, .params _ _ => some .python
  | kotlin, .fields _ | kotlin, .errorFields _ | kotlin, .params _ _ => some .member
  | python, .members _ | kotlin, .members _ => some .upper
  | python, .variants _ | kotlin, .variants _ => some .pascal
  | c, .arguments _ => some .verbatim
  | kotlin, .arguments _ => some .kotlin
  | _, _ => none

/-- What the wrapper of a callable has in front of its parameters in Python. -/
def receivers (owner : Option Object) (c : Callable) : List String :=
  match owner with
  | none => []
  | some _ => if c.kind = .constructor ∧ !c.isPrimary then ["cls"] else ["self"]

/-- The names that a backend puts in at a site. -/
def own : Backend → Site → List String
  | python, .errorFields _ => ["self", "message"]
  | kotlin, .errorFields _ => ["message"]
  | python, .params owner f => receivers owner f
  | c, .arguments f | kotlin, .arguments f =>
    match f.source with
    | none => f.arguments.map (·.name)
    | some call => (receiverArgument call ++ errorArgument call).map (·.name)
  | _, _ => []

/-- **The identifiers that a backend binds at a site**, in order. -/
def identifiers : Backend → Site → List String
  | python, .fields fs => fs.map fun f => escapePython f.name
  | python, .errorFields fs => ["self", "message"] ++ fs.map fun f => escapePython f.name
  | kotlin, .fields fs => fs.map fun f => KotlinSource.memberName f.name
  | kotlin, .errorFields fs => ["message"] ++ fs.map fun f => KotlinSource.memberName f.name
  | python, .members vs | kotlin, .members vs => vs.map fun v => upperSnake v.name
  | python, .variants vs | kotlin, .variants vs => vs.map fun v => pascal v.name
  | python, .params owner f => receivers owner f ++ f.params.map fun p => escapePython p.name
  | kotlin, .params _ f => f.params.map fun p => KotlinSource.memberName p.name
  | c, .arguments f => f.arguments.map (·.name)
  | kotlin, .arguments f => f.arguments.map fun a => escapeKotlin a.name
  | _, _ => []

end Backend

/-- **Names that are kept apart** by a renaming, beside others. -/
structure Keeps (r : Renaming) (own names : List String) : Prop where
  new : own.Disjoint names
  apart : (own ++ names).Pairwise fun x y => ¬ r.Clash x y ∧ ¬ r.Clash y x

variable {r : Renaming} {own names : List String}

theorem nodup_map_apply_iff (hown : own.Nodup) (hnames : names.Nodup) :
    ((own ++ names).map r.apply).Nodup ↔ Keeps r own names := by
  have hpair (x y : String) : r.apply x ≠ r.apply y ↔ x ≠ y ∧ ¬ r.Clash x y ∧ ¬ r.Clash y x := by
    rw [Ne, r.apply_eq_iff, not_or, not_or]
  have hnodup : (own ++ names).Nodup ↔ own.Disjoint names := by
    rw [List.nodup_append']
    exact ⟨fun h => h.2.2, fun h => ⟨hown, hnames, h⟩⟩
  rw [List.Nodup, List.pairwise_map]
  simp only [hpair]
  rw [List.pairwise_and_iff]
  exact ⟨fun h => ⟨hnodup.1 h.1, h.2⟩, fun h => ⟨hnodup.2 h.1, h.2⟩⟩

/-! ## The identifiers at a site -/

section Sites

variable {m : Model} {f : Signature}

theorem mem_symbols_of_site {symbols : List Signature} (h : .arguments f ∈ Site.ofModel m symbols) : f ∈ symbols := by
  have hchoice (e : Choice) : .arguments f ∉ Site.ofEnum e ∧ .arguments f ∉ Site.ofError e := by
    unfold Site.ofEnum Site.ofError
    constructor
    · split <;> simp
    · simp
  simpa [Site.ofModel, hchoice] using h

/-- The names of the arguments of symbols without a callable. -/
def supportArguments : List String := ["size", "bytes", "buf", receiverName]

/-- A symbol is that of a callable, or takes a single argument. -/
theorem symbol_cases (hf : f ∈ m.symbols) :
    (∃ owner c, f = signatureOf m owner c) ∨
      (f.source = none ∧ ∃ a, f.arguments = [a] ∧ a.name ∈ supportArguments) := by
  cases hsource : f.source with
  | some c =>
    obtain ⟨owner, rfl⟩ := eq_signatureOf hf hsource
    exact .inl ⟨owner, c, rfl⟩
  | none =>
    refine .inr ⟨rfl, ?_⟩
    rcases List.mem_append.1 hf with hf | hf
    · rcases List.mem_append.1 hf with hf | hf
      · have hsupport : ∀ x ∈ supportFunctions m.ns, ∃ a, x.arguments = [a] ∧ a.name ∈ supportArguments := by
          simp only [supportFunctions, List.forall_mem_cons]
          exact ⟨⟨_, rfl, by decide⟩, ⟨_, rfl, by decide⟩, ⟨_, rfl, by decide⟩, List.forall_mem_nil _⟩
        exact hsupport f hf
      · obtain ⟨c, -, rfl⟩ := List.mem_map.1 hf
        exact absurd hsource (by simp [signatureOf])
    · obtain ⟨o, -, hf⟩ := List.mem_flatMap.1 hf
      rcases List.mem_append.1 hf with hf | hf
      · obtain ⟨c, -, rfl⟩ := List.mem_map.1 hf
        exact absurd hsource (by simp [signatureOf])
      · obtain rfl := List.mem_singleton.1 hf
        exact ⟨_, rfl, by decide⟩

/-- Besides its parameters a callable takes a handle, an error record, both or neither. -/
theorem argument_names (c : Callable) :
    ((receiverArgument c ++ errorArgument c).map (·.name)).Sublist [receiverName, errorOutName] := by
  unfold receiverArgument errorArgument
  cases c.throws <;> by_cases hmethod : c.kind = .method <;> simp [hmethod]

theorem receivers_mem (owner : Option Object) (c : Callable) : Backend.receivers owner c ∈ [[], ["self"], ["cls"]] := by
  unfold Backend.receivers
  cases owner with
  | none => simp
  | some o => dsimp only; split <;> simp

/-- **The names that a backend puts in** are in snake case, and differ. -/
theorem own_snake (b : Backend) {site : Site} (hsite : site ∈ Site.ofModel m m.symbols) :
    (b.own site).Nodup ∧ ∀ name ∈ b.own site, SnakeName name := by
  have hnil : ([] : List String).Nodup ∧ ∀ name ∈ ([] : List String), SnakeName name := by decide
  cases site with
  | fields fs | members vs | variants vs => cases b <;> exact hnil
  | errorFields fs =>
    have hwords : ∀ words ∈ [[], ["self", "message"], ["message"]], words.Nodup ∧ ∀ name ∈ words, SnakeName name := by
      decide
    cases b <;> exact hwords _ (by simp [Backend.own])
  | params owner c =>
    have hwords : ∀ words ∈ [[], ["self"], ["cls"]], words.Nodup ∧ ∀ name ∈ words, SnakeName name := by decide
    cases b with
    | c | kotlin => exact hnil
    | python => exact hwords _ (receivers_mem owner c)
  | arguments f =>
    have hsupport : ∀ name ∈ supportArguments, SnakeName name := by decide
    have hown : (Backend.c.own (.arguments f)).Nodup ∧ ∀ name ∈ Backend.c.own (.arguments f), SnakeName name := by
      obtain ⟨owner, c, rfl⟩ | ⟨hnone, a, ha, hname⟩ := symbol_cases (mem_symbols_of_site hsite)
      · have hboth : ∀ name ∈ [receiverName, errorOutName], SnakeName name := by decide
        have hnames := argument_names c
        exact ⟨hnames.nodup (by decide), fun name hname => hboth name (hnames.subset hname)⟩
      · simp [Backend.own, hnone, ha, hsupport _ hname]
    cases b with
    | python => exact hnil
    | c | kotlin => exact hown

/-- A symbol takes the parameters of its callable besides what it takes anyway. -/
theorem arguments_perm (hf : f ∈ m.symbols) :
    (f.arguments.map (·.name)).Perm (Backend.c.own (.arguments f) ++ Site.names (.arguments f)) := by
  obtain ⟨owner, c, rfl⟩ | ⟨hnone, -⟩ := symbol_cases hf
  · have hnames : Site.names (.arguments (signatureOf m owner c)) =
        (c.params.map (argumentOf (Resolve.named m.definitions))).map (·.name) := by
      rw [List.map_map]
      exact List.append_nil _
    rw [hnames]
    simp only [signatureOf, Backend.own, List.map_append, List.append_assoc]
    exact List.perm_append_comm.append_left _
  · simp [Backend.own, Site.names, hnone]

/-- **The identifiers at a site** are its names and those of the backend, renamed, in some order. -/
theorem identifiers_perm {b : Backend} {site : Site} (hsite : site ∈ Site.ofModel m m.symbols) {r : Renaming}
    (hr : b.renaming? site = some r) : (b.identifiers site).Perm ((b.own site ++ site.names).map r.apply) := by
  have hall {α : Type} (own : List String) (hown : own.map r.apply = own) (name : α → String) (xs : List α) :
      (own ++ xs.map fun x => r.apply (name x)).Perm ((own ++ xs.map name).map r.apply) := by
    rw [List.map_append, hown, List.map_map]
    rfl
  cases site with
  | fields fs => cases b <;> cases hr <;> exact hall [] rfl Field.name fs
  | members vs | variants vs => cases b <;> cases hr <;> exact hall [] rfl Variant.name vs
  | errorFields fs =>
    cases b with
    | c => cases hr
    | python => cases hr; exact hall ["self", "message"] (by decide) Field.name fs
    | kotlin => cases hr; exact hall ["message"] (by decide) Field.name fs
  | params owner c =>
    cases b with
    | c => cases hr
    | python =>
      cases hr
      have hkept : ∀ words ∈ [[], ["self"], ["cls"]], words.map escapePython = words := by decide
      exact hall _ (hkept _ (receivers_mem owner c)) Param.name c.params
    | kotlin => cases hr; exact hall [] rfl Param.name c.params
  | arguments f =>
    have hperm := arguments_perm (mem_symbols_of_site hsite)
    cases b with
    | python => cases hr
    | c =>
      cases hr
      exact (List.map_id _).symm ▸ hperm
    | kotlin =>
      cases hr
      have hmap := hperm.map escapeKotlin
      rwa [List.map_map] at hmap

end Sites

/-! ## What is printed -/

/-- An identifier with what is printed around it. -/
structure Item where
  before : String
  id : String
  after : String

/-- An item as text. -/
def Item.text (i : Item) : String := i.before ++ i.id ++ i.after

/-- Texts stand in lines in their order: as lines of their own, beside each other in one line, or so between the
braces that the lines begin with. -/
inductive Stand (items : List String) : List Code → Prop
  | own {lines : List Code} (h : (texts items).Sublist lines) : Stand items lines
  | beside {lines : List Code} (line : Code) (before after : String) (hline : line ∈ lines)
      (h : ∀ name, line.textWith name = before ++ ", ".intercalate items ++ after) : Stand items lines
  | within {head : Code} {body rest : List Code} (h : Stand items body) : Stand items (braced head body ++ rest)

/-- **Lines bear identifiers**: these stand there in their order, each in an item of its own. -/
def Bears (lines : List Code) (ids : List String) : Prop :=
  ∃ items : List Item, items.map Item.id = ids ∧ Stand (items.map Item.text) lines

/-- **The lines that a backend prints for a site.** -/
inductive Prints (s : Surface) : Backend → Site → List Code → Prop
  | pythonRecord {r : Record} (h : r.fields ≠ []) :
      Prints s .python (.fields r.fields) (texts (PythonModule.recordLines r))
  | pythonVariant (owner : String) {v : Variant} (h : v.fields ≠ []) :
      Prints s .python (.fields v.fields) (texts (PythonModule.variantLines owner v))
  | pythonFailure (owner : String) (code : ℕ) {v : Variant} (h : v.fields ≠ []) :
      Prints s .python (.errorFields v.fields) (texts (PythonModule.errorVariantLines owner code v))
  | pythonMembers {e : Choice} (h : e.isFlat = true) :
      Prints s .python (.members e.variants) (texts (PythonModule.enumLines e))
  | pythonEnum {e : Choice} (h : e.isFlat = false) :
      Prints s .python (.variants e.variants) (texts (PythonModule.enumLines e))
  | pythonError (e : Choice) : Prints s .python (.variants e.variants) (texts (PythonModule.errorLines e))
  | pythonHead (owner : Option Object) (c : Callable) :
      Prints s .python (.params owner c) (texts (PythonModule.headLines owner c))
  | kotlinRecord {r : Record} (h : r.fields ≠ []) : Prints s .kotlin (.fields r.fields) (KotlinSource.recordLines r)
  | kotlinVariant (owner : String) {v : Variant} (h : v.fields ≠ []) :
      Prints s .kotlin (.fields v.fields) [.text (KotlinSource.variantLine owner v)]
  | kotlinFailure (owner : String) (code : ℕ) (v : Variant) :
      Prints s .kotlin (.errorFields v.fields) [.text (KotlinSource.errorVariantLine owner code v)]
  | kotlinEnum (e : Choice) :
      Prints s .kotlin (if e.isFlat then .members e.variants else .variants e.variants) (KotlinSource.enumLines e)
  | kotlinError (e : Choice) : Prints s .kotlin (.variants e.variants) (KotlinSource.errorLines e)
  | kotlinHead (owner : Option Object) (c : Callable) :
      Prints s .kotlin (.params owner c) [.text (KotlinSource.declareParams c.params)]
  | kotlinPrototype {f : Signature} {line : String} (h : KotlinSource.prototype s f = .ok line) :
      Prints s .kotlin (.arguments f) [.text line]
  | cPrototype {api : String} {f : Signature} {line : String} (hf : f.arguments ≠ [])
      (h : CHeader.prototype s api f = .ok line) : Prints s .c (.arguments f) [.text line]

section Printed

variable {α : Type} {lines : List Code}

/-- One item for each thing that has an identifier. -/
theorem bears_map {xs : List α} {name : α → String} (before after : α → String)
    (h : Stand (xs.map fun x => before x ++ name x ++ after x) lines) : Bears lines (xs.map name) :=
  ⟨xs.map fun x => ⟨before x, name x, after x⟩, by rw [List.map_map]; rfl, by rw [List.map_map]; exact h⟩

/-- Some items of the backend's own come before them. -/
theorem bears_append (own : List Item) {xs : List α} {name : α → String} (before after : α → String)
    (h : Stand (own.map Item.text ++ xs.map fun x => before x ++ name x ++ after x) lines) :
    Bears lines (own.map Item.id ++ xs.map name) :=
  ⟨own ++ xs.map fun x => ⟨before x, name x, after x⟩, by rw [List.map_append, List.map_map]; rfl,
    by rw [List.map_append, List.map_map]; exact h⟩

/-- Lines of their own that identifiers have. -/
theorem bears_lines {xs : List α} {name : α → String} (before after : α → String) {all : List String}
    (h : (xs.map fun x => before x ++ name x ++ after x).Sublist all) : Bears (texts all) (xs.map name) :=
  bears_map before after (.own (h.map _))

theorem map_snd_numbered {β : Type} (f : α → β) (xs : List α) : (numbered xs).map (fun p => f p.2) = xs.map f := by
  have hsnd : (numbered xs).map Prod.snd = xs := List.map_snd_zip (by simp)
  conv_rhs => rw [← hsnd, List.map_map]
  rfl

theorem bears_numbered {xs : List α} (name : α → String) (h : Bears lines ((numbered xs).map fun p => name p.2)) :
    Bears lines (xs.map name) :=
  map_snd_numbered name xs ▸ h

/-- What stands in the middle of something stands in it. -/
theorem sublist_middle {xs ys : List α} (front back : List α) (h : xs.Sublist ys) : xs.Sublist (front ++ ys ++ back) :=
  (h.trans (List.sublist_append_right front ys)).trans (List.sublist_append_left _ back)

namespace PythonModule

theorem bears_fields {fs : List Field} (h : fs ≠ []) (front back : List String) :
    Bears (texts (front ++ fieldLines fs ++ back)) (Backend.python.identifiers (.fields fs)) := by
  have hfull : fs.isEmpty = false := by simpa using h
  refine bears_lines (fun _ => "    ") (fun f => ": " ++ hint f.type) (sublist_middle front back ?_)
  simp [fieldLines, hfull, declare, String.append_assoc]

/-- The attribute of a variant is set in the lines of its class. -/
theorem bears_attrs (owner : String) {xs : List α} (variant : α → Variant) {own : α → List String}
    (hown : ∀ x, variantAttr owner (variant x) ++ " = " ++ variantClass owner (variant x) ∈ own x)
    (front back : List String) :
    Bears (texts (front ++ xs.flatMap own ++ back)) (xs.map fun x => pascal (variant x).name) := by
  refine bears_lines (fun _ => owner ++ ".") (fun x => " = " ++ variantClass owner (variant x))
    (sublist_middle front back ?_)
  rw [← List.flatMap_singleton' (xs.map _), List.flatMap_map]
  refine List.Sublist.flatMap_right xs fun x _ => List.singleton_sublist.2 ?_
  simpa [variantAttr, String.append_assoc] using hown x

theorem bears_members {e : Choice} (h : e.isFlat = true) :
    Bears (texts (enumLines e)) (Backend.python.identifiers (.members e.variants)) := by
  refine bears_numbered (fun v : Variant => upperSnake v.name) ?_
  refine bears_lines (fun _ => "    ") (fun p => s!" = {p.1}") ?_
  rw [enumLines, if_pos h, List.append_assoc (_ ++ _)]
  exact sublist_middle _ _ (by simp [String.append_assoc, toString])

theorem bears_enum {e : Choice} (h : e.isFlat = false) :
    Bears (texts (enumLines e)) (Backend.python.identifiers (.variants e.variants)) := by
  rw [enumLines, if_neg (by simp [h]), ← List.append_nil (_ ++ _)]
  exact bears_attrs e.name id (fun v => by simp [variantLines]) _ []

theorem bears_error (e : Choice) :
    Bears (texts (errorLines e)) (Backend.python.identifiers (.variants e.variants)) := by
  exact bears_numbered _ <| bears_attrs e.name Prod.snd (fun p => by simp [errorVariantLines]) _ _

/-- Fields come after a star, and are not set unless they are given. -/
theorem bears_failure (owner : String) (code : ℕ) {v : Variant} (h : v.fields ≠ []) :
    Bears (texts (errorVariantLines owner code v)) (Backend.python.identifiers (.errorFields v.fields)) := by
  refine bears_append [⟨"", "self", ""⟩, ⟨"", "message", ": str = \"\", *"⟩] (fun _ => "")
    (fun f => ": " ++ absentHint f.type ++ " = None") (.beside (.text ("    def __init__(" ++ _ ++ "):")) "    def __init__(" "):" ?_ fun _ => rfl)
  have hstart (rest : String) : "    def __init__(" ++ ("self, " ++ ("message: str = \"\", *, " ++ rest)) =
      "    def __init__(self, " ++ ("message: str = \"\", " ++ ("*, " ++ rest)) := by
    simp only [← String.append_assoc]
    exact congrArg (· ++ rest) (by decide)
  obtain ⟨f, fs, hfields⟩ := List.exists_cons_of_ne_nil h
  simp [errorVariantLines, texts, Item.text, hfields, String.intercalate_cons_cons, String.append_assoc, hstart]

theorem bears_head (owner : Option Object) (c : Callable) :
    Bears (texts (headLines owner c)) (Backend.python.identifiers (.params owner c)) := by
  have hids : ((Backend.receivers owner c).map fun id => (⟨"", id, ""⟩ : Item)).map Item.id =
      Backend.receivers owner c := by simp [Function.comp_def]
  have htexts : ((Backend.receivers owner c).map fun id => (⟨"", id, ""⟩ : Item)).map Item.text =
      Backend.receivers owner c := by simp [Function.comp_def, Item.text]
  show Bears _ (Backend.receivers owner c ++ c.params.map fun p => escapePython p.name)
  rw [← hids]
  refine bears_append _ (fun _ => "") (fun p => ": " ++ hint p.type) ?_
  rw [htexts]
  unfold headLines Backend.receivers
  cases owner with
  | none =>
    refine .beside _ ("def " ++ escapePython c.name ++ "(") (") -> " ++ resultHint c.returns ++ ":")
      (List.mem_singleton_self _) fun _ => ?_
    simp [Code.textWith, declareParams, declare, String.append_assoc]
  | some o =>
    by_cases hkind : c.kind = .constructor
    · cases hprimary : c.isPrimary with
      | true =>
        refine .beside (.text _) "    def __init__(" "):" ?_ fun _ => rfl
        simp [texts, hkind, declareParams, declare, String.append_assoc]
      | false =>
        refine .beside (.text _) ("    def " ++ escapePython c.name ++ "(") (") -> \"" ++ o.name ++ "\":") ?_ fun _ => rfl
        simp [texts, hkind, declareParams, declare, String.append_assoc]
    · refine .beside (.text _) ("    def " ++ escapePython c.name ++ "(") (") -> " ++ resultHint c.returns ++ ":") ?_
        fun _ => rfl
      simp [texts, hkind, declareParams, declare, String.append_assoc]

end PythonModule

namespace KotlinSource

theorem bears_record {r : Record} (h : r.fields ≠ []) :
    Bears (recordLines r) (Backend.kotlin.identifiers (.fields r.fields)) := by
  have hfull : r.fields.isEmpty = false := by simpa using h
  refine bears_map (fun _ => "    val ") (fun f => ": " ++ typeName f.type ++ ",") (.own ?_)
  unfold recordLines
  rw [hfull]
  refine List.Sublist.trans ?_ (List.sublist_append_left _ _)
  exact (sublist_middle _ _ (by simp [declare, String.append_assoc])).map _

theorem bears_variant (owner : String) {v : Variant} (h : v.fields ≠ []) :
    Bears [.text (variantLine owner v)] (Backend.kotlin.identifiers (.fields v.fields)) := by
  have hfull : v.fields.isEmpty = false := by simpa using h
  refine bears_map (fun _ => "val ") (fun f => ": " ++ typeName f.type)
    (.beside _ ("data class " ++ pascal v.name ++ "(") (") : " ++ owner ++ "()")
      (List.mem_singleton_self _) fun _ => ?_)
  simp [Code.textWith, variantLine, hfull, declare, String.append_assoc, toString]

theorem bears_failure (owner : String) (code : ℕ) (v : Variant) :
    Bears [.text (errorVariantLine owner code v)] (Backend.kotlin.identifiers (.errorFields v.fields)) := by
  refine bears_append [⟨"", "message", ": String = \"\""⟩] (fun _ => "val ")
    (fun f => ": " ++ absentType f.type ++ " = null")
    (.beside _ ("class " ++ pascal v.name ++ "(") (") : " ++ owner ++ "(" ++ toString code ++ ", message)")
      (List.mem_singleton_self _) fun _ => ?_)
  simp [Code.textWith, errorVariantLine, Item.text, String.append_assoc]

/-- What stands before and after the name of the class of a variant. -/
theorem variantLine_eq (owner : String) (v : Variant) : ∃ before after : String,
    variantLine owner v = before ++ pascal v.name ++ after := by
  unfold variantLine
  split
  · exact ⟨"object ", " : " ++ owner ++ "()", by simp [String.append_assoc, toString]⟩
  · exact ⟨"data class ", _, by simp only [toString, String.append_assoc]; rfl⟩

theorem bears_enum (e : Choice) : Bears (enumLines e)
    (Backend.kotlin.identifiers (if e.isFlat then .members e.variants else .variants e.variants)) := by
  unfold enumLines
  split
  · refine bears_map (fun _ => "") (fun _ => "") ?_
    unfold flatLines
    rw [List.append_assoc]
    refine .within (.beside _ "" ";" (List.mem_singleton_self _) fun _ => ?_)
    show ", ".intercalate (e.variants.map fun v => upperSnake v.name) ++ ";" = _
    simp
  · choose before after hline using variantLine_eq e.name
    refine bears_map before after ?_
    rw [List.append_assoc]
    rw [funext hline]
    exact .within (.own (List.Sublist.refl _))

theorem bears_error (e : Choice) : Bears (errorLines e) (Backend.kotlin.identifiers (.variants e.variants)) := by
  refine bears_numbered (fun v : Variant => pascal v.name) ?_
  refine bears_map (fun _ => "class ") (fun p => "(" ++ ", ".intercalate ("message: String = \"\"" ::
    p.2.fields.map fun f => "val " ++ memberName f.name ++ ": " ++ absentType f.type ++ " = null") ++ ") : " ++
    e.name ++ "(" ++ toString p.1 ++ ", message)") ?_
  unfold errorLines
  rw [List.append_assoc (braced _ _)]
  refine .within (.own ?_)
  rw [List.append_assoc]
  refine List.Sublist.trans ?_ (List.sublist_append_left _ _)
  simp [errorVariantLine, String.append_assoc]

theorem bears_params (owner : Option Object) (c : Callable) :
    Bears [.text (declareParams c.params)] (Backend.kotlin.identifiers (.params owner c)) := by
  refine bears_map (fun _ => "") (fun p => ": " ++ typeName p.type) (.beside _ "" ""
    (List.mem_singleton_self _) fun _ => ?_)
  simp [Code.textWith, declareParams, declare, String.append_assoc]

theorem bears_prototype {s : Surface} (hs : s.spelling = .full) {f : Signature} {line : String}
    (h : prototype s f = .ok line) : Bears [.text line] (Backend.kotlin.identifiers (.arguments f)) := by
  rw [source_prototype_eq hs] at h
  obtain rfl := Except.ok.inj h
  refine bears_map (fun _ => "") (fun a => ": " ++ Backend.kotlin.spelling a.shape)
    (.beside _ ("fun " ++ f.name ++ "(") ("): " ++ (f.returns.map Backend.kotlin.spelling).getD "Unit")
      (List.mem_singleton_self _) fun _ => ?_)
  simp [Code.textWith, String.append_assoc]

end KotlinSource

theorem CHeader.bears_prototype {s : Surface} (hs : s.spelling = .full) {api : String} {f : Signature} {line : String}
    (hf : f.arguments ≠ []) (h : CHeader.prototype s api f = .ok line) :
    Bears [.text line] (Backend.c.identifiers (.arguments f)) := by
  have hparams : (f.arguments.mapM fun a => return (← s.spell .c a.shape) ++ " " ++ a.name) =
      (.ok (f.arguments.map fun a => Backend.c.spelling a.shape ++ " " ++ a.name) : Except Failure (List String)) := by
    simp only [spell_eq hs, bind_ok]
    exact List.mapM_pure
  have hsome : (f.arguments.map fun a => Backend.c.spelling a.shape ++ " " ++ a.name).isEmpty = false := by
    simpa using hf
  obtain ⟨returns, hreturns⟩ := spellResult_eq_ok hs .c "void" f.returns
  rw [CHeader.prototype, hreturns, bind_ok, hparams, bind_ok, hsome] at h
  obtain rfl := Except.ok.inj h
  refine bears_map (fun a => Backend.c.spelling a.shape ++ " ") (fun _ => "")
    (.beside _ (api ++ " " ++ returns ++ " " ++ f.name ++ "(") (");")
      (List.mem_singleton_self _) fun _ => ?_)
  simp [Code.textWith, String.append_assoc]

/-- **What is printed at a site bears its identifiers.** -/
theorem identifiers_printed {s : Surface} (hs : s.spelling = .full) {b : Backend} {site : Site}
    (h : Prints s b site lines) : Bears lines (b.identifiers site) := by
  cases h with
  | pythonRecord h => exact PythonModule.bears_fields h _ _
  | pythonVariant owner h => exact PythonModule.bears_fields h _ _
  | pythonFailure owner code h => exact PythonModule.bears_failure owner code h
  | pythonMembers h => exact PythonModule.bears_members h
  | pythonEnum h => exact PythonModule.bears_enum h
  | pythonError e => exact PythonModule.bears_error e
  | pythonHead owner c => exact PythonModule.bears_head owner c
  | kotlinRecord h => exact KotlinSource.bears_record h
  | kotlinVariant owner h => exact KotlinSource.bears_variant owner h
  | kotlinFailure owner code v => exact KotlinSource.bears_failure owner code v
  | kotlinEnum e => exact KotlinSource.bears_enum e
  | kotlinError e => exact KotlinSource.bears_error e
  | kotlinHead owner c => exact KotlinSource.bears_params owner c
  | kotlinPrototype h => exact KotlinSource.bears_prototype hs h
  | cPrototype hf h => exact CHeader.bears_prototype hs hf h

end Printed

end Bindgen.Emit

namespace Bindgen

open Interface Boundary Emit Identifier

/-- **Where names stay distinct.** Where an accepted model has different names at a site, the identifiers of a backend
there are different just if the names are kept apart: none of them is one that the backend puts in, and no two clash.
Names in snake case never clash. These identifiers are what the lines bear that are printed at the site. -/
theorem identifiers_distinct (g : Generation) {symbols : List Signature}
    (h : Generation.fresh Generation.derive g = .ok symbols) {site : Site} (hsite : site ∈ Site.ofModel g.model symbols)
    (hnames : site.names.Nodup) {b : Backend} {r : Renaming} (hr : b.renaming? site = some r) :
    ((b.identifiers site).Nodup ↔ Keeps r (b.own site) site.names) ∧
      ((∀ name ∈ site.names, SnakeName name) → ((b.identifiers site).Nodup ↔ (b.own site).Disjoint site.names)) ∧
      ∀ (s : Surface) (lines : List Code), s.spelling = .full → Prints s b site lines →
        Bears lines (b.identifiers site) := by
  rw [fresh_derive] at h
  obtain ⟨-, rfl, -⟩ := derived_eq_ok h
  obtain ⟨hown, hownSnake⟩ := own_snake b hsite
  have hkeeps : (b.identifiers site).Nodup ↔ Keeps r (b.own site) site.names :=
    (identifiers_perm hsite hr).nodup_iff.trans (nodup_map_apply_iff hown hnames)
  refine ⟨hkeeps, fun hsnake => ⟨fun hnodup => (hkeeps.1 hnodup).new, fun hnew => ?_⟩,
    fun _ _ hs => identifiers_printed hs⟩
  have hall : ∀ name ∈ b.own site ++ site.names, SnakeName name := by
    rw [List.forall_mem_append]
    exact ⟨hownSnake, hsnake⟩
  have hnodup : (b.own site ++ site.names).Nodup := List.nodup_append'.2 ⟨hown, hnames, hnew⟩
  exact (identifiers_perm hsite hr).nodup_iff.2 (hnodup.map_on fun x hx y hy => r.injOn_snake (hall x hx) (hall y hy))

/-- An error with two variants whose classes have the same name. -/
def spoiled : Choice := ⟨"Fault", [⟨"bad_food", []⟩, ⟨"badFood", []⟩]⟩

/-- A method whose parameter is called like its receiver. -/
def grip : Callable := ⟨.method, "m", [⟨"handle", .prim .u8, false⟩], none, none⟩

/-- An object with that method. -/
def gripped : Object := ⟨"T", [], [grip], Eq.refl true, Eq.refl true⟩

/-- A model with both. -/
def mergedModel : Model := ⟨"n", [], [], [spoiled], [gripped], [], Eq.refl true⟩

/-- One class takes the place of the other, and the exported symbol has two arguments of one name. -/
theorem identifiers_distinct_merged : ∃ g symbols sig,
    Generation.fresh Generation.derive g = .ok symbols ∧ .variants spoiled.variants ∈ Site.ofModel g.model symbols ∧
      .arguments sig ∈ Site.ofModel g.model symbols ∧ sig.source = some grip ∧
      Backend.python.identifiers (.variants spoiled.variants) = ["BadFood", "BadFood"] ∧
      ¬ Keeps .pascal [] ["bad_food", "badFood"] ∧
      Backend.c.identifiers (.arguments sig) = ["handle", "handle"] ∧
      ¬ (Backend.c.own (.arguments sig)).Disjoint ["handle"] := by
  have hpasses : mergedModel.Passes := passes_of_isOk (by decide +kernel)
  let g := Generation.ofModel mergedModel .default .full
  let sig := signatureOf mergedModel (some gripped) grip
  have h : Generation.fresh Generation.derive g = .ok mergedModel.symbols :=
    (fresh_derive g).trans (derived_of_nodup hpasses (by decide))
  have hvariants : Site.variants spoiled.variants ∈ Site.ofModel mergedModel mergedModel.symbols :=
    List.mem_of_getElem? (i := 0) rfl
  have hsig : sig ∈ mergedModel.symbols := List.mem_of_getElem? (i := 3) rfl
  have harguments : Site.arguments sig ∈ Site.ofModel mergedModel mergedModel.symbols :=
    List.mem_append_right _ (List.mem_map_of_mem hsig)
  refine ⟨g, _, sig, h, hvariants, harguments, rfl, by decide, fun hkeeps => ?_, rfl, fun hnew => ?_⟩
  · have hdistinct := (identifiers_distinct g h hvariants (by decide) (b := .python) rfl).1
    exact absurd (hdistinct.2 hkeeps) (by decide)
  · have hdistinct := (identifiers_distinct g h harguments (by decide) (b := .c) rfl).2.1 (by decide)
    exact absurd (hdistinct.2 hnew) (by decide)

end Bindgen
