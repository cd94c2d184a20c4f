import Bindgen.Native.Arguments
import Bindgen.Proofs.Outcome
import Bindgen.Proofs.Resolve.Table
import Bindgen.Wire.Codec

/-!
# Ordinary names

The module of a model finds what it needs by name, so a model can take a name away from it. `OrdinaryNames`
says that a model does not: its definitions and functions, its fields, its variants and its members have names
that differ where they share a scope, do not begin with a low line, and are not names that the module uses.

Under ordinary names a converter finds itself and everything else it asks for: the lemmas here answer every
such question, so that the laws of the wire do not look at names any more.
-/

namespace Bindgen.Wire

open Interface Resolve Identifier Native

/-- Whether a name begins with a low line. -/
def isLow (name : String) : Bool := name.toList.head? == some '_'

/-- The names without a low line in front that converters and wrappers use. -/
def moduleWords : List String :=
  ["self", "value", "stream", "index", "isinstance", "super"]

/-- What the constructor of an error binds besides its fields, and what it uses. -/
def failureWords : List String := ["self", "message", "args", "super"]

end Bindgen.Wire

namespace Bindgen.Interface

open Wire Native

/-- The names that the module of a model binds for its definitions and functions. -/
def Model.globals (m : Model) : List String :=
  m.definitions.map (·.name) ++ m.functions.map calledName

/-- The lists of fields in a definition, each of which is a scope. -/
def Definition.fieldScopes : Definition → List (List Field)
  | .record r => [r.fields]
  | .enum c | .error c => c.variants.map (·.fields)
  | .object _ => []

/-- The variants of an enum without fields, which are its members. -/
def Definition.members : Definition → List Variant
  | .enum c => if c.isFlat then c.variants else []
  | _ => []

/-- The variants of any other enum and of an error, which have classes. -/
def Definition.classes (d : Definition) : List Variant :=
  ((Schema.choice? d).map (·.variants)).getD []

/-- The fields of all variants of an error. -/
def Definition.failureFields : Definition → List Field
  | .error c => c.variants.flatMap (·.fields)
  | _ => []

/-- The members of an object class. -/
def Definition.callables : Definition → List Callable
  | .object o => o.callables
  | _ => []

/-- The schema of the module of a model. -/
def Model.schema (m : Model) : Schema :=
  ⟨Resolve.named m.definitions, m.functions.map calledName⟩

/-- The converter of a type in the module of a model. -/
def Model.converter (m : Model) (limit : Nat) (t : Ty) : Converter := ⟨m.schema, limit, t⟩

/-- The identifiers generated for a model are ordinary ones, and differ within each scope. -/
structure OrdinaryNames (m : Model) : Prop where
  /-- No definition or function takes a name from the module. -/
  globals : ∀ n ∈ m.globals, isLow n = false ∧ n ∉ moduleWords
  globals_nodup : m.globals.Nodup
  fields : ∀ d ∈ m.definitions, ∀ fs ∈ d.fieldScopes, ∀ f ∈ fs, isLow (fieldName f) = false
  fields_nodup : ∀ d ∈ m.definitions, ∀ fs ∈ d.fieldScopes, (fs.map fieldName).Nodup
  members : ∀ d ∈ m.definitions, ∀ v ∈ d.members, isLow (Identifier.upperSnake v.name) = false
  classes_nodup : ∀ d ∈ m.definitions, (d.classes.map fun v => Identifier.pascal v.name).Nodup
  failures : ∀ d ∈ m.definitions, ∀ f ∈ d.failureFields, fieldName f ∉ failureWords
  callables : ∀ d ∈ m.definitions, ∀ c ∈ d.callables, isLow c.name = false

end Bindgen.Interface

namespace Bindgen.Wire

open Interface Resolve Identifier Native

variable {m : Model}

/-! ## Low lines -/

theorem isLow_of_isPrefixOf {name : String} {cs : List Char} (h : ('_' :: cs).isPrefixOf name.toList = true) :
    isLow name = true := by
  unfold isLow
  cases hn : name.toList with
  | nil => rw [hn] at h; exact absurd h (by simp [List.isPrefixOf])
  | cons c rest =>
    rw [hn, List.isPrefixOf_cons_cons, Bool.and_eq_true, beq_iff_eq] at h
    rw [← h.1]
    rfl

theorem isLow_append {a : String} (h : isLow a = true) (b : String) : isLow (a ++ b) = true := by
  unfold isLow at h ⊢
  rw [String.toList_append]
  cases ha : a.toList with
  | nil => rw [ha] at h; exact absurd h (by decide)
  | cons c rest => rw [ha] at h; exact h

theorem isPrivate_of_not_low {name : String} (h : isLow name = false) : isPrivate name = false := by
  cases hp : isPrivate name with
  | false => rfl
  | true =>
    unfold isPrivate twoLines at hp
    simp only [Bool.and_eq_true] at hp
    exact absurd (isLow_of_isPrefixOf hp.1) (by rw [h]; exact Bool.false_ne_true)

theorem mangled_of_not_low {cls name : String} (h : isLow name = false) : mangled cls name = name := by
  unfold mangled
  simp only [isPrivate_of_not_low h, Bool.false_and, Bool.false_eq_true, if_false]

/-- A member whose name has no low line in front is one of its enum. -/
theorem isMember_of_not_low {owner : String} {v : Variant} (h : isLow (upperSnake v.name) = false) :
    Schema.isMember owner v = true := by
  have hlow : ¬ isLow (upperSnake v.name) = true := by rw [h]; exact Bool.false_ne_true
  unfold Schema.isMember Schema.memberAttr
  simp only [mangled_of_not_low h]
  cases ho : isOwnOf owner (upperSnake v.name) with
  | true =>
    unfold isOwnOf at ho
    simp only [Bool.and_eq_true] at ho
    have hfront : ('_' :: (owner ++ "__").toList).isPrefixOf (upperSnake v.name).toList = true := by
      simpa using ho.1.2
    exact absurd (isLow_of_isPrefixOf hfront) hlow
  | false =>
    cases hd : isDunder (upperSnake v.name) with
    | false => rfl
    | true =>
      unfold isDunder twoLines at hd
      simp only [Bool.and_eq_true] at hd
      exact absurd (isLow_of_isPrefixOf hd.1.1.1.2) hlow

/-- Every converter is looked for under a name with a low line in front. -/
theorem isLow_converterSource (t : Ty) : isLow (Emit.converterSource t) = true := by
  unfold Emit.converterSource
  induction t with
  | box t ih => exact ih
  | prim | string | bytes => exact (by decide : isLow Emit.supportName = true)
  | optional t => exact isLow_append (by decide) _
  | sequence t => exact isLow_append (by decide) _
  | map k v => exact isLow_append (by decide) _
  | named n => exact isLow_append (by decide) _

/-! ## Names of the module -/

/-- A name stands for a definition of that name. -/
theorem lookup_schema {name : String} {d : Definition} (h : m.schema.table.lookup name = some d) :
    d ∈ m.definitions ∧ d.name = name :=
  mem_named.1 (mem_of_lookup h)

/-- A choice with classes for its variants is an enum with fields or an error. -/
theorem choice_cases {d : Definition} {c : Choice} (h : Schema.choice? d = some c) :
    d = .enum c ∧ c.isFlat = false ∨ d = .error c := by
  cases d with
  | enum e =>
    have h : (if e.isFlat then none else some e) = some c := h
    cases he : e.isFlat with
    | true => rw [he] at h; exact absurd h (by simp)
    | false =>
      rw [he] at h
      obtain rfl := Option.some.inj h
      exact .inl ⟨rfl, he⟩
  | error e => exact .inr (congrArg _ (Option.some.inj h))
  | _ => exact absurd h (by simp [Schema.choice?])

theorem choice_of_not_flat {c : Choice} (hf : c.isFlat = false) : Schema.choice? (.enum c) = some c :=
  if_neg (by rw [hf]; exact Bool.false_ne_true)

theorem fields_mem_fieldScopes {d : Definition} {c : Choice} (hc : Schema.choice? d = some c) {i : Nat}
    {v : Variant} (hv : c.variants[i]? = some v) : v.fields ∈ d.fieldScopes := by
  have hm := List.mem_map_of_mem (f := Variant.fields) (List.mem_of_getElem? hv)
  rcases choice_cases hc with ⟨rfl, -⟩ | rfl
  · exact hm
  · exact hm

/-- What is in a scope of a definition is a field of it. -/
theorem mem_fields_of_scope {d : Definition} {fs : List Field} (hfs : fs ∈ d.fieldScopes) {f : Field}
    (hf : f ∈ fs) : f ∈ d.fields := by
  cases d with
  | record r =>
    obtain rfl := List.mem_singleton.1 hfs
    exact hf
  | enum c | error c =>
    obtain ⟨v, hv, rfl⟩ := List.mem_map.1 hfs
    exact List.mem_flatMap.2 ⟨v, hv, hf⟩
  | object o => exact absurd hfs List.not_mem_nil

theorem isTaken_schema {name : String} (h : name ∉ m.globals) : m.schema.isTaken name = false := by
  unfold Model.globals at h
  rw [List.mem_append, not_or] at h
  unfold Schema.isTaken
  simp only [Bool.or_eq_false_iff, decide_eq_false_iff_not]
  refine ⟨h.2, ?_⟩
  cases hl : m.schema.table.lookup name with
  | none => rfl
  | some d =>
    obtain ⟨hd, rfl⟩ := lookup_schema hl
    exact absurd (List.mem_map_of_mem hd) h.1

section Ordinary

variable (hn : OrdinaryNames m)
include hn

theorem not_global_of_low {name : String} (h : isLow name = true) : name ∉ m.globals :=
  fun hg => absurd h (by rw [(hn.globals name hg).1]; exact Bool.false_ne_true)

theorem not_global_of_word {name : String} (h : name ∈ moduleWords) : name ∉ m.globals :=
  fun hg => (hn.globals name hg).2 h

/-- No function hides a definition. -/
theorem not_function {d : Definition} (hd : d ∈ m.definitions) : d.name ∉ m.schema.functions := by
  have h := hn.globals_nodup
  unfold Model.globals at h
  exact List.disjoint_of_nodup_append h (List.mem_map_of_mem hd)

/-- What is looked for under a name with a low line in front is found. -/
theorem find_of_low {name : String} (h : isLow name = true) : m.schema.find name = .ok () := by
  unfold Schema.find
  rw [if_neg]
  intro hf
  exact not_global_of_low hn h (List.mem_append_right _ hf)

/-- Every converter is found where it is looked for. -/
theorem find_converterSource (t : Ty) : m.schema.find (Emit.converterSource t) = .ok () :=
  find_of_low hn (isLow_converterSource t)

/-- The name of a definition stands for it wherever the locals are words of the module. -/
theorem standing_itself {d : Definition} (hd : d ∈ m.definitions) {locals : Locals}
    (hl : ∀ p ∈ locals, p.1 ∈ moduleWords) : m.schema.standing locals d.name = .itself := by
  have hg := hn.globals d.name (List.mem_append_left _ (List.mem_map_of_mem hd))
  have hlook : locals.lookup d.name = none := by
    rw [List.lookup_eq_none_iff]
    intro p hp
    rw [bne_iff_ne]
    intro he
    exact hg.2 (he ▸ hl p hp)
  unfold Schema.standing
  rw [isPrivate_of_not_low hg.1, if_neg Bool.false_ne_true, hlook]
  exact if_neg (not_function hn hd)

/-! ## What a converter asks for -/

theorem askInstance_ok (d : Definition) (v : Value) : m.schema.askInstance d v = .ok () := by
  unfold Schema.askInstance
  rw [isTaken_schema (not_global_of_word hn (by decide)), if_neg Bool.false_ne_true]

theorem askVariant_ok {d : Definition} (hd : d ∈ m.definitions) {locals : Locals}
    (hl : ∀ p ∈ locals, p.1 ∈ moduleWords) (v : Value) : m.schema.askVariant locals d v = .ok () := by
  unfold Schema.askVariant
  rw [standing_itself hn hd hl]
  exact askInstance_ok hn d v

/-- No class of objects declares a member that every object has. -/
theorem askMember_ok (cls : String) {member : String} (hl : isLow member = true) (given : Nat) :
    m.schema.askMember cls member given = .ok () := by
  unfold Schema.askMember
  split
  · rename_i o ho
    have hc := hn.callables (.object o) (lookup_schema ho).1
    rw [if_neg]
    rw [List.any_eq_true]
    rintro ⟨c, hm, he⟩
    rw [beq_iff_eq] at he
    exact absurd (hc c hm) (by rw [he, hl]; exact Bool.noConfusion)
  · rfl

/-! ## Attributes -/

/-- The fields of one scope are attributes under their own names. -/
theorem fieldAttr_eq {d : Definition} (hd : d ∈ m.definitions) {fs : List Field} (hfs : fs ∈ d.fieldScopes)
    (cls : ClassRef) : fs.map (m.schema.fieldAttr cls) = fs.map fieldName :=
  List.map_congr_left fun f hf => mangled_of_not_low (hn.fields d hd fs hfs f hf)

theorem attributes_record {r : Record} (hl : m.schema.table.lookup r.name = some (.record r)) :
    m.schema.attributes ⟨r.name, none⟩ = r.fields.map fieldName := by
  unfold Schema.attributes
  simp only [hl]
  exact fieldAttr_eq hn (lookup_schema hl).1 (List.mem_singleton.2 rfl) _

theorem attributes_variant {d : Definition} {c : Choice} (hl : m.schema.table.lookup c.name = some d)
    (hc : Schema.choice? d = some c) {i : Nat} {v : Variant} (hv : c.variants[i]? = some v) :
    m.schema.attributes ⟨c.name, some i⟩ = v.fields.map fieldName := by
  have hfs : v.fields ∈ d.fieldScopes := fields_mem_fieldScopes hc hv
  have ha := fieldAttr_eq hn (lookup_schema hl).1 hfs ⟨c.name, some i⟩
  unfold Schema.attributes
  rcases choice_cases hc with ⟨rfl, -⟩ | rfl
  · simp only [hl, hv, ha]
  · simp only [hl, hv, ha]

end Ordinary

/-! ## Instances -/

/-- Where the classes of variants have names of their own, each is the class of its variant. -/
theorem variantClass_eq {c : Choice} (h : (c.variants.map fun v => pascal v.name).Nodup) (i : Nat) :
    Schema.variantClass c i = i := by
  unfold Schema.variantClass
  cases hv : c.variants[i]? with
  | none => rfl
  | some v =>
    simp only
    generalize hl : List.getLast? _ = last
    cases last with
    | none => rfl
    | some p =>
      obtain ⟨hm, he⟩ := List.mem_filter.1 (List.mem_of_getLast? hl)
      have hp := List.mem_zipIdx_iff_getElem?.1 hm
      have hi : i < (c.variants.map fun v => pascal v.name).length := by
        rw [List.length_map]
        exact (List.getElem?_eq_some_iff.1 hv).1
      have hi : p.2 = i := by
        refine ((List.getElem?_inj hi h).1 ?_).symm
        rw [List.getElem?_map, List.getElem?_map, hv, hp]
        simpa using (beq_iff_eq.1 he).symm
      exact hi

/-- What is listed under names of its own is found again under each of them. -/
theorem filterMap_lookup {given : List (String × Value)} (h : (given.map (·.1)).Nodup) :
    (given.map (·.1)).filterMap (fun a => (given.lookup a).map (a, ·)) = given := by
  rw [List.filterMap_map]
  refine (List.filterMap_congr fun p hp => ?_).trans List.filterMap_some
  show (given.lookup p.1).map (p.1, ·) = some p
  rw [lookup_of_mem h hp]
  rfl

theorem map_lookup {given : List (String × Value)} (h : (given.map (·.1)).Nodup) :
    (given.map (·.1)).map (fun a => (a, (given.lookup a).getD .none)) = given := by
  rw [List.map_map]
  refine (List.map_congr_left fun p hp => ?_).trans (List.map_id given)
  show (p.1, (given.lookup p.1).getD .none) = p
  rw [lookup_of_mem h hp]
  rfl

theorem checkKnown_ok {s : Schema} {cls : ClassRef} {given : List (String × Value)}
    (hk : given.map (·.1) = s.attributes cls) : s.checkKnown cls given = .ok () := by
  unfold Schema.checkKnown
  split
  · next name v hfound =>
    have hunknown := List.find?_some hfound
    have hknown : name ∈ s.attributes cls := hk ▸ List.mem_map_of_mem (List.mem_of_find?_eq_some hfound)
    exact absurd hknown (by simpa using hunknown)
  · rfl

theorem instanceField_ok {s : Schema} {attr : String} (hl : isLow attr = false) (v : Value) :
    s.instanceField attr v = .ok (attr, v) := by
  unfold Schema.instanceField
  split
  · exact absurd hl (by decide)
  · exact absurd hl (by decide)
  · rfl

theorem failureField_ok {s : Schema} {attr : String} (hl : isLow attr = false)
    (hw : attr ∉ failureWords) (v : Value) : s.failureField attr v = .ok (attr, v) := by
  have hne : attr ≠ Schema.itemsName := fun he => hw (by rw [he]; decide)
  have horigin : attr ∉ Schema.originNames := by
    have hlow : ∀ a ∈ Schema.originNames, isLow a = true := by decide
    exact fun hm => absurd (hlow attr hm) (by simp [hl])
  unfold Schema.failureField
  rw [if_neg hne]
  split
  · exact absurd hl (by decide)
  · exact absurd hl (by decide)
  · exact absurd hl (by decide)
  · exact absurd hl (by decide)
  · rw [if_neg (by simp [horigin])]

/-- A record or variant takes its own fields as they are given. -/
theorem makeInstance_ok {s : Schema} {cls : ClassRef} {given : List (String × Value)}
    (hk : given.map (·.1) = s.attributes cls) (hnd : (s.attributes cls).Nodup)
    (hlow : ∀ a ∈ s.attributes cls, isLow a = false) :
    s.makeInstance cls given = .ok (.instance cls given) := by
  have hset : ∀ a ∈ given.map (·.1), (given.lookup a).isNone = false := by
    intro a ha
    obtain ⟨p, hp, rfl⟩ := List.mem_map.1 ha
    rw [lookup_of_mem (hk ▸ hnd) hp]
    rfl
  have hunset : (given.map (·.1)).filter (fun a => (given.lookup a).isNone) = [] := by
    rw [List.filter_eq_nil_iff]
    intro a ha
    rw [hset a ha]
    exact Bool.false_ne_true
  have hfields : given.mapM (fun p => s.instanceField p.1 p.2) = .ok given := by
    rw [mapM_eq_ok, List.forall₂_same]
    intro p hp
    exact instanceField_ok (hlow p.1 (hk ▸ List.mem_map_of_mem hp)) p.2
  unfold Schema.makeInstance
  rw [checkKnown_ok hk, bind_ok]
  simp only [← hk, hunset, filterMap_lookup (hk ▸ hnd)]
  simp only [List.filter_nil, List.isEmpty_nil, Bool.not_true, Bool.false_eq_true, if_false]
  exact bind_eq_ok.2 ⟨given, hfields, rfl⟩

/-- A variant of an error takes its own fields as they are given, with any message. -/
theorem makeFailure_ok {s : Schema} {cls : ClassRef} {message : String} {given : List (String × Value)}
    (hk : given.map (·.1) = s.attributes cls) (hnd : (s.attributes cls).Nodup)
    (hlow : ∀ a ∈ s.attributes cls, isLow a = false) (hwords : ∀ a ∈ s.attributes cls, a ∉ failureWords)
    (hparent : s.isTaken Builtin.parent.name = false) :
    s.makeFailure cls message given =
      .ok (.failure cls ((cls.variant.getD 0 : Nat) + firstVariant) message given) := by
  have hsuper : given.lookup Builtin.parent.name = none := by
    rw [List.lookup_eq_none_iff]
    intro p hp
    rw [bne_iff_ne]
    intro he
    exact hwords p.1 (hk ▸ List.mem_map_of_mem hp) (by rw [← he]; decide)
  have hfields : given.mapM (fun p => s.failureField p.1 p.2) = .ok given := by
    rw [mapM_eq_ok, List.forall₂_same]
    intro p hp
    have ha : p.1 ∈ s.attributes cls := hk ▸ List.mem_map_of_mem hp
    exact failureField_ok (hlow p.1 ha) (hwords p.1 ha) p.2
  unfold Schema.makeFailure
  rw [checkKnown_ok hk, bind_ok]
  simp only [← hk, map_lookup (hk ▸ hnd), hsuper, hparent]
  simp only [Bool.false_eq_true, if_false]
  exact bind_eq_ok.2 ⟨given, hfields, rfl⟩

section Making

variable (hn : OrdinaryNames m)
include hn

/-- The fields that were read are made into a record. -/
theorem makeRecord_ok {d : Record} {given : List (String × Value)}
    (hl : m.schema.table.lookup d.name = some (.record d)) (hk : given.map (·.1) = d.fields.map fieldName) :
    m.schema.makeInstance ⟨d.name, none⟩ given = .ok (.instance ⟨d.name, none⟩ given) := by
  have hd := (lookup_schema hl).1
  have hfs : d.fields ∈ (Definition.record d).fieldScopes := List.mem_singleton.2 rfl
  have hattrs := attributes_record hn hl
  refine makeInstance_ok (hk.trans hattrs.symm) ?_ ?_
  · rw [hattrs]
    exact hn.fields_nodup _ hd _ hfs
  · rw [hattrs, List.forall_mem_map]
    exact hn.fields _ hd _ hfs

/-- The variants of a choice have classes of their own. -/
theorem choice_classes_nodup {c : Choice} {d : Definition} (hd : d ∈ m.definitions)
    (hc : Schema.choice? d = some c) : (c.variants.map fun v => pascal v.name).Nodup := by
  have hclasses : d.classes = c.variants := by
    unfold Definition.classes
    rw [hc]
    rfl
  exact hclasses ▸ hn.classes_nodup d hd

end Making

end Bindgen.Wire
