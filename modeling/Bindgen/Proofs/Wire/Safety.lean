import Bindgen.Proofs.Wire.Depth
import Bindgen.Proofs.Wire.RoundTrip

/-!
# Reading any bytes

Bytes come from the native side, and may be anything. What is read from them is accepted by the converter that
read it, and takes bytes off the front of what there is; or the protocol is broken. Nothing else comes of them
where there is room for the nesting.

The names are ordinary here, and maps have plain keys. Every name that is reached has a definition, because the
model is accepted.

Results:
* `lifted_ty`, `lifted_named`: what is read of a type or definition is accepted for it.
* `lifting_safe`: what comes of any bytes.
-/

namespace Bindgen.Wire

open Interface Resolve

variable {s : Schema} {m : Model}

/-- The faults of reading: the protocol is broken, or reading is given up. -/
def FromBytes (e : Fault) : Prop := e = .tooDeep ∨ ∃ b, e = .internal b

theorem fromBytes_internal (b : Breach) : FromBytes (.internal b) := .inr ⟨b, rfl⟩

/-- What was read of a type: it was taken off the front, the converter accepts it, and it can be a key where the
type is one of keys. -/
structure Lifted (s : Schema) (check : Value → Except Fault Unit) (t : Ty) (r : Reader) (p : Value × Reader) :
    Prop where
  took : ∃ n, r.Took n p.2
  accepted : check p.1 = .ok ()
  hashable : isKey s.table t = true → p.1.unhashable? s = none

/-! ## Types -/

section Types

variable {root : Ty} {check : String → Value → Except Fault Unit}

theorem mem_insert {k w : Value} {entries : List (Value × Value)} {p : Value × Value}
    (h : p ∈ Value.insert k w entries) :
    p ∈ entries ∨ p = (k, w) ∨ p.2 = w ∧ ∃ q ∈ entries, q.1 = p.1 := by
  induction entries with
  | nil => exact .inr (.inl (List.mem_singleton.1 h))
  | cons q entries ih =>
    obtain ⟨a, b⟩ := q
    unfold Value.insert at h
    split at h
    · rcases List.mem_cons.1 h with rfl | h
      · exact .inr (.inr ⟨rfl, _, List.mem_cons_self, rfl⟩)
      · exact .inl (List.mem_cons_of_mem _ h)
    · rcases List.mem_cons.1 h with rfl | h
      · exact .inl List.mem_cons_self
      · rcases ih h with h | h | ⟨hw, q, hq, he⟩
        · exact .inl (List.mem_cons_of_mem _ h)
        · exact .inr (.inl h)
        · exact .inr (.inr ⟨hw, q, List.mem_cons_of_mem _ hq, he⟩)

/-- Keys and values are accepted for the types of a map. -/
def AcceptedEntries (s : Schema) (check : String → Value → Except Fault Unit) (k w : Ty)
    (entries : List (Value × Value)) : Prop :=
  ∀ p ∈ entries, checkTy s check k p.1 = .ok () ∧ checkTy s check w p.2 = .ok ()

theorem yields_insert {k w : Ty} {a b : Value} {entries : List (Value × Value)}
    (ha : checkTy s check k a = .ok () ∧ a.unhashable? s = none) (hb : checkTy s check w b = .ok ())
    (he : AcceptedEntries s check k w entries) :
    Yields FromBytes (AcceptedEntries s check k w) (Value.insert? s a b entries) := by
  unfold Value.insert?
  rw [ha.2]
  intro p hp
  rcases mem_insert hp with hp | rfl | ⟨hsecond, q, hq, hfirst⟩
  · exact he p hp
  · exact ⟨ha.1, hb⟩
  · exact ⟨hfirst ▸ (he q hq).1, hsecond ▸ hb⟩

/-- **What is read of a type is accepted for it**, if what is read of definitions is. -/
theorem lifted_ty (hp : PlainKeys s.table root) {read : String → Reader → Except Fault (Value × Reader)}
    (hread : ∀ name r, Reaches s.table root (.named name) →
      Yields FromBytes (Lifted s (check name) (.named name) r) (read name r))
    {t : Ty} (ht : Reaches s.table root t) (r : Reader) :
    Yields FromBytes (Lifted s (checkTy s check t) t r) (readTy s read t r) := by
  induction t generalizing r with
  | prim p =>
    refine (yields_prim fromBytes_internal p r).mono fun q hq => ?_
    obtain ⟨⟨n, -, htook⟩, hcheck, hhash⟩ := hq
    exact ⟨⟨n, htook⟩, hcheck, fun _ => hhash⟩
  | string =>
    refine (yields_counted fromBytes_internal r).bind fun q hq =>
      (yields_decodeText fromBytes_internal q.1).bind fun v hv => ?_
    obtain ⟨n, htook⟩ := hq
    obtain ⟨text, rfl⟩ := hv
    exact ⟨⟨_, htook⟩, rfl, fun _ => rfl⟩
  | bytes =>
    refine (yields_counted fromBytes_internal r).bind fun q hq => ?_
    obtain ⟨n, htook⟩ := hq
    exact ⟨⟨_, htook⟩, rfl, fun _ => rfl⟩
  | optional t ih =>
    refine (yields_int fromBytes_internal r .u8).bind fun q hq => ?_
    dsimp only
    split
    · exact ⟨⟨_, hq.1⟩, rfl, fun _ => rfl⟩
    · split
      · refine (ih (ht.tail (.child List.mem_cons_self)) q.2).mono fun p hl => ?_
        obtain ⟨⟨n, hn⟩, hcheck, hhash⟩ := hl
        refine ⟨⟨_, hq.1.trans hn⟩, ?_, hhash⟩
        unfold checkTy
        split
        · rfl
        · exact hcheck
      · exact fromBytes_internal _
  | sequence t ih =>
    refine (yields_int fromBytes_internal r .i32).bind fun q hq => ?_
    have hitem : ∀ r' n, q.2.Took n r' →
        Yields FromBytes (fun p => checkTy s check t p.1 = .ok () ∧ ∃ n, r'.Took n p.2) (readTy s read t r') :=
      fun r' _ _ => (ih (ht.tail (.child List.mem_cons_self)) r').mono fun _ hl => ⟨hl.accepted, hl.took⟩
    dsimp only
    split
    · exact fromBytes_internal _
    · refine (yields_items (Q := (checkTy s check t · = .ok ())) hitem).bind fun p hp => ?_
      obtain ⟨hitems, n, hn⟩ := hp
      exact ⟨⟨_, hq.1.trans hn⟩, forM_eq_ok.2 hitems, fun h => absurd h Bool.false_ne_true⟩
  | map k w ihk ihw =>
    have hkey : isKey s.table k = true := hp k w ht
    refine (yields_int fromBytes_internal r .i32).bind fun q hq => ?_
    have hk : ∀ r' n, q.2.Took n r' → Yields FromBytes (fun p =>
        (checkTy s check k p.1 = .ok () ∧ p.1.unhashable? s = none) ∧ ∃ n, r'.Took n p.2) (readTy s read k r') :=
      fun r' _ _ => (ihk (ht.tail (.child (by simp [Ty.children]))) r').mono
        fun _ hl => ⟨⟨hl.accepted, hl.hashable hkey⟩, hl.took⟩
    have hw : ∀ r' n, q.2.Took n r' →
        Yields FromBytes (fun p => checkTy s check w p.1 = .ok () ∧ ∃ n, r'.Took n p.2) (readTy s read w r') :=
      fun r' _ _ => (ihw (ht.tail (.child (by simp [Ty.children]))) r').mono fun _ hl => ⟨hl.accepted, hl.took⟩
    dsimp only
    split
    · exact fromBytes_internal _
    · refine (yields_entries (E := AcceptedEntries s check k w) hk hw (fun _ _ _ => yields_insert)
        fun _ h => absurd h List.not_mem_nil).bind fun p hp => ?_
      obtain ⟨hentries, n, hn⟩ := hp
      refine ⟨⟨_, hq.1.trans hn⟩, forM_eq_ok.2 fun e he => ?_, fun h => absurd h Bool.false_ne_true⟩
      exact bind_eq_ok.2 ⟨(), (hentries e he).1, (hentries e he).2⟩
  | box t ih =>
    refine (ih (ht.tail (.child List.mem_cons_self)) r).mono fun p hl => ?_
    exact ⟨hl.took, hl.accepted, hl.hashable⟩
  | named name => exact hread name r ht

end Types

/-! ## Definitions -/

/-- Among definitions, only enums without fields are keys. -/
theorem flat_of_isKey {name : String} {d : Definition} (hl : s.table.lookup name = some d)
    (h : isKey s.table (.named name) = true) : ∃ c, d = .enum c ∧ c.isFlat = true := by
  unfold isKey at h
  rw [hl] at h
  cases d with
  | enum c => exact ⟨c, rfl, h⟩
  | _ => exact absurd h Bool.false_ne_true

/-- What is given for a field: a value that is accepted for its type, under its name. -/
def Given (check : Ty → Value → Except Fault Unit) (f : Field) (q : String × Value) : Prop :=
  q.1 = fieldName f ∧ check f.type q.2 = .ok ()

theorem names_of_given {check : Ty → Value → Except Fault Unit} {fs : List Field} {given : List (String × Value)}
    (h : List.Forall₂ (Given check) fs given) : given.map (·.1) = fs.map fieldName := by
  induction h with
  | nil => rfl
  | cons hq _ ih => rw [List.map_cons, List.map_cons, hq.1, ih]

/-- The fields that are read stand under their names, and are accepted for their types. -/
theorem lifted_fields {read : Ty → Reader → Except Fault (Value × Reader)} {check : Ty → Value → Except Fault Unit}
    {fs : List Field}
    (h : ∀ f ∈ fs, ∀ r, Yields FromBytes (Lifted s (check f.type) f.type r) (read f.type r)) (r : Reader) :
    Yields FromBytes (fun p => (∃ n, r.Took n p.2) ∧
      List.Forall₂ (Given check) fs p.1) (readFields read fs r) := by
  induction fs generalizing r with
  | nil => exact ⟨⟨0, .refl r⟩, .nil⟩
  | cons f fs ih =>
    rw [List.forall_mem_cons] at h
    refine (h.1 r).bind fun p hp => (ih h.2 p.2).bind fun q hq => ?_
    obtain ⟨n, hn⟩ := hp.took
    obtain ⟨⟨k, hk⟩, hrest⟩ := hq
    exact ⟨⟨n + k, hn.trans hk⟩, .cons ⟨rfl, hp.accepted⟩ hrest⟩

/-- What is read of some fields below a limit is accepted for their types. -/
def LiftsFields (m : Model) (limit : Nat) (fs : List Field) : Prop :=
  ∀ f ∈ fs, ∀ r, Yields FromBytes
    (Lifted m.schema (checkTy m.schema (checkNamed m.schema limit) f.type) f.type r) (readField m limit f.type r)

section Definitions

variable (hn : OrdinaryNames m)
include hn

/-- A value that shows the fields it was given is accepted field by field. -/
theorem eachField_given {name : String} {fs : List Field} {given : List (String × Value)} {v : Value}
    {check : Ty → Value → Except Fault Unit} (hlow : ∀ f ∈ fs, isLow (fieldName f) = false)
    (hnodup : (fs.map fieldName).Nodup) (hv : ∀ a w, given.lookup a = some w → v.attr? m.schema a = some w)
    (hg : List.Forall₂ (Given check) fs given) :
    ∃ us, eachField m.schema name fs v check = .ok us := by
  have hattr : ∀ f ∈ fs, ∃ w, v.attr? m.schema (fieldName f) = some w ∧ check f.type w = .ok () := by
    intro f hf
    obtain ⟨⟨a, w⟩, hq, rfl, hw⟩ := exists_right_of_forall₂ hg hf
    exact ⟨w, hv _ w (lookup_of_mem (by rwa [names_of_given hg]) hq), hw⟩
  refine exists_mapM_eq_ok fun f hf => ?_
  obtain ⟨w, hset, hw⟩ := hattr f hf
  rw [find_converterSource hn, bind_ok, mangled_of_not_low (hlow f hf), hset]
  exact ⟨(), hw⟩

theorem askClass_ok {d : Definition} (hd : d ∈ m.definitions) (v : Value) :
    m.schema.askClass (checkLocals d.name) d v = .ok () := by
  unfold Schema.askClass
  rw [standing_itself hn hd (by simp [checkLocals, ownLocal, moduleWords])]
  exact askInstance_ok hn d v

/-! ### Records -/

variable {limit : Nat}

theorem checkNamed_record {d : Record} {v : Value} {us : List Unit}
    (hl : m.schema.table.lookup d.name = some (.record d)) (hv : v.class? = some ⟨d.name, none⟩)
    (hus : eachField m.schema d.name d.fields v (checkTy m.schema (checkNamed m.schema limit)) = .ok us) :
    checkNamed m.schema (limit + 1) d.name v = .ok () := by
  have hask := askClass_ok hn (lookup_schema hl).1 v
  unfold checkNamed
  simp only [show (Definition.record d).name = d.name from rfl] at hask
  simp only [hl, hask, bind_ok, hv, if_true, hus]
  rfl

theorem lifted_record {d : Record} (hl : m.schema.table.lookup d.name = some (.record d))
    (hread : LiftsFields m limit d.fields) (r : Reader) :
    Yields FromBytes (Lifted m.schema (checkNamed m.schema (limit + 1) d.name) (.named d.name) r)
      (readNamed m.schema (limit + 1) d.name r) := by
  have hm := (lookup_schema hl).1
  have hfs : d.fields ∈ (Definition.record d).fieldScopes := List.mem_singleton.2 rfl
  rw [readNamed_record hn hl]
  refine (lifted_fields hread r).bind fun p hp => ?_
  obtain ⟨htook, hgiven⟩ := hp
  rw [makeRecord_ok hn hl (names_of_given hgiven)]
  obtain ⟨us, hus⟩ : ∃ us, eachField m.schema d.name d.fields (.instance ⟨d.name, none⟩ p.1)
      (checkTy m.schema (checkNamed m.schema limit)) = .ok us :=
    eachField_given hn (hn.fields _ hm _ hfs) (hn.fields_nodup _ hm _ hfs) (fun _ _ h => h) hgiven
  refine ⟨htook, checkNamed_record hn hl rfl hus, fun h => ?_⟩
  obtain ⟨c, hc, -⟩ := flat_of_isKey hl h
  cases hc

/-! ### Enums with fields and errors -/

omit hn in
theorem class?_variantValue (isError : Bool) (c : Choice) (i : Nat) (given : List (String × Value)) :
    (variantValue isError c i given).class? = some ⟨c.name, some i⟩ := by
  cases isError <;> rfl

omit hn in
theorem attr?_variantValue {isError : Bool} {c : Choice} {i : Nat} {given : List (String × Value)} {a : String}
    {w : Value} (h : given.lookup a = some w) : (variantValue isError c i given).attr? s a = some w := by
  cases isError with
  | false => exact h
  | true =>
    unfold variantValue Value.attr?
    simp only [if_true, h]

/-- A value of the class of a variant is of that variant. -/
theorem variantOf?_of_class {c : Choice} {d : Definition} {v : Value} {i : Nat} (hd : d ∈ m.definitions)
    (hc : Schema.choice? d = some c) (hi : i < c.variants.length) (hv : v.class? = some ⟨c.name, some i⟩) :
    v.variantOf? c = some i := by
  unfold Value.variantOf?
  rw [hv, Option.bind_some, if_pos rfl, List.find?_range_eq_some]
  simp only [variantClass_eq (choice_classes_nodup hn hd hc)]
  refine ⟨by simp, List.mem_range.2 hi, fun j hj => ?_⟩
  simpa using Nat.ne_of_gt hj

theorem checkNamed_variant {c : Choice} {d : Definition} {v : Value} {i : Nat} {w : Variant} {us : List Unit}
    (hl : m.schema.table.lookup c.name = some d) (hd : Schema.choice? d = some c)
    (hv : v.variantOf? c = some i) (hw : c.variants[i]? = some w)
    (hus : eachField m.schema c.name w.fields v (checkTy m.schema (checkNamed m.schema limit)) = .ok us) :
    checkNamed m.schema (limit + 1) c.name v = .ok () := by
  have hask : m.schema.askVariant (checkLocals c.name) d v = .ok () :=
    askVariant_ok hn (lookup_schema hl).1 (by simp [checkLocals, ownLocal, moduleWords]) v
  unfold checkNamed
  rcases choice_cases hd with ⟨rfl, hf⟩ | rfl
  · simp only [hl, hf, hask, bind_ok, ite_self, hv, hw, Bool.false_eq_true, if_false, Option.map_some,
      Option.getD_some, hus]
    rfl
  · simp only [hl, hask, bind_ok, ite_self, hv, hw, Option.map_some, Option.getD_some, hus]
    rfl

theorem lifted_choice {c : Choice} {d : Definition} (hl : m.schema.table.lookup c.name = some d)
    (hd : Schema.choice? d = some c)
    (hread : LiftsFields m limit d.fields) (r : Reader) :
    Yields FromBytes (Lifted m.schema (checkNamed m.schema (limit + 1) c.name) (.named c.name) r)
      (readNamed m.schema (limit + 1) c.name r) := by
  have hm := (lookup_schema hl).1
  rw [readNamed_choice hn hl hd]
  refine (yields_int fromBytes_internal r .i32).bind fun p hp => ?_
  unfold readVariant
  split
  · rename_i w hw
    have hw : c.variants[(p.1 - firstVariant).toNat]? = some w := by
      split at hw
      · exact absurd hw (by simp)
      · exact hw
    have hfs := fields_mem_fieldScopes hd hw
    refine (lifted_fields (fun f hf => hread f (mem_fields_of_scope hfs hf)) p.2).bind fun q hq => ?_
    obtain ⟨⟨n, hn'⟩, hgiven⟩ := hq
    simp only [buildVariant_given hn hl hd hw (names_of_given hgiven)]
    have hshows : ∀ a v, q.1.lookup a = some v →
        (variantValue (d.kind == .error) c (p.1 - firstVariant).toNat q.1).attr? m.schema a = some v :=
      fun _ _ h => attr?_variantValue h
    obtain ⟨us, hus⟩ : ∃ us, eachField m.schema c.name w.fields
        (variantValue (d.kind == .error) c (p.1 - firstVariant).toNat q.1)
        (checkTy m.schema (checkNamed m.schema limit)) = .ok us :=
      eachField_given hn (hn.fields _ hm _ hfs) (hn.fields_nodup _ hm _ hfs) hshows hgiven
    have hof := variantOf?_of_class hn hm hd (List.getElem?_eq_some_iff.1 hw).1
      (class?_variantValue (d.kind == .error) c _ q.1)
    refine ⟨⟨_, hp.1.trans hn'⟩, checkNamed_variant hn hl hd hof hw hus, fun h => ?_⟩
    obtain ⟨e, rfl, hflat⟩ := flat_of_isKey hl h
    exact absurd (hd.symm.trans (if_pos hflat)) (by simp)
  · exact fromBytes_internal _

/-! ### Enums without fields -/

theorem memberFault_internal (hv : memberErrorName ∉ m.globals) (c : Choice) (number : Int) :
    memberFault m.schema c number = .internal (.invalidVariant c.name number) := by
  have htaken := isTaken_schema hv
  have hsupport : Emit.supportName ∉ m.schema.functions := fun h =>
    not_global_of_low hn (by decide) (List.mem_append_right _ h)
  unfold Schema.isTaken at htaken
  rw [Bool.or_eq_false_iff, decide_eq_false_iff_not, Option.isSome_eq_false_iff,
    Option.isNone_iff_eq_none] at htaken
  unfold memberFault
  rw [if_neg htaken.1, htaken.2]
  exact if_neg hsupport

theorem lifted_flat (hv : memberErrorName ∉ m.globals) {c : Choice}
    (hl : m.schema.table.lookup c.name = some (.enum c)) (hf : c.isFlat = true) (r : Reader) :
    Yields FromBytes (Lifted m.schema (checkNamed m.schema (limit + 1) c.name) (.named c.name) r)
      (readNamed m.schema (limit + 1) c.name r) := by
  rw [readNamed_flat hn hl hf]
  refine (yields_int fromBytes_internal r .i32).bind fun p hp => ?_
  split
  · rename_i index _
    refine ⟨⟨_, hp.1⟩, ?_, fun _ => rfl⟩
    have hask := askClass_ok hn (lookup_schema hl).1 (.member c.name index)
    unfold checkNamed
    simp only [show (Definition.enum c).name = c.name from rfl] at hask
    simp only [hl, hf, if_true, hask, bind_ok]
    rfl
  · rw [memberFault_internal hn hv]
    exact fromBytes_internal _

/-! ### Objects -/

theorem liftObject_null {o : Object} (hd : .object o ∈ m.definitions) :
    liftObject m.schema o.name (.int 0) = .error (.internal .nullHandle) := by
  have hstand : m.schema.standing [ownLocal o.name] o.name = .itself :=
    standing_itself hn hd (by simp [ownLocal, moduleWords])
  unfold liftObject
  rw [hstand]
  rfl

theorem checkObject_ok {o : Object} (hd : .object o ∈ m.definitions) (handle : Option Value)
    (label : Option String) : checkObject m.schema o.name (.object ⟨o.name, []⟩ handle label) = .ok () := by
  have hstand : m.schema.standing [ownLocal o.name] o.name = .itself :=
    standing_itself hn hd (by simp [ownLocal, moduleWords])
  have hask : m.schema.askObject o.name = .ok () := by
    unfold Schema.askObject
    rw [hstand]
  unfold checkObject
  rw [hask, bind_ok]
  simp [ObjectClass.isA]

theorem lifted_object {o : Object} (hl : m.schema.table.lookup o.name = some (.object o)) (r : Reader) :
    Yields FromBytes (Lifted m.schema (checkNamed m.schema (limit + 1) o.name) (.named o.name) r)
      (readNamed m.schema (limit + 1) o.name r) := by
  have hm := (lookup_schema hl).1
  unfold readNamed
  simp only [hl]
  refine (yields_int fromBytes_internal r .u64).bind fun p hp => ?_
  obtain ⟨htook, front, hlength, hhandle⟩ := hp
  have hcontains : IntFormat.u64.contains p.1 = true := hhandle ▸ contains_decode (by decide) hlength
  have hnonneg : 0 ≤ p.1 := by
    unfold IntFormat.contains at hcontains
    exact (of_decide_eq_true hcontains).1
  rcases hnonneg.eq_or_lt with hnull | hpos
  · rw [← hnull, liftObject_null hn hm]
    exact fromBytes_internal _
  · rw [liftObject_ok hn hm hpos]
    refine ⟨⟨_, htook⟩, ?_, fun h => ?_⟩
    · unfold checkNamed
      simp only [hl]
      exact checkObject_ok hn hm _ _
    · obtain ⟨c, hc, -⟩ := flat_of_isKey hl h
      cases hc

/-! ### Every definition -/

/-- **What is read of a definition is accepted for it**, whatever the limit is. The induction is on the limit. -/
theorem lifted_named (hv : memberErrorName ∉ m.globals) {root : Ty} (hp : PlainKeys m.schema.table root)
    (hdefined : ∀ name, Reaches m.schema.table root (.named name) → ∃ d, m.schema.table.lookup name = some d)
    (limit : Nat) {name : String} (hname : Reaches m.schema.table root (.named name)) (r : Reader) :
    Yields FromBytes (Lifted m.schema (checkNamed m.schema limit name) (.named name) r)
      (readNamed m.schema limit name r) := by
  induction limit generalizing name r with
  | zero => exact .inl rfl
  | succ limit ih =>
    obtain ⟨d, hl⟩ := hdefined name hname
    have hread : LiftsFields m limit d.fields := by
      intro f hf r
      rw [readField_eq hn]
      exact lifted_ty hp (fun name r hname => ih hname r) (hname.tail (.field hl hf)) r
    obtain ⟨-, rfl⟩ := lookup_schema hl
    cases d with
    | record d => exact lifted_record hn hl hread r
    | enum c =>
      cases hf : c.isFlat with
      | true => exact lifted_flat hn hv hl hf r
      | false => exact lifted_choice hn hl (choice_of_not_flat hf) hread r
    | error c => exact lifted_choice hn hl rfl hread r
    | object o => exact lifted_object hn hl r

end Definitions

/-! ## Any bytes -/

/-- A value is what all of some bytes hold: text and bytes fill them, and of anything else nothing is left over. -/
def Converter.Fills (c : Converter) (bytes : List UInt8) (v : Value) : Prop :=
  match c.type.unbox with
  | .string => ∃ text, Text.Utf8.decode bytes = some text ∧ v = .text text
  | .bytes => v = .bytes bytes
  | _ => c.read (.ofBytes bytes) = .ok (v, ⟨bytes.length, []⟩)

/-- A reader from which nothing is left over stands at the end of the bytes. -/
theorem Reader.Took.at_end {bytes : List UInt8} {n : Nat} {r : Reader} (h : (Reader.ofBytes bytes).Took n r)
    (hr : r.rest = []) : r = ⟨bytes.length, []⟩ := by
  have hlength := h.length
  obtain ⟨_, _, _, hoffset⟩ := h
  obtain ⟨offset, rest⟩ := r
  obtain rfl : rest = [] := hr
  simp only [Reader.ofBytes, List.length_nil, Nat.add_zero, Nat.zero_add] at hlength hoffset
  rw [hoffset, hlength]

/-- What is read of a type is decoded if it is all there is, and accepted then. -/
theorem lifted_decode {c : Converter} {bytes : List UInt8}
    (h : Yields FromBytes (Lifted c.schema c.check c.type (.ofBytes bytes)) (c.read (.ofBytes bytes))) :
    Yields FromBytes (fun v => c.check v = .ok () ∧ c.Fills bytes v) (c.decode bytes) := by
  have hread : Yields FromBytes
      (fun v => c.check v = .ok () ∧ c.read (.ofBytes bytes) = .ok (v, ⟨bytes.length, []⟩))
      (c.read (.ofBytes bytes) >>= fun p => p.2.finish >>= fun _ => .ok p.1) := by
    cases hp : c.read (.ofBytes bytes) with
    | error e => exact h.of_error hp
    | ok p =>
      obtain ⟨⟨n, htook⟩, hcheck, -⟩ := h.of_ok hp
      exact (yields_finish fromBytes_internal p.2).bind fun _ hrest =>
        ⟨hcheck, congrArg Except.ok (Prod.ext rfl (htook.at_end hrest))⟩
  have hcheck : ∀ v, c.check v = checkTy c.schema (checkNamed c.schema c.limit) c.type.unbox v :=
    fun v => (checkTy_unbox c.type v).symm
  unfold Converter.decode Converter.Fills
  cases ht : c.type.unbox with
  | string =>
    show Yields FromBytes _ (decodeText bytes)
    unfold decodeText
    cases htext : Text.Utf8.decode bytes with
    | some text => exact ⟨by rw [hcheck, ht]; rfl, text, rfl, rfl⟩
    | none => exact fromBytes_internal _
  | bytes => exact ⟨by rw [hcheck, ht]; rfl, rfl⟩
  | _ => exact hread

/-- **Lifting any bytes is safe.** For a type over an accepted model whose names are ordinary and whose maps have
plain keys, and where no definition begins itself again before a byte is read, one thing comes of some bytes, as
soon as there is room to read them: a value that is accepted for the type and that all of the bytes hold, or a
breach of the protocol. Wherever reading starts and whatever room it has, it takes bytes off the front of those
that are there and gives a value that is accepted, or it is stopped, for a breach of the protocol or for the
room. -/
theorem lifting_safe {m : Model} (hm : m.Accepted) (hn : OrdinaryNames m) (hv : memberErrorName ∉ m.globals)
    {t : Ty} (ht : ∀ name ∈ t.names, name ∈ m.names) (hk : PlainKeys m.schema.table t)
    (hr : NoReentry m.schema.table t) :
    (∀ bytes,
      (∃ v, ∀ limit, (bytes.length + 1) * (m.definitions.length + 1) ≤ limit →
        (m.converter limit t).decode bytes = .ok v ∧ (m.converter limit t).check v = .ok () ∧
          (m.converter limit t).Fills bytes v) ∨
      ∃ breach, ∀ limit, (bytes.length + 1) * (m.definitions.length + 1) ≤ limit →
        (m.converter limit t).decode bytes = .error (.internal breach)) ∧
    ∀ limit r, Yields FromBytes (fun p => (∃ n, r.Took n p.2) ∧ (m.converter limit t).check p.1 = .ok ())
      ((m.converter limit t).read r) := by
  have hclosed : m.schema.table.Closed := (accepted_iff.1 hm).closed
  have hdefined : ∀ name, Reaches m.schema.table t (.named name) → ∃ d, m.schema.table.lookup name = some d :=
    fun name h => hclosed.defines (defines_iff.2 ht) h name List.mem_cons_self
  have hlifted : ∀ limit r, Yields FromBytes (Lifted m.schema (m.converter limit t).check t r)
      ((m.converter limit t).read r) := fun limit r =>
    lifted_ty hk (fun name r hname => lifted_named hn hv hk hdefined limit hname r) .refl r
  refine ⟨fun bytes => ?_, fun limit r => (hlifted limit r).mono fun p hp => ⟨hp.took, hp.accepted⟩⟩
  have hdecode : ∀ limit, Yields FromBytes (fun v => (m.converter limit t).check v = .ok () ∧
      (m.converter limit t).Fills bytes v) ((m.converter limit t).decode bytes) :=
    fun limit => lifted_decode (hlifted limit _)
  have hshallow : Yields Shallow (fun _ => True)
      ((m.converter ((bytes.length + 1) * (m.definitions.length + 1)) t).decode bytes) :=
    decode_shallow (shallow_read hr (le_refl _))
  -- The least limit with room decides what comes of the bytes at every other one.
  have hsame : ∀ limit, (bytes.length + 1) * (m.definitions.length + 1) ≤ limit →
      (m.converter limit t).decode bytes = (m.converter _ t).decode bytes := fun limit hb =>
    ((agrees_decode m t bytes hb).resolve_left fun h => hshallow.of_error h rfl).symm
  cases hout : (m.converter ((bytes.length + 1) * (m.definitions.length + 1)) t).decode bytes with
  | ok v =>
    refine .inl ⟨v, fun limit hb => ?_⟩
    have hv := (hsame limit hb).trans hout
    exact ⟨hv, (hdecode limit).of_ok hv⟩
  | error e =>
    obtain rfl | ⟨breach, rfl⟩ := (hdecode _).of_error hout
    · exact absurd rfl (hshallow.of_error hout)
    · exact .inr ⟨breach, fun limit hb => (hsame limit hb).trans hout⟩

/-- Eight bytes are enough for a tree without parts, and are all of it. -/
theorem lifting_safe_tree : markedModel.Accepted ∧ OrdinaryNames markedModel ∧
    memberErrorName ∉ markedModel.globals ∧ PlainKeys markedModel.schema.table (.named "Tree") ∧
    NoReentry markedModel.schema.table (.named "Tree") ∧
    ∃ v, ∀ limit, 27 ≤ limit → (markedModel.converter limit (.named "Tree")).check v = .ok () ∧
      (markedModel.converter limit (.named "Tree")).read (.ofBytes [0, 0, 0, 0, 0, 0, 0, 0]) =
        .ok (v, ⟨8, []⟩) := by
  have hm : markedModel.Accepted := accepted_iff.2 (sound_iff.2 ⟨passes_of_isOk (by decide +kernel), by decide⟩)
  have hn : OrdinaryNames markedModel := by
    constructor <;> decide
  have hv : memberErrorName ∉ markedModel.globals := by decide
  have hk : PlainKeys markedModel.schema.table (.named "Tree") := by
    have hc : ∀ t ∈ [Ty.named "Tree", .named "Mark", .string, .sequence (.box (.named "Tree")),
        .box (.named "Tree")], ∀ s ∈ usesOf markedModel.schema.table t, s ∈ [Ty.named "Tree", .named "Mark",
          .string, .sequence (.box (.named "Tree")), .box (.named "Tree")] := by
      decide
    exact plainKeys_of_closed hc (by decide) List.mem_cons_self
  refine ⟨hm, hn, hv, hk, noReentry_markedModel, ?_⟩
  obtain ⟨v, hvalue⟩ | ⟨breach, hbreach⟩ :=
    (lifting_safe hm hn hv (by decide) hk noReentry_markedModel).1 [0, 0, 0, 0, 0, 0, 0, 0]
  · exact ⟨v, fun limit hb => (hvalue limit hb).2⟩
  · cases hbreach 27 (le_refl _)

end Bindgen.Wire
