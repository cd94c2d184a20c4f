import Bindgen.Proofs.Wire.Ordinary
import Bindgen.Proofs.Wire.Trip

/-!
# Trips of values

Values come back from the wire as their type says, if the values of the definitions do that it is made of
(`trip_ty`). Those of a definition do if what it is made of does: its fields, under ordinary names, and a number
in front where it has variants. A definition takes one from the bound for the nesting, and the induction is on
that (`trip_named`).

Results:
* `trip_ty`: the values of a type.
* `trip_record`, `trip_choice`, `trip_flat`, `trip_object`: the values of a definition.
* `trip_named`: the values of every definition.
-/

namespace Bindgen.Wire

open Interface Resolve

variable {s : Schema}

/-! ## Types -/

theorem parts?_of_items? {v : Value} {items : List Value} (h : v.items? = some items) :
    v.parts? = some items := by
  cases v with
  | text | bytes | broken => exact absurd h (by simp [Value.items?])
  | _ => exact h

namespace Value

/-- How a key comes back: as itself, and a view as its bytes. -/
def asKey : Value → Value
  | view w => bytes w.bytes
  | v => v

theorem unhashable?_asKey {v : Value} (h : v.unhashable? s = Option.none) : v.asKey.unhashable? s = Option.none := by
  cases v with
  | view w => rfl
  | _ => exact h

/-- A view of bytes is the same key as its bytes. -/
theorem same_asKey {a b : Value} (ha : a.unhashable? s = Option.none) (hb : b.unhashable? s = Option.none) :
    a.asKey.same b.asKey = a.same b := by
  have hplain : ∀ w : View, (view w).unhashable? s = Option.none → w.isPlain = true := by
    intro w h
    by_contra hw
    exact absurd h (by simp [unhashable?, hw])
  cases a with
  | view v =>
    have hv := hplain v ha
    cases b with
    | view w => simp [asKey, same, hv, hplain w hb]
    | bytes b => simp [asKey, same, hv]
    | _ => rfl
  | bytes c =>
    cases b with
    | view w => simp [asKey, same, hplain w hb, eq_comm]
    | _ => rfl
  | object cls handle label => cases label <;> cases b <;> rfl
  | _ => cases b <;> rfl

end Value

/-- Keys that differ come back as keys that differ. -/
theorem DistinctKeys.asKey {keys : List Value} (h : DistinctKeys s keys) : DistinctKeys s (keys.map Value.asKey) where
  hashable := List.forall_mem_map.2 fun k hk => Value.unhashable?_asKey (h.hashable k hk)
  distinct := by
    rw [List.pairwise_map]
    exact h.distinct.imp_of_mem fun ha hb hne => (Value.same_asKey (h.hashable _ ha) (h.hashable _ hb)).trans hne

/-- How the accepted keys of a type come back. -/
theorem normalTy_key {check : String → Value → Except Fault Unit} {normal : String → Value → Value}
    (hnamed : ∀ name v, isKey s.table (.named name) = true → check name v = .ok () → normal name v = v.asKey)
    {t : Ty} {v : Value} (ht : isKey s.table t = true) (hc : checkTy s check t v = .ok ())
    (hv : v.unhashable? s = none) : normalTy normal t v = v.asKey := by
  induction t with
  | prim p =>
    cases v with
    | view w => exact absurd hc (by unfold checkTy; cases primFormat p <;> simp [PrimFormat.check])
    | _ => rfl
  | string =>
    cases v with
    | view w => exact absurd hc (by simp [checkTy])
    | _ => rfl
  | bytes =>
    cases v with
    | byteArray => exact absurd hv (by simp [Value.unhashable?])
    | _ => rfl
  | optional t ih =>
    cases v with
    | none => rfl
    | _ => exact ih ht hc
  | box t ih => exact ih ht hc
  | named name => exact hnamed name v ht hc
  | sequence | map => exact absurd ht Bool.false_ne_true

section Types

variable {check : String → Value → Except Fault Unit} {write : String → Value → Except Fault (List UInt8)}
  {read : String → Reader → Except Fault (Value × Reader)} {send : String → Value → Prop}
  {normal : String → Value → Value}

/-- A sequence comes back as a list of what its items come back as. -/
theorem trip_sequence {t : Ty} {v : Value} {items : List Value} (hi : v.items? = some items)
    (hcount : items.length < countBound)
    (h : ∀ x ∈ items, Trip (writeTy s write t x) (readTy s read t) (normalTy normal t x)) :
    Trip (writeTy s write (.sequence t) v) (readTy s read (.sequence t)) (normalTy normal (.sequence t) v) := by
  have hlist := ((trip_items h).map Value.list).counted hcount (fun n => .internal (.negativeSequence n))
    (g := fun n r => readItems (readTy s read t) n r >>= fun p => pure (Value.list p.1, p.2))
  simp only [bind_map_left] at hlist
  unfold writeTy normalTy
  rw [parts?_of_items? hi, hi]
  exact hlist

/-- A map comes back if its keys come back as keys that differ. -/
theorem trip_map {k w : Ty} {entries : List (Value × Value)} (hcount : entries.length < countBound)
    (hdistinct : DistinctKeys s (entries.map fun p => normalTy normal k p.1))
    (hk : ∀ p ∈ entries, Trip (writeTy s write k p.1) (readTy s read k) (normalTy normal k p.1))
    (hw : ∀ p ∈ entries, Trip (writeTy s write w p.2) (readTy s read w) (normalTy normal w p.2)) :
    Trip (writeTy s write (.map k w) (.map entries)) (readTy s read (.map k w))
      (normalTy normal (.map k w) (.map entries)) := by
  have hentries := trip_entries (g := normalTy normal k) (f := normalTy normal w) [] hdistinct hk hw
  have hmap := (hentries.map Value.map).counted hcount (fun n => .internal (.negativeMap n))
    (g := fun n r => readEntries s (readTy s read k) (readTy s read w) n [] r >>= fun p =>
      pure (Value.map p.1, p.2))
  simp only [bind_map_left] at hmap
  exact hmap

variable (htrip : ∀ name v, PlainKeys s.table (.named name) → check name v = .ok () → send name v →
    Trip (write name v) (read name) (normal name v))
  (hkey : ∀ name v, isKey s.table (.named name) = true → check name v = .ok () → normal name v = v.asKey)
include htrip hkey

/-- **Values of a type come back if those of definitions do.** The induction is on the type. -/
theorem trip_ty {t : Ty} (hp : PlainKeys s.table t) {v : Value} (hc : checkTy s check t v = .ok ())
    (hs : sendableTy s send t v) :
    Trip (writeTy s write t v) (readTy s read t) (normalTy normal t v) := by
  induction t generalizing v with
  | prim p => exact trip_prim hc hs
  | string =>
    cases v with
    | text t => exact trip_text hs
    | broken b => exact hs.elim
    | _ => exact absurd hc (by simp [checkTy])
  | bytes =>
    cases v with
    | bytes b => exact (trip_counted hs).map Value.bytes
    | byteArray b => exact (trip_counted hs).map Value.bytes
    | view w => exact (trip_view hs.1 hs.2).map Value.bytes
    | _ => exact absurd hc (by simp [checkTy])
  | optional t ih =>
    cases v with
    | none => exact trip_absent
    | _ => exact (ih (hp.child List.mem_cons_self) hc hs).present
  | sequence t ih =>
    unfold checkTy at hc
    unfold sendableTy at hs
    cases hi : v.items? with
    | none => rw [hi] at hc; exact absurd hc (by simp)
    | some items =>
      rw [hi] at hc hs
      exact trip_sequence hi hs.1 fun x hx =>
        ih (hp.child List.mem_cons_self) (forM_eq_ok.1 hc x hx) (hs.2 x hx)
  | map k w ihk ihw =>
    cases v with
    | map entries =>
      have hk := hp k w .refl
      have hc := forM_eq_ok.1 hc
      have hentry : ∀ p ∈ entries, checkTy s check k p.1 = .ok () ∧ checkTy s check w p.2 = .ok () := by
        intro p hm
        obtain ⟨u, h, h'⟩ := bind_eq_ok.1 (hc p hm)
        exact ⟨h, h'⟩
      have hkeys : (entries.map fun p => normalTy normal k p.1) = (entries.map (·.1)).map Value.asKey := by
        rw [List.map_map]
        exact List.map_congr_left fun p hm =>
          normalTy_key hkey hk (hentry p hm).1 (hs.2.1.hashable p.1 (List.mem_map_of_mem hm))
      exact trip_map hs.1 (hkeys ▸ hs.2.1.asKey)
        (fun p hm => ihk (hp.child (by simp [Ty.children])) (hentry p hm).1 (hs.2.2 p hm).1)
        fun p hm => ihw (hp.child (by simp [Ty.children])) (hentry p hm).2 (hs.2.2 p hm).2
    | _ => exact absurd hc (by simp [checkTy])
  | named name => exact htrip name v hp hc hs
  | box t ih => exact ih (hp.child List.mem_cons_self) hc hs

end Types

/-! ## Definitions -/

section Definitions

/-- A member of an enum comes back as the key that it is. -/
theorem normalNamed_key {limit : Nat} (name : String) (v : Value) (h : isKey s.table (.named name) = true)
    (hc : checkNamed s limit name v = .ok ()) : normalNamed s limit name v = v.asKey := by
  cases limit with
  | zero => exact absurd hc (by simp [checkNamed])
  | succ limit =>
    unfold isKey at h
    split at h
    · rename_i c hl
      have hnormal : normalNamed s (limit + 1) name v = v := by
        unfold normalNamed
        rw [hl]
        exact if_pos h
      rw [hnormal]
      unfold checkNamed at hc
      simp only [hl, h, if_true] at hc
      obtain ⟨u, -, hc⟩ := bind_eq_ok.1 hc
      cases v with
      | view w => exact absurd hc (by simp [throw, throwThe, MonadExceptOf.throw])
      | _ => rfl
    · exact absurd h Bool.false_ne_true

variable {m : Model} (hn : OrdinaryNames m)

include hn

/-- Under ordinary names a converter goes on with the values of all fields. -/
theorem eachField_eq {α : Type} {name : String} {fs : List Field} {v : Value} {g : Ty → Value → Except Fault α}
    (hlow : ∀ f ∈ fs, isLow (fieldName f) = false)
    (hset : ∀ f ∈ fs, v.attr? m.schema (fieldName f) = some (fieldValue m.schema v f)) :
    eachField m.schema name fs v g = fs.mapM fun f => g f.type (fieldValue m.schema v f) := by
  refine mapM_congr fun f hf => ?_
  rw [find_converterSource hn, bind_ok, mangled_of_not_low (hlow f hf), hset f hf]

theorem fields_set {α : Type} {name : String} {fs : List Field} {v : Value} {g : Ty → Value → Except Fault α}
    {ys : List α} (hlow : ∀ f ∈ fs, isLow (fieldName f) = false) (h : eachField m.schema name fs v g = .ok ys) :
    ∀ f ∈ fs, v.attr? m.schema (fieldName f) = some (fieldValue m.schema v f) := by
  intro f hf
  obtain ⟨y, hy⟩ := exists_of_mapM_eq_ok h f hf
  rw [find_converterSource hn, bind_ok, mangled_of_not_low (hlow f hf)] at hy
  unfold fieldValue
  cases ha : v.attr? m.schema (fieldName f) with
  | none => rw [ha] at hy; exact absurd hy (by simp [throw, throwThe, MonadExceptOf.throw])
  | some w => rfl

/-- A value of a definition comes back. -/
def TripNamed (m : Model) (limit : Nat) (name : String) (v : Value) : Prop :=
  Trip (writeNamed m.schema limit name v) (readNamed m.schema limit name) (normalNamed m.schema limit name v)

/-- Values of definitions come back up to a bound for the nesting. -/
def TripsTo (m : Model) (limit : Nat) : Prop :=
  ∀ name v, PlainKeys m.schema.table (.named name) → checkNamed m.schema limit name v = .ok () →
    sendableNamed m.schema limit name v → TripNamed m limit name v

/-- The reader of the type of a field. -/
def readField (m : Model) (limit : Nat) (t : Ty) (r : Reader) : Except Fault (Value × Reader) := do
  m.schema.find (Emit.converterSource t)
  readTy m.schema (readNamed m.schema limit) t r

/-- The fields of a value that come back, each under its name. -/
def normalFields (m : Model) (limit : Nat) (v : Value) (fs : List Field) : List (String × Value) :=
  fs.map fun f => (fieldName f, normalTy (normalNamed m.schema limit) f.type (fieldValue m.schema v f))

omit hn in
theorem normalFields_keys {limit : Nat} {v : Value} {fs : List Field} :
    (normalFields m limit v fs).map (·.1) = fs.map fieldName := by
  unfold normalFields
  rw [List.map_map]
  rfl

variable {limit : Nat} (ih : TripsTo m limit)
include ih

/-- The fields of one scope of a definition come back if its values are accepted. -/
theorem trip_scope {name : String} {d : Definition} {fs : List Field} {v : Value} {us : List Unit}
    (hp : PlainKeys m.schema.table (.named name)) (hl : m.schema.table.lookup name = some d)
    (hfs : fs ∈ d.fieldScopes)
    (hc : eachField m.schema name fs v (checkTy m.schema (checkNamed m.schema limit)) = .ok us)
    (hs : ∀ f ∈ fs, sendableTy m.schema (sendableNamed m.schema limit) f.type (fieldValue m.schema v f)) :
    Trip (List.flatten <$> eachField m.schema name fs v (writeTy m.schema (writeNamed m.schema limit)))
      (readFields (readField m limit) fs) (normalFields m limit v fs) := by
  have hlow := hn.fields d (lookup_schema hl).1 fs hfs
  have hset := fields_set hn hlow hc
  rw [eachField_eq hn hlow hset] at hc ⊢
  refine trip_fields fun f hf => ?_
  obtain ⟨u, hu⟩ := exists_of_mapM_eq_ok hc f hf
  have ht := trip_ty ih (fun name v => normalNamed_key name v) (hp.field hl (mem_fields_of_scope hfs hf)) hu
    (hs f hf)
  unfold readField
  simp only [find_converterSource hn, bind_ok]
  exact ht

/-! ### Records -/

omit ih in
theorem readNamed_record {name : String} {d : Record} (hl : m.schema.table.lookup name = some (.record d)) :
    readNamed m.schema (limit + 1) name = fun r => readFields (readField m limit) d.fields r >>= fun p =>
      m.schema.makeInstance ⟨d.name, none⟩ p.1 >>= fun v => pure (v, p.2) := by
  obtain ⟨hd, rfl⟩ := lookup_schema hl
  have hs : m.schema.standing (readLocals d.name) d.name = .itself :=
    standing_itself hn hd (by simp [readLocals, ownLocal, moduleWords])
  funext r
  unfold readNamed
  simp only [show (Definition.record d).name = d.name from rfl] at hl ⊢
  simp only [hl, hs]
  rfl

theorem trip_record {name : String} {d : Record} {v : Value} (hp : PlainKeys m.schema.table (.named name))
    (hl : m.schema.table.lookup name = some (.record d))
    (hc : checkNamed m.schema (limit + 1) name v = .ok ())
    (hs : sendableNamed m.schema (limit + 1) name v) : TripNamed m (limit + 1) name v := by
  obtain ⟨hd, rfl⟩ := lookup_schema hl
  have hfs : d.fields ∈ (Definition.record d).fieldScopes := List.mem_singleton.2 rfl
  have hkeys : (normalFields m limit v d.fields).map (·.1) = d.fields.map fieldName := normalFields_keys
  have hmake := makeRecord_ok hn hl hkeys
  unfold checkNamed at hc
  unfold sendableNamed at hs
  unfold TripNamed writeNamed normalNamed
  rw [readNamed_record hn hl]
  simp only [show (Definition.record d).name = d.name from rfl] at hl hc hs ⊢
  simp only [hl] at hc hs ⊢
  obtain ⟨u, -, hc⟩ := bind_eq_ok.1 hc
  split at hc
  · obtain ⟨us, hc, -⟩ := bind_eq_ok.1 hc
    exact (trip_scope hn ih hp hl hfs hc hs).mapOk hmake
  · exact absurd hc (by simp [throw, throwThe, MonadExceptOf.throw])

/-! ### Enums with fields and errors -/

/-- The value of a variant with some fields. -/
def variantValue (isError : Bool) (c : Choice) (i : Nat) (given : List (String × Value)) : Value :=
  if isError then .failure ⟨c.name, some i⟩ (i + firstVariant) "" given
  else .instance ⟨c.name, some i⟩ given

omit hn ih in
theorem variantOf?_eq_some {c : Choice} {v : Value} {i : Nat} (h : v.variantOf? c = some i) :
    ∃ w, c.variants[i]? = some w := by
  unfold Value.variantOf? at h
  obtain ⟨cls, -, h⟩ := Option.bind_eq_some_iff.1 h
  split at h
  · have hi : i < c.variants.length := List.mem_range.1 (List.mem_of_find?_eq_some h)
    exact ⟨c.variants[i], List.getElem?_eq_getElem hi⟩
  · exact absurd h (by simp)

/-- Reads what follows the number of a variant. -/
def readVariant (m : Model) (limit : Nat) (c : Choice) (isError : Bool) (number : Int) (r : Reader) :
    Except Fault (Value × Reader) :=
  match if number < firstVariant then none else c.variants[(number - firstVariant).toNat]? with
  | some v => do
    let (given, r) ← readFields (readField m limit) v.fields r
    return (← buildVariant m.schema c isError (number - firstVariant).toNat given, r)
  | none => throw (.internal (.invalidVariant c.name number))

omit ih in
theorem readNamed_choice {c : Choice} {d : Definition} (hl : m.schema.table.lookup c.name = some d)
    (hd : Schema.choice? d = some c) : readNamed m.schema (limit + 1) c.name = fun r =>
      r.int .i32 >>= fun p => readVariant m limit c (d.kind == .error) p.1 p.2 := by
  obtain ⟨hm, hname⟩ := lookup_schema hl
  have hs : m.schema.standing (numberedLocals c.name) c.name = .itself := by
    rw [← hname]
    exact standing_itself hn hm (by simp [numberedLocals, readLocals, ownLocal, moduleWords])
  have hfind : m.schema.find Emit.supportName = .ok () := find_of_low hn (by decide)
  funext r
  unfold readNamed readVariant
  rcases choice_cases hd with ⟨rfl, hf⟩ | rfl
  · simp only [hl, hs, hf, hfind]
    rfl
  · simp only [hl, hs, hfind]
    rfl

omit ih in
/-- A value of a choice is accepted for the variant of whose class it is, if the fields of that are. -/
theorem checkNamed_choice {c : Choice} {d : Definition} {v : Value}
    (hl : m.schema.table.lookup c.name = some d) (hd : Schema.choice? d = some c)
    (hc : checkNamed m.schema (limit + 1) c.name v = .ok ()) :
    ∃ i us, v.variantOf? c = some i ∧
      eachField m.schema c.name ((c.variants[i]?.map (·.fields)).getD []) v
        (checkTy m.schema (checkNamed m.schema limit)) = .ok us := by
  have hask : m.schema.askVariant (checkLocals c.name) d v = .ok () :=
    askVariant_ok hn (lookup_schema hl).1 (by simp [checkLocals, ownLocal, moduleWords]) v
  unfold checkNamed at hc
  cases hv : v.variantOf? c with
  | none =>
    rcases choice_cases hd with ⟨rfl, hf⟩ | rfl
    · simp only [hl, hf, hask, bind_ok, ite_self, hv, Bool.false_eq_true, if_false, reduceCtorEq] at hc
    · simp only [hl, hask, bind_ok, ite_self, hv, reduceCtorEq] at hc
  | some i =>
    refine ⟨i, ?_⟩
    rcases choice_cases hd with ⟨rfl, hf⟩ | rfl
    · simp only [hl, hf, hask, bind_ok, ite_self, hv, Bool.false_eq_true, if_false] at hc
      obtain ⟨us, hus, -⟩ := bind_eq_ok.1 hc
      exact ⟨us, rfl, hus⟩
    · simp only [hl, hask, bind_ok, ite_self, hv] at hc
      obtain ⟨us, hus, -⟩ := bind_eq_ok.1 hc
      exact ⟨us, rfl, hus⟩

omit ih in
theorem writeNamed_choice {c : Choice} {d : Definition} {v : Value} {i : Nat} {number rest : List UInt8}
    (hl : m.schema.table.lookup c.name = some d) (hd : Schema.choice? d = some c)
    (hv : v.variantOf? c = some i) (hnumber : writeVariant i = .ok number)
    (hrest : List.flatten <$> eachField m.schema c.name ((c.variants[i]?.map (·.fields)).getD []) v
      (writeTy m.schema (writeNamed m.schema limit)) = .ok rest) :
    writeNamed m.schema (limit + 1) c.name v = .ok (number ++ rest) := by
  have hask : m.schema.askVariant (writeLocals c.name) d v = .ok () :=
    askVariant_ok hn (lookup_schema hl).1 (by simp [writeLocals, checkLocals, ownLocal, moduleWords]) v
  unfold writeNamed
  rcases choice_cases hd with ⟨rfl, hf⟩ | rfl
  · simp only [hl, hf, hask, bind_ok, ite_self, hv, hnumber, Bool.false_eq_true, if_false]
    rw [hrest]
    rfl
  · simp only [hl, hask, bind_ok, ite_self, hv, hnumber]
    rw [hrest]
    rfl

omit ih in
/-- The fields that were read are built into a variant. -/
theorem buildVariant_given {c : Choice} {d : Definition} {i : Nat} {w : Variant} {given : List (String × Value)}
    (hl : m.schema.table.lookup c.name = some d) (hd : Schema.choice? d = some c)
    (hw : c.variants[i]? = some w) (hk : given.map (·.1) = w.fields.map fieldName) :
    buildVariant m.schema c (d.kind == .error) i given = .ok (variantValue (d.kind == .error) c i given) := by
  have hm := (lookup_schema hl).1
  have hfs := fields_mem_fieldScopes hd hw
  have hattrs := attributes_variant hn hl hd hw
  have hkeys : given.map (·.1) = m.schema.attributes ⟨c.name, some i⟩ := by rw [hattrs, hk]
  have hnodup : (m.schema.attributes ⟨c.name, some i⟩).Nodup := by
    rw [hattrs]
    exact hn.fields_nodup d hm _ hfs
  have hlow : ∀ a ∈ m.schema.attributes ⟨c.name, some i⟩, isLow a = false := by
    rw [hattrs, List.forall_mem_map]
    exact hn.fields d hm _ hfs
  unfold buildVariant variantValue
  rw [variantClass_eq (choice_classes_nodup hn hm hd)]
  rcases choice_cases hd with ⟨rfl, hf⟩ | rfl
  · exact makeInstance_ok hkeys hnodup hlow
  · refine makeFailure_ok hkeys hnodup hlow ?_ (isTaken_schema (not_global_of_word hn (by decide)))
    rw [hattrs, List.forall_mem_map]
    exact fun f hf => hn.failures _ hm f (List.mem_flatMap.2 ⟨w, List.mem_of_getElem? hw, hf⟩)

omit ih in
/-- What is read is built into the variant that the value is of. -/
theorem buildVariant_ok {c : Choice} {d : Definition} {v : Value} {i : Nat} {w : Variant}
    (hl : m.schema.table.lookup c.name = some d) (hd : Schema.choice? d = some c)
    (hv : v.variantOf? c = some i) (hw : c.variants[i]? = some w) :
    buildVariant m.schema c (d.kind == .error) i (normalFields m limit v w.fields) =
      .ok (normalNamed m.schema (limit + 1) c.name v) := by
  rw [buildVariant_given hn hl hd hw normalFields_keys]
  unfold variantValue normalNamed
  rcases choice_cases hd with ⟨rfl, hf⟩ | rfl
  · simp only [hl, hf, hv, hw]
    rfl
  · simp only [hl, hv, hw]
    rfl

omit hn ih in
theorem readVariant_number {c : Choice} {isError : Bool} {i : Nat} {w : Variant} (hw : c.variants[i]? = some w) :
    readVariant m limit c isError ((i + firstVariant : Nat) : Int) = fun r =>
      readFields (readField m limit) w.fields r >>= fun p =>
        buildVariant m.schema c isError i p.1 >>= fun v => pure (v, p.2) := by
  have hnum : ¬ ((i + firstVariant : Nat) : Int) < firstVariant := by omega
  have hi : (((i + firstVariant : Nat) : Int) - firstVariant).toNat = i := by omega
  funext r
  unfold readVariant
  simp only [if_neg hnum, hi, hw]

omit hn ih in
theorem sendableNamed_choice {c : Choice} {d : Definition} {v : Value} {i : Nat} {w : Variant}
    (hl : s.table.lookup c.name = some d) (hd : Schema.choice? d = some c) (hv : v.variantOf? c = some i)
    (hw : c.variants[i]? = some w) (hs : sendableNamed s (limit + 1) c.name v) :
    c.variants.length < countBound ∧
      ∀ f ∈ w.fields, sendableTy s (sendableNamed s limit) f.type (fieldValue s v f) := by
  unfold sendableNamed at hs
  rcases choice_cases hd with ⟨rfl, hf⟩ | rfl
  · simpa only [hl, hf, Bool.false_eq_true, if_false, hv, hw, Option.map_some, Option.getD_some] using hs
  · simpa only [hl, hv, hw, Option.map_some, Option.getD_some] using hs

theorem trip_choice {c : Choice} {d : Definition} {v : Value} (hp : PlainKeys m.schema.table (.named c.name))
    (hl : m.schema.table.lookup c.name = some d) (hd : Schema.choice? d = some c)
    (hc : checkNamed m.schema (limit + 1) c.name v = .ok ())
    (hs : sendableNamed m.schema (limit + 1) c.name v) : TripNamed m (limit + 1) c.name v := by
  obtain ⟨i, us, hv, hus⟩ := checkNamed_choice hn hl hd hc
  obtain ⟨w, hw⟩ := variantOf?_eq_some hv
  obtain ⟨hcount, hsend⟩ := sendableNamed_choice hl hd hv hw hs
  have hi : i < c.variants.length := (List.getElem?_eq_some_iff.1 hw).1
  have hnum : i + firstVariant < countBound := Nat.lt_of_le_of_lt hi hcount
  have hfs := fields_mem_fieldScopes hd hw
  rw [hw] at hus
  obtain ⟨rest, hrest, hread⟩ := trip_scope hn ih hp hl hfs hus hsend
  obtain ⟨number, hnumber, hreadn⟩ := trip_count hnum
  refine ⟨number ++ rest, writeNamed_choice hn hl hd hv hnumber (by rw [hw]; exact hrest), ?_⟩
  rw [readNamed_choice hn hl hd]
  refine hreadn.bind (g := readVariant m limit c (d.kind == .error)) ?_
  rw [readVariant_number hw]
  exact hread.mapOk (buildVariant_ok hn hl hd hv hw)

/-! ### Enums without fields -/

omit ih in
theorem memberPlace?_number {c : Choice} (hl : m.schema.table.lookup c.name = some (.enum c))
    (hf : c.isFlat = true) {i : Nat} (hi : i < c.variants.length) :
    Schema.memberPlace? c ((i + firstVariant : Nat) : Int) = some i := by
  have hnum : ¬ ((i + firstVariant : Nat) : Int) < firstVariant := by omega
  have hplace : (((i + firstVariant : Nat) : Int) - firstVariant).toNat = i := by omega
  have hvariant : c.variants[i] ∈ (Definition.enum c).members := by
    unfold Definition.members
    simp only [hf, if_true, List.getElem_mem]
  have hmember : Schema.isMember c.name c.variants[i] = true :=
    isMember_of_not_low (hn.members _ (lookup_schema hl).1 _ hvariant)
  unfold Schema.memberPlace?
  simp only [if_neg hnum, hplace, List.getElem?_eq_getElem hi, Option.bind_some, hmember, if_true]

omit ih in
theorem readNamed_flat {c : Choice} (hl : m.schema.table.lookup c.name = some (.enum c))
    (hf : c.isFlat = true) : readNamed m.schema (limit + 1) c.name = fun r =>
      r.int .i32 >>= fun p => match Schema.memberPlace? c p.1 with
        | some index => pure (.member c.name index, p.2)
        | none => throw (memberFault m.schema c p.1) := by
  have hs : m.schema.standing (numberedLocals c.name) c.name = .itself :=
    standing_itself hn (lookup_schema hl).1 (by simp [numberedLocals, readLocals, ownLocal, moduleWords])
  funext r
  unfold readNamed
  simp only [hl, hf, if_true, hs]
  rfl

omit ih in
theorem trip_flat {c : Choice} {v : Value} (hl : m.schema.table.lookup c.name = some (.enum c))
    (hf : c.isFlat = true) (hc : checkNamed m.schema (limit + 1) c.name v = .ok ())
    (hs : sendableNamed m.schema (limit + 1) c.name v) : TripNamed m (limit + 1) c.name v := by
  unfold checkNamed at hc
  unfold sendableNamed at hs
  simp only [hl, hf, if_true] at hc hs
  obtain ⟨u, -, hc⟩ := bind_eq_ok.1 hc
  cases v with
  | member owner index =>
    by_cases howner : owner = c.name
    · subst howner
      have hi := hs.2
      have hnum : index + firstVariant < countBound := Nat.lt_of_le_of_lt hi hs.1
      obtain ⟨number, hnumber, hread⟩ := trip_count hnum
      refine ⟨number, ?_, ?_⟩
      · unfold writeNamed
        simp only [hl, hf, if_true]
        exact hnumber
      · rw [readNamed_flat hn hl hf]
        intro offset rest
        simp only [hread offset rest, bind_ok, memberPlace?_number hn hl hf hi]
        unfold normalNamed
        simp only [hl, hf, if_true]
        rfl
    · simp only [if_neg howner] at hc
      exact absurd hc (by simp [throw, throwThe, MonadExceptOf.throw])
  | _ => exact absurd hc (by simp [throw, throwThe, MonadExceptOf.throw])

/-! ### Objects -/

omit hn ih in
/-- Only objects are accepted for an object class. -/
theorem checkObject_eq_ok {name : String} {v : Value} (h : checkObject s name v = .ok ()) :
    ∃ cls handle label, v = .object cls handle label := by
  unfold checkObject at h
  obtain ⟨u, -, h⟩ := bind_eq_ok.1 h
  cases v with
  | object cls handle label => exact ⟨cls, handle, label, rfl⟩
  | _ => exact absurd h (by simp)

omit ih in
theorem liftObject_ok {o : Object} (hd : .object o ∈ m.definitions) {h : Int} (hpos : 0 < h) :
    liftObject m.schema o.name (.int h) = .ok (.object ⟨o.name, []⟩ (some (.int h)) none) := by
  have hstand : m.schema.standing [ownLocal o.name] o.name = .itself :=
    standing_itself hn hd (by simp [ownLocal, moduleWords])
  have hhandle : checkHandle (.int h) = .ok (.int h) := by
    unfold checkHandle Value.truthy
    rw [if_pos (by simpa using Int.ne_of_gt hpos)]
  unfold liftObject madeObject newObject
  simp only [hstand, hhandle, bind_ok, askMember_ok hn o.name (show isLow makeMember = true by decide) 1]
  rfl

omit ih in
theorem trip_object {o : Object} {v : Value} (hl : m.schema.table.lookup o.name = some (.object o))
    (hc : checkNamed m.schema (limit + 1) o.name v = .ok ())
    (hs : sendableNamed m.schema (limit + 1) o.name v) : TripNamed m (limit + 1) o.name v := by
  unfold checkNamed at hc
  unfold sendableNamed at hs
  simp only [hl] at hc hs
  obtain ⟨cls, handle, label, rfl⟩ := checkObject_eq_ok hc
  obtain ⟨h, rfl, hpos, hlt⟩ : ∃ h : Int, handle = some (.int h) ∧ 0 < h ∧ h < handleBound := by
    split at hs
    · rename_i he
      obtain ⟨rfl, rfl, rfl⟩ := Value.object.inj he
      obtain ⟨hpos, hlt⟩ := hs
      exact ⟨_, rfl, hpos, hlt⟩
    · exact absurd hs id
    · rename_i he
      exact absurd rfl (he _ _ _)
  have hfits : IntFormat.u64.contains h = true := by
    have hmax : IntFormat.u64.max = 18446744073709551615 := by decide
    have hbound : handleBound = 18446744073709551616 := by decide
    unfold IntFormat.contains
    rw [hmax, show IntFormat.u64.min = 0 from rfl, decide_eq_true_eq]
    omega
  have hlower : lowerObject m.schema o.name (.object cls (some (.int h)) label) = .ok (.int h) := by
    unfold lowerObject
    rw [hc, bind_ok, askMember_ok hn _ (by decide), bind_ok]
    rfl
  obtain ⟨number, hnumber, hread⟩ := trip_int (by decide) hfits
  refine ⟨number, ?_, ?_⟩
  · unfold writeNamed
    simp only [hl, hlower]
    exact hnumber
  · intro offset rest
    unfold readNamed normalNamed
    simp only [hl, hread offset rest, bind_ok, liftObject_ok hn (lookup_schema hl).1 hpos]
    rfl

/-! ## Every converter -/

omit ih in
/-- **Values of definitions come back**, whatever the bound for the nesting is. The induction is on the
bound, which every definition on the way into a value takes one from. -/
theorem trip_named (limit : Nat) : TripsTo m limit := by
  induction limit with
  | zero => exact fun name v _ hc _ => absurd hc (by simp [checkNamed])
  | succ limit ih =>
    intro name v hp hc hs
    cases hl : m.schema.table.lookup name with
    | none =>
      unfold checkNamed at hc
      simp only [hl] at hc
      exact absurd hc (by simp)
    | some d =>
      obtain ⟨-, rfl⟩ := lookup_schema hl
      cases d with
      | record r => exact trip_record hn ih hp hl hc hs
      | enum c =>
        cases hf : c.isFlat with
        | true => exact trip_flat hn hl hf hc hs
        | false =>
          exact trip_choice hn ih hp hl (choice_of_not_flat hf) hc hs
      | error c => exact trip_choice hn ih hp hl rfl hc hs
      | object o => exact trip_object hn hl hc hs

end Definitions

end Bindgen.Wire
