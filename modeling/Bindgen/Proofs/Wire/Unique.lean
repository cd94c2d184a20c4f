import Bindgen.Proofs.Wire.Rebuilt
import Bindgen.Proofs.Wire.Safety

/-!
# Every value has one encoding

What is read is written as the bytes that it was read of. Reading is lenient nowhere: a mark, a truth value, the
number of a variant, a text and a count each have one form, and a type is read as the forms of its parts one after
another. Three things have more forms than one and are left out. The entries of a map may come in any order and
repeat. An optional value that is there and holds nothing cannot be told from one that is not there, so the content
of an optional type is not optional itself (`OneForm`). Bits that stand for no number are changed on the way between
the formats (`Value.hasNaN`).

`Spans` says that what is written is what stands between two readers.

Results:
* `restored_ty`, `restored_named`: what is read of a type or definition is written as it was.
* `encoding_unique`: a buffer is the encoding of the value that it holds.
-/

namespace Bindgen.Wire

open Interface Resolve FloatFormat

variable {s : Schema} {m : Model}

/-! ## What has one form -/

namespace Value

mutual

/-- Whether a real number in a value is none. -/
def hasNaN : Value → Bool
  | real bits => binary64.isNaN bits.toNat
  | list xs | tuple xs | iterable _ xs _ => hasNaNAmong xs
  | map entries => hasNaNInEntries entries
  | .instance _ fields | failure _ _ _ fields => hasNaNInFields fields
  | _ => false

/-- Whether a real number in some values is none. -/
def hasNaNAmong : List Value → Bool
  | [] => false
  | v :: rest => hasNaN v || hasNaNAmong rest

/-- Whether a real number in some entries is none. -/
def hasNaNInEntries : List (Value × Value) → Bool
  | [] => false
  | (k, v) :: rest => hasNaN k || hasNaN v || hasNaNInEntries rest

/-- Whether a real number in some fields is none. -/
def hasNaNInFields : List (String × Value) → Bool
  | [] => false
  | (_, v) :: rest => hasNaN v || hasNaNInFields rest

end

end Value

/-- Whether a type is optional. -/
def isOptional : Ty → Bool
  | .optional _ => true
  | _ => false

/-- Whether a type is no map, and no optional one whose content is optional too. -/
def hasOneForm : Ty → Bool
  | .map _ _ => false
  | .optional t => !isOptional t.unbox
  | _ => true

/-- No map can be reached from a type, and no optional type with optional content. -/
def OneForm (table : Table) (t : Ty) : Prop := ∀ s, Reaches table t s → hasOneForm s = true

theorem oneForm_of_closed {table : Table} {ts : List Ty} (hc : ∀ t ∈ ts, ∀ s ∈ usesOf table t, s ∈ ts)
    (ho : ∀ t ∈ ts, hasOneForm t = true) {t : Ty} (ht : t ∈ ts) : OneForm table t :=
  fun s h => ho s (h.mem_of_closed hc ht)

/-- Where there is no map, every map has plain keys. -/
theorem OneForm.plainKeys {table : Table} {t : Ty} (h : OneForm table t) : PlainKeys table t :=
  fun k w hr => absurd (h (.map k w) hr) Bool.false_ne_true

/-! ## Bytes between two readers -/

/-- What is written can be, and is what stands between one reader and another. -/
def Spans (written : Except Fault (List UInt8)) (r r' : Reader) : Prop :=
  ∃ bytes, written = .ok bytes ∧ r.rest = bytes ++ r'.rest

theorem Spans.refl (r : Reader) : Spans (.ok []) r r := ⟨[], rfl, rfl⟩

/-- One thing after another. -/
theorem Spans.append {first second : Except Fault (List UInt8)} {r r' r'' : Reader} (h : Spans first r r')
    (h' : Spans second r' r'') : Spans (first >>= fun x => second >>= fun y => pure (x ++ y)) r r'' := by
  obtain ⟨x, rfl, hx⟩ := h
  obtain ⟨y, rfl, hy⟩ := h'
  exact ⟨x ++ y, rfl, by rw [hx, hy, List.append_assoc]⟩

/-- A part and then those after it. -/
theorem Spans.cons {α : Type} {w : α → Except Fault (List UInt8)} {x : α} {xs : List α} {r r' r'' : Reader}
    (h : Spans (w x) r r') (h' : Spans (List.flatten <$> xs.mapM w) r' r'') :
    Spans (List.flatten <$> (x :: xs).mapM w) r r'' := by
  obtain ⟨bytes, hbytes, hrest⟩ := h
  obtain ⟨more, hmore, hrest'⟩ := h'
  obtain ⟨parts, hparts, rfl⟩ := map_eq_ok.1 hmore
  refine ⟨bytes ++ parts.flatten, ?_, by rw [hrest, hrest', List.append_assoc]⟩
  rw [List.mapM_cons, hbytes, bind_ok, hparts]
  rfl

/-- Any fault. Here it does not matter what stops reading. -/
def Any (_ : Fault) : Prop := True

/-! ## Scalars -/

theorem spans_bytes (r : Reader) (size : Int) :
    Yields Any (fun p => r.rest = p.1 ++ p.2.rest ∧ (p.1.length : Int) = size) (r.bytes size) := by
  rcases r.bytes_cases size with ⟨front, rest, hrest, hlength, hok⟩ | ⟨-, herror⟩
  · rw [hok]
    exact ⟨hrest, hlength⟩
  · rw [herror]
    trivial

theorem spans_int {f : IntFormat} (hw : 0 < f.width) (r : Reader) :
    Yields Any (fun p => Spans (PrimFormat.encodeInt f p.1) r p.2) (r.int f) := by
  unfold Reader.int
  refine (spans_bytes r f.width).bind fun p hp => ⟨p.1, ?_, hp.1⟩
  unfold PrimFormat.encodeInt
  rw [encode?_decode hw (Int.ofNat.inj hp.2)]

theorem spans_counted (r : Reader) : Yields Any (fun p => Spans (writeCounted p.1) r p.2) (readCounted r) := by
  unfold readCounted
  refine (spans_int (by decide) r).bind fun p hp => (spans_bytes p.2 p.1).mono fun q hq => ?_
  obtain ⟨hrest, hlength⟩ := hq
  have hbytes : Spans (.ok q.1) p.2 q.2 := ⟨_, rfl, hrest⟩
  have hspans := hp.append hbytes
  rw [← hlength] at hspans
  exact hspans

/-- A text has one form: no other bytes are read as it. -/
theorem decodeText_encode (bytes : List UInt8) :
    Yields Any (fun v => ∃ text, v = .text text ∧ Text.Utf8.encode text = bytes) (decodeText bytes) := by
  unfold decodeText
  split
  · rename_i text h
    exact ⟨text, rfl, Text.Utf8.encode_decode h⟩
  · trivial

/-- A truth value is read of its number only. -/
theorem boolean_number (n : Int) :
    Yields Any (fun v => ∃ b, v = .bool b ∧ n = if b then 1 else 0) (PrimFormat.lift s .boolean (.int n)) := by
  have hsame : ∀ k : Int, (Value.int n).same (.int k) = true ↔ n = k := fun k => by
    simp [Value.same, Value.number?, Value.sameNumber]
  show Yields Any _ (if (Value.int n).same (.int 1) then _ else if (Value.int n).same (.int 0) then _ else _ :
    Except Fault Value)
  split
  · exact ⟨true, rfl, (hsame 1).1 ‹_›⟩
  · split
    · exact ⟨false, rfl, (hsame 0).1 ‹_›⟩
    · trivial

theorem spans_real32 {bytes : List UInt8} (hl : bytes.length = 4)
    (hnan : (Value.real (UInt64.ofNat (widen (bytesNat bytes)))).hasNaN = false) :
    PrimFormat.encodeReal .binary32 (UInt64.ofNat (widen (bytesNat bytes))) = .ok bytes := by
  have hlt : bytesNat bytes < twoPow 32 := by
    have h := bytesNat_lt bytes
    rwa [hl] at h
  have hbits : (UInt64.ofNat (widen (bytesNat bytes))).toNat = widen (bytesNat bytes) := by
    rw [UInt64.toNat_ofNat']
    exact Nat.mod_eq_of_lt (widen_lt _)
  unfold Value.hasNaN at hnan
  rw [hbits, isNaN_widen] at hnan
  unfold PrimFormat.encodeReal
  rw [if_pos rfl, hbits, narrow?_widen hlt hnan, ← hl]
  exact congrArg _ (natBytes_bytesNat bytes)

theorem spans_real64 {bytes : List UInt8} (hl : bytes.length = 8) :
    PrimFormat.encodeReal .binary64 (UInt64.ofNat (bytesNat bytes)) = .ok bytes := by
  have hlt : bytesNat bytes < 2 ^ 64 := by
    have h := bytesNat_lt bytes
    rwa [hl] at h
  unfold PrimFormat.encodeReal
  rw [if_neg (by decide), UInt64.toNat_ofNat', Nat.mod_eq_of_lt hlt, ← hl]
  exact congrArg _ (natBytes_bytesNat bytes)

/-- What was read of a type is written as the bytes that it was read of. Nothing in it is used up when it is gone
through, and it is nothing only where the type is optional. -/
structure Restored (write : Value → Except Fault (List UInt8)) (t : Ty) (r : Reader) (p : Value × Reader) :
    Prop where
  spans : p.1.hasNaN = false → Spans (write p.1) r p.2
  present : isOptional t.unbox = false → p.1 ≠ .none
  kept : p.1.used = p.1

/-- **A primitive is written as it was read.** -/
theorem restored_prim (p : Prim) (r : Reader) :
    Yields Any (Restored ((primFormat p).write s) (.prim p) r) ((primFormat p).read s r) := by
  cases hf : primFormat p with
  | int f =>
    have hwidth : 0 < f.width := by
      cases p <;> first | exact PrimFormat.int.inj hf ▸ (by decide) | exact absurd hf (by simp [primFormat])
    exact (spans_int hwidth r).bind fun q hq => ⟨fun _ => hq, fun _ => Value.noConfusion, rfl⟩
  | real f =>
    have hformat : f = .binary32 ∨ f = .binary64 := by
      cases p <;> simp_all [primFormat]
    rcases hformat with rfl | rfl
    · refine (spans_bytes r 4).bind fun q hq => ⟨fun hnan => ⟨q.1, ?_, hq.1⟩, fun _ => Value.noConfusion, rfl⟩
      exact spans_real32 (Int.ofNat.inj hq.2) hnan
    · refine (spans_bytes r 8).bind fun q hq => ⟨fun _ => ⟨q.1, ?_, hq.1⟩, fun _ => Value.noConfusion, rfl⟩
      exact spans_real64 (Int.ofNat.inj hq.2)
  | boolean =>
    refine (spans_int (by decide) r).bind fun q hq => (boolean_number q.1).bind fun v hv => ?_
    obtain ⟨b, rfl, hn⟩ := hv
    rw [hn] at hq
    exact ⟨fun _ => hq, fun _ => Value.noConfusion, rfl⟩

/-! ## Types -/

section Types

variable {write : String → Value → Except Fault (List UInt8)} {read : String → Reader → Except Fault (Value × Reader)}

/-- The items that are read are as many as the count, and are written as they were. -/
theorem restored_items {w : Value → Except Fault (List UInt8)} {t : Ty}
    {item : Reader → Except Fault (Value × Reader)} (h : ∀ r, Yields Any (Restored w t r) (item r)) (count : Nat)
    (r : Reader) : Yields Any (fun p => p.1.length = count ∧ p.1.map Value.used = p.1 ∧
      (Value.hasNaNAmong p.1 = false → Spans (List.flatten <$> p.1.mapM w) r p.2)) (readItems item count r) := by
  induction count generalizing r with
  | zero => exact ⟨rfl, rfl, fun _ => .refl r⟩
  | succ count ih =>
    refine (h r).bind fun p hp => (ih p.2).bind fun q hq =>
      ⟨congrArg Nat.succ hq.1, congrArg₂ List.cons hp.kept hq.2.1, fun hnan => ?_⟩
    obtain ⟨hfirst, hrest⟩ := Bool.or_eq_false_iff.1 hnan
    exact (hp.spans hfirst).cons (hq.2.2 hrest)

theorem restored_optional {t : Ty} (ho : isOptional t.unbox = false)
    (h : ∀ r, Yields Any (Restored (writeTy s write t) t r) (readTy s read t r)) (r : Reader) :
    Yields Any (Restored (writeTy s write (.optional t)) (.optional t) r) (readTy s read (.optional t) r) := by
  have hopt : isOptional (Ty.optional t).unbox ≠ false := Bool.noConfusion
  refine (spans_int (by decide) r).bind fun q hq => ?_
  dsimp only
  split
  · rename_i hmark
    refine ⟨fun _ => ?_, fun h => absurd h hopt, rfl⟩
    rw [hmark] at hq
    exact hq
  · split
    · rename_i hmark
      refine (h q.2).mono fun p hp => ⟨fun hnan => ?_, fun h => absurd h hopt, hp.kept⟩
      rw [hmark] at hq
      rw [writeTy_present (hp.present ho)]
      have hfront : Spans (.ok [presentTag]) r q.2 := hq
      exact hfront.append (hp.spans hnan)
    · trivial

/-- **What is read of a type is written as it was**, if what is read of definitions is. The induction is on the
type. -/
theorem restored_ty {root : Ty} (ho : OneForm s.table root)
    (hread : ∀ name r, Reaches s.table root (.named name) →
      Yields Any (Restored (write name) (.named name) r) (read name r))
    {t : Ty} (ht : Reaches s.table root t) (r : Reader) :
    Yields Any (Restored (writeTy s write t) t r) (readTy s read t r) := by
  induction t generalizing r with
  | prim p => exact restored_prim p r
  | string =>
    refine (spans_counted r).bind fun q hq => (decodeText_encode q.1).bind fun v hv => ?_
    obtain ⟨text, rfl, htext⟩ := hv
    rw [← htext] at hq
    exact ⟨fun _ => hq, fun _ => Value.noConfusion, rfl⟩
  | bytes => exact (spans_counted r).bind fun q hq => ⟨fun _ => hq, fun _ => Value.noConfusion, rfl⟩
  | optional t ih =>
    have hcontent : isOptional t.unbox = false := by simpa [hasOneForm] using ho _ ht
    exact restored_optional hcontent (fun r => ih (ht.tail (.child List.mem_cons_self)) r) r
  | sequence t ih =>
    refine (spans_int (by decide) r).bind fun q hq => ?_
    dsimp only
    split
    · trivial
    · rename_i hcount
      refine (restored_items (fun r => ih (ht.tail (.child List.mem_cons_self)) r) _ q.2).bind fun p hp => ?_
      have hkept : (Value.list p.1).used = .list p.1 :=
        congrArg Value.list ((Value.rebuiltAll_eq _ _ p.1).trans hp.2.1)
      refine ⟨fun hnan => ?_, fun _ => Value.noConfusion, hkept⟩
      have hlength : (p.1.length : Int) = q.1 := by
        rw [hp.1]
        omega
      rw [← hlength] at hq
      have hspans := hq.append (hp.2.2 hnan)
      simp only [bind_map_left] at hspans
      exact hspans
  | map k w => exact absurd (ho _ ht) Bool.false_ne_true
  | named name => exact hread name r ht
  | box t ih =>
    exact (ih (ht.tail (.child List.mem_cons_self)) r).mono fun p hp => ⟨hp.spans, hp.present, hp.kept⟩

end Types

/-! ## Definitions -/

/-- Nothing in some fields is used up when it is gone through. -/
def KeptFields (given : List (String × Value)) : Prop :=
  Value.rebuiltFields (fun handle _ => handle) true given = given

/-- The fields that are read are written as they were, whatever names them. -/
theorem restored_fields {read : Ty → Reader → Except Fault (Value × Reader)}
    {write : Ty → Value → Except Fault (List UInt8)} {fs : List Field}
    (h : ∀ f ∈ fs, ∀ r, Yields Any (Restored (write f.type) f.type r) (read f.type r)) (r : Reader) :
    Yields Any (fun p => (p.1.map (·.1) = fs.map fieldName ∧ KeptFields p.1) ∧ ∀ value : Field → Value,
      p.1 = fs.map (fun f => (fieldName f, value f)) → Value.hasNaNInFields p.1 = false →
        Spans (List.flatten <$> fs.mapM fun f => write f.type (value f)) r p.2) (readFields read fs r) := by
  induction fs generalizing r with
  | nil => exact ⟨⟨rfl, rfl⟩, fun _ _ _ => .refl r⟩
  | cons f fs ih =>
    rw [List.forall_mem_cons] at h
    refine (h.1 r).bind fun p hp => (ih h.2 p.2).bind fun q hq => ?_
    have hkept : KeptFields ((fieldName f, p.1) :: q.1) :=
      congrArg₂ List.cons (congrArg (Prod.mk _) hp.kept) hq.1.2
    refine ⟨⟨by rw [List.map_cons, List.map_cons, hq.1.1], hkept⟩, fun value hgiven hnan => ?_⟩
    obtain ⟨hfirst, hrest⟩ := List.cons.inj hgiven
    obtain ⟨hnanFirst, hnanRest⟩ := Bool.or_eq_false_iff.1 hnan
    have hvalue : p.1 = value f := (Prod.mk.inj hfirst).2
    have hspans : Spans (write f.type (value f)) r p.2 := hvalue ▸ hp.spans hnanFirst
    exact hspans.cons (w := fun f => write f.type (value f)) (hq.2 value hrest hnanRest)

/-- What is given under the names of some fields is given as a value for each. -/
theorem given_eq_map {fs : List Field} {given : List (String × Value)} (hk : given.map (·.1) = fs.map fieldName)
    (hnodup : (fs.map fieldName).Nodup) :
    given = fs.map fun f => (fieldName f, (given.lookup (fieldName f)).getD .none) := by
  have h := map_lookup (hk ▸ hnodup)
  rw [hk, List.map_map] at h
  exact h.symm

/-- What is read of some fields below a limit is written as it was. -/
def RestoresFields (m : Model) (limit : Nat) (fs : List Field) : Prop :=
  ∀ f ∈ fs, ∀ r, Yields Any
    (Restored (writeTy m.schema (writeNamed m.schema limit) f.type) f.type r) (readField m limit f.type r)

section Definitions

variable (hn : OrdinaryNames m) {limit : Nat}
include hn

/-- A value that shows the fields that were read is written as they were. -/
theorem restored_scope (name : String) {fs : List Field} (hlow : ∀ f ∈ fs, isLow (fieldName f) = false)
    (hnodup : (fs.map fieldName).Nodup) (hread : RestoresFields m limit fs) (r : Reader) :
    Yields Any (fun p => (p.1.map (·.1) = fs.map fieldName ∧ KeptFields p.1) ∧ ∀ v : Value,
      (∀ a w, p.1.lookup a = some w → v.attr? m.schema a = some w) → Value.hasNaNInFields p.1 = false →
        Spans (List.flatten <$> eachField m.schema name fs v (writeTy m.schema (writeNamed m.schema limit))) r p.2)
      (readFields (readField m limit) fs r) := by
  refine (restored_fields hread r).mono fun p hp => ⟨hp.1, fun v hshows hnan => ?_⟩
  have hset : ∀ f ∈ fs, ∃ w, p.1.lookup (fieldName f) = some w ∧ v.attr? m.schema (fieldName f) = some w := by
    intro f hf
    obtain ⟨w, hw⟩ := exists_lookup (l := p.1) (x := fieldName f) (hp.1.1 ▸ List.mem_map_of_mem hf)
    exact ⟨w, hw, hshows _ w hw⟩
  have hvalue : ∀ f ∈ fs, v.attr? m.schema (fieldName f) = some (fieldValue m.schema v f) := by
    intro f hf
    obtain ⟨w, -, hw⟩ := hset f hf
    unfold fieldValue
    rw [hw]
    rfl
  rw [eachField_eq hn hlow hvalue]
  refine hp.2 (fieldValue m.schema v) ?_ hnan
  refine (given_eq_map hp.1.1 hnodup).trans (List.map_congr_left fun f hf => ?_)
  obtain ⟨w, hw, hw'⟩ := hset f hf
  unfold fieldValue
  rw [hw, hw']

omit hn in
theorem writeNamed_record {d : Record} (hl : m.schema.table.lookup d.name = some (.record d)) (v : Value) :
    writeNamed m.schema (limit + 1) d.name v =
      List.flatten <$> eachField m.schema d.name d.fields v (writeTy m.schema (writeNamed m.schema limit)) := by
  unfold writeNamed
  simp only [hl]

theorem restored_record {d : Record} (hl : m.schema.table.lookup d.name = some (.record d))
    (hread : RestoresFields m limit d.fields) (r : Reader) :
    Yields Any (Restored (writeNamed m.schema (limit + 1) d.name) (.named d.name) r)
      (readNamed m.schema (limit + 1) d.name r) := by
  have hm := (lookup_schema hl).1
  have hfs : d.fields ∈ (Definition.record d).fieldScopes := List.mem_singleton.2 rfl
  rw [readNamed_record hn hl]
  refine (restored_scope hn d.name (hn.fields _ hm _ hfs) (hn.fields_nodup _ hm _ hfs) hread
    r).bind fun p hp => ?_
  rw [makeRecord_ok hn hl hp.1.1]
  refine ⟨fun hnan => ?_, fun _ => Value.noConfusion, congrArg (Value.instance _) hp.1.2⟩
  show Spans (writeNamed m.schema (limit + 1) d.name (.instance ⟨d.name, none⟩ p.1)) r p.2
  rw [writeNamed_record hl]
  exact hp.2 _ (fun _ _ h => h) hnan

omit hn in
theorem hasNaN_variantValue (isError : Bool) (c : Choice) (i : Nat) (given : List (String × Value)) :
    (variantValue isError c i given).hasNaN = Value.hasNaNInFields given := by
  cases isError <;> rfl

omit hn in
theorem used_variantValue (isError : Bool) (c : Choice) (i : Nat) {given : List (String × Value)}
    (h : KeptFields given) : (variantValue isError c i given).used = variantValue isError c i given := by
  cases isError
  · exact congrArg (Value.instance _) h
  · exact congrArg (Value.failure _ _ _) h

omit hn in
theorem variantValue_ne_none (isError : Bool) (c : Choice) (i : Nat) (given : List (String × Value)) :
    variantValue isError c i given ≠ .none := by
  cases isError <;> exact Value.noConfusion

theorem restored_choice {c : Choice} {d : Definition} (hl : m.schema.table.lookup c.name = some d)
    (hd : Schema.choice? d = some c) (hread : RestoresFields m limit d.fields) (r : Reader) :
    Yields Any (Restored (writeNamed m.schema (limit + 1) c.name) (.named c.name) r)
      (readNamed m.schema (limit + 1) c.name r) := by
  have hm := (lookup_schema hl).1
  rw [readNamed_choice hn hl hd]
  refine (spans_int (by decide) r).bind fun p hp => ?_
  unfold readVariant
  split
  · rename_i w hw
    obtain ⟨hfirst, hw⟩ : ¬ p.1 < firstVariant ∧ c.variants[(p.1 - firstVariant).toNat]? = some w := by
      split at hw
      · exact absurd hw (by simp)
      · exact ⟨‹_›, hw⟩
    have hfs := fields_mem_fieldScopes hd hw
    have hfields : RestoresFields m limit w.fields := fun f hf => hread f (mem_fields_of_scope hfs hf)
    refine (restored_scope hn c.name (hn.fields _ hm _ hfs) (hn.fields_nodup _ hm _ hfs) hfields
      p.2).bind fun q hq => ?_
    simp only [buildVariant_given hn hl hd hw hq.1.1]
    refine ⟨fun hnan => ?_, fun _ => variantValue_ne_none _ _ _ _, used_variantValue _ _ _ hq.1.2⟩
    have hof := variantOf?_of_class hn hm hd (List.getElem?_eq_some_iff.1 hw).1
      (class?_variantValue (d.kind == .error) c _ q.1)
    have hnumber : writeVariant (p.1 - firstVariant).toNat = PrimFormat.encodeInt .i32 p.1 := by
      unfold writeVariant
      congr 1
      omega
    rw [hasNaN_variantValue] at hnan
    obtain ⟨number, hbytes, hrest⟩ := hp
    obtain ⟨more, hmore, hrest'⟩ := hq.2 _ (fun _ _ h => attr?_variantValue h) hnan
    refine ⟨number ++ more, ?_, by rw [hrest, hrest', List.append_assoc]⟩
    exact writeNamed_choice hn hl hd hof (hnumber.trans hbytes) (by rw [hw]; exact hmore)
  · trivial

theorem restored_flat {c : Choice} (hl : m.schema.table.lookup c.name = some (.enum c)) (hf : c.isFlat = true)
    (r : Reader) : Yields Any (Restored (writeNamed m.schema (limit + 1) c.name) (.named c.name) r)
      (readNamed m.schema (limit + 1) c.name r) := by
  rw [readNamed_flat hn hl hf]
  refine (spans_int (by decide) r).bind fun p hp => ?_
  split
  · rename_i index hplace
    -- the number of a member is the place counted from the first number
    have hnumber : p.1 = ((index + firstVariant : Nat) : Int) := by
      unfold Schema.memberPlace? at hplace
      split at hplace
      · exact absurd hplace (by simp)
      · obtain ⟨w, -, hw⟩ := Option.bind_eq_some_iff.1 hplace
        split at hw
        · obtain rfl := Option.some.inj hw
          omega
        · exact absurd hw (by simp)
    refine ⟨fun _ => ?_, fun _ => Value.noConfusion, rfl⟩
    show Spans (writeNamed m.schema (limit + 1) c.name (.member c.name index)) r p.2
    rw [hnumber] at hp
    unfold writeNamed
    simp only [hl, hf, if_true]
    exact hp
  · trivial

theorem restored_object {o : Object} (hl : m.schema.table.lookup o.name = some (.object o)) (r : Reader) :
    Yields Any (Restored (writeNamed m.schema (limit + 1) o.name) (.named o.name) r)
      (readNamed m.schema (limit + 1) o.name r) := by
  have hm := (lookup_schema hl).1
  unfold readNamed
  simp only [hl]
  refine (spans_int (by decide) r).bind fun p hp => ?_
  obtain ⟨bytes, hbytes, hrest⟩ := hp
  have hnonneg : 0 ≤ p.1 := by
    unfold PrimFormat.encodeInt at hbytes
    split at hbytes
    · have hcontains := (encode?_eq_some.1 ‹_›).1
      unfold IntFormat.contains at hcontains
      exact (of_decide_eq_true hcontains).1
    · exact absurd hbytes (by simp)
  rcases hnonneg.eq_or_lt with hnull | hpos
  · rw [← hnull, liftObject_null hn hm]
    trivial
  · rw [liftObject_ok hn hm hpos]
    refine ⟨fun _ => ⟨bytes, ?_, hrest⟩, fun _ => Value.noConfusion, rfl⟩
    have hlower : lowerObject m.schema o.name (.object ⟨o.name, []⟩ (some (.int p.1)) none) = .ok (.int p.1) := by
      unfold lowerObject
      rw [checkObject_ok hn hm, bind_ok, askMember_ok hn _ (by decide), bind_ok]
      rfl
    unfold writeNamed
    simp only [hl]
    show (lowerObject m.schema o.name (.object ⟨o.name, []⟩ (some (.int p.1)) none) >>= _) = _
    rw [hlower]
    exact hbytes

/-- **What is read of a definition is written as it was**, whatever the limit is. The induction is on the limit. -/
theorem restored_named {root : Ty} (ho : OneForm m.schema.table root) (limit : Nat) {name : String}
    (hname : Reaches m.schema.table root (.named name)) (r : Reader) :
    Yields Any (Restored (writeNamed m.schema limit name) (.named name) r) (readNamed m.schema limit name r) := by
  induction limit generalizing name r with
  | zero => trivial
  | succ limit ih =>
    cases hl : m.schema.table.lookup name with
    | none =>
      unfold readNamed
      simp only [hl]
      trivial
    | some d =>
      have hread : RestoresFields m limit d.fields := by
        intro f hf r
        rw [readField_eq hn]
        exact restored_ty ho (fun name r hname => ih hname r) (hname.tail (.field hl hf)) r
      obtain ⟨-, rfl⟩ := lookup_schema hl
      cases d with
      | record d => exact restored_record hn hl hread r
      | enum c =>
        cases hf : c.isFlat with
        | true => exact restored_flat hn hl hf r
        | false => exact restored_choice hn hl (choice_of_not_flat hf) hread r
      | error c => exact restored_choice hn hl rfl hread r
      | object o => exact restored_object hn hl r

end Definitions

/-! ## Buffers -/

/-- A value that was read of all of some bytes, and that is accepted, is encoded as them. -/
theorem encode_of_restored {c : Converter} {bytes : List UInt8} {v : Value} (hc : c.check v = .ok ())
    (hread : Yields Any (Restored c.write c.type (.ofBytes bytes)) (c.read (.ofBytes bytes)))
    (hv : c.decode bytes = .ok v) (hnan : v.hasNaN = false) : c.encode v = .ok bytes := by
  have hinner : (c.read (.ofBytes bytes) >>= fun p => p.2.finish >>= fun _ => .ok p.1) = .ok v →
      c.write v.used = .ok bytes := by
    intro h
    obtain ⟨p, hp, h⟩ := bind_eq_ok.1 h
    obtain ⟨u, hfinish, h⟩ := bind_eq_ok.1 h
    obtain rfl := Except.ok.inj h
    have hend : p.2.rest = [] := (yields_finish (P := Any) (fun _ => trivial) p.2).of_ok hfinish
    obtain ⟨written, hwrite, hrest⟩ := (hread.of_ok hp).spans hnan
    rw [hend, List.append_nil] at hrest
    rw [(hread.of_ok hp).kept, hwrite]
    exact congrArg _ hrest.symm
  unfold Converter.decode at hv
  unfold Converter.encode
  rw [hc, bind_ok]
  cases ht : c.type.unbox with
  | string =>
    rw [ht] at hv
    obtain ⟨text, rfl, htext⟩ := (decodeText_encode bytes).of_ok hv
    exact congrArg _ htext
  | bytes =>
    rw [ht] at hv
    obtain rfl := Except.ok.inj hv
    rfl
  | _ =>
    rw [ht] at hv
    exact hinner hv

/-- **A buffer is the encoding of the value that it holds**, so no two buffers hold one value. The type is one over
an accepted model whose names are ordinary, and reaches no map and no optional type with optional content; no real
number in the value is none. -/
theorem encoding_unique {m : Model} (hm : m.Accepted) (hn : OrdinaryNames m) (hv : memberErrorName ∉ m.globals)
    {t : Ty} (ht : ∀ name ∈ t.names, name ∈ m.names) (ho : OneForm m.schema.table t) (limit : Nat) :
    (∀ bytes v, (m.converter limit t).decode bytes = .ok v → v.hasNaN = false →
      (m.converter limit t).encode v = .ok bytes) ∧
    ∀ bytes bytes' v, (m.converter limit t).decode bytes = .ok v → (m.converter limit t).decode bytes' = .ok v →
      v.hasNaN = false → bytes = bytes' := by
  have hclosed : m.schema.table.Closed := (accepted_iff.1 hm).closed
  have hdefined : ∀ name, Reaches m.schema.table t (.named name) → ∃ d, m.schema.table.lookup name = some d :=
    fun name h => hclosed.defines (defines_iff.2 ht) h name List.mem_cons_self
  have hencode : ∀ bytes v, (m.converter limit t).decode bytes = .ok v → v.hasNaN = false →
      (m.converter limit t).encode v = .ok bytes := by
    intro bytes v hdecode hnan
    have haccepted : Yields FromBytes (fun v => (m.converter limit t).check v = .ok () ∧ _)
        ((m.converter limit t).decode bytes) := lifted_decode
      (lifted_ty ho.plainKeys (fun name r hname => lifted_named hn hv ho.plainKeys hdefined limit hname r) .refl _)
    exact encode_of_restored (haccepted.of_ok hdecode).1
      (restored_ty ho (fun name r hname => restored_named hn ho limit hname r) .refl _) hdecode hnan
  refine ⟨hencode, fun bytes bytes' v h h' hnan => ?_⟩
  exact Except.ok.inj ((hencode bytes v h hnan).symm.trans (hencode bytes' v h' hnan))

/-- A sequence of one green node is the value of its nine bytes and of no others. -/
theorem encoding_unique_node :
    nodeModel.Accepted ∧ memberErrorName ∉ nodeModel.globals ∧
      OneForm nodeModel.schema.table (.sequence (.named "Node")) ∧
      ∃ v, v.hasNaN = false ∧
        (nodeModel.converter 3 (.sequence (.named "Node"))).decode [0, 0, 0, 1, 0, 0, 0, 2, 0] = .ok v ∧
        ∀ bytes, (nodeModel.converter 3 (.sequence (.named "Node"))).decode bytes = .ok v →
          bytes = [0, 0, 0, 1, 0, 0, 0, 2, 0] := by
  have hm : nodeModel.Accepted := accepted_iff.2 (sound_iff.2 ⟨passes_of_isOk (by decide +kernel), by decide⟩)
  have hv : memberErrorName ∉ nodeModel.globals := by decide
  have ho : OneForm nodeModel.schema.table (.sequence (.named "Node")) := by
    have hc : ∀ t ∈ [Ty.sequence (.named "Node"), .named "Node", .named "Color", .optional (.box (.named "Node")),
        .box (.named "Node")], ∀ s ∈ usesOf nodeModel.schema.table t, s ∈ [Ty.sequence (.named "Node"),
          .named "Node", .named "Color", .optional (.box (.named "Node")), .box (.named "Node")] := by
      decide
    exact oneForm_of_closed hc (by decide) List.mem_cons_self
  have hdecode : (nodeModel.converter 3 (.sequence (.named "Node"))).decode [0, 0, 0, 1, 0, 0, 0, 2, 0] =
      .ok (.list [.instance ⟨"Node", none⟩ [("color", .member "Color" 1), ("next", .none)]]) := by
    rfl
  refine ⟨hm, hv, ho, _, by rfl, hdecode, fun bytes h => ?_⟩
  exact (encoding_unique hm ordinaryNames_nodeModel hv (by decide) ho 3).2 _ _ _ h hdecode (by rfl)

end Bindgen.Wire
