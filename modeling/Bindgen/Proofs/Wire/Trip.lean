import Bindgen.Proofs.Outcome
import Bindgen.Proofs.Text.Utf8
import Bindgen.Proofs.Wire.Normal
import Bindgen.Proofs.Wire.Real
import Bindgen.Proofs.Wire.Stream

/-!
# Trips over the wire

`Trip written read a` says that something can be written and that `read` gives `a` for what was written,
whatever follows it. The lemmas here build trips from trips: of scalars, of what has a count in front, of the
items of a sequence, of the entries of a map and of the fields of a definition.
-/

namespace Bindgen.Wire

open Interface Resolve FloatFormat

/-- What is written can be, and is read back as `a`, whatever follows. -/
def Trip {α : Type} (written : Except Fault (List UInt8)) (read : Reader → Except Fault (α × Reader))
    (a : α) : Prop :=
  ∃ bytes, written = .ok bytes ∧ Reads read bytes a

variable {α β : Type} {s : Schema}

/-- One thing after another. -/
theorem Trip.append {first second : Except Fault (List UInt8)} {read : Reader → Except Fault (α × Reader)}
    {g : α → Reader → Except Fault (β × Reader)} {a : α} {b : β} (h : Trip first read a)
    (h' : Trip second (g a) b) :
    Trip (first >>= fun x => second >>= fun y => pure (x ++ y))
      (fun r => read r >>= fun p => g p.1 p.2) b := by
  obtain ⟨x, rfl, hx⟩ := h
  obtain ⟨y, rfl, hy⟩ := h'
  exact ⟨x ++ y, rfl, hx.bind hy⟩

theorem Trip.map {written : Except Fault (List UInt8)} {read : Reader → Except Fault (α × Reader)} {a : α}
    (f : α → β) (h : Trip written read a) :
    Trip written (fun r => read r >>= fun p => pure (f p.1, p.2)) (f a) := by
  obtain ⟨bytes, hw, hr⟩ := h
  exact ⟨bytes, hw, hr.map f⟩

theorem Trip.mapOk {written : Except Fault (List UInt8)} {read : Reader → Except Fault (α × Reader)} {a : α}
    {f : α → Except Fault β} {b : β} (h : Trip written read a) (hf : f a = .ok b) :
    Trip written (fun r => read r >>= fun p => f p.1 >>= fun b => pure (b, p.2)) b := by
  obtain ⟨bytes, hw, hr⟩ := h
  exact ⟨bytes, hw, hr.mapOk hf⟩

/-! ## Scalars -/

theorem trip_int {f : IntFormat} (hw : 0 < f.width) {n : Int} (h : f.contains n = true) :
    Trip (PrimFormat.encodeInt f n) (Reader.int · f) n := by
  have he := encode?_eq_some.2 ⟨h, rfl⟩
  refine ⟨_, ?_, reads_int hw he⟩
  unfold PrimFormat.encodeInt
  rw [he]

/-- A count that fits. -/
theorem trip_count {n : Nat} (h : n < countBound) :
    Trip (PrimFormat.encodeInt .i32 n) (Reader.int · .i32) (n : Int) := by
  have hb : countBound = 2147483648 := by decide
  have hmin : IntFormat.i32.min = -2147483648 := by decide
  have hmax : IntFormat.i32.max = 2147483647 := by decide
  refine trip_int (by decide) ?_
  unfold IntFormat.contains
  rw [hmin, hmax, decide_eq_true_eq]
  omega

/-- What has a count in front that fits, read by a reader that refuses negative counts. -/
theorem Trip.counted {n : Nat} (hn : n < countBound) {written : Except Fault (List UInt8)}
    {g : Nat → Reader → Except Fault (α × Reader)} {a : α} (fault : Int → Fault)
    (h : Trip written (g n) a) :
    Trip (PrimFormat.encodeInt .i32 n >>= fun count => written >>= fun rest => pure (count ++ rest))
      (fun r => r.int .i32 >>= fun p => if p.1 < 0 then throw (fault p.1) else g p.1.toNat p.2) a := by
  refine (trip_count hn).append (g := fun n r => if n < 0 then throw (fault n) else g n.toNat r) ?_
  simp only [Int.toNat_natCast, if_neg (Int.not_lt.2 (Int.natCast_nonneg n))]
  exact h

/-- Bytes with a count in front that fits. -/
theorem trip_counted {bytes : List UInt8} (h : bytes.length < countBound) :
    Trip (writeCounted bytes) readCounted bytes := by
  obtain ⟨count, hc, hr⟩ := trip_count h
  refine ⟨count ++ bytes, ?_, hr.bind (g := fun n r => Reader.bytes r n) (reads_bytes bytes)⟩
  unfold writeCounted
  rw [hc]
  rfl

theorem trip_real32 {bits : UInt64} {b : Nat} (hb : b < twoPow 32) (hnan : binary32.isNaN b = false)
    (hw : widen b = bits.toNat) :
    Trip ((PrimFormat.real .binary32).write s (.real bits)) ((PrimFormat.real .binary32).read s)
      (.real bits) := by
  have hr := (reads_bytes (natBytes 4 b)).map fun x => Value.real (UInt64.ofNat (widen (bytesNat x)))
  rw [natBytes_length, bytesNat_natBytes_of_lt hb, hw, UInt64.ofNat_toNat] at hr
  refine ⟨natBytes 4 b, ?_, hr⟩
  show PrimFormat.encodeReal .binary32 bits = _
  unfold PrimFormat.encodeReal
  rw [if_pos rfl, ← hw, narrow?_widen hb hnan]

theorem trip_real64 (bits : UInt64) :
    Trip ((PrimFormat.real .binary64).write s (.real bits)) ((PrimFormat.real .binary64).read s)
      (.real bits) := by
  have hr := (reads_bytes (natBytes 8 bits.toNat)).map fun x => Value.real (UInt64.ofNat (bytesNat x))
  rw [natBytes_length, bytesNat_natBytes_of_lt bits.toNat_lt, UInt64.ofNat_toNat] at hr
  exact ⟨natBytes 8 bits.toNat, rfl, hr⟩

theorem trip_bool (b : Bool) :
    Trip (PrimFormat.boolean.write s (.bool b)) (PrimFormat.boolean.read s) (.bool b) := by
  have hc : IntFormat.u8.contains (if b then 1 else 0) = true := by cases b <;> decide
  have hl : PrimFormat.lift s .boolean (.int (if b then 1 else 0)) = .ok (.bool b) := by cases b <;> rfl
  exact (trip_int (by decide) hc).mapOk (f := fun n => PrimFormat.lift s .boolean (.int n)) hl

/-- **A primitive comes back as it was.** -/
theorem trip_prim {p : Prim} {v : Value} (hc : (primFormat p).check s v = .ok ()) (hs : sendablePrim p v) :
    Trip ((primFormat p).write s v) ((primFormat p).read s) v := by
  have hint : ∀ f : IntFormat, 0 < f.width → (PrimFormat.int f).check s v = .ok () →
      Trip ((PrimFormat.int f).write s v) ((PrimFormat.int f).read s) v := by
    intro f hw h
    cases v with
    | int n =>
      by_cases hn : f.contains n = true
      · exact (trip_int hw hn).map Value.int
      · exact absurd h (by simp [PrimFormat.check, hn])
    | _ => exact absurd h (by simp [PrimFormat.check])
  cases p with
  | f32 =>
    obtain ⟨bits, rfl, b, hb, hnan, hw⟩ := hs
    exact trip_real32 hb hnan hw
  | f64 =>
    obtain ⟨bits, rfl, -⟩ := hs
    exact trip_real64 bits
  | bool =>
    cases v with
    | bool b => exact trip_bool b
    | _ => exact absurd hc (by simp [primFormat, PrimFormat.check])
  | _ => exact hint _ (by decide) hc

theorem trip_view {w : View} (hp : w.isPlain = true) (h : w.bytes.length < countBound) :
    Trip (writeBytes s (.view w)) readCounted w.bytes := by
  have hcount : w.count = w.bytes.length := by
    unfold View.count
    rw [beq_iff_eq.1 hp, Nat.div_one]
  have hwrite : writeBytes s (.view w) = writeCounted w.bytes := by
    unfold writeBytes writeCounted
    dsimp only
    rw [hcount]
  exact hwrite ▸ trip_counted h

theorem trip_text {t : String} (h : (Text.Utf8.encode t).length < countBound) :
    Trip (writeCounted (Text.Utf8.encode t)) (fun r => readCounted r >>= fun p => decodeText p.1 >>= fun v =>
      pure (v, p.2)) (.text t) := by
  refine (trip_counted h).mapOk ?_
  unfold decodeText
  rw [Text.Utf8.decode_encode]

/-! ## Optional values -/

section Optional

variable {t : Ty} {named : String → Reader → Except Fault (Value × Reader)}

/-- A mark, and what is read after it. -/
theorem reads_optional {mark : UInt8} {n : Int} {bytes : List UInt8} {v : Value}
    (hm : IntFormat.u8.encode? n = some [mark])
    (h : Reads (fun r => if n = absentTag.toNat then pure (Value.none, r)
      else if n = presentTag.toNat then readTy s named t r
      else throw (Fault.internal (.invalidOptionalTag n))) bytes v) :
    Reads (readTy s named (.optional t)) (mark :: bytes) v :=
  (reads_int (by decide) hm).bind h
    (g := fun (n : Int) r => if n = absentTag.toNat then pure (Value.none, r)
      else if n = presentTag.toNat then readTy s named t r
      else throw (Fault.internal (.invalidOptionalTag n)))

theorem checkTy_present {check : String → Value → Except Fault Unit} {v : Value} (hv : v ≠ .none) :
    checkTy s check (.optional t) v = checkTy s check t v := by
  cases v with
  | none => exact absurd rfl hv
  | _ => rfl

/-- A value that is there is written with the mark in front. -/
theorem writeTy_present {write : String → Value → Except Fault (List UInt8)} {v : Value} (hv : v ≠ .none) :
    writeTy s write (.optional t) v = writeTy s write t v >>= fun bytes => pure (presentTag :: bytes) := by
  cases v with
  | none => exact absurd rfl hv
  | _ => rfl

theorem trip_absent : Trip (.ok [absentTag]) (readTy s named (.optional t)) .none :=
  ⟨[absentTag], rfl, reads_optional (n := 0) (by decide) (reads_pure Value.none)⟩

theorem Trip.present {written : Except Fault (List UInt8)} {v : Value}
    (h : Trip written (readTy s named t) v) :
    Trip (written >>= fun bytes => pure (presentTag :: bytes)) (readTy s named (.optional t)) v := by
  obtain ⟨bytes, rfl, hr⟩ := h
  exact ⟨presentTag :: bytes, rfl, reads_optional (n := 1) (by decide) hr⟩

end Optional

/-! ## Items, entries and fields -/

/-- Items one after another. -/
theorem trip_items {write : Value → Except Fault (List UInt8)} {read : Reader → Except Fault (Value × Reader)}
    {f : Value → Value} {items : List Value} (h : ∀ x ∈ items, Trip (write x) read (f x)) :
    Trip (List.flatten <$> items.mapM write) (readItems read items.length) (items.map f) := by
  induction items with
  | nil => exact ⟨[], rfl, reads_pure []⟩
  | cons x xs ih =>
    obtain ⟨bytes, hw, hr⟩ := h x List.mem_cons_self
    obtain ⟨more, hmore, hrs⟩ := ih fun y hy => h y (List.mem_cons_of_mem x hy)
    obtain ⟨parts, hp, rfl⟩ := map_eq_ok.1 hmore
    refine ⟨bytes ++ parts.flatten, ?_, hr.bind (hrs.map (f x :: ·))
      (g := fun y r => readItems read xs.length r >>= fun p => pure (y :: p.1, p.2))⟩
    rw [List.mapM_cons, hw, bind_ok, hp]
    rfl

/-- A key that is not there yet goes to the end. -/
theorem insert_eq_append {key value : Value} {entries : List (Value × Value)}
    (h : ∀ p ∈ entries, p.1.same key = false) :
    Value.insert key value entries = entries ++ [(key, value)] := by
  induction entries with
  | nil => rfl
  | cons p ps ih =>
    obtain ⟨k, v⟩ := p
    rw [List.forall_mem_cons] at h
    unfold Value.insert
    rw [h.1, if_neg Bool.false_ne_true, ih h.2]
    rfl

theorem insert?_eq_append {key value : Value} {entries : List (Value × Value)}
    (hk : key.unhashable? s = none) (h : ∀ p ∈ entries, p.1.same key = false) :
    Value.insert? s key value entries = .ok (entries ++ [(key, value)]) := by
  unfold Value.insert?
  rw [hk, insert_eq_append h]

/-- Entries whose keys come back as distinct ones, read after those of `acc`. -/
theorem trip_entries {writeKey write : Value → Except Fault (List UInt8)}
    {key value : Reader → Except Fault (Value × Reader)} {g f : Value → Value} {entries : List (Value × Value)}
    (acc : List (Value × Value)) (hd : DistinctKeys s (acc.map (·.1) ++ entries.map fun p => g p.1))
    (hk : ∀ p ∈ entries, Trip (writeKey p.1) key (g p.1)) (hv : ∀ p ∈ entries, Trip (write p.2) value (f p.2)) :
    Trip (List.flatten <$> entries.mapM fun (a, b) => do
        let front ← writeKey a
        return front ++ (← write b))
      (readEntries s key value entries.length acc) (acc ++ entries.map fun p => (g p.1, f p.2)) := by
  induction entries generalizing acc with
  | nil =>
    rw [List.map_nil, List.append_nil]
    exact ⟨[], rfl, reads_pure acc⟩
  | cons p ps ih =>
    obtain ⟨a, b⟩ := p
    rw [List.forall_mem_cons] at hk hv
    have hnew : (g a).unhashable? s = none ∧ ∀ q ∈ acc, q.1.same (g a) = false := by
      refine ⟨hd.hashable (g a) (by simp), fun q hq => ?_⟩
      exact (List.pairwise_append.1 hd.distinct).2.2 q.1 (List.mem_map_of_mem hq) (g a) (by simp)
    have hd' : DistinctKeys s ((acc ++ [(g a, f b)]).map (·.1) ++ ps.map fun p => g p.1) := by
      rw [List.map_append, List.append_assoc]
      exact hd
    obtain ⟨bytes, hwa, hra⟩ := hk.1
    obtain ⟨bytes', hwb, hrb⟩ := hv.1
    obtain ⟨more, hmore, hrs⟩ := ih (acc ++ [(g a, f b)]) hd' hk.2 hv.2
    obtain ⟨parts, hp, rfl⟩ := map_eq_ok.1 hmore
    have hrest : Reads (fun r => Value.insert? s (g a) (f b) acc >>= fun e => readEntries s key value ps.length e r)
        parts.flatten (acc ++ [(g a, f b)] ++ ps.map fun p => (g p.1, f p.2)) := by
      rw [insert?_eq_append hnew.1 hnew.2]
      exact hrs
    rw [List.append_assoc] at hrest
    refine ⟨bytes ++ (bytes' ++ parts.flatten), ?_, hra.bind (hrb.bind hrest
      (g := fun v r => Value.insert? s (g a) v acc >>= fun e => readEntries s key value ps.length e r))
      (g := fun k r => value r >>= fun q =>
        Value.insert? s k q.1 acc >>= fun e => readEntries s key value ps.length e q.2)⟩
    rw [List.mapM_cons]
    simp only [hwa, hwb, bind_ok, hp]
    rw [← List.append_assoc]
    rfl

/-- The fields of a definition, each under its name. -/
theorem trip_fields {write : Ty → Value → Except Fault (List UInt8)}
    {read : Ty → Reader → Except Fault (Value × Reader)} {value f : Field → Value} {fields : List Field}
    (h : ∀ x ∈ fields, Trip (write x.type (value x)) (read x.type) (f x)) :
    Trip (List.flatten <$> fields.mapM fun x => write x.type (value x)) (readFields read fields)
      (fields.map fun x => (fieldName x, f x)) := by
  induction fields with
  | nil => exact ⟨[], rfl, reads_pure []⟩
  | cons x xs ih =>
    obtain ⟨bytes, hw, hr⟩ := h x List.mem_cons_self
    obtain ⟨more, hmore, hrs⟩ := ih fun y hy => h y (List.mem_cons_of_mem x hy)
    obtain ⟨parts, hp, rfl⟩ := map_eq_ok.1 hmore
    refine ⟨bytes ++ parts.flatten, ?_, hr.bind (hrs.map ((fieldName x, f x) :: ·))
      (g := fun v r => readFields read xs r >>= fun p => pure ((fieldName x, v) :: p.1, p.2))⟩
    rw [List.mapM_cons, hw, bind_ok, hp]
    rfl

end Bindgen.Wire
