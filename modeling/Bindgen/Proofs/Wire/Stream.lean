import Bindgen.Wire.Stream
import Mathlib.Data.List.Induction
import Mathlib.Tactic.Ring

/-!
# Numbers and bytes read back

`Reads read bytes a` says that `read` takes `bytes` off the front of any stream, stops right after them and
gives `a`. It is the form in which everything on the wire is shown to delimit itself: what follows is
arbitrary, and `Reads.bind` puts two of them one after the other.

Results:
* `decode_encode?`: an integer in range is the decoding of its encoding, in every format of at least one byte.
* `encode?_decode`: bytes are the encoding of what they are decoded to.
* `Reader.bytes_cases`: what comes of a read, which takes as many bytes as it is asked for or finds too few.
* `reads_bytes`, `reads_int`: a reader gives back bytes and integers.
-/

namespace Bindgen.Wire

theorem twoPow_eq (k : Nat) : twoPow k = 2 ^ k := by
  unfold twoPow
  rw [Nat.shiftLeft_eq, Nat.one_mul]

theorem twoPow_pos (k : Nat) : 0 < twoPow k := by
  rw [twoPow_eq]
  exact Nat.two_pow_pos k

theorem twoPow_succ (k : Nat) : twoPow (k + 1) = 2 * twoPow k := by
  rw [twoPow_eq, twoPow_eq, Nat.pow_succ, Nat.mul_comm]

theorem twoPow_add (j k : Nat) : twoPow (j + k) = twoPow j * twoPow k := by
  rw [twoPow_eq, twoPow_eq, twoPow_eq, Nat.pow_add]

/-! ## Big-endian numbers -/

theorem natBytes_length (width n : Nat) : (natBytes width n).length = width := by
  induction width generalizing n with
  | zero => rfl
  | succ width ih => rw [natBytes, List.length_append, ih, List.length_singleton]

theorem bytesNat_snoc (bytes : List UInt8) (b : UInt8) :
    bytesNat (bytes ++ [b]) = bytesNat bytes * 256 + b.toNat := by
  unfold bytesNat
  rw [List.foldl_append, List.foldl_cons, List.foldl_nil]

/-- What is read back is the number as far as it fits the width. -/
theorem bytesNat_natBytes (width n : Nat) : bytesNat (natBytes width n) = n % twoPow (8 * width) := by
  induction width generalizing n with
  | zero => exact (Nat.mod_one n).symm
  | succ width ih =>
    have hw : twoPow (8 * (width + 1)) = 256 * twoPow (8 * width) := by
      rw [show 8 * (width + 1) = 8 + 8 * width by ring, twoPow_add]
      rfl
    rw [natBytes, bytesNat_snoc, ih, hw, Nat.mod_mul, UInt8.toNat_ofNat']
    ring

theorem bytesNat_natBytes_of_lt {width n : Nat} (h : n < twoPow (8 * width)) :
    bytesNat (natBytes width n) = n := by
  rw [bytesNat_natBytes, Nat.mod_eq_of_lt h]

/-- Bytes are the ones of the number that they stand for. -/
theorem natBytes_bytesNat (bytes : List UInt8) : natBytes bytes.length (bytesNat bytes) = bytes := by
  induction bytes using List.reverseRecOn with
  | nil => rfl
  | append_singleton bytes b ih =>
    have hb := b.toNat_lt
    have hfront : (bytesNat bytes * 256 + b.toNat) / 256 = bytesNat bytes := by omega
    have hlast : UInt8.ofNat (bytesNat bytes * 256 + b.toNat) = b := by
      rw [← UInt8.toNat_inj, UInt8.toNat_ofNat']
      omega
    rw [bytesNat_snoc, List.length_append, List.length_singleton, natBytes, hfront, ih, hlast]

theorem bytesNat_lt (bytes : List UInt8) : bytesNat bytes < twoPow (8 * bytes.length) := by
  induction bytes using List.reverseRecOn with
  | nil => exact twoPow_pos 0
  | append_singleton bytes b ih =>
    have hb := b.toNat_lt
    rw [bytesNat_snoc, List.length_append, List.length_singleton,
      show 8 * (bytes.length + 1) = 8 * bytes.length + 8 by ring, twoPow_add, show twoPow 8 = 256 from rfl]
    omega

/-! ## Integers -/

/-- An integer in range and its remainder: the remainder is the integer, or lies above it by a whole turn. -/
theorem emod_turn {n k : Int} (hl : -k ≤ n) (hh : n < k) :
    n % (2 * k) = if n < 0 then n + 2 * k else n := by
  split
  · rw [← Int.add_emod_right]
    exact Int.emod_eq_of_lt (by omega) (by omega)
  · exact Int.emod_eq_of_lt (by omega) (by omega)

theorem encode?_eq_some {f : IntFormat} {n : Int} {bytes : List UInt8} :
    f.encode? n = some bytes ↔
      f.contains n = true ∧ natBytes f.width (n % twoPow (8 * f.width)).toNat = bytes := by
  unfold IntFormat.encode?
  split
  · rename_i h; simp only [h, true_and, Option.some.injEq]
  · rename_i h; simp only [h, false_and, reduceCtorEq]

theorem encode?_length {f : IntFormat} {n : Int} {bytes : List UInt8} (h : f.encode? n = some bytes) :
    bytes.length = f.width := by
  obtain ⟨-, rfl⟩ := encode?_eq_some.mp h
  exact natBytes_length _ _

/-- The number that the bytes of an integer are: its remainder. -/
theorem bytesNat_encode? {f : IntFormat} {n : Int} {bytes : List UInt8} (h : f.encode? n = some bytes) :
    (bytesNat bytes : Int) = n % twoPow (8 * f.width) := by
  obtain ⟨-, rfl⟩ := encode?_eq_some.mp h
  have hp : (0 : Int) < twoPow (8 * f.width) := by exact_mod_cast twoPow_pos (8 * f.width)
  have h0 := Int.emod_nonneg n hp.ne'
  have h1 := Int.emod_lt_of_pos n hp
  rw [bytesNat_natBytes_of_lt (by omega), Int.toNat_of_nonneg h0]

/-- **An integer in range reads back**, in every format of at least one byte. -/
theorem decode_encode? {f : IntFormat} (hw : 0 < f.width) {n : Int} {bytes : List UInt8}
    (h : f.encode? n = some bytes) : f.decode bytes = n := by
  have hb := bytesNat_encode? h
  have hc := (encode?_eq_some.mp h).1
  have hturn : (twoPow (8 * f.width) : Int) = 2 * twoPow (8 * f.width - 1) := by
    have := twoPow_succ (8 * f.width - 1)
    rw [Nat.sub_add_cancel (by omega)] at this
    exact_mod_cast this
  unfold IntFormat.contains IntFormat.min IntFormat.max at hc
  unfold IntFormat.decode IntFormat.max
  simp only [decide_eq_true_eq] at hc
  rw [hb]
  obtain ⟨width, signed⟩ := f
  cases signed with
  | false =>
    simp only [Bool.false_eq_true, if_false, false_and] at hc ⊢
    exact Int.emod_eq_of_lt hc.1 (by omega)
  | true =>
    simp only [if_true, true_and] at hc hturn ⊢
    rw [hturn, emod_turn hc.1 (by omega)]
    split <;> split <;> omega

/-- What bytes stand for is in range, in every format of at least one byte. -/
theorem contains_decode {f : IntFormat} (hw : 0 < f.width) {bytes : List UInt8} (hl : bytes.length = f.width) :
    f.contains (f.decode bytes) = true := by
  have hlt := bytesNat_lt bytes
  rw [hl] at hlt
  have hturn : twoPow (8 * f.width) = 2 * twoPow (8 * f.width - 1) := by
    have := twoPow_succ (8 * f.width - 1)
    rwa [Nat.sub_add_cancel (by omega)] at this
  unfold IntFormat.contains IntFormat.decode IntFormat.min IntFormat.max
  rw [decide_eq_true_eq]
  obtain ⟨width, signed⟩ := f
  cases signed with
  | false =>
    simp only [Bool.false_eq_true, if_false, false_and] at hlt ⊢
    omega
  | true =>
    simp only [if_true, true_and] at hlt hturn ⊢
    split <;> omega

/-- **Bytes are the encoding of the integer that they stand for**, in every format of at least one byte. -/
theorem encode?_decode {f : IntFormat} (hw : 0 < f.width) {bytes : List UInt8} (hl : bytes.length = f.width) :
    f.encode? (f.decode bytes) = some bytes := by
  have hlt := bytesNat_lt bytes
  rw [hl] at hlt
  have hmod : f.decode bytes % twoPow (8 * f.width) = bytesNat bytes := by
    have hself : (bytesNat bytes : Int) % twoPow (8 * f.width) = bytesNat bytes :=
      Int.emod_eq_of_lt (Int.natCast_nonneg _) (by exact_mod_cast hlt)
    unfold IntFormat.decode
    simp only
    split
    · rw [Int.sub_emod_right, hself]
    · exact hself
  refine encode?_eq_some.2 ⟨contains_decode hw hl, ?_⟩
  rw [hmod, Int.toNat_natCast, ← hl, natBytes_bytesNat]

/-! ## Streams -/

/-- There are as many bytes as are asked for, or too few. -/
theorem Reader.bytes_cases (r : Reader) (size : Int) :
    (∃ front rest, r.rest = front ++ rest ∧ front.length = size ∧
      r.bytes size = .ok (front, ⟨r.offset + front.length, rest⟩)) ∨
    (size < 0 ∨ r.rest.length < size) ∧ r.bytes size = .error (.internal (.underflow size r.offset)) := by
  by_cases hsize : size < 0
  · exact .inr ⟨.inl hsize, if_pos hsize⟩
  · unfold Reader.bytes
    rw [if_neg hsize]
    cases hsplit : splitFirst? size.toNat r.rest with
    | some p =>
      obtain ⟨front, rest⟩ := p
      obtain ⟨happend, hlength⟩ := append_eq_of_splitFirst? hsplit
      exact .inl ⟨front, rest, happend.symm, by omega, by rw [hlength]⟩
    | none =>
      refine .inr ⟨.inr (Int.lt_of_not_ge fun hle => ?_), rfl⟩
      -- If there were enough bytes, the first of them could be split off.
      have hfront : (r.rest.take size.toNat).length = size.toNat := List.length_take_of_le (by omega)
      have hsome := splitFirst?_append (r.rest.take size.toNat) (r.rest.drop size.toNat)
      rw [hfront, List.take_append_drop, hsplit] at hsome
      exact absurd hsome (by simp)

/-- Reading ends well just where nothing is left over. -/
theorem Reader.finish_eq_ok (r : Reader) : r.finish = .ok () ↔ r.rest = [] := by
  unfold Reader.finish
  rw [← List.isEmpty_iff]
  cases r.rest.isEmpty <;> simp

/-- `read` takes `bytes` off the front of any stream, stops right after them and gives `a`. -/
def Reads {α : Type} (read : Reader → Except Fault (α × Reader)) (bytes : List UInt8) (a : α) : Prop :=
  ∀ (offset : Nat) (rest : List UInt8),
    read ⟨offset, bytes ++ rest⟩ = .ok (a, ⟨offset + bytes.length, rest⟩)

variable {α β : Type}

/-- One reader after another, on one text after another. -/
theorem Reads.bind {read : Reader → Except Fault (α × Reader)} {bytes : List UInt8} {a : α}
    {g : α → Reader → Except Fault (β × Reader)} {more : List UInt8} {b : β}
    (h : Reads read bytes a) (h' : Reads (g a) more b) :
    Reads (fun r => read r >>= fun p => g p.1 p.2) (bytes ++ more) b := by
  intro offset rest
  simp only [List.append_assoc, h offset]
  show g a ⟨offset + bytes.length, more ++ rest⟩ = _
  rw [h', List.length_append, Nat.add_assoc]

/-- What is read is put into another form. -/
theorem Reads.map {read : Reader → Except Fault (α × Reader)} {bytes : List UInt8} {a : α} (f : α → β)
    (h : Reads read bytes a) : Reads (fun r => read r >>= fun p => pure (f p.1, p.2)) bytes (f a) := by
  intro offset rest
  simp only [h offset]
  rfl

/-- What is read is put into another form, which may fail. -/
theorem Reads.mapOk {read : Reader → Except Fault (α × Reader)} {bytes : List UInt8} {a : α}
    {f : α → Except Fault β} {b : β} (h : Reads read bytes a) (hf : f a = .ok b) :
    Reads (fun r => read r >>= fun p => f p.1 >>= fun b => pure (b, p.2)) bytes b := by
  intro offset rest
  simp only [h offset]
  show (f a >>= fun b => pure (b, _)) = _
  rw [hf]
  rfl

/-- Nothing is read. -/
theorem reads_pure (a : α) : Reads (fun r => pure (a, r)) [] a :=
  fun _ _ => rfl

theorem reads_bytes (bytes : List UInt8) : Reads (Reader.bytes · bytes.length) bytes bytes := by
  intro offset rest
  simp only [Reader.bytes]
  rw [if_neg (by omega), Int.toNat_natCast, splitFirst?_append]

theorem reads_int {f : IntFormat} (hw : 0 < f.width) {n : Int} {bytes : List UInt8}
    (h : f.encode? n = some bytes) : Reads (Reader.int · f) bytes n := by
  have hr : Reads (Reader.bytes · f.width) bytes bytes := by
    have := reads_bytes bytes
    rwa [encode?_length h] at this
  have := hr.map f.decode
  rwa [decode_encode? hw h] at this

end Bindgen.Wire
