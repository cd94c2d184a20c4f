import Bindgen.Native.Protocol
import Bindgen.Proofs.Native.Trace
import Bindgen.Proofs.Wire.Stream
import Mathlib.Data.List.TakeDrop

/-!
# What is lent

Bytes are lent in a buffer or a view, whose length has 32 bits with sign. Lengths below `lengthLimit` are kept, and
what is lent then holds exactly the bytes. From there on the length wraps around: what is lent is unsound, or it is
sound and holds less than it should.

Results:
* `wrap32_length_iff`: which lengths are kept.
* `borrowed_read`: what is read from a buffer that lends bytes, however many they are.
* **`lent_whole_iff`**: which bytes are lent as a whole, and what comes of the others.
-/

namespace Bindgen.Native

open Wire

variable {bytes : List UInt8}

/-! ## Lengths of 32 bits -/

/-- The first length that 32 bits with sign do not hold. -/
def lengthLimit : Nat := 2 ^ 31

theorem wrap32_eq_bmod (n : Int) : wrap32 n = n.bmod (2 ^ 32) := by
  rw [wrap32, twoPow_eq]

theorem wrap32_lt (n : Int) : wrap32 n < lengthLimit := by
  have hlt := Int.bmod_lt (x := n) (m := 2 ^ 32) (by decide)
  rw [wrap32_eq_bmod, lengthLimit]
  omega

/-- **A length is kept** below the limit, and only there. -/
theorem wrap32_length_iff (n : Nat) : wrap32 n = n ↔ n < lengthLimit := by
  constructor
  · intro h
    have hlt := wrap32_lt n
    rw [h] at hlt
    exact_mod_cast hlt
  · intro h
    rw [lengthLimit] at h
    rw [wrap32_eq_bmod, Int.bmod_eq_of_le (by omega) (by omega)]

/-- A wrapped length is at most the length. -/
theorem wrap32_length_le (n : Nat) : (wrap32 n).toNat ≤ n := by
  by_cases h : n < lengthLimit
  · rw [(wrap32_length_iff n).2 h]
    exact Int.toNat_natCast n ▸ le_rfl
  · have hlt := wrap32_lt n
    omega

/-- The first bytes of enough bytes. -/
theorem firstBytes_eq_take {n : Nat} (h : n ≤ bytes.length) : firstBytes n bytes = bytes.take n := by
  induction n generalizing bytes with
  | zero => rfl
  | succ n ih =>
    cases bytes with
    | nil => exact absurd h (by simp)
    | cons b bytes => rw [firstBytes, List.take_succ_cons, ih (Nat.le_of_succ_le_succ h)]

/-! ## Buffers and views -/

/-- **A buffer holds bytes**: it is sound, and they are what is read from it. -/
structure Buffer.Holds (b : Buffer) (bytes : List UInt8) : Prop where
  sound : b.check = .ok ()
  read : b.read = .ok bytes

/-- **A view holds bytes**: they are its contents, and as many as it says. -/
structure View.Holds (v : View) (bytes : List UInt8) : Prop where
  len : v.len = bytes.length
  contents : v.contents = bytes

/-- A buffer and a view of no bytes are empty. -/
theorem holds_nil : (Buffer.borrowed []).Holds [] ∧ (View.borrowed []).Holds [] :=
  ⟨⟨rfl, rfl⟩, ⟨rfl, rfl⟩⟩

theorem Buffer.read_eq {b : Buffer} (h : b.check = .ok ()) :
    b.read = .ok (firstBytes b.len.toNat (b.memory.getD [])) := by
  rw [read, h]
  rfl

theorem borrowed_of_ne_nil (h : bytes ≠ []) :
    Buffer.borrowed bytes = ⟨wrap32 bytes.length, wrap32 bytes.length, some bytes⟩ ∧
      View.borrowed bytes = ⟨wrap32 bytes.length, some bytes⟩ := by
  have hempty : bytes.isEmpty = false := by simpa using h
  exact ⟨by rw [Buffer.borrowed, hempty]; rfl, by rw [View.borrowed, hempty]; rfl⟩

/-- **A buffer that lends bytes is sound** just where its length comes out positive. -/
theorem borrowed_check (h : bytes ≠ []) :
    (Buffer.borrowed bytes).check = .ok () ↔ 0 < wrap32 bytes.length := by
  rw [(borrowed_of_ne_nil h).1, Buffer.check]
  split
  · next hlengths =>
    simp only [lt_self_iff_false, or_false, or_self] at hlengths
    simp only [reduceCtorEq, false_iff]
    omega
  · split
    · next hdata => simpa using hdata
    · next hdata => simpa using hdata

/-- **What is read from a buffer that lends bytes**: as many of the first ones as its length says, if it comes out
positive. -/
theorem borrowed_read (h : bytes ≠ []) :
    (0 < wrap32 bytes.length ∧
        (Buffer.borrowed bytes).read = .ok (bytes.take (wrap32 bytes.length).toNat)) ∨
      wrap32 bytes.length ≤ 0 ∧ ∃ f, (Buffer.borrowed bytes).read = .error f := by
  by_cases hpos : 0 < wrap32 bytes.length
  · refine .inl ⟨hpos, ?_⟩
    rw [Buffer.read_eq ((borrowed_check h).2 hpos), (borrowed_of_ne_nil h).1, Option.getD_some,
      firstBytes_eq_take (wrap32_length_le bytes.length)]
  · refine .inr ⟨not_lt.1 hpos, ?_⟩
    cases hcheck : (Buffer.borrowed bytes).check with
    | ok u => exact absurd ((borrowed_check h).1 hcheck) hpos
    | error f => exact ⟨f, by rw [Buffer.read, hcheck]; rfl⟩

/-- The contents of a view of bytes: as many of the first ones as its length says. -/
theorem borrowed_contents (h : bytes ≠ []) :
    (View.borrowed bytes).contents = bytes.take (wrap32 bytes.length).toNat := by
  rw [(borrowed_of_ne_nil h).2, View.contents, Option.getD_some,
    firstBytes_eq_take (wrap32_length_le bytes.length)]

/-- Taking as many bytes as a wrapped length says gives all of them, just where the length is kept. -/
theorem take_wrap32_iff : bytes.take (wrap32 bytes.length).toNat = bytes ↔ bytes.length < lengthLimit := by
  rw [List.take_eq_self_iff]
  constructor
  · intro hle
    have hlt := wrap32_lt bytes.length
    have hlimit : 0 < lengthLimit := by decide
    omega
  · intro hlt
    rw [(wrap32_length_iff bytes.length).2 hlt, Int.toNat_natCast]

/-! ## What is lent as a whole -/

/-- **Bytes are lent as a whole** in a buffer and in a view, just where there are fewer than the limit. -/
theorem borrowed_holds_iff (bytes : List UInt8) :
    ((Buffer.borrowed bytes).Holds bytes ↔ bytes.length < lengthLimit) ∧
      ((View.borrowed bytes).Holds bytes ↔ bytes.length < lengthLimit) := by
  by_cases h : bytes = []
  · subst h
    exact ⟨iff_of_true holds_nil.1 (by decide), iff_of_true holds_nil.2 (by decide)⟩
  have hpositive : 0 < bytes.length := List.length_pos_of_ne_nil h
  constructor
  · constructor
    · intro hholds
      obtain ⟨-, hread⟩ | ⟨-, f, hread⟩ := borrowed_read h
      · exact take_wrap32_iff.1 (Except.ok.inj (hread.symm.trans hholds.read))
      · exact absurd (hread.symm.trans hholds.read) (by simp)
    · intro hlt
      have hkept := (wrap32_length_iff bytes.length).2 hlt
      obtain ⟨hpos, hread⟩ | ⟨hneg, -⟩ := borrowed_read h
      · exact ⟨(borrowed_check h).2 hpos, by rw [hread, take_wrap32_iff.2 hlt]⟩
      · omega
  · constructor
    · intro hholds
      exact take_wrap32_iff.1 ((borrowed_contents h).symm.trans hholds.contents)
    · intro hlt
      refine ⟨?_, (borrowed_contents h).trans (take_wrap32_iff.2 hlt)⟩
      rw [(borrowed_of_ne_nil h).2, (wrap32_length_iff bytes.length).2 hlt]

/-- **Less than was lent**: an attempt to read it fails or gives the first bytes only, and a view has the first
bytes only. -/
structure LentShort (bytes : List UInt8) : Prop where
  buffer : (∃ f, (Buffer.borrowed bytes).read = .error f) ∨
    ∃ n < bytes.length, (Buffer.borrowed bytes).read = .ok (bytes.take n)
  view : ∃ n < bytes.length, (View.borrowed bytes).contents = bytes.take n

theorem lentShort_of_le (h : lengthLimit ≤ bytes.length) : LentShort bytes := by
  have hpositive : 0 < bytes.length := Nat.lt_of_lt_of_le (by decide) h
  have hne : bytes ≠ [] := List.ne_nil_of_length_pos hpositive
  have hshort : (wrap32 bytes.length).toNat < bytes.length := by
    have hlt := wrap32_lt bytes.length
    omega
  refine ⟨?_, _, hshort, borrowed_contents hne⟩
  obtain ⟨-, hread⟩ | ⟨-, hfails⟩ := borrowed_read hne
  · exact .inr ⟨_, hshort, hread⟩
  · exact .inl hfails

/-- **Which bytes are lent as a whole**, and what comes of the others. Whatever a converter makes of a value is lent
in a buffer of its own, and nothing else happens; that buffer, and a view of any bytes, holds them exactly if there
are fewer than the limit. Of more than that only less is ever read. -/
theorem lent_whole_iff (bytes : List UInt8) :
    (∀ (c : Converter) (v : Value) (s : Session), c.encode v = .ok bytes →
      lowerBorrowed (.ofExcept (c.encode v)) s = (.ok (.borrowed bytes), s)) ∧
      ((Buffer.borrowed bytes).Holds bytes ↔ bytes.length < lengthLimit) ∧
      ((View.borrowed bytes).Holds bytes ↔ bytes.length < lengthLimit) ∧
      (lengthLimit ≤ bytes.length → LentShort bytes) := by
  obtain ⟨hbuffer, hview⟩ := borrowed_holds_iff bytes
  refine ⟨fun c v s h => ?_, hbuffer, hview, lentShort_of_le⟩
  rw [h]
  rfl

/-- The bytes of a value that is too long to be lent. -/
def longBytes : List UInt8 := List.replicate lengthLimit 0

/-- A converter of bytes makes a buffer of them that is not sound. -/
theorem lent_whole_iff_longBytes : ∃ c : Converter, c.encode (.bytes longBytes) = .ok longBytes ∧
    lowerBorrowed (.ofExcept (c.encode (.bytes longBytes))) .start = (.ok (.borrowed longBytes), .start) ∧
      ¬(Buffer.borrowed longBytes).Holds longBytes ∧ LentShort longBytes := by
  have hlength : longBytes.length = lengthLimit := List.length_replicate
  obtain ⟨hlends, hbuffer, -, hshort⟩ := lent_whole_iff longBytes
  let c : Converter := ⟨⟨[], []⟩, 0, .bytes⟩
  have hencode : c.encode (.bytes longBytes) = .ok longBytes := rfl
  refine ⟨c, hencode, hlends c _ _ hencode, fun hholds => ?_, hshort hlength.ge⟩
  exact absurd (hbuffer.1 hholds) (by rw [hlength]; exact lt_irrefl _)

end Bindgen.Native
