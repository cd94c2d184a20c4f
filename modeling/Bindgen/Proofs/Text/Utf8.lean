import Bindgen.Text.Utf8

/-!
# UTF-8 reads back

The machine of `Text/Utf8` undoes `encode`. The lead byte of a character leaves it with the continuation
bytes owed and the upper bits read, and each continuation byte adds six bits, so after the last one the
character is whole and the machine stands between characters again.

Nothing else gets through: the bounds on the byte after the lead byte leave each character one form only, so the
bytes that the machine took for a character are its encoding (`Begun`).

Results:
* `decodeFrom_encodeChar`: one character is read off, whatever follows.
* `decode_encode`: every text is the decoding of its encoding.
* `encode_decode`: well-formed bytes are the encoding of their decoding.
-/

namespace Bindgen.Text.Utf8

theorem toNat_ofNat {n : Nat} (h : n < 256) : (UInt8.ofNat n).toNat = n := by
  rw [UInt8.toNat_ofNat']
  exact Nat.mod_eq_of_lt h

theorem val_eq (c : Char) : Char.ofNat c.val.toNat = c :=
  Char.ofNat_toNat c

/-- The last continuation byte finishes the character. -/
theorem next_last {low high acc x : Nat} (hx : x < 64) (hl : low ≤ x + 128) (hh : x + 128 ≤ high) :
    (Pending.mk 0 low high acc).next (UInt8.ofNat (x + 128)) = .char (Char.ofNat (acc * 64 + x)) := by
  unfold Pending.next
  simp only [toNat_ofNat (show x + 128 < 256 by omega)]
  rw [if_pos ⟨hl, hh⟩, Nat.add_sub_cancel]

/-- Any other continuation byte adds its six bits. -/
theorem next_more {k low high acc x : Nat} (hx : x < 64) (hl : low ≤ x + 128) (hh : x + 128 ≤ high) :
    (Pending.mk (k + 1) low high acc).next (UInt8.ofNat (x + 128)) =
      .more ⟨k, 0x80, 0xBF, acc * 64 + x⟩ := by
  unfold Pending.next
  simp only [toNat_ofNat (show x + 128 < 256 by omega)]
  rw [if_pos ⟨hl, hh⟩, Nat.add_sub_cancel]

/-- What a lead byte of two bytes leaves. -/
theorem begin_two {x : Nat} (hl : 2 ≤ x) (hh : x < 32) :
    begin (UInt8.ofNat (x + 0xC0)) = .more ⟨0, 0x80, 0xBF, x⟩ := by
  unfold begin
  simp only [toNat_ofNat (show x + 0xC0 < 256 by omega)]
  rw [if_neg (by omega), if_neg (by omega), if_pos (by omega), Nat.add_sub_cancel]

/-- What a lead byte of three bytes leaves: the next byte is bounded so that no code point is too small for
three bytes or a surrogate. -/
theorem begin_three {x : Nat} (hh : x < 16) :
    ∃ low high, begin (UInt8.ofNat (x + 0xE0)) = .more ⟨1, low, high, x⟩ ∧
      low = (if x = 0 then 0xA0 else 0x80) ∧ high = (if x = 13 then 0x9F else 0xBF) := by
  refine ⟨_, _, ?_, rfl, rfl⟩
  unfold begin
  simp only [toNat_ofNat (show x + 0xE0 < 256 by omega)]
  rw [if_neg (by omega), if_neg (by omega), if_neg (by omega)]
  by_cases h0 : x = 0
  · subst h0; rfl
  by_cases h13 : x = 13
  · subst h13; rfl
  rw [if_neg (by omega), if_neg (by omega), if_pos (by omega), if_neg h0, if_neg h13, Nat.add_sub_cancel]

/-- What a lead byte of four bytes leaves: the next byte is bounded so that the code point is neither too small
for four bytes nor beyond the last one. -/
theorem begin_four {x : Nat} (hh : x < 5) :
    ∃ low high, begin (UInt8.ofNat (x + 0xF0)) = .more ⟨2, low, high, x⟩ ∧
      low = (if x = 0 then 0x90 else 0x80) ∧ high = (if x = 4 then 0x8F else 0xBF) := by
  refine ⟨_, _, ?_, rfl, rfl⟩
  match x, hh with
  | 0, _ | 1, _ | 2, _ | 3, _ | 4, _ => rfl

theorem decodeFrom_begin {b : UInt8} {q : Pending} (h : begin b = .more q) (bytes : List UInt8) :
    decodeFrom none (b :: bytes) = decodeFrom (some q) bytes := by
  rw [decodeFrom, Option.elim_none, h]

theorem decodeFrom_more {p q : Pending} {b : UInt8} (h : p.next b = .more q) (bytes : List UInt8) :
    decodeFrom (some p) (b :: bytes) = decodeFrom (some q) bytes := by
  rw [decodeFrom, Option.elim_some, h]

theorem decodeFrom_last {p : Pending} {b : UInt8} {c : Char} (h : p.next b = .char c)
    (bytes : List UInt8) :
    decodeFrom (some p) (b :: bytes) = (decodeFrom none bytes).map (c :: ·) := by
  rw [decodeFrom, Option.elim_some, h]

/-- **One character reads back**, whatever follows. -/
theorem decodeFrom_encodeChar (c : Char) (bytes : List UInt8) :
    decodeFrom none (String.utf8EncodeChar c ++ bytes) = (decodeFrom none bytes).map (c :: ·) := by
  have hvalid : c.val.toNat < 0xD800 ∨ 0xDFFF < c.val.toNat ∧ c.val.toNat < 0x110000 := c.valid
  have hc := val_eq c
  unfold String.utf8EncodeChar
  simp only
  generalize c.val.toNat = n at hvalid hc
  subst hc
  split
  · -- one byte
    have hb : begin (UInt8.ofNat n) = .char (Char.ofNat n) := by
      unfold begin
      simp only [toNat_ofNat (show n < 256 by omega)]
      rw [if_pos (by omega)]
    rw [List.cons_append, List.nil_append, decodeFrom, Option.elim_none, hb]
  split
  · -- two bytes
    simp only [List.cons_append, List.nil_append]
    rw [Nat.mod_eq_of_lt (show n / 64 < 32 by omega), decodeFrom_begin (begin_two (by omega) (by omega)),
      decodeFrom_last (next_last (by omega) (by omega) (by omega)),
      show n / 64 * 64 + n % 64 = n by omega]
  split
  · -- three bytes
    simp only [List.cons_append, List.nil_append]
    rw [Nat.mod_eq_of_lt (show n / 4096 < 16 by omega)]
    obtain ⟨low, high, hb, hl, hh⟩ := begin_three (x := n / 4096) (by omega)
    rw [decodeFrom_begin hb,
      decodeFrom_more (next_more (by omega) (by split at hl <;> omega) (by split at hh <;> omega)),
      decodeFrom_last (next_last (by omega) (by omega) (by omega)),
      show (n / 4096 * 64 + n / 64 % 64) * 64 + n % 64 = n by omega]
  · -- four bytes
    simp only [List.cons_append, List.nil_append]
    rw [Nat.mod_eq_of_lt (show n / 262144 < 8 by omega)]
    obtain ⟨low, high, hb, hl, hh⟩ := begin_four (x := n / 262144) (by omega)
    rw [decodeFrom_begin hb,
      decodeFrom_more (next_more (by omega) (by split at hl <;> omega) (by split at hh <;> omega)),
      decodeFrom_more (next_more (by omega) (by omega) (by omega)),
      decodeFrom_last (next_last (by omega) (by omega) (by omega)),
      show ((n / 262144 * 64 + n / 4096 % 64) * 64 + n / 64 % 64) * 64 + n % 64 = n by omega]

theorem decodeFrom_encodeChars (cs : List Char) :
    decodeFrom none (cs.flatMap String.utf8EncodeChar) = some cs := by
  induction cs with
  | nil => rfl
  | cons c cs ih => rw [List.flatMap_cons, decodeFrom_encodeChar, ih, Option.map_some]

/-- **Every text is the decoding of its encoding.** -/
theorem decode_encode (s : String) : decode (encode s) = some s := by
  unfold decode encode
  rw [decodeFrom_encodeChars, Option.map_some, String.ofList_toList]

/-! ## Bytes come back -/

theorem val_ofNat {n : Nat} (h : n.isValidChar) : (Char.ofNat n).val.toNat = n := by
  unfold Char.ofNat
  rw [dif_pos h]
  exact UInt32.toNat_ofNatLT ..

theorem encodeChar_one {n : Nat} (h : n < 0x80) : String.utf8EncodeChar (Char.ofNat n) = [UInt8.ofNat n] := by
  unfold String.utf8EncodeChar
  simp only [val_ofNat (show n.isValidChar from .inl (by omega))]
  rw [if_pos (by omega)]

theorem encodeChar_two {x y : Nat} (hl : 2 ≤ x) (hh : x < 32) (hy : y < 64) :
    String.utf8EncodeChar (Char.ofNat (x * 64 + y)) = [UInt8.ofNat (x + 0xC0), UInt8.ofNat (y + 128)] := by
  unfold String.utf8EncodeChar
  simp only [val_ofNat (show (x * 64 + y).isValidChar from .inl (by omega))]
  rw [if_neg (by omega), if_pos (by omega), show (x * 64 + y) / 64 % 32 = x by omega,
    show (x * 64 + y) % 64 = y by omega]

theorem encodeChar_three {x y z : Nat} (hx : x < 16) (hy : y < 64) (hz : z < 64) (hl : x = 0 → 32 ≤ y)
    (hh : x = 13 → y < 32) : String.utf8EncodeChar (Char.ofNat ((x * 64 + y) * 64 + z)) =
      [UInt8.ofNat (x + 0xE0), UInt8.ofNat (y + 128), UInt8.ofNat (z + 128)] := by
  have hvalid : ((x * 64 + y) * 64 + z).isValidChar := by
    unfold Nat.isValidChar
    omega
  unfold String.utf8EncodeChar
  simp only [val_ofNat hvalid]
  rw [if_neg (by omega), if_neg (by omega), if_pos (by omega),
    show ((x * 64 + y) * 64 + z) / 4096 % 16 = x by omega,
    show ((x * 64 + y) * 64 + z) / 64 % 64 = y by omega, show ((x * 64 + y) * 64 + z) % 64 = z by omega]

theorem encodeChar_four {x y z w : Nat} (hx : x < 5) (hy : y < 64) (hz : z < 64) (hw : w < 64)
    (hl : x = 0 → 16 ≤ y) (hh : x = 4 → y < 16) :
    String.utf8EncodeChar (Char.ofNat (((x * 64 + y) * 64 + z) * 64 + w)) =
      [UInt8.ofNat (x + 0xF0), UInt8.ofNat (y + 128), UInt8.ofNat (z + 128), UInt8.ofNat (w + 128)] := by
  have hvalid : (((x * 64 + y) * 64 + z) * 64 + w).isValidChar := by
    unfold Nat.isValidChar
    omega
  unfold String.utf8EncodeChar
  simp only [val_ofNat hvalid]
  rw [if_neg (by omega), if_neg (by omega), if_neg (by omega),
    show (((x * 64 + y) * 64 + z) * 64 + w) / 262144 % 8 = x by omega,
    show (((x * 64 + y) * 64 + z) * 64 + w) / 4096 % 64 = y by omega,
    show (((x * 64 + y) * 64 + z) * 64 + w) / 64 % 64 = z by omega,
    show (((x * 64 + y) * 64 + z) * 64 + w) % 64 = w by omega]

/-- A character was begun with the bytes `front`: whatever finishes it, they are the first bytes of its
encoding. -/
def Begun (front : List UInt8) (p : Pending) : Prop :=
  ∀ bytes cs, decodeFrom (some p) bytes = some cs → ∃ c cs' more rest, cs = c :: cs' ∧ bytes = more ++ rest ∧
    String.utf8EncodeChar c = front ++ more ∧ decodeFrom none rest = some cs'

/-- A byte that is permitted next is a continuation byte. -/
theorem next_cases {k low high acc : Nat} {b : UInt8} (hl : 128 ≤ low) (hh : high < 192)
    (h : (Pending.mk k low high acc).next b ≠ .refused) :
    ∃ x, x < 64 ∧ low ≤ x + 128 ∧ x + 128 ≤ high ∧ b = UInt8.ofNat (x + 128) := by
  unfold Pending.next at h
  by_cases hb : low ≤ b.toNat ∧ b.toNat ≤ high
  · refine ⟨b.toNat - 128, by omega, by omega, by omega, ?_⟩
    rw [Nat.sub_add_cancel (by omega), UInt8.ofNat_toNat]
  · exact absurd (if_neg hb) h

/-- One byte is owed. -/
theorem begun_last {front : List UInt8} {low high acc : Nat} (hl : 128 ≤ low) (hh : high < 192)
    (h : ∀ x, x < 64 → low ≤ x + 128 → x + 128 ≤ high →
      String.utf8EncodeChar (Char.ofNat (acc * 64 + x)) = front ++ [UInt8.ofNat (x + 128)]) :
    Begun front ⟨0, low, high, acc⟩ := by
  intro bytes cs hd
  cases bytes with
  | nil => exact absurd hd (by simp [decodeFrom])
  | cons b bytes =>
    by_cases hb : (Pending.mk 0 low high acc).next b = .refused
    · rw [decodeFrom, Option.elim_some, hb] at hd
      exact absurd hd (by simp)
    · obtain ⟨x, hx, hlow, hhigh, rfl⟩ := next_cases hl hh hb
      rw [decodeFrom_last (next_last hx hlow hhigh)] at hd
      obtain ⟨cs', hrest, rfl⟩ := Option.map_eq_some_iff.1 hd
      exact ⟨_, cs', [_], bytes, rfl, rfl, h x hx hlow hhigh, hrest⟩

/-- More than one byte is owed. -/
theorem begun_more {front : List UInt8} {k low high acc : Nat} (hl : 128 ≤ low) (hh : high < 192)
    (h : ∀ x, x < 64 → low ≤ x + 128 → x + 128 ≤ high →
      Begun (front ++ [UInt8.ofNat (x + 128)]) ⟨k, 0x80, 0xBF, acc * 64 + x⟩) :
    Begun front ⟨k + 1, low, high, acc⟩ := by
  intro bytes cs hd
  cases bytes with
  | nil => exact absurd hd (by simp [decodeFrom])
  | cons b bytes =>
    by_cases hb : (Pending.mk (k + 1) low high acc).next b = .refused
    · rw [decodeFrom, Option.elim_some, hb] at hd
      exact absurd hd (by simp)
    · obtain ⟨x, hx, hlow, hhigh, rfl⟩ := next_cases hl hh hb
      rw [decodeFrom_more (next_more hx hlow hhigh)] at hd
      obtain ⟨c, cs', more, rest, rfl, rfl, hc, hrest⟩ := h x hx hlow hhigh bytes cs hd
      exact ⟨c, cs', _ :: more, rest, rfl, rfl, by rw [hc, List.append_assoc]; rfl, hrest⟩

theorem begun_two {x : Nat} (hl : 2 ≤ x) (hh : x < 32) :
    Begun [UInt8.ofNat (x + 0xC0)] ⟨0, 0x80, 0xBF, x⟩ :=
  begun_last (by decide) (by decide) fun y hy _ _ => encodeChar_two hl hh hy

theorem begun_three {x low high : Nat} (hx : x < 16) (hl : low = if x = 0 then 0xA0 else 0x80)
    (hh : high = if x = 13 then 0x9F else 0xBF) : Begun [UInt8.ofNat (x + 0xE0)] ⟨1, low, high, x⟩ := by
  refine begun_more (by split at hl <;> omega) (by split at hh <;> omega) fun y hy hlow hhigh =>
    begun_last (by decide) (by decide) fun z hz _ _ => encodeChar_three hx hy hz (fun h => ?_) fun h => ?_
  · rw [if_pos h] at hl
    omega
  · rw [if_pos h] at hh
    omega

theorem begun_four {x low high : Nat} (hx : x < 5) (hl : low = if x = 0 then 0x90 else 0x80)
    (hh : high = if x = 4 then 0x8F else 0xBF) : Begun [UInt8.ofNat (x + 0xF0)] ⟨2, low, high, x⟩ := by
  refine begun_more (by split at hl <;> omega) (by split at hh <;> omega) fun y hy hlow hhigh =>
    begun_more (by decide) (by decide) fun z hz _ _ =>
      begun_last (by decide) (by decide) fun w hw _ _ =>
        encodeChar_four hx hy hz hw (fun h => ?_) fun h => ?_
  · rw [if_pos h] at hl
    omega
  · rw [if_pos h] at hh
    omega

/-- The bytes that begin characters: those of one byte, and the lead bytes of two, three and four bytes. -/
theorem lead_cases (b : UInt8) : (∃ n, n < 0x80 ∧ b = UInt8.ofNat n) ∨ begin b = .refused ∨
    (∃ x, 2 ≤ x ∧ x < 32 ∧ b = UInt8.ofNat (x + 0xC0)) ∨ (∃ x, x < 16 ∧ b = UInt8.ofNat (x + 0xE0)) ∨
    ∃ x, x < 5 ∧ b = UInt8.ofNat (x + 0xF0) := by
  have hb := b.toNat_lt
  have hback : ∀ k ≤ b.toNat, b = UInt8.ofNat (b.toNat - k + k) := fun k hk => by
    rw [Nat.sub_add_cancel hk, UInt8.ofNat_toNat]
  by_cases h₁ : b.toNat < 0x80
  · exact .inl ⟨b.toNat, h₁, UInt8.ofNat_toNat.symm⟩
  by_cases h₂ : b.toNat < 0xC2
  · refine .inr (.inl ?_)
    unfold begin
    simp only
    rw [if_neg h₁, if_pos h₂]
  by_cases h₃ : b.toNat < 0xE0
  · exact .inr (.inr (.inl ⟨_, by omega, by omega, hback 0xC0 (by omega)⟩))
  by_cases h₄ : b.toNat < 0xF0
  · exact .inr (.inr (.inr (.inl ⟨_, by omega, hback 0xE0 (by omega)⟩)))
  by_cases h₅ : b.toNat < 0xF5
  · exact .inr (.inr (.inr (.inr ⟨_, by omega, hback 0xF0 (by omega)⟩)))
  · refine .inr (.inl ?_)
    unfold begin
    simp only
    rw [if_neg h₁, if_neg h₂, if_neg h₃, if_neg (by omega), if_neg (by omega), if_neg (by omega),
      if_neg (by omega), if_neg (by omega), if_neg (by omega)]

/-- The first byte of a character begins it, or is all of it. -/
theorem begin_cases {b : UInt8} {bytes : List UInt8} {cs : List Char} (h : decodeFrom none (b :: bytes) = some cs) :
    ∃ c cs' more rest, cs = c :: cs' ∧ bytes = more ++ rest ∧ String.utf8EncodeChar c = b :: more ∧
      decodeFrom none rest = some cs' := by
  obtain ⟨n, hn, rfl⟩ | hb | ⟨x, hl, hh, rfl⟩ | ⟨x, hx, rfl⟩ | ⟨x, hx, rfl⟩ := lead_cases b
  · have hbegin : begin (UInt8.ofNat n) = .char (Char.ofNat n) := by
      unfold begin
      simp only [toNat_ofNat (show n < 256 by omega)]
      rw [if_pos hn]
    rw [decodeFrom, Option.elim_none, hbegin] at h
    obtain ⟨cs', hrest, rfl⟩ := Option.map_eq_some_iff.1 h
    exact ⟨_, cs', [], bytes, rfl, rfl, encodeChar_one hn, hrest⟩
  · rw [decodeFrom, Option.elim_none, hb] at h
    exact absurd h (by simp)
  · rw [decodeFrom_begin (begin_two hl hh)] at h
    exact begun_two hl hh bytes cs h
  · obtain ⟨low, high, hbegin, hlow, hhigh⟩ := begin_three hx
    rw [decodeFrom_begin hbegin] at h
    exact begun_three hx hlow hhigh bytes cs h
  · obtain ⟨low, high, hbegin, hlow, hhigh⟩ := begin_four hx
    rw [decodeFrom_begin hbegin] at h
    exact begun_four hx hlow hhigh bytes cs h

theorem encodeChars_decodeFrom {bytes : List UInt8} {cs : List Char} (h : decodeFrom none bytes = some cs) :
    cs.flatMap String.utf8EncodeChar = bytes := by
  induction cs generalizing bytes with
  | nil =>
    cases bytes with
    | nil => rfl
    | cons b bytes =>
      obtain ⟨_, _, _, _, hcs, -⟩ := begin_cases h
      exact absurd hcs (by simp)
  | cons c cs ih =>
    cases bytes with
    | nil => exact absurd h (by simp [decodeFrom])
    | cons b bytes =>
      obtain ⟨_, _, more, rest, hcs, rfl, hc, hrest⟩ := begin_cases h
      obtain ⟨rfl, rfl⟩ := List.cons.inj hcs
      rw [List.flatMap_cons, hc, ih hrest]
      rfl

/-- **Well-formed bytes are the encoding of the text that they decode to.** -/
theorem encode_decode {bytes : List UInt8} {s : String} (h : decode bytes = some s) : encode s = bytes := by
  obtain ⟨cs, hcs, rfl⟩ := Option.map_eq_some_iff.1 h
  unfold encode
  rw [String.toList_ofList]
  exact encodeChars_decodeFrom hcs

end Bindgen.Text.Utf8
