/-!
# UTF-8

`encode` writes a text as UTF-8. `decode` reads it back and refuses every ill-formed sequence;
`decodeLossy` reads any bytes and puts U+FFFD for each maximal ill-formed subpart. Both run one machine,
a byte at a time: `Pending` says how many continuation bytes are owed and which byte may come next.
-/

namespace Bindgen.Text.Utf8

/-- The UTF-8 form of a text. -/
def encode (s : String) : List UInt8 :=
  s.toList.flatMap String.utf8EncodeChar

/-- A character begun and not finished: `owed + 1` continuation bytes are still to come, the next one in
`low … high`, and `acc` holds the bits read so far. -/
structure Pending where
  /-- Continuation bytes owed after the next one. -/
  owed : Nat
  /-- Least next byte. -/
  low : Nat
  /-- Greatest next byte. -/
  high : Nat
  /-- Bits read so far. -/
  acc : Nat
  deriving DecidableEq, Repr

/-- What one byte does: finish a character, leave one unfinished, or fit nowhere. -/
inductive Step where
  | char (c : Char)
  | more (p : Pending)
  | refused
  deriving DecidableEq, Repr

/-- A byte that begins a character. -/
def begin (b : UInt8) : Step :=
  let n := b.toNat
  if n < 0x80 then .char (Char.ofNat n)
  else if n < 0xC2 then .refused
  else if n < 0xE0 then .more ⟨0, 0x80, 0xBF, n - 0xC0⟩
  else if n = 0xE0 then .more ⟨1, 0xA0, 0xBF, 0⟩
  else if n = 0xED then .more ⟨1, 0x80, 0x9F, 0xD⟩
  else if n < 0xF0 then .more ⟨1, 0x80, 0xBF, n - 0xE0⟩
  else if n = 0xF0 then .more ⟨2, 0x90, 0xBF, 0⟩
  else if n < 0xF4 then .more ⟨2, 0x80, 0xBF, n - 0xF0⟩
  else if n = 0xF4 then .more ⟨2, 0x80, 0x8F, 4⟩
  else .refused

/-- A byte that goes on with a character. -/
def Pending.next (p : Pending) (b : UInt8) : Step :=
  let n := b.toNat
  if p.low ≤ n ∧ n ≤ p.high then
    let acc := p.acc * 64 + (n - 0x80)
    match p.owed with
    | 0 => .char (Char.ofNat acc)
    | k + 1 => .more ⟨k, 0x80, 0xBF, acc⟩
  else .refused

/-- The characters of `bytes` after the unfinished character `p`, if they are well formed. -/
def decodeFrom : Option Pending → List UInt8 → Option (List Char)
  | none, [] => some []
  | some _, [] => none
  | p, b :: bytes =>
    match p.elim (begin b) (·.next b) with
    | .char c => (decodeFrom none bytes).map (c :: ·)
    | .more q => decodeFrom (some q) bytes
    | .refused => none

/-- The text that `bytes` encode, if they are well-formed UTF-8. -/
def decode (bytes : List UInt8) : Option String :=
  (decodeFrom none bytes).map String.ofList

/-- The character that stands for what cannot be decoded. -/
def replacement : Char := '\uFFFD'

/-- The characters of `bytes` after the unfinished character `p`; what fits nowhere becomes U+FFFD, and a
byte that cuts a character short is read again as the first of the next. -/
def decodeLossyFrom : Option Pending → List UInt8 → List Char
  | none, [] => []
  | some _, [] => [replacement]
  | none, b :: bytes =>
    match begin b with
    | .char c => c :: decodeLossyFrom none bytes
    | .more q => decodeLossyFrom (some q) bytes
    | .refused => replacement :: decodeLossyFrom none bytes
  | some p, b :: bytes =>
    match p.next b with
    | .char c => c :: decodeLossyFrom none bytes
    | .more q => decodeLossyFrom (some q) bytes
    | .refused =>
      match begin b with
      | .char c => replacement :: c :: decodeLossyFrom none bytes
      | .more q => replacement :: decodeLossyFrom (some q) bytes
      | .refused => replacement :: replacement :: decodeLossyFrom none bytes

/-- The text of `bytes`, with U+FFFD for each maximal ill-formed subpart. -/
def decodeLossy (bytes : List UInt8) : String :=
  String.ofList (decodeLossyFrom none bytes)

end Bindgen.Text.Utf8
