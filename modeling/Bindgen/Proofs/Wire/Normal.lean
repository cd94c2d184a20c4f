import Bindgen.Proofs.Resolve.Reach
import Bindgen.Wire.Codec

/-!
# What comes back of a value

Not everything about a value is on the wire: a tuple comes back as a list, bytes that can be changed and views of
bytes as bytes that are neither, an error without its message and an object under no label. `normalTy` is the form
in which a value comes back. `sendableTy` says which of the accepted values come back at all: texts are texts, the
numbers of a view are bytes, real numbers are numbers and fit their format, whatever has a count in front has a
count that fits, keys are keys and differ, members are members of their enum, and objects are open. Keys have to
stay what they are, so maps have `PlainKeys`.

All of them follow the recursion of the converters: through the type, and through a definition with a bound
for the nesting.
-/

namespace Bindgen.Wire

open Interface Resolve FloatFormat

/-! ## Keys -/

/-- Whether the values of a type that can be keys stay the same keys. -/
def isKey (table : Table) : Ty → Bool
  | .prim _ | .string | .bytes => true
  | .optional t | .box t => isKey table t
  | .sequence _ | .map _ _ => false
  | .named name => match table.lookup name with
    | some (.enum c) => c.isFlat
    | _ => false

/-- Every map inside a type, or inside what it reaches, has keys that stay the same. -/
def PlainKeys (table : Table) (t : Ty) : Prop :=
  ∀ k w, Reaches table t (.map k w) → isKey table k = true

theorem PlainKeys.child {table : Table} {t s : Ty} (h : PlainKeys table t) (hs : s ∈ t.children) :
    PlainKeys table s :=
  fun k w hr => h k w (hr.child hs)

theorem PlainKeys.field {table : Table} {name : String} {d : Definition} {f : Field}
    (h : PlainKeys table (.named name)) (hd : table.lookup name = some d) (hf : f ∈ d.fields) :
    PlainKeys table f.type :=
  fun k w hr => h k w (hr.field hd hf)

/-- Whether a type is no map, or one with keys that stay the same. -/
def hasPlainKeys (table : Table) : Ty → Bool
  | .map k _ => isKey table k
  | _ => true

theorem plainKeys_of_closed {table : Table} {ts : List Ty} (hc : ∀ t ∈ ts, ∀ s ∈ usesOf table t, s ∈ ts)
    (hk : ∀ t ∈ ts, hasPlainKeys table t = true) {t : Ty} (ht : t ∈ ts) : PlainKeys table t :=
  fun k w h => hk (.map k w) (h.mem_of_closed hc ht)

/-- Some values are keys, and no two of them are one. -/
structure DistinctKeys (s : Schema) (keys : List Value) : Prop where
  hashable : ∀ k ∈ keys, k.unhashable? s = none
  distinct : keys.Pairwise fun a b => a.same b = false

/-! ## Values that come back -/

/-- The first count that does not fit in front of what is counted. -/
def countBound : Nat := twoPow 31

/-- The first handle that does not fit. -/
def handleBound : Nat := twoPow 64

/-- Whether a value of a primitive comes back: a real number has to be one, and one of its format. -/
def sendablePrim : Prim → Value → Prop
  | .f32, v => ∃ bits : UInt64, v = .real bits ∧
    ∃ b < twoPow 32, binary32.isNaN b = false ∧ widen b = bits.toNat
  | .f64, v => ∃ bits : UInt64, v = .real bits ∧ binary64.isNaN bits.toNat = false
  | _, _ => True

/-- Whether an accepted value of a type comes back; `named` says it for one of a definition. -/
def sendableTy (s : Schema) (named : String → Value → Prop) : Ty → Value → Prop
  | .prim p, v => sendablePrim p v
  | .string, v => match v with
    | .text t => (Text.Utf8.encode t).length < countBound
    | .broken _ => False
    | _ => True
  | .bytes, v => match v with
    | .bytes b | .byteArray b => b.length < countBound
    | .view w => w.isPlain = true ∧ w.bytes.length < countBound
    | _ => True
  | .optional t, v => match v with
    | .none => True
    | v => sendableTy s named t v
  | .sequence t, v => match v.items? with
    | some items => items.length < countBound ∧ ∀ x ∈ items, sendableTy s named t x
    | none => True
  | .map k w, v => match v with
    | .map entries => entries.length < countBound ∧ DistinctKeys s (entries.map (·.1)) ∧
      ∀ p ∈ entries, sendableTy s named k p.1 ∧ sendableTy s named w p.2
    | _ => True
  | .box t, v => sendableTy s named t v
  | .named name, v => named name v

/-- The value of a field where there is one. -/
def fieldValue (s : Schema) (v : Value) (f : Field) : Value := (v.attr? s (fieldName f)).getD .none

/-- Whether an accepted value of a definition comes back. -/
def sendableNamed (s : Schema) : Nat → String → Value → Prop
  | 0, _, _ => True
  | limit + 1, name, v =>
    let fields (fs : List Field) : Prop :=
      ∀ f ∈ fs, sendableTy s (sendableNamed s limit) f.type (fieldValue s v f)
    let choice (c : Choice) : Prop := c.variants.length < countBound ∧
      match v.variantOf? c with
      | some i => fields ((c.variants[i]?.map (·.fields)).getD [])
      | none => True
    match s.table.lookup name with
    | some (.record r) => fields r.fields
    | some (.enum c) =>
      if c.isFlat then c.variants.length < countBound ∧
        match v with
        | .member _ index => index < c.variants.length
        | _ => True
      else choice c
    | some (.error c) => choice c
    | some (.object _) => match v with
      | .object _ (some (.int h)) _ => 0 < h ∧ h < handleBound
      | .object _ _ _ => False
      | _ => True
    | none => True

/-! ## Normal forms -/

/-- How a value of a type comes back; `named` says it for one of a definition. -/
def normalTy (named : String → Value → Value) : Ty → Value → Value
  | .prim _, v => v
  | .string, v => v
  | .bytes, v => match v with
    | .byteArray b => .bytes b
    | .view w => .bytes w.bytes
    | v => v
  | .optional t, v => match v with
    | .none => .none
    | v => normalTy named t v
  | .sequence t, v => .list ((v.items?.getD []).map (normalTy named t))
  | .map k w, v => match v with
    | .map entries => .map (entries.map fun p => (normalTy named k p.1, normalTy named w p.2))
    | v => v
  | .box t, v => normalTy named t v
  | .named name, v => named name v

/-- How a value of a definition comes back. -/
def normalNamed (s : Schema) : Nat → String → Value → Value
  | 0, _, v => v
  | limit + 1, name, v =>
    let fields (fs : List Field) : List (String × Value) := fs.map fun f =>
      (fieldName f, normalTy (normalNamed s limit) f.type (fieldValue s v f))
    let choice (c : Choice) (make : ClassRef → Nat → List (String × Value) → Value) : Value :=
      match v.variantOf? c with
      | some i => make ⟨c.name, some i⟩ i (fields ((c.variants[i]?.map (·.fields)).getD []))
      | none => v
    match s.table.lookup name with
    | some (.record r) => .instance ⟨r.name, none⟩ (fields r.fields)
    | some (.enum c) => if c.isFlat then v else choice c fun cls _ given => .instance cls given
    | some (.error c) =>
      choice c fun cls i given => .failure cls (i + firstVariant) "" given
    | some (.object o) => match v with
      | .object _ handle _ => .object ⟨o.name, []⟩ handle none
      | v => v
    | none => v

namespace Converter

/-- Whether an accepted value comes back. -/
def Sendable (c : Converter) (v : Value) : Prop :=
  sendableTy c.schema (sendableNamed c.schema c.limit) c.type v

/-- How a value comes back. -/
def normal (c : Converter) (v : Value) : Value :=
  normalTy (normalNamed c.schema c.limit) c.type v

end Converter

end Bindgen.Wire
