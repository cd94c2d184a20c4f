/-!
# Layout of boundary structs

The three structs of the boundary, and where their fields lie in memory under natural alignment: each field
at the next multiple of its alignment, the whole padded to a multiple of the largest one. A struct may have
another one as a field, and the size of a pointer is a parameter (`word`). That one is positive where it means
something; the arithmetic goes through for any integer but zero.
-/

namespace Bindgen.Boundary

/-- The kinds of scalar fields. -/
inductive Scalar where
  | i8 | i16 | i32 | i64 | ptr
  deriving DecidableEq, Repr

/-- The word for a scalar kind. -/
def Scalar.text : Scalar → String
  | i8 => "i8" | i16 => "i16" | i32 => "i32" | i64 => "i64" | ptr => "ptr"

/-- The size of a scalar, which is its alignment too. -/
def Scalar.size (word : Int) : Scalar → Int
  | i8 => 1 | i16 => 2 | i32 => 4 | i64 => 8 | ptr => word

/-- The structs of the boundary. -/
inductive StructName where
  | bufferRecord
  | byteView
  | errorRecord
  deriving DecidableEq, Repr

/-- The name of a struct in generated code. -/
def StructName.text : StructName → String
  | bufferRecord => "BufferRecord"
  | byteView => "ByteView"
  | errorRecord => "ErrorRecord"

/-- All structs, each after those it contains. -/
def StructName.all : List StructName := [.bufferRecord, .byteView, .errorRecord]

/-- What a field holds. -/
inductive FieldKind where
  | scalar (s : Scalar)
  | struct (name : StructName)
  deriving DecidableEq, Repr

/-- The word for a field kind. -/
def FieldKind.text : FieldKind → String
  | scalar s => s.text
  | struct n => n.text

/-- The field kind that a word stands for. -/
def FieldKind.ofText? (word : String) : Option FieldKind :=
  match [Scalar.i8, .i16, .i32, .i64, .ptr].find? (·.text == word) with
  | some s => some (.scalar s)
  | none => (StructName.all.find? (·.text == word)).map .struct

/-- A field of a struct. -/
structure StructField where
  name : String
  kind : FieldKind
  deriving DecidableEq, Repr

/-- The fields of a buffer: how much it can hold, how much it holds, and where. -/
def bufferRecordFields : List StructField :=
  [⟨"capacity", .scalar .i32⟩, ⟨"len", .scalar .i32⟩, ⟨"data", .scalar .ptr⟩,
   ⟨"padding", .scalar .i64⟩]

/-- The fields of a borrowed view. -/
def byteViewFields : List StructField :=
  [⟨"len", .scalar .i32⟩, ⟨"data", .scalar .ptr⟩, ⟨"padding", .scalar .i64⟩,
   ⟨"padding2", .scalar .i32⟩]

/-- The fields of an error record: a code and a message. -/
def errorRecordFields : List StructField :=
  [⟨"code", .scalar .i32⟩, ⟨"message", .struct .bufferRecord⟩]

/-- The fields of a struct. -/
def StructName.fields : StructName → List StructField
  | bufferRecord => bufferRecordFields
  | byteView => byteViewFields
  | errorRecord => errorRecordFields

/-- The least multiple of a positive `alignment` that is not below `offset`. -/
def alignUp (offset alignment : Int) : Int :=
  (offset + alignment - 1).fdiv alignment * alignment

/-- Size and alignment of a field. -/
structure Extent where
  size : Int
  alignment : Int
  deriving DecidableEq, Repr

/-- The offsets of fields with given extents, the first of which may begin at `start`, and the end of the
last. -/
def placeFrom (start : Int) : List Extent → List Int × Int
  | [] => ([], start)
  | e :: es =>
    let offset := alignUp start e.alignment
    let (offsets, stop) := placeFrom (offset + e.size) es
    (offset :: offsets, stop)

/-- The largest alignment of some fields. -/
def maxAlignment : List Extent → Int
  | [] => 0
  | e :: es => es.foldl (fun a e => max a e.alignment) e.alignment

/-- The extent of a struct whose fields have given extents. -/
def Extent.ofFields (es : List Extent) : Extent :=
  ⟨alignUp (placeFrom 0 es).2 (maxAlignment es), maxAlignment es⟩

/-- The extent of a scalar. -/
def Scalar.extent (word : Int) (s : Scalar) : Extent :=
  ⟨s.size word, s.size word⟩

/-- The extent of a field in which structs are nested at most `depth` deep. -/
def FieldKind.extentWithin (word : Int) : Nat → FieldKind → Extent
  | _, .scalar s => s.extent word
  | 0, .struct _ => ⟨0, 1⟩
  | depth + 1, .struct n => .ofFields (n.fields.map fun f => f.kind.extentWithin word depth)

/-- The extent of a field. Structs are nested at most two deep, which `extent_struct` confirms. -/
def FieldKind.extent (word : Int) (kind : FieldKind) : Extent :=
  kind.extentWithin word 2

@[simp] theorem FieldKind.extent_scalar (word : Int) (s : Scalar) :
    FieldKind.extent word (.scalar s) = s.extent word := rfl

theorem FieldKind.extent_struct (word : Int) (n : StructName) :
    FieldKind.extent word (.struct n) = .ofFields (n.fields.map fun f => f.kind.extent word) := by
  cases n <;> rfl

/-- The offset of every field. A repeated name keeps its first place and takes its last offset. -/
def fieldOffsets (word : Int) (fields : List StructField) : List (String × Int) :=
  let offsets := (placeFrom 0 (fields.map (·.kind.extent word))).1
  ((fields.map (·.name)).zip offsets).foldl (fun acc (name, offset) => assign name offset acc) []
where
  /-- Sets the offset of a name. -/
  assign (name : String) (offset : Int) : List (String × Int) → List (String × Int)
    | [] => [(name, offset)]
    | (n, o) :: rest => if n = name then (n, offset) :: rest else (n, o) :: assign name offset rest

/-- The alignment of a struct: the largest of its fields. -/
def structAlignment (word : Int) (fields : List StructField) : Int :=
  maxAlignment (fields.map (·.kind.extent word))

/-- The size of a struct: the end of its last field, padded to the alignment. -/
def structSize (word : Int) (fields : List StructField) : Int :=
  (Extent.ofFields (fields.map (·.kind.extent word))).size

/-- The layout of a struct. -/
structure Layout where
  offsets : List (String × Int)
  size : Int
  alignment : Int
  deriving DecidableEq, Repr

/-- Whether a field is a pointer or a struct; every struct has a pointer in it. -/
def FieldKind.hasPointer : FieldKind → Bool
  | scalar s => s == .ptr
  | struct _ => true

/-- The layout of a struct given by its fields; there is none for an empty struct, and none with pointers of
no size. -/
def Layout.ofFields? (word : Int) (fields : List StructField) : Option Layout :=
  if fields.isEmpty || (word == 0 && fields.any (·.kind.hasPointer)) then none
  else some ⟨fieldOffsets word fields, structSize word fields, structAlignment word fields⟩

/-- The layout of a struct given by the names and kinds of its fields. -/
def Layout.ofWords? (word : Int) (fields : List (String × String)) : Option Layout := do
  let fields ← fields.mapM fun (name, kind) => return StructField.mk name (← FieldKind.ofText? kind)
  ofFields? word fields

end Bindgen.Boundary
