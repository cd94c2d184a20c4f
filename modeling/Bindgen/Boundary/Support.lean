import Bindgen.Boundary.Codes
import Bindgen.Boundary.Shape

/-!
# Support functions of the boundary

Every native library exports three functions that manage buffers. Variants and members are numbered as they are
in error records and in the encoding of values.
-/

namespace Bindgen.Boundary

/-- Variants, members and the like with their numbers. -/
def numbered (xs : List α) : List (Nat × α) :=
  (List.range' firstVariant xs.length).zip xs

/-- The symbol that allocates a buffer. -/
def bufferAllocName (ns : String) : String := s!"ffi_{ns}_buffer_alloc"

/-- The symbol that copies bytes into a native buffer. -/
def bufferFromBytesName (ns : String) : String := s!"ffi_{ns}_buffer_from_bytes"

/-- The symbol that frees a buffer. -/
def bufferFreeName (ns : String) : String := s!"ffi_{ns}_buffer_free"

/-- The support functions, which come before everything else. -/
def supportFunctions (ns : String) : List Signature :=
  [⟨bufferAllocName ns, [⟨"size", .int32, .borrowed⟩], some .buffer, none, none, none⟩,
   ⟨bufferFromBytesName ns, [⟨"bytes", .byteView, .borrowed⟩], some .buffer, none, none, none⟩,
   ⟨bufferFreeName ns, [⟨"buf", .buffer, .transferred⟩], none, none, none, none⟩]

end Bindgen.Boundary
