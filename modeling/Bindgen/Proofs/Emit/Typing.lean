import Bindgen.Proofs.Emit.Blocks

/-!
# Types of Kotlin expressions

The wrappers in Kotlin bring values across the boundary by functions of the support code, by members of the
converters of objects, and by the members that numbers have. `Typed` gives types to such expressions. It has a rule
for each way to make one, and the functions that it knows are those that the generated file declares under these
heads (`crossings_declared`, `handle_declared`, `objectMembers_declared`).

Where a parameter has the type that it is declared with, what it is lowered to has the type that stands for its shape
in the declaration of the symbol; and what is returned with the type that stands for a shape is lifted to the declared
type.

Results:
* `crossings_declared`, `handle_declared`, `objectMembers_declared`: the functions are declared.
* `lowerExpr_typed`, `slotExpr_typed`: what is passed.
* `liftExpr_typed`, `returned_typed`, `constructed_typed`: what is returned.
-/

namespace Bindgen.Emit.KotlinSource

open Interface Boundary Resolve

/-! ## What the generated file declares -/

/-- The head of a function: its parameters with their types, and the type of its result. -/
structure Head where
  name : String
  params : List (String × String)
  result : String

/-- The text of a head. -/
def Head.text (h : Head) : String :=
  h.name ++ "(" ++ ", ".intercalate (h.params.map fun p => p.1 ++ ": " ++ p.2) ++ "): " ++ h.result

/-- The text of a call. -/
def Head.call (h : Head) (args : List String) : String := h.name ++ "(" ++ ", ".intercalate args ++ ")"

/-- The type of the converter of a type. -/
def converterType (type : String) : String := "FfiConverter<" ++ type ++ ">"

/-- The type of buffers. -/
def bufferType : String := "BufferRecord.ByValue"

/-! The heads of functions of the support code. -/

def lowerBooleanHead : Head := ⟨"lowerBoolean", [("value", "Boolean")], "Byte"⟩

def liftBooleanHead : Head := ⟨"liftBoolean", [("value", "Byte")], "Boolean"⟩

def checkHandleHead : Head := ⟨"checkHandle", [("handle", "Long")], "Long"⟩

def requireHandleHead : Head := ⟨"requireHandle", [], "Long"⟩

def lowerBorrowedHead (type : String) : Head :=
  ⟨"lowerBorrowed", [("converter", converterType type), ("value", type)], bufferType⟩

def lowerOwnedHead (type : String) : Head :=
  ⟨"lowerOwned", [("converter", converterType type), ("value", type)], bufferType⟩

def liftBufferHead (type : String) : Head :=
  ⟨"liftBuffer", [("converter", converterType type), ("buf", bufferType)], type⟩

/-- **The functions by which values of a type cross the boundary.** -/
def crossings (type : String) : List Head :=
  [lowerBooleanHead, liftBooleanHead, checkHandleHead, lowerBorrowedHead type, lowerOwnedHead type,
   liftBufferHead type]

/-- **The members by which the objects of a class cross the boundary.** -/
def objectMembers (name : String) : List Head :=
  [⟨"lower", [("value", name)], "Long"⟩, ⟨"lift", [("handle", "Long")], name⟩]

/-- The members of numbers that convert them. -/
def numberMembers : List (String × String × String) :=
  [("UByte", ".toByte()", "Byte"), ("Byte", ".toUByte()", "UByte"),
   ("UShort", ".toShort()", "Short"), ("Short", ".toUShort()", "UShort"),
   ("UInt", ".toInt()", "Int"), ("Int", ".toUInt()", "UInt"),
   ("ULong", ".toLong()", "Long"), ("Long", ".toULong()", "ULong")]

/-- A head stands in one of some lines. -/
def HasHead (lines : List Code) (h : Head) : Prop :=
  ∃ line ∈ lines, ∃ before after, line.textWith converter = before ++ h.text ++ after

theorem HasHead.mono {lines more : List Code} {h : Head} (hd : HasHead lines h) (hsub : lines ⊆ more) :
    HasHead more h :=
  hd.imp fun _ hline => ⟨hsub hline.1, hline.2⟩

/-- What is declared with a body has its head in front of it. -/
theorem hasHead_braced {head : String} {body : List Code} {h : Head} (before after : String)
    (heq : head = before ++ h.text ++ after) : HasHead (braced head body) h :=
  ⟨head ++ " \x7b", List.mem_append_left _ (List.mem_append_left _ (List.mem_singleton_self _)), before,
    after ++ " \x7b", by rw [← String.append_assoc, ← heq]; rfl⟩

/-- What a body between braces has in it is moved to the right. -/
theorem mem_braced {head line : Code} {body : List Code} (h : line ∈ body) : line.indent 4 ∈ braced head body :=
  List.mem_append_left _ (List.mem_append_right _ (List.mem_map_of_mem h))

/-- A head in a line that is moved as a whole. -/
theorem hasHead_moved {lines : List Code} {n : ℕ} {line : Code} {h : Head} (before after : String)
    (hmoved : line.indent n = if line.isEmpty then line else blanks n ++ line) (hline : line.indent n ∈ lines)
    (heq : line.textWith converter = before ++ h.text ++ after) : HasHead lines h := by
  refine ⟨_, hline, ?_⟩
  rw [hmoved]
  split
  · exact ⟨before, after, heq⟩
  · refine ⟨blanks n ++ before, after, ?_⟩
    change blanks n ++ line.textWith converter = _
    rw [heq]
    simp only [String.append_assoc]

/-- **The support code declares** the functions by which values cross the boundary, for any type `T`. -/
theorem crossings_declared (lib fromBytes free : String) :
    ∀ h ∈ crossings "T", HasHead (KotlinSupport.functions lib fromBytes free) h := by
  have hpart {lines : List Code} {h : Head} (hlines : lines ∈ [KotlinSupport.lowerBoolean, KotlinSupport.liftBoolean,
      KotlinSupport.checkHandle, KotlinSupport.lowerBorrowed, KotlinSupport.lowerOwned lib fromBytes,
      KotlinSupport.liftBuffer]) (hd : HasHead lines h) :
      HasHead (KotlinSupport.functions lib fromBytes free) h := by
    refine hd.mono fun line hline => List.mem_flatMap.2 ⟨lines, ?_, List.mem_append_left _ hline⟩
    simp only [List.mem_cons, List.not_mem_nil, or_false] at hlines ⊢
    tauto
  have hlowerBoolean : HasHead KotlinSupport.lowerBoolean lowerBooleanHead :=
    ⟨_, List.mem_singleton_self _, "internal fun ", " = if (value) 1 else 0", by decide +kernel⟩
  have hliftBoolean : HasHead KotlinSupport.liftBoolean liftBooleanHead :=
    hasHead_braced "internal fun " " = when (value.toInt())" (by decide +kernel)
  have hcheckHandle : HasHead KotlinSupport.checkHandle checkHandleHead :=
    hasHead_braced "internal fun " "" (by decide +kernel)
  have hlowerBorrowed : HasHead KotlinSupport.lowerBorrowed (lowerBorrowedHead "T") :=
    hasHead_braced "internal fun <T> " "" (by decide +kernel)
  have hlowerOwned : HasHead (KotlinSupport.lowerOwned lib fromBytes) (lowerOwnedHead "T") :=
    hasHead_braced "internal fun <T> " "" (by decide +kernel)
  have hliftBuffer : HasHead KotlinSupport.liftBuffer (liftBufferHead "T") :=
    hasHead_braced "internal fun <T> " "" (by decide +kernel)
  simp only [crossings, List.mem_cons, List.not_mem_nil, or_false]
  rintro h (rfl | rfl | rfl | rfl | rfl | rfl)
  · exact hpart (by simp) hlowerBoolean
  · exact hpart (by simp) hliftBoolean
  · exact hpart (by simp) hcheckHandle
  · exact hpart (by simp) hlowerBorrowed
  · exact hpart (by simp) hlowerOwned
  · exact hpart (by simp) hliftBuffer

/-- **The class of an object declares** what gives its handle. -/
theorem handle_declared (s : Surface) (o : Object) : HasHead (objectLines s o) requireHandleHead := by
  let line : Code := "internal fun requireHandle(): Long" ++ " \x7b"
  have hlifecycle : line ∈ lifecycleLines s o :=
    List.mem_append_left _ (List.mem_append_left _ (List.mem_append_left _ (List.mem_append_left _
      List.mem_cons_self)))
  have hline : line.indent 4 ∈ objectLines s o := by
    refine List.mem_append_left _ (List.mem_append_left _ (List.mem_append_right _ (List.mem_map_of_mem ?_)))
    exact List.mem_append_left _ (List.mem_append_left _ hlifecycle)
  exact hasHead_moved "internal fun " " \x7b" rfl hline (by decide +kernel)

/-- **The converter of an object declares** the members by which objects cross the boundary. -/
theorem objectMembers_declared (s : Surface) (o : Object) :
    ∀ h ∈ objectMembers o.name, HasHead (objectLines s o) h := by
  let lower : String := s!"fun lower(value: {o.name}): Long = value.requireHandle()"
  let lift : String := s!"fun lift(handle: Long): {o.name} = {o.name}(AtomicLong(checkHandle(handle)))"
  have hline {line : Code} (hextra : line ∈ [Code.text lower, "", lift]) : line.indent 4 ∈ objectLines s o := by
    refine List.mem_append_right _ (List.mem_append_left _ (mem_braced (List.mem_append_right _ ?_)))
    rw [if_neg (by simp)]
    exact List.mem_append_right _ hextra
  simp only [objectMembers, List.mem_cons, List.not_mem_nil, or_false]
  rintro h (rfl | rfl)
  · refine hasHead_moved "fun " " = value.requireHandle()" rfl (hline List.mem_cons_self) ?_
    refine String.toList_inj.1 ?_
    simp [Code.textWith, lower, Head.text, toString]
  · refine hasHead_moved "fun " (" = " ++ o.name ++ "(AtomicLong(checkHandle(handle)))") rfl
      (hline (List.mem_cons_of_mem _ (List.mem_cons_of_mem _ List.mem_cons_self))) ?_
    refine String.toList_inj.1 ?_
    simp [Code.textWith, lift, Head.text, toString]

/-! ## Types of expressions -/

/-- **The type of an expression**, by its text, where the types of some expressions are known. -/
inductive Typed (table : Table) (known : String → String → Prop) : String → String → Prop
  | known {e type : String} (h : known e type) : Typed table known e type
  | converterOf (t : Ty) : Typed table known (converter t) (converterType (typeName t))
  | parens {e type : String} (inner : Typed table known e type) : Typed table known ("(" ++ e ++ ")") type
  | member {e type suffix result : String} (of : Typed table known e type)
      (converts : (type, suffix, result) ∈ numberMembers) : Typed table known (e ++ suffix) result
  | call (type : String) {h : Head} {args : List String} (declared : h ∈ crossings type)
      (given : List.Forall₂ (Typed table known) args (h.params.map (·.2))) : Typed table known (h.call args) h.result
  | object {t : Ty} {name : String} {h : Head} {args : List String} (unbox : t.unbox = .named name)
      (isObject : table.isObject name = true) (declared : h ∈ objectMembers name)
      (given : List.Forall₂ (Typed table known) args (h.params.map (·.2))) :
      Typed table known (converter t ++ "." ++ h.call args) h.result

variable {table : Table} {known : String → String → Prop} {t : Ty} {p : Prim}

theorem typeName_unbox (t : Ty) : typeName t.unbox = typeName t := by
  induction t with
  | box t ih => exact ih
  | _ => rfl

theorem scalarCode_unbox (h : t.unbox = .prim p) : scalarCode t = some (primCode p) := by
  induction t with
  | prim q =>
    obtain rfl := Ty.prim.inj h
    rfl
  | box t ih => exact ih h
  | _ => exact absurd h (by simp [Ty.unbox])

/-- A number is lowered to one of the type that stands for its shape. -/
theorem number_lowered {e : String} (hp : p ≠ .bool) (h : Typed table known e (primCode p).type) :
    Typed table known (e ++ (primCode p).toNative) (Backend.kotlin.spelling (.ofPrim p)) := by
  cases p with
  | bool => exact absurd rfl hp
  | u8 | u16 | u32 | u64 => exact .member h (by decide)
  | i8 | i16 | i32 | i64 | f32 | f64 => exact (String.append_empty (s := e)).symm ▸ h

/-- What is passed as a number is lifted to one of its own type. -/
theorem number_lifted {e : String} (hp : p ≠ .bool) (h : Typed table known e (Backend.kotlin.spelling (.ofPrim p))) :
    Typed table known (if (primCode p).ofNative == "" then e else "(" ++ e ++ ")" ++ (primCode p).ofNative)
      (primCode p).type := by
  cases p with
  | bool => exact absurd rfl hp
  | u8 | u16 | u32 | u64 => exact .member (.parens h) (by decide)
  | i8 | i16 | i32 | i64 | f32 | f64 => exact h

/-! ## Texts of calls -/

theorem call_one (h : Head) (x : String) : h.call [x] = h.name ++ "(" ++ x ++ ")" := by simp [Head.call]

theorem call_two (h : Head) (x y : String) : h.call [x, y] = h.name ++ "(" ++ x ++ ", " ++ y ++ ")" := by
  simp [Head.call, String.append_assoc]

/-- A member of a converter that is called. -/
theorem member_call (name of x : String) (params : List (String × String)) (result : String) :
    name ++ ("." ++ of ++ "(") ++ x ++ ")" = name ++ "." ++ (Head.mk of params result).call [x] := by
  simp [call_one, String.append_assoc]

/-! ## What is passed and returned -/

/-- **What a value is lowered to** has the type that stands for the shape of its type. -/
theorem lowerExpr_typed {value : String} (h : Typed table known value (typeName t)) :
    Typed table known ((lowerExpr table t value).textWith converter) (Backend.kotlin.spelling (table.shapeOf t)) := by
  have hbuffer : Typed table known ((lowerBorrowedHead (typeName t)).call [converter t, value]) bufferType :=
    .call (typeName t) (by simp [crossings]) (.cons (.converterOf t) (.cons h .nil))
  rw [call_two] at hbuffer
  unfold lowerExpr
  cases crossing table t with
  | number hp unbox shape conversion =>
    rw [shape, conversion, scalarCode_unbox unbox]
    rw [← typeName_unbox, unbox] at h
    exact number_lowered hp h
  | boolean unbox shape conversion =>
    rw [shape, conversion]
    rw [← typeName_unbox, unbox] at h
    have hcall : Typed table known (lowerBooleanHead.call [value]) "Byte" :=
      .call "" (by simp [crossings]) (.cons h .nil)
    rw [call_one] at hcall
    exact hcall
  | @object name unbox isObject shape conversion =>
    rw [shape, conversion]
    rw [← typeName_unbox, unbox] at h
    have hcall : Typed table known (converter t ++ "." ++ (Head.mk "lower" [("value", name)] "Long").call [value])
        "Long" := .object unbox isObject List.mem_cons_self (.cons h .nil)
    rw [← member_call] at hcall
    exact hcall
  | raw shape conversion =>
    rw [shape, conversion]
    exact hbuffer
  | encoded shape conversion =>
    rw [shape, conversion]
    exact hbuffer

/-- **What a value is copied to** for a consumed buffer has the type of buffers. -/
theorem lowerOwned_typed {value : String} (h : Typed table known value (typeName t)) : Typed table known
    (("lowerOwned(" ++ Code.converter t ++ ", " ++ value ++ ")" : Code).textWith converter) bufferType := by
  have hcall : Typed table known ((lowerOwnedHead (typeName t)).call [converter t, value]) bufferType :=
    .call (typeName t) (by simp [crossings]) (.cons (.converterOf t) (.cons h .nil))
  rw [call_two] at hcall
  exact hcall

/-- **What is returned** with the type that stands for a shape is lifted to the type that is declared. -/
theorem liftExpr_typed {value : Code}
    (h : Typed table known (value.textWith converter) (Backend.kotlin.spelling (table.shapeOf t))) :
    Typed table known ((liftExpr table t value).textWith converter) (typeName t) := by
  have hbuffer (hshape : table.shapeOf t = .buffer) :
      Typed table known ((liftBufferHead (typeName t)).call [converter t, value.textWith converter]) (typeName t) := by
    rw [hshape] at h
    exact .call (typeName t) (by simp [crossings]) (.cons (.converterOf t) (.cons h .nil))
  unfold liftExpr
  cases crossing table t with
  | @number p hp unbox shape conversion =>
    rw [conversion, scalarCode_unbox unbox, ← typeName_unbox, unbox]
    rw [shape] at h
    have hlifted := number_lifted hp h
    dsimp only [Option.map_some, Option.getD_some]
    rw [apply_ite (Code.textWith converter)]
    exact hlifted
  | boolean unbox shape conversion =>
    rw [conversion, ← typeName_unbox, unbox]
    rw [shape] at h
    have hcall : Typed table known (liftBooleanHead.call [value.textWith converter]) "Boolean" :=
      .call "" (by simp [crossings]) (.cons h .nil)
    rw [call_one] at hcall
    exact hcall
  | @object name unbox isObject shape conversion =>
    rw [conversion, ← typeName_unbox, unbox]
    rw [shape] at h
    have hcall : Typed table known (converter t ++ "." ++ (Head.mk "lift" [("handle", "Long")] name).call
        [value.textWith converter]) name :=
      .object unbox isObject (List.mem_cons_of_mem _ List.mem_cons_self) (.cons h .nil)
    rw [← member_call] at hcall
    exact hcall
  | raw shape conversion =>
    rw [conversion]
    have hcall := hbuffer shape
    rw [call_two] at hcall
    exact hcall
  | encoded shape conversion =>
    rw [conversion]
    have hcall := hbuffer shape
    rw [call_two] at hcall
    exact hcall

/-! ## Wrappers -/

/-- **What is known in a wrapper**: its parameters have their declared types, the handle of its receiver is a number,
and its native call returns what stands for the shape of the result. -/
inductive InWrapper (s : Surface) (sig : Signature) (c : Callable) : String → String → Prop
  | param {p : Param} (mem : p ∈ c.params) : InWrapper s sig c (memberName p.name) (typeName p.type)
  | receiver (isMethod : c.kind = .method) : InWrapper s sig c "requireHandle()" "Long"
  | returned {shape : Shape} (returns : sig.returns = some shape) :
      InWrapper s sig c ((callExpr s (planOf s sig.name c)).textWith converter) (Backend.kotlin.spelling shape)

variable {s : Surface} {sig : Signature} {c : Callable}

/-- **What is lowered in a slot** has the type that stands for the shape of the slot, where only buffers are copied. -/
theorem slotExpr_typed {slot : Slot} (hslot : slot.IsOf c)
    (howned : slot.owned = true → slot.shape s.table = .buffer) :
    Typed s.table (InWrapper s sig c) ((slotExpr s.table slot).textWith converter)
      (Backend.kotlin.spelling (slot.shape s.table)) := by
  unfold slotExpr
  unfold Slot.IsOf at hslot
  cases horigin : slot.origin with
  | receiver =>
    rw [horigin] at hslot
    simp only [Slot.shape, horigin]
    exact .known (.receiver hslot)
  | param p =>
    rw [horigin] at hslot
    have hvalue : Typed s.table (InWrapper s sig c) (memberName p.name) (typeName p.type) := .known (.param hslot)
    cases hbuffer : slot.owned with
    | true =>
      rw [howned hbuffer]
      exact lowerOwned_typed hvalue
    | false =>
      simp only [Slot.shape, horigin]
      exact lowerExpr_typed hvalue

/-- **What a function or method returns** has its declared type. -/
theorem returned_typed {t : Ty} (h : sig.returns = some (s.table.shapeOf t)) :
    Typed s.table (InWrapper s sig c) ((liftExpr s.table t (callExpr s (planOf s sig.name c))).textWith converter)
      (typeName t) :=
  liftExpr_typed (.known (.returned h))

/-- **What a constructor keeps** is a number that was checked. -/
theorem constructed_typed (h : sig.returns = some .handle) :
    Typed s.table (InWrapper s sig c)
      (("checkHandle(" ++ callExpr s (planOf s sig.name c) ++ ")" : Code).textWith converter) "Long" := by
  have hcall : Typed s.table (InWrapper s sig c)
      (checkHandleHead.call [(callExpr s (planOf s sig.name c)).textWith converter]) "Long" :=
    .call "" (by simp [crossings]) (.cons (.known (.returned h)) .nil)
  rw [call_one] at hcall
  exact hcall

end Bindgen.Emit.KotlinSource
