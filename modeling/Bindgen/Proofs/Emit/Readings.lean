import Bindgen.Emit.Converted
import Bindgen.Emit.PythonModule
import Bindgen.Proofs.Emit.Places

/-!
# The names in a Python wrapper

The body of a wrapper is read here as lines in which every name is marked, with what it is to stand for (`Line`), of
which it is the text. An argument is seen until a local of its name is assigned. A name of the module is not seen at
all where a local of that name is assigned anywhere in the wrapper. So a local captures a name, which is to stand for
something else, if that is read later, or if it is one of the module (`Captures`).

Results:
* `wrapper_text`: the text of a wrapper.
* `reads_lines`: what a wrapper reads.
* **`captures_passed_iff`**: a local captures an argument or another local just where something else is passed than
  belongs there.
-/

namespace Bindgen.Emit.PythonModule

open Interface Boundary Resolve Identifier

/-! ## Lines with their names -/

/-- What a name in a wrapper is to stand for. -/
inductive Meaning where
  /-- The object or class that the wrapper belongs to. -/
  | receiver
  /-- The argument for a parameter. -/
  | argument (p : Param)
  /-- The local of a slot. -/
  | bound (slot : Slot)
  /-- Something that the module has under this name: the library, the protocol, the support code or a converter. -/
  | global
  /-- A class of errors. -/
  | error

/-- A name that is read. -/
structure Reading where
  name : String
  meaning : Meaning

/-- A piece of a line. -/
inductive Piece where
  /-- Text in which no name is read. -/
  | text (s : String)
  | name (r : Reading)
  /-- The converter of a type. -/
  | converter (t : Ty)

instance : Coe String Piece := ⟨Piece.text⟩

/-- **A line**: the locals that it assigns, and what stands on the right of them. -/
structure Line where
  targets : List Slot
  pieces : List Piece

/-- The text of a piece. -/
def Piece.written : Piece → String
  | text s => s
  | name r => r.name
  | converter t => converterExpr t

/-- The name that is read in a piece. -/
def Piece.read? : Piece → Option Reading
  | text _ => none
  | name r => some r
  | converter t => some ⟨converterSource t, .global⟩

/-- The text of pieces. -/
def written : List Piece → String
  | [] => ""
  | p :: ps => p.written ++ written ps

/-- The text of a line. -/
def Line.text (line : Line) : String :=
  if line.targets.isEmpty then written line.pieces
  else ", ".intercalate (line.targets.map (·.target)) ++ " = " ++ written line.pieces

/-- The names that are read in pieces. -/
def readIn (ps : List Piece) : List Reading := ps.filterMap Piece.read?

/-- The names that are read in a line. -/
def Line.reads (line : Line) : List Reading := readIn line.pieces

/-! ## The lines of a wrapper -/

/-- The protocol of the module. -/
def protocol : Piece := .name ⟨"_protocol", .global⟩

/-- The native library. -/
def library : Piece := .name ⟨"_lib", .global⟩

/-- The support code. -/
def support : Piece := .name ⟨supportName, .global⟩

/-- The object that a wrapper belongs to. -/
def self : Piece := .name ⟨"self", .receiver⟩

/-- The argument for a parameter. -/
def argument (p : Param) : Piece := .name ⟨escapePython p.name, .argument p⟩

/-- Pieces with commas between them. -/
def listed (items : List (List Piece)) : List Piece := List.intercalate [.text ", "] items

/-- Pieces between others. -/
def around (before : List Piece) (inner : List Piece) (after : String) : List Piece :=
  before ++ inner ++ [.text after]

section Lines

variable (table : Table) (plan : CallPlan)

/-- What is lowered in a slot. -/
def slotPieces (slot : Slot) : List Piece :=
  match slot.origin with
  | .receiver => [self, "._require_handle()"]
  | .param p =>
    if (table.conversionOf p.type).usesBuffer then
      [support, ".lower_borrowed(", .converter p.type, ", ", argument p, ")"]
    else [.converter p.type, ".lower(", argument p, ")"]

/-- What is copied for a slot. -/
def pairPieces (slot : Slot) : List Piece :=
  match slot.origin with
  | .receiver => ["(", self, "._require_handle())"]
  | .param p => ["(", .converter p.type, ", ", argument p, ")"]

/-- What is copied for consumed buffers. -/
def copyPieces : List Slot → List Piece
  | [slot] => protocol :: .text ".lower_owned" :: pairPieces slot
  | slots => around [protocol, ".lower_owned_all("] (listed (slots.map pairPieces)) ")"

/-- The line that binds the local of a slot. -/
def bindLine (slot : Slot) : Line := ⟨[slot], slotPieces table slot⟩

/-- The lines before a call. -/
def prelude : List Line :=
  if plan.inPlace then []
  else plan.plain.map (bindLine table) ++ [⟨plan.owned, copyPieces plan.owned⟩]

/-- What is passed in a slot. -/
def passedPieces (slot : Slot) : List Piece :=
  if plan.inPlace then slotPieces table (plan.inPlaceSlot slot) else [.name ⟨slot.target, .bound slot⟩]

/-- The class of errors that a call may report. -/
def errorPieces : List (List Piece) :=
  plan.error.toList.map fun name => ["error=", .name ⟨name, .error⟩]

/-- A call. -/
def callPieces : List Piece :=
  around [protocol, ".call("]
    (listed ([[library, .text ("." ++ plan.symbol)]] ++ plan.slots.map (passedPieces table plan) ++ errorPieces plan))
    ")"

/-- Whether a wrapper is that of a constructor. -/
def isConstructed (owner : Option Object) (c : Callable) : Bool := owner.isSome && c.kind = .constructor

/-- What is made of the result of a call. -/
def resultPieces (owner : Option Object) (c : Callable) (call : List Piece) : List Piece :=
  if isConstructed owner c then
    if c.isPrimary then around [self, "._handle = ", support, ".check_handle("] call ")"
    else around ["return ", .name ⟨"cls", .receiver⟩, "._make_instance(", support, ".check_handle("] call "))"
  else match c.returns with
    | none => call
    | some t =>
      if (table.conversionOf t).usesBuffer then around ["return ", protocol, ".lift(", .converter t, ", "] call ")"
      else around ["return ", .converter t, ".lift("] call ")"

/-- **The lines of a wrapper** below its head. -/
def wrapperLines (owner : Option Object) (c : Callable) : List Line :=
  prelude table plan ++ [⟨[], resultPieces table owner c (callPieces table plan)⟩]

end Lines

/-! ## The text of a wrapper -/

section Text

variable {table : Table} {plan : CallPlan}

@[simp] theorem textWith_append (c d : Code) :
    (c ++ d).textWith converterExpr = c.textWith converterExpr ++ d.textWith converterExpr := rfl

@[simp] theorem written_append (ps qs : List Piece) : written (ps ++ qs) = written ps ++ written qs := by
  induction ps with
  | nil => exact String.empty_append.symm
  | cons p ps ih => rw [List.cons_append, written, written, ih, String.append_assoc]

theorem listed_cons_cons (item next : List Piece) (items : List (List Piece)) :
    listed (item :: next :: items) = item ++ .text ", " :: listed (next :: items) := by
  simp [listed, List.intercalate, List.intersperse]

/-- Items with commas between them are written as code with commas between it. -/
theorem written_listed {items : List (List Piece)} {codes : List Code}
    (h : codes.map (·.textWith converterExpr) = items.map written) :
    (Code.join ", " codes).textWith converterExpr = written (listed items) := by
  induction codes generalizing items with
  | nil =>
    obtain rfl := List.map_eq_nil_iff.1 h.symm
    rfl
  | cons code codes ih =>
    obtain ⟨item, rest, rfl, hitem, hrest⟩ := List.map_eq_cons_iff.1 h.symm
    cases codes with
    | nil =>
      obtain rfl := List.map_eq_nil_iff.1 hrest
      simpa [Code.join, listed, List.intercalate] using hitem.symm
    | cons next codes =>
      obtain ⟨second, others, rfl, -, -⟩ := List.map_eq_cons_iff.1 hrest
      rw [listed_cons_cons, written_append, written, ← ih hrest.symm, hitem]
      simp only [Code.join, textWith_append, Code.textWith, Piece.written, String.append_assoc]

theorem written_around (before inner : List Piece) (after : String) :
    written (around before inner after) = written before ++ written inner ++ after := by
  simp [around, written, Piece.written, String.append_assoc]

theorem slotExpr_text (slot : Slot) :
    (slotExpr table slot).textWith converterExpr = written (slotPieces table slot) := by
  unfold slotExpr slotPieces
  cases slot.origin with
  | receiver => rfl
  | param p =>
    unfold lowerExpr
    dsimp only
    split
    · simp [written, Piece.written, support, argument, Code.textWith, ← String.append_assoc, supportName]
    · simp [written, Piece.written, argument, Code.textWith, ← String.append_assoc]

theorem ownedPair_text (slot : Slot) : (ownedPair slot).textWith converterExpr = written (pairPieces slot) := by
  unfold ownedPair pairPieces
  cases slot.origin with
  | receiver => rfl
  | param p => simp [written, Piece.written, argument, Code.textWith, ← String.append_assoc]

/-- The text of the lines before a call. -/
theorem preludeLines_text (table : Table) (plan : CallPlan) :
    (preludeLines table plan).map (·.textWith converterExpr) = (prelude table plan).map Line.text := by
  unfold preludeLines prelude
  cases hplace : plan.inPlace with
  | true => rfl
  | false =>
    have hplain : (plan.plain.map fun s => s.target ++ " = " ++ slotExpr table s).map (·.textWith converterExpr) =
        (plan.plain.map (bindLine table)).map Line.text := by
      simp [bindLine, Line.text, Code.textWith, slotExpr_text]
    have hsome : plan.owned.isEmpty = false := hplace
    simp only [Bool.false_eq_true, if_false]
    cases howned : plan.owned with
    | nil => exact absurd (howned ▸ hsome) (by simp)
    | cons slot slots =>
      cases slots with
      | nil =>
        have hstart : " = _protocol.lower_owned" = " = " ++ ("_protocol" ++ ".lower_owned") := by decide
        rw [List.map_append, List.map_append, hplain, hstart]
        simp only [List.map_singleton, textWith_append, Code.textWith, ownedPair_text, Line.text, List.isEmpty_cons,
          Bool.false_eq_true, if_false, copyPieces, written, protocol, Piece.written, String.append_assoc,
          String.intercalate_singleton]
      | cons next slots =>
        have hpairs : (Code.join ", " ((slot :: next :: slots).map ownedPair)).textWith converterExpr =
            written (listed ((slot :: next :: slots).map pairPieces)) :=
          written_listed (by simp [Function.comp_def, ownedPair_text])
        have hstart : " = _protocol.lower_owned_all(" = " = " ++ ("_protocol" ++ ".lower_owned_all(") := by decide
        rw [List.map_append, List.map_append, hplain, hstart]
        simp only [List.map_singleton, textWith_append, Code.textWith, hpairs, Line.text, List.isEmpty_cons,
          Bool.false_eq_true, if_false, copyPieces, written_around, written, protocol, Piece.written,
          String.append_assoc, String.append_empty]

/-- The text of a call. -/
theorem callExpr_text (table : Table) (plan : CallPlan) :
    (callExpr table plan).textWith converterExpr = written (callPieces table plan) := by
  have hcodes : (texts ["_lib." ++ plan.symbol] ++
        (plan.slots.map fun s => if plan.inPlace then slotExpr table (plan.inPlaceSlot s) else .text s.target) ++
        texts (plan.error.toList.map ("error=" ++ ·))).map (·.textWith converterExpr) =
      ([[library, .text ("." ++ plan.symbol)]] ++ plan.slots.map (passedPieces table plan) ++
        errorPieces plan).map written := by
    have hlibrary : "_lib." ++ plan.symbol = "_lib" ++ ("." ++ plan.symbol) := by
      rw [← String.append_assoc]
      rfl
    have hslots : (plan.slots.map fun s =>
          if plan.inPlace then slotExpr table (plan.inPlaceSlot s) else .text s.target).map
          (·.textWith converterExpr) = (plan.slots.map (passedPieces table plan)).map written := by
      simp only [List.map_map]
      refine List.map_congr_left fun slot _ => ?_
      unfold passedPieces
      cases hplace : plan.inPlace with
      | true => simp [slotExpr_text]
      | false => simp [Code.textWith, written, Piece.written]
    have herror : (texts (plan.error.toList.map ("error=" ++ ·))).map (·.textWith converterExpr) =
        (errorPieces plan).map written := by
      simp [texts, errorPieces, Code.textWith, written, Piece.written]
    rw [List.map_append, List.map_append, List.map_append, List.map_append, hslots, herror, hlibrary]
    simp [texts, Code.textWith, written, Piece.written, library]
  have hstart : "_protocol.call(" = "_protocol" ++ ".call(" := by decide
  unfold callExpr callPieces
  rw [hstart]
  simp only [textWith_append, written_listed hcodes, written_around]
  simp [Code.textWith, written, Piece.written, protocol, String.append_assoc]

@[simp] theorem isEmpty_append (c d : Code) : (c ++ d).isEmpty = (c.isEmpty && d.isEmpty) := rfl

/-- Code that is moved to the right as it is: it is put together, and not empty. -/
def Solid (c : Code) : Prop := (∃ d e, c = d ++ e) ∧ c.isEmpty = false

theorem Solid.text_indent {c : Code} (h : Solid c) (n : ℕ) :
    (c.indent n).textWith converterExpr = blanks n ++ c.textWith converterExpr := by
  obtain ⟨⟨d, e, rfl⟩, hsome⟩ := h
  have hindent : (d ++ e).indent n = if (d ++ e).isEmpty then d ++ e else blanks n ++ (d ++ e) := rfl
  rw [hindent, hsome]
  rfl

theorem text_indent {lines : List Code} (h : ∀ c ∈ lines, Solid c) (n : ℕ) :
    (indent n lines).map (·.textWith converterExpr) =
      (lines.map (·.textWith converterExpr)).map (blanks n ++ ·) := by
  rw [indent, List.map_map, List.map_map]
  exact List.map_congr_left fun c hc => (h c hc).text_indent n

theorem preludeLines_solid : ∀ c ∈ preludeLines table plan, Solid c := by
  intro c hc
  have hplain (hc : c ∈ plan.plain.map fun s => s.target ++ " = " ++ slotExpr table s) : Solid c := by
    obtain ⟨slot, -, rfl⟩ := List.mem_map.1 hc
    exact ⟨⟨_, _, rfl⟩, by simp [Code.isEmpty]⟩
  unfold preludeLines at hc
  split at hc
  · exact absurd hc List.not_mem_nil
  · dsimp only at hc
    split at hc
    · rcases List.mem_append.1 hc with hc | hc
      · exact hplain hc
      · obtain rfl := List.mem_singleton.1 hc
        exact ⟨⟨_, _, rfl⟩, by simp [Code.isEmpty]⟩
    · rcases List.mem_append.1 hc with hc | hc
      · exact hplain hc
      · obtain rfl := List.mem_singleton.1 hc
        exact ⟨⟨_, _, rfl⟩, by simp [Code.isEmpty]⟩

theorem indent_preludeLines_text (table : Table) (plan : CallPlan) (n : ℕ) :
    (indent n (preludeLines table plan)).map (·.textWith converterExpr) =
      (prelude table plan).map (blanks n ++ ·.text) := by
  rw [text_indent preludeLines_solid, preludeLines_text, List.map_map]
  rfl

/-- The text of the lines of a function or method. -/
theorem body_text (n : ℕ) {owner : Option Object} {c : Callable} (hc : isConstructed owner c = false) :
    (indent n (body table plan c.returns)).map (·.textWith converterExpr) =
      (wrapperLines table plan owner c).map (blanks n ++ ·.text) := by
  have hend : ∃ last, Solid last ∧ body table plan c.returns = preludeLines table plan ++ [last] ∧
      last.textWith converterExpr = written (resultPieces table owner c (callPieces table plan)) := by
    have hcall := callExpr_text table plan
    unfold body resultPieces
    rw [hc]
    cases c.returns with
    | none => exact ⟨_, ⟨⟨_, _, rfl⟩, by simp [Code.isEmpty]⟩, rfl, hcall⟩
    | some t =>
      refine ⟨_, ⟨⟨_, _, rfl⟩, by simp [Code.isEmpty]⟩, rfl, ?_⟩
      unfold liftExpr
      simp only [Bool.false_eq_true, if_false]
      split
      · have hstart : "_protocol.lift(" = "_protocol" ++ ".lift(" := by decide
        simp only [hstart, textWith_append, Code.textWith, hcall, written_around, written, Piece.written, protocol,
          String.append_assoc, String.append_empty]
      · simp [written_around, written, Piece.written, Code.textWith, hcall, String.append_assoc]
  obtain ⟨last, hsolid, hbody, htext⟩ := hend
  have hlast := hsolid.text_indent n
  rw [htext] at hlast
  have hprelude := indent_preludeLines_text table plan n
  rw [hbody, wrapperLines, indent, List.map_append, List.map_append, List.map_append]
  exact congrArg₂ _ hprelude (congrArg (fun x => [x]) hlast)

theorem texts_text (ss : List String) : (texts ss).map (·.textWith converterExpr) = ss := by
  simp [texts, Function.comp_def, Code.textWith]

/-- The text of the lines of a constructor, which end with what is made of the call. -/
theorem constructor_text (table : Table) (plan : CallPlan) (head : List String) {start : String}
    {before : List Piece} (after : String) (hstart : start = blanks 8 ++ written before) :
    (texts head ++ indent 8 (preludeLines table plan) ++
        [start ++ callExpr table plan ++ after, ""]).map (·.textWith converterExpr) =
      head ++ (prelude table plan ++ [Line.mk [] (around before (callPieces table plan) after)]).map
        (blanks 8 ++ ·.text) ++ [""] := by
  have hlast : (start ++ callExpr table plan ++ after : Code).textWith converterExpr =
      blanks 8 ++ Line.text ⟨[], around before (callPieces table plan) after⟩ := by
    simp only [textWith_append, Code.textWith, callExpr_text, hstart, Line.text, written_around, List.isEmpty_nil,
      if_true, String.append_assoc]
  rw [List.map_append, List.map_append, texts_text, indent_preludeLines_text, List.map_append, List.append_assoc,
    List.append_assoc, List.append_assoc]
  exact congrArg _ (congrArg _ (congrArg (fun line => [line, ""]) hlast))

/-- What is printed for a symbol. -/
def printed (s : Surface) (sig : Signature) : List Code :=
  match sig.owner with
  | none => functionLines s sig
  | some o => memberLines s o sig

/-- The head of a wrapper. -/
def headLines (owner : Option Object) (c : Callable) : List String :=
  let params := declareParams c.params
  match owner with
  | none => ["def " ++ escapePython c.name ++ "(" ++ ", ".intercalate params ++ ") -> " ++ resultHint c.returns ++ ":"]
  | some o =>
    if c.kind = .constructor then
      if c.isPrimary then ["    def __init__(" ++ ", ".intercalate ("self" :: params) ++ "):"]
      else ["    @classmethod",
        "    def " ++ escapePython c.name ++ "(" ++ ", ".intercalate ("cls" :: params) ++ ") -> \"" ++ o.name ++ "\":"]
    else ["    def " ++ escapePython c.name ++ "(" ++ ", ".intercalate ("self" :: params) ++ ") -> " ++
      resultHint c.returns ++ ":"]

/-- **The text of a wrapper**: its lines stand below its head, and nothing but empty lines after them. -/
theorem wrapper_text (s : Surface) {sig : Signature} {c : Callable} (hc : sig.source = some c) :
    (printed s sig).map (·.textWith converterExpr) = headLines sig.owner c ++
      (wrapperLines s.table (planOf s sig.name c) sig.owner c).map
        (blanks (if sig.owner.isSome then 8 else 4) ++ ·.text) ++
      (if sig.owner.isSome then [""] else ["", ""]) := by
  unfold printed
  cases howner : sig.owner with
  | none =>
    have hplain : isConstructed none c = false := rfl
    simp only [functionLines, hc]
    rw [List.map_append, List.map_append, texts_text, texts_text, body_text 4 hplain]
    rfl
  | some o =>
    simp only [memberLines, hc]
    by_cases hkind : c.kind = .constructor
    · have hmade : isConstructed (some o) c = true := by simp [isConstructed, hkind]
      rw [if_pos hkind]
      unfold constructorLines wrapperLines resultPieces headLines
      dsimp only
      rw [hmade, if_pos rfl, if_pos hkind]
      split
      · exact constructor_text _ _ _ ")" (by decide)
      · exact constructor_text _ _ _ "))" (by decide)
    · have hplain : isConstructed (some o) c = false := by simp [isConstructed, hkind]
      rw [if_neg hkind, methodLines, List.map_append, List.map_append, texts_text, texts_text, body_text 8 hplain,
        headLines, if_neg hkind]
      rfl

end Text

/-! ## What a wrapper reads -/

/-- **A name of the module that a wrapper needs**: those of the protocol and of the library, and of what its arguments
and its result are converted by. -/
inductive Needed (table : Table) (plan : CallPlan) (owner : Option Object) (c : Callable) : String → Prop
  | protocol : Needed table plan owner c "_protocol"
  | library : Needed table plan owner c "_lib"
  | converter {slot : Slot} {p : Param} (mem : slot ∈ plan.slots) (origin : slot.origin = .param p) :
      Needed table plan owner c (converterSource p.type)
  | lent {slot : Slot} {p : Param} (mem : slot ∈ plan.slots) (origin : slot.origin = .param p)
      (plain : slot.owned = false) (buffer : (table.conversionOf p.type).usesBuffer = true) :
      Needed table plan owner c supportName
  | made (constructed : isConstructed owner c = true) : Needed table plan owner c supportName
  | result {t : Ty} (called : isConstructed owner c = false) (returns : c.returns = some t) :
      Needed table plan owner c (converterSource t)

/-- **A name that a wrapper reads.** -/
inductive Reads (table : Table) (plan : CallPlan) (owner : Option Object) (c : Callable) : Reading → Prop
  | receiver {name : String} (h : name = "self" ∨ name = "cls") : Reads table plan owner c ⟨name, .receiver⟩
  | argument {slot : Slot} {p : Param} (mem : slot ∈ plan.slots) (origin : slot.origin = .param p) :
      Reads table plan owner c ⟨escapePython p.name, .argument p⟩
  | bound {slot : Slot} (mem : slot ∈ plan.slots) : Reads table plan owner c ⟨slot.target, .bound slot⟩
  | global {name : String} (h : Needed table plan owner c name) : Reads table plan owner c ⟨name, .global⟩
  | error {name : String} (h : plan.error = some name) : Reads table plan owner c ⟨name, .error⟩

section Reads

variable {table : Table} {plan : CallPlan} {owner : Option Object} {c : Callable} {slot : Slot} {slots : List Slot}
variable {r : Reading}

theorem readIn_around (before inner : List Piece) (after : String) :
    readIn (around before inner after) = readIn before ++ readIn inner := by
  simp [readIn, around, Piece.read?]

theorem readIn_listed (items : List (List Piece)) : readIn (listed items) = items.flatMap readIn := by
  induction items with
  | nil => rfl
  | cons item items ih =>
    cases items with
    | nil => simp [listed, List.intercalate]
    | cons next items =>
      have hsplit : readIn (listed (item :: next :: items)) = readIn item ++ readIn (listed (next :: items)) := by
        rw [listed_cons_cons, readIn, List.filterMap_append]
        rfl
      rw [hsplit, ih]
      rfl

theorem readIn_copies (slots : List Slot) : readIn (copyPieces slots) =
    ⟨"_protocol", .global⟩ :: slots.flatMap fun slot => readIn (pairPieces slot) := by
  unfold copyPieces
  split
  · rw [List.flatMap_singleton]
    rfl
  · rw [readIn_around, readIn_listed, List.flatMap_map]
    rfl

/-- What is read where a slot is lowered. -/
theorem reads_slot (hslot : slot ∈ plan.slots) (hplain : slot.owned = false) :
    ∀ r ∈ readIn (slotPieces table slot), Reads table plan owner c r := by
  unfold slotPieces
  cases horigin : slot.origin with
  | receiver => exact List.forall_mem_singleton.2 (.receiver (.inl rfl))
  | param p =>
    have hvalue : ∀ r ∈ readIn [.converter p.type, argument p], Reads table plan owner c r :=
      List.forall_mem_cons.2 ⟨.global (.converter hslot horigin),
        List.forall_mem_singleton.2 (.argument hslot horigin)⟩
    dsimp only
    split
    · next hbuffer => exact List.forall_mem_cons.2 ⟨.global (.lent hslot horigin hplain hbuffer), hvalue⟩
    · exact hvalue

/-- What is read where a slot is copied. -/
theorem reads_pair (hslot : slot ∈ plan.slots) : ∀ r ∈ readIn (pairPieces slot), Reads table plan owner c r := by
  unfold pairPieces
  cases horigin : slot.origin with
  | receiver => exact List.forall_mem_singleton.2 (.receiver (.inl rfl))
  | param p =>
    exact List.forall_mem_cons.2 ⟨.global (.converter hslot horigin),
      List.forall_mem_singleton.2 (.argument hslot horigin)⟩

/-- What is read in a call. -/
theorem reads_call (hplace : plan.inPlace = false) :
    ∀ r ∈ readIn (callPieces table plan), Reads table plan owner c r := by
  intro r h
  rw [callPieces, readIn_around, List.mem_append, readIn_listed, List.mem_flatMap] at h
  obtain h | ⟨item, hitem, h⟩ := h
  · obtain rfl := List.mem_singleton.1 h
    exact .global .protocol
  rw [List.mem_append, List.mem_append] at hitem
  obtain (hitem | hitem) | hitem := hitem
  · obtain rfl := List.mem_singleton.1 hitem
    obtain rfl := List.mem_singleton.1 h
    exact .global .library
  · obtain ⟨slot, hslot, rfl⟩ := List.mem_map.1 hitem
    rw [passedPieces, if_neg (by simp [hplace])] at h
    obtain rfl := List.mem_singleton.1 h
    exact .bound hslot
  · obtain ⟨name, hname, rfl⟩ := List.mem_map.1 hitem
    obtain rfl := List.mem_singleton.1 h
    exact .error (Option.mem_toList.1 hname)

/-- What is read around a call, and in it. -/
theorem reads_result (hplace : plan.inPlace = false) :
    ∀ r ∈ readIn (resultPieces table owner c (callPieces table plan)), Reads table plan owner c r := by
  have haround {before : List Piece} (after : String) (h : ∀ r ∈ readIn before, Reads table plan owner c r) :
      ∀ r ∈ readIn (around before (callPieces table plan) after), Reads table plan owner c r := by
    rw [readIn_around]
    exact List.forall_mem_append.2 ⟨h, reads_call hplace⟩
  unfold resultPieces
  cases hmade : isConstructed owner c with
  | true =>
    have hsupport : Reads table plan owner c ⟨supportName, .global⟩ := .global (.made hmade)
    rw [if_pos rfl]
    split
    · exact haround _ (List.forall_mem_cons.2 ⟨.receiver (.inl rfl), List.forall_mem_singleton.2 hsupport⟩)
    · exact haround _ (List.forall_mem_cons.2 ⟨.receiver (.inr rfl), List.forall_mem_singleton.2 hsupport⟩)
  | false =>
    rw [if_neg (by simp)]
    cases hreturns : c.returns with
    | none => exact reads_call hplace
    | some t =>
      have hconverter : Reads table plan owner c ⟨converterSource t, .global⟩ := .global (.result hmade hreturns)
      dsimp only
      split
      · exact haround _ (List.forall_mem_cons.2 ⟨.global .protocol, List.forall_mem_singleton.2 hconverter⟩)
      · exact haround _ (List.forall_mem_singleton.2 hconverter)

theorem prelude_eq (table : Table) (hplace : plan.inPlace = false) : prelude table plan =
    plan.plain.map (bindLine table) ++ [⟨plan.owned, copyPieces plan.owned⟩] :=
  if_neg (by simp [hplace])

/-- **What a wrapper with consumed buffers reads.** -/
theorem reads_lines (hplace : plan.inPlace = false) :
    ∀ r ∈ (wrapperLines table plan owner c).flatMap Line.reads, Reads table plan owner c r := by
  rw [wrapperLines, prelude_eq table hplace, List.flatMap_append, List.flatMap_append]
  refine List.forall_mem_append.2 ⟨List.forall_mem_append.2 ⟨?_, ?_⟩, ?_⟩
  · intro r h
    rw [List.flatMap_map] at h
    obtain ⟨slot, hslot, h⟩ := List.mem_flatMap.1 h
    obtain ⟨hmem, hplain⟩ := CallPlan.mem_slots_of_plain hslot
    exact reads_slot hmem hplain r h
  · intro r h
    rw [List.flatMap_singleton, Line.reads, readIn_copies, List.mem_cons, List.mem_flatMap] at h
    obtain rfl | ⟨slot, hslot, h⟩ := h
    · exact .global .protocol
    · exact reads_pair (CallPlan.mem_slots_of_owned hslot).1 r h
  · rw [List.flatMap_singleton]
    exact reads_result hplace

end Reads

/-! ## Captured names -/

/-- A name that is read after a local is assigned. -/
def ReadAfter (slot : Slot) (r : Reading) : List Line → Prop
  | [] => False
  | line :: later => (slot ∈ line.targets ∧ r ∈ later.flatMap Line.reads) ∨ ReadAfter slot r later

/-- **A local that captures a name**: the name is to stand for something else, and where it is read it stands for the
local, or for nothing yet. -/
structure Captures (inside : String → String) (lines : List Line) (slot : Slot) (r : Reading) : Prop where
  same : inside r.name = inside slot.target
  other : r.meaning ≠ .bound slot
  read : ReadAfter slot r lines ∨
    (r.meaning = .global ∧ slot ∈ lines.flatMap (·.targets) ∧ r ∈ lines.flatMap Line.reads)

/-- Whether a name stands for something that is passed: an argument, or what a local is bound to. -/
def Meaning.isPassed : Meaning → Bool
  | .argument _ | .bound _ => true
  | _ => false

/-- The names in pieces that stand for something that is passed. -/
def passedIn (ps : List Piece) : List Reading := (readIn ps).filter (·.meaning.isPassed)

/-- The argument for a slot, where it is read. -/
def sources (slot : Slot) : List Reading :=
  match slot.origin with
  | .receiver => []
  | .param p => [⟨escapePython p.name, .argument p⟩]

section Captures

variable {table : Table} {plan : CallPlan} {owner : Option Object} {c : Callable} {slot : Slot} {slots : List Slot}
variable {r : Reading} {inside : String → String}

theorem mem_passedIn {ps : List Piece} (hr : r.meaning.isPassed = true) : r ∈ readIn ps ↔ r ∈ passedIn ps := by
  rw [passedIn, List.mem_filter, and_iff_left hr]

theorem passedIn_slot (table : Table) (slot : Slot) : passedIn (slotPieces table slot) = sources slot := by
  unfold slotPieces sources
  cases slot.origin with
  | receiver => rfl
  | param p =>
    dsimp only
    split <;> rfl

theorem passedIn_pair (slot : Slot) : passedIn (pairPieces slot) = sources slot := by
  unfold pairPieces sources
  cases slot.origin with
  | receiver => rfl
  | param p => rfl

theorem passedIn_copies (slots : List Slot) : passedIn (copyPieces slots) = slots.flatMap sources := by
  rw [passedIn, readIn_copies, List.filter_cons_of_neg (by simp [Meaning.isPassed]), List.filter_flatMap]
  exact List.flatMap_congr fun slot _ => passedIn_pair slot

theorem passedIn_around (before inner : List Piece) (after : String) :
    passedIn (around before inner after) = passedIn before ++ passedIn inner := by
  rw [passedIn, readIn_around, List.filter_append]
  rfl

theorem passedIn_listed (items : List (List Piece)) : passedIn (listed items) = items.flatMap passedIn := by
  rw [passedIn, readIn_listed, List.filter_flatMap]
  rfl

/-- Where locals are bound, a call passes them. -/
theorem passedIn_call (table : Table) (hplace : plan.inPlace = false) :
    passedIn (callPieces table plan) = plan.slots.map fun slot => ⟨slot.target, .bound slot⟩ := by
  have hslots : (plan.slots.map (passedPieces table plan)).flatMap passedIn =
      plan.slots.map fun slot => ⟨slot.target, .bound slot⟩ := by
    rw [List.flatMap_map, List.map_eq_flatMap]
    refine List.flatMap_congr fun slot _ => ?_
    rw [passedPieces, if_neg (by simp [hplace])]
    rfl
  have herrors : (errorPieces plan).flatMap passedIn = [] := by
    rw [errorPieces, List.flatMap_map]
    exact List.flatMap_eq_nil_iff.2 fun _ _ => rfl
  rw [callPieces, passedIn_around, passedIn_listed, List.flatMap_append, List.flatMap_append, hslots, herrors,
    List.append_nil]
  rfl

theorem passedIn_result (hplace : plan.inPlace = false) :
    passedIn (resultPieces table owner c (callPieces table plan)) =
      plan.slots.map fun slot => ⟨slot.target, .bound slot⟩ := by
  rw [← passedIn_call table hplace]
  unfold resultPieces
  split
  · split
    · exact passedIn_around _ _ _
    · exact passedIn_around _ _ _
  · split
    · rfl
    · split
      · exact passedIn_around _ _ _
      · exact passedIn_around _ _ _

theorem readAfter_append {xs ys : List Line} : ReadAfter slot r (xs ++ ys) ↔ ReadAfter slot r xs ∨
    (slot ∈ xs.flatMap (·.targets) ∧ r ∈ ys.flatMap Line.reads) ∨ ReadAfter slot r ys := by
  induction xs with
  | nil => simp [ReadAfter]
  | cons line xs ih =>
    simp only [List.cons_append, ReadAfter, ih, List.flatMap_cons, List.flatMap_append, List.mem_append]
    tauto

theorem targets_binds (table : Table) (slots : List Slot) :
    (slots.map (bindLine table)).flatMap (·.targets) = slots := by
  simp [bindLine, List.flatMap_map]

/-- The locals that a wrapper assigns are those of its slots. -/
theorem mem_targets (table : Table) (hplace : plan.inPlace = false) :
    slot ∈ (prelude table plan).flatMap (·.targets) ↔ slot ∈ plan.slots := by
  rw [prelude_eq table hplace, List.flatMap_append, targets_binds, List.flatMap_singleton, List.mem_append, CallPlan.plain,
    CallPlan.owned, List.mem_filter, List.mem_filter]
  cases slot.owned <;> simp

/-- Of two slots that are bound one after another, the argument for the later is read after the local of the first is
assigned. -/
theorem readAfter_binds (hr : r.meaning.isPassed = true) : ReadAfter slot r (slots.map (bindLine table)) ↔
    ∃ later, [slot, later].Sublist slots ∧ r ∈ sources later := by
  have hreads (x : Slot) : r ∈ (bindLine table x).reads ↔ r ∈ sources x := by
    rw [Line.reads, mem_passedIn hr]
    exact (congrArg (r ∈ ·) (passedIn_slot table x)).to_iff
  induction slots with
  | nil => simp [ReadAfter]
  | cons x slots ih =>
    refine (or_congr_right ih).trans ⟨?_, ?_⟩
    · rintro (⟨hmem, h⟩ | ⟨later, hsub, h⟩)
      · obtain rfl := List.mem_singleton.1 hmem
        rw [List.flatMap_map] at h
        obtain ⟨later, hlater, h⟩ := List.mem_flatMap.1 h
        exact ⟨later, (List.singleton_sublist.2 hlater).cons_cons _, (hreads later).1 h⟩
      · exact ⟨later, hsub.cons _, h⟩
    · rintro ⟨later, hsub, h⟩
      obtain hsub | ⟨rest, heq, hsub⟩ := List.sublist_cons_iff.1 hsub
      · exact .inr ⟨later, hsub, h⟩
      · obtain ⟨rfl, rfl⟩ := List.cons.inj heq
        refine .inl ⟨List.mem_singleton_self _, ?_⟩
        rw [List.flatMap_map]
        exact List.mem_flatMap.2 ⟨later, List.singleton_sublist.1 hsub, (hreads later).2 h⟩

/-- **What is passed and read after a local is assigned**: the argument for a later slot, unless the local is that of a
consumed buffer, and what a local is bound to. -/
theorem readAfter_wrapper (hplace : plan.inPlace = false) (hr : r.meaning.isPassed = true) :
    ReadAfter slot r (wrapperLines table plan owner c) ↔
      (slot.owned = false ∧ ∃ later, [slot, later].Sublist (plan.plain ++ plan.owned) ∧ r ∈ sources later) ∨
        (slot ∈ plan.slots ∧ ∃ later ∈ plan.slots, r = ⟨later.target, .bound later⟩) := by
  have hcopies : r ∈ readIn (copyPieces plan.owned) ↔ ∃ later ∈ plan.owned, r ∈ sources later := by
    rw [mem_passedIn hr, passedIn_copies, List.mem_flatMap]
  have hend : r ∈ readIn (resultPieces table owner c (callPieces table plan)) ↔
      ∃ later ∈ plan.slots, r = ⟨later.target, .bound later⟩ := by
    rw [mem_passedIn hr, passedIn_result hplace, List.mem_map]
    simp only [eq_comm]
  have hpairs : (slot.owned = false ∧ ∃ later, [slot, later].Sublist (plan.plain ++ plan.owned) ∧ r ∈ sources later) ↔
      (∃ later, [slot, later].Sublist plan.plain ∧ r ∈ sources later) ∨
        (slot ∈ plan.plain ∧ ∃ later ∈ plan.owned, r ∈ sources later) := by
    constructor
    · rintro ⟨hplain, later, hsub, h⟩
      obtain hsub | ⟨hmem, hlater⟩ | hsub := pair_sublist_append.1 hsub
      · exact .inl ⟨later, hsub, h⟩
      · exact .inr ⟨hmem, later, hlater, h⟩
      · have howned := (CallPlan.mem_slots_of_owned (hsub.subset List.mem_cons_self)).2
        exact absurd (hplain.symm.trans howned) (by simp)
    · rintro (⟨later, hsub, h⟩ | ⟨hmem, later, hlater, h⟩)
      · have hplain := (CallPlan.mem_slots_of_plain (hsub.subset List.mem_cons_self)).2
        exact ⟨hplain, later, pair_sublist_append.2 (.inl hsub), h⟩
      · exact ⟨(CallPlan.mem_slots_of_plain hmem).2, later, pair_sublist_append.2 (.inr (.inl ⟨hmem, hlater⟩)), h⟩
  rw [wrapperLines, readAfter_append, mem_targets table hplace, prelude_eq table hplace, readAfter_append,
    readAfter_binds hr, hpairs]
  simp only [ReadAfter, List.flatMap_singleton, List.not_mem_nil, List.flatMap_nil, targets_binds, Line.reads, hcopies, hend,
    and_false, or_false]

theorem mem_of_readAfter {lines : List Line} (h : ReadAfter slot r lines) :
    slot ∈ lines.flatMap (·.targets) ∧ r ∈ lines.flatMap Line.reads := by
  induction lines with
  | nil => exact h.elim
  | cons line later ih =>
    rw [List.flatMap_cons, List.flatMap_cons, List.mem_append, List.mem_append]
    obtain ⟨hslot, h⟩ | h := h
    · exact ⟨.inl hslot, .inr h⟩
    · exact ⟨.inr (ih h).1, .inr (ih h).2⟩

/-- **What captures is the local of a slot**, and what is captured is read. -/
theorem Captures.mem (hplace : plan.inPlace = false) (h : Captures inside (wrapperLines table plan owner c) slot r) :
    slot ∈ plan.slots ∧ Reads table plan owner c r := by
  obtain ⟨hslot, hread⟩ := h.read.elim mem_of_readAfter And.right
  refine ⟨(mem_targets table hplace).1 ?_, reads_lines hplace r hread⟩
  rw [wrapperLines, List.flatMap_append, List.mem_append] at hslot
  exact hslot.resolve_right (by simp)

/-- What a call reads is read in the last line. -/
theorem readIn_call_subset (table : Table) (owner : Option Object) (c : Callable) (call : List Piece) :
    readIn call ⊆ readIn (resultPieces table owner c call) := by
  have haround (before : List Piece) (after : String) : readIn call ⊆ readIn (around before call after) := by
    rw [readIn_around]
    exact List.subset_append_right _ _
  unfold resultPieces
  split
  · split
    · exact haround _ _
    · exact haround _ _
  · split
    · exact List.Subset.refl _
    · split
      · exact haround _ _
      · exact haround _ _

/-- A local that is called like the protocol or the library captures that name, since the last line reads it. -/
theorem captures_global (hplace : plan.inPlace = false) {name : String} (hslot : slot ∈ plan.slots)
    (hname : name = "_protocol" ∨ name = "_lib") (hsame : inside name = inside slot.target) :
    Captures inside (wrapperLines table plan owner c) slot ⟨name, .global⟩ := by
  have hcall : (⟨name, .global⟩ : Reading) ∈ readIn (callPieces table plan) := by
    rw [callPieces, readIn_around, readIn_listed]
    obtain rfl | rfl := hname
    · exact List.mem_append_left _ (List.mem_singleton_self _)
    · exact List.mem_append_right _ (List.mem_append_left _ List.mem_cons_self)
  refine ⟨hsame, by simp, .inr ⟨rfl, ?_, ?_⟩⟩
  · rw [wrapperLines, List.flatMap_append]
    exact List.mem_append_left _ ((mem_targets table hplace).2 hslot)
  · rw [wrapperLines, List.flatMap_append, List.flatMap_singleton]
    exact List.mem_append_right _ (readIn_call_subset table owner c _ hcall)

/-- **What is captured is passed in the wrong place.** The locals of a plan capture an argument or each other just where
something else is passed in a slot than belongs there. -/
theorem captures_passed_iff (hslots : plan.slots.Nodup) (hplace : plan.inPlace = false) :
    (∃ slot r, Captures inside (wrapperLines table plan owner c) slot r ∧ r.meaning.isPassed = true) ↔
      plan.terms inside ≠ plan.slots.map CallPlan.ownTerm := by
  rw [Ne, CallPlan.bound_terms_iff hslots hplace, iff_not_comm]
  constructor
  · rintro ⟨hnodup, hpairs⟩ ⟨slot, r, hcaptures, hr⟩
    have hread := hcaptures.read.resolve_right fun h => by simp [h.1, Meaning.isPassed] at hr
    obtain ⟨hplain, later, hsub, h⟩ | ⟨hslot, later, hlater, rfl⟩ := (readAfter_wrapper hplace hr).1 hread
    · unfold sources at h
      cases horigin : later.origin with
      | receiver =>
        rw [horigin] at h
        exact absurd h List.not_mem_nil
      | param p =>
        rw [horigin] at h
        obtain rfl := List.mem_singleton.1 h
        exact List.pairwise_iff_forall_sublist.1 hpairs hsub hplain p horigin hcaptures.same.symm
    · obtain rfl := List.inj_on_of_nodup_map hnodup hslot hlater hcaptures.same.symm
      exact hcaptures.other rfl
  · intro hnone
    have hfree {slot : Slot} {r : Reading} (hr : r.meaning.isPassed = true) (hother : r.meaning ≠ .bound slot)
        (hread : ReadAfter slot r (wrapperLines table plan owner c)) : inside slot.target ≠ inside r.name :=
      fun h => hnone ⟨slot, r, ⟨h.symm, hother, .inl hread⟩, hr⟩
    constructor
    · refine (List.nodup_map_iff_inj_on hslots).2 fun slot hslot later hlater heq => ?_
      by_contra hne
      have hother : Meaning.bound later ≠ .bound slot := fun h => hne (Meaning.bound.inj h).symm
      exact hfree (r := ⟨later.target, .bound later⟩) rfl hother
        ((readAfter_wrapper hplace rfl).2 (.inr ⟨hslot, later, hlater, rfl⟩)) heq
    · refine List.pairwise_iff_forall_sublist.2 fun {slot later} hsub hplain p horigin => ?_
      have hsource : (⟨escapePython p.name, .argument p⟩ : Reading) ∈ sources later := by
        rw [sources, horigin]
        exact List.mem_singleton_self _
      exact hfree (r := ⟨escapePython p.name, .argument p⟩) rfl (by simp)
        ((readAfter_wrapper hplace rfl).2 (.inl ⟨hplain, later, hsub, hsource⟩))

end Captures

end Bindgen.Emit.PythonModule
