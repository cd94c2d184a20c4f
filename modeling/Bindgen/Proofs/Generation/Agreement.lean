import Bindgen.Proofs.Emit.Typing
import Bindgen.Proofs.Generation.KotlinCalls
import Bindgen.Proofs.Native.Fits

/-!
# Wrappers agree with the signatures

A signature says which shapes its symbol takes and returns. The wrappers in Python and Kotlin choose by themselves
how each argument is lowered and how the result is lifted. For an accepted model these choices agree with the
signature: each argument, lowered for itself, has the shape of its position, and what comes back in the shape of the
result is lifted.

The wrappers put together their calls from locals, though. Arguments that share a local are passed the same, and if
their shapes are not the same, one of them is passed in a shape that its position does not have. Kotlin also refuses
locals that are declared twice. Both wrappers of a method `set(handle: string)` pass the string in the position of
the receiver's handle.

Results:
* `TypeAgrees`, `Native.KeepsTo`, `Emit.KotlinSource.KeepsTo`: what agrees.
* **`boundary_agrees`**: it does for every accepted model.
-/

namespace Bindgen

open Interface Boundary Resolve Emit CallPlan

variable {m : Model} {sig : Signature} {c : Callable}

/-! ## Types -/

/-- **The shape and the conversion of a type** are found, and they agree. -/
structure TypeAgrees (m : Model) (t : Ty) : Prop where
  shape (checker : Checker) (hof : checker.Of m) (context : Option String) :
    ∃ checker', checker.map t context = .ok ((named m.definitions).shapeOf t, checker')
  conversion : (named m.definitions).conversion t = .ok ((named m.definitions).conversionOf t)
  suits : ((named m.definitions).conversionOf t).Suits ((named m.definitions).shapeOf t)

theorem typeAgrees_of_defines (hm : m.Sound) {t : Ty} (ht : (named m.definitions).Defines t) : TypeAgrees m t where
  shape _ hof context := (map_eq hof (sound_of_defines hm.closed hm.acyclic ht) context).imp fun _ hmap => hmap.1
  conversion := conversion_of_defines ht
  suits := conversionOf_suits _ t

theorem returns_of_function (hc : c.kind ≠ .constructor) (table : Table) :
    resultOf table c = c.returns.map table.shapeOf := if_neg hc

theorem returns_of_constructor (hc : c.kind = .constructor) (table : Table) : resultOf table c = some .handle :=
  if_pos hc

/-! ## Wrappers in Python -/

namespace Native

open Wire

variable {b : Wrappers} {limit : ℕ}

/-- **A wrapper for the callable of a symbol**, which makes an object for constructors. -/
inductive Wrapper.IsFor (sig : Signature) (c : Callable) : Wrapper → Prop
  | constructor {o : Object} (kind : c.kind = .constructor) (owner : sig.owner = some o) :
      IsFor sig c (.constructor o c)
  | callable (kind : c.kind ≠ .constructor) (self : Option String) : IsFor sig c (.callable sig.owner c self)

theorem Wrapper.IsFor.owner {w : Wrapper} (h : w.IsFor sig c) : w.owner = sig.owner := by
  cases h with
  | constructor _ owner => exact owner.symm
  | callable => rfl

theorem Wrapper.IsFor.source {w : Wrapper} (h : w.IsFor sig c) : w.source = c := by
  cases h <;> rfl

/-- **What makes a result of what a call returns**, of the shape that is declared if there is one. -/
def Returns (b : Wrappers) (make : Passed → Action Value) : Option Shape → Prop
  | some shape => Takes b make shape
  | none => ∀ result, make result = pure .none

/-- How the names of locals are read in the wrapper of a symbol. -/
def localsIn (b : Wrappers) (sig : Signature) (c : Callable) : String → String :=
  (b.plan sig.owner c).readAs (nameInside sig.owner)

/-- The shapes of what the locals of the wrapper of a symbol hold. -/
def passedShapes (b : Wrappers) (sig : Signature) (c : Callable) : List Shape :=
  (b.plan sig.owner c).heldShapes b.schema.table (localsIn b sig c)

/-- **The wrappers of a module keep to a signature.** -/
structure KeepsTo (b : Wrappers) (sig : Signature) (c : Callable) : Prop where
  /-- What an argument is lowered to fits the shape of its position. Only buffers are copied. -/
  lowers : List.Forall₂ (fun a slot => (slot.owned = true → a.shape = .buffer) ∧
      ∀ f s scope passed, b.Gives f s scope slot passed → passed.Fits a.shape)
    sig.valueArguments (ownSlots b.schema.table PythonModule.localName c)
  /-- In the position of a handle it is the handle that the argument owns. -/
  handles (p : Param) (hp : p ∈ c.params) (hshape : (argumentOf b.schema.table p).shape = .handle) (v : Value)
    (passed : Passed) (hlowers : b.Lowers p.type v passed) : ∃ handle, v.handle = .ok handle ∧ passed = .value handle
  /-- What a run passes fits the shapes of what the locals hold. -/
  passes (w : Wrapper) (hw : w.IsFor sig c) (args : List Value) (s : Session) :
    Ends (w.run b args) s fun r δ _ => Wrapper.Uncalled b r δ ∨
      ∃ (cs : List Copy) (passed : List Passed) (hasRecord : Bool) (after : List Request),
        δ = cs.map Copy.asked ++ .called (nameInside sig.owner sig.name) passed hasRecord :: after ∧
          List.Forall₂ Passed.Fits passed (passedShapes b sig c)
  /-- These are the shapes of the positions, just where arguments that share a local have one shape. -/
  placed : passedShapes b sig c = sig.valueArguments.map (·.shape) ↔
    ShareShapes (fun name => localsIn b sig c (PythonModule.localName name)) sig.valueArguments
  /-- The result is made of what fits the shape that is declared for it. -/
  returns (w : Wrapper) (hw : w.IsFor sig c) : Returns b ((w.finish b).make (w.frame b)) sig.returns

/-- What an argument is lowered to in its own slot fits its shape. -/
theorem gives_fits {a : Argument} {slot : Slot} (h : Own b.schema.table c a slot) {f : Frame} {s : Session}
    {scope : Scope} {passed : Passed} (hgives : b.Gives f s scope slot passed) : passed.Fits a.shape := by
  rw [← h.shape]
  unfold Wrappers.Gives at hgives
  cases horigin : slot.origin with
  | receiver =>
    rw [horigin] at hgives
    obtain ⟨_, handle, -, -, rfl⟩ := hgives
    simp only [Slot.shape, horigin]
    exact .handle handle
  | param p =>
    rw [horigin] at hgives
    obtain ⟨v, -, hlowers⟩ := hgives
    simp only [Slot.shape, horigin]
    exact lowers_fits hlowers

/-- A wrapper makes its result of what fits the declared shape. -/
theorem finish_returns {w : Wrapper} (hw : w.IsFor sig c) (hreturns : sig.returns = resultOf b.schema.table c) :
    Returns b ((w.finish b).make (w.frame b)) sig.returns := by
  rw [hreturns]
  cases hw with
  | @constructor o kind _ =>
    rw [returns_of_constructor kind]
    exact constructor_takes b _ o c
  | callable kind self =>
    rw [returns_of_function kind]
    simp only [Wrapper.finish, Wrappers.callableFinish]
    cases c.returns with
    | none => exact fun _ => rfl
    | some t => exact liftResult_takes b _ t

/-- **The wrappers of a model's module** keep to its signatures. -/
theorem keepsTo_of_ofModel (hb : Wrappers.ofModel m limit = .ok b) (htable : b.schema.table = named m.definitions)
    (owner : Option Object) (c : Callable) : KeepsTo b (signatureOf m owner c) c := by
  have harguments : (signatureOf m owner c).valueArguments =
      receiverArgument c ++ c.params.map (argumentOf b.schema.table) := by
    rw [htable]
    exact valueArguments_signatureOf owner c
  constructor
  · rw [harguments]
    exact (ownSlots_own _ _ c).imp fun a slot hown => ⟨hown.buffer, fun _ _ _ _ => gives_fits hown⟩
  · exact fun p _ hshape v passed => lowers_handle hshape
  · intro w hw args s
    have hruns := w.passes_terms (Wrappers.grows_of_ofModel hb) args s
    have hplan : w.plan b = b.plan owner c := by
      rw [Wrapper.plan, hw.owner, hw.source]
      rfl
    have hinside : (w.frame b).inside = nameInside owner := by
      funext name
      change nameInside w.owner name = nameInside owner name
      rw [hw.owner]
      rfl
    have hsymbol : (b.plan owner c).symbol = (signatureOf m owner c).name := by
      change symbolName b.model.ns c owner = symbolName m.ns c owner
      rw [Wrappers.model_of_ofModel hb]
    refine hruns.mono fun r δ s' _ _ hends => ?_
    refine hends.imp_right ?_
    rintro ⟨cs, passed, hasRecord, after, hδ, hpassed⟩
    have hfits := passes_fits hpassed
    rw [hplan, hinside] at hδ hfits
    rw [hsymbol] at hδ
    exact ⟨cs, passed, hasRecord, after, hδ, hfits⟩
  · rw [harguments]
    exact heldShapes_iff (slots_stand b.schema.table PythonModule.localName _ c)
  · intro w hw
    exact finish_returns hw (by rw [htable]; rfl)

end Native

/-! ## Wrappers in Kotlin -/

namespace Emit.KotlinSource

open Identifier

variable {s : Surface}

/-- The head of a symbol, with the types that stand for the shapes of its positions. -/
def symbolHead (f : Signature) : Head :=
  ⟨f.name, f.arguments.map fun a => (escapeKotlin a.name, Backend.kotlin.spelling a.shape),
    (f.returns.map Backend.kotlin.spelling).getD "Unit"⟩

/-- **What the source declares**: the functions by which values cross the boundary, the members of objects and of
their converters, and the symbols. -/
structure DeclaresHeads (s : Surface) (lines : List Code) : Prop where
  crossings : ∀ h ∈ crossings "T", HasHead lines h
  members (o : Object) (ho : .object o ∈ s.model.definitions) :
    ∀ h ∈ requireHandleHead :: objectMembers o.name, HasHead lines h
  symbols (hs : s.spelling = .full) : ∀ f ∈ s.symbols, HasHead lines (symbolHead f)

theorem prototype_text (hs : s.spelling = .full) (f : Signature) :
    prototype s f = .ok ("fun " ++ (symbolHead f).text) := by
  rw [source_prototype_eq hs f, Head.text, symbolHead, List.map_map]
  simp only [String.append_assoc, Function.comp_def]

theorem symbols_declared (hs : s.spelling = .full) {lines : List Code} (h : libraryLines s = .ok lines) {f : Signature}
    (hf : f ∈ s.symbols) : HasHead lines (symbolHead f) := by
  obtain ⟨prototypes, hprototypes, h⟩ := bind_eq_ok.1 h
  obtain rfl := pure_eq_ok.1 h
  obtain ⟨text, htext, hmem⟩ := exists_right_of_forall₂ (mapM_eq_ok.1 hprototypes) hf
  obtain rfl := Except.ok.inj ((prototype_text hs f).symm.trans hmem)
  have hline : Code.text ("fun " ++ (symbolHead f).text) ∈ texts prototypes := List.mem_map_of_mem htext
  exact hasHead_moved "fun " "" rfl (List.mem_append_left _ (mem_braced (List.mem_append_right _ hline)))
    String.append_empty.symm

/-- **The source declares** what its wrappers call. -/
theorem sourceLines_heads {package : String} {lines : List Code} (h : sourceLines s package = .ok lines) :
    DeclaresHeads s lines := by
  obtain ⟨library, hlibrary, h⟩ := bind_eq_ok.1 h
  obtain rfl := pure_eq_ok.1 h
  constructor
  · let lib := libraryInterface s.ns ++ ".INSTANCE"
    intro h hh
    refine (crossings_declared lib (bufferFromBytesName s.ns) (bufferFreeName s.ns) h hh).mono fun line hline => ?_
    simp only [List.mem_append]
    tauto
  · intro o ho h hh
    have hobject : HasHead (objectLines s o) h :=
      List.forall_mem_cons.2 ⟨handle_declared s o, objectMembers_declared s o⟩ h hh
    refine hobject.mono fun line hline => ?_
    have hconverted : line ∈ (Converted.all s.model).flatMap (convertedLines s) :=
      List.mem_flatMap.2 ⟨.definition (.object o), List.mem_append_left _ (List.mem_map_of_mem ho), hline⟩
    simp only [List.mem_append]
    tauto
  · refine fun hs f hf => (symbols_declared hs hlibrary hf).mono fun line hline => ?_
    simp only [List.mem_append]
    tauto

/-- **The wrapper in Kotlin keeps to a signature.** -/
structure KeepsTo (s : Surface) (sig : Signature) (c : Callable) : Prop where
  /-- What an argument is lowered to has the type that is declared for the shape of its position. -/
  lowers : List.Forall₂ (fun a slot => Typed s.table (InWrapper s sig c) ((slotExpr s.table slot).textWith converter)
      (Backend.kotlin.spelling a.shape))
    sig.valueArguments (ownSlots s.table localName c)
  /-- The call is the text of a block. -/
  text : callExpr s (planOf s sig.name c) =
    (blockOf (planOf s sig.name c)).code s.table (libraryInterface s.ns) (planOf s sig.name c)
  /-- What the block passes has the shapes of the positions, just where arguments that share a local have one shape
  and no local is declared twice. -/
  placed : (∃ ms, (blockOf (planOf s sig.name c)).passes (c.params.map fun p => memberName p.name) = .ok ms ∧
        ms.map (·.shape? s.table) = sig.valueArguments.map fun a => some a.shape) ↔
      ShareShapes localName sig.valueArguments ∧
        ((planOf s sig.name c).inPlace = false → ((planOf s sig.name c).slots.map (·.target)).Nodup)
  /-- What a function or method returns has its declared type. -/
  returns (t : Ty) (hkind : c.kind ≠ .constructor) (ht : c.returns = some t) : Typed s.table (InWrapper s sig c)
    ((liftExpr s.table t (callExpr s (planOf s sig.name c))).textWith converter) (typeName t)
  /-- What a constructor keeps has the type of handles. -/
  constructs (hkind : c.kind = .constructor) : Typed s.table (InWrapper s sig c)
    (("checkHandle(" ++ callExpr s (planOf s sig.name c) ++ ")" : Code).textWith converter) "Long"

/-- **The wrappers of a surface** keep to signatures with its shapes. -/
theorem keepsTo_of_shapes
    (harguments : sig.valueArguments = receiverArgument c ++ c.params.map (argumentOf s.table))
    (hreturns : sig.returns = resultOf s.table c) : KeepsTo s sig c := by
  constructor
  · rw [harguments]
    refine (ownSlots_own s.table localName c).imp fun a slot hown => ?_
    rw [← hown.shape]
    exact slotExpr_typed hown.isOf fun howned => hown.shape.trans (hown.buffer howned)
  · exact callExpr_eq _ _
  · rw [harguments]
    exact passes_shapes_iff (slots_stand s.table localName sig.name c) (fun _ hslot => known_slots hslot)
      (fun _ hslot howned => shape_of_owned hslot howned) listName_not_target
  · intro t hkind ht
    refine returned_typed ?_
    rw [hreturns, returns_of_function hkind, ht, Option.map_some]
  · exact fun hkind => constructed_typed (hreturns.trans (returns_of_constructor hkind _))

end Emit.KotlinSource

/-! ## Accepted models -/

/-- **Wrappers agree with signatures.** In an accepted model the shape and the conversion of every type agree. The
signature of every callable has a handle for the receiver, the shapes of the parameters' types in their positions, and
the shape of the result. To these the wrappers in Python and in Kotlin keep: each argument is lowered, for itself, to
what has the shape of its position, and the result is lifted from its shape, in Kotlin by functions that the source
declares. What is passed in the call has the shapes of the positions, unless arguments of different shapes share a
local, or one is declared twice in Kotlin. -/
theorem boundary_agrees (g : Generation) {symbols : List Signature}
    (h : Generation.fresh Generation.derive g = .ok symbols) :
    let table := named g.model.definitions
    (∀ t, table.Defines t → TypeAgrees g.model t) ∧
      (∀ package lines, KotlinSource.sourceLines g.surface package = .ok lines →
        KotlinSource.DeclaresHeads g.surface lines) ∧
      ∀ sig ∈ symbols, ∀ c, sig.source = some c →
        sig.valueArguments = receiverArgument c ++ c.params.map (argumentOf table) ∧
        sig.returns = resultOf table c ∧
        (∀ limit b, Native.Wrappers.ofModel g.model limit = .ok b → Native.KeepsTo b sig c) ∧
        KotlinSource.KeepsTo g.surface sig c := by
  intro table
  rw [fresh_derive] at h
  obtain ⟨hpasses, rfl, hsymbols⟩ := derived_eq_ok h
  have hsound : g.model.Sound := sound_iff.2 ⟨hpasses, symbols_map_name g.model ▸ hsymbols⟩
  refine ⟨fun t ht => typeAgrees_of_defines hsound ht, fun _ _ => KotlinSource.sourceLines_heads,
    fun sig hsig c hc => ?_⟩
  obtain ⟨owner, rfl⟩ := eq_signatureOf hsig hc
  have harguments := valueArguments_signatureOf (m := g.model) owner c
  refine ⟨harguments, rfl, fun limit b hb => ?_, KotlinSource.keepsTo_of_shapes harguments rfl⟩
  obtain ⟨_, _, htable, -, -⟩ := Native.Wrappers.ofModel_eq_ok hb
  obtain ⟨-, rfl⟩ := tableOf_eq_ok.1 htable
  exact Native.keepsTo_of_ofModel hb (Native.Wrappers.table_of_ofModel hb htable) owner c

/-- A method with a string that is called like the handle of its receiver. -/
def setLabel : Callable := ⟨.method, "set", [⟨"handle", .string, false⟩], none, none⟩

/-- An object with that method. -/
def labelled : Object where
  name := "Thing"
  constructors := [⟨.constructor, "new", [], none, none⟩]
  methods := [setLabel]

/-- A model of that object. -/
def labelModel : Model := ⟨"n", [], [], [], [labelled], [], Eq.refl true⟩

/-- In neither language the handle is passed in its position. -/
theorem boundary_agrees_setLabel : ∃ (g : Generation) (symbols : List Signature) (sig : Signature) (limit : ℕ)
    (b : Native.Wrappers), Generation.fresh Generation.derive g = .ok symbols ∧ sig ∈ symbols ∧
      sig.source = some setLabel ∧ sig.valueArguments.map (·.shape) = [.handle, .buffer] ∧
      Native.Wrappers.ofModel g.model limit = .ok b ∧
      Native.passedShapes b sig setLabel ≠ [.handle, .buffer] ∧
      ¬∃ ms, (KotlinSource.blockOf (KotlinSource.planOf g.surface sig.name setLabel)).passes ["handle"] = .ok ms ∧
        ms.map (·.shape? g.surface.table) = [some .handle, some .buffer] := by
  have hpasses : labelModel.Passes := passes_of_isOk (by decide +kernel)
  let g := Generation.ofModel labelModel .default .full
  let sig := signatureOf labelModel (some labelled) setLabel
  have h : Generation.fresh Generation.derive g = .ok labelModel.symbols :=
    (fresh_derive g).trans (derived_of_nodup hpasses (by decide))
  have hsig : sig ∈ labelModel.symbols := List.mem_of_getElem? (i := 4) rfl
  have hshares (localName : String → String) : ¬ShareShapes localName sig.valueArguments := fun hshares =>
    absurd (hshares ⟨"handle", .handle, .borrowed⟩ (by decide) ⟨"handle", .buffer, .borrowed⟩ (by decide) rfl)
      (by decide)
  have hloads : (Native.Wrappers.ofModel labelModel 0).isOk = true := by decide +kernel
  cases hb : Native.Wrappers.ofModel labelModel 0 with
  | error e => exact absurd hloads (by simp [hb, Except.isOk, Except.toBool])
  | ok b =>
    obtain ⟨-, -, hpython, hkotlin⟩ := (boundary_agrees g h).2.2 sig hsig setLabel rfl
    refine ⟨g, _, sig, 0, b, h, hsig, rfl, rfl, hb, fun hheld => ?_, fun hpassed => ?_⟩
    · exact hshares _ ((hpython 0 b hb).placed.1 hheld)
    · exact hshares _ (hkotlin.placed.1 hpassed).1

end Bindgen
