import Bindgen.Emit.KotlinSource
import Bindgen.Proofs.Emit.Mentions
import Bindgen.Proofs.Outcome

/-!
# Converters in the Kotlin source

Converters are declared by `converterObject` and by two objects of the support code; all other lines are within
(`Code.Within`): support code, structs and classes refer to no converter, and what does is inside a class or moved to
the right. The first line of an object is that of its type (`headLine`).

Results:
* `sourceLines_declares`: the declarations of a source, in order, and the converters to which it refers: those of the
  types that its surface has to do with, besides those of primitives, text and bytes.
-/

namespace Bindgen.Emit.KotlinSource

open Interface Boundary Resolve Identifier Code

variable {P : Ty → Prop} {s : Surface} {table : Table} {plan : CallPlan} {t : Ty}

/-- The line that opens the converter of a type. -/
def headLine (t : Ty) : Code :=
  KotlinSupport.converterHead t (typeName t) ++ " \x7b"

/-- Lines that declare the converters of some types, and refer to those of others. -/
structure Declares (P : Ty → Prop) (declared : List Ty) (lines : List Code) : Prop where
  only : Each (Only P) lines
  declarations : declarations lines = declared.map headLine

theorem Declares.append {xs ys : List Code} {as bs : List Ty} (hx : Declares P as xs) (hy : Declares P bs ys) :
    Declares P (as ++ bs) (xs ++ ys) := by
  refine ⟨hx.only.append hy.only, ?_⟩
  rw [List.map_append, ← hx.declarations, ← hy.declarations]
  exact List.filter_append xs ys

theorem declares_nothing {lines : List Code} (h : Each (Within P) lines) : Declares P [] lines :=
  ⟨h.only, declarations_of_within h⟩

theorem Declares.flatMap {α : Type} {xs : List α} {f : α → List Code} {g : α → Ty}
    (h : ∀ x ∈ xs, Declares P [g x] (f x)) : Declares P (xs.map g) (xs.flatMap f) := by
  induction xs with
  | nil => exact declares_nothing .nil
  | cons x xs ih =>
    obtain ⟨hx, hxs⟩ := List.forall_mem_cons.1 h
    exact hx.append (ih hxs)

/-! ## Converters -/

/-- A body behind the line that opens a converter. -/
theorem braced_declares {lines : List Code} (ht : P t) (h : Each (Only P) lines) :
    Declares P [t] (braced (KotlinSupport.converterHead t (typeName t)) lines) := by
  refine ⟨by simp [KotlinSupport.converterHead, ht, h], ?_⟩
  have hbody := declarations_of_within ((indent_within (n := 4) h).append (texts_within ["\x7d"]))
  exact congrArg (headLine t :: ·) hbody

/-- **The converter of a type.** -/
theorem converterObject_declares (ht : P t) {read write extra : List Code} (hread : Each (Only P) read)
    (hwrite : Each (Only P) write) (hextra : Each (Only P) extra) :
    Declares P [t] (converterObject t (typeName t) read write extra) := by
  have hbodies : Each (Only P) (braced s!"override fun read(buf: ByteBuffer): {typeName t}" read ++ emptyLine ++
      braced s!"override fun write(value: {typeName t}, out: DataOutputStream)" write) := by simp [hread, hwrite]
  have hmore : Each (Only P) (if extra.isEmpty then [] else emptyLine ++ extra) :=
    .ite .nil (emptyLine_only.append hextra)
  exact (braced_declares ht (hbodies.append hmore)).append (declares_nothing emptyLine_within)

/-- **The converters of the support code.** -/
theorem builtinConverters_declares (h : ∀ t ∈ builtins, P t) : Declares P builtins builtinConverters := by
  obtain ⟨hprims, hothers⟩ := List.forall_mem_append.1 h
  obtain ⟨hstring, hbytes⟩ : P .string ∧ P .bytes := by simpa using hothers
  have hall : Declares P (Prim.all.map .prim) (Prim.all.flatMap fun p =>
      converterObject (.prim p) (primCode p).type ["return " ++ (primCode p).getter] [(primCode p).writer] []) :=
    .flatMap fun p hp => converterObject_declares (List.forall_mem_map.1 hprims p hp) (by simp) (by simp) .nil
  have hstrings : Declares P [.string] KotlinSupport.stringConverter := braced_declares hstring (by simp)
  have hbuffers : Declares P [.bytes] KotlinSupport.bytesConverter := braced_declares hbytes (by simp)
  have hempty : Declares P [] emptyLine := declares_nothing emptyLine_within
  exact (((hall.append hstrings).append hempty).append hbuffers).append hempty

/-! ## Fields and variants -/

section Fields

variable {fields : List Field} (h : ∀ f ∈ fields, P f.type)
include h

theorem readFields_only : Each (Only P) (readFields fields) := .map fun f hf => by simpa using h f hf

theorem writeFields_only (attr : Field → String) : Each (Only P) (writeFields attr fields) :=
  .map fun f hf => by simpa using h f hf

end Fields

section Choices

variable {e : Choice}

theorem variantReads_only {make : String → Variant → Code}
    (hmake : ∀ v ∈ e.variants, ∀ name, (make name v).Only P) : Each (Only P) (variantReads e make) := by
  refine braced_only.2 ⟨only_text _, .append (.map fun p hp => ?_) (texts_only _)⟩
  show (toString p.1 ++ " -> " ++ make (e.name ++ "." ++ pascal p.2.name) p.2 : Code).Only P
  simpa using hmake p.2 (mem_numbered hp) _

theorem variantWrites_only (h : ∀ v ∈ e.variants, ∀ f ∈ v.fields, P f.type) (attr : Field → String)
    {otherwise : List Code} (ho : Each (Only P) otherwise) :
    Each (Only P) (variantWrites e attr otherwise) := by
  refine braced_only.2 ⟨only_text _, .append (.flatMap fun p hp => ?_) ho⟩
  have hwrite := writeFields_only (h p.2 (mem_numbered hp)) attr
  show Each (Only P) (braced ("is " ++ e.name ++ "." ++ pascal p.2.name ++ " ->")
    (s!"out.writeInt({p.1})" :: writeFields attr p.2.fields))
  simpa using hwrite

theorem makeVariant_only {v : Variant} (h : ∀ f ∈ v.fields, P f.type) (name : String) :
    (makeVariant name v).Only P := by
  unfold makeVariant
  split
  · exact only_text name
  · simpa using only_join ", " (readFields_only h)

theorem makeError_only {v : Variant} (h : ∀ f ∈ v.fields, P f.type) (name : String) : (makeError name v).Only P := by
  have hreads : Each (Only P) (v.fields.map fun f =>
      memberName f.name ++ " = " ++ Code.converter f.type ++ ".read(buf)") :=
    .map fun f hf => by simpa using h f hf
  unfold makeError
  simpa using only_join ", " hreads

/-! ## Records, enums and errors -/

theorem recordLines_declares {r : Record} (hname : P (.named r.name)) (h : ∀ f ∈ r.fields, P f.type) :
    Declares P [.named r.name] (recordLines r) := by
  have hread := only_join ", " (readFields_only h)
  refine (declares_nothing (texts_within _)).append ?_
  exact converterObject_declares hname (by simpa using hread) (writeFields_only h fieldOf) .nil

theorem flatLines_declares (hname : P (.named e.name)) : Declares P [.named e.name] (flatLines e) := by
  refine (declares_nothing ((braced_within ?_).append emptyLine_within)).append
    (converterObject_declares hname ?_ ?_ .nil)
  all_goals simp

theorem enumLines_declares (hname : P (.named e.name)) (h : ∀ v ∈ e.variants, ∀ f ∈ v.fields, P f.type) :
    Declares P [.named e.name] (enumLines e) := by
  have hread := variantReads_only fun v hv name => makeVariant_only (h v hv) name
  unfold enumLines
  split
  · exact flatLines_declares hname
  · exact (declares_nothing ((braced_within (texts_only _)).append emptyLine_within)).append
      (converterObject_declares hname hread (variantWrites_only h fieldOf .nil) .nil)

theorem errorLines_declares (hname : P (.named e.name)) (h : ∀ v ∈ e.variants, ∀ f ∈ v.fields, P f.type) :
    Declares P [.named e.name] (errorLines e) := by
  have hread := variantReads_only fun v hv name => makeError_only (h v hv) name
  refine (declares_nothing ((braced_within ?_).append emptyLine_within)).append
    (converterObject_declares hname hread (variantWrites_only h setFieldOf (.single ?_)) .nil)
  · simp
  · simp

end Choices

/-! ## Calls -/

theorem lowerExpr_only (ht : P t) (value : String) : (lowerExpr table t value).Only P := by
  unfold lowerExpr
  split <;> simp [ht]

theorem liftExpr_only (ht : P t) {value : Code} (hvalue : value.Only P) : (liftExpr table t value).Only P := by
  unfold liftExpr
  split
  · dsimp only
    split <;> simpa using hvalue
  all_goals simp [ht, hvalue]

theorem slotExpr_only {slot : Slot} (h : slot.Only P) : (slotExpr table slot).Only P := by
  unfold slotExpr
  split
  · exact only_text _
  · next p horigin =>
    have ht : P p.type := h p horigin
    split
    · simpa using ht
    · exact lowerExpr_only ht _

theorem invoke_only (lib : String) {args : List Code} (h : Each (Only P) args) : (invoke lib plan args).Only P := by
  have hstatus := only_join ", " (h.append (texts_only ["_status"]))
  have hplain := only_join ", " h
  unfold invoke
  split
  · simpa using hstatus
  · simpa using hplain

theorem bindOwned_only {owned : List Slot} (h : ∀ slot ∈ owned, slot.Only P) :
    Each (Only P) (bindOwned table owned) := by
  unfold bindOwned
  split
  · next slot => exact .single (by simpa using slotExpr_only (h slot List.mem_cons_self))
  · have hblocks : Each (Only P) (owned.map fun slot => "\x7b " ++ slotExpr table slot ++ " \x7d") :=
      .map fun slot hslot => only_between (slotExpr_only (h slot hslot))
    exact (Each.single (only_between (only_join _ hblocks))).append (texts_only _)

theorem callExpr_only (s : Surface) (h : ∀ slot ∈ plan.slots, slot.Only P) : (callExpr s plan).Only P := by
  have hplace : Each (Only P) (plan.slots.map fun slot => slotExpr s.table (plan.inPlaceSlot slot)) :=
    .map fun slot hslot => slotExpr_only (inPlaceSlot_only h hslot)
  have hplain : Each (Only P) (plan.plain.map fun slot => "val " ++ slot.target ++ " = " ++ slotExpr s.table slot) :=
    .map fun slot hslot => by simpa using slotExpr_only (plain_only h slot hslot)
  have htargets : Each (Only P) (plan.slots.map fun slot => slot.target) := .map fun slot _ => only_text slot.target
  unfold callExpr
  split
  · exact invoke_only _ hplace
  · refine only_join "\n" (braced_only.2 ⟨only_text "run", ?_⟩)
    exact (hplain.append (bindOwned_only (owned_only h))).append (.single (invoke_only _ htargets))

theorem returnStatement_only (h : ∀ slot ∈ plan.slots, slot.Only P) {returns : Option Ty} (hr : ∀ t ∈ returns, P t) :
    (returnStatement s plan returns).Only P := by
  have hcall := callExpr_only s h
  cases returns with
  | none => exact hcall
  | some t => exact only_append.2 ⟨only_text _, liftExpr_only (hr t rfl) hcall⟩

/-! ## Functions and objects -/

section Wrappers

variable {f : Callable} (h : ∀ t ∈ f.roots, P t)
include h

theorem planOf_only (symbol : String) : ∀ slot ∈ (planOf s symbol f).slots, slot.Only P := slots_only h

theorem functionLines_within (symbol : String) : Each (Within P) (functionLines s symbol f) := by
  have hcall : (returnStatement s (planOf s symbol f) f.returns).Only P :=
    returnStatement_only (planOf_only h symbol) fun t ht => h t (List.mem_append_right _ (Option.mem_toList.2 ht))
  have hhead : Each (Only fun _ => False) ["fun " ++ memberName f.name ++ "(" ++ declareParams f.params ++ ")" ++
      returnType f.returns ++ " \x7b"] := by simp
  exact (within_of_none hhead).append (.cons (within_moved hcall) (texts_within ["\x7d"]))

theorem primaryLines_within (symbol : String) : Each (Within P) (primaryLines s symbol f) := by
  have hcall := callExpr_only s (planOf_only (s := s) h symbol)
  exact .cons (within_moved (by simpa using hcall)) emptyLine_within

theorem alternateLines_only (o : Object) (symbol : String) : Each (Only P) (alternateLines s o symbol f) := by
  have hcall := callExpr_only s (planOf_only (s := s) h symbol)
  simp [alternateLines, hcall]

end Wrappers

theorem lifecycleLines_only (o : Object) : Each (Only P) (lifecycleLines s o) := by
  simp [lifecycleLines]

section Sections

variable (hs : s.Covers P)
include hs

/-- What belongs to an object is a callable of the surface. -/
theorem membersOf_roots {o : Object} {keep : Callable → Bool} {p : String × Callable} (hp : p ∈ membersOf s o keep) :
    ∀ t ∈ p.2.roots, P t := by
  obtain ⟨f, hf, hsome⟩ := List.mem_filterMap.1 hp
  obtain ⟨c, hc, rfl⟩ := Option.map_eq_some_iff.1 hsome
  exact hs.callables f (List.mem_filter.1 hf).1 c (Option.filter_eq_some_iff.1 hc).1

theorem classLines_within (o : Object) : Each (Within P) (classLines s o) := by
  have hprimary : Each (Within P) ((membersOf s o (·.isPrimary)).flatMap fun p => primaryLines s p.1 p.2) :=
    .flatMap fun p hp => primaryLines_within (membersOf_roots hs hp) p.1
  have hmethods : Each (Only P) ((membersOf s o (·.kind != .constructor)).flatMap
      fun p => emptyLine ++ functionLines s p.1 p.2) :=
    .flatMap fun p hp => emptyLine_only.append (functionLines_within (membersOf_roots hs hp) p.1).only
  have halternates : Each (Only P) ((membersOf s o fun c => c.kind = .constructor && !c.isPrimary).flatMap
      fun p => alternateLines s o p.1 p.2) :=
    .flatMap fun p hp => alternateLines_only (membersOf_roots hs hp) o p.1
  have hcompanion := Each.ite (b := (membersOf s o fun c => c.kind = .constructor && !c.isPrimary).isEmpty = true)
    .nil (emptyLine_only.append (braced_only.2 ⟨only_text "companion object", halternates⟩))
  exact (((texts_within [_]).append hprimary).append
    (indent_within (((lifecycleLines_only o).append hmethods).append hcompanion))).append (texts_within _)

theorem objectLines_declares {o : Object} (hname : P (.named o.name)) :
    Declares P [.named o.name] (objectLines s o) := by
  refine (declares_nothing (classLines_within hs o)).append (converterObject_declares hname ?_ ?_ ?_)
  all_goals simp

/-- **What is declared for a definition.** -/
theorem definition_declares {d : Definition} (h : ∀ t ∈ d.roots, P t) :
    Declares P [.named d.name] (convertedLines s (.definition d)) := by
  obtain ⟨hname, htypes⟩ := List.forall_mem_cons.1 h
  have hfields : ∀ f ∈ d.fields, P f.type := List.forall_mem_map.1 htypes
  cases d with
  | record r => exact recordLines_declares hname hfields
  | enum e => exact enumLines_declares hname fun v hv f hf => hfields f (List.mem_flatMap.2 ⟨v, hv, hf⟩)
  | error e => exact errorLines_declares hname fun v hv f hf => hfields f (List.mem_flatMap.2 ⟨v, hv, hf⟩)
  | object o => exact objectLines_declares hs hname

end Sections

/-! ## Composites -/

/-- **The converter of a composite**; a box has none of its own. -/
theorem compositeLines_declares (ht : P t) (hinner : ∀ u ∈ t.children, P u) (hc : t.isComposite = true)
    (hb : Converted.isBox t = false) : Declares P [t] (compositeLines t) := by
  cases t with
  | optional u =>
    have hu : P u := hinner u List.mem_cons_self
    refine converterObject_declares ht ?_ ?_ .nil
    · simp [hu]
    · simp [hu]
  | sequence u =>
    have hu : P u := hinner u List.mem_cons_self
    refine converterObject_declares ht ?_ ?_ .nil
    · simp [hu]
    · simp [hu]
  | map k v =>
    have hk : P k := hinner k List.mem_cons_self
    have hv : P v := hinner v (List.mem_cons_of_mem k List.mem_cons_self)
    refine converterObject_declares ht ?_ ?_ .nil
    · simp [hk, hv]
    · simp [hk, hv]
  | box => exact absurd hb (by simp [Converted.isBox])
  | prim | string | bytes | named => exact absurd hc (by simp [Ty.isComposite])

/-! ## The source -/

theorem structsLines_within : Each (Within P) structsLines := by
  have hstructs : Each (Only fun _ => False) (StructName.all.flatMap structLines) :=
    .flatMap fun n _ => by simp [structLines]
  exact within_of_none ((texts_only _).append hstructs)

theorem libraryLines_within {lines : List Code} (h : libraryLines s = .ok lines) : Each (Within P) lines := by
  obtain ⟨prototypes, -, h⟩ := bind_eq_ok.1 h
  obtain rfl := pure_eq_ok.1 h
  exact within_of_none (by simp)

theorem support_within (lib fromBytes free : String) :
    Each (Within P) (KotlinSupport.functions lib fromBytes free) := by
  refine within_of_none ?_
  simp [KotlinSupport.functions, KotlinSupport.nativeException, KotlinSupport.internalException,
    KotlinSupport.errorHandler, KotlinSupport.checkBuffer, KotlinSupport.readBuffer, KotlinSupport.freeBuffer,
    KotlinSupport.liftBuffer, KotlinSupport.lowerOwned, KotlinSupport.lowerOwnedAll, KotlinSupport.lowerBorrowed,
    KotlinSupport.checkStatus, KotlinSupport.callWithError, KotlinSupport.checkHandle, KotlinSupport.decodeUtf8,
    KotlinSupport.lowerBoolean, KotlinSupport.liftBoolean, KotlinSupport.converterInterface]

/-- **The declarations of a source**, in order: those of the support code, then one for each definition and composite.
It refers to the converters of no other types than its surface has to do with, and those of the support code. -/
theorem sourceLines_declares (hs : s.Covers P) (hb : ∀ t ∈ builtins, P t) {package : String} {lines : List Code}
    (h : sourceLines s package = .ok lines) :
    Declares P (builtins ++ (Converted.all s.model).map (·.type)) lines := by
  obtain ⟨library, hlibrary, h⟩ := bind_eq_ok.1 h
  obtain rfl := pure_eq_ok.1 h
  have hall : ∀ x ∈ Converted.all s.model, Declares P [x.type] (convertedLines s x) := by
    intro x hx
    rcases List.mem_append.1 hx with hx | hx
    · obtain ⟨d, hd, rfl⟩ := List.mem_map.1 hx
      exact definition_declares hs (hs.definitions d hd)
    · obtain ⟨t, ht, rfl⟩ := List.mem_map.1 hx
      obtain ⟨hcomposite, hbox⟩ := List.mem_filter.1 ht
      obtain ⟨hself, hinner⟩ := hs.composites t hcomposite
      have hnobox : Converted.isBox t = false := by simpa using hbox
      exact compositeLines_declares hself hinner (List.mem_filter.1 hcomposite).2 hnobox
  rw [← List.append_nil (builtins ++ _)]
  refine (((declares_nothing ?_).append (builtinConverters_declares hb)).append (.flatMap hall)).append
    (declares_nothing (.flatMap fun f hf => ?_))
  · exact ((((texts_within _).append emptyLine_within).append structsLines_within).append
      (libraryLines_within hlibrary)).append (support_within _ _ _)
  · split
    · exact .nil
    · next c hc =>
      have hroots := hs.callables f (List.mem_filter.1 hf).1 c hc
      exact (functionLines_within hroots f.name).append emptyLine_within

end Bindgen.Emit.KotlinSource
