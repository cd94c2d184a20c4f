import Bindgen.Proofs.Native.Hindrance
import Bindgen.Proofs.Wire.Ordinary

/-!
# What a failed call tells

A call that can fail has an error record, and a code in it that is not that of success is raised: as a breach
of the protocol, or as an error of the class that the wrapper names, with the code and the text of the
message. The class of the error is that of the variant with the number of the code, if there is one.

A class that is generated for a variant keeps its own number (`Tells`) if no other variant has a class of the
same name, and if no field of it has a name that the making of an error uses: one that is called `code` takes
the place of the code. A wrapper raises errors of the class that is meant if its module and its own names
leave the name of the error alone (`Wrapper.Sees`).

Results:
* `fromCode_tells_iff`: the class of an error makes the right error of every code just when it tells.
* `Wrapper.run_raises`: what the run of a wrapper raises after a call that failed.
* `failures_told`: a declared error tells the code, or which errors do not.
-/

namespace Bindgen.Interface

/-- The place of the variant that has a code as its number. -/
def Choice.placeOf (e : Choice) (code : Int) : Option Nat :=
  if 1 ≤ code ∧ code ≤ e.variants.length then some (code - 1).toNat else none

theorem Choice.placeOf_eq_some {e : Choice} {code : Int} {i : Nat} :
    e.placeOf code = some i ↔ i < e.variants.length ∧ code = (i : Int) + 1 := by
  unfold Choice.placeOf
  constructor
  · intro h
    split at h
    · obtain rfl := Option.some.inj h
      omega
    · exact absurd h (by simp)
  · rintro ⟨hi, rfl⟩
    rw [if_pos (by omega)]
    simp

end Bindgen.Interface

namespace Bindgen.Native

open Interface Resolve Emit Identifier Wire

/-! ## Making errors -/

/-- The names of fields that an error without its fields cannot be made with. -/
def spoilingFields : List String :=
  [Builtin.parent.name, Schema.itemsName, "__class__", "__dict__", "__weakref__", "__suppress_context__"]

/-- The field that takes the place of the code. -/
def codeField : String := "code"

variable {b : Wrappers} {schema : Schema} {e : Choice}

theorem failureField_none {attr : String} (h : attr ∉ spoilingFields) :
    schema.failureField attr .none = .ok (attr, .none) := by
  simp only [spoilingFields, List.mem_cons, List.not_mem_nil, or_false, not_or] at h
  obtain ⟨-, hitems, hclass, hdict, hweak, hsuppress⟩ := h
  unfold Schema.failureField
  rw [if_neg hitems]
  simp [Value.isNone]

theorem failureField_spoilt {attr : String} (h : attr ∈ spoilingFields) (hparent : attr ≠ Builtin.parent.name) :
    ∀ p, schema.failureField attr .none ≠ .ok p := by
  have hall : ∀ a ∈ spoilingFields, a ≠ Builtin.parent.name →
      a = Schema.itemsName ∨ a = "__class__" ∨ a = "__dict__" ∨ a = "__weakref__" ∨
        a = "__suppress_context__" := by
    decide
  intro p
  unfold Schema.failureField
  obtain rfl | rfl | rfl | rfl | rfl := hall attr h hparent
  · rw [if_pos rfl]
    simp [Value.parts?, Value.items?]
  · rw [if_neg (by decide)]
    simp
  · rw [if_neg (by decide)]
    simp
  · rw [if_neg (by decide)]
    simp
  · rw [if_neg (by decide)]
    simp

/-- A fault that is no declared error. -/
def Undeclared (f : Fault) : Prop := ∀ className code text, f ≠ .declared className code text

theorem undeclared_failureField (attr : String) (v : Value) :
    Yields Undeclared (fun _ => True) (schema.failureField attr v) := by
  unfold Schema.failureField
  split
  · split
    · trivial
    · exact fun _ _ _ => Fault.noConfusion
  · split
    · exact fun _ _ _ => Fault.noConfusion
    · exact fun _ _ _ => Fault.noConfusion
    · exact fun _ _ _ => Fault.noConfusion
    · exact fun _ _ _ => Fault.noConfusion
    · split
      · exact fun _ _ _ => Fault.noConfusion
      · trivial

/-- What keeps an error from being made is no declared error. -/
theorem undeclared_makeFailure (cls : ClassRef) (message : String) (given : List (String × Value)) :
    Yields Undeclared (fun _ => True) (schema.makeFailure cls message given) := by
  have hknown : Yields Undeclared (fun _ => True) (schema.checkKnown cls given) := by
    unfold Schema.checkKnown
    split
    · exact fun _ _ _ => Fault.noConfusion
    · trivial
  unfold Schema.makeFailure
  refine hknown.bind fun _ _ => ?_
  dsimp only
  split
  · exact fun _ _ _ => Fault.noConfusion
  · split
    · exact fun _ _ _ => Fault.noConfusion
    · exact (Yields.mapM fun p _ => undeclared_failureField p.1 p.2).bind fun _ _ => trivial

/-- **What an error can be made without its fields**: none of them spoils it. -/
theorem makeFailure_nothing_iff {cls : ClassRef} {message : String} :
    (∃ v, schema.makeFailure cls message [] = .ok v) ↔
      schema.isTaken Builtin.parent.name = false ∧ ∀ a ∈ schema.attributes cls, a ∉ spoilingFields := by
  have hunset : (schema.attributes cls).map (fun a => (a, (([] : List (String × Value)).lookup a).getD .none)) =
      (schema.attributes cls).map fun a => (a, Value.none) := rfl
  have hkeys : ((schema.attributes cls).map fun a => (a, Value.none)).map (·.1) = schema.attributes cls := by
    rw [List.map_map]
    exact List.map_id _
  constructor
  · rintro ⟨v, h⟩
    unfold Schema.makeFailure at h
    obtain ⟨-, -, h⟩ := bind_eq_ok.1 h
    dsimp only at h
    rw [hunset] at h
    cases hsuper : ((schema.attributes cls).map fun a => (a, Value.none)).lookup Builtin.parent.name with
    | some w =>
      rw [hsuper] at h
      obtain ⟨_, h, -⟩ := bind_eq_ok.1 h
      exact absurd h (by simp [throw, throwThe, MonadExceptOf.throw])
    | none =>
      rw [hsuper] at h
      cases htaken : schema.isTaken Builtin.parent.name with
      | true =>
        rw [htaken] at h
        obtain ⟨_, h, -⟩ := bind_eq_ok.1 h
        exact absurd h (by simp [throw, throwThe, MonadExceptOf.throw])
      | false =>
        rw [htaken] at h
        obtain ⟨fields, hfields, -⟩ := bind_eq_ok.1 h
        refine ⟨rfl, fun a ha hspoilt => ?_⟩
        have hparent : a ≠ Builtin.parent.name := by
          rintro rfl
          obtain ⟨w, hw⟩ := exists_lookup (hkeys ▸ ha)
          exact absurd (hsuper.symm.trans hw) (by simp)
        obtain ⟨p, hp⟩ := exists_of_mapM_eq_ok hfields _ (List.mem_map_of_mem ha)
        exact failureField_spoilt hspoilt hparent p hp
  · rintro ⟨htaken, hfields⟩
    have hsuper : ((schema.attributes cls).map fun a => (a, Value.none)).lookup Builtin.parent.name = none := by
      rw [List.lookup_eq_none_iff]
      intro p hp
      obtain ⟨a, ha, rfl⟩ := List.mem_map.1 hp
      rw [bne_iff_ne]
      rintro rfl
      exact hfields _ ha (by decide)
    have hset : ∀ p ∈ (schema.attributes cls).map fun a => (a, Value.none),
        ∃ q, schema.failureField p.1 p.2 = .ok q := by
      rw [List.forall_mem_map]
      exact fun a ha => ⟨_, failureField_none (hfields a ha)⟩
    obtain ⟨fields, hset⟩ := exists_mapM_eq_ok hset
    refine ⟨.failure cls ((cls.variant.getD 0 : Nat) + firstVariant) message fields, ?_⟩
    unfold Schema.makeFailure
    rw [show schema.checkKnown cls [] = .ok () from rfl, bind_ok]
    dsimp only
    rw [hunset, hsuper, htaken]
    exact bind_eq_ok.2 ⟨fields, hset, rfl⟩

/-! ## The class of a code -/

/-- **An error that tells its codes**: no function has its name, and its variants have classes of their own,
each of which can be made and has no field in the place of its code. -/
structure Tells (schema : Schema) (e : Choice) : Prop where
  function : e.name ∉ schema.functions
  distinct : (e.variants.map fun v => pascal v.name).Nodup
  parent : e.variants ≠ [] → schema.isTaken Builtin.parent.name = false
  fields : ∀ i < e.variants.length, ∀ a ∈ schema.attributes ⟨e.name, some i⟩, a ≠ codeField ∧ a ∉ spoilingFields

instance (schema : Schema) (e : Choice) : Decidable (Tells schema e) :=
  decidable_of_iff (_ ∧ _ ∧ _ ∧ _) ⟨fun h => ⟨h.1, h.2.1, h.2.2.1, h.2.2.2⟩,
    fun h => ⟨h.function, h.distinct, h.parent, h.fields⟩⟩

/-- What is raised for a code: the error of the class that the code stands for. -/
def told (schema : Schema) (e : Choice) (code : Int) (text : String) : Fault :=
  .declared (schema.className ⟨e.name, e.placeOf code⟩) (.number code) text

/-- Variants with one class name share a class. -/
theorem variantClass_congr {i j : Nat} {v w : Variant} (hi : e.variants[i]? = some v)
    (hj : e.variants[j]? = some w) (h : pascal v.name = pascal w.name) :
    Schema.variantClass e i = Schema.variantClass e j := by
  have hsome : ∃ p, (e.variants.zipIdx.filter fun x => pascal x.1.name == pascal w.name).getLast? = some p := by
    rw [← Option.isSome_iff_exists, List.getLast?_isSome]
    refine List.ne_nil_of_mem (a := (w, j)) (List.mem_filter.2 ⟨?_, by simp⟩)
    exact List.mem_zipIdx_iff_getElem?.2 hj
  obtain ⟨p, hp⟩ := hsome
  unfold Schema.variantClass
  simp only [hi, hj, h, hp, Option.map_some, Option.getD_some]

/-- Each variant has a class of its own just where their class names differ. -/
theorem variantClass_eq_iff :
    (∀ i < e.variants.length, Schema.variantClass e i = i) ↔ (e.variants.map fun v => pascal v.name).Nodup := by
  constructor
  · intro h
    rw [List.nodup_iff_injective_getElem]
    rintro ⟨i, hi⟩ ⟨j, hj⟩ heq
    rw [List.length_map] at hi hj
    simp only [List.getElem_map] at heq
    have hclass := variantClass_congr (List.getElem?_eq_getElem hi) (List.getElem?_eq_getElem hj) heq
    rw [h i hi, h j hj] at hclass
    exact Fin.ext hclass
  · exact fun h i _ => variantClass_eq h i

theorem className_variant (i : Nat) (hi : i < e.variants.length)
    (hl : schema.table.lookup e.name = some (.error e)) :
    schema.className ⟨e.name, some i⟩ = "_" ++ e.name ++ "_" ++ pascal e.variants[i].name := by
  unfold Schema.className
  simp [hl, Schema.choice?, List.getElem?_eq_getElem hi]

/-- The classes of an error are found under their numbers. -/
theorem lookup_numbered {α : Type} (f : Nat → α) (code : Int) :
    ((List.range e.variants.length).map fun i => (((i + firstVariant : Nat) : Int), f i)).lookup code =
      (e.placeOf code).map f := by
  unfold Choice.placeOf
  by_cases h : 1 ≤ code ∧ code ≤ e.variants.length
  · have hlt : (code - 1).toNat < e.variants.length := by omega
    rw [if_pos h, Option.map_some]
    refine lookup_of_mem ?_ (List.mem_map.2 ⟨(code - 1).toNat, List.mem_range.2 hlt, ?_⟩)
    · rw [List.map_map]
      refine List.Nodup.map (fun i j hij => ?_) List.nodup_range
      simp only [Function.comp_apply, firstVariant] at hij
      omega
    · simp only [firstVariant, Prod.mk.injEq, and_true]
      omega
  · rw [if_neg h, Option.map_none, List.lookup_eq_none_iff]
    intro p hp
    obtain ⟨i, hi, rfl⟩ := List.mem_map.1 hp
    rw [List.mem_range] at hi
    rw [bne_iff_ne]
    intro hcode
    simp only [firstVariant] at hcode
    exact h ⟨by omega, by omega⟩

/-- The fault that the class of a variant is raised with. -/
def variantFault (v : ErrorVariant) (text : String) : Fault :=
  v.obstacle.getD (.declared v.className ((v.code.map .number).getD .unset) text)

/-- What the class of a declared error makes of a code. -/
theorem fromCode_errorClass (hl : b.schema.lookup e.name = some (.error e)) (code : Int) (text : String) :
    (b.errorClass e.name).fromCode code text = match e.placeOf code with
      | some i => variantFault (b.errorVariant e i) text
      | none => .declared e.name (.number code) text := by
  unfold Wrappers.errorClass ErrorClass.fromCode
  simp only [hl, lookup_numbered]
  cases e.placeOf code with
  | none => rfl
  | some i => rfl

/-- The class of a variant makes the right error just where it can be made and nothing hides its number. -/
theorem variantFault_eq_iff {i : Nat} {text : String} :
    variantFault (b.errorVariant e i) text =
        .declared (b.schema.className ⟨e.name, some i⟩) (.number ((i : Int) + 1)) text ↔
      Schema.variantClass e i = i ∧ b.schema.isTaken Builtin.parent.name = false ∧
        ∀ a ∈ b.schema.attributes ⟨e.name, some i⟩, a ≠ codeField ∧ a ∉ spoilingFields := by
  generalize hplace : Schema.variantClass e i = place
  unfold variantFault Wrappers.errorVariant
  simp only [hplace]
  cases hmake : b.schema.makeFailure ⟨e.name, some place⟩ "" [] with
  | error f =>
    have hundeclared : Undeclared f := (undeclared_makeFailure _ _ _).of_error hmake
    constructor
    · intro h
      exact absurd h (hundeclared _ _ _)
    · rintro ⟨rfl, htaken, hfields⟩
      obtain ⟨v, hv⟩ := makeFailure_nothing_iff.2 ⟨htaken, fun a ha => (hfields a ha).2⟩
      exact absurd (hmake.symm.trans hv) (by simp)
  | ok v =>
    obtain ⟨htaken, hfields⟩ := makeFailure_nothing_iff.1 ⟨v, hmake⟩
    by_cases hcode : codeField ∈ b.schema.attributes ⟨e.name, some place⟩
    · have hhidden : (b.schema.attributes ⟨e.name, some place⟩).contains codeField = true := by
        simpa using hcode
      constructor
      · intro h
        rw [show "code" = codeField from rfl, hhidden] at h
        exact absurd (Fault.declared.inj h).2.1 (by simp)
      · rintro ⟨rfl, -, h⟩
        exact absurd rfl (h codeField hcode).1
    · have hshown : (b.schema.attributes ⟨e.name, some place⟩).contains codeField = false := by
        simpa using hcode
      rw [show "code" = codeField from rfl, hshown]
      simp only [Option.getD_none, Bool.false_eq_true, if_false, Option.map_some, Option.getD_some,
        Fault.declared.injEq, FailureCode.number.injEq, firstVariant, and_true]
      constructor
      · rintro ⟨-, hnumber⟩
        obtain rfl : place = i := by omega
        exact ⟨rfl, htaken, fun a ha => ⟨fun he => hcode (he ▸ ha), hfields a ha⟩⟩
      · rintro ⟨rfl, -⟩
        exact ⟨rfl, by omega⟩

theorem lookup_of_table {name : String} {d : Definition} (hl : schema.table.lookup name = some d)
    (hname : name ∉ schema.functions) : schema.lookup name = some d := by
  unfold Schema.lookup
  rw [if_neg hname, hl]

/-- A function under the name of an error makes no error. -/
theorem fromCode_of_function (hname : e.name ∈ b.schema.functions) (code : Int) (text : String) :
    (b.errorClass e.name).fromCode code text = .unsupported := by
  have hl : b.schema.lookup e.name = none := if_pos hname
  unfold Wrappers.errorClass ErrorClass.fromCode
  simp only [hl]

/-- **The class of an error makes the right error of every code just when it tells.** -/
theorem fromCode_tells_iff (htl : b.schema.table.lookup e.name = some (.error e)) :
    (∀ code text, (b.errorClass e.name).fromCode code text = told b.schema e code text) ↔ Tells b.schema e := by
  by_cases hname : e.name ∈ b.schema.functions
  · constructor
    · intro h
      exact absurd ((fromCode_of_function hname 0 "").symm.trans (h 0 "")) (by simp [told])
    · exact fun h => absurd hname h.function
  have hl := lookup_of_table htl hname
  have heach : (∀ code text, (b.errorClass e.name).fromCode code text = told b.schema e code text) ↔
      ∀ i < e.variants.length, Schema.variantClass e i = i ∧ b.schema.isTaken Builtin.parent.name = false ∧
        ∀ a ∈ b.schema.attributes ⟨e.name, some i⟩, a ≠ codeField ∧ a ∉ spoilingFields := by
    constructor
    · intro h i hi
      have hcode := h ((i : Int) + 1) ""
      rw [fromCode_errorClass hl, told, Choice.placeOf_eq_some.2 ⟨hi, rfl⟩] at hcode
      exact variantFault_eq_iff.1 hcode
    · intro h code text
      rw [fromCode_errorClass hl, told]
      cases hplace : e.placeOf code with
      | none => rfl
      | some i =>
        obtain ⟨hi, rfl⟩ := Choice.placeOf_eq_some.1 hplace
        exact variantFault_eq_iff.2 (h i hi)
  rw [heach]
  constructor
  · intro h
    refine ⟨hname, variantClass_eq_iff.1 fun i hi => (h i hi).1, fun hne => ?_, fun i hi => (h i hi).2.2⟩
    exact (h 0 (List.length_pos_iff.2 hne)).2.1
  · intro h i hi
    exact ⟨variantClass_eq h.distinct i, h.parent (List.ne_nil_of_length_pos (by omega)), h.fields i hi⟩

/-- **The class that is raised for a code says which code it is**: it is that of a variant just when the code
is the number of the variant. -/
theorem Tells.class_eq_iff (h : Tells schema e) (hl : schema.table.lookup e.name = some (.error e)) {i : Nat}
    (hi : i < e.variants.length) (code : Int) :
    schema.className ⟨e.name, e.placeOf code⟩ = schema.className ⟨e.name, some i⟩ ↔ code = (i : Int) + 1 := by
  have hinj : ∀ j, j < e.variants.length →
      schema.className ⟨e.name, some j⟩ = schema.className ⟨e.name, some i⟩ → j = i := by
    intro j hj heq
    rw [className_variant j hj hl, className_variant i hi hl, String.append_right_inj] at heq
    have hpascal :
        (e.variants.map fun v => pascal v.name)[j]? = (e.variants.map fun v => pascal v.name)[i]? := by
      simp [hi, hj, heq]
    exact (List.getElem?_inj (by rwa [List.length_map]) h.distinct).1 hpascal
  constructor
  · intro heq
    cases hplace : e.placeOf code with
    | none =>
      rw [hplace, className_variant i hi hl] at heq
      have hlength := congrArg (fun name => name.toList.length) heq
      simp [Schema.className] at hlength
      omega
    | some j =>
      rw [hplace] at heq
      obtain ⟨hj, rfl⟩ := Choice.placeOf_eq_some.1 hplace
      rw [hinj j hj heq]
  · rintro rfl
    rw [Choice.placeOf_eq_some.2 ⟨hi, rfl⟩]

/-! ## The error record -/

/-- **A call that reports something**: a code that is not that of success, and a message that can be read. -/
structure Reports (s : Session) (bytes : List UInt8) : Prop where
  code : wrap32 s.answers.code ≠ successCode
  message : s.answers.message.read = .ok bytes

theorem Reports.of_next {s s' : Session} {δ : List Request} {bytes : List UInt8} (h : Reports s bytes)
    (hnext : s.Next δ s') : Reports s' bytes := by
  refine ⟨?_, ?_⟩
  · rw [hnext.code]
    exact h.code
  · rw [hnext.message]
    exact h.message

/-- A buffer without capacity has no contents. -/
theorem read_of_capacity_zero {buffer : Buffer} {bytes : List UInt8} (h : buffer.read = .ok bytes)
    (hcap : buffer.capacity = 0) : bytes = [] := by
  obtain ⟨u, hcheck, h⟩ := bind_eq_ok.1 h
  obtain rfl := pure_eq_ok.1 h
  unfold Buffer.check at hcheck
  split at hcheck
  · exact absurd hcheck (by simp)
  · next hlengths =>
    have hlen : buffer.len.toNat = 0 := by omega
    rw [hlen]
    rfl

/-- The text of a message that can be read. -/
theorem messageText_reads {buffer : Buffer} {bytes : List UInt8} (h : buffer.read = .ok bytes) (s : Session) :
    Ends (messageText buffer) s fun r δ _ =>
      r = .ok (Text.Utf8.decodeLossy bytes) ∧ δ = Wrappers.messageFreed buffer := by
  unfold messageText Wrappers.messageFreed
  by_cases hcap : buffer.capacity = 0
  · rw [if_pos hcap, if_pos hcap, read_of_capacity_zero h hcap]
    exact Ends.pure ⟨rfl, rfl⟩
  · rw [if_neg hcap, if_neg hcap, h]
    refine Ends.bind (Q := fun r δ _ => r = .ok () ∧ δ = [.freed buffer])
      (ends_free buffer fun _ _ => ⟨rfl, rfl⟩)
      (fun _ δ s' _ _ hδ => ?_) fun _ _ _ _ hq => absurd hq.1 (by simp)
    obtain ⟨-, rfl⟩ := hδ
    exact Ends.bind_steady (a := bytes) rfl (Ends.pure ⟨rfl, rfl⟩)

/-- The fault that a class of errors makes of a code and a text. -/
def raisedBy (cls : ErrorClass) (code : Int) (text : String) : Fault :=
  if code = unexpectedCode then .internal (.reported text) else cls.fromCode code text

theorem checkStatus_raises {code : Int} {message : Buffer} {bytes : List UInt8}
    (hcode : wrap32 code ≠ successCode)
    (hread : message.read = .ok bytes) (cls : ErrorClass) (s : Session) :
    Ends (checkStatus code message cls) s fun r δ _ =>
      r = .error (raisedBy cls (wrap32 code) (Text.Utf8.decodeLossy bytes)) ∧
        δ = Wrappers.messageFreed message := by
  unfold checkStatus raisedBy
  simp only [hcode, if_false]
  refine Ends.bind (messageText_reads hread s) (fun text δ s' _ _ hq => ?_)
    fun _ _ _ _ hq => absurd hq.1 (by simp)
  obtain ⟨htext, rfl⟩ := hq
  obtain rfl := Except.ok.inj htext
  by_cases hinternal : wrap32 code = unexpectedCode
  · simp only [hinternal, if_true]
    exact Ends.bind_throw ⟨rfl, List.append_nil _⟩
  · simp only [hinternal, if_false]
    exact Ends.throw ⟨rfl, List.append_nil _⟩

/-- **A call that reports something raises it** after the message is freed. -/
theorem call_raises {bytes : List UInt8} {s : Session} (h : Reports s bytes) (symbol : String)
    (args : List Passed)
    (cls : ErrorClass) :
    Ends (call symbol args (some cls)) s fun r δ _ =>
      if args.all Action.isPassable then
        r = .error (raisedBy cls (wrap32 s.answers.code) (Text.Utf8.decodeLossy bytes)) ∧
          δ = .called symbol args true :: Wrappers.messageFreed s.answers.message
      else r = .error .unsupported ∧ δ = [] := by
  unfold call
  refine Ends.bind
    (Q := fun r δ _ => if args.all Action.isPassable then (∃ v, r = .ok v) ∧ δ = [.called symbol args true]
      else r = .error .unsupported ∧ δ = [])
    (ends_invoke symbol args true (fun hall s' _ => ?_) fun hall => ?_) (fun result δ s' _ hnext hq => ?_)
    fun e δ _ _ hq => ?_
  · rw [if_pos hall]
    exact ⟨⟨_, rfl⟩, rfl⟩
  · rw [hall]
    exact ⟨rfl, rfl⟩
  · cases hall : args.all Action.isPassable with
    | false =>
      rw [hall] at hq
      exact absurd hq.1 (by simp)
    | true =>
      rw [hall, if_pos rfl] at hq
      obtain ⟨-, rfl⟩ := hq
      have hlater := h.of_next hnext
      refine Ends.bind_steady (a := s') rfl ?_
      refine Ends.bind (checkStatus_raises hlater.code hlater.message cls s')
        (fun _ _ _ _ _ hq => absurd hq.1 (by simp)) fun e δ _ _ hq => ?_
      rw [hnext.code, hnext.message] at hq
      obtain ⟨he, rfl⟩ := hq
      rw [if_pos rfl]
      exact ⟨congrArg _ (Except.error.inj he), rfl⟩
  · cases hall : args.all Action.isPassable with
    | false =>
      rw [hall] at hq
      exact hq
    | true =>
      rw [hall, if_pos rfl] at hq
      exact absurd hq.1 (by simp)

/-! ## Runs -/

namespace Wrapper

variable {w : Wrapper} {args : List Value} {cs : List Copy} {scope : Scope}

/-- **A wrapper that sees an error** under its name: no parameter or local has taken it, and it is not called
otherwise inside the class of the wrapper. -/
structure Sees (b : Wrappers) (w : Wrapper) (name : String) : Prop where
  inside : (w.frame b).inside name = name
  receiver : name ∉ PythonModule.receiverParams w.source
  locals : name ∉ (w.frame b).locals

instance (b : Wrappers) (w : Wrapper) (name : String) : Decidable (w.Sees b name) :=
  decidable_of_iff (_ ∧ _ ∧ _) ⟨fun h => ⟨h.1, h.2.1, h.2.2⟩, fun h => ⟨h.inside, h.receiver, h.locals⟩⟩

/-- The class of its errors is found by a wrapper that sees it. -/
theorem Sees.reported {name : String} (h : w.Sees b name) (herror : (w.plan b).error = some name)
    {s : Session} (ready : w.Ready b s args cs scope) (hcount : args.length = w.source.params.length) :
    b.reported (w.frame b) scope (w.plan b) = pure (some (b.errorClass name)) := by
  have hnone : scope.lookup name = none := by
    cases hl : scope.lookup name with
    | none => rfl
    | some bound =>
      have hkey := (ready.keys hcount name).1 (List.mem_map_of_mem (mem_of_lookup hl))
      exact absurd hkey (not_or_intro h.receiver h.locals)
  unfold Wrappers.reported Wrappers.errorIn
  rw [herror]
  simp only [h.inside, hnone, h.locals, bne_self_eq_false, decide_false, Bool.or_false, Bool.false_eq_true,
    if_false]

/-- **The call of a plan that reports something** raises it, unless something keeps it from being made. -/
theorem callPlan_raises (hb : b.Grows) {name : String} (herror : (w.plan b).error = some name)
    (hsees : w.Sees b name) {s₀ : Session} (ready : w.Ready b s₀ args cs scope)
    (hcount : args.length = w.source.params.length) {s : Session} {bytes : List UInt8} (h : Reports s bytes)
    {f : Fault} (hf : raisedBy (b.errorClass name) (wrap32 s.answers.code) (Text.Utf8.decodeLossy bytes) = f)
    (hplain : b.settle (.error f : Except Fault Passed) = throw f) :
    Ends (b.callPlan (w.frame b) scope (w.plan b)) s fun r δ _ =>
      (∃ e, r = .error e) ∧ ((w.plan b).inPlace = true ∧ b.Aside δ ∨ δ = []) ∨
      ∃ passed, r = .error f ∧ δ = .called ((w.frame b).inside (w.plan b).symbol) passed true ::
        Wrappers.messageFreed s.answers.message := by
  unfold Wrappers.callPlan
  refine (Wrappers.need_checks b _ _).ends (fun _ _ _ => ?_) fun _ => .inl ⟨⟨_, rfl⟩, .inr rfl⟩
  refine (Wrappers.need_checks b _ _).ends (fun _ _ _ => ?_) fun _ => .inl ⟨⟨_, rfl⟩, .inr rfl⟩
  refine Ends.bind (Wrappers.passing_ends hb ready s) (fun passed δ s' _ _ hq => ?_)
    fun e δ s' _ hq => .inl ⟨⟨e, rfl⟩, .inl hq⟩
  obtain ⟨rfl, rfl, -⟩ := hq
  rw [hsees.reported herror ready hcount, pure_bind]
  refine Ends.bind_attempt (call_raises h _ passed (b.errorClass name)) fun r δ s'' _ hq => ?_
  cases hall : passed.all Action.isPassable with
  | false =>
    rw [hall] at hq
    obtain ⟨rfl, rfl⟩ := hq
    exact Ends.throw (.inl ⟨⟨_, rfl⟩, .inr rfl⟩)
  | true =>
    rw [hall, if_pos rfl, hf] at hq
    obtain ⟨rfl, rfl⟩ := hq
    rw [hplain]
    exact Ends.throw (.inr ⟨passed, rfl, by simp⟩)

/-- **What a run raises after a call that reports something.** -/
theorem run_raises (hb : b.Grows) {name : String} (herror : (w.plan b).error = some name) (hsees : w.Sees b name)
    (args : List Value) {s : Session} {bytes : List UInt8} (h : Reports s bytes) {f : Fault}
    (hf : raisedBy (b.errorClass name) (wrap32 s.answers.code) (Text.Utf8.decodeLossy bytes) = f)
    (hplain : b.settle (.error f : Except Fault Passed) = throw f) :
    Ends (w.run b args) s fun r δ _ => Uncalled b r δ ∨ ∃ (cs : List Copy) (passed : List Passed),
      δ = cs.map Copy.asked ++ .called ((w.frame b).inside (w.plan b).symbol) passed true ::
        Wrappers.messageFreed s.answers.message ∧ r = .error f := by
  refine w.run_to_call hb args s (fun e δ s' h => .inl ⟨⟨e, rfl⟩, .inl h⟩)
    fun cs scope s' hcount ready hnext hsame => ?_
  refine (w.finish_checks b).ends (fun _ _ _ => ?_) fun _ => .inl ⟨⟨_, rfl⟩, .inr ⟨cs, List.append_nil _⟩⟩
  rw [← hnext.code] at hf
  refine Ends.bind (callPlan_raises hb herror hsees ready hcount (h.of_next hnext) hf hplain)
    (fun result δ s'' _ _ hq => ?_) fun e δ s'' _ hq => ?_
  · obtain ⟨⟨e, he⟩, -⟩ | ⟨passed, he, -⟩ := hq
    · exact absurd he (by simp)
    · exact absurd he (by simp)
  · obtain ⟨-, ⟨hplace, ha⟩ | rfl⟩ | ⟨passed, he, rfl⟩ := hq
    · obtain ⟨rfl, -⟩ := hsame hplace
      exact .inl ⟨⟨e, rfl⟩, .inl (.of_aside ha)⟩
    · exact .inl ⟨⟨e, rfl⟩, .inr ⟨cs, List.append_nil _⟩⟩
    · rw [hnext.message]
      exact .inr ⟨cs, passed, rfl, congrArg _ (Except.error.inj he)⟩

end Wrapper

/-! ## What is told -/

theorem settle_internal (breach : Breach) :
    b.settle (.error (.internal breach) : Except Fault Passed) = throw (.internal breach) := rfl

theorem settle_declared (className : String) (code : FailureCode) (text : String) :
    b.settle (.error (.declared className code text) : Except Fault Passed) =
      throw (.declared className code text) := rfl

/-- **A failed call tells its code**, or which errors do not. In the module of an accepted model a declared
error makes the right error of every code just when it `Tells`: one with the code and the text, of the class
of the variant that has the code as its number, and of that class for no other code. A wrapper that throws
such an error and sees it raises it whenever its call reports a code with a message: the error of the code, or
for the code of a broken protocol that breach. -/
theorem failures_told {m : Model} {limit : ℕ} (hm : Wrappers.ofModel m limit = .ok b) (he : e ∈ m.errors) :
    ((∀ code text, (b.errorClass e.name).fromCode code text = told b.schema e code text) ↔ Tells b.schema e) ∧
    (Tells b.schema e →
      (∀ i < e.variants.length, ∀ code : Int,
        b.schema.className ⟨e.name, e.placeOf code⟩ = b.schema.className ⟨e.name, some i⟩ ↔
          code = (i : Int) + 1) ∧
      ∀ (w : Wrapper) (args : List Value) (s : Session) (bytes : List UInt8),
        (w.plan b).error = some e.name → w.Sees b e.name → Reports s bytes →
        Ends (w.run b args) s fun r δ _ => Wrapper.Uncalled b r δ ∨ ∃ (cs : List Copy) (passed : List Passed),
          δ = cs.map Copy.asked ++ .called ((w.frame b).inside (w.plan b).symbol) passed true ::
            Wrappers.messageFreed s.answers.message ∧
          r = .error (if wrap32 s.answers.code = unexpectedCode
            then .internal (.reported (Text.Utf8.decodeLossy bytes))
            else told b.schema e (wrap32 s.answers.code) (Text.Utf8.decodeLossy bytes))) := by
  have hdef : Definition.error e ∈ m.definitions := by
    unfold Model.definitions
    simp [he]
  have htl : b.schema.table.lookup e.name = some (.error e) := Wrappers.lookup_definition hm hdef
  refine ⟨fromCode_tells_iff htl, fun htells => ⟨fun i hi code => htells.class_eq_iff htl hi code, ?_⟩⟩
  intro w args s bytes herror hsees hreports
  refine Wrapper.run_raises (Wrappers.grows_of_ofModel hm) herror hsees args hreports ?_ ?_
  · unfold raisedBy
    rw [(fromCode_tells_iff htl).2 htells]
  · split
    · exact settle_internal _
    · exact settle_declared _ _ _

/-- The class, the code and the text of a declared error in which a run ends. -/
def toldIn : Except Fault Value → Option (String × FailureCode × String)
  | .error (.declared className code text) => some (className, code, text)
  | _ => none

/-- The wrapper of a function that can fail. -/
def cook : Wrapper := .callable none ⟨.function, "cook", [], none, some "Fault"⟩ none

/-- The error that it throws. -/
def kitchenFault : Choice := ⟨"Fault", [⟨"bad_food", [⟨"smell", .string⟩]⟩, ⟨"too_hot", []⟩]⟩

/-- A model with that function and error. -/
def kitchenModel : Model where
  ns := "n"
  records := []
  enums := []
  errors := [kitchenFault]
  objects := []
  functions := [cook.source]

/-- A session in which a call reports the code 2. -/
def hotSession : Session :=
  { Session.start with answers := { Answers.plain with code := 2, message := ⟨3, 3, some [104, 111, 116]⟩ } }

/-- The second variant is raised for the code 2. -/
theorem failures_told_kitchen : ∃ b, Wrappers.ofModel kitchenModel 0 = .ok b ∧ Tells b.schema kitchenFault ∧
    cook.Sees b kitchenFault.name ∧ Reports hotSession [104, 111, 116] ∧
    toldIn (cook.run b [] hotSession).1 = some ("_Fault_TooHot", .number 2, "hot") ∧
    Ends (cook.run b []) hotSession fun r δ _ => Wrapper.Uncalled b r δ ∨
      ∃ (cs : List Copy) (passed : List Passed),
        δ = cs.map Copy.asked ++ .called ((cook.frame b).inside (cook.plan b).symbol) passed true ::
          Wrappers.messageFreed hotSession.answers.message ∧
        r = .error (told b.schema kitchenFault 2 (Text.Utf8.decodeLossy [104, 111, 116])) := by
  have hruns : (Wrappers.ofModel kitchenModel 0).toOption.map (fun b =>
      (decide (Tells b.schema kitchenFault ∧ cook.Sees b kitchenFault.name ∧
        (cook.plan b).error = some kitchenFault.name), toldIn (cook.run b [] hotSession).1)) =
          some (true, some ("_Fault_TooHot", .number 2, "hot")) := by
    decide +kernel
  cases hm : Wrappers.ofModel kitchenModel 0 with
  | error e => rw [hm] at hruns; exact absurd hruns (by simp [Except.toOption])
  | ok b =>
    rw [hm] at hruns
    obtain ⟨hmeets, htold⟩ := Prod.mk.inj (Option.some.inj hruns)
    obtain ⟨htells, hsees, herror⟩ := of_decide_eq_true hmeets
    have hreports : Reports hotSession [104, 111, 116] := ⟨by decide, rfl⟩
    refine ⟨b, rfl, htells, hsees, hreports, htold, ?_⟩
    exact ((failures_told hm List.mem_cons_self).2 htells).2 cook [] hotSession _ herror hsees hreports

/-- A field that is called like the code hides it. -/
example : ¬Tells ⟨named [.error ⟨"Fault", [⟨"bad_food", [⟨"code", .prim .i32⟩]⟩]⟩], []⟩
    ⟨"Fault", [⟨"bad_food", [⟨"code", .prim .i32⟩]⟩]⟩ := by decide

end Bindgen.Native
