import Bindgen.Proofs.Emit.Sharing
import Bindgen.Proofs.Native.Places

/-!
# What fits a shape

A boundary shape says what may stand in its place of a call: a buffer, a handle, or the value of a primitive
(`Passed.Fits`). What an argument is lowered to fits the shape of its type (`lowers_fits`), so that what a run of a
wrapper passes fits the shapes of the slots that its locals hold (`passes_fits`).

A wrapper makes its result of what its call returns. It takes what fits the shape of the result and refuses what is
of another kind (`Takes`): buffers are read and freed, handles get an object that owns them, and the value of a
primitive becomes one that is lowered to it again.

Results:
* `lowers_fits`, `lowers_handle`, `passes_fits`: what is passed.
* `liftResult_takes`, `constructor_takes`: what is returned.
-/

namespace Bindgen.Wire

open Interface Resolve Boundary

/-- **What a primitive is passed as**: an integer in its range, a real number, or 0 or 1 for a boolean. -/
def PrimFormat.Passable : PrimFormat → Value → Prop
  | .int f, v => ∃ n, v = .int n ∧ f.contains n = true
  | .real _, v => ∃ bits, v = .real bits
  | .boolean, v => v = .int 0 ∨ v = .int 1

variable {s : Schema} {f : PrimFormat} {v w : Value}

theorem PrimFormat.lower_passable (h : f.lower s v = .ok w) : f.Passable w := by
  obtain ⟨_, hcheck, h⟩ := bind_eq_ok.1 h
  cases f with
  | int f =>
    cases v with
    | int n =>
      obtain rfl := Except.ok.inj h
      refine ⟨n, rfl, ?_⟩
      by_contra hout
      exact absurd hcheck (by simp [PrimFormat.check, hout])
    | _ => exact absurd hcheck (by simp [PrimFormat.check])
  | real f =>
    obtain ⟨bits, -, h⟩ := bind_eq_ok.1 h
    exact ⟨bits, (pure_eq_ok.1 h).symm⟩
  | boolean =>
    cases v with
    | bool b =>
      obtain rfl := Except.ok.inj h
      cases b with
      | false => exact .inl rfl
      | true => exact .inr rfl
    | _ => exact absurd hcheck (by simp [PrimFormat.check])

/-- **What a primitive is passed as** stands for a value that is lowered to it again. -/
theorem PrimFormat.lift_passable (s : Schema) (h : f.Passable v) : ∃ w, f.lift s v = .ok w ∧ f.lower s w = .ok v := by
  cases f with
  | int f =>
    obtain ⟨n, rfl, hn⟩ := h
    exact ⟨.int n, rfl, by simp [PrimFormat.lower, PrimFormat.check, hn]⟩
  | real f =>
    obtain ⟨bits, rfl⟩ := h
    exact ⟨.real bits, rfl, rfl⟩
  | boolean =>
    have hzero : (Value.int 0).same (.int 1) = false := by decide
    rcases h with rfl | rfl
    · exact ⟨.bool false, by simp only [PrimFormat.lift, hzero]; rfl, rfl⟩
    · exact ⟨.bool true, rfl, rfl⟩

/-- What an object is lowered to is the handle that it owns. -/
theorem lowerObject_handle {name : String} {o h : Value} (hlower : lowerObject s name o = .ok h) :
    o.handle = .ok h := by
  obtain ⟨_, -, hlower⟩ := bind_eq_ok.1 hlower
  obtain ⟨_, -, hlower⟩ := bind_eq_ok.1 hlower
  exact hlower

/-- A new object owns the handle that it is made of. -/
theorem newObject_handle {name : String} {h o : Value} (ho : newObject name h = .ok o) : o.handle = .ok h := by
  obtain ⟨handle, hcheck, ho⟩ := bind_eq_ok.1 ho
  obtain rfl := pure_eq_ok.1 ho
  unfold checkHandle at hcheck
  split at hcheck
  · obtain rfl := Except.ok.inj hcheck
    rfl
  · exact absurd hcheck (by simp)

theorem madeObject_handle {name : String} {h o : Value} (ho : madeObject s name h = .ok o) : o.handle = .ok h := by
  obtain ⟨made, hmade, ho⟩ := bind_eq_ok.1 ho
  obtain ⟨_, -, ho⟩ := bind_eq_ok.1 ho
  obtain rfl := pure_eq_ok.1 ho
  exact newObject_handle hmade

theorem liftObject_handle {name : String} {h o : Value} (ho : liftObject s name h = .ok o) : o.handle = .ok h := by
  obtain ⟨_, -, ho⟩ := bind_eq_ok.1 ho
  exact madeObject_handle ho

end Bindgen.Wire

namespace Bindgen.Native

open Interface Boundary Resolve Emit Identifier Wire Emit.CallPlan

/-- **What fits a shape.** Only the native library can interpret a handle. -/
inductive Passed.Fits : Passed → Shape → Prop
  | buffer (b : Buffer) : Fits (.buffer b) .buffer
  | handle (h : Value) : Fits (.value h) .handle
  | scalar {p : Prim} {v : Value} (passable : (primFormat p).Passable v) : Fits (.value v) (.ofPrim p)

variable {b : Wrappers} {s : Session} {f : Frame}

/-! ## What is passed -/

theorem lowers_value {t : Ty} (h : (b.schema.table.conversionOf t).usesBuffer = false) {v : Value} {passed : Passed} :
    b.Lowers t v passed ↔ ∃ lowered, (b.converter t).lower v = .ok lowered ∧ passed = .value lowered := by
  rw [Wrappers.Lowers, if_neg (by simp [h])]

/-- How the values of primitives are lowered and lifted. -/
theorem lower_prim {t : Ty} {p : Prim} (ht : t.unbox = .prim p) (v : Value) :
    (b.converter t).lower v = (primFormat p).lower b.schema v := by
  simp [Converter.lower, Wrappers.converter, ht]

theorem lift_prim {t : Ty} {p : Prim} (ht : t.unbox = .prim p) (v : Value) :
    (b.converter t).lift v = (primFormat p).lift b.schema v := by
  simp [Converter.lift, Wrappers.converter, ht]

/-- **What a value is lowered to fits the shape of its type.** -/
theorem lowers_fits {t : Ty} {v : Value} {passed : Passed} (h : b.Lowers t v passed) :
    passed.Fits (b.schema.table.shapeOf t) := by
  have hprim (p : Prim) (ht : t.unbox = .prim p) (hbuffer : (b.schema.table.conversionOf t).usesBuffer = false) :
      passed.Fits (.ofPrim p) := by
    obtain ⟨lowered, hlower, rfl⟩ := (lowers_value hbuffer).1 h
    rw [lower_prim ht] at hlower
    exact .scalar (PrimFormat.lower_passable hlower)
  have hbuffer (huses : (b.schema.table.conversionOf t).usesBuffer = true) : passed.Fits .buffer := by
    rw [Wrappers.Lowers, if_pos huses] at h
    obtain ⟨bytes, -, rfl⟩ := h
    exact .buffer _
  cases crossing b.schema.table t with
  | number _ unbox shape conversion => exact shape ▸ hprim _ unbox (by rw [conversion]; rfl)
  | boolean unbox shape conversion => exact shape ▸ hprim .bool unbox (by rw [conversion]; rfl)
  | object _ _ shape conversion =>
    obtain ⟨lowered, -, rfl⟩ := (lowers_value (by rw [conversion]; rfl)).1 h
    exact shape ▸ .handle lowered
  | raw shape conversion => exact shape ▸ hbuffer (by rw [conversion]; rfl)
  | encoded shape conversion => exact shape ▸ hbuffer (by rw [conversion]; rfl)

/-- **What is passed in the place of a handle** is the handle that the argument owns. -/
theorem lowers_handle {t : Ty} {v : Value} {passed : Passed} (hshape : b.schema.table.shapeOf t = .handle)
    (h : b.Lowers t v passed) : ∃ handle, v.handle = .ok handle ∧ passed = .value handle := by
  have hconversion := (conversionOf_suits b.schema.table t).handle.1 hshape
  obtain ⟨lowered, hlower, rfl⟩ := (lowers_value (by rw [hconversion]; rfl)).1 h
  cases crossing b.schema.table t with
  | object unbox _ _ _ =>
    refine ⟨lowered, ?_, rfl⟩
    simp only [Converter.lower, Wrappers.converter, unbox] at hlower
    split at hlower
    · exact lowerObject_handle hlower
    · exact absurd hlower (by simp)
  | number _ _ _ conversion | boolean _ _ conversion | raw _ conversion | encoded _ conversion =>
    exact absurd (conversion.symm.trans hconversion) (by decide)

/-- What a term stands for fits the shape of the term, where only buffers are copied. -/
theorem denotes_fits {scope₀ : Scope} {copies : List (Slot × Copy)} {τ : Term} {bound : Bound} {shape : Shape}
    (hcopies : ∀ e ∈ copies, e.1.shape b.schema.table = .buffer) (h : b.Denotes f s scope₀ copies τ bound)
    (hτ : τ.shape? b.schema.table = some shape) : bound.asPassed.Fits shape := by
  cases h with
  | given found => exact absurd hτ (by simp [Term.shape?])
  | handle plain label_eq held =>
    obtain rfl := Option.some.inj hτ
    exact .handle _
  | lent origin plain source lowers =>
    obtain rfl := Option.some.inj hτ
    simp only [Slot.shape, origin]
    exact lowers_fits lowers
  | copied origin owned source encodes made =>
    obtain rfl := Option.some.inj hτ
    rw [hcopies _ made]
    exact .buffer _

/-- **What a wrapper passes** fits the shapes of the slots that its locals hold. -/
theorem passes_fits {w : Wrapper} {args : List Value} {cs : List Copy} {passed : List Passed}
    (h : w.PassedFor b s args cs ((w.plan b).terms (w.frame b).inside) passed) :
    List.Forall₂ Passed.Fits passed
      ((w.plan b).heldShapes b.schema.table ((w.plan b).readAs (w.frame b).inside)) := by
  have hcopies : ∀ e ∈ (w.plan b).owned.zip cs, e.1.shape b.schema.table = .buffer := by
    intro e he
    obtain ⟨hmem, howned⟩ := mem_slots_of_owned (List.of_mem_zip he).1
    exact shape_of_owned hmem howned
  have hshapes := map_eq_map_iff.1 (terms_shape? b.schema.table (w.frame b).inside (w.plan b))
  refine forall₂_compose h hshapes fun τ p shape hp hτ => ?_
  obtain ⟨bound, hbound, rfl⟩ := hp
  exact denotes_fits hcopies hbound hτ

/-! ## What is returned -/

/-- **What makes a value of a result takes what fits a shape**, and refuses what is of another kind. -/
inductive Takes (b : Wrappers) (make : Passed → Action Value) : Shape → Prop
  /-- Buffers are read and freed. -/
  | buffer (decode : List UInt8 → Action Value) (reads : ∀ buffer, make (.buffer buffer) = lift decode buffer)
      (refuses : ∀ v, ∃ e, make (.value v) = throw e) : Takes b make .buffer
  /-- A handle gets an object that owns it. -/
  | handle (own : Value → Except Fault Value) (owns : ∀ h, make (.value h) = b.settle (own h))
      (keeps : ∀ h o, own h = .ok o → o.handle = .ok h)
      (refuses : ∀ buffer, ∃ e, make (.buffer buffer) = throw e) : Takes b make .handle
  /-- A primitive becomes a value that is lowered to it again. -/
  | scalar {p : Prim} (lifts : ∀ v, (primFormat p).Passable v →
        ∃ w, make (.value v) = pure w ∧ (primFormat p).lower b.schema w = .ok v)
      (refuses : ∀ buffer, ∃ e, make (.buffer buffer) = throw e) : Takes b make (.ofPrim p)

/-- The value of a primitive is taken where a wrapper lifts it as one. -/
theorem prim_takes {t : Ty} (p : Prim) (ht : t.unbox = .prim p) {make : Passed → Action Value}
    (hlifts : ∀ v, make (.value v) = b.settle ((b.converter t).lift v))
    (hrefuses : ∀ buffer, ∃ e, make (.buffer buffer) = throw e) : Takes b make (.ofPrim p) := by
  refine .scalar (fun v hv => ?_) hrefuses
  obtain ⟨w, hlift, hlower⟩ := PrimFormat.lift_passable b.schema hv
  refine ⟨w, ?_, hlower⟩
  rw [hlifts, lift_prim ht, hlift]
  rfl

/-- **The result of a function or method** is taken in the shape of its type. -/
theorem liftResult_takes (b : Wrappers) (f : Frame) (t : Ty) :
    Takes b (b.liftResult f t) (b.schema.table.shapeOf t) := by
  let decode (bytes : List UInt8) : Action Value := do
    b.needConverter f t
    b.settle ((b.converter t).decode bytes)
  cases crossing b.schema.table t with
  | number _ unbox shape conversion =>
    rw [shape]
    exact prim_takes _ unbox (fun v => by simp only [Wrappers.liftResult, conversion])
      fun buffer => ⟨.unsupported, by simp only [Wrappers.liftResult, conversion]⟩
  | boolean unbox shape conversion =>
    rw [shape]
    exact prim_takes .bool unbox (fun v => by simp only [Wrappers.liftResult, conversion])
      fun buffer => ⟨.internal (.invalidBoolean (bufferText buffer.capacity buffer.len buffer.memory.isSome)),
        by simp only [Wrappers.liftResult, conversion]⟩
  | object unbox _ shape conversion =>
    rw [shape]
    refine .handle (b.converter t).lift (fun v => by simp only [Wrappers.liftResult, conversion])
      (fun h o ho => ?_) fun buffer => ⟨.unsupported, by simp only [Wrappers.liftResult, conversion]⟩
    simp only [Converter.lift, Wrappers.converter, unbox] at ho
    split at ho
    · exact liftObject_handle ho
    · exact absurd ho (by simp)
  | raw shape conversion =>
    rw [shape]
    exact .buffer decode (fun buffer => by simp only [Wrappers.liftResult, conversion, decode])
      fun v => ⟨.unsupported, by simp only [Wrappers.liftResult, conversion]⟩
  | encoded shape conversion =>
    rw [shape]
    exact .buffer decode (fun buffer => by simp only [Wrappers.liftResult, conversion, decode])
      fun v => ⟨.unsupported, by simp only [Wrappers.liftResult, conversion]⟩

/-- **The result of a constructor** is taken as a handle. -/
theorem constructor_takes (b : Wrappers) (f : Frame) (o : Object) (c : Callable) :
    Takes b ((b.constructorFinish o c).make f) .handle := by
  refine .handle _ (fun h => rfl) (fun h made hmade => ?_) fun buffer => ⟨_, rfl⟩
  split at hmade
  · exact newObject_handle hmade
  · exact madeObject_handle hmade

end Bindgen.Native
