import Bindgen.Proofs.Native.Checks
import Mathlib.Data.List.Forall2

/-!
# Lowering arguments

What the lowering of an argument leaves in a session. It changes nothing if it gives a result (`Prepares`). If
it fails there may be an aside: to refuse a value is to use names of the module, and what has taken one of them
is called (`Wrappers.Aside`). What an argument is lowered to is a relation of its own, `Wrappers.Gives` for one
slot of a call and `Wrappers.Binds` for the locals of several.

Results:
* `settle_ends`: a result is given as it is, and a fault comes after an aside.
* `lowerSlot_prepares`, `bindSlots_prepares`: a slot, and the locals of several slots.
* `ownedEncoding_prepares`: what is to be encoded for a consumed buffer.
-/

namespace Bindgen.Native

open Interface Resolve Emit Identifier Wire

variable {α β : Type} {b : Wrappers} {s s' : Session} {δ : List Request}

namespace Wrappers

/-! ## Asides -/

/-- **An aside.** Nothing, or what the call of something that has taken the name of a builtin asks for. -/
def Aside (b : Wrappers) (δ : List Request) : Prop :=
  δ = [] ∨ ∃ meant args s, (b.callTaken meant args s).2.requests = s.requests ++ δ

theorem aside_nil (b : Wrappers) : b.Aside [] := Or.inl rfl

/-- What has taken the name of a builtin only adds to the requests. -/
def Grows (b : Wrappers) : Prop :=
  ∀ meant args s, Ends (b.callTaken meant args) s fun _ _ _ => True

theorem callTaken_ends (hb : b.Grows) (meant : Builtin) (args : List Value) (s : Session) :
    Ends (b.callTaken meant args) s fun _ δ _ => b.Aside δ :=
  (hb meant args s).mono fun _ _ s' hrun hnext _ =>
    Or.inr ⟨meant, args, s, by rw [hrun]; exact hnext.requests⟩

theorem refuse_ends (hb : b.Grows) (definition : String) (v : Value) (got : String) (s : Session) :
    Ends (b.refuse definition v got) s fun _ δ _ => b.Aside δ := by
  have hcall (meant : Builtin) (args : List Value) (e : Fault) :
      Ends (do let _ ← b.callTaken meant args; return e) s fun _ δ _ => b.Aside δ := by
    refine (callTaken_ends hb meant args s).bind (fun a δ s' _ _ h => Ends.pure ?_) fun _ _ _ _ h => h
    rw [List.append_nil]
    exact h
  unfold refuse
  by_cases htype : b.schema.isTaken Builtin.classOf.name = true
  · rw [if_pos htype]
    exact hcall _ _ _
  · rw [if_neg htype]
    dsimp only
    split
    · exact Ends.pure b.aside_nil
    · by_cases hname : b.schema.isTaken Builtin.typeError.name = true
      · rw [if_pos hname]
        exact hcall _ _ _
      · rw [if_neg hname]
        exact Ends.pure b.aside_nil

/-- **A result or fault in a module.** A result is given as it is. A fault may have an aside before it. -/
theorem settle_ends (hb : b.Grows) {Q : Except Fault α → List Request → Session → Prop} (x : Except Fault α)
    (hok : ∀ a, x = .ok a → Q (.ok a) [] s)
    (herror : ∀ e δ s', b.Aside δ → Q (.error e) δ s') : Ends (b.settle x) s Q := by
  have hplain (e : Fault) : Ends (throw e : Action α) s Q := Ends.throw (herror e [] s b.aside_nil)
  unfold settle
  split
  · next a => exact Ends.pure (hok a rfl)
  · next definition v got =>
    refine (refuse_ends hb definition v got s).bind (fun e δ s' _ _ h => Ends.throw ?_)
      fun e δ s' _ h => herror e δ s' h
    rw [List.append_nil]
    exact herror e δ s' h
  · next meant args =>
    refine (callTaken_ends hb meant args s).bind (fun e δ s' _ _ h => Ends.throw ?_)
      fun e δ s' _ h => herror e δ s' h
    rw [List.append_nil]
    exact herror _ δ s' h
  · exact hplain _
  · exact hplain _

/-! ## Preparing -/

/-- **An action that prepares something.** A result leaves everything as it was, and a fault has an aside at
most. -/
def Prepares (b : Wrappers) (act : Action α) (s : Session) (P : α → Prop) : Prop :=
  Ends act s fun r δ s' => match r with
    | .ok a => δ = [] ∧ s' = s ∧ P a
    | .error _ => b.Aside δ

namespace Prepares

variable {act : Action α} {P P' : α → Prop} {R : β → Prop}

theorem pure {a : α} (h : P a) : b.Prepares (Pure.pure a) s P := Ends.pure ⟨rfl, rfl, h⟩

theorem throw (e : Fault) : b.Prepares (MonadExcept.throw e : Action α) s P := Ends.throw b.aside_nil

theorem mono (h : b.Prepares act s P) (hP : ∀ a, P a → P' a) : b.Prepares act s P' :=
  Ends.mono h fun r _ _ _ _ hq => match r, hq with
    | .ok a, ⟨hδ, hs, ha⟩ => ⟨hδ, hs, hP a ha⟩
    | .error _, ha => ha

theorem bind {f : α → Action β} (h : b.Prepares act s P) (hf : ∀ a, P a → b.Prepares (f a) s R) :
    b.Prepares (act >>= f) s R := by
  refine Ends.bind h (fun a δ s' _ _ hq => ?_) fun e δ s' _ ha => ha
  obtain ⟨rfl, rfl, ha⟩ := hq
  exact hf a ha

theorem map {f : α → β} (h : b.Prepares act s P) (hf : ∀ a, P a → R (f a)) : b.Prepares (f <$> act) s R := by
  rw [map_eq_pure_bind]
  exact h.bind fun a ha => pure (hf a ha)

theorem mapM {P : α → β → Prop} {f : α → Action β} :
    ∀ xs : List α, (∀ x ∈ xs, b.Prepares (f x) s (P x)) → b.Prepares (xs.mapM f) s (List.Forall₂ P xs)
  | [], _ => by
    rw [List.mapM_nil]
    exact pure .nil
  | x :: xs, h => by
    rw [List.mapM_cons]
    refine (h x List.mem_cons_self).bind fun y hy => ?_
    exact (mapM xs fun z hz => h z (List.mem_cons_of_mem x hz)).bind fun ys hys => pure (.cons hy hys)

theorem settle (hb : b.Grows) {x : Except Fault α} (h : ∀ a, x = .ok a → P a) :
    b.Prepares (b.settle x) s P :=
  settle_ends hb x (fun a ha => ⟨rfl, rfl, h a ha⟩) fun _ _ _ ha => ha

theorem steady (h : b.Prepares act s P) : b.Prepares act s (Steady act s) :=
  Ends.mono h fun r _ _ hrun _ hq => match r, hq, hrun with
    | .ok _, ⟨hδ, hs, _⟩, hrun => ⟨hδ, hs, by rw [Steady, hrun, hs]⟩
    | .error _, ha, _ => ha

/-- Goes on with any action after one that prepares something. -/
theorem ends {f : α → Action β} {Q : Except Fault β → List Request → Session → Prop}
    (h : b.Prepares act s P) (hok : ∀ a, act s = (.ok a, s) → P a → Ends (f a) s Q)
    (herror : ∀ e δ s', b.Aside δ → Q (.error e) δ s') : Ends (act >>= f) s Q := by
  refine Ends.bind h (fun a δ s' hrun _ hq => ?_) fun e δ s' _ ha => herror e δ s' ha
  obtain ⟨rfl, rfl, ha⟩ := hq
  exact hok a hrun ha

end Prepares

end Wrappers

/-- A look at names prepares what it gives. -/
theorem Checks.prepares {act : Action α} {lack : Prop} {P : α → Prop} (h : Checks act lack P) :
    b.Prepares act s P := by
  by_cases hl : lack
  · exact Ends.intro act (h.fails hl s) (.refl s) b.aside_nil
  · obtain ⟨a, ha, hrun⟩ := h.passes hl
    exact Ends.intro act (hrun s) (.refl s) ⟨rfl, rfl, ha⟩

/-! ## What an argument is lowered to -/

/-- The value that a name stands for. -/
def Bound.asValue : Bound → Value
  | .argument v => v
  | .lowered (.value v) => v
  | .lowered (.buffer _) => Wrappers.bufferValue

/-- What is passed for a name that stands for this. -/
def Bound.asPassed : Bound → Passed
  | .argument v => .value v
  | .lowered p => p

namespace Wrappers

/-- **The value of a parameter**, by what its name stands for. -/
def Stands (f : Frame) (scope : Scope) (p : Param) (v : Value) : Prop :=
  ∃ bound, scope.lookup (f.inside (escapePython p.name)) = some bound ∧ v = bound.asValue

/-- **A lowered value**: what the converter makes of it, in a lent buffer where the type needs one. -/
def Lowers (b : Wrappers) (t : Ty) (v : Value) (p : Passed) : Prop :=
  if (b.schema.table.conversionOf t).usesBuffer then
    ∃ bytes, (b.converter t).encode v = .ok bytes ∧ p = .buffer (.borrowed bytes)
  else ∃ lowered, (b.converter t).lower v = .ok lowered ∧ p = .value lowered

/-- **What a slot gives**: the handle of the receiver, or the lowered value of a parameter. -/
def Gives (b : Wrappers) (f : Frame) (s : Session) (scope : Scope) (slot : Slot) (p : Passed) : Prop :=
  match slot.origin with
  | .receiver => ∃ label h, f.self = some label ∧ Steady (Action.requireHandle label) s h ∧ p = .value h
  | .param q => ∃ v, Stands f scope q v ∧ b.Lowers q.type v p

/-- **The locals of slots**, each of which is lowered where the earlier locals are bound already. -/
inductive Binds (b : Wrappers) (f : Frame) (s : Session) : Scope → List Slot → Scope → Prop
  | nil (scope : Scope) : Binds b f s scope [] scope
  | cons {scope scope' : Scope} {slot : Slot} {rest : List Slot} {p : Passed}
      (given : b.Gives f s scope slot p)
      (others : Binds b f s ((f.inside slot.target, .lowered p) :: scope) rest scope') :
      Binds b f s scope (slot :: rest) scope'

theorem paramValue_prepares (f : Frame) (scope : Scope) (p : Param) :
    b.Prepares (paramValue f scope p) s (Stands f scope p) := by
  unfold paramValue
  split
  · next v h => exact .pure ⟨_, h, rfl⟩
  · next v h => exact .pure ⟨_, h, rfl⟩
  · next buffer h => exact .pure ⟨_, h, rfl⟩
  · exact .throw _

theorem encode_prepares (hb : b.Grows) (f : Frame) (t : Ty) (v : Value) (s : Session) :
    b.Prepares (b.encode f t v) s fun bytes => (b.converter t).encode v = .ok bytes :=
  (needConverter_checks b f t).prepares.bind fun _ _ => .settle hb fun _ h => h

theorem lowerParam_prepares (hb : b.Grows) (f : Frame) (scope : Scope) (p : Param) :
    b.Prepares (b.lowerParam f scope p) s fun passed => ∃ v, Stands f scope p v ∧ b.Lowers p.type v passed := by
  unfold lowerParam Lowers
  cases hbuffer : (b.schema.table.conversionOf p.type).usesBuffer with
  | true =>
    refine (need_checks b f supportName).prepares.bind fun _ _ => ?_
    refine (paramValue_prepares f scope p).bind fun v hv => ?_
    refine .map (.map (encode_prepares hb f p.type v s) fun bytes hbytes => ?_) fun _ h => h
    exact ⟨v, hv, bytes, hbytes, rfl⟩
  | false =>
    refine (needConverter_checks b f p.type).prepares.bind fun _ _ => ?_
    refine (paramValue_prepares f scope p).bind fun v hv => ?_
    refine .map (.settle hb fun lowered hl => ?_) fun _ h => h
    exact ⟨v, hv, lowered, hl, rfl⟩

theorem object_prepares (label : String) : b.Prepares (Action.object label) s fun _ => True := by
  unfold Action.object
  refine Ends.bind_steady (a := s) rfl ?_
  cases s.objects.lookup label with
  | some o => exact Ends.pure ⟨rfl, rfl, trivial⟩
  | none => exact Ends.throw b.aside_nil

theorem requireHandle_prepares (label : String) : b.Prepares (Action.requireHandle label) s fun _ => True := by
  unfold Action.requireHandle Action.valueOf
  refine .bind (.bind (object_prepares label) fun o _ => .pure (P := fun _ => True) trivial) fun v _ => ?_
  cases hv : v.handle with
  | ok h => exact .pure trivial
  | error e => exact .throw e

theorem receiverHandle_prepares (hb : b.Grows) (label : String) :
    b.Prepares (b.receiverHandle label) s (Steady (Action.requireHandle label) s) := by
  unfold receiverHandle
  refine (object_prepares label).bind fun o _ => ?_
  exact (Prepares.settle hb (P := fun _ => True) fun _ _ => trivial).bind fun _ _ =>
    (requireHandle_prepares label).steady

/-- **What is lowered for a slot** is what the slot gives. -/
theorem lowerSlot_prepares (hb : b.Grows) (f : Frame) (scope : Scope) (slot : Slot) :
    b.Prepares (b.lowerSlot f scope slot) s (b.Gives f s scope slot) := by
  unfold lowerSlot Gives
  cases slot.origin with
  | receiver =>
    cases f.self with
    | some label => exact (receiverHandle_prepares hb label).map fun h hh => ⟨label, h, rfl, hh, rfl⟩
    | none => exact .throw _
  | param p => exact lowerParam_prepares hb f scope p

theorem bindSlots_prepares (hb : b.Grows) (f : Frame) :
    ∀ (slots : List Slot) (scope : Scope), b.Prepares (b.bindSlots f scope slots) s (b.Binds f s scope slots)
  | [], scope => .pure (.nil scope)
  | slot :: rest, scope => by
    unfold bindSlots
    refine (lowerSlot_prepares hb f scope slot).bind fun p hp => ?_
    exact (bindSlots_prepares hb f rest _).mono fun scope' hrest => .cons hp hrest

/-! ## What is to be encoded -/

/-- **The bytes of a consumed buffer**: the encoded value of the parameter of a slot. -/
def Encodes (b : Wrappers) (f : Frame) (scope : Scope) (slot : Slot) (bytes : List UInt8) : Prop :=
  ∃ p v, slot.origin = .param p ∧ Stands f scope p v ∧ (b.converter p.type).encode v = .ok bytes

theorem handOver_prepares (f : Frame) (scope : Scope) (t : Ty) : b.Prepares (b.handOver f scope t) s fun _ => True := by
  unfold handOver
  dsimp only
  split
  · exact (needConverter_checks b f t).prepares
  · exact .pure trivial

/-- What is to be encoded for a slot gives the bytes of the slot, whenever it is done. -/
theorem ownedEncoding_prepares (hb : b.Grows) (f : Frame) (scope : Scope) (slot : Slot) :
    b.Prepares (b.ownedEncoding f scope slot) s fun encode =>
      ∀ s', b.Prepares encode s' (b.Encodes f scope slot) := by
  unfold ownedEncoding
  cases horigin : slot.origin with
  | receiver => exact .throw _
  | param p =>
    refine (handOver_prepares f scope p.type).bind fun _ _ => (paramValue_prepares f scope p).bind fun v hv => .pure fun s' => ?_
    exact (encode_prepares hb f p.type v s').mono fun bytes hbytes => ⟨p, v, horigin, hv, hbytes⟩

end Wrappers

end Bindgen.Native
