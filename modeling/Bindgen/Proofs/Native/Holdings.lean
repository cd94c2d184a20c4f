import Bindgen.Native.Globals
import Bindgen.Proofs.Native.Run

/-!
# What wrappers leave alone

Whatever a wrapper is called with, and however it ends, it releases no handle, and the objects of the session
are held afterwards as they were before (`Tame`). The symbols that it calls are those of the callables of its
model, as they are called in their classes (`Request.Ordinary`). There is one statement for each function
behind a wrapper, and one rule for each way in which they are put together.

Results:
* `Tame.bind`, `Tame.attempt`, `Tame.mapM`, `Tame.of_checks`: the rules.
* `Wrappers.run_tame`: a wrapper is tame whatever is done with its result.
* `Wrappers.callClass_tame`, `Wrappers.callGlobal_tame`: so is what the names of a module stand for.
-/

namespace Bindgen.Native

open Interface Resolve Emit Identifier Wire

variable {α β : Type} {m : Model} {b : Wrappers}

/-! ## Tame actions -/

/-- **An ordinary request**: to copy or free a buffer, or to call the symbol of a callable of the model. -/
def Request.Ordinary (m : Model) : Request → Prop
  | .copied .. | .freed _ => True
  | .called symbol .. => ∃ p ∈ m.callables, symbol = nameInside p.1 (symbolName m.ns p.2 p.1)
  | .released .. => False

/-- **A tame action.** It leaves the objects alone and makes ordinary requests, and `P` holds of what it
gives. -/
def Tame (m : Model) (act : Action α) (P : α → Prop := fun _ => True) : Prop :=
  ∀ s, Ends act s fun r δ s' =>
    s'.objects = s.objects ∧ (∀ q ∈ δ, q.Ordinary m) ∧ ∀ a, r = .ok a → P a

namespace Tame

variable {act : Action α} {P P' : α → Prop} {R : β → Prop}

theorem pure {a : α} (h : P a) : Tame m (Pure.pure a) P :=
  fun _ => Ends.pure ⟨rfl, by simp, fun _ ha => Except.ok.inj ha ▸ h⟩

theorem throw {e : Fault} : Tame m (MonadExcept.throw e : Action α) P :=
  fun _ => Ends.throw ⟨rfl, by simp, fun _ ha => absurd ha (by simp)⟩

theorem mono (h : Tame m act P) (hP : ∀ a, P a → P' a) : Tame m act P' :=
  fun s => (h s).mono fun _ _ _ _ _ ⟨hobjects, hδ, hr⟩ => ⟨hobjects, hδ, fun a ha => hP a (hr a ha)⟩

theorem bind {f : α → Action β} (h : Tame m act P) (hf : ∀ a, P a → Tame m (f a) R) : Tame m (act >>= f) R := by
  intro s
  refine Ends.bind (h s) (fun a δ s' _ _ ⟨hobjects, hδ, ha⟩ => ?_) fun e δ s' _ ⟨hobjects, hδ, _⟩ => ?_
  · refine (hf a (ha a rfl) s').mono fun r δ' s'' _ _ ⟨hobjects', hδ', hr⟩ => ?_
    exact ⟨hobjects'.trans hobjects, List.forall_mem_append.mpr ⟨hδ, hδ'⟩, hr⟩
  · exact ⟨hobjects, hδ, fun _ hr => absurd hr (by simp)⟩

theorem map {f : α → β} (h : Tame m act P) (hf : ∀ a, P a → R (f a)) : Tame m (f <$> act) R := by
  rw [map_eq_pure_bind]
  exact h.bind fun a ha => pure (hf a ha)

theorem ofExcept {r : Except Fault α} : Tame m (Action.ofExcept r) := by
  cases r with
  | ok a => exact pure trivial
  | error e => exact throw

/-- A fault that is caught is no fault. -/
theorem attempt (h : Tame m act) : Tame m (Action.attempt act) := by
  intro s
  obtain ⟨δ, hnext, hobjects, hδ, -⟩ := h s
  exact Ends.intro _ (Action.attempt_apply act s) hnext ⟨hobjects, hδ, fun _ _ => trivial⟩

/-- Goes on with the session as it is. -/
theorem get_bind {f : Session → Action α} (h : ∀ s, Tame m (f s) P) :
    Tame m ((get : Action Session) >>= f) P :=
  fun s => Ends.bind_steady (a := s) rfl (h s s)

theorem mapM {P : β → Prop} {f : α → Action β} :
    ∀ {xs : List α}, (∀ x ∈ xs, Tame m (f x) P) → Tame m (xs.mapM f) (∀ y ∈ ·, P y)
  | [], _ => by
    rw [List.mapM_nil]
    exact pure (by simp)
  | x :: xs, h => by
    rw [List.mapM_cons]
    refine (h x List.mem_cons_self).bind fun y hy => ?_
    refine (mapM fun z hz => h z (List.mem_cons_of_mem x hz)).bind fun ys hys => pure ?_
    exact List.forall_mem_cons.mpr ⟨hy, hys⟩

/-- A look at names is tame. -/
theorem of_checks {lack : Prop} (h : Checks act lack P) : Tame m act P := by
  intro s
  by_cases hl : lack
  · exact Ends.intro act (h.fails hl s) (.refl s) ⟨rfl, by simp, fun _ ha => absurd ha (by simp)⟩
  · obtain ⟨a, ha, hrun⟩ := h.passes hl
    exact Ends.intro act (hrun s) (.refl s) ⟨rfl, by simp, fun _ hr => Except.ok.inj hr ▸ ha⟩

end Tame

/-! ## What the library is asked for -/

theorem record_tame {q : Request} (h : q.Ordinary m) : Tame m (Action.record q) := fun s =>
  Ends.intro _ (r := .ok ()) rfl (s.next_after [q])
    ⟨rfl, List.forall_mem_singleton.mpr h, fun _ _ => trivial⟩

theorem copy_tame (view : View) : Tame m (Action.copy view) := fun _ =>
  Ends.intro _ (r := .ok _) rfl (δ := [.copied view.contents _]) ⟨rfl, rfl, rfl, rfl⟩
    ⟨rfl, List.forall_mem_singleton.mpr trivial, fun _ _ => trivial⟩

theorem free_tame (buffer : Buffer) : Tame m (Action.free buffer) := record_tame trivial

theorem freeAll_tame (held : List Buffer) : Tame m (held.forM Action.free) := by
  induction held with
  | nil => exact .pure trivial
  | cons buffer held ih => exact (free_tame buffer).bind fun _ _ => ih

theorem lowerOwned_tame {encode : Action (List UInt8)} (h : Tame m encode) : Tame m (lowerOwned encode) := by
  unfold lowerOwned
  refine h.bind fun bytes _ => (copy_tame _).bind fun buffer _ => ?_
  split
  · exact .pure trivial
  · exact (free_tame buffer).bind fun _ _ => .throw

theorem lowerOwnedAfter_tame : ∀ {encodes : List (Action (List UInt8))}, (∀ encode ∈ encodes, Tame m encode) →
    ∀ held, Tame m (lowerOwnedAfter held encodes)
  | [], _, _ => .pure trivial
  | encode :: rest, h, held => by
    unfold lowerOwnedAfter
    refine (lowerOwned_tame (h encode List.mem_cons_self)).attempt.bind fun r _ => ?_
    cases r with
    | ok buffer => exact lowerOwnedAfter_tame (fun x hx => h x (List.mem_cons_of_mem encode hx)) _
    | error e => exact (freeAll_tame held).bind fun _ _ => .throw

theorem lift_tame {decode : List UInt8 → Action Value} (h : ∀ bytes, Tame m (decode bytes)) (buffer : Buffer) :
    Tame m (lift decode buffer) :=
  (free_tame buffer).bind fun _ _ => Tame.ofExcept.bind fun bytes _ => h bytes

theorem messageText_tame (message : Buffer) : Tame m (messageText message) := by
  unfold messageText
  split
  · exact .pure trivial
  · exact (free_tame message).bind fun _ _ => Tame.ofExcept.bind fun _ _ => .pure trivial

theorem checkStatus_tame (code : Int) (message : Buffer) (e : ErrorClass) :
    Tame m (checkStatus code message e) := by
  unfold checkStatus
  dsimp only
  split
  · exact .pure trivial
  · refine (messageText_tame message).bind fun text _ => ?_
    split
    · exact Tame.throw.bind (P := fun _ => True) fun _ _ => .throw
    · exact .throw

/-- **A call of a symbol** of the model. -/
theorem call_tame {symbol : String} (args : List Passed) (error : Option ErrorClass)
    (h : ∃ p ∈ m.callables, symbol = nameInside p.1 (symbolName m.ns p.2 p.1)) :
    Tame m (call symbol args error) := by
  have hcalled : (Request.called symbol args error.isSome).Ordinary m := h
  have hinvoke : Tame m (Action.invoke symbol args error.isSome) := by
    have hasked : Tame m (do Action.record (.called symbol args error.isSome); return (← get).answers.result) :=
      (record_tame hcalled).bind fun _ _ => .get_bind fun _ => .pure trivial
    unfold Action.invoke
    split
    · exact Tame.throw.bind (P := fun _ => True) fun _ _ => hasked
    · exact hasked
  unfold call
  refine hinvoke.bind fun result _ => ?_
  cases error with
  | none => exact .pure trivial
  | some e => exact .get_bind fun _ => (checkStatus_tame _ _ e).bind fun _ _ => .pure trivial

namespace Wrappers

/-! ## Refusals -/

/-- What has taken the name of a builtin is tame. -/
def Tamed (b : Wrappers) : Prop := ∀ meant args, Tame b.model (b.callTaken meant args)

theorem refuse_tame (hb : b.Tamed) (definition : String) (v : Value) (got : String) :
    Tame b.model (b.refuse definition v got) := by
  unfold refuse
  split
  · exact (hb _ _).bind fun _ _ => .pure trivial
  · dsimp only
    split
    · exact .pure trivial
    · split
      · exact (hb _ _).bind fun _ _ => .pure trivial
      · exact .pure trivial

theorem settle_tame (hb : b.Tamed) {x : Except Fault α} {P : α → Prop} (h : ∀ a, x = .ok a → P a) :
    Tame b.model (b.settle x) P := by
  unfold settle
  split
  · next a => exact .pure (h a rfl)
  · exact (refuse_tame hb _ _ _).bind fun e _ => .throw
  · exact (hb _ _).bind fun _ _ => .throw
  · exact .throw
  · exact .throw

/-! ## Lowering -/

theorem need_tame (f : Frame) (name : String) : Tame m (b.need f name) := .of_checks (need_checks b f name)

theorem needConverter_tame (f : Frame) (t : Ty) : Tame m (b.needConverter f t) :=
  .of_checks (needConverter_checks b f t)

theorem encode_tame (hb : b.Tamed) (f : Frame) (t : Ty) (v : Value) : Tame b.model (b.encode f t v) :=
  (needConverter_tame f t).bind fun _ _ => settle_tame hb fun _ _ => trivial

theorem paramValue_tame (f : Frame) (scope : Scope) (p : Param) : Tame m (paramValue f scope p) := by
  unfold paramValue
  split
  · exact .pure trivial
  · exact .pure trivial
  · exact .pure trivial
  · exact .throw

theorem lowerParam_tame (hb : b.Tamed) (f : Frame) (scope : Scope) (p : Param) :
    Tame b.model (b.lowerParam f scope p) := by
  unfold lowerParam
  split
  · refine (need_tame f _).bind fun _ _ => (paramValue_tame f scope p).bind fun v _ => ?_
    exact ((encode_tame hb f p.type v).map (R := fun _ => True) fun _ _ => trivial).map fun _ _ => trivial
  · refine (needConverter_tame f p.type).bind fun _ _ => (paramValue_tame f scope p).bind fun v _ => ?_
    exact (settle_tame hb fun _ _ => trivial).map (P := fun _ => True) fun _ _ => trivial

theorem object_tame (label : String) : Tame m (Action.object label) := by
  refine .get_bind fun s => ?_
  split
  · exact .pure trivial
  · exact .throw

theorem receiverHandle_tame (hb : b.Tamed) (label : String) : Tame b.model (b.receiverHandle label) := by
  refine (object_tame label).bind fun o _ => (settle_tame hb fun _ _ => trivial).bind fun _ _ => ?_
  exact ((object_tame label).bind fun o _ => .pure trivial).bind (P := fun _ => True) fun v _ => .ofExcept

theorem lowerSlot_tame (hb : b.Tamed) (f : Frame) (scope : Scope) (slot : Slot) :
    Tame b.model (b.lowerSlot f scope slot) := by
  unfold lowerSlot
  split
  · exact (receiverHandle_tame hb _).map fun _ _ => trivial
  · exact .throw
  · exact lowerParam_tame hb f scope _

theorem bindSlots_tame (hb : b.Tamed) (f : Frame) :
    ∀ (slots : List Slot) (scope : Scope), Tame b.model (b.bindSlots f scope slots)
  | [], _ => .pure trivial
  | slot :: rest, scope =>
    (lowerSlot_tame hb f scope slot).bind fun _ _ => bindSlots_tame hb f rest _

/-- What is to be encoded for a consumed buffer is tame whenever it is done. -/
theorem ownedEncoding_tame (hb : b.Tamed) (f : Frame) (scope : Scope) (slot : Slot) :
    Tame b.model (b.ownedEncoding f scope slot) (Tame b.model ·) := by
  unfold ownedEncoding
  split
  · next p _ =>
    have hover : Tame b.model (b.handOver f scope p.type) := by
      unfold handOver
      dsimp only
      split
      · exact needConverter_tame f _
      · exact .pure trivial
    exact hover.bind fun _ _ => (paramValue_tame f scope p).bind fun v _ => .pure (encode_tame hb f _ v)
  · exact .throw

theorem bindAll_tame (hb : b.Tamed) (f : Frame) (scope : Scope) (plan : CallPlan) :
    Tame b.model (b.bindAll f scope plan) := by
  refine (bindSlots_tame hb f plan.plain scope).bind fun scope' _ => (need_tame f _).bind fun _ _ => ?_
  refine (Tame.mapM fun slot _ => ownedEncoding_tame hb f scope' slot).bind fun encodings hencodings => ?_
  exact (lowerOwnedAfter_tame hencodings []).bind fun copies _ => .pure trivial

theorem passing_tame (hb : b.Tamed) (f : Frame) (scope : Scope) (plan : CallPlan) :
    Tame b.model (b.passing f scope plan) := by
  unfold passing
  split
  · exact (Tame.mapM fun slot _ => lowerSlot_tame hb f scope _).mono fun _ _ => trivial
  · refine (Tame.mapM (P := fun _ => True) fun slot _ => ?_).mono fun _ _ => trivial
    unfold passedLocal
    split
    · exact .pure trivial
    · exact .pure trivial
    · exact .throw

/-! ## Wrappers -/

theorem callPlan_tame (hb : b.Tamed) (f : Frame) (scope : Scope) {plan : CallPlan}
    (h : ∃ p ∈ b.model.callables, f.inside plan.symbol = nameInside p.1 (symbolName b.model.ns p.2 p.1)) :
    Tame b.model (b.callPlan f scope plan) := by
  refine (need_tame f _).bind fun _ _ => (need_tame f _).bind fun _ _ => ?_
  refine (passing_tame hb f scope plan).bind fun passed _ => ?_
  refine (Tame.of_checks (reported_checks b f scope plan)).bind fun error _ => ?_
  exact (call_tame passed error h).attempt.bind fun r _ => settle_tame hb fun _ _ => trivial

theorem liftResult_tame (hb : b.Tamed) (f : Frame) (t : Ty) (result : Passed) :
    Tame b.model (b.liftResult f t result) := by
  have hlift (buffer : Buffer) : Tame b.model (lift (fun bytes => do
      b.needConverter f t
      b.settle ((b.converter t).decode bytes)) buffer) :=
    lift_tame (fun bytes => (needConverter_tame f t).bind fun _ _ => settle_tame hb fun _ _ => trivial) buffer
  unfold liftResult
  split
  · exact hlift _
  · exact hlift _
  · exact settle_tame hb fun _ _ => trivial
  · exact settle_tame hb fun _ _ => trivial
  · exact settle_tame hb fun _ _ => trivial
  · exact .throw
  · exact .throw

/-- **The run of a wrapper is tame**, and gives what is made of its result. -/
theorem run_tame (hb : b.Tamed) {owner : Option Object} {c : Callable} (hc : (owner, c) ∈ b.model.callables)
    (self : Option String) (args : List Value) {finish : Finish} {P : Value → Prop}
    (hneed : ∀ f, Tame b.model (finish.need f)) (hmake : ∀ f result, Tame b.model (finish.make f result) P) :
    Tame b.model (b.run owner c self args finish) P := by
  have hcall (scope : Scope) : Tame b.model (do
      finish.need (frame owner c self (b.plan owner c))
      finish.make (frame owner c self (b.plan owner c))
        (← b.callPlan (frame owner c self (b.plan owner c)) scope (b.plan owner c))) P :=
    (hneed _).bind fun _ _ => (callPlan_tame hb _ scope ⟨_, hc, rfl⟩).bind fun result _ => hmake _ result
  refine Tame.ofExcept.bind fun _ _ => ?_
  dsimp only
  split
  · exact (Tame.pure (P := fun _ => True) trivial).bind fun scope _ => hcall scope
  · exact (bindAll_tame hb _ _ _).bind fun scope _ => hcall scope

theorem runCallable_tame (hb : b.Tamed) {owner : Option Object} {c : Callable}
    (hc : (owner, c) ∈ b.model.callables) (self : Option String) (args : List Value) :
    Tame b.model (b.runCallable owner c self args) := by
  refine run_tame hb hc self args (fun f => ?_) fun f result => ?_
  · unfold callableFinish
    split
    · exact .pure trivial
    · exact .of_checks (Wrapper.needResult_checks b f _)
  · unfold callableFinish
    split
    · exact .pure trivial
    · exact liftResult_tame hb f _ result

/-- **An object of a class** that has just been made, with its handle. -/
def Fresh (o : Object) (v : Value) : Prop := ∃ handle, v = .object ⟨o.name, []⟩ (some handle) none

theorem newObject_fresh {o : Object} {v made : Value} (h : newObject o.name v = .ok made) : Fresh o made := by
  obtain ⟨handle, -, h⟩ := bind_eq_ok.mp h
  exact ⟨handle, (pure_eq_ok.mp h).symm⟩

/-- **A constructor** gives an object that has its handle. -/
theorem runConstructor_tame (hb : b.Tamed) {o : Object} {c : Callable} (hc : (some o, c) ∈ b.model.callables)
    (args : List Value) : Tame b.model (b.runConstructor o c args) (Fresh o) := by
  refine run_tame hb hc none args (fun f => need_tame f _) fun f result => ?_
  unfold constructorFinish
  dsimp only
  split
  · refine settle_tame hb fun made hmade => ?_
    split at hmade
    · exact newObject_fresh hmade
    · obtain ⟨new, hnew, hmade⟩ := bind_eq_ok.mp hmade
      obtain ⟨_, -, hmade⟩ := bind_eq_ok.mp hmade
      exact pure_eq_ok.mp hmade ▸ newObject_fresh hnew
  · exact .throw

/-! ## Names -/

theorem callable?_mem {owner : Option Object} {cs : List Callable} {name : String} {c : Callable}
    (h : callable? owner cs name = some c) : c ∈ cs :=
  List.mem_reverse.mp (List.mem_of_find?_eq_some h)

theorem function_mem {c : Callable} (hc : c ∈ m.functions) : (none, c) ∈ m.callables :=
  List.mem_append_left _ (List.mem_map_of_mem hc)

theorem member_mem {o : Object} (ho : o ∈ m.objects) {c : Callable} (hc : c ∈ o.callables) :
    (some o, c) ∈ m.callables :=
  List.mem_append_right _ (List.mem_flatMap.mpr ⟨o, ho, List.mem_map_of_mem hc⟩)

theorem callObject_tame (hb : b.Tamed) {o : Object} (ho : o ∈ b.model.objects) (args : List Value) :
    Tame b.model (b.callObject o args) (Fresh o) := by
  unfold callObject
  split
  · next c hc =>
    split
    · exact runConstructor_tame hb (member_mem ho (callable?_mem hc)) args
    · split
      · exact Tame.ofExcept.bind fun _ _ => .throw
      · exact .throw
  · exact .throw

theorem callClass_tame (hb : b.Tamed) {d : Definition} (hd : ∀ o, d = .object o → o ∈ b.model.objects)
    (args : List Value) : Tame b.model (b.callClass d args) := by
  cases d with
  | record r =>
    unfold callClass callRecord
    dsimp only
    split
    · exact .throw
    · exact settle_tame hb fun _ _ => trivial
  | enum c =>
    have hmember (v : Value) : Tame b.model (b.memberOf c v) := by
      unfold memberOf
      dsimp only
      split
      · exact .pure trivial
      · exact .throw
    unfold callClass
    dsimp only
    split
    · unfold callMembers
      split
      · exact .throw
      · exact hmember _
      · exact hmember _
      · split
        · exact .throw
        · exact .throw
      · exact .throw
    · unfold callBase
      split
      · exact .throw
      · exact .throw
  | error c =>
    unfold callClass callError
    dsimp only
    split
    · exact .throw
    · exact .pure trivial
    · exact .pure trivial
    · exact .throw
  | object o => exact (callObject_tame hb (hd o rfl) args).mono fun _ _ => trivial

/-- The objects that a schema knows are those of the model. -/
def KnowsObjects (b : Wrappers) : Prop :=
  ∀ name o, b.schema.table.lookup name = some (.object o) → o ∈ b.model.objects

theorem callGlobal_tame (hb : b.Tamed) (hobjects : b.KnowsObjects) (name : String) (args : List Value) :
    Tame b.model (b.callGlobal name args) := by
  unfold callGlobal
  split
  · next c hc => exact runCallable_tame hb (function_mem (callable?_mem hc)) none args
  · split
    · next d hd =>
      refine callClass_tame hb (fun o ho => hobjects name o ?_) args
      unfold Schema.lookup at hd
      split at hd
      · exact absurd hd (by simp)
      · rw [hd, ho]
    · split
      · exact .throw
      · split
        · exact .throw
        · split
          · exact .throw
          · exact .throw

end Wrappers

end Bindgen.Native
