import Bindgen.Proofs.Native.Passing

/-!
# Runs of wrappers

How the run of a wrapper ends, whatever its parameters are called (`Course`). It is refused before its call,
with every copy freed; or all copies are made and then something is lacking, and the copies are abandoned; or
its symbol is called.

Results:
* `Wrapper.finish_ends`: what a wrapper makes of a native result.
* `run_course`: how a run ends.
-/

namespace Bindgen.Native

open Interface Resolve Emit Identifier Wire

variable {b : Wrappers} {s : Session}

/-! ## Wrappers -/

/-- A wrapper of a module, with the object it belongs to. -/
inductive Wrapper where
  /-- That of a function or method, with the label of its receiver. -/
  | callable (owner : Option Object) (c : Callable) (self : Option String)
  | constructor (o : Object) (c : Callable)

namespace Wrapper

/-- The object that a wrapper belongs to. -/
def owner : Wrapper → Option Object
  | callable owner _ _ => owner
  | constructor o _ => some o

/-- What a wrapper is generated for. -/
def source : Wrapper → Callable
  | callable _ c _ => c
  | constructor _ c => c

/-- The label of the receiver. -/
def self : Wrapper → Option String
  | callable _ _ self => self
  | constructor _ _ => none

/-- What the wrapper makes of a native result. -/
def finish (b : Wrappers) : Wrapper → Wrappers.Finish
  | callable _ c _ => b.callableFinish c
  | constructor o c => b.constructorFinish o c

/-- **Runs a wrapper** with arguments. -/
def run (b : Wrappers) (args : List Value) : Wrapper → Action Value
  | callable owner c self => b.runCallable owner c self args
  | constructor o c => b.runConstructor o c args

theorem run_eq (w : Wrapper) (args : List Value) :
    w.run b args = b.run w.owner w.source w.self args (w.finish b) := by
  cases w <;> rfl

/-- The plan of a wrapper. -/
def plan (b : Wrappers) (w : Wrapper) : CallPlan := b.plan w.owner w.source

/-- The frame in which a wrapper runs. -/
def frame (b : Wrappers) (w : Wrapper) : Frame := Wrappers.frame w.owner w.source w.self (w.plan b)

/-- What the names in a wrapper stand for at first. -/
def arguments (w : Wrapper) (args : List Value) : Scope := Wrappers.argumentScope w.owner w.source args

/-- **What a wrapper lacks for its result.** -/
def LacksFinish (b : Wrappers) (w : Wrapper) : Prop :=
  match w with
  | callable _ c _ => ∃ t, c.returns = some t ∧ b.LacksResult (w.frame b) t
  | constructor _ _ => b.Lacks (w.frame b) supportName

/-- How a result is freed after a call: not at all unless its type needs a buffer. -/
def bufferFreed (needsBuffer : Bool) : Passed → List Request
  | .buffer buffer => if needsBuffer then [.freed buffer] else []
  | .value _ => []

/-- Whether a wrapper expects a buffer from its call. -/
def returnsBuffer (b : Wrappers) : Wrapper → Bool
  | callable _ c _ => c.returns.any fun t => (b.schema.table.conversionOf t).usesBuffer
  | constructor _ _ => false

theorem needResult_checks (b : Wrappers) (f : Frame) (t : Ty) :
    Checks (b.needResult f t) (b.LacksResult f t) fun _ => True := by
  unfold Wrappers.needResult Wrappers.LacksResult
  cases hbuffer : (b.schema.table.conversionOf t).usesBuffer with
  | false => exact Wrappers.needConverter_checks b f t
  | true =>
    simp only [if_true]
    by_cases hsource : converterSource t = supportName
    · simp only [hsource, if_true, true_and]
      exact (Wrappers.need_checks b f _).bind fun _ _ => Wrappers.needConverter_checks b f t
    · simp only [hsource, if_false, false_and, or_false]
      refine ((Wrappers.need_checks b f Wrappers.protocolName).bind fun _ _ => ?_).congr (by rw [or_false])
      exact Checks.pure (P := fun _ => True) trivial

theorem finish_checks (b : Wrappers) (w : Wrapper) :
    Checks ((w.finish b).need (w.frame b)) (w.LacksFinish b) fun _ => True := by
  cases w with
  | constructor o c => exact Wrappers.need_checks b _ supportName
  | callable owner c self =>
    unfold LacksFinish finish Wrappers.callableFinish
    cases hreturns : c.returns with
    | none => simpa [hreturns] using Checks.pure trivial
    | some t => simpa [hreturns] using needResult_checks b _ t

theorem lift_ends {decode : List UInt8 → Action Value} (buffer : Buffer) (s : Session)
    (h : ∀ bytes s, Ends (decode bytes) s fun r δ _ => b.Aside δ ∧ ∀ v, r = .ok v → δ = []) :
    Ends (lift decode buffer) s fun r δ _ =>
      ∃ aside, b.Aside aside ∧ δ = .freed buffer :: aside ∧ ∀ v, r = .ok v → aside = [] := by
  unfold lift
  refine Ends.bind (Q := fun _ δ _ => δ = [.freed buffer]) (ends_free buffer fun _ _ => rfl)
    (fun _ δ s' _ _ hδ => ?_) fun _ _ _ _ hδ => ⟨[], b.aside_nil, hδ, fun _ _ => rfl⟩
  subst hδ
  refine Ends.bind (Q := fun _ δ _ => δ = []) (Ends.ofExcept rfl) (fun bytes δ s'' _ _ hδ => ?_)
    fun _ δ _ _ hδ => ⟨[], b.aside_nil, by rw [hδ]; rfl, fun _ _ => rfl⟩
  subst hδ
  exact (h bytes s'').mono fun r δ _ _ _ hq => ⟨δ, hq.1, rfl, hq.2⟩

theorem settle_aside {α : Type} (hb : b.Grows) (x : Except Fault α) (s : Session) :
    Ends (b.settle x) s fun r δ _ => b.Aside δ ∧ ∀ v, r = .ok v → δ = [] :=
  Wrappers.settle_ends hb x (fun _ _ => ⟨b.aside_nil, fun _ _ => rfl⟩)
    fun _ _ _ ha => ⟨ha, fun _ h => absurd h (by simp)⟩

/-- **A native result** is freed where its type needs a buffer, whether or not its contents are sound. -/
theorem liftResult_ends (hb : b.Grows) (f : Frame) (t : Ty) (result : Passed) (s : Session) :
    Ends (b.liftResult f t result) s fun r δ _ => ∃ aside, b.Aside aside ∧
      δ = bufferFreed (b.schema.table.conversionOf t).usesBuffer result ++ aside ∧
        ∀ v, r = .ok v → aside = [] := by
  have hlift (buffer : Buffer) : Ends (lift (fun bytes => do
      b.needConverter f t
      b.settle ((b.converter t).decode bytes)) buffer) s fun r δ _ =>
        ∃ aside, b.Aside aside ∧ δ = [.freed buffer] ++ aside ∧ ∀ v, r = .ok v → aside = [] :=
    lift_ends buffer s fun bytes s' => (Wrappers.needConverter_checks b f t).ends
      (fun _ _ _ => settle_aside hb ((b.converter t).decode bytes) s')
      fun _ => ⟨b.aside_nil, fun _ _ => rfl⟩
  have hsettle (x : Except Fault Value) : Ends (b.settle x) s fun r δ _ =>
      ∃ aside, b.Aside aside ∧ δ = [] ++ aside ∧ ∀ v, r = .ok v → aside = [] :=
    (settle_aside hb x s).mono fun r δ _ _ _ hq => ⟨δ, hq.1, rfl, hq.2⟩
  have hthrow (e : Fault) : Ends (throw e : Action Value) s fun r δ _ =>
      ∃ aside, b.Aside aside ∧ δ = [] ++ aside ∧ ∀ v, r = .ok v → aside = [] :=
    Ends.throw ⟨[], b.aside_nil, rfl, fun _ _ => rfl⟩
  unfold Wrappers.liftResult
  cases b.schema.table.conversionOf t with
  | rawBuffer | serialized =>
    cases result with
    | buffer buffer => exact hlift buffer
    | value v => exact hthrow _
  | boolByte =>
    cases result with
    | buffer buffer => exact hthrow _
    | value v => exact hsettle _
  | direct | handle =>
    cases result with
    | buffer buffer => exact hthrow _
    | value v => exact hsettle _

/-- **What a wrapper makes of a result.** -/
theorem finish_ends (hb : b.Grows) (w : Wrapper) (result : Passed) (s : Session) :
    Ends ((w.finish b).make (w.frame b) result) s fun r δ _ => ∃ aside, b.Aside aside ∧
      δ = bufferFreed (w.returnsBuffer b) result ++ aside ∧ ∀ v, r = .ok v → aside = [] := by
  have hnone : bufferFreed false result = [] := by cases result <;> rfl
  cases w with
  | constructor o c =>
    simp only [returnsBuffer, hnone, List.nil_append]
    cases result with
    | value v => exact (settle_aside hb _ s).mono fun r δ _ _ _ hq => ⟨δ, hq.1, rfl, hq.2⟩
    | buffer buffer => exact Ends.throw ⟨[], b.aside_nil, rfl, fun _ _ => rfl⟩
  | callable owner c self =>
    simp only [finish, Wrappers.callableFinish, returnsBuffer]
    cases c.returns with
    | none =>
      simp only [Option.any_none, hnone, List.nil_append]
      exact Ends.pure ⟨[], b.aside_nil, rfl, fun _ _ => rfl⟩
    | some t => exact liftResult_ends hb _ t result s

/-! ## How a run ends -/

/-- **A wrapper that is hindered**: a name that it needs after its copies are made is lacking. -/
def Hinders (b : Wrappers) (w : Wrapper) (scope : Scope) : Prop :=
  w.LacksFinish b ∨ (b.Lacks (w.frame b) Wrappers.protocolName ∨ b.Lacks (w.frame b) Wrappers.libraryName) ∨
    Wrappers.LacksError (w.frame b) scope (w.plan b)

/-- **A call and its end.** After a call that fails the message is freed, and after one that succeeds the
result, where it is a buffer. -/
def Completes (b : Wrappers) (w : Wrapper) (s : Session) (passed : List Passed) (hasRecord : Bool)
    (r : Except Fault Value) (δ : List Request) : Prop :=
  ∃ aside, b.Aside aside ∧
    let called := .called ((w.frame b).inside (w.plan b).symbol) passed hasRecord
    if Wrappers.Fails s hasRecord then
      (∃ f, r = .error f) ∧ δ = called :: Wrappers.messageFreed s.answers.message ++ aside
    else (∀ v, r = .ok v → aside = []) ∧
      δ = called :: bufferFreed (w.returnsBuffer b) s.answers.result ++ aside

/-- **The scope in which a wrapper calls**, with the copies made for it. -/
def Ready (b : Wrappers) (w : Wrapper) (s : Session) (args : List Value) (cs : List Copy) (scope : Scope) :
    Prop :=
  b.Scoped (w.frame b) s (w.arguments args) (w.plan b) cs scope

/-- **A wrapper that cannot call**: it is hindered, or something cannot be passed. -/
def Stuck (b : Wrappers) (w : Wrapper) (s : Session) (scope : Scope) : Prop :=
  w.Hinders b scope ∨
    ∃ passed, b.Passes (w.frame b) s scope (w.plan b) passed ∧ passed.all Action.isPassable = false

/-- **A wrapper that calls** with these arguments, and with an error record or without. -/
structure Calls (b : Wrappers) (w : Wrapper) (s : Session) (scope : Scope) (passed : List Passed)
    (hasRecord : Bool) : Prop where
  passes : b.Passes (w.frame b) s scope (w.plan b) passed
  passable : passed.all Action.isPassable = true
  free : ¬w.Hinders b scope
  record : hasRecord = true → (w.plan b).error.isSome

theorem passes_of_bound {w : Wrapper} {s' : Session} {scope : Scope} {passed : List Passed}
    (hplace : (w.plan b).inPlace = false) (h : b.Passes (w.frame b) s' scope (w.plan b) passed) :
    b.Passes (w.frame b) s scope (w.plan b) passed := by
  unfold Wrappers.Passes at h ⊢
  rw [if_neg (by simp [hplace])] at h ⊢
  exact h

theorem Stuck.of_bound {w : Wrapper} {s' : Session} {scope : Scope} (hplace : (w.plan b).inPlace = false)
    (h : w.Stuck b s' scope) : w.Stuck b s scope :=
  h.imp id fun ⟨passed, hpasses, hall⟩ => ⟨passed, passes_of_bound hplace hpasses, hall⟩

theorem Calls.of_bound {w : Wrapper} {s' : Session} {scope : Scope} {passed : List Passed} {hasRecord : Bool}
    (hplace : (w.plan b).inPlace = false) (h : w.Calls b s' scope passed hasRecord) :
    w.Calls b s scope passed hasRecord :=
  ⟨passes_of_bound hplace h.passes, h.passable, h.free, h.record⟩

theorem Completes.of_next {w : Wrapper} {s' : Session} {passed : List Passed} {hasRecord : Bool}
    {r : Except Fault Value} {δ δ' : List Request} (hnext : s.Next δ s')
    (h : w.Completes b s' passed hasRecord r δ') : w.Completes b s passed hasRecord r δ' := by
  obtain ⟨aside, haside, hdone⟩ := h
  refine ⟨aside, haside, ?_⟩
  simp only [Wrappers.Fails, hnext.code, hnext.message, hnext.result] at hdone ⊢
  exact hdone

/-- **How a run ends.** -/
inductive Course (b : Wrappers) (w : Wrapper) (s : Session) (args : List Value) :
    Except Fault Value → List Request → Prop
  /-- Something was refused before the call. -/
  | refused {e : Fault} {δ : List Request} (h : b.Refused δ) : Course b w s args (.error e) δ
  /-- All copies were made, but there is no call. -/
  | abandoned {e : Fault} {cs : List Copy} {scope : Scope} (count : args.length = w.source.params.length)
      (ready : w.Ready b s args cs scope) (why : w.Stuck b s scope) :
      Course b w s args (.error e) (cs.map Copy.asked)
  /-- The symbol was called. -/
  | called {cs : List Copy} {scope : Scope} {passed : List Passed} {hasRecord : Bool} {r : Except Fault Value}
      {δ : List Request} (count : args.length = w.source.params.length) (ready : w.Ready b s args cs scope)
      (calls : w.Calls b s scope passed hasRecord) (completes : w.Completes b s passed hasRecord r δ) :
      Course b w s args r (cs.map Copy.asked ++ δ)

/-- The call of a wrapper that has its copies. -/
theorem call_course (hb : b.Grows) (w : Wrapper) {args : List Value} {s₀ : Session} {cs : List Copy}
    {scope : Scope} (ready : w.Ready b s₀ args cs scope) (hfinish : ¬w.LacksFinish b) (s : Session) :
    Ends (b.callPlan (w.frame b) scope (w.plan b)) s fun r δ _ =>
      ((∃ e, r = .error e) ∧ ((w.plan b).inPlace = true ∧ b.Aside δ ∨ δ = [] ∧ w.Stuck b s scope)) ∨
      ∃ passed hasRecord, w.Calls b s scope passed hasRecord ∧
        b.Called s ((w.frame b).inside (w.plan b).symbol) passed hasRecord r δ := by
  refine Wrappers.callPlan_ends (P := b.Passes (w.frame b) s scope (w.plan b)) hb _ _ _
    (fun h => Or.inl ⟨⟨_, rfl⟩, Or.inr ⟨rfl, Or.inl (Or.inr (Or.inl h))⟩⟩)
    ((Wrappers.passing_ends hb ready s).mono fun r δ s' _ _ hq => ?_)
    (fun h => Or.inl ⟨⟨_, rfl⟩, Or.inr ⟨rfl, Or.inl (Or.inr (Or.inr h))⟩⟩)
    (fun passed hp hall s' => Or.inl ⟨⟨_, rfl⟩, Or.inr ⟨rfl, Or.inr ⟨passed, hp, hall⟩⟩⟩)
    fun passed hasRecord hp hall hlack herror hrecord r δ s' h => ?_
  · cases r with
    | ok passed => exact hq
    | error e => exact Or.inl ⟨⟨e, rfl⟩, Or.inl hq⟩
  · refine Or.inr ⟨passed, hasRecord, ⟨hp, hall, ?_, hrecord⟩, h⟩
    rintro (h | h | h)
    · exact hfinish h
    · exact hlack h
    · exact herror h

/-- From where all copies are made to the end. -/
theorem complete_ends (hb : b.Grows) (w : Wrapper) {args : List Value} {s₀ : Session} {cs : List Copy}
    {scope : Scope} (ready : w.Ready b s₀ args cs scope) (s : Session) :
    Ends (do
      (w.finish b).need (w.frame b)
      (w.finish b).make (w.frame b) (← b.callPlan (w.frame b) scope (w.plan b))) s fun r δ _ =>
      ((∃ e, r = .error e) ∧ ((w.plan b).inPlace = true ∧ b.Aside δ ∨ δ = [] ∧ w.Stuck b s scope)) ∨
      ∃ passed hasRecord, w.Calls b s scope passed hasRecord ∧ w.Completes b s passed hasRecord r δ := by
  refine (w.finish_checks b).ends (fun _ _ hfinish => ?_) fun h =>
    Or.inl ⟨⟨_, rfl⟩, Or.inr ⟨rfl, Or.inl (Or.inl h)⟩⟩
  refine Ends.bind (w.call_course hb ready hfinish s) (fun result δ s' _ _ hq => ?_) fun e δ s' _ hq => ?_
  · obtain ⟨⟨e, he⟩, -⟩ | ⟨passed, hasRecord, hcalls, hq⟩ := hq
    · exact absurd he (by simp)
    · refine (w.finish_ends hb result s').mono fun r δ' s'' _ _ hmade => ?_
      obtain ⟨aside, haside, rfl, hok⟩ := hmade
      refine Or.inr ⟨passed, hasRecord, hcalls, aside, haside, ?_⟩
      unfold Wrappers.Called at hq
      by_cases hfails : Wrappers.Fails s hasRecord
      · simp only [hfails, if_true] at hq
        exact absurd hq.1 (by simp)
      · simp only [hfails, if_false] at hq ⊢
        obtain ⟨hresult, rfl⟩ := hq
        obtain rfl := Except.ok.inj hresult
        exact ⟨hok, rfl⟩
  · obtain ⟨-, hq⟩ | ⟨passed, hasRecord, hcalls, hq⟩ := hq
    · exact Or.inl ⟨⟨e, rfl⟩, hq⟩
    · unfold Wrappers.Called at hq
      by_cases hfails : Wrappers.Fails s hasRecord
      · simp only [hfails, if_true] at hq
        obtain ⟨-, aside, haside, rfl⟩ := hq
        refine Or.inr ⟨passed, hasRecord, hcalls, aside, haside, ?_⟩
        rw [if_pos hfails]
        exact ⟨⟨e, rfl⟩, rfl⟩
      · simp only [hfails, if_false] at hq
        exact absurd hq.1 (by simp)

/-- The arguments of a wrapper are as many as its parameters. -/
theorem checkArguments_eq_ok {owner : Option Object} {c : Callable} {given : ℕ}
    (h : checkArguments owner c given = .ok ()) : given = c.params.length := by
  unfold checkArguments checkCount at h
  by_cases hmore : (c.params.map fun p => nameInside owner (escapePython p.name)).length < given
  · rw [if_pos hmore] at h
    exact absurd h (by simp)
  · rw [if_neg hmore] at h
    cases hdrop : (c.params.map fun p => nameInside owner (escapePython p.name)).drop given with
    | nil =>
      have hle := List.drop_eq_nil_iff.mp hdrop
      rw [List.length_map] at hle hmore
      omega
    | cons name names =>
      rw [hdrop] at h
      exact absurd h (by simp)

/-- **A run up to its call**: it is refused, or all copies are made and the wrapper goes on from there. A wrapper
without consumed buffers goes on from where it began. -/
theorem run_to_call (hb : b.Grows) (w : Wrapper) (args : List Value) (s : Session)
    {Q : Except Fault Value → List Request → Session → Prop}
    (hrefused : ∀ e δ s', b.Refused δ → Q (.error e) δ s')
    (hcall : ∀ cs scope s', args.length = w.source.params.length → w.Ready b s args cs scope →
      s.Next (cs.map Copy.asked) s' → ((w.plan b).inPlace = true → cs = [] ∧ s' = s) →
      Ends (do
        (w.finish b).need (w.frame b)
        (w.finish b).make (w.frame b) (← b.callPlan (w.frame b) scope (w.plan b))) s'
        fun r δ s'' => Q r (cs.map Copy.asked ++ δ) s'') :
    Ends (w.run b args) s Q := by
  rw [run_eq]
  unfold Wrappers.run
  refine Ends.bind (Q := fun r δ s' => δ = [] ∧ s' = s ∧ r = checkArguments w.owner w.source args.length)
    (Ends.ofExcept ⟨rfl, rfl, rfl⟩) (fun _ δ s' _ _ hq => ?_) fun e δ s' _ hq => ?_
  · obtain ⟨rfl, rfl, hcheck⟩ := hq
    have hcount := checkArguments_eq_ok hcheck.symm
    dsimp only
    cases hplace : (b.plan w.owner w.source).inPlace with
    | true =>
      have ready : w.Ready b s' args [] (w.arguments args) := by
        unfold Ready Wrappers.Scoped plan
        rw [if_pos hplace]
        exact ⟨rfl, rfl⟩
      exact Ends.bind_steady (a := w.arguments args) rfl (hcall [] _ s' hcount ready (.refl s') fun _ => ⟨rfl, rfl⟩)
    | false =>
      refine Ends.bind (Wrappers.bindAll_ends hb (w.frame b) (w.arguments args) (w.plan b) s')
        (fun scope δ s₁ _ hnext hq => ?_) fun e δ s₁ _ hq => hrefused e _ _ hq
      obtain ⟨cs, -, hbinds, rfl⟩ := hq
      have ready : w.Ready b s' args cs scope := by
        unfold Ready Wrappers.Scoped plan
        rw [if_neg (by simp [hplace])]
        exact hbinds
      exact hcall cs scope s₁ hcount ready hnext fun h => absurd (hplace.symm.trans h) (by simp)
  · obtain ⟨rfl, rfl, -⟩ := hq
    exact hrefused e _ _ (.of_aside b.aside_nil)

/-- **How the run of a wrapper ends**, whatever its parameters are called. -/
theorem run_course (hb : b.Grows) (w : Wrapper) (args : List Value) (s : Session) :
    Ends (w.run b args) s fun r δ _ => w.Course b s args r δ := by
  refine w.run_to_call hb args s (fun e δ s' h => .refused h) fun cs scope s' hcount ready hnext hsame => ?_
  refine (w.complete_ends hb ready s').mono fun r δ s'' _ _ hq => ?_
  cases hplace : (w.plan b).inPlace with
  | true =>
    obtain ⟨rfl, rfl⟩ := hsame hplace
    obtain ⟨⟨e, rfl⟩, ⟨-, ha⟩ | ⟨rfl, hstuck⟩⟩ | ⟨passed, hasRecord, hcalls, hdone⟩ := hq
    · exact .refused (.of_aside ha)
    · exact .abandoned hcount ready hstuck
    · exact .called hcount ready hcalls hdone
  | false =>
    obtain ⟨⟨e, rfl⟩, ⟨hin, -⟩ | ⟨rfl, hstuck⟩⟩ | ⟨passed, hasRecord, hcalls, hdone⟩ := hq
    · exact absurd (hin.symm.trans hplace) (by simp)
    · rw [List.append_nil]
      exact .abandoned hcount ready (hstuck.of_bound hplace)
    · exact .called hcount ready (hcalls.of_bound hplace) (hdone.of_next hnext)

end Wrapper

end Bindgen.Native
