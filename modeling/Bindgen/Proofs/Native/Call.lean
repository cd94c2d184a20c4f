import Bindgen.Proofs.Native.Lowering

/-!
# The call of a wrapper

A wrapper calls only if the names that it needs for the call still stand for what it needs. The call itself
records what is passed, and after a call that failed the message of the error record is freed
(`Wrappers.Called`).

Results:
* `reported_checks`: what the name of an error has to be.
* `checkStatus_ends`, `call_ends`: a call, and its error record.
* `callPlan_ends`: a plan is called, or it says why not.
-/

namespace Bindgen.Native

open Interface Resolve Emit Identifier Wire

variable {α β : Type} {b : Wrappers} {s : Session}

namespace Wrappers

/-! ## What a call needs -/

/-- **A result for which something is lacking**: the protocol, or the converter where it is used at once. -/
def LacksResult (b : Wrappers) (f : Frame) (t : Ty) : Prop :=
  if (b.schema.table.conversionOf t).usesBuffer then
    b.Lacks f protocolName ∨ (converterSource t = supportName ∧ b.LacksConverter f t)
  else b.LacksConverter f t

/-- **An error that is lacking**: its name means nothing in the class of the wrapper, nor in the wrapper. -/
def LacksError (f : Frame) (scope : Scope) (plan : CallPlan) : Prop :=
  ∃ name, plan.error = some name ∧ scope.lookup (f.inside name) = none ∧
    (f.inside name ∈ f.locals ∨ f.inside name ≠ name)

theorem reported_checks (b : Wrappers) (f : Frame) (scope : Scope) (plan : CallPlan) :
    Checks (b.reported f scope plan) (LacksError f scope plan) fun error =>
      error.isSome → plan.error.isSome := by
  unfold reported LacksError
  cases herror : plan.error with
  | none => exact (Checks.pure (by simp)).congr (by simp)
  | some name =>
    dsimp only
    unfold errorIn
    cases hname : scope.lookup (f.inside name) with
    | some bound =>
      have hfound : False ↔ ∃ n, some name = some n ∧ scope.lookup (f.inside n) = none ∧
          (f.inside n ∈ f.locals ∨ f.inside n ≠ n) := by
        constructor
        · exact False.elim
        · rintro ⟨n, hn, hnone, -⟩
          obtain rfl := Option.some.inj hn
          exact absurd (hname.symm.trans hnone) (by simp)
      split
      · exact (Checks.pure fun _ => rfl).congr hfound
      · exact (Checks.pure fun _ => rfl).congr hfound
      · exact (Checks.pure fun _ => rfl).congr hfound
      · next h => exact absurd h (by simp)
    | none =>
      refine Checks.ite ?_ (.pure fun _ => rfl)
      constructor
      · intro h
        exact ⟨name, rfl, hname, by simpa using h⟩
      · rintro ⟨n, hn, -, h⟩
        obtain rfl := Option.some.inj hn
        simpa using h

/-! ## The call -/

/-- **A call that fails**: it has an error record, and a code that is not that of success. -/
def Fails (s : Session) (hasRecord : Bool) : Prop :=
  hasRecord = true ∧ wrap32 s.answers.code ≠ successCode

instance (s : Session) (hasRecord : Bool) : Decidable (Fails s hasRecord) :=
  inferInstanceAs (Decidable (_ ∧ _))

/-- How the message of an error record is freed: not at all where there is none. -/
def messageFreed (message : Buffer) : List Request :=
  if message.capacity = 0 then [] else [.freed message]

theorem messageText_ends (message : Buffer) (s : Session) :
    Ends (messageText message) s fun _ δ _ => δ = messageFreed message := by
  unfold messageText messageFreed
  by_cases hcap : message.capacity = 0
  · simp only [hcap, if_true]
    exact Ends.pure rfl
  · simp only [hcap, if_false]
    refine Ends.bind (Q := fun _ δ _ => δ = [.freed message]) (ends_free message fun _ _ => rfl)
      (fun _ δ s' _ _ hδ => ?_) fun _ _ _ _ hδ => hδ
    subst hδ
    refine Ends.bind (Q := fun _ δ _ => δ = []) (Ends.ofExcept rfl) (fun _ δ s' _ _ hδ => Ends.pure ?_)
      fun _ _ _ _ hδ => ?_
    · simp [hδ]
    · simp [hδ]

/-- **The error record after a call.** Success leaves it alone, and any other code ends in a fault after the
message is freed. -/
theorem checkStatus_ends (code : Int) (message : Buffer) (e : ErrorClass) (s : Session) :
    Ends (checkStatus code message e) s fun r δ _ =>
      if wrap32 code = successCode then r = .ok () ∧ δ = []
      else (∃ f, r = .error f) ∧ δ = messageFreed message := by
  unfold checkStatus
  by_cases hcode : wrap32 code = successCode
  · simp only [hcode, if_true]
    exact Ends.pure ⟨rfl, rfl⟩
  · simp only [hcode, if_false]
    refine Ends.bind (messageText_ends message s) (fun text δ s' _ _ hδ => ?_)
      fun f δ _ _ hδ => ⟨⟨f, rfl⟩, hδ⟩
    by_cases hinternal : wrap32 code = unexpectedCode
    · simp only [hinternal, if_true]
      exact Ends.bind_throw ⟨⟨_, rfl⟩, by simp [hδ]⟩
    · simp only [hinternal, if_false]
      exact Ends.throw ⟨⟨_, rfl⟩, by simp [hδ]⟩

/-- **A call**, if all that is passed can be. -/
theorem call_ends (symbol : String) (args : List Passed) (error : Option ErrorClass) (s : Session) :
    Ends (call symbol args error) s fun r δ _ =>
      if args.all Action.isPassable then
        if Fails s error.isSome then
          (∃ f, r = .error f) ∧ δ = .called symbol args error.isSome :: messageFreed s.answers.message
        else r = .ok s.answers.result ∧ δ = [.called symbol args error.isSome]
      else r = .error .unsupported ∧ δ = [] := by
  unfold call
  cases hall : args.all Action.isPassable with
  | false =>
    refine Ends.bind (Q := fun r δ _ => r = .error .unsupported ∧ δ = [])
      (ends_invoke symbol args error.isSome (fun h => absurd (h.symm.trans hall) (by simp))
        fun _ => ⟨rfl, rfl⟩)
      (fun _ _ _ _ _ hq => absurd hq.1 (by simp)) fun e δ _ _ hq => ?_
    simpa using hq
  | true =>
    simp only [if_true]
    refine Ends.bind
      (Q := fun r δ _ => r = .ok s.answers.result ∧ δ = [.called symbol args error.isSome])
      (ends_invoke symbol args error.isSome (fun _ _ _ => ⟨rfl, rfl⟩)
        fun h => absurd (h.symm.trans hall) (by simp))
      (fun result δ s' _ hnext hq => ?_) fun _ _ _ _ hq => absurd hq.1 (by simp)
    obtain ⟨hresult, rfl⟩ := hq
    obtain rfl := Except.ok.inj hresult
    cases error with
    | none => exact Ends.pure (by simp [Fails])
    | some e =>
      refine Ends.bind_steady (a := s') rfl ?_
      refine Ends.bind (checkStatus_ends s'.answers.code s'.answers.message e s')
        (fun _ δ _ _ _ hδ => Ends.pure ?_) fun f δ _ _ hδ => ?_
      · rw [hnext.code, hnext.message] at hδ
        by_cases hcode : wrap32 s.answers.code = successCode
        · simp only [hcode, if_true] at hδ
          simp [Fails, hcode, hδ.2]
        · simp [hcode] at hδ
      · rw [hnext.code, hnext.message] at hδ
        by_cases hcode : wrap32 s.answers.code = successCode
        · simp [hcode] at hδ
        · simp only [hcode, if_false] at hδ
          simp [Fails, hcode, hδ.2]

/-- **What a call in a module leaves**: the call as it is recorded, and after one that failed the message that
is freed, and an aside. -/
def Called (b : Wrappers) (s : Session) (symbol : String) (passed : List Passed) (hasRecord : Bool)
    (r : Except Fault Passed) (δ : List Request) : Prop :=
  if Fails s hasRecord then
    (∃ f, r = .error f) ∧ ∃ aside, b.Aside aside ∧
      δ = .called symbol passed hasRecord :: messageFreed s.answers.message ++ aside
  else r = .ok s.answers.result ∧ δ = [.called symbol passed hasRecord]

theorem settled_call_ends (hb : b.Grows) (symbol : String) (passed : List Passed) (error : Option ErrorClass)
    (s : Session) :
    Ends (do b.settle (← Action.attempt (call symbol passed error))) s fun r δ _ =>
      if passed.all Action.isPassable then b.Called s symbol passed error.isSome r δ
      else r = .error .unsupported ∧ δ = [] := by
  refine Ends.bind_attempt (call_ends symbol passed error s) fun r δ s' hnext hq => ?_
  by_cases hall : passed.all Action.isPassable = true
  · simp only [hall, if_true] at hq ⊢
    unfold Called
    by_cases hfails : Fails s error.isSome
    · simp only [hfails, if_true] at hq ⊢
      obtain ⟨⟨f, rfl⟩, rfl⟩ := hq
      exact settle_ends hb _ (fun a ha => absurd ha (by simp)) fun e δ' _ ha =>
        ⟨⟨e, rfl⟩, δ', ha, rfl⟩
    · simp only [hfails, if_false] at hq ⊢
      obtain ⟨rfl, rfl⟩ := hq
      exact Ends.pure ⟨rfl, rfl⟩
  · simp only [hall] at hq ⊢
    obtain ⟨rfl, rfl⟩ := hq
    exact Ends.throw ⟨rfl, rfl⟩

/-! ## Calling a plan -/

/-- **The call of a plan.** Something is lacking, or what is passed is not prepared or cannot be passed, or the
symbol is called. -/
theorem callPlan_ends (hb : b.Grows) (f : Frame) (scope : Scope) (plan : CallPlan)
    {P : List Passed → Prop} {Q : Except Fault Passed → List Request → Session → Prop}
    (hlack : b.Lacks f protocolName ∨ b.Lacks f libraryName → Q (.error .unsupported) [] s)
    (hpass : Ends (b.passing f scope plan) s fun r δ s' => match r with
      | .ok passed => δ = [] ∧ s' = s ∧ P passed
      | .error e => Q (.error e) δ s')
    (hreport : LacksError f scope plan → Q (.error .unsupported) [] s)
    (hstuck : ∀ passed, P passed → passed.all Action.isPassable = false → ∀ s', Q (.error .unsupported) [] s')
    (hcall : ∀ passed hasRecord, P passed → passed.all Action.isPassable = true →
      ¬(b.Lacks f protocolName ∨ b.Lacks f libraryName) → ¬LacksError f scope plan →
      (hasRecord = true → plan.error.isSome) →
      ∀ r δ s', b.Called s (f.inside plan.symbol) passed hasRecord r δ → Q r δ s') :
    Ends (b.callPlan f scope plan) s Q := by
  unfold callPlan
  refine (need_checks b f protocolName).ends (fun _ _ hprotocol => ?_) fun h => hlack (Or.inl h)
  refine (need_checks b f libraryName).ends (fun _ _ hlibrary => ?_) fun h => hlack (Or.inr h)
  refine Ends.bind hpass (fun passed δ s' _ _ hq => ?_) fun e δ s' _ hq => hq
  obtain ⟨rfl, rfl, hp⟩ := hq
  refine (reported_checks b f scope plan).ends (fun error herror hnamed => ?_) hreport
  refine (settled_call_ends hb (f.inside plan.symbol) passed error s').mono fun r δ s'' _ _ hq => ?_
  cases hall : passed.all Action.isPassable with
  | true =>
    simp only [hall, if_true] at hq
    exact hcall passed error.isSome hp hall (not_or.mpr ⟨hprotocol, hlibrary⟩) hnamed herror r δ s'' hq
  | false =>
    simp only [hall] at hq
    obtain ⟨rfl, rfl⟩ := hq
    exact hstuck passed hp hall s''

end Wrappers

end Bindgen.Native
