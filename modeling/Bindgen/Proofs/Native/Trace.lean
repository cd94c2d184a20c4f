import Bindgen.Native.Session
import Bindgen.Proofs.Outcome

/-!
# What an action leaves in a session

An action of a session asks the native library for things, and a fault does not undo what was asked before it.
`Ends act s Q` says how a run of `act` from `s` ends: it adds requests to those of `s`, leaves alone what the
library is going to answer to the call, and `Q` holds of its result, of the requests added and of the session
that is left. There is one rule for each way in which actions are put together, so that a function of the
bindings has one such statement, and those who call it do not unfold it.

Results:
* `Ends.bind`, `Ends.bind_attempt`, `Ends.mono`: the rules by which statements are put together.
* `ends_copy`, `ends_free`, `ends_invoke`: what the native library is asked for.
* `Steady`, `Declines`, `Idle`: actions that change nothing.
-/

namespace Bindgen.Native

open Wire

variable {α β : Type} {s s' s'' : Session} {δ δ' : List Request}

/-! ## Sessions that follow -/

/-- **A session that follows.** `s'` has the requests of `s` and then `δ`, and the library has the same answer
ready for the call. -/
structure Session.Next (s : Session) (δ : List Request) (s' : Session) : Prop where
  requests : s'.requests = s.requests ++ δ
  result : s'.answers.result = s.answers.result
  code : s'.answers.code = s.answers.code
  message : s'.answers.message = s.answers.message

namespace Session.Next

theorem refl (s : Session) : s.Next [] s := ⟨(List.append_nil _).symm, rfl, rfl, rfl⟩

theorem trans (h : s.Next δ s') (h' : s'.Next δ' s'') : s.Next (δ ++ δ') s'' where
  requests := by rw [h'.requests, h.requests, List.append_assoc]
  result := h'.result.trans h.result
  code := h'.code.trans h.code
  message := h'.message.trans h.message

end Session.Next

/-! ## Runs -/

/-- **How a run ends.** Of the result, the requests that were added and the session that is left, `Q` holds. -/
def Ends (act : Action α) (s : Session) (Q : Except Fault α → List Request → Session → Prop) : Prop :=
  ∃ δ, s.Next δ (act s).2 ∧ Q (act s).1 δ (act s).2

/-- **An action that changes nothing** where it gives a result. -/
def Steady (act : Action α) (s : Session) (a : α) : Prop := act s = (.ok a, s)

theorem Action.bind_apply (act : Action α) (f : α → Action β) (s : Session) :
    (act >>= f) s = match act s with
      | (.ok a, s') => f a s'
      | (.error e, s') => (.error e, s') := by
  refine (state_bind_apply act f s).trans ?_
  cases act s with
  | mk r s' => cases r <;> rfl

theorem Steady.bind_apply {act : Action α} {a : α} (h : Steady act s a) (f : α → Action β) :
    (act >>= f) s = f a s := by
  rw [Action.bind_apply, h]

theorem Action.attempt_apply (act : Action α) (s : Session) :
    Action.attempt act s = (.ok (act s).1, (act s).2) := by
  simp only [Action.attempt, tryCatch, tryCatchThe, MonadExceptOf.tryCatch, ExceptT.tryCatch, ExceptT.mk,
    Functor.map, ExceptT.map, bind, StateT.bind, pure, ExceptT.pure]
  cases act s with
  | mk r s' => cases r <;> rfl

namespace Ends

variable {Q : Except Fault α → List Request → Session → Prop}
variable {R : Except Fault β → List Request → Session → Prop}

theorem intro (act : Action α) {r : Except Fault α} (hrun : act s = (r, s')) (hnext : s.Next δ s')
    (hQ : Q r δ s') : Ends act s Q := by
  refine ⟨δ, ?_, ?_⟩
  · rw [hrun]; exact hnext
  · rw [hrun]; exact hQ

theorem mono {Q' : Except Fault α → List Request → Session → Prop} {act : Action α} (h : Ends act s Q)
    (hQ : ∀ r δ s', act s = (r, s') → s.Next δ s' → Q r δ s' → Q' r δ s') : Ends act s Q' := by
  obtain ⟨δ, hnext, hq⟩ := h
  exact ⟨δ, hnext, hQ _ _ _ rfl hnext hq⟩

theorem of_eq {act act' : Action α} (h : act s = act' s) (h' : Ends act' s Q) : Ends act s Q := by
  unfold Ends
  rw [h]
  exact h'

/-- What is said twice of a run is said of the same requests. -/
theorem and {Q' : Except Fault α → List Request → Session → Prop} {act : Action α} (h : Ends act s Q)
    (h' : Ends act s Q') : Ends act s fun r δ s' => Q r δ s' ∧ Q' r δ s' := by
  obtain ⟨δ, hnext, hq⟩ := h
  obtain ⟨δ', hnext', hq'⟩ := h'
  obtain rfl := List.append_cancel_left (hnext.requests.symm.trans hnext'.requests)
  exact ⟨δ, hnext, hq, hq'⟩

theorem pure {a : α} (h : Q (.ok a) [] s) : Ends (Pure.pure a) s Q :=
  intro _ rfl (.refl s) h

theorem throw {e : Fault} (h : Q (.error e) [] s) : Ends (α := α) (MonadExcept.throw e) s Q :=
  intro _ rfl (.refl s) h

/-- **One action after another.** A fault of the first ends both. -/
theorem bind {act : Action α} {f : α → Action β} (h : Ends act s Q)
    (hok : ∀ a δ s', act s = (.ok a, s') → s.Next δ s' → Q (.ok a) δ s' →
      Ends (f a) s' fun r δ' s'' => R r (δ ++ δ') s'')
    (herror : ∀ e δ s', s.Next δ s' → Q (.error e) δ s' → R (.error e) δ s') : Ends (act >>= f) s R := by
  obtain ⟨δ, hnext, hq⟩ := h
  cases hrun : act s with
  | mk r s' =>
    rw [hrun] at hnext hq
    cases r with
    | ok a =>
      obtain ⟨δ', hnext', hR⟩ := hok a δ s' hrun hnext hq
      have hboth : (act >>= f) s = f a s' := by rw [Action.bind_apply, hrun]
      refine intro (act >>= f) (δ := δ ++ δ') (hboth.trans rfl) (hnext.trans hnext') hR
    | error e =>
      have hboth : (act >>= f) s = (.error e, s') := by rw [Action.bind_apply, hrun]
      exact intro _ hboth hnext (herror e δ s' hnext hq)

/-- Nothing comes after a fault. -/
theorem bind_throw {e : Fault} {f : α → Action β} (h : R (.error e) [] s) :
    Ends (MonadExcept.throw e >>= f) s R :=
  intro _ (Action.bind_apply _ f s) (.refl s) h

/-- Goes on after an action that changed nothing. -/
theorem bind_steady {act : Action α} {f : α → Action β} {a : α} (h : Steady act s a)
    (hf : Ends (f a) s R) : Ends (act >>= f) s R := by
  obtain ⟨δ, hnext, hR⟩ := hf
  have hboth : (act >>= f) s = f a s := by rw [Action.bind_apply, h]
  exact intro _ (hboth.trans rfl) hnext hR

theorem map {act : Action α} {f : α → β} (h : Ends act s fun r δ s' => R (f <$> r) δ s') :
    Ends (f <$> act) s R := by
  rw [map_eq_pure_bind]
  refine bind h (fun a δ s' _ _ hR => pure ?_) fun e δ s' _ hR => hR
  rw [List.append_nil]
  exact hR

theorem ofExcept {r : Except Fault α} (h : Q r [] s) : Ends (Action.ofExcept r) s Q := by
  cases r with
  | ok a => exact pure h
  | error e => exact throw h

/-- **Going on with an action whose fault is caught.** -/
theorem bind_attempt {act : Action α} {f : Except Fault α → Action β} (h : Ends act s Q)
    (hf : ∀ r δ s', s.Next δ s' → Q r δ s' → Ends (f r) s' fun r' δ' s'' => R r' (δ ++ δ') s'') :
    Ends (Action.attempt act >>= f) s R := by
  obtain ⟨δ, hnext, hq⟩ := h
  obtain ⟨δ', hnext', hR⟩ := hf _ δ _ hnext hq
  have hboth : (Action.attempt act >>= f) s = f (act s).1 (act s).2 := by
    rw [Action.bind_apply, Action.attempt_apply]
  exact intro _ (hboth.trans rfl) (hnext.trans hnext') hR

end Ends

/-! ## Actions that change nothing -/

/-- **An action that declines**: it fails, and nothing has changed. -/
def Declines (act : Action α) (s : Session) : Prop := ∃ e, act s = (.error e, s)

namespace Declines

variable {act : Action α}

theorem of_eq {act' : Action α} (h : act s = act' s) (h' : Declines act' s) : Declines act s :=
  h'.imp fun _ => h.trans

theorem bind {f : α → Action β} (h : Declines act s) : Declines (act >>= f) s := by
  obtain ⟨e, he⟩ := h
  exact ⟨e, by rw [Action.bind_apply, he]⟩

theorem after {f : α → Action β} {a : α} (h : Steady act s a) (hf : Declines (f a) s) :
    Declines (act >>= f) s :=
  of_eq (h.bind_apply f) hf

theorem map {f : α → β} (h : Declines act s) : Declines (f <$> act) s := by
  rw [map_eq_pure_bind]
  exact h.bind

end Declines

/-- **An action that changes nothing**, however it ends. -/
def Idle (act : Action α) (s : Session) : Prop := (act s).2 = s

namespace Idle

variable {act : Action α}

theorem of_eq {act' : Action α} (h : act s = act' s) (h' : Idle act' s) : Idle act s := by
  rw [Idle, h]
  exact h'

theorem of_steady {a : α} (h : Steady act s a) : Idle act s := congrArg Prod.snd h

theorem of_declines (h : Declines act s) : Idle act s := by
  obtain ⟨e, he⟩ := h
  exact congrArg Prod.snd he

theorem bind {f : α → Action β} (h : Idle act s) (hf : ∀ a, Idle (f a) s) : Idle (act >>= f) s := by
  cases hrun : act s with
  | mk r s' =>
    obtain rfl : s' = s := (congrArg Prod.snd hrun).symm.trans h
    rw [Idle, Action.bind_apply, hrun]
    cases r with
    | ok a => exact hf a
    | error e => rfl

theorem map {f : α → β} (h : Idle act s) : Idle (f <$> act) s := by
  rw [map_eq_pure_bind]
  exact h.bind fun _ => rfl

theorem attempt (h : Idle act s) : Idle (Action.attempt act) s := by
  rw [Idle, Action.attempt_apply]
  exact h

theorem ofExcept (r : Except Fault α) : Idle (Action.ofExcept r) s := by
  cases r <;> rfl

theorem ends (h : Idle act s) : Ends act s fun _ δ s' => δ = [] ∧ s' = s :=
  ⟨[], by rw [show (act s).2 = s from h]; exact .refl s, rfl, h⟩

end Idle

/-! ## Requests -/

section Requests

variable {Q : Except Fault Unit → List Request → Session → Prop}

/-- The session after some requests that are only recorded. -/
def Session.after (s : Session) (δ : List Request) : Session := { s with requests := s.requests ++ δ }

theorem Session.next_after (s : Session) (δ : List Request) : s.Next δ (s.after δ) := ⟨rfl, rfl, rfl, rfl⟩

theorem free_apply (b : Buffer) (s : Session) : Action.free b s = (.ok (), s.after [.freed b]) := rfl

theorem freeAll_apply (held : List Buffer) (s : Session) :
    held.forM Action.free s = (.ok (), s.after (held.map .freed)) := by
  induction held generalizing s with
  | nil => simp [Session.after]; rfl
  | cons b held ih =>
    change (Action.free b >>= fun _ => held.forM Action.free) s = _
    rw [Action.bind_apply, free_apply]
    simp only [ih]
    simp [Session.after]

/-- A copy is recorded with the bytes asked for, and the library chooses what it is. -/
theorem ends_copy {Q : Except Fault Buffer → List Request → Session → Prop} (view : View)
    (h : ∀ copy s', s.Next [.copied view.contents copy] s' →
      Q (.ok copy) [.copied view.contents copy] s') : Ends (Action.copy view) s Q := by
  let copy := (s.answers.copies.headD .none).apply view.contents
  have hnext : s.Next [.copied view.contents copy]
      ⟨{ s.answers with copies := s.answers.copies.tail }, s.requests ++ [.copied view.contents copy],
        s.objects, s.labels⟩ := ⟨rfl, rfl, rfl, rfl⟩
  exact Ends.intro _ rfl hnext (h copy _ hnext)

theorem ends_free (b : Buffer) (h : ∀ s', s.Next [.freed b] s' → Q (.ok ()) [.freed b] s') :
    Ends (Action.free b) s Q :=
  Ends.intro _ (free_apply b s) (s.next_after _) (h _ (s.next_after _))

/-- Several buffers are freed one after another. -/
theorem ends_freeAll (held : List Buffer)
    (h : ∀ s', s.Next (held.map .freed) s' → Q (.ok ()) (held.map .freed) s') :
    Ends (held.forM Action.free) s Q :=
  Ends.intro _ (freeAll_apply held s) (s.next_after _) (h _ (s.next_after _))

/-- A symbol is called only with what can be passed, and the answer is what the library had ready. -/
theorem ends_invoke {Q : Except Fault Passed → List Request → Session → Prop} (symbol : String)
    (args : List Passed) (hasRecord : Bool)
    (hok : args.all Action.isPassable → ∀ s', s.Next [.called symbol args hasRecord] s' →
      Q (.ok s.answers.result) [.called symbol args hasRecord] s')
    (herror : args.all Action.isPassable = false → Q (.error .unsupported) [] s) :
    Ends (Action.invoke symbol args hasRecord) s Q := by
  cases hall : args.all Action.isPassable with
  | true =>
    refine Ends.intro (r := .ok s.answers.result) _ ?_ (s.next_after _) (hok hall _ (s.next_after _))
    simp only [Action.invoke, hall]
    rfl
  | false =>
    refine Ends.intro (r := .error .unsupported) _ ?_ (.refl s) (herror hall)
    simp only [Action.invoke, hall]
    rfl

end Requests

end Bindgen.Native
