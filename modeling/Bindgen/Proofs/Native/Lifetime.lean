import Bindgen.Proofs.Native.Objects

/-!
# How long a handle is held

An object holds its handle until it is closed, by a call, at the end of a block of code that it guards, or at
the end of its own life. `Use` is a piece of code that uses one object: it calls methods that are declared for
the class, closes the object, guards code with it, fails, and catches what fails. `Use.closes` says whether
the object is closed on the way.

A class may declare callables under the names of the members that keep the handle, so that these are never
reached; and what a wrapper looks up may have been taken by the model (`Unobstructed`). Otherwise a handle is
released once.

Results:
* `Use.perform_shut`: nothing is asked of the library by a closed object.
* `Use.perform_left`: the handle is held until the object is closed, and then it is released.
* **`released_once`**: how often, and when, an object releases its handle.
-/

namespace Bindgen.Native

open Interface Resolve Emit Identifier Wire

variable {α : Type} {m : Model} {b : Wrappers} {s : Session} {o : Object} {label : String}

/-! ## Answers -/

/-- **Runs an action with answers of its own.** Those of the session are left for what comes after. -/
def Action.answered (answers : Answers) (act : Action α) : Action α := do
  let before := (← get).answers
  modify ({ · with answers })
  let r ← Action.attempt act
  modify ({ · with answers := before })
  Action.ofExcept r

theorem Action.answered_apply (answers : Answers) (act : Action α) (s : Session) :
    Action.answered answers act s =
      ((act { s with answers }).1, { (act { s with answers }).2 with answers := s.answers }) := by
  have hget : Steady (get : Action Session) s s := rfl
  rw [Action.answered, hget.bind_apply, Action.bind_apply]
  change (do
    let r ← Action.attempt act
    modify ({ · with answers := s.answers })
    Action.ofExcept r : Action α) { s with answers } = _
  rw [Action.bind_apply, Action.attempt_apply]
  cases hrun : act { s with answers } with
  | mk r s' => cases r <;> rfl

theorem Ends.answered {act : Action α} {answers : Answers}
    {Q : Except Fault α → List Request → Session → Prop}
    (h : Ends act { s with answers } fun r δ s' => Q r δ { s' with answers := s.answers }) :
    Ends (Action.answered answers act) s Q := by
  obtain ⟨δ, hnext, hq⟩ := h
  exact Ends.intro _ (Action.answered_apply answers act s) ⟨hnext.requests, rfl, rfl, rfl⟩ hq

theorem Idle.answered {act : Action α} {answers : Answers} (h : Idle act { s with answers }) :
    Idle (Action.answered answers act) s := by
  rw [Idle, Action.answered_apply, show (act { s with answers }).2 = { s with answers } from h]

/-! ## Uses of an object -/

/-- **Code that uses an object.** -/
inductive Use where
  | nothing
  /-- Calls a method with arguments, for which the library has answers of its own. -/
  | call (name : String) (args : List Value) (answers : Answers)
  | close
  /-- A block that the object guards: it is closed afterwards in any case. -/
  | within (body : Use)
  /-- Fails for a reason of its own. -/
  | fail
  /-- Goes on after a block however that ends. -/
  | caught (body : Use)
  | andThen (first second : Use)

namespace Use

/-- **Runs code** on the object under a label. A fault ends it, unless it is caught. The end of a guarded
block is told of a fault by three arguments, which are nothing without one; it looks at none of them. -/
def perform (b : Wrappers) (label : String) : Use → Action Unit
  | nothing => return
  | call name args answers => Action.answered answers (discard (b.method label name args))
  | close => b.close label
  | within body => do
    let _ ← b.method label Wrappers.enterMember []
    let outcome ← Action.attempt (body.perform b label)
    let _ ← b.method label Wrappers.exitMember [.none, .none, .none]
    Action.ofExcept outcome
  | fail => throw .bodyFailed
  | caught body => discard (Action.attempt (body.perform b label))
  | andThen first second => do
    first.perform b label
    second.perform b label

/-- Only methods are called that a class declares. -/
def Declared (o : Object) : Use → Prop
  | call name .. => ∃ c ∈ o.methods, Wrappers.declared? o name = some c
  | within body | caught body => body.Declared o
  | andThen first second => first.Declared o ∧ second.Declared o
  | nothing | close | fail => True

/-- **Whether the object is closed** on the way, which nothing does after a fault that is not caught. -/
def closes (b : Wrappers) (label : String) : Use → Session → Bool
  | close, _ | within _, _ => true
  | caught body, s => body.closes b label s
  | andThen first second, s => first.closes b label s ||
    match first.perform b label s with
    | (.ok (), s') => second.closes b label s'
    | (.error _, _) => false
  | nothing, _ | call .., _ | fail, _ => false

end Use

/-! ## Whole uses -/

/-- **How code leaves an object** that had a handle. If it was closed its handle was released last, after
ordinary requests; otherwise it has its handle, and there were only such requests. -/
def Left (m : Model) (o : Object) (label : String) (handle : Value) (closed : Bool) (δ : List Request)
    (s : Session) : Prop :=
  if closed then Holds s label o none ∧
    ∃ front, δ = front ++ [.released (releaseName m.ns o.name) handle] ∧ ∀ q ∈ front, q.Ordinary m
  else Holds s label o (some handle) ∧ ∀ q ∈ δ, q.Ordinary m

theorem Left.after {handle : Value} {closed : Bool} {δ δ' : List Request}
    (h : Left m o label handle closed δ' s) (hδ : ∀ q ∈ δ, q.Ordinary m) :
    Left m o label handle closed (δ ++ δ') s := by
  cases closed with
  | true =>
    obtain ⟨hshut, front, rfl, hfront⟩ := h
    exact ⟨hshut, δ ++ front, (List.append_assoc _ _ _).symm, List.forall_mem_append.2 ⟨hδ, hfront⟩⟩
  | false => exact ⟨h.1, List.forall_mem_append.2 ⟨hδ, h.2⟩⟩

section Whole

variable {limit : ℕ} (hm : Wrappers.ofModel m limit = .ok b) (ho : o ∈ m.objects) (hfree : Unobstructed b o)
include hm ho hfree

/-- **Nothing is asked of the library by a closed object**, whatever is done with it. -/
theorem Use.perform_shut (hs : Holds s label o none) (u : Use) (hu : u.Declared o) :
    Idle (u.perform b label) s := by
  induction u with
  | nothing => rfl
  | call name args answers =>
    obtain ⟨c, hmethod, hc⟩ := hu
    have hshut : Holds { s with answers } label o none := hs
    exact .answered (.map (.of_declines (method_shut hm ho hfree hshut hc hmethod args)))
  | close => exact .of_steady (close_shut hm ho hfree hs)
  | within body ih =>
    refine .bind (.of_steady (method_enter hm ho hfree hs)) fun _ => ?_
    refine .bind (.attempt (ih hu)) fun outcome => .bind (.of_eq (method_exit hm ho hfree hs) ?_) fun _ => ?_
    · exact .bind (.of_steady (close_shut hm ho hfree hs)) fun _ => rfl
    · exact .ofExcept outcome
  | fail => rfl
  | caught body ih => exact .map (.attempt (ih hu))
  | andThen first second ih ih' => exact .bind (ih hu.1) fun _ => ih' hu.2

/-- Code that leaves its guarded block closes the object, if that is not closed already. -/
theorem Use.exit_left {handle : Value} {closed : Bool} {δ : List Request}
    (h : Left m o label handle closed δ s) :
    Ends (b.method label Wrappers.exitMember [.none, .none, .none]) s fun _ δ' s' =>
      Left m o label handle true (δ ++ δ') s' := by
  cases closed with
  | true =>
    obtain ⟨hshut, hδ⟩ := h
    have hidle : Idle (b.method label Wrappers.exitMember [.none, .none, .none]) s :=
      .of_eq (method_exit hm ho hfree hshut) (.bind (.of_steady (close_shut hm ho hfree hshut)) fun _ => rfl)
    refine hidle.ends.mono fun _ δ' s' _ _ ⟨hδ', hs'⟩ => ?_
    rw [hδ', hs', List.append_nil]
    exact ⟨hshut, hδ⟩
  | false =>
    obtain ⟨hheld, hδ⟩ := h
    refine Ends.of_eq (method_exit hm ho hfree hheld) ?_
    refine Ends.bind (close_held hm ho hfree hheld) (fun _ δ' s' _ _ hq => Ends.pure ?_) fun _ δ' s' _ hq => ?_
    · rw [List.append_nil]
      exact ⟨hq.2, δ, by rw [hq.1], hδ⟩
    · exact ⟨hq.2, δ, by rw [hq.1], hδ⟩

/-- **What comes of code that uses an object with a handle.** Where the object is closed on the way, its
handle is released, once and last. Otherwise it has its handle still. -/
theorem Use.perform_left {handle : Value} (u : Use) (hu : u.Declared o) {s : Session}
    (hs : Holds s label o (some handle)) :
    Ends (u.perform b label) s fun _ δ s' => Left m o label handle (u.closes b label s) δ s' := by
  induction u generalizing s with
  | nothing => exact Ends.pure ⟨hs, by simp⟩
  | call name args answers =>
    obtain ⟨c, hmethod, hc⟩ := hu
    have hheld : Holds { s with answers } label o (some handle) := hs
    exact .answered (.map (method_held hm ho hfree hheld hc hmethod args))
  | close =>
    refine (close_held hm ho hfree hs).mono fun _ δ s' _ _ hq => ?_
    exact ⟨hq.2, [], hq.1, by simp⟩
  | within body ih =>
    refine Ends.bind_steady (method_enter hm ho hfree hs) (Ends.bind_attempt (ih hu hs) fun r δ s' _ hq => ?_)
    refine Ends.bind (exit_left hm ho hfree hq) (fun _ δ' s'' _ _ hq => Ends.ofExcept ?_) fun _ _ _ _ hq => hq
    rw [List.append_nil]
    exact hq
  | fail => exact Ends.throw ⟨hs, by simp⟩
  | caught body ih =>
    obtain ⟨δ, hnext, hleft⟩ := ih hu hs
    exact .map (Ends.intro _ (Action.attempt_apply _ s) hnext hleft)
  | andThen first second ih ih' =>
    have hfirst : Ends (first.perform b label) s fun r δ s' => first.perform b label s = (r, s') ∧
        Left m o label handle (first.closes b label s) δ s' :=
      (ih hu.1 hs).mono fun r δ s' hrun _ hq => ⟨hrun, hq⟩
    refine Ends.bind hfirst (fun _ δ s' hrun _ ⟨_, hq⟩ => ?_) fun e δ s' _ ⟨hrun, hq⟩ => ?_
    · cases hclosed : first.closes b label s with
      | true =>
        rw [hclosed] at hq
        refine (perform_shut hm ho hfree hq.1 second hu.2).ends.mono fun _ δ' s'' _ _ ⟨hδ', hs''⟩ => ?_
        rw [hδ', hs'', List.append_nil, closes, hclosed, Bool.true_or]
        exact hq
      | false =>
        rw [hclosed] at hq
        refine (ih' hu.2 hq.1).mono fun _ δ' s'' _ _ hq' => ?_
        rw [closes, hclosed, hrun, Bool.false_or]
        exact hq'.after hq.2
    · rw [closes, hrun, Bool.or_false]
      exact hq

/-! ## The end of its life -/

/-- **At the end of its life** an object is forgotten, and its handle released if it has one still. -/
theorem drop_left {handle : Value} {closed : Bool} {δ : List Request} (h : Left m o label handle closed δ s) :
    Ends (b.drop label) s fun _ δ' s' => s'.objects.lookup label = none ∧
      δ' = if closed then [] else [.released (releaseName m.ns o.name) handle] := by
  have hforget (s : Session) :
      Ends (Action.forget label) s fun _ δ s' => s'.objects.lookup label = none ∧ δ = [] :=
    Ends.intro _ (r := .ok ()) rfl ⟨(List.append_nil _).symm, rfl, rfl, rfl⟩ ⟨lookup_forgotten _, rfl⟩
  have hclose : Ends (b.close label) s fun _ δ' _ =>
      δ' = if closed then [] else [.released (releaseName m.ns o.name) handle] := by
    cases closed with
    | true => exact (Idle.of_steady (close_shut hm ho hfree h.1)).ends.mono fun _ _ _ _ _ hq => hq.1
    | false => exact (close_held hm ho hfree h.1).mono fun _ _ _ _ _ hq => hq.1
  have hdrop : Ends (do let _ ← Action.attempt (b.close label); Action.forget label : Action Unit) s
      fun _ δ' s' => s'.objects.lookup label = none ∧
        δ' = if closed then [] else [.released (releaseName m.ns o.name) handle] :=
    Ends.bind_attempt hclose fun r δ s' _ hδ => (hforget s').mono fun _ δ' s'' _ _ hq =>
      ⟨hq.1, by rw [hq.2, List.append_nil, hδ]⟩
  cases closed with
  | true => exact Ends.of_eq (drop_eq hm ho hfree h.1) hdrop
  | false => exact Ends.of_eq (drop_eq hm ho hfree h.1) hdrop

end Whole

/-! ## Once -/

/-- **Code and the end of its object's life release a handle once.** It is released at the first time that the
object is closed, or else at the end, and that is the last request. Before it no handle is released, and the
symbol for that is not called in any other way. -/
structure Use.ReleasesOnce (m : Model) (b : Wrappers) (o : Object) (label : String) (handle : Value) (u : Use)
    (s : Session) (front : List Request) : Prop where
  apart : ∀ q ∈ front, q.Apart (releaseName m.ns o.name)
  /-- What was asked for when the code ends. -/
  left : (u.perform b label s).2.requests = s.requests ++ front ++
    if u.closes b label s then [.released (releaseName m.ns o.name) handle] else []
  /-- What was asked for when the life of the object ends. -/
  gone : (b.drop label (u.perform b label s).2).2.requests =
    s.requests ++ front ++ [.released (releaseName m.ns o.name) handle]
  holds : Holds (u.perform b label s).2 label o (if u.closes b label s then none else some handle)
  forgotten : (b.drop label (u.perform b label s).2).2.objects.lookup label = none

theorem Use.releasesOnce (hm : Wrappers.ofModel m limit = .ok b) (ho : o ∈ m.objects) (hfree : Unobstructed b o)
    {handle : Value} (hs : Holds s label o (some handle)) (u : Use) (hu : u.Declared o) :
    ∃ front, u.ReleasesOnce m b o label handle s front := by
  obtain ⟨δ, hnext, hleft⟩ := u.perform_left hm ho hfree hu hs
  obtain ⟨δ', hnext', hforgotten, hδ'⟩ := drop_left hm ho hfree hleft
  have hgone := hnext'.requests.trans (congrArg (· ++ δ') hnext.requests)
  cases hclosed : u.closes b label s with
  | true =>
    rw [hclosed] at hleft hδ'
    obtain ⟨hshut, front, rfl, hfront⟩ := hleft
    refine ⟨front, fun q hq => (hfront q hq).apart hm ho hfree, ?_, ?_, ?_, hforgotten⟩
    · rw [hclosed, hnext.requests, List.append_assoc]
      rfl
    · rw [hgone, hδ', if_pos rfl, List.append_nil, List.append_assoc]
    · rw [hclosed]
      exact hshut
  | false =>
    rw [hclosed] at hleft hδ'
    refine ⟨δ, fun q hq => (hleft.2 q hq).apart hm ho hfree, ?_, ?_, ?_, hforgotten⟩
    · rw [hclosed, hnext.requests]
      exact (List.append_nil _).symm
    · rw [hgone, hδ']
      rfl
    · rw [hclosed]
      exact hleft.1

/-- **A handle is released once**, or what is in the way. Every object that a constructor makes holds its
handle. An unobstructed object that does may be used by any code that calls its methods, closes it and guards
blocks with it, and then its life ends: its handle is released once, by the symbol of its class, at the first
time that the object is closed or else at the end, and nothing is asked for after that. Whatever is done with
a closed object changes nothing. -/
theorem released_once (hm : Wrappers.ofModel m limit = .ok b) (ho : o ∈ m.objects) (hfree : Unobstructed b o) :
    (∀ ctor, Constructs b o ctor → ∀ args label s,
      Ends (b.construct o.name ctor label args) s fun r _ s' =>
        ∀ v, r = .ok v → ∃ handle, Holds s' label o (some handle)) ∧
    (∀ s label handle, Holds s label o (some handle) → ∀ u : Use, u.Declared o →
      ∃ front, u.ReleasesOnce m b o label handle s front) ∧
    ∀ s label, Holds s label o none → ∀ u : Use, u.Declared o → (u.perform b label s).2 = s :=
  ⟨fun _ hctor args label s => construct_holds hm ho hfree hctor args label s,
    fun _ _ _ hs u hu => u.releasesOnce hm ho hfree hs hu, fun _ _ hs u hu => u.perform_shut hm ho hfree hs hu⟩

/-- The symbol of a request. -/
def Request.symbol? : Request → Option String
  | .called symbol .. | .released symbol _ => some symbol
  | .copied .. | .freed _ => none

/-- A thing with one method. -/
def thingWith (method : String) : Object where
  name := "Thing"
  constructors := [⟨.constructor, "new", [], none, none⟩]
  methods := [⟨.method, method, [], none, none⟩]

/-- A model with that thing. -/
def thingModel (method : String) : Model where
  ns := "n"
  records := []
  enums := []
  errors := []
  objects := [thingWith method]
  functions := []

/-- A session in which a thing is held. -/
def thingSession : Session :=
  { Session.start with objects := [("t", ⟨⟨"Thing", []⟩, some (.int 5)⟩)] }

/-- A thing is poked in a guarded block that fails, and after it. -/
def pokes : Use :=
  .andThen (.caught (.within (.andThen (.call "poke" [] .plain) .fail))) (.call "poke" [] .plain)

/-- The thing is released at the end of the block. -/
theorem released_once_thing : ∃ b, Wrappers.ofModel (thingModel "poke") 0 = .ok b ∧
    Unobstructed b (thingWith "poke") ∧ Constructs b (thingWith "poke") "new" ∧
    Holds thingSession "t" (thingWith "poke") (some (.int 5)) ∧ pokes.Declared (thingWith "poke") ∧
    (pokes.perform b "t" thingSession).2.requests.map Request.symbol? =
      [some "n_Thing_poke", some "n_Thing_free"] ∧
    (Ends (b.construct "Thing" "new" "t" []) .start fun r _ s' =>
      ∀ v, r = .ok v → ∃ handle, Holds s' "t" (thingWith "poke") (some handle)) ∧
    ∃ front, pokes.ReleasesOnce (thingModel "poke") b (thingWith "poke") "t" (.int 5) thingSession front := by
  have hruns : (Wrappers.ofModel (thingModel "poke") 0).toOption.map (fun b =>
      (decide (Unobstructed b (thingWith "poke") ∧ (thingWith "poke").name ∉ b.schema.functions),
        (pokes.perform b "t" thingSession).2.requests.map Request.symbol?)) =
          some (true, [some "n_Thing_poke", some "n_Thing_free"]) := by
    decide +kernel
  cases hm : Wrappers.ofModel (thingModel "poke") 0 with
  | error e => rw [hm] at hruns; exact absurd hruns (by simp [Except.toOption])
  | ok b =>
    rw [hm] at hruns
    obtain ⟨hmeets, hrequests⟩ := Prod.mk.inj (Option.some.inj hruns)
    obtain ⟨hfree, hname⟩ := of_decide_eq_true hmeets
    have hctor : Constructs b (thingWith "poke") "new" := ⟨hname, Or.inl rfl⟩
    have hpoke : ∃ c ∈ (thingWith "poke").methods, Wrappers.declared? (thingWith "poke") "poke" = some c :=
      ⟨⟨.method, "poke", [], none, none⟩, List.mem_cons_self, by decide⟩
    have hdeclared : pokes.Declared (thingWith "poke") := ⟨⟨hpoke, trivial⟩, hpoke⟩
    obtain ⟨hconstruct, huse, -⟩ := released_once hm List.mem_cons_self hfree
    exact ⟨b, rfl, hfree, hctor, rfl, hdeclared, hrequests, hconstruct "new" hctor [] "t" .start,
      huse thingSession "t" (.int 5) rfl pokes hdeclared⟩

/-- A thing that declares a method of the name of closing is never released. -/
example : (Wrappers.ofModel (thingModel "close") 0).toOption.map (fun b =>
    (decide (Unobstructed b (thingWith "close")), (b.drop "t" thingSession).2.requests.map Request.symbol?)) =
      some (false, [some "n_Thing_close"]) := by
  decide +kernel

end Bindgen.Native
