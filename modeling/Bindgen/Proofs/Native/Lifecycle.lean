import Bindgen.Proofs.Native.Objects
import Bindgen.Proofs.Wire.Closed

/-!
# Objects one beside another

Objects are made, lowered, encoded inside values, closed, left by blocks that they guard, and dropped, in any order:
an interleaving is a list of `Step`s. What a step does to one object depends on that object alone (`Step.leaves`), and
the only thing that is asked of the library is to release the handle of the object that a step ends
(`Step.requests_run`). So the handle of an object is released when the first step ends it, and not again.

Results:
* `withHandle_apply`, `valueOf_apply`: a guarded block ends in a step, and values are objects as they are seen.
* `Step.requests_run`, `Step.lookup_run`: what a step asks for, and what it does to each object.
* `Step.refused_of_uses`: what comes of a value with a closed object in it.
* `runs_shut`, `runs_open`: what all steps do to an object, by induction on them.
* **`lifecycle_linear`**: when each handle is released, and what a closed object is good for.
-/

namespace Bindgen.Native

open Interface Wire

variable {α : Type} {s : Session} {label other : String}

/-! ## Steps -/

/-- What the caller gains from a step: a handle, encoded bytes, or nothing. -/
inductive Gain where
  | done
  | handle (v : Value)
  | bytes (b : List UInt8)

/-- **A step in the life of some objects**, which go by their labels. -/
inductive Step where
  /-- A new object that owns a handle. -/
  | make (label : String) (cls : ObjectClass) (handle : Int)
  /-- A value is lowered. -/
  | lower (c : Converter) (v : Value)
  /-- A value is encoded, with what it holds on to. -/
  | encode (c : Converter) (v : Value)
  | close (label : String)
  /-- The end of a block that an object guards, by a fault or without one. -/
  | exit (label : String) (outcome : Except Fault Unit)
  /-- The end of an object's own life. -/
  | drop (label : String)

/-- The handle that is held under a label. -/
def Session.held (s : Session) (label : String) : Option Value := (s.objects.lookup label).bind (·.handle)

namespace Step

/-- Closes the object under a label. Each class has a symbol by which its handles are released. -/
def closing (symbol : ObjectClass → String) (label : String) : Action Unit :=
  Action.close (fun cls handle => Action.release (symbol cls) handle) label

/-- **Runs a step.** Values are lowered and encoded as they are seen in the session. -/
def run (symbol : ObjectClass → String) : Step → Action Gain
  | make label cls handle => do
    Action.hold label ⟨cls, some (.int handle)⟩
    return .done
  | lower c v => do return .handle (← Action.ofExcept (c.lower (v.seen (← get).held)))
  | encode c v => do return .bytes (← Action.ofExcept (c.encode (v.seen (← get).held)))
  | close label => do
    closing symbol label
    return .done
  | exit label outcome => do
    closing symbol label
    Action.ofExcept outcome
    return .done
  | drop label => do
    Action.drop (closing symbol label) label
    return .done

/-- The label under which a step makes an object. -/
def makes? : Step → Option String
  | make label .. => some label
  | _ => none

/-- The label of the object that a step ends. -/
def ends? : Step → Option String
  | close label | exit label _ | drop label => some label
  | _ => none

/-- **What a step leaves of an object.** -/
def leaves (label : String) (o : Option Holding) : Step → Option Holding
  | make l cls handle => if l = label then some ⟨cls, some (.int handle)⟩ else o
  | close l | exit l _ => if l = label then o.map ({ · with handle := none }) else o
  | drop l => if l = label then none else o
  | lower .. | encode .. => o

end Step

/-- What it takes to release the handle of an object, if it has one. -/
def Holding.releases (symbol : ObjectClass → String) (o : Holding) : List Request :=
  o.handle.elim [] fun handle => [.released (symbol o.cls) handle]

/-! ## Running one step -/

variable {symbol : ObjectClass → String}

theorem object_apply (label : String) (s : Session) :
    Action.object label s = (((s.objects.lookup label).elim (.error .unsupported) .ok), s) := by
  have hget : Steady (get : Action Session) s s := rfl
  rw [Action.object, hget.bind_apply]
  cases s.objects.lookup label <;> rfl

/-- An object as a value is what is seen of it in the session. -/
theorem valueOf_apply {o : Holding} (h : s.objects.lookup label = some o) (handle : Option Value) :
    Action.valueOf label s = (.ok ((Value.object o.cls handle (some label)).seen s.held), s) := by
  have hobject : Steady (Action.object label) s o := by rw [Steady, object_apply, h]; rfl
  rw [Action.valueOf, hobject.bind_apply]
  simp only [Value.seen_object, Session.held, h]
  rfl

/-- A guarded block is its content, and then the object is closed and the outcome of the content given. -/
theorem withHandle_apply (close : Action Unit) (label : String) (body : Value → Action α) (s : Session) :
    Action.withHandle close label body s =
      (do close; Action.ofExcept ((do body (← Action.requireHandle label) : Action α) s).1 : Action α)
        ((do body (← Action.requireHandle label) : Action α) s).2 := by
  rw [Action.withHandle, Action.bind_apply, Action.attempt_apply]

/-- What follows a step and leaves the session alone makes no difference to it. -/
theorem session_bind {β : Type} {act : Action α} {f : α → Action β} (h : ∀ a s, (f a s).2 = s) (s : Session) :
    ((act >>= f) s).2 = (act s).2 := by
  rw [Action.bind_apply]
  cases act s with
  | mk r s' =>
    cases r with
    | ok a => exact h a s'
    | error e => rfl

theorem session_ofExcept (r : Except Fault α) (s : Session) : (Action.ofExcept r s).2 = s := by
  cases r <;> rfl

theorem session_release (symbol : String) (handle : Value) (s : Session) :
    (Action.release symbol handle s).2 = s.after [.released symbol handle] := by
  rw [Action.release, Action.bind_apply]
  change (((get : Action Session) >>= _) (s.after [.released symbol handle])).2 = _
  have hget : Steady (get : Action Session) (s.after [.released symbol handle]) _ := rfl
  rw [hget.bind_apply]
  split <;> rfl

/-- **Closing an object** takes its handle from it, and then releases that. -/
theorem session_closing (symbol : ObjectClass → String) (label : String) (s : Session) :
    (Step.closing symbol label s).2 = (s.objects.lookup label).elim s fun o =>
      { s with objects := putObject label { o with handle := none } s.objects }.after (o.releases symbol) := by
  rw [Step.closing, Action.close, Action.bind_apply, object_apply]
  cases s.objects.lookup label with
  | none => rfl
  | some o =>
    obtain ⟨cls, handle⟩ := o
    cases handle with
    | none =>
      simp only [Option.elim, Holding.releases, Session.after, List.append_nil]
      rfl
    | some handle => exact session_release _ _ _

theorem lookup_putObject_ne {x : Holding} (h : label ≠ other) (objects : List (String × Holding)) :
    (putObject label x objects).lookup other = objects.lookup other := by
  induction objects with
  | nil => simp [putObject, h.symm]
  | cons p objects ih =>
    unfold putObject
    split
    · rename_i hp
      rw [List.lookup_cons, List.lookup_cons, hp, beq_eq_false_iff_ne.2 h.symm]
    · rw [List.lookup_cons, List.lookup_cons, ih]

theorem lookup_forgotten_ne (h : label ≠ other) (objects : List (String × Holding)) :
    (objects.filter (·.1 != label)).lookup other = objects.lookup other := by
  induction objects with
  | nil => rfl
  | cons p objects ih =>
    rw [List.filter_cons]
    split
    · rw [List.lookup_cons, List.lookup_cons, ih]
    · rename_i hp
      have hp : p.1 = label := by simpa using hp
      rw [List.lookup_cons, ih, beq_eq_false_iff_ne.2 (hp ▸ h.symm)]

theorem lookup_closing (label other : String) (s : Session) :
    (Step.closing symbol label s).2.objects.lookup other =
      if label = other then (s.objects.lookup other).map ({ · with handle := none }) else s.objects.lookup other := by
  rw [session_closing]
  by_cases h : label = other
  · subst h
    rw [if_pos rfl]
    cases ho : s.objects.lookup label with
    | none => exact ho
    | some o => exact lookup_putObject _ _
  · rw [if_neg h]
    cases s.objects.lookup label with
    | none => rfl
    | some o => exact lookup_putObject_ne h _

theorem requests_closing (symbol : ObjectClass → String) (label : String) (s : Session) :
    (Step.closing symbol label s).2.requests =
      s.requests ++ (s.objects.lookup label).elim [] (Holding.releases symbol) := by
  rw [session_closing]
  cases s.objects.lookup label with
  | none => exact (List.append_nil _).symm
  | some o => rfl

/-- An object that is dropped is closed and then forgotten. -/
theorem session_drop (label : String) (s : Session) :
    (Action.drop (Step.closing symbol label) label s).2 = (s.objects.lookup label).elim s fun _ =>
      { (Step.closing symbol label s).2 with
        objects := (Step.closing symbol label s).2.objects.filter (·.1 != label) } := by
  rw [Action.drop, Action.bind_apply, object_apply]
  cases s.objects.lookup label with
  | none => rfl
  | some o =>
    dsimp only [Option.elim]
    rw [Action.bind_apply, Action.attempt_apply]
    rfl

namespace Step

theorem session_read {β : Type} (f : Session → Action β) (hf : ∀ s, (f s s).2 = s) (s : Session) :
    (((get : Action Session) >>= f) s).2 = s := by
  have hget : Steady (get : Action Session) s s := rfl
  rw [hget.bind_apply, hf]

/-- **What a step leaves of the session.** -/
theorem session_run (e : Step) (s : Session) :
    (e.run symbol s).2 = match e with
      | make label cls handle => { s with objects := putObject label ⟨cls, some (.int handle)⟩ s.objects }
      | lower .. | encode .. => s
      | close label | exit label _ => (closing symbol label s).2
      | drop label => (Action.drop (closing symbol label) label s).2 := by
  cases e with
  | make label cls handle => rfl
  | lower c v =>
    refine session_read _ (fun s => ?_) s
    rw [session_bind fun _ _ => rfl]
    exact session_ofExcept _ s
  | encode c v =>
    refine session_read _ (fun s => ?_) s
    rw [session_bind fun _ _ => rfl]
    exact session_ofExcept _ s
  | close label => exact session_bind (fun _ _ => rfl) s
  | drop label => exact session_bind (fun _ _ => rfl) s
  | exit label outcome =>
    refine session_bind (fun _ s => ?_) s
    rw [session_bind fun _ _ => rfl]
    exact session_ofExcept _ s

theorem lookup_run (e : Step) (s : Session) (label : String) :
    (e.run symbol s).2.objects.lookup label = e.leaves label (s.objects.lookup label) := by
  rw [session_run]
  cases e with
  | make l cls handle =>
    dsimp only [leaves]
    split
    · rename_i h
      rw [← h, lookup_putObject]
    · rename_i h
      exact lookup_putObject_ne h _
  | lower c v | encode c v => rfl
  | close l | exit l outcome => exact lookup_closing l label s
  | drop l =>
    dsimp only [leaves]
    rw [session_drop]
    split
    · rename_i h
      subst h
      cases ho : s.objects.lookup l with
      | none => exact ho
      | some o => exact lookup_forgotten _
    · rename_i h
      cases s.objects.lookup l with
      | none => rfl
      | some o =>
        exact (lookup_forgotten_ne h _).trans ((lookup_closing l label s).trans (if_neg h))

theorem requests_run (e : Step) (s : Session) :
    (e.run symbol s).2.requests = s.requests ++
      ((e.ends?.bind fun label => s.objects.lookup label).elim [] (Holding.releases symbol)) := by
  rw [session_run]
  cases e with
  | make | lower | encode => exact (List.append_nil _).symm
  | close l | exit l outcome => exact requests_closing symbol l s
  | drop l =>
    dsimp only [ends?, Option.bind]
    rw [session_drop]
    have hclosing := requests_closing symbol l s
    cases ho : s.objects.lookup l with
    | none => exact (List.append_nil _).symm
    | some o =>
      rw [ho] at hclosing
      exact hclosing

/-- A step that neither makes nor ends an object leaves it alone. -/
theorem lookup_run_other {e : Step} (hmake : e.makes? ≠ some label) (hend : e.ends? ≠ some label) (s : Session) :
    (e.run symbol s).2.objects.lookup label = s.objects.lookup label := by
  rw [lookup_run]
  cases e with
  | make l cls handle => exact if_neg fun h => hmake (congrArg some h)
  | lower | encode => rfl
  | close l | exit l outcome | drop l => exact if_neg fun h => hend (congrArg some h)

/-- An object that is ended has no handle. -/
theorem held_run_ends (symbol : ObjectClass → String) {e : Step} (hend : e.ends? = some label) (s : Session) :
    (e.run symbol s).2.held label = none := by
  unfold Session.held
  rw [lookup_run]
  cases e with
  | make | lower | encode => exact absurd hend (by simp [ends?])
  | close l | exit l outcome =>
    rw [leaves, if_pos (Option.some.inj hend)]
    cases s.objects.lookup label <;> rfl
  | drop l =>
    rw [leaves, if_pos (Option.some.inj hend)]
    rfl

/-- **A step that uses the object under a label**: a value is lowered or encoded in which it is reached. -/
inductive Uses (label : String) : Step → Prop where
  | lower {c : Converter} {v : Value} (h : Reached c.schema label c.type v) : Uses label (.lower c v)
  | encode {c : Converter} {v : Value} (h : Reached c.schema label c.type v) : Uses label (.encode c v)

/-- **A step that closed objects keep from its result**: there is none, and the fault is that of a closed object
wherever the step would have a result if more objects had handles. -/
def Refused (symbol : ObjectClass → String) (e : Step) (s : Session) : Prop :=
  (∀ gain, (e.run symbol s).1 ≠ .ok gain) ∧
    ∀ opened gain, Narrows s.held opened.held → (e.run symbol opened).1 = .ok gain →
      ∃ name, (e.run symbol s).1 = .error (.closed name)

theorem result_lower (c : Converter) (v : Value) (s : Session) :
    ((lower c v).run symbol s).1 = Gain.handle <$> c.lower (v.seen s.held) := by
  have hget : Steady (get : Action Session) s s := rfl
  rw [run, hget.bind_apply]
  cases c.lower (v.seen s.held) <;> rfl

theorem result_encode (c : Converter) (v : Value) (s : Session) :
    ((encode c v).run symbol s).1 = Gain.bytes <$> c.encode (v.seen s.held) := by
  have hget : Steady (get : Action Session) s s := rfl
  rw [run, hget.bind_apply]
  cases c.encode (v.seen s.held) <;> rfl

/-- A step is refused if what it converts is kept out. -/
theorem refused_of_shutOut {β : Type} {e : Step} {convert : Value → Except Fault β} {v : Value} {gain : β → Gain}
    (hresult : ∀ s, (e.run symbol s).1 = gain <$> convert (v.seen s.held)) (h : ShutOut convert s.held v) :
    e.Refused symbol s := by
  obtain ⟨hnot, hclosed⟩ := h
  refine ⟨fun g hg => ?_, fun opened g hopened hg => ?_⟩
  · rw [hresult] at hg
    obtain ⟨a, ha, -⟩ := map_eq_ok.1 hg
    exact hnot a ha
  · rw [hresult] at hg ⊢
    obtain ⟨a, ha, -⟩ := map_eq_ok.1 hg
    obtain ⟨name, hname⟩ := hclosed opened.held a hopened ha
    exact ⟨name, map_eq_error.2 hname⟩

/-- **Nothing is gained from a closed object.** -/
theorem refused_of_uses {e : Step} (he : e.Uses label) (hs : s.held label = none) : e.Refused symbol s := by
  cases he with
  | lower h => exact refused_of_shutOut (result_lower _ _) (lower_closed hs h)
  | encode h => exact refused_of_shutOut (result_encode _ _) (encode_closed hs h)

end Step

/-! ## Running all steps -/

/-- The session after the steps of an interleaving. -/
def runs (symbol : ObjectClass → String) (steps : List Step) (s : Session) : Session :=
  steps.foldl (fun s e => (e.run symbol s).2) s

/-- Whether one of some steps ends the object under a label. -/
def ended (label : String) (steps : List Step) : Bool := steps.any fun e => e.ends? == some label

/-- **What is asked of the library for the object under a label**, by the steps that end it. -/
def asked (symbol : ObjectClass → String) (label : String) : List Step → Session → List Request
  | [], _ => []
  | e :: rest, s =>
    let s' := (e.run symbol s).2
    (if e.ends? = some label then s'.requests.drop s.requests.length else []) ++ asked symbol label rest s'

/-- What a step that ends an object asks for is the release of its handle. -/
theorem requests_ends {e : Step} (hend : e.ends? = some label) (s : Session) :
    (e.run symbol s).2.requests.drop s.requests.length =
      (s.objects.lookup label).elim [] (Holding.releases symbol) := by
  rw [e.requests_run, hend]
  exact List.drop_left

/-- For an object without a handle nothing is asked, and it gets none. The induction is on the steps. -/
theorem runs_shut (symbol : ObjectClass → String) {steps : List Step} (hnew : ∀ e ∈ steps, e.makes? ≠ some label)
    (hs : s.held label = none) :
    asked symbol label steps s = [] ∧ (runs symbol steps s).held label = none := by
  induction steps generalizing s with
  | nil => exact ⟨rfl, hs⟩
  | cons e rest ih =>
    rw [List.forall_mem_cons] at hnew
    by_cases hend : e.ends? = some label
    · have hnone : (s.objects.lookup label).elim [] (Holding.releases symbol) = [] := by
        unfold Session.held at hs
        cases ho : s.objects.lookup label with
        | none => rfl
        | some o =>
          rw [ho] at hs
          exact congrArg (Option.elim · _ _) hs
      obtain ⟨hasked, hheld⟩ := ih hnew.2 (Step.held_run_ends symbol hend s)
      refine ⟨?_, hheld⟩
      rw [asked, if_pos hend, requests_ends hend, hnone]
      exact hasked
    · have hother : (e.run symbol s).2.held label = none := by
        unfold Session.held
        rw [Step.lookup_run_other hnew.1 hend]
        exact hs
      obtain ⟨hasked, hheld⟩ := ih hnew.2 hother
      refine ⟨?_, hheld⟩
      rw [asked, if_neg hend]
      exact hasked

/-- **The first step that ends an object releases its handle.** Until then the object has it, and from then on
`runs_shut` says what comes. -/
theorem runs_open (symbol : ObjectClass → String) {steps : List Step} (hnew : ∀ e ∈ steps, e.makes? ≠ some label)
    {cls : ObjectClass} {handle : Value} (hs : s.objects.lookup label = some ⟨cls, some handle⟩) :
    asked symbol label steps s = (if ended label steps then [.released (symbol cls) handle] else []) ∧
      (runs symbol steps s).held label = if ended label steps then none else some handle := by
  induction steps generalizing s with
  | nil =>
    refine ⟨rfl, ?_⟩
    unfold runs Session.held
    rw [List.foldl_nil, hs]
    rfl
  | cons e rest ih =>
    rw [List.forall_mem_cons] at hnew
    by_cases hend : e.ends? = some label
    · have hended : ended label (e :: rest) = true := by simp [ended, hend]
      obtain ⟨hasked, hheld⟩ := runs_shut symbol hnew.2 (Step.held_run_ends symbol hend s)
      rw [hended, asked, if_pos hend, requests_ends hend, hs, hasked]
      exact ⟨rfl, hheld⟩
    · have hended : ended label (e :: rest) = ended label rest := by simp [ended, hend]
      have hother : (e.run symbol s).2.objects.lookup label = some ⟨cls, some handle⟩ :=
        (Step.lookup_run_other hnew.1 hend s).trans hs
      rw [hended, asked, if_neg hend]
      exact ih hnew.2 hother

theorem runs_append (front rest : List Step) (s : Session) :
    runs symbol (front ++ rest) s = runs symbol rest (runs symbol front s) :=
  List.foldl_append

theorem asked_append (front rest : List Step) (s : Session) :
    asked symbol label (front ++ rest) s =
      asked symbol label front s ++ asked symbol label rest (runs symbol front s) := by
  induction front generalizing s with
  | nil => rfl
  | cons e front ih =>
    rw [List.cons_append, asked, asked, ih, List.append_assoc]
    rfl

/-- **Objects live and end one beside another.** Objects are made, lowered, encoded, closed, left and dropped in any
order, and each is made once. The handle of an object is released if a step ends the object, and then once; otherwise
the object has its handle. Where it has none any more, nothing comes of a value in which it is reached. A step
releases the handle of no object but the one that it ends, if that has a handle, and changes no other. -/
theorem lifecycle_linear (symbol : ObjectClass → String) {s : Session} (hs : s.held label = none)
    {before after : List Step} (hnew : ∀ e ∈ before ++ after, e.makes? ≠ some label) (cls : ObjectClass)
    (handle : Int) :
    let steps := before ++ .make label cls handle :: after
    asked symbol label steps s = (if ended label after then [.released (symbol cls) (.int handle)] else []) ∧
      (runs symbol steps s).held label = (if ended label after then none else some (.int handle)) ∧
      (ended label after → ∀ e : Step, e.Uses label → e.Refused symbol (runs symbol steps s)) ∧
      ∀ (e : Step) (s' : Session),
        (e.run symbol s').2.requests = s'.requests ++
          ((e.ends?.bind fun label => s'.objects.lookup label).elim [] (Holding.releases symbol)) ∧
        ∀ other, e.makes? ≠ some other → e.ends? ≠ some other →
          (e.run symbol s').2.objects.lookup other = s'.objects.lookup other := by
  intro steps
  rw [List.forall_mem_append] at hnew
  obtain ⟨hbefore, hshut⟩ := runs_shut symbol hnew.1 hs
  have hmade : ((Step.make label cls handle).run symbol (runs symbol before s)).2.objects.lookup label =
      some ⟨cls, some (.int handle)⟩ := by
    rw [Step.lookup_run]
    exact if_pos rfl
  obtain ⟨hafter, hheld⟩ := runs_open symbol hnew.2 hmade
  have hleft : (runs symbol steps s).held label = if ended label after then none else some (.int handle) := by
    rw [runs_append]
    exact hheld
  refine ⟨?_, hleft, fun hended e he => ?_, fun e s' => ⟨e.requests_run s', fun other hmake hend => ?_⟩⟩
  · rw [asked_append, hbefore, List.nil_append]
    exact hafter
  · exact Step.refused_of_uses he (hleft.trans (if_pos hended))
  · exact Step.lookup_run_other hmake hend s'

/-- What follows a thing: another one with the same handle is made, the first one is left by a fault, and both are
closed and dropped. -/
def twoThings : List Step :=
  [.make "b" ⟨"Thing", []⟩ 9, .exit "a" (.error .bodyFailed), .close "b", .close "a", .drop "a", .drop "b"]

/-- A list of things, and one with the first thing in it. -/
def thingsConverter : Converter :=
  ⟨⟨[("Thing", .object ⟨"Thing", [], [], Eq.refl true, Eq.refl true⟩)], []⟩, 1, .sequence (.named "Thing")⟩

/-- The first thing is released where it is left, and is of no use in a list from then on. -/
theorem lifecycle_linear_things :
    Session.start.held "a" = none ∧ (∀ e ∈ [] ++ twoThings, e.makes? ≠ some "a") ∧ ended "a" twoThings = true ∧
      asked (·.name) "a" (.make "a" ⟨"Thing", []⟩ 9 :: twoThings) .start = [.released "Thing" (.int 9)] ∧
      (Step.encode thingsConverter (.list [.object ⟨"Thing", []⟩ none (some "a")])).Refused (·.name)
        (runs (·.name) (.make "a" ⟨"Thing", []⟩ 9 :: twoThings) .start) := by
  have hnew : ∀ e ∈ [] ++ twoThings, e.makes? ≠ some "a" := by decide
  have hended : ended "a" twoThings = true := by decide
  obtain ⟨hasked, -, hrefused, -⟩ :=
    lifecycle_linear (·.name) (s := .start) rfl hnew ⟨"Thing", []⟩ 9
  refine ⟨rfl, hnew, hended, hasked.trans (if_pos hended), hrefused hended _ ?_⟩
  exact .encode (.item rfl rfl List.mem_cons_self (.object rfl))

end Bindgen.Native
