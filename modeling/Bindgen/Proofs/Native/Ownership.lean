import Bindgen.Proofs.Native.Hindrance

/-!
# Who frees a buffer

Every buffer that a wrapper has copied into native memory is handed over to its symbol, once, or is freed
again, once; and so are the buffers that come back from a call. A wrapper whose module has taken a name that it
needs after its copies are made (`Wrapper.Hindered`) abandons them instead.

Results:
* `passable_of_passes`: what is passed can be passed.
* `handsOver_of_passes`: the copies are handed over where they belong, and nothing else is.
* **`buffers_accounted`**: how a run of a wrapper deals with its buffers.
-/

namespace Bindgen.Native

open Interface Resolve Emit Identifier Wire Emit.CallPlan

variable {b : Wrappers} {s : Session}

/-! ## What cannot be passed -/

/-- **A handle that cannot be passed**: that of an argument or of the receiver, if there is a tuple in it. -/
def Wrapper.HoldsTuple (w : Wrapper) (s : Session) (args : List Value) : Prop :=
  ∃ h : Value, h.hasTuple = true ∧ ((∃ v ∈ args, v.handle = .ok h) ∨
    ∃ label, w.self = some label ∧ Steady (Action.requireHandle label) s h)

theorem primLower_hasTuple {schema : Schema} {format : PrimFormat} {v lowered : Value}
    (h : format.lower schema v = .ok lowered) : lowered.hasTuple = false := by
  unfold PrimFormat.lower at h
  obtain ⟨_, hcheck, h⟩ := bind_eq_ok.mp h
  cases format with
  | int f =>
    cases v with
    | int n =>
      obtain rfl := pure_eq_ok.mp h
      rfl
    | _ => exact absurd hcheck (by simp [PrimFormat.check])
  | real f =>
    obtain ⟨bits, -, h⟩ := bind_eq_ok.mp h
    obtain rfl := pure_eq_ok.mp h
    rfl
  | boolean =>
    cases v with
    | bool x =>
      obtain rfl := pure_eq_ok.mp h
      rfl
    | _ => exact absurd hcheck (by simp [PrimFormat.check])

/-- **A lowered value can be passed**, unless it is a handle that cannot. -/
theorem lower_hasTuple {c : Converter} {v lowered : Value} (h : c.lower v = .ok lowered) :
    lowered.hasTuple = false ∨ v.handle = .ok lowered := by
  unfold Converter.lower at h
  split at h
  · exact Or.inl (primLower_hasTuple h)
  · split at h
    · obtain ⟨_, -, h⟩ := bind_eq_ok.mp h
      obtain ⟨_, -, h⟩ := bind_eq_ok.mp h
      exact Or.inr h
    · exact absurd h (by simp)
  · exact absurd h (by simp)

/-- At first a name stands for an argument, or for the object or class that a wrapper belongs to. -/
theorem Wrapper.lookup_arguments {w : Wrapper} {args : List Value} {x : String} {bound : Bound}
    (h : (w.arguments args).lookup x = some bound) :
    ∃ v, bound = .argument v ∧ (v ∈ args ∨ v = Wrappers.receiverValue w.owner) := by
  obtain ⟨y, hmem⟩ : ∃ y, (y, bound) ∈ w.arguments args := ⟨_, mem_of_lookup h⟩
  unfold arguments Wrappers.argumentScope at hmem
  obtain ⟨⟨y, v⟩, hzip, heq⟩ := List.mem_map.mp hmem
  obtain ⟨-, rfl⟩ := Prod.mk.inj heq
  refine ⟨v, rfl, ?_⟩
  rcases List.mem_append.mp (List.of_mem_zip hzip).2 with hv | hv
  · obtain ⟨_, -, rfl⟩ := List.mem_map.mp hv
    exact Or.inr rfl
  · exact Or.inl hv

/-! ## What is handed over -/

/-- **What is lent**: a value, or a buffer that native code only borrows. -/
def Passed.Lent (p : Passed) : Prop := (∃ v, p = .value v) ∨ ∃ bytes, p = .buffer (.borrowed bytes)

/-- **What is handed over.** The copies stand where consumed buffers belong, one after another, and everywhere
else stands what is only lent. -/
inductive HandsOver : List Slot → List Copy → List Passed → Prop
  | nil : HandsOver [] [] []
  | owned {slot : Slot} {slots : List Slot} {c : Copy} {cs : List Copy} {passed : List Passed}
      (howned : slot.owned = true) (rest : HandsOver slots cs passed) :
      HandsOver (slot :: slots) (c :: cs) (.buffer c.buffer :: passed)
  | lent {slot : Slot} {slots : List Slot} {p : Passed} {cs : List Copy} {passed : List Passed}
      (hplain : slot.owned = false) (hlent : p.Lent) (rest : HandsOver slots cs passed) :
      HandsOver (slot :: slots) cs (p :: passed)

/-- What stands in a slot where its own argument is passed. -/
def OwnPassed (copies : List (Slot × Copy)) (slot : Slot) (p : Passed) : Prop :=
  if slot.owned then ∃ c, (slot, c) ∈ copies ∧ p = .buffer c.buffer else p.Lent

theorem Wrappers.Denotes.own {f : Frame} {scope₀ : Scope} {copies : List (Slot × Copy)} {slot : Slot}
    {bound : Bound} (h : b.Denotes f s scope₀ copies (ownTerm slot) bound) :
    OwnPassed copies slot bound.asPassed := by
  unfold ownTerm at h
  unfold OwnPassed
  cases horigin : slot.origin with
  | receiver =>
    rw [horigin] at h
    cases h with
    | handle hplain _ _ =>
      rw [if_neg (by simp [hplain])]
      exact Or.inl ⟨_, rfl⟩
  | param p =>
    rw [horigin] at h
    cases h with
    | lent _ hplain _ hlowers =>
      rw [if_neg (by simp [hplain])]
      unfold Wrappers.Lowers at hlowers
      split at hlowers
      · obtain ⟨bytes, -, rfl⟩ := hlowers
        exact Or.inr ⟨bytes, rfl⟩
      · obtain ⟨v, -, rfl⟩ := hlowers
        exact Or.inl ⟨v, rfl⟩
    | @copied _ _ _ _ c _ howned _ _ hmade =>
      rw [if_pos howned]
      exact ⟨c, hmade, rfl⟩

/-- What stands in a slot is none of the copies for another slot. -/
theorem OwnPassed.of_cons {copies : List (Slot × Copy)} {slot later : Slot} {c : Copy} {p : Passed}
    (h : OwnPassed ((slot, c) :: copies) later p) (hne : later ≠ slot) : OwnPassed copies later p := by
  unfold OwnPassed at h ⊢
  split
  · next howned =>
    rw [if_pos howned] at h
    obtain ⟨c', hmem, rfl⟩ := h
    rcases List.mem_cons.mp hmem with heq | hmem
    · exact absurd (Prod.mk.inj heq).1 hne
    · exact ⟨c', hmem, rfl⟩
  · next hplain => rwa [if_neg hplain] at h

/-- Where each slot has its own argument, the copies are handed over in their order. -/
theorem handsOver_of_own : ∀ {slots : List Slot} {cs : List Copy} {passed : List Passed}, slots.Nodup →
    cs.length = (slots.filter (·.owned)).length →
    List.Forall₂ (OwnPassed ((slots.filter (·.owned)).zip cs)) slots passed → HandsOver slots cs passed
  | [], cs, _, _, hcount, .nil => by
    obtain rfl := List.length_eq_zero_iff.mp hcount
    exact .nil
  | slot :: slots, cs, p :: passed, hnodup, hcount, .cons hp hrest => by
    obtain ⟨hnew, hnodup⟩ := List.nodup_cons.mp hnodup
    unfold OwnPassed at hp
    cases howned : slot.owned with
    | false =>
      rw [List.filter_cons_of_neg (by simp [howned])] at hcount hrest
      rw [if_neg (by simp [howned])] at hp
      exact .lent howned hp (handsOver_of_own hnodup hcount hrest)
    | true =>
      rw [List.filter_cons_of_pos howned] at hcount hrest hp
      rw [if_pos howned] at hp
      cases cs with
      | nil => exact absurd hcount (by simp)
      | cons c cs =>
        obtain ⟨c', hmem, rfl⟩ := hp
        have hfirst : c' = c := by
          rcases List.mem_cons.mp hmem with heq | hlater
          · exact (Prod.mk.inj heq).2
          · exact absurd (List.mem_of_mem_filter (List.of_mem_zip hlater).1) hnew
        have hothers := (forall₂_with_mem hrest).imp fun later q hboth =>
          hboth.2.of_cons fun heq => hnew (heq ▸ hboth.1)
        rw [hfirst]
        exact .owned howned (handsOver_of_own hnodup (by simpa using hcount) hothers)

namespace Wrapper

variable {w : Wrapper} {args : List Value} {cs : List Copy} {scope : Scope} {passed : List Passed}

/-- What stands in a slot where its own argument is passed can be passed, unless it is a handle that cannot. -/
theorem own_passable {copies : List (Slot × Copy)} {slot : Slot} {bound : Bound}
    (h : b.Denotes (w.frame b) s (w.arguments args) copies (ownTerm slot) bound) :
    Action.isPassable bound.asPassed = true ∨ w.HoldsTuple s args := by
  have hvalue {v : Value} (hv : v.hasTuple = true → w.HoldsTuple s args) :
      Action.isPassable (.value v) = true ∨ w.HoldsTuple s args := by
    cases htuple : v.hasTuple with
    | false => exact Or.inl (by simp [Action.isPassable, htuple])
    | true => exact Or.inr (hv htuple)
  unfold ownTerm at h
  cases horigin : slot.origin with
  | receiver =>
    rw [horigin] at h
    cases h with
    | handle _ hself hheld => exact hvalue fun htuple => ⟨_, htuple, Or.inr ⟨_, hself, hheld⟩⟩
  | param p =>
    rw [horigin] at h
    cases h with
    | copied _ _ _ _ _ => exact Or.inl rfl
    | lent _ _ hsource hlowers =>
      unfold Wrappers.Lowers at hlowers
      split at hlowers
      · obtain ⟨bytes, -, rfl⟩ := hlowers
        exact Or.inl rfl
      · obtain ⟨lowered, hlower, rfl⟩ := hlowers
        cases hsource with
        | given hfound =>
          obtain ⟨v, rfl, hv⟩ := lookup_arguments hfound
          rcases lower_hasTuple hlower with hnone | hhandle
          · exact Or.inl (by simp [Bound.asPassed, Action.isPassable, hnone])
          · rcases hv with hv | rfl
            · exact hvalue fun htuple => ⟨_, htuple, Or.inl ⟨v, hv, hhandle⟩⟩
            · exact absurd hhandle (by simp [Bound.asValue, Wrappers.receiverValue, Value.handle])

/-- **With plain names every slot has its own argument.** -/
theorem passes_own (hw : PlainParams w.source) (hready : w.Ready b s args cs scope)
    (h : b.Passes (w.frame b) s scope (w.plan b) passed) :
    List.Forall₂ (fun slot p => OwnPassed ((w.plan b).owned.zip cs) slot p ∧
      (Action.isPassable p = true ∨ w.HoldsTuple s args)) (w.plan b).slots passed := by
  have hterms := Wrappers.Passes.terms hready h
  rw [terms_of_plain hw, List.forall₂_map_left_iff] at hterms
  refine hterms.imp fun slot p ⟨bound, hbound, hp⟩ => ?_
  rw [hp]
  exact ⟨hbound.own, own_passable hbound⟩

/-- As many copies are made as there are consumed buffers, and each of them counts. -/
theorem Ready.copies (h : w.Ready b s args cs scope) :
    cs.length = (w.plan b).owned.length ∧ ∀ c ∈ cs, c.Sound := by
  unfold Ready Wrappers.Scoped at h
  cases hplace : (w.plan b).inPlace with
  | true =>
    rw [if_pos hplace] at h
    obtain ⟨rfl, -⟩ := h
    exact ⟨(List.length_eq_zero_iff.mpr (List.isEmpty_iff.mp hplace)).symm, fun c hc => absurd hc (by simp)⟩
  | false =>
    rw [if_neg (by simp [hplace])] at h
    obtain ⟨plain, -, hcs, -⟩ := h
    exact ⟨hcs.length_eq.symm, forall_right_of_forall₂ hcs fun _ _ hc => hc.2⟩

/-- **With plain names the copies are handed over where they belong.** -/
theorem handsOver_of_passes (hw : PlainParams w.source) (hready : w.Ready b s args cs scope)
    (h : b.Passes (w.frame b) s scope (w.plan b) passed) : HandsOver (w.plan b).slots cs passed :=
  handsOver_of_own (slots_nodup hw.names _) hready.copies.1 ((passes_own hw hready h).imp fun _ _ hp => hp.1)

/-- **With plain names everything can be passed**, unless it is a handle that cannot. -/
theorem passable_of_passes (hw : PlainParams w.source) (hready : w.Ready b s args cs scope)
    (h : b.Passes (w.frame b) s scope (w.plan b) passed) :
    passed.all Action.isPassable = true ∨ w.HoldsTuple s args := by
  by_cases htuple : w.HoldsTuple s args
  · exact Or.inr htuple
  · have hown := forall_right_of_forall₂ (passes_own hw hready h) fun _ _ hp => hp.2.resolve_right htuple
    exact Or.inl (List.all_eq_true.mpr hown)

/-! ## Accounts -/

/-- **How a wrapper accounts for its buffers.** -/
inductive Accounts (b : Wrappers) (w : Wrapper) (s : Session) (args : List Value) :
    Except Fault Value → List Request → Prop
  /-- Something was refused. There is no call, and every copy that was made is freed, once. -/
  | refused {e : Fault} {δ : List Request} (h : b.Refused δ) : Accounts b w s args (.error e) δ
  /-- All copies were made, but there is no call, and none of them is freed. -/
  | abandoned {e : Fault} {cs : List Copy} (count : cs.length = (w.plan b).owned.length)
      (why : w.Hindered b ∨ w.HoldsTuple s args) : Accounts b w s args (.error e) (cs.map Copy.asked)
  /-- Every copy is handed over to the call, once, and is not freed. What comes back is freed, once. -/
  | called {cs : List Copy} {passed : List Passed} {hasRecord : Bool} {r : Except Fault Value}
      {δ : List Request} (free : ¬w.Hindered b) (sound : ∀ c ∈ cs, c.Sound)
      (handed : HandsOver (w.plan b).slots cs passed) (completes : w.Completes b s passed hasRecord r δ) :
      Accounts b w s args r (cs.map Copy.asked ++ δ)

/-- **Every buffer is accounted for**, or which are not. A wrapper with plain names in the module of an accepted
model either refuses and frees every copy that it made, or hands every copy over to its call and frees what comes
back. It abandons its copies only if its module hinders it, and then it never calls; or if a handle cannot be
passed. -/
theorem buffers_accounted {m : Model} {limit : ℕ} (hm : Wrappers.ofModel m limit = .ok b) (w : Wrapper)
    (hw : PlainParams w.source) (args : List Value) (s : Session) :
    Ends (w.run b args) s fun r δ _ => w.Accounts b s args r δ := by
  refine (w.run_course (Wrappers.grows_of_ofModel hm) args s).mono fun r δ s' _ _ hcourse => ?_
  cases hcourse with
  | refused h => exact .refused h
  | abandoned hcount hready hwhy =>
    refine .abandoned hready.copies.1 ?_
    rcases hwhy with hhinders | ⟨passed, hpasses, hall⟩
    · exact Or.inl ((hinders_iff hw hready hcount).mp hhinders)
    · exact Or.inr ((passable_of_passes hw hready hpasses).resolve_left (by simp [hall]))
  | called hcount hready hcalls hcompletes =>
    exact .called (fun h => hcalls.free ((hinders_iff hw hready hcount).mpr h)) hready.copies.2
      (handsOver_of_passes hw hready hcalls.passes) hcompletes

end Wrapper

/-- The bytes that a request copies. -/
def Request.copied? : Request → Option (List UInt8)
  | .copied bytes _ => some bytes
  | _ => none

/-- The wrapper of a function with a consumed text. -/
def consume : Wrapper := .callable none ⟨.function, "f", [⟨"x", .string, true⟩], none, none⟩ none

/-- A model with that function, and with one that takes the name of the library. -/
def libraryModel : Model where
  ns := "n"
  records := []
  enums := []
  errors := []
  objects := []
  functions := [consume.source, ⟨.function, "_lib", [], none, none⟩]

/-- The copy of the text is abandoned where a function has taken the name of the library. -/
theorem buffers_accounted_library : ∃ b, Wrappers.ofModel libraryModel 0 = .ok b ∧ consume.Hindered b ∧
    (consume.run b [.text "a"] .start).2.requests.map Request.copied? = [some [97]] ∧
      Ends (consume.run b [.text "a"]) .start fun r δ _ => consume.Accounts b .start [.text "a"] r δ := by
  have hruns : (Wrappers.ofModel libraryModel 0).toOption.map (fun b =>
      (b.schema.isTaken Wrappers.libraryName,
        (consume.run b [.text "a"] .start).2.requests.map Request.copied?)) = some (true, [some [97]]) := by
    decide +kernel
  cases hm : Wrappers.ofModel libraryModel 0 with
  | error e => rw [hm] at hruns; exact absurd hruns (by simp [Except.toOption])
  | ok b =>
    rw [hm] at hruns
    obtain ⟨htaken, hrequests⟩ := Prod.mk.inj (Option.some.inj hruns)
    exact ⟨b, rfl, Or.inr (Or.inl htaken), hrequests, Wrapper.buffers_accounted hm consume (by decide) _ _⟩

end Bindgen.Native
