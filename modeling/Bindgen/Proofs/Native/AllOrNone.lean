import Bindgen.Proofs.Native.Copies

/-!
# All copies or none

Values that are to be handed over are encoded and copied into native memory one after another (`lowerOwnedAll`). The
native library may answer with any buffer (`Deviation.exists_apply_eq`), sound or not. If every copy counts they are
all kept. Otherwise the first one that fails ends it: that one is freed at once if there is a copy at all, those
before it are freed then, and those after it are never asked for.

Results:
* `lowerOwned_pair`: one copy, or what is left of it (`Spoils`).
* **`owned_all_or_none`**: several of them, and every buffer that was made is freed exactly once if one fails.
-/

namespace Bindgen.Native

open Wire

variable {p : Converter × Value} {pairs : List (Converter × Value)} {cs : List Copy}

/-! ## What the library may answer -/

/-- **Every buffer is some deviation** from the one that is asked for, if its lengths have 32 bits. -/
theorem Deviation.exists_apply_eq (bytes : List UInt8) {b : Buffer} (hcapacity : wrap32 b.capacity = b.capacity)
    (hlen : wrap32 b.len = b.len) : ∃ d : Deviation, d.apply bytes = b := by
  obtain ⟨capacity, len, memory⟩ := b
  refine ⟨⟨memory, some capacity, some len, some memory.isNone⟩, ?_⟩
  unfold apply
  simp only [Option.getD_some, Buffer.mk.injEq]
  refine ⟨hcapacity, hlen, ?_⟩
  cases memory <;> rfl

/-! ## The buffers of some requests -/

/-- The buffer that a request has made. -/
def Request.made? : Request → Option Buffer
  | .copied _ copy => some copy
  | _ => none

/-- The buffer that a request has freed. -/
def Request.freed? : Request → Option Buffer
  | .freed b => some b
  | _ => none

/-- Copies that are asked for are made, and none of them is freed. -/
theorem buffers_asked (cs : List Copy) : (cs.map Copy.asked).filterMap Request.made? = cs.map (·.buffer) ∧
    (cs.map Copy.asked).filterMap Request.freed? = [] := by
  induction cs with
  | nil => exact ⟨rfl, rfl⟩
  | cons c cs ih => exact ⟨congrArg (c.buffer :: ·) ih.1, ih.2⟩

/-- Copies that are given back are freed, and none is made. -/
theorem buffers_given (cs : List Copy) : (cs.map Copy.given).filterMap Request.freed? = cs.map (·.buffer) ∧
    (cs.map Copy.given).filterMap Request.made? = [] := by
  induction cs with
  | nil => exact ⟨rfl, rfl⟩
  | cons c cs ih => exact ⟨congrArg (c.buffer :: ·) ih.1, ih.2⟩

/-! ## Copies for pairs -/

/-- The encoding of a value by a converter. -/
def encoding (p : Converter × Value) : Action (List UInt8) := .ofExcept (p.1.encode p.2)

/-- **A copy for a pair**: of what the converter makes of the value, in a sound buffer that is as long as that. -/
structure CopiedFor (p : Converter × Value) (c : Copy) : Prop where
  encoded : p.1.encode p.2 = .ok c.bytes
  sound : c.buffer.check = .ok ()
  len : c.buffer.len = c.bytes.length

/-- **A pair that spoils it**, with a fault. Its value is refused, and nothing is asked for; or its copy does not count,
and is freed at once. -/
inductive Spoils (p : Converter × Value) : Fault → List Request → Prop
  | refused {f : Fault} (refuses : p.1.encode p.2 = .error f) : Spoils p f []
  | rejected {f : Fault} {c : Copy} (encoded : p.1.encode p.2 = .ok c.bytes)
      (fails : checkCopy c.bytes.length c.buffer = .error f) : Spoils p f [c.asked, c.given]

theorem checkCopy_eq_ok {expected : Nat} {b : Buffer} :
    checkCopy expected b = .ok () ↔ b.check = .ok () ∧ b.len = expected := by
  unfold checkCopy
  rw [bind_eq_ok]
  constructor
  · rintro ⟨_, hcheck, h⟩
    refine ⟨hcheck, by_contra fun hne => ?_⟩
    rw [if_pos hne] at h
    exact absurd h (by simp [throw, throwThe, MonadExceptOf.throw])
  · rintro ⟨hcheck, hlen⟩
    exact ⟨(), hcheck, by rw [if_neg (not_not_intro hlen)]; rfl⟩

/-- **One copy** for a pair. -/
theorem lowerOwned_pair (p : Converter × Value) : Copies (CopiedFor p) (Spoils p) (encoding p) := by
  intro s
  unfold lowerOwned encoding
  cases hencode : p.1.encode p.2 with
  | error f => exact Ends.bind_throw (.refused hencode)
  | ok bytes =>
    refine Ends.bind_steady (rfl : Steady _ s bytes) ?_
    refine Ends.bind (Q := fun r δ _ => ∃ copy, r = .ok copy ∧ δ = [Copy.asked ⟨bytes, copy⟩])
      (ends_copy (.borrowed bytes) fun copy s' _ => ⟨copy, rfl, rfl⟩)
      (fun b δ s' _ _ hq => ?_) fun f δ s' _ hq => ?_
    · obtain ⟨copy, hcopy, rfl⟩ := hq
      obtain rfl := Except.ok.inj hcopy
      let c : Copy := ⟨bytes, b⟩
      cases hcheck : checkCopy bytes.length b with
      | ok u =>
        obtain ⟨hsound, hlen⟩ := checkCopy_eq_ok.1 hcheck
        exact Ends.pure ⟨c, ⟨hencode, hsound, hlen⟩, rfl, rfl⟩
      | error f =>
        have hspoils : Spoils p f [c.asked, c.given] := .rejected hencode hcheck
        refine Ends.bind (Q := fun r δ _ => r = .ok () ∧ δ = [c.given]) (ends_free b fun _ _ => ⟨rfl, rfl⟩)
          (fun _ δ' s'' _ _ hδ => Ends.throw ?_) fun f' δ' s'' _ hδ => ?_
        · rw [hδ.2]
          exact hspoils
        · exact absurd hδ.1 (by simp)
    · obtain ⟨copy, hcopy, -⟩ := hq
      exact absurd hcopy (by simp)

/-- A pair that spoils it frees what it has made. -/
theorem Spoils.freed {f : Fault} {tail : List Request} (h : Spoils p f tail) :
    tail.filterMap Request.freed? = tail.filterMap Request.made? := by
  cases h with
  | refused _ => rfl
  | rejected _ _ => rfl

/-- **All copies or none**, for any values with any converters, and whatever buffers the native library answers with.
Either there is a sound copy for each pair, in order and of the right length, and nothing is freed. Or a first pair
spoils it: copies were made for the pairs before it only, and one for itself unless its value is refused, and what has
been freed in the end is just what has been made, each buffer once. -/
theorem owned_all_or_none (pairs : List (Converter × Value)) (s : Session) :
    Ends (lowerOwnedAll (pairs.map encoding)) s fun r δ _ => match r with
      | .ok buffers => ∃ cs, List.Forall₂ CopiedFor pairs cs ∧ buffers = cs.map (·.buffer) ∧
          δ = cs.map Copy.asked ∧ δ.filterMap Request.freed? = []
      | .error f => ∃ before p after cs tail, pairs = before ++ p :: after ∧ List.Forall₂ CopiedFor before cs ∧
          Spoils p f tail ∧ δ = cs.map Copy.asked ++ tail ++ cs.map Copy.given ∧
            (δ.filterMap Request.freed?).Perm (δ.filterMap Request.made?) := by
  have hpairs : List.Forall₂ (fun p encode => Copies (CopiedFor p) (Spoils p) encode) pairs (pairs.map encoding) :=
    List.forall₂_map_right_iff.2 (List.forall₂_same.2 fun p _ => lowerOwned_pair p)
  refine (lowerOwnedAfter_run hpairs [] s).mono fun r δ s' _ _ hr => ?_
  cases r with
  | ok buffers =>
    obtain ⟨cs, hcs, rfl, rfl⟩ := hr
    exact ⟨cs, hcs, rfl, rfl, (buffers_asked cs).2⟩
  | error f =>
    obtain ⟨before, p, after, cs, tail, hpairs, hcs, hspoils, rfl⟩ := hr
    refine ⟨before, p, after, cs, tail, hpairs, hcs, hspoils, rfl, ?_⟩
    obtain ⟨hmade, hunfreed⟩ := buffers_asked cs
    obtain ⟨hfreed, hunmade⟩ := buffers_given cs
    simp only [List.map_nil, List.filterMap_append, hmade, hunfreed, hfreed, hunmade, hspoils.freed,
      List.nil_append, List.append_nil]
    exact List.perm_append_comm

end Bindgen.Native
