import Bindgen.Proofs.Native.Lowering

/-!
# Copies in native memory

Consumed buffers are copied into native memory, all of them or none: where one cannot be copied, those that are
held already are freed again. A copy counts only if it is sound and as long as what was copied (`Copy.Sound`);
one that does not count is freed at once.

Results:
* `lowerOwnedAfter_run`: several copies after those that are held, or each of them freed, from what one copy comes to
  (`Copies`).
* `lowerOwned_ends`: one copy, or what is left of it (`Wrappers.Spoilt`).
* `lowerOwnedAll_ends`: the copies for some slots.
-/

namespace Bindgen.Native

open Interface Resolve Emit Identifier Wire

variable {b : Wrappers} {s : Session}

/-- A copy in native memory: the bytes that were to be copied, and what came of that. -/
structure Copy where
  bytes : List UInt8
  buffer : Buffer

namespace Copy

/-- How a copy is asked for. -/
def asked (c : Copy) : Request := .copied (View.borrowed c.bytes).contents c.buffer

/-- How a copy is freed. -/
def given (c : Copy) : Request := .freed c.buffer

/-- A copy that counts. -/
def Sound (c : Copy) : Prop := checkCopy c.bytes.length c.buffer = .ok ()

end Copy

/-! ## One copy, and several -/

/-- **What one copy comes to**: it is good, or it fails, with a fault and some requests. -/
def Copies (Good : Copy → Prop) (Bad : Fault → List Request → Prop) (encode : Action (List UInt8)) : Prop :=
  ∀ s, Ends (lowerOwned encode) s fun r δ _ => match r with
    | .ok buffer => ∃ c, Good c ∧ buffer = c.buffer ∧ δ = [c.asked]
    | .error f => Bad f δ

/-- **Several copies**, after the buffers that are held. Either all of them are good. Or a first one fails: then the
held ones and those copied before it are freed, each once, in the order of their copies. -/
theorem lowerOwnedAfter_run {α : Type} {Good : α → Copy → Prop} {Bad : α → Fault → List Request → Prop} {xs : List α}
    {encodes : List (Action (List UInt8))}
    (h : List.Forall₂ (fun x encode => Copies (Good x) (Bad x) encode) xs encodes) (held : List Buffer) (s : Session) :
    Ends (lowerOwnedAfter held encodes) s fun r δ _ => match r with
      | .ok buffers => ∃ cs, List.Forall₂ Good xs cs ∧ buffers = held ++ cs.map (·.buffer) ∧ δ = cs.map Copy.asked
      | .error f => ∃ before x after cs tail, xs = before ++ x :: after ∧ List.Forall₂ Good before cs ∧ Bad x f tail ∧
          δ = cs.map Copy.asked ++ tail ++ (held.map .freed ++ cs.map Copy.given) := by
  induction h generalizing held s with
  | nil => exact Ends.pure ⟨[], .nil, by simp, rfl⟩
  | @cons x encode xs encodes hencode _ ih =>
    unfold lowerOwnedAfter
    refine Ends.bind_attempt (hencode s) fun r δ s₁ _ hq => ?_
    cases r with
    | ok buffer =>
      obtain ⟨c, hc, rfl, rfl⟩ := hq
      refine (ih (held ++ [c.buffer]) s₁).mono fun r' δ' s₂ _ _ hr => ?_
      cases r' with
      | ok buffers =>
        obtain ⟨cs, hcs, rfl, rfl⟩ := hr
        exact ⟨c :: cs, .cons hc hcs, by simp, rfl⟩
      | error f =>
        obtain ⟨before, y, after, cs, tail, rfl, hcs, hbad, rfl⟩ := hr
        exact ⟨x :: before, y, after, c :: cs, tail, rfl, .cons hc hcs, hbad, by simp [Copy.given]⟩
    | error f =>
      refine Ends.bind (Q := fun r δ' _ => r = .ok () ∧ δ' = held.map .freed)
        (ends_freeAll held fun _ _ => ⟨rfl, rfl⟩) (fun _ δ' s₂ _ _ hδ => Ends.throw ?_) fun f' δ' s₂ _ hδ => ?_
      · exact ⟨[], x, xs, [], δ, rfl, .nil, hq, by simp [hδ.2]⟩
      · exact absurd hδ.1 (by simp)

/-! ## Copies for slots -/

namespace Wrappers

/-- **A copy that fails**: the encoding is refused, after an aside at most, or the copy does not count and is
freed at once. -/
def Spoilt (b : Wrappers) (δ : List Request) : Prop :=
  b.Aside δ ∨ ∃ c : Copy, ¬c.Sound ∧ δ = [c.asked, c.given]

/-- **One copy**, of bytes for which `P` holds. -/
theorem lowerOwned_ends {encode : Action (List UInt8)} {P : List UInt8 → Prop} (h : ∀ s, b.Prepares encode s P) :
    Copies (fun c => P c.bytes ∧ c.Sound) (fun _ δ => b.Spoilt δ) encode := by
  intro s
  unfold lowerOwned
  refine (h s).ends (fun bytes _ hbytes => ?_) fun _ _ _ ha => Or.inl ha
  refine Ends.bind (Q := fun r δ _ => ∃ copy, r = .ok copy ∧ δ = [Copy.asked ⟨bytes, copy⟩])
    (ends_copy (.borrowed bytes) fun copy s' _ => ⟨copy, rfl, rfl⟩)
    (fun buffer δ s' _ _ hq => ?_) fun _ _ _ _ hq => ?_
  · obtain ⟨copy, hcopy, rfl⟩ := hq
    obtain rfl := Except.ok.inj hcopy
    cases hcheck : checkCopy bytes.length buffer with
    | ok u => exact Ends.pure ⟨⟨bytes, buffer⟩, ⟨hbytes, hcheck⟩, rfl, rfl⟩
    | error e =>
      have hbad : ¬Copy.Sound ⟨bytes, buffer⟩ := fun hs => absurd (hcheck.symm.trans hs) (by simp)
      refine Ends.bind (Q := fun _ δ _ => δ = [.freed buffer]) (ends_free buffer fun _ _ => rfl)
        (fun _ δ' s'' _ _ hδ => Ends.throw ?_) fun e' δ' s'' _ hδ => ?_
      · exact Or.inr ⟨⟨bytes, buffer⟩, hbad, by rw [hδ]; rfl⟩
      · exact Or.inr ⟨⟨bytes, buffer⟩, hbad, by rw [hδ]; rfl⟩
  · obtain ⟨copy, hcopy, -⟩ := hq
    exact absurd hcopy (by simp)

/-- **The copies for some slots**, all of them or none. -/
theorem lowerOwnedAll_ends {slots : List Slot} {E : Slot → List UInt8 → Prop}
    {encodes : List (Action (List UInt8))}
    (h : List.Forall₂ (fun slot encode => ∀ s, b.Prepares encode s (E slot)) slots encodes) (s : Session) :
    Ends (lowerOwnedAll encodes) s fun r δ _ => match r with
      | .ok buffers => ∃ cs : List Copy, buffers = cs.map (·.buffer) ∧ δ = cs.map Copy.asked ∧
          List.Forall₂ (fun slot c => E slot c.bytes ∧ c.Sound) slots cs
      | .error _ => ∃ (cs : List Copy) (tail : List Request), cs.length < slots.length ∧ b.Spoilt tail ∧
          δ = cs.map Copy.asked ++ tail ++ cs.map Copy.given := by
  have hrun := lowerOwnedAfter_run (h.imp fun _ _ hencode => lowerOwned_ends hencode) [] s
  refine hrun.mono fun r δ s' _ _ hr => ?_
  cases r with
  | ok buffers =>
    obtain ⟨cs, hcs, rfl, rfl⟩ := hr
    exact ⟨cs, rfl, rfl, hcs⟩
  | error e =>
    obtain ⟨before, slot, after, cs, tail, rfl, hcs, htail, rfl⟩ := hr
    exact ⟨cs, tail, by simp [← hcs.length_eq], htail, rfl⟩

end Wrappers

end Bindgen.Native
