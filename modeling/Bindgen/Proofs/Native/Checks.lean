import Bindgen.Native.Wrappers
import Bindgen.Proofs.Native.Trace

/-!
# Looking at names

A wrapper uses names of its module, and goes on only if each of them still stands for what it needs. Such a look
at a name changes nothing (`Checks`). What is lacking is a name that a parameter, a local or something in the
module has taken (`Wrappers.Lacks`, `Wrappers.LacksConverter`).

Results:
* `Checks.ends`: an action goes on after a look at a name.
* `need_checks`, `needConverter_checks`: what the names have to be.
-/

namespace Bindgen.Native

open Interface Resolve Emit Identifier Wire

variable {α β : Type} {s : Session}

/-- **A look at names.** It changes nothing, and fails just where something is lacking. -/
structure Checks (act : Action α) (lack : Prop) (P : α → Prop) : Prop where
  fails : lack → ∀ s, act s = (.error .unsupported, s)
  passes : ¬lack → ∃ a, P a ∧ ∀ s, Steady act s a

namespace Checks

variable {act : Action α} {lack : Prop} {P : α → Prop}

theorem ends {f : α → Action β} {Q : Except Fault β → List Request → Session → Prop} (h : Checks act lack P)
    (hok : ∀ a, P a → ¬lack → Ends (f a) s Q) (herror : lack → Q (.error .unsupported) [] s) :
    Ends (act >>= f) s Q := by
  by_cases hl : lack
  · have hboth : (act >>= f) s = (.error .unsupported, s) := by rw [Action.bind_apply, h.fails hl s]
    exact Ends.intro _ hboth (.refl s) (herror hl)
  · obtain ⟨a, ha, hrun⟩ := h.passes hl
    exact Ends.bind_steady (hrun s) (hok a ha hl)

/-- What declines after a look declines altogether. -/
theorem declines {f : α → Action β} (h : Checks act lack P) (hf : ∀ a, P a → Declines (f a) s) :
    Declines (act >>= f) s := by
  by_cases hl : lack
  · exact .bind ⟨_, h.fails hl s⟩
  · obtain ⟨a, ha, hrun⟩ := h.passes hl
    exact .after (hrun s) (hf a ha)

theorem pure {a : α} (h : P a) : Checks (Pure.pure a) False P where
  fails := False.elim
  passes _ := ⟨a, h, fun _ => rfl⟩

/-- One look after another. -/
theorem bind {f : α → Action β} {lack' : Prop} {R : β → Prop} (h : Checks act lack P)
    (hf : ∀ a, P a → Checks (f a) lack' R) : Checks (act >>= f) (lack ∨ lack') R where
  fails hl s := by
    by_cases hfirst : lack
    · rw [Action.bind_apply, h.fails hfirst s]
    · obtain ⟨a, ha, hrun⟩ := h.passes hfirst
      rw [Action.bind_apply, hrun s]
      exact (hf a ha).fails (hl.resolve_left hfirst) s
  passes hl := by
    obtain ⟨a, ha, hrun⟩ := h.passes fun h => hl (Or.inl h)
    obtain ⟨c, hc, hrun'⟩ := (hf a ha).passes fun h => hl (Or.inr h)
    refine ⟨c, hc, fun s => ?_⟩
    rw [Steady, Action.bind_apply, hrun s]
    exact hrun' s

/-- What is lacking may be said in another way. -/
theorem congr {lack' : Prop} (h : Checks act lack P) (hl : lack ↔ lack') : Checks act lack' P where
  fails h' := h.fails (hl.mpr h')
  passes h' := h.passes fun h'' => h' (hl.mp h'')

/-- An `if` over what is lacking. -/
theorem ite {c : Prop} [Decidable c] (hc : c ↔ lack) (h : Checks act False P) :
    Checks (if c then throw .unsupported else act) lack P where
  fails hl s := by rw [if_pos (hc.mpr hl)]; rfl
  passes hl := by
    rw [if_neg fun h => hl (hc.mp h)]
    exact h.passes id

end Checks

namespace Wrappers

/-- **A name that is lacking**: a parameter or local has taken it, or something in the module. -/
def Lacks (b : Wrappers) (f : Frame) (name : String) : Prop := name ∈ f.locals ∨ b.schema.isTaken name

/-- **A converter that is lacking.** -/
def LacksConverter (b : Wrappers) (f : Frame) (t : Ty) : Prop :=
  converterSource t ∈ f.locals ∨ converterSource t ∈ b.schema.functions

theorem need_checks (b : Wrappers) (f : Frame) (name : String) :
    Checks (b.need f name) (b.Lacks f name) fun _ => True :=
  .ite (by simp [Lacks]) (.pure trivial)

theorem needConverter_checks (b : Wrappers) (f : Frame) (t : Ty) :
    Checks (b.needConverter f t) (b.LacksConverter f t) fun _ => True :=
  .ite (by simp [LacksConverter]) (.pure trivial)

end Wrappers

end Bindgen.Native
