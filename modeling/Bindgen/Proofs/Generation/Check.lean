import Bindgen.Generation.Run
import Bindgen.Proofs.Generation.Signatures

/-!
# The check of a generation

A generation checks what its model uses, one use after another, each with the checker that the one before left
behind. `Model.checked` is the outcome without the steps: `Use.Sound` says when a use passes, and
`Use.Faulted` what the failure of one may say. Of a generation a check changes nothing but the checker that it
keeps, which is one of the model from the moment there is one.

Results:
* `checked_eq_ok_iff`: a check passes just when all names of definitions differ and every use is sound.
* `checked_eq_error`: what a failed check says is true.
* `check_apply`: a check in a generation, with what it keeps.
-/

namespace Bindgen

open Interface Boundary Resolve

variable {m : Model} {c c' : Checker} {u : Use} {e : Failure}

/-- A use is as it should be: the type is sound, or what is thrown is an error. -/
def Interface.Use.Sound (table : Table) : Use → Prop
  | .value t _ => Resolve.Sound table t
  | .thrown name _ => ∃ c, table.lookup name = some (.error c)

/-- What a failure may say of a use. -/
inductive Interface.Use.Faulted (table : Table) : Use → Failure → Prop where
  | value {t : Ty} {place : String} {e : Failure} (h : Blames table t e) :
      Faulted table (.value t place) e
  | missing {name place : String} (h : table.lookup name = none) :
      Faulted table (.thrown name place) (.unresolved name (some place))
  | unfit {name place : String} {d : Definition} (h : table.lookup name = some d) (hk : d.kind ≠ .error) :
      Faulted table (.thrown name place) (.notAnError name (some place) d.kind)

theorem Interface.Use.Sound.not_faulted {table : Table} (h : u.Sound table) : ¬ u.Faulted table e := by
  intro hf
  cases hf with
  | value hb => exact Resolve.Sound.not_blames h hb
  | missing hl =>
    obtain ⟨c, hc⟩ := h
    exact absurd (hl.symm.trans hc) (by simp)
  | unfit hl hk =>
    obtain ⟨c, hc⟩ := h
    obtain rfl := Option.some.inj (hl.symm.trans hc)
    exact hk rfl

/-! ## One use -/

theorem checkUse_ok (hc : c.Of m) (h : c.checkUse u = .ok c') : c'.Of m ∧ u.Sound (named m.definitions) := by
  cases u with
  | value t place =>
    refine ⟨hc.checked h, ?_⟩
    rw [← hc.reached.table_eq]
    exact (hc.reached.valid.check_ok h).2.2
  | thrown name place =>
    obtain ⟨d, hd, h⟩ := bind_eq_ok.1 h
    rw [← pure_eq_ok.1 h]
    rw [hc.reached.table_eq] at hd
    exact ⟨hc, d, resolveError_eq_ok.1 hd⟩

theorem checkUse_error (hc : c.Of m) (h : c.checkUse u = .error e) : u.Faulted (named m.definitions) e := by
  cases u with
  | value t place =>
    refine .value ?_
    rw [← hc.reached.table_eq]
    exact hc.reached.valid.check_blames h
  | thrown name place =>
    rcases bind_eq_error.1 h with h | ⟨d, -, h⟩
    · rw [hc.reached.table_eq, resolveError_eq] at h
      split at h
      · exact absurd h (by simp)
      · rename_i d hl hne
        obtain rfl := Except.error.inj h
        exact .unfit hne fun hk => by cases d <;> simp_all [Definition.kind]
      · obtain rfl := Except.error.inj h
        exact .missing ‹_›
    · exact absurd h (by simp [pure, Except.pure])

/-! ## All uses -/

theorem checkUses_ok {uses : List Use} (hc : c.Of m) (h : uses.foldlM Checker.checkUse c = .ok c') :
    c'.Of m ∧ ∀ u ∈ uses, u.Sound (named m.definitions) := by
  induction uses generalizing c with
  | nil => exact ⟨pure_eq_ok.1 h ▸ hc, fun _ hu => absurd hu List.not_mem_nil⟩
  | cons u uses ih =>
    rw [List.foldlM_cons] at h
    obtain ⟨next, hu, h⟩ := bind_eq_ok.1 h
    obtain ⟨hnext, hsound⟩ := checkUse_ok hc hu
    obtain ⟨hlast, hrest⟩ := ih hnext h
    exact ⟨hlast, List.forall_mem_cons.2 ⟨hsound, hrest⟩⟩

theorem checkUses_error {uses : List Use} (hc : c.Of m) (h : uses.foldlM Checker.checkUse c = .error e) :
    ∃ u ∈ uses, u.Faulted (named m.definitions) e := by
  induction uses generalizing c with
  | nil => exact absurd h (by simp [pure, Except.pure])
  | cons u uses ih =>
    rw [List.foldlM_cons] at h
    rcases bind_eq_error.1 h with h | ⟨next, hu, h⟩
    · exact ⟨u, List.mem_cons_self, checkUse_error hc h⟩
    · obtain ⟨u', hmem, hf⟩ := ih (checkUse_ok hc hu).1 h
      exact ⟨u', List.mem_cons_of_mem u hmem, hf⟩

/-- The checker of a model that has checked all that the model uses, up to the first defect. -/
def Interface.Model.checked (m : Model) : Except Failure Checker := do
  m.uses.foldlM Checker.checkUse (← Checker.ofModel m)

theorem checked_ok (h : m.checked = .ok c) : c.Of m := by
  obtain ⟨first, hfirst, h⟩ := bind_eq_ok.1 h
  exact (checkUses_ok (.new hfirst) h).1

/-- **A check passes just when all names of definitions differ and every use is sound.** -/
theorem checked_eq_ok_iff : (∃ c, m.checked = .ok c) ↔
    (m.definitions.map (·.name)).Nodup ∧ ∀ u ∈ m.uses, u.Sound (named m.definitions) := by
  constructor
  · rintro ⟨c, h⟩
    obtain ⟨first, hfirst, h⟩ := bind_eq_ok.1 h
    obtain ⟨table, htable, -⟩ := bind_eq_ok.1 hfirst
    exact ⟨(tableOf_eq_ok.1 htable).1, (checkUses_ok (.new hfirst) h).2⟩
  · rintro ⟨hnodup, hsound⟩
    have hfirst : Checker.ofModel m = .ok ⟨m, named m.definitions, []⟩ :=
      bind_eq_ok.2 ⟨_, tableOf_eq_ok.2 ⟨hnodup, rfl⟩, rfl⟩
    cases h : m.uses.foldlM Checker.checkUse ⟨m, named m.definitions, []⟩ with
    | ok c => exact ⟨c, bind_eq_ok.2 ⟨_, hfirst, h⟩⟩
    | error e =>
      obtain ⟨u, hu, hf⟩ := checkUses_error (.new hfirst) h
      exact absurd hf (hsound u hu).not_faulted

/-- **What a failed check says is true.** -/
theorem checked_eq_error (h : m.checked = .error e) :
    (∃ name, e = .duplicateType name ∧ List.Duplicate name (m.definitions.map (·.name))) ∨
      ∃ u ∈ m.uses, u.Faulted (named m.definitions) e := by
  rcases bind_eq_error.1 h with h | ⟨first, hfirst, h⟩
  · rcases bind_eq_error.1 h with h | ⟨table, -, h⟩
    · exact .inl (tableOf_eq_error h)
    · exact absurd h (by simp [pure, Except.pure])
  · exact .inr (checkUses_error (.new hfirst) h)

/-! ## In a generation -/

theorem ofExcept_apply {α : Type} (r : Except Failure α) (p : Progress) : Step.ofExcept r p = (r, p) := by
  cases r <;> rfl

theorem keep_apply (c : Checker) (p : Progress) : Step.keep c p = (.ok (), { p with checker := some c }) := rfl

/-- What a check leaves behind: a checker of the model, unless the model has no type table. -/
structure Kept (m : Model) (p p' : Progress) : Prop where
  events : p'.events = p.events
  files : p'.files = p.files
  checker : (∃ c, p'.checker = some c ∧ c.Of m) ∨ p'.checker = p.checker ∧ ∃ e, Checker.ofModel m = .error e

/-- One use after another is checked, and the last checker is kept. -/
theorem foldlM_checkUse_apply (uses : List Use) (hc : c.Of m) {p : Progress} (hp : p.checker = some c) :
    ∃ last, (uses.foldlM (fun c use => do
        let c ← Step.ofExcept (c.checkUse use)
        Step.keep c
        return c) c : Step Checker) p =
      (uses.foldlM Checker.checkUse c, { p with checker := some last }) ∧ last.Of m ∧
      ∀ c', uses.foldlM Checker.checkUse c = .ok c' → c' = last := by
  induction uses generalizing c p with
  | nil =>
    refine ⟨c, ?_, hc, fun c' h => (pure_eq_ok.1 h).symm⟩
    rw [← hp]
    rfl
  | cons u uses ih =>
    rw [List.foldlM_cons, List.foldlM_cons, state_bind_apply, state_bind_apply, ofExcept_apply]
    cases hu : c.checkUse u with
    | error e =>
      refine ⟨c, ?_, hc, fun c' h => absurd h (by simp [bind, Except.bind])⟩
      rw [← hp]
      rfl
    | ok next =>
      obtain ⟨last, happly, hlast, heq⟩ := ih (checkUse_ok hc hu).1 (p := { p with checker := some next }) rfl
      exact ⟨last, happly, hlast, heq⟩

/-- **A check in a generation** has the outcome of the model, whatever was done before, and keeps a checker. -/
theorem check_apply (g : Generation) (p : Progress) : (g.check p).1 = g.model.checked ∧
    Kept g.model p (g.check p).2 ∧ ∀ c, g.model.checked = .ok c → (g.check p).2.checker = some c := by
  unfold Generation.check Interface.Model.checked
  rw [state_bind_apply, ofExcept_apply]
  cases hfirst : Checker.ofModel g.model with
  | error e =>
    exact ⟨rfl, ⟨rfl, rfl, .inr ⟨rfl, e, hfirst⟩⟩, fun c h => absurd h (by simp [bind, Except.bind])⟩
  | ok c =>
    obtain ⟨last, happly, hlast, heq⟩ := foldlM_checkUse_apply g.model.uses (.new hfirst)
      (p := { p with checker := some c }) rfl
    simp only [state_bind_apply, keep_apply, happly]
    exact ⟨rfl, ⟨rfl, rfl, .inl ⟨last, rfl, hlast⟩⟩, fun c' h => congrArg some (heq c' h).symm⟩

end Bindgen
