import Bindgen.Proofs.Generation.Check

/-!
# What a generation renders

Deriving and rendering are steps, which go on from what earlier steps have left behind. Here are their outcomes
without steps: `Model.derived` is a function of the model, `Generation.rendered` one of the generation. A step
has that outcome from any progress that is `Ready`: it holds no checker yet, or one of a model that passes its
check.

Results:
* `distinctSymbols_eq_none`, `distinctSymbols_eq_some`: the first name that occurs twice is found.
* `derive_apply`, `render_apply`: the outcome of a step does not depend on what was done before.
-/

namespace Bindgen

open Interface Boundary Resolve Config Emit

variable {m : Model} {g : Generation} {p : Progress}

/-! ## Repeated symbols -/

theorem distinctSymbols_eq_none {seen : List String} {ss : List Signature} :
    (distinctSymbols seen ss).2 = none ↔ (ss.map (·.name)).Nodup ∧ ∀ s ∈ ss, s.name ∉ seen := by
  induction ss generalizing seen with
  | nil => simp [distinctSymbols]
  | cons s ss ih =>
    unfold distinctSymbols
    rw [List.forall_mem_cons, List.map_cons, List.nodup_cons]
    by_cases hs : s.name ∈ seen
    · simp [hs]
    · simp only [if_neg hs, ih, List.mem_cons, not_or, List.mem_map, not_exists, not_and]
      constructor
      · rintro ⟨hn, hrest⟩
        exact ⟨⟨fun t ht => (hrest t ht).1, hn⟩, hs, fun t ht => (hrest t ht).2⟩
      · rintro ⟨⟨hfirst, hn⟩, -, hrest⟩
        exact ⟨hn, fun t ht => ⟨hfirst t ht, hrest t ht⟩⟩

theorem distinctSymbols_eq_some {seen : List String} {ss : List Signature} {name : String}
    (h : (distinctSymbols seen ss).2 = some name) : ∃ front s rest, ss = front ++ s :: rest ∧ s.name = name ∧
      (name ∈ seen ∨ name ∈ front.map (·.name)) := by
  induction ss generalizing seen with
  | nil => exact absurd h (by simp [distinctSymbols])
  | cons s ss ih =>
    unfold distinctSymbols at h
    by_cases hs : s.name ∈ seen
    · rw [if_pos hs] at h
      obtain rfl := Option.some.inj h
      exact ⟨[], s, ss, rfl, rfl, .inl hs⟩
    · rw [if_neg hs] at h
      obtain ⟨front, t, rest, rfl, rfl, hseen⟩ := ih h
      refine ⟨s :: front, t, rest, rfl, rfl, ?_⟩
      rw [List.map_cons, List.mem_cons]
      rcases hseen with hseen | hseen
      · exact (List.mem_cons.1 hseen).elim (fun he => .inr (.inl he)) .inl
      · exact .inr (.inr hseen)

/-! ## Outcomes -/

/-- A model passes its check. -/
def Interface.Model.Passes (m : Model) : Prop := ∃ c, m.checked = .ok c

/-- The symbols of a model, if their names differ. -/
def Interface.Model.exported (m : Model) : Except Failure (List Signature) :=
  match (distinctSymbols [] m.symbols).2 with
  | some name => throw (.duplicateSymbol name)
  | none => return m.symbols

/-- The outcome of a derivation: the symbols of a model that passes its check. -/
def Interface.Model.derived (m : Model) : Except Failure (List Signature) := do
  let _ ← m.checked
  m.exported

/-- What a backend of a generation works from. -/
def Generation.surface (g : Generation) : Surface :=
  ⟨g.model, named g.model.definitions, g.model.symbols, g.settings, g.spelling⟩

/-- The files of some backends, added to others. -/
def renderFiles (s : Surface) (outputs : Outputs) (backends : List Backend) : Except Failure Outputs :=
  backends.foldlM (fun outputs b => do
    let (path, text) ← b.file s
    return Generation.putOutput path text outputs) outputs

/-- The outcome of rendering. -/
def Generation.rendered (g : Generation) : Except Failure Outputs := do
  let backends ← g.backends
  let _ ← g.model.derived
  renderFiles g.surface [] backends

theorem passes_of_isOk (h : m.checked.isOk = true) : m.Passes := by
  cases hc : m.checked with
  | ok c => exact ⟨c, hc⟩
  | error e => exact absurd h (by simp [hc, Except.isOk, Except.toBool])

theorem exported_eq_ok {symbols : List Signature} :
    m.exported = .ok symbols ↔ symbols = m.symbols ∧ (m.symbols.map (·.name)).Nodup := by
  unfold Interface.Model.exported
  cases hrepeated : (distinctSymbols [] m.symbols).2 with
  | some name =>
    have hnot : ¬ (m.symbols.map (·.name)).Nodup := fun h =>
      absurd (hrepeated.symm.trans (distinctSymbols_eq_none.2 ⟨h, fun _ _ => List.not_mem_nil⟩)) (by simp)
    exact ⟨fun h => absurd h (by simp [throw, throwThe, MonadExceptOf.throw]), fun h => absurd h.2 hnot⟩
  | none =>
    rw [pure_eq_ok, eq_comm]
    exact (and_iff_left (distinctSymbols_eq_none.1 hrepeated).1).symm

theorem exported_eq_error {e : Failure} (h : m.exported = .error e) :
    ∃ name, e = .duplicateSymbol name ∧ List.Duplicate name (m.symbols.map (·.name)) := by
  unfold Interface.Model.exported at h
  cases hrepeated : (distinctSymbols [] m.symbols).2 with
  | none =>
    rw [hrepeated] at h
    exact absurd h (by simp [pure, Except.pure])
  | some name =>
    rw [hrepeated] at h
    obtain ⟨front, s, rest, hsymbols, rfl, hseen⟩ := distinctSymbols_eq_some hrepeated
    refine ⟨s.name, (Except.error.inj h).symm, ?_⟩
    have hfront := hseen.resolve_left List.not_mem_nil
    rw [List.duplicate_iff_sublist, hsymbols, List.map_append]
    exact (List.singleton_sublist.mpr hfront).append (List.singleton_sublist.mpr List.mem_cons_self)

theorem derived_eq_ok {symbols : List Signature} (h : m.derived = .ok symbols) :
    m.Passes ∧ symbols = m.symbols ∧ (m.symbols.map (·.name)).Nodup := by
  obtain ⟨c, hc, h⟩ := bind_eq_ok.1 h
  exact ⟨⟨c, hc⟩, exported_eq_ok.1 h⟩

theorem derived_of_nodup (hm : m.Passes) (h : (m.symbols.map (·.name)).Nodup) :
    m.derived = .ok m.symbols := by
  obtain ⟨c, hc⟩ := hm
  exact bind_eq_ok.2 ⟨c, hc, exported_eq_ok.2 ⟨rfl, h⟩⟩

/-- **What a failed derivation says is true.** -/
theorem derived_eq_error {e : Failure} (h : m.derived = .error e) :
    m.checked = .error e ∨ ∃ name, e = .duplicateSymbol name ∧ List.Duplicate name (m.symbols.map (·.name)) := by
  rcases bind_eq_error.1 h with h | ⟨c, -, h⟩
  · exact .inl h
  · exact .inr (exported_eq_error h)

/-! ## Deriving -/

theorem use_of_root (owner : Option Object) {c : Callable} {t : Ty} (ht : t ∈ c.roots) :
    ∃ place, .value t place ∈ c.uses owner := by
  rcases List.mem_append.1 ht with ht | ht
  · obtain ⟨q, hq, rfl⟩ := List.mem_map.1 ht
    exact ⟨_, List.mem_append_left _ (List.mem_append_left _ (List.mem_map_of_mem hq))⟩
  · exact ⟨_, List.mem_append_left _ (List.mem_append_right _ (List.mem_map_of_mem ht))⟩

/-- The types that callables mention are sound in a model that passes its check. -/
theorem roots_sound (h : m.Passes) :
    ∀ p ∈ m.callables, ∀ t ∈ p.2.roots, Resolve.Sound (named m.definitions) t := by
  rintro ⟨owner, c⟩ hc t ht
  obtain ⟨place, hu⟩ := use_of_root owner ht
  exact (checked_eq_ok_iff.1 h).2 _ (List.mem_append_right _ (List.mem_flatMap.2 ⟨(owner, c), hc, hu⟩))

/-- What callables use is sound in a model that passes its check. -/
theorem callables_sound (h : m.Passes) : ∀ p ∈ m.callables, p.2.Sound (named m.definitions) := by
  rintro ⟨owner, c⟩ hc
  refine ⟨fun q hq => ?_, fun _ t ht => ?_, fun name hname => ?_⟩
  · exact roots_sound h _ hc q.type (List.mem_append_left _ (List.mem_map_of_mem hq))
  · exact roots_sound h _ hc t (List.mem_append_right _ (Option.mem_toList.2 ht))
  · have hu : Use.thrown name (c.place owner) ∈ c.uses owner :=
      List.mem_append_right _ (List.mem_map.2 ⟨name, Option.mem_toList.2 hname, rfl⟩)
    exact (checked_eq_ok_iff.1 h).2 _ (List.mem_append_right _ (List.mem_flatMap.2 ⟨(owner, c), hc, hu⟩))

/-- There is a checker of a model. -/
def HasChecker (m : Model) (p : Progress) : Prop := ∃ c, p.checker = some c ∧ c.Of m

/-- A generation of a model can go on from a progress: there is no checker yet, or one of the model, which
passes. -/
def Ready (m : Model) (p : Progress) : Prop := p.checker = none ∨ HasChecker m p ∧ m.Passes

/-- The checker of a generation: the one that is kept, or else what a check gives. -/
theorem checker_apply (g : Generation) (p : Progress) : g.checker p = match p.checker with
    | some c => (.ok c, p)
    | none => g.check p := by
  unfold Generation.checker
  show (match p.checker with | some c => pure c | none => g.check : Step Checker) p = _
  cases p.checker <;> rfl

/-- From what is ready there is a checker of the model, or the check fails as it does by itself. -/
theorem checker_ready (hp : Ready g.model p) : ∃ p', p'.files = p.files ∧
    ((∃ c, g.checker p = (.ok c, p') ∧ p'.checker = some c ∧ c.Of g.model ∧ g.model.Passes) ∨
      ∃ e, g.checker p = (.error e, p') ∧ g.model.checked = .error e) := by
  rw [checker_apply]
  rcases hp with hp | ⟨⟨c, hp, hc⟩, hpasses⟩
  · obtain ⟨houtcome, hkept, hsome⟩ := check_apply g p
    refine ⟨(g.check p).2, hkept.files, ?_⟩
    rw [hp]
    cases hchecked : g.model.checked with
    | ok c =>
      have hstep : g.check p = (.ok c, (g.check p).2) := Prod.ext (houtcome.trans hchecked) rfl
      exact .inl ⟨c, hstep, hsome c hchecked, checked_ok hchecked, c, hchecked⟩
    | error e => exact .inr ⟨e, Prod.ext (houtcome.trans hchecked) rfl, rfl⟩
  · rw [hp]
    exact ⟨p, rfl, .inl ⟨c, rfl, hp, hc, hpasses⟩⟩

theorem forM_report_apply (symbols : List Signature) (p : Progress) :
    ((symbols.forM fun s => Step.report (.derived s)) : Step Unit) p =
      (.ok (), { p with events := p.events ++ symbols.map .derived }) := by
  induction symbols generalizing p with
  | nil =>
    rw [List.map_nil, List.append_nil]
    rfl
  | cons s symbols ih =>
    show (Step.report (.derived s) >>= fun _ => symbols.forM fun s => Step.report (.derived s)) p = _
    rw [state_bind_apply]
    show ((symbols.forM fun s => Step.report (.derived s)) : Step Unit)
      { p with events := p.events ++ [.derived s] } = _
    rw [ih]
    exact congrArg (fun events => (_, (⟨p.checker, events, p.files⟩ : Progress))) (List.append_assoc _ _ _)

/-- With a checker of the model, the symbols are derived if what the callables use is sound. -/
theorem derive_of_checker {p' : Progress} {c : Checker} (hchecker : g.checker p = (.ok c, p'))
    (hc : c.Of g.model) (hs : ∀ q ∈ g.model.callables, q.2.Sound (named g.model.definitions)) :
    ∃ p'', g.derive p = (g.model.exported, p'') ∧ p''.files = p'.files ∧ HasChecker g.model p'' := by
  obtain ⟨c', hsymbols, hc'⟩ := deriveSymbols_eq hc hs
  let events := p'.events ++ (distinctSymbols [] g.model.symbols).1.map .derived
  refine ⟨{ p' with checker := some c', events }, ?_, rfl, c', rfl, hc'⟩
  unfold Generation.derive Interface.Model.exported
  rw [state_bind_apply, hchecker]
  simp only [state_bind_apply, ofExcept_apply, hsymbols, keep_apply, forM_report_apply]
  cases (distinctSymbols [] g.model.symbols).2 <;> rfl

/-- **Deriving has the outcome of the model** from whatever is ready. It leaves the files alone, and a checker
behind if the model passes. -/
theorem derive_apply (hp : Ready g.model p) : ∃ p', g.derive p = (g.model.derived, p') ∧
    p'.files = p.files ∧ (g.model.Passes → HasChecker g.model p') := by
  unfold Interface.Model.derived
  obtain ⟨p₁, hfiles, ⟨c, hchecker, -, hc, hpasses⟩ | ⟨e, hchecker, he⟩⟩ := checker_ready hp
  · obtain ⟨p', hderive, hfiles', hkept⟩ := derive_of_checker hchecker hc (callables_sound hpasses)
    obtain ⟨cm, hcm⟩ := hpasses
    rw [hcm]
    exact ⟨p', hderive, hfiles'.trans hfiles, fun _ => hkept⟩
  · refine ⟨p₁, ?_, hfiles, ?_⟩
    · unfold Generation.derive
      rw [state_bind_apply, hchecker, he]
      rfl
    · rintro ⟨c, hc⟩
      exact absurd (hc.symm.trans he) (by simp)

/-! ## Rendering -/

theorem foldlM_file_apply (s : Surface) (backends : List Backend) (outputs : Outputs) (p : Progress) :
    ∃ p', (backends.foldlM (fun outputs b => do
        let (path, text) ← Step.ofExcept (b.file s)
        Step.report (.rendered b)
        return Generation.putOutput path text outputs) outputs : Step Outputs) p =
      (renderFiles s outputs backends, p') ∧ p'.files = p.files ∧ p'.checker = p.checker := by
  induction backends generalizing outputs p with
  | nil => exact ⟨p, rfl, rfl, rfl⟩
  | cons b backends ih =>
    unfold renderFiles at ih ⊢
    rw [List.foldlM_cons, List.foldlM_cons, state_bind_apply, state_bind_apply, ofExcept_apply]
    cases b.file s with
    | error e => exact ⟨p, rfl, rfl, rfl⟩
    | ok file =>
      obtain ⟨p', happly, hfiles, hchecker⟩ := ih (Generation.putOutput file.1 file.2 outputs)
        { p with events := p.events ++ [.rendered b] }
      exact ⟨p', happly, hfiles, hchecker⟩

/-- Once the symbols are derived, the backends generate their files. -/
theorem render_of_derive {p' : Progress} {backends : List Backend} (hb : g.backends = .ok backends)
    (hderive : g.derive p = (.ok g.model.symbols, p')) (hkept : HasChecker g.model p') :
    ∃ p'', g.render p = (renderFiles g.surface [] backends, p'') ∧ p''.files = p'.files ∧
      HasChecker g.model p'' := by
  obtain ⟨c, hsome, hc⟩ := hkept
  obtain ⟨p'', hfold, hfiles, hchecker⟩ := foldlM_file_apply g.surface backends [] p'
  refine ⟨p'', ?_, hfiles, c, hchecker.trans hsome, hc⟩
  unfold Generation.render
  rw [state_bind_apply, ofExcept_apply, hb]
  simp only [state_bind_apply, hderive, checker_apply, hsome, hc.reached.table_eq]
  exact hfold

/-- **Rendering has the outcome of the generation** from whatever is ready. It leaves the files alone, and the
generation ready if the model passes. -/
theorem render_apply (hp : Ready g.model p) : ∃ p', g.render p = (g.rendered, p') ∧ p'.files = p.files ∧
    (g.model.Passes → Ready g.model p') := by
  unfold Generation.rendered
  cases hb : g.backends with
  | error e =>
    refine ⟨p, ?_, rfl, fun _ => hp⟩
    unfold Generation.render
    rw [state_bind_apply, ofExcept_apply, hb]
    rfl
  | ok backends =>
    obtain ⟨p₁, hderive, hfiles, hchecker⟩ := derive_apply hp
    rw [bind_ok]
    cases hderived : g.model.derived with
    | error e =>
      refine ⟨p₁, ?_, hfiles, fun hpasses => .inr ⟨hchecker hpasses, hpasses⟩⟩
      unfold Generation.render
      rw [state_bind_apply, ofExcept_apply, hb]
      simp only [state_bind_apply, hderive, hderived]
      rfl
    | ok symbols =>
      obtain ⟨hpasses, rfl, -⟩ := derived_eq_ok hderived
      obtain ⟨p₂, hrender, hfiles₂, hchecker₂⟩ := render_of_derive hb (hderived ▸ hderive) (hchecker hpasses)
      exact ⟨p₂, hrender, hfiles₂.trans hfiles, fun _ => .inr ⟨hchecker₂, hpasses⟩⟩

end Bindgen
