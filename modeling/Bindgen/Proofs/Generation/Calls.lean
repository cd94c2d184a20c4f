import Bindgen.Proofs.Generation.Acceptance

/-!
# Calls on one generation

A generation may be called more than once, and its calls share a progress. `Generation.after` is what they leave
behind. The checker in it is one of the model from the first call on that looks at the model, also where the check
has failed: from then on the check is not made again. So a model that does not pass is rejected by the first call
only. Later ones go by what the callables use (`Model.Exports`), and generate the files of a model whose defect is
in a definition that no callable uses.

Results:
* `call_ready`: a call has the outcome of a first call, unless a check has failed before.
* `after_checker`: what calls leave behind of a checker.
* `calls_decide`: which calls have the outcome of a first call, and what becomes of the others.
-/

namespace Bindgen

open Interface Boundary Resolve Emit Files

/-- A call on a generation. -/
inductive Generation.Call where
  | check
  | derive
  | render
  /-- Files are put into a directory, or into that of the settings. -/
  | write (outDir : Option Path)

/-- What a call gives. -/
inductive Generation.Answer where
  | checked
  | symbols (ss : List Signature)
  | outputs (files : Outputs)
  | written (paths : List Path)

namespace Generation

/-- The generation that puts its files into a directory. -/
def into (g : Generation) : Option Path → Generation
  | none => g
  | some outDir => { g with settings := { g.settings with outDir } }

/-- The step of a call. -/
def call (g : Generation) : Call → Step Answer
  | .check => (fun _ => .checked) <$> g.check
  | .derive => .symbols <$> g.derive
  | .render => .outputs <$> g.render
  | .write outDir => .written <$> (g.into outDir).write

/-- What some calls leave behind, whatever comes of them. -/
def after (g : Generation) (calls : List Call) (files : Tree) : Progress :=
  calls.foldl (fun p call => (g.call call p).2) (.start files)

/-- A call looks at the model; one that renders has to know its backends before. -/
def Looks (g : Generation) : Call → Prop
  | .check | .derive => True
  | .render | .write _ => ∃ backends, g.backends = .ok backends

/-- A check of the model has begun, and failed. -/
def Spoiled (g : Generation) (calls : List Call) : Prop :=
  ¬ g.model.Passes ∧ g.model.names.Nodup ∧ ∃ call ∈ calls, g.Looks call

end Generation

/-- What the callables of a model use is sound, and its symbols differ. -/
structure Interface.Model.Exports (m : Model) : Prop where
  callables : ∀ p ∈ m.callables, p.2.Sound (named m.definitions)
  symbols : m.symbolNames.Nodup

variable {m : Model} {g : Generation} {p q : Progress}

@[simp] theorem into_model (g : Generation) (outDir : Option Path) : (g.into outDir).model = g.model := by
  cases outDir <;> rfl

@[simp] theorem into_backends (g : Generation) (outDir : Option Path) :
    (g.into outDir).backends = g.backends := by
  cases outDir <;> rfl

/-! ## Steps that go by the files -/

section FilesOnly

variable {α β : Type}

/-- A step leaves the checker alone, and goes by nothing but the files. -/
structure FilesOnly (x : Step α) : Prop where
  checker : ∀ p, (x p).2.checker = p.checker
  outcome : ∀ p q, p.files = q.files → (x p).1 = (x q).1 ∧ (x p).2.files = (x q).2.files

theorem FilesOnly.ofExcept (r : Except Failure α) : FilesOnly (Step.ofExcept r) := by
  refine ⟨fun p => ?_, fun p q h => ?_⟩
  · rw [ofExcept_apply]
  · rw [ofExcept_apply, ofExcept_apply]
    exact ⟨rfl, h⟩

theorem FilesOnly.result (a : α) : FilesOnly (pure a) := ⟨fun _ => rfl, fun _ _ h => ⟨rfl, h⟩⟩

theorem FilesOnly.report (e : Event) : FilesOnly (Step.report e) :=
  ⟨fun _ => rfl, fun _ _ h => ⟨rfl, h⟩⟩

theorem FilesOnly.bind {x : Step α} {f : α → Step β} (hx : FilesOnly x) (hf : ∀ a, FilesOnly (f a)) :
    FilesOnly (x >>= f) := by
  refine ⟨fun p => ?_, fun p q h => ?_⟩
  · rw [state_bind_apply]
    have hchecker := hx.checker p
    cases hp : x p with
    | mk r p' =>
      rw [hp] at hchecker
      cases r with
      | error e => exact hchecker
      | ok a => exact ((hf a).checker p').trans hchecker
  · rw [state_bind_apply, state_bind_apply]
    obtain ⟨houtcome, hfiles⟩ := hx.outcome p q h
    cases hp : x p with
    | mk r p' =>
      cases hq : x q with
      | mk r' q' =>
        rw [hp, hq] at houtcome hfiles
        obtain rfl : r = r' := houtcome
        cases r with
        | error e => exact ⟨rfl, hfiles⟩
        | ok a => exact (hf a).outcome p' q' hfiles

theorem FilesOnly.mapM {f : α → Step β} (hf : ∀ a, FilesOnly (f a)) (l : List α) : FilesOnly (l.mapM f) := by
  induction l with
  | nil => exact .result []
  | cons a l ih =>
    rw [List.mapM_cons]
    exact (hf a).bind fun b => ih.bind fun bs => .result (b :: bs)

theorem changeFiles_apply (path : Path) (change : Tree → Tree × Bool) (p : Progress) :
    Step.changeFiles path change p =
      (if (change p.files).2 then .ok () else .error (.blocked path.text), { p with files := (change p.files).1 }) := by
  show (if !(change p.files).2 then throw (.blocked path.text) else pure () : Step Unit)
    { p with files := (change p.files).1 } = _
  cases (change p.files).2 <;> rfl

theorem FilesOnly.changeFiles (path : Path) (change : Tree → Tree × Bool) :
    FilesOnly (Step.changeFiles path change) := by
  refine ⟨fun p => ?_, fun p q h => ?_⟩
  · rw [changeFiles_apply]
  · rw [changeFiles_apply, changeFiles_apply, h]
    exact ⟨rfl, rfl⟩

/-- A file is written, with the directories on the way to it. -/
def createFile (path : Path) (text : String) : Step Bool := do
  Step.changeFiles path (·.makeDirectories path.parent)
  Step.changeFiles path (·.writeText path text)
  Step.report (.generated path)
  return true

/-- A file is put where something may stand already. -/
def replaceEntry (path : Path) (text : String) : Option Entry → Step Bool
  | some .directory | some (.binary _) => throw (.blocked path.text)
  | some (.file old) => if Text.asRead old = text then do
      Step.report (.unchanged path)
      return false
    else createFile path text
  | none => createFile path text

theorem writeFile_apply (path : Path) (text : String) (p : Progress) :
    Generation.writeFile path text p = replaceEntry path text (p.files.entry? path) p := by
  unfold Generation.writeFile replaceEntry
  rw [state_bind_apply]
  show (match p.files.entry? path with
    | some .directory | some (.binary _) => _
    | some (.file old) => _
    | none => _ : Step Bool) p = _
  cases p.files.entry? path with
  | none => rfl
  | some entry =>
    cases entry with
    | directory => rfl
    | binary => rfl
    | file old =>
      show (if Text.asRead old = text then _ else _ : Step Bool) p =
        (if Text.asRead old = text then _ else _ : Step Bool) p
      split <;> rfl

theorem FilesOnly.createFile (path : Path) (text : String) : FilesOnly (createFile path text) :=
  (FilesOnly.changeFiles path _).bind fun _ => (FilesOnly.changeFiles path _).bind fun _ =>
    (FilesOnly.report _).bind fun _ => .result true

theorem FilesOnly.replaceEntry (path : Path) (text : String) (entry : Option Entry) :
    FilesOnly (replaceEntry path text entry) := by
  unfold Bindgen.replaceEntry
  split
  · exact .ofExcept (.error _)
  · exact .ofExcept (.error _)
  · split
    · exact (FilesOnly.report _).bind fun _ => .result false
    · exact .createFile path text
  · exact .createFile path text

theorem FilesOnly.writeFile (path : Path) (text : String) : FilesOnly (Generation.writeFile path text) := by
  refine ⟨fun p => ?_, fun p q h => ?_⟩
  · rw [writeFile_apply]
    exact (FilesOnly.replaceEntry path text _).checker p
  · rw [writeFile_apply, writeFile_apply, h]
    exact (FilesOnly.replaceEntry path text _).outcome p q h

/-- What writing does with rendered files. -/
def putOutputs (outDir : Path) (outputs : Outputs) : Step (List Path) := do
  let written ← outputs.mapM fun (rel, text) => do
    let path := outDir.join (Path.ofText rel)
    return (path, ← Generation.writeFile path text)
  return (written.filter (·.2)).map (·.1)

theorem FilesOnly.putOutputs (outDir : Path) (outputs : Outputs) : FilesOnly (putOutputs outDir outputs) := by
  unfold Bindgen.putOutputs
  refine .bind (.mapM ?_ outputs) fun _ => .result _
  rintro ⟨rel, text⟩
  exact (FilesOnly.writeFile _ text).bind fun _ => .result _

end FilesOnly

/-! ## Calls from what is ready -/

/-- Two runs end alike: with the same outcome and the same files. -/
def Alike {α : Type} (x y : Except Failure α × Progress) : Prop := x.1 = y.1 ∧ x.2.files = y.2.files

theorem Alike.map {α β : Type} {f : α → β} {x : Step α} (h : Alike (x p) (x q)) :
    Alike ((f <$> x) p) ((f <$> x) q) := by
  rw [state_map_apply, state_map_apply]
  exact ⟨congrArg (f <$> ·) h.1, h.2⟩

theorem check_alike (hf : p.files = q.files) : Alike (g.check p) (g.check q) := by
  obtain ⟨hp, hkp, -⟩ := check_apply g p
  obtain ⟨hq, hkq, -⟩ := check_apply g q
  exact ⟨hp.trans hq.symm, hkp.files.trans (hf.trans hkq.files.symm)⟩

theorem write_eq (g : Generation) : g.write = g.render >>= putOutputs g.settings.outDir := rfl

theorem write_alike (h : Alike (g.render p) (g.render q)) : Alike (g.write p) (g.write q) := by
  rw [write_eq, state_bind_apply, state_bind_apply]
  cases hp : g.render p with
  | mk r p' =>
    cases hq : g.render q with
    | mk r' q' =>
      rw [hp, hq] at h
      obtain ⟨rfl : r = r', hfiles⟩ := h
      cases r with
      | error e => exact ⟨rfl, hfiles⟩
      | ok outputs => exact (FilesOnly.putOutputs g.settings.outDir outputs).outcome p' q' hfiles

/-- **A call goes by the files only** from whatever is ready. -/
theorem call_ready (hp : Ready g.model p) (hq : Ready g.model q) (hf : p.files = q.files)
    (call : Generation.Call) : Alike (g.call call p) (g.call call q) := by
  have hrender : ∀ g' : Generation, g'.model = g.model → Alike (g'.render p) (g'.render q) := by
    intro g' hm
    obtain ⟨p', hp', hfp, -⟩ := render_apply (hm ▸ hp)
    obtain ⟨q', hq', hfq, -⟩ := render_apply (hm ▸ hq)
    rw [hp', hq']
    exact ⟨rfl, hfp.trans (hf.trans hfq.symm)⟩
  cases call with
  | check => exact (check_alike hf).map
  | derive =>
    obtain ⟨p', hp', hfp, -⟩ := derive_apply hp
    obtain ⟨q', hq', hfq, -⟩ := derive_apply hq
    refine Alike.map (x := g.derive) ?_
    rw [hp', hq']
    exact ⟨rfl, hfp.trans (hf.trans hfq.symm)⟩
  | render => exact (hrender g rfl).map
  | write outDir => exact (write_alike (hrender _ (into_model g outDir))).map

/-! ## What calls leave behind -/

/-- A step has looked at the model: there is a checker of the model, if its definitions have different names. -/
def Looked (m : Model) (p : Progress) : Prop :=
  (m.names.Nodup → HasChecker m p) ∧ (¬ m.names.Nodup → p.checker = none)

/-- There is no checker yet, or one of the model. -/
def Standing (m : Model) (p : Progress) : Prop := p.checker = none ∨ HasChecker m p

theorem Looked.standing (h : Looked m p) : Standing m p :=
  (em m.names.Nodup).elim (fun hn => .inr (h.1 hn)) fun hn => .inl (h.2 hn)

theorem Looked.of_checker {p' : Progress} (h : Looked m p) (hc : p'.checker = p.checker) : Looked m p' := by
  unfold Looked HasChecker
  rw [hc]
  exact h

theorem ofModel_eq_ok : (∃ c, Checker.ofModel m = .ok c) ↔ m.names.Nodup := by
  constructor
  · rintro ⟨c, hc⟩
    obtain ⟨table, htable, -⟩ := bind_eq_ok.1 hc
    exact (tableOf_eq_ok.1 htable).1
  · intro h
    exact ⟨_, bind_eq_ok.2 ⟨_, tableOf_eq_ok.2 ⟨h, rfl⟩, rfl⟩⟩

theorem HasChecker.nodup (h : HasChecker m p) : m.names.Nodup := by
  obtain ⟨c, -, hc⟩ := h
  exact hc.names_nodup

theorem HasChecker.looked (h : HasChecker m p) : Looked m p := ⟨fun _ => h, fun hn => absurd h.nodup hn⟩

theorem check_looked (hp : Standing g.model p) : Looked g.model (g.check p).2 := by
  obtain ⟨-, hkept, -⟩ := check_apply g p
  rcases hkept.checker with h | ⟨hsame, e, he⟩
  · exact HasChecker.looked h
  · have hnot : ¬ g.model.names.Nodup := by
      intro hn
      obtain ⟨c, hc⟩ := ofModel_eq_ok.2 hn
      exact absurd (hc.symm.trans he) (by simp)
    refine ⟨fun hn => absurd hn hnot, fun _ => hsame.trans ?_⟩
    exact hp.resolve_right fun h => hnot h.nodup

theorem checker_looked (hp : Standing g.model p) : Looked g.model (g.checker p).2 ∧
    ∀ c, (g.checker p).1 = .ok c → c.Of g.model ∧ HasChecker g.model (g.checker p).2 := by
  rw [checker_apply]
  rcases hp with hp | ⟨c, hc, hof⟩
  · obtain ⟨houtcome, -, hsome⟩ := check_apply g p
    rw [hp]
    refine ⟨check_looked (.inl hp), fun c h => ?_⟩
    have hchecked := houtcome.symm.trans h
    exact ⟨checked_ok hchecked, c, hsome c hchecked, checked_ok hchecked⟩
  · rw [hc]
    refine ⟨HasChecker.looked ⟨c, hc, hof⟩, fun c' h => ?_⟩
    obtain rfl := Except.ok.inj h
    exact ⟨hof, c, hc, hof⟩

/-- Deriving goes by what the callables use as soon as there is a checker. -/
theorem derive_cases (hp : Standing g.model p) :
    (∃ p', g.derive p = (g.model.exported, p') ∧ HasChecker g.model p' ∧
      ∀ f ∈ g.model.callables, f.2.Sound (named g.model.definitions)) ∨
    ∃ e p', g.derive p = (.error e, p') ∧ Looked g.model p' ∧
      (HasChecker g.model p → ¬ ∀ f ∈ g.model.callables, f.2.Sound (named g.model.definitions)) := by
  obtain ⟨hlooked, hsome⟩ := checker_looked hp
  cases hchecker : g.checker p with
  | mk r p' =>
    rw [hchecker] at hlooked hsome
    cases r with
    | error e =>
      refine .inr ⟨e, p', ?_, hlooked, ?_⟩
      · unfold Generation.derive
        rw [state_bind_apply, hchecker]
      · rintro ⟨c, hc, -⟩
        rw [checker_apply, hc] at hchecker
        exact absurd (congrArg Prod.fst hchecker) (by simp)
    | ok c =>
      obtain ⟨hof, hkept⟩ := hsome c rfl
      cases hsymbols : deriveSymbols c with
      | ok derived =>
        have hs := deriveSymbols_sound hof hsymbols
        obtain ⟨p'', hderive, -, hkept'⟩ := derive_of_checker hchecker hof hs
        exact .inl ⟨p'', hderive, hkept', hs⟩
      | error e =>
        refine .inr ⟨e, p', ?_, hlooked, fun _ hs => ?_⟩
        · unfold Generation.derive
          rw [state_bind_apply, hchecker]
          simp only [state_bind_apply, ofExcept_apply, hsymbols]
        · obtain ⟨c', hok, -⟩ := deriveSymbols_eq hof hs
          exact absurd (hsymbols.symm.trans hok) (by simp)

theorem derive_looked (hp : Standing g.model p) : Looked g.model (g.derive p).2 := by
  obtain ⟨p', hderive, hkept, -⟩ | ⟨e, p', hderive, hlooked, -⟩ := derive_cases hp
  · exact hderive ▸ hkept.looked
  · exact hderive ▸ hlooked

theorem render_of_error {e : Failure} {p' : Progress} {backends : List Backend} (hb : g.backends = .ok backends)
    (hderive : g.derive p = (.error e, p')) : g.render p = (.error e, p') := by
  unfold Generation.render
  rw [state_bind_apply, ofExcept_apply, hb]
  simp only [state_bind_apply, hderive]

theorem render_looked (hp : Standing g.model p) {backends : List Backend} (hb : g.backends = .ok backends) :
    Looked g.model (g.render p).2 := by
  obtain ⟨p', hderive, hkept, -⟩ | ⟨e, p', hderive, hlooked, -⟩ := derive_cases hp
  · cases hexported : g.model.exported with
    | error e =>
      rw [render_of_error hb (hexported ▸ hderive)]
      exact hkept.looked
    | ok symbols =>
      obtain ⟨rfl, -⟩ := exported_eq_ok.1 hexported
      obtain ⟨p'', hrender, -, hkept'⟩ := render_of_derive hb (hexported ▸ hderive) hkept
      rw [hrender]
      exact hkept'.looked
  · rw [render_of_error hb hderive]
    exact hlooked

theorem write_checker (g : Generation) (p : Progress) : (g.write p).2.checker = (g.render p).2.checker := by
  rw [write_eq, state_bind_apply]
  cases g.render p with
  | mk r p' =>
    cases r with
    | error e => rfl
    | ok outputs => exact (FilesOnly.putOutputs g.settings.outDir outputs).checker p'

theorem call_progress (g : Generation) (call : Generation.Call) (p : Progress) : (g.call call p).2 =
    match call with
    | .check => (g.check p).2
    | .derive => (g.derive p).2
    | .render => (g.render p).2
    | .write outDir => ((g.into outDir).write p).2 := by
  cases call <;> exact congrArg Prod.snd (state_map_apply _ _ p)

/-- A call that looks at the model leaves a checker of it behind. -/
theorem call_looked (hp : Standing g.model p) {call : Generation.Call} (hl : g.Looks call) :
    Looked g.model (g.call call p).2 := by
  rw [call_progress]
  cases call with
  | check => exact check_looked hp
  | derive => exact derive_looked hp
  | render =>
    obtain ⟨backends, hb⟩ := hl
    exact render_looked hp hb
  | write outDir =>
    obtain ⟨backends, hb⟩ := hl
    have hrender := render_looked (g := g.into outDir) ((into_model g outDir).symm ▸ hp)
      ((into_backends g outDir).trans hb)
    rw [into_model] at hrender
    exact hrender.of_checker (write_checker _ p)

/-- Any other call leaves the checker as it is. -/
theorem call_idle {call : Generation.Call} (hl : ¬ g.Looks call) :
    (g.call call p).2.checker = p.checker := by
  have hrender : ∀ g' : Generation, g'.backends = g.backends →
      (¬ ∃ backends, g.backends = .ok backends) → (g'.render p).2 = p := by
    intro g' hb hnone
    unfold Generation.render
    rw [state_bind_apply, ofExcept_apply, hb]
    cases hbackends : g.backends with
    | ok backends => exact absurd ⟨backends, hbackends⟩ hnone
    | error e => rfl
  rw [call_progress]
  cases call with
  | check | derive => exact absurd trivial hl
  | render => exact congrArg Progress.checker (hrender g rfl hl)
  | write outDir =>
    exact (write_checker _ p).trans (congrArg Progress.checker (hrender _ (into_backends g outDir) hl))

/-- **What calls leave behind of a checker**: none until a call looks at the model, and then one of the model. -/
theorem after_checker (g : Generation) (calls : List Generation.Call) (files : Tree) :
    ((∃ call ∈ calls, g.Looks call) → Looked g.model (g.after calls files)) ∧
      ((¬ ∃ call ∈ calls, g.Looks call) → (g.after calls files).checker = none) := by
  induction calls using List.reverseRecOn with
  | nil => exact ⟨fun ⟨_, h, _⟩ => absurd h List.not_mem_nil, fun _ => rfl⟩
  | append_singleton calls call ih =>
    obtain ⟨hlooked, hnone⟩ := ih
    have hstanding : Standing g.model (g.after calls files) :=
      (em _).elim (fun h => (hlooked h).standing) fun h => .inl (hnone h)
    have hafter : g.after (calls ++ [call]) files = (g.call call (g.after calls files)).2 :=
      List.foldl_append
    have hmem : (∃ c ∈ calls ++ [call], g.Looks c) ↔ (∃ c ∈ calls, g.Looks c) ∨ g.Looks call := by
      simp [or_and_right, exists_or]
    rw [hafter, hmem]
    by_cases hl : g.Looks call
    · exact ⟨fun _ => call_looked hstanding hl, fun h => absurd (.inr hl) h⟩
    · refine ⟨fun h => ?_, fun h => ?_⟩
      · exact (hlooked (h.resolve_right hl)).of_checker (call_idle hl)
      · exact (call_idle hl).trans (hnone fun h' => h (.inl h'))

theorem after_ready {calls : List Generation.Call} {files : Tree} (h : ¬ g.Spoiled calls) :
    Ready g.model (g.after calls files) := by
  obtain ⟨hlooked, hnone⟩ := after_checker g calls files
  by_cases hl : ∃ call ∈ calls, g.Looks call
  · by_cases hn : g.model.names.Nodup
    · have hpasses : g.model.Passes := not_not.1 fun hfails => h ⟨hfails, hn, hl⟩
      exact .inr ⟨(hlooked hl).1 hn, hpasses⟩
    · exact .inl ((hlooked hl).2 hn)
  · exact .inl (hnone hl)

/-! ## Calls after a failed check -/

theorem exports_of_derive (hp : HasChecker g.model p) {symbols : List Signature}
    (h : (g.derive p).1 = .ok symbols) : g.model.Exports := by
  obtain ⟨p', hderive, -, hsound⟩ | ⟨e, p', hderive, -, -⟩ := derive_cases (.inr hp)
  · rw [hderive] at h
    exact ⟨hsound, symbols_map_name g.model ▸ (exported_eq_ok.1 h).2⟩
  · rw [hderive] at h
    exact absurd h (by simp)

theorem derive_of_exports (hp : HasChecker g.model p) (h : g.model.Exports) :
    ∃ p', g.derive p = (.ok g.model.symbols, p') ∧ HasChecker g.model p' := by
  obtain ⟨p', hderive, hkept, -⟩ | ⟨e, p', -, -, hnot⟩ := derive_cases (.inr hp)
  · have hok : g.model.exported = .ok g.model.symbols :=
      exported_eq_ok.2 ⟨rfl, symbols_map_name g.model ▸ h.symbols⟩
    exact ⟨p', hok ▸ hderive, hkept⟩
  · exact absurd h.callables (hnot hp)

theorem render_of_exports (hp : HasChecker g.model p) (h : g.model.Exports) :
    (g.render p).1 = g.backends >>= renderFiles g.surface [] := by
  cases hb : g.backends with
  | error e =>
    unfold Generation.render
    rw [state_bind_apply, ofExcept_apply, hb]
    rfl
  | ok backends =>
    obtain ⟨p', hderive, hkept⟩ := derive_of_exports hp h
    obtain ⟨p'', hrender, -, -⟩ := render_of_derive hb hderive hkept
    exact congrArg Prod.fst hrender

/-- A first derivation fails where the check does. -/
theorem derive_start_error (h : ¬ g.model.Passes) (files : Tree) :
    ∃ e, (g.derive (.start files)).1 = .error e := by
  obtain ⟨p', hderive, -, -⟩ := derive_apply (g := g) (p := .start files) (.inl rfl)
  rw [hderive]
  cases hderived : g.model.derived with
  | error e => exact ⟨e, rfl⟩
  | ok symbols => exact absurd (derived_eq_ok hderived).1 h

/-- **Which calls are as good as first ones.** After any calls, a call has the outcome, and leaves the files, that
it has as the first one in the same file tree, if it is a check or if no check has failed so far that had a type
table to go by. After a failed one, symbols are derived just when what the callables use is sound and the symbols
differ, and then files are rendered: nothing looks at the other definitions any more. -/
theorem calls_decide (g : Generation) (files : Tree) (calls : List Generation.Call) (call : Generation.Call) :
    let p := g.after calls files
    (call = .check ∨ ¬ g.Spoiled calls → Alike (g.call call p) (g.call call (.start p.files))) ∧
    (g.Spoiled calls → (∃ e, (g.derive (.start p.files)).1 = .error e) ∧
      ((∃ symbols, (g.derive p).1 = .ok symbols) ↔ g.model.Exports) ∧
      (g.model.Exports → (g.derive p).1 = .ok g.model.symbols ∧
        (g.render p).1 = g.backends >>= renderFiles g.surface [])) := by
  intro p
  refine ⟨?_, ?_⟩
  · rintro (rfl | h)
    · exact Alike.map (x := g.check) (check_alike rfl)
    · exact call_ready (q := .start p.files) (after_ready h) (.inl rfl) rfl call
  · rintro ⟨hfails, hn, hl⟩
    have hkept : HasChecker g.model p := ((after_checker g calls files).1 hl).1 hn
    have hderives : g.model.Exports → (g.derive p).1 = .ok g.model.symbols := by
      intro h
      obtain ⟨p', hderive, -⟩ := derive_of_exports hkept h
      exact congrArg Prod.fst hderive
    refine ⟨derive_start_error hfails p.files, ⟨?_, fun h => ⟨_, hderives h⟩⟩, fun h => ?_⟩
    · exact fun ⟨_, h⟩ => exports_of_derive hkept h
    · exact ⟨hderives h, render_of_exports hkept h⟩

/-- A model with a record that contains itself, which no callable uses. -/
def loopModel : Model where
  ns := "n"
  records := [⟨"Loop", [⟨"self_ref", .named "Loop"⟩]⟩]
  enums := []
  errors := []
  objects := []
  functions := []

/-- The first derivation rejects the model, and the second one derives its symbols. -/
theorem calls_decide_loop :
    let g : Generation := ⟨loopModel, .default, .full⟩
    g.Spoiled [.derive] ∧
    (g.derive (.start .empty)).1 = .error (.recursive ["Loop", "Loop"]) ∧
    (g.derive (g.after [.derive] .empty)).1 = .ok loopModel.symbols := by
  intro g
  have hchecked : loopModel.checked = .error (.recursive ["Loop", "Loop"]) := by decide +kernel
  have hspoiled : g.Spoiled [.derive] := by
    refine ⟨fun ⟨c, hc⟩ => absurd (hchecked.symm.trans hc) (by simp), by decide, ?_⟩
    exact ⟨.derive, List.mem_singleton_self _, trivial⟩
  have hexports : loopModel.Exports := ⟨fun _ hf => absurd hf List.not_mem_nil, by decide⟩
  obtain ⟨-, hlater⟩ := calls_decide g .empty [.derive] .derive
  obtain ⟨p', hderive, -, -⟩ := derive_apply (g := g) (p := .start .empty) (.inl rfl)
  refine ⟨hspoiled, ?_, ((hlater hspoiled).2.2 hexports).1⟩
  rw [hderive]
  exact bind_eq_error.2 (.inl hchecked)

end Bindgen
