import Bindgen.CommandLine.Run
import Bindgen.Proofs.Generation.Writing
import Bindgen.Proofs.Interface.Drafts

/-!
# Runs that do not succeed

A run goes through stages: arguments, settings, model, rendering, writing. All but the last one only look at the
file tree, so a run that ends before it leaves the tree as it is. Writing puts one file after another, and does not
take back what was put when a later one is blocked (`Stops`). Such a run has no status: it breaks off.

What code is generated for a model with a name that is no text is left open, and so are the runs that come to it:
those that are not `Legible` (`prepare_eq_none_iff`).

Results:
* `isSome_run`: a run has an outcome just if it is legible.
* `run_cases`: the three ways in which a run can go.
* `failed_run_leaves`: what is left by a run that does not succeed.
-/

namespace Bindgen.CommandLine

open Config Files Interface Emit

/-- Whether a run has succeeded: it has ended with status zero. -/
def Ending.succeeds : Ending → Bool
  | .finished 0 _ => true
  | _ => false

/-- What is reported makes no difference to success. -/
theorem succeeds_atLevel (level : Level) (e : Ending) : (e.atLevel level).succeeds = e.succeeds := by
  cases e with
  | finished status log => cases status <;> rfl
  | stopped code => rfl
  | uncovered => rfl

theorem succeeds_failedEnding (log : List LogLine) (f : Failure) : (failedEnding log f).succeeds = false := by
  cases f <;> rfl

variable {a : Arguments} {args : List String} {files left : Tree} {ending : Ending}

/-! ## Runs on proper names -/

/-- **A legible run**: its model, if it is read at all, has proper texts as its names. -/
def Legible (args : List String) (files : Tree) : Prop :=
  ∀ a, Arguments.parse args = .ok a → prepare a files ≠ .ok none

/-- What is prepared comes to nothing just if settings and model are read, and a name in the model is no text. -/
theorem prepare_eq_none_iff : prepare a files = .ok none ↔
    ∃ settings, a.settings files = .ok settings ∧ ∃ text, modelText a files = .ok text ∧
      ∃ draft, Model.draftOfText text = .ok draft ∧ ∃ j ∈ draft.names, ¬ Draft.IsName j := by
  have hnames : ∀ draft : Draft, draft.model = none ↔ ∃ j ∈ draft.names, ¬ Draft.IsName j := fun draft => by
    rw [← Option.not_isSome_iff_eq_none, draft.isSome_model]
    simp
  simp only [prepare, bind_eq_ok, mapError_eq_ok, pure_eq_ok, Option.map_eq_none_iff, hnames]

theorem isSome_execute : (execute a files).isSome ↔ prepare a files ≠ .ok none := by
  unfold execute
  cases prepare a files with
  | error trouble => cases trouble <;> simp
  | ok g? => simp [Option.isSome_iff_ne_none]

/-- **A run has an outcome just if it is legible.** -/
theorem isSome_run : (run args files).isSome ↔ Legible args files := by
  unfold run Legible
  cases hparsed : Arguments.parse args with
  | error stop => cases stop <;> simp
  | ok a => simp [isSome_execute]

/-! ## How a run goes -/

/-- A run succeeds: all outputs are put into the directory. -/
structure Completed (a : Arguments) (files left : Tree) (ending : Ending) : Prop where
  status : ending.succeeds = true
  puts : ∃ g outputs marks, prepare a files = .ok (some g) ∧ Generation.fresh Generation.render g = .ok outputs ∧
    Puts g.settings.outDir outputs files left marks

/-- A run is interrupted: an output is blocked, after those before it were put. -/
structure Interrupted (a : Arguments) (files left : Tree) (ending : Ending) : Prop where
  breaks : ending = .uncovered
  stops : ∃ g done o rest, prepare a files = .ok (some g) ∧
    Generation.fresh Generation.render g = .ok (done ++ o :: rest) ∧ Stops g.settings.outDir done o files left

theorem execute_prepared {g : Generation} {r : Except Failure (List Path)} {p : Progress}
    (hprepared : prepare a files = .ok (some g)) (hwrite : g.write (.start files) = (r, p)) :
    execute a files = some (closing r p) := by
  have hrun : g.write.run (.start files) = (r, p) := hwrite
  unfold execute
  simp only [hprepared, Option.map_some, hrun]

/-- With the arguments read, a run succeeds, changes nothing, or is interrupted. -/
theorem execute_cases (h : prepare a files ≠ .ok none) : ∃ ending left, execute a files = some (ending, left) ∧
    (Completed a files left ending ∨ ending.succeeds = false ∧ left = files ∨ Interrupted a files left ending) := by
  cases hprepared : prepare a files with
  | error trouble =>
    unfold execute
    rw [hprepared]
    cases trouble with
    | failure f => exact ⟨_, _, rfl, .inr (.inl ⟨succeeds_failedEnding [] f, rfl⟩)⟩
    | unreadable path => exact ⟨_, _, rfl, .inr (.inl ⟨rfl, rfl⟩)⟩
  | ok g? =>
    obtain ⟨g, rfl⟩ := Option.ne_none_iff_exists'.mp fun hnone => h (hprepared.trans (congrArg _ hnone))
    obtain ⟨p, ⟨e, hwrite, -, hsame⟩ | ⟨outputs, hr, hwritten⟩⟩ :=
      write_cases (g := g) (p := .start files) (.inl rfl)
    · rw [execute_prepared hprepared hwrite]
      exact ⟨_, _, rfl, .inr (.inl ⟨succeeds_failedEnding _ e, hsame⟩)⟩
    · rw [← fresh_render] at hr
      obtain ⟨marks, hwrite, hputs⟩ | ⟨done, o, rest, rfl, hwrite, hstops⟩ := hwritten
      · rw [execute_prepared hprepared hwrite]
        exact ⟨_, _, rfl, .inl ⟨rfl, g, outputs, marks, hprepared, hr, hputs⟩⟩
      · rw [execute_prepared hprepared hwrite]
        exact ⟨_, _, rfl, .inr (.inr ⟨rfl, g, done, o, rest, hprepared, hr, hstops⟩)⟩

theorem run_parsed (hparsed : Arguments.parse args = .ok a) (hexecute : execute a files = some (ending, left)) :
    run args files = some (ending.atLevel a.level, left) := by
  unfold run
  simp only [hparsed, hexecute, Option.map_some]

/-- **The three ways in which a run can go**: it succeeds, or it changes nothing, or it is interrupted. -/
theorem run_cases (h : Legible args files) : ∃ ending left, run args files = some (ending, left) ∧
    (ending.succeeds = false ∧ left = files ∨
      ∃ a, Arguments.parse args = .ok a ∧ (Completed a files left ending ∨ Interrupted a files left ending)) := by
  cases hparsed : Arguments.parse args with
  | error stop =>
    unfold run
    rw [hparsed]
    cases stop <;> exact ⟨_, _, rfl, .inl ⟨rfl, rfl⟩⟩
  | ok a =>
    obtain ⟨ending, left, hexecute, hways⟩ := execute_cases (h a hparsed)
    refine ⟨_, _, run_parsed hparsed hexecute, ?_⟩
    have hstatus := succeeds_atLevel a.level ending
    obtain hdone | ⟨hfailed, hsame⟩ | hbroken := hways
    · exact .inr ⟨a, rfl, .inl ⟨hstatus.trans hdone.status, hdone.puts⟩⟩
    · exact .inl ⟨hstatus.trans hfailed, hsame⟩
    · exact .inr ⟨a, rfl, .inr ⟨congrArg (Ending.atLevel a.level) hbroken.breaks, hbroken.stops⟩⟩

/-- A model, and a file where the last output needs a directory. -/
def obstructed : Tree :=
  ⟨[(["model.json"], .file "\x7b\"namespace\": \"n\"\x7d"), (["generated"], .directory),
    (["generated", "ffigen"], .file "")]⟩

end Bindgen.CommandLine
