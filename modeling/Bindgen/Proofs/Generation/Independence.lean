import Bindgen.Proofs.Files.Tree
import Bindgen.Proofs.Generation.Acceptance
import Mathlib.Data.List.Dedup

/-!
# Backends do not influence each other

All backends of a generation work from one surface, which does not know which they are (`file_withBackends`). So
what a backend generates among others is what it generates alone, and rendering puts these files together. None of
them is lost there: the path of a file ends as its backend has it, whatever namespace and package it was made of,
and so files of different backends have different paths, also in the file tree (`location_ne`).

Results:
* `renders_iff`: some backends render together what each of them generates.
* `backends_independent`: what is rendered depends on the set of backends only, one file for each.
-/

namespace Bindgen

open Interface Resolve Config Emit Files

variable {g : Generation} {backends : List Backend} {outputs : Outputs}

/-- The generation with other backends in its settings. -/
def Generation.withBackends (g : Generation) (backends : List Backend) : Generation :=
  { g with settings := { g.settings with backends := .array ((backends.map (·.text)).map .string) } }

/-- Some backends render these files, by a generation of which no step was taken. -/
def Generation.Renders (g : Generation) (backends : List Backend) (outputs : Outputs) : Prop :=
  Generation.fresh Generation.render (g.withBackends backends) = .ok outputs

/-! ## What a backend works from -/

/-- No backend looks at which backends there are. -/
theorem file_withBackends (g : Generation) (backends : List Backend) (b : Backend) :
    b.file (g.withBackends backends).surface = b.file g.surface := by
  cases b <;> rfl

theorem backends_withBackends (g : Generation) (backends : List Backend) :
    (g.withBackends backends).backends = .ok backends := by
  have hnames : (g.withBackends backends).settings.backendNames = .ok (backends.map (·.text)) := backendNames_eq rfl
  have hknown : (backends.map (·.text)).filter (fun name => (Backend.ofText? name).isNone) = [] := by
    simp [ofText?_text]
  have hall : (backends.map (·.text)).filterMap Backend.ofText? = backends := by
    rw [List.filterMap_map]
    exact (List.filterMap_congr fun b _ => ofText?_text b).trans List.filterMap_some
  unfold Generation.backends
  rw [hnames, bind_ok, hknown]
  exact congrArg _ hall

/-- **Some backends render together what each of them generates**, one file after another. -/
theorem renders_iff : g.Renders backends outputs ↔
    g.model.Sound ∧ renderFiles g.surface [] backends = .ok outputs := by
  have hfiles : renderFiles (g.withBackends backends).surface [] backends = renderFiles g.surface [] backends := by
    unfold renderFiles
    simp only [file_withBackends]
  have hmodel : (g.withBackends backends).model = g.model := rfl
  unfold Generation.Renders
  rw [fresh_render]
  unfold Generation.rendered
  rw [backends_withBackends, bind_ok, hmodel, hfiles, bind_eq_ok, sound_iff, ← symbols_map_name]
  constructor
  · rintro ⟨symbols, hderived, h⟩
    obtain ⟨hpasses, -, hsymbols⟩ := derived_eq_ok hderived
    exact ⟨⟨hpasses, hsymbols⟩, h⟩
  · rintro ⟨⟨hpasses, hsymbols⟩, h⟩
    exact ⟨_, derived_of_nodup hpasses hsymbols, h⟩

theorem renders_alone {b : Backend} {file : String × String} :
    g.Renders [b] [file] ↔ g.model.Sound ∧ b.file g.surface = .ok file := by
  rw [renders_iff]
  refine and_congr_right fun _ => ?_
  unfold renderFiles
  rw [List.foldlM_cons, bind_eq_ok]
  constructor
  · rintro ⟨_, hput, h⟩
    obtain ⟨file', hfile, hput⟩ := bind_eq_ok.1 hput
    obtain rfl := Except.ok.inj h
    obtain ⟨rfl, -⟩ := List.cons.inj (Except.ok.inj hput)
    exact hfile
  · intro h
    exact ⟨[file], bind_eq_ok.2 ⟨file, h, rfl⟩, rfl⟩

/-- What is rendered is one file of each backend. -/
theorem Generation.Renders.oneEach (h : g.Renders backends outputs) :
    ∃ each, OneEach g.surface each outputs ∧ ∀ b, b ∈ each ↔ b ∈ backends :=
  oneEach_of_renderFiles (renders_iff.1 h).2

/-! ## Places of files -/

/-- The character that the path of a backend's file ends in. -/
def Emit.Backend.lastChar : Backend → Char
  | c => 'h'
  | python => 'y'
  | kotlin => 't'

theorem location_file {s : Surface} {b : Backend} {path text : String} (h : b.file s = .ok (path, text))
    (dir : Path) : ((dir.join (Path.ofText path)).location.getLast?.bind fun name => name.toList.getLast?) =
      some b.lastChar := by
  obtain ⟨front, rfl⟩ := file_path h
  have hlast : b.suffix.toList.getLast? = some b.lastChar := by cases b <;> rfl
  have hslash : '/' ∉ b.suffix.toList := by cases b <;> decide
  have hdot : b.lastChar ≠ '.' := by cases b <;> decide
  exact location_getLast? hlast hslash hdot ⟨front.toList, String.toList_append⟩ dir

/-- Files of different backends have different places, in whatever directory. -/
theorem location_ne {s : Surface} {b b' : Backend} {file file' : String × String} (h : b.file s = .ok file)
    (h' : b'.file s = .ok file') (hne : b ≠ b') (dir : Path) :
    (dir.join (Path.ofText file.1)).location ≠ (dir.join (Path.ofText file'.1)).location := by
  intro he
  have hlast := location_file h dir
  rw [he, location_file h' dir] at hlast
  cases b <;> cases b' <;> first | exact hne rfl | exact absurd hlast (by decide)

/-- The files of some backends have places of their own in a directory. -/
theorem OneEach.locations {s : Surface} {each : List Backend} {outputs : Outputs} (h : OneEach s each outputs)
    (dir : Path) : (outputs.map fun file => (dir.join (Path.ofText file.1)).location).Nodup := by
  obtain ⟨hnodup, hfiles, -⟩ := h
  induction hfiles with
  | nil => exact List.nodup_nil
  | cons hfile hrest ih =>
    rw [List.nodup_cons] at hnodup
    rw [List.map_cons, List.nodup_cons]
    refine ⟨fun hmem => ?_, ih hnodup.2⟩
    obtain ⟨file', hfile', he⟩ := List.mem_map.1 hmem
    obtain ⟨b', hb', hfile'⟩ := exists_left_of_forall₂ hrest hfile'
    exact location_ne hfile' hfile (fun hb => hnodup.1 (hb ▸ hb')) dir he

/-! ## Independence -/

theorem Generation.Renders.mem_iff (h : g.Renders backends outputs) (file : String × String) :
    file ∈ outputs ↔ ∃ b ∈ backends, g.Renders [b] [file] := by
  obtain ⟨each, hone, hmem⟩ := h.oneEach
  have hsound := (renders_iff.1 h).1
  constructor
  · intro hfile
    obtain ⟨b, hb, heq⟩ := exists_left_of_forall₂ hone.files hfile
    exact ⟨b, (hmem b).1 hb, renders_alone.2 ⟨hsound, heq⟩⟩
  · rintro ⟨b, hb, halone⟩
    obtain ⟨file', hfile', heq⟩ := hone.mem ((hmem b).2 hb)
    obtain rfl := Except.ok.inj (heq.symm.trans (renders_alone.1 halone).2)
    exact hfile'

theorem exists_renders_iff : (∃ outputs, g.Renders backends outputs) ↔
    g.model.Accepted ∧ ∀ b ∈ backends, ∃ file, g.Renders [b] [file] := by
  rw [accepted_iff]
  constructor
  · rintro ⟨outputs, h⟩
    obtain ⟨hsound, hrender⟩ := renders_iff.1 h
    refine ⟨hsound, fun b hb => ?_⟩
    obtain ⟨file, hfile⟩ := file_of_renderFiles hrender b hb
    exact ⟨file, renders_alone.2 ⟨hsound, hfile⟩⟩
  · rintro ⟨hsound, hfiles⟩
    have hgenerates : ∀ b ∈ backends, ∃ file, b.file g.surface = .ok file := fun b hb =>
      (hfiles b hb).imp fun _ halone => (renders_alone.1 halone).2
    obtain ⟨_, outputs, hrender, -⟩ := renderFiles_ok backends hgenerates (.nil _)
    exact ⟨outputs, renders_iff.2 ⟨hsound, hrender⟩⟩

/-- Under settings of the right form every list of backends renders. -/
theorem exists_renders (hm : g.model.Accepted) (hs : g.spelling = .full)
    (ht : (g.withBackends backends).settings.WellTyped) : ∃ outputs, g.Renders backends outputs := by
  refine exists_renders_iff.2 ⟨hm, fun b _ => ?_⟩
  obtain ⟨front, text, hfile⟩ := file_eq_ok (s := (g.withBackends backends).surface) hs ht b
  exact ⟨_, renders_alone.2 ⟨accepted_iff.1 hm, file_withBackends g backends b ▸ hfile⟩⟩

/-- **Backends do not influence each other.** Some backends render just when the model is accepted and each of them
renders alone, which all of them do under settings of the right form. What they render is what each renders alone,
once, however often it is named and in whatever order. So what two lists of backends render has the same file for a
backend in both, and is the same table if the lists have the same members. Files of different backends have
different paths, and different places in every directory. -/
theorem backends_independent (g : Generation) :
    (∀ backends, (∃ outputs, g.Renders backends outputs) ↔
      g.model.Accepted ∧ ∀ b ∈ backends, ∃ file, g.Renders [b] [file]) ∧
    (∀ backends, g.model.Accepted → g.spelling = .full → (g.withBackends backends).settings.WellTyped →
      ∃ outputs, g.Renders backends outputs) ∧
    (∀ backends outputs, g.Renders backends outputs → (outputs.map (·.1)).Nodup ∧
      outputs.length = backends.dedup.length ∧
      ∀ file, file ∈ outputs ↔ ∃ b ∈ backends, g.Renders [b] [file]) ∧
    (∀ backends backends' outputs outputs', g.Renders backends outputs → g.Renders backends' outputs' →
      (∀ b ∈ backends, b ∈ backends' → ∃ file ∈ outputs, file ∈ outputs' ∧ g.Renders [b] [file]) ∧
      ((∀ b, b ∈ backends ↔ b ∈ backends') → ∀ path, outputs.lookup path = outputs'.lookup path)) ∧
    ∀ b b' file file', b ≠ b' → g.Renders [b] [file] → g.Renders [b'] [file'] → file.1 ≠ file'.1 ∧
      ∀ dir : Path, (dir.join (Path.ofText file.1)).location ≠ (dir.join (Path.ofText file'.1)).location := by
  refine ⟨fun _ => exists_renders_iff, fun _ => exists_renders, fun backends outputs h => ?_,
    fun backends backends' outputs outputs' h h' => ⟨fun b hb hb' => ?_, fun hsame => ?_⟩,
    fun b b' file file' hne h h' => ?_⟩
  · obtain ⟨each, hone, hmem⟩ := h.oneEach
    have hperm : each.Perm backends.dedup := (List.perm_ext_iff_of_nodup hone.nodup (List.nodup_dedup _)).2
      fun b => (hmem b).trans List.mem_dedup.symm
    exact ⟨hone.paths, hone.files.length_eq.symm.trans hperm.length_eq, h.mem_iff⟩
  · obtain ⟨file, halone⟩ := (exists_renders_iff.1 ⟨_, h⟩).2 b hb
    exact ⟨file, (h.mem_iff file).2 ⟨b, hb, halone⟩, (h'.mem_iff file).2 ⟨b, hb', halone⟩, halone⟩
  · obtain ⟨_, hone, -⟩ := h.oneEach
    obtain ⟨_, hone', -⟩ := h'.oneEach
    refine lookup_congr hone.paths hone'.paths fun file => ?_
    rw [h.mem_iff, h'.mem_iff]
    exact exists_congr fun b => and_congr_left fun _ => hsame b
  · obtain ⟨-, hfile⟩ := renders_alone.1 h
    obtain ⟨-, hfile'⟩ := renders_alone.1 h'
    obtain ⟨path, text⟩ := file
    obtain ⟨path', text'⟩ := file'
    refine ⟨?_, location_ne hfile hfile' hne⟩
    rintro (rfl : path = path')
    exact hne (backend_of_path hfile hfile')

/-- The shop has two files for two backends, and the same ones whichever of them is named first or twice. -/
theorem backends_independent_shop :
    let g := Generation.ofModel shopModel .default .full
    ∃ outputs outputs', g.Renders [.python, .c, .python] outputs ∧ g.Renders [.c, .python] outputs' ∧
      outputs.length = 2 ∧ ∀ path, outputs.lookup path = outputs'.lookup path := by
  intro g
  have hm : g.model.Accepted := accepted_iff.2 (sound_iff.2 ⟨passes_of_isOk (by decide +kernel), by decide⟩)
  obtain ⟨-, hexists, hfiles, htwo, -⟩ := backends_independent g
  have ht : ∀ backends, (g.withBackends backends).settings.WellTyped := fun backends =>
    ⟨⟨_, rfl⟩, rfl, fun v h => absurd (Except.ok.inj h).symm (Option.some_ne_none v),
      fun v h => absurd (Except.ok.inj h).symm (Option.some_ne_none v)⟩
  obtain ⟨outputs, h⟩ := hexists [.python, .c, .python] hm rfl (ht _)
  obtain ⟨outputs', h'⟩ := hexists [.c, .python] hm rfl (ht _)
  refine ⟨outputs, outputs', h, h', ?_, (htwo _ _ _ _ h h').2 fun b => by cases b <;> decide⟩
  rw [(hfiles _ _ h).2.1]
  decide

end Bindgen
