import Bindgen.Proofs.Generation.Calls
import Bindgen.Proofs.Generation.Independence

/-!
# What writing leaves behind

The files of a generation are put into a directory one after another. Each one is put at its own place, so what
becomes of one does not depend on the others. A file that is there and is read as the text stays as it is, and is
not among those that are returned; any other one is made to hold the text (`Fate`). If one of them is blocked,
the files before it are there already (`Stops`).

A file that stays need not hold the text itself: what is compared is the text of the file as it is read, and that
has line feeds for all line ends. A text with a carriage return is never read as itself, so its file is written
every time.

Results:
* `writeFile_cases`: what comes of one file.
* `putEach_cases`: what comes of all of them.
* `write_leaves`: what a call that returns leaves behind, and what the same call after it does.
-/

namespace Bindgen

open Interface Resolve Config Emit Files

variable {t t' t'' : Tree} {path dir : Path} {text : String} {outputs : Outputs} {g : Generation}

/-! ## One file -/

/-- What becomes of a file that is put somewhere. The truth value says whether it is written. -/
inductive Fate (t t' : Tree) (path : Path) (text : String) : Bool → Prop where
  /-- The file that is there is read as the text, and stays. -/
  | kept {old : String} (hread : Text.asRead old = text) (hbefore : t.fileAt? path.location = some (.file old))
      (hafter : t'.entry? path = some (.file old)) : Fate t t' path text false
  /-- There was no such file where the path led to, and now there is the text. -/
  | written (hbefore : t.readText? path ≠ some text) (hafter : t'.entry? path = some (.file text))
      (haccepts : t'.Accepts path.location) : Fate t t' path text true

/-- What becomes of a file goes for a tree before in which it is the same, and no path leads to more. -/
theorem Fate.before {w : Bool} {changed : Location → Prop} (h : Fate t' t'' path text w)
    (hg : Tree.Grew changed t t') (hp : ¬ changed path.location) : Fate t t'' path text w := by
  cases h with
  | kept hread hbefore hafter => exact .kept hread ((hg.files _ hp).symm.trans hbefore) hafter
  | written hbefore hafter haccepts =>
    refine .written (fun hread => hbefore ?_) hafter haccepts
    obtain ⟨old, he, hold⟩ := Tree.readText?_eq_some.1 hread
    exact Tree.readText?_eq_some.2 ⟨old, hg.entry? hp he, hold⟩

/-- What has become of a file stays so where it is not changed any more. -/
theorem Fate.after {w : Bool} {changed : Location → Prop} (h : Fate t t' path text w)
    (hg : Tree.Grew changed t' t'') (hp : ¬ changed path.location) : Fate t t'' path text w := by
  cases h with
  | kept hread hbefore hafter => exact .kept hread hbefore (hg.entry? hp hafter)
  | written hbefore hafter haccepts => exact .written hbefore (hg.entry? hp hafter) (hg.accepts haccepts)

/-- The file that is there in the end is read as the text is read: it holds the text, or was there before. -/
theorem Fate.held {w : Bool} (h : Fate t t' path text w) : ∃ held, t'.entry? path = some (.file held) ∧
    Text.asRead held = Text.asRead text ∧ (held = text ∨ w = false ∧ t.fileAt? path.location = some (.file held)) := by
  cases h with
  | kept hread hbefore hafter => exact ⟨_, hafter, by rw [← hread, Text.asRead_asRead], .inr ⟨rfl, hbefore⟩⟩
  | written _ hafter _ => exact ⟨text, hafter, rfl, .inl rfl⟩

theorem Fate.unread (h : Fate t t' path text true) : t.readText? path ≠ some text := by
  cases h with
  | written hbefore _ _ => exact hbefore

/-- Where a file that is there can be reached, the text is there in the end unless another one was read as it. -/
theorem Fate.holds_iff {w : Bool} (h : Fate t t' path text w)
    (hreached : ∀ old, t.fileAt? path.location = some (.file old) → t.entry? path = some (.file old)) :
    t'.entry? path = some (.file text) ↔
      ∀ old, t.entry? path = some (.file old) → Text.asRead old = text → old = text := by
  cases h with
  | kept hread hbefore hafter =>
    rename_i old
    have hentry := hreached old hbefore
    constructor
    · intro hexact old' hold' _
      obtain rfl := Entry.file.inj (Option.some.inj (hentry.symm.trans hold'))
      exact Entry.file.inj (Option.some.inj (hafter.symm.trans hexact))
    · intro hplain
      rw [hafter, hplain old hentry hread]
  | written hbefore hafter _ =>
    refine ⟨fun _ old hold hread => ?_, fun _ => hafter⟩
    exact absurd (Tree.readText?_eq_some.2 ⟨old, hold, hread⟩) hbefore

/-- A text cannot be put at a path. The last tree is what is left where that was tried. -/
inductive Blocked (t : Tree) (path : Path) (text : String) : Tree → Prop where
  /-- The file that is there cannot be read. -/
  | unread {content : Binary} (h : t.entry? path = some (.binary content)) : Blocked t path text t
  /-- The file cannot be stored. -/
  | unstored {t' : Tree} (h : t.store path text = (t', false)) : Blocked t path text t'

/-- No file has changed then. -/
theorem Blocked.grew (h : Blocked t path text t') : Tree.Grew Tree.Nowhere t t' := by
  cases h with
  | unread => exact .refl _ t
  | unstored h => exact Tree.store_failed h

/-- Creating a file makes it hold the text, or it cannot be stored. Nothing else changes but that directories are
made. -/
theorem createFile_cases (path : Path) (text : String) (p : Progress) : ∃ p',
    (createFile path text p = (.ok true, p') ∧ Tree.Grew (· = path.location) p.files p'.files ∧
      p'.files.entry? path = some (.file text) ∧ p'.files.Accepts path.location) ∨
    (createFile path text p = (.error (.blocked path.text), p') ∧ Blocked p.files path text p'.files) := by
  have hmade := p.files.makeDirectories_grew path.parent
  have hstore := p.files.store_eq path text
  unfold createFile
  simp only [state_bind_apply, changeFiles_apply]
  cases hdone : (p.files.makeDirectories path.parent).2 with
  | false =>
    rw [hdone, if_neg Bool.false_ne_true] at hstore
    exact ⟨_, .inr ⟨rfl, .unstored hstore⟩⟩
  | true =>
    rw [hdone, if_pos rfl] at hstore
    rcases (p.files.makeDirectories path.parent).1.writeText_cases path text with ⟨hwrite, hl, hd, ha⟩ | hwrite
    · obtain ⟨hput, hentry⟩ := Tree.writeText_put text hl hd
      simp only [if_true, hwrite]
      exact ⟨_, .inl ⟨rfl, hmade.anywhere.trans hput, hentry, hput.accepts ha⟩⟩
    · simp only [if_true, hwrite, Bool.false_eq_true, if_false]
      exact ⟨_, .inr ⟨rfl, .unstored (hstore.trans hwrite)⟩⟩

/-- **What comes of one file**: it stays or is written, or it is blocked, and then no file has changed. -/
theorem writeFile_cases (path : Path) (text : String) (p : Progress) : ∃ p',
    (∃ w, Generation.writeFile path text p = (.ok w, p') ∧ Fate p.files p'.files path text w ∧
      Tree.Grew (· = path.location) p.files p'.files) ∨
    (Generation.writeFile path text p = (.error (.blocked path.text), p') ∧
      Blocked p.files path text p'.files) := by
  have hcreate : p.files.readText? path ≠ some text → ∃ p',
      (∃ w, createFile path text p = (.ok w, p') ∧ Fate p.files p'.files path text w ∧
        Tree.Grew (· = path.location) p.files p'.files) ∨
      (createFile path text p = (.error (.blocked path.text), p') ∧ Blocked p.files path text p'.files) := by
    intro hunread
    obtain ⟨p', ⟨hok, hgrew, hentry, haccepts⟩ | hblocked⟩ := createFile_cases path text p
    · exact ⟨p', .inl ⟨true, hok, .written hunread hentry haccepts, hgrew⟩⟩
    · exact ⟨p', .inr hblocked⟩
  rw [writeFile_apply]
  cases hentry : p.files.entry? path with
  | none =>
    refine hcreate fun h => ?_
    obtain ⟨old, he, -⟩ := Tree.readText?_eq_some.1 h
    exact absurd (hentry.symm.trans he) (by simp)
  | some entry =>
    cases entry with
    | directory => exact ⟨p, .inr ⟨rfl, .unstored (Tree.store_directory hentry)⟩⟩
    | binary => exact ⟨p, .inr ⟨rfl, .unread hentry⟩⟩
    | file old =>
      unfold replaceEntry
      by_cases hread : Text.asRead old = text
      · simp only [if_pos hread]
        refine ⟨_, .inl ⟨false, rfl, .kept hread ?_ hentry, .refl _ _⟩⟩
        exact Tree.fileAt?_eq_some.2 ⟨(Tree.entry?_eq_some.1 hentry).2, by simp⟩
      · simp only [if_neg hread]
        refine hcreate fun h => ?_
        obtain ⟨old', he, hold⟩ := Tree.readText?_eq_some.1 h
        obtain rfl := Entry.file.inj (Option.some.inj (hentry.symm.trans he))
        exact hread hold

/-- Once a file is as it should be, putting it again changes nothing. It is written again just if the text has a
carriage return. -/
theorem writeFile_again {w : Bool} {p : Progress} (h : Fate t p.files path text w) : ∃ p',
    Generation.writeFile path text p = (.ok (decide ('\r' ∈ text.toList)), p') ∧ p'.files = p.files := by
  rw [writeFile_apply]
  cases h with
  | kept hread _ hafter =>
    rename_i old
    have hplain : '\r' ∉ text.toList := by
      rw [← Text.asRead_eq_self, ← hread, Text.asRead_asRead]
    unfold replaceEntry
    rw [hafter, decide_eq_false hplain]
    simp only [if_pos hread]
    exact ⟨_, rfl, rfl⟩
  | written _ hafter haccepts =>
    unfold replaceEntry
    rw [hafter]
    simp only
    by_cases hplain : '\r' ∈ text.toList
    · have hmade := Tree.makeDirectories_of_locate (Tree.entry?_eq_some.1 hafter).1
      have hwrite := Tree.writeText_same hafter haccepts
      rw [if_neg fun h => Text.asRead_eq_self.1 h hplain, decide_eq_true hplain]
      unfold createFile
      simp only [state_bind_apply, changeFiles_apply, hmade, hwrite, if_true]
      exact ⟨_, rfl, rfl⟩
    · rw [if_pos (Text.asRead_eq_self.2 hplain), decide_eq_false hplain]
      exact ⟨_, rfl, rfl⟩

/-! ## All files -/

/-- Where an output is put in a directory. -/
def placeOf (dir : Path) (output : String × String) : Path := dir.join (Path.ofText output.1)

/-- The locations of some outputs in a directory. -/
def locationsOf (dir : Path) (outputs : Outputs) : List Location := outputs.map fun o => (placeOf dir o).location

/-- Some outputs were put into a directory: each one has become what it should, and nothing else has changed but
that directories were made. -/
structure Puts (dir : Path) (outputs : Outputs) (t t' : Tree) (marks : List (Path × Bool)) : Prop where
  fates : List.Forall₂ (fun o q => q.1 = placeOf dir o ∧ Fate t t' (placeOf dir o) o.2 q.2) outputs marks
  grew : Tree.Grew (· ∈ locationsOf dir outputs) t t'

theorem Puts.nil (dir : Path) (t : Tree) : Puts dir [] t t [] := ⟨.nil, .refl _ t⟩

/-- One output and then others, at other places. -/
theorem Puts.cons {o : String × String} {w : Bool} {marks : List (Path × Bool)}
    (h : Fate t t' (placeOf dir o) o.2 w) (hg : Tree.Grew (· = (placeOf dir o).location) t t')
    (hrest : Puts dir outputs t' t'' marks) (hnew : (placeOf dir o).location ∉ locationsOf dir outputs) :
    Puts dir (o :: outputs) t t'' ((placeOf dir o, w) :: marks) := by
  refine ⟨.cons ⟨rfl, h.after hrest.grew hnew⟩ ?_, ?_⟩
  · refine (forall₂_with_mem hrest.fates).imp fun o' q hq => ⟨hq.2.1, hq.2.2.before hg fun he => hnew ?_⟩
    exact he ▸ List.mem_map_of_mem hq.1
  · refine (hg.mono fun l hl => ?_).trans (hrest.grew.mono fun l hl => ?_)
    · exact hl ▸ List.mem_cons_self
    · exact List.mem_cons_of_mem _ hl

/-- Directories that are made afterwards change no file. -/
theorem Puts.later {marks : List (Path × Bool)} (h : Puts dir outputs t t' marks)
    (hg : Tree.Grew Tree.Nowhere t' t'') : Puts dir outputs t t'' marks :=
  ⟨h.fates.imp fun _ _ hq => ⟨hq.1, hq.2.after hg id⟩, h.grew.trans hg.anywhere⟩

/-- Putting outputs into a directory stops: some were put, and the next one is blocked. -/
def Stops (dir : Path) (done : Outputs) (o : String × String) (t t' : Tree) : Prop :=
  ∃ between marks, Puts dir done t between marks ∧ Blocked between (placeOf dir o) o.2 t'

/-- What was put before stays as it is. -/
theorem Stops.puts {done : Outputs} {o : String × String} (h : Stops dir done o t t') :
    ∃ marks, Puts dir done t t' marks := by
  obtain ⟨_, marks, hputs, hblocked⟩ := h
  exact ⟨marks, hputs.later hblocked.grew⟩

/-- One output is put before the others. -/
theorem Stops.cons {o o' : String × String} {w : Bool} {done : Outputs}
    (h : Fate t t' (placeOf dir o) o.2 w) (hg : Tree.Grew (· = (placeOf dir o).location) t t')
    (hrest : Stops dir done o' t' t'') (hnew : (placeOf dir o).location ∉ locationsOf dir done) :
    Stops dir (o :: done) o' t t'' := by
  obtain ⟨between, marks, hputs, hblocked⟩ := hrest
  exact ⟨between, _, .cons h hg hputs hnew, hblocked⟩

/-- Puts each output at its place, and says whether it was written. -/
def putEach (dir : Path) (outputs : Outputs) : Step (List (Path × Bool)) :=
  outputs.mapM fun o => do return (placeOf dir o, ← Generation.writeFile (placeOf dir o) o.2)

theorem putOutputs_eq (dir : Path) (outputs : Outputs) : putOutputs dir outputs =
    (putEach dir outputs >>= fun marks => pure ((marks.filter (·.2)).map (·.1))) := rfl

theorem putEach_cons_ok {o : String × String} {w : Bool} {p p' : Progress}
    (h : Generation.writeFile (placeOf dir o) o.2 p = (.ok w, p')) : putEach dir (o :: outputs) p =
      (((placeOf dir o, w) :: ·) <$> (putEach dir outputs p').1, (putEach dir outputs p').2) := by
  unfold putEach
  rw [List.mapM_cons, state_bind_apply, state_bind_apply, h]
  exact state_map_apply ((placeOf dir o, w) :: ·) _ p'

theorem putEach_cons_error {o : String × String} {e : Failure} {p p' : Progress}
    (h : Generation.writeFile (placeOf dir o) o.2 p = (.error e, p')) :
    putEach dir (o :: outputs) p = (.error e, p') := by
  unfold putEach
  rw [List.mapM_cons, state_bind_apply, state_bind_apply, h]

/-- **What comes of all files**: each one has become what it should, or one is blocked, and only those before it
have. The induction is on the outputs; that no two have one place carries what has become of one past the
others. -/
theorem putEach_cases (hd : (locationsOf dir outputs).Nodup) (p : Progress) : ∃ p',
    (∃ marks, putEach dir outputs p = (.ok marks, p') ∧ Puts dir outputs p.files p'.files marks) ∨
    ∃ done o rest, outputs = done ++ o :: rest ∧
      putEach dir outputs p = (.error (.blocked (placeOf dir o).text), p') ∧
      Stops dir done o p.files p'.files := by
  induction outputs generalizing p with
  | nil => exact ⟨p, .inl ⟨[], rfl, .nil dir p.files⟩⟩
  | cons o outputs ih =>
    obtain ⟨hnew, hd⟩ := List.nodup_cons.1 hd
    obtain ⟨p₁, ⟨w, hwrite, hfate, hgrew⟩ | ⟨hwrite, hblocked⟩⟩ := writeFile_cases (placeOf dir o) o.2 p
    · rw [putEach_cons_ok hwrite]
      obtain ⟨p₂, ⟨marks, hrest, hputs⟩ | ⟨done, o', rest, rfl, hrest, hstops⟩⟩ := ih hd p₁
      · rw [hrest]
        exact ⟨p₂, .inl ⟨_, rfl, .cons hfate hgrew hputs hnew⟩⟩
      · rw [hrest]
        have hnew : (placeOf dir o).location ∉ locationsOf dir done := fun hmem => hnew <| by
          rw [List.map_append]
          exact List.mem_append_left _ hmem
        exact ⟨p₂, .inr ⟨o :: done, o', rest, rfl, rfl, .cons hfate hgrew hstops hnew⟩⟩
    · rw [putEach_cons_error hwrite]
      exact ⟨p₁, .inr ⟨[], o, outputs, rfl, rfl, p.files, [], .nil dir p.files, hblocked⟩⟩

/-- Once all files are as they should be, putting them again changes nothing. -/
theorem putEach_again {marks : List (Path × Bool)} {p : Progress} (h : List.Forall₂
      (fun o q => q.1 = placeOf dir o ∧ Fate t p.files (placeOf dir o) o.2 q.2) outputs marks) : ∃ p',
    putEach dir outputs p = (.ok (outputs.map fun o => (placeOf dir o, decide ('\r' ∈ o.2.toList))), p') ∧
      p'.files = p.files := by
  induction outputs generalizing marks p with
  | nil => exact ⟨p, rfl, rfl⟩
  | cons o outputs ih =>
    obtain ⟨q, marks, ⟨-, hfate⟩, hrest, rfl⟩ := List.forall₂_cons_left_iff.1 h
    obtain ⟨p₁, hwrite, hfiles⟩ := writeFile_again hfate
    rw [← hfiles] at hrest
    obtain ⟨p₂, hputs, hfiles'⟩ := ih hrest
    rw [putEach_cons_ok hwrite, hputs]
    exact ⟨p₂, rfl, hfiles'.trans hfiles⟩

/-! ## What became of which file -/

namespace Puts

variable {marks : List (Path × Bool)} {o : String × String}

theorem marks_keys (h : Puts dir outputs t t' marks) : marks.map (·.1) = outputs.map (placeOf dir) := by
  obtain ⟨hfates, -⟩ := h
  induction hfates with
  | nil => rfl
  | cons hq _ ih => rw [List.map_cons, List.map_cons, hq.1, ih]

/-- An output is written just if its path is among those that are returned. -/
theorem fate (h : Puts dir outputs t t' marks) (hd : (locationsOf dir outputs).Nodup) (ho : o ∈ outputs) :
    Fate t t' (placeOf dir o) o.2 (decide (placeOf dir o ∈ (marks.filter (·.2)).map (·.1))) := by
  obtain ⟨⟨path, w⟩, hq, rfl, hfate⟩ := exists_right_of_forall₂ h.fates ho
  have hkeys : (marks.map (·.1)).Nodup := by
    rw [h.marks_keys]
    exact List.Nodup.of_map Path.location (by rwa [List.map_map])
  have hmem : placeOf dir o ∈ (marks.filter (·.2)).map (·.1) ↔ w = true := by
    constructor
    · intro hmem
      obtain ⟨⟨path', w'⟩, hq', rfl : path' = placeOf dir o⟩ := List.mem_map.1 hmem
      obtain ⟨hq', hw' : w' = true⟩ := List.mem_filter.1 hq'
      have hsame := (lookup_of_mem hkeys hq).symm.trans (lookup_of_mem hkeys hq')
      exact (Option.some.inj hsame).trans hw'
    · intro hw
      exact List.mem_map.2 ⟨_, List.mem_filter.2 ⟨hq, hw⟩, rfl⟩
  rwa [show decide (placeOf dir o ∈ (marks.filter (·.2)).map (·.1)) = w by
    cases w <;> simp [hmem]]

/-- Where the files that are there can be reached, those are written that are not read as their texts. -/
theorem written_eq (h : Puts dir outputs t t' marks)
    (hreached : ∀ o ∈ outputs, ∀ old, t.fileAt? (placeOf dir o).location = some (.file old) →
      t.entry? (placeOf dir o) = some (.file old)) : (marks.filter (·.2)).map (·.1) =
      (outputs.filter fun o => decide (t.readText? (placeOf dir o) ≠ some o.2)).map (placeOf dir) := by
  obtain ⟨hfates, -⟩ := h
  induction hfates with
  | nil => rfl
  | @cons o q outputs marks hq _ ih =>
    rw [List.forall_mem_cons] at hreached
    have ih := ih hreached.2
    obtain ⟨path, w⟩ := q
    obtain ⟨rfl, hfate⟩ := hq
    cases hfate with
    | kept hread hbefore _ =>
      have hseen : t.readText? (placeOf dir o) = some o.2 :=
        Tree.readText?_eq_some.2 ⟨_, hreached.1 _ hbefore, hread⟩
      rw [List.filter_cons_of_neg (by simp), List.filter_cons_of_neg (by simp [hseen]), ih]
    | written hbefore _ _ =>
      rw [List.filter_cons_of_pos (by simp), List.filter_cons_of_pos (by simp [hbefore]), List.map_cons,
        List.map_cons, ih]

end Puts

/-! ## Calls that write -/

theorem rendered_into (g : Generation) (outDir : Option Path) : (g.into outDir).rendered = g.rendered := by
  have hfile : ∀ b : Backend, b.file (g.into outDir).surface = b.file g.surface := fun b => by
    cases outDir <;> cases b <;> rfl
  unfold Generation.rendered renderFiles
  simp only [into_backends, into_model, hfile]

theorem locations_of_rendered (h : g.rendered = .ok outputs) (dir : Path) : (locationsOf dir outputs).Nodup := by
  obtain ⟨backends, -, h⟩ := bind_eq_ok.1 h
  obtain ⟨symbols, -, h⟩ := bind_eq_ok.1 h
  obtain ⟨each, hone, -⟩ := oneEach_of_renderFiles h
  exact hone.locations dir

/-- **What comes of a call that writes**, from whatever is ready: nothing is rendered, or all of what is rendered
becomes what it should, or only what stands before one that is blocked. -/
theorem write_cases {p : Progress} (hp : Ready g.model p) : ∃ p',
    (∃ e, g.write p = (.error e, p') ∧ g.rendered = .error e ∧ p'.files = p.files) ∨
    ∃ outputs, g.rendered = .ok outputs ∧
      ((∃ marks, g.write p = (.ok ((marks.filter (·.2)).map (·.1)), p') ∧
        Puts g.settings.outDir outputs p.files p'.files marks) ∨
      ∃ done o rest, outputs = done ++ o :: rest ∧
        g.write p = (.error (.blocked (placeOf g.settings.outDir o).text), p') ∧
        Stops g.settings.outDir done o p.files p'.files) := by
  obtain ⟨p₁, hrender, hfiles, -⟩ := render_apply hp
  rw [write_eq, state_bind_apply, hrender]
  cases hrendered : g.rendered with
  | error e => exact ⟨p₁, .inl ⟨e, rfl, rfl, hfiles⟩⟩
  | ok outputs =>
    simp only [putOutputs_eq, state_bind_apply]
    obtain ⟨p₂, ⟨marks, hput, hputs⟩ | ⟨done, o, rest, rfl, hput, hstops⟩⟩ :=
      putEach_cases (locations_of_rendered hrendered g.settings.outDir) p₁
    · rw [hfiles] at hputs
      rw [hput]
      exact ⟨p₂, .inr ⟨outputs, rfl, .inl ⟨marks, rfl, hputs⟩⟩⟩
    · rw [hfiles] at hstops
      rw [hput]
      exact ⟨p₂, .inr ⟨_, rfl, .inr ⟨done, o, rest, rfl, rfl, hstops⟩⟩⟩

/-- A call on a model that passes is made from what is ready, whatever calls were before it. -/
theorem ready_of_accepted (hm : g.model.Accepted) (calls : List Generation.Call) (files : Tree) :
    Ready g.model (g.after calls files) :=
  after_ready fun h => h.1 (sound_iff.1 (accepted_iff.1 hm)).1

/-- Writing once more what was written changes nothing. -/
theorem write_again {p : Progress} {marks : List (Path × Bool)} (hp : Ready g.model p)
    (hr : g.rendered = .ok outputs) (h : Puts g.settings.outDir outputs t p.files marks) : ∃ p',
    g.write p = (.ok ((outputs.filter fun o => decide ('\r' ∈ o.2.toList)).map (placeOf g.settings.outDir)), p') ∧
      p'.files = p.files := by
  obtain ⟨p₁, hrender, hfiles, -⟩ := render_apply hp
  have hfates := h.fates
  rw [← hfiles] at hfates
  obtain ⟨p₂, hput, hfiles'⟩ := putEach_again hfates
  rw [write_eq, state_bind_apply, hrender, hr]
  simp only [putOutputs_eq, state_bind_apply, hput]
  refine ⟨p₂, Prod.ext (congrArg Except.ok ?_) rfl, hfiles'.trans hfiles⟩
  rw [List.filter_map, List.map_map]
  rfl

/-- **What a call that writes leaves behind** if it returns. The outputs are those that the generation renders.
Each one has a file at its place whose text is read as the output is read: the output itself, unless the file is
not among those returned; then it is the one from before. No other file changes. Those returned are outputs that
were not read as their texts before, in order; and all of them are, where the files that are there can be reached.
There each output has its own text if no other text was read as it. The same call again returns the outputs with a
carriage return, and changes nothing. -/
theorem write_leaves (g : Generation) (hm : g.model.Accepted) (files : Tree) (calls : List Generation.Call)
    (outDir : Option Path) {written : List Path} {p' : Progress}
    (h : (g.into outDir).write (g.after calls files) = (.ok written, p')) :
    let dir := (g.into outDir).settings.outDir
    let before := (g.after calls files).files
    ∃ outputs, Generation.fresh Generation.render g = .ok outputs ∧
      (∀ o ∈ outputs, ∃ text, p'.files.entry? (placeOf dir o) = some (.file text) ∧
        Text.asRead text = Text.asRead o.2 ∧
        (text = o.2 ∨ placeOf dir o ∉ written ∧ before.fileAt? (placeOf dir o).location = some (.file text))) ∧
      (∀ l, l ∉ locationsOf dir outputs → p'.files.fileAt? l = before.fileAt? l) ∧
      written.Sublist (outputs.map (placeOf dir)) ∧
      (∀ o ∈ outputs, placeOf dir o ∈ written → before.readText? (placeOf dir o) ≠ some o.2) ∧
      ((∀ o ∈ outputs, ∀ old, before.fileAt? (placeOf dir o).location = some (.file old) →
          before.entry? (placeOf dir o) = some (.file old)) →
        written = (outputs.filter fun o => decide (before.readText? (placeOf dir o) ≠ some o.2)).map (placeOf dir) ∧
        ((∀ o ∈ outputs, p'.files.entry? (placeOf dir o) = some (.file o.2)) ↔ ∀ o ∈ outputs, ∀ old,
          before.entry? (placeOf dir o) = some (.file old) → Text.asRead old = o.2 → old = o.2)) ∧
      ∃ p'', (g.into outDir).write p' =
        (.ok ((outputs.filter fun o => decide ('\r' ∈ o.2.toList)).map (placeOf dir)), p'') ∧
          p''.files = p'.files := by
  intro dir before
  have hready : ∀ calls, Ready (g.into outDir).model (g.after calls files) := fun calls => by
    rw [into_model]
    exact ready_of_accepted hm calls files
  have hafter : g.after (calls ++ [.write outDir]) files = p' := by
    have hlast : g.after (calls ++ [.write outDir]) files = (g.call (.write outDir) (g.after calls files)).2 :=
      List.foldl_append
    rw [hlast, call_progress]
    exact congrArg Prod.snd h
  have hready' := hready (calls ++ [.write outDir])
  rw [hafter] at hready'
  obtain ⟨_, ⟨e, hwrite, -, -⟩ | ⟨outputs, hr, ⟨marks, hwrite, hputs⟩ | ⟨_, _, _, -, hwrite, -⟩⟩⟩ :=
    write_cases (hready calls)
  · exact absurd (congrArg Prod.fst (hwrite.symm.trans h)) (by simp)
  · obtain ⟨hwritten, rfl⟩ := Prod.mk.inj (hwrite.symm.trans h)
    obtain rfl := Except.ok.inj hwritten
    have hd := locations_of_rendered hr dir
    refine ⟨outputs, ?_, fun o ho => ?_, hputs.grew.files, ?_, fun o ho hmem => ?_, fun hreached => ?_,
      write_again hready' hr hputs⟩
    · rw [fresh_render, ← rendered_into g outDir]
      exact hr
    · obtain ⟨held, hafter, hread, hheld⟩ := (hputs.fate hd ho).held
      exact ⟨held, hafter, hread, hheld.imp_right fun hkept => ⟨of_decide_eq_false hkept.1, hkept.2⟩⟩
    · rw [← hputs.marks_keys]
      exact List.filter_sublist.map _
    · have hfate := hputs.fate hd ho
      rw [decide_eq_true hmem] at hfate
      exact hfate.unread
    · exact ⟨hputs.written_eq hreached, forall₂_congr fun o ho => (hputs.fate hd ho).holds_iff (hreached o ho)⟩
  · exact absurd (congrArg Prod.fst (hwrite.symm.trans h)) (by simp)

/-- Settings for one header. -/
def headerSettings : Settings := { Settings.default with backends := .array [.string "c"] }

/-- The header of the shop is put into an empty tree, and putting it there again leaves it as it is. -/
theorem write_leaves_shop :
    let g := Generation.ofModel shopModel headerSettings .full
    g.model.Accepted ∧ ∃ written p' again p'', (g.into none).write (g.after [] .empty) = (.ok written, p') ∧
      (∃ text, p'.files.entry? ⟨"", ["generated", "shop.h"]⟩ = some (.file text)) ∧
      (g.into none).write p' = (.ok again, p'') ∧ p''.files = p'.files := by
  intro g
  have hm : g.model.Accepted := accepted_iff.2 (sound_iff.2 ⟨passes_of_isOk (by decide +kernel), by decide⟩)
  have hreturns : ((g.into none).write (g.after [] .empty)).1.isOk = true := by decide +kernel
  have hpaths : (·.map (·.1)) <$> Generation.fresh Generation.render g = .ok ["shop.h"] := by decide +kernel
  cases hw : (g.into none).write (g.after [] .empty) with
  | mk r p' =>
    cases r with
    | error e => exact absurd hreturns (by simp [hw, Except.isOk, Except.toBool])
    | ok written =>
      obtain ⟨outputs, hr, hheld, -, -, -, -, p'', hagain, hsame⟩ := write_leaves g hm .empty [] none hw
      obtain ⟨outputs', hr', hpaths⟩ := map_eq_ok.1 hpaths
      obtain rfl := Except.ok.inj (hr.symm.trans hr')
      obtain ⟨o, ho, hpath⟩ := List.mem_map.1 (hpaths ▸ List.mem_cons_self : "shop.h" ∈ outputs.map (·.1))
      obtain ⟨held, hentry, -⟩ := hheld o ho
      unfold placeOf at hentry
      rw [hpath] at hentry
      exact ⟨hm, written, p', _, p'', rfl, ⟨held, hentry⟩, hagain, hsame⟩

end Bindgen
