import Bindgen.Files.Tree
import Bindgen.Proofs.Lists
import Bindgen.Proofs.Text.Utf8
import Mathlib.Data.List.Induction

/-!
# What changes in a file tree

`Tree.Grew` is the frame of every operation on a tree: no directory goes, and files change at some locations only.
A path that leads somewhere goes on to lead there in a tree that has grown (`Grew.locate`). It can only lead to one
place, `Path.location`, which does not depend on the tree; whether it leads there does, for the directories on the
way have to be there.

Results:
* `ofBytes_inj`: files are told apart by their bytes.
* `makeDirectories_grew`, `writeText_cases`: making directories changes no file, writing changes one.
* `store_failed`: a file that cannot be stored changes none.
* `location_getLast?`: a path leads to a name that ends as its text does.
* `asRead_eq_self`: the texts that are read as they stand.
-/

namespace Bindgen.Text

/-! ## Texts as they are read -/

theorem not_mem_toLineFeeds (cs : List Char) : '\r' ∉ toLineFeeds cs := by
  fun_induction toLineFeeds cs with
  | case1 => exact List.not_mem_nil
  | case2 cs ih => simpa using ih
  | case3 c cs _ ih =>
    rw [List.mem_cons, not_or]
    refine ⟨?_, ih⟩
    split
    · decide
    · exact Ne.symm ‹_›

/-- A text is read as it stands just when it has no carriage return. -/
theorem asRead_eq_self {s : String} : asRead s = s ↔ '\r' ∉ s.toList := by
  constructor
  · intro h
    rw [← h]
    unfold asRead
    rw [String.toList_ofList]
    exact not_mem_toLineFeeds _
  · intro h
    unfold asRead
    rw [toLineFeeds_of_not_mem h, String.ofList_toList]

/-- What was read is read as it stands. -/
theorem asRead_asRead (s : String) : asRead (asRead s) = asRead s := by
  rw [asRead_eq_self]
  unfold asRead
  rw [String.toList_ofList]
  exact not_mem_toLineFeeds _

/-! ## Pieces -/

theorem pieces_of_not_mem {sep : Char} {cs : List Char} (h : sep ∉ cs) : pieces sep cs = [cs] := by
  induction cs with
  | nil => rfl
  | cons c cs ih =>
    rw [List.mem_cons, not_or] at h
    rw [pieces, if_neg (Ne.symm h.1), ih h.2]

/-- What has no separator goes to the last piece. -/
theorem pieces_append {sep : Char} (cs : List Char) {ending : List Char} (h : sep ∉ ending) :
    ∃ init last, pieces sep (cs ++ ending) = init ++ [last ++ ending] := by
  induction cs with
  | nil => exact ⟨[], [], pieces_of_not_mem h⟩
  | cons c cs ih =>
    obtain ⟨init, last, hpieces⟩ := ih
    by_cases hc : c = sep
    · refine ⟨[] :: init, last, ?_⟩
      rw [List.cons_append, pieces, if_pos hc, hpieces]
      rfl
    · rw [List.cons_append, pieces, if_neg hc, hpieces]
      cases init with
      | nil => exact ⟨[], c :: last, rfl⟩
      | cons p init => exact ⟨(c :: p) :: init, last, rfl⟩

end Bindgen.Text

namespace Bindgen.Files

/-! ## Files as bytes -/

/-- A file of the form of a text holds the text. -/
theorem ofBytes_encode (s : String) : Entry.ofBytes (Text.Utf8.encode s) = .file s := by
  unfold Entry.ofBytes
  split
  · rename_i s' h
    rw [Text.Utf8.decode_encode] at h
    rw [Option.some.inj h]
  · rename_i h
    exact absurd (h.symm.trans (Text.Utf8.decode_encode s)) (by simp)

/-- Files are the same just if their bytes are. -/
theorem ofBytes_inj {bs bs' : List UInt8} : Entry.ofBytes bs = Entry.ofBytes bs' ↔ bs = bs' := by
  refine ⟨fun h => ?_, congrArg _⟩
  unfold Entry.ofBytes at h
  split at h
  · rename_i s hs
    split at h
    · rename_i s' hs'
      rw [← Text.Utf8.encode_decode hs, ← Text.Utf8.encode_decode hs', Entry.file.inj h]
    · exact absurd h (by simp)
  · split at h
    · exact absurd h (by simp)
    · exact congrArg Binary.bytes (Entry.binary.inj h)

/-! ## Where paths lead -/

/-- Where a path leads to if it leads anywhere: its parts are followed through whatever there may be. -/
def Path.location (p : Path) : Location := p.parts.foldl Tree.step (.ofRoot p.root)

/-- A path whose text ends in a character that can end no step back leads to a name that ends in it. -/
theorem location_getLast? {ending : List Char} {c : Char} (hc : ending.getLast? = some c) (hslash : '/' ∉ ending)
    (hdot : c ≠ '.') {s : String} (hs : ∃ front, s.toList = front ++ ending) (base : Path) :
    ((base.join (Path.ofText s)).location.getLast?.bind fun name => name.toList.getLast?) = some c := by
  obtain ⟨front, hfront⟩ := hs
  obtain ⟨init, last, hpieces⟩ := Text.pieces_append front hslash
  have hlast : (last ++ ending).getLast? = some c := by
    rw [List.getLast?_append, hc]
    rfl
  -- The last part is no empty one and no step, so it is the name at the end.
  have hname : ∀ t : String, t.toList.getLast? ≠ some c → String.ofList (last ++ ending) ≠ t := by
    intro t ht he
    rw [← he, String.toList_ofList] at ht
    exact ht hlast
  have hparts : ∃ parts, (Path.ofText s).parts = parts ++ [String.ofList (last ++ ending)] := by
    unfold Path.ofText Text.split
    simp only [hfront, hpieces, List.map_append, List.filter_append, List.map_cons, List.map_nil]
    refine ⟨_, congrArg _ (List.filter_cons_of_pos ?_)⟩
    rw [Bool.and_eq_true, bne_iff_ne, bne_iff_ne]
    exact ⟨hname "" (by simp), hname "." (by simpa using hdot.symm)⟩
  have hjoin : ∃ root parts, base.join (Path.ofText s) = ⟨root, parts ++ [String.ofList (last ++ ending)]⟩ := by
    obtain ⟨parts, hp⟩ := hparts
    unfold Path.join
    split
    · exact ⟨_, base.parts ++ parts, by rw [hp, List.append_assoc]⟩
    · exact ⟨_, parts, by rw [← hp]⟩
  obtain ⟨root, parts, hp⟩ := hjoin
  unfold Path.location
  rw [hp, List.foldl_append]
  unfold Tree.step
  rw [List.foldl_cons, List.foldl_nil, if_neg (hname ".." (by simpa using hdot.symm)), List.getLast?_concat]
  simpa using hlast

namespace Tree

variable {t t' t'' : Tree} {l l' : Location} {p : Path} {text : String}

/-- The file at a location, whatever it holds. -/
def fileAt? (t : Tree) (l : Location) : Option Entry := (t.at? l).filter (· ≠ .directory)

theorem fileAt?_eq_some {e : Entry} : t.fileAt? l = some e ↔ t.at? l = some e ∧ e ≠ .directory := by
  unfold fileAt?
  rw [Option.filter_eq_some_iff, decide_eq_true_iff]

theorem fileAt?_eq_none (h : ∀ e, t.at? l = some e → e = .directory) : t.fileAt? l = none := by
  rw [Option.eq_none_iff_forall_ne_some]
  intro e he
  obtain ⟨he, hd⟩ := fileAt?_eq_some.1 he
  exact hd (h e he)

theorem follow_eq_some {here : Location} {parts : List String} (h : t.follow here parts = some l) :
    l = parts.foldl step here := by
  induction parts generalizing here with
  | nil => exact (Option.some.inj h).symm
  | cons part parts ih =>
    unfold follow at h
    split at h
    · exact ih h
    · exact absurd h (by simp)

theorem locate_eq_some (h : t.locate p = some l) : l = p.location := by
  unfold locate at h
  split at h
  · exact follow_eq_some h
  · exact absurd h (by simp)

theorem entry?_eq_some {e : Entry} :
    t.entry? p = some e ↔ t.locate p = some p.location ∧ t.at? p.location = some e := by
  unfold entry?
  constructor
  · intro h
    obtain ⟨l, hl, he⟩ := Option.bind_eq_some_iff.1 h
    obtain rfl := locate_eq_some hl
    exact ⟨hl, he⟩
  · rintro ⟨hl, he⟩
    rw [hl]
    exact he

theorem readText?_eq_some {read : String} :
    t.readText? p = some read ↔ ∃ text, t.entry? p = some (.file text) ∧ Text.asRead text = read := by
  unfold readText?
  split
  · rename_i text h
    simp [h]
  · rename_i h
    simp only [reduceCtorEq, false_iff]
    rintro ⟨text, he, -⟩
    exact h text he

/-! ## Setting an entry -/

theorem lookup_putEntry (l l' : Location) (e : Entry) (entries : List (Location × Entry)) :
    (putEntry l e entries).lookup l' = if l' = l then some e else entries.lookup l' := by
  induction entries with
  | nil => exact lookup_cons_eq l' l e []
  | cons q entries ih =>
    obtain ⟨m, f⟩ := q
    unfold putEntry
    by_cases hm : m = l
    · subst hm
      rw [if_pos rfl, lookup_cons_eq, lookup_cons_eq]
      split <;> rfl
    · rw [if_neg hm, lookup_cons_eq, lookup_cons_eq, ih]
      by_cases h : l' = m
      · have hl : l' ≠ l := fun he => hm (h.symm.trans he)
        rw [if_pos h, if_neg hl]
        exact (if_pos h).symm
      · rw [if_neg h]
        simp only [if_neg h]

theorem isGiven_eq_false (h : t.at? l ≠ some .directory) : l.isGiven = false := by
  cases hl : l.isGiven with
  | false => rfl
  | true => exact absurd (if_pos hl) h

theorem at?_put_self {e : Entry} (h : t.at? l ≠ some .directory) : (t.put l e).at? l = some e := by
  unfold at? put
  rw [isGiven_eq_false h, if_neg Bool.false_ne_true, lookup_putEntry, if_pos rfl]

theorem at?_put_other {e : Entry} (h : l' ≠ l) : (t.put l e).at? l' = t.at? l' := by
  unfold at? put
  simp only [lookup_putEntry, if_neg h]

theorem putEntry_same {e : Entry} {entries : List (Location × Entry)} (h : entries.lookup l = some e) :
    putEntry l e entries = entries := by
  induction entries with
  | nil => exact absurd h (by simp)
  | cons q entries ih =>
    obtain ⟨m, f⟩ := q
    unfold putEntry
    rw [lookup_cons_eq] at h
    by_cases hm : m = l
    · rw [if_pos hm.symm] at h
      rw [if_pos hm, Option.some.inj h, hm]
    · rw [if_neg (Ne.symm hm)] at h
      rw [if_neg hm, ih h]

/-- A file that is there already changes nothing. -/
theorem put_same (h : t.at? l = some (.file text)) : t.put l (.file text) = t := by
  unfold at? at h
  split at h
  · exact absurd h (by simp)
  · unfold put
    rw [putEntry_same h]

/-! ## Trees that have grown -/

/-- A tree has grown out of another one: every directory is still there, and the files are the same except at some
locations. -/
structure Grew (changed : Location → Prop) (t t' : Tree) : Prop where
  directories : ∀ l, t.at? l = some .directory → t'.at? l = some .directory
  files : ∀ l, ¬ changed l → t'.fileAt? l = t.fileAt? l

/-- At no location. -/
def Nowhere (_ : Location) : Prop := False

variable {changed changed' : Location → Prop}

theorem Grew.refl (changed : Location → Prop) (t : Tree) : Grew changed t t := ⟨fun _ h => h, fun _ _ => rfl⟩

theorem Grew.trans (h : Grew changed t t') (h' : Grew changed t' t'') : Grew changed t t'' :=
  ⟨fun l hl => h'.directories l (h.directories l hl), fun l hl => (h'.files l hl).trans (h.files l hl)⟩

theorem Grew.mono (h : Grew changed t t') (hc : ∀ l, changed l → changed' l) : Grew changed' t t' :=
  ⟨h.directories, fun l hl => h.files l fun hl' => hl (hc l hl')⟩

theorem Grew.anywhere (h : Grew Nowhere t t') : Grew changed t t' := h.mono fun _ => False.elim

theorem Grew.follow (h : Grew changed t t') {here : Location} {parts : List String}
    (hf : t.follow here parts = some l) : t'.follow here parts = some l := by
  induction parts generalizing here with
  | nil => exact hf
  | cons part parts ih =>
    unfold Tree.follow at hf ⊢
    split at hf
    · rw [if_pos (h.directories _ ‹_›)]
      exact ih hf
    · exact absurd hf (by simp)

/-- A path goes on to lead where it does. -/
theorem Grew.locate (h : Grew changed t t') (hl : t.locate p = some l) : t'.locate p = some l := by
  unfold Tree.locate at hl ⊢
  split at hl
  · rw [if_pos ‹_›]
    exact h.follow hl
  · exact absurd hl (by simp)

/-- A file that a path leads to stays unless it is changed. -/
theorem Grew.entry? (h : Grew changed t t') (hp : ¬ changed p.location) (he : t.entry? p = some (.file text)) :
    t'.entry? p = some (.file text) := by
  obtain ⟨hl, he⟩ := entry?_eq_some.1 he
  have hfile : t.fileAt? p.location = some (.file text) := fileAt?_eq_some.2 ⟨he, by simp⟩
  rw [← h.files _ hp] at hfile
  exact entry?_eq_some.2 ⟨h.locate hl, (fileAt?_eq_some.1 hfile).1⟩

theorem grew_put {e : Entry} (h : t.at? l ≠ some .directory) : Grew (· = l) t (t.put l e) := by
  refine ⟨fun l' hl' => ?_, fun l' hl' => ?_⟩
  · have hne : l' ≠ l := by
      rintro rfl
      exact h hl'
    rwa [at?_put_other hne]
  · unfold fileAt?
    rw [at?_put_other hl']

theorem grew_put_directory (h : t.at? l = none) : Grew Nowhere t (t.put l .directory) := by
  have hput : Grew (· = l) t (t.put l .directory) := grew_put (by simp [h])
  refine ⟨hput.directories, fun l' _ => ?_⟩
  by_cases hl' : l' = l
  · subst hl'
    rw [fileAt?_eq_none fun e he => absurd (h.symm.trans he) (by simp), fileAt?_eq_none fun e he => ?_]
    exact Option.some.inj (he.symm.trans (at?_put_self (by simp [h])))
  · exact hput.files l' hl'

/-! ## Making directories -/

theorem makeFrom_grew (t : Tree) (here : Location) (parts : List String) :
    Grew Nowhere t (t.makeFrom here parts).1 := by
  induction parts generalizing t here with
  | nil => exact .refl _ t
  | cons part parts ih =>
    unfold makeFrom
    simp only
    split
    · exact ih t _
    · exact .refl _ t
    · split
      · exact (grew_put_directory ‹_›).trans (ih _ _)
      · exact .refl _ t

/-- Making directories changes no file. -/
theorem makeDirectories_grew (t : Tree) (p : Path) : Grew Nowhere t (t.makeDirectories p).1 := by
  unfold makeDirectories
  split
  · exact makeFrom_grew t _ _
  · exact .refl _ t

/-- Where a path can be followed, the directories on the way are there. -/
theorem makeFrom_of_follow {here : Location} {parts : List String} {last : String}
    (h : t.follow here (parts ++ [last]) = some l) : t.makeFrom here parts = (t, true) := by
  induction parts generalizing here with
  | nil => rfl
  | cons part parts ih =>
    rw [List.cons_append, follow] at h
    split at h
    · have hnext : t.at? (step here part) = some .directory := by
        cases parts with
        | nil =>
          rw [List.nil_append, follow] at h
          split at h
          · assumption
          · exact absurd h (by simp)
        | cons part' parts =>
          rw [List.cons_append, follow] at h
          split at h
          · assumption
          · exact absurd h (by simp)
      unfold makeFrom
      simp only [hnext]
      exact ih h
    · exact absurd h (by simp)

theorem size_dropLast (sep : String) (parts : List String) :
    (sep.intercalate parts.dropLast).utf8ByteSize ≤ (sep.intercalate parts).utf8ByteSize := by
  induction parts with
  | nil => exact Nat.le_refl _
  | cons a parts ih =>
    cases parts with
    | nil => simp
    | cons b parts =>
      cases parts with
      | nil =>
        simp only [List.dropLast_cons_cons, List.dropLast_singleton, String.intercalate_cons_cons,
          String.utf8ByteSize_append, String.intercalate_singleton]
        omega
      | cons c parts =>
        simp only [List.dropLast_cons_cons, String.intercalate_cons_cons, String.utf8ByteSize_append] at ih ⊢
        omega

theorem isShort_parent (h : p.isShort = true) : p.parent.isShort = true := by
  obtain ⟨root, parts⟩ := p
  have hsize := size_dropLast "/" parts
  have hdot : ".".utf8ByteSize = 1 := by decide
  unfold Path.isShort Path.pathBound Path.text at h ⊢
  unfold Path.parent
  rw [decide_eq_true_eq] at h ⊢
  simp only at h ⊢
  split
  · omega
  · rename_i hsome
    split at h
    · rename_i hempty
      rw [Bool.and_eq_true, List.isEmpty_iff] at hempty
      exact absurd (by simp [hempty.1, hempty.2]) hsome
    · rw [String.utf8ByteSize_append] at h ⊢
      omega

/-- **Where a path leads somewhere, the directories on the way to it are there.** -/
theorem makeDirectories_of_locate (h : t.locate p = some l) : t.makeDirectories p.parent = (t, true) := by
  unfold locate at h
  split at h
  · unfold makeDirectories
    rw [if_pos (isShort_parent ‹_›)]
    rcases List.eq_nil_or_concat p.parts with hparts | ⟨parts, last, hparts⟩
    · unfold Path.parent
      rw [hparts]
      rfl
    · rw [List.concat_eq_append] at hparts
      rw [hparts] at h
      unfold Path.parent
      rw [hparts, List.dropLast_concat]
      exact makeFrom_of_follow h
  · exact absurd h (by simp)

/-! ## Writing -/

/-- A file can be put at a location: its name is one, and there is a directory for it. -/
structure Accepts (t : Tree) (l : Location) : Prop where
  name : Path.isName (l.getLastD "") = true
  directory : t.at? l.dropLast = some .directory

theorem Grew.accepts (h : Grew changed t t') (ha : t.Accepts l) : t'.Accepts l :=
  ⟨ha.name, h.directories _ ha.directory⟩

/-- A file is written just where a path leads to what is no directory and accepts a file. -/
theorem writeText_cases (t : Tree) (p : Path) (text : String) :
    (t.writeText p text = (t.put p.location (.file text), true) ∧ t.locate p = some p.location ∧
      t.at? p.location ≠ some .directory ∧ t.Accepts p.location) ∨
    t.writeText p text = (t, false) := by
  unfold writeText
  cases hl : t.locate p with
  | none => exact .inr rfl
  | some l =>
    obtain rfl := locate_eq_some hl
    simp only
    split
    · exact .inr rfl
    · rename_i hfree
      rw [not_or] at hfree
      split
      · have hname : Path.isName (p.location.getLastD "") = true := by simpa using hfree.2
        exact .inl ⟨rfl, trivial, hfree.1, hname, ‹_›⟩
      · exact .inr rfl

theorem store_eq (t : Tree) (p : Path) (text : String) : t.store p text =
    if (t.makeDirectories p.parent).2 then (t.makeDirectories p.parent).1.writeText p text
    else ((t.makeDirectories p.parent).1, false) := by
  unfold store
  split
  · rename_i h
    rw [h, if_pos rfl]
  · rename_i h
    rw [h, if_neg Bool.false_ne_true]

/-- Where a file cannot be stored, no file has changed. -/
theorem store_failed (h : t.store p text = (t', false)) : Grew Nowhere t t' := by
  have hmade := t.makeDirectories_grew p.parent
  rw [store_eq] at h
  split at h
  · rcases (t.makeDirectories p.parent).1.writeText_cases p text with ⟨hwrite, -⟩ | hwrite
    · exact absurd (congrArg Prod.snd (hwrite.symm.trans h)) (by simp)
    · rwa [congrArg Prod.fst (hwrite.symm.trans h)] at hmade
  · rwa [congrArg Prod.fst h] at hmade

/-- No file can be stored where a path leads to a directory. -/
theorem store_directory (h : t.entry? p = some .directory) : t.store p text = (t, false) := by
  obtain ⟨hl, hd⟩ := entry?_eq_some.1 h
  have hwrite : t.writeText p text = (t, false) := by
    unfold writeText
    simp only [hl]
    rw [if_pos (.inl hd)]
  rw [store_eq, makeDirectories_of_locate hl, if_pos rfl, hwrite]

/-- What is written is there, and nothing else has changed. -/
theorem writeText_put (text : String) (hl : t.locate p = some p.location)
    (hd : t.at? p.location ≠ some .directory) :
    Grew (· = p.location) t (t.put p.location (.file text)) ∧
      entry? (t.put p.location (.file text)) p = some (.file text) :=
  ⟨grew_put hd, entry?_eq_some.2 ⟨(grew_put hd).locate hl, at?_put_self hd⟩⟩

/-- A file that is there already and has its place is written again without a change. -/
theorem writeText_same (he : t.entry? p = some (.file text)) (ha : t.Accepts p.location) :
    t.writeText p text = (t, true) := by
  obtain ⟨hl, he⟩ := entry?_eq_some.1 he
  unfold writeText
  have hfree : ¬ (t.at? p.location = some .directory ∨ (!Path.isName (p.location.getLastD "")) = true) := by
    rw [he, ha.name]
    simp
  simp only [hl]
  rw [if_neg hfree, if_pos ha.directory, put_same he]

end Tree

end Bindgen.Files
