import Bindgen.Interface.Decode
import Bindgen.Proofs.Outcome
import Bindgen.Proofs.Resolve.Defined
import Mathlib.Data.List.TakeWhile

/-!
# The grammar of type expressions

Which texts are types, and which type each of them is. A text is of permitted characters or it is no type, and then
only its `lexemes` count: the longest runs of word characters and the marks, with what separates them dropped. A type
has the lexemes of its own text, which are its tokens (`lexemes_text`), so a text is a type just when it has the
lexemes of one. Types are read with anything behind them; with tokens that have been read there is one way to read
them (`readTy_tokens`, `readTy_sound`), so no two types have the same tokens.

Results:
* `scan_eq`: the tokens of a text are its lexemes, if all its characters are permitted.
* `parse_eq_ok`: a text is a type just when it has the lexemes of that type.
* `parse_blanks`: blanks between lexemes do not matter.
* `parse_decides`: the grammar, with what becomes of all other texts.
-/

namespace Bindgen.Interface

/-! ## Lexemes -/

namespace TypeExpr

/-- Whether a character may stand in a type expression. -/
def isPermitted (c : Char) : Bool :=
  Text.isWordChar c || Text.isBlank c || c == '<' || c == '>' || c == ','

/-- The longest runs of word characters and the marks of a text, in order. -/
def lexemes : List Char → List Token
  | [] => []
  | c :: cs =>
    if Text.isWordChar c then
      .word (String.ofList (c :: cs.takeWhile Text.isWordChar)) :: lexemes (cs.dropWhile Text.isWordChar)
    else (mark? c).toList ++ lexemes cs
termination_by cs => cs.length
decreasing_by
  all_goals simp only [List.length_cons]
  · exact Nat.lt_succ_of_le (List.dropWhile_sublist _).length_le
  · exact Nat.lt_succ_self _

/-- Two texts that do not join to a word where they meet. -/
def Apart (front rest : List Char) : Prop :=
  ∀ c ∈ front.getLast?, ∀ d ∈ rest.head?, Text.isWordChar c = false ∨ Text.isWordChar d = false

/-- The words that are no names. -/
def reserved : List String :=
  Prim.all.map Prim.text ++ ["string", "bytes", "optional", "sequence", "box", "map"]

/-- A run of word characters. -/
structure IsWord (w : String) : Prop where
  nonempty : w ≠ ""
  chars : ∀ c ∈ w.toList, Text.isWordChar c = true

/-- A name that a type can have in a type expression. -/
structure IsName (name : String) : Prop extends IsWord name where
  unreserved : name ∉ reserved

end TypeExpr

/-- All names in a type can be read. -/
def Ty.Plain (t : Ty) : Prop := ∀ name ∈ t.names, TypeExpr.IsName name

namespace TypeExpr

theorem mark?_of_blank {c : Char} (h : Text.isBlank c = true) : mark? c = none := by
  unfold mark?
  split
  · exact absurd h (by decide)
  · exact absurd h (by decide)
  · exact absurd h (by decide)
  · rfl

/-- The codes of the characters that separate tokens. -/
def blankCodes : List Nat :=
  [9, 10, 11, 12, 13, 28, 29, 30, 31, 32, 133, 160, 5760, 8192, 8193, 8194, 8195, 8196, 8197, 8198, 8199, 8200, 8201,
    8202, 8232, 8233, 8239, 8287, 12288]

theorem mem_blankCodes {n : Nat} (h : Text.blank.mem n = true) : n ∈ blankCodes := by
  unfold Text.blank at h
  simp (disch := decide) only [Text.CodeSet.mem_cons_cons, Text.CodeSet.mem_nil, Bool.or_eq_true, Bool.and_eq_true,
    decide_eq_true_eq, Bool.false_eq_true, and_false, or_false] at h
  simp only [blankCodes, List.mem_cons, List.not_mem_nil, or_false]
  omega

/-- What separates tokens is in no word. -/
theorem isWordChar_of_blank {c : Char} (h : Text.isBlank c = true) : Text.isWordChar c = false := by
  have hother : ∀ n ∈ blankCodes, n ≠ '_'.toNat ∧ Text.WordTable.letterOrNumber.mem n = false := by
    decide +kernel
  obtain ⟨hlow, hletter⟩ := hother _ (mem_blankCodes h)
  unfold Text.isWordChar
  rw [hletter, Bool.or_false, beq_eq_false_iff_ne]
  exact fun he => hlow (congrArg Char.toNat he)

theorem isPermitted_eq (c : Char) :
    isPermitted c = (Text.isWordChar c || Text.isBlank c || (mark? c).isSome) := by
  unfold isPermitted mark?
  split
  · rfl
  · rfl
  · rfl
  · rename_i h₁ h₂ h₃
    rw [beq_false_of_ne h₁, beq_false_of_ne h₂, beq_false_of_ne h₃]
    simp

theorem lexemes_cons_other {c : Char} (h : Text.isWordChar c = false) (cs : List Char) :
    lexemes (c :: cs) = (mark? c).toList ++ lexemes cs := by
  rw [lexemes, if_neg (by rw [h]; exact Bool.false_ne_true)]

/-- A run of word characters that ends here. -/
theorem lexemes_word {w rest : List Char} (hne : w ≠ []) (hw : ∀ c ∈ w, Text.isWordChar c = true)
    (hrest : ∀ c ∈ rest.head?, Text.isWordChar c = false) :
    lexemes (w ++ rest) = .word (String.ofList w) :: lexemes rest := by
  obtain ⟨c, w, rfl⟩ := List.exists_cons_of_ne_nil hne
  rw [List.forall_mem_cons] at hw
  have hstop : rest.takeWhile Text.isWordChar = [] ∧ rest.dropWhile Text.isWordChar = rest := by
    cases rest with
    | nil => exact ⟨rfl, rfl⟩
    | cons d rest =>
      have hd := hrest d rfl
      exact ⟨by rw [List.takeWhile_cons, hd]; rfl, by rw [List.dropWhile_cons, hd]; rfl⟩
  rw [List.cons_append, lexemes, if_pos hw.1, List.takeWhile_append_of_pos hw.2, hstop.1, List.append_nil,
    List.dropWhile_append_of_pos hw.2, hstop.2]

/-- A text is empty, or begins with a character that is in no word, or with a word that ends. -/
theorem text_induction {motive : List Char → Prop} (nil : motive [])
    (other : ∀ c cs, Text.isWordChar c = false → motive cs → motive (c :: cs))
    (word : ∀ w rest, w ≠ [] → (∀ c ∈ w, Text.isWordChar c = true) →
      (∀ c ∈ rest.head?, Text.isWordChar c = false) → motive rest → motive (w ++ rest)) (cs : List Char) :
    motive cs := by
  induction cs using lexemes.induct with
  | case1 => exact nil
  | case2 c cs hc ih =>
    have hstop : ∀ d ∈ (cs.dropWhile Text.isWordChar).head?, Text.isWordChar d = false := by
      intro d hd
      have hnot := List.head?_dropWhile_not Text.isWordChar cs
      rwa [Option.mem_def.1 hd] at hnot
    have hw := word (c :: cs.takeWhile Text.isWordChar) _ (List.cons_ne_nil _ _)
      (List.forall_mem_cons.2 ⟨hc, fun d hd => List.mem_takeWhile_imp hd⟩) hstop ih
    rwa [List.cons_append, List.takeWhile_append_dropWhile] at hw
  | case3 c cs hc ih => exact other c cs (by simpa using hc) ih

/-- The words among lexemes are runs of word characters. -/
theorem word_of_mem_lexemes {cs : List Char} {name : String} (h : .word name ∈ lexemes cs) : IsWord name := by
  induction cs using text_induction with
  | nil => exact absurd h (by simp [lexemes])
  | other c cs hc ih =>
    rw [lexemes_cons_other hc, List.mem_append, Option.mem_toList] at h
    refine ih (h.resolve_left fun hm => ?_)
    unfold mark? at hm
    split at hm <;> exact absurd hm (by simp)
  | word w rest hne hw hrest ih =>
    rw [lexemes_word hne hw hrest] at h
    rcases List.mem_cons.1 h with h | h
    · obtain rfl := Token.word.inj h
      exact ⟨fun he => hne (by simpa using congrArg String.toList he), by rwa [String.toList_ofList]⟩
    · exact ih h

/-- Lexemes end where two characters cannot belong to one word. -/
theorem lexemes_append {front rest : List Char} (h : Apart front rest) :
    lexemes (front ++ rest) = lexemes front ++ lexemes rest := by
  induction front using text_induction with
  | nil => rw [lexemes, List.nil_append, List.nil_append]
  | other c cs hc ih =>
    rw [List.cons_append, lexemes_cons_other hc, lexemes_cons_other hc, List.append_assoc, ih]
    intro d hd
    refine h d ?_
    rw [List.getLast?_cons, Option.mem_def.1 hd]
    rfl
  | word w front hne hw hfront ih =>
    have hlater : lexemes (front ++ rest) = lexemes front ++ lexemes rest := by
      refine ih fun c hc => h c ?_
      rw [List.getLast?_append, Option.mem_def.1 hc]
      rfl
    rw [List.append_assoc, lexemes_word hne hw hfront, lexemes_word hne hw, hlater, List.cons_append]
    intro d hd
    cases front with
    | nil =>
      have hlast : w.getLast hne ∈ (w ++ []).getLast? := by rw [List.append_nil]; exact List.getLast_mem_getLast? hne
      exact (h _ hlast d hd).resolve_left fun hnot => absurd (hw _ (List.getLast_mem hne)) (by rw [hnot]; simp)
    | cons e front => exact hfront d hd

/-! ## Scanning -/

/-- A finished word and what follows it are the lexemes of the run and what follows that. -/
theorem flush_eq {word : List Char} (hw : ∀ c ∈ word, Text.isWordChar c = true) (rest : List Char)
    (hrest : ∀ c ∈ rest.head?, Text.isWordChar c = false) :
    scanFrom.flush word (lexemes rest) = lexemes (word.reverse ++ rest) := by
  unfold scanFrom.flush
  cases word with
  | nil => rfl
  | cons c word =>
    rw [lexemes_word (by simp) (fun d hd => hw d (List.mem_reverse.1 hd)) hrest]
    rfl

/-- The rest of a text is scanned up to the first character that is not permitted. -/
theorem scanFrom_eq {word : List Char} (hw : ∀ c ∈ word, Text.isWordChar c = true) (cs : List Char) :
    scanFrom word cs = match cs.find? (!isPermitted ·) with
      | some c => .error (.invalidCharacter c)
      | none => .ok (lexemes (word.reverse ++ cs)) := by
  induction cs generalizing word with
  | nil =>
    have hflush := flush_eq hw [] (by simp)
    rw [lexemes] at hflush
    exact congrArg Except.ok hflush
  | cons c cs ih =>
    unfold scanFrom
    rw [List.find?_cons, isPermitted_eq]
    by_cases hword : Text.isWordChar c = true
    · rw [if_pos hword, ih (List.forall_mem_cons.2 ⟨hword, hw⟩), hword]
      simp
    · rw [if_neg hword]
      have hother : Text.isWordChar c = false := by simpa using hword
      have hflush := flush_eq hw (c :: cs) (by simpa using hother)
      rw [lexemes_cons_other hother] at hflush
      have hlater := ih (List.forall_mem_nil fun c => Text.isWordChar c = true)
      rw [hlater, hother]
      by_cases hblank : Text.isBlank c = true
      · rw [mark?_of_blank hblank] at hflush
        rw [if_pos hblank, hblank]
        cases cs.find? (!isPermitted ·) with
        | some d => rfl
        | none => exact congrArg Except.ok hflush
      · rw [if_neg hblank]
        cases hmark : mark? c with
        | some t =>
          rw [hmark] at hflush
          cases cs.find? (!isPermitted ·) with
          | some d => simp
          | none => simpa using hflush
        | none => simp [hblank]

/-- **The tokens of a text are its lexemes**, unless there is a character that is not permitted. -/
theorem scan_eq (cs : List Char) : scan cs = match cs.find? (!isPermitted ·) with
    | some c => .error (.invalidCharacter c)
    | none => .ok (lexemes cs) :=
  scanFrom_eq (by simp) cs

theorem scan_eq_ok {cs : List Char} {ts : List Token} :
    scan cs = .ok ts ↔ (∀ c ∈ cs, isPermitted c = true) ∧ lexemes cs = ts := by
  rw [scan_eq]
  cases hfind : cs.find? (!isPermitted ·) with
  | some c =>
    have hc := List.find?_some hfind
    have hmem := List.mem_of_find?_eq_some hfind
    exact ⟨fun h => absurd h (by simp), fun h => absurd (h.1 c hmem) (by simpa using hc)⟩
  | none =>
    have hall : ∀ c ∈ cs, isPermitted c = true := by simpa using hfind
    exact ⟨fun h => ⟨hall, Except.ok.inj h⟩, fun h => congrArg Except.ok h.2⟩

/-! ## Reading -/

theorem wrapper?_eq_some {w : String} {wrap : Ty → Ty} (h : wrapper? w = some wrap) :
    (w = "optional" ∧ wrap = .optional) ∨ (w = "sequence" ∧ wrap = .sequence) ∨ (w = "box" ∧ wrap = .box) := by
  unfold wrapper? at h
  split at h
  · exact .inl ⟨‹_›, (Option.some.inj h).symm⟩
  · split at h
    · exact .inr (.inl ⟨‹_›, (Option.some.inj h).symm⟩)
    · split at h
      · exact .inr (.inr ⟨‹_›, (Option.some.inj h).symm⟩)
      · exact absurd h (by simp)

theorem ofText?_eq_some {w : String} {p : Prim} (h : Prim.ofText? w = some p) : p.text = w := by
  simpa using List.find?_some h

/-- The reserved words are those that stand for something else than a definition. -/
theorem mem_reserved {w : String} : w ∈ reserved ↔
    w = "string" ∨ w = "bytes" ∨ (∃ p, Prim.ofText? w = some p) ∨ (∃ wrap, wrapper? w = some wrap) ∨ w = "map" := by
  constructor
  · intro h
    rcases List.mem_append.1 h with h | h
    · obtain ⟨p, -, rfl⟩ := List.mem_map.1 h
      exact .inr (.inr (.inl ⟨p, Prim.ofText?_text p⟩))
    · simp only [List.mem_cons, List.not_mem_nil, or_false] at h
      rcases h with rfl | rfl | rfl | rfl | rfl | rfl
      · exact .inl rfl
      · exact .inr (.inl rfl)
      · exact .inr (.inr (.inr (.inl ⟨_, rfl⟩)))
      · exact .inr (.inr (.inr (.inl ⟨_, rfl⟩)))
      · exact .inr (.inr (.inr (.inl ⟨_, rfl⟩)))
      · exact .inr (.inr (.inr (.inr rfl)))
  · rintro (rfl | rfl | ⟨p, hp⟩ | ⟨wrap, hw⟩ | rfl)
    · decide
    · decide
    · obtain rfl := ofText?_eq_some hp
      exact List.mem_append_left _ (List.mem_map_of_mem (Prim.mem_all p))
    · obtain ⟨rfl, -⟩ | ⟨rfl, -⟩ | ⟨rfl, -⟩ := wrapper?_eq_some hw <;> decide
    · decide

theorem leaf_of_unreserved {w : String} (h : w ∉ reserved) : leaf w = .named w := by
  rw [mem_reserved, not_or, not_or, not_or] at h
  obtain ⟨hstring, hbytes, hprim, -⟩ := h
  unfold leaf
  rw [if_neg hstring, if_neg hbytes]
  cases hp : Prim.ofText? w with
  | none => rfl
  | some p => exact absurd ⟨p, hp⟩ hprim

/-- The words of leaves, which take no arguments. -/
structure IsLeaf (w : String) : Prop where
  notWrapper : wrapper? w = none
  notMap : w ≠ "map"

theorem isLeaf_of_unreserved {w : String} (h : w ∉ reserved) : IsLeaf w := by
  simp only [mem_reserved, not_or] at h
  obtain ⟨-, -, -, hwrapper, hmap⟩ := h
  refine ⟨?_, hmap⟩
  cases hw : wrapper? w with
  | none => rfl
  | some wrap => exact absurd ⟨wrap, hw⟩ hwrapper

/-- The names in a type are words among its tokens. -/
theorem word_mem_tokens {t : Ty} {name : String} (h : name ∈ t.names) : .word name ∈ t.tokens := by
  induction t with
  | named n =>
    obtain rfl := List.mem_singleton.1 h
    exact List.mem_cons_self
  | optional t ih | sequence t ih | box t ih => simp [Ty.tokens, ih h]
  | map k v ihk ihv =>
    rcases List.mem_append.1 h with h | h
    · simp [Ty.tokens, ihk h]
    · simp [Ty.tokens, ihv h]
  | prim | string | bytes => exact absurd h List.not_mem_nil

/-- **The grammar**: a word that is a leaf, a wrapper around a type, or a map. -/
inductive Grammatical : Ty → Prop where
  | leaf {w : String} (hw : IsLeaf w) : Grammatical (leaf w)
  | wrapper {w : String} {wrap : Ty → Ty} {t : Ty} (hw : wrapper? w = some wrap) (ht : Grammatical t) :
      Grammatical (wrap t)
  | map {k v : Ty} (hk : Grammatical k) (hv : Grammatical v) : Grammatical (.map k v)

/-- A leaf is its word, and a name only where the word is not reserved. -/
theorem leaf_cases {w : String} (h : IsLeaf w) :
    (leaf w).text = w ∧ (leaf w).tokens = [.word w] ∧ ∀ name ∈ (leaf w).names, name = w ∧ name ∉ reserved := by
  by_cases hreserved : w ∈ reserved
  · rw [mem_reserved] at hreserved
    rcases hreserved with rfl | rfl | ⟨p, hp⟩ | ⟨wrap, hw⟩ | hmap
    · exact ⟨rfl, rfl, fun _ hn => absurd hn List.not_mem_nil⟩
    · exact ⟨rfl, rfl, fun _ hn => absurd hn List.not_mem_nil⟩
    · obtain rfl := ofText?_eq_some hp
      have hleaf : leaf p.text = .prim p := by cases p <;> decide
      rw [hleaf]
      exact ⟨rfl, rfl, fun _ hn => absurd hn List.not_mem_nil⟩
    · exact absurd (h.notWrapper.symm.trans hw) (by simp)
    · exact absurd hmap h.notMap
  · rw [leaf_of_unreserved hreserved]
    refine ⟨rfl, rfl, fun name hn => ?_⟩
    obtain rfl := List.mem_singleton.1 hn
    exact ⟨rfl, hreserved⟩

/-- A wrapper is written as its word, with what it wraps between marks. -/
theorem wrapper_cases {w : String} {wrap : Ty → Ty} (h : wrapper? w = some wrap) (t : Ty) :
    (wrap t).text.toList = w.toList ++ '<' :: (t.text.toList ++ ['>']) ∧
      (wrap t).tokens = .word w :: .open :: (t.tokens ++ [.close]) ∧ (wrap t).names = t.names := by
  obtain ⟨rfl, rfl⟩ | ⟨rfl, rfl⟩ | ⟨rfl, rfl⟩ := wrapper?_eq_some h <;> simp [Ty.text, Ty.tokens, Ty.names]

theorem grammatical_iff {t : Ty} : Grammatical t ↔ ∀ name ∈ t.names, name ∉ reserved := by
  constructor
  · intro h
    induction h with
    | leaf hw => exact fun name hn => ((leaf_cases hw).2.2 name hn).2
    | wrapper hw _ ih =>
      rw [(wrapper_cases hw _).2.2]
      exact ih
    | map _ _ ihk ihv => exact fun name hn => (List.mem_append.1 hn).elim (ihk name) (ihv name)
  · intro h
    induction t with
    | prim p =>
      have hleaf : leaf p.text = .prim p := by cases p <;> decide
      exact hleaf ▸ .leaf ⟨by cases p <;> decide, by cases p <;> decide⟩
    | string => exact .leaf (w := "string") ⟨by decide, by decide⟩
    | bytes => exact .leaf (w := "bytes") ⟨by decide, by decide⟩
    | named name =>
      have hname := h name List.mem_cons_self
      exact leaf_of_unreserved hname ▸ .leaf (isLeaf_of_unreserved hname)
    | optional t ih => exact .wrapper (w := "optional") rfl (ih h)
    | sequence t ih => exact .wrapper (w := "sequence") rfl (ih h)
    | box t ih => exact .wrapper (w := "box") rfl (ih h)
    | map k v ihk ihv =>
      exact .map (ihk fun name hn => h name (List.mem_append_left _ hn))
        (ihv fun name hn => h name (List.mem_append_right _ hn))

theorem expect_eq_ok {wanted : Token} {ts rest : List Token} : expect wanted ts = .ok rest ↔ ts = wanted :: rest := by
  unfold expect
  cases ts with
  | nil => simp
  | cons t ts =>
    by_cases ht : t = wanted
    · simp [ht]
    · simp [ht]

theorem readTy_leaf {w : String} (h : IsLeaf w) (fuel : Nat) (rest : List Token) :
    readTy (fuel + 1) (.word w :: rest) = .ok (leaf w, rest) := by
  unfold readTy
  simp only [h.notWrapper, if_neg h.notMap]

theorem readTy_wrapper {w : String} {wrap : Ty → Ty} (hw : wrapper? w = some wrap) {fuel : Nat} {t : Ty}
    {ts rest : List Token} (h : readTy fuel ts = .ok (t, .close :: rest)) :
    readTy (fuel + 1) (.word w :: .open :: ts) = .ok (wrap t, rest) := by
  unfold readTy
  simp only [hw, expect_eq_ok.2 rfl, bind_ok, h]
  rfl

theorem readTy_map {fuel : Nat} {k v : Ty} {ts ts' rest : List Token} (hk : readTy fuel ts = .ok (k, .comma :: ts'))
    (hv : readTy fuel ts' = .ok (v, .close :: rest)) :
    readTy (fuel + 1) (.word "map" :: .open :: ts) = .ok (.map k v, rest) := by
  have hnone : wrapper? "map" = none := by decide
  unfold readTy
  simp only [hnone, if_pos, expect_eq_ok.2 rfl, bind_ok, hk, hv]
  rfl

/-- **A type is read off its tokens**, whatever comes behind them. -/
theorem readTy_tokens {t : Ty} (h : Grammatical t) {fuel : Nat} (hf : t.tokens.length ≤ fuel) (rest : List Token) :
    readTy fuel (t.tokens ++ rest) = .ok (t, rest) := by
  induction h generalizing fuel rest with
  | leaf hw =>
    rw [(leaf_cases hw).2.1] at hf ⊢
    obtain ⟨fuel, rfl⟩ := Nat.exists_eq_add_of_le' hf
    exact readTy_leaf hw fuel rest
  | @wrapper w wrap t hw _ ih =>
    rw [(wrapper_cases hw t).2.1] at hf ⊢
    simp only [List.length_cons, List.length_append, List.length_nil] at hf
    obtain ⟨fuel, rfl⟩ := Nat.exists_eq_add_of_le' (show 1 ≤ fuel by omega)
    simp only [List.cons_append, List.append_assoc]
    exact readTy_wrapper hw (ih (by omega) _)
  | @map k v _ _ ihk ihv =>
    simp only [Ty.tokens, List.length_cons, List.length_append, List.length_nil] at hf
    obtain ⟨fuel, rfl⟩ := Nat.exists_eq_add_of_le' (show 1 ≤ fuel by omega)
    simp only [Ty.tokens, List.cons_append, List.append_assoc]
    exact readTy_map (ihk (by omega) _) (ihv (by omega) _)

/-- **What is read are the tokens of the type**, and the type is of the grammar. -/
theorem readTy_sound {fuel : Nat} {ts rest : List Token} {t : Ty} (h : readTy fuel ts = .ok (t, rest)) :
    ts = t.tokens ++ rest ∧ Grammatical t := by
  induction fuel generalizing ts rest t with
  | zero => exact absurd h (by simp [readTy])
  | succ fuel ih =>
    match ts, h with
    | [], h => exact absurd h (by simp [readTy])
    | .open :: _, h | .close :: _, h | .comma :: _, h => exact absurd h (by simp [readTy])
    | .word w :: ts, h =>
      unfold readTy at h
      cases hw : wrapper? w with
      | some wrap =>
        simp only [hw] at h
        obtain ⟨ts₁, hopen, h⟩ := bind_eq_ok.1 h
        obtain ⟨⟨inner, ts₂⟩, hinner, h⟩ := bind_eq_ok.1 h
        obtain ⟨ts₃, hclose, h⟩ := bind_eq_ok.1 h
        obtain ⟨rfl, rfl⟩ := Prod.mk.inj (pure_eq_ok.1 h)
        obtain rfl := expect_eq_ok.1 hopen
        obtain rfl := expect_eq_ok.1 hclose
        obtain ⟨rfl, hgrammar⟩ := ih hinner
        refine ⟨?_, .wrapper hw hgrammar⟩
        rw [(wrapper_cases hw inner).2.1]
        simp
      | none =>
        simp only [hw] at h
        by_cases hmap : w = "map"
        · rw [if_pos hmap] at h
          obtain ⟨ts₁, hopen, h⟩ := bind_eq_ok.1 h
          obtain ⟨⟨key, ts₂⟩, hkey, h⟩ := bind_eq_ok.1 h
          obtain ⟨ts₃, hcomma, h⟩ := bind_eq_ok.1 h
          obtain ⟨⟨value, ts₄⟩, hvalue, h⟩ := bind_eq_ok.1 h
          obtain ⟨ts₅, hclose, h⟩ := bind_eq_ok.1 h
          obtain ⟨rfl, rfl⟩ := Prod.mk.inj (pure_eq_ok.1 h)
          obtain rfl := expect_eq_ok.1 hopen
          obtain rfl := expect_eq_ok.1 hcomma
          obtain rfl := expect_eq_ok.1 hclose
          obtain ⟨rfl, hk⟩ := ih hkey
          obtain ⟨rfl, hv⟩ := ih hvalue
          refine ⟨?_, .map hk hv⟩
          rw [hmap]
          simp [Ty.tokens]
        · rw [if_neg hmap] at h
          obtain ⟨rfl, rfl⟩ := Prod.mk.inj (Except.ok.inj h)
          have hleaf : IsLeaf w := ⟨hw, hmap⟩
          exact ⟨by rw [(leaf_cases hleaf).2.1]; rfl, .leaf hleaf⟩

theorem ofTokens_eq_ok {ts : List Token} {t : Ty} : ofTokens ts = .ok t ↔ ts = t.tokens ∧ Grammatical t := by
  unfold ofTokens
  constructor
  · intro h
    cases ts with
    | nil => exact absurd h (by simp [throw, throwThe, MonadExceptOf.throw, bind, Except.bind])
    | cons first ts =>
      obtain ⟨⟨t', rest⟩, hread, h⟩ := bind_eq_ok.1 h
      cases rest with
      | nil =>
        obtain rfl := pure_eq_ok.1 h
        obtain ⟨htokens, hgrammar⟩ := readTy_sound hread
        exact ⟨htokens.trans (List.append_nil _), hgrammar⟩
      | cons found rest => exact absurd h (by simp [throw, throwThe, MonadExceptOf.throw])
  · rintro ⟨rfl, hgrammar⟩
    have hread := readTy_tokens hgrammar (Nat.le_succ _) []
    rw [List.append_nil] at hread
    have hne : t.tokens.isEmpty = false := by
      cases t <;> rfl
    simp only [hne, hread]
    rfl

/-! ## Texts of types -/

theorem isWord_of_reserved : ∀ w ∈ reserved, IsWord w := by
  have h : ∀ w ∈ reserved, w ≠ "" ∧ w.toList.all Text.isWordChar = true := by decide +kernel
  exact fun w hw => ⟨(h w hw).1, List.all_eq_true.1 (h w hw).2⟩

/-- The word of a leaf can be scanned. -/
theorem isWord_of_leaf {w : String} (h : (leaf w).Plain) : IsWord w := by
  by_cases hreserved : w ∈ reserved
  · exact isWord_of_reserved w hreserved
  · rw [leaf_of_unreserved hreserved] at h
    exact (h w List.mem_cons_self).toIsWord

theorem isWord_of_wrapper {w : String} {wrap : Ty → Ty} (h : wrapper? w = some wrap) : IsWord w :=
  isWord_of_reserved w (mem_reserved.2 (.inr (.inr (.inr (.inl ⟨wrap, h⟩)))))

/-- A word before something that is in none. -/
theorem lexemes_cons_word {w : String} (hw : IsWord w) {rest : List Char}
    (hrest : ∀ c ∈ rest.head?, Text.isWordChar c = false) :
    lexemes (w.toList ++ rest) = .word w :: lexemes rest := by
  rw [lexemes_word (fun he => hw.nonempty (String.toList_eq_nil_iff.1 he)) hw.chars hrest, String.ofList_toList]

theorem lexemes_open (cs : List Char) : lexemes ('<' :: cs) = .open :: lexemes cs :=
  lexemes_cons_other (by decide) cs

theorem lexemes_close (cs : List Char) : lexemes ('>' :: cs) = .close :: lexemes cs :=
  lexemes_cons_other (by decide) cs

theorem lexemes_comma (cs : List Char) : lexemes (',' :: ' ' :: cs) = .comma :: lexemes cs := by
  rw [lexemes_cons_other (by decide), lexemes_cons_other (by decide)]
  rfl

/-- **A type has the lexemes of its own text**, whatever comes behind it that is in no word. -/
theorem lexemes_text {t : Ty} (ht : Grammatical t) (h : t.Plain) (rest : List Char)
    (hrest : ∀ c ∈ rest.head?, Text.isWordChar c = false) :
    lexemes (t.text.toList ++ rest) = t.tokens ++ lexemes rest := by
  induction ht generalizing rest with
  | leaf hw =>
    rw [(leaf_cases hw).1, (leaf_cases hw).2.1, lexemes_cons_word (isWord_of_leaf h) hrest]
    rfl
  | @wrapper w wrap t hw _ ih =>
    obtain ⟨htext, htokens, hnames⟩ := wrapper_cases hw t
    have hplain : t.Plain := fun name hn => h name (hnames ▸ hn)
    rw [htext, htokens, List.append_assoc, lexemes_cons_word (isWord_of_wrapper hw) (by simp; decide),
      List.cons_append, lexemes_open, List.append_assoc, ih hplain _ (by simp; decide), List.singleton_append,
      lexemes_close]
    simp
  | @map k v _ _ ihk ihv =>
    have hk : k.Plain := fun name hn => h name (List.mem_append_left _ hn)
    have hv : v.Plain := fun name hn => h name (List.mem_append_right _ hn)
    have htext : (Ty.map k v).text.toList ++ rest =
        "map".toList ++ '<' :: (k.text.toList ++ ',' :: ' ' :: (v.text.toList ++ '>' :: rest)) := by
      simp [Ty.text]
    rw [htext, lexemes_cons_word (isWord_of_reserved "map" (by decide)) (by simp; decide), lexemes_open,
      ihk hk _ (by simp; decide), lexemes_comma, ihv hv _ (by simp; decide), lexemes_close]
    simp [Ty.tokens]

theorem isPermitted_of_word {c : Char} (h : Text.isWordChar c = true) : isPermitted c = true := by
  unfold isPermitted
  rw [h]
  rfl

/-- A type is written in characters that are permitted. -/
theorem isPermitted_text {t : Ty} (ht : Grammatical t) (h : t.Plain) : ∀ c ∈ t.text.toList, isPermitted c = true := by
  induction ht with
  | leaf hw =>
    rw [(leaf_cases hw).1]
    exact fun c hc => isPermitted_of_word ((isWord_of_leaf h).chars c hc)
  | @wrapper w wrap t hw _ ih =>
    obtain ⟨htext, -, hnames⟩ := wrapper_cases hw t
    have hinner := ih fun name hn => h name (hnames ▸ hn)
    rw [htext]
    simp only [List.mem_append, List.mem_cons, List.not_mem_nil, or_false]
    rintro c (hc | rfl | hc | rfl)
    · exact isPermitted_of_word ((isWord_of_wrapper hw).chars c hc)
    · decide
    · exact hinner c hc
    · decide
  | @map k v _ _ ihk ihv =>
    have hk := ihk fun name hn => h name (List.mem_append_left _ hn)
    have hv := ihv fun name hn => h name (List.mem_append_right _ hn)
    simp only [Ty.text, String.toList_append, List.mem_append]
    have hopen : "map<".toList.all isPermitted = true := by decide
    have hcomma : ", ".toList.all isPermitted = true := by decide
    have hclose : ">".toList.all isPermitted = true := by decide
    rintro c ((((hc | hc) | hc) | hc) | hc)
    · exact List.all_eq_true.1 hopen c hc
    · exact hk c hc
    · exact List.all_eq_true.1 hcomma c hc
    · exact hv c hc
    · exact List.all_eq_true.1 hclose c hc

/-! ## The grammar -/

/-- **A text is a type just when it has the lexemes of that type.** -/
theorem parse_eq_ok {e : String} {t : Ty} : parse e = .ok t ↔ t.Plain ∧
    (∀ c ∈ e.toList, isPermitted c = true) ∧ lexemes e.toList = lexemes t.text.toList := by
  have htext : Grammatical t → t.Plain → lexemes t.text.toList = t.tokens := by
    intro hgrammar hplain
    have h := lexemes_text hgrammar hplain [] (by simp)
    rwa [List.append_nil, lexemes, List.append_nil] at h
  unfold parse
  rw [bind_eq_ok]
  constructor
  · rintro ⟨ts, hscan, h⟩
    obtain ⟨hpermitted, rfl⟩ := scan_eq_ok.1 hscan
    obtain ⟨htokens, hgrammar⟩ := ofTokens_eq_ok.1 h
    have hplain : t.Plain := by
      intro name hn
      have hword : Token.word name ∈ lexemes e.toList := htokens ▸ word_mem_tokens hn
      exact ⟨word_of_mem_lexemes hword, grammatical_iff.1 hgrammar name hn⟩
    exact ⟨hplain, hpermitted, htokens.trans (htext hgrammar hplain).symm⟩
  · rintro ⟨hplain, hpermitted, hlexemes⟩
    have hgrammar : Grammatical t := grammatical_iff.2 fun name hn => (hplain name hn).unreserved
    refine ⟨_, scan_eq_ok.2 ⟨hpermitted, rfl⟩, ofTokens_eq_ok.2 ⟨?_, hgrammar⟩⟩
    exact hlexemes.trans (htext hgrammar hplain)

/-- The lexemes of blanks, which are none. -/
theorem lexemes_blanks {gap : List Char} (h : ∀ c ∈ gap, Text.isBlank c = true) : lexemes gap = [] := by
  induction gap with
  | nil => rw [lexemes]
  | cons c gap ih =>
    rw [List.forall_mem_cons] at h
    rw [lexemes_cons_other (isWordChar_of_blank h.1), mark?_of_blank h.1, ih h.2]
    rfl

theorem lexemes_gap {front gap rest : List Char} (h : ∀ c ∈ gap, Text.isBlank c = true)
    (hjoin : gap = [] → Apart front rest) :
    lexemes (front ++ (gap ++ rest)) = lexemes front ++ lexemes rest := by
  cases gap with
  | nil => exact lexemes_append (hjoin rfl)
  | cons c gap =>
    have hc := isWordChar_of_blank (h c List.mem_cons_self)
    have hlast : Apart (c :: gap) rest := by
      intro d hd _ _
      exact .inl (isWordChar_of_blank (h d (List.mem_of_getLast? hd)))
    have hfirst : Apart front (c :: gap ++ rest) := by
      intro _ _ d hd
      obtain rfl := Option.some.inj hd
      exact .inr hc
    rw [lexemes_append hfirst, lexemes_append hlast, lexemes_blanks h, List.nil_append]

/-- **Blanks between lexemes do not matter**: any of them can be put for any others, and left away where nothing
joins. -/
theorem parse_blanks {front gap gap' rest : String} (h : ∀ c ∈ gap.toList, Text.isBlank c = true)
    (h' : ∀ c ∈ gap'.toList, Text.isBlank c = true) (hjoin : gap = "" ∨ gap' = "" → Apart front.toList rest.toList) :
    parse (front ++ gap ++ rest) = parse (front ++ gap' ++ rest) := by
  have hscan : ∀ gap : String, (∀ c ∈ gap.toList, Text.isBlank c = true) →
      (gap = "" → Apart front.toList rest.toList) →
      scan (front ++ gap ++ rest).toList = match (front.toList ++ rest.toList).find? (!isPermitted ·) with
        | some c => .error (.invalidCharacter c)
        | none => .ok (lexemes front.toList ++ lexemes rest.toList) := by
    intro gap hgap hjoin
    have hfind : gap.toList.find? (!isPermitted ·) = none := by
      rw [List.find?_eq_none]
      intro c hc
      simp [isPermitted_eq, hgap c hc]
    rw [scan_eq, String.toList_append, String.toList_append, List.append_assoc,
      lexemes_gap hgap fun he => hjoin (String.toList_eq_nil_iff.1 he), List.find?_append, List.find?_append, hfind,
      Option.none_or, ← List.find?_append]
  unfold parse
  rw [hscan gap h fun he => hjoin (.inl he), hscan gap' h' fun he => hjoin (.inr he)]

/-- **The grammar of type expressions.** A text is a type just when it is of permitted characters and has the
lexemes of the type as it is written; every other text is reported as no type expression. So a type is what its text
is, and blanks between lexemes do not matter. -/
theorem parse_decides (e : String) :
    (∀ t, parse e = .ok t ↔ t.Plain ∧ (∀ c ∈ e.toList, isPermitted c = true) ∧
      lexemes e.toList = lexemes t.text.toList) ∧
    ((∀ t : Ty, t.Plain → parse e ≠ .ok t) → ∃ problem, parse e = .error problem ∧
      ∀ context, Model.typeOf (.string e) context = .error (.format (.typeExpr e problem))) ∧
    (∀ t : Ty, t.Plain → parse t.text = .ok t) ∧
    ∀ front gap gap' rest : String, (∀ c ∈ (gap ++ gap').toList, Text.isBlank c = true) →
      (gap = "" ∨ gap' = "" → Apart front.toList rest.toList) →
      parse (front ++ gap ++ rest) = parse (front ++ gap' ++ rest) := by
  refine ⟨fun t => parse_eq_ok, fun hnone => ?_, fun t ht => ?_, fun front gap gap' rest hblank hjoin => ?_⟩
  · cases hparse : parse e with
    | ok t => exact absurd hparse (hnone t (parse_eq_ok.1 hparse).1)
    | error problem =>
      refine ⟨problem, rfl, fun context => ?_⟩
      unfold Model.typeOf
      simp only [hparse]
  · have hgrammar : Grammatical t := grammatical_iff.2 fun name hn => (ht name hn).unreserved
    exact parse_eq_ok.2 ⟨ht, isPermitted_text hgrammar ht, rfl⟩
  · rw [String.toList_append] at hblank
    exact parse_blanks (fun c hc => hblank c (List.mem_append_left _ hc))
      (fun c hc => hblank c (List.mem_append_right _ hc)) hjoin

/-- A map as it is written, the same over two lines, and a map without values. -/
theorem parse_decides_map : let t := Ty.map .string (.sequence (.named "Point"))
    t.Plain ∧ parse t.text = .ok t ∧ parse "map<string,\n\tsequence<Point>>" = .ok t ∧
      ∃ problem, parse "map<string>" = .error problem ∧ ∀ context,
        Model.typeOf (.string "map<string>") context = .error (.format (.typeExpr "map<string>" problem)) := by
  intro t
  have hplain : t.Plain := by
    intro name hn
    obtain rfl := List.mem_singleton.1 hn
    have hchars : "Point".toList.all Text.isWordChar = true := by decide +kernel
    exact ⟨⟨by decide, List.all_eq_true.1 hchars⟩, by decide⟩
  obtain ⟨-, hother, htext, hblanks⟩ := parse_decides "map<string>"
  refine ⟨hplain, htext t hplain, ?_, hother fun t' _ => ?_⟩
  · have hgaps : ("\n\t" ++ " ").toList.all Text.isBlank = true := by decide +kernel
    have hlines := hblanks "map<string," "\n\t" " " "sequence<Point>>" (List.all_eq_true.1 hgaps) (by simp)
    exact hlines.trans (htext t hplain)
  · have herror : parse "map<string>" = .error (.expected .comma) := by decide +kernel
    rw [herror]
    simp

end TypeExpr

end Bindgen.Interface
