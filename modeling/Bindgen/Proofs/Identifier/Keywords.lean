import Bindgen.Proofs.Identifier.Renaming

/-!
# Identifiers that are keywords

Where a name is escaped, no keyword comes out. Where it is turned to another case, none comes out that has a small
letter in front, since upper case has no small letters. Three keywords of Python begin with a capital: they come out
of the Pascal case of the names of the constants (`ConstantName`), and of no others.

Results:
* `isLower_of_mem_upperChar`: there is no small letter in upper case.
* `escapePython_not_mem`, `escapeKotlin_not_mem`, `upperSnake_not_mem`, `pascal_not_mem_kotlin`: what is safe.
* **`pascal_mem_python_iff`**: the names that become a keyword of Python as the name of a class.
-/

namespace Bindgen.Identifier

open Text

/-- The keywords of C. -/
def cKeywords : List String :=
  ["auto", "break", "case", "char", "const", "continue", "default", "do", "double", "else", "enum", "extern", "float",
   "for", "goto", "if", "inline", "int", "long", "register", "restrict", "return", "short", "signed", "sizeof",
   "static", "struct", "switch", "typedef", "union", "unsigned", "void", "volatile", "while", "_Alignas", "_Alignof",
   "_Atomic", "_Bool", "_Complex", "_Generic", "_Imaginary", "_Noreturn", "_Static_assert", "_Thread_local"]

/-! ## Small letters -/

theorem isLower_eq_false_of_isUpper {c : Char} (h : c.isUpper = true) : c.isLower = false := by
  by_contra hlower
  exact absurd (small_facts (isSmallOrDigit_of_isLower (by simpa using hlower))).2.1 (by simp [h])

theorem isLower_eq_false_of_le {c : Char} (h : 128 ≤ c.toNat) : c.isLower = false := by
  by_contra hlower
  exact absurd (toNat_lt_of_isSmallOrDigit (isSmallOrDigit_of_isLower (by simpa using hlower))) (by omega)

/-- **There is no small letter in upper case**, of the 26. -/
theorem isLower_of_mem_upperChar {c d : Char} (h : d ∈ upperChar c) : d.isLower = false := by
  obtain ⟨hsmall, heq⟩ | ⟨e, heq, he⟩ | ⟨e, e', cs, heq, hall⟩ := upperChar_cases c <;> rw [heq] at h
  · have hascii : ∀ n < 128, (Char.ofNat n).toUpper.isLower = false := by decide
    have hc := hascii c.toNat hsmall
    rw [Char.ofNat_toNat] at hc
    rwa [List.mem_singleton.1 h]
  · rw [List.mem_singleton.1 h]
    obtain rfl | rfl | hlarge := he
    exacts [by decide, by decide, isLower_eq_false_of_le hlarge]
  · exact (hall d h).elim isLower_eq_false_of_isUpper isLower_eq_false_of_le

theorem upperChar_ne_nil (c : Char) : upperChar c ≠ [] := by
  obtain ⟨-, heq⟩ | ⟨d, heq, -⟩ | ⟨d, e, cs, heq, -⟩ := upperChar_cases c <;> rw [heq] <;> simp

/-- A character turns to a capital other than two if it is that letter, small or not. -/
theorem upperChar_eq_singleton_iff {c d : Char} (hd : d.toNat < 128) (hI : d ≠ 'I') (hS : d ≠ 'S') :
    upperChar c = [d] ↔ c.toNat < 128 ∧ c.toUpper = d := by
  constructor
  · intro h
    obtain ⟨hsmall, heq⟩ | ⟨e, heq, he⟩ | ⟨e, e', cs, heq, -⟩ := upperChar_cases c <;> rw [heq] at h
    · exact ⟨hsmall, List.singleton_inj.1 h⟩
    · obtain rfl := List.singleton_inj.1 h
      obtain rfl | rfl | hlarge := he
      exacts [absurd rfl hI, absurd rfl hS, absurd hd (by omega)]
    · simp at h
  · rintro ⟨hsmall, rfl⟩
    exact if_pos hsmall

/-- Before small letters stands no more than one character in upper case. -/
theorem upperChar_append_eq_iff {c d : Char} {cs small : List Char} (hsmall : ∀ c ∈ small, c.isLower = true) :
    upperChar c ++ cs = d :: small ↔ upperChar c = [d] ∧ cs = small := by
  constructor
  · intro h
    obtain ⟨e, es, heq⟩ := List.exists_cons_of_ne_nil (upperChar_ne_nil c)
    rw [heq, List.cons_append, List.cons.injEq] at h
    obtain ⟨rfl, rfl⟩ := h
    cases es with
    | nil => exact ⟨heq, rfl⟩
    | cons x es =>
      have hupper : x.isLower = false := isLower_of_mem_upperChar (c := c) (by simp [heq])
      exact absurd (hsmall x (by simp)) (by simp [hupper])
  · rintro ⟨h, rfl⟩
    rw [h]
    rfl

/-! ## Names that are escaped -/

theorem escapePython_not_mem (name : String) : escapePython name ∉ pythonKeywords := by
  have hlined : ∀ k ∈ pythonKeywords, k ++ "_" ∉ pythonKeywords := by decide
  unfold escapePython
  split
  · next hk => exact hlined name hk
  · next hk => exact hk

theorem escapeKotlin_not_mem (name : String) : escapeKotlin name ∉ kotlinKeywords := by
  have hquoted : ∀ k ∈ kotlinKeywords, "`" ++ k ++ "`" ∉ kotlinKeywords := by decide
  unfold escapeKotlin
  split
  · next hk => exact hquoted name hk
  · next hk => exact hk

/-! ## Names in another case -/

/-- Nothing with a small letter in it is the upper case of a name. -/
theorem upperSnake_not_mem {keywords : List String} (h : ∀ k ∈ keywords, k.toList.any (·.isLower) = true)
    (name : String) : upperSnake name ∉ keywords := by
  intro hk
  obtain ⟨c, hc, hlower⟩ := List.any_eq_true.1 (h _ hk)
  rw [upperSnake, String.toList_ofList] at hc
  obtain ⟨d, -, hd⟩ := List.mem_flatMap.1 hc
  exact absurd hlower (by simp [isLower_of_mem_upperChar hd])

theorem camelChars_lines (cs : List Char) : camelChars ('_' :: '_' :: cs) = camelChars ('_' :: cs) :=
  camelChars_capitalize _

theorem camelChars_word {c : Char} (h : c ≠ '_') (cs : List Char) :
    camelChars ('_' :: c :: cs) = upperChar c ++ camelChars cs := by
  rw [camelChars_capitalize, capitalize, camelChars_append (not_mem_upperChar h)]

/-- Behind a low line there is no small letter in camel case. -/
theorem camelChars_head {cs rest : List Char} {c : Char} (h : camelChars ('_' :: cs) = c :: rest) :
    c.isLower = false := by
  induction cs with
  | nil => simp [camelChars, pieces, capitalize] at h
  | cons d cs ih =>
    by_cases hline : d = '_'
    · rw [hline, camelChars_lines] at h
      exact ih h
    · rw [camelChars_word hline] at h
      obtain ⟨e, es, heq⟩ := List.exists_cons_of_ne_nil (upperChar_ne_nil d)
      rw [heq, List.cons_append] at h
      exact isLower_of_mem_upperChar (c := d) (by rw [heq, (List.cons.inj h).1]; exact List.mem_cons_self)

theorem cons_eq_lines_iff {c : Char} {cs : List Char} :
    (∃ b, c :: cs = List.replicate b '_') ↔ c = '_' ∧ ∃ b, cs = List.replicate b '_' := by
  constructor
  · rintro ⟨b, hb⟩
    cases b with
    | zero => simp at hb
    | succ b => exact ⟨(List.cons.inj hb).1, b, (List.cons.inj hb).2⟩
  · rintro ⟨rfl, b, rfl⟩
    exact ⟨b + 1, rfl⟩

/-- Only low lines leave nothing in camel case. -/
theorem camelChars_line_eq_nil_iff {cs : List Char} :
    camelChars ('_' :: cs) = [] ↔ ∃ b, cs = List.replicate b '_' := by
  induction cs with
  | nil => exact ⟨fun _ => ⟨0, rfl⟩, fun _ => rfl⟩
  | cons c cs ih =>
    rw [cons_eq_lines_iff, ← ih]
    by_cases hline : c = '_'
    · simp [hline, camelChars_lines]
    · simp [hline, camelChars_word, upperChar_ne_nil]

/-- Small letters in camel case are there before, with nothing but low lines behind them. -/
theorem camelChars_small_iff {cs small : List Char} (hsmall : ∀ c ∈ small, c.isLower = true) :
    camelChars cs = small ↔ ∃ b, cs = small ++ List.replicate b '_' := by
  induction cs generalizing small with
  | nil =>
    constructor
    · rintro rfl
      exact ⟨0, rfl⟩
    · rintro ⟨b, hb⟩
      rw [(List.append_eq_nil_iff.1 hb.symm).1]
      rfl
  | cons c cs ih =>
    cases small with
    | nil =>
      simp only [List.nil_append]
      rw [cons_eq_lines_iff, ← camelChars_line_eq_nil_iff]
      by_cases hline : c = '_'
      · simp [hline]
      · simp [hline, camelChars_cons]
    | cons d small =>
      obtain ⟨hd, hrest⟩ := List.forall_mem_cons.1 hsmall
      by_cases hline : c = '_'
      · subst hline
        constructor
        · intro h
          exact absurd hd (by simp [camelChars_head h])
        · rintro ⟨b, hb⟩
          rw [← (List.cons.inj hb).1] at hd
          exact absurd hd (by decide)
      · rw [camelChars_cons hline, List.cons.injEq, ih hrest]
        constructor
        · rintro ⟨rfl, b, rfl⟩
          exact ⟨b, rfl⟩
        · rintro ⟨b, hb⟩
          obtain ⟨rfl, rfl⟩ := List.cons.inj hb
          exact ⟨rfl, b, rfl⟩

/-- **A word as the name of a class** comes of that word, capitalised or not, with low lines around. -/
theorem camelChars_capital_iff {cs small : List Char} {d : Char} (hd : d.toNat < 128) (hI : d ≠ 'I') (hS : d ≠ 'S')
    (hline : d ≠ '_') (hsmall : ∀ c ∈ small, c.isLower = true) :
    camelChars ('_' :: cs) = d :: small ↔ ∃ a c b, c.toNat < 128 ∧ c.toUpper = d ∧
      cs = List.replicate a '_' ++ c :: (small ++ List.replicate b '_') := by
  induction cs with
  | nil =>
    refine ⟨fun h => absurd h (by simp [camelChars, pieces, capitalize]), ?_⟩
    rintro ⟨a, c, b, -, -, h⟩
    simp at h
  | cons e cs ih =>
    by_cases he : e = '_'
    · rw [he, camelChars_lines, ih]
      constructor
      · rintro ⟨a, c, b, hc, hupper, rfl⟩
        exact ⟨a + 1, c, b, hc, hupper, rfl⟩
      · rintro ⟨a, c, b, hc, hupper, h⟩
        cases a with
        | zero =>
          obtain ⟨rfl, -⟩ := List.cons.inj h
          exact absurd hupper.symm hline
        | succ a => exact ⟨a, c, b, hc, hupper, (List.cons.inj h).2⟩
    · rw [camelChars_word he, upperChar_append_eq_iff hsmall, upperChar_eq_singleton_iff hd hI hS,
        camelChars_small_iff hsmall]
      constructor
      · rintro ⟨⟨hc, hupper⟩, b, rfl⟩
        exact ⟨0, e, b, hc, hupper, rfl⟩
      · rintro ⟨a, c, b, hc, hupper, h⟩
        cases a with
        | zero =>
          obtain ⟨rfl, rfl⟩ := List.cons.inj h
          exact ⟨⟨hc, hupper⟩, b, rfl⟩
        | succ a => exact absurd (List.cons.inj h).1 he

/-- There is no small letter in front of the name of a class. -/
theorem isLower_pascal {name : String} {c : Char} (h : (pascal name).toList.head? = some c) : c.isLower = false := by
  obtain ⟨rest, hrest⟩ := List.head?_eq_some_iff.1 h
  rw [pascal_eq, String.toList_ofList] at hrest
  exact camelChars_head hrest

theorem pascal_not_mem_kotlin (name : String) : pascal name ∉ kotlinKeywords := by
  have hsmall : ∀ k ∈ kotlinKeywords, k.toList.head?.any (·.isLower) = true := by decide
  intro hk
  obtain ⟨c, hc, hlower⟩ := (Option.any_eq_true _ _).1 (hsmall _ hk)
  exact absurd hlower (by simp [isLower_pascal hc])

/-! ## Names of classes -/

/-- The words for the constants of Python, as names and as they are. -/
def constantWords : List String := ["none", "None", "true", "True", "false", "False"]

/-- **A name of a constant**: the word for it, with low lines around. -/
def ConstantName (name : String) : Prop :=
  ∃ word ∈ constantWords, ∃ a b,
    name.toList = List.replicate a '_' ++ (word.toList ++ List.replicate b '_')

/-- The keywords of Python with a capital in front. -/
def capitalKeywords : List String := ["None", "True", "False"]

theorem pascal_mem_python {name : String} : pascal name ∈ pythonKeywords ↔ pascal name ∈ capitalKeywords := by
  have hsmall : ∀ k ∈ pythonKeywords, k ∈ capitalKeywords ∨ k.toList.head?.any (·.isLower) = true := by decide
  have hsub : capitalKeywords ⊆ pythonKeywords := by decide
  refine ⟨fun h => ?_, fun h => hsub h⟩
  obtain hk | hk := hsmall _ h
  · exact hk
  · obtain ⟨c, hc, hlower⟩ := (Option.any_eq_true _ _).1 hk
    exact absurd hlower (by simp [isLower_pascal hc])

theorem pascal_eq_capital_iff {name k : String} (hk : k ∈ capitalKeywords) : pascal name = k ↔
    ∃ a c b, c.toNat < 128 ∧ c.toUpper = k.toList.headD ' ' ∧
      name.toList = List.replicate a '_' ++ c :: (k.toList.tail ++ List.replicate b '_') := by
  have hshape : ∀ k ∈ capitalKeywords, k.toList = k.toList.headD ' ' :: k.toList.tail ∧
      (k.toList.headD ' ').toNat < 128 ∧ k.toList.headD ' ' ∉ ['I', 'S', '_'] ∧
      k.toList.tail.all (·.isLower) = true := by decide
  obtain ⟨hcons, hascii, hother, hsmall⟩ := hshape k hk
  rw [List.all_eq_true] at hsmall
  simp only [List.mem_cons, List.not_mem_nil, or_false, not_or] at hother
  rw [← camelChars_capital_iff hascii hother.1 hother.2.1 hother.2.2 hsmall, ← hcons, pascal_eq, ← String.toList_inj,
    String.toList_ofList]

/-- **The names of constants** are those that become a keyword of Python as the name of a class. -/
theorem pascal_mem_python_iff {name : String} : pascal name ∈ pythonKeywords ↔ ConstantName name := by
  rw [pascal_mem_python]
  constructor
  · intro hk
    have hword : ∀ k ∈ capitalKeywords, ∀ n < 128, (Char.ofNat n).toUpper = k.toList.headD ' ' →
        String.ofList (Char.ofNat n :: k.toList.tail) ∈ constantWords := by decide +kernel
    obtain ⟨a, c, b, hc, hupper, hname⟩ := (pascal_eq_capital_iff hk).1 rfl
    rw [← Char.ofNat_toNat c] at hupper
    refine ⟨_, hword _ hk c.toNat hc hupper, a, b, ?_⟩
    rw [Char.ofNat_toNat, String.toList_ofList, hname, List.cons_append]
  · rintro ⟨word, hword, a, b, hname⟩
    have hkeyword : ∀ word ∈ constantWords, ∃ k ∈ capitalKeywords,
        word.toList = word.toList.headD ' ' :: k.toList.tail ∧ (word.toList.headD ' ').toNat < 128 ∧
          (word.toList.headD ' ').toUpper = k.toList.headD ' ' := by decide +kernel
    obtain ⟨k, hk, hcons, hascii, hupper⟩ := hkeyword word hword
    rw [hcons, List.cons_append] at hname
    exact (pascal_eq_capital_iff hk).2 ⟨a, _, b, hascii, hupper, hname⟩ ▸ hk

/-! ## Safe renamings -/

theorem Renaming.apply_not_mem_python {r : Renaming} (h : r ∈ [.python, .upper]) (name : String) :
    r.apply name ∉ pythonKeywords := by
  have hlower : ∀ k ∈ pythonKeywords, k.toList.any (·.isLower) = true := by decide
  cases r with
  | python => exact escapePython_not_mem name
  | upper => exact upperSnake_not_mem hlower name
  | verbatim | kotlin | member | pascal => exact absurd h (by decide)

theorem Renaming.apply_not_mem_kotlin {r : Renaming} (h : r ∈ [.kotlin, .member, .pascal, .upper]) (name : String) :
    r.apply name ∉ kotlinKeywords := by
  have hlower : ∀ k ∈ kotlinKeywords, k.toList.any (·.isLower) = true := by decide
  cases r with
  | kotlin => exact escapeKotlin_not_mem name
  | member => exact escapeKotlin_not_mem (camel name)
  | pascal => exact pascal_not_mem_kotlin name
  | upper => exact upperSnake_not_mem hlower name
  | verbatim | python => exact absurd h (by decide)

/-! ## Names with two low lines -/

theorem pieces_joined (a b : List Char) : pieces '_' (a ++ '_' :: b) = pieces '_' a ++ pieces '_' b := by
  induction a with
  | nil => simp [pieces]
  | cons c a ih =>
    by_cases hline : c = '_'
    · rw [List.cons_append, pieces, if_pos hline, ih, pieces, if_pos hline, List.cons_append]
    · rw [List.cons_append, pieces, if_neg hline, ih, pieces, if_neg hline]
      cases hp : pieces '_' a with
      | nil => exact absurd hp (pieces_ne_nil '_' a)
      | cons p ps => rfl

theorem eq_of_pieces {cs p : List Char} (h : pieces '_' cs = [p]) : cs = p := by
  have hjoin := join_pieces '_' cs
  rw [h] at hjoin
  exact hjoin.symm

/-- What is cut at its two low lines has the pieces between which they stand. -/
theorem eq_of_three_pieces {a b c x y z : List Char} (h : pieces '_' (a ++ '_' :: (b ++ '_' :: c)) = [x, y, z]) :
    a = x ∧ b = y ∧ c = z := by
  rw [pieces_joined, pieces_joined] at h
  obtain ⟨p, ps, ha⟩ := List.exists_cons_of_ne_nil (pieces_ne_nil '_' a)
  obtain ⟨q, qs, hb⟩ := List.exists_cons_of_ne_nil (pieces_ne_nil '_' b)
  obtain ⟨r, rs, hc⟩ := List.exists_cons_of_ne_nil (pieces_ne_nil '_' c)
  have hlength := congrArg List.length h
  rw [ha, hb, hc] at h
  simp only [ha, hb, hc, List.length_append, List.length_cons, List.length_nil] at hlength
  obtain rfl : ps = [] := List.eq_nil_of_length_eq_zero (by omega)
  obtain rfl : qs = [] := List.eq_nil_of_length_eq_zero (by omega)
  obtain rfl : rs = [] := List.eq_nil_of_length_eq_zero (by omega)
  simp only [List.cons_append, List.nil_append, List.cons.injEq, and_true] at h
  obtain ⟨rfl, rfl, rfl⟩ := h
  exact ⟨eq_of_pieces ha, eq_of_pieces hb, eq_of_pieces hc⟩

/-- The second and the third part of the keywords of C that have two low lines, the first being empty. -/
def linedKeywords : List (String × String) := [("Static", "assert"), ("Thread", "local")]

/-- A keyword of any of the languages with two low lines is one of two of C. -/
theorem keyword_of_three {x y z : String}
    (h : x ++ "_" ++ y ++ "_" ++ z ∈ pythonKeywords ++ kotlinKeywords ++ cKeywords) :
    x = "" ∧ (y, z) ∈ linedKeywords := by
  have hpieces : ∀ k ∈ pythonKeywords ++ kotlinKeywords ++ cKeywords, (pieces '_' k.toList).length < 3 ∨
      ∃ p ∈ linedKeywords, pieces '_' k.toList = ["".toList, p.1.toList, p.2.toList] := by decide +kernel
  have hchars : (x ++ "_" ++ y ++ "_" ++ z).toList = x.toList ++ '_' :: (y.toList ++ '_' :: z.toList) := by
    simp [String.toList_append]
  have hfew : 3 ≤ (pieces '_' (x ++ "_" ++ y ++ "_" ++ z).toList).length := by
    have hpos (cs : List Char) : 0 < (pieces '_' cs).length := List.length_pos_of_ne_nil (pieces_ne_nil '_' cs)
    have hx := hpos x.toList
    have hy := hpos y.toList
    have hz := hpos z.toList
    rw [hchars, pieces_joined, pieces_joined, List.length_append, List.length_append]
    omega
  obtain hlength | ⟨p, hp, heq⟩ := hpieces _ h
  · omega
  · rw [hchars] at heq
    obtain ⟨hx, hy, hz⟩ := eq_of_three_pieces heq
    rw [String.toList_inj] at hx hy hz
    subst hx hy hz
    exact ⟨rfl, hp⟩

end Bindgen.Identifier
