import Bindgen.Identifier.Reserved
import Bindgen.Proofs.Identifier.Case
import Mathlib.Data.List.Basic
import Mathlib.Data.Set.Function

/-!
# Names that clash

Generated code takes its identifiers from interface names in six ways (`Renaming`). All but the first take some
different names to the same identifier. `Renaming.Clash` says which, without a renaming in it: a reserved word and
what it is escaped to, and names that are the same in a case (`SameSqueezed`, `words`).

Names in plain snake case (`SnakeName`) never clash: none of them looks like an escaped word, and from each of the
three cases they can be read back (`snakeChars`, small letters).

Results:
* **`Renaming.apply_eq_iff`**: two names become the same identifier just when they are the same or clash.
* `Renaming.injOn_snake`: snake case is safe.
-/

namespace Bindgen.Identifier

open Text

/-- The ways in which identifiers are made of names. -/
inductive Renaming where
  /-- The name as it is. -/
  | verbatim
  /-- Python names that are no keywords. -/
  | python
  /-- Kotlin names, with keywords in back quotes. -/
  | kotlin
  /-- Kotlin names in camel case. -/
  | member
  /-- Names of classes. -/
  | pascal
  /-- Names of constants. -/
  | upper
  deriving DecidableEq, Repr

/-- The identifier of a name. -/
def Renaming.apply : Renaming → String → String
  | verbatim => id
  | python => escapePython
  | kotlin => escapeKotlin
  | member => escapeKotlin ∘ camel
  | pascal => Identifier.pascal
  | upper => upperSnake

/-- How Python gets around a keyword. -/
def lined (name : String) : String := name ++ "_"

/-- How Kotlin gets around a keyword. -/
def backQuoted (name : String) : String := "`" ++ name ++ "`"

/-- **Names that clash**: the first one is a keyword and the second what it is escaped to, or both are the same in a
case. -/
def Renaming.Clash : Renaming → String → String → Prop
  | verbatim, _, _ => False
  | python, a, b => a ∈ pythonKeywords ∧ b = lined a
  | kotlin, a, b => a ∈ kotlinKeywords ∧ b = backQuoted a
  | member, a, b => SameSqueezed a.toList b.toList ∨
      ∃ k ∈ kotlinKeywords, SameSqueezed a.toList k.toList ∧ SameSqueezed b.toList (backQuoted k).toList
  | pascal, a, b => SameSqueezed ('_' :: a.toList) ('_' :: b.toList)
  | upper, a, b => (words a).map upperChars = (words b).map upperChars

/-! ## Reserved words -/

section Escape

variable {keywords : List String} {mark : String → String}

/-- Escaped words are the same if they are so before, or one of them is what the other is escaped to. -/
theorem escape_eq_iff (hinj : Function.Injective mark) (hfree : ∀ k ∈ keywords, mark k ∉ keywords) {a b : String} :
    (if a ∈ keywords then mark a else a) = (if b ∈ keywords then mark b else b) ↔
      a = b ∨ (a ∈ keywords ∧ b = mark a) ∨ (b ∈ keywords ∧ a = mark b) := by
  have hmark {x y : String} (hx : x ∈ keywords) (hy : y ∈ keywords) : y ≠ mark x := fun h => hfree x hx (h ▸ hy)
  by_cases ha : a ∈ keywords <;> by_cases hb : b ∈ keywords
  · have hab := hmark ha hb
    have hba := hmark hb ha
    simp [ha, hb, hinj.eq_iff, hab, hba]
  · have hne : a ≠ b := fun h => hb (h ▸ ha)
    simp [ha, hb, hne, eq_comm]
  · have hne : a ≠ b := fun h => ha (h ▸ hb)
    simp [ha, hb, hne]
  · simp [ha, hb]

end Escape

theorem lined_injective : Function.Injective lined := fun a b h => by
  have hchars := congrArg String.toList h
  rw [lined, lined, String.toList_append, String.toList_append] at hchars
  exact String.toList_inj.1 (List.append_cancel_right hchars)

theorem toList_backQuoted (name : String) : (backQuoted name).toList = '`' :: (name.toList ++ ['`']) := by
  rw [backQuoted, String.toList_append, String.toList_append]
  rfl

theorem backQuoted_injective : Function.Injective backQuoted := fun a b h => by
  have hchars := congrArg String.toList h
  rw [toList_backQuoted, toList_backQuoted] at hchars
  exact String.toList_inj.1 (List.append_cancel_right (List.cons.inj hchars).2)

theorem escapePython_eq_iff {a b : String} : escapePython a = escapePython b ↔
    a = b ∨ (a ∈ pythonKeywords ∧ b = lined a) ∨ (b ∈ pythonKeywords ∧ a = lined b) :=
  escape_eq_iff lined_injective (by decide)

theorem escapeKotlin_eq_iff {a b : String} : escapeKotlin a = escapeKotlin b ↔
    a = b ∨ (a ∈ kotlinKeywords ∧ b = backQuoted a) ∨ (b ∈ kotlinKeywords ∧ a = backQuoted b) :=
  escape_eq_iff backQuoted_injective (by decide)

/-- Keywords have no low lines, so they and what they are escaped to stay as they are in camel case. -/
theorem camel_keyword {k : String} (h : k ∈ kotlinKeywords) : camel k = k ∧ camel (backQuoted k) = backQuoted k := by
  have hall : ∀ k ∈ kotlinKeywords, camel k = k ∧ camel (backQuoted k) = backQuoted k := by decide +kernel
  exact hall k h

/-- A name is a keyword in camel case, and another one what that is escaped to. -/
theorem camel_backQuoted_iff {a b : String} : camel a ∈ kotlinKeywords ∧ camel b = backQuoted (camel a) ↔
    ∃ k ∈ kotlinKeywords, SameSqueezed a.toList k.toList ∧ SameSqueezed b.toList (backQuoted k).toList := by
  simp only [← camel_eq_iff]
  constructor
  · rintro ⟨hk, hb⟩
    have hkept := camel_keyword hk
    exact ⟨camel a, hk, hkept.1.symm, hb.trans hkept.2.symm⟩
  · rintro ⟨k, hk, ha, hb⟩
    have hkept := camel_keyword hk
    rw [ha, hb, hkept.1, hkept.2]
    exact ⟨hk, rfl⟩

/-- **Names become the same identifier** just when they are the same or clash. -/
theorem Renaming.apply_eq_iff (r : Renaming) {a b : String} :
    r.apply a = r.apply b ↔ a = b ∨ r.Clash a b ∨ r.Clash b a := by
  cases r with
  | verbatim => simp [apply, Clash]
  | python => exact escapePython_eq_iff
  | kotlin => exact escapeKotlin_eq_iff
  | member =>
    refine escapeKotlin_eq_iff.trans ?_
    rw [camel_eq_iff, camel_backQuoted_iff, camel_backQuoted_iff]
    constructor
    · rintro (h | h | h)
      exacts [.inr (.inl (.inl h)), .inr (.inl (.inr h)), .inr (.inr (.inr h))]
    · rintro (rfl | (h | h) | h | h)
      exacts [.inl (.refl _), .inl h, .inr (.inl h), .inl (.symm _ _ h), .inr (.inr h)]
  | pascal =>
    refine pascal_eq_iff.trans ⟨fun h => .inr (.inl h), ?_⟩
    rintro (rfl | h | h)
    exacts [.refl _, h, .symm _ _ h]
  | upper =>
    refine upperSnake_eq_iff.trans ⟨fun h => .inr (.inl h), ?_⟩
    rintro (rfl | h | h)
    exacts [rfl, h, Eq.symm h]

/-! ## Snake case -/

/-- Small letters and digits, with a small letter after each low line. -/
inductive Snake : List Char → Prop where
  | nil : Snake []
  | char {c : Char} {cs : List Char} (h : isSmallOrDigit c = true) (rest : Snake cs) : Snake (c :: cs)
  | word {c : Char} {cs : List Char} (h : c.isLower = true) (rest : Snake cs) : Snake ('_' :: c :: cs)

/-- **A name in plain snake case**: words of small letters and digits, each of which begins with a letter. -/
def SnakeName (name : String) : Prop := Snake ('_' :: name.toList)

/-- Whether characters are in snake case. -/
def isSnake : List Char → Bool
  | '_' :: c :: cs => c.isLower && isSnake cs
  | c :: cs => isSmallOrDigit c && isSnake cs
  | [] => true

theorem isSnake_iff {cs : List Char} : isSnake cs = true ↔ Snake cs := by
  constructor
  · intro h
    fun_induction isSnake cs with
    | case1 c cs ih =>
      rw [Bool.and_eq_true] at h
      exact .word h.1 (ih h.2)
    | case2 c cs hc ih =>
      rw [Bool.and_eq_true] at h
      exact .char h.1 (ih h.2)
    | case3 => exact .nil
  · intro h
    induction h with
    | nil => rfl
    | @char c cs h rest ih =>
      have hline : c ≠ '_' := fun he => absurd (he ▸ h) (by decide)
      rw [isSnake, h, ih]
      · rfl
      · exact fun _ _ he => absurd he hline
    | word h rest ih => rw [isSnake, h, ih]; rfl

instance (cs : List Char) : Decidable (Snake cs) := decidable_of_iff _ isSnake_iff

instance (name : String) : Decidable (SnakeName name) := inferInstanceAs (Decidable (Snake _))

/-- Snake case again: a low line and a small letter for every capital. -/
def snakeChars (cs : List Char) : List Char :=
  cs.flatMap fun c => if c.isUpper then ['_', c.toLower] else [c]

theorem toNat_lt_of_isSmallOrDigit {c : Char} (h : isSmallOrDigit c = true) : c.toNat < 128 := by
  have hranges : (('a'.val ≤ c.val && c.val ≤ 'z'.val) || ('0'.val ≤ c.val && c.val ≤ '9'.val)) = true := h
  simp only [Bool.or_eq_true, Bool.and_eq_true, decide_eq_true_eq, UInt32.le_iff_toNat_le] at hranges
  have hnine : '9'.val.toNat = 57 := rfl
  have hz : 'z'.val.toNat = 122 := rfl
  have htoNat : c.toNat = c.val.toNat := rfl
  omega

/-- What holds of every small letter and digit among the first 128 characters holds of all. -/
theorem isSmallOrDigit_forall {P : Char → Prop} (h : ∀ n < 128, isSmallOrDigit (Char.ofNat n) = true → P (Char.ofNat n))
    {c : Char} (hc : isSmallOrDigit c = true) : P c := by
  have hp := h c.toNat (toNat_lt_of_isSmallOrDigit hc)
  rw [Char.ofNat_toNat] at hp
  exact hp hc

theorem isSmallOrDigit_of_isLower {c : Char} (h : c.isLower = true) : isSmallOrDigit c = true := by
  rw [isSmallOrDigit, h, Bool.true_or]

theorem upperChar_small {c : Char} (h : isSmallOrDigit c = true) : upperChar c = [c.toUpper] :=
  if_pos (toNat_lt_of_isSmallOrDigit h)

/-- Small letters and digits are no low lines and no capitals, and they can be read back from upper case. -/
theorem small_facts {c : Char} (h : isSmallOrDigit c = true) : c ≠ '_' ∧ c.isUpper = false ∧ c.toUpper.toLower = c :=
  isSmallOrDigit_forall (P := fun c => c ≠ '_' ∧ c.isUpper = false ∧ c.toUpper.toLower = c) (by decide) h

theorem isUpper_toUpper {c : Char} (h : c.isLower = true) : c.toUpper.isUpper = true :=
  isSmallOrDigit_forall (P := fun c => c.isLower = true → c.toUpper.isUpper = true) (by decide)
    (isSmallOrDigit_of_isLower h) h

/-- **Snake case is read back from camel case.** -/
theorem Snake.snakeChars_camelChars {cs : List Char} (h : Snake cs) : snakeChars (camelChars cs) = cs := by
  induction h with
  | nil => rfl
  | @char c cs h rest ih =>
    obtain ⟨hline, hcapital, -⟩ := small_facts h
    rw [camelChars_cons hline, snakeChars, List.flatMap_cons, if_neg (by simp [hcapital])]
    exact congrArg (c :: ·) ih
  | @word c cs h rest ih =>
    have hsmall := isSmallOrDigit_of_isLower h
    have hupper : upperChar c = [c.toUpper] := upperChar_small hsmall
    rw [camelChars_capitalize, capitalize, camelChars_append (not_mem_upperChar (small_facts hsmall).1), hupper,
      snakeChars, List.singleton_append, List.flatMap_cons, if_pos (isUpper_toUpper h), (small_facts hsmall).2.2]
    exact congrArg ('_' :: c :: ·) ih

theorem Snake.chars {cs : List Char} (h : Snake cs) : ∀ c ∈ cs, isSmallOrDigit c = true ∨ c = '_' := by
  induction h with
  | nil => exact fun _ hc => absurd hc List.not_mem_nil
  | char h _ ih => exact List.forall_mem_cons.2 ⟨.inl h, ih⟩
  | word h _ ih =>
    exact List.forall_mem_cons.2 ⟨.inr rfl, List.forall_mem_cons.2 ⟨.inl (isSmallOrDigit_of_isLower h), ih⟩⟩

/-- Snake case does not end with a low line. -/
theorem Snake.getLast?_ne {cs : List Char} (h : Snake cs) : cs.getLast? ≠ some '_' := by
  induction h with
  | nil => simp
  | @char c cs h rest ih =>
    cases cs with
    | nil => simpa using (small_facts h).1
    | cons d cs => rwa [List.getLast?_cons_cons]
  | @word c cs h rest ih =>
    rw [List.getLast?_cons_cons]
    cases cs with
    | nil => simpa using (small_facts (isSmallOrDigit_of_isLower h)).1
    | cons d cs => rwa [List.getLast?_cons_cons]

/-- There is nothing to separate without capitals. -/
theorem separateCapitals_self {cs : List Char} (h : ∀ c ∈ cs, c.isUpper = false) : separateCapitals cs = cs := by
  fun_induction separateCapitals cs with
  | case1 => rfl
  | case2 => rfl
  | case3 c d cs hcut ih => simp [h d (by simp)] at hcut
  | case4 c d cs hcut ih => rw [ih fun x hx => h x (List.mem_cons_of_mem c hx)]

/-- **Snake case is read back from upper case.** -/
theorem Snake.toLower_upperChars {cs : List Char} (h : Snake cs) :
    (upperChars (separateCapitals cs)).map Char.toLower = cs := by
  have hcapitals : ∀ c ∈ cs, c.isUpper = false := by
    intro c hc
    rcases h.chars c hc with hsmall | rfl
    exacts [(small_facts hsmall).2.1, by decide]
  have hback : ∀ c ∈ cs, (upperChar c).map Char.toLower = [c] := by
    intro c hc
    rcases h.chars c hc with hsmall | rfl
    · rw [upperChar_small hsmall, List.map_singleton, (small_facts hsmall).2.2]
    · decide
  rw [separateCapitals_self hcapitals, upperChars, List.map_flatMap, List.flatMap_congr hback, List.flatMap_singleton']

theorem SnakeName.first {name : String} (h : SnakeName name) :
    ∃ c cs, name.toList = c :: cs ∧ c.isLower = true ∧ Snake cs := by
  unfold SnakeName at h
  generalize name.toList = chars at h ⊢
  cases h with
  | char hsmall _ => exact absurd rfl (small_facts hsmall).1
  | word hlower rest => exact ⟨_, _, rfl, hlower, rest⟩

theorem SnakeName.snake {name : String} (h : SnakeName name) : Snake name.toList := by
  obtain ⟨c, cs, hname, hlower, hrest⟩ := h.first
  exact hname ▸ .char (isSmallOrDigit_of_isLower hlower) hrest

/-- What begins with a small letter is not in back quotes. -/
theorem ne_backQuoted {name other : String} {c : Char} {cs : List Char} (hname : name.toList = c :: cs)
    (hc : c.isLower = true) : name ≠ backQuoted other := by
  rintro rfl
  rw [toList_backQuoted] at hname
  rw [← (List.cons.inj hname).1] at hc
  exact absurd hc (by decide)

theorem SnakeName.ne_backQuoted {name other : String} (h : SnakeName name) : name ≠ backQuoted other := by
  obtain ⟨c, cs, hname, hlower, -⟩ := h.first
  exact Identifier.ne_backQuoted hname hlower

theorem SnakeName.camel_ne {name other : String} (h : SnakeName name) : camel name ≠ backQuoted other := by
  obtain ⟨c, cs, hname, hlower, -⟩ := h.first
  have hcamel : (camel name).toList = c :: camelChars cs := by
    rw [camel_eq, String.toList_ofList, hname, camelChars_cons (small_facts (isSmallOrDigit_of_isLower hlower)).1]
  exact Identifier.ne_backQuoted hcamel hlower

theorem SnakeName.ne_lined {name other : String} (h : SnakeName name) : name ≠ lined other := by
  rintro rfl
  have hlast := h.snake.getLast?_ne
  rw [lined, String.toList_append] at hlast
  exact hlast (List.getLast?_append_of_ne_nil _ (by simp))

/-- **Snake case is safe**: different names of this form become different identifiers. -/
theorem Renaming.injOn_snake (r : Renaming) : Set.InjOn r.apply {name | SnakeName name} := by
  intro a ha b hb h
  have hread (hcamel : camel a = camel b) : a = b := by
    rw [camel_eq, camel_eq, String.ofList_inj] at hcamel
    have hback := congrArg snakeChars hcamel
    rw [ha.snake.snakeChars_camelChars, hb.snake.snakeChars_camelChars] at hback
    exact String.toList_inj.1 hback
  cases r with
  | verbatim => exact h
  | python =>
    rcases escapePython_eq_iff.1 h with h | ⟨-, h⟩ | ⟨-, h⟩
    exacts [h, absurd h hb.ne_lined, absurd h ha.ne_lined]
  | kotlin =>
    rcases escapeKotlin_eq_iff.1 h with h | ⟨-, h⟩ | ⟨-, h⟩
    exacts [h, absurd h hb.ne_backQuoted, absurd h ha.ne_backQuoted]
  | member =>
    rcases escapeKotlin_eq_iff.1 h with h | ⟨-, h⟩ | ⟨-, h⟩
    exacts [hread h, absurd h hb.camel_ne, absurd h ha.camel_ne]
  | pascal =>
    have hpascal : Identifier.pascal a = Identifier.pascal b := h
    rw [pascal_eq, pascal_eq, String.ofList_inj] at hpascal
    have hback := congrArg snakeChars hpascal
    rw [ha.snakeChars_camelChars, hb.snakeChars_camelChars] at hback
    exact String.toList_inj.1 (List.cons.inj hback).2
  | upper =>
    have hback := congrArg (List.map Char.toLower) (String.ofList_injective h)
    rw [ha.snake.toLower_upperChars, hb.snake.toLower_upperChars] at hback
    exact String.toList_inj.1 hback

end Bindgen.Identifier
