import Bindgen.Interface.Ty
import Mathlib.Data.List.TakeWhile

/-!
# Canonical names

A canonical name is a word for how a type is built, with what the type is built from behind it and nothing in
between. No such word is the beginning of another one (`words_prefixFree`), so a name tells its word. Behind the word
of a map stand the digits of a number, which end where the name of the key begins since no word begins with a digit;
the number tells where the name of the key ends. The names of definitions are last, and may be any text.

Results:
* `eq_of_canonical`: types with the same canonical name are the same.
* **`canonical_eq_iff`**: canonical names tell types apart, whatever their definitions are called.
-/

namespace Bindgen.Interface.Ty

/-- The words for how a type is built. -/
def words : List String :=
  Prim.all.map (·.canonical) ++ ["String", "Bytes", "Optional", "Sequence", "Map", "Type", "Box"]

/-- The word with which the canonical name of a type begins. -/
def word : Ty → String
  | prim p => p.canonical
  | string => "String"
  | bytes => "Bytes"
  | optional _ => "Optional"
  | sequence _ => "Sequence"
  | map _ _ => "Map"
  | named _ => "Type"
  | box _ => "Box"

/-- What follows the word. -/
def afterWord : Ty → List Char
  | prim _ | string | bytes => []
  | optional t | sequence t | box t => t.canonical.toList
  | map k v => Nat.toDigits 10 k.canonical.length ++ (k.canonical.toList ++ v.canonical.toList)
  | named n => n.toList

variable {s t : Ty}

/-! ## Words -/

theorem canonical_toList (t : Ty) : t.canonical.toList = t.word.toList ++ t.afterWord := by
  cases t with
  | prim | string | bytes => exact (List.append_nil _).symm
  | map k v => simp [canonical, word, afterWord, String.toList_append, Nat.toString_eq_repr, Nat.toList_repr]
  | optional | sequence | named | box => exact String.toList_append

theorem word_mem (t : Ty) : t.word ∈ words := by
  cases t with
  | prim p => cases p <;> decide
  | _ => simp [word, words]

/-- **No word is the beginning of another.** -/
theorem words_prefixFree : ∀ u ∈ words, ∀ w ∈ words, u.toList <+: w.toList → u = w := by
  decide

/-- No word begins with a digit. -/
theorem words_letter : ∀ u ∈ words, ∃ c cs, u.toList = c :: cs ∧ c.isDigit = false := by
  have hletters : ∀ u ∈ words, u.toList.head?.any (!·.isDigit) = true := by decide
  intro u hu
  obtain ⟨c, hc, hdigit⟩ := (Option.any_eq_true _ _).1 (hletters u hu)
  obtain ⟨cs, hcs⟩ := List.head?_eq_some_iff.1 hc
  exact ⟨c, cs, hcs, by simpa using hdigit⟩

/-- Types with the same canonical name begin with the same word. -/
theorem word_eq (h : s.canonical = t.canonical) : s.word = t.word ∧ s.afterWord = t.afterWord := by
  have hlist : s.word.toList ++ s.afterWord = t.word.toList ++ t.afterWord := by
    rw [← canonical_toList, ← canonical_toList, h]
  have hword : s.word = t.word := by
    have ht : t.word.toList <+: s.word.toList ++ s.afterWord := hlist ▸ List.prefix_append _ _
    rcases List.prefix_or_prefix_of_prefix (List.prefix_append _ _) ht with hle | hle
    · exact words_prefixFree _ (word_mem s) _ (word_mem t) hle
    · exact (words_prefixFree _ (word_mem t) _ (word_mem s) hle).symm
  refine ⟨hword, ?_⟩
  rw [hword] at hlist
  exact List.append_cancel_left hlist

/-! ## Maps -/

/-- The number in front of a canonical name is found again: its digits end where the name begins. -/
theorem takeWhile_digits (n : Nat) (t : Ty) (rest : List Char) :
    (Nat.toDigits 10 n ++ (t.canonical.toList ++ rest)).takeWhile Char.isDigit = Nat.toDigits 10 n := by
  have hdigits : ∀ c ∈ Nat.toDigits 10 n, c.isDigit = true := fun c hc =>
    Nat.isDigit_of_mem_toDigits (by decide) (by decide) hc
  obtain ⟨c, cs, hword, hletter⟩ := words_letter _ (word_mem t)
  rw [List.takeWhile_append_of_pos hdigits, canonical_toList, hword, List.cons_append, List.cons_append,
    List.takeWhile_cons_of_neg (by simp [hletter]), List.append_nil]

theorem map_eq {k v k' v' : Ty} (h : (map k v).afterWord = (map k' v').afterWord) :
    k.canonical = k'.canonical ∧ v.canonical = v'.canonical := by
  have hdigits := congrArg (List.takeWhile Char.isDigit) h
  simp only [afterWord, takeWhile_digits] at h hdigits
  have hnumber := congrArg (Nat.ofDigitChars 10 · 0) hdigits
  simp only [Nat.ofDigitChars_ten_toDigits] at hnumber
  have hlength : k.canonical.toList.length = k'.canonical.toList.length := by
    rw [String.length_toList, String.length_toList, hnumber]
  rw [hdigits] at h
  obtain ⟨hkey, hvalue⟩ := List.append_inj (List.append_cancel_left h) hlength
  exact ⟨String.toList_injective hkey, String.toList_injective hvalue⟩

/-! ## Types -/

/-- Types that are built in the same way, perhaps of different parts. -/
inductive Alike : Ty → Ty → Prop where
  | prim (p : Prim) : Alike (prim p) (prim p)
  | string : Alike string string
  | bytes : Alike bytes bytes
  | optional (s t : Ty) : Alike (optional s) (optional t)
  | sequence (s t : Ty) : Alike (sequence s) (sequence t)
  | map (k v k' v' : Ty) : Alike (map k v) (map k' v')
  | named (n n' : String) : Alike (named n) (named n')
  | box (s t : Ty) : Alike (box s) (box t)

/-- The word tells how a type is built. -/
theorem alike_of_word (h : s.word = t.word) : Alike s t := by
  cases s with
  | prim p =>
    cases t with
    | prim q => cases p <;> cases q <;> first | exact .prim _ | exact absurd h (by decide)
    | _ => cases p <;> simp [word, Prim.canonical] at h
  | _ =>
    cases t with
    | prim q => cases q <;> simp [word, Prim.canonical] at h
    | _ => first | constructor | simp [word] at h

/-- **Types with the same canonical name are the same.** -/
theorem eq_of_canonical (h : s.canonical = t.canonical) : s = t := by
  induction s generalizing t with
  | prim | string | bytes =>
    cases alike_of_word (word_eq h).1
    rfl
  | optional s ih =>
    obtain ⟨hword, hafter⟩ := word_eq h
    cases alike_of_word hword
    exact congrArg optional (ih (String.toList_injective hafter))
  | sequence s ih =>
    obtain ⟨hword, hafter⟩ := word_eq h
    cases alike_of_word hword
    exact congrArg sequence (ih (String.toList_injective hafter))
  | box s ih =>
    obtain ⟨hword, hafter⟩ := word_eq h
    cases alike_of_word hword
    exact congrArg box (ih (String.toList_injective hafter))
  | named n =>
    obtain ⟨hword, hafter⟩ := word_eq h
    cases alike_of_word hword
    exact congrArg named (String.toList_injective hafter)
  | map k v ihk ihv =>
    obtain ⟨hword, hafter⟩ := word_eq h
    cases alike_of_word hword
    obtain ⟨hkey, hvalue⟩ := map_eq hafter
    rw [ihk hkey, ihv hvalue]

/-- **Canonical names tell types apart**, whatever the definitions in them are called and however deep they stand. -/
theorem canonical_eq_iff : s.canonical = t.canonical ↔ s = t :=
  ⟨eq_of_canonical, congrArg canonical⟩

/-- Without the number the key and the value would run into each other. -/
example : (map (named "A") (named "BTypeC")).canonical = "Map5TypeATypeBTypeC" ∧
    (map (named "ATypeB") (named "C")).canonical = "Map10TypeATypeBTypeC" := by decide

end Bindgen.Interface.Ty
