import Bindgen.Identifier.Case
import Mathlib.Data.List.Count
import Mathlib.Logic.Relation

/-!
# Names that are the same in another case

Names are the same in camel case when one turns into the other by putting in and dropping low lines before
capitals (`Squeezes`): camel case is what is left when all are dropped. In Pascal case they are the same when they
are so behind a low line, and in upper case with low lines when they consist of the same words up to capitals.

Results:
* `upperChar_cases`: what the upper case of a character is, so far as the first 128 characters go.
* `not_mem_upperChar`: no character becomes a low line in upper case.
* `camel_eq_iff`, `pascal_eq_iff`, `upperSnake_eq_iff`: the names that are the same in a case.
-/

namespace Bindgen.Identifier

open Text

/-! ## Upper case -/

theorem upperByRuns_cases (n : Nat) (runs : List (Nat × Nat × Nat × Nat)) :
    upperByRuns n runs = n ∨ ∃ r ∈ runs, ∃ k ≤ r.2.1 - r.1, upperByRuns n runs = r.2.2.2 + k := by
  induction runs with
  | nil => exact .inl rfl
  | cons r runs ih =>
    obtain ⟨first, last, step, image⟩ := r
    rw [upperByRuns]
    split
    · exact .inr ⟨_, List.mem_cons_self, n - first, by dsimp only; omega, rfl⟩
    · obtain h | ⟨r, hr, h⟩ := ih
      exacts [.inl h, .inr ⟨r, List.mem_cons_of_mem _ hr, h⟩]

/-- The runs end in characters beyond the first 128, but for two. -/
theorem runs_images : ∀ r ∈ CaseTable.runs, r.2.2.2 = 73 ∧ r.1 = r.2.1 ∨ r.2.2.2 = 83 ∧ r.1 = r.2.1 ∨
    128 ≤ r.2.2.2 ∧ (r.2.2.2 + (r.2.1 - r.1) < 0xd800 ∨ 0xdfff < r.2.2.2 ∧ r.2.2.2 + (r.2.1 - r.1) < 0x110000) := by
  decide +kernel

theorem toNat_ofNat_of_valid {n : Nat} (h : n.isValidChar) : (Char.ofNat n).toNat = n := by
  have hchar : Char.ofNat n = Char.ofNatAux n h := dif_pos h
  rw [hchar]
  rfl

/-- What is expanded has two characters or more, each of them a capital or beyond the first 128. -/
theorem expansions_images : ∀ p ∈ CaseTable.expansions, 2 ≤ p.2.length ∧
    ∀ x ∈ p.2.map Char.ofNat, x.isUpper = true ∨ 128 ≤ x.toNat := by
  have hall : (CaseTable.expansions.all fun p => decide (2 ≤ p.2.length) &&
      (p.2.map Char.ofNat).all fun x => x.isUpper || decide (128 ≤ x.toNat)) = true := by decide +kernel
  simpa only [List.all_eq_true, Bool.and_eq_true, Bool.or_eq_true, decide_eq_true_eq] using hall

/-- **The upper case of a character** is one of the first 128 if the character is, and otherwise one of the others or
two capitals, or it is longer. -/
theorem upperChar_cases (c : Char) :
    (c.toNat < 128 ∧ upperChar c = [c.toUpper]) ∨
      (∃ d, upperChar c = [d] ∧ (d = 'I' ∨ d = 'S' ∨ 128 ≤ d.toNat)) ∨
      ∃ d e cs, upperChar c = d :: e :: cs ∧ ∀ x ∈ d :: e :: cs, x.isUpper = true ∨ 128 ≤ x.toNat := by
  by_cases hsmall : c.toNat < 128
  · exact .inl ⟨hsmall, if_pos hsmall⟩
  · refine .inr ?_
    unfold upperChar
    rw [if_neg hsmall]
    split
    · next cs hcs =>
      obtain ⟨l₁, l₂, heq, -⟩ := List.lookup_eq_some_iff.mp hcs
      obtain ⟨hlength, hchars⟩ := expansions_images (c.toNat, cs) (heq ▸ by simp)
      match cs, hlength with
      | d :: e :: cs, _ => exact .inr ⟨_, _, _, rfl, hchars⟩
    · refine .inl ⟨_, rfl, ?_⟩
      obtain h | ⟨r, hr, k, hk, h⟩ := upperByRuns_cases c.toNat CaseTable.runs
      · rw [h, Char.ofNat_toNat]
        exact .inr (.inr (by omega))
      · rw [h]
        obtain ⟨himage, hone⟩ | ⟨himage, hone⟩ | ⟨himage, hvalid⟩ := runs_images r hr
        · obtain rfl : k = 0 := by omega
          exact .inl (by rw [himage])
        · obtain rfl : k = 0 := by omega
          exact .inr (.inl (by rw [himage]))
        · have hchar : (r.2.2.2 + k).isValidChar := by unfold Nat.isValidChar; omega
          rw [toNat_ofNat_of_valid hchar]
          exact .inr (.inr (by omega))

/-- **No character becomes a low line in upper case.** -/
theorem not_mem_upperChar {c : Char} (h : c ≠ '_') : '_' ∉ upperChar c := by
  have hline : '_' ≠ 'I' ∧ '_' ≠ 'S' ∧ ¬ 128 ≤ '_'.toNat ∧ ¬ '_'.isUpper = true := by decide
  obtain ⟨hsmall, heq⟩ | ⟨d, heq, hd⟩ | ⟨d, e, cs, heq, hall⟩ := upperChar_cases c
  · have hascii : ∀ n < 128, Char.ofNat n ≠ '_' → (Char.ofNat n).toUpper ≠ '_' := by decide
    have hc := hascii c.toNat hsmall (by rwa [Char.ofNat_toNat])
    rw [Char.ofNat_toNat] at hc
    rw [heq, List.mem_singleton]
    exact hc.symm
  · rw [heq, List.mem_singleton]
    rintro rfl
    tauto
  · rw [heq]
    exact fun hmem => by have := hall _ hmem; tauto

theorem upperChar_lowLine : upperChar '_' = ['_'] := by decide

/-! ## Camel case -/

/-- One low line less: the first one is dropped, before a capital. -/
inductive Squeezes : List Char → List Char → Prop where
  | drop {front : List Char} (rest : List Char) (h : '_' ∉ front) :
      Squeezes (front ++ '_' :: rest) (front ++ capitalize rest)

/-- The characters of a name in camel case. -/
def camelChars (cs : List Char) : List Char :=
  match pieces '_' cs with
  | [] => []
  | head :: rest => head ++ rest.flatMap capitalize

theorem camel_eq (name : String) : camel name = String.ofList (camelChars name.toList) := by
  unfold camel camelChars
  split <;> simp_all

theorem camelChars_cons {c : Char} (h : c ≠ '_') (cs : List Char) : camelChars (c :: cs) = c :: camelChars cs := by
  unfold camelChars
  rw [pieces, if_neg h]
  cases hp : pieces '_' cs with
  | nil => exact absurd hp (pieces_ne_nil '_' cs)
  | cons p ps => rfl

theorem camelChars_append {front : List Char} (h : '_' ∉ front) (cs : List Char) :
    camelChars (front ++ cs) = front ++ camelChars cs := by
  induction front with
  | nil => rfl
  | cons c front ih =>
    rw [List.mem_cons, not_or] at h
    rw [List.cons_append, camelChars_cons (Ne.symm h.1), ih h.2, List.cons_append]

theorem camelChars_self {cs : List Char} (h : '_' ∉ cs) : camelChars cs = cs := by
  have hnil : camelChars [] = [] := rfl
  have happend := camelChars_append h []
  rwa [List.append_nil, hnil, List.append_nil] at happend

theorem camelChars_lowLine (cs : List Char) : camelChars ('_' :: cs) = (pieces '_' cs).flatMap capitalize := by
  unfold camelChars
  rw [pieces, if_pos rfl]
  rfl

theorem pascal_eq (name : String) : pascal name = String.ofList (camelChars ('_' :: name.toList)) := by
  rw [pascal, camelChars_lowLine]

/-- A low line makes a capital of what follows it. -/
theorem camelChars_capitalize (cs : List Char) : camelChars ('_' :: cs) = camelChars (capitalize cs) := by
  cases cs with
  | nil => rfl
  | cons c cs =>
    by_cases h : c = '_'
    · subst h
      rw [capitalize, upperChar_lowLine, List.singleton_append, camelChars_lowLine, camelChars_lowLine, pieces, if_pos rfl]
      rfl
    · have hpieces : (pieces '_' (c :: cs)).flatMap capitalize = upperChar c ++ camelChars cs := by
        unfold camelChars
        rw [pieces, if_neg h]
        cases hp : pieces '_' cs with
        | nil => exact absurd hp (pieces_ne_nil '_' cs)
        | cons p ps => rw [List.flatMap_cons, capitalize, List.append_assoc]
      rw [camelChars_lowLine, hpieces, capitalize, camelChars_append (not_mem_upperChar h)]

theorem Squeezes.camelChars_eq {a b : List Char} (h : Squeezes a b) : camelChars a = camelChars b := by
  cases h with
  | drop rest h => rw [camelChars_append h, camelChars_append h, camelChars_capitalize]

theorem count_capitalize (cs : List Char) : (capitalize cs).count '_' = cs.count '_' := by
  cases cs with
  | nil => rfl
  | cons c cs =>
    by_cases h : c = '_'
    · rw [h, capitalize, upperChar_lowLine]
      rfl
    · rw [capitalize, List.count_append, List.count_eq_zero_of_not_mem (not_mem_upperChar h), List.count_cons_of_ne h,
        Nat.zero_add]

/-- Characters that are the same up to low lines before capitals. -/
def SameSqueezed : List Char → List Char → Prop :=
  Relation.EqvGen Squeezes

/-- Dropping all low lines, one after the other, gives camel case. -/
theorem sameSqueezed_camelChars (cs : List Char) : SameSqueezed cs (camelChars cs) := by
  induction hn : cs.count '_' generalizing cs with
  | zero =>
    rw [camelChars_self (List.count_eq_zero.mp hn)]
    exact .refl cs
  | succ n ih =>
    have hmem : '_' ∈ cs := List.count_pos_iff.mp (by omega)
    obtain ⟨front, rest, rfl, hfront⟩ := List.eq_append_cons_of_mem hmem
    have hstep : Squeezes (front ++ '_' :: rest) (front ++ capitalize rest) := .drop rest hfront
    have hcount : (front ++ capitalize rest).count '_' = n := by
      rw [List.count_append, List.count_cons_self] at hn
      rw [List.count_append, count_capitalize]
      omega
    rw [hstep.camelChars_eq]
    exact .trans _ _ _ (.rel _ _ hstep) (ih _ hcount)

theorem camelChars_eq_iff {a b : List Char} : camelChars a = camelChars b ↔ SameSqueezed a b := by
  constructor
  · intro h
    have ha := sameSqueezed_camelChars a
    rw [h] at ha
    exact .trans _ _ _ ha (.symm _ _ (sameSqueezed_camelChars b))
  · intro h
    induction h with
    | rel _ _ h => exact h.camelChars_eq
    | refl _ => rfl
    | symm _ _ _ ih => exact ih.symm
    | trans _ _ _ _ _ ih ih' => exact ih.trans ih'

/-- **The names that are the same in camel case.** -/
theorem camel_eq_iff {a b : String} : camel a = camel b ↔ SameSqueezed a.toList b.toList := by
  rw [camel_eq, camel_eq, String.ofList_inj, camelChars_eq_iff]

/-- **The names that are the same in Pascal case.** -/
theorem pascal_eq_iff {a b : String} : pascal a = pascal b ↔ SameSqueezed ('_' :: a.toList) ('_' :: b.toList) := by
  rw [pascal_eq, pascal_eq, String.ofList_inj, camelChars_eq_iff]

/-! ## Upper case with low lines -/

/-- The words of a name: what stands between low lines, and between a small letter or a digit and a capital. -/
def words (name : String) : List (List Char) :=
  pieces '_' (separateCapitals name.toList)

theorem pieces_front {sep : Char} {front : List Char} (h : sep ∉ front) {cs p : List Char} {ps : List (List Char)}
    (hp : pieces sep cs = p :: ps) : pieces sep (front ++ cs) = (front ++ p) :: ps := by
  induction front with
  | nil => exact hp
  | cons c front ih =>
    rw [List.mem_cons, not_or] at h
    rw [List.cons_append, pieces, if_neg (Ne.symm h.1), ih h.2]
    rfl

/-- Upper case leaves the pieces between low lines where they are. -/
theorem pieces_upperChars (cs : List Char) : pieces '_' (upperChars cs) = (pieces '_' cs).map upperChars := by
  induction cs with
  | nil => rfl
  | cons c cs ih =>
    have hcons : upperChars (c :: cs) = upperChar c ++ upperChars cs := rfl
    by_cases h : c = '_'
    · rw [hcons, h, upperChar_lowLine, List.singleton_append, pieces, if_pos rfl, ih, pieces, if_pos rfl]
      rfl
    · cases hp : pieces '_' cs with
      | nil => exact absurd hp (pieces_ne_nil '_' cs)
      | cons p ps =>
        rw [hp] at ih
        rw [hcons, pieces_front (not_mem_upperChar h) ih, pieces, if_neg h, hp]
        rfl

/-- **The names that are the same in upper case with low lines**: word for word up to capitals. -/
theorem upperSnake_eq_iff {a b : String} :
    upperSnake a = upperSnake b ↔ (words a).map upperChars = (words b).map upperChars := by
  rw [upperSnake, upperSnake, String.ofList_inj, words, words, ← pieces_upperChars, ← pieces_upperChars]
  refine ⟨congrArg _, fun h => ?_⟩
  rw [← join_pieces '_' (upperChars _), h, join_pieces]

end Bindgen.Identifier
