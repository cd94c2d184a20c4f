import Bindgen.Boundary.Support
import Bindgen.Emit.CallPlan
import Bindgen.Emit.Converted
import Bindgen.Emit.Lines

/-!
# What generated code refers to

Code leaves the names of converters open, so it tells which converters it refers to (`Code.converters`), and in which
order these stand among texts (`Code.pieces`). A line of a file assigns the converter whose name it begins with, if an
equals sign follows (`Code.assigned?`); it declares one if it begins with the words for that (`Code.declared?`).

`Code.Only` says that code refers to nothing but some types. Most lines are moved to the right, begin with a word or
refer to nothing: these are `Code.Within`, and among them are no assignments and no declarations.

`Surface.Covers` says that some types are all that a surface has to do with. The plan of a call takes its types from
there (`slots_only`).

Results:
* `indent_within`, `braced_within`: lines that are put inside others neither assign nor declare.
* `assignments_of_within`, `declarations_of_within`: of such lines there is nothing to collect.
-/

namespace Bindgen.Emit

open Interface Boundary Resolve

namespace Code

/-- The texts and the converters of which code is made up, in order. -/
def pieces : Code → List (String ⊕ Ty)
  | text s => [.inl s]
  | converter t => [.inr t]
  | append c d => c.pieces ++ d.pieces
  | moved n c => .inl (blanks n) :: c.pieces

/-- The types whose converters some code refers to. -/
def converters (c : Code) : List Ty := c.pieces.filterMap Sum.getRight?

/-- The type whose converter a line assigns. -/
def assigned? (c : Code) : Option Ty :=
  match c.pieces with
  | .inr t :: .inl " = " :: _ => some t
  | _ => none

/-- The word with which a declaration begins. -/
def declarator : String := "object "

/-- The type whose converter a line declares. -/
def declared? (c : Code) : Option Ty :=
  match c.pieces with
  | .inl word :: .inr t :: .inl " : FfiConverter<" :: _ => if word = declarator then some t else none
  | _ => none

/-- Code that refers to the converters of nothing but some types. -/
def Only (P : Ty → Prop) (c : Code) : Prop := ∀ t ∈ c.converters, P t

/-- What code begins with. -/
def first : Code → String ⊕ Ty
  | text s => .inl s
  | converter t => .inr t
  | append c _ => c.first
  | moved n _ => .inl (blanks n)

/-- **A line that neither assigns nor declares**: it refers to nothing, or it begins with a text that is not the word
of a declaration. What it refers to are the converters of some types. -/
structure Within (P : Ty → Prop) (c : Code) : Prop where
  inner : c.converters = [] ∨ ∃ s, c.first = .inl s ∧ s ≠ declarator
  only : c.Only P

end Code

/-- Each of some lines is as wanted. -/
def Each (Q : Code → Prop) (lines : List Code) : Prop := ∀ c ∈ lines, Q c

/-- The types whose converters some lines refer to. -/
def mentioned (lines : List Code) : List Ty := lines.flatMap (·.converters)

/-- The lines that assign a converter. -/
def assignments (lines : List Code) : List Code := lines.filter (·.assigned?.isSome)

/-- The lines that declare a converter. -/
def declarations (lines : List Code) : List Code := lines.filter (·.declared?.isSome)

variable {P : Ty → Prop} {Q : Code → Prop} {c d : Code} {lines : List Code}

/-! ## Code -/

namespace Code

@[simp] theorem append_eq (c d : Code) : c ++ d = append c d := rfl

@[simp] theorem only_text (s : String) : (text s).Only P := fun _ h => absurd h List.not_mem_nil

@[simp] theorem only_converter {t : Ty} : (converter t).Only P ↔ P t := List.forall_mem_singleton

@[simp] theorem only_append : (append c d).Only P ↔ c.Only P ∧ d.Only P := by
  unfold Only converters
  rw [pieces, List.filterMap_append]
  exact List.forall_mem_append

@[simp] theorem only_moved {n : Nat} : (moved n c).Only P ↔ c.Only P := Iff.rfl

/-- Empty code refers to nothing. -/
theorem converters_of_isEmpty (h : c.isEmpty = true) : c.converters = [] := by
  induction c with
  | text => rfl
  | append c d ihc ihd =>
    obtain ⟨hc, hd⟩ := Bool.and_eq_true_iff.1 h
    exact List.filterMap_append.trans (List.append_eq_nil_iff.2 ⟨ihc hc, ihd hd⟩)
  | converter | moved => exact absurd h Bool.false_ne_true

/-- Moving a line to the right changes nothing in what it refers to. -/
theorem converters_indent (n : Nat) (c : Code) : (c.indent n).converters = c.converters := by
  unfold indent
  split
  · rfl
  · split <;> rfl

@[simp] theorem only_indent {n : Nat} : (c.indent n).Only P ↔ c.Only P := by
  unfold Only
  rw [converters_indent]

theorem pieces_first (c : Code) : ∃ rest, c.pieces = c.first :: rest := by
  induction c with
  | text | converter => exact ⟨[], rfl⟩
  | append c d ihc _ =>
    obtain ⟨rest, hrest⟩ := ihc
    exact ⟨rest ++ d.pieces, by rw [pieces, hrest]; rfl⟩
  | moved n c => exact ⟨c.pieces, rfl⟩

/-- What is assigned or declared is referred to. -/
theorem assigned?_eq_some {t : Ty} (h : c.assigned? = some t) : c.first = .inr t ∧ t ∈ c.converters := by
  unfold assigned? at h
  obtain ⟨rest, hrest⟩ := c.pieces_first
  split at h
  · next t' rest' hpieces =>
    obtain rfl := Option.some.inj h
    rw [hpieces] at hrest
    exact ⟨(List.cons.inj hrest).1.symm, by unfold converters; rw [hpieces]; exact List.mem_cons_self⟩
  · exact absurd h (by simp)

theorem declared?_eq_some {t : Ty} (h : c.declared? = some t) : c.first = .inl declarator ∧ t ∈ c.converters := by
  unfold declared? at h
  obtain ⟨rest, hrest⟩ := c.pieces_first
  split at h
  · next word t' rest' hpieces =>
    obtain ⟨rfl, ht⟩ := Option.ite_none_right_eq_some.1 h
    obtain rfl := Option.some.inj ht
    rw [hpieces] at hrest
    exact ⟨(List.cons.inj hrest).1.symm, by unfold converters; rw [hpieces]; exact List.mem_cons_self⟩
  · exact absurd h (by simp)

theorem Within.not_assigned (h : c.Within P) : c.assigned? = none := by
  cases hc : c.assigned? with
  | none => rfl
  | some t =>
    obtain ⟨hfirst, hmem⟩ := assigned?_eq_some hc
    rcases h.inner with hnone | ⟨s, hs, -⟩
    · exact absurd (hnone ▸ hmem) List.not_mem_nil
    · exact absurd (hs.symm.trans hfirst) (by simp)

theorem Within.not_declared (h : c.Within P) : c.declared? = none := by
  cases hc : c.declared? with
  | none => rfl
  | some t =>
    obtain ⟨hfirst, hmem⟩ := declared?_eq_some hc
    rcases h.inner with hnone | ⟨s, hs, hne⟩
    · exact absurd (hnone ▸ hmem) List.not_mem_nil
    · exact absurd (Sum.inl.inj (hs.symm.trans hfirst)) hne

/-- A line that begins with another word. -/
theorem within_of_first {s : String} (hc : c.Only P) (hfirst : c.first = .inl s) (hs : s ≠ declarator) :
    c.Within P := ⟨.inr ⟨s, hfirst, hs⟩, hc⟩

/-- Code between texts. -/
theorem only_between {before after : String} (hc : c.Only P) : (before ++ c ++ after : Code).Only P := by
  simpa using hc

theorem within_between {before after : String} (hc : c.Only P) (hb : before ≠ declarator) :
    (before ++ c ++ after : Code).Within P :=
  within_of_first (only_between hc) rfl hb

theorem blanks_ne_declarator (n : Nat) : blanks n ≠ declarator := by
  intro h
  have hmem : 'o' ∈ (blanks n).toList := h ▸ (by decide : 'o' ∈ declarator.toList)
  rw [blanks, String.toList_ofList] at hmem
  exact absurd (List.eq_of_mem_replicate hmem) (by decide)

/-- A line that is moved to the right. -/
theorem within_moved {n : Nat} (h : c.Only P) : (moved n c).Within P :=
  within_of_first (only_moved.2 h) rfl (blanks_ne_declarator n)

theorem within_indent {n : Nat} (h : c.Only P) : (c.indent n).Within P := by
  unfold indent
  split
  · exact within_moved h
  · split
    · exact ⟨.inl (converters_of_isEmpty ‹_›), h⟩
    · exact within_of_first (only_append.2 ⟨only_text _, h⟩) rfl (blanks_ne_declarator n)

end Code

open Code

/-! ## Lines -/

namespace Each

@[simp] theorem nil : Each Q [] := fun _ hc => absurd hc List.not_mem_nil

@[simp] theorem cons_iff : Each Q (c :: lines) ↔ Q c ∧ Each Q lines := List.forall_mem_cons

@[simp] theorem append_iff {xs ys : List Code} : Each Q (xs ++ ys) ↔ Each Q xs ∧ Each Q ys :=
  List.forall_mem_append

theorem cons (h : Q c) (hs : Each Q lines) : Each Q (c :: lines) := cons_iff.2 ⟨h, hs⟩

theorem single (h : Q c) : Each Q [c] := List.forall_mem_singleton.2 h

theorem append {xs ys : List Code} (hx : Each Q xs) (hy : Each Q ys) : Each Q (xs ++ ys) := append_iff.2 ⟨hx, hy⟩

theorem map {α : Type} {xs : List α} {f : α → Code} (h : ∀ x ∈ xs, Q (f x)) : Each Q (xs.map f) :=
  List.forall_mem_map.2 h

theorem flatMap {α : Type} {xs : List α} {f : α → List Code} (h : ∀ x ∈ xs, Each Q (f x)) :
    Each Q (xs.flatMap f) := by
  intro c hc
  obtain ⟨x, hx, hc⟩ := List.mem_flatMap.1 hc
  exact h x hx c hc

theorem ite {b : Prop} [Decidable b] {xs ys : List Code} (hx : Each Q xs) (hy : Each Q ys) :
    Each Q (if b then xs else ys) := by
  split
  · exact hx
  · exact hy

theorem only (h : Each (Within P) lines) : Each (Only P) lines := fun c hc => (h c hc).only

end Each

/-- Lines that refer to nothing. -/
theorem within_of_none (h : Each (Only fun _ => False) lines) : Each (Within P) lines := by
  intro c hc
  have hnone : c.converters = [] := List.eq_nil_iff_forall_not_mem.2 (h c hc)
  exact ⟨.inl hnone, fun t ht => absurd ht (h c hc t)⟩

@[simp] theorem texts_only (ss : List String) : Each (Only P) (texts ss) := .map fun s _ => only_text s

theorem texts_within (ss : List String) : Each (Within P) (texts ss) := within_of_none (texts_only ss)

@[simp] theorem emptyLine_only : Each (Only P) emptyLine := texts_only [""]

theorem emptyLine_within : Each (Within P) emptyLine := texts_within [""]

theorem only_join (separator : String) (h : Each (Only P) lines) : (join separator lines).Only P := by
  fun_induction join separator lines with
  | case1 => exact only_text ""
  | case2 c => exact h c List.mem_cons_self
  | case3 c cs _ ih =>
    obtain ⟨hc, hcs⟩ := Each.cons_iff.1 h
    exact only_append.2 ⟨only_append.2 ⟨hc, only_text _⟩, ih hcs⟩

@[simp] theorem indent_only {n : Nat} : Each (Only P) (indent n lines) ↔ Each (Only P) lines := by
  unfold Each indent
  rw [List.forall_mem_map]
  exact forall₂_congr fun _ _ => only_indent

theorem indent_within {n : Nat} (h : Each (Only P) lines) : Each (Within P) (indent n lines) :=
  .map fun c hc => within_indent (h c hc)

/-! ## Braces -/

@[simp] theorem chainTail_only {parts : List (Code × List Code)} :
    Each (Only P) (chainTail parts) ↔ ∀ p ∈ parts, p.1.Only P ∧ Each (Only P) p.2 := by
  induction parts with
  | nil => simp [chainTail]
  | cons p parts ih => simp [chainTail, ih, and_assoc]

@[simp] theorem chained_only {parts : List (Code × List Code)} :
    Each (Only P) (chained parts) ↔ ∀ p ∈ parts, p.1.Only P ∧ Each (Only P) p.2 := by
  cases parts with
  | nil => simp [chained]
  | cons p parts => simp [chained, and_assoc]

@[simp] theorem braced_only {head : Code} :
    Each (Only P) (braced head lines) ↔ head.Only P ∧ Each (Only P) lines := by
  simp [braced]

/-- A body between braces, after words. -/
theorem braced_within {head : String} (h : Each (Only P) lines) : Each (Within P) (braced head lines) := by
  have hhead : (head ++ " \x7b" : Code).Within P := ⟨.inl rfl, by simp⟩
  exact ((Each.single hhead).append (indent_within h)).append (texts_within ["\x7d"])

/-! ## What is collected -/

theorem mentioned_of_only (h : Each (Only P) lines) : ∀ t ∈ mentioned lines, P t := by
  intro t ht
  obtain ⟨c, hc, ht⟩ := List.mem_flatMap.1 ht
  exact h c hc t ht

/-- **Lines within assign nothing.** -/
theorem assignments_of_within (h : Each (Within P) lines) : assignments lines = [] :=
  List.filter_eq_nil_iff.2 fun c hc => by simp [(h c hc).not_assigned]

/-- **Lines within declare nothing.** -/
theorem declarations_of_within (h : Each (Within P) lines) : declarations lines = [] :=
  List.filter_eq_nil_iff.2 fun c hc => by simp [(h c hc).not_declared]

theorem mem_numbered {α : Type} {xs : List α} {p : Nat × α} (h : p ∈ numbered xs) : p.2 ∈ xs :=
  (List.of_mem_zip (a := p.1) (b := p.2) h).2

/-! ## Surfaces -/

/-- The types whose converters belong to the support code. -/
def builtins : List Ty := Prim.all.map .prim ++ [.string, .bytes]

/-- **All types that a surface has to do with**: those of its definitions and their fields, of what is passed to
callables and comes back from them, and of composites with what is inside them. -/
structure Surface.Covers (s : Surface) (P : Ty → Prop) : Prop where
  definitions : ∀ d ∈ s.model.definitions, ∀ t ∈ d.roots, P t
  callables : ∀ f ∈ s.symbols, ∀ c, f.source = some c → ∀ t ∈ c.roots, P t
  composites : ∀ t ∈ s.model.composites, P t ∧ ∀ u ∈ t.children, P u

theorem Surface.Covers.mono {s : Surface} {P' : Ty → Prop} (h : s.Covers P) (hP : ∀ t, P t → P' t) : s.Covers P' where
  definitions := fun d hd t ht => hP t (h.definitions d hd t ht)
  callables := fun f hf c hc t ht => hP t (h.callables f hf c hc t ht)
  composites := fun t ht => ⟨hP t (h.composites t ht).1, fun u hu => hP u ((h.composites t ht).2 u hu)⟩

/-- What is lowered in a slot is of one of some types. -/
def Slot.Only (P : Ty → Prop) (slot : Slot) : Prop := ∀ p, slot.origin = .param p → P p.type

section Plans

variable {table : Table} {localName : String → String} {symbol : String} {f : Callable} {plan : CallPlan}

theorem paramNamed_mem {params : List Param} {p : Param} (hp : p ∈ params) :
    CallPlan.paramNamed params p ∈ params := by
  unfold CallPlan.paramNamed
  cases hfind : params.reverse.find? (·.name == p.name) with
  | none => exact hp
  | some q => exact List.mem_reverse.1 (List.mem_of_find?_eq_some hfind)

/-- The slots of a callable are those of its parameters. -/
theorem slots_only (h : ∀ t ∈ f.roots, P t) :
    ∀ slot ∈ (CallPlan.ofCallable table localName symbol f).slots, slot.Only P := by
  refine List.forall_mem_append.2 ⟨fun slot hslot p horigin => ?_, List.forall_mem_map.2 fun q hq p horigin => ?_⟩
  · split at hslot
    · obtain rfl := List.mem_singleton.1 hslot
      exact absurd horigin (by simp)
    · exact absurd hslot List.not_mem_nil
  · obtain rfl := Origin.param.inj horigin
    exact h _ (List.mem_append_left _ (List.mem_map_of_mem (paramNamed_mem hq)))

theorem plain_only (h : ∀ slot ∈ plan.slots, slot.Only P) : ∀ slot ∈ plan.plain, slot.Only P :=
  fun slot hslot => h slot (List.mem_filter.1 hslot).1

theorem owned_only (h : ∀ slot ∈ plan.slots, slot.Only P) : ∀ slot ∈ plan.owned, slot.Only P :=
  fun slot hslot => h slot (List.mem_filter.1 hslot).1

theorem inPlaceSlot_only (h : ∀ slot ∈ plan.slots, slot.Only P) {slot : Slot} (hslot : slot ∈ plan.slots) :
    (plan.inPlaceSlot slot).Only P := by
  unfold CallPlan.inPlaceSlot
  cases hfind : plan.plain.reverse.find? (·.target == slot.target) with
  | none => exact h slot hslot
  | some found => exact plain_only h found (List.mem_reverse.1 (List.mem_of_find?_eq_some hfind))

end Plans

end Bindgen.Emit
