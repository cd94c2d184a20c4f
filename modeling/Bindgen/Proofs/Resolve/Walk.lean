import Bindgen.Proofs.Outcome
import Bindgen.Proofs.Resolve.Reach
import Bindgen.Proofs.Resolve.Table
import Bindgen.Resolve.Check
import Mathlib.Algebra.GroupWithZero.Nat
import Mathlib.Algebra.Order.BigOperators.Group.List
import Mathlib.Algebra.Order.Ring.Nat

/-!
# What a walk settles

`Covered` says how far a type is settled: its by-value part has only names that are done, and what is behind
its boxes is covered too or was put aside. `Walk.Inv` is the invariant of a walk: everything done is covered
and not stored in itself, nothing done is on the stack, and all that was put aside is reached from the root.

`Walked` is what one step of a walk does to it. Besides the invariant it bounds `Walk.debt`, which counts the
boxes that the walk may still put aside: a step for a type adds at most the boxes of the type, so that the
loop takes one from it every time.

Results:
* `walkTy_ok`, `visit_ok`: what a step settles.
* `walkPending_ok`: a loop ends with nothing put aside, and everything that was put aside is covered.
-/

namespace Bindgen.Resolve

open Interface

variable {table : Table}

/-! ## Covered types -/

/-- A type is settled up to the names `done` and the types `aside`. -/
def Covered (table : Table) (done : List String) (aside : List Ty) : Ty → Prop
  | .named name => name ∈ done ∨ ∃ o, table.lookup name = some (.object o)
  | .optional t | .sequence t => Covered table done aside t
  | .map k w => Covered table done aside k ∧ Covered table done aside w
  | .box t => t ∈ aside ∨ Covered table done aside t
  | .prim _ | .string | .bytes => True

theorem Covered.mono {done done' : List String} {aside aside' : List Ty} (hd : done ⊆ done')
    (ha : aside ⊆ aside') {t : Ty} (h : Covered table done aside t) : Covered table done' aside' t := by
  induction t with
  | named name => exact h.imp_left fun hn => hd hn
  | optional t ih | sequence t ih => exact ih h
  | map k w ihk ihw => exact ⟨ihk h.1, ihw h.2⟩
  | box t ih => exact h.imp (fun ht => ha ht) ih
  | prim | string | bytes => trivial

/-- A type that is covered itself does not have to be put aside. -/
theorem Covered.pop {done : List String} {aside : List Ty} {t u : Ty} (ht : Covered table done aside t)
    (h : Covered table done (t :: aside) u) : Covered table done aside u := by
  induction u with
  | named name => exact h
  | optional u ih | sequence u ih => exact ih h
  | map k w ihk ihw => exact ⟨ihk h.1, ihw h.2⟩
  | box u ih =>
    rcases h with h | h
    · rcases List.mem_cons.1 h with rfl | h
      · exact .inr ht
      · exact .inl h
    · exact .inr (ih h)
  | prim | string | bytes => trivial

/-- The names in the by-value part of a covered type are done, or are objects. -/
theorem Covered.of_mem_valueNames {done : List String} {aside : List Ty} {t : Ty} {name : String}
    (h : Covered table done aside t) (hn : name ∈ valueNames t) :
    name ∈ done ∨ ∃ o, table.lookup name = some (.object o) := by
  induction t with
  | named n =>
    obtain rfl := List.mem_singleton.1 hn
    exact h
  | optional t ih | sequence t ih => exact ih h hn
  | map k w ihk ihw =>
    rcases List.mem_append.1 hn with hn | hn
    · exact ihk h.1 hn
    · exact ihw h.2 hn
  | prim | string | bytes | box => exact absurd hn List.not_mem_nil

theorem append_subset_append {α : Type} {l l' : List α} (k : List α) (h : l ⊆ l') : k ++ l ⊆ k ++ l' :=
  List.append_subset.2 ⟨List.subset_append_left k l', fun _ ha => List.mem_append_right k (h ha)⟩

/-- The fields of everything done are covered. -/
def Closed (table : Table) (done : List String) (aside : List Ty) : Prop :=
  ∀ name ∈ done, ∃ d, table.lookup name = some d ∧ ∀ f ∈ d.fields, Covered table done aside f.type

/-- A name that is not done and whose fields are covered is not stored in itself: what it stores is done, and
what is done stores only what is. -/
theorem Closed.acyclic {done : List String} {aside : List Ty} (hc : Closed table done aside) {name : String}
    {d : Definition} (hl : table.lookup name = some d) (ho : d.isObject = false)
    (hf : ∀ f ∈ d.fields, Covered table done aside f.type) (hn : name ∉ done) :
    ¬ Relation.TransGen (Stores table) name name := by
  have hstart : ∀ b, Stores table name b → b ∈ done ∨ ∃ o, table.lookup b = some (.object o) := by
    rintro b ⟨e, he, f, hf', hb⟩
    obtain rfl := Option.some.inj (hl.symm.trans he)
    exact (hf f hf').of_mem_valueNames hb
  have hstep : ∀ a b, (a ∈ done ∨ ∃ o, table.lookup a = some (.object o)) → Stores table a b →
      b ∈ done ∨ ∃ o, table.lookup b = some (.object o) := by
    rintro a b ha ⟨e, he, f, hf', hb⟩
    rcases ha with ha | ⟨o, ho⟩
    · obtain ⟨e', he', hcov⟩ := hc a ha
      obtain rfl := Option.some.inj (he.symm.trans he')
      exact (hcov f hf').of_mem_valueNames hb
    · obtain rfl := Option.some.inj (he.symm.trans ho)
      exact absurd hf' List.not_mem_nil
  intro h
  have hall : ∀ b, Relation.TransGen (Stores table) name b → b ∈ done ∨ ∃ o, table.lookup b = some (.object o) := by
    intro b hb
    induction hb with
    | single h => exact hstart _ h
    | tail _ h ih => exact hstep _ _ ih h
  rcases hall name h with h | ⟨o, h⟩
  · exact hn h
  · obtain rfl := Option.some.inj (hl.symm.trans h)
    exact absurd ho (by simp [Definition.isObject])

/-- Everything that a covered type reaches is covered, if nothing is put aside. -/
theorem Closed.covered_of_reaches {done : List String} (hc : Closed table done []) {t s : Ty}
    (ht : Covered table done [] t) (h : Reaches table t s) : Covered table done [] s := by
  induction h with
  | refl => exact ht
  | @tail b c _ hu ih =>
    cases hu with
    | child hs =>
      cases b with
      | optional t | sequence t =>
        obtain rfl := List.mem_singleton.1 hs
        exact ih
      | map k w =>
        rcases List.mem_cons.1 hs with rfl | hs
        · exact ih.1
        · obtain rfl := List.mem_singleton.1 hs
          exact ih.2
      | box t =>
        obtain rfl := List.mem_singleton.1 hs
        exact ih.resolve_left List.not_mem_nil
      | prim | string | bytes | named => exact absurd hs List.not_mem_nil
    | field hd hf =>
      rcases ih with ih | ⟨o, ho⟩
      · obtain ⟨e, he, hcov⟩ := hc _ ih
        obtain rfl := Option.some.inj (hd.symm.trans he)
        exact hcov _ hf
      · obtain rfl := Option.some.inj (hd.symm.trans ho)
        exact absurd hf List.not_mem_nil

theorem isObject_eq_true {name : String} {d : Definition} (hl : table.lookup name = some d)
    (h : d.isObject = true) : ∃ o, table.lookup name = some (.object o) := by
  cases d with
  | object o => exact ⟨o, hl⟩
  | record | enum | error => exact absurd h Bool.false_ne_true

/-! ## Steps -/

/-- The types put aside. -/
def Walk.aside (w : Walk) : List Ty := w.pending.map (·.1)

/-- How many boxes are in the fields of a definition. -/
def fieldBoxes (fs : List Field) : Nat := (fs.map fun f => f.type.boxes).sum

/-- How often the loop may still go round: once for everything put aside and every box in it, and once for
every box in a definition that is not done. -/
def Walk.debt (table : Table) (checked : List String) (w : Walk) : Nat :=
  (w.aside.map fun t => t.boxes + 1).sum +
    (table.map fun p => if p.1 ∈ checked ++ w.done then 0 else fieldBoxes p.2.fields).sum

/-- The invariant of a walk from `root`. Types that were put aside and are being walked are in `extra`. -/
structure Walk.Inv (table : Table) (checked : List String) (root : Ty) (extra : List Ty)
    (stack : List String) (w : Walk) : Prop where
  closed : Closed table (checked ++ w.done) (extra ++ w.aside)
  acyclic : ∀ name ∈ checked ++ w.done, ¬ Relation.TransGen (Stores table) name name
  fresh : ∀ name ∈ stack, name ∉ checked ++ w.done
  reached : ∀ t ∈ w.aside, Reaches table root t

/-- What a step does that comes upon no more than `n` boxes. -/
structure Walked (table : Table) (checked : List String) (root : Ty) (extra : List Ty) (stack : List String)
    (n : Nat) (w w' : Walk) : Prop where
  inv : w'.Inv table checked root extra stack
  done : w.done ⊆ w'.done
  aside : w.aside ⊆ w'.aside
  debt : w'.debt table checked ≤ w.debt table checked + n

variable {checked : List String} {root : Ty} {extra : List Ty} {stack : List String}

theorem Walked.refl {w : Walk} (h : w.Inv table checked root extra stack) :
    Walked table checked root extra stack 0 w w :=
  ⟨h, fun _ hn => hn, fun _ ht => ht, Nat.le_refl _⟩

theorem Walked.trans {w₁ w₂ w₃ : Walk} {m n : Nat} (h : Walked table checked root extra stack m w₁ w₂)
    (h' : Walked table checked root extra stack n w₂ w₃) :
    Walked table checked root extra stack (m + n) w₁ w₃ := by
  refine ⟨h'.inv, fun _ hn => h'.done (h.done hn), fun _ ht => h'.aside (h.aside ht), ?_⟩
  have h₁ := h.debt
  have h₂ := h'.debt
  omega

/-- What is covered stays covered. -/
theorem Walked.covered {w w' : Walk} {n : Nat} (h : Walked table checked root extra stack n w w') {t : Ty}
    (ht : Covered table (checked ++ w.done) w.aside t) : Covered table (checked ++ w'.done) w'.aside t :=
  ht.mono (append_subset_append checked h.done) h.aside

/-- What is behind a box is put aside. -/
theorem walked_box {w : Walk} (hi : w.Inv table checked root extra stack) {t : Ty} (context : Option String)
    (hr : Reaches table root t) :
    Walked table checked root extra stack (t.boxes + 1) w { w with pending := (t, context) :: w.pending } := by
  have hsub : w.aside ⊆ t :: w.aside := List.subset_cons_self t w.aside
  refine ⟨⟨?_, hi.acyclic, hi.fresh, ?_⟩, fun _ hn => hn, hsub, ?_⟩
  · intro name hn
    obtain ⟨d, hd, hf⟩ := hi.closed name hn
    exact ⟨d, hd, fun f hm => (hf f hm).mono (fun _ h => h) (append_subset_append extra hsub)⟩
  · intro s hs
    rcases List.mem_cons.1 hs with rfl | hs
    · exact hr
    · exact hi.reached s hs
  · unfold Walk.debt
    show ((t :: w.aside).map fun t => t.boxes + 1).sum + _ ≤ _
    rw [List.map_cons, List.sum_cons]
    simp only
    omega

section Step

variable {visit : Option String → String → Walk → Except Failure Walk}
  (hvisit : ∀ context name w w', visit context name w = .ok w' → w.Inv table checked root extra stack →
    Reaches table root (.named name) →
    Walked table checked root extra stack 0 w w' ∧ Covered table (checked ++ w'.done) w'.aside (.named name))
include hvisit

/-- **A step for a type covers it**, if a visit of a name covers that. The induction is on the type. -/
theorem walkTy_ok {context : Option String} {t : Ty} {w w' : Walk}
    (h : walkTy visit context t w = .ok w') (hi : w.Inv table checked root extra stack)
    (hr : Reaches table root t) :
    Walked table checked root extra stack t.boxes w w' ∧ Covered table (checked ++ w'.done) w'.aside t := by
  induction t generalizing w w' with
  | prim | string | bytes =>
    obtain rfl := Except.ok.inj h
    exact ⟨.refl hi, trivial⟩
  | optional t ih | sequence t ih => exact ih h hi (hr.tail (.child List.mem_cons_self))
  | map k v ihk ihv =>
    obtain ⟨u, hu, h⟩ := bind_eq_ok.1 h
    obtain ⟨hk, hck⟩ := ihk hu hi (hr.tail (.child List.mem_cons_self))
    obtain ⟨hv, hcv⟩ := ihv h hk.inv (hr.tail (.child (List.mem_cons_of_mem k List.mem_cons_self)))
    exact ⟨hk.trans hv, hv.covered hck, hcv⟩
  | named name => exact hvisit context name w w' h hi hr
  | box t =>
    obtain rfl := Except.ok.inj h
    exact ⟨walked_box hi context (hr.tail (.child List.mem_cons_self)), .inl List.mem_cons_self⟩

/-- A step for each of some fields covers them. -/
theorem walkFields_ok {context : Field → Option String} {fs : List Field} {w w' : Walk}
    (h : fs.foldlM (fun w f => walkTy visit (context f) f.type w) w = .ok w')
    (hi : w.Inv table checked root extra stack) (hr : ∀ f ∈ fs, Reaches table root f.type) :
    Walked table checked root extra stack (fieldBoxes fs) w w' ∧
      ∀ f ∈ fs, Covered table (checked ++ w'.done) w'.aside f.type := by
  induction fs generalizing w with
  | nil =>
    obtain rfl := Except.ok.inj h
    exact ⟨.refl hi, fun _ hf => absurd hf List.not_mem_nil⟩
  | cons f fs ih =>
    rw [List.foldlM_cons] at h
    rw [List.forall_mem_cons] at hr
    obtain ⟨u, hu, h⟩ := bind_eq_ok.1 h
    obtain ⟨hf, hcf⟩ := walkTy_ok hvisit hu hi hr.1
    obtain ⟨hfs, hcfs⟩ := ih h hf.inv hr.2
    rw [List.forall_mem_cons]
    exact ⟨hf.trans hfs, hfs.covered hcf, hcfs⟩

end Step

/-! ## Visits -/

/-- A sum goes down by what one of its items goes down. -/
theorem sum_map_add_le {α : Type} {l : List α} {f g : α → Nat} {k : Nat} (h : ∀ a ∈ l, f a ≤ g a) {a : α}
    (ha : a ∈ l) (hk : f a + k ≤ g a) : (l.map f).sum + k ≤ (l.map g).sum := by
  induction l with
  | nil => exact absurd ha List.not_mem_nil
  | cons b l ih =>
    rw [List.forall_mem_cons] at h
    simp only [List.map_cons, List.sum_cons]
    rcases List.mem_cons.1 ha with rfl | ha
    · have hle : (l.map f).sum ≤ (l.map g).sum := List.sum_le_sum h.2
      have hb := h.1
      omega
    · have hle := ih h.2 ha
      have hb := h.1
      omega

/-- A name on the stack whose fields are covered is done. -/
theorem inv_done {w : Walk} {name : String} {d : Definition}
    (hi : w.Inv table checked root extra (stack ++ [name])) (hl : table.lookup name = some d)
    (ho : d.isObject = false) (hf : ∀ f ∈ d.fields, Covered table (checked ++ w.done) w.aside f.type)
    (hs : name ∉ stack) :
    ({ w with done := w.done ++ [name] } : Walk).Inv table checked root extra stack := by
  have hn : name ∉ checked ++ w.done := hi.fresh name (by simp)
  have hsub : checked ++ w.done ⊆ checked ++ (w.done ++ [name]) :=
    append_subset_append checked (List.subset_append_left _ _)
  have hmem : ∀ n, n ∈ checked ++ (w.done ++ [name]) ↔ n ∈ checked ++ w.done ∨ n = name := by
    intro n
    rw [← List.append_assoc, List.mem_append, List.mem_singleton]
  have hf : ∀ f ∈ d.fields, Covered table (checked ++ w.done) (extra ++ w.aside) f.type :=
    fun f hm => (hf f hm).mono (fun _ h => h) (List.subset_append_right _ _)
  constructor
  · intro n h
    rcases (hmem n).1 h with h | rfl
    · obtain ⟨e, he, hc⟩ := hi.closed n h
      exact ⟨e, he, fun f hm => (hc f hm).mono hsub (fun _ h => h)⟩
    · exact ⟨d, hl, fun f hm => (hf f hm).mono hsub (fun _ h => h)⟩
  · intro n h
    rcases (hmem n).1 h with h | rfl
    · exact hi.acyclic n h
    · exact hi.closed.acyclic hl ho hf hn
  · intro n h hd
    rcases (hmem n).1 hd with hd | rfl
    · exact hi.fresh n (List.mem_append_left _ h) hd
    · exact hs h
  · exact hi.reached

/-- With a name that becomes done, the boxes in its fields are not owed any more. -/
theorem debt_done {w : Walk} {name : String} {d : Definition} (hn : name ∉ checked ++ w.done)
    (hl : table.lookup name = some d) :
    ({ w with done := w.done ++ [name] } : Walk).debt table checked + fieldBoxes d.fields ≤
      w.debt table checked := by
  have hmem : (name, d) ∈ table := mem_of_lookup hl
  have hle : (table.map fun p => if p.1 ∈ checked ++ (w.done ++ [name]) then 0 else fieldBoxes p.2.fields).sum +
      fieldBoxes d.fields ≤
      (table.map fun p => if p.1 ∈ checked ++ w.done then 0 else fieldBoxes p.2.fields).sum := by
    refine sum_map_add_le (fun p _ => ?_) hmem ?_
    · by_cases hp : p.1 ∈ checked ++ w.done
      · rw [if_pos hp, if_pos (append_subset_append checked (List.subset_append_left _ _) hp)]
      · rw [if_neg hp]
        split <;> omega
    · rw [if_neg hn, if_pos (by simp), Nat.zero_add]
  unfold Walk.debt
  show (w.aside.map fun t => t.boxes + 1).sum + _ + _ ≤ _
  simp only at hle ⊢
  omega

theorem resolve_eq_ok {context : Option String} {name : String} {d : Definition} :
    table.resolve name context = .ok d ↔ table.lookup name = some d := by
  unfold Table.resolve
  cases table.lookup name with
  | none => simp
  | some e => simp

/-- How a visit comes to an end: the name is that of an object, or done already, or it is walked inside. -/
theorem visitName_eq_ok {context : Option String} {name : String} {w w' : Walk}
    {inside : Definition → Except Failure Walk}
    (h : visitName table checked stack context name w inside = .ok w') :
    ∃ d, table.lookup name = some d ∧ (d.isObject = true ∧ w' = w ∨
      name ∈ checked ++ w.done ∧ w' = w ∨
      d.isObject = false ∧ name ∉ stack ∧ name ∉ checked ++ w.done ∧
        ∃ u, inside d = .ok u ∧ w' = { u with done := u.done ++ [name] }) := by
  obtain ⟨d, hd, h⟩ := bind_eq_ok.1 h
  refine ⟨d, resolve_eq_ok.1 hd, ?_⟩
  rw [List.mem_append]
  by_cases ho : d.isObject = true
  · rw [if_pos ho] at h
    exact .inl ⟨ho, (Except.ok.inj h).symm⟩
  · rw [if_neg ho] at h
    by_cases hs : name ∈ stack
    · rw [if_pos hs] at h
      exact absurd h (by simp)
    · rw [if_neg hs] at h
      by_cases hn : name ∈ checked ∨ name ∈ w.done
      · rw [if_pos hn] at h
        exact .inr (.inl ⟨hn, (Except.ok.inj h).symm⟩)
      · rw [if_neg hn] at h
        obtain ⟨u, hu, h⟩ := bind_eq_ok.1 h
        exact .inr (.inr ⟨by simpa using ho, hs, hn, u, hu, (pure_eq_ok.1 h).symm⟩)

/-- **A visit of a name covers it.** The induction is on the fuel, of which every level of fields takes one. -/
theorem visit_ok {fuel : Nat} {stack : List String} {context : Option String} {name : String} {w w' : Walk}
    (h : visit table checked fuel stack context name w = .ok w')
    (hi : w.Inv table checked root extra stack) (hr : Reaches table root (.named name)) :
    Walked table checked root extra stack 0 w w' ∧
      Covered table (checked ++ w'.done) w'.aside (.named name) := by
  induction fuel generalizing stack context name w w' with
  | zero =>
    obtain ⟨d, hl, ⟨ho, rfl⟩ | ⟨hn, rfl⟩ | ⟨-, -, -, u, hu, -⟩⟩ := visitName_eq_ok h
    · exact ⟨.refl hi, .inr (isObject_eq_true hl ho)⟩
    · exact ⟨.refl hi, .inl hn⟩
    · exact absurd hu (by simp)
  | succ fuel ih =>
    obtain ⟨d, hl, ⟨ho, rfl⟩ | ⟨hn, rfl⟩ | ⟨ho, hs, hn, u, hu, rfl⟩⟩ := visitName_eq_ok h
    · exact ⟨.refl hi, .inr (isObject_eq_true hl ho)⟩
    · exact ⟨.refl hi, .inl hn⟩
    · have hpush : w.Inv table checked root extra (stack ++ [name]) := by
        refine ⟨hi.closed, hi.acyclic, fun n hm => ?_, hi.reached⟩
        rcases List.mem_append.1 hm with hm | hm
        · exact hi.fresh n hm
        · exact List.mem_singleton.1 hm ▸ hn
      have hfields : ∀ f ∈ d.fields, Reaches table root f.type := fun f hf => hr.tail (.field hl hf)
      obtain ⟨hw, hc⟩ := walkFields_ok (fun _ _ _ _ h hi hr => ih h hi hr) hu hpush hfields
      refine ⟨⟨inv_done hw.inv hl ho hc hs, ?_, hw.aside, ?_⟩, .inl (by simp)⟩
      · exact fun n hm => List.mem_append_left _ (hw.done hm)
      · have h₁ := debt_done (hw.inv.fresh name (by simp)) hl
        have h₂ := hw.debt
        omega

/-! ## The loop -/

/-- A walk from which the last type put aside is taken, for this to be walked. -/
theorem inv_next {t : Ty} {context : Option String} {rest : List (Ty × Option String)} {w : Walk}
    (hp : w.pending = (t, context) :: rest) (hi : w.Inv table checked root [] []) :
    ({ w with pending := rest } : Walk).Inv table checked root [t] [] ∧ Reaches table root t ∧
      ({ w with pending := rest } : Walk).debt table checked + (t.boxes + 1) = w.debt table checked := by
  have haside : w.aside = t :: rest.map (·.1) := by
    unfold Walk.aside
    rw [hp]
    rfl
  have hclosed := hi.closed
  have hreached := hi.reached
  rw [haside] at hclosed hreached
  refine ⟨⟨hclosed, hi.acyclic, hi.fresh, fun s hs => hreached s (List.mem_cons_of_mem t hs)⟩,
    hreached t List.mem_cons_self, ?_⟩
  unfold Walk.debt
  rw [haside, List.map_cons, List.sum_cons]
  show (List.map _ (rest.map (·.1))).sum + _ + _ = _
  simp only
  omega

/-- What was put aside and is walked is covered, and so is what relied on it. -/
theorem inv_walked {t : Ty} {context : Option String} {w w' : Walk}
    (h : walkTy (visit table checked table.length []) context t w = .ok w')
    (hi : w.Inv table checked root [t] []) (hr : Reaches table root t) :
    w'.Inv table checked root [] [] ∧ w'.debt table checked ≤ w.debt table checked + t.boxes ∧
      w.done ⊆ w'.done ∧ ∀ u, Covered table (checked ++ w.done) (t :: w.aside) u →
        Covered table (checked ++ w'.done) w'.aside u := by
  obtain ⟨hw, hc⟩ := walkTy_ok (fun _ _ _ _ h hi hr => visit_ok h hi hr) h hi hr
  refine ⟨⟨?_, hw.inv.acyclic, hw.inv.fresh, hw.inv.reached⟩, hw.debt, hw.done, fun u hu => hc.pop ?_⟩
  · intro n hn
    obtain ⟨d, hd, hf⟩ := hw.inv.closed n hn
    exact ⟨d, hd, fun f hm => hc.pop (hf f hm)⟩
  · exact hu.mono (append_subset_append checked hw.done) (List.cons_subset_cons t hw.aside)

/-- Nothing is put aside where nothing is owed. -/
theorem pending_eq_nil {w : Walk} (h : w.debt table checked ≤ 0) : w.pending = [] := by
  cases hp : w.pending with
  | nil => rfl
  | cons p rest =>
    unfold Walk.debt Walk.aside at h
    rw [hp, List.map_cons, List.map_cons, List.sum_cons] at h
    omega

/-- A loop that has come to its end: nothing is put aside any more, and what relied on that is covered. -/
structure Finished (table : Table) (checked : List String) (root : Ty) (w w' : Walk) : Prop where
  inv : w'.Inv table checked root [] []
  pending : w'.pending = []
  done : w.done ⊆ w'.done
  covered : ∀ t, Covered table (checked ++ w.done) w.aside t → Covered table (checked ++ w'.done) [] t

theorem aside_eq_nil {w : Walk} (h : w.pending = []) : w.aside = [] := by
  unfold Walk.aside
  rw [h]
  rfl

theorem Finished.refl {w : Walk} (hi : w.Inv table checked root [] []) (h : w.pending = []) :
    Finished table checked root w w :=
  ⟨hi, h, fun _ hn => hn, fun _ ht => aside_eq_nil h ▸ ht⟩

/-- **The loop comes to its end.** The induction is on the fuel, of which there is as much as is owed. -/
theorem walkPending_ok {fuel : Nat} {w w' : Walk} (h : walkPending table checked fuel w = .ok w')
    (hi : w.Inv table checked root [] []) (hd : w.debt table checked ≤ fuel) :
    Finished table checked root w w' := by
  induction fuel generalizing w with
  | zero =>
    obtain rfl := Except.ok.inj h
    exact .refl hi (pending_eq_nil hd)
  | succ fuel ih =>
    unfold walkPending at h
    cases hp : w.pending with
    | nil =>
      rw [hp] at h
      obtain rfl := Except.ok.inj h
      exact .refl hi hp
    | cons p rest =>
      obtain ⟨t, context⟩ := p
      rw [hp] at h
      obtain ⟨u, hu, h⟩ := bind_eq_ok.1 h
      obtain ⟨hnext, hr, hdebt⟩ := inv_next hp hi
      obtain ⟨hinv, hdebt', hdone, hcov⟩ := inv_walked hu hnext hr
      have hend := ih h hinv (by omega)
      have haside : w.aside = t :: ({ w with pending := rest } : Walk).aside := by
        unfold Walk.aside
        rw [hp]
        rfl
      refine ⟨hend.inv, hend.pending, fun _ hn => hend.done (hdone hn), fun v hv => ?_⟩
      exact hend.covered v (hcov v (haside ▸ hv))

end Bindgen.Resolve
