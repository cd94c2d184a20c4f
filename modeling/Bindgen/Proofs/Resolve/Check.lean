import Bindgen.Proofs.Resolve.Walk

/-!
# What a check decides

A check of a type succeeds just when the type is `Sound`, and a failure `Blames` names that the type reaches.
The checker may have checked other types before: what it remembers is `Valid`, which means that a walk from
scratch would find the same.

The walk is written with fuel, which bounds the depth of visits by the size of the table and the rounds of the
loop by the boxes. More fuel changes nothing, so that neither bound is ever the reason for an answer.

Results:
* `visit_fuel`, `walkPending_fuel`: more fuel changes nothing.
* `visit_blames`, `walkPending_blames`: what a failure says is true.
* `check_decides`: a check decides soundness, and its failures are true.
-/

namespace Bindgen.Resolve

open Interface

variable {table : Table} {checked : List String} {root : Ty}

/-! ## The stack -/

/-- The names of a stack differ and have definitions. -/
structure Stacked (table : Table) (stack : List String) : Prop where
  nodup : stack.Nodup
  defined : ∀ name ∈ stack, ∃ d, table.lookup name = some d

theorem Stacked.push {stack : List String} (h : Stacked table stack) {name : String} {d : Definition}
    (hn : name ∉ stack) (hl : table.lookup name = some d) : Stacked table (stack ++ [name]) := by
  constructor
  · exact List.nodup_append.2 ⟨h.nodup, List.nodup_singleton name, fun a ha b hb hab =>
      hn (List.mem_singleton.1 hb ▸ hab ▸ ha)⟩
  · intro n hm
    rcases List.mem_append.1 hm with hm | hm
    · exact h.defined n hm
    · exact ⟨d, List.mem_singleton.1 hm ▸ hl⟩

/-- A stack is no higher than the table. -/
theorem Stacked.length_le {stack : List String} (h : Stacked table stack) : stack.length ≤ table.length := by
  have hsub : stack ⊆ table.map (·.1) := by
    intro n hn
    obtain ⟨d, hd⟩ := h.defined n hn
    exact List.mem_map_of_mem (mem_of_lookup hd)
  have := h.nodup.length_le_of_subset hsub
  rwa [List.length_map] at this

/-- A visit that still has to look inside finds room on the stack. -/
theorem Stacked.lt {stack : List String} (h : Stacked table stack) {name : String} {d : Definition}
    (hn : name ∉ stack) (hl : table.lookup name = some d) : stack.length < table.length := by
  have := (h.push hn hl).length_le
  rwa [List.length_append] at this

/-! ## Fuel -/

theorem visitName_congr {stack : List String} {context : Option String} {name : String} {w : Walk}
    {inside inside' : Definition → Except Failure Walk}
    (h : ∀ d, table.lookup name = some d → name ∉ stack → inside d = inside' d) :
    visitName table checked stack context name w inside =
      visitName table checked stack context name w inside' := by
  unfold visitName
  cases hl : table.resolve name context with
  | error e => rfl
  | ok d =>
    by_cases hs : name ∈ stack
    · simp only [bind_ok, if_pos hs]
    · rw [bind_ok, bind_ok, h d (resolve_eq_ok.1 hl) hs]

/-- **More fuel does not change a visit** whose fuel reaches as far as the table. -/
theorem visit_fuel {fuel : Nat} {stack : List String} (hs : Stacked table stack)
    (hf : table.length ≤ fuel + stack.length) (more : Nat) (context : Option String) (name : String)
    (w : Walk) : visit table checked (fuel + more) stack context name w =
      visit table checked fuel stack context name w := by
  induction fuel generalizing stack context name w with
  | zero =>
    cases more with
    | zero => rfl
    | succ more =>
      refine visitName_congr fun d hl hn => ?_
      have := hs.lt hn hl
      omega
  | succ fuel ih =>
    rw [show fuel + 1 + more = (fuel + more) + 1 by omega]
    refine visitName_congr fun d hl hn => ?_
    have hroom : table.length ≤ fuel + (stack ++ [name]).length := by
      rw [List.length_append, List.length_singleton]
      omega
    have hvisit : visit table checked (fuel + more) (stack ++ [name]) =
        visit table checked fuel (stack ++ [name]) :=
      funext fun c => funext fun n => funext fun w => ih (hs.push hn hl) hroom c n w
    rw [hvisit]

/-- **More fuel does not change the loop** if it has as much as is owed. -/
theorem walkPending_fuel {fuel : Nat} {w : Walk} (hi : w.Inv table checked root [] [])
    (hd : w.debt table checked ≤ fuel) (more : Nat) :
    walkPending table checked (fuel + more) w = walkPending table checked fuel w := by
  induction fuel generalizing w with
  | zero =>
    have hp := pending_eq_nil hd
    cases more with
    | zero => rfl
    | succ more =>
      simp only [walkPending, hp]
  | succ fuel ih =>
    rw [show fuel + 1 + more = (fuel + more) + 1 by omega]
    unfold walkPending
    cases hp : w.pending with
    | nil => rfl
    | cons p rest =>
      obtain ⟨t, context⟩ := p
      obtain ⟨hnext, hr, hdebt⟩ := inv_next hp hi
      simp only
      cases hu : walkTy (visit table checked table.length []) context t { w with pending := rest } with
      | error e => rfl
      | ok u =>
        obtain ⟨hinv, hdebt', -, -⟩ := inv_walked hu hnext hr
        exact ih hinv (by omega)

/-! ## Failures -/

/-- The path from the root to what is visited: the names on the stack are reached and stored in each other,
the next one in the last. -/
structure Trail (table : Table) (root : Ty) (stack : List String) (name : String) : Prop where
  stacked : Stacked table stack
  chain : List.IsChain (Stores table) (stack ++ [name])
  reached : ∀ n ∈ stack ++ [name], Reaches table root (.named n)

theorem Trail.push {stack : List String} {name : String} (h : Trail table root stack name) {d : Definition}
    (hn : name ∉ stack) (hl : table.lookup name = some d) {f : Field} (hf : f ∈ d.fields) {n : String}
    (hm : n ∈ valueNames f.type) : Trail table root (stack ++ [name]) n := by
  have hstores : Stores table name n := ⟨d, hl, f, hf, hm⟩
  have hroot : Reaches table root (.named name) := h.reached name (by simp)
  refine ⟨h.stacked.push hn hl, ?_, ?_⟩
  · rw [List.append_assoc, List.singleton_append, List.isChain_append_cons_cons]
    exact ⟨h.chain, hstores, List.isChain_singleton n⟩
  · intro k hk
    rcases List.mem_append.1 hk with hk | hk
    · exact h.reached k hk
    · obtain rfl := List.mem_singleton.1 hk
      exact (hroot.tail (.field hl hf)).trans (reaches_of_mem_valueNames hm)

/-- A step for a type fails for what a visit of a name in it fails for. -/
theorem walkTy_error {visit : Option String → String → Walk → Except Failure Walk}
    {context : Option String} {t : Ty} {w : Walk} {e : Failure} (h : walkTy visit context t w = .error e) :
    ∃ name ∈ valueNames t, ∃ w, visit context name w = .error e := by
  induction t generalizing w with
  | prim | string | bytes | box => exact absurd h (by simp [walkTy])
  | optional t ih | sequence t ih => exact ih h
  | map k v ihk ihv =>
    rcases bind_eq_error.1 h with h | ⟨u, -, h⟩
    · obtain ⟨n, hn, hw⟩ := ihk h
      exact ⟨n, List.mem_append_left _ hn, hw⟩
    · obtain ⟨n, hn, hw⟩ := ihv h
      exact ⟨n, List.mem_append_right _ hn, hw⟩
  | named name => exact ⟨name, List.mem_cons_self, w, h⟩

theorem foldlM_error {α β ε : Type} {f : β → α → Except ε β} {xs : List α} {b : β} {e : ε}
    (h : xs.foldlM f b = .error e) : ∃ x ∈ xs, ∃ c, f c x = .error e := by
  induction xs generalizing b with
  | nil => exact absurd h (by simp [pure, Except.pure])
  | cons x xs ih =>
    rw [List.foldlM_cons] at h
    rcases bind_eq_error.1 h with h | ⟨c, -, h⟩
    · exact ⟨x, List.mem_cons_self, b, h⟩
    · obtain ⟨y, hy, hc⟩ := ih h
      exact ⟨y, List.mem_cons_of_mem x hy, hc⟩

/-- How a visit fails: the name has no definition, or is on the stack, or the walk inside fails. -/
theorem visitName_eq_error {stack : List String} {context : Option String} {name : String} {w : Walk}
    {inside : Definition → Except Failure Walk} {e : Failure}
    (h : visitName table checked stack context name w inside = .error e) :
    table.lookup name = none ∧ e = .unresolved name context ∨
    name ∈ stack ∧ e = .recursive (fromName name stack ++ [name]) ∨
    name ∉ stack ∧ ∃ d, table.lookup name = some d ∧ inside d = .error e := by
  rcases bind_eq_error.1 h with h | ⟨d, hd, h⟩
  · unfold Table.resolve at h
    cases hl : table.lookup name with
    | none =>
      rw [hl] at h
      exact .inl ⟨rfl, (Except.error.inj h).symm⟩
    | some d => rw [hl] at h; exact absurd h (by simp)
  · refine .inr ?_
    by_cases ho : d.isObject = true
    · rw [if_pos ho] at h
      exact absurd h (by simp)
    · rw [if_neg ho] at h
      by_cases hs : name ∈ stack
      · rw [if_pos hs] at h
        exact .inl ⟨hs, (Except.error.inj h).symm⟩
      · rw [if_neg hs] at h
        by_cases hn : name ∈ checked ∨ name ∈ w.done
        · rw [if_pos hn] at h
          exact absurd h (by simp)
        · rw [if_neg hn] at h
          rcases bind_eq_error.1 h with h | ⟨u, -, h⟩
          · exact .inr ⟨hs, d, resolve_eq_ok.1 hd, h⟩
          · exact absurd h (by simp [pure, Except.pure])

/-- The names from the first occurrence of a name on begin with it and end a list of names. -/
theorem fromName_eq {name : String} {stack : List String} (h : name ∈ stack) :
    ∃ front others, fromName name stack = name :: others ∧ stack = front ++ name :: others := by
  induction stack with
  | nil => exact absurd h List.not_mem_nil
  | cons n ns ih =>
    unfold fromName
    by_cases he : n = name
    · subst he
      exact ⟨[], ns, if_pos rfl, rfl⟩
    · obtain ⟨front, others, hf, hs⟩ := ih ((List.mem_cons.1 h).resolve_left fun h => he h.symm)
      rw [if_neg he]
      exact ⟨n :: front, others, hf, congrArg (n :: ·) hs⟩

/-- A name that is on the stack is stored in itself along the stack. -/
theorem Trail.blames {stack : List String} {name : String} (h : Trail table root stack name)
    (hs : name ∈ stack) : Blames table root (.recursive (fromName name stack ++ [name])) := by
  obtain ⟨front, others, hf, hstack⟩ := fromName_eq hs
  have hchain := h.chain
  have hreached := h.reached
  rw [hstack, List.append_assoc] at hchain hreached
  rw [hf]
  exact .recursive hchain.right_of_append fun n hn => hreached n (List.mem_append_right front hn)

/-- **What a failed visit says is true.** The induction is on the fuel: a visit that has none left finds no
room on the stack for another name, so it does not look inside. -/
theorem visit_blames {fuel : Nat} {stack : List String} {context : Option String} {name : String} {w : Walk}
    {e : Failure} (h : visit table checked fuel stack context name w = .error e)
    (ht : Trail table root stack name) (hf : table.length ≤ fuel + stack.length) : Blames table root e := by
  induction fuel generalizing stack context name w with
  | zero =>
    obtain ⟨hl, rfl⟩ | ⟨hs, rfl⟩ | ⟨hn, d, hl, -⟩ := visitName_eq_error h
    · exact .unresolved hl (ht.reached name (by simp))
    · exact ht.blames hs
    · have := ht.stacked.lt hn hl
      omega
  | succ fuel ih =>
    obtain ⟨hl, rfl⟩ | ⟨hs, rfl⟩ | ⟨hn, d, hl, h⟩ := visitName_eq_error h
    · exact .unresolved hl (ht.reached name (by simp))
    · exact ht.blames hs
    · obtain ⟨f, hm, u, h⟩ := foldlM_error h
      obtain ⟨n, hv, u, h⟩ := walkTy_error h
      refine ih h (ht.push hn hl hm hv) ?_
      rw [List.length_append, List.length_singleton]
      omega

/-- **What a failed loop says is true.** -/
theorem walkPending_blames {fuel : Nat} {w : Walk} {e : Failure}
    (h : walkPending table checked fuel w = .error e) (hi : w.Inv table checked root [] []) :
    Blames table root e := by
  induction fuel generalizing w with
  | zero => exact absurd h (by simp [walkPending])
  | succ fuel ih =>
    unfold walkPending at h
    cases hp : w.pending with
    | nil => rw [hp] at h; exact absurd h (by simp)
    | cons p rest =>
      obtain ⟨t, context⟩ := p
      rw [hp] at h
      obtain ⟨hnext, hr, -⟩ := inv_next hp hi
      rcases bind_eq_error.1 h with h | ⟨u, hu, h⟩
      · obtain ⟨name, hn, u, h⟩ := walkTy_error h
        refine visit_blames h ⟨⟨List.nodup_nil, fun _ hm => absurd hm List.not_mem_nil⟩, ?_, ?_⟩ (by simp)
        · exact List.isChain_singleton name
        · intro n hm
          obtain rfl := List.mem_singleton.1 hm
          exact hr.trans (reaches_of_mem_valueNames hn)
      · exact ih h (inv_walked hu hnext hr).1

/-! ## Checkers -/

namespace Checker

/-- What a checker remembers is settled: it has definitions whose fields are covered, and is not stored in
itself. -/
structure Valid (c : Checker) : Prop where
  closed : Closed c.table c.checked []
  acyclic : ∀ name ∈ c.checked, ¬ Relation.TransGen (Stores c.table) name name

/-- The start of a walk. -/
def start (t : Ty) (context : Option String) : Walk := ⟨[], [(t, context)]⟩

variable {c : Checker} {t : Ty} {context : Option String}

theorem Valid.inv_start (hv : c.Valid) : (start t context).Inv c.table c.checked t [] [] := by
  have hsub : c.checked ++ (start t context).done = c.checked := List.append_nil c.checked
  refine ⟨?_, ?_, fun _ hn => absurd hn List.not_mem_nil, ?_⟩
  · rw [hsub]
    intro n hn
    obtain ⟨d, hd, hf⟩ := hv.closed n hn
    exact ⟨d, hd, fun f hm => (hf f hm).mono (fun _ h => h) (List.nil_subset _)⟩
  · rw [hsub]
    exact hv.acyclic
  · intro s hs
    obtain rfl := List.mem_singleton.1 hs
    exact .refl

theorem foldl_boxes (fs : List Field) (n : Nat) :
    fs.foldl (fun n f => n + f.type.boxes) n = n + fieldBoxes fs := by
  induction fs generalizing n with
  | nil => rfl
  | cons f fs ih =>
    rw [List.foldl_cons, ih]
    unfold fieldBoxes
    rw [List.map_cons, List.sum_cons]
    omega

/-- The bound of the loop is what it owes at the start. -/
theorem debt_start_le : (start t context).debt c.table c.checked ≤ pendingBound c.table t + 1 := by
  have hle : (c.table.map fun p => if p.1 ∈ c.checked ++ (start t context).done then 0
      else fieldBoxes p.2.fields).sum ≤ (c.table.map fun p => fieldBoxes p.2.fields).sum := by
    refine List.sum_le_sum fun p _ => ?_
    split <;> omega
  have hfields : (c.table.map fun p => fieldBoxes p.2.fields).sum =
      fieldBoxes (c.table.flatMap fun p => p.2.fields) := by
    induction c.table with
    | nil => rfl
    | cons p ps ih =>
      rw [List.map_cons, List.sum_cons, ih, List.flatMap_cons]
      unfold fieldBoxes
      rw [List.map_append, List.sum_append]
  have haside : ((start t context).aside.map fun t => t.boxes + 1).sum = t.boxes + 1 := by
    simp [start, Walk.aside]
  unfold pendingBound Walk.debt
  rw [foldl_boxes, haside, ← hfields]
  omega

/-- An object is not stored in itself. -/
theorem not_stores_of_object {name b : String} {o : Object} (h : table.lookup name = some (.object o)) :
    ¬ Relation.TransGen (Stores table) name b := by
  have hstep : ∀ a, ¬ Stores table name a := by
    rintro a ⟨d, hd, f, hf, -⟩
    obtain rfl := Option.some.inj (h.symm.trans hd)
    exact List.not_mem_nil hf
  intro ht
  cases ht using Relation.TransGen.head_induction_on with
  | single h => exact hstep _ h
  | head h _ _ => exact hstep _ h

/-- What a finished walk covers is sound. -/
theorem sound_of_covered {done : List String} (hc : Closed table done [])
    (ha : ∀ name ∈ done, ¬ Relation.TransGen (Stores table) name name) {t : Ty}
    (ht : Covered table done [] t) : Sound table t := by
  constructor
  · intro name hr
    rcases hc.covered_of_reaches ht hr with h | ⟨o, h⟩
    · obtain ⟨d, hd, -⟩ := hc name h
      exact ⟨d, hd⟩
    · exact ⟨_, h⟩
  · intro name hr
    rcases hc.covered_of_reaches ht hr with h | ⟨o, h⟩
    · exact ha name h
    · exact not_stores_of_object h

/-- **A check that succeeds finds its type sound**, and the checker stays valid. -/
theorem Valid.check_ok (hv : c.Valid) {c' : Checker} (h : c.check t context = .ok c') :
    c'.table = c.table ∧ c'.Valid ∧ Sound c.table t := by
  obtain ⟨done, hdone, h⟩ := bind_eq_ok.1 h
  obtain ⟨w, hw, rfl⟩ := map_eq_ok.1 hdone
  obtain rfl := pure_eq_ok.1 h
  have hend := walkPending_ok hw hv.inv_start debt_start_le
  have hclosed : Closed c.table (c.checked ++ w.done) [] := aside_eq_nil hend.pending ▸ hend.inv.closed
  have hcov : Covered c.table (c.checked ++ w.done) [] (.box t) :=
    hend.covered (.box t) (.inl List.mem_cons_self)
  have hmem : ∀ n, n ∈ c.checked ++ w.done.filter (· ∉ c.checked) ↔ n ∈ c.checked ++ w.done := by
    intro n
    by_cases hn : n ∈ c.checked <;> simp [hn]
  refine ⟨rfl, ⟨fun n hn => ?_, fun n hn => hend.inv.acyclic n ((hmem n).1 hn)⟩, ?_⟩
  · obtain ⟨d, hd, hf⟩ := hclosed n ((hmem n).1 hn)
    exact ⟨d, hd, fun f hm => (hf f hm).mono (fun n hn => (hmem n).2 hn) (fun _ h => h)⟩
  · exact sound_of_covered hclosed hend.inv.acyclic (hcov.resolve_left List.not_mem_nil)

/-- **What a failed check says is true.** -/
theorem Valid.check_blames (hv : c.Valid) {e : Failure} (h : c.check t context = .error e) :
    Blames c.table t e := by
  rcases bind_eq_error.1 h with h | ⟨done, -, h⟩
  · exact walkPending_blames (map_eq_error.1 h) hv.inv_start
  · exact absurd h (by simp [pure, Except.pure])

/-- A checker of a model that has checked some types one after another. -/
inductive Reached (m : Model) : Checker → Prop where
  | new {c : Checker} (h : ofModel m = .ok c) : Reached m c
  | check {c c' : Checker} {t : Ty} {context : Option String} (hr : Reached m c)
      (h : c.check t context = .ok c') : Reached m c'

theorem Reached.valid {m : Model} (h : Reached m c) : c.Valid := by
  induction h with
  | new h =>
    obtain ⟨table, -, h⟩ := bind_eq_ok.1 h
    obtain rfl := pure_eq_ok.1 h
    exact ⟨fun _ hn => absurd hn List.not_mem_nil, fun _ hn => absurd hn List.not_mem_nil⟩
  | check _ h ih => exact (ih.check_ok h).2.1

theorem Reached.table_eq {m : Model} (h : Reached m c) : c.table = named m.definitions := by
  induction h with
  | new h =>
    obtain ⟨table, ht, h⟩ := bind_eq_ok.1 h
    obtain rfl := pure_eq_ok.1 h
    exact (tableOf_eq_ok.1 ht).2
  | check hr h ih => exact (hr.valid.check_ok h).1.trans ih

/-- **A check decides soundness.** Whatever a checker of a model has checked before, a check of a type
succeeds just when every name that the type reaches has a definition and none of them is stored in itself.
Otherwise it blames a name without a definition, or some that are stored in each other all the way round. The
bounds of the walk are never the reason: with more fuel for its loop or its visits it does the same. -/
theorem check_decides {m : Model} (hr : Reached m c) (t : Ty) (context : Option String) :
    ((∃ c', c.check t context = .ok c') ↔ Sound (named m.definitions) t) ∧
    (∀ e, c.check t context = .error e → Blames (named m.definitions) t e) ∧
    (∀ more, walkPending c.table c.checked (pendingBound c.table t + 1 + more) (start t context) =
      walkPending c.table c.checked (pendingBound c.table t + 1) (start t context)) ∧
    ∀ more, visit c.table c.checked (c.table.length + more) [] = visit c.table c.checked c.table.length [] := by
  have hv := hr.valid
  rw [← hr.table_eq]
  refine ⟨⟨?_, ?_⟩, fun e => hv.check_blames, walkPending_fuel hv.inv_start debt_start_le, fun more => ?_⟩
  · rintro ⟨c', h⟩
    exact (hv.check_ok h).2.2
  · intro hs
    cases h : c.check t context with
    | ok c' => exact ⟨c', rfl⟩
    | error e => exact absurd (hv.check_blames h) hs.not_blames
  · exact funext fun context => funext fun name => funext fun w =>
      visit_fuel ⟨List.nodup_nil, fun _ hn => absurd hn List.not_mem_nil⟩ (by simp) more context name w

/-- Trees that hold their children in boxes, and lists of them. -/
def treeModel : Model where
  ns := "trees"
  records := [⟨"Tree", [⟨"left", .optional (.box (.named "Tree"))⟩, ⟨"label", .named "Label"⟩]⟩,
    ⟨"Label", [⟨"owner", .box (.named "Tree")⟩]⟩]
  enums := []
  errors := []
  objects := []
  functions := []

/-- Definitions that contain each other behind boxes are sound. -/
theorem check_decides_trees : Sound (named treeModel.definitions) (.sequence (.named "Tree")) :=
  (check_decides (c := ⟨treeModel, named treeModel.definitions, []⟩) (.new rfl) _ none).1.1 ⟨_, rfl⟩

end Checker

end Bindgen.Resolve
