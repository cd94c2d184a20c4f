import Bindgen.Proofs.Resolve.Check
import Bindgen.Proofs.Resolve.Defined

/-!
# What a checker remembers cannot be seen

A checker skips the names that passed before. That changes its walk: what is behind the boxes of a name that
is skipped is not put aside, so other types come next. It does not change what comes out. Two walks are
compared here, one that remembers nothing and one that knows some names, and the argument is in two parts.

* What is known gives no fault. The first walk finds every name there defined and none on its stack, since a
  known name is not stored in itself, and all that it puts aside is known too (`visit_known`).
* Elsewhere both do the same. They agree about the names that are not known, and the first one has put aside
  what the second has, with known types in between (`Alike`). A fault then has the same name, context and
  cycle, because the stack holds no known name where the walks meet (`visit_agree`, `walkPending_agree`).

Results:
* `Checker.Valid.check_agree`: a check with memory and one without come to the same result.
* `Checker.memory_unseen`: after any requests, a checker answers as a new one does.
-/

namespace Bindgen.Resolve

open Interface Boundary

variable {table : Table} {known : List String}

theorem visitName_of_lookup {checked stack : List String} {context : Option String} {name : String} {w : Walk}
    {inside : Definition → Except Failure Walk} {d : Definition} (hl : table.lookup name = some d) :
    visitName table checked stack context name w inside =
      if d.isObject then .ok w
      else if name ∈ stack then .error (.recursive (fromName name stack ++ [name]))
      else if name ∈ checked ∨ name ∈ w.done then .ok w
      else inside d >>= fun w => .ok { w with done := w.done ++ [name] } := by
  unfold visitName
  rw [resolve_of_lookup hl]
  rfl

/-! ## Where everything is known -/

/-- Names that a checker may skip: they have definitions whose fields are covered, and are not stored in
themselves. -/
structure Settled (table : Table) (known : List String) : Prop where
  closed : Closed table known []
  acyclic : ∀ name ∈ known, ¬ Relation.TransGen (Stores table) name name

/-- What a walk over known types changes: known names are done, and known types are put aside. -/
structure Grown (table : Table) (known : List String) (w w' : Walk) : Prop where
  done : ∀ name, name ∉ known → (name ∈ w'.done ↔ name ∈ w.done)
  pending : ∃ more, w'.pending = more ++ w.pending ∧ ∀ p ∈ more, Covered table known [] p.1

theorem Grown.refl (w : Walk) : Grown table known w w :=
  ⟨fun _ _ => Iff.rfl, [], rfl, fun _ hp => absurd hp List.not_mem_nil⟩

theorem Grown.trans {w₁ w₂ w₃ : Walk} (h : Grown table known w₁ w₂) (h' : Grown table known w₂ w₃) :
    Grown table known w₁ w₃ := by
  obtain ⟨more, hp, hc⟩ := h.pending
  obtain ⟨more', hp', hc'⟩ := h'.pending
  refine ⟨fun n hn => (h'.done n hn).trans (h.done n hn), more' ++ more, ?_, ?_⟩
  · rw [hp', hp, List.append_assoc]
  · exact fun p hm => (List.mem_append.1 hm).elim (hc' p) (hc p)

theorem Grown.finish {w w' : Walk} (h : Grown table known w w') {name : String} (hn : name ∈ known) :
    Grown table known w { w' with done := w'.done ++ [name] } := by
  refine ⟨fun n hk => ?_, h.pending⟩
  have hne : n ≠ name := fun he => hk (he ▸ hn)
  rw [List.mem_append, List.mem_singleton, or_iff_left hne]
  exact h.done n hk

section Known

variable {visit : Option String → String → Walk → Except Failure Walk}

/-- A step for a known type succeeds if the visits of the names in it do. -/
theorem walkTy_known {t : Ty} (ht : Covered table known [] t)
    (hvisit : ∀ name ∈ valueNames t, ∀ context w, ∃ w', visit context name w = .ok w' ∧ Grown table known w w')
    (context : Option String) (w : Walk) :
    ∃ w', walkTy visit context t w = .ok w' ∧ Grown table known w w' := by
  induction t generalizing w with
  | prim | string | bytes => exact ⟨w, rfl, .refl w⟩
  | named name => exact hvisit name List.mem_cons_self context w
  | optional t ih | sequence t ih => exact ih ht hvisit w
  | map k v ihk ihv =>
    obtain ⟨u, hu, hk⟩ := ihk ht.1 (fun n hn => hvisit n (List.mem_append_left _ hn)) w
    obtain ⟨u', hu', hv⟩ := ihv ht.2 (fun n hn => hvisit n (List.mem_append_right _ hn)) u
    exact ⟨u', bind_eq_ok.2 ⟨u, hu, hu'⟩, hk.trans hv⟩
  | box t =>
    refine ⟨_, rfl, fun _ _ => Iff.rfl, [(t, context)], rfl, fun p hp => ?_⟩
    obtain rfl := List.mem_singleton.1 hp
    exact ht.resolve_left List.not_mem_nil

/-- A step for each of some fields with known types succeeds. -/
theorem walkFields_known {context : Field → Option String} {fs : List Field}
    (hfs : ∀ f ∈ fs, Covered table known [] f.type ∧ ∀ name ∈ valueNames f.type, ∀ context w,
      ∃ w', visit context name w = .ok w' ∧ Grown table known w w') (w : Walk) :
    ∃ w', fs.foldlM (fun w f => walkTy visit (context f) f.type w) w = .ok w' ∧ Grown table known w w' := by
  induction fs generalizing w with
  | nil => exact ⟨w, rfl, .refl w⟩
  | cons f fs ih =>
    rw [List.forall_mem_cons] at hfs
    obtain ⟨u, hu, hf⟩ := walkTy_known hfs.1.1 hfs.1.2 (context f) w
    obtain ⟨u', hu', hr⟩ := ih hfs.2 u
    exact ⟨u', List.foldlM_cons.trans (bind_eq_ok.2 ⟨u, hu, hu'⟩), hf.trans hr⟩

end Known

/-- A known name is visited if it is not on the stack and its fields are walked. -/
theorem visitName_known {stack : List String} {context : Option String} {name : String} {w : Walk}
    {inside : Definition → Except Failure Walk} {d : Definition} (hl : table.lookup name = some d)
    (hn : name ∈ known) (hs : name ∉ stack) (hin : ∃ u, inside d = .ok u ∧ Grown table known w u) :
    ∃ w', visitName table [] stack context name w inside = .ok w' ∧ Grown table known w w' := by
  rw [visitName_of_lookup hl, if_neg hs]
  by_cases ho : d.isObject = true
  · rw [if_pos ho]
    exact ⟨w, rfl, .refl w⟩
  · rw [if_neg ho]
    by_cases hd : name ∈ [] ∨ name ∈ w.done
    · rw [if_pos hd]
      exact ⟨w, rfl, .refl w⟩
    · rw [if_neg hd]
      obtain ⟨u, hu, hg⟩ := hin
      exact ⟨_, bind_eq_ok.2 ⟨u, hu, rfl⟩, hg.finish hn⟩

/-- **A visit of a known name succeeds without memory.** A known name on the stack stores what is visited, and
would be stored in itself if it were visited again. -/
theorem visit_known (hk : Settled table known) {fuel : Nat} {stack : List String} {name : String}
    (hs : Stacked table stack) (hf : table.length ≤ fuel + stack.length)
    (hn : name ∈ known ∨ ∃ o, table.lookup name = some (.object o))
    (hpath : ∀ n ∈ stack, n ∈ known → Relation.TransGen (Stores table) n name)
    (context : Option String) (w : Walk) :
    ∃ w', visit table [] fuel stack context name w = .ok w' ∧ Grown table known w w' := by
  induction fuel generalizing stack name context w with
  | zero =>
    rcases hn with hn | ⟨o, ho⟩
    · obtain ⟨d, hl, -⟩ := hk.closed name hn
      have := hs.lt (fun h => hk.acyclic name hn (hpath name h hn)) hl
      omega
    · exact ⟨w, visitName_of_lookup ho, .refl w⟩
  | succ fuel ih =>
    rcases hn with hn | ⟨o, ho⟩
    · obtain ⟨d, hl, hfields⟩ := hk.closed name hn
      have hout : name ∉ stack := fun h => hk.acyclic name hn (hpath name h hn)
      have hroom : table.length ≤ fuel + (stack ++ [name]).length := by
        rw [List.length_append, List.length_singleton]
        omega
      refine visitName_known hl hn hout (walkFields_known (fun f hm => ⟨hfields f hm, ?_⟩) w)
      intro n hv context w
      have hstores : Stores table name n := ⟨d, hl, f, hm, hv⟩
      refine ih (hs.push hout hl) hroom ((hfields f hm).of_mem_valueNames hv) (fun k hks hkk => ?_) context w
      rcases List.mem_append.1 hks with hks | hks
      · exact (hpath k hks hkk).tail hstores
      · exact .single (List.mem_singleton.1 hks ▸ hstores)
    · exact ⟨w, visitName_of_lookup ho, .refl w⟩

/-! ## Two walks -/

/-- What two walks have put aside: the first has what the second has, and known types in between. -/
inductive Padded (table : Table) (known : List String) :
    List (Ty × Option String) → List (Ty × Option String) → Prop where
  | nil : Padded table known [] []
  | same (p : Ty × Option String) {ps qs : List (Ty × Option String)} (h : Padded table known ps qs) :
      Padded table known (p :: ps) (p :: qs)
  | known {p : Ty × Option String} (hp : Covered table known [] p.1) {ps qs : List (Ty × Option String)}
      (h : Padded table known ps qs) : Padded table known (p :: ps) qs

theorem Padded.append {more ps qs : List (Ty × Option String)} (hm : ∀ p ∈ more, Covered table known [] p.1)
    (h : Padded table known ps qs) : Padded table known (more ++ ps) qs := by
  induction more with
  | nil => exact h
  | cons p more ih =>
    rw [List.forall_mem_cons] at hm
    exact .known hm.1 (ih hm.2)

/-- A walk without memory and one that skips what is known are at the same place. -/
structure Alike (table : Table) (known : List String) (w w' : Walk) : Prop where
  done : ∀ name, name ∉ known → (name ∈ w.done ↔ name ∈ w'.done)
  pending : Padded table known w.pending w'.pending

theorem Alike.grown {w w' u : Walk} (h : Alike table known w w') (hg : Grown table known w u) :
    Alike table known u w' := by
  obtain ⟨more, hp, hc⟩ := hg.pending
  exact ⟨fun n hn => (hg.done n hn).trans (h.done n hn), hp ▸ h.pending.append hc⟩

theorem Alike.finish {w w' : Walk} (h : Alike table known w w') (name : String) :
    Alike table known { w with done := w.done ++ [name] } { w' with done := w'.done ++ [name] } := by
  refine ⟨fun n hn => ?_, h.pending⟩
  rw [List.mem_append, List.mem_append, h.done n hn]

/-- Two walks come to the same: to the same place, or to the same failure. -/
inductive Agree (table : Table) (known : List String) : Except Failure Walk → Except Failure Walk → Prop where
  | ok {w w' : Walk} (h : Alike table known w w') : Agree table known (.ok w) (.ok w')
  | error (e : Failure) : Agree table known (.error e) (.error e)

theorem Agree.bind {x y : Except Failure Walk} {f g : Walk → Except Failure Walk} (h : Agree table known x y)
    (hf : ∀ w w', Alike table known w w' → Agree table known (f w) (g w')) :
    Agree table known (x >>= f) (y >>= g) := by
  cases h with
  | ok h => exact hf _ _ h
  | error e => exact .error e

section Step

variable {visit visit' : Option String → String → Walk → Except Failure Walk}
  (hvisit : ∀ context name w w', Alike table known w w' →
    Agree table known (visit context name w) (visit' context name w'))
include hvisit

theorem walkTy_agree (context : Option String) (t : Ty) {w w' : Walk} (h : Alike table known w w') :
    Agree table known (walkTy visit context t w) (walkTy visit' context t w') := by
  induction t generalizing w w' with
  | prim | string | bytes => exact .ok h
  | named name => exact hvisit context name w w' h
  | optional t ih | sequence t ih => exact ih h
  | map k v ihk ihv => exact (ihk h).bind fun u u' hu => ihv hu
  | box t => exact .ok ⟨h.done, h.pending.same (t, context)⟩

theorem walkFields_agree (context : Field → Option String) (fs : List Field) {w w' : Walk}
    (h : Alike table known w w') :
    Agree table known (fs.foldlM (fun w f => walkTy visit (context f) f.type w) w)
      (fs.foldlM (fun w f => walkTy visit' (context f) f.type w) w') := by
  induction fs generalizing w w' with
  | nil => exact .ok h
  | cons f fs ih =>
    rw [List.foldlM_cons, List.foldlM_cons]
    exact (walkTy_agree hvisit (context f) f.type h).bind fun u u' hu => ih hu

end Step

/-- A name that is not known is visited alike, if its fields are walked alike. -/
theorem visitName_agree {stack : List String} {context : Option String} {name : String} {w w' : Walk}
    {inside inside' : Definition → Except Failure Walk} (hn : name ∉ known) (h : Alike table known w w')
    (hin : ∀ d, table.lookup name = some d → name ∉ stack → Agree table known (inside d) (inside' d)) :
    Agree table known (visitName table [] stack context name w inside)
      (visitName table known stack context name w' inside') := by
  cases hl : table.lookup name with
  | none =>
    unfold visitName Table.resolve
    rw [hl]
    exact .error _
  | some d =>
    have hdone : (name ∈ [] ∨ name ∈ w.done) ↔ name ∈ known ∨ name ∈ w'.done := by
      rw [or_iff_right List.not_mem_nil, or_iff_right hn]
      exact h.done name hn
    rw [visitName_of_lookup hl, visitName_of_lookup hl]
    by_cases ho : d.isObject = true
    · rw [if_pos ho, if_pos ho]
      exact .ok h
    rw [if_neg ho, if_neg ho]
    by_cases hs : name ∈ stack
    · rw [if_pos hs, if_pos hs]
      exact .error _
    rw [if_neg hs, if_neg hs]
    by_cases hd : name ∈ known ∨ name ∈ w'.done
    · rw [if_pos hd, if_pos (hdone.2 hd)]
      exact .ok h
    · rw [if_neg hd, if_neg (mt hdone.1 hd)]
      exact (hin d hl hs).bind fun u u' hu => .ok (hu.finish name)

/-- A known name is skipped, unless it is on the stack. -/
theorem visit_skip (hk : Settled table known) {stack : List String} {name : String} (hn : name ∈ known)
    (hs : name ∉ stack) (fuel : Nat) (context : Option String) (w : Walk) :
    visit table known fuel stack context name w = .ok w := by
  obtain ⟨d, hl, -⟩ := hk.closed name hn
  have hskip : ∀ inside, visitName table known stack context name w inside = .ok w := by
    intro inside
    rw [visitName_of_lookup hl, if_neg hs, if_pos (Or.inl hn), ite_self]
  cases fuel with
  | zero => exact hskip _
  | succ fuel => exact hskip _

/-- A known name is gone through without memory, and skipped with it. -/
theorem visit_agree_of_mem (hk : Settled table known) {fuel : Nat} {stack : List String}
    (hs : Stacked table stack) (hf : table.length ≤ fuel + stack.length) (hstack : ∀ n ∈ stack, n ∉ known)
    {name : String} (hn : name ∈ known) (context : Option String) {w w' : Walk} (h : Alike table known w w') :
    Agree table known (visit table [] fuel stack context name w)
      (visit table known fuel stack context name w') := by
  obtain ⟨u, hu, hg⟩ :=
    visit_known hk hs hf (.inl hn) (fun n hm hkn => absurd hkn (hstack n hm)) context w
  rw [hu, visit_skip hk hn (fun hm => hstack name hm hn)]
  exact .ok (h.grown hg)

/-- **A visit comes to the same with memory and without**, below a stack that holds nothing known. The
induction is on the fuel; the walks part only below a known name. -/
theorem visit_agree (hk : Settled table known) {fuel : Nat} {stack : List String} (hs : Stacked table stack)
    (hf : table.length ≤ fuel + stack.length) (hstack : ∀ n ∈ stack, n ∉ known) (context : Option String)
    (name : String) (w w' : Walk) (h : Alike table known w w') :
    Agree table known (visit table [] fuel stack context name w)
      (visit table known fuel stack context name w') := by
  induction fuel generalizing stack context name w w' with
  | zero =>
    by_cases hn : name ∈ known
    · exact visit_agree_of_mem hk hs hf hstack hn context h
    · exact visitName_agree hn h fun _ _ _ => .error _
  | succ fuel ih =>
    by_cases hn : name ∈ known
    · exact visit_agree_of_mem hk hs hf hstack hn context h
    · refine visitName_agree hn h fun d hl hout => walkFields_agree (ih (hs.push hout hl) ?_ ?_) _ _ h
      · rw [List.length_append, List.length_singleton]
        omega
      · intro n hm
        rcases List.mem_append.1 hm with hm | hm
        · exact hstack n hm
        · exact List.mem_singleton.1 hm ▸ hn

/-! ## The loop -/

/-- A loop with nothing put aside is at its end. -/
theorem walkPending_nil {checked : List String} {w : Walk} (h : w.pending = []) (fuel : Nat) :
    walkPending table checked fuel w = .ok w := by
  cases fuel with
  | zero => rfl
  | succ fuel =>
    unfold walkPending
    rw [h]

theorem walkPending_cons {checked : List String} {w : Walk} {t : Ty} {context : Option String}
    {rest : List (Ty × Option String)} (h : w.pending = (t, context) :: rest) (fuel : Nat) :
    walkPending table checked (fuel + 1) w =
      walkTy (visit table checked table.length []) context t { w with pending := rest } >>=
        walkPending table checked fuel := by
  conv_lhs => unfold walkPending
  rw [h]

theorem Stacked.nil : Stacked table [] :=
  ⟨List.nodup_nil, fun _ hm => absurd hm List.not_mem_nil⟩

/-- A round of the loop for a known type succeeds without memory. -/
theorem round_known (hk : Settled table known) {t : Ty} (ht : Covered table known [] t)
    (context : Option String) (w : Walk) :
    ∃ u, walkTy (visit table [] table.length []) context t w = .ok u ∧ Grown table known w u := by
  refine walkTy_known ht (fun n hv => ?_) context w
  exact visit_known hk .nil (Nat.le_add_right _ _) (ht.of_mem_valueNames hv)
    (fun _ hm => absurd hm List.not_mem_nil)

/-- A round of the loop for a type that both walks have put aside. -/
theorem round_agree (hk : Settled table known) (t : Ty) (context : Option String) {w w' : Walk}
    (h : Alike table known w w') :
    Agree table known (walkTy (visit table [] table.length []) context t w)
      (walkTy (visit table known table.length []) context t w') :=
  walkTy_agree (visit_agree hk .nil (Nat.le_add_right _ _) fun _ hm => absurd hm List.not_mem_nil) context t h

/-- **The loop comes to the same with memory and without.** The induction is on the rounds of the loop without
memory, which are the rounds of the other and one for every known type in between. -/
theorem walkPending_agree (hk : Settled table known) {root : Ty} {fuel fuel' : Nat} {w w' : Walk}
    (hi : w.Inv table [] root [] []) (hd : w.debt table [] ≤ fuel) (hi' : w'.Inv table known root [] [])
    (hd' : w'.debt table known ≤ fuel') (h : Alike table known w w') :
    Agree table known (walkPending table [] fuel w) (walkPending table known fuel' w') := by
  have hpad := h.pending
  induction fuel generalizing fuel' w w' with
  | zero =>
    have hp := pending_eq_nil hd
    rw [hp] at hpad
    generalize hp' : w'.pending = qs at hpad
    cases hpad
    rw [walkPending_nil hp, walkPending_nil hp']
    exact .ok h
  | succ fuel ih =>
    generalize hp : w.pending = ps at hpad
    generalize hp' : w'.pending = qs at hpad
    cases hpad with
    | nil =>
      rw [walkPending_nil hp, walkPending_nil hp']
      exact .ok h
    | @same p ps qs hpad =>
      obtain ⟨t, context⟩ := p
      obtain ⟨hi, hr, hdebt⟩ := inv_next hp hi
      obtain ⟨hi', -, hdebt'⟩ := inv_next hp' hi'
      obtain ⟨fuel', rfl⟩ : ∃ n, fuel' = n + 1 := ⟨fuel' - 1, by omega⟩
      have hnext : Alike table known { w with pending := ps } { w' with pending := qs } := ⟨h.done, hpad⟩
      have hround := round_agree hk t context hnext
      rw [walkPending_cons hp, walkPending_cons hp']
      generalize hx : walkTy (visit table [] table.length []) context t _ = x at hround ⊢
      generalize hy : walkTy (visit table known table.length []) context t _ = y at hround ⊢
      cases hround with
      | error e => exact .error e
      | ok hu =>
        obtain ⟨hinv, hle, -⟩ := inv_walked hx hi hr
        obtain ⟨hinv', hle', -⟩ := inv_walked hy hi' hr
        exact ih hinv (by omega) hinv' (by omega) hu hu.pending
    | @known p ht ps qs hpad =>
      obtain ⟨t, context⟩ := p
      obtain ⟨hi, hr, hdebt⟩ := inv_next hp hi
      obtain ⟨u, hu, hg⟩ := round_known hk ht context { w with pending := ps }
      obtain ⟨hinv, hle, -⟩ := inv_walked hu hi hr
      have hnext : Alike table known { w with pending := ps } w' := ⟨h.done, hp' ▸ hpad⟩
      have halike : Alike table known u w' := hnext.grown hg
      rw [walkPending_cons hp, hu, bind_ok]
      refine ih hinv ?_ hi' hd' halike halike.pending
      simp only at hle hdebt
      omega

/-! ## Checkers -/

namespace Checker

variable {c : Checker}

theorem Valid.settled (hv : c.Valid) : Settled c.table c.checked := ⟨hv.closed, hv.acyclic⟩

/-- A checker of the same model that has checked nothing. -/
def forget (c : Checker) : Checker := { c with checked := [] }

theorem valid_forget (c : Checker) : c.forget.Valid :=
  ⟨fun _ hn => absurd hn List.not_mem_nil, fun _ hn => absurd hn List.not_mem_nil⟩

/-- **A check comes to the same with memory and without**: it succeeds, or fails for the same. -/
theorem Valid.check_agree (hv : c.Valid) (t : Ty) (context : Option String) :
    (∃ c₁ c₂, c.forget.check t context = .ok c₁ ∧ c.check t context = .ok c₂) ∨
      ∃ e, c.forget.check t context = .error e ∧ c.check t context = .error e := by
  have hstart : Alike c.table c.checked (start t context) (start t context) :=
    ⟨fun _ _ => Iff.rfl, .same _ .nil⟩
  have h := walkPending_agree hv.settled c.valid_forget.inv_start (debt_start_le (c := c.forget))
    hv.inv_start debt_start_le hstart
  generalize hx : walkPending c.table [] _ (start t context) = x at h
  generalize hy : walkPending c.table c.checked _ (start t context) = y at h
  cases h with
  | @ok w w' h =>
    refine .inl ⟨_, _, bind_eq_ok.2 ⟨w.done, map_eq_ok.2 ⟨w, hx, rfl⟩, rfl⟩, bind_eq_ok.2 ⟨w'.done, ?_, rfl⟩⟩
    exact map_eq_ok.2 ⟨w', hy, rfl⟩
  | error e =>
    exact .inr ⟨e, bind_eq_error.2 (.inl (map_eq_error.2 hx)), bind_eq_error.2 (.inl (map_eq_error.2 hy))⟩

end Checker

/-! ## Queries -/

/-- What a checker can be asked about a type that is used in a context: whether it passes, and in which shape
its values cross the boundary. -/
inductive Query where
  | check (t : Ty) (context : Option String)
  | map (t : Ty) (context : Option String)
  deriving DecidableEq, Repr

namespace Query

/-- What a checker answers, and the checker that goes on. A query that fails leaves it as it was. -/
def ask (c : Checker) : Query → Except Failure (Option Shape) × Checker
  | .check t context =>
    match c.check t context with
    | .ok c' => (.ok none, c')
    | .error e => (.error e, c)
  | .map t context =>
    match c.map t context with
    | .ok (s, c') => (.ok (some s), c')
    | .error e => (.error e, c)

/-- The checker after some queries. -/
def askAll (c : Checker) (queries : List Query) : Checker :=
  queries.foldl (fun c q => (q.ask c).2) c

/-- The type that is asked about. -/
def type : Query → Ty
  | .check t _ | .map t _ => t

/-- The context in which it is used. -/
def context : Query → Option String
  | .check _ context | .map _ context => context

/-- The answer about a type that passes. -/
def answer (table : Table) : Query → Option Shape
  | .check _ _ => none
  | .map t _ => some (table.shapeOf t)

end Query

namespace Checker

variable {c c' : Checker} {t : Ty} {context : Option String}

/-- A map fails only where the check does, so that it remembers what the check does. -/
theorem Valid.map_eq (hv : c.Valid) :
    c.map t context = (fun c' => (c.table.shapeOf t, c')) <$> c.check t context := by
  unfold Checker.map
  cases h : c.check t context with
  | error e => rfl
  | ok c' =>
    obtain ⟨htable, -, hsound⟩ := hv.check_ok h
    rw [bind_ok, htable, shape_eq_ok hsound.defines]
    rfl

/-- Every query is decided by the check of its type. -/
theorem Valid.ask_eq (hv : c.Valid) (q : Query) :
    q.ask c = match c.check q.type q.context with
      | .ok c' => (.ok (q.answer c.table), c')
      | .error e => (.error e, c) := by
  cases q with
  | check t context => rfl
  | map t context =>
    simp only [Query.ask, Query.type, Query.context, hv.map_eq]
    cases c.check t context with
    | error e => rfl
    | ok c' => rfl

theorem Reached.ask {m : Model} (h : Reached m c) (q : Query) : Reached m (q.ask c).2 := by
  rw [h.valid.ask_eq]
  cases hc : c.check q.type q.context with
  | error e => exact h
  | ok c' => exact h.check hc

theorem Reached.askAll {m : Model} (h : Reached m c) (queries : List Query) :
    Reached m (Query.askAll c queries) := by
  induction queries generalizing c with
  | nil => exact h
  | cons q qs ih => exact ih (h.ask q)

/-- Whatever it has checked, a checker that forgets it is a new one. -/
theorem Reached.forget {m : Model} (h : Reached m c) : ofModel m = .ok c.forget := by
  induction h with
  | new h =>
    obtain ⟨table, ht, hc⟩ := bind_eq_ok.1 h
    obtain rfl := pure_eq_ok.1 hc
    exact h
  | check hr h ih =>
    obtain ⟨done, -, hc⟩ := bind_eq_ok.1 h
    obtain rfl := pure_eq_ok.1 hc
    exact ih

/-- A query has the same answer with memory and without. -/
theorem Valid.ask_forget (hv : c.Valid) (q : Query) : (q.ask c).1 = (q.ask c.forget).1 := by
  rw [hv.ask_eq, c.valid_forget.ask_eq]
  obtain ⟨c₁, c₂, h₁, h₂⟩ | ⟨e, h₁, h₂⟩ := hv.check_agree q.type q.context
  · rw [h₁, h₂]
    rfl
  · rw [h₁, h₂]

/-- **What a checker remembers cannot be seen.** A model whose definitions have names of their own has a
checker, and whatever this was asked before, and whether that failed or not, it gives the same answer as a new
one: it passes the type, with the same shape, or fails with the same name, context or cycle. -/
theorem memory_unseen {m : Model} (hn : (m.definitions.map (·.name)).Nodup) :
    ∃ c, ofModel m = .ok c ∧ ∀ (queries : List Query) (q : Query),
      (q.ask (Query.askAll c queries)).1 = (q.ask c).1 := by
  have hnew : ofModel m = .ok ⟨m, named m.definitions, []⟩ := bind_eq_ok.2 ⟨_, tableOf_eq_ok.2 ⟨hn, rfl⟩, rfl⟩
  refine ⟨_, hnew, fun queries q => ?_⟩
  have hr := (Reached.new hnew).askAll queries
  have hforget := Except.ok.inj (hnew.symm.trans hr.forget)
  rw [hr.valid.ask_forget, ← hforget]

/-- Plots that hold trees, and a fence that is part of itself and of what has no definition. -/
def plotModel : Model where
  ns := "plots"
  records := [⟨"Tree", [⟨"left", .optional (.box (.named "Tree"))⟩]⟩,
    ⟨"Plot", [⟨"tree", .named "Tree"⟩, ⟨"next", .box (.named "Fence")⟩]⟩,
    ⟨"Fence", [⟨"tree", .box (.named "Tree")⟩, ⟨"gate", .sequence (.named "Fence")⟩, ⟨"lock", .named "Lock"⟩]⟩]
  enums := []
  errors := []
  objects := []
  functions := []

/-- A plot is refused for its fence before and after its tree has passed. -/
theorem memory_unseen_plots : (plotModel.definitions.map (·.name)).Nodup ∧
    ∃ c, ofModel plotModel = .ok c ∧
      (Query.askAll c [.check (.named "Fence") none, .map (.box (.named "Tree")) none]).checked = ["Tree"] ∧
      ((Query.map (.named "Plot") none).ask
        (Query.askAll c [.check (.named "Fence") none, .map (.box (.named "Tree")) none])).1 =
          .error (.recursive ["Fence", "Fence"]) := by
  have hn : (plotModel.definitions.map (·.name)).Nodup := by decide
  obtain ⟨c, hc, h⟩ := memory_unseen hn
  obtain rfl : c = ⟨plotModel, named plotModel.definitions, []⟩ := (Except.ok.inj hc).symm
  exact ⟨hn, _, hc, rfl, (h _ _).trans rfl⟩

end Checker

end Bindgen.Resolve
