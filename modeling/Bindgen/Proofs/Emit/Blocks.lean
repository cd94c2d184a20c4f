import Bindgen.Emit.KotlinSource
import Bindgen.Proofs.Emit.Sharing
import Bindgen.Proofs.Outcome

/-!
# What the call of a Kotlin wrapper passes

The call of a Kotlin wrapper is an expression or, with consumed buffers, a block that declares locals before it. It is
read here as a `Block`, of which it is the text (`callExpr_eq`). Inside a block a name stands for the last local that
was declared under it, and otherwise for a parameter; no local can be declared twice. `Block.passes` says what is
passed then: the handle of the receiver, or what is lowered or copied from an argument.

Results:
* `callExpr_eq`: the text of a call is that of its block.
* **`passes_eq_ok_iff`**: the block of a plan passes the terms of the plan, as they are read in Kotlin, unless it has to
  declare a local twice.
* **`passes_iff`**: a plan passes every argument in its place, just where its locals differ and spare the parameters
  that are lowered later.
* **`passes_shapes_iff`**: when what is passed has the shapes of the value arguments.
-/

namespace Bindgen.Emit.KotlinSource

open Interface Boundary Resolve CallPlan

/-! ## Blocks -/

/-- An expression in a call. -/
inductive Expr where
  /-- The handle of the receiver. -/
  | handle
  /-- A local or parameter. -/
  | name (x : String)
  /-- A local or parameter, lowered as a value of a type. -/
  | lowered (t : Ty) (x : String)
  /-- A local or parameter, copied into native memory as a value of a type. -/
  | copied (t : Ty) (x : String)

/-- A declaration before a call. -/
inductive Statement where
  | bind (x : String) (e : Expr)
  /-- Makes several copies, all or none, and takes each of them from their list. -/
  | bindAll (list : String) (items : List (String × Expr))

/-- A call with the declarations before it. -/
structure Block where
  statements : List Statement
  args : List Expr

section Text

variable (table : Table)

/-- The text of an expression. -/
def Expr.code : Expr → Code
  | .handle => "requireHandle()"
  | .name x => x
  | .lowered t x => lowerExpr table t x
  | .copied t x => "lowerOwned(" ++ .converter t ++ ", " ++ x ++ ")"

/-- The lines of a declaration. -/
def Statement.code : Statement → List Code
  | .bind x e => ["val " ++ x ++ " = " ++ e.code table]
  | .bindAll list items =>
    [.text ("val " ++ list ++ " = lowerOwnedAll(") ++
      Code.join ", " (items.map fun item => "\x7b " ++ item.2.code table ++ " \x7d") ++ ")"] ++
    texts (items.mapIdx fun i item => "val " ++ item.1 ++ " = " ++ list ++ "[" ++ toString i ++ "]")

/-- The text of a block that calls the symbol of a plan. -/
def Block.code (lib : String) (plan : CallPlan) (b : Block) : Code :=
  let call := invoke lib plan (b.args.map (·.code table))
  if b.statements.isEmpty then call
  else Code.join "\n" (braced "run" (b.statements.flatMap (·.code table) ++ [call]))

end Text

/-! ## What is passed -/

/-- **What is passed**, in terms of what is given. -/
inductive Meaning where
  /-- The handle of the receiver. -/
  | handle
  /-- The argument for a parameter. -/
  | given (x : String)
  | lowered (t : Ty) (of : Meaning)
  | copied (t : Ty) (of : Meaning)

/-- Why a block cannot be read. -/
inductive Misread where
  /-- A name stands for nothing that is passed. -/
  | unknown (x : String)
  /-- A local is declared again. -/
  | redeclared

/-- What locals stand for, the latest first; a list of copies is nothing that is passed. -/
abbrev Locals := List (String × Option Meaning)

section Meaning

variable (params : List String)

/-- What a name stands for: a local, or else a parameter. -/
def find (σ : Locals) (x : String) : Except Misread Meaning :=
  match σ.lookup x with
  | some (some m) => .ok m
  | some none => .error (.unknown x)
  | none => if x ∈ params then .ok (.given x) else .error (.unknown x)

/-- What an expression stands for. -/
def Expr.meaning (σ : Locals) : Expr → Except Misread Meaning
  | .handle => .ok .handle
  | .name x => find params σ x
  | .lowered t x => .lowered t <$> find params σ x
  | .copied t x => .copied t <$> find params σ x

/-- The locals that a statement declares. -/
def Statement.declared : Statement → List String
  | .bind x _ => [x]
  | .bindAll list items => list :: items.map (·.1)

/-- The locals after a statement. It declares none of them again. -/
def Statement.run (σ : Locals) (st : Statement) : Except Misread Locals :=
  if (st.declared ++ σ.map (·.1)).Nodup then
    match st with
    | .bind x e => (fun m => (x, some m) :: σ) <$> e.meaning params σ
    | .bindAll list items => do
      let ms ← items.mapM fun item => item.2.meaning params σ
      return (items.zipWith (fun item m => (item.1, some m)) ms).reverse ++ (list, none) :: σ
  else .error .redeclared

/-- The locals after some statements. -/
def runAll : Locals → List Statement → Except Misread Locals
  | σ, [] => .ok σ
  | σ, st :: sts => do runAll (← st.run params σ) sts

/-- **What a block passes**, if it can be read at all. -/
def Block.passes (b : Block) : Except Misread (List Meaning) := do
  let σ ← runAll params [] b.statements
  b.args.mapM (Expr.meaning params σ)

end Meaning

/-! ## The block of a plan -/

/-- What is lowered in a slot. -/
def exprOf (slot : Slot) : Expr :=
  match slot.origin with
  | .receiver => .handle
  | .param p => if slot.owned then .copied p.type (memberName p.name) else .lowered p.type (memberName p.name)

/-- Declares the local of a slot. -/
def bindSlot (slot : Slot) : Statement := .bind slot.target (exprOf slot)

/-- The list that several copies are taken from. -/
def listName : String := "owned"

/-- Declares the locals of consumed buffers. -/
def bindCopies : List Slot → List Statement
  | [slot] => [bindSlot slot]
  | slots => [.bindAll listName (slots.map fun slot => (slot.target, exprOf slot))]

/-- **The block of a plan.** -/
def blockOf (plan : CallPlan) : Block :=
  if plan.inPlace then ⟨[], plan.slots.map fun slot => exprOf (plan.inPlaceSlot slot)⟩
  else ⟨plan.plain.map bindSlot ++ bindCopies plan.owned, plan.slots.map fun slot => .name slot.target⟩

/-- **How the names in a Kotlin wrapper are read.** Locals and parameters are found under the names that are printed. -/
def scoping : Scoping Meaning where
  inside x := x
  source p := memberName p.name
  handle _ := .handle
  given p := .given (memberName p.name)
  lowered slot p of := if slot.owned then .copied p.type of else .lowered p.type of
  lowered_inj {slot p m m'} h := by
    cases howned : slot.owned with
    | true => simpa [howned] using h
    | false => simpa [howned] using h
  handle_ne _ _ := Meaning.noConfusion
  lowered_ne slot p m q := by cases slot.owned <;> simp

/-- **A plan whose locals keep out of the way**: they differ, and where they are declared they spare the parameters
that are lowered later. -/
abbrev Placed (plan : CallPlan) : Prop := scoping.Placed plan

/-! ## The text of a call -/

variable {table : Table} {slot : Slot} {slots : List Slot} {plan : CallPlan}

theorem exprOf_code (table : Table) (slot : Slot) : (exprOf slot).code table = slotExpr table slot := by
  unfold exprOf slotExpr
  cases slot.origin with
  | receiver => rfl
  | param p => cases slot.owned <;> rfl

theorem bindSlot_code (table : Table) (slot : Slot) :
    (bindSlot slot).code table = ["val " ++ slot.target ++ " = " ++ slotExpr table slot] :=
  congrArg (fun e : Code => ["val " ++ slot.target ++ " = " ++ e]) (exprOf_code table slot)

theorem bindCopies_code (table : Table) (slots : List Slot) :
    (bindCopies slots).flatMap (·.code table) = bindOwned table slots := by
  have htakes (slots : List Slot) : (slots.map fun slot => (slot.target, exprOf slot)).mapIdx
        (fun i item => "val " ++ item.1 ++ " = " ++ listName ++ "[" ++ toString i ++ "]") =
      slots.mapIdx fun i slot => "val " ++ slot.target ++ " = owned[" ++ toString i ++ "]" := by
    refine List.ext_getElem? fun i => ?_
    simp only [List.getElem?_mapIdx, List.getElem?_map, Option.map_map]
    simp [Function.comp_def, listName, String.append_assoc]
  unfold bindCopies bindOwned
  split
  · rw [List.flatMap_singleton, bindSlot_code]
  · rw [List.flatMap_singleton, Statement.code, htakes, List.map_map]
    simp only [Function.comp_def, exprOf_code]
    rfl

/-- **The text of a call** is that of its block. -/
theorem callExpr_eq (s : Surface) (plan : CallPlan) :
    callExpr s plan = (blockOf plan).code s.table (libraryInterface s.ns) plan := by
  unfold callExpr blockOf Block.code
  cases plan.inPlace with
  | true => simp only [if_true, List.isEmpty_nil, List.map_map, Function.comp_def, exprOf_code]
  | false =>
    have hsome : (plan.plain.map bindSlot ++ bindCopies plan.owned).isEmpty = false := by
      unfold bindCopies
      split <;> simp
    have hplain : (plan.plain.map bindSlot).flatMap (·.code s.table) =
        plan.plain.map fun slot => "val " ++ slot.target ++ " = " ++ slotExpr s.table slot := by
      simp only [List.flatMap_map, bindSlot_code]
      exact List.map_eq_flatMap.symm
    simp only [Bool.false_eq_true, if_false, hsome, List.flatMap_append, bindCopies_code, hplain, List.map_map]
    rfl

/-! ## What locals stand for -/

section Slots

variable {params : List String} {σ σ' : Locals} {τ : List (String × Meaning)}

/-- A slot whose parameter, if any, is one of the wrapper's. -/
def Known (params : List String) (slot : Slot) : Prop :=
  ∀ p, slot.origin = .param p → memberName p.name ∈ params

/-- Locals that each stand for something that is passed. -/
def held (τ : List (String × Meaning)) : Locals := τ.map fun e => (e.1, some e.2)

theorem keys_held (τ : List (String × Meaning)) : (held τ).map (·.1) = τ.map (·.1) := by
  rw [held, List.map_map]
  rfl

theorem lookup_held (τ : List (String × Meaning)) (x : String) : (held τ).lookup x = (τ.lookup x).map some := by
  induction τ with
  | nil => rfl
  | cons e τ ih =>
    rw [held, List.map_cons, List.lookup_cons, List.lookup_cons]
    cases x == e.1 with
    | true => rfl
    | false => exact ih

/-- Lists of copies are in the way of no other name. -/
theorem lookup_around {τ' : List (String × Meaning)} {lists : Locals} (hlists : ∀ e ∈ lists, e.1 = listName)
    {x : String} (hx : x ≠ listName) : (held τ' ++ lists ++ held τ).lookup x = ((τ' ++ τ).lookup x).map some := by
  have hnone : lists.lookup x = none := List.lookup_eq_none_iff.2 fun e he => by
    simpa [hlists e he] using hx
  rw [List.lookup_append, List.lookup_append, hnone, lookup_held, lookup_held, List.lookup_append]
  cases τ'.lookup x <;> rfl

theorem find_source {p : Param} (hp : memberName p.name ∈ params) (τ : List (String × Meaning)) :
    find params (held τ) (memberName p.name) = .ok (scoping.sourceOf τ p) := by
  rw [find, lookup_held]
  change _ = Except.ok ((τ.lookup (memberName p.name)).getD (.given (memberName p.name)))
  cases τ.lookup (memberName p.name) with
  | none => exact if_pos hp
  | some m => rfl

/-- **What is lowered in a slot** is its term. -/
theorem exprOf_meaning (hslot : Known params slot) (τ : List (String × Meaning)) :
    (exprOf slot).meaning params (held τ) = .ok (scoping.termOf τ slot) := by
  unfold exprOf Scoping.termOf
  cases horigin : slot.origin with
  | receiver => rfl
  | param p =>
    have hfind := find_source (hslot p horigin) τ
    cases howned : slot.owned with
    | true => exact map_eq_ok.2 ⟨_, hfind, by simp [scoping, howned]⟩
    | false => exact map_eq_ok.2 ⟨_, hfind, by simp [scoping, howned]⟩

/-! ## Declaring locals -/

theorem runAll_append (σ : Locals) (sts sts' : List Statement) :
    runAll params σ (sts ++ sts') = runAll params σ sts >>= (runAll params · sts') := by
  induction sts generalizing σ with
  | nil => rfl
  | cons st sts ih =>
    rw [List.cons_append, runAll, runAll]
    cases st.run params σ with
    | error e => rfl
    | ok σ₁ => exact ih σ₁

theorem runAll_singleton (σ : Locals) (st : Statement) : runAll params σ [st] = st.run params σ := by
  rw [runAll]
  cases st.run params σ <;> rfl

theorem run_bind_eq_ok {x : String} {e : Expr} : (Statement.bind x e).run params σ = .ok σ' ↔
    (x :: σ.map (·.1)).Nodup ∧ ∃ m, e.meaning params σ = .ok m ∧ σ' = (x, some m) :: σ := by
  unfold Statement.run
  split
  · next hnew =>
    rw [map_eq_ok]
    exact ⟨fun ⟨m, hm, h⟩ => ⟨hnew, m, hm, h.symm⟩, fun ⟨_, m, hm, h⟩ => ⟨m, hm, h.symm⟩⟩
  · next hold => exact ⟨fun h => absurd h (by simp), fun h => absurd h.1 hold⟩

theorem run_bindAll_eq_ok {list : String} {items : List (String × Expr)} :
    (Statement.bindAll list items).run params σ = .ok σ' ↔
      (list :: items.map (·.1) ++ σ.map (·.1)).Nodup ∧ ∃ ms, items.mapM (·.2.meaning params σ) = .ok ms ∧
        σ' = (items.zipWith (fun item m => (item.1, some m)) ms).reverse ++ (list, none) :: σ := by
  unfold Statement.run
  split
  · next hnew =>
    rw [bind_eq_ok]
    exact ⟨fun ⟨ms, hms, h⟩ => ⟨hnew, ms, hms, (pure_eq_ok.1 h).symm⟩,
      fun ⟨_, ms, hms, h⟩ => ⟨ms, hms, pure_eq_ok.2 h.symm⟩⟩
  · next hold => exact ⟨fun h => absurd h (by simp), fun h => absurd h.1 hold⟩

/-- The local of a slot stands for its term, if it is new. -/
theorem run_bindSlot (hslot : Known params slot) : (bindSlot slot).run params (held τ) = .ok σ' ↔
    (slot.target :: τ.map (·.1)).Nodup ∧ σ' = held ((slot.target, scoping.termOf τ slot) :: τ) := by
  rw [bindSlot, run_bind_eq_ok, keys_held, exprOf_meaning hslot]
  refine and_congr_right fun _ => ⟨?_, fun h => ⟨_, rfl, h⟩⟩
  rintro ⟨m, hm, h⟩
  rw [h, Except.ok.inj hm]
  rfl

/-- **Locals are declared** as they are bound, if they are new. -/
theorem runAll_binds (hknown : ∀ slot ∈ slots, Known params slot) (hτ : (τ.map (·.1)).Nodup) :
    runAll params (held τ) (slots.map bindSlot) = .ok σ' ↔
      ((scoping.bind τ slots).map (·.1)).Nodup ∧ σ' = held (scoping.bind τ slots) := by
  induction slots generalizing τ with
  | nil => exact ⟨fun h => ⟨hτ, (Except.ok.inj h).symm⟩, fun h => congrArg Except.ok h.2.symm⟩
  | cons slot slots ih =>
    rw [List.forall_mem_cons] at hknown
    let next := (slot.target, scoping.termOf τ slot) :: τ
    rw [List.map_cons, runAll, bind_eq_ok]
    constructor
    · rintro ⟨σ₁, hrun, hrest⟩
      obtain ⟨hnew, rfl⟩ := (run_bindSlot hknown.1).1 hrun
      exact (ih (τ := next) hknown.2 hnew).1 hrest
    · intro h
      have hkeys := h.1
      rw [Scoping.bind, Scoping.bind_keys] at hkeys
      have hnew : (next.map (·.1)).Nodup := hkeys.of_append_right
      exact ⟨_, (run_bindSlot hknown.1).2 ⟨hnew, rfl⟩, (ih hknown.2 hnew).2 h⟩

/-- The copies of consumed buffers are their terms. -/
theorem copies_terms (hknown : ∀ slot ∈ slots, Known params slot) (τ : List (String × Meaning)) :
    (slots.map fun slot => (slot.target, exprOf slot)).mapM (·.2.meaning params (held τ)) =
      .ok (slots.map (scoping.termOf τ)) :=
  mapM_map_eq_ok fun slot hslot => exprOf_meaning (hknown slot hslot) τ

theorem held_copies (τ : List (String × Meaning)) (slots : List Slot) : held (scoping.copies τ slots) =
    ((slots.map fun slot => (slot.target, exprOf slot)).zipWith (fun item m => (item.1, some m))
      (slots.map (scoping.termOf τ))).reverse := by
  rw [List.zipWith_map, List.zipWith_self, held, Scoping.copies, List.map_reverse, List.map_map]
  rfl

/-- The locals of copies are new together with their list. -/
theorem copies_new (hlist : listName ∉ (scoping.copies τ slots ++ τ).map (·.1)) :
    (listName :: (slots.map fun slot => (slot.target, exprOf slot)).map (·.1) ++ (held τ).map (·.1)).Nodup ↔
      ((scoping.copies τ slots ++ τ).map (·.1)).Nodup := by
  have hperm : ((slots.map fun slot => (slot.target, exprOf slot)).map (·.1) ++ (held τ).map (·.1)).Perm
      ((scoping.copies τ slots ++ τ).map (·.1)) := by
    rw [List.map_map, keys_held, List.map_append, Scoping.copies_keys]
    exact (List.reverse_perm _).symm.append_right _
  rw [List.cons_append, List.nodup_cons, hperm.nodup_iff, hperm.mem_iff]
  exact and_iff_right hlist

/-- **Consumed buffers are copied** before any of their locals is declared. Several copies are taken from a list, which
is declared as well. -/
theorem runAll_copies (hknown : ∀ slot ∈ slots, Known params slot)
    (hlist : listName ∉ (scoping.copies τ slots ++ τ).map (·.1)) :
    ∃ lists : Locals, (∀ e ∈ lists, e.1 = listName) ∧ ∀ σ', runAll params (held τ) (bindCopies slots) = .ok σ' ↔
      ((scoping.copies τ slots ++ τ).map (·.1)).Nodup ∧ σ' = held (scoping.copies τ slots) ++ lists ++ held τ := by
  unfold bindCopies
  split
  · next slot =>
    refine ⟨[], by simp, fun σ' => ?_⟩
    rw [runAll_singleton, run_bindSlot (hknown slot (List.mem_singleton_self _))]
    rfl
  · refine ⟨[(listName, none)], by simp, fun σ' => ?_⟩
    rw [runAll_singleton, run_bindAll_eq_ok, copies_new hlist, copies_terms hknown, held_copies, List.append_assoc]
    refine and_congr_right fun _ => ⟨?_, fun h => ⟨_, rfl, h⟩⟩
    rintro ⟨ms, hms, h⟩
    rw [h, ← Except.ok.inj hms]
    rfl

/-! ## What a block passes -/

/-- **In place** a block passes the terms of its plan. -/
theorem inPlace_passes (hknown : ∀ slot ∈ plan.slots, Known params slot) (hplace : plan.inPlace = true) :
    (blockOf plan).passes params = .ok (scoping.terms plan) := by
  rw [blockOf, if_pos hplace, Scoping.terms, if_pos hplace]
  refine mapM_map_eq_ok fun slot hslot => ?_
  obtain ⟨found, hmem, hfound, -⟩ := find_target hplace hslot
  rw [inPlaceSlot, hfound]
  exact exprOf_meaning (hknown found hmem) []

/-- Locals that stand for those of a plan are passed as its terms. -/
theorem bound_args (params : List String) (hplace : plan.inPlace = false)
    (hσ : ∀ slot ∈ plan.slots, σ.lookup slot.target = ((scoping.bound plan).lookup slot.target).map some) :
    (plan.slots.map fun slot => Expr.name slot.target).mapM (Expr.meaning params σ) = .ok (scoping.terms plan) := by
  rw [Scoping.terms, if_neg (by simp [hplace])]
  refine mapM_map_eq_ok fun slot hslot => ?_
  obtain ⟨m, hm⟩ : ∃ m, (scoping.bound plan).lookup slot.target = some m := Scoping.exists_lookup_bound scoping hslot
  have hterm : ((scoping.bound plan).lookup (scoping.inside slot.target)).getD (scoping.own slot) = m :=
    congrArg (Option.getD · (scoping.own slot)) hm
  rw [hterm, Expr.meaning, find, hσ slot hslot, hm]
  rfl

/-- **With locals** a block passes the terms of its plan, just where the locals differ. -/
theorem bound_passes_iff (hknown : ∀ slot ∈ plan.slots, Known params slot)
    (hlist : listName ∉ plan.slots.map (·.target)) (hplace : plan.inPlace = false) {ms : List Meaning} :
    (blockOf plan).passes params = .ok ms ↔ (plan.slots.map (·.target)).Nodup ∧ ms = scoping.terms plan := by
  have hkeys := Scoping.bound_keys scoping plan
  have hboth : ((scoping.bound plan).map (·.1)).Nodup ↔ (plan.slots.map (·.target)).Nodup := hkeys.nodup_iff
  have hblock : blockOf plan =
      ⟨plan.plain.map bindSlot ++ bindCopies plan.owned, plan.slots.map fun slot => .name slot.target⟩ :=
    if_neg (by simp [hplace])
  have hplain {σ : Locals} : runAll params [] (plan.plain.map bindSlot) = .ok σ ↔ _ :=
    runAll_binds (τ := []) (fun slot hslot => hknown slot (mem_slots_of_plain hslot).1) List.nodup_nil
  obtain ⟨lists, hlists, hcopies⟩ := runAll_copies (τ := scoping.bind [] plan.plain)
    (fun slot hslot => hknown slot (mem_slots_of_owned hslot).1) fun h => hlist (hkeys.mem_iff.1 h)
  have hargs := bound_args params hplace fun slot hslot =>
    lookup_around hlists fun h => hlist (h ▸ List.mem_map_of_mem hslot)
  rw [hblock, Block.passes, runAll_append, ← hboth]
  constructor
  · intro h
    obtain ⟨σ₂, hrun, h⟩ := bind_eq_ok.1 h
    obtain ⟨σ₁, hfirst, hlast⟩ := bind_eq_ok.1 hrun
    obtain ⟨-, rfl⟩ := hplain.1 hfirst
    obtain ⟨hnodup, rfl⟩ := (hcopies σ₂).1 hlast
    exact ⟨hnodup, (Except.ok.inj (hargs.symm.trans h)).symm⟩
  · rintro ⟨hnodup, rfl⟩
    have hfirst : ((scoping.bind [] plan.plain).map (·.1)).Nodup := by
      rw [Scoping.bound, List.map_append] at hnodup
      exact hnodup.of_append_right
    rw [hplain.2 ⟨hfirst, rfl⟩, bind_ok, (hcopies _).2 ⟨hnodup, rfl⟩, bind_ok, hargs]

/-- **What a block passes** are the terms of its plan, unless it has to declare a local twice. -/
theorem passes_eq_ok_iff (hknown : ∀ slot ∈ plan.slots, Known params slot)
    (hlist : listName ∉ plan.slots.map (·.target)) {ms : List Meaning} :
    (blockOf plan).passes params = .ok ms ↔
      (plan.inPlace = false → (plan.slots.map (·.target)).Nodup) ∧ ms = scoping.terms plan := by
  cases hplace : plan.inPlace with
  | true =>
    rw [inPlace_passes hknown hplace]
    exact ⟨fun h => ⟨fun hbound => absurd hbound (by simp), (Except.ok.inj h).symm⟩, fun h => congrArg _ h.2.symm⟩
  | false =>
    rw [bound_passes_iff hknown hlist hplace]
    exact and_congr_left fun _ => ⟨fun h _ => h, fun h => h rfl⟩

/-- **Every argument in its place.** A plan passes in each slot what belongs there, just where its locals keep out of
the way. -/
theorem passes_iff (hknown : ∀ slot ∈ plan.slots, Known params slot) (hslots : plan.slots.Nodup)
    (hinj : ∀ slot ∈ plan.slots, ∀ other ∈ plan.slots, scoping.own slot = scoping.own other → slot = other)
    (hlist : listName ∉ plan.slots.map (·.target)) :
    (blockOf plan).passes params = .ok (plan.slots.map scoping.own) ↔ Placed plan := by
  rw [passes_eq_ok_iff hknown hlist, eq_comm (b := scoping.terms plan), Scoping.terms_eq_iff hslots hinj]
  exact and_iff_right_of_imp fun h _ => h.targets

/-! ## The shapes of what is passed -/

/-- The shape of what is passed; arguments as they are given have none. -/
def Meaning.shape? (table : Table) : Meaning → Option Shape
  | .handle => some .handle
  | .given _ => none
  | .lowered t _ => some (table.shapeOf t)
  | .copied _ _ => some .buffer

/-- What is copied in these slots has the shape of a buffer. -/
def CopyBuffers (table : Table) (slots : List Slot) : Prop :=
  ∀ slot ∈ slots, slot.owned = true → slot.shape table = .buffer

/-- **Whatever a slot is lowered from**, it has the shape of the slot. -/
theorem shaped_of_buffer (h : slot.owned = true → slot.shape table = .buffer) :
    scoping.Shaped (·.shape? table) table slot := by
  intro τ
  unfold Scoping.termOf
  cases horigin : slot.origin with
  | receiver => simp [scoping, Meaning.shape?, Slot.shape, horigin]
  | param p =>
    cases howned : slot.owned with
    | true => simp [scoping, Meaning.shape?, howned, h howned]
    | false => simp [scoping, Meaning.shape?, Slot.shape, howned, horigin]

/-- **What is passed has the shapes of the value arguments**, just where those that share a local have one shape, and
none do where the locals are declared. -/
theorem passes_shapes_iff {localName : String → String} {args : List Argument}
    (h : List.Forall₂ (Stands table localName args) args plan.slots)
    (hknown : ∀ slot ∈ plan.slots, Known params slot) (hbuffers : CopyBuffers table plan.slots)
    (hlist : listName ∉ plan.slots.map (·.target)) :
    (∃ ms, (blockOf plan).passes params = .ok ms ∧ ms.map (·.shape? table) = args.map fun a => some a.shape) ↔
      ShareShapes localName args ∧ (plan.inPlace = false → (plan.slots.map (·.target)).Nodup) := by
  have hheld : plan.heldShapes table id = args.map (·.shape) ↔ ShareShapes localName args := heldShapes_iff h
  have hread : plan.readAs scoping.inside = id := ite_self _
  have hshaped : ∀ slot ∈ plan.slots, scoping.Shaped (·.shape? table) table slot := fun slot hslot =>
    shaped_of_buffer (hbuffers slot hslot)
  have hshapes := Scoping.terms_shapes hshaped
  rw [hread] at hshapes
  have hsome : (args.map fun a => some a.shape) = (args.map (·.shape)).map some := by
    rw [List.map_map]
    rfl
  simp only [passes_eq_ok_iff hknown hlist, and_assoc, exists_and_left, exists_eq_left, hshapes, hsome, ← hheld,
    List.map_inj_right fun _ _ => Option.some.inj]
  exact and_comm

end Slots

end Bindgen.Emit.KotlinSource
