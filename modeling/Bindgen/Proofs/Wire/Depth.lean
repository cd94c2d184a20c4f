import Bindgen.Proofs.Generation.Acceptance
import Bindgen.Proofs.Wire.Definitions
import Bindgen.Proofs.Wire.Took

/-!
# How deep reading goes

The fields of a record are read one after another with nothing in front, and what is behind a box is read in
place. So a record may be begun again before a byte is read, which is what `Enters` says of two definitions, and
then reading it never comes to an end, for any bytes. Where no definition comes to itself that way, the bytes
bound how deep reading goes: between two bytes every definition is begun once at most.

Results:
* `shallow_named`: below the bound nothing is given up as too deep.
* `settled_named`: what is not given up does not depend on the limit.
* `deep_of_reentry`: a definition that comes to itself is given up at every limit.
* `decode_settles`: reading comes to an end for all bytes.
-/

namespace Bindgen.Wire

open Interface Resolve

variable {s : Schema} {table : Table} {m : Model}

/-! ## Reading without a byte -/

/-- The values of a type have no bytes. -/
inductive Idle (table : Table) : Ty → Prop where
  | box {t : Ty} (h : Idle table t) : Idle table (.box t)
  | record {name : String} {d : Record} (hl : table.lookup name = some (.record d))
      (h : ∀ f ∈ d.fields, Idle table f.type) : Idle table (.named name)

/-- A definition may be begun in some fields before a byte of them is read. -/
inductive Opens (table : Table) : List Field → String → Prop where
  | here {f : Field} {fs : List Field} {name : String} (h : f.type.unbox = .named name) :
      Opens table (f :: fs) name
  | later {f : Field} {fs : List Field} {name : String} (hi : Idle table f.type) (h : Opens table fs name) :
      Opens table (f :: fs) name

/-- A definition begins another one before a byte of it is read. Only records do: everything else has a number in
front. -/
def Enters (table : Table) (a b : String) : Prop :=
  ∃ d, table.lookup a = some (.record d) ∧ Opens table d.fields b

/-- No definition that a type reaches can begin itself again before a byte is read. -/
def NoReentry (table : Table) (t : Ty) : Prop :=
  ∀ name, Reaches table t (.named name) → ¬ Relation.TransGen (Enters table) name name

/-- No definition begins itself where each one begins lower ones only. -/
theorem noReentry_of_rank {t : Ty} (rank : String → Nat) (h : ∀ a b, Enters table a b → rank b < rank a) :
    NoReentry table t := by
  intro name _ hcycle
  have hlower : ∀ b, Relation.TransGen (Enters table) name b → rank b < rank name := by
    intro b hb
    induction hb with
    | single hstep => exact h _ _ hstep
    | tail _ hstep ih => exact (h _ _ hstep).trans ih
  exact Nat.lt_irrefl _ (hlower name hcycle)

/-! ## Room below the limit -/

/-- There is room below a limit to read on, with a count of bytes left. The definitions that were begun since the
last byte are on a stack, which leads to every definition that may be begun next. Each byte that is left pays for
a stack as high as the table. -/
def Clear (table : Table) (limit left : Nat) (nexts : String → Prop) : Prop :=
  ∃ stack, Stacked table stack ∧ left * (table.length + 1) + (table.length + 1 - stack.length) ≤ limit ∧
    ∀ a ∈ stack, ∀ b, nexts b → Relation.TransGen (Enters table) a b

variable {limit left left' : Nat} {nexts nexts' : String → Prop}

theorem Clear.start (h : (left + 1) * (table.length + 1) ≤ limit) : Clear table limit left nexts := by
  refine ⟨[], ⟨List.nodup_nil, fun _ hn => absurd hn List.not_mem_nil⟩, ?_, fun _ ha => absurd ha List.not_mem_nil⟩
  rw [Nat.succ_mul] at h
  exact h

theorem Clear.pos (h : Clear table limit left nexts) : 0 < limit := by
  obtain ⟨stack, hstacked, hroom, -⟩ := h
  have := hstacked.length_le
  omega

theorem Clear.weaken (h : Clear table limit left nexts) (hn : ∀ b, nexts' b → nexts b) :
    Clear table limit left nexts' := by
  obtain ⟨stack, hstacked, hroom, hleads⟩ := h
  exact ⟨stack, hstacked, hroom, fun a ha b hb => hleads a ha b (hn b hb)⟩

/-- A byte that was read makes room for any definition, one limit further down too. -/
theorem Clear.consumed (h : Clear table (limit + 1) left nexts) (hlt : left' < left) :
    Clear table limit left' nexts' := by
  obtain ⟨stack, hstacked, hroom, -⟩ := h
  have hle := hstacked.length_le
  have hmul : (left' + 1) * (table.length + 1) ≤ left * (table.length + 1) := Nat.mul_le_mul_right _ hlt
  exact .start (by omega)

theorem Clear.after {n : Nat} (h : Clear table limit left nexts) (hleft : left = n + left')
    (hn : n = 0 → ∀ b, nexts' b → nexts b) : Clear table limit left' nexts' := by
  cases n with
  | zero =>
    obtain rfl : left = left' := by omega
    exact h.weaken (hn rfl)
  | succ n =>
    obtain ⟨stack, hstacked, hroom, -⟩ := h
    have hmul : (left' + 1) * (table.length + 1) ≤ left * (table.length + 1) :=
      Nat.mul_le_mul_right _ (by omega)
    exact .start (by omega)

/-- A record is begun, which was not since the last byte. -/
theorem Clear.enter {name : String} {d : Record} (h : Clear table (limit + 1) left (· = name))
    (hl : table.lookup name = some (.record d)) (hno : ¬ Relation.TransGen (Enters table) name name) :
    Clear table limit left (Opens table d.fields) := by
  obtain ⟨stack, hstacked, hroom, hleads⟩ := h
  have hnew : name ∉ stack := fun hm => hno (hleads name hm name rfl)
  refine ⟨stack ++ [name], hstacked.push hnew hl, ?_, fun a ha b hb => ?_⟩
  · have := hstacked.lt hnew hl
    rw [List.length_append, List.length_singleton]
    omega
  · have hstep : Relation.TransGen (Enters table) name b := .single ⟨d, hl, hb⟩
    rcases List.mem_append.1 ha with ha | ha
    · exact (hleads a ha name rfl).trans hstep
    · exact List.mem_singleton.1 ha ▸ hstep

/-! ## What is not given up -/

/-- A fault is of the value or its names, and not of how deep it is nested. -/
def Shallow (e : Fault) : Prop := e ≠ .tooDeep

theorem shallow_internal (b : Breach) : Shallow (.internal b) := Fault.noConfusion

section Names

theorem shallow_found (w : Standing) : Yields Shallow (fun _ => True) w.found := by
  cases w <;> first | trivial | exact Fault.noConfusion

theorem shallow_called (w : Standing) : Yields Shallow (fun _ => True) w.called := by
  cases w <;> first | trivial | exact Fault.noConfusion

theorem shallow_asked (w : Standing) : Yields Shallow (fun _ => True) w.asked := by
  cases w <;> first | trivial | exact Fault.noConfusion

theorem shallow_find (s : Schema) (name : String) : Yields Shallow (fun _ => True) (s.find name) := by
  unfold Schema.find
  split
  · exact Fault.noConfusion
  · trivial

theorem shallow_checkKnown (s : Schema) (cls : ClassRef) (given : List (String × Value)) :
    Yields Shallow (fun _ => True) (s.checkKnown cls given) := by
  unfold Schema.checkKnown
  split
  · exact Fault.noConfusion
  · trivial

theorem shallow_instanceField (s : Schema) (attr : String) (v : Value) :
    Yields Shallow (fun _ => True) (s.instanceField attr v) := by
  unfold Schema.instanceField
  split
  · exact Fault.noConfusion
  · exact Fault.noConfusion
  · trivial

theorem shallow_failureField (s : Schema) (attr : String) (v : Value) :
    Yields Shallow (fun _ => True) (s.failureField attr v) := by
  unfold Schema.failureField
  split
  · split
    · trivial
    · exact Fault.noConfusion
  · split
    · exact Fault.noConfusion
    · exact Fault.noConfusion
    · exact Fault.noConfusion
    · exact Fault.noConfusion
    · split
      · exact Fault.noConfusion
      · trivial

theorem shallow_makeInstance (s : Schema) (cls : ClassRef) (given : List (String × Value)) :
    Yields Shallow (fun _ => True) (s.makeInstance cls given) := by
  unfold Schema.makeInstance
  refine (shallow_checkKnown s cls given).bind fun _ _ => ?_
  dsimp only
  split
  · exact Fault.noConfusion
  · split
    · exact Fault.noConfusion
    · exact (Yields.mapM fun p _ => shallow_instanceField s p.1 p.2).bind fun _ _ => trivial

theorem shallow_makeFailure (s : Schema) (cls : ClassRef) (message : String) (given : List (String × Value)) :
    Yields Shallow (fun _ => True) (s.makeFailure cls message given) := by
  unfold Schema.makeFailure
  refine (shallow_checkKnown s cls given).bind fun _ _ => ?_
  dsimp only
  split
  · exact Fault.noConfusion
  · split
    · exact Fault.noConfusion
    · exact (Yields.mapM fun p _ => shallow_failureField s p.1 p.2).bind fun _ _ => trivial

theorem shallow_buildVariant (s : Schema) (c : Choice) (isError : Bool) (index : Nat)
    (given : List (String × Value)) : Yields Shallow (fun _ => True) (buildVariant s c isError index given) := by
  unfold buildVariant
  split
  · exact shallow_makeFailure s _ "" given
  · exact shallow_makeInstance s _ given

theorem shallow_askMember (s : Schema) (cls member : String) (given : Nat) :
    Yields Shallow (fun _ => True) (s.askMember cls member given) := by
  unfold Schema.askMember
  split
  · split
    · exact Fault.noConfusion
    · trivial
  · trivial

theorem shallow_liftObject (s : Schema) (name : String) (v : Value) :
    Yields Shallow (fun _ => True) (liftObject s name v) := by
  have hhandle : Yields Shallow (fun _ => True) (checkHandle v) := by
    unfold checkHandle
    split
    · trivial
    · exact Fault.noConfusion
  have hnew : Yields Shallow (fun _ => True) (newObject name v) := hhandle.bind fun _ _ => trivial
  unfold liftObject madeObject
  exact (shallow_asked _).bind fun _ _ => hnew.bind fun _ _ =>
    (shallow_askMember s name makeMember 1).bind fun _ _ => trivial

theorem shallow_memberFault (s : Schema) (c : Choice) (number : Int) : Shallow (memberFault s c number) := by
  unfold memberFault
  split
  · exact Fault.noConfusion
  · split
    · split <;> exact Fault.noConfusion
    · exact Fault.noConfusion
    · exact Fault.noConfusion

theorem shallow_insert? (s : Schema) (k w : Value) (entries : List (Value × Value)) :
    Yields Shallow (fun _ => True) (Value.insert? s k w entries) := by
  unfold Value.insert?
  split
  · exact Fault.noConfusion
  · trivial

end Names

/-! ## Reading with room -/

/-- What was read of a type takes some bytes, or the type has none. -/
def Takes (table : Table) (t : Ty) (r : Reader) (p : Value × Reader) : Prop :=
  ∃ n, r.Took n p.2 ∧ (n = 0 → Idle table t)

section Room

variable {root : Ty}

/-- What stands after a byte is read with room again, wherever it stands. -/
theorem Clear.inside {t : Ty} {read : Reader → Except Fault (Value × Reader)} {r r' : Reader} {k : Nat}
    (hc : Clear table limit r.rest.length nexts) (hk : 0 < k) (htook : r.Took k r')
    (h : ∀ {r : Reader}, Clear table limit r.rest.length (t.unbox = .named ·) →
      Yields Shallow (Takes table t r) (read r)) :
    ∀ r'' n, r'.Took n r'' → Yields Shallow (fun p => True ∧ ∃ n, r''.Took n p.2) (read r'') :=
  fun _ _ hn => (h (hc.after (htook.trans hn).length (by omega))).mono fun _ ⟨k, hk, _⟩ => ⟨trivial, k, hk⟩

/-- Where there is room, reading of a type is not given up if it is not for definitions. -/
theorem shallow_ty {read : String → Reader → Except Fault (Value × Reader)}
    (hread : ∀ name r, Reaches s.table root (.named name) → Clear s.table limit r.rest.length (· = name) →
      Yields Shallow (Takes s.table (.named name) r) (read name r))
    {t : Ty} (ht : Reaches s.table root t) {r : Reader}
    (hc : Clear s.table limit r.rest.length (t.unbox = .named ·)) :
    Yields Shallow (Takes s.table t r) (readTy s read t r) := by
  induction t generalizing r with
  | prim p =>
    refine (yields_prim shallow_internal p r).mono fun q hq => ?_
    obtain ⟨⟨n, hpos, htook⟩, -⟩ := hq
    exact ⟨n, htook, by omega⟩
  | string =>
    refine (yields_counted shallow_internal r).bind fun q hq => ?_
    obtain ⟨n, htook⟩ := hq
    refine (yields_decodeText shallow_internal q.1).bind fun _ _ => ⟨_, htook, fun h => ?_⟩
    exact absurd h (by simp [IntFormat.i32])
  | bytes =>
    refine (yields_counted shallow_internal r).bind fun q hq => ?_
    obtain ⟨n, htook⟩ := hq
    exact ⟨_, htook, fun h => absurd h (by simp [IntFormat.i32])⟩
  | optional t ih =>
    refine (yields_int shallow_internal r .u8).bind fun q hq => ?_
    obtain ⟨htook, -⟩ := hq
    have htook : r.Took 1 q.2 := htook
    dsimp only
    split
    · exact ⟨1, htook, by omega⟩
    · split
      · have hlater : Clear s.table limit q.2.rest.length (t.unbox = .named ·) :=
          hc.after htook.length (by omega)
        refine (ih (ht.tail (.child List.mem_cons_self)) hlater).mono fun p hp => ?_
        obtain ⟨n, hn, -⟩ := hp
        exact ⟨1 + n, htook.trans hn, by omega⟩
      · exact Fault.noConfusion
  | sequence t ih =>
    refine (yields_int shallow_internal r .i32).bind fun q hq => ?_
    obtain ⟨htook, -⟩ := hq
    have htook : r.Took 4 q.2 := htook
    have hitem := hc.inside (by decide) htook (ih (ht.tail (.child List.mem_cons_self)))
    dsimp only
    split
    · exact Fault.noConfusion
    · refine (yields_items (Q := fun _ => True) hitem).bind fun p hp => ?_
      obtain ⟨-, n, hn⟩ := hp
      exact ⟨4 + n, htook.trans hn, by omega⟩
  | map k w ihk ihw =>
    refine (yields_int shallow_internal r .i32).bind fun q hq => ?_
    obtain ⟨htook, -⟩ := hq
    have htook : r.Took 4 q.2 := htook
    have hkey := hc.inside (by decide) htook (ihk (ht.tail (.child (by simp [Ty.children]))))
    have hvalue := hc.inside (by decide) htook (ihw (ht.tail (.child (by simp [Ty.children]))))
    dsimp only
    split
    · exact Fault.noConfusion
    · refine (yields_entries (K := fun _ => True) (W := fun _ => True) (E := fun _ => True) hkey hvalue
        (fun k w entries _ _ _ => shallow_insert? s k w entries) trivial).bind fun p hp => ?_
      obtain ⟨-, n, hn⟩ := hp
      exact ⟨4 + n, htook.trans hn, by omega⟩
  | box t ih =>
    refine (ih (ht.tail (.child List.mem_cons_self)) hc).mono fun p hp => ?_
    obtain ⟨n, hn, hidle⟩ := hp
    exact ⟨n, hn, fun h => .box (hidle h)⟩
  | named name => exact hread name r ht (hc.weaken fun b hb => congrArg Ty.named hb.symm)

/-- The fields of a definition are not given up if their types are not. -/
theorem shallow_fields {read : Ty → Reader → Except Fault (Value × Reader)}
    (hread : ∀ t r, Reaches table root t → Clear table limit r.rest.length (t.unbox = .named ·) →
      Yields Shallow (Takes table t r) (read t r))
    {fs : List Field} (hfs : ∀ f ∈ fs, Reaches table root f.type) {r : Reader}
    (hc : Clear table limit r.rest.length (Opens table fs)) :
    Yields Shallow (fun p => ∃ n, r.Took n p.2 ∧ (n = 0 → ∀ f ∈ fs, Idle table f.type))
      (readFields read fs r) := by
  induction fs generalizing r with
  | nil => exact ⟨0, .refl r, fun _ _ hf => absurd hf List.not_mem_nil⟩
  | cons f fs ih =>
    rw [List.forall_mem_cons] at hfs
    unfold readFields
    refine (hread f.type r hfs.1 (hc.weaken fun _ => .here)).bind fun p hp => ?_
    obtain ⟨n, hn, hidle⟩ := hp
    refine (ih hfs.2 (hc.after hn.length fun h _ => .later (hidle h))).bind fun q hq => ?_
    obtain ⟨k, hk, hidles⟩ := hq
    refine ⟨n + k, hn.trans hk, fun h => List.forall_mem_cons.2 ⟨hidle ?_, hidles ?_⟩⟩
    · exact (Nat.add_eq_zero_iff.1 h).1
    · exact (Nat.add_eq_zero_iff.1 h).2

/-- Reads a value of a choice: the number of its variant, and then the fields of that. -/
def readChoice (m : Model) (limit : Nat) (c : Choice) (isError : Bool) (numbered : Standing) (r : Reader) :
    Except Fault (Value × Reader) := do
  let (number, r) ← r.int .i32
  match if number < firstVariant then none else c.variants[(number - firstVariant).toNat]? with
  | some v => do
    numbered.asked
    let (given, r) ← readFields (readField m limit) v.fields r
    return (← buildVariant m.schema c isError (number - firstVariant).toNat given, r)
  | none => do
    m.schema.find Emit.supportName
    throw (.internal (.invalidVariant c.name number))

theorem readNamed_eq_readChoice {name : String} {d : Definition} {c : Choice}
    (hl : m.schema.table.lookup name = some d) (hc : Schema.choice? d = some c) (r : Reader) :
    readNamed m.schema (limit + 1) name r =
      readChoice m limit c (d.kind == .error) (m.schema.standing (numberedLocals name) name) r := by
  unfold readNamed
  rcases choice_cases hc with ⟨rfl, hf⟩ | rfl
  · simp only [hl, hf]
    rfl
  · simp only [hl]
    rfl

/-- What follows the number of a variant has room for anything. -/
theorem shallow_choice {name : String} {d : Definition} {c : Choice} {isError : Bool} {numbered : Standing}
    (hname : Reaches m.schema.table root (.named name)) (hl : m.schema.table.lookup name = some d)
    (hd : Schema.choice? d = some c)
    (hread : ∀ t r, Reaches m.schema.table root t → Clear m.schema.table limit r.rest.length (t.unbox = .named ·) →
      Yields Shallow (Takes m.schema.table t r) (readField m limit t r))
    {r : Reader} (hc : Clear m.schema.table (limit + 1) r.rest.length nexts) :
    Yields Shallow (fun p => ∃ n, 0 < n ∧ r.Took n p.2) (readChoice m limit c isError numbered r) := by
  unfold readChoice
  refine (yields_int shallow_internal r .i32).bind fun p hp => ?_
  obtain ⟨htook, -⟩ := hp
  have htook : r.Took 4 p.2 := htook
  have hroom : Clear m.schema.table limit p.2.rest.length fun _ => True :=
    hc.consumed (by have := htook.length; omega)
  dsimp only
  split
  · rename_i v hv
    have hv : c.variants[(p.1 - firstVariant).toNat]? = some v := by
      split at hv
      · exact absurd hv (by simp)
      · exact hv
    have hfs : ∀ f ∈ v.fields, Reaches m.schema.table root f.type := fun f hf =>
      hname.tail (.field hl (mem_fields_of_scope (fields_mem_fieldScopes hd hv) hf))
    refine (shallow_asked _).bind fun _ _ =>
      (shallow_fields hread hfs (hroom.weaken fun _ _ => trivial)).bind fun q hq => ?_
    obtain ⟨n, hn, -⟩ := hq
    exact (shallow_buildVariant m.schema c isError _ q.1).bind fun _ _ => ⟨4 + n, by omega, htook.trans hn⟩
  · exact (shallow_find m.schema _).bind fun _ _ => Fault.noConfusion

/-- **Reading of a definition with room is not given up** if no definition comes to itself before a byte is read.
The induction is on the limit: every definition on the way takes one from it, and what pays for that is either a
byte or a name that is not on the stack. -/
theorem shallow_named (hroot : NoReentry m.schema.table root) (limit : Nat) {name : String}
    (hname : Reaches m.schema.table root (.named name)) {r : Reader}
    (hc : Clear m.schema.table limit r.rest.length (· = name)) :
    Yields Shallow (Takes m.schema.table (.named name) r) (readNamed m.schema limit name r) := by
  induction limit generalizing name r with
  | zero => exact absurd hc.pos (Nat.lt_irrefl 0)
  | succ limit ih =>
    have hfield : ∀ t r, Reaches m.schema.table root t →
        Clear m.schema.table limit r.rest.length (t.unbox = .named ·) →
        Yields Shallow (Takes m.schema.table t r) (readField m limit t r) := fun t r ht hc =>
      (shallow_find m.schema _).bind fun _ _ => shallow_ty (fun name r hname hc => ih hname hc) ht hc
    have hchoice : ∀ d c, m.schema.table.lookup name = some d → Schema.choice? d = some c →
        Yields Shallow (Takes m.schema.table (.named name) r) (readNamed m.schema (limit + 1) name r) := by
      intro d c hl hd
      rw [readNamed_eq_readChoice hl hd]
      refine (shallow_choice hname hl hd hfield hc).mono fun p hp => ?_
      obtain ⟨n, hpos, hn⟩ := hp
      exact ⟨n, hn, by omega⟩
    cases hl : m.schema.table.lookup name with
    | none =>
      unfold readNamed
      simp only [hl]
      exact Fault.noConfusion
    | some d =>
      cases d with
      | record d =>
        have hfields := shallow_fields hfield (fun f hf => hname.tail (.field hl hf))
          (hc.enter hl (hroot name hname))
        unfold readNamed
        simp only [hl]
        refine (shallow_found _).bind fun _ _ => hfields.bind fun p hp => ?_
        obtain ⟨n, hn, hidle⟩ := hp
        exact (shallow_called _).bind fun _ _ => (shallow_makeInstance m.schema _ p.1).bind fun _ _ =>
          ⟨n, hn, fun h => .record hl (hidle h)⟩
      | enum c =>
        cases hf : c.isFlat with
        | false => exact hchoice _ c hl (choice_of_not_flat hf)
        | true =>
          unfold readNamed
          simp only [hl, hf, if_true]
          refine (yields_int shallow_internal r .i32).bind fun p hp => (shallow_called _).bind fun _ _ => ?_
          obtain ⟨htook, -⟩ := hp
          have htook : r.Took 4 p.2 := htook
          split
          · exact ⟨4, htook, by omega⟩
          · exact shallow_memberFault m.schema c p.1
      | error c => exact hchoice _ c hl rfl
      | object o =>
        unfold readNamed
        simp only [hl]
        refine (yields_int shallow_internal r .u64).bind fun p hp => ?_
        obtain ⟨htook, -⟩ := hp
        have htook : r.Took 8 p.2 := htook
        exact (shallow_liftObject m.schema o.name _).bind fun _ _ => ⟨8, htook, by omega⟩

end Room

/-! ## More room -/

section Agreement

variable {α β : Type}

/-- An outcome is another one, unless it was given up. -/
def Agrees (x y : Except Fault α) : Prop := x = .error .tooDeep ∨ x = y

theorem Agrees.refl (x : Except Fault α) : Agrees x x := .inr rfl

theorem Agrees.bind {x y : Except Fault α} {f g : α → Except Fault β} (h : Agrees x y)
    (hf : ∀ a, Agrees (f a) (g a)) : Agrees (x >>= f) (y >>= g) := by
  rcases h with rfl | rfl
  · exact .inl rfl
  · cases x with
    | error e => exact .inr rfl
    | ok a => exact hf a

theorem agrees_items {read read' : Reader → Except Fault (α × Reader)} (h : ∀ r, Agrees (read r) (read' r))
    (count : Nat) (r : Reader) : Agrees (readItems read count r) (readItems read' count r) := by
  induction count generalizing r with
  | zero => exact .refl _
  | succ count ih => exact (h r).bind fun p => (ih p.2).bind fun _ => .refl _

theorem agrees_entries {key key' value value' : Reader → Except Fault (Value × Reader)}
    (hk : ∀ r, Agrees (key r) (key' r)) (hw : ∀ r, Agrees (value r) (value' r)) (count : Nat)
    (entries : List (Value × Value)) (r : Reader) :
    Agrees (readEntries s key value count entries r) (readEntries s key' value' count entries r) := by
  induction count generalizing entries r with
  | zero => exact .refl _
  | succ count ih =>
    exact (hk r).bind fun p => (hw p.2).bind fun q =>
      (Agrees.refl (Value.insert? s p.1 q.1 entries)).bind fun entries => ih entries q.2

theorem agrees_ty {read read' : String → Reader → Except Fault (Value × Reader)}
    (h : ∀ name r, Agrees (read name r) (read' name r)) (t : Ty) (r : Reader) :
    Agrees (readTy s read t r) (readTy s read' t r) := by
  induction t generalizing r with
  | optional t ih =>
    refine (Agrees.refl (r.int .u8)).bind fun p => ?_
    dsimp only
    split
    · exact .refl _
    · split
      · exact ih p.2
      · exact .refl _
  | sequence t ih =>
    refine (Agrees.refl (r.int .i32)).bind fun p => ?_
    dsimp only
    split
    · exact .refl _
    · exact (agrees_items ih _ p.2).bind fun _ => .refl _
  | map k w ihk ihw =>
    refine (Agrees.refl (r.int .i32)).bind fun p => ?_
    dsimp only
    split
    · exact .refl _
    · exact (agrees_entries ihk ihw _ [] p.2).bind fun _ => .refl _
  | box t ih => exact ih r
  | named name => exact h name r
  | _ => exact .refl _

theorem agrees_fields {read read' : Ty → Reader → Except Fault (Value × Reader)}
    (h : ∀ t r, Agrees (read t r) (read' t r)) (fs : List Field) (r : Reader) :
    Agrees (readFields read fs r) (readFields read' fs r) := by
  induction fs generalizing r with
  | nil => exact .refl _
  | cons f fs ih => exact (h f.type r).bind fun p => (ih p.2).bind fun _ => .refl _

/-- **What is read does not depend on the limit**, unless it is given up. -/
theorem settled_named (limit : Nat) (name : String) (r : Reader) :
    Agrees (readNamed m.schema limit name r) (readNamed m.schema (limit + 1) name r) := by
  induction limit generalizing name r with
  | zero => exact .inl rfl
  | succ limit ih =>
    have hfield : ∀ t r, Agrees (readField m limit t r) (readField m (limit + 1) t r) := fun t r =>
      (Agrees.refl (m.schema.find _)).bind fun _ => agrees_ty ih t r
    have hchoice : ∀ d c, m.schema.table.lookup name = some d → Schema.choice? d = some c →
        Agrees (readNamed m.schema (limit + 1) name r) (readNamed m.schema (limit + 2) name r) := by
      intro d c hl hd
      rw [readNamed_eq_readChoice hl hd, readNamed_eq_readChoice hl hd]
      refine (Agrees.refl (r.int .i32)).bind fun p => ?_
      dsimp only
      split
      · exact (Agrees.refl (Standing.asked _)).bind fun _ => (agrees_fields hfield _ p.2).bind fun _ => .refl _
      · exact .refl _
    cases hl : m.schema.table.lookup name with
    | none =>
      unfold readNamed
      simp only [hl]
      exact .refl _
    | some d =>
      cases d with
      | record d =>
        unfold readNamed
        simp only [hl]
        exact (Agrees.refl (Standing.found _)).bind fun _ =>
          (agrees_fields hfield d.fields r).bind fun _ => .refl _
      | enum c =>
        cases hf : c.isFlat with
        | false => exact hchoice _ c hl (choice_of_not_flat hf)
        | true =>
          unfold readNamed
          simp only [hl, hf, if_true]
          exact .refl _
      | error c => exact hchoice _ c hl rfl
      | object o =>
        unfold readNamed
        simp only [hl]
        exact .refl _

theorem settled_named_le {limit limit' : Nat} (h : limit ≤ limit') (name : String) (r : Reader) :
    Agrees (readNamed m.schema limit name r) (readNamed m.schema limit' name r) := by
  induction h with
  | refl => exact .refl _
  | step _ ih =>
    rcases ih with ih | ih
    · exact .inl ih
    · exact ih ▸ settled_named _ name r

end Agreement

/-! ## Definitions that begin themselves -/

theorem readTy_unbox {read : String → Reader → Except Fault (Value × Reader)} (t : Ty) (r : Reader) :
    readTy s read t.unbox r = readTy s read t r := by
  induction t with
  | box t ih => exact ih
  | _ => rfl

section Reentry

variable (hn : OrdinaryNames m)
include hn

theorem readField_eq (limit : Nat) : readField m limit = readTy m.schema (readNamed m.schema limit) := by
  funext t r
  unfold readField
  rw [find_converterSource hn, bind_ok]

omit hn in
/-- Fields without bytes are read without one, or given up. -/
theorem idle_fields {read : Ty → Reader → Except Fault (Value × Reader)} {fs : List Field} {r : Reader}
    (h : ∀ f ∈ fs, read f.type r = .error .tooDeep ∨ ∃ v, read f.type r = .ok (v, r)) :
    readFields read fs r = .error .tooDeep ∨
      ∃ given, readFields read fs r = .ok (given, r) ∧ given.map (·.1) = fs.map fieldName := by
  induction fs with
  | nil => exact .inr ⟨[], rfl, rfl⟩
  | cons f fs ih =>
    rw [List.forall_mem_cons] at h
    unfold readFields
    rcases h.1 with hf | ⟨v, hf⟩
    · exact .inl (by rw [hf]; rfl)
    · simp only [hf, bind_ok]
      rcases ih h.2 with hfs | ⟨given, hfs, hnames⟩
      · exact .inl (by rw [hfs]; rfl)
      · refine .inr ⟨(fieldName f, v) :: given, by rw [hfs]; rfl, ?_⟩
        rw [List.map_cons, List.map_cons, hnames]

/-- A value without bytes is read without one, or given up. -/
theorem idle_read {t : Ty} (h : Idle m.schema.table t) (limit : Nat) (r : Reader) :
    readTy m.schema (readNamed m.schema limit) t r = .error .tooDeep ∨
      ∃ v, readTy m.schema (readNamed m.schema limit) t r = .ok (v, r) := by
  induction h generalizing limit with
  | box _ ih => exact ih limit
  | @record name d hl _ ih =>
    cases limit with
    | zero => exact .inl rfl
    | succ limit =>
      show readNamed m.schema (limit + 1) name r = _ ∨ ∃ v, readNamed m.schema (limit + 1) name r = _
      obtain ⟨hd, rfl⟩ := lookup_schema hl
      rw [readNamed_record hn hl, readField_eq hn]
      rcases idle_fields fun f hf => ih f hf limit with hfs | ⟨given, hfs, hnames⟩
      · exact .inl (by simp only [hfs]; rfl)
      · exact .inr ⟨_, by simp only [hfs, bind_ok, makeRecord_ok hn hl hnames]; rfl⟩

/-- Fields that begin a definition which is given up are given up. -/
theorem deep_of_opens {limit : Nat} {fs : List Field} {b : String} (h : Opens m.schema.table fs b)
    (hb : ∀ r, readNamed m.schema limit b r = .error .tooDeep) (r : Reader) :
    readFields (readTy m.schema (readNamed m.schema limit)) fs r = .error .tooDeep := by
  induction h with
  | @here f fs name hf =>
    unfold readFields
    rw [← readTy_unbox, hf]
    show readNamed m.schema limit name r >>= _ = _
    rw [hb r]
    rfl
  | @later f fs name hi _ ih =>
    unfold readFields
    rcases idle_read hn hi limit r with hf | ⟨v, hf⟩
    · rw [hf]; rfl
    · simp only [hf, bind_ok]
      rw [ih hb]
      rfl

/-- **A definition that begins itself before a byte is read is given up**, for all bytes and at every limit. -/
theorem deep_of_reentry {name : String} (h : Relation.TransGen (Enters m.schema.table) name name) (limit : Nat)
    (r : Reader) : readNamed m.schema limit name r = .error .tooDeep := by
  induction limit generalizing name r with
  | zero => rfl
  | succ limit ih =>
    obtain ⟨next, ⟨d, hl, hopens⟩, hback⟩ := Relation.TransGen.head'_iff.1 h
    have hnext : Relation.TransGen (Enters m.schema.table) next next := .tail' hback ⟨d, hl, hopens⟩
    rw [readNamed_record hn hl, readField_eq hn]
    simp only [deep_of_opens hn hopens fun r => ih hnext r]
    rfl

end Reentry

/-! ## Converters -/

theorem decode_shallow {c : Converter} {bytes : List UInt8}
    (h : Yields Shallow (Takes c.schema.table c.type (.ofBytes bytes)) (c.read (.ofBytes bytes))) :
    Yields Shallow (fun _ => True) (c.decode bytes) := by
  unfold Converter.decode
  split
  · exact (yields_decodeText shallow_internal bytes).mono fun _ _ => trivial
  · trivial
  · exact h.bind fun p _ => (yields_finish shallow_internal p.2).bind fun _ _ => trivial

/-- Below the bound that the bytes give, reading is not given up. -/
theorem shallow_read {m : Model} {t : Ty} (hr : NoReentry m.schema.table t) {bytes : List UInt8} {limit : Nat}
    (hb : (bytes.length + 1) * (m.definitions.length + 1) ≤ limit) :
    Yields Shallow (Takes m.schema.table t (.ofBytes bytes)) ((m.converter limit t).read (.ofBytes bytes)) := by
  have hlength : m.schema.table.length = m.definitions.length := by
    have hkeys := congrArg List.length (named_keys m.definitions)
    rwa [List.length_map, List.length_map] at hkeys
  refine shallow_ty (fun name r hname hc => shallow_named hr limit hname hc) .refl (.start ?_)
  rw [hlength]
  exact hb

theorem agrees_decode (m : Model) (t : Ty) (bytes : List UInt8) {limit limit' : Nat} (h : limit ≤ limit') :
    Agrees ((m.converter limit t).decode bytes) ((m.converter limit' t).decode bytes) := by
  have hread : ∀ r, Agrees ((m.converter limit t).read r) ((m.converter limit' t).read r) :=
    agrees_ty (settled_named_le h) t
  unfold Converter.decode Model.converter at *
  dsimp only
  cases t.unbox with
  | string | bytes => exact .refl _
  | _ => exact (hread _).bind fun p => .refl _

/-- **Reading comes to an end** for all bytes, where no definition that the type reaches can begin itself again
before a byte is read: there is one outcome, which is not that the value is nested too deeply, and it needs no more
nested definitions than there are in the model for each byte and the end of them. -/
theorem decode_settles (m : Model) {t : Ty} (hr : NoReentry m.schema.table t) (bytes : List UInt8) :
    ∃ outcome : Except Fault Value, outcome ≠ .error .tooDeep ∧
      ∀ limit, (bytes.length + 1) * (m.definitions.length + 1) ≤ limit →
        (m.converter limit t).decode bytes = outcome := by
  have hshallow : Yields Shallow (fun _ => True) ((m.converter _ t).decode bytes) :=
    decode_shallow (shallow_read hr (le_refl _))
  refine ⟨_, fun h => hshallow.of_error h rfl, fun limit hb => ?_⟩
  exact ((agrees_decode m t bytes hb).resolve_left fun h => hshallow.of_error h rfl).symm

/-- Trees with a mark that has no bytes in front. -/
def markedModel : Model where
  ns := "n"
  records := [⟨"Mark", []⟩,
    ⟨"Tree", [⟨"mark", .named "Mark"⟩, ⟨"label", .string⟩, ⟨"parts", .sequence (.box (.named "Tree"))⟩]⟩]
  enums := []
  errors := []
  objects := []
  functions := []

theorem noReentry_markedModel : NoReentry markedModel.schema.table (.named "Tree") := by
  refine noReentry_of_rank (fun name => if name = "Tree" then 1 else 0) fun a b h => ?_
  obtain ⟨d, hl, hopens⟩ := h
  obtain ⟨rfl, rfl⟩ | ⟨rfl, rfl⟩ : a = "Mark" ∧ d = ⟨"Mark", []⟩ ∨ a = "Tree" ∧ d = ⟨"Tree",
      [⟨"mark", .named "Mark"⟩, ⟨"label", .string⟩, ⟨"parts", .sequence (.box (.named "Tree"))⟩]⟩ := by
    simpa [markedModel, Model.schema, Model.definitions, named, Definition.name] using mem_of_lookup hl
  · cases hopens
  · rcases hopens with hmark | ⟨_, hlabel | ⟨hidle, _⟩⟩
    · obtain rfl : "Mark" = b := Ty.named.inj hmark
      decide
    · cases hlabel
    · cases hidle

/-- A tree without parts is read wherever there is room for eight bytes. -/
theorem decode_settles_tree : NoReentry markedModel.schema.table (.named "Tree") ∧
    ∀ limit, 27 ≤ limit → (markedModel.converter limit (.named "Tree")).decode [0, 0, 0, 0, 0, 0, 0, 0] =
      .ok (.instance ⟨"Tree", none⟩
        [("mark", .instance ⟨"Mark", none⟩ []), ("label", .text ""), ("parts", .list [])]) := by
  refine ⟨noReentry_markedModel, fun limit hlimit => ?_⟩
  obtain ⟨outcome, -, houtcome⟩ := decode_settles markedModel noReentry_markedModel [0, 0, 0, 0, 0, 0, 0, 0]
  exact (houtcome limit hlimit).trans (houtcome 27 (le_refl _)).symm

/-- A record that holds itself behind a box. -/
def boxedModel : Model where
  ns := "n"
  records := [⟨"Loop", [⟨"next", .box (.named "Loop")⟩]⟩]
  enums := []
  errors := []
  objects := []
  functions := []

/-- The model is accepted, and reading of the record is given up at every limit. -/
theorem decode_boxed_deep : boxedModel.Accepted ∧
    ∀ limit bytes, (boxedModel.converter limit (.named "Loop")).decode bytes = .error .tooDeep := by
  have hn : OrdinaryNames boxedModel := by
    constructor <;> decide
  refine ⟨accepted_iff.2 (sound_iff.2 ⟨passes_of_isOk (by decide +kernel), by decide⟩), fun limit bytes => ?_⟩
  have hloop : Enters boxedModel.schema.table "Loop" "Loop" := ⟨_, rfl, .here rfl⟩
  show readNamed boxedModel.schema limit "Loop" (.ofBytes bytes) >>= _ = _
  rw [deep_of_reentry hn (.single hloop)]
  rfl

end Bindgen.Wire
