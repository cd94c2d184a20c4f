import Bindgen.Proofs.Wire.Depth

/-!
# Bytes that are missing or left over

What is read depends on the bytes that are taken and on nothing behind them, so a reader that is given only a front
part of these goes the same way until it runs out. `Delimits` says both of a reader. It is kept by doing one thing
after another, and holds of every type and definition of every model, whatever its names are.

Results:
* `Delimits.bind`: one reader after another.
* `delimits_ty`, `delimits_named`: the readers of types and definitions.
* `truncation_detected`: a buffer of which the end is missing, or that goes on, is no buffer of its type.
-/

namespace Bindgen.Wire

open Interface

variable {α β : Type} {s : Schema}

/-- A reader runs out of bytes wherever a part of `bytes` is missing at the end. -/
def RunsOut (read : Reader → Except Fault (α × Reader)) (bytes : List UInt8) : Prop :=
  ∀ front, front <+: bytes → front ≠ bytes → ∀ offset, ∃ size place,
    read ⟨offset, front⟩ = .error (.internal (.underflow size place))

/-- **A reader delimits what it takes**: it takes the same off the front of anything that begins so, and runs out
where the end is missing. -/
def Delimits (read : Reader → Except Fault (α × Reader)) : Prop :=
  ∀ r a r', read r = .ok (a, r') → ∃ taken,
    r.rest = taken ++ r'.rest ∧ Reads read taken a ∧ RunsOut read taken

/-! ## One after another -/

/-- Where bytes are missing at the end of two parts, they are missing in the first or in the second. -/
theorem RunsOut.bind {read : Reader → Except Fault (α × Reader)} {g : α × Reader → Except Fault (β × Reader)}
    {bytes more : List UInt8} {a : α} (ha : Reads read bytes a) (h : RunsOut read bytes)
    (hg : RunsOut (fun r => g (a, r)) more) : RunsOut (fun r => read r >>= g) (bytes ++ more) := by
  rintro front ⟨missing, hfront⟩ hne offset
  by_cases hlong : bytes <+: front
  · obtain ⟨part, rfl⟩ := hlong
    rw [List.append_assoc, List.append_cancel_left_eq] at hfront
    have hpart : part ≠ more := fun he => hne (he ▸ rfl)
    obtain ⟨size, place, hout⟩ := hg part ⟨missing, hfront⟩ hpart (offset + bytes.length)
    refine ⟨size, place, ?_⟩
    simp only [ha offset part, bind_ok]
    exact hout
  · have hshort : front <+: bytes :=
      (List.prefix_or_prefix_of_prefix ⟨missing, hfront⟩ (List.prefix_append bytes more)).resolve_right hlong
    obtain ⟨size, place, hout⟩ := h front hshort (fun he => hlong (he ▸ List.prefix_rfl)) offset
    refine ⟨size, place, ?_⟩
    simp only [hout]
    rfl

theorem delimits_error (e : Fault) : Delimits fun _ => (.error e : Except Fault (α × Reader)) :=
  fun _ _ _ h => by cases h

theorem delimits_pure (a : α) : Delimits fun r => pure (a, r) := by
  intro r b r' h
  obtain ⟨rfl, rfl⟩ := Prod.mk.inj (pure_eq_ok.1 h)
  exact ⟨[], rfl, reads_pure a, fun front hfront hne => absurd (List.prefix_nil.1 hfront) hne⟩

/-- **One reader after another.** -/
theorem Delimits.bind {read : Reader → Except Fault (α × Reader)} {g : α × Reader → Except Fault (β × Reader)}
    (h : Delimits read) (hg : ∀ a, Delimits fun r => g (a, r)) : Delimits fun r => read r >>= g := by
  intro r b r'' hb
  obtain ⟨⟨a, r'⟩, ha, hb⟩ := bind_eq_ok.1 hb
  obtain ⟨bytes, hrest, hreads, hout⟩ := h r a r' ha
  obtain ⟨more, hrest', hreads', hout'⟩ := hg a r' b r'' hb
  refine ⟨bytes ++ more, ?_, hreads.bind (g := fun a r => g (a, r)) hreads', .bind hreads hout hout'⟩
  rw [hrest, hrest', List.append_assoc]

/-- A step that reads nothing, and then a reader. -/
theorem Delimits.after {read : α → Reader → Except Fault (β × Reader)} (x : Except Fault α)
    (h : ∀ a, Delimits (read a)) : Delimits fun r => x >>= fun a => read a r := by
  cases x with
  | ok a => exact h a
  | error e => exact delimits_error e

/-- A step that reads nothing, at the end. -/
theorem delimits_step (x : Except Fault α) : Delimits fun r => x >>= fun a => pure (a, r) :=
  .after x delimits_pure

theorem Delimits.ite {p : Prop} [Decidable p] {read read' : Reader → Except Fault (α × Reader)} (h : Delimits read)
    (h' : Delimits read') : Delimits fun r => if p then read r else read' r := by
  by_cases hp : p
  · simpa only [if_pos hp] using h
  · simpa only [if_neg hp] using h'

/-! ## Scalars -/

theorem delimits_bytes (size : Int) : Delimits (Reader.bytes · size) := by
  intro r bytes r' h
  have h : r.bytes size = .ok (bytes, r') := h
  rcases r.bytes_cases size with ⟨front, rest, hrest, rfl, hok⟩ | ⟨-, herror⟩
  · rw [hok] at h
    obtain ⟨rfl, rfl⟩ := Prod.mk.inj (Except.ok.inj h)
    refine ⟨front, hrest, reads_bytes front, fun part hpart hne offset => ⟨front.length, offset, ?_⟩⟩
    have hshort : part.length < front.length :=
      Nat.lt_of_le_of_ne hpart.length_le fun he => hne (hpart.eq_of_length he)
    rcases Reader.bytes_cases ⟨offset, part⟩ front.length with ⟨front', rest', hpart', hlength, -⟩ | ⟨-, herror⟩
    · have hlong : part.length = (front' ++ rest').length := congrArg List.length hpart'
      rw [List.length_append] at hlong
      omega
    · exact herror
  · rw [herror] at h
    cases h

theorem delimits_int (f : IntFormat) : Delimits (Reader.int · f) :=
  (delimits_bytes f.width).bind fun front => delimits_pure (f.decode front)

theorem delimits_counted : Delimits readCounted :=
  (delimits_int .i32).bind delimits_bytes

theorem delimits_prim (p : Prim) : Delimits ((primFormat p).read s) := by
  cases primFormat p with
  | int f => exact (delimits_int f).bind fun n => delimits_pure (Value.int n)
  | real f =>
    by_cases hf : f = .binary32
    · subst hf
      exact (delimits_bytes 4).bind fun bytes => delimits_pure (Value.real (UInt64.ofNat (widen (bytesNat bytes))))
    · have hread : (PrimFormat.real f).read s = fun r =>
          r.bytes 8 >>= fun p => pure (.real (UInt64.ofNat (bytesNat p.1)), p.2) := by
        funext r
        exact if_neg hf
      rw [hread]
      exact (delimits_bytes 8).bind fun bytes => delimits_pure (Value.real (UInt64.ofNat (bytesNat bytes)))
  | boolean => exact (delimits_int .u8).bind fun n => delimits_step (PrimFormat.lift s .boolean (.int n))

/-! ## Repetitions -/

theorem delimits_items {read : Reader → Except Fault (α × Reader)} (h : Delimits read) (count : Nat) :
    Delimits (readItems read count) := by
  induction count with
  | zero => exact delimits_pure []
  | succ count ih => exact h.bind fun x => ih.bind fun xs => delimits_pure (x :: xs)

theorem delimits_entries {key value : Reader → Except Fault (Value × Reader)} (hk : Delimits key)
    (hw : Delimits value) (count : Nat) (entries : List (Value × Value)) :
    Delimits (readEntries s key value count entries) := by
  induction count generalizing entries with
  | zero => exact delimits_pure entries
  | succ count ih =>
    exact hk.bind fun k => hw.bind fun w => .after (Value.insert? s k w entries) ih

/-! ## Types and definitions -/

/-- **What is read of a type delimits itself**, if what is read of definitions does. -/
theorem delimits_ty {named : String → Reader → Except Fault (Value × Reader)} (h : ∀ name, Delimits (named name))
    (t : Ty) : Delimits (readTy s named t) := by
  induction t with
  | prim p => exact delimits_prim p
  | string => exact delimits_counted.bind fun bytes => delimits_step (decodeText bytes)
  | bytes => exact delimits_counted.bind fun bytes => delimits_pure (Value.bytes bytes)
  | optional t ih =>
    exact (delimits_int .u8).bind fun mark => .ite (delimits_pure Value.none) (.ite ih (delimits_error _))
  | sequence t ih =>
    exact (delimits_int .i32).bind fun count => .ite (delimits_error _)
      ((delimits_items ih count.toNat).bind fun items => delimits_pure (Value.list items))
  | map k w ihk ihw =>
    exact (delimits_int .i32).bind fun count => .ite (delimits_error _)
      ((delimits_entries ihk ihw count.toNat []).bind fun entries => delimits_pure (Value.map entries))
  | box t ih => exact ih
  | named name => exact h name

theorem delimits_fields {read : Ty → Reader → Except Fault (Value × Reader)} (h : ∀ t, Delimits (read t))
    (fs : List Field) : Delimits (readFields read fs) := by
  induction fs with
  | nil => exact delimits_pure []
  | cons f fs ih => exact (h f.type).bind fun v => ih.bind fun rest => delimits_pure ((fieldName f, v) :: rest)

section Definitions

variable {m : Model} {limit : Nat} (h : ∀ t, Delimits (readField m limit t)) {name : String}
include h

theorem delimits_record {d : Record} (hl : m.schema.table.lookup name = some (.record d)) :
    Delimits (readNamed m.schema (limit + 1) name) := by
  have hread : readNamed m.schema (limit + 1) name = fun r =>
      (m.schema.standing (readLocals name) name).found >>= fun _ =>
        readFields (readField m limit) d.fields r >>= fun p =>
          (m.schema.standing (readLocals name) name).called >>= fun _ =>
            m.schema.makeInstance ⟨d.name, none⟩ p.1 >>= fun v => pure (v, p.2) := by
    funext r
    unfold readNamed
    simp only [hl]
    rfl
  rw [hread]
  exact .after _ fun _ => (delimits_fields h d.fields).bind fun given => .after _ fun _ =>
    delimits_step (m.schema.makeInstance ⟨d.name, none⟩ given)

theorem delimits_choice (c : Choice) (isError : Bool) (numbered : Standing) :
    Delimits (readChoice m limit c isError numbered) := by
  refine (delimits_int .i32).bind fun number => ?_
  cases hv : (if number < firstVariant then none else c.variants[(number - firstVariant).toNat]?) with
  | some v =>
    simp only [hv]
    exact .after numbered.asked fun _ => (delimits_fields h v.fields).bind fun given =>
      delimits_step (buildVariant m.schema c isError (number - firstVariant).toNat given)
  | none =>
    simp only [hv]
    exact .after (m.schema.find Emit.supportName) fun _ => delimits_error _

/-- The member of an enum without fields that a number stands for. -/
def memberOf (m : Model) (c : Choice) (number : Int) : Except Fault Value :=
  match Schema.memberPlace? c number with
  | some index => .ok (.member c.name index)
  | none => .error (memberFault m.schema c number)

omit h in
theorem delimits_flat {c : Choice} (hl : m.schema.table.lookup name = some (.enum c)) (hf : c.isFlat = true) :
    Delimits (readNamed m.schema (limit + 1) name) := by
  have hread : readNamed m.schema (limit + 1) name = fun r => r.int .i32 >>= fun p =>
      (m.schema.standing (numberedLocals name) name).called >>= fun _ =>
        memberOf m c p.1 >>= fun v => pure (v, p.2) := by
    funext r
    unfold readNamed memberOf
    simp only [hl, hf, if_true]
    refine congrArg _ (funext fun p => congrArg _ (funext fun _ => ?_))
    cases Schema.memberPlace? c p.1 <;> rfl
  rw [hread]
  exact (delimits_int .i32).bind fun number => .after _ fun _ => delimits_step (memberOf m c number)

omit h in
theorem delimits_object {o : Object} (hl : m.schema.table.lookup name = some (.object o)) :
    Delimits (readNamed m.schema (limit + 1) name) := by
  have hread : readNamed m.schema (limit + 1) name = fun r =>
      r.int .u64 >>= fun p => liftObject m.schema o.name (.int p.1) >>= fun v => pure (v, p.2) := by
    funext r
    unfold readNamed
    simp only [hl]
  rw [hread]
  exact (delimits_int .u64).bind fun handle => delimits_step (liftObject m.schema o.name (.int handle))

end Definitions

/-- **What is read of a definition delimits itself.** The induction is on the limit. -/
theorem delimits_named (m : Model) (limit : Nat) (name : String) : Delimits (readNamed m.schema limit name) := by
  induction limit generalizing name with
  | zero => exact delimits_error .tooDeep
  | succ limit ih =>
    have hfield : ∀ t, Delimits (readField m limit t) := fun t =>
      .after (m.schema.find (Emit.converterSource t)) fun _ => delimits_ty ih t
    have hchoice : ∀ d c, m.schema.table.lookup name = some d → Schema.choice? d = some c →
        Delimits (readNamed m.schema (limit + 1) name) := by
      intro d c hl hd
      rw [funext (readNamed_eq_readChoice hl hd)]
      exact delimits_choice hfield c _ _
    cases hl : m.schema.table.lookup name with
    | none =>
      have hread : readNamed m.schema (limit + 1) name = fun _ => .error .unsupported := by
        funext r
        unfold readNamed
        simp only [hl]
      exact hread ▸ delimits_error .unsupported
    | some d =>
      cases d with
      | record d => exact delimits_record hfield hl
      | enum c =>
        cases hf : c.isFlat with
        | true => exact delimits_flat hl hf
        | false => exact hchoice _ c hl (choice_of_not_flat hf)
      | error c => exact hchoice _ c hl rfl
      | object o => exact delimits_object hl

/-! ## Buffers -/

theorem finish_ok {r : Reader} (h : r.finish = .ok ()) : r.rest = [] := r.finish_eq_ok.1 h

/-- **Truncation and padding are detected.** What is not text or bytes does not fill a buffer that is too short or
too long: where some bytes hold a value, reading runs out of bytes in every proper front part of them, and all that
follows them is left over. -/
theorem truncation_detected {m : Model} {limit : Nat} {t : Ty} (ht : t.unbox ≠ .string) (hb : t.unbox ≠ .bytes)
    {bytes : List UInt8} {v : Value} (h : (m.converter limit t).decode bytes = .ok v) :
    (∀ front, front <+: bytes → front ≠ bytes → ∃ size place,
      (m.converter limit t).decode front = .error (.internal (.underflow size place))) ∧
    ∀ more, more ≠ [] →
      (m.converter limit t).decode (bytes ++ more) = .error (.internal (.junk more.length)) := by
  have hdecode : ∀ b, (m.converter limit t).decode b =
      (m.converter limit t).read (.ofBytes b) >>= fun p => p.2.finish >>= fun _ => pure p.1 := by
    intro b
    unfold Converter.decode
    split
    · exact absurd ‹_› ht
    · exact absurd ‹_› hb
    · rfl
  rw [hdecode] at h
  obtain ⟨⟨w, r⟩, hread, h⟩ := bind_eq_ok.1 h
  obtain ⟨_, hfinish, -⟩ := bind_eq_ok.1 h
  obtain ⟨taken, hrest, hreads, hout⟩ := delimits_ty (delimits_named m limit) t _ _ _ hread
  obtain rfl : bytes = taken := by rw [finish_ok hfinish, List.append_nil] at hrest; exact hrest
  refine ⟨fun front hfront hne => ?_, fun more hmore => ?_⟩
  · obtain ⟨size, place, hfault⟩ := hout front hfront hne 0
    refine ⟨size, place, ?_⟩
    rw [hdecode]
    show readTy _ _ _ _ >>= _ = _
    exact congrArg (· >>= _) hfault
  · rw [hdecode]
    refine (congrArg (· >>= _) (hreads 0 more)).trans ?_
    show Reader.finish ⟨_, more⟩ >>= _ = _
    unfold Reader.finish
    rw [if_neg (by simpa using hmore)]
    rfl

/-- A tree without parts takes eight bytes: seven are too few, and nine are too many. -/
theorem truncation_detected_tree :
    (markedModel.converter 3 (.named "Tree")).decode [0, 0, 0, 0, 0, 0, 0, 0] =
      .ok (.instance ⟨"Tree", none⟩
        [("mark", .instance ⟨"Mark", none⟩ []), ("label", .text ""), ("parts", .list [])]) ∧
    (∃ size place, (markedModel.converter 3 (.named "Tree")).decode [0, 0, 0, 0, 0, 0, 0] =
      .error (.internal (.underflow size place))) ∧
    (markedModel.converter 3 (.named "Tree")).decode [0, 0, 0, 0, 0, 0, 0, 0, 1] =
      .error (.internal (.junk 1)) := by
  have h : (markedModel.converter 3 (.named "Tree")).decode [0, 0, 0, 0, 0, 0, 0, 0] =
      .ok (.instance ⟨"Tree", none⟩
        [("mark", .instance ⟨"Mark", none⟩ []), ("label", .text ""), ("parts", .list [])]) := rfl
  have hdetected := truncation_detected (by decide) (by decide) h
  exact ⟨h, hdetected.1 _ ⟨[0], rfl⟩ (by decide), hdetected.2 [1] (by decide)⟩

end Bindgen.Wire
