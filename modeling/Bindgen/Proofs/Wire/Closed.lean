import Bindgen.Proofs.Outcome
import Bindgen.Proofs.Wire.Definitions
import Bindgen.Proofs.Wire.Rebuilt

/-!
# Closed objects inside values

A value holds on to objects, and what it is worth changes when these are closed: `Value.seen` is a value as it is
where the objects have given handles, or none. Converters look at nothing else about an object than its class and its
handle, so that a value whose objects are closed is refused with `Fault.closed`, where it would be encoded otherwise
(`Shuts`). It is refused in any case where a closed object is `Reached`.

Results:
* `attr?_seen`, `parts?_seen` and the like: what is seen of the parts of a value.
* `not_written`: no value is written in which a closed object is reached.
* **`encode_closed`**, **`lower_closed`**: what comes of values with a closed object.
-/

namespace Bindgen.Wire

open Interface Resolve

variable {α β : Type} {s : Schema} {label : String}

/-! ## What is seen of a value -/

namespace Value

/-- **A value as it is seen** where the objects that are held under labels have the handles that `held` gives. -/
def seen (held : String → Option Value) : Value → Value :=
  rebuilt (fun handle label => label.elim handle held) false

variable (f : String → Option Value) (v : Value)

theorem seen_object (cls : ObjectClass) (handle : Option Value) (label : String) :
    (object cls handle (some label)).seen f = object cls (f label) (some label) := rfl

theorem seen_map (entries : List (Value × Value)) :
    (map entries).seen f = map (entries.map fun p => (p.1.seen f, p.2.seen f)) :=
  congrArg map (rebuiltEntries_eq _ _ entries)

theorem seenAll_eq (xs : List Value) : rebuiltAll (fun handle label => label.elim handle f) false xs = xs.map (seen f) :=
  rebuiltAll_eq _ _ xs

theorem seen_eq_none : v.seen f = none ↔ v = none := rebuilt_eq_none ..

theorem class?_seen : (v.seen f).class? = v.class? := class?_rebuilt ..

theorem typeName_seen (s : Schema) : (v.seen f).typeName s = v.typeName s := typeName_rebuilt ..

theorem variantOf?_seen (c : Choice) : (v.seen f).variantOf? c = v.variantOf? c := variantOf?_rebuilt ..

theorem items?_seen : (v.seen f).items? = v.items?.map (·.map (seen f)) := items?_rebuilt _ (.inl rfl)

theorem parts?_seen : (v.seen f).parts? = v.parts?.map (·.map (seen f)) := parts?_rebuilt _ (.inl rfl)

theorem attr?_seen (s : Schema) (name : String) : (v.seen f).attr? s name = (v.attr? s name).map (seen f) :=
  attr?_rebuilt ..

/-- It makes no difference whether a value is gone through before it is seen or after that. -/
theorem used_seen : (v.seen f).used = v.used.seen f := by
  unfold seen used
  rw [rebuilt_rebuilt, rebuilt_rebuilt]
  rfl

end Value

/-! ## Faults of closed objects -/

/-- **What comes where objects are closed**: the same, if there is a result with open ones, or the fault of a closed
object. -/
def Shuts (r r' : Except Fault α) : Prop :=
  ∀ a, r' = .ok a → r = .ok a ∨ ∃ name, r = .error (.closed name)

namespace Shuts

theorem refl (r : Except Fault α) : Shuts r r := fun _ h => .inl h

theorem of_eq {r r' : Except Fault α} (h : r = r') : Shuts r r' := h ▸ refl r

theorem closed (name : String) (r : Except Fault α) : Shuts (.error (.closed name)) r := fun _ _ => .inr ⟨name, rfl⟩

theorem error {r : Except Fault α} (e : Fault) : Shuts r (.error e) := fun _ h => by cases h

theorem bind {x x' : Except Fault α} {k k' : α → Except Fault β} (h : Shuts x x') (hk : ∀ a, Shuts (k a) (k' a)) :
    Shuts (x >>= k) (x' >>= k') := by
  intro b hb
  obtain ⟨a, ha, hb⟩ := bind_eq_ok.1 hb
  obtain rfl | ⟨name, rfl⟩ := h a ha
  · exact hk a b hb
  · exact .inr ⟨name, rfl⟩

theorem map {x x' : Except Fault α} {k : α → β} (h : Shuts x x') : Shuts (k <$> x) (k <$> x') := by
  rw [map_eq_pure_bind, map_eq_pure_bind]
  exact h.bind fun a => refl _

theorem ite {p : Prop} [Decidable p] {x x' y y' : Except Fault α} (h : Shuts x x') (h' : Shuts y y') :
    Shuts (if p then x else y) (if p then x' else y') := by
  split
  · exact h
  · exact h'

theorem mapM {γ : Type} {k k' : γ → Except Fault β} {xs : List γ} (h : ∀ x ∈ xs, Shuts (k x) (k' x)) :
    Shuts (xs.mapM k) (xs.mapM k') := by
  induction xs with
  | nil => exact refl _
  | cons x xs ih =>
    rw [List.forall_mem_cons] at h
    rw [List.mapM_cons, List.mapM_cons]
    exact h.1.bind fun b => (ih h.2).bind fun bs => refl _

theorem mapM_map {γ δ : Type} {u u' : γ → δ} {k : δ → Except Fault β} {xs : List γ}
    (h : ∀ x ∈ xs, Shuts (k (u x)) (k (u' x))) : Shuts ((xs.map u).mapM k) ((xs.map u').mapM k) := by
  rw [List.mapM_map, List.mapM_map]
  exact mapM h

theorem forM_map {γ δ : Type} {u u' : γ → δ} {k : δ → Except Fault Unit} {xs : List γ}
    (h : ∀ x ∈ xs, Shuts (k (u x)) (k (u' x))) : Shuts ((xs.map u).forM k) ((xs.map u').forM k) := by
  induction xs with
  | nil => exact refl _
  | cons x xs ih =>
    rw [List.forall_mem_cons] at h
    exact h.1.bind fun _ => ih h.2

end Shuts

/-! ## Checking and writing -/

section Converting

variable {f g : String → Option Value}

theorem primCheck_seen (p : PrimFormat) (v : Value) : p.check s (v.seen f) = p.check s v := by
  cases v with
  | object cls handle label => cases label <;> cases p <;> rfl
  | _ => cases p <;> rfl

theorem primWrite_seen (p : PrimFormat) (v : Value) : p.write s (v.seen f) = p.write s v := by
  cases v with
  | object cls handle label => cases label <;> cases p <;> rfl
  | _ => cases p <;> rfl

theorem primLower_seen (p : PrimFormat) (v : Value) : p.lower s (v.seen f) = p.lower s v := by
  cases v with
  | object cls handle label => cases label <;> cases p <;> rfl
  | _ => cases p <;> rfl

theorem byteOf_seen (v : Value) : byteOf s (v.seen f) = byteOf s v := by
  cases v with
  | object cls handle label => cases label <;> rfl
  | _ => rfl

theorem mapM_byteOf_seen (xs : List Value) : (xs.map (Value.seen f)).mapM (byteOf s) = xs.mapM (byteOf s) := by
  rw [List.mapM_map]
  exact mapM_congr fun x _ => byteOf_seen x

theorem bytesOf_seen (v : Value) : bytesOf s (v.seen f) = bytesOf s v := by
  have hitems : ∀ xs, (Value.rebuiltAll (fun handle label => label.elim handle f) false xs).mapM (byteOf s) =
      xs.mapM (byteOf s) := fun xs => by
    rw [Value.seenAll_eq]
    exact mapM_byteOf_seen xs
  cases v with
  | object cls handle label => cases label <;> rfl
  | list xs | tuple xs => exact hitems xs
  | iterable className xs once =>
    cases once with
    | true => rfl
    | false => exact hitems xs
  | map entries =>
    have hkeys : (entries.map fun p => (p.1.seen f, p.2.seen f)).map (·.1) =
        (entries.map (·.1)).map (Value.seen f) := by
      rw [List.map_map, List.map_map]
      rfl
    rw [Value.seen_map]
    exact (congrArg (List.mapM (byteOf s)) hkeys).trans (mapM_byteOf_seen _)
  | _ => rfl

theorem writeBytes_seen (v : Value) : writeBytes s (v.seen f) = writeBytes s v := by
  cases v with
  | view w => rfl
  | _ => exact congrArg (· >>= writeCounted) (bytesOf_seen _)

theorem checkObject_seen (name : String) (v : Value) : checkObject s name (v.seen f) = checkObject s name v := by
  cases v with
  | object cls handle label => cases label <;> rfl
  | _ => rfl

theorem shuts_askClass {locals : Locals} {d : Definition} (v w : Value) :
    Shuts (s.askClass locals d v) (s.askClass locals d w) := by
  unfold Schema.askClass Schema.askInstance
  split
  · exact .refl _
  · split
    · exact .error _
    · exact .refl _
  · split
    · exact .error _
    · exact .refl _

theorem shuts_askVariant {locals : Locals} {d : Definition} {v w : Value} (h : v.class? = w.class?) :
    Shuts (s.askVariant locals d v) (s.askVariant locals d w) := by
  unfold Schema.askVariant Schema.askInstance
  rw [h]
  repeat' split
  all_goals first | exact .refl _ | exact .error _

theorem shuts_checkTy {named : String → Value → Except Fault Unit}
    (hnamed : ∀ (name : String) (v : Value), Shuts (named name (v.seen f)) (named name (v.seen g))) (t : Ty)
    (v : Value) : Shuts (checkTy s named t (v.seen f)) (checkTy s named t (v.seen g)) := by
  induction t generalizing v with
  | prim p => exact .of_eq ((primCheck_seen _ v).trans (primCheck_seen _ v).symm)
  | string | bytes =>
    cases v with
    | object cls handle label => cases label <;> exact .refl _
    | _ => exact .refl _
  | optional t ih =>
    by_cases hv : v = .none
    · rw [hv]
      exact .refl _
    · rw [checkTy_present (mt (v.seen_eq_none f).1 hv), checkTy_present (mt (v.seen_eq_none g).1 hv)]
      exact ih v
  | sequence t ih =>
    unfold checkTy
    rw [Value.items?_seen, Value.items?_seen]
    cases v.items? with
    | none => exact .error _
    | some items => exact .forM_map fun x _ => ih x
  | map t u iht ihu =>
    cases v with
    | map entries =>
      simp only [Value.seen_map, checkTy]
      exact .forM_map fun p _ => (iht p.1).bind fun _ => ihu p.2
    | object cls handle label => cases label <;> exact .error _
    | _ => exact .error _
  | named name => exact hnamed name v
  | box t ih => exact ih v

theorem shuts_eachField {name : String} {fs : List Field} {k : Ty → Value → Except Fault α}
    (h : ∀ (t : Ty) (w : Value), Shuts (k t (w.seen f)) (k t (w.seen g))) (v : Value) :
    Shuts (eachField s name fs (v.seen f) k) (eachField s name fs (v.seen g) k) := by
  refine .mapM fun field _ => (Shuts.refl _).bind fun _ => ?_
  rw [Value.attr?_seen, Value.attr?_seen]
  cases v.attr? s (Identifier.mangled (Emit.converterClass name) (fieldName field)) with
  | none => exact .refl _
  | some w => exact h field.type w

/-- The value of a choice is taken apart by its variant, which is the same for closed objects. -/
theorem shuts_choice {locals : Locals} {d : Definition} {c : Choice} {v : Value} {k k' : Nat → Except Fault α}
    {e e' : Fault} (hk : ∀ i, Shuts (k i) (k' i)) :
    Shuts
      (do
        if !c.variants.isEmpty then s.askVariant locals d (v.seen f)
        match v.variantOf? c with
        | some i => k i
        | none => .error e)
      (do
        if !c.variants.isEmpty then s.askVariant locals d (v.seen g)
        match v.variantOf? c with
        | some i => k' i
        | none => .error e') := by
  have hclass : (v.seen f).class? = (v.seen g).class? := (v.class?_seen f).trans (v.class?_seen g).symm
  have hvariant : Shuts (match v.variantOf? c with | some i => k i | none => .error e)
      (match v.variantOf? c with | some i => k' i | none => .error e') := by
    cases v.variantOf? c with
    | none => exact .error _
    | some i => exact hk i
  exact .ite ((shuts_askVariant hclass).bind fun _ => hvariant) hvariant

theorem shuts_checkNamed (limit : Nat) (name : String) (v : Value) :
    Shuts (checkNamed s limit name (v.seen f)) (checkNamed s limit name (v.seen g)) := by
  induction limit generalizing name v with
  | zero => exact .refl _
  | succ limit ih =>
    have hfields : ∀ fs, Shuts (eachField s name fs (v.seen f) (checkTy s (checkNamed s limit)))
        (eachField s name fs (v.seen g) (checkTy s (checkNamed s limit))) :=
      fun fs => shuts_eachField (fun t w => shuts_checkTy ih t w) v
    unfold checkNamed
    simp only [Value.variantOf?_seen, Value.class?_seen, checkObject_seen]
    cases s.table.lookup name with
    | none => exact .refl _
    | some d =>
      cases d with
      | record r =>
        refine (shuts_askClass _ _).bind fun _ => ?_
        split
        · exact (hfields _).bind fun _ => .refl _
        · exact .error _
      | enum c =>
        dsimp only
        split
        · refine (shuts_askClass _ _).bind fun _ => ?_
          cases v with
          | member owner index =>
            dsimp only [Value.seen]
            exact .refl _
          | object cls handle label => cases label <;> exact .error _
          | _ => exact .error _
        · exact shuts_choice fun i => (hfields _).bind fun _ => .refl _
      | error c => exact shuts_choice fun i => (hfields _).bind fun _ => .refl _
      | object o => exact .refl _

/-- Some of the objects that have handles by `g` have none by `f`. -/
def Narrows (f g : String → Option Value) : Prop := ∀ label, f label = g label ∨ f label = none

theorem shuts_lowerObject (hfg : Narrows f g) (name : String) (v : Value) :
    Shuts (lowerObject s name (v.seen f)) (lowerObject s name (v.seen g)) := by
  unfold lowerObject
  rw [checkObject_seen, checkObject_seen, Value.typeName_seen, Value.typeName_seen]
  refine (Shuts.refl _).bind fun _ => (Shuts.refl _).bind fun _ => ?_
  cases v with
  | object cls handle label =>
    cases label with
    | none => exact .refl _
    | some label =>
      rw [Value.seen_object, Value.seen_object]
      rcases hfg label with h | h
      · rw [h]
        exact .refl _
      · rw [h]
        exact .closed _ _
  | _ => exact .error _

theorem shuts_writeTy {named : String → Value → Except Fault (List UInt8)}
    (hnamed : ∀ (name : String) (v : Value), Shuts (named name (v.seen f)) (named name (v.seen g))) (t : Ty)
    (v : Value) : Shuts (writeTy s named t (v.seen f)) (writeTy s named t (v.seen g)) := by
  induction t generalizing v with
  | prim p => exact .of_eq ((primWrite_seen _ v).trans (primWrite_seen _ v).symm)
  | string =>
    cases v with
    | object cls handle label => cases label <;> exact .refl _
    | _ => exact .refl _
  | bytes =>
    unfold writeTy
    rw [writeBytes_seen, writeBytes_seen]
    exact .refl _
  | optional t ih =>
    by_cases hv : v = .none
    · rw [hv]
      exact .refl _
    · rw [writeTy_present (mt (v.seen_eq_none f).1 hv), writeTy_present (mt (v.seen_eq_none g).1 hv)]
      exact (ih v).bind fun _ => .refl _
  | sequence t ih =>
    unfold writeTy
    rw [Value.parts?_seen, Value.parts?_seen]
    cases v.parts? with
    | none => exact .error _
    | some items =>
      dsimp only [Option.map, writeItems]
      rw [List.length_map, List.length_map]
      exact (Shuts.refl _).bind fun _ => (Shuts.mapM_map fun x _ => ih x).bind fun _ => .refl _
  | map t u iht ihu =>
    cases v with
    | map entries =>
      simp only [Value.seen_map, writeTy, List.length_map]
      exact (Shuts.refl _).bind fun _ =>
        (Shuts.mapM_map fun p _ => (iht p.1).bind fun _ => (ihu p.2).bind fun _ => .refl _).bind fun _ => .refl _
    | object cls handle label => cases label <;> exact .error _
    | iterable className xs once => cases once <;> exact .error _
    | _ => exact .error _
  | named name => exact hnamed name v
  | box t ih => exact ih v

theorem shuts_writeNamed (hfg : Narrows f g) (limit : Nat) (name : String) (v : Value) :
    Shuts (writeNamed s limit name (v.seen f)) (writeNamed s limit name (v.seen g)) := by
  induction limit generalizing name v with
  | zero => exact .refl _
  | succ limit ih =>
    have hfields : ∀ fs, Shuts (List.flatten <$> eachField s name fs (v.seen f) (writeTy s (writeNamed s limit)))
        (List.flatten <$> eachField s name fs (v.seen g) (writeTy s (writeNamed s limit))) :=
      fun fs => (shuts_eachField (fun t w => shuts_writeTy ih t w) v).map
    unfold writeNamed
    simp only [Value.variantOf?_seen, Value.attr?_seen]
    cases s.table.lookup name with
    | none => exact .refl _
    | some d =>
      cases d with
      | record r => exact hfields _
      | enum c =>
        dsimp only
        split
        · cases v.attr? s "value" with
          | none => exact .refl _
          | some w => exact .of_eq ((primWrite_seen _ w).trans (primWrite_seen _ w).symm)
        · exact shuts_choice fun i => (Shuts.refl _).bind fun _ => (hfields _).bind fun _ => .refl _
      | error c => exact shuts_choice fun i => (Shuts.refl _).bind fun _ => (hfields _).bind fun _ => .refl _
      | object o => exact (shuts_lowerObject hfg o.name v).bind fun _ => .refl _

theorem shuts_encode (hfg : Narrows f g) (c : Converter) (v : Value) :
    Shuts (c.encode (v.seen f)) (c.encode (v.seen g)) := by
  have hwrite : Shuts (c.write (v.seen f).used) (c.write (v.seen g).used) := by
    rw [Value.used_seen, Value.used_seen]
    exact shuts_writeTy (shuts_writeNamed hfg c.limit) c.type v.used
  unfold Converter.encode
  refine (shuts_checkTy (shuts_checkNamed c.limit) c.type v).bind fun _ => ?_
  cases v with
  | text t | bytes b | byteArray b | view w => exact .refl _
  | object cls handle label => cases label <;> cases c.type.unbox <;> exact hwrite
  | _ => cases c.type.unbox <;> exact hwrite

theorem shuts_lower (hfg : Narrows f g) (c : Converter) (v : Value) :
    Shuts (c.lower (v.seen f)) (c.lower (v.seen g)) := by
  unfold Converter.lower
  cases c.type.unbox with
  | prim p =>
    dsimp only
    rw [primLower_seen, primLower_seen]
    exact .refl _
  | named name =>
    dsimp only
    cases c.schema.table.lookup name with
    | none => exact .refl _
    | some d =>
      cases d with
      | object o => exact shuts_lowerObject hfg o.name v
      | _ => exact .refl _
  | _ => exact .refl _

end Converting

/-! ## Where objects are reached -/

/-- A field that a value has on the wire as one of a definition. -/
inductive Carries (s : Schema) (name : String) (v : Value) (f : Field) : Prop where
  | record {r : Record} (hl : s.table.lookup name = some (.record r)) (hf : f ∈ r.fields)
  | variant {d : Definition} {c : Choice} {i : Nat} {w : Variant} (hl : s.table.lookup name = some d)
      (hd : Schema.choice? d = some c) (hv : v.variantOf? c = some i) (hw : c.variants[i]? = some w)
      (hf : f ∈ w.fields)

theorem Carries.seen {name : String} {v : Value} {f : Field} (h : Carries s name v f)
    (held : String → Option Value) : Carries s name (v.seen held) f := by
  cases h with
  | record hl hf => exact .record hl hf
  | variant hl hd hv hw hf => exact .variant hl hd ((v.variantOf?_seen held _).trans hv) hw hf

theorem Carries.used {name : String} {v : Value} {f : Field} (h : Carries s name v f) :
    Carries s name v.used f := by
  cases h with
  | record hl hf => exact .record hl hf
  | variant hl hd hv hw hf => exact .variant hl hd ((v.variantOf?_rebuilt _ _ _).trans hv) hw hf

/-- **The object under a label is reached** where a value is written as one of a type, after it was checked. -/
inductive Reached (s : Schema) (label : String) : Ty → Value → Prop where
  | object {name : String} {o : Object} {cls : ObjectClass} {handle : Option Value}
      (ho : s.table.lookup name = some (.object o)) : Reached s label (.named name) (.object cls handle (some label))
  | box {t : Ty} {v : Value} (h : Reached s label t v) : Reached s label (.box t) v
  | optional {t : Ty} {v : Value} (h : Reached s label t v) : Reached s label (.optional t) v
  | item {t : Ty} {v x : Value} {items : List Value} (hv : v.parts? = some items) (hkept : v.givesOnce = false)
      (hx : x ∈ items) (h : Reached s label t x) : Reached s label (.sequence t) v
  | key {t u : Ty} {k w : Value} {entries : List (Value × Value)} (hp : (k, w) ∈ entries)
      (h : Reached s label t k) : Reached s label (.map t u) (.map entries)
  | entry {t u : Ty} {k w : Value} {entries : List (Value × Value)} (hp : (k, w) ∈ entries)
      (h : Reached s label u w) : Reached s label (.map t u) (.map entries)
  | field {name : String} {v w : Value} {f : Field} (hf : Carries s name v f)
      (hw : v.attr? s (Identifier.mangled (Emit.converterClass name) (fieldName f)) = some w)
      (h : Reached s label f.type w) : Reached s label (.named name) v

theorem Reached.ne_none {t : Ty} {v : Value} (h : Reached s label t v) : v ≠ .none := by
  induction h with
  | object | key | entry => exact Value.noConfusion
  | box _ ih | optional _ ih => exact ih
  | item hv => rintro rfl; exact absurd hv (by simp [Value.parts?, Value.items?])
  | field _ hw => rintro rfl; exact absurd hw (by simp [Value.attr?])

theorem Reached.unbox {t : Ty} {v : Value} (h : Reached s label t v) : Reached s label t.unbox v := by
  induction t with
  | box t ih => cases h with | box h => exact ih h
  | _ => exact h

/-- What is reached is reached again when the value has been gone through. -/
theorem Reached.used {t : Ty} {v : Value} (h : Reached s label t v) : Reached s label t v.used := by
  induction h with
  | object ho => exact .object ho
  | box _ ih => exact .box ih
  | optional _ ih => exact .optional ih
  | @item t v x items hv hkept hx _ ih =>
    have hparts : v.used.parts? = some (items.map Value.used) := by
      unfold Value.used
      rw [Value.parts?_rebuilt _ (.inr hkept), hv]
      rfl
    exact .item hparts ((v.givesOnce_rebuilt _ _).trans hkept) (List.mem_map_of_mem hx) ih
  | @key t u k w entries hp _ ih =>
    unfold Value.used Value.rebuilt
    rw [Value.rebuiltEntries_eq]
    exact .key (List.mem_map_of_mem hp) ih
  | @entry t u k w entries hp _ ih =>
    unfold Value.used Value.rebuilt
    rw [Value.rebuiltEntries_eq]
    exact .entry (List.mem_map_of_mem hp) ih
  | field hf hw _ ih => exact .field hf.used ((Value.attr?_rebuilt ..).trans (congrArg (Option.map _) hw)) ih

/-- A value of a definition is written with all its fields. -/
theorem field_written {limit : Nat} {name : String} {v w : Value} {b : List UInt8} {fld : Field}
    (h : writeNamed s (limit + 1) name v = .ok b) (hf : Carries s name v fld)
    (hw : v.attr? s (Identifier.mangled (Emit.converterClass name) (fieldName fld)) = some w) :
    ∃ b, writeTy s (writeNamed s limit) fld.type w = .ok b := by
  have hfields : ∀ fs bs, List.flatten <$> eachField s name fs v (writeTy s (writeNamed s limit)) = .ok bs →
      fld ∈ fs → ∃ b, writeTy s (writeNamed s limit) fld.type w = .ok b := by
    intro fs bs hbs hfs
    obtain ⟨bs, hbs, -⟩ := map_eq_ok.1 hbs
    obtain ⟨b, hb⟩ := exists_of_mapM_eq_ok hbs fld hfs
    obtain ⟨_, -, hb⟩ := bind_eq_ok.1 hb
    rw [hw] at hb
    exact ⟨b, hb⟩
  unfold writeNamed at h
  cases hf with
  | record hl hf =>
    simp only [hl] at h
    exact hfields _ b h hf
  | @variant d c i x hl hd hv hx hf =>
    have hvariant : ∀ bs, (do
        let number ← writeVariant i
        return number ++ (← List.flatten <$> eachField s name x.fields v (writeTy s (writeNamed s limit)))) =
          .ok bs → ∃ b, writeTy s (writeNamed s limit) fld.type w = .ok b := by
      intro bs hbs
      obtain ⟨_, -, hbs⟩ := bind_eq_ok.1 hbs
      obtain ⟨bs, hbs, -⟩ := bind_eq_ok.1 hbs
      exact hfields x.fields bs hbs hf
    rcases choice_cases hd with ⟨rfl, hflat⟩ | rfl
    · simp only [hl, hflat, hv, hx, Bool.false_eq_true, if_false] at h
      split at h
      · obtain ⟨_, -, h⟩ := bind_eq_ok.1 h
        exact hvariant b h
      · exact hvariant b h
    · simp only [hl, hv, hx] at h
      split at h
      · obtain ⟨_, -, h⟩ := bind_eq_ok.1 h
        exact hvariant b h
      · exact hvariant b h

/-- **A value that closed objects keep out**: nothing comes of it, and the fault is that of a closed object wherever
something would come of it if more objects had handles. -/
def ShutOut (convert : Value → Except Fault α) (held : String → Option Value) (v : Value) : Prop :=
  (∀ a, convert (v.seen held) ≠ .ok a) ∧
    ∀ opened a, Narrows held opened → convert (v.seen opened) = .ok a →
      ∃ name, convert (v.seen held) = .error (.closed name)

theorem shutOut_of_shuts {convert : Value → Except Fault α} {held : String → Option Value} {v : Value}
    (hnot : ∀ a, convert (v.seen held) ≠ .ok a)
    (hshuts : ∀ opened, Narrows held opened → Shuts (convert (v.seen held)) (convert (v.seen opened))) :
    ShutOut convert held v :=
  ⟨hnot, fun opened a ho ha => (hshuts opened ho a ha).resolve_left (hnot a)⟩

section Closed

variable {held : String → Option Value} (hclosed : held label = none)
include hclosed

theorem not_lowered {name : String} {cls : ObjectClass} {handle : Option Value} (a : Value) :
    lowerObject s name ((Value.object cls handle (some label)).seen held) ≠ .ok a := by
  intro h
  unfold lowerObject at h
  obtain ⟨_, -, h⟩ := bind_eq_ok.1 h
  obtain ⟨_, -, h⟩ := bind_eq_ok.1 h
  rw [Value.seen_object, hclosed] at h
  exact absurd h (by simp [Value.handle])

/-- **No value is written in which a closed object is reached.** The induction is on the way to it. -/
theorem not_written {t : Ty} {v : Value} (hr : Reached s label t v) (limit : Nat) (b : List UInt8) :
    writeTy s (writeNamed s limit) t (v.seen held) ≠ .ok b := by
  induction hr generalizing limit b with
  | object ho =>
    intro h
    cases limit with
    | zero => cases h
    | succ limit =>
      unfold writeTy writeNamed at h
      simp only [ho] at h
      obtain ⟨a, ha, -⟩ := bind_eq_ok.1 h
      exact not_lowered hclosed a ha
  | box _ ih => exact ih limit b
  | optional hr ih =>
    rw [writeTy_present (mt (Value.seen_eq_none _ _).1 hr.ne_none)]
    intro h
    obtain ⟨b, hb, -⟩ := bind_eq_ok.1 h
    exact ih limit b hb
  | item hv _ hx _ ih =>
    intro h
    unfold writeTy at h
    rw [Value.parts?_seen, hv] at h
    obtain ⟨_, -, h⟩ := bind_eq_ok.1 h
    obtain ⟨_, h, -⟩ := bind_eq_ok.1 h
    obtain ⟨b, hb⟩ := exists_of_mapM_eq_ok h _ (List.mem_map_of_mem hx)
    exact ih limit b hb
  | key hp _ ih =>
    intro h
    simp only [Value.seen_map, writeTy] at h
    obtain ⟨_, -, h⟩ := bind_eq_ok.1 h
    obtain ⟨_, h, -⟩ := bind_eq_ok.1 h
    obtain ⟨b, hb⟩ := exists_of_mapM_eq_ok h _ (List.mem_map_of_mem hp)
    obtain ⟨b, hb, -⟩ := bind_eq_ok.1 hb
    exact ih limit b hb
  | entry hp _ ih =>
    intro h
    simp only [Value.seen_map, writeTy] at h
    obtain ⟨_, -, h⟩ := bind_eq_ok.1 h
    obtain ⟨_, h, -⟩ := bind_eq_ok.1 h
    obtain ⟨b, hb⟩ := exists_of_mapM_eq_ok h _ (List.mem_map_of_mem hp)
    obtain ⟨_, -, hb⟩ := bind_eq_ok.1 hb
    obtain ⟨b, hb, -⟩ := bind_eq_ok.1 hb
    exact ih limit b hb
  | @field name v w f hf hw _ ih =>
    intro h
    cases limit with
    | zero => cases h
    | succ limit =>
      have hw' : (v.seen held).attr? s (Identifier.mangled (Emit.converterClass name) (fieldName f)) =
          some (w.seen held) := by
        rw [Value.attr?_seen, hw]
        rfl
      obtain ⟨b, hb⟩ := field_written h (hf.seen held) hw'
      exact ih limit b hb

variable {c : Converter} {v : Value} (hr : Reached c.schema label c.type v)
include hr

/-- **No value is encoded in which a closed object is reached.** -/
theorem encode_closed : ShutOut c.encode held v := by
  refine shutOut_of_shuts (fun b h => ?_) fun g hg => shuts_encode hg c v
  have hwrite : ∀ b, c.write (v.seen held).used ≠ .ok b := by
    rw [Value.used_seen]
    exact not_written hclosed hr.used c.limit
  have hu := hr.unbox
  unfold Converter.encode at h
  obtain ⟨_, -, h⟩ := bind_eq_ok.1 h
  split at h
  · rename_i ht _
    rw [ht] at hu
    exact nomatch hu
  · rename_i ht _
    rw [ht] at hu
    exact nomatch hu
  · rename_i ht _
    rw [ht] at hu
    exact nomatch hu
  · rename_i ht _
    rw [ht] at hu
    exact nomatch hu
  · exact hwrite b h

/-- **No handle is lowered of a closed object.** -/
theorem lower_closed : ShutOut c.lower held v := by
  refine shutOut_of_shuts (fun a h => ?_) fun g hg => shuts_lower hg c v
  have hu := hr.unbox
  unfold Converter.lower at h
  cases ht : c.type.unbox with
  | prim p =>
    rw [ht] at hu
    exact nomatch hu
  | named name =>
    rw [ht] at hu
    simp only [ht] at h
    cases hu with
    | object ho =>
      simp only [ho] at h
      exact not_lowered hclosed a h
    | field hf =>
      cases hf with
      | record hl =>
        simp only [hl] at h
        cases h
      | variant hl hd =>
        rcases choice_cases hd with ⟨rfl, -⟩ | rfl
        · simp only [hl] at h
          cases h
        · simp only [hl] at h
          cases h
  | _ =>
    simp only [ht] at h
    cases h

end Closed

end Bindgen.Wire
