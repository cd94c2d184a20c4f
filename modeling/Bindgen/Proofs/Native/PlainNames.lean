import Bindgen.Native.Wrappers
import Bindgen.Proofs.Emit.CallPlan

/-!
# Parameters with plain names

A wrapper puts a low line in front of the name of a parameter to name its local, and the names of the module
that wrappers use begin with a low line too. Parameters with plain names (`PlainParams`) keep out of the way of
these names and of each other's locals.

Results:
* `PlainParams.not_mem_locals`: no parameter or local takes a name of the module.
* `PlainParams.targets_nodup`: the slots have different locals.
-/

namespace Bindgen.Native

open Interface Resolve Emit Identifier Wire

/-! ## Names in a class -/

theorem nameInside_eq {owner : Option Object} {name : String} (h : isPrivate name = false) :
    nameInside owner name = name := by
  cases owner with
  | none => rfl
  | some o => simp [nameInside, mangled, h]

/-- A name that is called otherwise inside a class begins with a low line there. -/
theorem head_nameInside {owner : Option Object} {name : String} (h : nameInside owner name ≠ name) :
    (nameInside owner name).toList.head? = some '_' := by
  cases owner with
  | none => exact absurd rfl h
  | some o =>
    unfold nameInside mangled at h ⊢
    dsimp only at h ⊢
    split
    · simp
    · next hc => exact absurd (if_neg hc) h

theorem isPrivate_eq_false {name : String} (h : name.toList.head? ≠ some '_') : isPrivate name = false := by
  unfold isPrivate twoLines
  cases hname : name.toList with
  | nil => rfl
  | cons ch rest =>
    rw [hname] at h
    have hne : '_' ≠ ch := fun he => h (by rw [← he]; rfl)
    simp [List.isPrefixOf, hne]

theorem toList_localName (name : String) : (PythonModule.localName name).toList = '_' :: name.toList := by
  simp [PythonModule.localName]

theorem isPrivate_localName {name : String} (h : name.toList.head? ≠ some '_') :
    isPrivate (PythonModule.localName name) = false := by
  unfold isPrivate twoLines
  rw [toList_localName]
  cases hname : name.toList with
  | nil => rfl
  | cons ch rest =>
    rw [hname] at h
    have hne : '_' ≠ ch := fun he => h (by rw [← he]; rfl)
    simp [List.isPrefixOf, hne]

theorem localName_inj {name name' : String} (h : PythonModule.localName name = PythonModule.localName name') :
    name = name' := by
  have hchars := congrArg String.toList h
  rw [toList_localName, toList_localName] at hchars
  exact String.toList_inj.mp (List.cons.inj hchars).2

/-! ## Plain names -/

/-- How the names of converters begin, after a low line. -/
def converterStart : String := "converter_"

/-- The names that make the locals of parameters names of the module, or that of the receiver's handle. -/
def reservedParams : List String := [receiverName, "lib", "protocol", "rt"]

/-- **A plain name.** -/
def PlainName (name : String) : Prop :=
  name.toList.head? ≠ some '_' ∧ ¬converterStart.toList <+: name.toList ∧ name ∉ reservedParams

instance (name : String) : Decidable (PlainName name) := inferInstanceAs (Decidable (_ ∧ _ ∧ _))

/-- **Parameters with plain names**, which differ where they are Python identifiers. -/
structure PlainParams (c : Callable) : Prop where
  distinct : (c.params.map fun p => escapePython p.name).Nodup
  plain : ∀ p ∈ c.params, PlainName (escapePython p.name)

instance (c : Callable) : Decidable (PlainParams c) :=
  decidable_of_iff (_ ∧ _) ⟨fun h => ⟨h.1, h.2⟩, fun h => ⟨h.distinct, h.plain⟩⟩

theorem plainName_keywords : ∀ name ∈ pythonKeywords, PlainName name := by decide +kernel

/-- A name is plain if its identifier is. -/
theorem PlainName.of_escape {name : String} (h : PlainName (escapePython name)) : PlainName name := by
  by_cases hkey : name ∈ pythonKeywords
  · exact plainName_keywords name hkey
  · rwa [escapePython, if_neg hkey] at h

namespace PlainParams

variable {c : Callable} {table : Table}

theorem names (h : PlainParams c) : (c.params.map (·.name)).Nodup :=
  List.Nodup.of_map escapePython (by rw [List.map_map]; exact h.distinct)

/-- No name stands for something else inside a class. -/
theorem inside_param (h : PlainParams c) (owner : Option Object) {p : Param} (hp : p ∈ c.params) :
    nameInside owner (escapePython p.name) = escapePython p.name :=
  nameInside_eq (isPrivate_eq_false (h.plain p hp).1)

theorem inside_local (h : PlainParams c) (owner : Option Object) {p : Param} (hp : p ∈ c.params) :
    nameInside owner (PythonModule.localName p.name) = PythonModule.localName p.name :=
  nameInside_eq (isPrivate_localName (h.plain p hp).of_escape.1)

/-- **The slots of a wrapper have different locals.** -/
theorem targets_nodup (h : PlainParams c) (owner : Option Object) (symbol : String) :
    ((CallPlan.ofCallable table PythonModule.localName symbol c).slots.map fun slot =>
      nameInside owner slot.target).Nodup := by
  have hhandle : nameInside owner (PythonModule.localName receiverName)
      = PythonModule.localName receiverName := nameInside_eq (by decide)
  refine CallPlan.targets_nodup (nameInside owner) h.names symbol (fun p hp q hq heq => ?_) fun _ p hp heq => ?_
  · rw [h.inside_local owner hp, h.inside_local owner hq] at heq
    exact localName_inj heq
  · rw [h.inside_local owner hp, hhandle] at heq
    have hname : p.name = receiverName := localName_inj heq
    exact (h.plain p hp).of_escape.2.2 (by rw [hname]; decide)

/-- **The locals of slots** are made of plain names, or of that of the receiver's handle. -/
theorem target_eq (h : PlainParams c) (owner : Option Object) {symbol : String} {slot : Slot}
    (hslot : slot ∈ (CallPlan.ofCallable table PythonModule.localName symbol c).slots) :
    ∃ name, nameInside owner slot.target = PythonModule.localName name ∧
      (name = receiverName ∨ PlainName name) := by
  rw [CallPlan.ofCallable_slots h.names symbol] at hslot
  rcases List.mem_append.mp hslot with hmem | hmem
  · unfold CallPlan.receiverSlots at hmem
    split at hmem
    · obtain rfl := List.mem_singleton.mp hmem
      exact ⟨receiverName, nameInside_eq (by decide), Or.inl rfl⟩
    · exact absurd hmem (by simp)
  · obtain ⟨p, hp, rfl⟩ := List.mem_map.mp hmem
    exact ⟨p.name, h.inside_local owner hp, Or.inr (h.plain p hp).of_escape⟩

/-- The parameter of a slot is one of the callable. -/
theorem origin_mem (h : PlainParams c) {symbol : String} {slot : Slot} {p : Param}
    (hslot : slot ∈ (CallPlan.ofCallable table PythonModule.localName symbol c).slots)
    (horigin : slot.origin = .param p) : p ∈ c.params := by
  rw [CallPlan.ofCallable_slots h.names symbol] at hslot
  rcases List.mem_append.mp hslot with hmem | hmem
  · unfold CallPlan.receiverSlots at hmem
    split at hmem
    · obtain rfl := List.mem_singleton.mp hmem
      exact absurd horigin (by simp)
    · exact absurd hmem (by simp)
  · obtain ⟨q, hq, rfl⟩ := List.mem_map.mp hmem
    exact Origin.param.inj horigin ▸ hq

/-- **No name of the module is taken in the wrapper**: the names that begin with a low line are locals, which
are made of plain names or of that of the receiver's handle. -/
theorem not_mem_locals (h : PlainParams c) {owner : Option Object} {self : Option String} {symbol name : String}
    (hname : ¬PlainName name) (hhandle : name ≠ receiverName) :
    PythonModule.localName name ∉ (Wrappers.frame owner c self
      (CallPlan.ofCallable table PythonModule.localName symbol c)).locals := by
  have hparam : PythonModule.localName name ∉ Wrappers.paramNames owner c := by
    intro hmem
    obtain ⟨p, hp, heq⟩ := List.mem_map.mp hmem
    rw [h.inside_param owner hp] at heq
    refine (h.plain p hp).1 ?_
    rw [heq, toList_localName]
    rfl
  have hslot : ∀ slot ∈ (CallPlan.ofCallable table PythonModule.localName symbol c).slots,
      nameInside owner slot.target ≠ PythonModule.localName name := by
    intro slot hmem heq
    obtain ⟨x, htarget, hx⟩ := h.target_eq owner hmem
    obtain rfl := localName_inj (htarget.symm.trans heq)
    rcases hx with hx | hx
    · exact hhandle hx
    · exact hname hx
  unfold Wrappers.frame
  simp only [List.mem_append, not_or]
  refine ⟨hparam, ?_⟩
  split
  · simp
  · intro hmem
    obtain ⟨slot, hmem, heq⟩ := List.mem_map.mp hmem
    exact hslot slot hmem heq

end PlainParams

/-- Where a converter is found: in the support code, or under a name of its own. -/
theorem converterSource_cases (t : Ty) :
    converterSource t = supportName ∨ ∃ k, converterSource t = "_converter_" ++ k := by
  have hbox : ∀ t : Ty, ∀ u, t.unbox ≠ .box u := by
    intro t
    induction t with
    | box t ih => exact ih
    | _ => simp [Ty.unbox]
  unfold converterSource
  cases ht : t.unbox with
  | prim | string | bytes => exact .inl rfl
  | box u => exact absurd ht (hbox t u)
  | optional u => exact .inr ⟨_, rfl⟩
  | sequence u => exact .inr ⟨_, rfl⟩
  | map k v => exact .inr ⟨_, rfl⟩
  | named n => exact .inr ⟨_, rfl⟩

/-- The name under which a converter is found is made of one that is not plain. -/
theorem converterSource_eq (t : Ty) :
    ∃ name, converterSource t = PythonModule.localName name ∧ ¬PlainName name ∧ name ≠ receiverName := by
  obtain h | ⟨k, h⟩ := converterSource_cases t
  · exact ⟨"rt", h, by decide, by decide⟩
  · refine ⟨converterStart ++ k, ?_, fun h => h.2.1 ?_, fun h => ?_⟩
    · rw [h, PythonModule.localName, ← String.append_assoc]
      rfl
    · rw [String.toList_append]
      exact List.prefix_append _ _
    · have hstart : converterStart.toList <+: receiverName.toList := by
        rw [← h, String.toList_append]
        exact List.prefix_append _ _
      exact absurd hstart (by decide)

end Bindgen.Native
