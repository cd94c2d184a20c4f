import Bindgen.Proofs.Native.Places

/-!
# What hinders a wrapper

A wrapper makes its copies and then needs names of its module, for its call and for its result. With plain
parameter names (`PlainParams`) every argument is in its place, and no parameter or local takes one of these
names, so that a wrapper is hindered just where something in the module has taken one (`Wrapper.Hindered`).

Results:
* `PlainParams.placed`, `terms_of_plain`: with plain names every argument is in its place.
* `hinders_iff`: with plain names only the module can hinder a wrapper.
-/

namespace Bindgen.Native

open Interface Resolve Emit Identifier Wire Emit.CallPlan

variable {b : Wrappers} {s : Session}

/-! ## Plain names are out of the way -/

theorem PlainParams.placed {table : Table} {c : Callable} (h : PlainParams c) (owner : Option Object)
    (symbol : String) :
    (ofCallable table PythonModule.localName symbol c).Placed (nameInside owner) := by
  refine (placed_iff h.names symbol fun _ _ => localName_inj).mpr
    ⟨?_, fun _ => ⟨h.targets_nodup owner symbol, ?_⟩⟩
  · rintro ⟨-, hmem⟩
    obtain ⟨p, hp, hname⟩ := List.mem_map.mp hmem
    exact (h.plain p hp).of_escape.2.2 (by rw [hname]; decide)
  · refine Scoping.spares_of_ne fun slot hslot later hlater p horigin heq => ?_
    have hp := h.origin_mem hlater horigin
    obtain ⟨name, htarget, -⟩ := h.target_eq owner hslot
    have hsame : PythonModule.localName name = escapePython p.name := by
      rw [← htarget, ← h.inside_param owner hp]
      exact heq
    exact (h.plain p hp).1 (by rw [← hsame, toList_localName]; rfl)

namespace Wrapper

variable {w : Wrapper} {args : List Value} {cs : List Copy} {scope : Scope} {passed : List Passed}

theorem terms_of_plain (hw : PlainParams w.source) :
    (w.plan b).terms (w.frame b).inside = (w.plan b).slots.map ownTerm :=
  (terms_eq_iff (slots_nodup hw.names _)).mpr (hw.placed w.owner _)

/-! ## What hinders a wrapper -/

/-- **A wrapper that cannot finish**: what it needs for its result has been taken in the module. -/
def Unfinished (b : Wrappers) : Wrapper → Prop
  | callable _ c _ => ∃ t, c.returns = some t ∧ converterSource t ∈ b.schema.functions ∧
      ((b.schema.table.conversionOf t).usesBuffer = true → converterSource t = supportName)
  | constructor _ _ => b.schema.isTaken supportName = true

/-- **A wrapper that its module hinders**: the name of the protocol or that of the library has been taken, or
what is needed for the result; or the class of its errors has another name inside the class of the wrapper. -/
def Hindered (b : Wrappers) (w : Wrapper) : Prop :=
  b.schema.isTaken Wrappers.protocolName = true ∨ b.schema.isTaken Wrappers.libraryName = true ∨
    w.Unfinished b ∨
    ∃ name, (w.plan b).error = some name ∧ (w.frame b).inside name ≠ name ∧
      (w.frame b).inside name ∉ (w.frame b).locals

theorem lacks_iff (hw : PlainParams w.source) {inModule : String} (name : String)
    (hlocal : inModule = PythonModule.localName name) (hname : ¬PlainName name) (hhandle : name ≠ receiverName) :
    b.Lacks (w.frame b) inModule ↔ b.schema.isTaken inModule = true := by
  unfold Wrappers.Lacks
  rw [hlocal]
  exact or_iff_right (hw.not_mem_locals hname hhandle)

theorem lacks_protocol_iff (hw : PlainParams w.source) :
    b.Lacks (w.frame b) Wrappers.protocolName ↔ b.schema.isTaken Wrappers.protocolName = true :=
  lacks_iff hw "protocol" rfl (by decide) (by decide)

theorem lacks_library_iff (hw : PlainParams w.source) :
    b.Lacks (w.frame b) Wrappers.libraryName ↔ b.schema.isTaken Wrappers.libraryName = true :=
  lacks_iff hw "lib" rfl (by decide) (by decide)

theorem lacks_support_iff (hw : PlainParams w.source) :
    b.Lacks (w.frame b) supportName ↔ b.schema.isTaken supportName = true :=
  lacks_iff hw "rt" rfl (by decide) (by decide)

theorem lacksConverter_iff (hw : PlainParams w.source) (t : Ty) :
    b.LacksConverter (w.frame b) t ↔ converterSource t ∈ b.schema.functions := by
  obtain ⟨name, hsource, hname, hhandle⟩ := converterSource_eq t
  unfold Wrappers.LacksConverter
  rw [hsource]
  exact or_iff_right (hw.not_mem_locals hname hhandle)

theorem lacksResult_iff (hw : PlainParams w.source) (t : Ty) :
    b.LacksResult (w.frame b) t ↔
      ((b.schema.table.conversionOf t).usesBuffer = true ∧ b.schema.isTaken Wrappers.protocolName = true) ∨
        (converterSource t ∈ b.schema.functions ∧
          ((b.schema.table.conversionOf t).usesBuffer = true → converterSource t = supportName)) := by
  unfold Wrappers.LacksResult
  rw [lacks_protocol_iff hw, lacksConverter_iff hw]
  cases (b.schema.table.conversionOf t).usesBuffer with
  | true =>
    rw [if_pos rfl, and_comm (a := converterSource t = supportName)]
    simp
  | false => simp

/-- What a wrapper lacks for its result has been taken in the module. -/
theorem lacksFinish_iff (hw : PlainParams w.source) :
    w.LacksFinish b ↔
      (w.returnsBuffer b = true ∧ b.schema.isTaken Wrappers.protocolName = true) ∨ w.Unfinished b := by
  cases w with
  | constructor o c =>
    refine (lacks_support_iff hw).trans ?_
    simp [returnsBuffer, Unfinished]
  | callable owner c self =>
    unfold LacksFinish Unfinished returnsBuffer
    cases hreturns : c.returns with
    | none => simp [hreturns]
    | some t =>
      simp only [hreturns, Option.some.injEq, exists_eq_left', Option.any_some]
      exact lacksResult_iff hw t

/-- The names in the scope of a wrapper that calls: those before its parameters, and its locals. -/
theorem Ready.keys (h : w.Ready b s args cs scope) (hcount : args.length = w.source.params.length)
    (x : String) :
    x ∈ scope.map (·.1) ↔ x ∈ PythonModule.receiverParams w.source ∨ x ∈ (w.frame b).locals := by
  have hfirst : (w.arguments args).map (·.1) =
      PythonModule.receiverParams w.source ++ Wrappers.paramNames w.owner w.source := by
    unfold arguments Wrappers.argumentScope
    rw [List.map_map]
    exact List.map_fst_zip (Nat.le_of_eq (by simp [Wrappers.paramNames, hcount]))
  unfold Ready Wrappers.Scoped at h
  cases hplace : (w.plan b).inPlace with
  | true =>
    rw [if_pos hplace] at h
    rw [h.2, hfirst]
    simp [frame, Wrappers.frame, hplace]
  | false =>
    rw [if_neg (by simp [hplace])] at h
    rw [h.keys, hfirst]
    simp only [frame, Wrappers.frame, hplace, Frame.inside, List.mem_append, Bool.false_eq_true, if_false]
    rw [or_comm, or_assoc]

/-- What has another name inside a class is not there unless it is a local. -/
theorem lacksError_iff (h : w.Ready b s args cs scope) (hcount : args.length = w.source.params.length) :
    Wrappers.LacksError (w.frame b) scope (w.plan b) ↔
      ∃ name, (w.plan b).error = some name ∧ (w.frame b).inside name ≠ name ∧
        (w.frame b).inside name ∉ (w.frame b).locals := by
  have hreceiver : ∀ x ∈ PythonModule.receiverParams w.source, x.toList.head? ≠ some '_' := by
    have hall : ∀ x ∈ ["self", "cls"], x.toList.head? ≠ some '_' := by decide
    intro x hx
    unfold PythonModule.receiverParams at hx
    refine hall x ?_
    split at hx
    · exact absurd hx (by simp)
    · exact List.mem_of_mem_head? (by simpa using (List.mem_singleton.mp hx).symm)
    · split at hx
      · simp [List.mem_singleton.mp hx]
      · simp [List.mem_singleton.mp hx]
  constructor
  · rintro ⟨name, herror, hnone, hwhy⟩
    have hkeys : (w.frame b).inside name ∉ scope.map (·.1) := fun hmem => by
      obtain ⟨bound, hbound⟩ := exists_lookup hmem
      exact absurd (hnone.symm.trans hbound) (by simp)
    have hlocals := (not_or.mp fun hmem => hkeys ((h.keys hcount _).mpr hmem)).2
    exact ⟨name, herror, hwhy.resolve_left hlocals, hlocals⟩
  · rintro ⟨name, herror, hne, hlocals⟩
    refine ⟨name, herror, ?_, Or.inr hne⟩
    refine List.lookup_eq_none_iff.mpr fun e he => ?_
    have hmem : (w.frame b).inside name ≠ e.1 := fun heq => by
      rcases (h.keys hcount _).mp (List.mem_map.mpr ⟨e, he, heq.symm⟩) with hx | hx
      · exact hreceiver _ hx (head_nameInside hne)
      · exact hlocals hx
    simpa using hmem

/-- **With plain names only the module hinders a wrapper.** -/
theorem hinders_iff (hw : PlainParams w.source) (h : w.Ready b s args cs scope)
    (hcount : args.length = w.source.params.length) : w.Hinders b scope ↔ w.Hindered b := by
  unfold Hinders Hindered
  rw [lacks_protocol_iff hw, lacks_library_iff hw, lacksError_iff h hcount, lacksFinish_iff hw]
  constructor
  · rintro ((⟨-, hprotocol⟩ | hfinish) | (hprotocol | hlibrary) | herror)
    · exact Or.inl hprotocol
    · exact Or.inr (Or.inr (Or.inl hfinish))
    · exact Or.inl hprotocol
    · exact Or.inr (Or.inl hlibrary)
    · exact Or.inr (Or.inr (Or.inr herror))
  · rintro (hprotocol | hlibrary | hfinish | herror)
    · exact Or.inr (Or.inl (Or.inl hprotocol))
    · exact Or.inr (Or.inl (Or.inr hlibrary))
    · exact Or.inl (Or.inr hfinish)
    · exact Or.inr (Or.inr herror)

end Wrapper

end Bindgen.Native
