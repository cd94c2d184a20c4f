import Bindgen.Proofs.Native.Hindrance
import Bindgen.Proofs.Native.Lifetime

/-!
# Objects that are consumed

A parameter that is consumed is marked in the derived signature: the native side frees what is passed there.
For an object that is its handle. A wrapper passes the handle of the object, and the object holds it as
before, so that the handle is released once more when its former owner is closed, or when its life ends.

Results:
* `lookup_argument`: what the name of a parameter stands for in a wrapper of an accepted model.
* `Wrapper.PassedFor.handle`: where a parameter is in its place, the handle of an object is passed for it.
* **`consumed_released_again`**: what comes of the handle of an object that is consumed.
-/

namespace Bindgen.Native

open Interface Resolve Emit Identifier Wire

variable {m : Model} {b : Wrappers} {s : Session} {o : Object} {label : String} {limit : ℕ}

/-! ## Arguments under their names -/

/-- What is in front of the parameters of a wrapper is not called otherwise inside a class. -/
theorem nameInside_receiver (owner : Option Object) (c : Callable) {name : String}
    (h : name ∈ PythonModule.receiverParams c) : nameInside owner name = name := by
  have hplain : ∀ name ∈ ["self", "cls"], isPrivate name = false := by decide
  refine nameInside_eq (hplain name ?_)
  unfold PythonModule.receiverParams at h
  split at h
  · exact absurd h (by simp)
  · simp [List.mem_singleton.1 h]
  · split at h
    · simp [List.mem_singleton.1 h]
    · simp [List.mem_singleton.1 h]

/-- **In an accepted model** the names in front of a wrapper and those of its parameters differ. -/
theorem names_differ (hm : Wrappers.ofModel m limit = .ok b) {owner : Option Object} {c : Callable}
    (hc : (owner, c) ∈ m.callables) :
    (PythonModule.receiverParams c ++ Wrappers.paramNames owner c).Nodup := by
  obtain ⟨symbols, table, -, hload, -⟩ := Wrappers.ofModel_eq_ok hm
  unfold PythonModule.isLoadable at hload
  simp only [Bool.and_eq_true, List.all_eq_true] at hload
  obtain ⟨⟨⟨⟨-, hdefinitions⟩, hfunctions⟩, -⟩, -⟩ := hload
  have hfits : PythonModule.callableFits table (nameInside owner) c = true := by
    rcases List.mem_append.1 hc with hc | hc
    · obtain ⟨_, hmem, heq⟩ := List.mem_map.1 hc
      obtain ⟨rfl, rfl⟩ := Prod.mk.inj heq
      exact hfunctions _ hmem
    · obtain ⟨o, ho, hc⟩ := List.mem_flatMap.1 hc
      obtain ⟨_, hmem, heq⟩ := List.mem_map.1 hc
      obtain ⟨rfl, rfl⟩ := Prod.mk.inj heq
      have hobject := (Bool.and_eq_true_iff.1 (hdefinitions _ (object_mem_definitions ho))).2
      exact (Bool.and_eq_true_iff.1 (List.all_eq_true.1 hobject _ hmem)).1
  have hbind := (Bool.and_eq_true_iff.1 (Bool.and_eq_true_iff.1 hfits).1).2
  have hdistinct : ((PythonModule.receiverParams c ++ c.params.map fun p => escapePython p.name).map
      (nameInside owner)).Nodup := of_decide_eq_true (Bool.and_eq_true_iff.1 hbind).2
  have hreceivers : (PythonModule.receiverParams c).map (nameInside owner) = PythonModule.receiverParams c :=
    (List.map_congr_left fun _ h => nameInside_receiver owner c h).trans (List.map_id _)
  rw [List.map_append, List.map_map, hreceivers] at hdistinct
  exact hdistinct

/-- **The name of a parameter stands for its argument** in a wrapper of an accepted model. -/
theorem lookup_argument (hm : Wrappers.ofModel m limit = .ok b) {owner : Option Object} {c : Callable}
    (hc : (owner, c) ∈ m.callables) {args : List Value} {i : ℕ} {p : Param} {v : Value}
    (hp : c.params[i]? = some p) (hv : args[i]? = some v) :
    (Wrappers.argumentScope owner c args).lookup (nameInside owner (escapePython p.name)) =
      some (.argument v) := by
  have hname : (Wrappers.paramNames owner c)[i]? = some (nameInside owner (escapePython p.name)) := by
    simp [Wrappers.paramNames, hp]
  have hpair : (nameInside owner (escapePython p.name), v) ∈ (Wrappers.paramNames owner c).zip args :=
    List.mem_of_getElem? (List.getElem?_zip_eq_some.2 ⟨hname, hv⟩)
  unfold Wrappers.argumentScope
  dsimp only
  refine lookup_of_mem ?_ (List.mem_map.2 ⟨(_, v), ?_, rfl⟩)
  · rw [List.map_map]
    exact zip_keys_nodup (names_differ hm hc) _
  · rw [List.zip_append (by simp)]
    exact List.mem_append_right _ hpair

/-! ## What is passed for an object -/

theorem conversionOf_object {table : Table} {t : Ty} {name : String} (ht : t.unbox = .named name)
    (hname : table.isObject name = true) : table.conversionOf t = .handle := by
  induction t with
  | named n =>
    obtain rfl := Ty.named.inj ht
    simp [Table.conversionOf, hname]
  | box t ih => exact ih ht
  | _ => exact absurd ht (by simp [Ty.unbox])

theorem lower_object {c : Converter} (ht : c.type.unbox = .named o.name)
    (hl : c.schema.table.lookup o.name = some (.object o)) {cls : ObjectClass} {handle lowered : Value}
    {label : Option String} (h : c.lower (.object cls (some handle) label) = .ok lowered) :
    lowered = handle := by
  unfold Converter.lower at h
  rw [ht] at h
  dsimp only at h
  rw [hl] at h
  obtain ⟨_, -, h⟩ := bind_eq_ok.1 h
  obtain ⟨_, -, h⟩ := bind_eq_ok.1 h
  exact (Except.ok.inj h).symm

namespace Wrapper

variable {w : Wrapper} {args : List Value} {cs : List Copy} {passed : List Passed}

theorem param_names_nodup (hm : Wrappers.ofModel m limit = .ok b) (hw : (w.owner, w.source) ∈ m.callables) :
    (w.source.params.map (·.name)).Nodup := by
  have hnames := (List.nodup_append.1 (names_differ hm hw)).2.1
  refine List.Nodup.of_map (fun name => nameInside w.owner (escapePython name)) ?_
  rw [List.map_map]
  exact hnames

/-- The slot of a parameter comes after that of the receiver, in its place. -/
theorem slot_of_param (hm : Wrappers.ofModel m limit = .ok b) (hw : (w.owner, w.source) ∈ m.callables) {i : ℕ}
    {p : Param} (hp : w.source.params[i]? = some p) :
    (w.plan b).slots[(receiverArgument w.source).length + i]? =
      some (CallPlan.paramSlot b.schema.table PythonModule.localName p) := by
  have hslots : (w.plan b).slots = CallPlan.receiverSlots PythonModule.localName w.source ++
      w.source.params.map (CallPlan.paramSlot b.schema.table PythonModule.localName) :=
    CallPlan.ofCallable_slots (param_names_nodup hm hw) _
  have hlength : (CallPlan.receiverSlots PythonModule.localName w.source).length =
      (receiverArgument w.source).length := by
    unfold CallPlan.receiverSlots receiverArgument
    split <;> rfl
  rw [hslots, ← hlength, List.getElem?_append_right (Nat.le_add_right _ _), Nat.add_sub_cancel_left]
  simp [hp]

/-- **Where an object is passed in its place** its handle is passed. -/
theorem PassedFor.handle (hm : Wrappers.ofModel m limit = .ok b) (ho : o ∈ m.objects)
    (hw : (w.owner, w.source) ∈ m.callables) {i : ℕ} {p : Param} (hp : w.source.params[i]? = some p)
    (htype : p.type.unbox = .named o.name) {cls : ObjectClass} {handle : Value} {label : Option String}
    (harg : args[i]? = some (.object cls (some handle) label))
    (h : w.PassedFor b s args cs ((w.plan b).slots.map CallPlan.ownTerm) passed) :
    passed[(receiverArgument w.source).length + i]? = some (.value handle) := by
  have hl : b.schema.table.lookup o.name = some (.object o) :=
    Wrappers.lookup_definition hm (object_mem_definitions ho)
  have hobject : b.schema.table.isObject o.name = true := by
    unfold Table.isObject
    rw [hl]
    rfl
  have hconversion : (b.schema.table.conversionOf p.type).usesBuffer = false := by
    rw [conversionOf_object htype hobject]
    rfl
  obtain ⟨q, hq, bound, hbound, rfl⟩ :=
    getElem?_of_forall₂ (List.forall₂_map_left_iff.1 h) (slot_of_param hm hw hp)
  rw [hq]
  cases hbound with
  | copied _ howned _ _ _ => exact absurd howned (by simp [CallPlan.paramSlot, hconversion])
  | lent horigin _ hsource hlowers =>
    obtain rfl := Origin.param.inj horigin
    cases hsource with
    | given hfound =>
      obtain rfl := Option.some.inj ((lookup_argument hm hw hp harg).symm.trans hfound)
      unfold Wrappers.Lowers at hlowers
      rw [hconversion] at hlowers
      obtain ⟨lowered, hlower, rfl⟩ := hlowers
      rw [lower_object htype hl hlower]
      rfl

/-- **The run of a wrapper is tame.** -/
theorem run_tame (hb : b.Tamed) (hw : (w.owner, w.source) ∈ b.model.callables) (args : List Value) :
    Tame b.model (w.run b args) := by
  cases w with
  | callable owner c self => exact Wrappers.runCallable_tame hb hw self args
  | constructor o c => exact (Wrappers.runConstructor_tame hb hw args).mono fun _ _ => trivial

end Wrapper

/-! ## Ownership -/

/-- The argument that is derived for a consumed parameter is handed over. -/
theorem transferred_of_consumed {symbols : List Boundary.Signature}
    (hm : Generation.fresh Generation.derive (.ofModel m .default .full) = .ok symbols)
    {sig : Boundary.Signature} (hsig : sig ∈ symbols) {c : Callable} (hc : sig.source = some c) {i : ℕ}
    {p : Param} (hp : c.params[i]? = some p) (hconsumed : p.consumed = true) :
    ∃ a, sig.valueArguments[(receiverArgument c).length + i]? = some a ∧ a.name = p.name ∧
      a.ownership = .transferred := by
  obtain ⟨params, hargs, hparams⟩ := (derived_of_mem hm hsig hc).arguments
  obtain ⟨a, ha, hfor⟩ := getElem?_of_forall₂ hparams hp
  refine ⟨a, ?_, hfor.name, by rw [hfor.ownership, if_pos hconsumed]⟩
  rw [hargs, List.getElem?_append_right (Nat.le_add_right _ _), Nat.add_sub_cancel_left]
  exact ha

/-- **A consumed object is released again.** In an accepted model the argument that is derived for a consumed
parameter is handed over, so that the native side frees what is passed there. A wrapper that calls passes the
handle of an object there, if the parameter is in its place. But however the wrapper ends, the object holds
its handle as before; and the handle of an unobstructed object is released, once, by any code that closes the
object and by the end of its life. -/
theorem consumed_released_again (hm : Wrappers.ofModel m limit = .ok b) (ho : o ∈ m.objects)
    (hfree : Unobstructed b o) {w : Wrapper} (hw : (w.owner, w.source) ∈ m.callables)
    (hplaced : (w.plan b).Placed (nameInside w.owner)) {i : ℕ} {p : Param} (hp : w.source.params[i]? = some p)
    (hconsumed : p.consumed = true) (htype : p.type.unbox = .named o.name) {handle : Value}
    (hs : Holds s label o (some handle)) {args : List Value}
    (harg : args[i]? = some (.object ⟨o.name, []⟩ (some handle) (some label))) :
    let place := (receiverArgument w.source).length + i
    (∀ symbols, Generation.fresh Generation.derive (.ofModel m .default .full) = .ok symbols → ∀ sig ∈ symbols,
      sig.source = some w.source →
        ∃ a, sig.valueArguments[place]? = some a ∧ a.name = p.name ∧ a.ownership = .transferred) ∧
    Ends (w.run b args) s fun r δ s' =>
      (Wrapper.Uncalled b r δ ∨
        ∃ (cs : List Copy) (passed : List Passed) (hasRecord : Bool) (after : List Request), δ =
          cs.map Copy.asked ++ .called ((w.frame b).inside (w.plan b).symbol) passed hasRecord :: after ∧
          passed[place]? = some (.value handle)) ∧
      (∀ q ∈ δ, q.Apart (releaseName m.ns o.name)) ∧ Holds s' label o (some handle) ∧
      ∀ u : Use, u.Declared o → ∃ front, u.ReleasesOnce m b o label handle s' front := by
  intro place
  refine ⟨fun symbols hderive sig hsig hc => transferred_of_consumed hderive hsig hc hp hconsumed, ?_⟩
  have hmodel := Wrappers.model_of_ofModel hm
  have hterms : (w.plan b).terms (w.frame b).inside = (w.plan b).slots.map CallPlan.ownTerm :=
    (CallPlan.terms_eq_iff (CallPlan.slots_nodup (Wrapper.param_names_nodup hm hw) _)).2 hplaced
  have hruns := w.passes_terms (Wrappers.grows_of_ofModel hm) args s
  rw [hterms] at hruns
  have htame := hs.of_tame (Wrapper.run_tame (w := w) (Wrappers.tamed_of_ofModel hm) (hmodel ▸ hw) args)
  rw [hmodel] at htame
  refine (hruns.and htame).mono fun r δ s' _ _ ⟨hcall, hheld, hordinary⟩ => ⟨?_, ?_, hheld, ?_⟩
  · refine hcall.imp_right ?_
    rintro ⟨cs, passed, hasRecord, after, hδ, hpassed⟩
    exact ⟨cs, passed, hasRecord, after, hδ, hpassed.handle hm ho hw hp htype harg⟩
  · exact fun q hq => (hordinary q hq).apart hm ho hfree
  · exact fun u hu => u.releasesOnce hm ho hfree hheld hu

/-- The wrapper of a function that consumes a thing. -/
def take : Wrapper := .callable none ⟨.function, "take", [⟨"t", .named "Thing", true⟩], none, none⟩ none

/-- A model with that function. -/
def takeModel : Model := { thingModel "poke" with functions := [take.source], onlyFunctions := Eq.refl true }

/-- The thing that is held, as it is passed. -/
def heldThing : Value := .object ⟨"Thing", []⟩ (some (.int 5)) (some "t")

/-- A thing that was taken is released by its former owner when that is closed. -/
theorem consumed_released_again_take : ∃ b, Wrappers.ofModel takeModel 0 = .ok b ∧
    Unobstructed b (thingWith "poke") ∧ Holds thingSession "t" (thingWith "poke") (some (.int 5)) ∧
    (b.close "t" (take.run b [heldThing] thingSession).2).2.requests.map Request.symbol? =
      [some "n_fn_take", some "n_Thing_free"] ∧
    Ends (take.run b [heldThing]) thingSession fun r δ s' =>
      (Wrapper.Uncalled b r δ ∨
        ∃ (cs : List Copy) (passed : List Passed) (hasRecord : Bool) (after : List Request), δ =
          cs.map Copy.asked ++ .called ((take.frame b).inside (take.plan b).symbol) passed hasRecord :: after ∧
          passed[0]? = some (.value (.int 5))) ∧
      ∃ front, Use.close.ReleasesOnce takeModel b (thingWith "poke") "t" (.int 5) s' front := by
  have hruns : (Wrappers.ofModel takeModel 0).toOption.map (fun b =>
      (decide (Unobstructed b (thingWith "poke")),
        (b.close "t" (take.run b [heldThing] thingSession).2).2.requests.map Request.symbol?)) =
        some (true, [some "n_fn_take", some "n_Thing_free"]) := by
    decide +kernel
  cases hm : Wrappers.ofModel takeModel 0 with
  | error e => rw [hm] at hruns; exact absurd hruns (by simp [Except.toOption])
  | ok b =>
    rw [hm] at hruns
    obtain ⟨hfree, hrequests⟩ := Prod.mk.inj (Option.some.inj hruns)
    have hfree := of_decide_eq_true hfree
    have hplain : PlainParams take.source := by decide
    have hheld : Holds thingSession "t" (thingWith "poke") (some (.int 5)) := rfl
    have harg : [heldThing][0]? = some (.object ⟨(thingWith "poke").name, []⟩ (some (.int 5)) (some "t")) := rfl
    refine ⟨b, rfl, hfree, hheld, hrequests, ?_⟩
    refine (consumed_released_again (w := take) hm List.mem_cons_self hfree List.mem_cons_self
      (hplain.placed none _) rfl rfl rfl hheld harg).2.mono ?_
    rintro r δ s' - - ⟨hcall, -, -, hreleases⟩
    exact ⟨hcall, hreleases .close trivial⟩

end Bindgen.Native
