import Bindgen.Proofs.Emit.Readings
import Bindgen.Proofs.Native.Ownership

/-!
# Names that locals capture

A wrapper with consumed buffers puts a low line in front of the name of each parameter to name its local, whatever the
parameter is called. So a local may capture a name that the wrapper reads (`Captures`): the argument for a later
parameter, or something of the module that the wrapper needs. In the first case something else is passed than belongs
there; in the second every run ends in a fault, after the copies have been made if the library is what the wrapper
lacks. Plain names keep clear of all that.

Results:
* `captures_of_plain`: with plain parameter names, at most the class of the errors is captured.
* `run_fails_of_taken`: a wrapper of which a local has taken a name that it needs.
* **`locals_capture`**: what the locals of an accepted model's wrappers capture, and what comes of it.
-/

namespace Bindgen.Native

open Interface Resolve Emit Identifier Wire Emit.CallPlan
open Emit.PythonModule (Needed Reads Reading Captures isConstructed wrapperLines)

variable {b : Wrappers} {s : Session} {table : Table} {plan : CallPlan} {owner : Option Object} {c : Callable}

/-! ## Names of the module -/

theorem isPrivate_converterSource (t : Ty) : isPrivate (converterSource t) = false := by
  obtain h | ⟨k, h⟩ := converterSource_cases t
  · rw [h]
    decide
  · rw [h]
    simp [isPrivate, twoLines, String.toList_append]

/-- A name that a wrapper needs is the same inside a class, and made of a name that is not plain. -/
theorem needed_name {name : String} (h : Needed table plan owner c name) : isPrivate name = false ∧
    ∃ x, name = PythonModule.localName x ∧ ¬PlainName x ∧ x ≠ receiverName := by
  have hsupport : isPrivate supportName = false ∧
      ∃ x, supportName = PythonModule.localName x ∧ ¬PlainName x ∧ x ≠ receiverName :=
    ⟨by decide, "rt", by decide, by decide, by decide⟩
  cases h with
  | protocol => exact ⟨by decide, "protocol", by decide, by decide, by decide⟩
  | library => exact ⟨by decide, "lib", by decide, by decide, by decide⟩
  | converter => exact ⟨isPrivate_converterSource _, converterSource_eq _⟩
  | lent => exact hsupport
  | made => exact hsupport
  | result => exact ⟨isPrivate_converterSource _, converterSource_eq _⟩

/-! ## Plain names -/

/-- **With plain names** locals capture nothing, except perhaps the class of the errors. -/
theorem captures_of_plain (h : PlainParams c) (owner : Option Object) (symbol : String) {slot : Slot} {r : Reading} :
    let plan := ofCallable table PythonModule.localName symbol c
    plan.inPlace = false → Captures (nameInside owner) (wrapperLines table plan owner c) slot r →
      r.meaning = .error := by
  intro plan hplace hcaptures
  obtain ⟨hslot, hreads⟩ := hcaptures.mem hplace
  obtain ⟨name, htarget, hname⟩ := h.target_eq owner hslot
  have hsame := hcaptures.same
  have hhead : (nameInside owner r.name).toList.head? = some '_' := by rw [hsame, htarget, toList_localName]; rfl
  cases hreads with
  | receiver hreceiver =>
    obtain rfl | rfl := hreceiver
    · rw [nameInside_eq (by decide)] at hhead
      exact absurd hhead (by decide)
    · rw [nameInside_eq (by decide)] at hhead
      exact absurd hhead (by decide)
  | argument hmem horigin =>
    have hp := h.origin_mem hmem horigin
    rw [h.inside_param owner hp] at hhead
    exact absurd hhead (h.plain _ hp).1
  | bound hmem =>
    obtain rfl := List.inj_on_of_nodup_map (h.targets_nodup owner symbol) hmem hslot hsame
    exact absurd rfl hcaptures.other
  | global hneeded =>
    obtain ⟨hprivate, x, hx, hplain, hhandle⟩ := needed_name hneeded
    rw [nameInside_eq hprivate, htarget] at hsame
    obtain rfl := localName_inj (hx.symm.trans hsame)
    exact hname.elim (absurd · hhandle) (absurd · hplain)
  | error => rfl

/-! ## What a run needs -/

/-- A look that gives something found what it looked for. -/
theorem Checks.finds {α : Type} {act : Action α} {lack : Prop} {P : α → Prop} (h : Checks act lack P) :
    b.Prepares act s fun _ => ¬lack := by
  by_cases hl : lack
  · exact Ends.intro act (h.fails hl s) (.refl s) b.aside_nil
  · obtain ⟨a, -, hrun⟩ := h.passes hl
    exact Ends.intro act (hrun s) (.refl s) ⟨rfl, rfl, hl⟩

namespace Wrappers

/-- **What a slot is lowered by is found**: the converter, and the support code where a buffer is lent. -/
def Finds (b : Wrappers) (f : Frame) (slot : Slot) : Prop :=
  ∀ p, slot.origin = .param p → ¬b.LacksConverter f p.type ∧
    (slot.owned = false → (b.schema.table.conversionOf p.type).usesBuffer = true → ¬b.Lacks f supportName)

theorem encode_finds (hb : b.Grows) (f : Frame) (t : Ty) (v : Value) (s : Session) :
    b.Prepares (b.encode f t v) s fun _ => ¬b.LacksConverter f t :=
  (needConverter_checks b f t).finds.bind fun _ h => .settle hb fun _ _ => h

/-- A slot that is lowered has found what it is lowered by. -/
theorem lowerSlot_finds (hb : b.Grows) (f : Frame) (scope : Scope) (slot : Slot) :
    b.Prepares (b.lowerSlot f scope slot) s fun _ => b.Finds f slot := by
  cases horigin : slot.origin with
  | receiver =>
    exact (lowerSlot_prepares hb f scope slot).mono fun _ _ p hp => absurd (horigin.symm.trans hp) (by simp)
  | param p =>
    have hfinds : b.Prepares (b.lowerParam f scope p) s fun _ => ¬b.LacksConverter f p.type ∧
        ((b.schema.table.conversionOf p.type).usesBuffer = true → ¬b.Lacks f supportName) := by
      unfold lowerParam
      cases hbuffer : (b.schema.table.conversionOf p.type).usesBuffer with
      | true =>
        refine (need_checks b f supportName).finds.bind fun _ hsupport => ?_
        refine (paramValue_prepares f scope p).bind fun v _ => ?_
        refine .map (.map (encode_finds hb f p.type v s) fun _ h => h) fun _ h => ⟨h, fun _ => hsupport⟩
      | false =>
        refine (needConverter_checks b f p.type).finds.bind fun _ hconverter => ?_
        refine (paramValue_prepares f scope p).bind fun v _ => ?_
        exact .map (.settle hb fun _ _ => ⟨hconverter, fun h => absurd h (by simp)⟩) fun _ h => h
    unfold lowerSlot
    rw [horigin]
    refine hfinds.mono fun _ h q hq => ?_
    obtain rfl := Origin.param.inj (horigin.symm.trans hq)
    exact ⟨h.1, fun _ => h.2⟩

theorem bindSlots_finds (hb : b.Grows) (f : Frame) (slots : List Slot) (scope : Scope) :
    b.Prepares (b.bindSlots f scope slots) s fun _ => ∀ slot ∈ slots, b.Finds f slot := by
  induction slots generalizing scope with
  | nil => exact .pure fun _ h => absurd h List.not_mem_nil
  | cons slot slots ih =>
    unfold bindSlots
    refine (lowerSlot_finds hb f scope slot).bind fun p hp => ?_
    exact (ih _).mono fun _ hrest => List.forall_mem_cons.2 ⟨hp, hrest⟩

/-- A consumed buffer that is encoded has found what it is encoded by. -/
theorem ownedEncoding_finds (hb : b.Grows) (f : Frame) (scope : Scope) {slot : Slot} (howned : slot.owned = true) :
    b.Prepares (b.ownedEncoding f scope slot) s fun encode => ∀ s', b.Prepares encode s' fun _ => b.Finds f slot := by
  unfold ownedEncoding
  cases horigin : slot.origin with
  | receiver => exact .throw _
  | param p =>
    refine (handOver_prepares f scope p.type).bind fun _ _ => ?_
    refine (paramValue_prepares f scope p).bind fun v _ => .pure fun s' => ?_
    refine (encode_finds hb f p.type v s').mono fun _ h q hq => ?_
    obtain rfl := Origin.param.inj (horigin.symm.trans hq)
    exact ⟨h, fun hplain => absurd (howned.symm.trans hplain) (by simp)⟩

/-- **A plan whose locals are bound** has found what its slots are lowered by. -/
theorem bindAll_finds (hb : b.Grows) (f : Frame) (scope : Scope) (plan : CallPlan) (s : Session) :
    Ends (b.bindAll f scope plan) s fun r _ _ => ∀ scope', r = .ok scope' → ∀ slot ∈ plan.slots, b.Finds f slot := by
  have hfault {α : Type} {e : Fault} {P : α → Prop} : ∀ a, (Except.error e : Except Fault α) = .ok a → P a :=
    fun _ h => absurd h (by simp)
  unfold bindAll
  refine (bindSlots_finds hb f plan.plain scope).ends (fun plain _ hplain => ?_) fun _ _ _ _ => hfault
  refine (need_checks b f protocolName).ends (fun _ _ _ => ?_) fun _ => hfault
  have hencodings : b.Prepares (plan.owned.mapM (b.ownedEncoding f plain)) s (List.Forall₂ (fun slot encode =>
      ∀ s', b.Prepares encode s' fun _ => b.Finds f slot) plan.owned) :=
    .mapM _ fun slot hslot => ownedEncoding_finds hb f plain (mem_slots_of_owned hslot).2
  refine hencodings.ends (fun encodes _ hencodes => ?_) fun _ _ _ _ => hfault
  refine Ends.bind (lowerOwnedAll_ends hencodes s) (fun buffers δ s' _ _ hq => Ends.pure fun _ _ => ?_)
    fun _ _ _ _ _ => hfault
  obtain ⟨cs, -, -, hcs⟩ := hq
  intro slot hslot
  cases howned : slot.owned with
  | false => exact hplain slot (List.mem_filter.2 ⟨hslot, by simp [howned]⟩)
  | true =>
    obtain ⟨_, -, hfinds, -⟩ := exists_right_of_forall₂ hcs (List.mem_filter.2 ⟨hslot, howned⟩)
    exact hfinds

/-- A buffer is not lifted where the converter of its type is lacking. -/
theorem liftResult_fails {f : Frame} {t : Ty} (h : b.LacksConverter f t)
    (hbuffer : (b.schema.table.conversionOf t).usesBuffer = true) (result : Passed) (s : Session) :
    Ends (b.liftResult f t result) s fun r _ _ => ∃ e, r = .error e := by
  have hlift (buffer : Buffer) : Ends (lift (fun bytes => do
      b.needConverter f t
      b.settle ((b.converter t).decode bytes)) buffer) s fun r _ _ => ∃ e, r = .error e := by
    unfold lift
    refine Ends.bind (Q := fun _ _ _ => True) (ends_free buffer fun _ _ => trivial) (fun _ _ s' _ _ _ => ?_)
      fun e _ _ _ _ => ⟨e, rfl⟩
    refine Ends.bind (Q := fun _ _ _ => True) (Ends.ofExcept trivial) (fun bytes _ s'' _ _ _ => ?_)
      fun e _ _ _ _ => ⟨e, rfl⟩
    exact (needConverter_checks b f t).ends (fun _ _ hfound => absurd h hfound) fun _ => ⟨_, rfl⟩
  have hthrow (e : Fault) : Ends (throw e : Action Value) s fun r _ _ => ∃ e, r = .error e := Ends.throw ⟨e, rfl⟩
  unfold liftResult
  cases hconversion : b.schema.table.conversionOf t with
  | rawBuffer | serialized =>
    cases result with
    | buffer buffer => exact hlift buffer
    | value v => exact hthrow _
  | boolByte | direct | handle =>
    rw [hconversion] at hbuffer
    exact absurd hbuffer (by decide)

end Wrappers

/-! ## Runs -/

namespace Wrapper

variable {w : Wrapper} {args : List Value} {name : String}

/-- A wrapper of the kind that is printed for what it wraps. -/
def IsPrinted : Wrapper → Prop
  | callable owner c _ => isConstructed owner c = false
  | constructor o c => isConstructed (some o) c = true

/-- **A wrapper that is hindered in every scope** calls nothing. -/
theorem run_hindered (hb : b.Grows) (h : ∀ scope, w.Hinders b scope) (args : List Value) (s : Session) :
    Ends (w.run b args) s fun r δ _ => Uncalled b r δ := by
  refine (w.run_course hb args s).mono fun r δ _ _ _ hcourse => ?_
  cases hcourse with
  | refused hrefused => exact ⟨⟨_, rfl⟩, .inl hrefused⟩
  | abandoned => exact ⟨⟨_, rfl⟩, .inr ⟨_, rfl⟩⟩
  | @called cs scope passed hasRecord _ _ _ _ calls _ => exact absurd (h scope) calls.free

/-- **A wrapper that does not find what one of its slots is lowered by** calls nothing. -/
theorem run_lost (hb : b.Grows) (hplace : (w.plan b).inPlace = false) {slot : Slot} (hslot : slot ∈ (w.plan b).slots)
    (h : ¬b.Finds (w.frame b) slot) (args : List Value) (s : Session) :
    Ends (w.run b args) s fun r δ _ => Uncalled b r δ := by
  rw [run_eq]
  unfold Wrappers.run
  refine Ends.bind (Q := fun _ δ _ => δ = []) (Ends.ofExcept rfl) (fun _ δ s' _ _ hδ => ?_) fun e δ _ _ hδ => ?_
  · subst hδ
    rw [if_neg (by simp [plan] at hplace; simp [hplace])]
    refine Ends.bind ((Wrappers.bindAll_ends hb (w.frame b) (w.arguments args) (w.plan b) s').and
      (Wrappers.bindAll_finds hb _ _ _ _)) (fun scope δ _ _ _ hq => ?_) fun e δ _ _ hq => ?_
    · exact absurd (hq.2 scope rfl slot hslot) h
    · exact ⟨⟨e, rfl⟩, .inl hq.1⟩
  · rw [hδ]
    exact ⟨⟨e, rfl⟩, .inl (.of_aside b.aside_nil)⟩

/-- A wrapper that does not find what it reads its result by ends in a fault. -/
theorem run_unread (hb : b.Grows)
    (h : ∀ result s, Ends ((w.finish b).make (w.frame b) result) s fun r _ _ => ∃ e, r = .error e)
    (args : List Value) (s : Session) : Ends (w.run b args) s fun r _ _ => ∃ e, r = .error e := by
  refine w.run_to_call hb args s (fun e _ _ _ => ⟨e, rfl⟩) fun cs scope s' _ ready _ _ => ?_
  refine (w.finish_checks b).ends (fun _ _ hfinish => ?_) fun _ => ⟨_, rfl⟩
  refine Ends.bind (w.call_course hb ready hfinish s') (fun result _ s'' _ _ _ => ?_) fun e _ _ _ _ => ⟨e, rfl⟩
  exact h result s''

/-- **A local that has taken a name which its wrapper needs**: every run ends in a fault, and nothing is called, unless
it is the converter of the result. -/
theorem run_fails_of_taken (hb : b.Grows) (hw : w.IsPrinted) (hplace : (w.plan b).inPlace = false)
    (hneeded : Needed b.schema.table (w.plan b) w.owner w.source name) (htaken : name ∈ (w.frame b).locals)
    (args : List Value) (s : Session) :
    Ends (w.run b args) s fun r δ _ => (∃ e, r = .error e) ∧
      ((∀ t, w.source.returns = some t → name ≠ converterSource t) → Uncalled b r δ) := by
  have huncalled (h : Ends (w.run b args) s fun r δ _ => Uncalled b r δ) : Ends (w.run b args) s fun r δ _ =>
      (∃ e, r = .error e) ∧ ((∀ t, w.source.returns = some t → name ≠ converterSource t) → Uncalled b r δ) :=
    h.mono fun _ _ _ _ _ hq => ⟨hq.1, fun _ => hq⟩
  cases hneeded with
  | protocol => exact huncalled (run_hindered hb (fun _ => .inr (.inl (.inl (.inl htaken)))) args s)
  | library => exact huncalled (run_hindered hb (fun _ => .inr (.inl (.inr (.inl htaken)))) args s)
  | converter hslot horigin =>
    exact huncalled (run_lost hb hplace hslot (fun h => (h _ horigin).1 (.inl htaken)) args s)
  | lent hslot horigin hplain hbuffer =>
    exact huncalled (run_lost hb hplace hslot (fun h => (h _ horigin).2 hplain hbuffer (.inl htaken)) args s)
  | made hconstructed =>
    cases w with
    | constructor o c =>
      have hfinish : (constructor o c).LacksFinish b := Or.inl htaken
      exact huncalled (run_hindered hb (fun _ => .inl hfinish) args s)
    | callable owner c self => exact absurd (hw.symm.trans hconstructed) (by simp)
  | @result t hcalled hreturns =>
    cases w with
    | constructor o c => exact absurd (hcalled.symm.trans hw) (by simp)
    | callable owner c self =>
      cases hbuffer : (b.schema.table.conversionOf t).usesBuffer with
      | false =>
        have hlacks : b.LacksResult ((callable owner c self).frame b) t := by
          rw [Wrappers.LacksResult, if_neg (by simp [hbuffer])]
          exact .inl htaken
        have hfinish : (callable owner c self).LacksFinish b := ⟨t, hreturns, hlacks⟩
        exact huncalled (run_hindered hb (fun _ => .inl hfinish) args s)
      | true =>
        have hfails : Ends ((callable owner c self).run b args) s fun r _ _ => ∃ e, r = .error e := by
          refine run_unread hb (fun result s => ?_) args s
          simp only [finish, Wrappers.callableFinish, show c.returns = some t from hreturns]
          exact Wrappers.liftResult_fails (.inl htaken) hbuffer result s
        exact hfails.mono fun _ _ _ _ _ hq => ⟨hq, fun hother => absurd rfl (hother t hreturns)⟩

end Wrapper

/-- With distinct names, a parameter that is a consumed buffer is bound to a local. -/
theorem not_inPlace (hnames : (c.params.map (·.name)).Nodup) (symbol : String)
    (h : ∃ p ∈ c.params, p.consumed = true ∧ (table.conversionOf p.type).usesBuffer = true) :
    (ofCallable table PythonModule.localName symbol c).inPlace = false := by
  obtain ⟨p, hp, hconsumed, hbuffer⟩ := h
  have hslot : paramSlot table PythonModule.localName p ∈
      (ofCallable table PythonModule.localName symbol c).owned := by
    refine List.mem_filter.2 ⟨?_, by simp [paramSlot, hconsumed, hbuffer]⟩
    rw [ofCallable_slots hnames]
    exact List.mem_append_right _ (List.mem_map_of_mem hp)
  rw [inPlace, List.isEmpty_eq_false_iff]
  exact List.ne_nil_of_mem hslot

/-- **What locals capture**, and what comes of it. A wrapper with consumed buffers is the text of its lines. A local
captures an argument or another local just where something else is passed than belongs there. One that captures a name
of the module, which the wrapper needs, lets every run of the wrapper end in a fault; nothing is called then, though
copies may have been made, unless the name is that of the result's converter. With plain parameter names there is
nothing that a local captures, except perhaps the class of the errors. -/
theorem locals_capture {m : Model} {symbols : List Boundary.Signature}
    (hm : Generation.fresh Generation.derive (.ofModel m .default .full) = .ok symbols)
    {sig : Boundary.Signature} (hsig : sig ∈ symbols) {c : Callable} (hc : sig.source = some c)
    (hnames : (c.params.map (·.name)).Nodup) {table : Table} (htable : tableOf m = .ok table)
    (hconsumed : ∃ p ∈ c.params, p.consumed = true ∧ (table.conversionOf p.type).usesBuffer = true) :
    let plan := ofCallable table PythonModule.localName sig.name c
    let inside := nameInside sig.owner
    let lines := wrapperLines table plan sig.owner c
    (∀ surface : Surface, surface.table = table →
      (PythonModule.printed surface sig).map (·.textWith converterExpr) =
        PythonModule.headLines sig.owner c ++
          lines.map (blanks (if sig.owner.isSome then 8 else 4) ++ ·.text) ++
          (if sig.owner.isSome then [""] else ["", ""])) ∧
      ((∃ slot r, Captures inside lines slot r ∧ r.meaning.isPassed = true) ↔
        plan.terms inside ≠ plan.slots.map ownTerm) ∧
      (∀ slot r, Captures inside lines slot r → r.meaning = .global →
        ∀ (limit : ℕ) (b : Wrappers), Wrappers.ofModel m limit = .ok b →
          ∀ w : Wrapper, w.owner = sig.owner → w.source = c → w.IsPrinted → ∀ (args : List Value) (s : Session),
            Ends (w.run b args) s fun result δ _ => (∃ e, result = .error e) ∧
              ((∀ t, c.returns = some t → r.name ≠ converterSource t) → Wrapper.Uncalled b result δ)) ∧
      (∀ p ∈ c.params, p.name = "protocol" ∨ p.name = "lib" →
        Captures inside lines (paramSlot table PythonModule.localName p) ⟨PythonModule.localName p.name, .global⟩) ∧
      (PlainParams c → ∀ slot r, Captures inside lines slot r → r.meaning = .error) := by
  intro plan inside lines
  have hplace : plan.inPlace = false := not_inPlace hnames sig.name hconsumed
  refine ⟨fun surface hsurface => ?_, PythonModule.captures_passed_iff (slots_nodup hnames sig.name) hplace,
    fun slot r hcaptures hglobal limit b hb w howner hsource hprinted args s => ?_, fun p hp hname => ?_,
    fun hplain slot r => captures_of_plain hplain sig.owner sig.name hplace⟩
  · subst hsurface
    exact PythonModule.wrapper_text surface hc
  · obtain ⟨hslot, hreads⟩ := hcaptures.mem hplace
    have hneeded : Needed table plan sig.owner c r.name := by
      cases hreads with
      | global h => exact h
      | _ => exact absurd hglobal (by simp)
    have hplan : w.plan b = plan := w.plan_of_ofModel hb htable (derived_of_mem hm hsig hc) howner hsource
    have htaken : r.name ∈ (w.frame b).locals := by
      have hname : nameInside w.owner slot.target = r.name := by
        rw [howner, ← nameInside_eq (needed_name hneeded).1]
        exact hcaptures.same.symm
      rw [Wrapper.frame, hplan, Wrappers.frame, hplace]
      exact List.mem_append_right _ (List.mem_map.2 ⟨slot, hslot, hname⟩)
    have hneeded' : Needed b.schema.table (w.plan b) w.owner w.source r.name := by
      rw [Wrappers.table_of_ofModel hb htable, hplan, howner, hsource]
      exact hneeded
    subst hsource
    exact Wrapper.run_fails_of_taken (Wrappers.grows_of_ofModel hb) hprinted (hplan ▸ hplace) hneeded' htaken args s
  · refine PythonModule.captures_global hplace ?_ ?_ rfl
    · rw [show plan.slots = _ from ofCallable_slots hnames sig.name]
      exact List.mem_append_right _ (List.mem_map_of_mem hp)
    · exact hname.imp (fun h => congrArg PythonModule.localName h) fun h => congrArg PythonModule.localName h

/-- The wrapper of a function with a parameter that is called like the library, and with a consumed text. -/
def withLibrary : Wrapper :=
  .callable none ⟨.function, "f", [⟨"lib", .prim .u32, false⟩, ⟨"x", .string, true⟩], none, none⟩ none

/-- A model with that function. -/
def withLibraryModel : Model := ⟨"n", [], [], [], [], [withLibrary.source], Eq.refl true⟩

/-- The local of that parameter captures the name of the library. The copy of the text is made, and nothing is called. -/
theorem locals_capture_withLibrary : ∃ symbols sig table b,
    Generation.fresh Generation.derive (.ofModel withLibraryModel .default .full) = .ok symbols ∧ sig ∈ symbols ∧
      sig.source = some withLibrary.source ∧ tableOf withLibraryModel = .ok table ∧
      Wrappers.ofModel withLibraryModel 0 = .ok b ∧
      (∃ slot, Captures (nameInside sig.owner) (wrapperLines table
        (ofCallable table PythonModule.localName sig.name withLibrary.source) sig.owner withLibrary.source)
        slot ⟨"_lib", .global⟩) ∧
      (withLibrary.run b [.int 7, .text "a"] .start).2.requests.map Request.copied? = [some [97]] ∧
      Ends (withLibrary.run b [.int 7, .text "a"]) .start fun r δ _ => Wrapper.Uncalled b r δ := by
  have hderives : (Generation.fresh Generation.derive (.ofModel withLibraryModel .default .full)).toOption.map
      (fun symbols => symbols.any fun sig => sig.source == some withLibrary.source && sig.owner.isNone) =
        some true := by decide +kernel
  have hruns : (Wrappers.ofModel withLibraryModel 0).toOption.map (fun b =>
      (withLibrary.run b [.int 7, .text "a"] .start).2.requests.map Request.copied?) = some [some [97]] := by
    decide +kernel
  cases hm : Generation.fresh Generation.derive (.ofModel withLibraryModel .default .full) with
  | error e => rw [hm] at hderives; exact absurd hderives (by simp [Except.toOption])
  | ok symbols =>
    cases hb : Wrappers.ofModel withLibraryModel 0 with
    | error e => rw [hb] at hruns; exact absurd hruns (by simp [Except.toOption])
    | ok b =>
      rw [hm] at hderives
      rw [hb] at hruns
      obtain ⟨sig, hsig, hfound⟩ := List.any_eq_true.mp (Option.some.inj hderives)
      obtain ⟨hc, howner⟩ : sig.source = some withLibrary.source ∧ sig.owner = none := by simpa using hfound
      obtain ⟨-, -, hfails, hcaptures, -⟩ := locals_capture hm hsig hc (by decide) rfl
        ⟨_, List.mem_of_getElem? (i := 1) rfl, rfl, rfl⟩
      have hcaptured := hcaptures _ (List.mem_of_getElem? (i := 0) rfl) (.inr rfl)
      have hends := hfails _ _ hcaptured rfl 0 b hb withLibrary howner.symm rfl rfl [.int 7, .text "a"] .start
      exact ⟨symbols, sig, _, b, rfl, hsig, hc, rfl, rfl, ⟨_, hcaptured⟩, Option.some.inj hruns,
        hends.mono fun _ _ _ _ _ hq => hq.2 fun t ht => absurd ht (by simp [withLibrary, Wrapper.source])⟩

end Bindgen.Native
