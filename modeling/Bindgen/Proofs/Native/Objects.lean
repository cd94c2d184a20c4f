import Bindgen.Native.Members
import Bindgen.Proofs.Emit.Places
import Bindgen.Proofs.Generation.Acceptance
import Bindgen.Proofs.Native.Module
import Bindgen.Proofs.Native.PlainNames
import Mathlib.Data.List.Flatten

/-!
# What objects do

An object keeps its handle by members of its own: it is closed by them, and they are asked for the handle when a
method is called. A class may declare callables under the names of these members, so that they are never reached;
and what they look up may have been taken by the model. Of a class that does not, in a module that has not
(`Unobstructed`), there is one statement here for each thing that an object does.

Results:
* `symbol_ne_release`: the symbols of callables are none that release a handle.
* `close_held`, `close_shut`, `drop_eq`: objects that are closed.
* `method_held`, `method_shut`: what is called on an object that has its handle, and on one that has not.
* `construct_holds`: what a constructor makes has its handle.
-/

namespace Bindgen.Native

open Interface Resolve Emit Identifier Wire

variable {α β : Type} {m : Model} {b : Wrappers} {s : Session} {o : Object} {label : String}

/-! ## Objects that are held -/

/-- **An object of a class is held** under a label, with its handle or without. -/
def Holds (s : Session) (label : String) (o : Object) (handle : Option Value) : Prop :=
  s.objects.lookup label = some ⟨⟨o.name, []⟩, handle⟩

theorem lookup_putObject (x : Holding) (objects : List (String × Holding)) :
    (putObject label x objects).lookup label = some x := by
  induction objects with
  | nil => simp [putObject]
  | cons p objects ih =>
    unfold putObject
    by_cases hl : p.1 = label
    · simp [hl]
    · rw [if_neg hl, List.lookup_cons, beq_eq_false_iff_ne.2 fun h => hl h.symm]
      exact ih

theorem putObject_same {x : Holding} {objects : List (String × Holding)} (h : objects.lookup label = some x) :
    putObject label x objects = objects := by
  induction objects with
  | nil => exact absurd h (by simp)
  | cons p objects ih =>
    unfold putObject
    rw [List.lookup_cons] at h
    by_cases hl : p.1 = label
    · subst hl
      rw [BEq.rfl] at h
      rw [if_pos rfl, ← Option.some.inj h]
    · rw [beq_eq_false_iff_ne.2 fun h => hl h.symm] at h
      rw [if_neg hl, ih h]

theorem lookup_forgotten (objects : List (String × Holding)) :
    (objects.filter (·.1 != label)).lookup label = none := by
  refine List.lookup_eq_none_iff.2 fun p hp => ?_
  have hne : p.1 ≠ label := by simpa using (List.mem_filter.1 hp).2
  simpa using hne.symm

namespace Holds

variable {handle : Option Value}

theorem object (h : Holds s label o handle) : Steady (Action.object label) s ⟨⟨o.name, []⟩, handle⟩ := by
  have hget : Steady (get : Action Session) s s := rfl
  rw [Steady, Action.object, hget.bind_apply, h]
  rfl

/-- The end of the life of an object, by what closes it then. -/
theorem drop_apply (h : Holds s label o handle) {close close' : Action Unit} (hclose : close s = close' s) :
    Action.drop close label s = (do let _ ← Action.attempt close'; Action.forget label : Action Unit) s := by
  rw [Action.drop, h.object.bind_apply, Action.bind_apply, Action.attempt_apply, hclose,
    ← Action.attempt_apply, ← Action.bind_apply]

/-- A tame action leaves an object as it is. -/
theorem of_tame {act : Action α} {P : α → Prop} (h : Holds s label o handle) (hact : Tame m act P) :
    Ends act s fun _ δ s' => Holds s' label o handle ∧ ∀ q ∈ δ, q.Ordinary m :=
  (hact s).mono fun _ _ s' _ _ ⟨hobjects, hδ, _⟩ => ⟨by unfold Holds; rw [hobjects]; exact h, hδ⟩

end Holds

/-! ## The symbol of a release -/

theorem symbol_mem_symbolNames {p : Option Object × Callable} (hp : p ∈ m.callables) :
    symbolName m.ns p.2 p.1 ∈ m.symbolNames := by
  unfold Interface.Model.symbolNames
  rcases List.mem_append.1 hp with hp | hp
  · obtain ⟨c, hc, rfl⟩ := List.mem_map.1 hp
    exact List.mem_append_left _ (List.mem_append_right _ (List.mem_map_of_mem hc))
  · obtain ⟨o, ho, hp⟩ := List.mem_flatMap.1 hp
    obtain ⟨c, hc, rfl⟩ := List.mem_map.1 hp
    exact List.mem_append_right _ (List.mem_flatMap.2 ⟨o, ho, List.mem_append_left _ (List.mem_map_of_mem hc)⟩)

/-- The symbols of callables are none that release a handle. -/
theorem symbol_ne_release (hsymbols : m.symbolNames.Nodup) {p : Option Object × Callable}
    (hp : p ∈ m.callables) (ho : o ∈ m.objects) : symbolName m.ns p.2 p.1 ≠ releaseName m.ns o.name := by
  let own (o : Object) : List String := o.callables.map (symbolName m.ns · (some o))
  have hperm : (m.objects.flatMap own ++ m.objects.flatMap fun o => [releaseName m.ns o.name]).Perm
      (m.objects.flatMap fun o => own o ++ [releaseName m.ns o.name]) := List.flatMap_append_perm _ _ _
  have hapart := ((hperm.append_left _).nodup_iff.2 hsymbols)
  rw [← List.append_assoc] at hapart
  have hrelease : releaseName m.ns o.name ∈ m.objects.flatMap fun o => [releaseName m.ns o.name] :=
    List.mem_flatMap.2 ⟨o, ho, List.mem_singleton_self _⟩
  refine fun heq => (List.nodup_append.1 hapart).2.2 _ ?_ _ hrelease heq
  rcases List.mem_append.1 hp with hp | hp
  · obtain ⟨c, hc, rfl⟩ := List.mem_map.1 hp
    exact List.mem_append_left _ (List.mem_append_right _ (List.mem_map_of_mem hc))
  · obtain ⟨o', ho', hp⟩ := List.mem_flatMap.1 hp
    obtain ⟨c, hc, rfl⟩ := List.mem_map.1 hp
    exact List.mem_append_right _ (List.mem_flatMap.2 ⟨o', ho', List.mem_map_of_mem hc⟩)

/-- The model of a module is sound. -/
theorem sound_of_ofModel {limit : ℕ} (h : Wrappers.ofModel m limit = .ok b) : m.Sound := by
  obtain ⟨symbols, hderive, -⟩ := bind_eq_ok.1 h
  obtain ⟨p, hrun, -⟩ := derive_apply (g := .ofModel m .default .full) (p := .start .empty) (.inl rfl)
  have hderived : m.derived = .ok symbols := (congrArg Prod.fst hrun).symm.trans hderive
  obtain ⟨hpasses, -, hsymbols⟩ := derived_eq_ok hderived
  exact sound_iff.2 ⟨hpasses, symbols_map_name m ▸ hsymbols⟩

/-- **A request that has nothing to do with a release**, neither by that symbol nor by another. -/
def Request.Apart (release : String) : Request → Prop
  | .copied .. | .freed _ => True
  | .called symbol .. => symbol ≠ release
  | .released .. => False

/-! ## What is in the way -/

/-- The members by which an object keeps its handle, besides those between double low lines. -/
def keepingMembers : List String := [Wrappers.closeMember, Wrappers.releaseMember, handleMember]

/-- **A class that leaves the handle to its own members**, in a module that lets them release it. No callable
takes the name of such a member, or one between double low lines, by which members are looked up for reasons
of their own; no method looks up its receiver's handle under the name of a parameter; and no symbol is called
otherwise inside a class. -/
structure Unobstructed (b : Wrappers) (o : Object) : Prop where
  members : ∀ c ∈ o.callables, nameInside (some o) (escapePython c.name) ∉ keepingMembers
  special : ∀ c ∈ o.callables, isDunder (nameInside (some o) (escapePython c.name)) = false
  handles : ∀ c ∈ o.callables, ¬CallPlan.TakesHandleName c
  library : b.schema.isTaken Wrappers.libraryName = false
  symbols : ∀ symbol ∈ b.model.symbolNames, isPrivate symbol = false

instance (b : Wrappers) (o : Object) : Decidable (Unobstructed b o) :=
  decidable_of_iff (_ ∧ _ ∧ _ ∧ _ ∧ _) ⟨fun h => ⟨h.1, h.2.1, h.2.2.1, h.2.2.2.1, h.2.2.2.2⟩,
    fun h => ⟨h.members, h.special, h.handles, h.library, h.symbols⟩⟩

namespace Unobstructed

/-- No callable is found under the name of a member that keeps the handle. -/
theorem undeclared (h : Unobstructed b o) {member : String} (hname : member ≠ initName)
    (hkeeps : member ∈ keepingMembers ∨ isDunder member = true) : Wrappers.declared? o member = none := by
  refine List.find?_eq_none.2 fun c hc hfound => ?_
  rw [List.mem_reverse] at hc
  have hinside : nameInside (some o) (calledName c) = member := by simpa using hfound
  unfold calledName at hinside
  split at hinside
  · rw [nameInside_eq (by decide)] at hinside
    exact hname hinside.symm
  · rcases hkeeps with hmem | hdunder
    · exact h.members c hc (hinside ▸ hmem)
    · exact absurd (h.special c hc) (by simp [hinside, hdunder])

/-- A receiver is asked for its handle by the member of its class. -/
theorem askMember (h : Unobstructed b o) (hl : b.schema.table.lookup o.name = some (.object o)) (given : ℕ) :
    b.schema.askMember o.name handleMember given = .ok () := by
  unfold Schema.askMember
  rw [hl]
  refine if_neg fun hany => ?_
  obtain ⟨c, hc, hname⟩ := List.any_eq_true.1 hany
  have hname : c.name = handleMember := by simpa using hname
  refine h.members c hc ?_
  rw [hname, show escapePython handleMember = handleMember by decide, nameInside_eq (by decide)]
  decide

end Unobstructed

/-! ## The module of a model -/

variable {limit : ℕ} {handle : Option Value}

theorem object_mem_definitions (ho : o ∈ m.objects) : Definition.object o ∈ m.definitions := by
  unfold Model.definitions
  exact List.mem_append_right _ (List.mem_map_of_mem ho)

/-- The object definition of a class is found by its name. -/
theorem objectNamed_eq (hm : Wrappers.ofModel m limit = .ok b) (ho : o ∈ m.objects) :
    b.objectNamed o.name = pure o := by
  have hnames : (m.objects.map (·.name)).Nodup := by
    have hall := (sound_of_ofModel hm).names
    unfold Interface.Model.names Model.definitions at hall
    rw [List.map_append, List.map_map] at hall
    exact (List.nodup_append.1 hall).2.1
  unfold Wrappers.objectNamed
  rw [Wrappers.model_of_ofModel hm]
  cases hfind : m.objects.find? (·.name == o.name) with
  | none => exact absurd (List.find?_eq_none.1 hfind o ho) (by simp)
  | some o' =>
    have hname : o'.name = o.name := by simpa using List.find?_some hfind
    rw [List.inj_on_of_nodup_map hnames (List.mem_of_find?_eq_some hfind) ho hname]

/-! ## Releasing -/

theorem ends_release (symbol : String) (handle : Value) (s : Session) :
    Ends (Action.release symbol handle) s fun _ δ s' =>
      δ = [.released symbol handle] ∧ s'.objects = s.objects := by
  unfold Action.release
  refine Ends.bind (Q := fun _ δ s' => δ = [.released symbol handle] ∧ s'.objects = s.objects)
    (Ends.intro _ (r := .ok ()) rfl (s.next_after _) ⟨rfl, rfl⟩) (fun _ δ s' _ _ hq => ?_) fun _ _ _ _ hq => hq
  refine Ends.bind_steady (a := s') rfl ?_
  split
  · exact Ends.throw ⟨by simp [hq.1], hq.2⟩
  · exact Ends.pure ⟨by simp [hq.1], hq.2⟩

/-! ## The receiver among the arguments -/

/-- The slot of the receiver of a method. -/
def receiverSlot : Slot := ⟨PythonModule.localName receiverName, .receiver, false⟩

/-- The plan of a method begins with its receiver. -/
theorem slots_method (table : Table) (symbol : String) {c : Callable} (hmethod : c.kind = .method) :
    (CallPlan.ofCallable table PythonModule.localName symbol c).slots =
      receiverSlot :: c.params.map (CallPlan.slotOf table PythonModule.localName c.params) := by
  unfold CallPlan.ofCallable
  rw [if_pos hmethod]
  rfl

/-- **In place** the receiver's handle is lowered for its own slot, unless a parameter has its name. -/
theorem inPlaceSlot_receiver {table : Table} {symbol : String} {c : Callable} (hmethod : c.kind = .method)
    (hc : ¬CallPlan.TakesHandleName c)
    (hplace : (CallPlan.ofCallable table PythonModule.localName symbol c).inPlace = true) :
    (CallPlan.ofCallable table PythonModule.localName symbol c).inPlaceSlot receiverSlot = receiverSlot := by
  have hslots := slots_method table symbol hmethod
  obtain ⟨found, hfound, hfind, htarget⟩ := CallPlan.find_target hplace (hslots ▸ List.mem_cons_self)
  rw [CallPlan.inPlaceSlot, hfind]
  rw [hslots] at hfound
  rcases List.mem_cons.1 hfound with rfl | hparam
  · rfl
  · obtain ⟨p, hp, rfl⟩ := List.mem_map.1 hparam
    exact absurd ⟨hmethod, List.mem_map.2 ⟨p, hp, localName_inj htarget⟩⟩ hc

/-! ## What is done with an object -/

/-- A constructor of a class whose name no function has: the class itself, or one that it declares besides. -/
def Constructs (b : Wrappers) (o : Object) (ctor : String) : Prop :=
  o.name ∉ b.schema.functions ∧
    (ctor = "new" ∨ ∃ c ∈ o.constructors, Wrappers.declared? o ctor = some c ∧ c.isPrimary = false)

namespace Wrappers

/-- The member that begins a block which an object guards. -/
def enterMember : String := "__enter__"

/-- The member that ends such a block. -/
def exitMember : String := "__exit__"

end Wrappers

section Members

variable (hm : Wrappers.ofModel m limit = .ok b) (ho : o ∈ m.objects) (hfree : Unobstructed b o)
include hm ho hfree

/-! ## Closing -/

theorem release_eq (handle : Value) :
    b.release ⟨o.name, []⟩ handle = Action.release (releaseName m.ns o.name) handle := by
  have hmodel := Wrappers.model_of_ofModel hm
  have hpublic : isPrivate (releaseName m.ns o.name) = false := by
    refine hfree.symbols _ ?_
    rw [hmodel]
    refine List.mem_append_right _ (List.mem_flatMap.2 ⟨o, ho, ?_⟩)
    exact List.mem_append_right _ (List.mem_singleton_self _)
  have hsymbol : nameInside (some o) (releaseName m.ns o.name) = releaseName m.ns o.name := nameInside_eq hpublic
  unfold Wrappers.release
  rw [hfree.library, hmodel]
  exact congrArg (Action.release · handle) hsymbol

theorem close_eq (hs : Holds s label o handle) : b.close label s = Action.close b.release label s := by
  unfold Wrappers.close
  rw [hs.object.bind_apply, objectNamed_eq hm ho, pure_bind, hfree.undeclared (by decide) (Or.inl (by decide))]

/-- **Closing an object that holds its handle** releases the handle, and the object holds it no longer. -/
theorem close_held {handle : Value} (hs : Holds s label o (some handle)) :
    Ends (b.close label) s fun _ δ s' =>
      δ = [.released (releaseName m.ns o.name) handle] ∧ Holds s' label o none := by
  have hhold : Ends (Action.hold label ⟨⟨o.name, []⟩, none⟩) s fun r δ s' =>
      r = .ok () ∧ δ = [] ∧ Holds s' label o none :=
    Ends.intro _ rfl ⟨(List.append_nil _).symm, rfl, rfl, rfl⟩ ⟨rfl, rfl, lookup_putObject _ _⟩
  refine Ends.of_eq (close_eq hm ho hfree hs) ?_
  refine Ends.bind_steady hs.object (Ends.bind hhold (fun _ δ s' _ _ hq => ?_) fun _ _ _ _ hq => ?_)
  · obtain ⟨-, rfl, hshut⟩ := hq
    dsimp only
    rw [release_eq hm ho hfree]
    refine (ends_release _ handle s').mono fun _ δ s'' _ _ hq => ⟨hq.1, ?_⟩
    unfold Holds
    rw [hq.2]
    exact hshut
  · exact absurd hq.1 (by simp)

/-- Closing an object that is closed changes nothing. -/
theorem close_shut (hs : Holds s label o none) : Steady (b.close label) s () := by
  have hhold : Steady (Action.hold label ⟨⟨o.name, []⟩, none⟩) s () := by
    change (Except.ok (), { s with objects := putObject label ⟨⟨o.name, []⟩, none⟩ s.objects }) = _
    rw [putObject_same hs]
  rw [Steady, close_eq hm ho hfree hs, Action.close, hs.object.bind_apply, hhold.bind_apply]
  rfl

/-! ## Calling members -/

/-- A guarded block begins with the object itself. -/
theorem method_enter (hs : Holds s label o handle) :
    Steady (b.method label Wrappers.enterMember []) s (.object ⟨o.name, []⟩ handle (some label)) := by
  have hundeclared : Wrappers.declared? o Wrappers.enterMember = none :=
    hfree.undeclared (by decide) (Or.inr (by decide))
  rw [Steady, Wrappers.method, hs.object.bind_apply, objectNamed_eq hm ho, pure_bind]
  rw [if_neg (by decide), if_neg (by decide), hundeclared]
  change (Action.valueOf label) s = _
  rw [Action.valueOf, hs.object.bind_apply]
  rfl

/-- A guarded block ends with the object being closed, and no fault is held back. -/
theorem method_exit (hs : Holds s label o handle) :
    b.method label Wrappers.exitMember [.none, .none, .none] s =
      (do b.close label; return .bool false : Action Value) s := by
  have hundeclared : Wrappers.declared? o Wrappers.exitMember = none :=
    hfree.undeclared (by decide) (Or.inr (by decide))
  rw [Wrappers.method, hs.object.bind_apply, objectNamed_eq hm ho, pure_bind]
  rw [if_neg (by decide), if_neg (by decide), hundeclared]
  rfl

/-- A declared method is called on the object. -/
theorem method_declared (hs : Holds s label o handle) {name : String} {c : Callable}
    (hc : Wrappers.declared? o name = some c) (hmethod : c ∈ o.methods) (args : List Value) :
    b.method label name args s =
      (if name = Wrappers.handleAttr then throw (.notCallable ((handle.getD .none).typeName b.schema))
      else b.runCallable (some o) c (some label) args) s := by
  have hrelease : name ≠ Wrappers.releaseMember := by
    rintro rfl
    exact absurd (hc.symm.trans (hfree.undeclared (by decide) (Or.inl (by decide)))) (by simp)
  rw [Wrappers.method, hs.object.bind_apply, objectNamed_eq hm ho, pure_bind]
  by_cases hattr : name = Wrappers.handleAttr
  · rw [if_pos hattr, if_pos hattr]
    rfl
  · rw [if_neg hattr, if_neg hattr, if_neg hrelease, hc]
    dsimp only
    rw [Wrappers.callMember, if_pos (o.areMethods c hmethod)]

/-! ## A closed object -/

theorem receiverHandle_declines (hs : Holds s label o none) : Declines (b.receiverHandle label) s := by
  have hl := Wrappers.lookup_definition hm (object_mem_definitions ho)
  have hvalue : Steady (Action.valueOf label) s (.object ⟨o.name, []⟩ none (some label)) := by
    rw [Steady, Action.valueOf, hs.object.bind_apply]
    rfl
  refine .after hs.object ?_
  rw [hfree.askMember hl]
  exact .after (a := ()) rfl (.after hvalue ⟨_, rfl⟩)

/-- **A closed object refuses its methods** before anything is asked for them: its handle comes first. -/
theorem runCallable_declines {c : Callable} (hmethod : c ∈ o.methods)
    (hs : Holds s label o none) (args : List Value) :
    Declines (b.runCallable (some o) c (some label) args) s := by
  have hkind : c.kind = .method := o.areMethods c hmethod
  let w : Wrapper := .callable (some o) c (some label)
  have hfirst (scope : Scope) : Declines (b.lowerSlot (w.frame b) scope receiverSlot) s :=
    (receiverHandle_declines hm ho hfree hs).map
  have hslots : (w.plan b).slots = receiverSlot :: _ := slots_method _ _ hkind
  have hbind : Declines (b.bindAll (w.frame b) (w.arguments args) (w.plan b)) s := by
    unfold Wrappers.bindAll CallPlan.plain
    rw [hslots, List.filter_cons_of_pos rfl]
    exact .bind (.bind (hfirst _))
  have hpass (hplace : (w.plan b).inPlace = true) :
      Declines (b.passing (w.frame b) (w.arguments args) (w.plan b)) s := by
    have hown : (w.plan b).inPlaceSlot receiverSlot = receiverSlot :=
      inPlaceSlot_receiver hkind (hfree.handles c (List.mem_append_right _ hmethod)) hplace
    unfold Wrappers.passing
    rw [if_pos hplace, hslots, List.mapM_cons, hown]
    exact .bind (hfirst _)
  refine Declines.of_eq (congrFun (w.run_eq args) s) ?_
  unfold Wrappers.run
  cases hcheck : checkArguments w.owner w.source args.length with
  | error e => exact ⟨e, rfl⟩
  | ok u =>
    refine .after (a := u) rfl ?_
    dsimp only
    split
    · next hplace =>
      refine (w.finish_checks b).declines fun _ _ => .bind ?_
      refine (Wrappers.need_checks b _ _).declines fun _ _ => ?_
      exact (Wrappers.need_checks b _ _).declines fun _ _ => .bind (hpass hplace)
    · exact .bind hbind

/-- A declared method is refused by a closed object. -/
theorem method_shut (hs : Holds s label o none) {name : String} {c : Callable}
    (hc : Wrappers.declared? o name = some c) (hmethod : c ∈ o.methods) (args : List Value) :
    Declines (b.method label name args) s := by
  refine .of_eq (method_declared hm ho hfree hs hc hmethod args) ?_
  split
  · exact ⟨_, rfl⟩
  · exact runCallable_declines hm ho hfree hmethod hs args

/-- A declared method leaves the object its handle, and releases nothing. -/
theorem method_held {handle : Value} (hs : Holds s label o (some handle)) {name : String} {c : Callable}
    (hc : Wrappers.declared? o name = some c) (hmethod : c ∈ o.methods) (args : List Value) :
    Ends (b.method label name args) s fun _ δ s' =>
      Holds s' label o (some handle) ∧ ∀ q ∈ δ, q.Ordinary m := by
  have hmodel := Wrappers.model_of_ofModel hm
  have hmem : (some o, c) ∈ b.model.callables :=
    hmodel ▸ Wrappers.member_mem ho (Wrappers.callable?_mem hc)
  refine Ends.of_eq (method_declared hm ho hfree hs hc hmethod args) ?_
  split
  · exact Ends.throw ⟨hs, by simp⟩
  · exact hs.of_tame (hmodel ▸ Wrappers.runCallable_tame (Wrappers.tamed_of_ofModel hm) hmem (some label) args)

/-! ## The end of its life -/

theorem drop_eq (hs : Holds s label o handle) :
    b.drop label s = (do let _ ← Action.attempt (b.close label); Action.forget label : Action Unit) s := by
  have hundeclared : Wrappers.declared? o Wrappers.endMember = none :=
    hfree.undeclared (by decide) (Or.inr (by decide))
  refine hs.drop_apply ?_
  rw [hs.object.bind_apply, objectNamed_eq hm ho, pure_bind, hundeclared]

/-! ## Construction -/

omit hfree in
theorem lookup_class (hname : o.name ∉ b.schema.functions) : b.schema.lookup o.name = some (.object o) := by
  unfold Schema.lookup
  rw [if_neg hname]
  exact Wrappers.lookup_definition hm (object_mem_definitions ho)

omit hfree in
/-- The class of an object makes objects that have their handles. -/
theorem callGlobal_fresh (hname : o.name ∉ b.schema.functions) (args : List Value) :
    Tame b.model (b.callGlobal o.name args) (Wrappers.Fresh o) := by
  have hmodel := Wrappers.model_of_ofModel hm
  have hfunction : callable? none b.model.functions o.name = none := by
    obtain ⟨_, table, -, -, rfl⟩ := Wrappers.ofModel_eq_ok hm
    refine List.find?_eq_none.2 fun c hc hfound => hname ?_
    have hcalled : calledName c = o.name := by simpa [nameInside] using hfound
    exact hcalled ▸ List.mem_map_of_mem (List.mem_reverse.1 hc)
  unfold Wrappers.callGlobal
  rw [hfunction, lookup_class hm ho hname]
  exact Wrappers.callObject_tame (Wrappers.tamed_of_ofModel hm) (hmodel ▸ ho) args

/-- So does a constructor that is called through the class. -/
theorem callThroughClass_fresh {ctor : String} {c : Callable} (hc : Wrappers.declared? o ctor = some c)
    (hconstructor : c ∈ o.constructors) (hprimary : c.isPrimary = false) (args : List Value) :
    Tame b.model (b.callThroughClass o ctor args) (Wrappers.Fresh o) := by
  have hmodel := Wrappers.model_of_ofModel hm
  have hrelease : ctor ≠ Wrappers.releaseMember := by
    rintro rfl
    exact absurd (hc.symm.trans (hfree.undeclared (by decide) (Or.inl (by decide)))) (by simp)
  have hreceiver : PythonModule.receiverParams c ≠ [Wrappers.selfName] := by
    unfold PythonModule.receiverParams
    rw [o.areConstructors c hconstructor, hprimary]
    decide
  unfold Wrappers.callThroughClass
  dsimp only
  by_cases hattr : ctor = Wrappers.handleAttr
  · rw [if_pos hattr]
    exact Tame.throw
  · rw [if_neg hattr, if_neg hrelease, hc]
    dsimp only
    rw [if_neg hreceiver]
    refine Wrappers.runConstructor_tame (Wrappers.tamed_of_ofModel hm) (hmodel ▸ ?_) args
    exact Wrappers.member_mem ho (Wrappers.callable?_mem hc)

/-- **A constructed object holds its handle.** -/
theorem construct_holds {ctor : String} (hctor : Constructs b o ctor) (args : List Value) (label : String)
    (s : Session) : Ends (b.construct o.name ctor label args) s fun r _ s' =>
      ∀ v, r = .ok v → ∃ handle, Holds s' label o (some handle) := by
  have hhold (handle : Value) (s : Session) :
      Ends (do Action.hold label ⟨⟨o.name, []⟩, some handle⟩; Action.valueOf label : Action Value) s
        fun r _ s' => ∀ v, r = .ok v → ∃ handle, Holds s' label o (some handle) := by
    have hheld : Ends (Action.hold label ⟨⟨o.name, []⟩, some handle⟩) s
        fun _ _ s' => Holds s' label o (some handle) :=
      Ends.intro _ (r := .ok ()) rfl ⟨(List.append_nil _).symm, rfl, rfl, rfl⟩ (lookup_putObject _ _)
    refine Ends.bind hheld (fun _ _ s' _ _ hs => ?_) fun _ _ _ _ hs _ _ => ⟨handle, hs⟩
    exact Ends.bind_steady hs.object (Ends.pure fun _ _ => ⟨handle, hs⟩)
  unfold Wrappers.construct
  obtain ⟨hname, hctor⟩ := hctor
  by_cases hnew : ctor = "new"
  · rw [if_pos hnew]
    refine Ends.bind (callGlobal_fresh hm ho hname args s) (fun made δ s' _ _ ⟨_, _, hfresh⟩ => ?_)
      fun _ _ _ _ _ _ h => absurd h (by simp)
    obtain ⟨handle, rfl⟩ := hfresh made rfl
    exact hhold handle s'
  · obtain ⟨c, hconstructor, hc, hprimary⟩ := hctor.resolve_left hnew
    rw [if_neg hnew, lookup_class hm ho hname]
    refine Ends.bind (callThroughClass_fresh hm ho hfree hc hconstructor hprimary args s)
      (fun made δ s' _ _ ⟨_, _, hfresh⟩ => ?_) fun _ _ _ _ _ _ h => absurd h (by simp)
    obtain ⟨handle, rfl⟩ := hfresh made rfl
    exact hhold handle s'

end Members

/-! ## What wrappers call -/

theorem Request.Ordinary.apart {q : Request} (hm : Wrappers.ofModel m limit = .ok b) (ho : o ∈ m.objects)
    (hfree : Unobstructed b o) (hq : q.Ordinary m) : q.Apart (releaseName m.ns o.name) := by
  cases q with
  | copied bytes copy => trivial
  | freed buffer => trivial
  | released symbol handle => exact hq
  | called symbol args hasRecord =>
    obtain ⟨p, hp, rfl⟩ := hq
    have hmodel := Wrappers.model_of_ofModel hm
    have hpublic : isPrivate (symbolName m.ns p.2 p.1) = false :=
      hfree.symbols _ (by rw [hmodel]; exact symbol_mem_symbolNames hp)
    rw [Request.Apart, nameInside_eq hpublic]
    exact symbol_ne_release (sound_of_ofModel hm).symbols hp ho

end Bindgen.Native
