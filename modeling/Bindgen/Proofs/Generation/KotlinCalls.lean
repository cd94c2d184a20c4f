import Bindgen.Proofs.Emit.Blocks
import Bindgen.Proofs.Generation.Acceptance
import Bindgen.Proofs.Identifier.Renaming

/-!
# The calls of Kotlin wrappers

The wrapper of a callable names its parameters in camel case, and its locals after them in Pascal case. Where the
parameters have different names, its call passes every argument in its place unless the locals do not keep out of the
way (`Placed`): two names that differ in camel case may be the same in Pascal case (`x` and `X`, or `x` and `_x`), and
a parameter may be called like the local of another one (`lowered_x`). Names that begin with a small letter, and not
like a local, do neither (`PlainName`).

Results:
* `placed_of_plain`: plain names are enough.
* **`kotlin_arguments_placed`**: the calls of an accepted model.
-/

namespace Bindgen.Emit.KotlinSource

open Interface Resolve Identifier Text CallPlan

variable {s : Surface} {symbol : String} {c : Callable}

/-! ## What belongs in the places of a call -/

/-- What belongs in the first place of a method's call: the handle of the receiver. -/
def receiverMeaning (c : Callable) : List Meaning :=
  if c.kind = .method then [.handle] else []

/-- **What belongs in the place of a parameter**: its argument, lowered by its own type or copied for a consumed
buffer. -/
def argumentMeaning (table : Table) (p : Param) : Meaning :=
  if p.consumed && (table.conversionOf p.type).usesBuffer then .copied p.type (.given (memberName p.name))
  else .lowered p.type (.given (memberName p.name))

/-- Different names in Kotlin are different names. -/
theorem names_nodup (hnames : (c.params.map fun p => memberName p.name).Nodup) : (c.params.map (·.name)).Nodup :=
  List.Nodup.of_map memberName (by rw [List.map_map]; exact hnames)

theorem slots_planOf (hnames : (c.params.map fun p => memberName p.name).Nodup) : (planOf s symbol c).slots =
    receiverSlots localName c ++ c.params.map (paramSlot s.table localName) :=
  ofCallable_slots (names_nodup hnames) symbol

theorem own_slots (hnames : (c.params.map fun p => memberName p.name).Nodup) :
    (planOf s symbol c).slots.map scoping.own = receiverMeaning c ++ c.params.map (argumentMeaning s.table) := by
  rw [slots_planOf hnames, List.map_append, List.map_map]
  refine congrArg₂ _ ?_ rfl
  unfold receiverSlots receiverMeaning
  split <;> rfl

/-- Every slot is that of the receiver or of a parameter. -/
theorem slot_cases (hnames : (c.params.map fun p => memberName p.name).Nodup) {slot : Slot}
    (h : slot ∈ (planOf s symbol c).slots) :
    (c.kind = .method ∧ slot = ⟨localName receiverName, .receiver, false⟩) ∨
      ∃ p ∈ c.params, slot = paramSlot s.table localName p := by
  obtain hreceiver | ⟨p, hp, rfl⟩ := mem_slots h
  · exact .inl hreceiver
  · refine .inr ⟨p, hp, ?_⟩
    rw [slotOf, paramNamed_eq (names_nodup hnames) hp]
    rfl

/-- The parameter whose argument is lowered or copied. -/
def Meaning.source? : Meaning → Option String
  | .lowered _ (.given x) | .copied _ (.given x) => some x
  | _ => none

theorem source?_argumentMeaning (table : Table) (p : Param) :
    (argumentMeaning table p).source? = some (memberName p.name) := by
  unfold argumentMeaning
  split <;> rfl

/-- What belongs in different slots is different. -/
theorem own_inj (hnames : (c.params.map fun p => memberName p.name).Nodup) {slot other : Slot}
    (hslot : slot ∈ (planOf s symbol c).slots) (hother : other ∈ (planOf s symbol c).slots)
    (h : scoping.own slot = scoping.own other) : slot = other := by
  have hsource := congrArg Meaning.source? h
  have hparam (p : Param) : (scoping.own (paramSlot s.table localName p)).source? = some (memberName p.name) :=
    source?_argumentMeaning s.table p
  obtain ⟨-, rfl⟩ | ⟨p, hp, rfl⟩ := slot_cases hnames hslot
  · obtain ⟨-, rfl⟩ | ⟨q, hq, rfl⟩ := slot_cases hnames hother
    · rfl
    · exact absurd (hsource.trans (hparam q)) (by simp [scoping, Scoping.own, Meaning.source?])
  · obtain ⟨-, rfl⟩ | ⟨q, hq, rfl⟩ := slot_cases hnames hother
    · exact absurd (hsource.symm.trans (hparam p)) (by simp [scoping, Scoping.own, Meaning.source?])
    · rw [hparam p, hparam q] at hsource
      rw [List.inj_on_of_nodup_map hnames hp hq (Option.some.inj hsource)]

/-- The slots of a callable are lowered from its parameters. -/
theorem known_slots {slot : Slot} (hslot : slot ∈ (planOf s symbol c).slots) :
    Known (c.params.map fun p => memberName p.name) slot := by
  intro p horigin
  obtain ⟨-, rfl⟩ | ⟨q, hq, rfl⟩ := mem_slots hslot
  · exact absurd horigin (by simp)
  · obtain rfl := Origin.param.inj horigin
    exact List.mem_map_of_mem (paramNamed_found hq).1

theorem toList_localName (name : String) :
    (localName name).toList = "lowered".toList ++ (pascal name).toList := by
  rw [localName, String.toList_append]

theorem listName_not_target : listName ∉ (planOf s symbol c).slots.map (·.target) := by
  have hne (name : String) : localName name ≠ listName := fun h => by
    have hchars := congrArg (fun x => x.toList.head?) h
    rw [toList_localName] at hchars
    exact absurd hchars (by simp [listName])
  rintro hmem
  obtain ⟨slot, hslot, heq⟩ := List.mem_map.1 hmem
  obtain ⟨-, rfl⟩ | ⟨q, hq, rfl⟩ := mem_slots hslot
  · exact hne _ heq
  · exact hne _ heq

/-- **The call of a callable** passes every argument in its place, just where its plan is placed. -/
theorem passes_planOf_iff (hnames : (c.params.map fun p => memberName p.name).Nodup) :
    (blockOf (planOf s symbol c)).passes (c.params.map fun p => memberName p.name) =
        .ok (receiverMeaning c ++ c.params.map (argumentMeaning s.table)) ↔ Placed (planOf s symbol c) := by
  have hown : (planOf s symbol c).slots.map scoping.own = _ := own_slots hnames
  rw [← hown]
  exact passes_iff (fun slot hslot => known_slots hslot) (slots_nodup (names_nodup hnames) symbol)
    (fun slot hslot other hother => own_inj hnames hslot hother) listName_not_target

/-! ## Plain names -/

/-- How the locals of a wrapper begin. -/
def localStart : List Char := "lowered".toList

/-- **A plain name**: it begins with a small letter, and in camel case not like a local. -/
def PlainName (name : String) : Prop :=
  name.toList.head?.any Char.isLower = true ∧ localStart.isPrefixOf (memberName name).toList = false

instance (name : String) : Decidable (PlainName name) := inferInstanceAs (Decidable (_ ∧ _))

theorem toUpper_inj {x y : Char} (hx : x.isLower) (hy : y.isLower) (h : x.toUpper = y.toUpper) : x = y := by
  have hback := congrArg Char.toLower h
  rwa [(small_facts (isSmallOrDigit_of_isLower hx)).2.2, (small_facts (isSmallOrDigit_of_isLower hy)).2.2] at hback

/-- In camel case a plain name begins as it is, and in Pascal case with a capital; the rest is the same. -/
theorem camel_pascal {name : String} (h : name.toList.head?.any Char.isLower = true) :
    ∃ ch rest, ch.isLower = true ∧ camel name = String.ofList (ch :: rest) ∧
      pascal name = String.ofList (ch.toUpper :: rest) := by
  cases hname : name.toList with
  | nil => exact absurd h (by simp [hname])
  | cons ch cs =>
    rw [hname] at h
    have hlower : ch.isLower = true := by simpa using h
    have hsmall := isSmallOrDigit_of_isLower hlower
    have hline := (small_facts hsmall).1
    refine ⟨ch, camelChars cs, hlower, ?_, ?_⟩
    · rw [camel_eq, hname, camelChars_cons hline]
    · rw [pascal_eq, hname, camelChars_capitalize, capitalize, camelChars_append (not_mem_upperChar hline),
        upperChar_small hsmall]
      rfl

/-- Names that begin with small letters and are the same in Pascal case are the same in Kotlin. -/
theorem memberName_of_pascal {x y : String} (hx : x.toList.head?.any Char.isLower = true)
    (hy : y.toList.head?.any Char.isLower = true) (h : pascal x = pascal y) : memberName x = memberName y := by
  obtain ⟨ch, rest, hch, hcamel, hpascal⟩ := camel_pascal hx
  obtain ⟨ch', rest', hch', hcamel', hpascal'⟩ := camel_pascal hy
  rw [hpascal, hpascal'] at h
  obtain ⟨hfirst, rfl⟩ := List.cons.inj (String.ofList_injective h)
  rw [memberName, memberName, hcamel, hcamel', toUpper_inj hch hch' hfirst]

theorem pascal_of_localName {x y : String} (h : localName x = localName y) : pascal x = pascal y := by
  have hchars := congrArg String.toList h
  rw [toList_localName, toList_localName] at hchars
  exact String.toList_inj.1 (List.append_cancel_left hchars)

/-- **Plain names are placed**, if no parameter of a method is called like the handle of its receiver. -/
theorem placed_of_plain (hnames : (c.params.map fun p => memberName p.name).Nodup)
    (hplain : ∀ p ∈ c.params, PlainName p.name)
    (hhandle : c.kind = .method → receiverName ∉ c.params.map fun p => memberName p.name) :
    Placed (planOf s symbol c) := by
  have htargets : ((planOf s symbol c).slots.map (·.target)).Nodup := by
    refine targets_nodup id (names_nodup hnames) symbol (fun p hp q hq h => ?_) fun hmethod p hp h => ?_
    · have hsame := memberName_of_pascal (hplain p hp).1 (hplain q hq).1 (pascal_of_localName h)
      rw [List.inj_on_of_nodup_map hnames hp hq hsame]
    · have hsame := memberName_of_pascal (hplain p hp).1 (y := receiverName) (by decide) (pascal_of_localName h)
      exact hhandle hmethod (List.mem_map.2 ⟨p, hp, hsame.trans (by decide)⟩)
  refine ⟨htargets, fun _ => htargets, fun _ => Scoping.spares_of_ne fun slot hslot later hlater p horigin heq => ?_⟩
  have hlocal : ∃ name, slot.target = localName name := by
    obtain ⟨-, rfl⟩ | ⟨q, -, rfl⟩ := slot_cases hnames hslot
    · exact ⟨receiverName, rfl⟩
    · exact ⟨q.name, rfl⟩
  have hp : p ∈ c.params := by
    obtain ⟨-, rfl⟩ | ⟨q, hq, rfl⟩ := slot_cases hnames hlater
    · exact absurd horigin (by simp)
    · exact Origin.param.inj horigin ▸ hq
  obtain ⟨name, hname⟩ := hlocal
  have hsame : memberName p.name = localName name := heq.symm.trans hname
  have hbegins : localStart.isPrefixOf (memberName p.name).toList = true := by
    rw [hsame, toList_localName]
    exact List.isPrefixOf_iff_prefix.2 (List.prefix_append _ _)
  exact absurd ((hplain p hp).2.symm.trans hbegins) (by simp)

end Bindgen.Emit.KotlinSource

namespace Bindgen

open Interface Boundary Emit KotlinSource

/-- **Every argument in its place in Kotlin**, or which is not. The call of an accepted model's callable is the text of
a block, which is read by the rules of Kotlin. If the parameters have different names in Kotlin, it passes the
receiver's handle and then the argument for each parameter, lowered by its own type, in the places of the value
arguments that are derived for the callable; unless the locals, in which the arguments are kept or under which they
are looked up, are not different from each other and from the parameters that are lowered after them. For plain names
they are. -/
theorem kotlin_arguments_placed (g : Generation) {symbols : List Signature}
    (h : Generation.fresh Generation.derive g = .ok symbols) {sig : Signature} (hsig : sig ∈ symbols)
    {c : Callable} (hc : sig.source = some c) (hnames : (c.params.map fun p => memberName p.name).Nodup) :
    let s := g.surface
    let plan := planOf s sig.name c
    let names := c.params.map fun p => memberName p.name
    callExpr s plan = (blockOf plan).code s.table (libraryInterface s.ns) plan ∧
      sig.valueArguments = receiverArgument c ++ c.params.map (argumentOf s.table) ∧
      ((blockOf plan).passes names = .ok (receiverMeaning c ++ c.params.map (argumentMeaning s.table)) ↔
        Placed plan) ∧
      ((∀ p ∈ c.params, PlainName p.name) → (c.kind = .method → receiverName ∉ names) → Placed plan) := by
  rw [fresh_derive] at h
  obtain ⟨-, rfl, -⟩ := derived_eq_ok h
  obtain ⟨owner, rfl⟩ := eq_signatureOf hsig hc
  exact ⟨callExpr_eq _ _, valueArguments_signatureOf owner c, passes_planOf_iff hnames, placed_of_plain hnames⟩

/-- A function with two parameters that are the same in Pascal case. -/
def twins : Callable := ⟨.function, "f", [⟨"x", .prim .u8, false⟩, ⟨"X", .prim .u16, false⟩], none, none⟩

/-- A model with that function. -/
def twinsModel : Model := ⟨"n", [], [], [], [], [twins], Eq.refl true⟩

/-- The first of the two is not passed in its place. -/
theorem kotlin_arguments_placed_twins : ∃ g symbols sig,
    Generation.fresh Generation.derive g = .ok symbols ∧ sig ∈ symbols ∧ sig.source = some twins ∧
      (twins.params.map fun p => memberName p.name) = ["x", "X"] ∧
      (blockOf (planOf g.surface sig.name twins)).passes ["x", "X"] ≠
        .ok [.lowered (.prim .u8) (.given "x"), .lowered (.prim .u16) (.given "X")] := by
  have hpasses : twinsModel.Passes := passes_of_isOk (by decide +kernel)
  let g := Generation.ofModel twinsModel .default .full
  let sig := signatureOf twinsModel none twins
  have h : Generation.fresh Generation.derive g = .ok twinsModel.symbols :=
    (fresh_derive g).trans (derived_of_nodup hpasses (by decide))
  have hsig : sig ∈ twinsModel.symbols := List.mem_of_getElem? (i := 3) rfl
  refine ⟨g, _, sig, h, hsig, rfl, by decide, fun hpassed => ?_⟩
  have hplaced := (kotlin_arguments_placed g h hsig rfl (by decide)).2.2.1.1 hpassed
  exact absurd hplaced.targets (by decide)

end Bindgen
