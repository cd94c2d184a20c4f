import Bindgen.Boundary.Layout
import Bindgen.Proofs.Lists
import Mathlib

/-!
# Natural alignment of boundary structs

The layout of a struct goes from field to field: each at the least multiple of its alignment where the one before
it has ended. `LaidOut` says this of a list of fields and a list of offsets, and the rest is read off it: that
fields lie apart (`LaidOut.apart`) and where each is aligned (`LaidOut.aligned`). `LiesAt` goes on into the structs
inside a struct.

Results:
* `alignUp_isLeast`, `maxAlignment_isGreatest`: what the two computations of a layout give.
* `FieldKind.extent_pos`, `FieldKind.alignment_pow`: by `FieldKind.ofParts`, an induction over what a field holds.
* `LiesAt.dvd`: where alignments are powers of two, whatever lies in an aligned struct is aligned.
* `layout_natural`: the layout of every struct, and of arrays of it.
-/

namespace Bindgen.Boundary

/-- The extent of what a field holds. -/
def StructField.extent (word : Int) (f : StructField) : Extent :=
  f.kind.extent word

/-- The multiples of an alignment that are not below an offset. -/
def spotsFrom (start alignment : Int) : Set Int :=
  {x | alignment ∣ x ∧ start ≤ x}

/-- Fields in memory from `start` to `stop`, each at **the least multiple of its alignment that is not below the
end of the previous one**. -/
inductive LaidOut (word : Int) : Int → List StructField → List (String × Int) → Int → Prop where
  | nil (start : Int) : LaidOut word start [] [] start
  | cons {start stop x : Int} {f : StructField} {fields : List StructField} {offsets : List (String × Int)}
      (hx : IsLeast (spotsFrom start (f.extent word).alignment) x)
      (rest : LaidOut word (x + (f.extent word).size) fields offsets stop) :
      LaidOut word start (f :: fields) ((f.name, x) :: offsets) stop

/-- What lies at an offset of a struct: its fields, and those of the structs inside it. -/
inductive LiesAt (word : Int) : List StructField → Int → FieldKind → Prop where
  | field {fields : List StructField} {f : StructField} {x : Int} (hf : f ∈ fields)
      (hx : (fieldOffsets word fields).lookup f.name = some x) : LiesAt word fields x f.kind
  | inside {fields : List StructField} {f : StructField} {n : StructName} {x y : Int} {kind : FieldKind}
      (hf : f ∈ fields) (hx : (fieldOffsets word fields).lookup f.name = some x) (hkind : f.kind = .struct n)
      (hin : LiesAt word n.fields y kind) : LiesAt word fields (x + y) kind

/-- A layout as natural alignment has it. -/
structure Layout.Natural (word : Int) (fields : List StructField) (l : Layout) : Prop where
  /-- The largest alignment of a field is the alignment of the struct. -/
  alignment : IsGreatest {a | ∃ f ∈ fields, (f.extent word).alignment = a} l.alignment
  /-- The fields lie one after the other, and the struct is padded to its alignment. -/
  places : ∃ stop, LaidOut word 0 fields l.offsets stop ∧ IsLeast (spotsFrom stop l.alignment) l.size
  /-- No two fields share a byte. -/
  apart : ∀ f ∈ fields, ∀ g ∈ fields, f ≠ g → ∀ x y, l.offsets.lookup f.name = some x →
    l.offsets.lookup g.name = some y →
    Disjoint (Set.Ico x (x + (f.extent word).size)) (Set.Ico y (y + (g.extent word).size))

/-! ## Rounding up, and the largest alignment -/

/-- **Rounding up is the least multiple that is not below.** -/
theorem alignUp_isLeast {alignment : Int} (h : 0 < alignment) (start : Int) :
    IsLeast (spotsFrom start alignment) (alignUp start alignment) := by
  have hdiv : alignUp start alignment = (start + alignment - 1) / alignment * alignment := by
    rw [alignUp, Int.fdiv_eq_ediv_of_nonneg _ h.le]
  rw [hdiv]
  refine ⟨⟨dvd_mul_left _ _, ?_⟩, ?_⟩
  · have hsum := Int.ediv_mul_add_emod (start + alignment - 1) alignment
    have hlt := Int.emod_lt_of_pos (start + alignment - 1) h
    omega
  · rintro y ⟨⟨c, rfl⟩, hle⟩
    -- the quotient is below `c + 1`, as the number divided is below `(c + 1) * alignment`
    have hlt : (start + alignment - 1) / alignment < c + 1 := by
      refine Int.ediv_lt_of_lt_mul h ?_
      rw [add_mul, one_mul, mul_comm c]
      omega
    rw [mul_comm alignment]
    exact mul_le_mul_of_nonneg_right (Int.lt_add_one_iff.mp hlt) h.le

theorem foldl_max_isGreatest (a : Int) (es : List Extent) :
    IsGreatest {b | b = a ∨ ∃ e ∈ es, e.alignment = b} (es.foldl (fun a e => max a e.alignment) a) := by
  induction es generalizing a with
  | nil => exact ⟨.inl rfl, by rintro b (rfl | ⟨_, hmem, -⟩) <;> simp_all⟩
  | cons e es ih =>
    obtain ⟨hmem, hup⟩ := ih (max a e.alignment)
    have hmax := hup (.inl rfl)
    refine ⟨?_, ?_⟩
    · rcases hmem with hmem | ⟨e', he', hmem⟩
      · rw [List.foldl_cons, hmem]
        rcases max_choice a e.alignment with h | h
        · exact .inl h
        · exact .inr ⟨e, List.mem_cons_self, h.symm⟩
      · exact .inr ⟨e', List.mem_cons_of_mem _ he', hmem⟩
    · rintro b (rfl | ⟨e', he', rfl⟩)
      · exact (le_max_left _ _).trans hmax
      · rcases List.mem_cons.mp he' with rfl | he'
        · exact (le_max_right _ _).trans hmax
        · exact hup (.inr ⟨e', he', rfl⟩)

theorem maxAlignment_isGreatest {es : List Extent} (h : es ≠ []) :
    IsGreatest {a | ∃ e ∈ es, e.alignment = a} (maxAlignment es) := by
  obtain ⟨e, es, rfl⟩ := List.exists_cons_of_ne_nil h
  have hset : {a | ∃ e' ∈ e :: es, e'.alignment = a} = {b | b = e.alignment ∨ ∃ e' ∈ es, e'.alignment = b} := by
    ext b
    simp [eq_comm]
  rw [hset]
  exact foldl_max_isGreatest e.alignment es

variable {word : Int} {fields : List StructField}

theorem structAlignment_isGreatest (word : Int) (h : fields ≠ []) :
    IsGreatest {a | ∃ f ∈ fields, (f.extent word).alignment = a} (structAlignment word fields) := by
  have hset : {a | ∃ f ∈ fields, (f.extent word).alignment = a} =
      {a | ∃ e ∈ fields.map (·.kind.extent word), e.alignment = a} := by
    ext a
    simp [StructField.extent]
  rw [hset]
  exact maxAlignment_isGreatest (by simpa using h)

/-! ## Offsets -/

theorem assign_fresh {name : String} {acc : List (String × Int)} (h : name ∉ acc.map (·.1)) (x : Int) :
    fieldOffsets.assign name x acc = acc ++ [(name, x)] := by
  induction acc with
  | nil => rfl
  | cons p acc ih =>
    obtain ⟨hne, h⟩ : name ≠ p.1 ∧ name ∉ acc.map (·.1) := by simpa using h
    rw [fieldOffsets.assign, if_neg hne.symm, ih h]
    rfl

theorem foldl_assign {l acc : List (String × Int)} (h : ((acc ++ l).map (·.1)).Nodup) :
    l.foldl (fun acc (name, x) => fieldOffsets.assign name x acc) acc = acc ++ l := by
  induction l generalizing acc with
  | nil => exact (List.append_nil acc).symm
  | cons p l ih =>
    obtain ⟨name, x⟩ := p
    have hfresh : name ∉ acc.map (·.1) := by
      rw [List.map_append, List.map_cons] at h
      exact fun hmem => (List.disjoint_of_nodup_append h) hmem List.mem_cons_self
    have hrest : (((acc ++ [(name, x)]) ++ l).map (·.1)).Nodup := by rwa [List.append_assoc]
    show l.foldl _ (fieldOffsets.assign name x acc) = _
    rw [assign_fresh hfresh, ih hrest, List.append_assoc]
    rfl

/-- Where names differ, the offsets are those of the placing, each under its name. -/
theorem fieldOffsets_eq (word : Int) (h : (fields.map (·.name)).Nodup) :
    fieldOffsets word fields =
      (fields.map (·.name)).zip (placeFrom 0 (fields.map (·.kind.extent word))).1 :=
  foldl_assign (zip_keys_nodup h _)

/-! ## What a field holds -/

/-- What holds of scalars, and of a struct once it holds of what its fields hold, holds of everything: structs are
not inside themselves. -/
theorem FieldKind.ofParts {P : FieldKind → Prop} (hscalar : ∀ s, P (.scalar s))
    (hstruct : ∀ n : StructName, (∀ f ∈ n.fields, P f.kind) → P (.struct n)) (kind : FieldKind) : P kind := by
  have hbuffer : P (.struct .bufferRecord) :=
    hstruct .bufferRecord (by simp [StructName.fields, bufferRecordFields, hscalar])
  cases kind with
  | scalar s => exact hscalar s
  | struct n =>
    cases n with
    | bufferRecord => exact hbuffer
    | byteView => exact hstruct .byteView (by simp [StructName.fields, byteViewFields, hscalar])
    | errorRecord => exact hstruct .errorRecord (by simp [StructName.fields, errorRecordFields, hscalar, hbuffer])

theorem StructName.fields_ne_nil (n : StructName) : n.fields ≠ [] := by
  cases n <;> exact List.cons_ne_nil _ _

theorem StructName.fields_nodup (n : StructName) : (n.fields.map (·.name)).Nodup := by
  cases n <;> decide

/-- The extent of a struct is the size and the alignment of its own layout. -/
theorem FieldKind.extent_struct_eq (n : StructName) :
    FieldKind.extent word (.struct n) = ⟨structSize word n.fields, structAlignment word n.fields⟩ :=
  FieldKind.extent_struct word n

theorem FieldKind.ofText_text (kind : FieldKind) : FieldKind.ofText? kind.text = some kind := by
  cases kind with
  | scalar s => cases s <;> rfl
  | struct n => cases n <;> rfl

/-- The end of fields that are not empty is behind their start. -/
theorem placeFrom_end {es : List Extent} (h : ∀ e ∈ es, 0 < e.size ∧ 0 < e.alignment) (start : Int) :
    start ≤ (placeFrom start es).2 ∧ (es ≠ [] → start < (placeFrom start es).2) := by
  induction es generalizing start with
  | nil => exact ⟨le_rfl, fun hne => absurd rfl hne⟩
  | cons e es ih =>
    obtain ⟨⟨hsize, halign⟩, hrest⟩ := List.forall_mem_cons.mp h
    have hspot := (alignUp_isLeast halign start).1.2
    have hend := (ih hrest (alignUp start e.alignment + e.size)).1
    have hlt : start < (placeFrom start (e :: es)).2 := by
      rw [placeFrom]
      show start < (placeFrom (alignUp start e.alignment + e.size) es).2
      omega
    exact ⟨hlt.le, fun _ => hlt⟩

/-- **Whatever a field holds takes up room.** -/
theorem FieldKind.extent_pos (hword : 0 < word) (kind : FieldKind) :
    0 < (kind.extent word).size ∧ 0 < (kind.extent word).alignment := by
  induction kind using FieldKind.ofParts with
  | hscalar s => cases s <;> simp [Scalar.extent, Scalar.size, hword]
  | hstruct n ih =>
    have hpos : ∀ e ∈ n.fields.map (·.kind.extent word), 0 < e.size ∧ 0 < e.alignment := by simpa using ih
    have hne : n.fields.map (·.kind.extent word) ≠ [] := by simpa using n.fields_ne_nil
    obtain ⟨e, he, hmax⟩ := (maxAlignment_isGreatest hne).1
    have halign : 0 < maxAlignment (n.fields.map (·.kind.extent word)) := hmax ▸ (hpos e he).2
    rw [FieldKind.extent_struct]
    refine ⟨?_, halign⟩
    exact ((placeFrom_end hpos 0).2 hne).trans_le (alignUp_isLeast halign _).1.2

/-- **Alignments are powers of two where that of a pointer is.** -/
theorem FieldKind.alignment_pow {k : ℕ} (hword : word = 2 ^ k) (kind : FieldKind) :
    ∃ j : ℕ, (kind.extent word).alignment = 2 ^ j := by
  induction kind using FieldKind.ofParts with
  | hscalar s =>
    cases s with
    | i8 => exact ⟨0, rfl⟩
    | i16 => exact ⟨1, rfl⟩
    | i32 => exact ⟨2, rfl⟩
    | i64 => exact ⟨3, rfl⟩
    | ptr => exact ⟨k, hword⟩
  | hstruct n ih =>
    obtain ⟨f, hf, hmax⟩ := (structAlignment_isGreatest word n.fields_ne_nil).1
    obtain ⟨j, hj⟩ := ih f hf
    exact ⟨j, by rw [FieldKind.extent_struct_eq, ← hmax]; exact hj⟩

/-- A power of two divides those that are not below it. -/
theorem dvd_of_pow_le {a b : Int} (ha : ∃ j : ℕ, a = 2 ^ j) (hb : ∃ k : ℕ, b = 2 ^ k) (h : a ≤ b) : a ∣ b := by
  obtain ⟨j, rfl⟩ := ha
  obtain ⟨k, rfl⟩ := hb
  exact pow_dvd_pow 2 ((pow_le_pow_iff_right₀ (by decide)).mp h)

/-- The alignment of a field divides that of the struct. -/
theorem field_dvd_struct {k : ℕ} (hword : word = 2 ^ k) {f : StructField} (hf : f ∈ fields) :
    (f.extent word).alignment ∣ structAlignment word fields := by
  have hmax := structAlignment_isGreatest word (List.ne_nil_of_mem hf)
  obtain ⟨g, -, hg⟩ := hmax.1
  exact dvd_of_pow_le (f.kind.alignment_pow hword) (hg ▸ g.kind.alignment_pow hword) (hmax.2 ⟨f, hf, rfl⟩)

/-! ## Fields one after the other -/

theorem laidOut_placeFrom (hword : 0 < word) (start : Int) (fields : List StructField) :
    LaidOut word start fields
      ((fields.map (·.name)).zip (placeFrom start (fields.map (·.kind.extent word))).1)
      (placeFrom start (fields.map (·.kind.extent word))).2 := by
  induction fields generalizing start with
  | nil => exact .nil start
  | cons f fields ih => exact .cons (alignUp_isLeast (f.kind.extent_pos hword).2 start) (ih _)

variable {start stop : Int} {offsets : List (String × Int)}

/-- A field is where its alignment allows, and not before the start. -/
theorem LaidOut.aligned (h : LaidOut word start fields offsets stop) (hnames : (fields.map (·.name)).Nodup)
    (hword : 0 < word) {f : StructField} (hf : f ∈ fields) {x : Int} (hx : offsets.lookup f.name = some x) :
    start ≤ x ∧ (f.extent word).alignment ∣ x := by
  induction h with
  | nil => exact absurd hf List.not_mem_nil
  | @cons start _ x₀ f₀ fields offsets hx₀ _ ih =>
    rw [List.map_cons, List.nodup_cons] at hnames
    rw [lookup_cons_eq] at hx
    rcases List.mem_cons.mp hf with rfl | hf
    · rw [if_pos rfl] at hx
      obtain rfl := Option.some.inj hx
      exact ⟨hx₀.1.2, hx₀.1.1⟩
    · have hne : f.name ≠ f₀.name := fun he => hnames.1 (he ▸ List.mem_map_of_mem hf)
      rw [if_neg hne] at hx
      obtain ⟨hle, hdvd⟩ := ih hnames.2 hf hx
      have hstart := hx₀.1.2
      have hsize := (f₀.kind.extent_pos hword).1
      exact ⟨by simp only [StructField.extent] at hle; omega, hdvd⟩

/-- **Fields lie apart.** -/
theorem LaidOut.apart (h : LaidOut word start fields offsets stop) (hnames : (fields.map (·.name)).Nodup)
    (hword : 0 < word) {f g : StructField} (hf : f ∈ fields) (hg : g ∈ fields) (hne : f ≠ g) {x y : Int}
    (hx : offsets.lookup f.name = some x) (hy : offsets.lookup g.name = some y) :
    Disjoint (Set.Ico x (x + (f.extent word).size)) (Set.Ico y (y + (g.extent word).size)) := by
  induction h with
  | nil => exact absurd hf List.not_mem_nil
  | @cons start _ x₀ f₀ fields offsets hx₀ hrest ih =>
    rw [List.map_cons, List.nodup_cons] at hnames
    -- whatever comes after the first field begins where that one has ended
    have hafter : ∀ g ∈ fields, ∀ y, ((f₀.name, x₀) :: offsets).lookup g.name = some y →
        offsets.lookup g.name = some y ∧
          Disjoint (Set.Ico x₀ (x₀ + (f₀.extent word).size)) (Set.Ico y (y + (g.extent word).size)) := by
      intro g hg y hy
      have hne : g.name ≠ f₀.name := fun he => hnames.1 (he ▸ List.mem_map_of_mem hg)
      rw [lookup_cons_eq, if_neg hne] at hy
      have hle := (hrest.aligned hnames.2 hword hg hy).1
      exact ⟨hy, Set.disjoint_left.mpr fun a ha hb => absurd (ha.2.trans_le hle) (not_lt.mpr hb.1)⟩
    have hfirst : ∀ x, ((f₀.name, x₀) :: offsets).lookup f₀.name = some x → x = x₀ := fun x hx => by
      rw [lookup_cons_eq, if_pos rfl] at hx
      exact (Option.some.inj hx).symm
    rcases List.mem_cons.mp hf with rfl | hf' <;> rcases List.mem_cons.mp hg with rfl | hg'
    · exact absurd rfl hne
    · exact hfirst x hx ▸ (hafter g hg' y hy).2
    · exact hfirst y hy ▸ (hafter f hf' x hx).2.symm
    · exact ih hnames.2 hf' hg' (hafter f hf' x hx).1 (hafter g hg' y hy).1

/-! ## Layouts -/

theorem laidOut_fieldOffsets (hword : 0 < word) (hnames : (fields.map (·.name)).Nodup) :
    LaidOut word 0 fields (fieldOffsets word fields) (placeFrom 0 (fields.map (·.kind.extent word))).2 :=
  fieldOffsets_eq word hnames ▸ laidOut_placeFrom hword 0 fields

theorem structSize_isLeast (hword : 0 < word) (hne : fields ≠ []) :
    IsLeast (spotsFrom (placeFrom 0 (fields.map (·.kind.extent word))).2 (structAlignment word fields))
      (structSize word fields) := by
  obtain ⟨f, -, hmax⟩ := (structAlignment_isGreatest word hne).1
  exact alignUp_isLeast (hmax ▸ (f.kind.extent_pos hword).2) _

/-- **In an aligned struct everything is aligned**, as deep as structs are nested. -/
theorem LiesAt.dvd {k : ℕ} (hword : word = 2 ^ k) {x : Int} {kind : FieldKind} (h : LiesAt word fields x kind)
    (hnames : (fields.map (·.name)).Nodup) {base : Int} (hbase : structAlignment word fields ∣ base) :
    (kind.extent word).alignment ∣ base + x := by
  have hpos : 0 < word := hword ▸ pow_pos (by decide) k
  induction h generalizing base with
  | field hf hx =>
    have hspot := ((laidOut_fieldOffsets hpos hnames).aligned hnames hpos hf hx).2
    exact dvd_add ((field_dvd_struct hword hf).trans hbase) hspot
  | @inside fields f n x y kind hf hx hkind _ ih =>
    have hspot := ((laidOut_fieldOffsets hpos hnames).aligned hnames hpos hf hx).2
    have hinner : (f.extent word).alignment ∣ base + x :=
      dvd_add ((field_dvd_struct hword hf).trans hbase) hspot
    rw [StructField.extent, hkind, FieldKind.extent_struct_eq] at hinner
    rw [← add_assoc]
    exact ih n.fields_nodup hinner

/-- The words for the kinds of fields are read back. -/
theorem mapM_ofText_text (fields : List StructField) : (fields.map fun f => (f.name, f.kind.text)).mapM
    (fun (name, kind) => return StructField.mk name (← FieldKind.ofText? kind)) = some fields := by
  induction fields with
  | nil => rfl
  | cons f fields ih =>
    rw [List.map_cons, List.mapM_cons, ih]
    simp [FieldKind.ofText_text]

theorem ofWords_eq (hword : 0 < word) (hne : fields ≠ []) :
    Layout.ofWords? word (fields.map fun f => (f.name, f.kind.text)) =
      some ⟨fieldOffsets word fields, structSize word fields, structAlignment word fields⟩ := by
  have hempty : fields.isEmpty = false := by simpa using hne
  have hzero : (word == 0) = false := by simpa using hword.ne'
  rw [Layout.ofWords?, mapM_ofText_text, Option.bind_eq_bind, Option.bind_some, Layout.ofFields?, hempty, hzero]
  rfl

/-- **Structs are laid out as in C.** Fields with different names have a layout: each at the least multiple of its
alignment not below the end of the previous one, no two of them on one byte, the struct as aligned as the most
aligned field and padded to that. Where pointers take a power of two, in an array of such structs on an aligned
base everything inside any element is aligned. -/
theorem layout_natural (hword : 0 < word) (hne : fields ≠ []) (hnames : (fields.map (·.name)).Nodup) :
    ∃ l, Layout.ofWords? word (fields.map fun f => (f.name, f.kind.text)) = some l ∧ l.Natural word fields ∧
      ((∃ k : ℕ, word = 2 ^ k) → ∀ base, l.alignment ∣ base → ∀ (i : ℕ) x kind, LiesAt word fields x kind →
        (kind.extent word).alignment ∣ base + i * l.size + x) := by
  have hlaid := laidOut_fieldOffsets hword hnames
  have hsize := structSize_isLeast hword hne
  refine ⟨_, ofWords_eq hword hne, ⟨structAlignment_isGreatest word hne, ⟨_, hlaid, hsize⟩, ?_⟩, ?_⟩
  · intro f hf g hg hdiff x y hx hy
    exact hlaid.apart hnames hword hf hg hdiff hx hy
  · rintro ⟨k, hk⟩ base hbase i x kind hin
    exact hin.dvd hk hnames (dvd_add hbase (hsize.1.1.mul_left _))

/-- The error record in an array: its message, and the pointer in that. -/
theorem errorRecord_natural :
    (0 : Int) < 8 ∧ errorRecordFields ≠ [] ∧ (errorRecordFields.map (·.name)).Nodup ∧
      Layout.ofWords? 8 [("code", "i32"), ("message", "BufferRecord")] =
        some ⟨[("code", 0), ("message", 8)], 32, 8⟩ ∧ (8 : Int) ∣ 64 + 3 * 32 + (8 + 8) := by
  have hword : (0 : Int) < 8 := by decide
  have hne : errorRecordFields ≠ [] := List.cons_ne_nil _ _
  have hnames : (errorRecordFields.map (·.name)).Nodup := by decide
  obtain ⟨l, hl, -, harray⟩ := layout_natural hword hne hnames
  have hvalue : Layout.ofWords? 8 [("code", "i32"), ("message", "BufferRecord")] =
      some ⟨[("code", 0), ("message", 8)], 32, 8⟩ := by decide
  obtain rfl := Option.some.inj (hl.symm.trans hvalue)
  have hpointer : LiesAt 8 errorRecordFields (8 + 8) (.scalar .ptr) :=
    .inside (f := ⟨"message", .struct .bufferRecord⟩) (by decide) (by decide) rfl
      (.field (f := ⟨"data", .scalar .ptr⟩) (by decide) (by decide))
  exact ⟨hword, hne, hnames, hvalue, harray ⟨3, rfl⟩ 64 (by decide) 3 _ _ hpointer⟩

end Bindgen.Boundary
