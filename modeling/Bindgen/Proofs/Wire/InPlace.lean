import Bindgen.Proofs.Outcome
import Bindgen.Proofs.Wire.Stream
import Bindgen.Wire.InPlace

/-!
# Streams that are used again and again

Reads and writes follow each other on one stream, whether they succeed or not (`attemptAll`). A single read takes the
bytes of an item that it asks for, or there are not as many and the stream stays where it is (`Read.Ends`). So what all
reads have taken is what lies before the position, by induction on the reads (`attemptAll_reads`). A single write adds
the bytes of its item, which it cannot do where that is out of range, and each item reads back from its bytes
(`Item.reads`), so that all of them do.

Results:
* `Reader.takeBytes_apply`, `Reader.takeInt_apply`: a read in place is a read of the stream, which a fault leaves alone.
* `Read.perform_ends`, `Item.write_apply`: what a single read or write does.
* `attemptAll_reads`, `attemptAll_writes`, `attemptAll_readBack`: what comes of some in a row.
* **`streams_exact`**: what is consumed is what lies before the position, and what is written reads back.
-/

namespace Bindgen.Wire

variable {α β σ : Type}

/-! ## One use after another -/

/-- **Steps in a row**, each of which goes on from where the one before has left the stream, whether that has succeeded
or not: what comes of each, and where the stream is left. -/
def attemptAll (step : α → InPlace σ β) : List α → σ → List (Except Fault β) × σ
  | [], s => ([], s)
  | x :: xs, s =>
    let (out, s) := step x s
    let (outs, s) := attemptAll step xs s
    (out :: outs, s)

theorem attemptAll_cons (step : α → InPlace σ β) (x : α) (xs : List α) (s : σ) :
    attemptAll step (x :: xs) s =
      ((step x s).1 :: (attemptAll step xs (step x s).2).1, (attemptAll step xs (step x s).2).2) := rfl

/-- What has come of the steps that succeeded. -/
def gained (outs : List (Except Fault β)) : List β := outs.filterMap Except.toOption

/-- What comes of a stream where a read of it is kept: it goes on only if there is something to take. -/
def kept (s : σ) : Except Fault (α × σ) → Except Fault α × σ
  | .ok (a, s') => (.ok a, s')
  | .error e => (.error e, s)

/-! ## Items and their reads -/

/-- How many bytes a read asks for. -/
def Read.size : Read → Int
  | int f _ => f.width
  | bytes size => size

namespace Item

/-- The read that an item answers. -/
def read : Item → Read
  | int f hf _ => .int f hf
  | bytes b => .bytes b.length

/-- Whether an item can be written. -/
def inRange : Item → Bool
  | int f _ n => f.contains n
  | bytes _ => true

/-- The bytes of an item, if it is in range. -/
def encode? : Item → Option (List UInt8)
  | int f _ n => f.encode? n
  | bytes b => some b

/-- The bytes of some items one after another, if all are in range. -/
def encodeAll? (items : List Item) : Option (List UInt8) := List.flatten <$> items.mapM encode?

theorem encode?_isSome (item : Item) : item.encode?.isSome = item.inRange := by
  cases item with
  | int f hf n =>
    show (f.encode? n).isSome = f.contains n
    unfold IntFormat.encode?
    cases f.contains n <;> rfl
  | bytes b => rfl

theorem encodeAll?_cons {item : Item} {items : List Item} {whole : List UInt8} :
    encodeAll? (item :: items) = some whole ↔
      ∃ front back, item.encode? = some front ∧ encodeAll? items = some back ∧ whole = front ++ back := by
  unfold encodeAll?
  rw [List.mapM_cons]
  cases item.encode? with
  | none => simp
  | some front =>
    cases items.mapM encode? with
    | none => simp
    | some parts => simp [eq_comm]

end Item

/-! ## A single read -/

/-- A step that depends on where the stream is, and what follows if it succeeds. -/
theorem InPlace.ask_apply (f : σ → Except Fault α) (g : α → InPlace σ β) (s : σ) :
    (do let a ← f (← get); g a : InPlace σ β) s = match f s with
      | .ok a => g a s
      | .error e => (.error e, s) := by
  show ((liftM (f s) : InPlace σ α) >>= g) s = _
  rw [state_bind_apply]
  cases f s <;> rfl

/-- **Bytes taken in place** are bytes that are read, and a fault leaves the stream alone. -/
theorem Reader.takeBytes_apply (size : Int) (r : Reader) : takeBytes size r = kept r (r.bytes size) := by
  unfold takeBytes
  rw [InPlace.ask_apply]
  cases r.bytes size <;> rfl

/-- **An integer taken in place** is one that is read, and a fault leaves the stream alone. -/
theorem Reader.takeInt_apply (f : IntFormat) (r : Reader) : takeInt f r = kept r (r.int f) := by
  unfold takeInt Reader.int
  rw [state_bind_apply, takeBytes_apply]
  cases r.bytes f.width <;> rfl

/-- **How a read ends.** -/
inductive Read.Ends (read : Read) (r : Reader) : Except Fault Item × Reader → Prop where
  /-- There are as many bytes as are asked for. They are those of an item, and are taken. -/
  | taken {item : Item} {bytes rest : List UInt8} (hread : item.read = read) (hbytes : item.encode? = some bytes)
      (hsize : bytes.length = read.size) (hrest : r.rest = bytes ++ rest) :
    Ends read r (.ok item, ⟨r.offset + bytes.length, rest⟩)
  /-- There are too few bytes, and none is taken. -/
  | refused (hshort : read.size < 0 ∨ r.rest.length < read.size) :
    Ends read r (.error (.internal (.underflow read.size r.offset)), r)

theorem Read.perform_int {f : IntFormat} (hf : 0 < f.width) (r : Reader) :
    (Read.int f hf).perform r = kept r (Prod.map (Item.int f hf) id <$> r.int f) := by
  show ((Item.int f hf ·) <$> Reader.takeInt f : InPlace Reader Item) r = _
  rw [state_map_apply, Reader.takeInt_apply]
  cases r.int f <;> rfl

theorem Read.perform_bytes (size : Int) (r : Reader) :
    (Read.bytes size).perform r = kept r (Prod.map Item.bytes id <$> r.bytes size) := by
  show ((Item.bytes ·) <$> Reader.takeBytes size : InPlace Reader Item) r = _
  rw [state_map_apply, Reader.takeBytes_apply]
  cases r.bytes size <;> rfl

/-- **A read takes what it asks for or nothing.** -/
theorem Read.perform_ends (read : Read) (r : Reader) : read.Ends r (read.perform r) := by
  cases read with
  | int f hf =>
    rw [perform_int, Reader.int]
    rcases r.bytes_cases f.width with ⟨front, rest, hrest, hlength, hok⟩ | ⟨hshort, herror⟩
    · rw [hok]
      exact .taken rfl (encode?_decode hf (Int.ofNat.inj hlength)) hlength hrest
    · rw [herror]
      exact .refused hshort
  | bytes size =>
    rw [perform_bytes]
    rcases r.bytes_cases size with ⟨front, rest, hrest, rfl, hok⟩ | ⟨hshort, herror⟩
    · rw [hok]
      exact .taken rfl rfl rfl hrest
    · rw [herror]
      exact .refused hshort

/-- **An item reads back** from its bytes, whatever follows them. -/
theorem Item.reads {item : Item} {bytes : List UInt8} (h : item.encode? = some bytes) (offset : Nat)
    (rest : List UInt8) :
    item.read.perform ⟨offset, bytes ++ rest⟩ = (.ok item, ⟨offset + bytes.length, rest⟩) := by
  cases item with
  | int f hf n =>
    have hread : Reader.int ⟨offset, bytes ++ rest⟩ f = .ok (n, ⟨offset + bytes.length, rest⟩) :=
      reads_int hf h offset rest
    rw [read, Read.perform_int, hread]
    rfl
  | bytes b =>
    obtain rfl := Option.some.inj h
    have hread : Reader.bytes ⟨offset, b ++ rest⟩ b.length = .ok (b, ⟨offset + b.length, rest⟩) :=
      reads_bytes b offset rest
    rw [read, Read.perform_bytes, hread]
    rfl

/-! ## A single write -/

/-- **A write adds the bytes of its item**, or it leaves the stream alone where the item is out of range. -/
theorem Item.write_apply (item : Item) (w : Writer) :
    item.write w = match item.encode? with
      | some b => (.ok (), w.bytes b)
      | none => (.error .unpackable, w) := by
  cases item with
  | bytes b => rfl
  | int f hf n =>
    show Writer.putInt f n w = match f.encode? n with | some b => _ | none => _
    unfold Writer.putInt
    rw [InPlace.ask_apply, Writer.int]
    cases f.encode? n <;> rfl

theorem Item.write_refused {item : Item} (h : item.inRange = false) (w : Writer) :
    item.write w = (.error .unpackable, w) := by
  rw [write_apply]
  cases hbytes : item.encode? with
  | none => rfl
  | some b =>
    rw [← item.encode?_isSome, hbytes] at h
    cases h

/-! ## Some in a row -/

/-- A reader has gone past some bytes to another place. -/
structure Reader.Past (r : Reader) (bytes : List UInt8) (r' : Reader) : Prop where
  rest : r.rest = bytes ++ r'.rest
  offset : r'.offset = r.offset + bytes.length

/-- A reader that has gone past some bytes from the start of its data stands right after them. -/
theorem Reader.Past.of_start {data bytes : List UInt8} {r : Reader} (h : (Reader.ofBytes data).Past bytes r) :
    bytes = data.take r.offset ∧ r.offset ≤ data.length ∧ r.rest = data.drop r.offset := by
  have hdata : data = bytes ++ r.rest := h.rest
  have hoffset : r.offset = bytes.length := h.offset.trans (Nat.zero_add _)
  rw [hoffset, hdata, List.take_left, List.drop_left, List.length_append]
  exact ⟨rfl, Nat.le_add_right _ _, rfl⟩

/-- What comes of a read is an item that answers it, or a fault. -/
def Read.Answered (read : Read) (out : Except Fault Item) : Prop := ∀ item, out = .ok item → item.read = read

/-- **Reads in a row** go past the bytes of the items that come of them. -/
theorem attemptAll_reads (reads : List Read) (r : Reader) :
    List.Forall₂ Read.Answered reads (attemptAll Read.perform reads r).1 ∧
      ∃ bytes, Item.encodeAll? (gained (attemptAll Read.perform reads r).1) = some bytes ∧
        r.Past bytes (attemptAll Read.perform reads r).2 := by
  -- The stream is general: a read that fails leaves the later ones the same stream, any other one moves them on.
  induction reads generalizing r with
  | nil => exact ⟨.nil, [], rfl, rfl, rfl⟩
  | cons read reads ih =>
    rw [attemptAll_cons]
    have hends := read.perform_ends r
    generalize read.perform r = p at hends ⊢
    cases hends with
    | taken hread hbytes _ hrest =>
      obtain ⟨hanswered, more, hmore, hpast⟩ := ih ⟨_, _⟩
      refine ⟨.cons (fun item hitem => Except.ok.inj hitem ▸ hread) hanswered, _,
        Item.encodeAll?_cons.2 ⟨_, more, hbytes, hmore, rfl⟩, ?_, ?_⟩
      · rw [hrest, List.append_assoc]
        exact congrArg _ hpast.rest
      · rw [hpast.offset, List.length_append, Nat.add_assoc]
    | refused =>
      obtain ⟨hanswered, hpast⟩ := ih r
      exact ⟨.cons (fun item hitem => by cases hitem) hanswered, hpast⟩

/-- **Writes in a row** add the bytes of the items that are in range. -/
theorem attemptAll_writes (items : List Item) (w : Writer) :
    ∃ bytes, Item.encodeAll? (items.filter Item.inRange) = some bytes ∧
      attemptAll Item.write items w =
        (items.map fun item => if item.inRange then .ok () else .error .unpackable, w.bytes bytes) := by
  induction items generalizing w with
  | nil => exact ⟨[], rfl, by rw [Writer.bytes, List.append_nil]; rfl⟩
  | cons item items ih =>
    rw [attemptAll_cons, item.write_apply, List.map_cons, List.filter_cons, ← item.encode?_isSome]
    cases hbytes : item.encode? with
    | some bytes =>
      obtain ⟨more, hmore, hwrites⟩ := ih (w.bytes bytes)
      refine ⟨bytes ++ more, Item.encodeAll?_cons.2 ⟨bytes, more, hbytes, hmore, rfl⟩, ?_⟩
      simp only [hwrites]
      rw [Writer.bytes, Writer.bytes, Writer.bytes, List.append_assoc]
      rfl
    | none =>
      obtain ⟨more, hmore, hwrites⟩ := ih w
      refine ⟨more, hmore, ?_⟩
      simp only [hwrites]
      rfl

/-- **Items in a row read back** from their bytes. -/
theorem attemptAll_readBack {items : List Item} {bytes : List UInt8} (h : Item.encodeAll? items = some bytes)
    (offset : Nat) (rest : List UInt8) :
    attemptAll Read.perform (items.map Item.read) ⟨offset, bytes ++ rest⟩ =
      (items.map .ok, ⟨offset + bytes.length, rest⟩) := by
  induction items generalizing bytes offset with
  | nil =>
    obtain rfl := Option.some.inj h
    rfl
  | cons item items ih =>
    obtain ⟨front, back, hfront, hback, rfl⟩ := Item.encodeAll?_cons.1 h
    rw [List.map_cons, List.map_cons, attemptAll_cons, List.append_assoc, Item.reads hfront]
    simp only [ih hback]
    rw [List.length_append, Nat.add_assoc]

/-! ## Streams from their beginning -/

/-- **What reads in a row come to on some data**, each of which may succeed or fail. -/
structure ReadsExactly (data : List UInt8) (reads : List Read) (outs : List (Except Fault Item)) (r : Reader) :
    Prop where
  answered : List.Forall₂ Read.Answered reads outs
  /-- The bytes of what was read are the data up to the position. -/
  consumed : Item.encodeAll? (gained outs) = some (data.take r.offset)
  bounded : r.offset ≤ data.length
  left : r.rest = data.drop r.offset
  /-- A further read takes the bytes of an item, or it fails and takes none. -/
  next : ∀ read : Read, read.Ends r (read.perform r)
  finish : r.finish = .ok () ↔ r.offset = data.length

/-- **What writes in a row come to**, each of which may succeed or fail. -/
structure WritesBack (items : List Item) (outs : List (Except Fault Unit)) (w : Writer) : Prop where
  /-- Just what is in range is written. -/
  outcomes : outs = items.map fun item => if item.inRange then .ok () else .error .unpackable
  contents : Item.encodeAll? (items.filter Item.inRange) = some w.contents
  /-- A further write of what is out of range fails and changes nothing. -/
  refused : ∀ item : Item, item.inRange = false → item.write w = (.error .unpackable, w)
  /-- What was written reads back, and nothing is left over. -/
  readBack : ∃ r, attemptAll Read.perform ((items.filter Item.inRange).map Item.read) (.ofBytes w.contents) =
    ((items.filter Item.inRange).map .ok, r) ∧ r.finish = .ok ()

/-- **Streams are exact.** What reads in a row have consumed is the data up to the position, and a read that fails
consumes nothing. A write that is out of range changes nothing, and all others read back in order. -/
theorem streams_exact :
    (∀ data reads, ReadsExactly data reads (attemptAll Read.perform reads (.ofBytes data)).1
      (attemptAll Read.perform reads (.ofBytes data)).2) ∧
    ∀ items, WritesBack items (attemptAll Item.write items .empty).1 (attemptAll Item.write items .empty).2 := by
  refine ⟨fun data reads => ?_, fun items => ?_⟩
  · obtain ⟨hanswered, bytes, hbytes, hpast⟩ := attemptAll_reads reads (.ofBytes data)
    obtain ⟨htake, hbound, hleft⟩ := hpast.of_start
    refine ⟨hanswered, htake ▸ hbytes, hbound, hleft, fun read => read.perform_ends _, ?_⟩
    rw [Reader.finish_eq_ok, hleft, List.drop_eq_nil_iff]
    exact ⟨hbound.antisymm, fun h => h.ge⟩
  · obtain ⟨bytes, hbytes, hwrites⟩ := attemptAll_writes items .empty
    have hread := attemptAll_readBack hbytes 0 []
    rw [List.append_nil] at hread
    rw [hwrites]
    exact ⟨rfl, hbytes, fun item hitem => Item.write_refused hitem _, _, hread, rfl⟩

/-- Reads that fail stand between others and take nothing from them. -/
example : attemptAll Read.perform [.bytes 3, .int .u8 (by decide), .bytes (-1), .int .i32 (by decide), .bytes 1]
      (.ofBytes [7, 8]) =
    ([.error (.internal (.underflow 3 0)), .ok (.int .u8 (by decide) 7), .error (.internal (.underflow (-1) 1)),
      .error (.internal (.underflow 4 1)), .ok (.bytes [8])], ⟨2, []⟩) := rfl

end Bindgen.Wire
