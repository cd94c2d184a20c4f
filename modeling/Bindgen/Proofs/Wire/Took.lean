import Bindgen.Proofs.Outcome
import Bindgen.Proofs.Wire.Stream
import Bindgen.Wire.Codec

/-!
# What reading takes

`Reader.Took` says how many bytes one reader has taken off another. What is read takes bytes off the front and
leaves the rest, or it is stopped. Breaches of the protocol are all that stops scalars; `P` stands for whatever
may stop the rest, which a breach has to be among.

Results:
* `yields_prim`: what is read of a primitive is accepted for it, and takes a byte at least.
* `yields_items`, `yields_entries`: what holds of each item or entry wherever it stands holds of all that are
  read.
-/

namespace Bindgen.Wire

open Interface

variable {s : Schema}

/-! ## Bytes that are taken -/

/-- A reader has taken a count of bytes off another one. -/
def Reader.Took (r : Reader) (n : Nat) (r' : Reader) : Prop :=
  ∃ taken, taken.length = n ∧ r.rest = taken ++ r'.rest ∧ r'.offset = r.offset + n

theorem Reader.Took.refl (r : Reader) : r.Took 0 r := ⟨[], rfl, rfl, rfl⟩

theorem Reader.Took.trans {r r' r'' : Reader} {a b : Nat} (h : r.Took a r') (h' : r'.Took b r'') :
    r.Took (a + b) r'' := by
  obtain ⟨x, hx, hrest, hoffset⟩ := h
  obtain ⟨y, hy, hrest', hoffset'⟩ := h'
  refine ⟨x ++ y, ?_, ?_, ?_⟩
  · rw [List.length_append, hx, hy]
  · rw [hrest, hrest', List.append_assoc]
  · rw [hoffset', hoffset, Nat.add_assoc]

theorem Reader.Took.length {r r' : Reader} {n : Nat} (h : r.Took n r') :
    r.rest.length = n + r'.rest.length := by
  obtain ⟨taken, hn, hrest, -⟩ := h
  rw [hrest, List.length_append, hn]

section Scalars

variable {P : Fault → Prop} (hP : ∀ b, P (.internal b))
include hP

theorem yields_bytes (r : Reader) (size : Int) :
    Yields P (fun p => r.Took size.toNat p.2 ∧ p.1.length = size.toNat) (r.bytes size) := by
  rcases r.bytes_cases size with ⟨front, rest, hrest, rfl, hok⟩ | ⟨-, herror⟩
  · rw [hok]
    exact ⟨⟨front, rfl, hrest, rfl⟩, rfl⟩
  · rw [herror]
    exact hP _

theorem yields_int (r : Reader) (f : IntFormat) :
    Yields P (fun p => r.Took f.width p.2 ∧ ∃ front, front.length = f.width ∧ p.1 = f.decode front) (r.int f) := by
  unfold Reader.int
  exact (yields_bytes hP r f.width).bind fun p hp => ⟨hp.1, p.1, hp.2, rfl⟩

theorem yields_counted (r : Reader) :
    Yields P (fun p => ∃ n, r.Took (IntFormat.i32.width + n) p.2) (readCounted r) := by
  unfold readCounted
  exact (yields_int hP r .i32).bind fun p hp => (yields_bytes hP p.2 p.1).mono fun q hq => ⟨_, hp.1.trans hq.1⟩

/-- Reading ends well where nothing is left over. -/
theorem yields_finish (r : Reader) : Yields P (fun _ => r.rest = []) r.finish := by
  unfold Reader.finish
  split
  · exact List.isEmpty_iff.1 ‹_›
  · exact hP _

theorem yields_decodeText (bytes : List UInt8) : Yields P (fun v => ∃ t, v = .text t) (decodeText bytes) := by
  unfold decodeText
  split
  · exact ⟨_, rfl⟩
  · exact hP _

theorem yields_boolean (v : Value) :
    Yields P (fun w => ∃ b, w = .bool b) (PrimFormat.lift s .boolean v) := by
  show Yields P _ (if v.same (.int 1) then _ else if v.same (.int 0) then _ else _ : Except Fault Value)
  split
  · exact ⟨true, rfl⟩
  · split
    · exact ⟨false, rfl⟩
    · exact hP _

/-- Every primitive has a byte at least, and what is read of one is accepted for it and can be a key. -/
theorem yields_prim (p : Prim) (r : Reader) : Yields P (fun q => (∃ n, 0 < n ∧ r.Took n q.2) ∧
    (primFormat p).check s q.1 = .ok () ∧ q.1.unhashable? s = none) ((primFormat p).read s r) := by
  cases hf : primFormat p with
  | int f =>
    have hwidth : 0 < f.width := by
      cases p <;> first | exact PrimFormat.int.inj hf ▸ (by decide) | exact absurd hf (by simp [primFormat])
    refine (yields_int hP r f).bind fun q hq => ?_
    obtain ⟨htook, front, hlength, hn⟩ := hq
    refine ⟨⟨_, hwidth, htook⟩, ?_, rfl⟩
    exact if_pos (hn ▸ contains_decode hwidth hlength)
  | real f =>
    show Yields P _ (if f = .binary32 then r.bytes 4 >>= _ else r.bytes 8 >>= _ : Except Fault (Value × Reader))
    split
    · exact (yields_bytes hP r 4).bind fun q hq => ⟨⟨_, by decide, hq.1⟩, rfl, rfl⟩
    · exact (yields_bytes hP r 8).bind fun q hq => ⟨⟨_, by decide, hq.1⟩, rfl, rfl⟩
  | boolean =>
    refine (yields_int hP r .u8).bind fun q hq => (yields_boolean hP (s := s) (.int q.1)).bind fun v hv => ?_
    obtain ⟨b, rfl⟩ := hv
    exact ⟨⟨1, Nat.one_pos, hq.1⟩, rfl, rfl⟩

end Scalars

/-! ## Repetitions -/

section Repetitions

variable {P : Fault → Prop} {α : Type}

/-- Some items are read, each of which is as it should be wherever it stands. -/
theorem yields_items {Q : α → Prop} {read : Reader → Except Fault (α × Reader)} {count : Nat} {r : Reader}
    (h : ∀ r' n, r.Took n r' → Yields P (fun p => Q p.1 ∧ ∃ n, r'.Took n p.2) (read r')) :
    Yields P (fun p => (∀ x ∈ p.1, Q x) ∧ ∃ n, r.Took n p.2) (readItems read count r) := by
  induction count generalizing r with
  | zero => exact ⟨fun _ hx => absurd hx List.not_mem_nil, 0, .refl r⟩
  | succ count ih =>
    unfold readItems
    refine (h r 0 (.refl r)).bind fun p hp => ?_
    obtain ⟨hx, n, htook⟩ := hp
    refine (ih fun r' k hk => h r' (n + k) (htook.trans hk)).bind fun q hq => ?_
    obtain ⟨hxs, k, hk⟩ := hq
    exact ⟨List.forall_mem_cons.2 ⟨hx, hxs⟩, n + k, htook.trans hk⟩

/-- Some entries are read. What holds of the map so far goes on to hold if it does for one more entry. -/
theorem yields_entries {K W : Value → Prop} {E : List (Value × Value) → Prop}
    {key value : Reader → Except Fault (Value × Reader)} {count : Nat} {entries : List (Value × Value)}
    {r : Reader}
    (hk : ∀ r' n, r.Took n r' → Yields P (fun p => K p.1 ∧ ∃ n, r'.Took n p.2) (key r'))
    (hw : ∀ r' n, r.Took n r' → Yields P (fun p => W p.1 ∧ ∃ n, r'.Took n p.2) (value r'))
    (hinsert : ∀ k w entries, K k → W w → E entries → Yields P E (Value.insert? s k w entries))
    (he : E entries) :
    Yields P (fun p => E p.1 ∧ ∃ n, r.Took n p.2) (readEntries s key value count entries r) := by
  induction count generalizing r entries with
  | zero => exact ⟨he, 0, .refl r⟩
  | succ count ih =>
    unfold readEntries
    refine (hk r 0 (.refl r)).bind fun p hp => ?_
    obtain ⟨hkey, a, ha⟩ := hp
    refine (hw p.2 a ha).bind fun q hq => ?_
    obtain ⟨hvalue, b, hb⟩ := hq
    have htook := ha.trans hb
    refine (hinsert p.1 q.1 entries hkey hvalue he).bind fun entries' he' => ?_
    refine (ih (fun r' n hn => hk r' _ (htook.trans hn)) (fun r' n hn => hw r' _ (htook.trans hn)) he').mono ?_
    rintro last ⟨hlast, n, hn⟩
    exact ⟨hlast, _, htook.trans hn⟩

end Repetitions

end Bindgen.Wire
