import Mathlib.Algebra.Order.Floor.Div
import Simple.Web.WebSocket

/-! How a message is cut into frames, and for which largest payload the cutting ends. -/

namespace Simple.Web.WebSocket

structure Fragment where
  op : Opcode
  fin : Bool
  payload : List UInt8

section Loop

variable (tp : Role) (e : Endian) (masks : ℕ → Key) (payloadMax : ℕ)

/-- `rest` is what `temp` and `size` still name, `drawn` counts the masking keys. -/
structure Writing where
  buf : List UInt8
  rest : List UInt8
  drawn : ℕ

def Writing.cut (op : Opcode) (w : Writing) : Writing where
  buf := w.buf ++ encode tp e op false (masks w.drawn) (w.rest.take payloadMax)
  rest := w.rest.drop payloadMax
  drawn := w.drawn + 1

/-- `none`: the loop condition has been met `fuel` times and the loop is still running. -/
def cutting : ℕ → Writing → Option Writing
  | 0, _ => none
  | fuel + 1, w =>
    if payloadMax < w.rest.length then
      cutting fuel (w.cut tp e masks payloadMax .continuation)
    else some w

def writeFragmented (fuel : ℕ) (op : Opcode) (payload : List UInt8) : Option (List UInt8) :=
  if payload.length ≤ payloadMax ∨ op.isControl then
    some (encode tp e op true (masks 0) payload)
  else do
    let w ← cutting tp e masks payloadMax fuel (Writing.cut tp e masks payloadMax op ⟨[], payload, 0⟩)
    some (w.buf ++ encode tp e .continuation true (masks w.drawn) w.rest)

def encodeAll : ℕ → List Fragment → List UInt8
  | _, [] => []
  | i, f :: fs => encode tp e f.op f.fin (masks i) f.payload ++ encodeAll (i + 1) fs

end Loop

/-- `fs` carry `payload` in as many frames as are needed when none of them takes more than
`payloadMax` bytes. -/
structure Fragments (payloadMax : ℕ) (op : Opcode) (payload : List UInt8) (fs : List Fragment) :
    Prop where
  whole : fs.flatMap Fragment.payload = payload
  count : fs.length = max 1 (payload.length ⌈/⌉ payloadMax)
  small : ∀ f ∈ fs, f.payload.length ≤ payloadMax
  final : ∀ i (hi : i < fs.length), fs[i].fin = decide (i + 1 = fs.length)
  opcode : ∀ i (hi : i < fs.length), fs[i].op = if i = 0 then op else .continuation

def fragments (payloadMax : ℕ) (hmax : 0 < payloadMax) (op : Opcode) (data : List UInt8) :
    List Fragment :=
  if payloadMax < data.length then
    ⟨op, false, data.take payloadMax⟩ ::
      fragments payloadMax hmax .continuation (data.drop payloadMax)
  else [⟨op, true, data⟩]
termination_by data.length
decreasing_by
  rw [List.length_drop]
  omega

section Shape

variable {payloadMax : ℕ} {op : Opcode} {payload : List UInt8}

lemma ceilDiv_sub {size : ℕ} (hmax : 0 < payloadMax) (h : payloadMax < size) :
    max 1 (size ⌈/⌉ payloadMax) = max 1 ((size - payloadMax) ⌈/⌉ payloadMax) + 1 := by
  have hstep : size ⌈/⌉ payloadMax = (size - payloadMax) ⌈/⌉ payloadMax + 1 := by
    simp only [Nat.ceilDiv_eq_add_pred_div]
    rw [← Nat.add_div_right _ hmax]
    congr 1
    omega
  have hone : 1 ≤ (size - payloadMax) ⌈/⌉ payloadMax := by
    rw [Nat.ceilDiv_eq_add_pred_div, Nat.le_div_iff_mul_le hmax]
    omega
  omega

lemma ceilDiv_of_le {size : ℕ} (hmax : 0 < payloadMax) (h : size ≤ payloadMax) :
    max 1 (size ⌈/⌉ payloadMax) = 1 := by
  apply max_eq_left
  rw [ceilDiv_le_iff_le_mul hmax]
  omega

lemma Fragments.single (hmax : 0 < payloadMax) (h : payload.length ≤ payloadMax) :
    Fragments payloadMax op payload [⟨op, true, payload⟩] where
  whole := by simp
  count := (ceilDiv_of_le hmax h).symm
  small f hf := by
    rw [List.mem_singleton.mp hf]
    exact h
  final i hi := by
    have : i = 0 := by simpa using hi
    subst this
    rfl
  opcode i hi := by
    have : i = 0 := by simpa using hi
    subst this
    rfl

lemma Fragments.cons {fs : List Fragment} (hmax : 0 < payloadMax)
    (h : payloadMax < payload.length)
    (hfs : Fragments payloadMax .continuation (payload.drop payloadMax) fs) :
    Fragments payloadMax op payload (⟨op, false, payload.take payloadMax⟩ :: fs) where
  whole := by
    rw [List.flatMap_cons, hfs.whole]
    exact List.take_append_drop _ _
  count := by
    rw [List.length_cons, hfs.count, List.length_drop, ceilDiv_sub hmax h]
  small f hf := by
    cases hf with
    | head => exact List.length_take_le _ _
    | tail _ hf => exact hfs.small f hf
  final i hi := by
    cases i with
    | zero =>
      have hpos : 0 < fs.length := by
        have := hfs.count
        omega
      simp only [List.getElem_cons_zero, List.length_cons]
      exact (decide_eq_false (by omega)).symm
    | succ i =>
      rw [List.getElem_cons_succ, hfs.final i (Nat.lt_of_succ_lt_succ hi)]
      simp
  opcode i hi := by
    cases i with
    | zero => rfl
    | succ i =>
      rw [List.getElem_cons_succ, hfs.opcode i (Nat.lt_of_succ_lt_succ hi)]
      simp

lemma fragments_fragments (hmax : 0 < payloadMax) :
    Fragments payloadMax op payload (fragments payloadMax hmax op payload) := by
  induction op, payload using fragments.induct payloadMax hmax with
  | case1 op payload h ih =>
    rw [fragments, if_pos h]
    exact Fragments.cons hmax h ih
  | case2 op payload h =>
    rw [fragments, if_neg h]
    exact Fragments.single hmax (not_lt.mp h)

end Shape

section Output

variable {tp : Role} {e : Endian} {masks : ℕ → Key} {payloadMax : ℕ}

lemma encodeRest_eq (hmax : 0 < payloadMax) (i : ℕ) (data : List UInt8) :
    encodeRest tp e masks payloadMax hmax i data =
      encodeAll tp e masks i (fragments payloadMax hmax .continuation data) := by
  induction i, data using encodeRest.induct payloadMax hmax with
  | case1 i data h ih =>
    rw [encodeRest, fragments, if_pos h, if_pos h, ih]
    rfl
  | case2 i data h =>
    rw [encodeRest, fragments, if_neg h, if_neg h]
    simp only [encodeAll, List.append_nil]

lemma cutting_eq (hmax : 0 < payloadMax) {fuel : ℕ} {w : Writing} (h : w.rest.length < fuel) :
    ∃ w', cutting tp e masks payloadMax fuel w = some w' ∧
      w'.buf ++ encode tp e .continuation true (masks w'.drawn) w'.rest =
        w.buf ++ encodeRest tp e masks payloadMax hmax w.drawn w.rest := by
  induction fuel generalizing w with
  | zero => omega
  | succ fuel ih =>
    rw [cutting, encodeRest]
    split
    · have hlt : (w.cut tp e masks payloadMax .continuation).rest.length < fuel := by
        simp only [Writing.cut, List.length_drop]
        omega
      obtain ⟨w', hcut, hbuf⟩ := ih hlt
      refine ⟨w', hcut, ?_⟩
      rw [hbuf, Writing.cut, List.append_assoc]
    · exact ⟨w, rfl, rfl⟩

lemma writeFragmented_eq (hmax : 0 < payloadMax) {fuel : ℕ} {op : Opcode} {payload : List UInt8}
    (h : payload.length < fuel) :
    writeFragmented tp e masks payloadMax fuel op payload =
      some (write tp e masks ⟨op, payload, some ⟨payloadMax, hmax⟩⟩) := by
  by_cases hone : payload.length ≤ payloadMax ∨ op.isControl
  · simp only [writeFragmented, write, if_pos hone]
  · simp only [writeFragmented, write, if_neg hone]
    have hlt : (Writing.cut tp e masks payloadMax op ⟨[], payload, 0⟩).rest.length < fuel := by
      simp only [Writing.cut, List.length_drop]
      omega
    obtain ⟨w, hcut, hbuf⟩ := cutting_eq hmax hlt
    rw [hcut]
    simp only [Option.bind_eq_bind, Option.bind_some, hbuf]
    rfl

lemma write_eq (hmax : 0 < payloadMax) {op : Opcode} (hop : ¬ op.isControl)
    (payload : List UInt8) :
    write tp e masks ⟨op, payload, some ⟨payloadMax, hmax⟩⟩ =
      encodeAll tp e masks 0 (fragments payloadMax hmax op payload) := by
  by_cases hle : payload.length ≤ payloadMax
  · rw [fragments, if_neg (not_lt.mpr hle)]
    simp only [write, if_pos (Or.inl hle), encodeAll, List.append_nil]
  · simp only [write, if_neg (not_or.mpr ⟨hle, hop⟩)]
    rw [fragments, if_pos (not_le.mp hle), encodeRest_eq]
    rfl

lemma cutting_zero {fuel : ℕ} {w : Writing} (h : w.rest ≠ []) :
    cutting tp e masks 0 fuel w = none := by
  induction fuel generalizing w with
  | zero => rfl
  | succ fuel ih =>
    rw [cutting, if_pos (List.length_pos_iff.mpr h)]
    exact ih (by simpa only [Writing.cut, List.drop_zero] using h)

lemma writeFragmented_zero {fuel : ℕ} {op : Opcode} {payload : List UInt8}
    (hop : ¬ op.isControl) (h : payload ≠ []) :
    writeFragmented tp e masks 0 fuel op payload = none := by
  have hmany : ¬ (payload.length ≤ 0 ∨ op.isControl) := by
    simpa only [Nat.le_zero, List.length_eq_zero_iff, not_or] using ⟨h, hop⟩
  rw [writeFragmented, if_neg hmany, cutting_zero]
  · rfl
  · simpa only [Writing.cut, List.drop_zero] using h

end Output

section Main

variable (tp : Role) (e : Endian) (masks : ℕ → Key) (payloadMax : ℕ) (op : Opcode)
  (payload : List UInt8)

def Terminates : Prop :=
  ∃ fuel bytes, writeFragmented tp e masks payloadMax fuel op payload = some bytes

/-- The bytes that are handed to the network are those of as few frames as can carry the payload. -/
def WritesFragments : Prop :=
  ∃ fuel frames, writeFragmented tp e masks payloadMax fuel op payload =
      some (encodeAll tp e masks 0 frames) ∧
    Fragments payloadMax op payload frames

theorem write_fragmented_iff :
    (Terminates tp e masks payloadMax op payload ∧
        (1 ≤ payloadMax → ¬ op.isControl → WritesFragments tp e masks payloadMax op payload)) ↔
      (1 ≤ payloadMax ∨ payload = [] ∨ op.isControl) := by
  constructor
  · rintro ⟨⟨fuel, bytes, hwrite⟩, -⟩
    by_contra hcon
    obtain ⟨hmax, hne, hop⟩ : ¬ 1 ≤ payloadMax ∧ payload ≠ [] ∧ ¬ op.isControl := by
      simpa only [not_or] using hcon
    obtain rfl : payloadMax = 0 := by omega
    rw [writeFragmented_zero hop hne] at hwrite
    cases hwrite
  · intro h
    constructor
    · obtain hmax | h := h
      · exact ⟨_, _, writeFragmented_eq hmax (Nat.lt_succ_self _)⟩
      · refine ⟨0, _, if_pos ?_⟩
        obtain rfl | hop := h
        · exact .inl (Nat.zero_le _)
        · exact .inr hop
    · intro hmax hop
      refine ⟨payload.length + 1, fragments payloadMax hmax op payload, ?_,
        fragments_fragments hmax⟩
      rw [writeFragmented_eq hmax (Nat.lt_succ_self _), write_eq hmax hop]

end Main

theorem write_unending :
    ¬ (Terminates .server .little (fun _ _ => 0) 0 .text [72] ∧
      (1 ≤ 0 → ¬ Opcode.text.isControl →
        WritesFragments .server .little (fun _ _ => 0) 0 .text [72])) := by
  rintro ⟨⟨fuel, bytes, hwrite⟩, -⟩
  rw [writeFragmented_zero (by decide) (by decide)] at hwrite
  cases hwrite

end Simple.Web.WebSocket
