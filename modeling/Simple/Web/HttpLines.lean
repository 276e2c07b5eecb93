import Mathlib.Data.List.ModifyLast
import Mathlib.Data.List.TakeWhile
import Simple.Web.HttpParser

/-! Lines that were written by the rules are read back. -/

namespace Simple.Web.Http

open Simple.Lib Simple.Lib.Bytes Simple.Lib.Reader Simple.Coro.Network

structure Header.Writable (h : Header) : Prop where
  ne_nil : h.name ≠ []
  name : ∀ c ∈ h.name, isToken c = true
  value : ∀ c ∈ h.value, isCtl c = false

variable {h : Header} {headers hs : List Header} {c : UInt8} {xs name value : List UInt8} {n : ℕ}

lemma Header.writable_of (hne : name ≠ []) (hname : name.all isToken = true)
    (hvalue : ∀ c ∈ value, isCtl c = false) : Writable ⟨name, value⟩ :=
  ⟨hne, List.all_eq_true.mp hname, hvalue⟩

lemma isCtl_of_any (hx : xs.any isCtl = false) : ∀ c ∈ xs, isCtl c = false := by
  simpa only [List.any_eq_false, Bool.not_eq_true] using hx

lemma colon_of_isToken (hc : isToken c = true) : c ≠ 58 := by
  rintro rfl
  cases hc

lemma blank_of_isToken (hc : isToken c = true) : ¬(c = 32 ∨ c = 9) := by
  rintro (rfl | rfl) <;> cases hc

lemma refuses_of_isToken (hc : isToken c = true) : (!isChar c || isCtl c || isSpecial c) = false := by
  simp only [isToken, Bool.and_eq_true, Bool.not_eq_true'] at hc
  simp [hc]

lemma cr_of_isToken (hc : isToken c = true) : c ≠ 13 := by
  rintro rfl
  cases hc

lemma cr_of_isCtl (hc : isCtl c = false) : c ≠ 13 := by
  rintro rfl
  cases hc

lemma fold_name (hx : ∀ c ∈ xs, isToken c = true) :
    xs.foldlM headerStep (hs ++ [h], .name) = some (hs ++ [{ h with name := h.name ++ xs }], .name) := by
  induction xs generalizing h with
  | nil => simp
  | cons c xs ih =>
    obtain ⟨hc, hxs⟩ := List.forall_mem_cons.mp hx
    have hstep : headerStep (hs ++ [h], .name) c =
        some (hs ++ [{ h with name := h.name ++ [c] }], .name) := by
      simp only [headerStep, if_neg (colon_of_isToken hc), refuses_of_isToken hc,
        List.modifyLast_concat]
      rfl
    rw [List.foldlM_cons, hstep]
    simpa using ih (h := { h with name := h.name ++ [c] }) hxs

lemma fold_value (hx : ∀ c ∈ xs, isCtl c = false) :
    xs.foldlM headerStep (hs ++ [h], .value) =
      some (hs ++ [{ h with value := h.value ++ xs }], .value) := by
  induction xs generalizing h with
  | nil => simp
  | cons c xs ih =>
    obtain ⟨hc, hxs⟩ := List.forall_mem_cons.mp hx
    have hstep : headerStep (hs ++ [h], .value) c =
        some (hs ++ [{ h with value := h.value ++ [c] }], .value) := by
      simp only [headerStep, hc, List.modifyLast_concat]
      rfl
    rw [List.foldlM_cons, hstep]
    simpa using ih (h := { h with value := h.value ++ [c] }) hxs

def Header.line (h : Header) : List UInt8 := h.name ++ nameValueSeparator ++ h.value

lemma parserHeader_line (hw : h.Writable) : parserHeader headers h.line = some (headers ++ [h]) := by
  obtain ⟨name, value⟩ := h
  obtain ⟨hne, hname, hvalue⟩ := hw
  obtain ⟨c, name, rfl⟩ := List.exists_cons_of_ne_nil hne
  obtain ⟨hc, hname⟩ := List.forall_mem_cons.mp hname
  have hstart : headerStep (headers, .start) c = some (headers ++ [⟨[c], []⟩], .name) := by
    simp only [headerStep, refuses_of_isToken hc]
    rw [if_neg fun hb => blank_of_isToken hc hb.2]
    rfl
  have hsep : nameValueSeparator.foldlM headerStep (headers ++ [⟨c :: name, []⟩], .name) =
      some (headers ++ [⟨c :: name, []⟩], .value) := rfl
  rw [parserHeader, Header.line, List.cons_append, List.cons_append, List.foldlM_cons, hstart]
  simp only [List.foldlM_append, fold_name hname, fold_value hvalue, hsep, Option.bind_eq_bind,
    Option.bind_some, List.singleton_append, List.nil_append]

lemma Header.Writable.cr_not_mem (hw : h.Writable) : (13 : UInt8) ∉ h.line := by
  intro hmem
  rw [Header.line, List.mem_append, List.mem_append] at hmem
  rcases hmem with (hn | hs) | hv
  · exact cr_of_isToken (hw.name _ hn) rfl
  · revert hs
    decide
  · exact cr_of_isCtl (hw.value _ hv) rfl

lemma Header.line_ne_nil (h : Header) : h.line ≠ [] := by
  intro hnil
  have := congrArg List.length hnil
  simp [Header.line, nameValueSeparator, ascii] at this

def bodySizeAfter (size : ℕ) (hs : List Header) : ℕ :=
  hs.foldl (fun size h =>
    if h.name = contentLength then (fromChars h.value).getD size else size) size

lemma nextBodySize_append (size : ℕ) : ParserState.nextBodySize (headers ++ [h]) size =
    if h.name = contentLength then (fromChars h.value).getD size else size := by
  simp [ParserState.nextBodySize]

/-- The length that the last header of that name announces; without one there is no content. -/
def announced (headers : List Header) : Option ℕ :=
  match (headers.filter fun h => h.name = contentLength).getLast? with
  | some h => fromChars h.value
  | none => some 0

lemma bodySizeAfter_append (size : ℕ) :
    bodySizeAfter size (hs ++ [h]) = if h.name = contentLength then
      (fromChars h.value).getD (bodySizeAfter size hs) else bodySizeAfter size hs := by
  simp [bodySizeAfter]

lemma announced_append : announced (hs ++ [h]) =
    if h.name = contentLength then fromChars h.value else announced hs := by
  by_cases hname : h.name = contentLength <;> simp [announced, hname]

lemma bodySizeAfter_eq (hlen : announced hs = some n) : bodySizeAfter 0 hs = n := by
  induction hs using List.reverseRecOn with
  | nil => exact Option.some.inj hlen
  | append_singleton hs h ih =>
    rw [announced_append] at hlen
    rw [bodySizeAfter_append]
    by_cases hname : h.name = contentLength
    · rw [if_pos hname] at hlen ⊢
      rw [hlen, Option.getD_some]
    · rw [if_neg hname] at hlen ⊢
      exact ih hlen

lemma digit_of_char {ch : Char} (h : ch.isDigit = true) : isDigit (UInt8.ofNat ch.toNat) = true ∧
    (UInt8.ofNat ch.toNat).toNat - 48 = ch.toNat - '0'.toNat := by
  have hrange : 48 ≤ ch.toNat ∧ ch.toNat ≤ 57 := by
    simpa [Char.isDigit, UInt32.le_iff_toNat_le] using h
  have hval : (UInt8.ofNat ch.toNat).toNat = ch.toNat := by
    rw [UInt8.toNat_ofNat', Nat.mod_eq_of_lt (by omega)]
  refine ⟨?_, by rw [hval]; rfl⟩
  simp only [isDigit, Bool.and_eq_true, decide_eq_true_eq, UInt8.le_iff_toNat_le, hval]
  exact hrange

lemma ascii_toString : ascii (toString n) = (Nat.toDigits 10 n).map fun ch => UInt8.ofNat ch.toNat := by
  rw [ascii, Nat.toString_eq_repr, Nat.toList_repr]

lemma isDigit_toString (h : c ∈ ascii (toString n)) : isDigit c = true := by
  rw [ascii_toString] at h
  obtain ⟨ch, hch, rfl⟩ := List.mem_map.mp h
  exact (digit_of_char (Nat.isDigit_of_mem_toDigits (by decide) (by decide) hch)).1

lemma foldl_digits {cs : List Char} (hcs : ∀ ch ∈ cs, ch.isDigit = true) (m : ℕ) :
    (cs.map fun ch => UInt8.ofNat ch.toNat).foldl (fun n c => n * 10 + (c.toNat - 48)) m =
      Nat.ofDigitChars 10 cs m := by
  induction cs generalizing m with
  | nil => rfl
  | cons ch cs ih =>
    obtain ⟨hch, hcs⟩ := List.forall_mem_cons.mp hcs
    rw [List.map_cons, List.foldl_cons, ih hcs, (digit_of_char hch).2, Nat.ofDigitChars_cons,
      Nat.mul_comm m]

lemma fromChars_toString (hn : n < 2 ^ 64) : fromChars (ascii (toString n)) = some n := by
  have hall : (ascii (toString n)).takeWhile isDigit = ascii (toString n) :=
    List.takeWhile_eq_self_iff.mpr fun _ => isDigit_toString
  have hne : ascii (toString n) ≠ [] := by
    rw [ascii_toString]
    simp
  have hvalue : (ascii (toString n)).foldl (fun n c => n * 10 + (c.toNat - 48)) 0 = n := by
    rw [ascii_toString, foldl_digits fun ch => Nat.isDigit_of_mem_toDigits (by decide) (by decide),
      Nat.ofDigitChars_ten_toDigits]
  simp only [fromChars, hall, hvalue]
  rw [if_neg (not_or.mpr ⟨hne, Nat.not_le.mpr hn⟩)]

lemma isCtl_toString (h : c ∈ ascii (toString n)) : isCtl c = false := by
  have hdigit := isDigit_toString h
  simp only [isDigit, Bool.and_eq_true, decide_eq_true_eq, UInt8.le_iff_toNat_le] at hdigit
  have hctl : ¬c ≤ 31 ∧ c ≠ 127 := by
    rw [UInt8.le_iff_toNat_le, ← UInt8.toNat_inj.ne]
    exact ⟨fun hle => absurd (hdigit.1.trans hle) (by decide),
      fun he => absurd (he ▸ hdigit.2) (by decide)⟩
  simp [isCtl, hctl]

section Steps

variable {R : Type} {T : Target R} {message : R} {size : ℕ} {rest body text : List UInt8} {ys : List R}

lemma first_line_step (hcr : (13 : UInt8) ∉ text) (hline : T.parserLine T.start text = some message) :
    (parser T).consumer.Steps ⟨⟨T.start, .firstLine⟩, text ++ crlf ++ rest, ys⟩
      ⟨⟨message, .header 0⟩, rest, ys⟩ := by
  have htake : ParserState.take T ⟨T.start, .firstLine⟩ (text ++ crlf) =
      (⟨message, .header 0⟩, none) := by
    simp only [ParserState.take, lineOf_append, hline]
  refine line_step hcr rfl htake ?_
  rw [Option.toList_none, List.append_nil]
  exact .refl

lemma header_step (hw : h.Writable) :
    (parser T).consumer.Steps ⟨⟨message, .header size⟩, h.bytes ++ rest, ys⟩
      ⟨⟨T.withHeaders message (T.headers message ++ [h]), .header (bodySizeAfter size [h])⟩,
        rest, ys⟩ := by
  have htake : ParserState.take T ⟨message, .header size⟩ (h.line ++ crlf) =
      (⟨T.withHeaders message (T.headers message ++ [h]), .header (bodySizeAfter size [h])⟩,
        none) := by
    simp only [ParserState.take, lineOf_append, if_neg h.line_ne_nil, parserHeader_line hw,
      nextBodySize_append]
    rfl
  refine line_step hw.cr_not_mem rfl htake ?_
  rw [Option.toList_none, List.append_nil]
  exact .refl

lemma headers_steps (hw : ∀ h ∈ hs, h.Writable) :
    (parser T).consumer.Steps ⟨⟨message, .header size⟩, hs.flatMap Header.bytes ++ rest, ys⟩
      ⟨⟨T.withHeaders message (T.headers message ++ hs), .header (bodySizeAfter size hs)⟩,
        rest, ys⟩ := by
  induction hs generalizing message size with
  | nil =>
    rw [List.append_nil, T.withHeaders_headers]
    exact .refl
  | cons h hs ih =>
    obtain ⟨hh, hhs⟩ := List.forall_mem_cons.mp hw
    have hmessage : T.withHeaders message (T.headers message ++ h :: hs) =
        T.withHeaders (T.withHeaders message (T.headers message ++ [h]))
          (T.headers (T.withHeaders message (T.headers message ++ [h])) ++ hs) := by
      rw [T.headers_withHeaders, T.withHeaders_withHeaders, List.append_assoc,
        List.singleton_append]
    rw [List.flatMap_cons, List.append_assoc, hmessage]
    exact (header_step hh).trans (ih hhs)

def Target.withBody (T : Target R) (message : R) : List UInt8 → R
  | [] => message
  | body => T.withContent message body

lemma body_steps (hbody : 0 < body.length) :
    (parser T).consumer.Steps ⟨⟨message, .header body.length⟩, crlf ++ (body ++ rest), ys⟩
      ⟨⟨T.withContent message body, .done⟩, rest, ys ++ [T.withContent message body]⟩ := by
  have htake : ParserState.take T ⟨message, .header body.length⟩ ([] ++ crlf) =
      (⟨message, .body body.length hbody⟩, none) := by
    simp only [ParserState.take, lineOf_append, if_true, dif_pos hbody]
  rw [← List.nil_append crlf]
  refine line_step List.not_mem_nil rfl htake ?_
  rw [Option.toList_none, List.append_nil]
  exact body_step hbody .refl

lemma bare_steps :
    (parser T).consumer.Steps ⟨⟨message, .header 0⟩, crlf ++ rest, ys⟩
      ⟨⟨message, .done⟩, rest, ys ++ [message]⟩ := by
  have htake : ParserState.take T ⟨message, .header 0⟩ ([] ++ crlf) =
      (⟨message, .done⟩, some message) := rfl
  rw [← List.nil_append crlf]
  exact line_step List.not_mem_nil rfl htake .refl

lemma message_steps (hcr : (13 : UInt8) ∉ text) (hline : T.parserLine T.start text = some message)
    (hw : ∀ h ∈ hs, h.Writable) (hsize : announced hs = some body.length) (rest : List UInt8)
    (ys : List R) :
    let whole := T.withBody (T.withHeaders message (T.headers message ++ hs)) body
    (parser T).consumer.Steps
      ⟨⟨T.start, .firstLine⟩, text ++ crlf ++ (hs.flatMap Header.bytes ++ (crlf ++ (body ++ rest))), ys⟩
      ⟨⟨whole, .done⟩, rest, ys ++ [whole]⟩ := by
  have hheaders : (parser T).consumer.Steps
      ⟨⟨message, .header 0⟩, hs.flatMap Header.bytes ++ (crlf ++ (body ++ rest)), ys⟩
      ⟨⟨T.withHeaders message (T.headers message ++ hs), .header (bodySizeAfter 0 hs)⟩,
        crlf ++ (body ++ rest), ys⟩ := headers_steps hw
  rw [bodySizeAfter_eq hsize] at hheaders
  refine (first_line_step hcr hline).trans (hheaders.trans ?_)
  cases body with
  | nil => exact bare_steps
  | cons c body => exact body_steps (Nat.succ_pos _)

end Steps

end Simple.Web.Http
