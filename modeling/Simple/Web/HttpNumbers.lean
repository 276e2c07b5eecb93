import Mathlib.Data.Nat.Digits.Defs
import Simple.Lib.Checked
import Simple.Web.HttpGrammar

/-! The numbers of a line, counted in `int32_t`. -/

namespace Simple.Web.Http

open Simple.Lib Simple.Lib.Bytes

/-- `n * 10 + ch - '0'`, from the left to the right. -/
def accumulate (n : ℤ) (ch : UInt8) : Option ℤ := do
  let tens ← int32 (n * 10)
  let sum ← int32 (tens + ch.toNat)
  int32 (sum - 48)

/-- The first digit of a number takes no arithmetic that could leave `int32_t`. -/
def requestLineStep32 : Request × LineState → UInt8 → Option (Option (Request × LineState))
  | (req, .versionMajor), ch =>
    if ch = 46 ∨ isDigit ch = false then some (requestLineStep (req, .versionMajor) ch)
    else do
      let n ← accumulate req.versionMajor ch
      some (some ({ req with versionMajor := n }, .versionMajor))
  | (req, .versionMinor), ch =>
    if isDigit ch = false then some (requestLineStep (req, .versionMinor) ch)
    else do
      let n ← accumulate req.versionMinor ch
      some (some ({ req with versionMinor := n }, .versionMinor))
  | s, ch => some (requestLineStep s ch)

def parserRequestLine32 (req : Request) (line : List UInt8) : Option (Option Request) :=
  match runChecked requestLineStep32 (req, .methodStart) line with
  | none => none
  | some (some (req, .versionMinor)) => some (some req)
  | some _ => some none

def replyLineStep32 : Reply × LineState → UInt8 → Option (Option (Reply × LineState))
  | (rep, .status), ch =>
    if ch = 32 ∨ isDigit ch = false then some (replyLineStep (rep, .status) ch)
    else do
      let n ← accumulate rep.status ch
      some (some ({ rep with status := n }, .status))
  | s, ch => some (replyLineStep s ch)

def parserReplyLine32 (rep : Reply) (line : List UInt8) : Option (Option Reply) :=
  match runChecked replyLineStep32 (rep, .versionH) line with
  | none => none
  | some (some (rep, .reason)) => some (some rep)
  | some _ => some none

def decimal (digits : List UInt8) : ℕ := Nat.ofDigits 10 (digits.map fun c => c.toNat - 48).reverse

/-- 48 below the largest value: the digit is added before the code of `'0'` is taken away. -/
def maxNumber : ℕ := 2 ^ 31 - 1 - 48

lemma digit_eq {c : UInt8} (hc : isDigit c = true) :
    digit c = (c.toNat - 48 : ℕ) ∧ c.toNat - 48 ≤ 9 := by
  obtain ⟨hlow, hhigh⟩ : 48 ≤ c ∧ c ≤ 57 := by simpa [isDigit] using hc
  have hlow' : 48 ≤ c.toNat := UInt8.le_iff_toNat_le.mp hlow
  have hhigh' : c.toNat ≤ 57 := UInt8.le_iff_toNat_le.mp hhigh
  rw [digit]
  omega

lemma number_eq_decimal {ds : List UInt8} (hds : ∀ c ∈ ds, isDigit c = true) :
    number ds = decimal ds := by
  induction ds using List.reverseRecOn with
  | nil => rfl
  | append_singleton ds c ih =>
    obtain ⟨hc, -⟩ := digit_eq (hds c (by simp))
    rw [number_append, ih fun c h => hds c (by simp [h]), hc, decimal, decimal, List.map_append,
      List.reverse_append, List.map_singleton, List.reverse_singleton, List.singleton_append,
      Nat.ofDigits_cons]
    push_cast
    ring

lemma le_decimal_append (ds : List UInt8) (c : UInt8) : decimal ds ≤ decimal (ds ++ [c]) := by
  rw [decimal, decimal, List.map_append, List.reverse_append, List.map_singleton,
    List.reverse_singleton, List.singleton_append, Nat.ofDigits_cons]
  omega

lemma decimal_le_append (ds es : List UInt8) : decimal ds ≤ decimal (ds ++ es) := by
  induction es using List.reverseRecOn with
  | nil => rw [List.append_nil]
  | append_singleton es c ih =>
    rw [← List.append_assoc]
    exact ih.trans (le_decimal_append _ c)

lemma decimal_singleton_le {c : UInt8} (hc : isDigit c = true) : decimal [c] ≤ maxNumber := by
  have h : decimal [c] ≤ 9 := by simpa [decimal] using (digit_eq hc).2
  exact h.trans (by decide)

lemma accumulate_eq {n : ℤ} {c : UInt8} (hn : 0 ≤ n) (hc : isDigit c = true) :
    accumulate n c = if n * 10 + digit c ≤ maxNumber then some (n * 10 + digit c) else none := by
  obtain ⟨hd, hnine⟩ := digit_eq hc
  have hdigit : digit c = c.toNat - 48 := rfl
  have hmax : (maxNumber : ℤ) = 2147483599 := rfl
  by_cases h : n * 10 + digit c ≤ maxNumber
  · rw [if_pos h, accumulate, int32_of_fits (by omega), Option.bind_eq_bind, Option.bind_some,
      int32_of_fits (by omega), Option.bind_some, int32_of_fits (by omega), hdigit]
    congr 1
    omega
  · rw [if_neg h, accumulate]
    by_cases htens : n * 10 < 2 ^ 31
    · rw [int32_of_fits (by omega), Option.bind_eq_bind, Option.bind_some,
        int32_of_not_fits (by omega)]
      rfl
    · rw [int32_of_not_fits (by omega)]
      rfl

section Digits

variable {σ : Type} (step : σ → UInt8 → Option (Option σ)) (s : σ) (f : ℤ → σ) {ds es : List UInt8}
  (xs : List UInt8)

lemma digits_rest (htake : ∀ n c, isDigit c = true →
      step (f n) c = (accumulate n c).map fun n => some (f n))
    (hall : ∀ c ∈ ds ++ es, isDigit c = true) (hds : decimal ds ≤ maxNumber) :
    runChecked step (f (number ds)) (es ++ xs) =
      if decimal (ds ++ es) ≤ maxNumber then runChecked step (f (number (ds ++ es))) xs else none := by
  induction es generalizing ds with
  | nil => rw [List.append_nil, List.nil_append, if_pos hds]
  | cons c es ih =>
    have hnumber : number ds = decimal ds :=
      number_eq_decimal fun d hd => hall d (List.mem_append_left _ hd)
    have hc : isDigit c = true := hall c (by simp)
    have hall' : ∀ d ∈ ds ++ [c] ++ es, isDigit d = true := by simpa using hall
    have hnext : number ds * 10 + digit c = decimal (ds ++ [c]) := by
      rw [← number_append, number_eq_decimal fun d hd => hall' d (List.mem_append_left _ hd)]
    have hstep := htake (number ds) c hc
    rw [accumulate_eq (by omega) hc, hnext] at hstep
    have hsplit : ds ++ c :: es = ds ++ [c] ++ es := by simp
    rw [List.cons_append, hsplit]
    by_cases hle : decimal (ds ++ [c]) ≤ maxNumber
    · rw [if_pos (Nat.cast_le.mpr hle), Option.map_some, ← hnext, ← number_append] at hstep
      rw [RunChecked.take hstep]
      exact ih hall' hle
    · rw [if_neg (mt Nat.cast_le.mp hle), Option.map_none] at hstep
      have hmore := decimal_le_append (ds ++ [c]) es
      rw [RunChecked.undefined hstep, if_neg (by omega)]

lemma digits_run (hfirst : ∀ c, isDigit c = true → step s c = some (some (f (number [c]))))
    (htake : ∀ n c, isDigit c = true → step (f n) c = (accumulate n c).map fun n => some (f n))
    (d : Digits) :
    runChecked step s (d.digits ++ xs) =
      if decimal d.digits ≤ maxNumber then runChecked step (f (number d.digits)) xs else none := by
  obtain ⟨digits, hne, hall⟩ := d
  obtain ⟨c, es, rfl⟩ := List.exists_cons_of_ne_nil hne
  have hc := hall c (by simp)
  rw [List.cons_append, RunChecked.take (hfirst c hc)]
  exact digits_rest step f xs htake hall (decimal_singleton_le hc)

end Digits

section Request

variable {req : Request} {xs : List UInt8}

lemma request_version (v : Version) :
    runChecked requestLineStep32 (req, .versionH) v.bytes =
      if decimal v.major.digits ≤ maxNumber ∧ decimal v.minor.digits ≤ maxNumber then
        some (some ({ req with versionMajor := number v.major.digits,
                               versionMinor := number v.minor.digits }, .versionMinor))
      else none := by
  have hname (ys : List UInt8) : runChecked requestLineStep32 (req, .versionH) (ascii "HTTP/" ++ ys) =
      runChecked requestLineStep32 (req, .versionMajorStart) ys := rfl
  have hmajor := digits_run requestLineStep32 (req, .versionMajorStart)
    (fun n => ({ req with versionMajor := n }, .versionMajor)) (46 :: v.minor.digits)
    (fun c hc => by
      simp only [requestLineStep32, requestLineStep, if_neg (takes_of_isDigit hc), number_singleton])
    (fun n c hc => by
      simp only [requestLineStep32, dot_of_isDigit hc, hc, false_or, Bool.true_eq_false, if_false]
      cases accumulate n c <;> rfl) v.major
  have hminor (req : Request) := digits_run requestLineStep32 (req, .versionMinorStart)
    (fun n => ({ req with versionMinor := n }, .versionMinor)) []
    (fun c hc => by
      simp only [requestLineStep32, requestLineStep, if_neg (takes_of_isDigit hc), number_singleton])
    (fun n c hc => by
      simp only [requestLineStep32, hc, Bool.true_eq_false, if_false]
      cases accumulate n c <;> rfl) v.minor
  have hdot (req : Request) : runChecked requestLineStep32 (req, .versionMajor) (46 :: v.minor.digits) =
      runChecked requestLineStep32 (req, .versionMinorStart) (v.minor.digits ++ []) := by
    rw [List.append_nil]
    rfl
  rw [Version.bytes, hname, hmajor, hdot, hminor, ite_and]
  rfl

lemma request_run (l : RequestLine) :
    runChecked requestLineStep32 ({}, .methodStart) l.bytes =
      if decimal l.version.major.digits ≤ maxNumber ∧ decimal l.version.minor.digits ≤ maxNumber then
        some (some (l.request, .versionMinor))
      else none := by
  obtain ⟨method, uri, version, hne, htoken, hplain⟩ := l
  obtain ⟨c, method, rfl⟩ := List.exists_cons_of_ne_nil hne
  obtain ⟨hc, htoken⟩ := List.forall_mem_cons.mp htoken
  have hfirst : requestLineStep32 ({}, .methodStart) c = some (some ({ method := [c] }, .method)) := by
    simp [requestLineStep32, requestLineStep, token_iff, hc]
  have hmethod := RunChecked.collect [c] (32 :: (uri ++ 32 :: version.bytes))
    (f := fun method => (({ method := method }, .method) : Request × LineState))
    (p := fun c => isToken c = true)
    (fun acc c hc => show requestLineStep32 _ c = _ from by
      simp [requestLineStep32, requestLineStep, space_of_isToken hc, token_iff, hc]) htoken
  have huri := RunChecked.collect [] (32 :: version.bytes)
    (f := fun uri => (({ method := c :: method, uri := uri }, .uri) : Request × LineState))
    (p := fun c => isUri c = true)
    (fun acc c hc => show requestLineStep32 _ c = _ by
      obtain ⟨hs, hctl⟩ : c ≠ 32 ∧ isCtl c = false := by simpa [isUri] using hc
      simp [requestLineStep32, requestLineStep, hs, hctl]) hplain
  rw [RequestLine.bytes, List.cons_append, RunChecked.take hfirst, hmethod]
  rw [RunChecked.take (show requestLineStep32 _ 32 = some (some (_, .uri)) from rfl)]
  refine huri.trans ?_
  rw [RunChecked.take (show requestLineStep32 _ 32 = some (some (_, .versionH)) from rfl)]
  exact request_version version

end Request

section Reply

variable {rep : Reply}

lemma reply_run (l : ReplyLine) :
    runChecked replyLineStep32 (rep, .versionH) l.bytes =
      if decimal l.status.digits ≤ maxNumber then
        some (some ({ rep with status := number l.status.digits }, .reason))
      else none := by
  obtain ⟨⟨major, minor⟩, status, reason⟩ := l
  have hname (ys : List UInt8) : runChecked replyLineStep32 (rep, .versionH) (ascii "HTTP/" ++ ys) =
      runChecked replyLineStep32 (rep, .versionMajorStart) ys := rfl
  have hskip (s t : LineState)
      (hs : ∀ c, isDigit c = true → replyLineStep32 (rep, s) c = some (some (rep, t)))
      (ht : ∀ c, isDigit c = true → replyLineStep32 (rep, t) c = some (some (rep, t))) (d : Digits)
      (xs : List UInt8) :
      runChecked replyLineStep32 (rep, s) (d.digits ++ xs) =
        runChecked replyLineStep32 (rep, t) xs := by
    obtain ⟨digits, hne, hall⟩ := d
    obtain ⟨c, digits, rfl⟩ := List.exists_cons_of_ne_nil hne
    obtain ⟨hc, hall⟩ := List.forall_mem_cons.mp hall
    rw [List.cons_append, RunChecked.take (hs c hc), RunChecked.stay _ _ fun c h => ht c (hall c h)]
  have hstatus := digits_run replyLineStep32 (rep, .statusStart)
    (fun n => ({ rep with status := n }, .status)) (32 :: reason)
    (fun c hc => by
      simp only [replyLineStep32, replyLineStep, if_neg (takes_of_isDigit hc), number_singleton])
    (fun n c hc => by
      simp only [replyLineStep32, space_of_isDigit hc, hc, false_or, Bool.true_eq_false, if_false]
      cases accumulate n c <;> rfl) status
  have hreason (rep : Reply) : runChecked replyLineStep32 (rep, .status) (32 :: reason) =
      some (some (rep, .reason)) := by
    have hstay := RunChecked.stay reason [] (s := (rep, LineState.reason))
      fun c _ => show replyLineStep32 _ c = _ from rfl
    rw [List.append_nil] at hstay
    rw [RunChecked.take (show replyLineStep32 _ 32 = some (some (_, .reason)) from rfl), hstay]
    rfl
  have hbytes : ReplyLine.bytes ⟨⟨major, minor⟩, status, reason⟩ =
      ascii "HTTP/" ++
        (major.digits ++ 46 :: (minor.digits ++ 32 :: (status.digits ++ 32 :: reason))) := by
    simp [ReplyLine.bytes, Version.bytes]
  rw [hbytes, hname, hskip .versionMajorStart .versionMajor]
  · rw [RunChecked.take (show replyLineStep32 _ 46 = some (some (_, .versionMinorStart)) from rfl),
      hskip .versionMinorStart .versionMinor]
    · rw [RunChecked.take (show replyLineStep32 _ 32 = some (some (_, .statusStart)) from rfl), hstatus,
        hreason]
    · intro c hc
      simp [replyLineStep32, replyLineStep, hc]
    · intro c hc
      simp [replyLineStep32, replyLineStep, hc, space_of_isDigit hc]
  · intro c hc
    simp [replyLineStep32, replyLineStep, hc]
  · intro c hc
    simp [replyLineStep32, replyLineStep, hc, dot_of_isDigit hc]

end Reply

/-- Every value on the way is one of `int32_t`, and the numbers that are stored are those of the
line. -/
def RequestLine.Counted (l : RequestLine) : Prop :=
  ∃ req, parserRequestLine32 {} l.bytes = some (some req) ∧
    req.versionMajor = decimal l.version.major.digits ∧
    req.versionMinor = decimal l.version.minor.digits

def ReplyLine.Counted (rep : Reply) (l : ReplyLine) : Prop :=
  ∃ rep', parserReplyLine32 rep l.bytes = some (some rep') ∧ rep'.status = decimal l.status.digits

lemma RequestLine.counted_iff (l : RequestLine) :
    l.Counted ↔ decimal l.version.major.digits ≤ maxNumber ∧
      decimal l.version.minor.digits ≤ maxNumber := by
  rw [RequestLine.Counted, parserRequestLine32, request_run]
  by_cases h : decimal l.version.major.digits ≤ maxNumber ∧ decimal l.version.minor.digits ≤ maxNumber
  · rw [if_pos h]
    exact iff_of_true ⟨_, rfl, number_eq_decimal l.version.major.all,
      number_eq_decimal l.version.minor.all⟩ h
  · rw [if_neg h]
    simpa using h

lemma ReplyLine.counted_iff (rep : Reply) (l : ReplyLine) :
    l.Counted rep ↔ decimal l.status.digits ≤ maxNumber := by
  rw [ReplyLine.Counted, parserReplyLine32, reply_run]
  by_cases h : decimal l.status.digits ≤ maxNumber
  · rw [if_pos h]
    exact iff_of_true ⟨_, rfl, number_eq_decimal l.status.all⟩ h
  · rw [if_neg h]
    simpa using h

theorem http_numbers_iff (request : RequestLine) (rep : Reply) (reply : ReplyLine) :
    (request.Counted ↔ decimal request.version.major.digits ≤ maxNumber ∧
      decimal request.version.minor.digits ≤ maxNumber) ∧
    (reply.Counted rep ↔ decimal reply.status.digits ≤ maxNumber) :=
  ⟨request.counted_iff, reply.counted_iff rep⟩

theorem http_numbers_overflow :
    (∃ l : RequestLine, l.bytes = ascii "GET / HTTP/1.2147483600" ∧ ¬ l.Counted) ∧
      ∃ l : ReplyLine, l.bytes = ascii "HTTP/1.1 99999999999 OK" ∧ ¬ l.Counted {} := by
  constructor
  · refine ⟨⟨ascii "GET", ascii "/", ⟨⟨ascii "1", by decide, List.all_eq_true.mp (by decide)⟩,
      ⟨ascii "2147483600", by decide, List.all_eq_true.mp (by decide)⟩⟩, by decide,
      List.all_eq_true.mp (by decide), List.all_eq_true.mp (by decide)⟩, by decide, ?_⟩
    rintro ⟨req, hreq, -⟩
    rw [parserRequestLine32, request_run, if_neg (by decide)] at hreq
    cases hreq
  · refine ⟨⟨⟨⟨ascii "1", by decide, List.all_eq_true.mp (by decide)⟩,
      ⟨ascii "1", by decide, List.all_eq_true.mp (by decide)⟩⟩,
      ⟨ascii "99999999999", by decide, List.all_eq_true.mp (by decide)⟩, ascii "OK"⟩, by decide, ?_⟩
    rintro ⟨rep, hrep, -⟩
    rw [parserReplyLine32, reply_run, if_neg (by decide)] at hrep
    cases hrep

end Simple.Web.Http
