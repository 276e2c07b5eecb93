import Simple.Lib.Scan
import Simple.Web.HttpLines

/-! The lines that the three machines take. -/

namespace Simple.Web.Http

open Simple.Lib Simple.Lib.Bytes

def isUri (c : UInt8) : Bool := c ≠ 32 && !isCtl c

structure Digits where
  digits : List UInt8
  ne_nil : digits ≠ []
  all : ∀ c ∈ digits, isDigit c = true

def number (digits : List UInt8) : ℤ := digits.foldl (fun n c => n * 10 + digit c) 0

structure Version where
  major : Digits
  minor : Digits

def Version.bytes (v : Version) : List UInt8 := ascii "HTTP/" ++ (v.major.digits ++ 46 :: v.minor.digits)

structure RequestLine where
  method : List UInt8
  uri : List UInt8
  version : Version
  ne_nil : method ≠ []
  token : ∀ c ∈ method, isToken c = true
  plain : ∀ c ∈ uri, isUri c = true

def RequestLine.bytes (l : RequestLine) : List UInt8 :=
  l.method ++ 32 :: (l.uri ++ 32 :: l.version.bytes)

def RequestLine.request (l : RequestLine) : Request :=
  { method := l.method, uri := l.uri, versionMajor := number l.version.major.digits,
    versionMinor := number l.version.minor.digits }

structure ReplyLine where
  version : Version
  status : Digits
  reason : List UInt8

def ReplyLine.bytes (l : ReplyLine) : List UInt8 :=
  l.version.bytes ++ 32 :: (l.status.digits ++ 32 :: l.reason)

/-- A line that goes on with the value of the header before it. -/
structure FoldedLine where
  blanks : List UInt8
  text : List UInt8
  blanks_ne_nil : blanks ≠ []
  blank : ∀ c ∈ blanks, c = 32 ∨ c = 9
  text_ne_nil : text ≠ []
  head : ∀ c, text.head? = some c → ¬(c = 32 ∨ c = 9)
  value : ∀ c ∈ text, isCtl c = false

def FoldedLine.bytes (l : FoldedLine) : List UInt8 := l.blanks ++ l.text

variable {req : Request} {rep : Reply} {state : LineState} {line acc xs : List UInt8} {c : UInt8}

lemma token_iff : (!isChar c || isCtl c || isSpecial c) = !isToken c := by
  rw [isToken, Bool.not_and, Bool.not_and, Bool.not_not, Bool.not_not]

lemma dot_of_isDigit (hc : isDigit c = true) : c ≠ 46 := by
  rintro rfl
  cases hc

lemma space_of_isDigit (hc : isDigit c = true) : c ≠ 32 := by
  rintro rfl
  cases hc

lemma space_of_isToken (hc : isToken c = true) : c ≠ 32 := fun h => blank_of_isToken hc (.inl h)

section Numbers

variable {σ : Type} {step : σ → UInt8 → Option σ} {s t : σ}

lemma digits_until (sep : UInt8) {f g : List UInt8 → σ} (hstart : s ≠ t) (hne : ∀ acc, f acc ≠ t)
    (hsep : ¬isDigit sep = true) (hfirst : ∀ c, isDigit c = true → step s c = some (f [c]))
    (hstop : ∀ c, ¬isDigit c = true → step s c = none)
    (htake : ∀ acc c, isDigit c = true → step (f acc) c = some (f (acc ++ [c])))
    (hleave : ∀ acc, step (f acc) sep = some (g acc))
    (hrefuse : ∀ acc c, ¬isDigit c = true → c ≠ sep → step (f acc) c = none) :
    Scans step s xs t ↔
      ∃ d : Digits, ∃ zs, xs = d.digits ++ sep :: zs ∧ Scans step (g d.digits) zs t := by
  rw [Scans.letter_iff hstart hfirst hstop]
  constructor
  · rintro ⟨c, ys, rfl, hc, hys⟩
    obtain ⟨ds, zs, rfl, hds, hzs⟩ := (Scans.until_iff sep hne hsep htake hleave hrefuse).mp hys
    exact ⟨⟨c :: ds, List.cons_ne_nil c ds, List.forall_mem_cons.mpr ⟨hc, hds⟩⟩, zs, rfl, hzs⟩
  · rintro ⟨⟨ds, hds, hall⟩, zs, rfl, hzs⟩
    obtain ⟨c, ds, rfl⟩ := List.exists_cons_of_ne_nil hds
    obtain ⟨hc, hall⟩ := List.forall_mem_cons.mp hall
    exact ⟨c, ds ++ sep :: zs, rfl, hc,
      (Scans.until_iff sep hne hsep htake hleave hrefuse).mpr ⟨ds, zs, rfl, hall, hzs⟩⟩

lemma digits_while {f : List UInt8 → σ} (hstart : s ≠ t)
    (hfirst : ∀ c, isDigit c = true → step s c = some (f [c]))
    (hstop : ∀ c, ¬isDigit c = true → step s c = none)
    (htake : ∀ acc c, isDigit c = true → step (f acc) c = some (f (acc ++ [c])))
    (hrefuse : ∀ acc c, ¬isDigit c = true → step (f acc) c = none) :
    Scans step s xs t ↔ ∃ d : Digits, xs = d.digits ∧ f d.digits = t := by
  rw [Scans.letter_iff hstart hfirst hstop]
  constructor
  · rintro ⟨c, ys, rfl, hc, hys⟩
    obtain ⟨hds, ht⟩ := (Scans.while_iff htake hrefuse).mp hys
    exact ⟨⟨c :: ys, List.cons_ne_nil c ys, List.forall_mem_cons.mpr ⟨hc, hds⟩⟩, rfl, ht⟩
  · rintro ⟨⟨ds, hds, hall⟩, rfl, ht⟩
    obtain ⟨c, ds, rfl⟩ := List.exists_cons_of_ne_nil hds
    obtain ⟨hc, hall⟩ := List.forall_mem_cons.mp hall
    exact ⟨c, ds, rfl, hc, (Scans.while_iff htake hrefuse).mpr ⟨hall, ht⟩⟩

lemma name_iff (h t₁ t₂ p slash start : σ) (hh : h ≠ t) (ht₁ : t₁ ≠ t) (ht₂ : t₂ ≠ t) (hp : p ≠ t)
    (hslash : slash ≠ t) (h₁ : ∀ c, step h c = if c ≠ 72 then none else some t₁)
    (h₂ : ∀ c, step t₁ c = if c ≠ 84 then none else some t₂)
    (h₃ : ∀ c, step t₂ c = if c ≠ 84 then none else some p)
    (h₄ : ∀ c, step p c = if c ≠ 80 then none else some slash)
    (h₅ : ∀ c, step slash c = if c ≠ 47 then none else some start) :
    Scans step h xs t ↔ ∃ ys, xs = ascii "HTTP/" ++ ys ∧ Scans step start ys t := by
  have expect {a b : σ} {sep : UInt8} {xs : List UInt8} (hne : a ≠ t)
      (hstep : ∀ c, step a c = if c ≠ sep then none else some b) :
      Scans step a xs t ↔ ∃ ys, xs = sep :: ys ∧ Scans step b ys t :=
    Scans.expect_iff sep hne (by rw [hstep, if_neg (not_not.mpr rfl)]) fun c hc => by rw [hstep, if_pos hc]
  simp only [expect hh h₁, expect ht₁ h₂, expect ht₂ h₃, expect hp h₄, expect hslash h₅]
  constructor
  · rintro ⟨_, rfl, _, rfl, _, rfl, _, rfl, ys, rfl, hys⟩
    exact ⟨ys, rfl, hys⟩
  · rintro ⟨ys, rfl, hys⟩
    exact ⟨_, rfl, _, rfl, _, rfl, _, rfl, ys, rfl, hys⟩

end Numbers

lemma number_singleton (c : UInt8) : number [c] = digit c := by simp [number]

lemma number_append (acc : List UInt8) (c : UInt8) : number (acc ++ [c]) = number acc * 10 + digit c := by
  simp [number]

lemma refuses_of_not_isDigit (hc : ¬isDigit c = true) : (!isDigit c) = true := by simpa using hc

lemma takes_of_isDigit (hc : isDigit c = true) : ¬(!isDigit c) = true := by simp [hc]

section Request

variable {r : Request}

lemma requestLine_minor :
    Scans requestLineStep (req, .versionMinorStart) xs (r, .versionMinor) ↔
      ∃ d : Digits, xs = d.digits ∧ { req with versionMinor := number d.digits } = r := by
  rw [digits_while (f := fun ds => ({ req with versionMinor := number ds }, .versionMinor)) (by simp)]
  · simp only [Prod.mk.injEq, and_true]
  · intro c hc
    simp only [requestLineStep, if_neg (takes_of_isDigit hc), number_singleton]
  · intro c hc
    simp only [requestLineStep, if_pos (refuses_of_not_isDigit hc)]
  · intro acc c hc
    simp only [requestLineStep, if_neg (takes_of_isDigit hc), number_append]
  · intro acc c hc
    simp only [requestLineStep, if_pos (refuses_of_not_isDigit hc)]

lemma requestLine_major :
    Scans requestLineStep (req, .versionMajorStart) xs (r, .versionMinor) ↔
      ∃ d : Digits, ∃ zs, xs = d.digits ++ 46 :: zs ∧ Scans requestLineStep
        ({ req with versionMajor := number d.digits }, .versionMinorStart) zs (r, .versionMinor) := by
  rw [digits_until 46 (f := fun ds => ({ req with versionMajor := number ds }, .versionMajor))
    (g := fun ds => ({ req with versionMajor := number ds }, .versionMinorStart)) (by simp) (by simp)
    (by decide)]
  · intro c hc
    simp only [requestLineStep, if_neg (takes_of_isDigit hc), number_singleton]
  · intro c hc
    simp only [requestLineStep, if_pos (refuses_of_not_isDigit hc)]
  · intro acc c hc
    simp only [requestLineStep, if_neg (dot_of_isDigit hc), if_neg (takes_of_isDigit hc), number_append]
  · intro acc
    rfl
  · intro acc c hc hd
    simp only [requestLineStep, if_neg hd, if_pos (refuses_of_not_isDigit hc)]

lemma requestLine_version :
    Scans requestLineStep (req, .versionH) xs (r, .versionMinor) ↔
      ∃ v : Version, xs = v.bytes ∧
        { req with versionMajor := number v.major.digits, versionMinor := number v.minor.digits } = r := by
  rw [name_iff (req, LineState.versionH) (req, .versionT1) (req, .versionT2)
    (req, .versionP) (req, .versionSlash) (req, .versionMajorStart)
    (by simp) (by simp) (by simp) (by simp) (by simp) (fun _ => rfl) (fun _ => rfl) (fun _ => rfl)
    (fun _ => rfl) (fun _ => rfl)]
  simp only [requestLine_major, requestLine_minor]
  constructor
  · rintro ⟨ys, rfl, major, zs, rfl, minor, rfl, hr⟩
    exact ⟨⟨major, minor⟩, rfl, hr⟩
  · rintro ⟨⟨major, minor⟩, rfl, hr⟩
    exact ⟨_, rfl, major, _, rfl, minor, rfl, hr⟩

lemma requestLine_uri :
    Scans requestLineStep (req, .uri) xs (r, .versionMinor) ↔
      ∃ ys zs, xs = ys ++ 32 :: zs ∧ (∀ c ∈ ys, isUri c = true) ∧
        Scans requestLineStep ({ req with uri := req.uri ++ ys }, .versionH) zs (r, .versionMinor) := by
  refine Scans.until_iff 32 (p := fun c => isUri c = true)
    (f := fun uri => ({ req with uri := uri }, LineState.uri))
    (g := fun uri => ({ req with uri := uri }, LineState.versionH)) ?_ (by decide) ?_ ?_ ?_
  · intro acc
    simp
  · intro acc c hc
    obtain ⟨hs, hctl⟩ : c ≠ 32 ∧ isCtl c = false := by simpa [isUri] using hc
    simp only [requestLineStep, if_neg hs, hctl, Bool.false_eq_true, if_false]
  · intro acc
    rfl
  · intro acc c hc hs
    have hctl : isCtl c = true := by simpa [isUri, hs] using hc
    simp only [requestLineStep, if_neg hs, hctl, if_true]

lemma requestLine_method :
    Scans requestLineStep (req, .methodStart) xs (r, .versionMinor) ↔
      ∃ ys zs, xs = ys ++ 32 :: zs ∧ ys ≠ [] ∧ (∀ c ∈ ys, isToken c = true) ∧
        Scans requestLineStep ({ req with method := req.method ++ ys }, .uri) zs (r, .versionMinor) := by
  have hloop (acc xs : List UInt8) :
      Scans requestLineStep ({ req with method := acc }, .method) xs (r, .versionMinor) ↔
        ∃ ys zs, xs = ys ++ 32 :: zs ∧ (∀ c ∈ ys, isToken c = true) ∧
          Scans requestLineStep ({ req with method := acc ++ ys }, .uri) zs (r, .versionMinor) := by
    refine Scans.until_iff 32 (p := fun c => isToken c = true)
      (f := fun method => ({ req with method := method }, LineState.method))
      (g := fun method => ({ req with method := method }, LineState.uri)) ?_ (by decide) ?_ ?_ ?_
    · intro acc
      simp
    · intro acc c hc
      simp [requestLineStep, space_of_isToken hc, token_iff, hc]
    · intro acc
      rfl
    · intro acc c hc hs
      simp [requestLineStep, hs, token_iff, hc]
  rw [Scans.letter_iff (p := fun c => isToken c = true)
    (g := fun c => ({ req with method := req.method ++ [c] }, .method)) (by simp)
    (fun c hc => by simp [requestLineStep, token_iff, hc]) fun c hc => by simp [requestLineStep, token_iff, hc]]
  constructor
  · rintro ⟨c, ys, rfl, hc, hys⟩
    obtain ⟨ys, zs, rfl, hall, hzs⟩ := (hloop _ _).mp hys
    refine ⟨c :: ys, zs, rfl, List.cons_ne_nil c ys, List.forall_mem_cons.mpr ⟨hc, hall⟩, ?_⟩
    rwa [List.append_assoc] at hzs
  · rintro ⟨ys, zs, rfl, hne, hall, hzs⟩
    obtain ⟨c, ys, rfl⟩ := List.exists_cons_of_ne_nil hne
    obtain ⟨hc, hall⟩ := List.forall_mem_cons.mp hall
    refine ⟨c, ys ++ 32 :: zs, rfl, hc, (hloop _ _).mpr ⟨ys, zs, rfl, hall, ?_⟩⟩
    rwa [List.append_assoc]

lemma parserRequestLine_eq : parserRequestLine req line = some r ↔
    Scans requestLineStep (req, .methodStart) line (r, .versionMinor) := by
  rw [parserRequestLine, Scans]
  rcases line.foldlM requestLineStep (req, .methodStart) with _ | ⟨req, state⟩
  · simp
  · cases state <;> simp

lemma parserRequestLine_iff :
    parserRequestLine {} line = some r ↔ ∃ l : RequestLine, l.bytes = line ∧ l.request = r := by
  rw [parserRequestLine_eq]
  simp only [requestLine_method, requestLine_uri, requestLine_version]
  constructor
  · rintro ⟨method, _, rfl, hne, htoken, uri, _, rfl, hplain, v, rfl, rfl⟩
    exact ⟨⟨method, uri, v, hne, htoken, hplain⟩, rfl, rfl⟩
  · rintro ⟨⟨method, uri, v, hne, htoken, hplain⟩, rfl, rfl⟩
    exact ⟨method, _, rfl, hne, htoken, uri, _, rfl, hplain, v, rfl, rfl⟩

end Request

section Reply

variable {r : Reply}

lemma replyLine_status :
    Scans replyLineStep (rep, .statusStart) xs (r, .reason) ↔
      ∃ d : Digits, ∃ reason, xs = d.digits ++ 32 :: reason ∧ { rep with status := number d.digits } = r := by
  rw [digits_until 32 (f := fun ds => ({ rep with status := number ds }, .status))
    (g := fun ds => ({ rep with status := number ds }, .reason)) (by simp) (by simp) (by decide)]
  · have hstay (rep : Reply) (zs : List UInt8) :
        Scans replyLineStep (rep, .reason) zs (r, .reason) ↔ rep = r := by
      rw [Scans.stay_iff replyLineStep fun _ => rfl, Prod.mk.injEq, and_iff_left rfl]
    simp only [hstay]
  · intro c hc
    simp only [replyLineStep, if_neg (takes_of_isDigit hc), number_singleton]
  · intro c hc
    simp only [replyLineStep, if_pos (refuses_of_not_isDigit hc)]
  · intro acc c hc
    simp only [replyLineStep, if_neg (space_of_isDigit hc), if_neg (takes_of_isDigit hc), number_append]
  · intro acc
    rfl
  · intro acc c hc hd
    simp only [replyLineStep, if_neg hd, if_pos (refuses_of_not_isDigit hc)]

lemma replyLine_minor :
    Scans replyLineStep (rep, .versionMinorStart) xs (r, .reason) ↔
      ∃ d : Digits, ∃ zs, xs = d.digits ++ 32 :: zs ∧
        Scans replyLineStep (rep, .statusStart) zs (r, .reason) := by
  rw [digits_until 32 (f := fun _ => (rep, .versionMinor)) (g := fun _ => (rep, .statusStart))
    (by simp) (by simp) (by decide)]
  · intro c hc
    simp only [replyLineStep, if_neg (takes_of_isDigit hc)]
  · intro c hc
    simp only [replyLineStep, if_pos (refuses_of_not_isDigit hc)]
  · intro acc c hc
    simp only [replyLineStep, if_neg (space_of_isDigit hc), if_neg (takes_of_isDigit hc)]
  · intro acc
    rfl
  · intro acc c hc hd
    simp only [replyLineStep, if_neg hd, if_pos (refuses_of_not_isDigit hc)]

lemma replyLine_major :
    Scans replyLineStep (rep, .versionMajorStart) xs (r, .reason) ↔
      ∃ d : Digits, ∃ zs, xs = d.digits ++ 46 :: zs ∧
        Scans replyLineStep (rep, .versionMinorStart) zs (r, .reason) := by
  rw [digits_until 46 (f := fun _ => (rep, .versionMajor)) (g := fun _ => (rep, .versionMinorStart))
    (by simp) (by simp) (by decide)]
  · intro c hc
    simp only [replyLineStep, if_neg (takes_of_isDigit hc)]
  · intro c hc
    simp only [replyLineStep, if_pos (refuses_of_not_isDigit hc)]
  · intro acc c hc
    simp only [replyLineStep, if_neg (dot_of_isDigit hc), if_neg (takes_of_isDigit hc)]
  · intro acc
    rfl
  · intro acc c hc hd
    simp only [replyLineStep, if_neg hd, if_pos (refuses_of_not_isDigit hc)]

lemma parserReplyLine_eq : parserReplyLine rep line = some r ↔
    Scans replyLineStep (rep, .versionH) line (r, .reason) := by
  rw [parserReplyLine, Scans]
  rcases line.foldlM replyLineStep (rep, .versionH) with _ | ⟨rep, state⟩
  · simp
  · cases state <;> simp

lemma parserReplyLine_iff : parserReplyLine rep line = some r ↔
    ∃ l : ReplyLine, l.bytes = line ∧ { rep with status := number l.status.digits } = r := by
  rw [parserReplyLine_eq, name_iff (rep, LineState.versionH) (rep, .versionT1) (rep, .versionT2)
    (rep, .versionP) (rep, .versionSlash) (rep, .versionMajorStart) (by simp) (by simp) (by simp) (by simp) (by simp)
    (fun _ => rfl) (fun _ => rfl) (fun _ => rfl) (fun _ => rfl) (fun _ => rfl)]
  simp only [replyLine_major, replyLine_minor, replyLine_status]
  constructor
  · rintro ⟨_, rfl, major, _, rfl, minor, _, rfl, status, reason, rfl, rfl⟩
    exact ⟨⟨⟨major, minor⟩, status, reason⟩, by simp [ReplyLine.bytes, Version.bytes], rfl⟩
  · rintro ⟨⟨⟨major, minor⟩, status, reason⟩, rfl, rfl⟩
    exact ⟨_, by simp [ReplyLine.bytes, Version.bytes], major, _, rfl, minor, _, rfl, status, reason,
      rfl, rfl⟩

end Reply

section Headers

variable {headers hs : List Header} {h : Header} {name value : List UInt8}

lemma header_value : Scans headerStep (hs ++ [h], .value) xs (headers, .value) ↔
    (∀ c ∈ xs, isCtl c = false) ∧ hs ++ [{ h with value := h.value ++ xs }] = headers := by
  refine (Scans.while_iff (p := fun c => isCtl c = false)
    (f := fun value => (hs ++ [{ h with value := value }], HeaderState.value)) ?_ ?_).trans ?_
  · intro acc c hc
    simp only [headerStep, hc, List.modifyLast_concat, Bool.false_eq_true, if_false]
  · intro acc c hc
    simp only [headerStep, if_pos (Bool.of_not_eq_false hc)]
  · rw [Prod.mk.injEq, and_iff_left rfl]

lemma header_space : Scans headerStep (hs ++ [h], .spaceBeforeValue) xs (headers, .value) ↔
    ∃ ys, xs = 32 :: ys ∧ (∀ c ∈ ys, isCtl c = false) ∧
      hs ++ [{ h with value := h.value ++ ys }] = headers := by
  rw [Scans.expect_iff 32 (u := (hs ++ [h], .value)) (by simp) (by simp [headerStep])
    fun c hc => by simp [headerStep, hc]]
  simp only [header_value]

lemma header_name : Scans headerStep (hs ++ [h], .name) xs (headers, .value) ↔
    ∃ ys zs, xs = ys ++ 58 :: zs ∧ (∀ c ∈ ys, isToken c = true) ∧
      Scans headerStep (hs ++ [{ h with name := h.name ++ ys }], .spaceBeforeValue) zs
        (headers, .value) := by
  refine Scans.until_iff 58 (p := fun c => isToken c = true)
    (f := fun name => (hs ++ [{ h with name := name }], HeaderState.name))
    (g := fun name => (hs ++ [{ h with name := name }], HeaderState.spaceBeforeValue))
    ?_ (by decide) ?_ ?_ ?_
  · intro acc
    simp
  · intro acc c hc
    simp only [headerStep, if_neg (colon_of_isToken hc), refuses_of_isToken hc, List.modifyLast_concat,
      Bool.false_eq_true, if_false]
  · intro acc
    rfl
  · intro acc c hc hs
    simp [headerStep, hs, token_iff, hc]

lemma header_lws : Scans headerStep (hs ++ [h], .lws) xs (headers, .value) ↔
    ∃ ys c zs, xs = ys ++ c :: zs ∧ (∀ c ∈ ys, c = 32 ∨ c = 9) ∧
      (¬(c = 32 ∨ c = 9) ∧ isCtl c = false) ∧ (∀ c ∈ zs, isCtl c = false) ∧
        hs ++ [{ h with value := h.value ++ c :: zs }] = headers := by
  rw [Scans.skip_iff (p := fun c => ¬(c = 32 ∨ c = 9) ∧ isCtl c = false) (q := fun c => c = 32 ∨ c = 9)
    (g := fun c => (hs ++ [{ h with value := h.value ++ [c] }], .value)) (by simp)]
  · simp only [header_value, List.append_assoc, List.singleton_append]
  · intro c hc
    simp only [headerStep, if_pos hc]
  · intro c hc
    simp only [headerStep, if_neg hc.1, hc.2, List.modifyLast_concat, Bool.false_eq_true, if_false]
  · intro c hb hc
    have hctl : isCtl c = true := Bool.of_not_eq_false fun hctl => hc ⟨hb, hctl⟩
    simp only [headerStep, if_neg hb, if_pos hctl]

lemma parserHeader_eq : parserHeader hs line = some headers ↔
    Scans headerStep (hs, .start) line (headers, .value) := by
  rw [parserHeader, Scans]
  rcases line.foldlM headerStep (hs, .start) with _ | ⟨headers, state⟩
  · simp
  · cases state <;> simp

lemma header_own : (∃ c xs, line = c :: xs ∧ isToken c = true ∧
      Scans headerStep (hs ++ [⟨[c], []⟩], .name) xs (headers, .value)) ↔
    ∃ h : Header, h.Writable ∧ h.line = line ∧ hs ++ [h] = headers := by
  simp only [header_name, header_space]
  constructor
  · rintro ⟨c, _, rfl, hc, name, _, rfl, hname, value, rfl, hvalue, rfl⟩
    refine ⟨⟨c :: name, value⟩, ⟨List.cons_ne_nil c name, List.forall_mem_cons.mpr ⟨hc, hname⟩, hvalue⟩,
      ?_, rfl⟩
    simp [Header.line, nameValueSeparator, ascii]
  · rintro ⟨⟨name, value⟩, ⟨hne, hname, hvalue⟩, rfl, rfl⟩
    obtain ⟨c, name, rfl⟩ := List.exists_cons_of_ne_nil hne
    obtain ⟨hc, hname⟩ := List.forall_mem_cons.mp hname
    refine ⟨c, _, rfl, hc, name, _, ?_, hname, value, rfl, hvalue, rfl⟩
    simp [nameValueSeparator, ascii]

lemma header_folded : (∃ c xs, line = c :: xs ∧ (c = 32 ∨ c = 9) ∧
      Scans headerStep (hs ++ [h], .lws) xs (headers, .value)) ↔
    ∃ l : FoldedLine, l.bytes = line ∧ hs ++ [{ h with value := h.value ++ l.text }] = headers := by
  simp only [header_lws]
  constructor
  · rintro ⟨b, _, rfl, hb, blanks, c, text, rfl, hblanks, ⟨hc, hctl⟩, htext, rfl⟩
    refine ⟨⟨b :: blanks, c :: text, List.cons_ne_nil b blanks, List.forall_mem_cons.mpr ⟨hb, hblanks⟩,
      List.cons_ne_nil c text, ?_, List.forall_mem_cons.mpr ⟨hctl, htext⟩⟩, rfl, rfl⟩
    rintro d hd
    cases hd
    exact hc
  · rintro ⟨⟨blanks, text, hblanks, hblank, htext, hhead, hvalue⟩, rfl, rfl⟩
    obtain ⟨b, blanks, rfl⟩ := List.exists_cons_of_ne_nil hblanks
    obtain ⟨c, text, rfl⟩ := List.exists_cons_of_ne_nil htext
    obtain ⟨hb, hblank⟩ := List.forall_mem_cons.mp hblank
    obtain ⟨hctl, hvalue⟩ := List.forall_mem_cons.mp hvalue
    exact ⟨b, _, rfl, hb, blanks, c, text, rfl, hblank, ⟨hhead c rfl, hctl⟩, hvalue, rfl⟩

lemma header_start : Scans headerStep (hs, .start) line (headers, .value) ↔
    (∃ c xs, line = c :: xs ∧ isToken c = true ∧
      Scans headerStep (hs ++ [⟨[c], []⟩], .name) xs (headers, .value)) ∨
    (hs ≠ [] ∧ ∃ c xs, line = c :: xs ∧ (c = 32 ∨ c = 9) ∧
      Scans headerStep (hs, .lws) xs (headers, .value)) := by
  cases line with
  | nil => simp
  | cons c xs =>
    have hcons (p : UInt8 → Prop) (q : UInt8 → List UInt8 → Prop) :
        (∃ d ys, c :: xs = d :: ys ∧ p d ∧ q d ys) ↔ p c ∧ q c xs := by
      constructor
      · rintro ⟨d, ys, he, hp, hq⟩
        cases he
        exact ⟨hp, hq⟩
      · rintro ⟨hp, hq⟩
        exact ⟨c, xs, rfl, hp, hq⟩
    rw [hcons, hcons, Scans.cons_iff]
    by_cases hb : hs ≠ [] ∧ (c = 32 ∨ c = 9)
    · have htoken : ¬isToken c = true := fun hc => blank_of_isToken hc hb.2
      simp [headerStep, hb, htoken]
    · rw [← and_assoc]
      by_cases hc : isToken c = true
      · simp [headerStep, hb, token_iff, hc]
      · simp [headerStep, hb, token_iff, hc]

lemma parserHeader_iff : parserHeader hs line = some headers ↔
    (∃ h : Header, h.Writable ∧ h.line = line ∧ hs ++ [h] = headers) ∨
    ∃ init last, hs = init ++ [last] ∧ ∃ l : FoldedLine,
      l.bytes = line ∧ init ++ [{ last with value := last.value ++ l.text }] = headers := by
  rw [parserHeader_eq, header_start, header_own]
  apply or_congr_right
  rcases List.eq_nil_or_concat hs with rfl | ⟨init, last, rfl⟩
  · simp
  · rw [List.concat_eq_append, header_folded]
    constructor
    · rintro ⟨-, l, hl⟩
      exact ⟨init, last, rfl, l, hl⟩
    · rintro ⟨init', last', he, l, hl⟩
      obtain ⟨rfl, hlast⟩ := List.append_inj' he rfl
      cases hlast
      exact ⟨by simp, l, hl⟩

end Headers

/-- The numbers of a line are left out here: the source counts them in 32 bits. -/
theorem http_line_grammars :
    (∀ line, (∃ req, parserRequestLine {} line = some req) ↔ ∃ l : RequestLine, l.bytes = line) ∧
    (∀ l : RequestLine, ∃ req, parserRequestLine {} l.bytes = some req ∧
      req.method = l.method ∧ req.uri = l.uri) ∧
    (∀ rep line, (∃ rep', parserReplyLine rep line = some rep') ↔ ∃ l : ReplyLine, l.bytes = line) ∧
    ∀ headers line headers', parserHeader headers line = some headers' ↔
      (∃ h : Header, h.Writable ∧ h.line = line ∧ headers ++ [h] = headers') ∨
      ∃ init last, headers = init ++ [last] ∧ ∃ l : FoldedLine,
        l.bytes = line ∧ init ++ [{ last with value := last.value ++ l.text }] = headers' := by
  refine ⟨fun line => ?_, fun l => ?_, fun rep line => ?_, fun headers line headers' => parserHeader_iff⟩
  · constructor
    · rintro ⟨req, hreq⟩
      obtain ⟨l, hl, -⟩ := parserRequestLine_iff.mp hreq
      exact ⟨l, hl⟩
    · rintro ⟨l, hl⟩
      exact ⟨l.request, parserRequestLine_iff.mpr ⟨l, hl, rfl⟩⟩
  · exact ⟨l.request, parserRequestLine_iff.mpr ⟨l, rfl, rfl⟩, rfl, rfl⟩
  · constructor
    · rintro ⟨rep', hrep⟩
      obtain ⟨l, hl, -⟩ := parserReplyLine_iff.mp hrep
      exact ⟨l, hl⟩
    · rintro ⟨l, hl⟩
      exact ⟨_, parserReplyLine_iff.mpr ⟨l, hl, rfl⟩⟩

end Simple.Web.Http
