import Simple.Lib.Machine
import Simple.Lib.Table
import Simple.Log.Flags

/-! The formatter: a pattern is read into flags, and the flags write the messages. -/

namespace Simple.Log

open Simple.Lib Simple.Utils.Time

variable {C : Type}

def paddingMax : ℕ := 64

def digitsValue (digits : Text) : ℕ :=
  digits.foldl (fun width c => (width * 10 + (c.toNat - '0'.toNat)) % 2 ^ 64) 0

def padSide : Text → PadSide × Text
  | '-' :: it => (.right, it)
  | '=' :: it => (.center, it)
  | it => (.left, it)

/-- The padding, and where `it` stands behind it. -/
def handlePadding (it : Text) : LogPadding × Text :=
  let (side, it) := padSide it
  let digits := it.takeWhile Char.isDigit
  if digits = [] then ({}, it)
  else
    let width := min (digitsValue digits) paddingMax
    match it.dropWhile Char.isDigit with
    | '!' :: it => ({ width := width, side := side, truncate := true, enabled := true }, it)
    | it => ({ width := width, side := side, truncate := false, enabled := true }, it)

lemma padSide_length (it : Text) : (padSide it).2.length ≤ it.length := by
  unfold padSide
  split
  · exact Nat.le_succ _
  · exact Nat.le_succ _
  · exact le_rfl

lemma handlePadding_length (it : Text) : (handlePadding it).2.length ≤ it.length := by
  have hside := padSide_length it
  have hdrop := (List.dropWhile_sublist Char.isDigit (l := (padSide it).2)).length_le
  unfold handlePadding
  simp only
  split
  · exact hside
  · split
    · rename_i hmark
      rw [hmark, List.length_cons] at hdrop
      simp only
      omega
    · exact hdrop.trans hside

/-- The flags of the source's `switch`, and whether they need the broken-down time. -/
def fieldOf : Char → Option (Field × Bool)
  | 'n' => some (.name, false) | 'l' => some (.level, false) | 'L' => some (.shortLevel, false)
  | 't' => some (.tid, false) | 'v' => some (.value, false) | 'a' => some (.shortWeekday, true)
  | 'A' => some (.weekday, true) | 'b' | 'h' => some (.shortMonthName, true)
  | 'B' => some (.monthName, true) | 'c' => some (.dateTime, true) | 'C' => some (.shortYear, true)
  | 'Y' => some (.year, true) | 'D' | 'x' => some (.shortDate, true) | 'm' => some (.month, true)
  | 'd' => some (.day, true) | 'H' => some (.hour24, true) | 'I' => some (.hour12, true)
  | 'M' => some (.min, true) | 'S' => some (.sec, true) | 'e' => some (.millis, false)
  | 'f' => some (.micros, false) | 'F' => some (.nanosecond, false)
  | 'E' => some (.timestamp, false) | 'p' => some (.noon, true) | 'r' => some (.clockHour12, true)
  | 'R' => some (.shortClockHour24, true) | 'T' | 'X' => some (.clockHour24, true)
  | 'P' => some (.pid, false) | '@' => some (.sourceLocation, false)
  | 's' => some (.shortFilename, false) | 'g' => some (.filename, false) | '#' => some (.line, false)
  | '!' => some (.func, false)
  | _ => none

def elapsedUnit : Char → Option ℤ
  | 'u' => some 1 | 'i' => some 1000 | 'o' => some 1000000 | 'O' => some 1000000000
  | _ => none

section Flags

variable (customFlags : Table Char (LogPadding → C)) (now : TimePoint)

/-- What `handle_flag` adds to `formatters_`, and whether it sets `need_localtime_`. -/
def handleFlag (pads : Bool) (flag : Char) (padding : LogPadding) : List (Flag C) × Bool :=
  match customFlags.get flag with
  | some create => ([.custom (create padding)], false)
  | none =>
    match fieldOf flag, elapsedUnit flag with
    | some (field, needLocaltime), _ => ([.field field pads padding], needLocaltime)
    | none, some unit => ([.elapsed unit pads padding now.ns], false)
    | none, none =>
      if flag = 'z' then ([.timezone pads padding 0 0], true)
      else if flag = '^' then ([.colorStart], false)
      else if flag = '$' then ([.colorStop], false)
      else if flag = '%' then ([.ch '%'], false)
      else if padding.truncate then
        -- A flag that is not known, behind `!`: the function's name and the character.
        ([.field .func pads { padding with truncate := false }, .aggregate [flag]], false)
      else ([.aggregate ['%', flag]], false)

/-- `formatters_`, `need_localtime_` and `user_chars` in the loop of `set_pattern`. -/
structure Scan (C : Type) where
  formatters : List (Flag C) := []
  needLocaltime : Bool := false
  userChars : Text := []

def Scan.flushChars (s : Scan C) : Scan C :=
  if s.userChars = [] then s
  else { s with formatters := s.formatters ++ [.aggregate s.userChars], userChars := [] }

def Scan.add (s : Scan C) (flags : List (Flag C) × Bool) : Scan C :=
  { s with
    formatters := s.formatters ++ flags.1
    needLocaltime := s.needLocaltime || flags.2 }

def scanPattern (it : Text) (s : Scan C) : Scan C :=
  match it with
  | [] => s
  | c :: rest =>
    if c = '%' then
      match (handlePadding rest).2, handlePadding_length rest with
      | [], _ => s.flushChars
      | flag :: rest', hle =>
        have : rest'.length < rest.length + 1 := Nat.lt_succ_of_lt hle
        scanPattern rest' (s.flushChars.add
          (handleFlag customFlags now (handlePadding rest).1.enabled flag (handlePadding rest).1))
    else scanPattern rest { s with userChars := s.userChars ++ [c] }
termination_by it.length

end Flags

def initialTm : Tm := ⟨0, 0, 0, 0, 0, 0, 0, 0⟩

structure LogFormatter (C : Type) where
  timeType : LogTimeType
  needLocaltime : Bool
  cachedTm : Tm := initialTm
  lastLogSecs : ℤ := 0
  customFlags : Table Char (LogPadding → C) := ∅
  formatters : List (Flag C) := []

/-- The buffer, and the places in it that the message takes for its colours. -/
structure Out where
  dest : Text
  colorStart : ℕ := 0
  colorStop : ℕ := 0

def eol : Text := ['\n']

section Code

variable (custom : CustomFlags C) (pid : ℤ) (localtime : TimePoint → Tm)

def Flag.format (msg : LogMessage) (tm : Tm) (f : Flag C) (out : Out) : Option Out := do
  let dest ← (f.rendered custom pid msg tm).append out.dest
  match f with
  | .colorStart => some { out with dest := dest, colorStart := out.dest.length }
  | .colorStop => some { out with dest := dest, colorStop := out.dest.length }
  | _ => some { out with dest := dest }

def formatFlags (msg : LogMessage) (tm : Tm) : List (Flag C) → Out → Option Out
  | [], out => some out
  | f :: fs, out => do formatFlags msg tm fs (← f.format custom pid msg tm out)

namespace LogFormatter

def setPattern (now : TimePoint) (pattern : Text) (f : LogFormatter C) : LogFormatter C :=
  let s := scanPattern f.customFlags now pattern {}
  { f with needLocaltime := s.needLocaltime, formatters := s.formatters }

def create (now : TimePoint) (pattern : Text) (timeType : LogTimeType) : LogFormatter C :=
  setPattern now pattern { timeType := timeType, needLocaltime := false }

def cacheTm (msg : LogMessage) (f : LogFormatter C) : LogFormatter C :=
  if f.needLocaltime = true ∧ msg.point.seconds ≠ f.lastLogSecs then
    { f with
      cachedTm := match f.timeType with
        | .localTime => localtime msg.point
        | .utc => gmtime msg.point
      lastLogSecs := msg.point.seconds }
  else f

def formatted (msg : LogMessage) (f : LogFormatter C) : LogFormatter C :=
  let f := f.cacheTm localtime msg
  { f with formatters := f.formatters.map (Flag.after custom msg f.cachedTm) }

def format (msg : LogMessage) (out : Out) (f : LogFormatter C) : Option (Out × LogFormatter C) := do
  let cached := f.cacheTm localtime msg
  let out ← formatFlags custom pid msg cached.cachedTm cached.formatters out
  some ({ out with dest := out.dest ++ eol }, f.formatted custom localtime msg)

def clone (now : TimePoint) (f : LogFormatter C) : LogFormatter C :=
  { (create now [] f.timeType : LogFormatter C) with
    needLocaltime := f.needLocaltime
    customFlags := f.customFlags
    formatters := f.formatters.map (Flag.clone custom now) }

def addCustomFlag (ch : Char) (func : LogPadding → C) (f : LogFormatter C) : LogFormatter C :=
  { f with customFlags := f.customFlags.set ch func }

end LogFormatter

/-- What may happen to a formatter between its pattern and a message. -/
inductive FormatterOp (C : Type)
  | format (msg : LogMessage) (out : Out)
  | clone (now : TimePoint)
  | addCustomFlag (ch : Char) (func : LogPadding → C)

/-- `none`: a padder has made a buffer shorter than empty, and the program ends. -/
def LogFormatter.step (f : LogFormatter C) : FormatterOp C → Option (LogFormatter C)
  | .format msg out => (f.format custom pid localtime msg out).map Prod.snd
  | .clone now => some (f.clone custom now)
  | .addCustomFlag ch func => some (f.addCustomFlag ch func)

end Code

inductive Piece
  | literal (c : Char)
  | flag (padding : LogPadding) (c : Char)
  | incomplete
  deriving DecidableEq

def pieces (pattern : Text) : List Piece :=
  match pattern with
  | [] => []
  | c :: rest =>
    if c = '%' then
      match (handlePadding rest).2, handlePadding_length rest with
      | [], _ => [.incomplete]
      | flag :: rest', hle =>
        have : rest'.length < rest.length + 1 := Nat.lt_succ_of_lt hle
        .flag (handlePadding rest).1 flag :: pieces rest'
    else .literal c :: pieces rest
termination_by pattern.length

section Spec

variable (custom : CustomFlags C) (pid : ℤ) (localtime : TimePoint → Tm)

def Piece.flags (customFlags : Table Char (LogPadding → C)) (now : TimePoint) : Piece → List (Flag C)
  | .literal c => [.aggregate [c]]
  | .flag padding c => (handleFlag customFlags now padding.enabled c padding).1
  | .incomplete => []

/-- The texts of the flags one after another, each as it stands in an empty buffer. -/
def rendering (msg : LogMessage) (tm : Tm) : List (Flag C) → Option Text
  | [] => some []
  | f :: fs => do
    let text ← (f.rendered custom pid msg tm).append []
    let rest ← rendering msg tm fs
    some (text ++ rest)

/-- The formatter that has one flag after another for all that the pattern says. -/
def LogFormatter.ideal (now : TimePoint) (pattern : Text) (f : LogFormatter C) : LogFormatter C :=
  { f.setPattern now pattern with
    formatters := (pieces pattern).flatMap (Piece.flags f.customFlags now) }

def LogTimeType.tm (p : TimePoint) : LogTimeType → Tm
  | .localTime => localtime p
  | .utc => gmtime p

def LogFormatter.tm (p : TimePoint) (f : LogFormatter C) : Tm :=
  if f.needLocaltime then f.timeType.tm localtime p else f.cachedTm

def LogFormatter.rendering (msg : LogMessage) (f : LogFormatter C) : Option Text :=
  Log.rendering custom pid msg (f.tm localtime msg.point) f.formatters

/-- Every flag has seen every message with the message's own time. -/
def LogFormatter.advance (f : LogFormatter C) : FormatterOp C → LogFormatter C
  | .format msg _ =>
    { f with formatters := f.formatters.map (Flag.after custom msg (f.tm localtime msg.point)) }
  | .clone now => f.clone custom now
  | .addCustomFlag ch func => f.addCustomFlag ch func

end Spec

def LogFormatter.Unset (f : LogFormatter C) : Prop := f.lastLogSecs = 0 ∧ f.cachedTm = initialTm

/-- What is held is the time of the second that is held with it. -/
def LogFormatter.Dated (localtime : TimePoint → Tm) (f : LogFormatter C) : Prop :=
  f.Unset ∨ ∀ p : TimePoint, p.seconds = f.lastLogSecs → f.cachedTm = f.timeType.tm localtime p

/-- Second 0 is not taken for the one that a new formatter holds. -/
def LogFormatter.Timely (f : LogFormatter C) (msg : LogMessage) : Prop :=
  f.needLocaltime = true → f.Unset → msg.point.seconds ≠ 0

def LogFormatter.TimelyOp (f : LogFormatter C) : FormatterOp C → Prop
  | .format msg _ => f.Timely msg
  | _ => True

def appendTexts (text rest : Option Text) : Option Text := do
  let text ← text
  let rest ← rest
  some (text ++ rest)

@[simp] lemma some_nil_appendTexts (rest : Option Text) : appendTexts (some []) rest = rest := by
  cases rest <;> rfl

@[simp] lemma appendTexts_some_nil (text : Option Text) : appendTexts text (some []) = text := by
  cases text with
  | none => rfl
  | some text => exact congrArg some (List.append_nil text)

@[simp] lemma appendTexts_some (text rest : Text) :
    appendTexts (some text) (some rest) = some (text ++ rest) := rfl

lemma appendTexts_assoc (a b c : Option Text) :
    appendTexts (appendTexts a b) c = appendTexts a (appendTexts b c) := by
  cases a with
  | none => rfl
  | some a =>
    cases b with
    | none => rfl
    | some b =>
      cases c with
      | none => rfl
      | some c => exact congrArg some (List.append_assoc a b c)

section Rendering

variable {custom : CustomFlags C} {pid : ℤ} {msg : LogMessage} {tm : Tm} {fs gs : List (Flag C)}

def Flag.Overruns (custom : CustomFlags C) (pid : ℤ) (msg : LogMessage) (tm : Tm) (f : Flag C) :
    Prop :=
  (f.rendered custom pid msg tm).Overruns

lemma rendering_append : rendering custom pid msg tm (fs ++ gs) =
    appendTexts (rendering custom pid msg tm fs) (rendering custom pid msg tm gs) := by
  induction fs with
  | nil => rw [List.nil_append, rendering, some_nil_appendTexts]
  | cons f fs ih =>
    rw [List.cons_append, rendering, rendering, ih]
    cases (f.rendered custom pid msg tm).append [] with
    | none => rfl
    | some text => exact (appendTexts_assoc (some text) _ _).symm

@[simp] lemma rendering_aggregate (str : Text) :
    rendering custom pid msg tm [.aggregate str] = some str := by
  simp [rendering, Flag.rendered, Rendered.append]

lemma rendering_eq_none (h : ∃ f ∈ fs, f.Overruns custom pid msg tm) :
    rendering custom pid msg tm fs = none := by
  obtain ⟨f, hf, hover⟩ := h
  induction fs with
  | nil => cases hf
  | cons g fs ih =>
    rw [rendering]
    cases hf with
    | head =>
      rw [Rendered.append_nil_of_overruns hover]
      rfl
    | tail _ hf =>
      rw [ih hf]
      cases (g.rendered custom pid msg tm).append [] <;> rfl

lemma Flag.format_dest {f : Flag C} (h : ¬f.Overruns custom pid msg tm) (out : Out) :
    ∃ text out', (f.rendered custom pid msg tm).append [] = some text ∧
      f.format custom pid msg tm out = some out' ∧ out'.dest = out.dest ++ text := by
  obtain ⟨text, hnil, hdest⟩ := Rendered.append_eq h out.dest
  rw [Flag.format, hdest]
  cases f <;> exact ⟨text, _, hnil, rfl, rfl⟩

lemma formatFlags_dest (h : ∀ f ∈ fs, ¬f.Overruns custom pid msg tm) (out : Out) :
    ∃ text out', rendering custom pid msg tm fs = some text ∧
      formatFlags custom pid msg tm fs out = some out' ∧ out'.dest = out.dest ++ text := by
  induction fs generalizing out with
  | nil => exact ⟨[], out, rfl, rfl, (List.append_nil _).symm⟩
  | cons f fs ih =>
    obtain ⟨hf, hfs⟩ := List.forall_mem_cons.mp h
    obtain ⟨text, out', htext, hformat, hdest⟩ := Flag.format_dest hf out
    obtain ⟨rest, out'', hrest, hformats, hdests⟩ := ih hfs out'
    refine ⟨text ++ rest, out'', ?_, ?_, ?_⟩
    · rw [rendering, htext, hrest]
      rfl
    · rw [formatFlags, hformat]
      exact hformats
    · rw [hdests, hdest, List.append_assoc]

end Rendering

section Equations

variable {customFlags : Table Char (LogPadding → C)} {now : TimePoint} {s : Scan C} {c flag : Char}
  {rest rest' : Text}

lemma scanPattern_incomplete (h : (handlePadding rest).2 = []) :
    scanPattern customFlags now ('%' :: rest) s = s.flushChars := by
  rw [scanPattern, if_pos rfl]
  split
  · rfl
  · rename_i hflag _
    exact absurd (h.symm.trans hflag) (List.cons_ne_nil _ _).symm

lemma scanPattern_flag (h : (handlePadding rest).2 = flag :: rest') :
    scanPattern customFlags now ('%' :: rest) s = scanPattern customFlags now rest'
      (s.flushChars.add (handleFlag customFlags now (handlePadding rest).1.enabled flag
        (handlePadding rest).1)) := by
  rw [scanPattern, if_pos rfl]
  split
  · rename_i hnil _
    exact absurd (h.symm.trans hnil) (List.cons_ne_nil _ _)
  · rename_i hflag _
    obtain ⟨rfl, rfl⟩ := List.cons.inj (h.symm.trans hflag)
    rfl

lemma scanPattern_literal (h : c ≠ '%') :
    scanPattern customFlags now (c :: rest) s =
      scanPattern customFlags now rest { s with userChars := s.userChars ++ [c] } := by
  rw [scanPattern, if_neg h]

lemma pieces_incomplete (h : (handlePadding rest).2 = []) : pieces ('%' :: rest) = [.incomplete] := by
  rw [pieces, if_pos rfl]
  split
  · rfl
  · rename_i hflag _
    exact absurd (h.symm.trans hflag) (List.cons_ne_nil _ _).symm

lemma pieces_flag (h : (handlePadding rest).2 = flag :: rest') :
    pieces ('%' :: rest) = .flag (handlePadding rest).1 flag :: pieces rest' := by
  rw [pieces, if_pos rfl]
  split
  · rename_i hnil _
    exact absurd (h.symm.trans hnil) (List.cons_ne_nil _ _)
  · rename_i hflag _
    obtain ⟨rfl, rfl⟩ := List.cons.inj (h.symm.trans hflag)
    rfl

lemma pieces_literal (h : c ≠ '%') : pieces (c :: rest) = .literal c :: pieces rest := by
  rw [pieces, if_neg h]

end Equations

/-- A change of flags that leaves texts as they are. -/
def KeepsTexts (g : Flag C → Flag C) : Prop := ∀ str, g (.aggregate str) = .aggregate str

lemma keepsTexts_after (custom : CustomFlags C) (msg : LogMessage) (tm : Tm) :
    KeepsTexts (Flag.after custom msg tm) := fun _ => rfl

lemma keepsTexts_clone (custom : CustomFlags C) (now : TimePoint) :
    KeepsTexts (Flag.clone custom now) := fun _ => rfl

lemma KeepsTexts.comp {h k : Flag C → Flag C} (hk : KeepsTexts k) (hh : KeepsTexts h) :
    KeepsTexts (k ∘ h) := by
  intro str
  rw [Function.comp_apply, hh, hk]

section Loop

variable {custom : CustomFlags C} {pid : ℤ} {msg : LogMessage} {tm : Tm} {g : Flag C → Flag C}
  {customFlags : Table Char (LogPadding → C)} {now : TimePoint}

/-- The flags that have been added, and the text that has not. -/
def Scan.all (s : Scan C) : List (Flag C) := s.formatters ++ [.aggregate s.userChars]

lemma rendering_all (hg : KeepsTexts g) (s : Scan C) :
    rendering custom pid msg tm (s.all.map g) =
      appendTexts (rendering custom pid msg tm (s.formatters.map g)) (some s.userChars) := by
  rw [Scan.all, List.map_append, rendering_append, List.map_singleton, hg, rendering_aggregate]

lemma rendering_flushChars (hg : KeepsTexts g) (s : Scan C) :
    rendering custom pid msg tm (s.flushChars.formatters.map g) =
      rendering custom pid msg tm (s.all.map g) := by
  unfold Scan.flushChars
  split
  · rename_i hnil
    rw [rendering_all hg, hnil, appendTexts_some_nil]
  · rfl

lemma Scan.flushChars_userChars (s : Scan C) : s.flushChars.userChars = [] := by
  unfold Scan.flushChars
  split
  · assumption
  · rfl

variable (custom pid msg tm customFlags now) in
/-- No character is lost in the loop: what it has added and what it still holds is what the pieces
say. The induction is on the calls of the loop. -/
lemma scanPattern_rendering (hg : KeepsTexts g) (it : Text) (s : Scan C) :
    rendering custom pid msg tm ((scanPattern customFlags now it s).all.map g) =
      appendTexts (rendering custom pid msg tm (s.all.map g)) (rendering custom pid msg tm
        (((pieces it).flatMap (Piece.flags customFlags now)).map g)) := by
  induction it, s using scanPattern.induct customFlags now with
  | case1 s =>
    rw [scanPattern, pieces]
    exact (appendTexts_some_nil _).symm
  | case2 s rest _ hnil =>
    rw [scanPattern_incomplete hnil, pieces_incomplete hnil, rendering_all hg, s.flushChars_userChars,
      rendering_flushChars hg]
    rfl
  | case3 s rest flag rest' _ hflag _ ih =>
    rw [scanPattern_flag hflag, pieces_flag hflag, ih, rendering_all hg]
    simp only [Scan.add, s.flushChars_userChars, appendTexts_some_nil, List.flatMap_cons,
      List.map_append, rendering_append, rendering_flushChars hg, Piece.flags, appendTexts_assoc]
  | case4 s c rest hc ih =>
    have hjoin : appendTexts (some s.userChars) (some [c]) = some (s.userChars ++ [c]) := rfl
    rw [scanPattern_literal hc, pieces_literal hc, ih, rendering_all hg, rendering_all hg, ← hjoin]
    simp only [List.flatMap_cons, List.map_append, rendering_append, Piece.flags, List.map_singleton,
      hg [c], rendering_aggregate, appendTexts_assoc]

end Loop

section Runs

variable {custom : CustomFlags C} {pid : ℤ} {localtime : TimePoint → Tm}

def LogFormatter.OverrunsAt (custom : CustomFlags C) (pid : ℤ) (msg : LogMessage) (tm : Tm)
    (f : LogFormatter C) : Prop :=
  ∃ flag ∈ f.formatters, flag.Overruns custom pid msg tm

def LogFormatter.Overruns (custom : CustomFlags C) (pid : ℤ) (localtime : TimePoint → Tm)
    (msg : LogMessage) (f : LogFormatter C) : Prop :=
  f.OverrunsAt custom pid msg (f.cacheTm localtime msg).cachedTm

namespace LogFormatter

variable {start f f' g : LogFormatter C} {fs gs : List (Flag C)} {op : FormatterOp C}
  {msg : LogMessage}

lemma overrunsAt_iff_rendering {tm : Tm} : f.OverrunsAt custom pid msg tm ↔
    Log.rendering custom pid msg tm f.formatters = none := by
  refine ⟨rendering_eq_none, fun h => ?_⟩
  by_contra hover
  obtain ⟨_, _, htext, -⟩ := formatFlags_dest
    (fun flag hflag hflagOver => hover ⟨flag, hflag, hflagOver⟩) ⟨[], 0, 0⟩
  exact Option.some_ne_none _ (htext.symm.trans h)

lemma cacheTm_formatters (msg : LogMessage) (f : LogFormatter C) :
    (f.cacheTm localtime msg).formatters = f.formatters := by
  unfold cacheTm
  split <;> rfl

lemma cacheTm_timeType (msg : LogMessage) (f : LogFormatter C) :
    (f.cacheTm localtime msg).timeType = f.timeType := by
  unfold cacheTm
  split <;> rfl

lemma cacheTm_needLocaltime (msg : LogMessage) (f : LogFormatter C) :
    (f.cacheTm localtime msg).needLocaltime = f.needLocaltime := by
  unfold cacheTm
  split <;> rfl

lemma cacheTm_customFlags (msg : LogMessage) (f : LogFormatter C) :
    (f.cacheTm localtime msg).customFlags = f.customFlags := by
  unfold cacheTm
  split <;> rfl

lemma cacheTm_of_not (h : ¬(f.needLocaltime = true ∧ msg.point.seconds ≠ f.lastLogSecs)) :
    f.cacheTm localtime msg = f := if_neg h

lemma cacheTm_of_ne (h : f.needLocaltime = true ∧ msg.point.seconds ≠ f.lastLogSecs) :
    f.cacheTm localtime msg = { f with
      cachedTm := f.timeType.tm localtime msg.point
      lastLogSecs := msg.point.seconds } := by
  rw [cacheTm, if_pos h]
  cases f.timeType <;> rfl

lemma cacheTm_timely (hd : f.Dated localtime) (ht : f.Timely msg) :
    (f.cacheTm localtime msg).cachedTm = f.tm localtime msg.point := by
  by_cases hne : f.needLocaltime = true ∧ msg.point.seconds ≠ f.lastLogSecs
  · rw [cacheTm_of_ne hne, LogFormatter.tm, if_pos hne.1]
  · rw [cacheTm_of_not hne, LogFormatter.tm]
    split
    · rename_i hneed
      have hsecs : msg.point.seconds = f.lastLogSecs := by
        by_contra hsecs
        exact hne ⟨hneed, hsecs⟩
      rcases hd with hunset | hdated
      · exact absurd (hsecs.trans hunset.1) (ht hneed hunset)
      · exact hdated msg.point hsecs
    · rfl

lemma gmtime_congr {p q : TimePoint} (h : p.seconds = q.seconds) : gmtime p = gmtime q := by
  rw [gmtime, gmtime, h]

lemma Dated.step (hlocal : ∀ p q : TimePoint, p.seconds = q.seconds → localtime p = localtime q)
    (hd : f.Dated localtime) (hstep : f.step custom pid localtime op = some f') :
    f'.Dated localtime := by
  cases op with
  | format msg out =>
    simp only [LogFormatter.step, LogFormatter.format, Option.map_eq_some_iff, Option.bind_eq_bind,
      Option.bind_eq_some_iff, Option.some.injEq] at hstep
    obtain ⟨_, ⟨_, -, rfl⟩, rfl⟩ := hstep
    by_cases hne : f.needLocaltime = true ∧ msg.point.seconds ≠ f.lastLogSecs
    · right
      intro p hp
      simp only [formatted, cacheTm_of_ne hne] at hp ⊢
      cases f.timeType with
      | localTime => exact hlocal _ _ hp.symm
      | utc => exact gmtime_congr hp.symm
    · simp only [formatted, cacheTm_of_not hne]
      exact hd
  | clone now =>
    cases hstep
    exact Or.inl ⟨rfl, rfl⟩
  | addCustomFlag ch func =>
    cases hstep
    exact hd

/-- The flags of `f` and of `g` are `fs` and `gs` after one and the same past, in which texts have
not changed; what else is read of the two formatters is equal. -/
structure Keeps (fs gs : List (Flag C)) (f g : LogFormatter C) : Prop where
  formatters : ∃ h, KeepsTexts h ∧ f.formatters = fs.map h ∧ g.formatters = gs.map h
  timeType : g.timeType = f.timeType
  needLocaltime : g.needLocaltime = f.needLocaltime
  customFlags : g.customFlags = f.customFlags
  cachedTm : f.needLocaltime = false → g.cachedTm = f.cachedTm

lemma Keeps.tm_eq (h : Keeps fs gs f g) (p : TimePoint) : g.tm localtime p = f.tm localtime p := by
  unfold LogFormatter.tm
  rw [h.needLocaltime, h.timeType]
  cases hneed : f.needLocaltime with
  | true => rfl
  | false => exact h.cachedTm hneed

lemma Keeps.map {k : Flag C → Flag C} (hk : KeepsTexts k) (h : Keeps fs gs f g) :
    ∃ h, KeepsTexts h ∧ f.formatters.map k = fs.map h ∧ g.formatters.map k = gs.map h := by
  obtain ⟨h, hh, hf, hg⟩ := h.formatters
  exact ⟨k ∘ h, KeepsTexts.comp hk hh, by rw [hf, List.map_map], by rw [hg, List.map_map]⟩

lemma Keeps.step (hd : f.Dated localtime) (h : Keeps fs gs f g) (ht : f.TimelyOp op)
    (hstep : f.step custom pid localtime op = some f') :
    Keeps fs gs f' (g.advance custom localtime op) := by
  cases op with
  | format msg out =>
    simp only [LogFormatter.step, LogFormatter.format, Option.map_eq_some_iff, Option.bind_eq_bind,
      Option.bind_eq_some_iff, Option.some.injEq] at hstep
    obtain ⟨_, ⟨_, -, rfl⟩, rfl⟩ := hstep
    have htm : (f.cacheTm localtime msg).cachedTm = g.tm localtime msg.point :=
      (cacheTm_timely hd ht).trans (h.tm_eq msg.point).symm
    refine ⟨?_, ?_, ?_, ?_, ?_⟩
    · simp only [formatted, advance, cacheTm_formatters, htm]
      exact h.map (keepsTexts_after custom msg _)
    · simpa only [formatted, advance, cacheTm_timeType] using h.timeType
    · simpa only [formatted, advance, cacheTm_needLocaltime] using h.needLocaltime
    · simpa only [formatted, advance, cacheTm_customFlags] using h.customFlags
    · intro hneed
      rw [formatted, cacheTm_needLocaltime] at hneed
      have hkept : f.cacheTm localtime msg = f :=
        cacheTm_of_not fun hne => Bool.false_ne_true (hneed.symm.trans hne.1)
      simp only [formatted, advance, hkept]
      exact h.cachedTm hneed
  | clone now =>
    cases hstep
    exact ⟨h.map (keepsTexts_clone custom now), h.timeType, h.needLocaltime, h.customFlags,
      fun _ => rfl⟩
  | addCustomFlag ch func =>
    cases hstep
    exact ⟨h.formatters, h.timeType, h.needLocaltime, congrArg (Table.set · ch func) h.customFlags,
      h.cachedTm⟩

variable {now : TimePoint} {pattern : Text} {ops : List (FormatterOp C)}

lemma Dated.setPattern (hd : f.Dated localtime) (now : TimePoint) (pattern : Text) :
    (f.setPattern now pattern).Dated localtime := hd

lemma Keeps.rendering (custom : CustomFlags C) (pid : ℤ) (msg : LogMessage) (tm : Tm)
    (f₀ : LogFormatter C)
    (h : Keeps (f₀.setPattern now pattern).formatters (f₀.ideal now pattern).formatters f g) :
    Log.rendering custom pid msg tm g.formatters =
      appendTexts (Log.rendering custom pid msg tm f.formatters)
        (some (scanPattern f₀.customFlags now pattern {}).userChars) := by
  obtain ⟨k, hk, hf, hg⟩ := h.formatters
  have hscan := scanPattern_rendering custom pid msg tm f₀.customFlags now hk pattern {}
  rw [rendering_all hk] at hscan
  rw [hf, hg]
  refine Eq.symm (hscan.trans ?_)
  rw [rendering_all hk]
  exact (congrArg (appendTexts · _) (some_nil_appendTexts (some []))).trans (some_nil_appendTexts _)

lemma format_dest {text : Text} (h : Log.rendering custom pid msg (f.cacheTm localtime msg).cachedTm
      f.formatters = some text) (out : Out) :
    ∃ out' f', f.format custom pid localtime msg out = some (out', f') ∧
      out'.dest = out.dest ++ text ++ eol := by
  have hover : ¬f.OverrunsAt custom pid msg (f.cacheTm localtime msg).cachedTm := by
    rw [overrunsAt_iff_rendering, h]
    exact Option.some_ne_none _
  obtain ⟨text', out', htext, hformat, hdest⟩ := formatFlags_dest
    (fun flag hflag hflagOver => hover ⟨flag, hflag, hflagOver⟩) out
  obtain rfl : text' = text := Option.some.inj (htext.symm.trans h)
  refine ⟨{ out' with dest := out'.dest ++ eol }, f.formatted custom localtime msg, ?_, ?_⟩
  · rw [LogFormatter.format, cacheTm_formatters, hformat]
    rfl
  · rw [← hdest]

end LogFormatter

end Runs

def noFlags : CustomFlags Unit where
  text := fun _ _ _ => []
  after := fun c _ _ => c
  clone := id

def epoch : TimePoint := ⟨0, by decide, by decide⟩

def okMessage : LogMessage := ⟨none, .info, epoch, 0, [], 0, [], ['o', 'k']⟩

def second (n : ℤ) (h : 0 ≤ n ∧ n < 9) : TimePoint := ⟨n * 1000000000, by omega, by omega⟩

end Simple.Log
