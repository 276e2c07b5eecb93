import Simple.Log.Formatter

/-! Console appenders: the colour of the level stands around a range of the text, and the formatters
leave this range in the message object. -/

namespace Simple.Log

open Simple.Lib Simple.Utils.Time

variable {C : Type}

/-- `color_start` and `color_stop` of a message object. -/
structure ColorRange where
  start : ℕ := 0
  stop : ℕ := 0

structure DefaultFlag where
  cacheTimestamp : ℤ := 0
  cachedDatetime : Text := []

namespace DefaultFlag

def cacheTime (msg : LogMessage) (tm : Tm) (d : DefaultFlag) : DefaultFlag :=
  if d.cacheTimestamp = msg.point.seconds ∧ d.cachedDatetime ≠ [] then d
  else
    { cacheTimestamp := msg.point.seconds
      cachedDatetime := '[' :: (formatInt (tm.tmYear + 1900) ++ '-' :: (pad2 (tm.tmMon + 1) ++
        '-' :: (pad2 tm.tmMday ++ ' ' :: (clockText tm.tmHour tm ++ ['.'])))) }

def nameText (msg : LogMessage) : Text :=
  match msg.logger with
  | none | some [] => []
  | some name => '[' :: (name ++ [']', ' '])

def sourceText (msg : LogMessage) : Text :=
  if msg.fileName = [] then []
  else '[' :: (shortFileName msg.fileName ++ ':' :: (decimalText msg.line ++ [']', ' ']))

def headText (msg : LogMessage) (d : DefaultFlag) : Text :=
  d.cachedDatetime ++ (pad3 (timeFraction 1000000 msg.point) ++ ']' :: ' ' :: (nameText msg ++ ['[']))

def format (msg : LogMessage) (d : DefaultFlag) (out : Out) : Out where
  dest := out.dest ++ d.headText msg ++ msg.level.text ++
    ']' :: ' ' :: (sourceText msg ++ msg.buf)
  colorStart := (out.dest ++ d.headText msg).length
  colorStop := (out.dest ++ d.headText msg ++ msg.level.text).length

end DefaultFlag

/-- A `log_formatter` has the one flag of the default format or those of a pattern. -/
inductive AppenderFormatter (C : Type)
  | default (formatter : LogFormatter C) (flag : DefaultFlag)
  | pattern (formatter : LogFormatter C)

namespace AppenderFormatter

section Code

variable (custom : CustomFlags C) (pid : ℤ) (localtime : TimePoint → Tm)

def format (msg : LogMessage) (out : Out) :
    AppenderFormatter C → Option (Out × AppenderFormatter C)
  | .default f d =>
    let cached := f.cacheTm localtime msg
    let cachedFlag := d.cacheTime msg cached.cachedTm
    let written := cachedFlag.format msg out
    some ({ written with dest := written.dest ++ eol }, .default cached cachedFlag)
  | .pattern f => (f.format custom pid localtime msg out).map fun r => (r.1, .pattern r.2)

def clone (now : TimePoint) : AppenderFormatter C → AppenderFormatter C
  | .default f _ => .default (f.clone custom now) {}
  | .pattern f => .pattern (f.clone custom now)

end Code

end AppenderFormatter

def LogLevel.value : LogLevel → ℕ
  | .off => 0 | .critical => 1 | .error => 2 | .warn => 3 | .info => 4 | .debug => 5 | .trace => 6

def consoleColorReset : Text := "\x1b[m".toList

/-- `log_level_to_color`. -/
def LogLevel.color : LogLevel → Text
  | .off => consoleColorReset
  | .critical => "\x1b[1m\x1b[41m".toList
  | .error => "\x1b[31m\x1b[1m".toList
  | .warn => "\x1b[33m\x1b[1m".toList
  | .info => "\x1b[32m".toList
  | .debug => "\x1b[36m".toList
  | .trace => "\x1b[37m".toList

/-- `none`: the range does not lie in the buffer, or its length wraps around. -/
def writeRange (formatted : Text) (start stop : ℕ) : Option Text :=
  if start ≤ stop ∧ stop ≤ formatted.length then some ((formatted.take stop).drop start) else none

def consoleWrite (enableColor : Bool) (level : LogLevel) (out : Out) : Option Text :=
  if enableColor = true ∧ out.colorStart < out.colorStop then do
    let before ← writeRange out.dest 0 out.colorStart
    let within ← writeRange out.dest out.colorStart out.colorStop
    let after ← writeRange out.dest out.colorStop out.dest.length
    some (before ++ level.color ++ within ++ consoleColorReset ++ after)
  else writeRange out.dest 0 out.dest.length

/-- `console` is `enable_color_`, and `none` for an appender of another kind. -/
structure Appender (C : Type) where
  level : LogLevel := .trace
  console : Option Bool
  formatter : AppenderFormatter C

def Appender.shouldLog (a : Appender C) (level : LogLevel) : Prop := level.value ≤ a.level.value

instance (a : Appender C) (level : LogLevel) : Decidable (a.shouldLog level) :=
  inferInstanceAs (Decidable (_ ≤ _))

structure ConsoleLine where
  appender : ℕ
  level : LogLevel
  text : Text
  output : Option Text

/-- The appenders, and the ranges that the message objects carry. -/
structure Consoles (C : Type) where
  appender : ℕ → Appender C
  range : ℕ → ColorRange
  lines : List ConsoleLine := []

namespace Consoles

section Code

variable (custom : CustomFlags C) (pid : ℤ) (localtime : TimePoint → Tm)

/-- `log` of an appender. `carried` is what the message object has of its range. -/
def log (carried : ColorRange → ColorRange) (a msg' : ℕ) (msg : LogMessage) (s : Consoles C) :
    Option (Consoles C) :=
  if (s.appender a).shouldLog msg.level then do
    let range := carried (s.range msg')
    let r ← (s.appender a).formatter.format custom pid localtime msg ⟨[], range.start, range.stop⟩
    some
      { appender := Function.update s.appender a { s.appender a with formatter := r.2 }
        range := Function.update s.range msg' ⟨r.1.colorStart, r.1.colorStop⟩
        lines := s.lines ++ ((s.appender a).console.map fun enableColor =>
          ⟨a, msg.level, r.1.dest, consoleWrite enableColor msg.level r.1⟩).toList }
  else some s

/-- The last appender takes the formatter itself, those before it take clones. -/
def setFormatter (now : TimePoint) (f : AppenderFormatter C) :
    List ℕ → (ℕ → Appender C) → ℕ → Appender C
  | [], appender => appender
  | [a], appender => Function.update appender a { appender a with formatter := f }
  | a :: b :: as, appender => setFormatter now f (b :: as)
      (Function.update appender a { appender a with formatter := f.clone custom now })

inductive Action
  | log (appender object : ℕ) (msg : LogMessage)
  | newMessage (object : ℕ)
  | setLevel (appender : ℕ) (level : LogLevel)
  | setPattern (appenders : List ℕ) (now : TimePoint) (pattern : Text) (timeType : LogTimeType)

def step (carried : ColorRange → ColorRange) (s : Consoles C) : Action → Option (Consoles C)
  | .log a object msg => s.log custom pid localtime carried a object msg
  | .newMessage object => some { s with range := Function.update s.range object {} }
  | .setLevel a level =>
    some { s with appender := Function.update s.appender a { s.appender a with level := level } }
  | .setPattern appenders now pattern timeType => some { s with
      appender := setFormatter custom now (.pattern (.create now pattern timeType)) appenders
        s.appender }

/-- Message objects are used again with the range that they have. -/
def machine (start : Consoles C) : Machine (Consoles C) Action where
  initial := start
  step := step custom pid localtime id

/-- Every message object is a new one for every appender. -/
def freshMachine (start : Consoles C) : Machine (Consoles C) Action where
  initial := start
  step := step custom pid localtime fun _ => {}

end Code

end Consoles

inductive Mark
  | start | stop

def Mark.char : Mark → Char
  | .start => '^'
  | .stop => '$'

def Mark.flag : Mark → Flag C
  | .start => .colorStart
  | .stop => .colorStop

def Marked (m : Mark) (pattern : Text) : Prop := ∃ padding, Piece.flag padding m.char ∈ pieces pattern

section Marks

variable {m : Mark} {now : TimePoint} {pads : Bool} {flag : Char} {padding : LogPadding}

lemma fieldOf_char : fieldOf m.char = none := by
  cases m <;> rfl

lemma elapsedUnit_char : elapsedUnit m.char = none := by
  cases m <;> rfl

lemma mem_handleFlag :
    m.flag ∈ (handleFlag (∅ : Table Char (LogPadding → C)) now pads flag padding).1 ↔
      flag = m.char := by
  have hnone : (∅ : Table Char (LogPadding → C)).get flag = none := AList.lookup_empty flag
  rw [handleFlag, hnone]
  dsimp only
  constructor
  · intro h
    split at h
    · cases m <;> cases List.mem_singleton.mp h
    · cases m <;> cases List.mem_singleton.mp h
    · split_ifs at h with hz hstart hstop hpercent <;> cases m <;> simp_all [Mark.flag, Mark.char]
  · rintro rfl
    rw [fieldOf_char, elapsedUnit_char]
    cases m <;> simp [Mark.flag, Mark.char]

lemma mem_flushChars {s : Scan C} : m.flag ∈ s.flushChars.formatters ↔ m.flag ∈ s.formatters := by
  unfold Scan.flushChars
  split
  · rfl
  · cases m <;> simp [Mark.flag]

lemma mem_scanPattern (it : Text) (s : Scan C) :
    m.flag ∈ (scanPattern ∅ now it s).formatters ↔ m.flag ∈ s.formatters ∨ Marked m it := by
  induction it, s using scanPattern.induct (∅ : Table Char (LogPadding → C)) now with
  | case1 s =>
    rw [scanPattern, Marked, pieces]
    simp
  | case2 s rest _ hnil =>
    rw [scanPattern_incomplete hnil, Marked, pieces_incomplete hnil, mem_flushChars]
    simp
  | case3 s rest flag rest' _ hflag _ ih =>
    rw [scanPattern_flag hflag, ih, Marked, Marked, pieces_flag hflag, Scan.add, List.mem_append,
      mem_flushChars, mem_handleFlag, or_assoc]
    refine or_congr_right ⟨?_, ?_⟩
    · rintro (rfl | ⟨padding, hmem⟩)
      · exact ⟨_, List.mem_cons_self⟩
      · exact ⟨padding, List.mem_cons_of_mem _ hmem⟩
    · rintro ⟨padding, hmem⟩
      rcases List.mem_cons.mp hmem with hhead | htail
      · exact Or.inl (Piece.flag.inj hhead).2.symm
      · exact Or.inr ⟨padding, htail⟩
  | case4 s c rest hc ih =>
    rw [scanPattern_literal hc, ih, Marked, Marked, pieces_literal hc]
    simp

lemma mem_create {timeType : LogTimeType} {pattern : Text} :
    m.flag ∈ (LogFormatter.create now pattern timeType : LogFormatter C).formatters ↔
      Marked m pattern := by
  refine (mem_scanPattern pattern {}).trans ?_
  simp

end Marks

def Out.mark (out : Out) : Mark → ℕ
  | .start => out.colorStart
  | .stop => out.colorStop

lemma Out.ext_mark {o₁ o₂ : Out} (hdest : o₂.dest = o₁.dest) (h : ∀ m, o₂.mark m = o₁.mark m) :
    o₂ = o₁ := by
  obtain ⟨dest, start, stop⟩ := o₁
  obtain rfl := hdest
  obtain rfl : o₂.colorStart = start := h .start
  obtain rfl : o₂.colorStop = stop := h .stop
  rfl

section Ranges

variable {custom : CustomFlags C} {pid : ℤ} {localtime : TimePoint → Tm} {msg : LogMessage} {tm : Tm}
  {m : Mark} {f : Flag C} {fs : List (Flag C)} {out out₁ out₂ o o₁ : Out}

lemma Flag.format_eq_some : f.format custom pid msg tm out = some o ↔
    (f.rendered custom pid msg tm).append out.dest = some o.dest ∧
      ∀ m, (f = m.flag → o.mark m = out.dest.length) ∧ (f ≠ m.flag → o.mark m = out.mark m) := by
  rw [Flag.format]
  cases hdest : (f.rendered custom pid msg tm).append out.dest with
  | none => simp
  | some dest =>
    obtain ⟨odest, ostart, ostop⟩ := o
    have hmarks : ∀ P : Mark → Prop, (∀ m, P m) ↔ P .start ∧ P .stop :=
      fun P => ⟨fun h => ⟨h .start, h .stop⟩, fun h m => by cases m; exacts [h.1, h.2]⟩
    rw [hmarks]
    cases f <;> simp [Mark.flag, Out.mark, eq_comm]

lemma Flag.format_congr (hdest : out₂.dest = out₁.dest)
    (h : f.format custom pid msg tm out₁ = some o₁) :
    ∃ o₂, f.format custom pid msg tm out₂ = some o₂ ∧ o₂.dest = o₁.dest ∧
      ∀ m : Mark, f = m.flag ∨ out₂.mark m = out₁.mark m → o₂.mark m = o₁.mark m := by
  obtain ⟨happend, hmarks⟩ := Flag.format_eq_some.mp h
  rw [← hdest] at happend
  have hsome : ∃ o₂, f.format custom pid msg tm out₂ = some o₂ := by
    rw [Flag.format, happend]
    cases f <;> exact ⟨_, rfl⟩
  obtain ⟨o₂, ho₂⟩ := hsome
  obtain ⟨happend₂, hmarks₂⟩ := Flag.format_eq_some.mp ho₂
  refine ⟨o₂, ho₂, Option.some.inj (happend₂.symm.trans happend), fun m hm => ?_⟩
  by_cases hf : f = m.flag
  · rw [(hmarks m).1 hf, (hmarks₂ m).1 hf, hdest]
  · rw [(hmarks m).2 hf, (hmarks₂ m).2 hf]
    exact hm.resolve_left hf

lemma formatFlags_congr (hdest : out₂.dest = out₁.dest)
    (h : formatFlags custom pid msg tm fs out₁ = some o₁) :
    ∃ o₂, formatFlags custom pid msg tm fs out₂ = some o₂ ∧ o₂.dest = o₁.dest ∧
      ∀ m : Mark, m.flag ∈ fs ∨ out₂.mark m = out₁.mark m → o₂.mark m = o₁.mark m := by
  induction fs generalizing out₁ out₂ with
  | nil =>
    obtain rfl := Option.some.inj h
    exact ⟨out₂, rfl, hdest, fun m hm => hm.resolve_left List.not_mem_nil⟩
  | cons f fs ih =>
    obtain ⟨r₁, hr₁, hrest⟩ := Option.bind_eq_some_iff.mp h
    obtain ⟨r₂, hr₂, hdest', hmarks⟩ := Flag.format_congr hdest hr₁
    obtain ⟨o₂, ho₂, hdest'', hmarks'⟩ := ih hdest' hrest
    refine ⟨o₂, Option.bind_eq_some_iff.mpr ⟨r₂, hr₂, ho₂⟩, hdest'', fun m hm => hmarks' m ?_⟩
    rw [List.mem_cons, or_assoc] at hm
    rcases hm with hf | hm | hm
    · exact Or.inr (hmarks m (Or.inl hf.symm))
    · exact Or.inl hm
    · exact Or.inr (hmarks m (Or.inr hm))

lemma Flag.format_within (hover : ¬f.Overruns custom pid msg tm)
    (h : f.format custom pid msg tm out = some o) (hm : f = m.flag ∨ out.mark m ≤ out.dest.length) :
    o.mark m ≤ o.dest.length := by
  obtain ⟨text, o', -, hformat, hdest⟩ := Flag.format_dest hover out
  obtain rfl := Option.some.inj (hformat.symm.trans h)
  obtain ⟨-, hmarks⟩ := Flag.format_eq_some.mp h
  have hle : out.dest.length ≤ o'.dest.length := by simp [hdest]
  by_cases hf : f = m.flag
  · exact (hmarks m).1 hf ▸ hle
  · exact (hmarks m).2 hf ▸ (hm.resolve_left hf).trans hle

lemma formatFlags_within (hover : ∀ f ∈ fs, ¬f.Overruns custom pid msg tm)
    (h : formatFlags custom pid msg tm fs out = some o)
    (hm : m.flag ∈ fs ∨ out.mark m ≤ out.dest.length) : o.mark m ≤ o.dest.length := by
  induction fs generalizing out with
  | nil =>
    obtain rfl := Option.some.inj h
    exact hm.resolve_left List.not_mem_nil
  | cons f fs ih =>
    obtain ⟨r, hr, hrest⟩ := Option.bind_eq_some_iff.mp h
    obtain ⟨hf, hfs⟩ := List.forall_mem_cons.mp hover
    refine ih hfs hrest ?_
    rw [List.mem_cons, or_assoc] at hm
    rcases hm with hhead | hm | hm
    · exact Or.inr (Flag.format_within hf hr (Or.inl hhead.symm))
    · exact Or.inl hm
    · exact Or.inr (Flag.format_within hf hr (Or.inr hm))

lemma formatFlags_unmarked (h : formatFlags custom pid msg tm fs out = some o) (hm : m.flag ∉ fs) :
    o.mark m = out.mark m := by
  induction fs generalizing out with
  | nil =>
    obtain rfl := Option.some.inj h
    rfl
  | cons f fs ih =>
    obtain ⟨r, hr, hrest⟩ := Option.bind_eq_some_iff.mp h
    obtain ⟨-, hmarks⟩ := Flag.format_eq_some.mp hr
    obtain ⟨hf, hfs⟩ := not_or.mp (List.mem_cons.not.mp hm)
    rw [ih hrest hfs]
    exact (hmarks m).2 (Ne.symm hf)

lemma Flag.after_eq_mark : f.after custom msg tm = m.flag ↔ f = m.flag := by
  cases m <;> cases f <;> simp [Flag.after, Mark.flag]

lemma Flag.clone_eq_mark {now : TimePoint} : f.clone custom now = m.flag ↔ f = m.flag := by
  cases m <;> cases f <;> simp [Flag.clone, Mark.flag]

end Ranges

namespace AppenderFormatter

variable {custom : CustomFlags C} {pid : ℤ} {localtime : TimePoint → Tm} {msg : LogMessage}
  {f f' : AppenderFormatter C} {m : Mark} {out out₁ out₂ o o₁ : Out}

def Marks (m : Mark) : AppenderFormatter C → Prop
  | .default _ _ => True
  | .pattern f => m.flag ∈ f.formatters

/-- No flag cuts off more than it has written of the message. -/
def Fits (custom : CustomFlags C) (pid : ℤ) (localtime : TimePoint → Tm) (msg : LogMessage) :
    AppenderFormatter C → Prop
  | .default _ _ => True
  | .pattern f => ¬f.Overruns custom pid localtime msg

lemma format_pattern {g : LogFormatter C} :
    (AppenderFormatter.pattern g).format custom pid localtime msg out = some (o, f') ↔
      ∃ written, formatFlags custom pid msg (g.cacheTm localtime msg).cachedTm g.formatters out =
        some written ∧ o = { written with dest := written.dest ++ eol } ∧
        f' = .pattern (g.formatted custom localtime msg) := by
  simp only [format, LogFormatter.format, LogFormatter.cacheTm_formatters, Option.map_eq_some_iff,
    Option.bind_eq_bind, Option.bind_eq_some_iff, Prod.exists, Option.some.injEq, Prod.mk.injEq]
  constructor
  · rintro ⟨_, _, ⟨written, hwritten, rfl, rfl⟩, rfl, rfl⟩
    exact ⟨written, hwritten, rfl, rfl⟩
  · rintro ⟨written, hwritten, rfl, rfl⟩
    exact ⟨_, _, ⟨written, hwritten, rfl, rfl⟩, rfl, rfl⟩

lemma format_congr (hdest : out₂.dest = out₁.dest)
    (h : f.format custom pid localtime msg out₁ = some (o₁, f')) :
    ∃ o₂, f.format custom pid localtime msg out₂ = some (o₂, f') ∧ o₂.dest = o₁.dest ∧
      ∀ m : Mark, f.Marks m ∨ out₂.mark m = out₁.mark m → o₂.mark m = o₁.mark m := by
  cases f with
  | default g d =>
    obtain ⟨rfl, rfl⟩ := Prod.mk.inj (Option.some.inj h)
    refine ⟨_, rfl, by simp [DefaultFlag.format, hdest], fun m _ => ?_⟩
    cases m <;> simp [Out.mark, DefaultFlag.format, hdest]
  | pattern g =>
    obtain ⟨w₁, hw₁, rfl, rfl⟩ := format_pattern.mp h
    obtain ⟨w₂, hw₂, hdest', hmarks⟩ := formatFlags_congr hdest hw₁
    refine ⟨_, format_pattern.mpr ⟨w₂, hw₂, rfl, rfl⟩, congrArg (· ++ eol) hdest', fun m hm => ?_⟩
    have hmark := hmarks m hm
    cases m <;> exact hmark

lemma format_within (hfits : f.Fits custom pid localtime msg)
    (h : f.format custom pid localtime msg out = some (o, f'))
    (hm : f.Marks m ∨ out.mark m ≤ out.dest.length) : o.mark m ≤ o.dest.length := by
  cases f with
  | default g d =>
    obtain ⟨rfl, rfl⟩ := Prod.mk.inj (Option.some.inj h)
    cases m <;> simp [Out.mark, DefaultFlag.format]
  | pattern g =>
    obtain ⟨w, hw, rfl, rfl⟩ := format_pattern.mp h
    have hwithin := formatFlags_within (fun flag hflag hover => hfits ⟨flag, hflag, hover⟩) hw hm
    have hle : w.dest.length ≤ (w.dest ++ eol).length := by simp
    cases m <;> exact hwithin.trans hle

lemma format_unmarked (h : f.format custom pid localtime msg out = some (o, f'))
    (hm : ¬f.Marks m) : o.mark m = out.mark m := by
  cases f with
  | default g d => exact absurd trivial hm
  | pattern g =>
    obtain ⟨w, hw, rfl, rfl⟩ := format_pattern.mp h
    have hunmarked := formatFlags_unmarked hw hm
    cases m <;> exact hunmarked

lemma format_total (hfits : f.Fits custom pid localtime msg) (out : Out) :
    ∃ o f', f.format custom pid localtime msg out = some (o, f') := by
  cases f with
  | default g d => exact ⟨_, _, rfl⟩
  | pattern g =>
    rw [Fits, LogFormatter.Overruns, LogFormatter.overrunsAt_iff_rendering] at hfits
    obtain ⟨text, htext⟩ := Option.ne_none_iff_exists'.mp hfits
    obtain ⟨o, g', hformat, -⟩ := LogFormatter.format_dest htext out
    refine ⟨o, .pattern g', ?_⟩
    rw [format, hformat]
    rfl

lemma format_marks (h : f.format custom pid localtime msg out = some (o, f')) :
    f'.Marks m ↔ f.Marks m := by
  cases f with
  | default g d =>
    obtain ⟨rfl, rfl⟩ := Prod.mk.inj (Option.some.inj h)
    exact Iff.rfl
  | pattern g =>
    obtain ⟨w, -, rfl, rfl⟩ := format_pattern.mp h
    simp [Marks, LogFormatter.formatted, LogFormatter.cacheTm_formatters, Flag.after_eq_mark]

lemma clone_marks {now : TimePoint} : (f.clone custom now).Marks m ↔ f.Marks m := by
  cases f with
  | default g d => exact Iff.rfl
  | pattern g => simp [Marks, clone, LogFormatter.clone, Flag.clone_eq_mark]

end AppenderFormatter

/-- The text as it is, or with the colour of the level around a part of it. -/
def Colored (level : LogLevel) (text output : Text) : Prop :=
  output = text ∨ ∃ before within after, text = before ++ within ++ after ∧
    output = before ++ level.color ++ within ++ consoleColorReset ++ after

lemma writeRange_eq {text : Text} {start stop : ℕ} (h : start ≤ stop) (hstop : stop ≤ text.length) :
    writeRange text start stop = some ((text.take stop).drop start) := if_pos ⟨h, hstop⟩

lemma consoleWrite_colored {enableColor : Bool} {level : LogLevel} {out : Out}
    (h : out.colorStop ≤ out.dest.length) :
    ∃ output, consoleWrite enableColor level out = some output ∧ Colored level out.dest output := by
  rw [consoleWrite]
  split_ifs with hcolor
  · have hlt := hcolor.2.le
    rw [writeRange_eq (Nat.zero_le _) (hlt.trans h), writeRange_eq hlt h, writeRange_eq h le_rfl]
    refine ⟨_, rfl, Or.inr ⟨_, _, _, ?_, rfl⟩⟩
    rw [List.drop_zero, List.take_length]
    have htake : out.dest.take out.colorStart = (out.dest.take out.colorStop).take out.colorStart := by
      rw [List.take_take, min_eq_left hlt]
    rw [htake, List.take_append_drop, List.take_append_drop]
  · exact ⟨_, writeRange_eq (Nat.zero_le _) le_rfl, Or.inl (by simp)⟩

lemma consoleWrite_outside {level : LogLevel} {out : Out} (hlt : out.colorStart < out.colorStop)
    (h : out.dest.length < out.colorStop) : consoleWrite true level out = none := by
  have hnone : writeRange out.dest out.colorStart out.colorStop = none :=
    if_neg fun hin => absurd hin.2 (Nat.not_le.mpr h)
  rw [consoleWrite, if_pos ⟨rfl, hlt⟩, hnone]
  cases writeRange out.dest 0 out.colorStart <;> rfl

namespace Consoles

variable {custom : CustomFlags C} {pid : ℤ} {localtime : TimePoint → Tm} {s s' t : Consoles C}
  {start : Consoles C} {actions : List Action}

/-- Every console has both marks. -/
def AllMarked (s : Consoles C) : Prop :=
  ∀ a m, (s.appender a).console ≠ none → (s.appender a).formatter.Marks m

/-- A console is given a pattern with both marks, and a message that its flags do not overrun. -/
def Suits (custom : CustomFlags C) (pid : ℤ) (localtime : TimePoint → Tm) (s : Consoles C) :
    Action → Prop
  | .log a _ msg => (s.appender a).console ≠ none →
      (s.appender a).formatter.Fits custom pid localtime msg
  | .setPattern appenders _ pattern _ =>
    ∀ a ∈ appenders, (s.appender a).console ≠ none → ∀ m, Marked m pattern
  | _ => True

def Sound (line : ConsoleLine) : Prop :=
  ∃ output, line.output = some output ∧ Colored line.level line.text output

lemma setFormatter_console (now : TimePoint) (f : AppenderFormatter C) (appenders : List ℕ)
    (appender : ℕ → Appender C) (a : ℕ) :
    (setFormatter custom now f appenders appender a).console = (appender a).console := by
  induction appenders generalizing appender with
  | nil => rfl
  | cons b as ih =>
    cases as with
    | nil =>
      by_cases hab : a = b
      · subst hab
        simp [setFormatter]
      · simp [setFormatter, hab]
    | cons c as =>
      rw [setFormatter, ih]
      by_cases hab : a = b
      · subst hab
        simp
      · simp [hab]

lemma setFormatter_marks (now : TimePoint) (f : AppenderFormatter C) (m : Mark) (appenders : List ℕ)
    (appender : ℕ → Appender C) (a : ℕ) :
    (setFormatter custom now f appenders appender a).formatter.Marks m ↔
      if a ∈ appenders then f.Marks m else (appender a).formatter.Marks m := by
  induction appenders generalizing appender with
  | nil => rfl
  | cons b as ih =>
    cases as with
    | nil =>
      by_cases hab : a = b
      · subst hab
        simp [setFormatter]
      · simp [setFormatter, hab]
    | cons c as =>
      rw [setFormatter, ih]
      by_cases hab : a = b
      · subst hab
        simp [AppenderFormatter.clone_marks]
      · simp [hab]

lemma log_eq_some {carried : ColorRange → ColorRange} {a object : ℕ} {msg : LogMessage} :
    s.log custom pid localtime carried a object msg = some s' ↔
      ¬(s.appender a).shouldLog msg.level ∧ s' = s ∨
      (s.appender a).shouldLog msg.level ∧ ∃ o f,
        (s.appender a).formatter.format custom pid localtime msg
          ⟨[], (carried (s.range object)).start, (carried (s.range object)).stop⟩ = some (o, f) ∧
        s' =
          { appender := Function.update s.appender a { s.appender a with formatter := f }
            range := Function.update s.range object ⟨o.colorStart, o.colorStop⟩
            lines := s.lines ++ ((s.appender a).console.map fun enableColor =>
              ⟨a, msg.level, o.dest, consoleWrite enableColor msg.level o⟩).toList } := by
  rw [log]
  split_ifs with hlevel
  · simp only [hlevel, not_true_eq_false, false_and, true_and, false_or, Option.bind_eq_bind,
      Option.bind_eq_some_iff, Option.some.injEq, Prod.exists, eq_comm (a := s')]
  · simp only [hlevel, not_false_eq_true, true_and, false_and, or_false, Option.some.injEq,
      eq_comm (a := s')]

lemma log_fresh {a object : ℕ} {msg : LogMessage} (hmarked : s.AllMarked)
    (hfits : (s.appender a).console ≠ none → (s.appender a).formatter.Fits custom pid localtime msg)
    (happender : t.appender = s.appender) (hlines : t.lines = s.lines)
    (hsound : ∀ line ∈ s.lines, Sound line)
    (h : s.log custom pid localtime id a object msg = some s') :
    ∃ t', t.log custom pid localtime (fun _ => {}) a object msg = some t' ∧
      t'.appender = s'.appender ∧ t'.lines = s'.lines ∧ s'.AllMarked ∧
      ∀ line ∈ s'.lines, Sound line := by
  rcases log_eq_some.mp h with ⟨hlevel, rfl⟩ | ⟨hlevel, o, f, hformat, rfl⟩
  · refine ⟨t, log_eq_some.mpr (Or.inl ⟨by rwa [happender], rfl⟩), happender, hlines, hmarked, hsound⟩
  · have hempty : (⟨[], 0, 0⟩ : Out).dest =
        (⟨[], (s.range object).start, (s.range object).stop⟩ : Out).dest := rfl
    obtain ⟨o₂, hformat₂, hdest, hmarks⟩ := AppenderFormatter.format_congr hempty hformat
    refine ⟨_, log_eq_some.mpr (Or.inr ⟨by rwa [happender], o₂, f, by rwa [happender], rfl⟩), ?_, ?_,
      ?_, ?_⟩
    · rw [happender]
    · rw [happender, hlines]
      cases hconsole : (s.appender a).console with
      | none => rfl
      | some enableColor =>
        have hsame : o₂ = o := Out.ext_mark hdest fun m =>
          hmarks m (Or.inl (hmarked a m (by simp [hconsole])))
        rw [hsame]
    · intro b m hb
      by_cases hab : b = a
      · subst hab
        simp only [Function.update_self] at hb ⊢
        exact (AppenderFormatter.format_marks hformat).mpr (hmarked b m hb)
      · simp only [Function.update_of_ne hab] at hb ⊢
        exact hmarked b m hb
    · intro line hline
      rcases List.mem_append.mp hline with hold | hnew
      · exact hsound line hold
      · obtain ⟨enableColor, hconsole, rfl⟩ :=
          Option.map_eq_some_iff.mp (Option.mem_toList.mp hnew)
        have hne : (s.appender a).console ≠ none := by simp [hconsole]
        exact consoleWrite_colored (AppenderFormatter.format_within (m := .stop) (hfits hne) hformat
          (Or.inl (hmarked a .stop hne)))

lemma run_fresh (hmarked : s.AllMarked) (happender : t.appender = s.appender)
    (hlines : t.lines = s.lines) (hsound : ∀ line ∈ s.lines, Sound line)
    (hsuits : (machine custom pid localtime start).Along (Suits custom pid localtime) s actions)
    (h : (machine custom pid localtime start).run s actions = some s') :
    ∃ t', (freshMachine custom pid localtime start).run t actions = some t' ∧ t'.lines = s'.lines ∧
      ∀ line ∈ s'.lines, Sound line := by
  induction actions generalizing s t with
  | nil =>
    obtain rfl := Option.some.inj h
    exact ⟨t, rfl, hlines, hsound⟩
  | cons action actions ih =>
    obtain ⟨r, hr, hrest⟩ := Machine.run_cons_eq_some.mp h
    obtain ⟨hsuit, hsuits⟩ := hsuits r hr
    have hnext : ∃ r', (freshMachine custom pid localtime start).step t action = some r' ∧
        r'.appender = r.appender ∧ r'.lines = r.lines ∧ r.AllMarked ∧
        ∀ line ∈ r.lines, Sound line := by
      cases action with
      | log a object msg => exact log_fresh hmarked hsuit happender hlines hsound hr
      | newMessage object =>
        obtain rfl := Option.some.inj hr
        exact ⟨_, rfl, happender, hlines, hmarked, hsound⟩
      | setLevel a level =>
        obtain rfl := Option.some.inj hr
        refine ⟨_, rfl, by rw [happender], hlines, fun b m hb => ?_, hsound⟩
        by_cases hab : b = a
        · subst hab
          simp only [Function.update_self] at hb ⊢
          exact hmarked b m hb
        · simp only [Function.update_of_ne hab] at hb ⊢
          exact hmarked b m hb
      | setPattern appenders now pattern timeType =>
        obtain rfl := Option.some.inj hr
        refine ⟨_, rfl, by rw [happender], hlines, fun b m hb => ?_, hsound⟩
        have hb' : (s.appender b).console ≠ none := by rwa [setFormatter_console] at hb
        refine (setFormatter_marks now _ m appenders s.appender b).mpr ?_
        split_ifs with hmem
        · exact mem_create.mpr (hsuit b hmem hb' m)
        · exact hmarked b m hb'
    obtain ⟨r', hr', happender', hlines', hmarked', hsound'⟩ := hnext
    obtain ⟨t', ht', hresult⟩ := ih hmarked' happender' hlines' hsound' hsuits hrest
    exact ⟨t', Machine.run_cons_eq_some.mpr ⟨r', hr', ht'⟩, hresult⟩

def markedText : Text := ['%', '^', '%', 'v', '%', '$']

lemma create_markedText (now : TimePoint) (timeType : LogTimeType) :
    (LogFormatter.create now markedText timeType : LogFormatter C) =
      { timeType := timeType
        needLocaltime := false
        formatters := [.colorStart, .field .value false {}, .colorStop] } := by
  have hstart : (handlePadding ['^', '%', 'v', '%', '$']).2 = ['^', '%', 'v', '%', '$'] := rfl
  have hvalue : (handlePadding ['v', '%', '$']).2 = ['v', '%', '$'] := rfl
  have hstop : (handlePadding ['$']).2 = ['$'] := rfl
  rw [LogFormatter.create, LogFormatter.setPattern, markedText, scanPattern_flag hstart,
    scanPattern_flag hvalue, scanPattern_flag hstop, scanPattern]
  rfl

variable (custom pid localtime) in
lemma format_markedText (now : TimePoint) (timeType : LogTimeType) (msg : LogMessage) (x y : ℕ) :
    ∃ f, (AppenderFormatter.pattern (.create now markedText timeType)).format custom pid localtime msg
      ⟨[], x, y⟩ = some (⟨msg.buf ++ eol, 0, msg.buf.length⟩, f) := by
  refine ⟨_, AppenderFormatter.format_pattern.mpr ⟨⟨msg.buf, 0, msg.buf.length⟩, ?_, rfl, rfl⟩⟩
  rw [create_markedText]
  simp [formatFlags, Flag.format, Flag.rendered, Field.text, Flag.padder, Rendered.append]

lemma shouldLog_trace {a : Appender C} (level : LogLevel) (h : a.level = .trace) :
    a.shouldLog level := by
  rw [Appender.shouldLog, h]
  cases level <;> decide

def withPattern (custom : CustomFlags C) (a : ℕ) (now : TimePoint) (pattern : Text)
    (timeType : LogTimeType) (s : Consoles C) : Consoles C :=
  { s with
    appender := setFormatter custom now (.pattern (.create now pattern timeType)) [a] s.appender }

lemma withPattern_appender {a : ℕ} {now : TimePoint} {pattern : Text} {timeType : LogTimeType} :
    (s.withPattern custom a now pattern timeType).appender a =
      { s.appender a with formatter := .pattern (.create now pattern timeType) } :=
  Function.update_self ..

lemma run_setPattern_log {a object : ℕ} {now : TimePoint} {pattern : Text} {timeType : LogTimeType}
    {msg : LogMessage} :
    (machine custom pid localtime start).run s
      [.setPattern [a] now pattern timeType, .log a object msg] = some t ↔
      (s.withPattern custom a now pattern timeType).log custom pid localtime id a object msg =
        some t := by
  constructor
  · intro h
    obtain ⟨_, hset, h⟩ := Machine.run_cons_eq_some.mp h
    obtain rfl := Option.some.inj hset
    obtain ⟨_, hlog, h⟩ := Machine.run_cons_eq_some.mp h
    obtain rfl := Option.some.inj h
    exact hlog
  · intro h
    exact Machine.run_cons_eq_some.mpr ⟨_, rfl, Machine.run_cons_eq_some.mpr ⟨t, h, rfl⟩⟩

variable (custom pid localtime) in
lemma exists_stale (start : Consoles C) (a object : ℕ) (now : TimePoint) (msg : LogMessage) (n : ℕ) :
    ∃ actions s, (machine custom pid localtime start).run start actions = some s ∧
      (s.appender a).level = .trace ∧ (s.appender a).console = (start.appender a).console ∧
      s.range object = ⟨0, n⟩ := by
  let long : LogMessage := { msg with buf := List.replicate n ' ' }
  let leveled : Consoles C := { start with
    appender := Function.update start.appender a { start.appender a with level := .trace } }
  have hleveled : leveled.appender a = { start.appender a with level := .trace } :=
    Function.update_self ..
  have happender : (leveled.withPattern custom a now markedText .utc).appender a =
      { leveled.appender a with formatter := .pattern (.create now markedText .utc) } :=
    withPattern_appender
  rw [hleveled] at happender
  obtain ⟨f, hformat⟩ := format_markedText custom pid localtime now .utc long
    (leveled.range object).start (leveled.range object).stop
  have hlevel : ((leveled.withPattern custom a now markedText .utc).appender a).level = .trace := by
    rw [happender]
  have hformatter : ((leveled.withPattern custom a now markedText .utc).appender a).formatter =
      .pattern (.create now markedText .utc) := by rw [happender]
  rw [← hformatter] at hformat
  have hlog : (leveled.withPattern custom a now markedText .utc).log custom pid localtime id a object
      long = some _ :=
    log_eq_some.mpr (Or.inr ⟨shouldLog_trace long.level hlevel, _, _, hformat, rfl⟩)
  refine ⟨[.setLevel a .trace, .setPattern [a] now markedText .utc, .log a object long], _,
    Machine.run_cons_eq_some.mpr ⟨leveled, rfl, run_setPattern_log.mpr hlog⟩, ?_, ?_, ?_⟩
  · simp [happender]
  · simp [happender]
  · simp [long]

/-- When every pattern of a console has both marks, the console shows what it would show of message
objects that are made anew for every line, and it writes the text and nothing that lies beside it. -/
theorem lines_as_fresh (hlines : start.lines = []) (hmarked : start.AllMarked)
    (hsuits : (machine custom pid localtime start).Along (Suits custom pid localtime) start actions)
    (h : (machine custom pid localtime start).run start actions = some s) :
    ∃ t, (freshMachine custom pid localtime start).run start actions = some t ∧
      t.lines = s.lines ∧ ∀ line ∈ s.lines, Sound line :=
  run_fresh hmarked rfl rfl (by simp [hlines]) hsuits h

def colored : Consoles Unit where
  appender := fun _ => ⟨.trace, some true, .default { timeType := .utc, needLocaltime := true } {}⟩
  range := fun _ => ⟨3, 70⟩

/-- The object carries a range that is longer than both lines. -/
theorem lines_as_fresh_two : ∃ s, (machine noFlags 0 gmtime colored).run colored
      [.log 0 0 okMessage, .log 0 0 okMessage] = some s ∧ s.lines.length = 2 ∧
    ∃ t, (freshMachine noFlags 0 gmtime colored).run colored
      [.log 0 0 okMessage, .log 0 0 okMessage] = some t ∧
      t.lines = s.lines ∧ ∀ line ∈ s.lines, Sound line := by
  refine ⟨_, rfl, rfl, lines_as_fresh rfl (fun _ _ _ => trivial) ?_ rfl⟩
  rintro s hs
  obtain rfl := Option.some.inj hs
  refine ⟨fun _ => trivial, ?_⟩
  rintro t ht
  obtain rfl := Option.some.inj ht
  exact ⟨fun _ => trivial, trivial⟩

/-- A console with colours that takes a pattern and logs a message writes inside the text, whatever
has happened before to its message object, exactly when the pattern has the mark of the end. -/
theorem inside_iff_stop (start : Consoles C) (a object : ℕ) (now : TimePoint) (pattern : Text)
    (timeType : LogTimeType) (msg : LogMessage) (hconsole : (start.appender a).console = some true)
    (hfits : ¬(LogFormatter.create now pattern timeType : LogFormatter C).Overruns custom pid
      localtime msg) :
    (∀ actions s t, (machine custom pid localtime start).run start actions = some s →
      (machine custom pid localtime start).run s
        [.setPattern [a] now pattern timeType, .log a object msg] = some t →
      ∃ lines, t.lines = s.lines ++ lines ∧ ∀ line ∈ lines, Sound line) ↔ Marked .stop pattern := by
  have hfits' : (AppenderFormatter.pattern (.create now pattern timeType)).Fits custom pid localtime
    msg := hfits
  have hmem : Mark.stop.flag ∈ (LogFormatter.create now pattern timeType : LogFormatter C).formatters ↔
      Marked .stop pattern := mem_create
  rw [← hmem]
  constructor
  · intro h
    by_contra hmark
    obtain ⟨o, f, hformat⟩ := AppenderFormatter.format_total hfits' ⟨[], 0, 0⟩
    obtain ⟨actions, s, hrun, hlevel, hconsole', hrange⟩ := exists_stale custom pid localtime start a
      object now msg (o.dest.length + 1)
    have hempty : (⟨[], (s.range object).start, (s.range object).stop⟩ : Out).dest =
        (⟨[], 0, 0⟩ : Out).dest := rfl
    obtain ⟨o₂, hformat₂, hdest, -⟩ := AppenderFormatter.format_congr hempty hformat
    have hstart : o₂.mark .start ≤ o₂.dest.length :=
      AppenderFormatter.format_within hfits' hformat₂ (Or.inr (by simp [Out.mark, hrange]))
    have hstop : o₂.mark .stop = o.dest.length + 1 :=
      (AppenderFormatter.format_unmarked hformat₂ hmark).trans (by simp [Out.mark, hrange])
    rw [← hdest] at hstop
    have happender : (s.withPattern custom a now pattern timeType).appender a =
        { s.appender a with formatter := .pattern (.create now pattern timeType) } :=
      withPattern_appender
    have hconsole'' : ((s.withPattern custom a now pattern timeType).appender a).console = some true := by
      rw [happender, ← hconsole, ← hconsole']
    have hformatter : ((s.withPattern custom a now pattern timeType).appender a).formatter =
        .pattern (.create now pattern timeType) := by rw [happender]
    rw [← hformatter] at hformat₂
    have hlog : (s.withPattern custom a now pattern timeType).log custom pid localtime id a object msg =
        some _ :=
      log_eq_some.mpr (Or.inr ⟨shouldLog_trace msg.level (by rw [happender, hlevel]), _, _, hformat₂, rfl⟩)
    obtain ⟨lines, hlines, hsound⟩ := h actions s _ hrun (run_setPattern_log.mpr hlog)
    rw [hconsole''] at hlines
    obtain rfl := List.append_cancel_left hlines
    obtain ⟨output, houtput, -⟩ := hsound _ (List.mem_singleton.mpr rfl)
    have hlong : o₂.dest.length < o₂.colorStop := Nat.lt_of_lt_of_eq (Nat.lt_succ_self _) hstop.symm
    have hnone : consoleWrite true msg.level o₂ = none :=
      consoleWrite_outside (hstart.trans_lt hlong) hlong
    exact Option.some_ne_none output (houtput.symm.trans hnone)
  · intro hmark actions s t _ ht
    rcases log_eq_some.mp (run_setPattern_log.mp ht) with ⟨-, rfl⟩ | ⟨-, o, f, hformat, rfl⟩
    · exact ⟨[], (List.append_nil _).symm, by simp⟩
    · rw [withPattern_appender] at hformat ⊢
      refine ⟨_, rfl, fun line hline => ?_⟩
      obtain ⟨enableColor, -, rfl⟩ := Option.map_eq_some_iff.mp (Option.mem_toList.mp hline)
      exact consoleWrite_colored (AppenderFormatter.format_within (m := .stop) hfits' hformat
        (Or.inl hmark))

/-- After a longer text, a console whose pattern is the text alone writes behind its line. -/
theorem inside_iff_stop_value :
    ¬Marked .stop ['%', 'v'] ∧
    ¬∀ actions s t, (machine noFlags 0 gmtime colored).run colored actions = some s →
      (machine noFlags 0 gmtime colored).run s
        [.setPattern [0] epoch ['%', 'v'] .utc, .log 0 0 okMessage] = some t →
      ∃ lines, t.lines = s.lines ++ lines ∧ ∀ line ∈ lines, Sound line := by
  have hvalue : (handlePadding ['v']).2 = ['v'] := rfl
  have hpieces : pieces ['%', 'v'] = [.flag {} 'v'] := by
    rw [pieces_flag hvalue, pieces]
    rfl
  have hcreate : (LogFormatter.create epoch ['%', 'v'] .utc : LogFormatter Unit) =
      { timeType := .utc, needLocaltime := false, formatters := [.field .value false {}] } := by
    rw [LogFormatter.create, LogFormatter.setPattern, scanPattern_flag hvalue, scanPattern]
    rfl
  have hfits : ¬(LogFormatter.create epoch ['%', 'v'] .utc : LogFormatter Unit).Overruns noFlags 0
      gmtime okMessage := by
    rw [LogFormatter.Overruns, LogFormatter.overrunsAt_iff_rendering, hcreate]
    decide
  have hunmarked : ¬Marked .stop ['%', 'v'] := by
    rw [Marked, hpieces]
    simp [Mark.char]
  exact ⟨hunmarked, (inside_iff_stop colored 0 0 epoch ['%', 'v'] .utc okMessage rfl hfits).not.mpr
    hunmarked⟩

end Consoles

end Simple.Log
