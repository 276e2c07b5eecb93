import Simple.Log.FileNames
import Simple.Log.LogSystem

/-! The flags of a pattern: what each of them writes of a message. -/

namespace Simple.Log

open Simple.Utils.Time

/-- The fields of a message that are formatted; `logger` is the name of `ptr`, when it is set. -/
structure LogMessage where
  logger : Option Text
  level : LogLevel
  point : TimePoint
  tid : ℤ
  fileName : Text
  line : ℕ
  functionName : Text
  buf : Text

inductive PadSide
  | left | right | center
  deriving DecidableEq

structure LogPadding where
  width : ℕ := 0
  side : PadSide := .left
  truncate : Bool := false
  enabled : Bool := false
  deriving DecidableEq

def spaces (n : ℕ) : Text := List.replicate n ' '

/-- `scoped_padder` around a text: it writes the blanks before it when it is built and those behind
it, or a shorter buffer, when it is destroyed. `none`: the buffer is to be resized below zero. -/
def padded (info : LogPadding) (wrapped : ℕ) (body dest : Text) : Option Text :=
  let remaining : ℤ := (info.width : ℤ) - wrapped
  if 0 ≤ remaining then
    let pad := remaining.toNat
    match info.side with
    | .left => some (dest ++ spaces pad ++ body)
    | .right => some (dest ++ body ++ spaces pad)
    | .center => some (dest ++ spaces (pad / 2) ++ body ++ spaces (pad / 2 + pad % 2))
  else if info.truncate then
    let newSize : ℤ := (dest ++ body).length + remaining
    if newSize < 0 then none else some ((dest ++ body).take newSize.toNat)
  else some (dest ++ body)

/-- What a flag appends, and for `scoped_padder` the padding with the size it is told. -/
structure Rendered where
  body : Text
  padder : Option (LogPadding × ℕ) := none

def Rendered.append (r : Rendered) (dest : Text) : Option Text :=
  match r.padder with
  | none => some (dest ++ r.body)
  | some (info, wrapped) => padded info wrapped r.body dest

def Rendered.Overruns (r : Rendered) : Prop :=
  ∃ info wrapped, r.padder = some (info, wrapped) ∧ info.truncate = true ∧
    info.width + r.body.length < wrapped

lemma padded_append (info : LogPadding) (wrapped : ℕ) (body dest : Text)
    (h : info.truncate = true → wrapped ≤ info.width + body.length) :
    ∃ text, padded info wrapped body [] = some text ∧
      padded info wrapped body dest = some (dest ++ text) := by
  unfold padded
  by_cases hpad : (0 : ℤ) ≤ (info.width : ℤ) - wrapped
  · simp only [if_pos hpad]
    cases info.side <;> exact ⟨_, rfl, by simp only [List.nil_append, List.append_assoc]⟩
  · simp only [if_neg hpad]
    by_cases htruncate : info.truncate = true
    · simp only [if_pos htruncate, List.nil_append, List.length_append]
      have hwrapped := h htruncate
      refine ⟨_, if_neg (by omega), ?_⟩
      rw [if_neg (by omega), List.take_append, List.take_of_length_le (by omega)]
      congr 3
      omega
    · simp only [if_neg htruncate]
      exact ⟨_, rfl, rfl⟩

lemma Rendered.append_eq {r : Rendered} (h : ¬r.Overruns) (dest : Text) :
    ∃ text, r.append [] = some text ∧ r.append dest = some (dest ++ text) := by
  unfold Rendered.append
  split
  · exact ⟨_, rfl, rfl⟩
  · rename_i info wrapped hpadder
    refine padded_append info wrapped r.body dest fun htruncate => ?_
    by_contra hlt
    exact h ⟨info, wrapped, hpadder, htruncate, by omega⟩

lemma Rendered.append_nil_of_overruns {r : Rendered} (h : r.Overruns) : r.append [] = none := by
  obtain ⟨info, wrapped, hpadder, htruncate, hlt⟩ := h
  rw [Rendered.append, hpadder]
  simp only [padded]
  rw [if_neg (by omega), if_pos htruncate, if_pos]
  rw [List.nil_append]
  omega

def LogLevel.text : LogLevel → Text
  | .off => "off".toList | .critical => "critical".toList | .error => "error".toList
  | .warn => "warn".toList | .info => "info".toList | .debug => "debug".toList
  | .trace => "trace".toList

def LogLevel.shortText : LogLevel → Text
  | .off => ['O'] | .critical => ['C'] | .error => ['E'] | .warn => ['W'] | .info => ['I']
  | .debug => ['D'] | .trace => ['T']

def shortWeekdays : List String := ["Sun", "Mon", "Tue", "Wed", "Thu", "Fri", "Sat"]

def weekdays : List String :=
  ["Sunday", "Monday", "Tuesday", "Wednesday", "Thursday", "Friday", "Saturday"]

def shortMonths : List String :=
  ["Jan", "Feb", "Mar", "Apr", "May", "Jun", "Jul", "Aug", "Sept", "Oct", "Nov", "Dec"]

def months : List String :=
  ["January", "February", "March", "April", "May", "June", "July", "August", "September", "October",
    "November", "December"]

def nameAt (names : List String) (i : ℤ) : Text := (names.getD i.toNat "").toList

def formatInt (n : ℤ) : Text :=
  if n < 0 then '-' :: decimalText n.natAbs else decimalText n.natAbs

def pad2 (n : ℤ) : Text := if 0 ≤ n ∧ n < 100 then twoDigits n.toNat else formatInt n

def codeChar (n : ℤ) : Char := Char.ofNat (48 + n).toNat

/-- The digits of a negative number lie before `'0'`. -/
def pad3 (n : ℤ) : Text :=
  if n < 1000 then
    [codeChar (n.tdiv 100), codeChar ((n.tmod 100).tdiv 10), codeChar ((n.tmod 100).tmod 10)]
  else formatInt n

def unsigned (n : ℤ) : ℕ := (n % 2 ^ 64).toNat

def countDigits (n : ℕ) : ℕ := (decimalText n).length

def padInt (n width : ℕ) : Text := List.replicate (width - countDigits n) '0' ++ decimalText n

/-- `time_fraction`, for a unit of so many nanoseconds. -/
def timeFraction (unit : ℤ) (p : TimePoint) : ℤ := p.ns.tdiv unit - p.seconds * (1000000000 / unit)

def amOrPm (tm : Tm) : Text := if 12 ≤ tm.tmHour then ['P', 'M'] else ['A', 'M']

def to12Hour (tm : Tm) : ℤ := if 12 < tm.tmHour then tm.tmHour - 12 else tm.tmHour

def clockText (hour : ℤ) (tm : Tm) : Text :=
  pad2 hour ++ ':' :: (pad2 tm.tmMin ++ ':' :: pad2 tm.tmSec)

def shortFileName (file : Text) : Text :=
  (file.reverse.takeWhile fun c => c ≠ '/' && c ≠ '\\').reverse

/-- The flags whose text depends on nothing but the message and its time. -/
inductive Field
  | name | level | shortLevel | tid | value | shortWeekday | weekday | shortMonthName | monthName
  | dateTime | shortYear | year | month | day | shortDate | hour24 | hour12 | min | sec | millis
  | micros | nanosecond | timestamp | noon | clockHour12 | shortClockHour24 | clockHour24 | pid
  | sourceLocation | filename | shortFilename | line | func
  deriving DecidableEq

/-- The size that the padder is told and the text; no padder is made for a message without logger. -/
def Field.text (pid : ℤ) (msg : LogMessage) (tm : Tm) : Field → Option (ℕ × Text)
  | .name => msg.logger.map fun name => (name.length, name)
  | .level => some (msg.level.text.length, msg.level.text)
  | .shortLevel => some (msg.level.shortText.length, msg.level.shortText)
  | .tid => some (countDigits (unsigned msg.tid), formatInt msg.tid)
  | .value => some (msg.buf.length, msg.buf)
  | .shortWeekday =>
    some ((nameAt shortWeekdays tm.tmWday).length, nameAt shortWeekdays tm.tmWday)
  | .weekday => some ((nameAt weekdays tm.tmWday).length, nameAt weekdays tm.tmWday)
  | .shortMonthName => some ((nameAt shortMonths tm.tmMon).length, nameAt shortMonths tm.tmMon)
  | .monthName => some ((nameAt months tm.tmMon).length, nameAt months tm.tmMon)
  | .dateTime => some (24, nameAt shortWeekdays tm.tmWday ++ ' ' :: (nameAt shortMonths tm.tmMon ++
      ' ' :: (formatInt tm.tmMday ++ ' ' :: (clockText tm.tmHour tm ++
        ' ' :: formatInt (tm.tmYear + 1900)))))
  | .shortYear => some (2, pad2 (tm.tmYear.tmod 100))
  | .year => some (4, formatInt (tm.tmYear + 1900))
  | .month => some (2, pad2 (tm.tmMon + 1))
  | .day => some (2, pad2 tm.tmMday)
  | .shortDate => some (10, pad2 (tm.tmMon + 1) ++ '/' :: (pad2 tm.tmMday ++
      '/' :: pad2 (tm.tmYear.tmod 100)))
  | .hour24 => some (2, pad2 tm.tmHour)
  | .hour12 => some (2, pad2 (to12Hour tm))
  | .min => some (2, pad2 tm.tmMin)
  | .sec => some (2, pad2 tm.tmSec)
  | .millis => some (3, pad3 (timeFraction 1000000 msg.point))
  | .micros => some (6, padInt (unsigned (timeFraction 1000 msg.point)) 6)
  | .nanosecond => some (9, padInt (unsigned (timeFraction 1 msg.point)) 9)
  | .timestamp => some (10, formatInt msg.point.seconds)
  | .noon => some ((amOrPm tm).length, amOrPm tm)
  | .clockHour12 => some (11, clockText (to12Hour tm) tm ++ ' ' :: amOrPm tm)
  | .shortClockHour24 => some (5, pad2 tm.tmHour ++ ':' :: pad2 tm.tmMin)
  | .clockHour24 => some (8, clockText tm.tmHour tm)
  | .pid => some (countDigits (unsigned pid), formatInt pid)
  | .sourceLocation =>
    if msg.fileName = [] then some (0, [])
    else some (msg.fileName.length + countDigits msg.line + 1,
      msg.fileName ++ ':' :: decimalText msg.line)
  | .filename => some (msg.fileName.length, msg.fileName)
  | .shortFilename => some ((shortFileName msg.fileName).length, shortFileName msg.fileName)
  | .line => if msg.line = 0 then some (0, []) else some (countDigits msg.line, decimalText msg.line)
  | .func => some (msg.functionName.length, msg.functionName)

structure CustomFlags (C : Type) where
  text : C → LogMessage → Tm → Text
  after : C → LogMessage → Tm → C
  clone : C → C

/-- `pads` tells `scoped_padder` from `null_scoped_padder`; times are in nanoseconds. -/
inductive Flag (C : Type)
  | field (f : Field) (pads : Bool) (pad : LogPadding)
  | timezone (pads : Bool) (pad : LogPadding) (lastUpdate : ℤ := 0) (offset : ℤ := 0)
  | elapsed (unit : ℤ) (pads : Bool) (pad : LogPadding) (last : ℤ)
  | ch (c : Char)
  | aggregate (str : Text)
  | colorStart
  | colorStop
  | custom (obj : C)

namespace Flag

variable {C : Type} (custom : CustomFlags C) (pid : ℤ)

/-- `get_cached_offset`: the time of the last update and the offset after it. -/
def cachedOffset (msg : LogMessage) (tm : Tm) (lastUpdate offset : ℤ) : ℤ × ℤ :=
  if 10 * 1000000000 ≤ msg.point.ns - lastUpdate then
    (msg.point.ns, (utcMinutesOffset some msg.point tm).getD 0)
  else (lastUpdate, offset)

def timezoneText (minutes : ℤ) : Text :=
  (if minutes < 0 then '-' else '+') ::
    (pad2 (minutes.natAbs / 60) ++ ':' :: pad2 (minutes.natAbs % 60))

def elapsedCount (unit : ℤ) (msg : LogMessage) (last : ℤ) : ℕ :=
  ((max (msg.point.ns - last) 0).tdiv unit).toNat

def padder (pads : Bool) (pad : LogPadding) (wrapped : ℕ) : Option (LogPadding × ℕ) :=
  if pads then some (pad, wrapped) else none

def rendered (msg : LogMessage) (tm : Tm) : Flag C → Rendered
  | .field f pads pad =>
    match f.text pid msg tm with
    | none => ⟨[], none⟩
    | some (wrapped, body) => ⟨body, padder pads pad wrapped⟩
  | .timezone pads pad lastUpdate offset =>
    ⟨timezoneText (cachedOffset msg tm lastUpdate offset).2, padder pads pad 6⟩
  | .elapsed unit pads pad last =>
    ⟨decimalText (elapsedCount unit msg last),
      padder pads pad (countDigits (elapsedCount unit msg last))⟩
  | .ch c => ⟨[c], none⟩
  | .aggregate str => ⟨str, none⟩
  | .colorStart | .colorStop => ⟨[], none⟩
  | .custom obj => ⟨custom.text obj msg tm, none⟩

def after (msg : LogMessage) (tm : Tm) : Flag C → Flag C
  | .timezone pads pad lastUpdate offset =>
    .timezone pads pad (cachedOffset msg tm lastUpdate offset).1
      (cachedOffset msg tm lastUpdate offset).2
  | .elapsed unit pads pad _ => .elapsed unit pads pad msg.point.ns
  | .custom obj => .custom (custom.after obj msg tm)
  | f => f

/-- The clone of an elapsed time starts anew, at the time of cloning. -/
def clone (now : TimePoint) : Flag C → Flag C
  | .elapsed unit pads pad _ => .elapsed unit pads pad now.ns
  | .custom obj => .custom (custom.clone obj)
  | f => f

end Flag

end Simple.Log
