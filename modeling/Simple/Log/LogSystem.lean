import Simple.Lib.Machine
import Simple.Lib.Table

/-! The log system: the loggers by their names, and the default logger beside them. -/

namespace Simple.Log

open Simple.Lib

inductive LogLevel
  | off | critical | error | warn | info | debug | trace
  deriving DecidableEq

/-- What never changes of a logger; `pointer` is its address, appenders are named by theirs. -/
structure Logger where
  pointer : ℕ
  name : String
  async : Bool
  appenders : List ℕ
  deriving DecidableEq

variable {F : Type}

/-- `posted`: the flush messages for the writer thread. -/
structure Objects (F : Type) where
  level : Logger → LogLevel
  formatter : ℕ → F
  flushes : ℕ → ℕ
  posted : List Logger

namespace Objects

def setLevel (o : Objects F) (l : Logger) (level : LogLevel) : Objects F :=
  { o with level := Function.update o.level l level }

/-- The last appender takes the formatter itself, those before it take clones. -/
def setAppenders (clone : F → F) (f : F) : List ℕ → Objects F → Objects F
  | [], o => o
  | [a], o => { o with formatter := Function.update o.formatter a f }
  | a :: b :: as, o =>
    setAppenders clone f (b :: as) { o with formatter := Function.update o.formatter a (clone f) }

def setFormatter (clone : F → F) (o : Objects F) (l : Logger) (f : F) : Objects F :=
  setAppenders clone f l.appenders o

def backendFlush (o : Objects F) (l : Logger) : Objects F :=
  l.appenders.foldl (fun o a => { o with flushes := Function.update o.flushes a (o.flushes a + 1) }) o

def flush (o : Objects F) (l : Logger) : Objects F :=
  if l.async then { o with posted := o.posted ++ [l] } else o.backendFlush l

end Objects

structure LogSystem (F : Type) where
  loggers : Table String Logger
  logLevels : Table String LogLevel := ∅
  formatter : Option F := none
  globalLevel : LogLevel := .trace
  defaultLogger : Option Logger
  objects : Objects F

namespace LogSystem

def insertLoggers (s : LogSystem F) (l : Logger) : LogSystem F :=
  { s with loggers := s.loggers.set l.name l }

def registerLogger (s : LogSystem F) (l : Logger) : LogSystem F := s.insertLoggers l

/-- `formatter_` is dereferenced: `none` before one was set. -/
def initializeLogger (clone : F → F) (s : LogSystem F) (l : Logger) : Option (LogSystem F) := do
  let formatter ← s.formatter
  let objects := s.objects.setFormatter clone l (clone formatter)
  let objects := objects.setLevel l ((s.logLevels.get l.name).getD s.globalLevel)
  some ({ s with objects := objects }.insertLoggers l)

def drop (s : LogSystem F) (name : String) : LogSystem F :=
  { s with
    loggers := s.loggers.remove name
    defaultLogger := s.defaultLogger.filter fun current => current.name ≠ name }

def dropAll (s : LogSystem F) : LogSystem F := { s with loggers := ∅, defaultLogger := none }

def setDefault (s : LogSystem F) (new : Option Logger) : LogSystem F :=
  let s := match s.defaultLogger with
    | none => s
    | some old => { s with loggers := s.loggers.remove old.name }
  let s := match new with
    | none => s
    | some l => s.insertLoggers l
  { s with defaultLogger := new }

def values (s : LogSystem F) : List Logger := s.loggers.toList.map Prod.snd

def setLevel (s : LogSystem F) (level : LogLevel) : LogSystem F :=
  { s with
    globalLevel := level
    objects := s.values.foldl (fun o l => o.setLevel l level) s.objects }

def setLevels (s : LogSystem F) (levels : Table String LogLevel) (global : Option LogLevel) :
    LogSystem F :=
  { s with
    logLevels := levels
    globalLevel := global.getD s.globalLevel
    objects := s.loggers.toList.foldl (fun o entry =>
      match (levels.get entry.1).or global with
      | none => o
      | some level => o.setLevel entry.2 level) s.objects }

def setFormatter (clone : F → F) (s : LogSystem F) (f : F) : LogSystem F :=
  { s with
    formatter := some f
    objects := s.values.foldl (fun o l => o.setFormatter clone l (clone f)) s.objects }

def flush (s : LogSystem F) : LogSystem F :=
  { s with objects := s.values.foldl Objects.flush s.objects }

def backendFlush (s : LogSystem F) : LogSystem F :=
  { s with objects := s.values.foldl Objects.backendFlush s.objects }

end LogSystem

inductive Call (F : Type)
  | registerLogger (l : Logger)
  | initializeLogger (l : Logger)
  | drop (name : String)
  | dropAll
  | setDefault (l : Option Logger)
  | setLevel (level : LogLevel)
  | setLevels (levels : Table String LogLevel) (global : Option LogLevel)
  | setFormatter (f : F)
  | flush
  | backendFlush

def LogSystem.step (clone : F → F) (s : LogSystem F) : Call F → Option (LogSystem F)
  | .registerLogger l => some (s.registerLogger l)
  | .initializeLogger l => s.initializeLogger clone l
  | .drop name => some (s.drop name)
  | .dropAll => some s.dropAll
  | .setDefault l => some (s.setDefault l)
  | .setLevel level => some (s.setLevel level)
  | .setLevels levels global => some (s.setLevels levels global)
  | .setFormatter f => some (s.setFormatter clone f)
  | .flush => some s.flush
  | .backendFlush => some s.backendFlush

def stdoutLogger : Logger := ⟨0, "", false, [0]⟩

def logSystem (clone : F → F) (objects : Objects F) : Machine (LogSystem F) (Call F) where
  initial := {
    loggers := (∅ : Table String Logger).set stdoutLogger.name stdoutLogger
    defaultLogger := some stdoutLogger
    objects := objects }
  step := LogSystem.step clone

namespace LogSystem

variable {clone : F → F} {s t : LogSystem F}

/-- `default_logger()` is null, or its name leads to it. -/
def Linked (s : LogSystem F) : Prop :=
  ∀ d, s.defaultLogger = some d → s.loggers.get d.name = some d

/-- The call does not register another logger under the name of the default logger. -/
def Spares (s : LogSystem F) : Call F → Prop
  | .registerLogger l | .initializeLogger l =>
    ∀ d, s.defaultLogger = some d → l.name = d.name → l = d
  | _ => True

lemma linked_insertLoggers (h : s.Linked) (l : Logger) :
    (s.insertLoggers l).Linked ↔ ∀ d, s.defaultLogger = some d → l.name = d.name → l = d := by
  constructor
  · intro ht d hd hname
    have hget : (s.loggers.set l.name l).get d.name = some d := ht d hd
    rw [hname, Table.get_set_self] at hget
    exact Option.some.inj hget
  · intro hspare d hd
    show (s.loggers.set l.name l).get d.name = some d
    by_cases hname : l.name = d.name
    · rw [hspare d hd hname, Table.get_set_self]
    · rw [Table.get_set_ne (Ne.symm hname)]
      exact h d hd

lemma Linked.drop (h : s.Linked) (name : String) : (s.drop name).Linked := by
  intro d hd
  obtain ⟨hdefault, hname⟩ := Option.filter_eq_some_iff.mp hd
  show (s.loggers.remove name).get d.name = some d
  rw [Table.get_remove, if_neg (by simpa using hname)]
  exact h d hdefault

lemma linked_setDefault (s : LogSystem F) (l : Option Logger) : (s.setDefault l).Linked := by
  intro d hd
  obtain rfl : l = some d := hd
  exact Table.get_set_self

lemma initializeLogger_linked {l : Logger} (ht : s.initializeLogger clone l = some t) (h : s.Linked) :
    t.Linked ↔ ∀ d, s.defaultLogger = some d → l.name = d.name → l = d := by
  obtain ⟨formatter, -, ht⟩ := Option.bind_eq_some_iff.mp ht
  rw [← Option.some.inj ht]
  exact linked_insertLoggers (s := { s with objects := _ }) h l

lemma step_linked {c : Call F} (h : s.Linked) (ht : s.step clone c = some t) :
    t.Linked ↔ s.Spares c := by
  cases c with
  | registerLogger l =>
    cases ht
    exact linked_insertLoggers h l
  | initializeLogger l => exact initializeLogger_linked ht h
  | drop name =>
    cases ht
    exact iff_of_true (h.drop name) trivial
  | dropAll =>
    cases ht
    exact iff_of_true (fun d hd => by cases hd) trivial
  | setDefault l =>
    cases ht
    exact iff_of_true (s.linked_setDefault l) trivial
  | setLevel | setLevels | setFormatter | flush | backendFlush =>
    cases ht
    exact iff_of_true h trivial

end LogSystem

namespace Objects

variable {clone : F → F} {o : Objects F} {l d : Logger} {ls : List Logger} {a : ℕ} {as : List ℕ}

lemma level_foldl (level : LogLevel) :
    (ls.foldl (fun o l => o.setLevel l level) o).level d = if d ∈ ls then level else o.level d := by
  induction ls generalizing o with
  | nil => rfl
  | cons l ls ih =>
    rw [List.foldl_cons, ih, setLevel]
    by_cases hl : d = l
    · subst hl
      simp
    · simp [hl]

lemma setAppenders_formatter {f : F} (h : a ∈ as ∨ ∃ n, o.formatter a = clone^[n] f) :
    ∃ n, (setAppenders clone f as o).formatter a = clone^[n] f := by
  induction as generalizing o with
  | nil => exact h.resolve_left List.not_mem_nil
  | cons b as ih =>
    cases as with
    | nil =>
      by_cases hab : a = b
      · subst hab
        exact ⟨0, Function.update_self ..⟩
      · obtain ⟨n, hn⟩ := h.resolve_left (by simpa using hab)
        exact ⟨n, (Function.update_of_ne hab ..).trans hn⟩
    | cons c as =>
      apply ih
      by_cases hab : a = b
      · subst hab
        exact .inr ⟨1, Function.update_self ..⟩
      · refine h.imp (fun hmem => List.mem_of_ne_of_mem hab hmem) ?_
        rintro ⟨n, hn⟩
        exact ⟨n, (Function.update_of_ne hab ..).trans hn⟩

lemma formatter_foldl {f : F}
    (h : (∃ l ∈ ls, a ∈ l.appenders) ∨ ∃ n, o.formatter a = clone^[n] f) :
    ∃ n, (ls.foldl (fun o l => o.setFormatter clone l f) o).formatter a = clone^[n] f := by
  induction ls generalizing o with
  | nil => exact h.resolve_left (by simp)
  | cons l ls ih =>
    apply ih
    rw [List.exists_mem_cons_iff] at h
    obtain (ha | hls) | hn := h
    · exact .inr (setAppenders_formatter (.inl ha))
    · exact .inl hls
    · exact .inr (setAppenders_formatter (.inr hn))

/-- Appenders are flushed at least as often after as before, and those of `as` more often. -/
lemma flushes_appenders (o : Objects F) (as : List ℕ) (a : ℕ) :
    (as.foldl (fun o a => { o with flushes := Function.update o.flushes a (o.flushes a + 1) })
      o).flushes a = o.flushes a + as.count a := by
  induction as generalizing o with
  | nil => rfl
  | cons b as ih =>
    rw [List.foldl_cons, ih, List.count_cons]
    by_cases hab : a = b
    · subst hab
      simp only [Function.update_self, beq_self_eq_true, if_true]
      omega
    · simp only [Function.update_of_ne hab, beq_iff_eq, Ne.symm hab, if_false]
      omega

lemma posted_backendFlush : (o.backendFlush l).posted = o.posted := by
  have h (as : List ℕ) : (as.foldl (fun o a => { o with
      flushes := Function.update o.flushes a (o.flushes a + 1) }) o).posted = o.posted := by
    induction as generalizing o with
    | nil => rfl
    | cons a as ih => exact ih
  exact h l.appenders

lemma flushes_le_backendFlush : o.flushes a ≤ (o.backendFlush l).flushes a := by
  rw [backendFlush, flushes_appenders]
  omega

lemma flushes_lt_backendFlush (h : a ∈ l.appenders) : o.flushes a < (o.backendFlush l).flushes a := by
  have hcount := List.count_pos_iff.mpr h
  rw [backendFlush, flushes_appenders]
  omega

lemma flushes_le_flush : o.flushes a ≤ (o.flush l).flushes a := by
  unfold flush
  split
  · exact le_rfl
  · exact flushes_le_backendFlush

lemma foldl_reaches {walk : Objects F → Logger → Objects F} {P : Objects F → Prop}
    (hkeep : ∀ o l, P o → P (walk o l)) (hd : d ∈ ls)
    (hstart : ∀ before : List Logger, P (walk (before.foldl walk o) d)) :
    P (ls.foldl walk o) := by
  have hafter (o : Objects F) (after : List Logger) (h : P o) : P (after.foldl walk o) := by
    induction after generalizing o with
    | nil => exact h
    | cons l after ih => exact ih _ (hkeep o l h)
  obtain ⟨before, after, rfl⟩ := List.append_of_mem hd
  rw [List.foldl_append, List.foldl_cons]
  exact hafter _ after (hstart before)

lemma flushes_le_foldl {walk : Objects F → Logger → Objects F}
    (h : ∀ o l, o.flushes a ≤ (walk o l).flushes a) (o : Objects F) (ls : List Logger) :
    o.flushes a ≤ (ls.foldl walk o).flushes a := by
  induction ls generalizing o with
  | nil => exact le_rfl
  | cons l ls ih => exact (h o l).trans (ih _)

end Objects

namespace LogSystem

variable {clone : F → F} {s : LogSystem F} {d : Logger}

/-- The calls over all loggers come to `d`: it takes the level, its appenders take clones of the
formatter, and they are flushed or, when `d` is asynchronous, the writer thread is told to. -/
structure Reaches (clone : F → F) (s : LogSystem F) (d : Logger) : Prop where
  level : ∀ level, (s.setLevel level).objects.level d = level
  formatter : ∀ f, ∀ a ∈ d.appenders,
    ∃ n, (s.setFormatter clone f).objects.formatter a = clone^[n] (clone f)
  flush : if d.async then d ∈ s.flush.objects.posted
    else ∀ a ∈ d.appenders, s.objects.flushes a < s.flush.objects.flushes a
  backendFlush : ∀ a ∈ d.appenders, s.objects.flushes a < s.backendFlush.objects.flushes a

lemma reaches_of_mem (h : d ∈ s.values) : s.Reaches clone d where
  level level := by
    rw [setLevel, Objects.level_foldl, if_pos h]
  formatter f a ha := Objects.formatter_foldl (.inl ⟨d, h, ha⟩)
  flush := by
    split_ifs with hasync
    · refine Objects.foldl_reaches (P := fun o => d ∈ o.posted) ?_ h ?_
      · intro o l ho
        unfold Objects.flush
        split
        · exact List.mem_append_left _ ho
        · rwa [Objects.posted_backendFlush]
      · intro before
        simp [Objects.flush, hasync]
    · intro a ha
      refine Objects.foldl_reaches (P := fun o => s.objects.flushes a < o.flushes a) ?_ h ?_
      · exact fun o l ho => ho.trans_le Objects.flushes_le_flush
      · intro before
        rw [Objects.flush, if_neg hasync]
        exact (Objects.flushes_le_foldl (fun _ _ => Objects.flushes_le_flush) _ before).trans_lt
          (Objects.flushes_lt_backendFlush ha)
  backendFlush a ha := by
    refine Objects.foldl_reaches (P := fun o => s.objects.flushes a < o.flushes a) ?_ h ?_
    · exact fun o l ho => ho.trans_le Objects.flushes_le_backendFlush
    · intro before
      exact (Objects.flushes_le_foldl (fun _ _ => Objects.flushes_le_backendFlush) _ before).trans_lt
        (Objects.flushes_lt_backendFlush ha)

lemma Linked.mem_values (h : s.Linked) (hd : s.defaultLogger = some d) : d ∈ s.values :=
  List.mem_map.mpr ⟨(d.name, d), Table.mem_toList.mpr (h d hd), rfl⟩

end LogSystem

section Main

variable (clone : F → F) (objects : Objects F)

/-- The default logger stays registered exactly in the runs that never register another logger under
its name, and as long as it is registered the calls over all loggers come to it. -/
theorem default_registered_iff :
    (∀ calls, (logSystem clone objects).Always LogSystem.Linked (logSystem clone objects).initial calls ↔
      (logSystem clone objects).Along LogSystem.Spares (logSystem clone objects).initial calls) ∧
    ∀ s : LogSystem F, s.Linked → ∀ d, s.defaultLogger = some d → s.Reaches clone d := by
  constructor
  · intro calls
    refine Machine.always_iff_along (I := fun _ => True) (fun _ _ _ _ _ => trivial) ?_ trivial ?_
    · exact fun s c t _ h ht => LogSystem.step_linked h ht
    · intro d hd
      obtain rfl : stdoutLogger = d := Option.some.inj hd
      exact Table.get_set_self
  · exact fun s h d hd => LogSystem.reaches_of_mem (h.mem_values hd)

end Main

/-- Another logger without a name takes the place of the default logger, which is left out of the
calls over all loggers. -/
theorem default_replaced :
    ¬(logSystem id (⟨fun _ => .trace, fun _ => (), fun _ => 0, []⟩ : Objects Unit)).Always
      LogSystem.Linked
      (logSystem id (⟨fun _ => .trace, fun _ => (), fun _ => 0, []⟩ : Objects Unit)).initial
      [.registerLogger ⟨1, "", false, [1]⟩] := by
  rintro ⟨-, h⟩
  have hlinked := h _ rfl stdoutLogger rfl
  have hget : some (⟨1, "", false, [1]⟩ : Logger) = some stdoutLogger :=
    Table.get_set_self.symm.trans hlinked
  exact absurd hget (by decide)

end Simple.Log
