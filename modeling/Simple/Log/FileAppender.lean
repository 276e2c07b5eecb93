import Simple.Lib.Table
import Simple.Log.FileNames

/-! The appender that writes files, and rolls them when they are large or the day is over. -/

namespace Simple.Log

open Simple.Lib Simple.Utils.Time

structure Message where
  point : TimePoint
  buf : List UInt8

structure Posted where
  src : Text
  forSize : Bool

/-- `disk` holds the messages of each file, `opened` the names in the order of opening. -/
structure FileAppender where
  fullName : Text := []
  fileSecs : ℤ := 0
  fileId : ℕ := 0
  fileSize : ℕ := 0
  cachedPoint : TimePoint
  cachedTm : Tm
  isOpen : Bool := false
  disk : Table Text (List Message) := ∅
  opened : List Text := []
  posted : List Posted := []

section Code

variable (localtime : TimePoint → Tm) (canOpen : Text → Bool) (pid : ℕ) (config : FileAppenderConfig)

def brokenDown (p : TimePoint) : Tm :=
  match config.fileTime with
  | .localTime => localtime p
  | .utc => gmtime p

namespace FileAppender

def create (now : TimePoint) : FileAppender :=
  { cachedPoint := now, cachedTm := brokenDown localtime config now }

def rollFile (forSize : Bool) (s : FileAppender) : FileAppender :=
  if s.isOpen then
    { s with isOpen := false, fileSize := 0, posted := s.posted ++ [⟨s.fullName, forSize⟩] }
  else s

def makeFullName (s : FileAppender) : FileAppender :=
  let s := if s.fileSecs < s.cachedPoint.seconds then
    { s with fileSecs := s.cachedPoint.seconds, fileId := 0 } else s
  { s with fullName := Log.fullName config pid s.cachedTm s.fileId, fileId := s.fileId + 1 }

/-- The first block of `write`. -/
def advance (point : TimePoint) (s : FileAppender) : FileAppender :=
  if s.cachedPoint.seconds < point.seconds then
    let currentTm := brokenDown localtime config point
    let s := if config.dailyRoll = true ∧
        (currentTm.tmYear ≠ s.cachedTm.tmYear ∨ currentTm.tmYday ≠ s.cachedTm.tmYday) then
      s.rollFile false else s
    { s with cachedTm := currentTm, cachedPoint := point }
  else s

/-- The second block of `write`; a name that exists is truncated. -/
def openFile (s : FileAppender) : FileAppender :=
  if s.isOpen then s
  else
    let s := s.makeFullName pid config
    if canOpen s.fullName then
      { s with
        isOpen := true
        disk := s.disk.set s.fullName []
        opened := s.opened ++ [s.fullName] }
    else s

def put (m : Message) (s : FileAppender) : FileAppender :=
  { s with
    disk := s.disk.modify s.fullName (· ++ [m])
    fileSize := s.fileSize + m.buf.length }

def write (s : FileAppender) (m : Message) : FileAppender :=
  let s := (s.advance localtime config m.point).openFile canOpen pid config
  if s.isOpen then
    let s := s.put m
    if 0 < config.maxSize ∧ config.maxSize ≤ s.fileSize then s.rollFile true else s
  else s

def run (now : TimePoint) (msgs : List Message) : FileAppender :=
  msgs.foldl (write localtime canOpen pid config) (create localtime config now)

def contents (s : FileAppender) (name : Text) : List UInt8 :=
  ((s.disk.get name).getD []).flatMap Message.buf

end FileAppender

end Code

structure File where
  point : TimePoint
  id : ℕ
  messages : List Message

def size (msgs : List Message) : ℕ := (msgs.flatMap Message.buf).length

def day (tm : Tm) : ℤ × ℤ := (tm.tmYear, tm.tmYday)

section Invariant

variable {localtime : TimePoint → Tm} {canOpen : Text → Bool} {pid : ℕ} {config : FileAppenderConfig}

def File.name (pid : ℕ) (config : FileAppenderConfig) (f : File) : Text :=
  fullName config pid (gmtime f.point) f.id

def File.key (f : File) : ℤ × ℕ := (f.point.seconds, f.id)

lemma gmtime_year_lt (p : TimePoint) : (utc p.seconds).date.year < 10000 :=
  (utc_year_le p).trans_lt (by decide)

lemma File.key_of_name {f g : File} (h : f.name pid config = g.name pid config) : f.key = g.key := by
  obtain ⟨hseconds, hid⟩ := fullName_injective (gmtime_year_lt f.point) (gmtime_year_lt g.point) h
  rw [TimePoint.seconds_utc, TimePoint.seconds_utc] at hseconds
  exact Prod.ext hseconds hid

/-- `f` has been ended by its size: before its last message it was smaller than the limit. -/
def File.Full (config : FileAppenderConfig) (f : File) : Prop :=
  ∃ before last, f.messages = before ++ [last] ∧ size before < config.maxSize

/-- The next name will not be that of `f`. -/
def FileAppender.Past (s : FileAppender) (f : File) : Prop :=
  f.point.seconds ≤ s.fileSecs ∧
    (0 < s.fileSecs ∧ f.point.seconds < s.fileSecs ∨ f.id < s.fileId)

/-- `closed` and `current` are the files that `msgs` have been written to. -/
structure FileAppender.Holds (pid : ℕ) (config : FileAppenderConfig) (s : FileAppender)
    (closed : List File) (current : Option File) (msgs : List Message) : Prop where
  tm : s.cachedTm = gmtime s.cachedPoint
  isOpen : s.isOpen = current.isSome
  fullName : ∀ f, current = some f → s.fullName = f.name pid config
  fileSize : s.fileSize = size ((current.map File.messages).getD [])
  opened : s.opened = (closed ++ current.toList).map (File.name pid config)
  disk : ∀ f ∈ closed ++ current.toList, s.disk.get (f.name pid config) = some f.messages
  content : (closed ++ current.toList).flatMap File.messages = msgs
  distinct : (closed ++ current.toList).Pairwise fun f g => f.key ≠ g.key
  past : ∀ f ∈ closed ++ current.toList, s.Past f
  secs : s.fileSecs = 0 ∨ 0 < s.fileSecs ∧ s.fileSecs ≤ s.cachedPoint.seconds
  full : ∀ r ∈ s.posted, r.forSize = true → ∃ f ∈ closed, f.name pid config = r.src ∧ f.Full config

def FileAppender.Room (config : FileAppenderConfig) (s : FileAppender) : Prop :=
  s.isOpen = true → 0 < config.maxSize → s.fileSize < config.maxSize

structure FileAppender.Daily (s : FileAppender) (closed : List File) (current : Option File) :
    Prop where
  closed : ∀ f ∈ closed, ∀ m ∈ f.messages, ∀ m' ∈ f.messages,
    day (gmtime m.point) = day (gmtime m'.point)
  current : ∀ f, current = some f → ∀ m ∈ f.messages, day (gmtime m.point) = day s.cachedTm

namespace FileAppender

variable {s : FileAppender} {closed : List File} {current : Option File} {msgs : List Message}

lemma Holds.rollFile (h : s.Holds pid config closed current msgs) {forSize : Bool}
    (hfull : forSize = true → ∀ f, current = some f → f.Full config) :
    (s.rollFile forSize).Holds pid config (closed ++ current.toList) none msgs := by
  cases current with
  | none =>
    have hopen : ¬s.isOpen = true := by simp [h.isOpen]
    rw [FileAppender.rollFile, if_neg hopen, Option.toList_none, List.append_nil]
    exact h
  | some f =>
    have hfiles : closed ++ (some f).toList ++ (none : Option File).toList =
        closed ++ (some f).toList := List.append_nil _
    have hopen : s.isOpen = true := h.isOpen
    rw [FileAppender.rollFile, if_pos hopen]
    refine ⟨h.tm, rfl, fun g hg => (by cases hg), rfl, ?_, ?_, ?_, ?_, ?_, h.secs, ?_⟩
    · rw [hfiles]
      exact h.opened
    · rw [hfiles]
      exact h.disk
    · rw [hfiles]
      exact h.content
    · rw [hfiles]
      exact h.distinct
    · rw [hfiles]
      exact h.past
    · intro r hr hsize
      rcases List.mem_append.mp hr with hr | hr
      · obtain ⟨g, hg, hname⟩ := h.full r hr hsize
        exact ⟨g, List.mem_append_left _ hg, hname⟩
      · obtain rfl := List.mem_singleton.mp hr
        exact ⟨f, List.mem_append_right _ List.mem_cons_self, (h.fullName f rfl).symm,
          hfull hsize f rfl⟩

lemma rollFile_room (forSize : Bool) : (s.rollFile forSize).Room config := by
  intro hopen
  unfold FileAppender.rollFile at hopen
  split at hopen
  · cases hopen
  · contradiction

lemma Holds.setTime (h : s.Holds pid config closed current msgs) {point : TimePoint}
    (hle : s.cachedPoint.seconds ≤ point.seconds) :
    { s with cachedTm := gmtime point, cachedPoint := point }.Holds pid config closed current msgs where
  tm := rfl
  isOpen := h.isOpen
  fullName := h.fullName
  fileSize := h.fileSize
  opened := h.opened
  disk := h.disk
  content := h.content
  distinct := h.distinct
  past := h.past
  secs := h.secs.imp_right fun hsecs => ⟨hsecs.1, hsecs.2.trans hle⟩
  full := h.full

lemma rollFile_cached (forSize : Bool) : (s.rollFile forSize).cachedPoint = s.cachedPoint ∧
    (s.rollFile forSize).cachedTm = s.cachedTm := by
  unfold FileAppender.rollFile
  split
  · exact ⟨rfl, rfl⟩
  · exact ⟨rfl, rfl⟩

lemma Daily.all (h : s.Daily closed current) {f : File} (hf : f ∈ closed ++ current.toList) :
    ∀ m ∈ f.messages, ∀ m' ∈ f.messages, day (gmtime m.point) = day (gmtime m'.point) := by
  rcases List.mem_append.mp hf with hf | hf
  · exact h.closed f hf
  · have hcurrent := h.current f (Option.mem_toList.mp hf)
    intro m hm m' hm'
    rw [hcurrent m hm, hcurrent m' hm']

lemma brokenDown_utc (hutc : config.fileTime = .utc) (p : TimePoint) :
    brokenDown localtime config p = gmtime p := by
  rw [brokenDown, hutc]

lemma gmtime_eq {p q : TimePoint} (h : p.seconds = q.seconds) : gmtime p = gmtime q := by
  rw [gmtime, gmtime, h]

lemma Holds.advance (localtime : TimePoint → Tm) (hutc : config.fileTime = .utc)
    (h : s.Holds pid config closed current msgs)
    (hroom : s.Room config) (point : TimePoint) :
    ∃ closed' current',
      (s.advance localtime config point).Holds pid config closed' current' msgs ∧
      (s.advance localtime config point).Room config ∧
      (config.dailyRoll = true → s.cachedPoint.seconds ≤ point.seconds → s.Daily closed current →
        (s.advance localtime config point).Daily closed' current' ∧
          gmtime point = (s.advance localtime config point).cachedTm) := by
  rw [FileAppender.advance, brokenDown_utc hutc]
  by_cases hlt : s.cachedPoint.seconds < point.seconds
  · rw [if_pos hlt]
    by_cases hday : config.dailyRoll = true ∧ ((gmtime point).tmYear ≠ s.cachedTm.tmYear ∨
        (gmtime point).tmYday ≠ s.cachedTm.tmYday)
    · simp only [if_pos hday]
      have hle : (s.rollFile false).cachedPoint.seconds ≤ point.seconds := by
        rw [(rollFile_cached false).1]
        exact hlt.le
      refine ⟨_, _, (h.rollFile fun hsize => by cases hsize).setTime hle, rollFile_room false, ?_⟩
      intro _ _ hdaily
      exact ⟨⟨fun f hf => hdaily.all hf, fun f hf => by cases hf⟩, trivial⟩
    · simp only [if_neg hday]
      refine ⟨_, _, h.setTime hlt.le, hroom, ?_⟩
      intro hroll _ hdaily
      have hsame : day s.cachedTm = day (gmtime point) := by
        simp only [hroll, true_and, not_or, not_not] at hday
        exact Prod.ext hday.1.symm hday.2.symm
      refine ⟨⟨hdaily.closed, fun f hf m hm => ?_⟩, trivial⟩
      exact (hdaily.current f hf m hm).trans hsame
  · rw [if_neg hlt]
    refine ⟨_, _, h, hroom, ?_⟩
    intro _ hle hdaily
    exact ⟨hdaily, (gmtime_eq (le_antisymm (not_lt.mp hlt) hle)).trans h.tm.symm⟩

def nextId (s : FileAppender) : ℕ := if s.fileSecs < s.cachedPoint.seconds then 0 else s.fileId

lemma makeFullName_eq (s : FileAppender) : s.makeFullName pid config =
    { s with
      fullName := Log.fullName config pid s.cachedTm s.nextId
      fileSecs := max s.fileSecs s.cachedPoint.seconds
      fileId := s.nextId + 1 } := by
  unfold makeFullName nextId
  by_cases h : s.fileSecs < s.cachedPoint.seconds
  · simp only [if_pos h, max_eq_right h.le]
  · simp only [if_neg h, max_eq_left (not_lt.mp h)]

lemma Past.next (pid : ℕ) (config : FileAppenderConfig) {f : File} (h : s.Past f)
    (hsecs : s.fileSecs = 0 ∨ 0 < s.fileSecs ∧ s.fileSecs ≤ s.cachedPoint.seconds) :
    f.key ≠ (s.cachedPoint.seconds, s.nextId) ∧ (s.makeFullName pid config).Past f := by
  obtain ⟨hbelow, hfresh⟩ := h
  rw [makeFullName_eq, Past, File.key, Ne, Prod.mk.injEq, nextId]
  by_cases hlt : s.fileSecs < s.cachedPoint.seconds
  · simp only [if_pos hlt, max_eq_right hlt.le]
    omega
  · simp only [if_neg hlt, max_eq_left (not_lt.mp hlt)]
    omega

lemma Holds.openFile (hcan : ∀ name, canOpen name = true)
    (h : s.Holds pid config closed current msgs) (hroom : s.Room config) :
    ∃ f, (s.openFile canOpen pid config).Holds pid config closed (some f) msgs ∧
      (s.openFile canOpen pid config).Room config ∧
      (s.Daily closed current → (s.openFile canOpen pid config).Daily closed (some f)) ∧
      (s.openFile canOpen pid config).cachedTm = s.cachedTm ∧
      (s.openFile canOpen pid config).cachedPoint = s.cachedPoint := by
  cases current with
  | some f =>
    have hopen : s.isOpen = true := h.isOpen
    rw [FileAppender.openFile, if_pos hopen]
    exact ⟨f, h, hroom, id, rfl, rfl⟩
  | none =>
    have hopen : ¬s.isOpen = true := by simp [h.isOpen]
    rw [FileAppender.openFile, if_neg hopen]
    simp only [makeFullName_eq, hcan, if_true]
    have hfiles : closed ++ (none : Option File).toList = closed := List.append_nil _
    have hopened := h.opened
    have hdisk := h.disk
    have hcontent := h.content
    have hdistinct := h.distinct
    have hpast := h.past
    have hsize := h.fileSize
    rw [hfiles] at hopened hdisk hcontent hdistinct hpast
    obtain ⟨f, hf⟩ : ∃ f : File, f = ⟨s.cachedPoint, s.nextId, []⟩ := ⟨_, rfl⟩
    have hname : Log.fullName config pid s.cachedTm s.nextId = f.name pid config := by
      rw [h.tm, hf, File.name]
    have hnext (g : File) (hg : g ∈ closed) := (hpast g hg).next pid config h.secs
    simp only [makeFullName_eq] at hnext
    have hkey : ∀ g ∈ closed, g.key ≠ f.key := by
      intro g hg
      rw [hf]
      exact (hnext g hg).1
    have hmem {g : File} (hg : g ∈ closed ++ (some f).toList) : g ∈ closed ∨ g = f := by
      simpa using hg
    refine ⟨f, ⟨h.tm, rfl, ?_, ?_, ?_, ?_, ?_, ?_, ?_, ?_, h.full⟩, ?_, ?_, trivial, trivial⟩
    · intro g hg
      rw [← Option.some.inj hg]
      exact hname
    · rw [hsize, hf]
      rfl
    · rw [hopened, hname]
      simp
    · intro g hg
      rw [hname]
      rcases hmem hg with hg | rfl
      · rw [Table.get_set_ne fun heq => hkey g hg (File.key_of_name heq)]
        exact hdisk g hg
      · rw [Table.get_set_self, hf]
    · rw [← hcontent, hf]
      simp
    · rw [Option.toList_some, List.pairwise_append]
      refine ⟨hdistinct, List.pairwise_singleton _ _, fun g hg g' hg' => ?_⟩
      rw [List.mem_singleton.mp hg']
      exact hkey g hg
    · intro g hg
      rcases hmem hg with hg | rfl
      · exact (hnext g hg).2
      · rw [hf]
        exact ⟨le_max_right _ _, .inr (Nat.lt_succ_self _)⟩
    · have hsecs := h.secs
      simp only
      omega
    · intro _ hmax
      rw [hsize]
      exact hmax
    · intro hdaily
      refine ⟨hdaily.closed, fun g hg m hm => ?_⟩
      rw [← Option.some.inj hg, hf] at hm
      cases hm

lemma size_append (before : List Message) (m : Message) :
    size (before ++ [m]) = size before + m.buf.length := by
  simp [size]

lemma Holds.put {f : File} (h : s.Holds pid config closed (some f) msgs) (m : Message) :
    (s.put m).Holds pid config closed (some { f with messages := f.messages ++ [m] })
      (msgs ++ [m]) := by
  have hname := h.fullName f rfl
  have hdistinct := List.pairwise_append.mp h.distinct
  have hother : ∀ g ∈ closed, g.name pid config ≠ s.fullName := by
    intro g hg heq
    rw [hname] at heq
    exact hdistinct.2.2 g hg f List.mem_cons_self (File.key_of_name heq)
  refine ⟨h.tm, h.isOpen, ?_, ?_, ?_, ?_, ?_, ?_, ?_, h.secs, h.full⟩
  · intro g hg
    rw [← Option.some.inj hg]
    exact hname
  · have hsize := h.fileSize
    simp only [FileAppender.put, hsize]
    exact (size_append f.messages m).symm
  · have hopened := h.opened
    simp only [Option.toList_some, List.map_append, List.map_cons, List.map_nil] at hopened ⊢
    exact hopened
  · intro g hg
    show (s.disk.modify s.fullName (· ++ [m])).get _ = _
    rcases List.mem_append.mp hg with hg | hg
    · rw [Table.get_modify, if_neg (hother g hg)]
      exact h.disk g (List.mem_append_left _ hg)
    · rw [List.mem_singleton.mp hg]
      have hget := h.disk f (List.mem_append_right _ List.mem_cons_self)
      rw [← hname] at hget
      rw [Table.get_modify, show File.name pid config { f with messages := f.messages ++ [m] } =
        s.fullName from hname.symm, if_pos rfl, hget, Option.map_some]
  · have hcontent := h.content
    rw [← hcontent]
    simp
  · rw [Option.toList_some, List.pairwise_append]
    exact ⟨hdistinct.1, List.pairwise_singleton _ _, fun g hg g' hg' => by
      rw [List.mem_singleton.mp hg']
      exact hdistinct.2.2 g hg f List.mem_cons_self⟩
  · intro g hg
    rcases List.mem_append.mp hg with hg | hg
    · exact h.past g (List.mem_append_left _ hg)
    · rw [List.mem_singleton.mp hg]
      exact h.past f (List.mem_append_right _ List.mem_cons_self)

lemma Holds.write (localtime : TimePoint → Tm) (hutc : config.fileTime = .utc)
    (hcan : ∀ name, canOpen name = true)
    (h : s.Holds pid config closed current msgs) (hroom : s.Room config) (m : Message) :
    ∃ closed' current',
      (s.write localtime canOpen pid config m).Holds pid config closed' current' (msgs ++ [m]) ∧
      (s.write localtime canOpen pid config m).Room config ∧
      (config.dailyRoll = true → s.cachedPoint.seconds ≤ m.point.seconds → s.Daily closed current →
        (s.write localtime canOpen pid config m).Daily closed' current') := by
  obtain ⟨closed₁, current₁, h₁, hroom₁, hdaily₁⟩ := h.advance localtime hutc hroom m.point
  obtain ⟨f, h₂, hroom₂, hdaily₂, htm, hpoint⟩ := h₁.openFile hcan hroom₁
  have hopen : ((s.advance localtime config m.point).openFile canOpen pid config).isOpen = true :=
    h₂.isOpen
  rw [FileAppender.write, if_pos hopen]
  have h₃ := h₂.put m
  have hput : config.dailyRoll = true → s.cachedPoint.seconds ≤ m.point.seconds →
      s.Daily closed current →
      (((s.advance localtime config m.point).openFile canOpen pid config).put m).Daily closed₁
        (some { f with messages := f.messages ++ [m] }) := by
    intro hroll hle hdaily
    obtain ⟨hdaily, hday⟩ := hdaily₁ hroll hle hdaily
    have hdaily := hdaily₂ hdaily
    refine ⟨hdaily.closed, fun g hg m' hm' => ?_⟩
    rw [← Option.some.inj hg] at hm'
    rcases List.mem_append.mp hm' with hm' | hm'
    · exact hdaily.current f rfl m' hm'
    · rw [List.mem_singleton.mp hm', hday]
      exact congrArg day htm.symm
  by_cases hlarge : 0 < config.maxSize ∧ config.maxSize ≤
      (((s.advance localtime config m.point).openFile canOpen pid config).put m).fileSize
  · simp only [if_pos hlarge]
    have hfull : File.Full config { f with messages := f.messages ++ [m] } := by
      refine ⟨f.messages, m, rfl, ?_⟩
      have hsize := h₂.fileSize
      exact hsize ▸ hroom₂ hopen hlarge.1
    refine ⟨_, _, h₃.rollFile fun _ g hg => Option.some.inj hg ▸ hfull, rollFile_room true, ?_⟩
    intro hroll hle hdaily
    exact ⟨fun g hg => (hput hroll hle hdaily).all hg, fun g hg => by cases hg⟩
  · simp only [if_neg hlarge]
    refine ⟨_, _, h₃, ?_, hput⟩
    intro _ hmax
    exact not_le.mp fun hle => hlarge ⟨hmax, hle⟩

lemma write_cachedPoint (s : FileAppender) (m : Message) :
    (s.write localtime canOpen pid config m).cachedPoint = s.cachedPoint ∨
      (s.write localtime canOpen pid config m).cachedPoint = m.point := by
  have hopenFile (s : FileAppender) : (s.openFile canOpen pid config).cachedPoint = s.cachedPoint := by
    rw [FileAppender.openFile]
    simp only [makeFullName_eq]
    split
    · rfl
    · split <;> rfl
  have hadvance : (s.advance localtime config m.point).cachedPoint = s.cachedPoint ∨
      (s.advance localtime config m.point).cachedPoint = m.point := by
    unfold FileAppender.advance
    split
    · exact .inr rfl
    · exact .inl rfl
  rw [← hopenFile] at hadvance
  rw [FileAppender.write]
  split
  · simp only
    split
    · rw [(rollFile_cached true).1]
      exact hadvance
    · exact hadvance
  · exact hadvance

lemma create_holds (hutc : config.fileTime = .utc) (now : TimePoint) :
    (create localtime config now).Holds pid config [] none [] where
  tm := brokenDown_utc hutc now
  isOpen := rfl
  fullName f hf := by cases hf
  fileSize := rfl
  opened := rfl
  disk f hf := by cases hf
  content := rfl
  distinct := List.Pairwise.nil
  past f hf := by cases hf
  secs := .inl rfl
  full r hr := by cases hr

def Ordered (now : TimePoint) (msgs : List Message) : Prop :=
  (now.ns :: msgs.map fun m => m.point.ns).Pairwise (· ≤ ·)

lemma Ordered.append {now : TimePoint} {m : Message} (h : Ordered now (msgs ++ [m])) :
    Ordered now msgs ∧ ∀ p, p = now ∨ p ∈ msgs.map Message.point → p.ns ≤ m.point.ns := by
  rw [Ordered, List.map_append, ← List.cons_append, List.pairwise_append] at h
  refine ⟨h.1, fun p hp => h.2.2 p.ns ?_ m.point.ns List.mem_cons_self⟩
  obtain rfl | hp := hp
  · exact List.mem_cons_self
  · obtain ⟨m', hm', rfl⟩ := List.mem_map.mp hp
    exact List.mem_cons_of_mem _ (List.mem_map_of_mem hm')

lemma seconds_mono {p q : TimePoint} (h : p.ns ≤ q.ns) : p.seconds ≤ q.seconds :=
  Int.tdiv_le_tdiv (by decide) h

lemma run_holds (localtime : TimePoint → Tm) (pid : ℕ) (hutc : config.fileTime = .utc)
    (hcan : ∀ name, canOpen name = true)
    (now : TimePoint) (msgs : List Message) :
    ∃ closed current, (run localtime canOpen pid config now msgs).Holds pid config closed current msgs ∧
      (run localtime canOpen pid config now msgs).Room config ∧
      ((run localtime canOpen pid config now msgs).cachedPoint = now ∨
        (run localtime canOpen pid config now msgs).cachedPoint ∈ msgs.map Message.point) ∧
      (config.dailyRoll = true → Ordered now msgs →
        (run localtime canOpen pid config now msgs).Daily closed current) := by
  induction msgs using List.reverseRecOn with
  | nil =>
    refine ⟨[], none, create_holds hutc now, fun hopen => (by cases hopen), .inl rfl, fun _ _ => ?_⟩
    exact ⟨fun f hf => (by cases hf), fun f hf => by cases hf⟩
  | append_singleton msgs m ih =>
    obtain ⟨closed, current, hholds, hroom, hpoint, hdaily⟩ := ih
    obtain ⟨closed', current', hholds', hroom', hdaily'⟩ :=
      hholds.write localtime hutc hcan hroom m
    rw [run, List.foldl_append]
    refine ⟨closed', current', hholds', hroom', ?_, ?_⟩
    · rw [List.map_append]
      rcases write_cachedPoint (run localtime canOpen pid config now msgs) m with hp | hp
      · rw [run] at hp
        rw [List.foldl_cons, List.foldl_nil, hp]
        exact hpoint.imp_right (List.mem_append_left _)
      · rw [run] at hp
        rw [List.foldl_cons, List.foldl_nil, hp]
        exact .inr (List.mem_append_right _ List.mem_cons_self)
    · intro hroll hordered
      obtain ⟨hbefore, hlast⟩ := hordered.append
      exact hdaily' hroll (seconds_mono (hlast _ hpoint)) (hdaily hroll hbefore)

def utcDay (p : TimePoint) : ℤ := p.ns / (86400 * 1000000000)

lemma number_utc {p : TimePoint} (hp : 0 ≤ p.ns) :
    ((utc p.seconds).date.number : ℤ) = epochDay + utcDay p := by
  have hseconds : p.seconds = p.ns / 1000000000 := Int.tdiv_eq_ediv_of_nonneg hp
  rw [utc, Simple.Lib.Calendar.Date.number_ofNumber, hseconds, utcDay, epochDay]
  omega

/-- From 1970 on the day of the broken-down time is the UTC day. -/
lemma utcDay_of_day {p q : TimePoint} (hp : 0 ≤ p.ns) (hq : 0 ≤ q.ns)
    (h : day (gmtime p) = day (gmtime q)) : utcDay p = utcDay q := by
  obtain ⟨hyear, hyday⟩ := Prod.mk.inj h
  have hnumber : (utc p.seconds).date.number = (utc q.seconds).date.number := by
    simp only [gmtime, DateTime.tm] at hyear hyday
    rw [Simple.Lib.Calendar.Date.number, Simple.Lib.Calendar.Date.number,
      show (utc p.seconds).date.year = (utc q.seconds).date.year by omega]
    omega
  have hp := number_utc hp
  have hq := number_utc hq
  omega

structure KeepsLines (config : FileAppenderConfig) (now : TimePoint) (msgs : List Message)
    (s : FileAppender) : Prop where
  once : s.opened.Nodup
  lines : s.opened.flatMap s.contents = msgs.flatMap Message.buf
  sizes : ∀ r ∈ s.posted, r.forSize = true → ∃ before last,
    s.disk.get r.src = some (before ++ [last]) ∧ size before < config.maxSize
  days : config.dailyRoll = true → Ordered now msgs →
    ∀ name ∈ s.opened, ∀ file, s.disk.get name = some file → ∀ m ∈ file, ∀ m' ∈ file,
      day (gmtime m.point) = day (gmtime m'.point)
  utcDays : config.dailyRoll = true → Ordered now msgs → 0 ≤ now.ns →
    ∀ name ∈ s.opened, ∀ file, s.disk.get name = some file → ∀ m ∈ file, ∀ m' ∈ file,
      utcDay m.point = utcDay m'.point

lemma Holds.files {name : Text} {file : List Message} (h : s.Holds pid config closed current msgs)
    (hname : name ∈ s.opened) (hfile : s.disk.get name = some file) :
    ∃ f ∈ closed ++ current.toList, f.messages = file := by
  rw [h.opened] at hname
  obtain ⟨f, hf, rfl⟩ := List.mem_map.mp hname
  rw [h.disk f hf] at hfile
  exact ⟨f, hf, Option.some.inj hfile⟩

lemma Ordered.ns_nonneg {now : TimePoint} {m : Message} (h : Ordered now msgs) (hnow : 0 ≤ now.ns)
    (hm : m ∈ msgs) : 0 ≤ m.point.ns :=
  hnow.trans ((List.pairwise_cons.mp h).1 _ (List.mem_map_of_mem hm))

lemma Holds.keepsLines {now : TimePoint} (h : s.Holds pid config closed current msgs)
    (hdaily : config.dailyRoll = true → Ordered now msgs → s.Daily closed current) :
    KeepsLines config now msgs s := by
  have hdays : config.dailyRoll = true → Ordered now msgs →
      ∀ name ∈ s.opened, ∀ file, s.disk.get name = some file → ∀ m ∈ file, ∀ m' ∈ file,
        day (gmtime m.point) = day (gmtime m'.point) := by
    intro hroll hordered name hname file hfile
    obtain ⟨f, hf, rfl⟩ := h.files hname hfile
    exact (hdaily hroll hordered).all hf
  refine ⟨?_, ?_, ?_, hdays, ?_⟩
  · rw [h.opened, List.Nodup, List.pairwise_map]
    exact h.distinct.imp fun hkey hname => hkey (File.key_of_name hname)
  · rw [h.opened, ← h.content, List.flatMap_map, List.flatMap_assoc]
    refine List.flatMap_congr fun f hf => ?_
    rw [contents, h.disk f hf, Option.getD_some]
  · intro r hr hsize
    obtain ⟨f, hf, hname, before, last, hmessages, hlt⟩ := h.full r hr hsize
    refine ⟨before, last, ?_, hlt⟩
    rw [← hname, h.disk f (List.mem_append_left _ hf), hmessages]
  · intro hroll hordered hnow name hname file hfile m hm m' hm'
    have hmem : ∀ m ∈ file, m ∈ msgs := by
      obtain ⟨f, hf, rfl⟩ := h.files hname hfile
      intro m hm
      rw [← h.content]
      exact List.mem_flatMap.mpr ⟨f, hf, hm⟩
    exact utcDay_of_day (hordered.ns_nonneg hnow (hmem m hm)) (hordered.ns_nonneg hnow (hmem m' hm'))
      (hdays hroll hordered name hname file hfile m hm m' hm')

end FileAppender

end Invariant

section Main

variable (localtime : TimePoint → Tm) (canOpen : Text → Bool) (pid : ℕ) (config : FileAppenderConfig)

theorem file_appender_keeps_lines (hutc : config.fileTime = .utc)
    (hcan : ∀ name, canOpen name = true) (now : TimePoint) (msgs : List Message) :
    FileAppender.KeepsLines config now msgs
      (FileAppender.run localtime canOpen pid config now msgs) := by
  obtain ⟨closed, current, hholds, -, -, hdaily⟩ :=
    FileAppender.run_holds localtime pid hutc hcan now msgs
  exact hholds.keepsLines hdaily

end Main

/-- Two messages around a midnight. -/
theorem file_appender_keeps_lines_midnight :
    FileAppender.KeepsLines ⟨['a'], ['d'], 3, .utc, true, by decide⟩
      ⟨86398000000000, by decide, by decide⟩
      [⟨⟨86399000000000, by decide, by decide⟩, [65, 10]⟩,
        ⟨⟨86400000000000, by decide, by decide⟩, [66, 10]⟩]
      (FileAppender.run gmtime (fun _ => true) 7 ⟨['a'], ['d'], 3, .utc, true, by decide⟩
        ⟨86398000000000, by decide, by decide⟩
        [⟨⟨86399000000000, by decide, by decide⟩, [65, 10]⟩,
          ⟨⟨86400000000000, by decide, by decide⟩, [66, 10]⟩]) :=
  file_appender_keeps_lines gmtime (fun _ => true) 7 ⟨['a'], ['d'], 3, .utc, true, by decide⟩ rfl
    (fun _ => rfl) _ _

end Simple.Log
