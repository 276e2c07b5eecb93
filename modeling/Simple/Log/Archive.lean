import Simple.Lib.Workers
import Simple.Log.ArchiveNames
import Simple.Log.FileAppender

/-! The thread that compresses the files which a `file_appender` has rolled, beside the appender. A
file is removed when its archive is complete. -/

namespace Simple.Log

open Simple.Lib Simple.Utils.Time

def lz4InputChunkSize : ℕ := 16 * 1024

/-- The frame functions of LZ4: the context and what goes to the output, or an error. -/
structure Lz4 (C : Type) where
  compressBegin : Option (C × List UInt8)
  compressUpdate : C → List UInt8 → Option (C × List UInt8)
  compressEnd : C → Option (List UInt8)
  decompress : List UInt8 → Option (List UInt8)

/-- The output after `chunks`. -/
inductive Lz4.Run {C : Type} (lz4 : Lz4 C) : List (List UInt8) → C → List UInt8 → Prop
  | header {ctx out} (h : lz4.compressBegin = some (ctx, out)) : Run lz4 [] ctx out
  | update {chunks ctx out chunk ctx' more} (h : Run lz4 chunks ctx out)
    (hsize : chunk.length ≤ lz4InputChunkSize)
    (hmore : lz4.compressUpdate ctx chunk = some (ctx', more)) :
    Run lz4 (chunks ++ [chunk]) ctx' (out ++ more)

/-- A frame that ended without an error decodes to what went into it. -/
def Lz4.Lossless {C : Type} (lz4 : Lz4 C) : Prop :=
  ∀ chunks ctx out more, lz4.Run chunks ctx out → lz4.compressEnd ctx = some more →
    lz4.decompress (out ++ more) = some chunks.flatten

/-- Where `compress` is: after `read` bytes of the input, or at its end. -/
inductive Job (C : Type)
  | compressing (ctx : C) (read : ℕ)
  | returned

inductive Opened
  | noInput
  | noOutput
  | both
deriving DecidableEq

namespace FileAppender

section Disk

variable {localtime : TimePoint → Tm} {canOpen : Text → Bool} {pid : ℕ} {config : FileAppenderConfig}
variable {a b : FileAppender}

def withDisk (a : FileAppender) (disk : Table Text (List Message)) : FileAppender :=
  { a with disk := disk }

/-- `b` is `a` with other files; those that were alike still are, and only the one that `a` writes to
has changed since the files were `disk`. -/
structure Beside (disk disk₀ : Table Text (List Message)) (a b : FileAppender) : Prop where
  fields : b = a.withDisk b.disk
  alike : ∀ name, disk.get name = disk₀.get name → b.disk.get name = a.disk.get name
  frame : ∀ name, name ≠ a.fullName → b.disk.get name = disk.get name

variable {disk disk₀ : Table Text (List Message)}

lemma rollFile_withDisk (forSize : Bool) :
    (a.withDisk disk).rollFile forSize = (a.rollFile forSize).withDisk disk := by
  unfold FileAppender.rollFile
  cases hopen : a.isOpen <;> simp [withDisk, hopen]

lemma rollFile_same (forSize : Bool) : (a.rollFile forSize).disk = a.disk ∧
    (a.rollFile forSize).fullName = a.fullName := by
  rw [FileAppender.rollFile]
  split_ifs <;> exact ⟨rfl, rfl⟩

lemma advance_withDisk (point : TimePoint) : (a.withDisk disk).advance localtime config point =
    (a.advance localtime config point).withDisk disk := by
  have hroll : (a.withDisk disk).rollFile false = (a.rollFile false).withDisk disk :=
    rollFile_withDisk false
  have hpoint : (a.withDisk disk).cachedPoint = a.cachedPoint := rfl
  have htm : (a.withDisk disk).cachedTm = a.cachedTm := rfl
  by_cases hlt : a.cachedPoint.seconds < point.seconds
  · rw [advance, advance, hpoint, htm, if_pos hlt, if_pos hlt, hroll]
    simp only
    split_ifs <;> rfl
  · rw [advance, advance, hpoint, if_neg hlt, if_neg hlt]

lemma advance_disk (point : TimePoint) : (a.advance localtime config point).disk = a.disk := by
  rw [advance]
  split_ifs
  · simp only
    split_ifs
    · exact (rollFile_same false).1
    · rfl
  · rfl

lemma openFile_beside : Beside disk a.disk (a.openFile canOpen pid config)
    ((a.withDisk disk).openFile canOpen pid config) := by
  have hopen : (a.withDisk disk).isOpen = a.isOpen := rfl
  have hname : (a.withDisk disk).makeFullName pid config =
      (a.makeFullName pid config).withDisk disk := by simp only [makeFullName_eq]; rfl
  have hdisk : (a.makeFullName pid config).disk = a.disk := by rw [makeFullName_eq]
  rw [FileAppender.openFile, FileAppender.openFile, hopen, hname]
  split_ifs with hisOpen
  · exact ⟨rfl, fun name h => h, fun name _ => rfl⟩
  · simp only
    have hfull : ((a.makeFullName pid config).withDisk disk).fullName =
      (a.makeFullName pid config).fullName := rfl
    rw [hfull]
    split_ifs
    · refine ⟨rfl, ?_, ?_⟩
      · intro name hsame
        simp only [withDisk, Table.get_set, hdisk, hsame]
      · intro name hne
        exact Table.get_set_ne hne
    · refine ⟨rfl, ?_, fun name _ => rfl⟩
      intro name hsame
      rw [hdisk]
      exact hsame

lemma Beside.put (h : Beside disk disk₀ a b) (m : Message) : Beside disk disk₀ (a.put m) (b.put m) := by
  obtain ⟨hfields, halike, hframe⟩ := h
  have hname : b.fullName = a.fullName := by rw [hfields]; rfl
  refine ⟨?_, ?_, ?_⟩
  · rw [hfields]
    rfl
  · intro name hsame
    simp only [FileAppender.put, Table.get_modify, hname, halike name hsame]
  · intro name hne
    have hne' : name ≠ a.fullName := hne
    simp only [FileAppender.put, Table.get_modify, hname, if_neg hne']
    exact hframe name hne

lemma Beside.rollFile (h : Beside disk disk₀ a b) (forSize : Bool) :
    Beside disk disk₀ (a.rollFile forSize) (b.rollFile forSize) := by
  obtain ⟨hfields, halike, hframe⟩ := h
  refine ⟨?_, ?_, ?_⟩
  · rw [(rollFile_same forSize).1]
    conv_lhs => rw [hfields]
    exact rollFile_withDisk forSize
  · rw [(rollFile_same forSize).1, (rollFile_same forSize).1]
    exact halike
  · rw [(rollFile_same forSize).1, (rollFile_same forSize).2]
    exact hframe

lemma Beside.isOpen (h : Beside disk disk₀ a b) : b.isOpen = a.isOpen ∧ b.fileSize = a.fileSize := by
  rw [h.fields]
  exact ⟨rfl, rfl⟩

lemma write_beside (m : Message) : Beside disk a.disk (a.write localtime canOpen pid config m)
    ((a.withDisk disk).write localtime canOpen pid config m) := by
  have h : Beside disk a.disk ((a.advance localtime config m.point).openFile canOpen pid config)
      (((a.withDisk disk).advance localtime config m.point).openFile canOpen pid config) := by
    have hdisk : (a.advance localtime config m.point).disk = a.disk := advance_disk m.point
    rw [advance_withDisk, ← hdisk]
    exact openFile_beside
  rw [FileAppender.write, FileAppender.write, h.isOpen.1]
  split_ifs
  · have hput := h.put m
    simp only [hput.isOpen.2]
    split_ifs
    · exact hput.rollFile true
    · exact hput
  · exact h

/-- The files that were opened are those that were posted and the one that is open. -/
def Tracked (a : FileAppender) : Prop :=
  a.opened = a.posted.map Posted.src ++ if a.isOpen then [a.fullName] else []

lemma Tracked.rollFile (h : a.Tracked) (forSize : Bool) : (a.rollFile forSize).Tracked ∧
    a.posted <+: (a.rollFile forSize).posted ∧ (a.rollFile forSize).opened = a.opened := by
  rw [Tracked] at h
  rw [FileAppender.rollFile]
  split_ifs with hopen
  · refine ⟨?_, List.prefix_append _ _, rfl⟩
    rw [if_pos hopen] at h
    simp [Tracked, h]
  · exact ⟨h, List.prefix_rfl, rfl⟩

lemma Tracked.advance (h : a.Tracked) (point : TimePoint) :
    (a.advance localtime config point).Tracked ∧
      a.posted <+: (a.advance localtime config point).posted := by
  rw [FileAppender.advance]
  split_ifs
  · simp only
    split_ifs
    · exact ⟨(h.rollFile false).1, (h.rollFile false).2.1⟩
    · exact ⟨h, List.prefix_rfl⟩
  · exact ⟨h, List.prefix_rfl⟩

lemma Tracked.openFile (hcan : ∀ name, canOpen name = true) (h : a.Tracked) :
    (a.openFile canOpen pid config).Tracked ∧ (a.openFile canOpen pid config).isOpen = true ∧
      (a.openFile canOpen pid config).posted = a.posted := by
  rw [FileAppender.openFile]
  split_ifs with hopen
  · exact ⟨h, hopen, rfl⟩
  · rw [Tracked, if_neg hopen, List.append_nil] at h
    simp only [makeFullName_eq, hcan, if_true]
    exact ⟨by simp [Tracked, h], trivial, trivial⟩

lemma Tracked.write (hcan : ∀ name, canOpen name = true) (h : a.Tracked) (m : Message) :
    (a.write localtime canOpen pid config m).Tracked ∧
    a.posted <+: (a.write localtime canOpen pid config m).posted ∧
    ∃ closed, a.posted <+: closed ∧ (a.write localtime canOpen pid config m).opened =
      closed.map Posted.src ++ [(a.write localtime canOpen pid config m).fullName] := by
  obtain ⟨htracked, hposted⟩ : (a.advance localtime config m.point).Tracked ∧
      a.posted <+: (a.advance localtime config m.point).posted := h.advance m.point
  obtain ⟨hopened, hopen, hsame⟩ : ((a.advance localtime config m.point).openFile canOpen pid
      config).Tracked ∧ _ ∧ _ := htracked.openFile hcan
  rw [FileAppender.write, if_pos hopen]
  have hput : (((a.advance localtime config m.point).openFile canOpen pid config).put m).Tracked :=
    hopened
  have hlast : ((a.advance localtime config m.point).openFile canOpen pid config).opened =
      (a.advance localtime config m.point).posted.map Posted.src ++
        [((a.advance localtime config m.point).openFile canOpen pid config).fullName] := by
    rw [Tracked, if_pos hopen, hsame] at hopened
    exact hopened
  simp only
  split_ifs
  · obtain ⟨hrolled, hposted', hopened'⟩ := hput.rollFile true
    refine ⟨hrolled, ?_, _, hposted, ?_⟩
    · exact (hsame ▸ hposted).trans hposted'
    · rw [hopened', (rollFile_same true).2]
      exact hlast
  · exact ⟨hput, hsame ▸ hposted, _, hposted, hlast⟩

end Disk

end FileAppender

/-- `files` holds the archives, `written` what the appender was given. -/
structure Archive (C : Type) where
  appender : FileAppender
  thread : Workers (Text × Text) := { threads := [{}] }
  job : Option (Job C) := none
  files : Table Text (List UInt8) := ∅
  written : List Message := []

namespace Archive

variable {C : Type}

section Code

variable (lz4 : Lz4 C) (localtime : TimePoint → Tm) (canOpen : Text → Bool) (pid : ℕ)
  (config : FileAppenderConfig) (lz4Directory : Text)

def postLz4 (w : Workers (Text × Text)) (src dest : Text) : Workers (Text × Text) :=
  (w.post (src, dest) (if w.threads.any Thread.isAsleep then some 0 else none)).getD w

def task (r : Posted) : Text × Text := (r.src, archiveName lz4Directory r.src)

def write (s : Archive C) (m : Message) : Archive C :=
  let appender := s.appender.write localtime canOpen pid config m
  { s with
    appender := appender
    thread := ((appender.posted.drop s.appender.posted.length).map (task lz4Directory)).foldl
      (fun w t => postLz4 w t.1 t.2) s.thread
    written := s.written ++ [m] }

/-- The first part of `compress`. A file that is not there cannot be opened. -/
def compress (s : Archive C) (opened : Opened) : Option (Archive C) :=
  match s.thread.work 0, s.job, opened with
  | [_], none, .noInput => some { s with job := some .returned }
  | [_], none, .noOutput => some { s with job := some .returned }
  | [(src, dest)], none, .both =>
    if s.appender.disk.get src = none then none
    else
      match lz4.compressBegin with
      | none => some { s with files := s.files.set dest [], job := some .returned }
      | some (ctx, header) => some { s with
          files := s.files.set dest header
          job := some (.compressing ctx 0) }
  | _, _, _ => none

/-- A pass of the loop of `compress_file`, and what comes after the last one. -/
def compressFile (s : Archive C) (removes : Bool) : Option (Archive C) :=
  match s.thread.work 0, s.job with
  | [(src, dest)], some (.compressing ctx read) =>
    if read < (s.appender.contents src).length then
      match lz4.compressUpdate ctx (((s.appender.contents src).drop read).take lz4InputChunkSize) with
      | none => some { s with job := some .returned }
      | some (ctx, out) => some { s with
          files := s.files.modify dest (· ++ out)
          job := some (.compressing ctx (min (read + lz4InputChunkSize)
            (s.appender.contents src).length)) }
    else
      match lz4.compressEnd ctx with
      | none => some { s with job := some .returned }
      | some out => some { s with
          appender := { s.appender with
            disk := if removes then s.appender.disk.remove src else s.appender.disk }
          files := s.files.modify dest (· ++ out)
          job := some .returned }
  | _, _ => none

/-- `lz4_run` gets on; a task ends when `compress` returns. -/
def lz4Run (s : Archive C) : Option (Archive C) :=
  match s.thread.work 0, s.job with
  | [], _ => (s.thread.turn 0).map fun w => { s with thread := w, job := none }
  | _, some .returned => (s.thread.turn 0).map fun w => { s with thread := w, job := none }
  | _, _ => none

inductive Action
  | write (m : Message)
  | lz4Run
  | compress (opened : Opened)
  | compressFile (removes : Bool)
  | spurious
  | requestStop

def step (s : Archive C) : Action → Option (Archive C)
  | .write m => some (s.write localtime canOpen pid config lz4Directory m)
  | .lz4Run => s.lz4Run
  | .compress opened => s.compress lz4 opened
  | .compressFile removes => s.compressFile lz4 removes
  | .spurious => (s.thread.wake 0).map fun w => { s with thread := w }
  | .requestStop => (s.thread.requestStop 0).map fun w => { s with thread := w }

def machine (now : TimePoint) : Machine (Archive C) Action where
  initial := { appender := FileAppender.create localtime config now }
  step := step lz4 localtime canOpen pid config lz4Directory

def recovered (s : Archive C) (name : Text) : List UInt8 :=
  match s.appender.disk.get name with
  | some file => file.flatMap Message.buf
  | none => ((s.files.get (archiveName lz4Directory name)).bind lz4.decompress).getD []

end Code

section Invariant

variable {lz4 : Lz4 C} {localtime : TimePoint → Tm} {canOpen : Text → Bool} {pid : ℕ}
  {config : FileAppenderConfig} {lz4Directory : Text} {now : TimePoint} {s s' : Archive C}
  {ideal : FileAppender} {src dest : Text}

/-- `compress` has returned for this task. -/
def Done (s : Archive C) (t : Text × Text) : Prop :=
  t ∈ s.thread.finished.map Prod.snd ∨ s.job = some .returned ∧ t ∈ s.thread.work 0

structure Good (pid : ℕ) (config : FileAppenderConfig) (ideal : FileAppender) : Prop where
  tracked : ideal.Tracked
  nodup : ideal.opened.Nodup
  named : ∀ name ∈ ideal.opened, ∃ tm id, name = fullName config pid tm id
  present : ∀ name ∈ ideal.opened, ∃ file, ideal.disk.get name = some file

/-- `ideal` is the appender as if no file was ever removed. -/
structure Inv (lz4 : Lz4 C) (lz4Directory : Text) (ideal : FileAppender) (s : Archive C) : Prop where
  fields : s.appender = ideal.withDisk s.appender.disk
  thread : s.thread.Inv
  single : s.thread.Single
  posted : s.thread.posted = ideal.posted.map (task lz4Directory)
  files : ∀ name, s.appender.disk.get name = ideal.disk.get name ∨
    s.appender.disk.get name = none ∧ s.Done (name, archiveName lz4Directory name) ∧
      (s.files.get (archiveName lz4Directory name)).bind lz4.decompress = some (ideal.contents name)
  job : ∀ ctx read, s.job = some (.compressing ctx read) → ∀ src dest, s.thread.work 0 = [(src, dest)] →
    ∃ chunks out, lz4.Run chunks ctx out ∧ s.files.get dest = some out ∧
      chunks.flatten = (ideal.contents src).take read

lemma Good.closed (hg : Good pid config ideal) : (ideal.posted.map Posted.src).Nodup ∧
    ∀ name ∈ ideal.posted.map Posted.src, name ∈ ideal.opened := by
  have hopened : ideal.posted.map Posted.src <+: ideal.opened := by
    rw [hg.tracked]
    exact List.prefix_append _ _
  exact ⟨hg.nodup.sublist hopened.sublist, fun name hname => hopened.subset hname⟩

lemma Inv.tasks (h : Inv lz4 lz4Directory ideal s) : ideal.posted.map (task lz4Directory) =
    s.thread.finished.map Prod.snd ++ s.thread.work 0 ++ s.thread.queue := by
  rw [← h.posted]
  exact h.single.serial h.thread

lemma Inv.mem_posted (h : Inv lz4 lz4Directory ideal s) {t : Text × Text}
    (ht : t ∈ s.thread.finished.map Prod.snd ∨ t ∈ s.thread.work 0) :
    t.1 ∈ ideal.posted.map Posted.src ∧ t.2 = archiveName lz4Directory t.1 := by
  have hmem : t ∈ ideal.posted.map (task lz4Directory) := by
    rw [h.tasks]
    exact List.mem_append_left _ (List.mem_append.mpr ht)
  obtain ⟨r, hr, rfl⟩ := List.mem_map.mp hmem
  exact ⟨List.mem_map_of_mem hr, rfl⟩

lemma Inv.mem_of_done (h : Inv lz4 lz4Directory ideal s) {t : Text × Text} (ht : s.Done t) :
    t.1 ∈ ideal.posted.map Posted.src ∧ t.2 = archiveName lz4Directory t.1 :=
  h.mem_posted (ht.imp_right And.right)

lemma Inv.current (h : Inv lz4 lz4Directory ideal s) (hg : Good pid config ideal)
    (hwork : s.thread.work 0 = [(src, dest)]) (hjob : s.job ≠ some .returned) :
    src ∈ ideal.posted.map Posted.src ∧ dest = archiveName lz4Directory src ∧
    s.appender.disk.get src = ideal.disk.get src ∧ ¬s.Done (src, archiveName lz4Directory src) ∧
    ∀ name, s.Done (name, archiveName lz4Directory name) → archiveName lz4Directory name ≠ dest := by
  obtain ⟨hsrc, hdest⟩ : src ∈ ideal.posted.map Posted.src ∧ dest = archiveName lz4Directory src :=
    h.mem_posted (Or.inr (hwork ▸ List.mem_cons_self))
  have hfinished : ∀ t, s.Done t → t ∈ s.thread.finished.map Prod.snd := by
    intro t ht
    exact ht.resolve_right fun hreturned => hjob hreturned.1
  have hother : ∀ t, s.Done t → t.1 ≠ src := by
    intro t ht heq
    have hnodup := hg.closed.1
    have hmap : ideal.posted.map Posted.src =
        (s.thread.finished.map Prod.snd ++ s.thread.work 0 ++ s.thread.queue).map Prod.fst := by
      rw [← h.tasks, List.map_map]
      rfl
    rw [hmap, hwork, List.map_append, List.map_append] at hnodup
    have hdisjoint := (List.nodup_append'.mp (List.nodup_append'.mp hnodup).1).2.2
    exact hdisjoint (List.mem_map_of_mem (hfinished t ht)) (by simp [heq])
  have hnot : ¬s.Done (src, archiveName lz4Directory src) := fun hdone => hother _ hdone rfl
  refine ⟨hsrc, hdest, ?_, hnot, ?_⟩
  · exact (h.files src).resolve_right fun hright => hnot hright.2.1
  · intro name hdone heq
    obtain ⟨tm, id, hname⟩ := hg.named name (hg.closed.2 _ (h.mem_of_done hdone).1)
    obtain ⟨tm', id', hsrc'⟩ := hg.named _ (hg.closed.2 _ hsrc)
    rw [hdest, hname, hsrc'] at heq
    apply hother _ hdone
    rw [hsrc', ← archiveName_inj heq]
    exact hname

lemma Inv.of_thread (h : Inv lz4 lz4Directory ideal s) {w : Workers (Text × Text)} {job : Option (Job C)}
    (hw : w.Inv) (hsingle : w.Single) (hposted : w.posted = s.thread.posted)
    (hdone : ∀ t, s.Done t → Done { s with thread := w, job := job } t)
    (hjob : ∀ ctx read, job = some (.compressing ctx read) →
      s.job = some (.compressing ctx read) ∧ w.work 0 = s.thread.work 0) :
    Inv lz4 lz4Directory ideal { s with thread := w, job := job } := by
  refine ⟨h.fields, hw, hsingle, hposted.trans h.posted, ?_, ?_⟩
  · intro name
    exact (h.files name).imp_right fun hright => ⟨hright.1, hdone _ hright.2.1, hright.2.2⟩
  · intro ctx read hctx src dest hwork
    obtain ⟨hctx', hwork'⟩ := hjob ctx read hctx
    exact h.job ctx read hctx' src dest (hwork'.symm.trans hwork)

lemma Inv.of_files (h : Inv lz4 lz4Directory ideal s) (hg : Good pid config ideal)
    (hwork : s.thread.work 0 = [(src, dest)]) (hnot : s.job ≠ some .returned)
    {files : Table Text (List UInt8)} {job : Job C}
    (hfiles : ∀ name, name ≠ dest → files.get name = s.files.get name)
    (hjob : ∀ ctx read, job = .compressing ctx read → ∃ chunks out, lz4.Run chunks ctx out ∧
      files.get dest = some out ∧ chunks.flatten = (ideal.contents src).take read) :
    Inv lz4 lz4Directory ideal { s with files := files, job := some job } := by
  obtain ⟨-, -, -, -, hother⟩ := h.current hg hwork hnot
  refine ⟨h.fields, h.thread, h.single, h.posted, ?_, ?_⟩
  · intro name
    apply (h.files name).imp_right
    rintro ⟨hnone, hdone, harchive⟩
    refine ⟨hnone, Or.inl (hdone.resolve_right fun hreturned => hnot hreturned.1), ?_⟩
    rw [hfiles _ (hother name hdone)]
    exact harchive
  · intro ctx read hctx src' dest' hwork'
    obtain ⟨rfl, rfl⟩ := Prod.mk.inj (List.cons.inj (hwork.symm.trans hwork')).1
    exact hjob ctx read (Option.some.inj hctx)

lemma Inv.compress (h : Inv lz4 lz4Directory ideal s) (hg : Good pid config ideal) {opened : Opened}
    (hs : s.compress lz4 opened = some s') : Inv lz4 lz4Directory ideal s' := by
  rw [Archive.compress.eq_def] at hs
  split at hs
  · next t hwork hjob =>
    obtain rfl := Option.some.inj hs
    exact h.of_files hg hwork (by simp [hjob]) (fun _ _ => rfl) nofun
  · next t hwork hjob =>
    obtain rfl := Option.some.inj hs
    exact h.of_files hg hwork (by simp [hjob]) (fun _ _ => rfl) nofun
  · next src dest hwork hjob =>
    by_cases hmissing : s.appender.disk.get src = none
    · rw [if_pos hmissing] at hs
      cases hs
    rw [if_neg hmissing] at hs
    split at hs
    · obtain rfl := Option.some.inj hs
      exact h.of_files hg hwork (by simp [hjob]) (fun name hne => Table.get_set_ne hne) nofun
    · next ctx header hbegin =>
      obtain rfl := Option.some.inj hs
      apply h.of_files hg hwork (by simp [hjob]) (fun name hne => Table.get_set_ne hne)
      intro ctx' read hctx
      obtain ⟨rfl, rfl⟩ := Job.compressing.inj hctx
      exact ⟨[], header, .header hbegin, Table.get_set_self, rfl⟩
  · cases hs

lemma contents_eq {a b : FileAppender} {name : Text} (h : a.disk.get name = b.disk.get name) :
    a.contents name = b.contents name := by rw [FileAppender.contents, FileAppender.contents, h]

lemma take_step (l : List UInt8) (read size : ℕ) :
    l.take read ++ (l.drop read).take size = l.take (min (read + size) l.length) := by
  rw [← List.take_add]
  obtain hle | hle := le_total (read + size) l.length
  · rw [min_eq_left hle]
  · rw [min_eq_right hle, List.take_of_length_le hle, List.take_length]

lemma Inv.compressFile (hlossless : lz4.Lossless) (h : Inv lz4 lz4Directory ideal s)
    (hg : Good pid config ideal) {removes : Bool} (hs : s.compressFile lz4 removes = some s') :
    Inv lz4 lz4Directory ideal s' := by
  rw [Archive.compressFile.eq_def] at hs
  split at hs
  · next src dest ctx read hwork hjob =>
    have hnot : s.job ≠ some .returned := by simp [hjob]
    obtain ⟨hsrc, hdest, hdisk, hdone, hother⟩ := h.current hg hwork hnot
    obtain ⟨chunks, out, hrun, hout, hchunks⟩ := h.job ctx read hjob src dest hwork
    rw [contents_eq hdisk] at hs
    have hfiles : ∀ more name, name ≠ dest →
        (s.files.modify dest (· ++ more)).get name = s.files.get name := by
      intro more name hne
      rw [Table.get_modify, if_neg hne]
    have hmodified : ∀ more, (s.files.modify dest (· ++ more)).get dest = some (out ++ more) := by
      intro more
      rw [Table.get_modify, if_pos rfl, hout, Option.map_some]
    by_cases hlt : read < (ideal.contents src).length
    · rw [if_pos hlt] at hs
      split at hs
      · obtain rfl := Option.some.inj hs
        exact h.of_files hg hwork hnot (fun _ _ => rfl) nofun
      · next ctx' more hmore =>
        obtain rfl := Option.some.inj hs
        apply h.of_files hg hwork hnot (hfiles more)
        intro ctx'' read' hctx
        obtain ⟨rfl, rfl⟩ := Job.compressing.inj hctx
        refine ⟨_, _, .update hrun (List.length_take_le _ _) hmore, hmodified more, ?_⟩
        rw [List.flatten_append, hchunks, List.flatten_singleton]
        exact take_step _ _ _
    · rw [if_neg hlt] at hs
      split at hs
      · obtain rfl := Option.some.inj hs
        exact h.of_files hg hwork hnot (fun _ _ => rfl) nofun
      · next more hmore =>
        obtain rfl := Option.some.inj hs
        have hkept : Inv lz4 lz4Directory ideal
            { s with files := s.files.modify dest (· ++ more), job := some .returned } :=
          h.of_files hg hwork hnot (hfiles more) nofun
        have hwhole : lz4.decompress (out ++ more) = some (ideal.contents src) := by
          rw [hlossless chunks ctx out more hrun hmore, hchunks,
            List.take_of_length_le (not_lt.mp hlt)]
        refine ⟨?_, hkept.thread, hkept.single, hkept.posted, ?_, nofun⟩
        · simp only
          conv_lhs => rw [h.fields]
          rfl
        · intro name
          by_cases hname : name = src
          · subst hname
            by_cases hremoves : removes = true
            · refine Or.inr ⟨?_, Or.inr ⟨rfl, ?_⟩, ?_⟩
              · simp only [if_pos hremoves, Table.get_remove, if_true]
              · rw [hwork, hdest]
                exact List.mem_cons_self
              · rw [← hdest]
                simp only [hmodified, Option.bind_some, hwhole]
            · exact Or.inl (by simpa only [if_neg hremoves] using hdisk)
          · have hsame : (if removes then s.appender.disk.remove src else s.appender.disk).get name =
                s.appender.disk.get name := by
              split_ifs
              · rw [Table.get_remove, if_neg hname]
              · rfl
            simp only [hsame]
            exact hkept.files name
  · cases hs

lemma Inv.lz4Run (h : Inv lz4 lz4Directory ideal s) (hs : s.lz4Run = some s') :
    Inv lz4 lz4Directory ideal s' := by
  have hturn : ∀ w, s.thread.turn 0 = some w → (s.thread.work 0 = [] ∨ s.job = some .returned) →
      Inv lz4 lz4Directory ideal { s with thread := w, job := none } := by
    intro w hw hidle
    obtain ⟨th, th', queue, queue', took, ended, hi, -, hturn, rfl⟩ := Workers.turn_cases hw
    refine h.of_thread (h.thread.turn hw) (h.single.step nofun (a := .turn 0) hw) rfl ?_ nofun
    have hwork : s.thread.work 0 ⊆ ended := by
      rw [Workers.work_of hi]
      cases hturn <;> simp [Thread.work]
    rintro t (ht | ⟨-, ht⟩)
    · left
      rw [List.map_append]
      exact List.mem_append_left _ ht
    · left
      rw [List.map_append, List.map_map]
      apply List.mem_append_right
      exact List.mem_map.mpr ⟨t, hwork ht, rfl⟩
  rw [Archive.lz4Run] at hs
  split at hs
  · next hwork =>
    obtain ⟨w, hw, rfl⟩ := Option.map_eq_some_iff.mp hs
    exact hturn w hw (Or.inl hwork)
  · next hjob _ =>
    obtain ⟨w, hw, rfl⟩ := Option.map_eq_some_iff.mp hs
    exact hturn w hw (Or.inr hjob)
  · cases hs

lemma Inv.of_step (h : Inv lz4 lz4Directory ideal s) {a : Workers.Action (Text × Text)}
    {w : Workers (Text × Text)} (hturn : ∀ i, a ≠ .turn i) (hpost : ∀ t i, a ≠ .post t i)
    (hspawn : ∀ n, a ≠ .spawn n) (hw : s.thread.step a = some w) :
    Inv lz4 lz4Directory ideal { s with thread := w } := by
  obtain ⟨htaken, hfinished, hposted⟩ := Workers.step_history hturn hw
  have hinv := Workers.step_inv h.thread hw
  have hwork := Workers.work_eq h.thread hinv htaken hfinished 0
  refine h.of_thread hinv (h.single.step (fun n hn => absurd hn (hspawn n)) hw) (hposted hpost) ?_
    fun _ _ hjob => ⟨hjob, hwork⟩
  intro t ht
  rw [Done, hfinished, hwork]
  exact ht

lemma postLz4_spec {w : Workers (Text × Text)} (src dest : Text) (hw : w.Inv) (hsingle : w.Single) :
    (postLz4 w src dest).Inv ∧ (postLz4 w src dest).Single ∧
    (postLz4 w src dest).posted = w.posted ++ [(src, dest)] ∧
    (postLz4 w src dest).finished = w.finished ∧ (postLz4 w src dest).work 0 = w.work 0 := by
  obtain ⟨w', hw'⟩ : ∃ w', w.post (src, dest)
      (if w.threads.any Thread.isAsleep then some 0 else none) = some w' := by
    cases hany : w.threads.any Thread.isAsleep with
    | false => simp [Workers.post, Workers.notifyOne, hany]
    | true =>
      obtain ⟨th, hth, hasleep⟩ := List.any_eq_true.mp hany
      obtain ⟨i, hi⟩ := List.mem_iff_getElem?.mp hth
      have hlt := (List.getElem?_eq_some_iff.mp hi).1
      obtain rfl : i = 0 := by have := hsingle.length; omega
      obtain ⟨place, stopping⟩ := th
      cases place <;> simp [Thread.isAsleep] at hasleep
      simp [Workers.post, Workers.notifyOne, hi]
  have hstep : Workers.step w (.post (src, dest)
      (if w.threads.any Thread.isAsleep then some 0 else none)) = some w' := hw'
  obtain ⟨htaken, hfinished, -⟩ := Workers.step_history (by simp) hstep
  have hinv := Workers.step_inv hw hstep
  rw [postLz4, hw', Option.getD_some]
  exact ⟨hinv, hsingle.step (by simp) hstep, Workers.post_posted hw', hfinished,
    Workers.work_eq hw hinv htaken hfinished 0⟩

lemma postAll_spec (tasks : List (Text × Text)) {w : Workers (Text × Text)} (hw : w.Inv)
    (hsingle : w.Single) : ∀ w', w' = tasks.foldl (fun w t => postLz4 w t.1 t.2) w →
      w'.Inv ∧ w'.Single ∧ w'.posted = w.posted ++ tasks ∧ w'.finished = w.finished ∧
        w'.work 0 = w.work 0 := by
  induction tasks generalizing w with
  | nil =>
    rintro w' rfl
    exact ⟨hw, hsingle, by simp, rfl, rfl⟩
  | cons t tasks ih =>
    intro w' hw'
    obtain ⟨hinv, hone, hposted, hfinished, hwork⟩ := postLz4_spec t.1 t.2 hw hsingle
    obtain ⟨hinv', hone', hposted', hfinished', hwork'⟩ := ih hinv hone w' hw'
    refine ⟨hinv', hone', ?_, hfinished'.trans hfinished, hwork'.trans hwork⟩
    rw [hposted', hposted, List.append_assoc]
    rfl

lemma Inv.write (hcan : ∀ name, canOpen name = true) (h : Inv lz4 lz4Directory ideal s)
    (hg : Good pid config ideal) (m : Message)
    (hg' : Good pid config (ideal.write localtime canOpen pid config m)) :
    Inv lz4 lz4Directory (ideal.write localtime canOpen pid config m)
      (s.write localtime canOpen pid config lz4Directory m) := by
  obtain ⟨-, hposted, closed, hclosed, hopened⟩ : _ ∧ _ ∧ ∃ closed, ideal.posted <+: closed ∧
      (ideal.write localtime canOpen pid config m).opened = closed.map Posted.src ++
        [(ideal.write localtime canOpen pid config m).fullName] := hg.tracked.write hcan m
  have hself : FileAppender.Beside ideal.disk ideal.disk (ideal.write localtime canOpen pid config m)
      (ideal.write localtime canOpen pid config m) := FileAppender.write_beside m
  have hbeside : FileAppender.Beside s.appender.disk ideal.disk
      (ideal.write localtime canOpen pid config m)
      ((ideal.withDisk s.appender.disk).write localtime canOpen pid config m) :=
    FileAppender.write_beside m
  rw [← h.fields] at hbeside
  have hne : ∀ name ∈ ideal.posted.map Posted.src,
      name ≠ (ideal.write localtime canOpen pid config m).fullName := by
    intro name hname
    have hnodup := hg'.nodup
    rw [hopened] at hnodup
    have hdisjoint := (List.nodup_append'.mp hnodup).2.2
    rintro rfl
    exact hdisjoint ((hclosed.map Posted.src).subset hname) List.mem_cons_self
  have hpostedNow : s.appender.posted = ideal.posted := by rw [h.fields]; rfl
  have hpostedNext : (s.appender.write localtime canOpen pid config m).posted =
      (ideal.write localtime canOpen pid config m).posted := by rw [hbeside.fields]; rfl
  obtain ⟨hinv, hsingle, htasks, hfinished, hwork⟩ := postAll_spec
    (((s.appender.write localtime canOpen pid config m).posted.drop s.appender.posted.length).map
      (task lz4Directory)) h.thread h.single _ rfl
  have hcontents : ∀ name ∈ ideal.posted.map Posted.src,
      (ideal.write localtime canOpen pid config m).contents name = ideal.contents name :=
    fun name hname => contents_eq (hself.frame name (hne name hname))
  have hdone : ∀ t, (s.write localtime canOpen pid config lz4Directory m).Done t ↔ s.Done t := by
    intro t
    simp only [Done, Archive.write, hfinished, hwork]
  refine ⟨hbeside.fields, hinv, hsingle, ?_, ?_, ?_⟩
  · simp only [Archive.write]
    rw [htasks, h.posted, ← List.map_append, hpostedNow, hpostedNext]
    congr 1
    exact (List.prefix_iff_eq_append.mp hposted)
  · intro name
    obtain hsame | ⟨hnone, hdone', harchive⟩ := h.files name
    · exact Or.inl (hbeside.alike name hsame)
    · have hmem := (h.mem_of_done hdone').1
      refine Or.inr ⟨?_, (hdone _).mpr hdone', ?_⟩
      · exact (hbeside.frame name (hne name hmem)).trans hnone
      · rw [hcontents name hmem]
        exact harchive
  · intro ctx read hjob src dest hwork'
    have hwork'' := hwork.symm.trans hwork'
    obtain ⟨chunks, out, hrun, hout, hchunks⟩ := h.job ctx read hjob src dest hwork''
    have hmem : src ∈ ideal.posted.map Posted.src :=
      (h.mem_posted (Or.inr (hwork'' ▸ List.mem_cons_self))).1
    exact ⟨chunks, out, hrun, hout, by rw [hcontents src hmem]; exact hchunks⟩

lemma run_good (hutc : config.fileTime = .utc) (hcan : ∀ name, canOpen name = true) (now : TimePoint)
    (msgs : List Message) :
    Good pid config (FileAppender.run localtime canOpen pid config now msgs) := by
  obtain ⟨closed, current, hholds, -, -, -⟩ :=
    FileAppender.run_holds localtime pid hutc hcan now msgs
  refine ⟨?_, ?_, ?_, ?_⟩
  · induction msgs using List.reverseRecOn generalizing closed current with
    | nil => rfl
    | append_singleton msgs m ih =>
      obtain ⟨closed', current', hholds', -, -, -⟩ :=
        FileAppender.run_holds localtime pid hutc hcan now msgs
      rw [FileAppender.run, List.foldl_append]
      exact (FileAppender.Tracked.write hcan (ih closed' current' hholds') m).1
  · rw [hholds.opened, List.Nodup, List.pairwise_map]
    exact hholds.distinct.imp fun hkey hname => hkey (File.key_of_name hname)
  · intro name hname
    rw [hholds.opened] at hname
    obtain ⟨f, -, rfl⟩ := List.mem_map.mp hname
    exact ⟨_, _, rfl⟩
  · intro name hname
    rw [hholds.opened] at hname
    obtain ⟨f, hf, rfl⟩ := List.mem_map.mp hname
    exact ⟨f.messages, hholds.disk f hf⟩

lemma run_lines (hutc : config.fileTime = .utc) (hcan : ∀ name, canOpen name = true) (now : TimePoint)
    (msgs : List Message) :
    (FileAppender.run localtime canOpen pid config now msgs).opened.flatMap
      (FileAppender.run localtime canOpen pid config now msgs).contents = msgs.flatMap Message.buf := by
  obtain ⟨closed, current, hholds, -, -, hdaily⟩ :=
    FileAppender.run_holds localtime pid hutc hcan now msgs
  exact (hholds.keepsLines hdaily).lines

lemma Inv.recovered (h : Inv lz4 lz4Directory ideal s) (hg : Good pid config ideal) {name : Text}
    (hname : name ∈ ideal.opened) : s.recovered lz4 lz4Directory name = ideal.contents name := by
  rw [Archive.recovered]
  obtain hsame | ⟨hnone, -, harchive⟩ := h.files name
  · obtain ⟨file, hfile⟩ := hg.present name hname
    rw [hsame, FileAppender.contents, hfile]
    rfl
  · rw [hnone, harchive]
    rfl

lemma lz4Run_written (hs : s.lz4Run = some s') : s'.written = s.written := by
  rw [Archive.lz4Run] at hs
  split at hs
  · obtain ⟨w, -, rfl⟩ := Option.map_eq_some_iff.mp hs
    rfl
  · obtain ⟨w, -, rfl⟩ := Option.map_eq_some_iff.mp hs
    rfl
  · cases hs

lemma compress_written {opened : Opened} (hs : s.compress lz4 opened = some s') :
    s'.written = s.written := by
  rw [Archive.compress.eq_def] at hs
  split at hs
  · obtain rfl := Option.some.inj hs
    rfl
  · obtain rfl := Option.some.inj hs
    rfl
  · split at hs
    · cases hs
    · split at hs
      · obtain rfl := Option.some.inj hs
        rfl
      · obtain rfl := Option.some.inj hs
        rfl
  · cases hs

lemma compressFile_written {removes : Bool} (hs : s.compressFile lz4 removes = some s') :
    s'.written = s.written := by
  rw [Archive.compressFile.eq_def] at hs
  split at hs
  · split at hs
    · split at hs
      · obtain rfl := Option.some.inj hs
        rfl
      · obtain rfl := Option.some.inj hs
        rfl
    · split at hs
      · obtain rfl := Option.some.inj hs
        rfl
      · obtain rfl := Option.some.inj hs
        rfl
  · cases hs

lemma step_inv {a : Action} (hlossless : lz4.Lossless) (hutc : config.fileTime = .utc)
    (hcan : ∀ name, canOpen name = true)
    (h : Inv lz4 lz4Directory (FileAppender.run localtime canOpen pid config now s.written) s)
    (hs : s.step lz4 localtime canOpen pid config lz4Directory a = some s') :
    Inv lz4 lz4Directory (FileAppender.run localtime canOpen pid config now s'.written) s' := by
  have hg : Good pid config (FileAppender.run localtime canOpen pid config now s.written) :=
    run_good hutc hcan now s.written
  cases a with
  | write m =>
    obtain rfl := Option.some.inj hs
    have hnext : Good pid config (FileAppender.run localtime canOpen pid config now (s.written ++ [m])) :=
      run_good hutc hcan now (s.written ++ [m])
    rw [FileAppender.run, List.foldl_append] at hnext
    rw [Archive.write, FileAppender.run, List.foldl_append]
    exact h.write hcan hg m hnext
  | lz4Run =>
    rw [lz4Run_written hs]
    exact h.lz4Run hs
  | compress opened =>
    rw [compress_written hs]
    exact h.compress hg hs
  | compressFile removes =>
    rw [compressFile_written hs]
    exact h.compressFile hlossless hg hs
  | spurious =>
    obtain ⟨w, hw, rfl⟩ := Option.map_eq_some_iff.mp hs
    exact h.of_step (a := .wake 0) (by simp) (by simp) (by simp) hw
  | requestStop =>
    obtain ⟨w, hw, rfl⟩ := Option.map_eq_some_iff.mp hs
    exact h.of_step (a := .requestStop 0) (by simp) (by simp) (by simp) hw

lemma reachable_inv (hlossless : lz4.Lossless) (hutc : config.fileTime = .utc)
    (hcan : ∀ name, canOpen name = true)
    (h : (machine lz4 localtime canOpen pid config lz4Directory now).Reachable s) :
    Inv lz4 lz4Directory (FileAppender.run localtime canOpen pid config now s.written) s := by
  apply Machine.reachable_invariant (M := machine lz4 localtime canOpen pid config lz4Directory now)
    (I := fun s => Inv lz4 lz4Directory (FileAppender.run localtime canOpen pid config now s.written) s)
    _ (fun s a t hs ht => step_inv hlossless hutc hcan hs ht) h
  refine ⟨rfl, ?_, ?_, rfl, fun _ => Or.inl rfl, nofun⟩
  · exact Workers.reachable_inv ⟨[.spawn 1], rfl⟩
  · exact ⟨le_rfl, nofun, nofun⟩

/-- No line of the log is lost between the appender and the archives: read in the order in which the
files were opened, each in its place or in its archive, they hold everything that was written. Each
file that was rolled is compressed once, in order, and the thread does not sleep with files to do. -/
theorem archive_keeps_lines (hlossless : lz4.Lossless) (hutc : config.fileTime = .utc)
    (hcan : ∀ name, canOpen name = true)
    (h : (machine lz4 localtime canOpen pid config lz4Directory now).Reachable s) :
    s.appender.opened.flatMap (s.recovered lz4 lz4Directory) = s.written.flatMap Message.buf ∧
    s.appender.posted.map (task lz4Directory) =
      s.thread.finished.map Prod.snd ++ s.thread.work 0 ++ s.thread.queue ∧
    (s.appender.posted.map (task lz4Directory)).Nodup ∧
    (s.thread.threads.any Thread.isAsleep = true → s.thread.queue = []) := by
  have hinv := reachable_inv hlossless hutc hcan h
  have hg : Good pid config (FileAppender.run localtime canOpen pid config now s.written) :=
    run_good hutc hcan now s.written
  have hopened : s.appender.opened =
      (FileAppender.run localtime canOpen pid config now s.written).opened := by rw [hinv.fields]; rfl
  have hposted : s.appender.posted =
      (FileAppender.run localtime canOpen pid config now s.written).posted := by rw [hinv.fields]; rfl
  refine ⟨?_, ?_, ?_, ?_⟩
  · rw [hopened, List.flatMap_congr fun name hname => hinv.recovered hg hname]
    exact run_lines hutc hcan now s.written
  · rw [hposted]
    exact hinv.tasks
  · rw [hposted]
    apply List.Nodup.of_map Prod.fst
    rw [List.map_map]
    exact hg.closed.1
  · exact hinv.single.awake hinv.thread

end Invariant

def stored : Lz4 Unit where
  compressBegin := some ((), [])
  compressUpdate := fun _ chunk => some ((), chunk)
  compressEnd := fun _ => some []
  decompress := some

lemma stored_run {chunks : List (List UInt8)} {ctx : Unit} {out : List UInt8}
    (h : stored.Run chunks ctx out) : out = chunks.flatten := by
  induction h with
  | header h =>
    obtain ⟨-, rfl⟩ := Prod.mk.inj (Option.some.inj h)
    rfl
  | update h hsize hmore ih =>
    obtain ⟨-, rfl⟩ := Prod.mk.inj (Option.some.inj hmore)
    rw [ih, List.flatten_append, List.flatten_singleton]

lemma stored_lossless : stored.Lossless := by
  intro chunks ctx out more hrun hmore
  obtain rfl : [] = more := Option.some.inj hmore
  rw [List.append_nil, stored_run hrun]
  rfl

def smallConfig : FileAppenderConfig := ⟨['a'], ['d'], 3, .utc, false, by decide⟩

set_option maxRecDepth 20000 in
/-- Of two files that were rolled the first is in its archive, the second could not be opened by the
thread, and a third is open. -/
theorem archive_keeps_lines_two : ∃ (now : TimePoint) (s : Archive Unit),
    (machine stored gmtime (fun _ => true) 7 smallConfig ['z'] now).Reachable s ∧
    s.appender.opened.map s.appender.disk.get =
      [none, some [⟨now, [68, 69, 10]⟩], some [⟨now, [67]⟩]] ∧
    s.thread.finished.length = 2 ∧
    s.appender.opened.flatMap (s.recovered stored ['z']) = [65, 66, 10, 68, 69, 10, 67] := by
  have hreachable : (machine stored gmtime (fun _ => true) 7 smallConfig ['z']
      ⟨0, by decide, by decide⟩).Reachable _ := ⟨[.write ⟨⟨0, by decide, by decide⟩, [65, 66, 10]⟩,
    .lz4Run, .lz4Run, .compress .both, .compressFile true, .compressFile true, .lz4Run,
    .write ⟨⟨0, by decide, by decide⟩, [68, 69, 10]⟩, .lz4Run, .lz4Run, .compress .noInput, .lz4Run,
    .write ⟨⟨0, by decide, by decide⟩, [67]⟩], rfl⟩
  refine ⟨_, _, hreachable, rfl, rfl, ?_⟩
  exact (archive_keeps_lines stored_lossless rfl (fun _ => rfl) hreachable).1

end Archive

end Simple.Log
