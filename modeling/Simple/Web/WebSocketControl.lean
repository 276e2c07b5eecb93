import Simple.Web.WebSocketRead

/-! Control frames between the fragments of a message. -/

namespace Simple.Web.WebSocket

open Simple.Lib Simple.Lib.Reader Simple.Coro.Network

def openAfter (opened : Opcode) (f : Frame) : Opcode :=
  if f.op.isControl then opened
  else if f.fin then .none
  else if f.op = .continuation then opened
  else f.op

/-- Control frames are not fragmented, and a continuation frame is there exactly when a message
has been begun and not ended; `opened` is its opcode. -/
def WellFormed : Opcode → List Frame → Prop
  | _, [] => True
  | opened, f :: fs =>
    (if f.op.isControl then f.fin = true else (f.op = .continuation ↔ opened ≠ .none)) ∧
      WellFormed (openAfter opened f) fs

instance decidableWellFormed : ∀ opened fs, Decidable (WellFormed opened fs)
  | _, [] => .isTrue trivial
  | opened, f :: fs =>
    have := decidableWellFormed (openAfter opened f) fs
    inferInstanceAs (Decidable (_ ∧ _))

/-- The control frames and the completed messages; `part` are the fragments so far of the message
that is open. -/
def messages : Opcode → List UInt8 → List Frame → List Received
  | _, _, [] => []
  | opened, part, f :: fs =>
    if f.op.isControl then (f.op, f.payload) :: messages opened part fs
    else
      let op := if f.op = .continuation then opened else f.op
      if f.fin then (op, part ++ f.payload) :: messages .none [] fs
      else messages op (part ++ f.payload) fs

/-- No control frame stands inside a fragmented message, unless nothing but control frames comes
behind it and the fragments before it are empty. -/
def Untorn : Opcode → List UInt8 → List Frame → Prop
  | _, _, [] => True
  | opened, part, f :: fs =>
    if f.op.isControl then
      if opened = .none then Untorn opened part fs
      else part = [] ∧ ∀ g ∈ fs, g.op.isControl = true
    else if f.fin then Untorn .none [] fs
    else Untorn (if f.op = .continuation then opened else f.op) (part ++ f.payload) fs

instance decidableUntorn : ∀ opened part fs, Decidable (Untorn opened part fs)
  | _, _, [] => .isTrue trivial
  | opened, part, f :: fs =>
    have := decidableUntorn opened part fs
    have := decidableUntorn .none [] fs
    have := decidableUntorn (if f.op = .continuation then opened else f.op) (part ++ f.payload) fs
    inferInstanceAs (Decidable (ite _ (ite _ _ _) (ite _ _ _)))

def bytes (tp : Role) (frames : List Frame) : List UInt8 :=
  frames.flatMap fun f => f.bytes (tp == .server)

def Failed (s : ReadState) : Prop := ∃ e, s.position = .failed e

variable {tp : Role} {e : Endian} {f : Frame} {fs frames : List Frame} {opened : Opcode}
  {part : List UInt8} {ys : List Received}

lemma accepts_iff {last : Opcode} : accepts last f.fin f.op = true ↔
    if f.op.isControl then f.fin = true else (f.op = .continuation ↔ last ≠ .none) := by
  rw [accepts]
  by_cases hc : f.op.isControl
  · rw [if_pos hc, if_pos hc]
  · rw [if_neg hc, if_neg hc]
    by_cases ho : f.op = .continuation <;> by_cases hl : last = .none <;> simp [ho, hl]

lemma ne_continuation_of_isControl (h : f.op.isControl = true) : f.op ≠ .continuation := by
  intro hc
  rw [hc] at h
  cases h

lemma messages_controls (h : ∀ g ∈ fs, g.op.isControl = true) :
    messages opened part fs = fs.map fun g => (g.op, g.payload) := by
  induction fs with
  | nil => rfl
  | cons f fs ih =>
    obtain ⟨hf, hfs⟩ := List.forall_mem_cons.mp h
    rw [messages, if_pos hf, ih hfs, List.map_cons]

lemma quiet_start : (read tp e).consumer.step ⟨{ buf := part, last := opened }, [], ys⟩ = none := rfl

lemma control_steps {rest : List UInt8} (hc : f.op.isControl = true) (hf : f.fin = true) :
    (read tp e).consumer.Steps
      ⟨{ buf := part, last := opened }, f.bytes (tp == .server) ++ rest, ys⟩
      ⟨{}, rest, ys ++ [(f.op, part ++ f.payload)]⟩ := by
  have hacc : accepts opened f.fin f.op = true := by
    rw [accepts, if_pos hc]
    exact hf
  refine (frame_steps f hacc).trans ?_
  rw [ReadState.finish, if_pos hf, if_neg (ne_continuation_of_isControl hc)]
  exact .refl

/-- A reader that has returned in the middle of a message goes on as far as the control frames do. -/
lemma torn_steps (tp : Role) (e : Endian) (hw : WellFormed opened fs) (ho : opened ≠ .none)
    (ys : List Received) : ∃ d,
    (read tp e).consumer.Steps ⟨{}, bytes tp fs, ys⟩ d ∧ (read tp e).consumer.step d = none ∧
      ((∀ g ∈ fs, g.op.isControl = true) → ¬Failed d.state ∧
        d.yielded = ys ++ fs.map fun g => (g.op, g.payload)) ∧
      (¬(∀ g ∈ fs, g.op.isControl = true) → Failed d.state) := by
  induction fs generalizing ys with
  | nil =>
    refine ⟨_, .refl, quiet_start, fun _ => ⟨?_, (List.append_nil _).symm⟩, fun h => ?_⟩
    · rintro ⟨_, ⟨⟩⟩
    · simp at h
  | cons f fs ih =>
    obtain ⟨hf, hrest⟩ := hw
    rw [bytes, List.flatMap_cons]
    by_cases hc : f.op.isControl = true
    · rw [if_pos hc] at hf
      rw [openAfter, if_pos hc] at hrest
      obtain ⟨d, hd, hq, hall, hnot⟩ := ih hrest (ys ++ [(f.op, f.payload)])
      refine ⟨d, (control_steps hc hf).trans hd, hq, fun h => ?_, fun h => hnot fun hfs => h ?_⟩
      · obtain ⟨hfail, hys⟩ := hall (List.forall_mem_cons.mp h).2
        refine ⟨hfail, ?_⟩
        rw [hys, List.append_assoc, List.map_cons, List.singleton_append]
      · exact List.forall_mem_cons.mpr ⟨hc, hfs⟩
    · rw [if_neg hc] at hf
      have hcont : f.op = .continuation := hf.mpr ho
      have hrefuse : accepts .none f.fin f.op = false := by
        rw [accepts, if_neg hc, hcont]
        rfl
      refine ⟨_, frame_refused f hrefuse, rfl, fun h => ?_, fun _ => ⟨_, rfl⟩⟩
      exact absurd (List.forall_mem_cons.mp h).1 hc

lemma data_steps {rest : List UInt8} (hc : ¬f.op.isControl = true)
    (hf : f.op = .continuation ↔ opened ≠ .none) :
    (read tp e).consumer.Steps
      ⟨{ buf := part, last := opened }, f.bytes (tp == .server) ++ rest, ys⟩
      (if f.fin then
        ⟨{}, rest, ys ++ [(if f.op = .continuation then opened else f.op, part ++ f.payload)]⟩
      else
        ⟨{ buf := part ++ f.payload, last := if f.op = .continuation then opened else f.op },
          rest, ys⟩) := by
  have hacc : accepts opened f.fin f.op = true := accepts_iff.mpr (by rwa [if_neg hc])
  refine (frame_steps f hacc).trans ?_
  rw [ReadState.finish]
  split
  · exact .refl
  · rw [after, Option.toList_none, List.append_nil]

lemma untorn_steps (tp : Role) (e : Endian) (hw : WellFormed opened frames)
    (hpart : opened = .none → part = []) (ys : List Received) : ∃ d,
    (read tp e).consumer.Steps ⟨{ buf := part, last := opened }, bytes tp frames, ys⟩ d ∧
      (read tp e).consumer.step d = none ∧
      (¬Failed d.state ∧ d.yielded = ys ++ messages opened part frames ↔
        Untorn opened part frames) := by
  induction frames generalizing opened part ys with
  | nil =>
    refine ⟨_, .refl, quiet_start, iff_of_true ⟨?_, (List.append_nil _).symm⟩ trivial⟩
    rintro ⟨_, ⟨⟩⟩
  | cons f fs ih =>
    obtain ⟨hf, hrest⟩ := hw
    rw [bytes, List.flatMap_cons, messages, Untorn]
    by_cases hc : f.op.isControl = true
    · rw [if_pos hc] at hf
      rw [openAfter, if_pos hc] at hrest
      rw [if_pos hc, if_pos hc]
      by_cases ho : opened = .none
      · subst ho
        obtain rfl := hpart rfl
        obtain ⟨d, hd, hq, hiff⟩ := ih hrest (fun _ => rfl) (ys ++ [(f.op, f.payload)])
        rw [List.append_assoc, List.singleton_append] at hiff
        exact ⟨d, (control_steps hc hf).trans hd, hq, by rwa [if_pos rfl]⟩
      · obtain ⟨d, hd, hq, hall, hnot⟩ :=
          torn_steps tp e hrest ho (ys ++ [(f.op, part ++ f.payload)])
        refine ⟨d, (control_steps hc hf).trans hd, hq, ?_⟩
        rw [if_neg ho]
        by_cases hfs : ∀ g ∈ fs, g.op.isControl = true
        · obtain ⟨hfail, hys⟩ := hall hfs
          rw [hys, List.append_assoc, List.singleton_append, messages_controls hfs]
          refine (and_iff_right hfail).trans (Iff.trans ?_ (and_iff_left hfs).symm)
          simp
        · exact iff_of_false (fun h => h.1 (hnot hfs)) fun h => hfs h.2
    · rw [if_neg hc] at hf
      rw [openAfter, if_neg hc] at hrest
      rw [if_neg hc, if_neg hc]
      have hsteps : (read tp e).consumer.Steps
          ⟨{ buf := part, last := opened }, f.bytes (tp == .server) ++ bytes tp fs, ys⟩ _ :=
        data_steps hc hf
      by_cases hfin : f.fin = true
      · rw [if_pos hfin] at hrest hsteps
        simp only [if_pos hfin]
        obtain ⟨d, hd, hq, hiff⟩ := ih hrest (fun _ => rfl)
          (ys ++ [(if f.op = .continuation then opened else f.op, part ++ f.payload)])
        rw [List.append_assoc, List.singleton_append] at hiff
        exact ⟨d, hsteps.trans hd, hq, hiff⟩
      · rw [if_neg hfin] at hrest hsteps
        simp only [if_neg hfin]
        have hopen : (if f.op = .continuation then opened else f.op) ≠ .none := by
          split
          · exact hf.mp ‹_›
          · exact f.op_ne
        obtain ⟨d, hd, hq, hiff⟩ := ih hrest (fun h => absurd h hopen) ys
        exact ⟨d, hsteps.trans hd, hq, hiff⟩

/-- The reads return every control frame and every message for itself exactly when no control
frame stands inside a message. -/
theorem messages_iff_untorn (tp : Role) (e : Endian) (frames : List Frame)
    (hw : WellFormed .none frames) (schedule : List Event)
    (h : schedule.flatMap Event.data = bytes tp frames) :
    ¬Failed ((read tp e).settle ((read tp e).run {} schedule)).state ∧
        ((read tp e).settle ((read tp e).run {} schedule)).results = messages .none [] frames ↔
      Untorn .none [] frames := by
  obtain ⟨d, hd, hq, hiff⟩ := untorn_steps tp e hw (fun _ => rfl) []
  rw [← h] at hd
  have hcursor := Program.settle_cursor hd hq
  have hstate := congrArg Cursor.state hcursor
  have hyielded := congrArg Cursor.yielded hcursor
  simp only [Program.cursor] at hstate hyielded
  rw [hstate, hyielded]
  exact hiff

def interrupted : List Frame :=
  [⟨false, 0, .text, [1], .short, fun _ => 0, by decide, by decide⟩,
    ⟨true, 0, .ping, [2], .short, fun _ => 0, by decide, by decide⟩,
    ⟨true, 0, .continuation, [3], .short, fun _ => 0, by decide, by decide⟩]

theorem interrupted_torn : WellFormed .none interrupted ∧
    ((read .client .little).settle ((read .client .little).run {}
      [.handRead (fun _ => 0) (bytes .client interrupted)])).results = [(.ping, [1, 2])] ∧
    Failed ((read .client .little).settle ((read .client .little).run {}
      [.handRead (fun _ => 0) (bytes .client interrupted)])).state ∧
    messages .none [] interrupted = [(.ping, [2]), (.text, [1, 3])] :=
  ⟨by decide, rfl, ⟨.readFail, rfl⟩, rfl⟩

def uninterrupted : List Frame :=
  [⟨false, 0, .text, [1], .short, fun _ => 0, by decide, by decide⟩,
    ⟨true, 0, .continuation, [3], .short, fun _ => 0, by decide, by decide⟩,
    ⟨true, 0, .ping, [2], .short, fun _ => 0, by decide, by decide⟩]

theorem messages_uninterrupted :
    ¬Failed ((read .client .little).settle ((read .client .little).run {}
        [.handRead (fun _ => 0) (bytes .client uninterrupted)])).state ∧
      ((read .client .little).settle ((read .client .little).run {}
        [.handRead (fun _ => 0) (bytes .client uninterrupted)])).results =
          messages .none [] uninterrupted :=
  (messages_iff_untorn .client .little uninterrupted (by decide) _ (by simp [Event.data])).mpr
    (by decide)

end Simple.Web.WebSocket
