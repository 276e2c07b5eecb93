import Simple.Coro.Network

/-! What has been delivered before the end of the stream, and who still gets it. -/

namespace Simple.Coro.Network

open Simple.Lib Simple.Lib.Search Simple.Containers

def Call.Within (left : List UInt8) : Call → Prop
  | .read _ => left ≠ []
  | .readSize size => size ≤ left.length
  | .readUntil _ => False

/-- A read for which there is enough returns it, and no other reports the end of the stream. -/
def Answer.Honoured (a : Answer) : Prop :=
  match a.call with
  | .read size => (a.call.Within a.left → a.outcome = .bytes (a.left.take size)) ∧
      (a.outcome = .eof → ¬a.call.Within a.left)
  | .readSize size => (a.call.Within a.left → a.outcome = .bytes (a.left.take size)) ∧
      (a.outcome = .eof → ¬a.call.Within a.left)
  | .readUntil _ => True

def Trace.left (h : Trace) : List UInt8 := h.delivered.drop h.handed

def Kept (p : Socket × Trace) : Prop := ∀ a ∈ p.2.answers, a.Honoured

/-- A call made when the socket has stopped asks for more than is left. -/
def AsksForMore (p : Socket × Trace) : Action → Prop
  | .call c => p.1.listed = false → ¬c.Within p.2.left
  | _ => True

variable {s t : Socket} {h k : Trace} {a : Action} {c : Call} {w : Waiting} {buf : MemoryBuffer}
  {o : Option Outcome} {delivered : List UInt8}

def Waiting.Short (w : Waiting) (contents : List UInt8) : Prop :=
  match w.call with
  | .readUntil _ => True
  | c => w.moved = [] ∧ ¬c.Within contents

inductive Conserved (c : Call) (left : List UInt8) : MemoryBuffer × (Waiting ⊕ List UInt8) → Prop
  | done {buf : MemoryBuffer} {xs : List UInt8} : xs ++ buf.contents = left →
      Answer.Honoured ⟨c, .bytes xs, left⟩ → Conserved c left (buf, .inr xs)
  | waits {buf : MemoryBuffer} {w : Waiting} : w.call = c → w.moved ++ buf.contents = left →
      w.Short buf.contents → Conserved c left (buf, .inl w)

lemma Waiting.turn_conserved (resumed : Bool) (hw : w.moved = [] ∨ ∃ sep, w.call = .readUntil sep) :
    Conserved w.call (w.moved ++ buf.contents) (w.turn resumed buf) := by
  have hread : buf.contents.length = buf.readable := MemoryBuffer.contents_length
  obtain ⟨c, moved⟩ := w
  cases c with
  | read size =>
    obtain rfl : moved = [] := by simpa using hw
    by_cases hz : buf.readable = 0 ∧ resumed = false
    · simp only [turn, if_pos hz]
      refine .waits rfl rfl ⟨rfl, ?_⟩
      simpa [Call.Within] using List.eq_nil_of_length_eq_zero (hread.trans hz.1)
    · simp only [turn, if_neg hz]
      have htake : buf.contents.take (min buf.readable size) = buf.contents.take size := by
        rw [← hread, Nat.min_comm, ← List.take_eq_take_min]
      refine .done ?_ ⟨fun _ => by rw [htake, List.nil_append], by simp⟩
      rw [MemoryBuffer.readBytes_contents, List.take_append_drop, List.nil_append]
  | readSize size =>
    obtain rfl : moved = [] := by simpa using hw
    by_cases hlt : buf.readable < size
    · simp only [turn, if_pos hlt]
      exact .waits rfl rfl ⟨rfl, by simpa [Call.Within] using hlt⟩
    · simp only [turn, if_neg hlt]
      refine .done ?_ ⟨fun _ => rfl, by simp⟩
      rw [MemoryBuffer.readBytes_contents, List.take_append_drop, List.nil_append]
  | readUntil sep =>
    cases h : find sep buf.contents with
    | some pos =>
      simp only [turn, h]
      refine .done ?_ trivial
      rw [MemoryBuffer.readBytes_contents, List.append_assoc, List.take_append_drop]
    | none =>
      by_cases hle : sep.length ≤ buf.readable
      · simp only [turn, h, if_pos hle]
        refine .waits rfl ?_ trivial
        rw [MemoryBuffer.readBytes_contents, List.append_assoc, List.take_append_drop]
      · simp only [turn, h, if_neg hle]
        exact .waits rfl rfl trivial

structure Inv (p : Socket × Trace) : Prop where
  handed_le : p.2.handed ≤ p.2.delivered.length
  left : p.2.left = p.1.pending
  gone : p.1.listed = false → p.1.handle = none
  ec : p.1.listed = true → p.1.ec = none
  short : ∀ w, p.1.handle = some w → w.Short p.1.buf.contents

lemma inv_initial : Inv history.initial :=
  ⟨Nat.zero_le _, rfl, fun _ => rfl, fun _ => rfl, by rintro w ⟨⟩⟩

lemma kept_next {moved : List UInt8} (hk : Kept (s, h)) : Kept (t, h.next delivered moved c o) ↔
    ∀ x, o = some x → Answer.Honoured ⟨c, x, delivered.drop h.handed⟩ := by
  cases o with
  | none => exact iff_of_true hk (by simp)
  | some x =>
    constructor
    · rintro h' _ ⟨⟩
      exact h' _ (List.mem_append_right _ (List.mem_singleton_self _))
    · intro hx a ha
      rcases List.mem_append.mp ha with ha | ha
      · exact hk a ha
      · rw [List.mem_singleton.mp ha]
        exact hx x rfl

lemma inv_turn {resumed : Bool} (moved : List UInt8) (hl : s.listed = true) (he : s.ec = none)
    (hle : h.handed ≤ delivered.length)
    (hc : Conserved c (delivered.drop h.handed) (w.turn resumed s.buf)) :
    Inv ((s.turn resumed w).1, h.next delivered moved c (s.turn resumed w).2) ∧
      (Kept (s, h) → Kept ((s.turn resumed w).1, h.next delivered moved c (s.turn resumed w).2)) := by
  rw [Socket.turn]
  generalize w.turn resumed s.buf = r at hc
  generalize hd : delivered.drop h.handed = left at hc
  cases hc with
  | done hxs hh =>
    next buf xs =>
    have hlen : h.handed + xs.length ≤ delivered.length := by
      have := congrArg List.length (hxs.trans hd.symm)
      rw [List.length_append, List.length_drop] at this
      omega
    refine ⟨⟨hlen, ?_, fun _ => rfl, fun _ => he, by simp⟩, fun hk => (kept_next hk).mpr ?_⟩
    · change delivered.drop (h.handed + xs.length) = [] ++ buf.contents
      rw [← List.drop_drop, hd, ← hxs, List.drop_left, List.nil_append]
    · rintro _ ⟨⟩
      rwa [hd]
  | waits hw hbuf hshort =>
    refine ⟨⟨hle, hd.trans hbuf.symm, ?_, fun _ => he, ?_⟩, fun hk => hk⟩
    · intro hf
      exact absurd (hl.symm.trans hf) (by simp)
    · rintro _ ⟨⟩
      exact hshort

lemma honoured_invalidAction {left : List UInt8} :
    Answer.Honoured ⟨c, .invalidAction, left⟩ ↔ ¬c.Within left := by
  cases c <;> simp [Answer.Honoured, Call.Within]

lemma honoured_of_not_within {left : List UInt8} {x : Outcome} (hc : ¬c.Within left) :
    Answer.Honoured ⟨c, x, left⟩ := by
  cases c with
  | read size => exact ⟨fun h => absurd h hc, fun _ => hc⟩
  | readSize size => exact ⟨fun h => absurd h hc, fun _ => hc⟩
  | readUntil sep => trivial

lemma Waiting.Short.not_within (h : w.Short buf.contents) :
    ¬w.call.Within (w.moved ++ buf.contents) := by
  obtain ⟨c, moved⟩ := w
  cases c with
  | readUntil sep => exact id
  | read size =>
    obtain ⟨rfl, hw⟩ := h
    exact hw
  | readSize size =>
    obtain ⟨rfl, hw⟩ := h
    exact hw

lemma Inv.invalidAction (hi : Inv (s, h)) (hn : s.handle = none) :
    Inv (s, h.next h.delivered s.moved c (some .invalidAction)) := by
  have hmoved : s.moved.length = 0 := by simp [Socket.moved, hn]
  have hsame : h.handed + s.moved.length = h.handed := by omega
  refine ⟨?_, ?_, hi.gone, hi.ec, hi.short⟩
  · exact hsame.le.trans hi.handed_le
  · exact (congrArg h.delivered.drop hsame).trans hi.left

lemma Socket.call_cases (s : Socket) (c : Call) :
    s.call c = (s, some .invalidAction) ∧ (s.listed = false ∨ ∀ left, ¬c.Within left) ∨
      s.call c = s.turn false { call := c } ∧ s.listed = true := by
  by_cases hc : c.endEmpty
  · refine .inl ⟨by rw [call, if_pos hc], .inr fun left => ?_⟩
    cases c with
    | readUntil sep => exact id
    | _ => cases hc
  · cases hl : s.listed with
    | false => exact .inl ⟨by rw [call, if_neg hc, hl, if_neg (by simp)], .inl rfl⟩
    | true => exact .inr ⟨by rw [call, if_neg hc, hl, if_pos rfl], rfl⟩

lemma step_call (hi : Inv (s, h)) (hn : s.handle = none) :
    Inv ((s.call c).1, h.next h.delivered s.moved c (s.call c).2) ∧
      (Kept (s, h) → (Kept ((s.call c).1, h.next h.delivered s.moved c (s.call c).2) ↔
        AsksForMore (s, h) (.call c))) := by
  rcases s.call_cases c with ⟨hcall, hwhy⟩ | ⟨hcall, hl⟩
  · rw [hcall]
    refine ⟨hi.invalidAction hn, fun hk => (kept_next hk).trans ?_⟩
    have hleft : ∀ x, some Outcome.invalidAction = some x →
        (Answer.Honoured ⟨c, x, h.delivered.drop h.handed⟩ ↔ ¬c.Within h.left) := by
      rintro _ ⟨⟩
      exact honoured_invalidAction
    rcases hwhy with hl | hc
    · exact ⟨fun hx _ => (hleft _ rfl).mp (hx _ rfl), fun hx x hs => (hleft x hs).mpr (hx hl)⟩
    · exact iff_of_true (fun x hs => (hleft x hs).mpr (hc _)) fun _ => hc _
  · have hstart : (⟨c, []⟩ : Waiting).moved ++ s.buf.contents = h.delivered.drop h.handed := by
      refine Eq.trans ?_ hi.left.symm
      simp [Socket.pending, Socket.moved, hn]
    have hturn : Conserved c ([] ++ s.buf.contents) (Waiting.turn false ⟨c, []⟩ s.buf) :=
      Waiting.turn_conserved (w := ⟨c, []⟩) false (.inl rfl)
    rw [hstart] at hturn
    rw [hcall]
    obtain ⟨hinv, hkept⟩ := inv_turn s.moved hl (hi.ec hl) hi.handed_le hturn
    refine ⟨hinv, fun hk => iff_of_true (hkept hk) fun hf => ?_⟩
    exact absurd (hl.symm.trans hf) (by simp)

lemma Inv.extend (hi : Inv (s, h)) (data : List UInt8) :
    h.handed ≤ (h.delivered ++ data).length ∧
      (h.delivered ++ data).drop h.handed = s.pending ++ data := by
  have hle : h.handed ≤ h.delivered.length := hi.handed_le
  refine ⟨hle.trans (by simp), ?_⟩
  rw [List.drop_append_of_le_length hle]
  exact congrArg (· ++ data) hi.left

lemma step_handRead (fresh : ℕ → UInt8) (data : List UInt8) (hi : Inv (s, h)) :
    Inv ((s.handRead fresh data).1, h.record s (.handRead fresh data)) ∧
      (Kept (s, h) → Kept ((s.handRead fresh data).1, h.record s (.handRead fresh data))) := by
  have hrec : h.record s (.handRead fresh data) =
      if s.listed then match s.handle with
        | some w => h.next (h.delivered ++ data) s.moved w.call (s.handRead fresh data).2
        | none => { h with delivered := h.delivered ++ data }
      else match s.handle with
        | some w => h.next h.delivered s.moved w.call (s.handRead fresh data).2
        | none => h := by
    cases hw : s.handle <;> cases hl : s.listed <;>
      simp [Trace.record, operate, Action.answers, hw, hl, Action.data]
  rw [hrec]
  cases hl : s.listed with
  | false =>
    have hn : s.handle = none := hi.gone hl
    simp only [Socket.handRead, hl, hn, Bool.false_eq_true, if_false]
    exact ⟨hi, id⟩
  | true =>
    obtain ⟨hle, hleft⟩ := hi.extend data
    cases hw : s.handle with
    | none =>
      simp only [Socket.handRead, hl, hw, if_true]
      refine ⟨⟨hle, hleft.trans Socket.pending_append.symm, fun _ => hw, hi.ec, ?_⟩, id⟩
      intro w hw'
      exact absurd (hw.symm.trans hw') (by simp)
    | some w =>
      have he : s.ec = none := hi.ec hl
      have hresume : s.handRead fresh data = (s.append fresh data).turn true w := by
        simp only [Socket.handRead, hl, hw, if_true, Socket.resume, Socket.append, he]
      have hshort : w.moved = [] ∨ ∃ sep, w.call = .readUntil sep := by
        have := hi.short w hw
        cases hc : w.call with
        | readUntil sep => exact .inr ⟨sep, rfl⟩
        | _ =>
          rw [Waiting.Short, hc] at this
          exact .inl this.1
      have hturn : Conserved w.call (w.moved ++ (s.append fresh data).buf.contents)
          (w.turn true (s.append fresh data).buf) := w.turn_conserved true hshort
      have hpend : w.moved ++ (s.append fresh data).buf.contents =
          (h.delivered ++ data).drop h.handed := by
        rw [hleft, Socket.append_contents, Socket.pending, Socket.moved, hw, List.append_assoc]
        rfl
      rw [hpend] at hturn
      simp only [hresume, if_true]
      exact inv_turn s.moved hl he hle hturn

lemma step_handStop (ec : StopCode) (hi : Inv (s, h)) :
    Inv ((s.handStop ec).1, h.record s (.handStop ec)) ∧
      (Kept (s, h) → Kept ((s.handStop ec).1, h.record s (.handStop ec))) := by
  have hrec : h.record s (.handStop ec) = match s.handle with
      | some w => h.next h.delivered s.moved w.call (s.handStop ec).2
      | none => h := by
    cases hw : s.handle <;> simp [Trace.record, operate, Action.answers, hw, Action.data]
  rw [hrec]
  cases hl : s.listed with
  | false =>
    have hn : s.handle = none := hi.gone hl
    simp only [Socket.handStop, hl, hn, Bool.false_eq_true, if_false]
    exact ⟨hi, id⟩
  | true =>
    cases hw : s.handle with
    | none =>
      have hmoved : s.moved = [] := by simp [Socket.moved, hw]
      simp only [Socket.handStop, hl, hw, if_true]
      refine ⟨⟨hi.handed_le, ?_, fun _ => rfl, by simp, by simp⟩, id⟩
      exact hi.left.trans (congrArg (· ++ s.buf.contents) hmoved)
    | some w =>
      obtain ⟨o, hstop, ho⟩ : ∃ o, s.handStop ec =
          ({ s with listed := false, ec := some ec, handle := none }, some o) ∧
            o.handed s.moved = s.moved.length := by
        simp only [Socket.handStop, hl, hw, if_true, Socket.resume]
        cases ec with
        | eof => exact ⟨_, rfl, rfl⟩
        | other code => exact ⟨_, rfl, rfl⟩
      have hmoved : s.moved = w.moved := by simp [Socket.moved, hw]
      have hleft : h.delivered.drop h.handed = s.moved ++ s.buf.contents := hi.left
      have hlen : h.handed + s.moved.length ≤ h.delivered.length := by
        have hle : h.handed ≤ h.delivered.length := hi.handed_le
        have := congrArg List.length hleft
        rw [List.length_append, List.length_drop] at this
        omega
      rw [hstop]
      refine ⟨⟨?_, ?_, fun _ => rfl, by simp, by simp⟩, fun hk => (kept_next hk).mpr ?_⟩
      · exact (congrArg (h.handed + ·) ho).le.trans hlen
      · change h.delivered.drop (h.handed + o.handed s.moved) = [] ++ s.buf.contents
        rw [ho, ← List.drop_drop, hleft, List.drop_left, List.nil_append]
      · rintro _ ⟨⟩
        apply honoured_of_not_within
        rw [hleft, hmoved]
        exact (hi.short w hw).not_within

lemma step_kept {p q : Socket × Trace} (hi : Inv p) (hs : history.step p a = some q) :
    Inv q ∧ (Kept p → (Kept q ↔ AsksForMore p a)) := by
  obtain ⟨s, h⟩ := p
  obtain ⟨t, k⟩ := q
  obtain ⟨ht, hk⟩ := Machine.step_withHistory.mp hs
  obtain rfl : k = h.record s a := hk
  cases a with
  | call c =>
    obtain ⟨⟨u, o⟩, hop, rfl⟩ := Option.map_eq_some_iff.mp ht
    obtain ⟨hnone, hcall⟩ : s.handle = none ∧ s.call c = (u, o) := by
      simpa [operate] using hop
    have hrec : h.record s (.call c) = h.next h.delivered s.moved c o := by
      simp only [Trace.record, hop, Action.answers, Action.data, List.append_nil, ite_self]
    have := step_call (c := c) hi hnone
    rw [hcall] at this
    rwa [hrec]
  | handRead fresh data =>
    obtain rfl := Option.some.inj ht
    obtain ⟨hinv, hkept⟩ := step_handRead fresh data hi
    exact ⟨hinv, fun hp => iff_of_true (hkept hp) trivial⟩
  | handStop ec =>
    obtain rfl := Option.some.inj ht
    obtain ⟨hinv, hkept⟩ := step_handStop ec hi
    exact ⟨hinv, fun hp => iff_of_true (hkept hp) trivial⟩

/-- Every read gets what was delivered for it exactly when none is made, once the socket has
stopped, that asks for bytes that are still there. -/
theorem kept_iff_asksForMore (as : List Action) :
    history.Always Kept history.initial as ↔ history.Along AsksForMore history.initial as :=
  Machine.always_iff_along (fun _ _ _ hi hs => (step_kept hi hs).1)
    (fun _ _ _ hi hp hs => (step_kept hi hs).2 hp) inv_initial (fun a ha => by cases ha)

/-- Four bytes and the end of the stream while the coroutine does something else. -/
def endsAsleep : List Action :=
  [.handRead (fun _ => 0) [1, 2, 3, 4], .handStop .eof, .call (.readSize 4)]

theorem lost_at_eof : ¬history.Always Kept history.initial endsAsleep := by
  intro h
  have hlast := h.last (t := (_, _)) rfl
  have hread := hlast ⟨.readSize 4, .invalidAction, [1, 2, 3, 4]⟩ (List.mem_singleton_self _)
  cases hread.1 (show 4 ≤ 4 from le_rfl)

end Simple.Coro.Network
