import Simple.Coro.Network

/-! What the reads of one coroutine return does not depend on how the stream is delivered. -/

namespace Simple.Coro.Network

open Simple.Lib Simple.Lib.Search Simple.Containers

/-- What the call has to return when the stream goes on with `stream`. -/
def Call.Answers : Call → List UInt8 → List UInt8 → Prop
  | .read size, stream, r => r <+: stream ∧ r.length ≤ size
  | .readSize size, stream, r => r <+: stream ∧ r.length = size
  | .readUntil sep, stream, r => ShortestTo sep stream r

def Served : List UInt8 → List Answer → Prop
  | _, [] => True
  | stream, a :: answers =>
    ∃ r, a.outcome = .bytes r ∧ a.call.Answers stream r ∧ Served (stream.drop r.length) answers

def Outcome.returned : Outcome → List UInt8
  | .bytes xs => xs
  | _ => []

def returned (answers : List Answer) : List UInt8 := answers.flatMap (·.outcome.returned)

def Action.Open : Action → Prop
  | .handRead _ _ => True
  | .handStop _ => False
  | .call c => c.Exact

variable {c : Call} {xs ys r : List UInt8} {answers : List Answer} {n : ℕ}

lemma Call.answers_of_cut (hc : c.Exact) (h : c.cut xs = some n) : c.Answers xs (xs.take n) := by
  obtain ⟨-, hle⟩ := cut_bounds hc h
  cases c with
  | read size => cases hc
  | readSize size =>
    rw [cut] at h
    split_ifs at h
    obtain rfl := Option.some.inj h
    exact ⟨List.take_prefix _ _, List.length_take_of_le hle⟩
  | readUntil sep =>
    obtain ⟨m, hm, rfl⟩ := Option.map_eq_some_iff.mp h
    exact shortestTo_of_find hc hm

lemma Call.Answers.append (h : c.Answers xs r) (ys : List UInt8) : c.Answers (xs ++ ys) r := by
  cases c with
  | read size => exact ⟨h.1.trans (List.prefix_append _ _), h.2⟩
  | readSize size => exact ⟨h.1.trans (List.prefix_append _ _), h.2⟩
  | readUntil sep => exact ShortestTo.append h ys

lemma Call.Answers.isPrefix (h : c.Answers xs r) : r <+: xs := by
  cases c with
  | read size => exact h.1
  | readSize size => exact h.1
  | readUntil sep => exact ShortestTo.isPrefix h

lemma Served.append (h : Served xs answers) (ys : List UInt8) : Served (xs ++ ys) answers := by
  induction answers generalizing xs with
  | nil => trivial
  | cons a answers ih =>
    obtain ⟨r, hr, ha, hrest⟩ := h
    refine ⟨r, hr, ha.append ys, ?_⟩
    rw [List.drop_append_of_le_length ha.isPrefix.length_le]
    exact ih hrest

lemma Served.snoc {left : List UInt8} (h : Served xs answers)
    (ha : c.Answers (xs.drop (returned answers).length) r) :
    Served xs (answers ++ [⟨c, .bytes r, left⟩]) := by
  induction answers generalizing xs with
  | nil => exact ⟨r, rfl, ha, trivial⟩
  | cons a answers ih =>
    obtain ⟨q, hq, hans, hrest⟩ := h
    refine ⟨q, hq, hans, ih hrest ?_⟩
    have hlen : (returned (a :: answers)).length = q.length + (returned answers).length := by
      simp [returned, hq, Outcome.returned]
    rwa [hlen, ← List.drop_drop] at ha

lemma returned_snoc (answers : List Answer) (a : Answer) :
    returned (answers ++ [a]) = returned answers ++ a.outcome.returned := by
  simp [returned]

variable {s t : Socket} {h k : Trace} {a : Action} {as : List Action} {o : Option Outcome}

structure Reading (p : Socket × Trace) : Prop where
  good : p.1.Good
  stream : returned p.2.answers ++ p.1.pending = p.2.delivered
  served : Served p.2.delivered p.2.answers

lemma reading_settled (hc : c.Exact) (hset : Socket.Settled c xs (t, o))
    (hs : returned h.answers ++ xs = ys) (hserved : Served ys h.answers)
    (moved : List UInt8) : Reading (t, h.next ys moved c o) := by
  subst hs
  cases hset with
  | answered hn hgood hnone hbuf =>
    refine ⟨hgood, ?_, ?_⟩
    · simp only [Trace.next, returned_snoc, Outcome.returned, Socket.pending, Socket.moved, hnone,
        Option.elim_none, List.nil_append, hbuf, List.append_assoc, List.take_append_drop]
    · refine hserved.snoc ?_
      rw [List.drop_left]
      exact Call.answers_of_cut hc hn
  | waits hgood hw hcall hpending =>
    refine ⟨hgood, ?_, hserved⟩
    rw [← hpending]
    rfl

lemma delivered_step (hl : s.listed = true) (hs : history.step (s, h) a = some (t, k)) :
    k.delivered = h.delivered ++ a.data := by
  obtain ⟨-, rfl⟩ := Machine.step_withHistory.mp hs
  simp only [Trace.record, hl, if_true]
  split
  · next o _ _ _ => cases o <;> rfl
  · rfl

lemma Reading.step (hr : Reading (s, h)) (ha : a.Open)
    (hs : history.step (s, h) a = some (t, k)) : Reading (t, k) := by
  obtain ⟨hgood, hstream, hserved⟩ := hr
  obtain ⟨ht, rfl⟩ := Machine.step_withHistory.mp hs
  cases a with
  | handStop ec => cases ha
  | call c =>
    obtain ⟨⟨u, o⟩, hop, rfl⟩ := Option.map_eq_some_iff.mp ht
    obtain ⟨hnone, hcall⟩ : s.handle = none ∧ s.call c = (u, o) := by
      simpa [operate] using hop
    have hrec : h.record s (.call c) = h.next h.delivered s.moved c o := by
      simp only [Trace.record, hop, Action.answers, Action.data, List.append_nil, ite_self]
    simp only [hrec]
    have hset : Socket.Settled c s.buf.contents (u, o) := hcall ▸ hgood.call ha
    refine reading_settled ha hset ?_ hserved _
    rw [← hstream, Socket.pending, Socket.moved, hnone]
    rfl
  | handRead fresh data =>
    obtain rfl := Option.some.inj ht
    have hl : s.listed = true := hgood.listed
    have hserved' := hserved.append data
    cases hw : s.handle with
    | none =>
      have hidle : s.handRead fresh data = (s.append fresh data, none) := hgood.handRead_idle hw
      have hrec : h.record s (.handRead fresh data) = { h with delivered := h.delivered ++ data } := by
        simp [Trace.record, operate, Action.answers, hw, hl, Action.data]
      simp only [hrec, hidle]
      refine ⟨hgood.append hw, ?_, hserved'⟩
      simp only [Socket.pending_append, ← List.append_assoc, hstream]
    | some w =>
      have hrec : h.record s (.handRead fresh data) =
          h.next (h.delivered ++ data) s.moved w.call (s.handRead fresh data).2 := by
        simp [Trace.record, operate, Action.answers, hw, hl, Action.data]
      simp only [hrec]
      refine reading_settled (hgood.clear w hw).1 (hgood.handRead hw) ?_ hserved' _
      rw [← List.append_assoc, hstream]

lemma Reading.run (hr : Reading (s, h)) (ha : ∀ a ∈ as, a.Open)
    (hs : history.run (s, h) as = some (t, k)) :
    Reading (t, k) ∧ k.delivered = h.delivered ++ as.flatMap Action.data := by
  induction as generalizing s h with
  | nil =>
    obtain ⟨rfl, rfl⟩ := Prod.mk.inj (Option.some.inj hs)
    exact ⟨hr, by simp⟩
  | cons a as ih =>
    obtain ⟨⟨r, j⟩, hstep, hrun⟩ := Machine.run_cons_eq_some.mp hs
    have hopen := List.forall_mem_cons.mp ha
    obtain ⟨hread, hdel⟩ := ih (hr.step hopen.1 hstep) hopen.2 hrun
    refine ⟨hread, ?_⟩
    rw [hdel, delivered_step hr.good.listed hstep, List.flatMap_cons, List.append_assoc]

/-- However a stream is delivered and whatever exact pieces the coroutine asks for, its calls
return what the undivided stream holds for them, and one that waits has no answer yet. -/
theorem reads_on_stream {stream : List UInt8} (ha : ∀ a ∈ as, a.Open)
    (hrun : history.run history.initial as = some (s, h))
    (hstream : as.flatMap Action.data <+: stream) :
    Served stream h.answers ∧ returned h.answers <+: stream ∧
      ∀ w, s.handle = some w →
        w.call.cut ((as.flatMap Action.data).drop (returned h.answers).length) = none := by
  have hinit : Reading history.initial := ⟨Socket.good_initial, rfl, trivial⟩
  obtain ⟨hread, hdel⟩ := hinit.run ha hrun
  have hdel' : h.delivered = as.flatMap Action.data := hdel
  have hpre : returned h.answers <+: as.flatMap Action.data :=
    ⟨s.pending, hread.stream.trans hdel'⟩
  obtain ⟨rest, rfl⟩ := hstream
  refine ⟨?_, hpre.trans (List.prefix_append _ _), ?_⟩
  · rw [← hdel']
    exact hread.served.append rest
  · intro w hw
    rw [← hdel', ← hread.stream, List.drop_left, Socket.pending, Socket.moved, hw]
    exact (hread.good.clear w hw).2.1

def straddling : List Action :=
  [.handRead (fun _ => 0) [1, 13], .call (.readUntil [13, 10]), .handRead (fun _ => 0) [10, 7],
    .call (.readSize 1)]

theorem reads_on_straddling : ∃ p, history.run history.initial straddling = some p ∧
    p.2.answers.map (·.outcome) = [.bytes [1, 13, 10], .bytes [7]] ∧
    Served [1, 13, 10, 7] p.2.answers := by
  have hopen : ∀ a ∈ straddling, a.Open := by simp [straddling, Action.Open, Call.Exact]
  exact ⟨_, rfl, rfl, (reads_on_stream hopen rfl ⟨[], rfl⟩).1⟩

end Simple.Coro.Network
