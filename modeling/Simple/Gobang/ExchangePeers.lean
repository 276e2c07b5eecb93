import Simple.Gobang.Exchange

/-! What holds of one service that calls others, whatever it is given to read. -/

namespace Simple.Gobang

open Simple.Lib RpcSystem

lemma IsReq.not_isAck {id : UInt16} (h : IsReq id) : ¬IsAck id := by
  intro hack
  have heq : msgS2sReq = msgS2sAck := h.symm.trans hack
  revert heq
  decide

namespace RpcSystem.Calls

variable {pid now k : ℕ} {c : Calls} {x y : UInt64}

lemma sessions_insertSession : (c.insertSession x k).sessions = c.sessions := by
  rw [insertSession]
  split <;> rfl

lemma sessions_wakeUpSession : (c.wakeUpSession x).sessions = c.sessions := by
  rw [wakeUpSession]
  split <;> rfl

lemma get_wakeUpSession :
    (c.wakeUpSession x).waitMap.get y = if y = x then none else c.waitMap.get y := by
  rw [wakeUpSession]
  split
  · next hnone =>
    split_ifs with hy
    · exact hy ▸ hnone
    · rfl
  · exact Table.get_remove

lemma get_insertSession (h : c.waitMap.get x = none) :
    (c.insertSession x k).waitMap.get y = if y = x then some k else c.waitMap.get y := by
  rw [insertSession, h]
  exact Table.get_set

lemma Inv.fresh (h : Inv pid c) (hfits : (c.system.tick now).Fits) :
    (c.system.createSession pid now).2 ∉ c.sessions :=
  fun hmem => createSession_ne hfits (h.issued _ hmem) rfl

lemma Inv.get_none (h : Inv pid c) (hx : x ∉ c.sessions) : c.waitMap.get x = none := by
  by_contra hsome
  obtain ⟨k, hk⟩ := Option.ne_none_iff_exists'.mp hsome
  exact hx (List.mem_of_getElem? (h.waiting x k hk))

end RpcSystem.Calls

namespace Peer

def Over (p : Peer) (k : ℕ) : Prop := k ∈ p.answers.map Prod.fst ∨ k ∈ p.cancelled

structure Inv (s : UInt16) (pid : ℕ) (p : Peer) : Prop where
  calls : Calls.Inv pid p.calls
  asked : p.asked.map forwardSession = p.calls.sessions
  asks : ∀ m ∈ p.asked, IsReq (forwardId m) ∧ m ∈ p.written
  spoken : ∀ m ∈ p.written, forwardFrom m = s ∧ forwardPart ≤ m.length
  written : ∀ m ∈ p.written, (IsReq (forwardId m) → m ∈ p.asked) ∧
    (IsAck (forwardId m) → ∃ req, (req, m) ∈ p.replies)
  replies : ∀ req m, (req, m) ∈ p.replies → req ∈ p.requests ∧ m ∈ p.written ∧
    forwardTo m = forwardFrom req ∧ forwardSession m = forwardSession req ∧
    (IsAck (forwardId m) → IsReq (forwardId req))
  requests : ∀ m ∈ p.requests, m ∈ p.got
  handed : ∀ m ∈ p.got, IsReq (forwardId m) → m ∈ p.requests
  acks : ∀ m ∈ p.got, IsAck (forwardId m) → forwardSession m ∈ p.calls.sessions
  answers : ∀ k m, (k, m) ∈ p.answers → m ∈ p.got ∧ IsAck (forwardId m) ∧
    p.calls.sessions[k]? = some (forwardSession m)
  once : (p.answers.map Prod.fst).Nodup
  woken : ∀ k x, p.calls.sessions[k]? = some x → k ∈ p.answers.map Prod.fst →
    p.calls.waitMap.get x = none
  waiting : ∀ k x, p.calls.sessions[k]? = some x → p.Over k ∨ p.calls.waitMap.get x = some k
  heard : ∀ m ∈ p.got, IsAck (forwardId m) → ∀ k, p.calls.sessions[k]? = some (forwardSession m) →
    p.Over k

variable {s : UInt16} {pid now k n : ℕ} {p p' : Peer} {dest id : UInt16} {body msg : List UInt8}
  {requested : Bool}

lemma inv_initial : Inv s pid {} where
  calls := Calls.inv_initial
  asked := rfl
  asks m hm := absurd hm List.not_mem_nil
  spoken m hm := absurd hm List.not_mem_nil
  written m hm := absurd hm List.not_mem_nil
  replies req m hm := absurd hm List.not_mem_nil
  requests m hm := absurd hm List.not_mem_nil
  handed m hm := absurd hm List.not_mem_nil
  acks m hm := absurd hm List.not_mem_nil
  answers k m hm := absurd hm List.not_mem_nil
  once := List.nodup_nil
  woken k x _ hk := absurd hk List.not_mem_nil
  waiting k x hk := by cases hk
  heard m hm := absurd hm List.not_mem_nil

lemma Inv.with_outbox (h : Inv s pid p) (outbox : List (List UInt8)) :
    Inv s pid { p with outbox := outbox } :=
  ⟨h.calls, h.asked, h.asks, h.spoken, h.written, h.replies, h.requests, h.handed, h.acks, h.answers,
    h.once, h.woken, h.waiting, h.heard⟩

lemma Inv.write (h : Inv s pid p) (hfrom : forwardFrom msg = s) (hlen : forwardPart ≤ msg.length)
    (hreq : ¬IsReq (forwardId msg)) (hack : ¬IsAck (forwardId msg)) : Inv s pid (p.write msg) where
  calls := h.calls
  asked := h.asked
  asks m hm := ⟨(h.asks m hm).1, List.mem_append_left _ (h.asks m hm).2⟩
  spoken m hm := by
    rcases List.mem_append.mp hm with hm | hm
    · exact h.spoken m hm
    · obtain rfl := List.mem_singleton.mp hm
      exact ⟨hfrom, hlen⟩
  written m hm := by
    rcases List.mem_append.mp hm with hm | hm
    · exact h.written m hm
    · obtain rfl := List.mem_singleton.mp hm
      exact ⟨fun hr => absurd hr hreq, fun ha => absurd ha hack⟩
  replies req m hm := by
    obtain ⟨hmem, hwritten, hrest⟩ := h.replies req m hm
    exact ⟨hmem, List.mem_append_left _ hwritten, hrest⟩
  requests := h.requests
  handed := h.handed
  acks := h.acks
  answers := h.answers
  once := h.once
  woken := h.woken
  waiting := h.waiting
  heard := h.heard

lemma Inv.reply (h : Inv s pid p) (hreq : ¬IsReq id)
    (hack : IsAck id → ∀ req ∈ p.requests[n]?, IsReq (forwardId req))
    (hp : p.reply s n id body = some p') : Inv s pid p' := by
  obtain ⟨req, hn, rfl⟩ := Option.map_eq_some_iff.mp hp
  have hmem := List.mem_of_getElem? hn
  refine ⟨h.calls, h.asked, ?_, ?_, ?_, ?_, h.requests, h.handed, h.acks, h.answers, h.once, h.woken,
    h.waiting, h.heard⟩
  · exact fun m hm => ⟨(h.asks m hm).1, List.mem_append_left _ (h.asks m hm).2⟩
  · intro m hm
    rcases List.mem_append.mp hm with hm | hm
    · exact h.spoken m hm
    · obtain rfl := List.mem_singleton.mp hm
      exact ⟨forwardFrom_initForwardBuffer, le_length_initForwardBuffer⟩
  · intro m hm
    rcases List.mem_append.mp hm with hm | hm
    · obtain ⟨hasked, hreplied⟩ := h.written m hm
      refine ⟨hasked, fun ha => ?_⟩
      obtain ⟨req', hreq'⟩ := hreplied ha
      exact ⟨req', List.mem_append_left _ hreq'⟩
    · obtain rfl := List.mem_singleton.mp hm
      rw [forwardId_initForwardBuffer]
      exact ⟨fun hr => absurd hr hreq, fun _ => ⟨req, List.mem_append_right _ List.mem_cons_self⟩⟩
  · intro req' m hm
    rcases List.mem_append.mp hm with hm | hm
    · obtain ⟨hmem', hwritten, hrest⟩ := h.replies req' m hm
      exact ⟨hmem', List.mem_append_left _ hwritten, hrest⟩
    · obtain ⟨rfl, rfl⟩ := Prod.mk.inj (List.mem_singleton.mp hm)
      refine ⟨hmem, List.mem_append_right _ List.mem_cons_self, ?_, ?_, ?_⟩
      · exact forwardTo_initForwardBuffer
      · exact forwardSession_initForwardBuffer
      · rw [forwardId_initForwardBuffer]
        exact fun ha => hack ha _ hn

lemma Inv.cancel (h : Inv s pid p) (hp : p.cancel k = some p') : Inv s pid p' := by
  obtain ⟨x, hx, rfl⟩ := Option.map_eq_some_iff.mp hp
  have hover : ∀ {j : ℕ}, p.Over j →
      Over { p with calls := p.calls.wakeUpSession x, cancelled := p.cancelled ++ [k] } j :=
    fun hj => hj.imp_right (List.mem_append_left _)
  refine ⟨h.calls.wakeUpSession, ?_, h.asks, h.spoken, h.written, h.replies, h.requests, h.handed, ?_,
    ?_, h.once, ?_, ?_, ?_⟩ <;> simp only [Calls.sessions_wakeUpSession, Calls.get_wakeUpSession]
  · exact h.asked
  · exact h.acks
  · exact h.answers
  · intro j y hj hanswer
    rw [h.woken j y hj hanswer, ite_self]
  · intro j y hj
    rcases h.waiting j y hj with hdone | hwait
    · exact Or.inl (hover hdone)
    · split_ifs with hy
      · subst hy
        rw [h.calls.own hj hx]
        exact Or.inl (Or.inr (List.mem_append_right _ List.mem_cons_self))
      · exact Or.inr hwait
  · exact fun m hm ha j hj => hover (h.heard m hm ha j hj)

lemma Inv.handOver (h : Inv s pid p)
    (hack : IsAck (forwardId msg) → forwardSession msg ∈ p.calls.sessions ∧
      p.calls.waitMap.get (forwardSession msg) = none) : Inv s pid (p.handOver msg) where
  calls := h.calls
  asked := h.asked
  asks := h.asks
  spoken := h.spoken
  written := h.written
  replies req m hm := by
    obtain ⟨hmem, hrest⟩ := h.replies req m hm
    exact ⟨List.mem_append_left _ hmem, hrest⟩
  requests m hm := by
    rcases List.mem_append.mp hm with hm | hm
    · exact List.mem_append_left _ (h.requests m hm)
    · exact List.mem_append_right _ hm
  handed m hm hr := by
    rcases List.mem_append.mp hm with hm | hm
    · exact List.mem_append_left _ (h.handed m hm hr)
    · exact List.mem_append_right _ hm
  acks m hm ha := by
    rcases List.mem_append.mp hm with hm | hm
    · exact h.acks m hm ha
    · obtain rfl := List.mem_singleton.mp hm
      exact (hack ha).1
  answers j m hm := by
    obtain ⟨hgot, hrest⟩ := h.answers j m hm
    exact ⟨List.mem_append_left _ hgot, hrest⟩
  once := h.once
  woken := h.woken
  waiting := h.waiting
  heard m hm ha j hj := by
    rcases List.mem_append.mp hm with hm | hm
    · exact h.heard m hm ha j hj
    · obtain rfl := List.mem_singleton.mp hm
      -- The call does not wait any more, or it would have been found.
      refine (h.waiting j _ hj).resolve_right fun hwait => ?_
      exact Option.some_ne_none j (hwait.symm.trans (hack ha).2)

lemma Inv.wake (h : Inv s pid p) (hack : IsAck (forwardId msg))
    (hk : p.calls.waitMap.get (forwardSession msg) = some k) :
    Inv s pid { p with
      calls := p.calls.wakeUpSession (forwardSession msg)
      got := p.got ++ [msg]
      answers := p.answers ++ [(k, msg)] } := by
  have hsession := h.calls.waiting _ k hk
  have hnew : k ∉ p.answers.map Prod.fst := fun hmem =>
    Option.some_ne_none k (hk.symm.trans (h.woken k _ hsession hmem))
  have hanswered : k ∈ (p.answers ++ [(k, msg)]).map Prod.fst := by simp
  have hold : ∀ {j}, j ∈ p.answers.map Prod.fst → j ∈ (p.answers ++ [(k, msg)]).map Prod.fst :=
    fun hj => by rw [List.map_append]; exact List.mem_append_left _ hj
  refine ⟨h.calls.wakeUpSession, ?_, h.asks, h.spoken, h.written, h.replies, ?_, ?_, ?_, ?_, ?_, ?_,
    ?_, ?_⟩ <;> simp only [Calls.sessions_wakeUpSession, Calls.get_wakeUpSession]
  · exact h.asked
  · exact fun m hm => List.mem_append_left _ (h.requests m hm)
  · intro m hm hr
    rcases List.mem_append.mp hm with hm | hm
    · exact h.handed m hm hr
    · obtain rfl := List.mem_singleton.mp hm
      exact absurd hack hr.not_isAck
  · intro m hm ha
    rcases List.mem_append.mp hm with hm | hm
    · exact h.acks m hm ha
    · obtain rfl := List.mem_singleton.mp hm
      exact List.mem_of_getElem? hsession
  · intro j m hm
    rcases List.mem_append.mp hm with hm | hm
    · obtain ⟨hgot, hrest⟩ := h.answers j m hm
      exact ⟨List.mem_append_left _ hgot, hrest⟩
    · obtain ⟨rfl, rfl⟩ := Prod.mk.inj (List.mem_singleton.mp hm)
      exact ⟨List.mem_append_right _ List.mem_cons_self, hack, hsession⟩
  · rw [List.map_append]
    refine List.nodup_append.mpr ⟨h.once, List.nodup_singleton _, ?_⟩
    rintro a ha b hb rfl
    obtain rfl := List.mem_singleton.mp hb
    exact hnew ha
  · intro j y hj hanswer
    split_ifs with hy
    · rfl
    · rw [List.map_append] at hanswer
      rcases List.mem_append.mp hanswer with hanswer | hanswer
      · exact h.woken j y hj hanswer
      · obtain rfl := List.mem_singleton.mp hanswer
        exact absurd (Option.some.inj (hj.symm.trans hsession)) hy
  · intro j y hj
    rcases h.waiting j y hj with hdone | hwait
    · exact Or.inl (hdone.imp_left hold)
    · split_ifs with hy
      · subst hy
        exact Or.inl (Or.inl (h.calls.own hj hsession ▸ hanswered))
      · exact Or.inr hwait
  · intro m hm ha j hj
    rcases List.mem_append.mp hm with hm | hm
    · exact (h.heard m hm ha j hj).imp_left hold
    · obtain rfl := List.mem_singleton.mp hm
      exact Or.inl (h.calls.own hj hsession ▸ hanswered)

lemma Inv.receive (h : Inv s pid p)
    (hack : IsAck (forwardId msg) → forwardSession msg ∈ p.calls.sessions) :
    Inv s pid (p.receive msg) := by
  rw [Peer.receive]
  split
  · next hcond =>
    split
    · next k hk => exact h.wake hcond.1 hk
    · next hnone => exact h.handOver fun ha => ⟨hack ha, hnone⟩
  · next hcond =>
    refine h.handOver fun ha => absurd ⟨ha, fun hzero => ?_⟩ hcond
    exact h.calls.zero (hzero ▸ hack ha)

lemma Inv.call (h : Inv s pid p) (hreq : IsReq id) (hfits : (p.calls.system.tick now).Fits)
    (hnow : 1 ≤ now) : Inv s pid (p.call s dest id pid now body requested) := by
  let session := (p.calls.system.createSession pid now).2
  let msg := initForwardBuffer s dest id session body
  have hid : forwardId msg = id := forwardId_initForwardBuffer
  have hfresh : session ∉ p.calls.sessions := h.calls.fresh hfits
  have hcreated : Calls.Inv pid (p.calls.createSession pid now) := h.calls.createSession hfits hnow
  have hlast : (p.calls.createSession pid now).sessions[p.calls.sessions.length]? = some session :=
    List.getElem?_concat_length
  have hcalls : Calls.Inv pid (p.call s dest id pid now body requested).calls := by
    cases requested
    · exact hcreated.insertSession hlast
    · exact hcreated
  have hsessions : (p.call s dest id pid now body requested).calls.sessions =
      p.calls.sessions ++ [session] := by
    cases requested
    · exact Calls.sessions_insertSession
    · rfl
  have hget : ∀ y, (p.call s dest id pid now body requested).calls.waitMap.get y =
      if y = session ∧ requested = false then some p.calls.sessions.length
      else p.calls.waitMap.get y := by
    intro y
    cases requested
    · have hnone : (p.calls.createSession pid now).waitMap.get session = none :=
        h.calls.get_none hfresh
      refine (Calls.get_insertSession hnone).trans ?_
      simp [session, Calls.createSession]
    · simp [Peer.call, Calls.createSession]
  have hkeep : ∀ {j : ℕ} {y : UInt64}, p.calls.sessions[j]? = some y →
      (p.call s dest id pid now body requested).calls.waitMap.get y = p.calls.waitMap.get y := by
    intro j y hj
    have hne : y ≠ session := fun hy => hfresh (hy ▸ List.mem_of_getElem? hj)
    rw [hget, if_neg fun hy => hne hy.1]
  have hover : ∀ {j : ℕ}, p.Over j → (p.call s dest id pid now body requested).Over j := by
    intro j hj
    refine hj.imp_right fun hj => ?_
    cases requested
    · exact hj
    · exact List.mem_append_left _ hj
  have hsplit : ∀ {j : ℕ} {y : UInt64}, (p.calls.sessions ++ [session])[j]? = some y →
      p.calls.sessions[j]? = some y ∨ j = p.calls.sessions.length ∧ y = session := by
    intro j y hj
    rcases lt_trichotomy j p.calls.sessions.length with hlt | rfl | hgt
    · rw [List.getElem?_append_left hlt] at hj
      exact Or.inl hj
    · rw [List.getElem?_concat_length] at hj
      exact Or.inr ⟨rfl, (Option.some.inj hj).symm⟩
    · rw [List.getElem?_eq_none (by simp; omega)] at hj
      cases hj
  have hasked : msg ∈ p.asked ++ [msg] := List.mem_append_right _ List.mem_cons_self
  refine ⟨hcalls, ?_, ?_, ?_, ?_, ?_, h.requests, h.handed, ?_, ?_, h.once, ?_, ?_, ?_⟩
  · have hsession : forwardSession msg = session := forwardSession_initForwardBuffer
    rw [hsessions, ← h.asked, ← hsession]
    exact List.map_append
  · intro m hm
    rcases List.mem_append.mp hm with hm | hm
    · exact ⟨(h.asks m hm).1, List.mem_append_left _ (h.asks m hm).2⟩
    · obtain rfl := List.mem_singleton.mp hm
      refine ⟨?_, List.mem_append_right _ List.mem_cons_self⟩
      rw [forwardId_initForwardBuffer]
      exact hreq
  · intro m hm
    rcases List.mem_append.mp hm with hm | hm
    · exact h.spoken m hm
    · obtain rfl := List.mem_singleton.mp hm
      exact ⟨forwardFrom_initForwardBuffer, le_length_initForwardBuffer⟩
  · intro m hm
    rcases List.mem_append.mp hm with hm | hm
    · exact ⟨fun hr => List.mem_append_left _ ((h.written m hm).1 hr), (h.written m hm).2⟩
    · obtain rfl := List.mem_singleton.mp hm
      exact ⟨fun _ => hasked, fun ha => absurd (hid ▸ ha) hreq.not_isAck⟩
  · intro req m hm
    obtain ⟨hmem, hwritten, hrest⟩ := h.replies req m hm
    exact ⟨hmem, List.mem_append_left _ hwritten, hrest⟩
  · intro m hm ha
    rw [hsessions]
    exact List.mem_append_left _ (h.acks m hm ha)
  · intro j m hm
    obtain ⟨hgot, ha, hj⟩ := h.answers j m hm
    rw [hsessions, List.getElem?_append_left (List.getElem?_eq_some_iff.mp hj).1]
    exact ⟨hgot, ha, hj⟩
  · intro j y hj hanswer
    rw [hsessions] at hj
    obtain ⟨⟨i, m⟩, hm, hij⟩ := List.mem_map.mp hanswer
    obtain rfl : i = j := hij
    obtain ⟨hlt, -⟩ := List.getElem?_eq_some_iff.mp (h.answers i m hm).2.2
    rw [List.getElem?_append_left hlt] at hj
    rw [hkeep hj]
    exact h.woken i y hj hanswer
  · intro j y hj
    rw [hsessions] at hj
    rcases hsplit hj with hj | ⟨rfl, rfl⟩
    · rw [hkeep hj]
      exact (h.waiting j y hj).imp_left hover
    · cases requested
      · exact Or.inr ((hget _).trans (if_pos ⟨rfl, rfl⟩))
      · exact Or.inl (Or.inr (List.mem_append_right _ List.mem_cons_self))
  · intro m hm ha j hj
    rw [hsessions] at hj
    rcases hsplit hj with hj | ⟨-, heq⟩
    · exact hover (h.heard m hm ha j hj)
    · exact absurd (heq ▸ h.acks m hm ha) hfresh

end Peer

end Simple.Gobang
