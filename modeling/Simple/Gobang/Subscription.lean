import Simple.Gobang.GateConnector
import Simple.Gobang.GateHears

/-! A service's copy of the login services against the gate's own list of them. -/

namespace Simple.Gobang

open Simple.Lib

namespace GateConnector

variable {c c' : GateConnector} {id : UInt16} {online : Bool} {l : List (UInt16 × Bool)}
  {tp : UInt16} {subscribes : Table UInt16 (List (UInt16 × Bool))}

lemma setOnline_of_notMem (h : id ∉ l.map Prod.fst) : setOnline id online l = l ++ [(id, online)] := by
  induction l with
  | nil => rfl
  | cons s l ih =>
    rw [List.map_cons, List.mem_cons, not_or] at h
    rw [setOnline, if_neg (Ne.symm h.1), ih h.2]
    rfl

lemma setOnline_of_mem (hl : (l.map Prod.fst).Nodup) (h : id ∈ l.map Prod.fst) :
    setOnline id online l = l.map fun e => if e.1 = id then (id, online) else e := by
  induction l with
  | nil => cases h
  | cons s l ih =>
    rw [List.map_cons, List.nodup_cons] at hl
    rw [setOnline, List.map_cons]
    split_ifs with hs
    · subst hs
      congr 1
      rw [List.map_congr_left, List.map_id]
      intro e he
      rw [if_neg, id_eq]
      rintro heq
      exact hl.1 (List.mem_map.mpr ⟨e, he, heq⟩)
    · rw [ih hl.2 ((List.mem_cons.mp h).resolve_left (Ne.symm hs))]

lemma collect_setOnline (hl : (l.map Prod.fst).Nodup) :
    collect (setOnline id online l) = Function.update (collect l) id (some online) := by
  by_cases h : id ∈ l.map Prod.fst
  · rw [setOnline_of_mem hl h, collect_set h]
  · rw [setOnline_of_notMem h, collect_concat]

lemma nodup_setOnline (hl : (l.map Prod.fst).Nodup) :
    ((setOnline id online l).map Prod.fst).Nodup := by
  by_cases h : id ∈ l.map Prod.fst
  · rw [setOnline_of_mem hl h, List.map_map]
    convert hl using 2
    funext e
    simp only [Function.comp_apply]
    split_ifs with he
    · exact he.symm
    · rfl
  · rw [setOnline_of_notMem h, List.map_append]
    exact hl.append (List.nodup_singleton _) (by simpa using h)

/-- A service is listed once under its type. -/
def Distinct (subscribes : Table UInt16 (List (UInt16 × Bool))) : Prop :=
  ∀ tp, (((subscribes.get tp).getD []).map Prod.fst).Nodup

def view (subscribes : Table UInt16 (List (UInt16 × Bool))) (tp : UInt16) : UInt16 → Option Bool :=
  collect ((subscribes.get tp).getD [])

lemma Distinct.update (h : Distinct subscribes) (service : ServiceInfo) :
    Distinct (updateSubscribe subscribes service) := by
  intro tp
  simp only [updateSubscribe, Table.get_set]
  split_ifs
  · exact nodup_setOnline (h _)
  · exact h tp

lemma Distinct.updates (h : Distinct subscribes) (services : List ServiceInfo) :
    Distinct (services.foldl updateSubscribe subscribes) := by
  induction services generalizing subscribes with
  | nil => exact h
  | cons service services ih => exact ih (h.update service)

lemma view_update (h : Distinct subscribes) (service : ServiceInfo) :
    view (updateSubscribe subscribes service) tp =
      override (view subscribes tp) (collect (ServiceInfo.entries tp [service])) := by
  simp only [view, updateSubscribe, Table.get_set, ServiceInfo.entries, List.filterMap_cons,
    List.filterMap_nil]
  split_ifs with htp htp' htp'
  · subst htp
    rw [Option.getD_some, collect_setOnline (h _), collect, collect, ← override_update]
    rfl
  · exact absurd htp.symm htp'
  · exact absurd htp'.symm htp
  · rfl

lemma view_updates (h : Distinct subscribes) (services : List ServiceInfo) :
    view (services.foldl updateSubscribe subscribes) tp =
      override (view subscribes tp) (collect (ServiceInfo.entries tp services)) := by
  induction services generalizing subscribes with
  | nil => rfl
  | cons service services ih =>
    have hsplit : ServiceInfo.entries tp (service :: services) =
        ServiceInfo.entries tp [service] ++ ServiceInfo.entries tp services := by
      rw [ServiceInfo.entries, ServiceInfo.entries, ServiceInfo.entries, ← List.filterMap_append]
      rfl
    rw [List.foldl_cons, ih (h.update service), view_update h, hsplit, collect_append,
      override_assoc]

def waiting (c : GateConnector) : Set (UInt16 → Option Bool) :=
  {w | ∃ call ∈ c.calls, ∃ services, call.reply = .received .success services ∧
    w = collect (ServiceInfo.entries stLogin services)}

lemma waiting_mono (h : ∀ call ∈ c'.calls, call ∈ c.calls ∨ ∃ session, call.reply = .waiting session) :
    c'.waiting ⊆ c.waiting := by
  rintro w ⟨call, hcall, services, hreply, rfl⟩
  rcases h call hcall with hmem | ⟨session, hwait⟩
  · exact ⟨call, hmem, services, hreply, rfl⟩
  · rw [hreply] at hwait
    cases hwait

structure Asks (c : GateConnector) (call : GateConnector × List (UInt64 × UInt16)) : Prop where
  socket : call.1.socket = c.socket
  subscribes : call.1.subscribes = c.subscribes
  returned : call.1.returned = c.returned
  calls : ∀ k ∈ call.1.calls, k ∈ c.calls ∨ ∃ session, k.reply = .waiting session
  requests : ∀ r ∈ call.2, r.2 = stLogin

lemma subscribe_asks (c : GateConnector) (now : ℕ) (tp : UInt16) (socket : UInt32) :
    Asks c (c.subscribe now tp socket) := by
  simp only [subscribe]
  split_ifs
  · refine ⟨rfl, rfl, rfl, fun k hk => .inl hk, ?_⟩
    simp
  · refine ⟨rfl, rfl, rfl, ?_, ?_⟩
    · intro k hk
      rcases List.mem_append.mp hk with hk | hk
      · exact .inl hk
      · obtain rfl := List.mem_singleton.mp hk
        exact .inr ⟨_, rfl⟩
    · simp

lemma timeout_asks (c : GateConnector) (now k : ℕ) (call : SubscribeCall) :
    Asks c (c.timeout now k call) := by
  have h := subscribe_asks { c with calls := c.calls.eraseIdx k } now call.tp call.socket
  refine ⟨h.socket, h.subscribes, h.returned, ?_, h.requests⟩
  intro k' hk'
  exact (h.calls k' hk').imp_left List.mem_of_mem_eraseIdx

end GateConnector

open GateConnector

/-- `g` has told the service everything it knows of the login services, or nothing. -/
structure Mirrors (g : Gate) (c : GateConnector) (inbox : List LocalMessage) : Prop where
  types : ∀ tp, g.Heeds c.socket tp → tp = stLogin
  follows : g.Heeds c.socket stLogin → Follows (g.flags stLogin)
    (inbox.flatMap (LocalMessage.notes stLogin)) c.waiting (c.returned ≠ [])
    (view c.subscribes stLogin)
  quiet : ¬ g.Heeds c.socket stLogin →
    inbox.flatMap (LocalMessage.notes stLogin) = [] ∧ c.waiting = ∅ ∧ c.returned = []

namespace Mirrors

variable {g g' : Gate} {c c' : GateConnector} {inbox : List LocalMessage}

lemma notes_append (more : List (UInt32 × LocalMessage)) (x : UInt32) :
    (inbox ++ (more.filter fun m => m.1 = x).map Prod.snd).flatMap (LocalMessage.notes stLogin) =
      inbox.flatMap (LocalMessage.notes stLogin) ++ Gate.heard x stLogin more := by
  rw [List.flatMap_append]
  rfl

lemma gate (h : Mirrors g c inbox) (hl : g.Listed stLogin) {more : List (UInt32 × LocalMessage)}
    (hhears : Gate.Hears c.socket stLogin g g' more)
    (hheeds : ∀ tp, tp ≠ stLogin → g'.Heeds c.socket tp → g.Heeds c.socket tp) :
    Mirrors g' c (inbox ++ (more.filter fun m => m.1 = c.socket).map Prod.snd) := by
  refine ⟨?_, ?_, ?_⟩
  · intro tp hh
    by_contra htp
    exact htp (h.types tp (hheeds tp htp hh))
  · intro hh
    have hh' := hhears.heeds.mp hh
    rw [notes_append]
    exact (h.follows hh').tells (hhears.tells hl hh')
  · intro hnot
    have hnot' := mt hhears.heeds.mpr hnot
    rw [notes_append, hhears.quiet hnot', List.append_nil]
    exact h.quiet hnot'

lemma deliver (h : Mirrors g c inbox) (ht : g.shape.Typed) (hl : g.Listed stLogin) {conn : ℕ}
    {session : UInt64}
    (hconn : g.socketOf conn = some c.socket) {more : List (UInt32 × LocalMessage)}
    (hmore : (g.serviceSubscribe conn session stLogin).sent = g.sent ++ more) :
    Mirrors (g.serviceSubscribe conn session stLogin) c
      (inbox ++ (more.filter fun m => m.1 = c.socket).map Prod.snd) := by
  have hother : ∀ tp, tp ≠ stLogin →
      (g.serviceSubscribe conn session stLogin).Heeds c.socket tp → g.Heeds c.socket tp :=
    fun tp htp => (Gate.heeds_serviceSubscribe htp).mp
  rcases Gate.serviceSubscribe_cases session ht hconn with
    ⟨more', hhears⟩ | ⟨more', hsent, hheard, hflags, hheeds⟩
  · obtain rfl : more = more' := List.append_cancel_left (hmore.symm.trans hhears.sent)
    exact h.gate hl hhears hother
  · obtain rfl : more = more' := List.append_cancel_left (hmore.symm.trans hsent)
    refine ⟨?_, ?_, fun hnot => absurd hheeds hnot⟩
    · intro tp hh
      by_contra htp
      exact htp (h.types tp (hother tp htp hh))
    · intro _
      rw [notes_append, hheard, hflags]
      by_cases hbefore : g.Heeds c.socket stLogin
      · exact (h.follows hbefore).send_copy
      · -- nothing was said before, so the ack alone says everything
        obtain ⟨hinbox, hempty, hreturned⟩ := h.quiet hbefore
        rw [hinbox, hempty]
        apply Follows.send_copy
        refine ⟨fun _ _ _ => trivial, ?_, fun hne => absurd hreturned hne⟩
        rintro k v hk w ⟨⟩

lemma asks {call : GateConnector × List (UInt64 × UInt16)} (h : Mirrors g c inbox)
    (ha : Asks c call) : Mirrors g call.1 inbox := by
  have hwaiting : call.1.waiting ⊆ c.waiting := waiting_mono ha.calls
  refine ⟨?_, ?_, ?_⟩
  · rw [ha.socket]
    exact h.types
  · rw [ha.socket, ha.subscribes, ha.returned]
    exact fun hheeds => (h.follows hheeds).mono hwaiting
  · rw [ha.socket, ha.returned]
    intro hnot
    obtain ⟨hinbox, hempty, hreturned⟩ := h.quiet hnot
    exact ⟨hinbox, Set.subset_empty_iff.mp (hempty ▸ hwaiting), hreturned⟩

lemma skip {msg : LocalMessage} (h : Mirrors g c (msg :: inbox)) (hmsg : msg.notes stLogin = []) :
    Mirrors g c inbox := by
  have hnotes : (msg :: inbox).flatMap (LocalMessage.notes stLogin) =
      inbox.flatMap (LocalMessage.notes stLogin) := by
    rw [List.flatMap_cons, hmsg, List.nil_append]
  exact ⟨h.types, hnotes ▸ h.follows, hnotes ▸ h.quiet⟩

lemma subscribeBrd {infos : List ServiceInfo} (h : Mirrors g c (.subscribeBrd infos :: inbox))
    (hd : Distinct c.subscribes)
    (hsteady : ∀ info ∈ infos, ∀ call ∈ c.calls, ∀ o ∈ call.acked,
      o.tp.toUInt16 = info.tp.toUInt16 → o.id.toUInt16 = info.id.toUInt16 →
        o.online = info.online) :
    Mirrors g (c.recv (.subscribeBrd infos)) inbox := by
  refine ⟨h.types, ?_, ?_⟩
  · intro hheeds
    have hf := h.follows hheeds
    rw [List.flatMap_cons] at hf
    simp only [recv, view_updates hd]
    apply hf.read_puts
    rintro e he w ⟨call, hcall, services, hreply, rfl⟩ v hv
    obtain ⟨info, hinfo, heq⟩ := List.mem_filterMap.mp he
    obtain ⟨o, ho, heq'⟩ := List.mem_filterMap.mp (mem_of_collect hv)
    split_ifs at heq with htp
    split_ifs at heq' with htp'
    obtain rfl := Option.some.inj heq
    obtain ⟨hid, rfl⟩ := Prod.mk.inj (Option.some.inj heq')
    have hacked : o ∈ call.acked := by rwa [SubscribeCall.acked, hreply]
    exact hsteady info hinfo call hcall o hacked (htp'.trans htp.symm) hid
  · intro hnot
    obtain ⟨hinbox, hrest⟩ := h.quiet hnot
    rw [List.flatMap_cons, List.append_eq_nil_iff] at hinbox
    exact ⟨hinbox.2, hrest⟩

lemma subscribeAck {session : UInt64} {ec : Ec} {services : List ServiceInfo}
    (h : Mirrors g c (.subscribeAck session ec services :: inbox)) (hsocket : c'.socket = c.socket)
    (hsubscribes : c'.subscribes = c.subscribes) (hreturned : c'.returned = c.returned)
    (hwaiting : ∀ w ∈ c'.waiting, w ∈ c.waiting ∨
      ec = .success ∧ w = collect (ServiceInfo.entries stLogin services)) : Mirrors g c' inbox := by
  by_cases hec : ec = .success
  · subst hec
    refine ⟨?_, ?_, ?_⟩
    · rw [hsocket]
      exact h.types
    · rw [hsocket, hsubscribes, hreturned]
      intro hheeds
      apply (h.follows hheeds).read_copy.mono
      intro w hw
      exact (hwaiting w hw).symm.imp_left And.right
    · rw [hsocket]
      intro hnot
      have hinbox := (h.quiet hnot).1
      rw [List.flatMap_cons] at hinbox
      cases hinbox
  · have hskip : Mirrors g c inbox := by
      apply h.skip
      cases ec with
      | success => exact absurd rfl hec
      | _ => rfl
    have hsub : c'.waiting ⊆ c.waiting :=
      fun w hw => (hwaiting w hw).resolve_right fun hsuccess => hec hsuccess.1
    refine ⟨?_, ?_, ?_⟩
    · rw [hsocket]
      exact hskip.types
    · rw [hsocket, hsubscribes, hreturned]
      exact fun hheeds => (hskip.follows hheeds).mono hsub
    · rw [hsocket, hreturned]
      intro hnot
      obtain ⟨hinbox, hempty, hret⟩ := hskip.quiet hnot
      exact ⟨hinbox, Set.subset_empty_iff.mp (hempty ▸ hsub), hret⟩

lemma recv_ack {session : UInt64} {ec : Ec} {services : List ServiceInfo}
    (h : Mirrors g c (.subscribeAck session ec services :: inbox)) :
    Mirrors g (c.recv (.subscribeAck session ec services)) inbox := by
  simp only [recv]
  split_ifs
  · exact h.subscribeAck rfl rfl rfl fun w hw => .inl hw
  · refine h.subscribeAck rfl rfl rfl ?_
    rintro w ⟨call, hcall, services', hreply, rfl⟩
    obtain ⟨call', hcall', rfl⟩ := List.mem_map.mp hcall
    split_ifs at hreply with hwait
    · obtain ⟨rfl, rfl⟩ := Reply.received.inj hreply
      exact .inr ⟨rfl, rfl⟩
    · exact .inl ⟨call', hcall', services', hreply, rfl⟩

lemma takeOver {now k : ℕ} {call : SubscribeCall} {services : List ServiceInfo}
    (h : Mirrors g c inbox) (hd : Distinct c.subscribes) (hcall : c.calls[k]? = some call)
    (hreply : call.reply = .received .success services) :
    Mirrors g (c.resume now k call .success services).1 inbox := by
  have hmem : collect (ServiceInfo.entries stLogin services) ∈ c.waiting :=
    ⟨call, List.mem_of_getElem? hcall, services, hreply, rfl⟩
  refine ⟨h.types, ?_, ?_⟩
  · intro hheeds
    have hsub : (c.resume now k call .success services).1.waiting ⊆ c.waiting :=
      waiting_mono fun k' hk' => .inl (List.mem_of_mem_eraseIdx hk')
    have hf := ((h.follows hheeds).take_over hmem).mono hsub
    simp only [resume, ne_eq, not_true_eq_false, if_false, view_updates hd] at hf ⊢
    exact ⟨hf.ends, hf.waits, fun _ => hf.table trivial⟩
  · intro hnot
    have hempty := (h.quiet hnot).2.1
    rw [hempty] at hmem
    cases hmem

end Mirrors

namespace Subscription

variable {s s' : Subscription} {now : ℕ}

structure Inv (s : Subscription) : Prop where
  tidy : s.gate.Tidy
  listed : s.gate.Listed stLogin
  within : ∀ conn, s.conn = some conn → conn < s.gate.conns.length
  asked : ∀ r ∈ s.requests, r.2 = stLogin
  distinct : Distinct s.connector.subscribes
  fresh : s.conn = none →
    s.inbox = [] ∧ s.connector.waiting = ∅ ∧ s.connector.returned = []
  mirrors : s.Open → Mirrors s.gate s.connector s.inbox

lemma open_iff : s.Open ↔ s.connector.socket ≠ 0 ∧
    ∃ conn, s.conn = some conn ∧ s.gate.socketOf conn = some s.connector.socket := by
  simp only [Open, Option.bind_eq_some_iff, Gate.socketOf]

lemma inbox_setGate {g : Gate} {more : List (UInt32 × LocalMessage)} (ho : s.Open)
    (hsent : g.sent = s.gate.sent ++ more) : (s.setGate g).inbox =
      s.inbox ++ (more.filter fun m => m.1 = s.connector.socket).map Prod.snd := by
  simp only [setGate, if_pos ho, hsent, List.drop_left]

lemma stepGate_eq_some {a : Gate.Action} (h : s.stepGate now a = some s') :
    ∃ g, s.gate.step (now, a) = some g ∧ s.setGate g = s' ∧
      ∀ conn, s.conn = some conn → ∀ session tp, a ≠ .subscribe conn session tp := by
  cases a with
  | subscribe conn session tp =>
    simp only [stepGate] at h
    split_ifs at h with hconn
    obtain ⟨g, hg, hs⟩ := Option.map_eq_some_iff.mp h
    refine ⟨g, hg, hs, ?_⟩
    rintro conn' hconn' session' tp' ⟨⟩
    exact hconn hconn'
  | _ =>
    simp only [stepGate] at h
    obtain ⟨g, hg, hs⟩ := Option.map_eq_some_iff.mp h
    exact ⟨g, hg, hs, by simp⟩

lemma recv_socket (c : GateConnector) (msg : LocalMessage) : (c.recv msg).socket = c.socket := by
  cases msg with
  | subscribeAck session ec services =>
    simp only [recv]
    split_ifs <;> rfl
  | _ => rfl

lemma Inv.gate (h : Inv s) {a : Gate.Action} {g : Gate}
    (honce : s.gate.EntersOnce stLogin (now, a)) (hstep : Gate.Stepped s.gate (now, a) g)
    (hown : ∀ conn, s.conn = some conn → ∀ session tp, a ≠ .subscribe conn session tp) :
    Inv (s.setGate g) where
  tidy := h.tidy.step hstep
  listed := hstep.listed h.tidy.indexed honce h.listed
  within := fun conn hconn => (h.within conn hconn).trans_le hstep.conns_le
  asked := h.asked
  distinct := h.distinct
  fresh := by
    intro hnone
    have hclosed : ¬ s.Open := by
      intro ho
      obtain ⟨-, conn, hconn, -⟩ := open_iff.mp ho
      rw [show s.conn = none from hnone] at hconn
      cases hconn
    obtain ⟨hinbox, hrest⟩ := h.fresh hnone
    refine ⟨?_, hrest⟩
    simp only [setGate, if_neg hclosed, hinbox, List.append_nil]
  mirrors := by
    intro ho'
    obtain ⟨hx, conn, hconn, hsocket'⟩ := open_iff.mp ho'
    have hsocket := hstep.socketOf hx (h.within conn hconn) hsocket'
    have ho : s.Open := open_iff.mpr ⟨hx, conn, hconn, hsocket⟩
    have hhears : ∀ tp, ∃ more, Gate.Hears s.connector.socket tp s.gate g more := by
      intro tp
      exact hstep.hears h.tidy.indexed h.tidy.typed h.tidy.sound h.tidy.wired hx hsocket hsocket'
        (hown conn hconn)
    obtain ⟨more, hlogin⟩ := hhears stLogin
    rw [inbox_setGate ho hlogin.sent]
    refine (h.mirrors ho).gate h.listed hlogin ?_
    intro tp _ hheeds
    obtain ⟨more', htp⟩ := hhears tp
    exact htp.heeds.mp hheeds

lemma Inv.connect (h : Inv s) {x : UInt32} (hx : x ≠ 0) (hnone : s.conn = none)
    (hfree : x ∉ s.gate.conns.map LocalSocket.socket) : Inv { s with
      gate := { s.gate with conns := s.gate.conns ++ [{ socket := x }] }
      connector := { s.connector with socket := x }
      conn := some s.gate.conns.length } where
  tidy := by
    have hstep : Gate.Stepped s.gate (0, .accept x)
        { s.gate with conns := s.gate.conns ++ [{ socket := x }] } := .accept hx hfree
    exact h.tidy.step hstep
  listed := h.listed
  within := by
    rintro _ ⟨⟩
    simp
  asked := h.asked
  distinct := h.distinct
  fresh := by
    rintro ⟨⟩
  mirrors := by
    intro _
    obtain ⟨hinbox, hwaiting, hreturned⟩ := h.fresh hnone
    -- nobody has subscribed for a connection that is new
    have hnot : ∀ tp, ¬ Gate.Heeds { s.gate with conns := s.gate.conns ++ [{ socket := x }] } x tp := by
      rintro tp ⟨c, hc, hcx⟩
      have hlt := h.tidy.wired.subscribed tp c hc
      simp only [List.getElem?_append_left hlt] at hcx
      obtain ⟨ptr, hptr, rfl⟩ := Option.map_eq_some_iff.mp hcx
      exact hfree (List.mem_map.mpr ⟨ptr, List.mem_of_getElem? hptr, rfl⟩)
    refine ⟨?_, ?_, ?_⟩
    · exact fun tp hheeds => absurd hheeds (hnot tp)
    · exact fun hheeds => absurd hheeds (hnot stLogin)
    · intro _
      rw [hinbox]
      exact ⟨rfl, hwaiting, hreturned⟩

lemma Inv.deliver (h : Inv s) {conn : ℕ} {session : UInt64} {tp : UInt16}
    {rest : List (UInt64 × UInt16)} (hconn : s.conn = some conn)
    (hrequests : s.requests = (session, tp) :: rest) :
    Inv ({ s with requests := rest }.setGate (s.gate.serviceSubscribe conn session tp)) := by
  obtain rfl : tp = stLogin := h.asked (session, tp) (hrequests ▸ List.mem_cons_self)
  have hstep : Gate.Stepped s.gate (0, .subscribe conn session stLogin)
      (s.gate.serviceSubscribe conn session stLogin) := .subscribe
  have hlisted := hstep.listed h.tidy.indexed trivial h.listed
  refine ⟨h.tidy.step hstep, hlisted, ?_, ?_, h.distinct, ?_, ?_⟩
  · exact fun c hc => (h.within c hc).trans_le hstep.conns_le
  · exact fun r hr => h.asked r (hrequests ▸ List.mem_cons_of_mem _ hr)
  · intro hnone
    rw [show s.conn = none from hnone] at hconn
    cases hconn
  · intro ho'
    obtain ⟨hx, conn', hconn', hsocket'⟩ := open_iff.mp ho'
    obtain rfl := Option.some.inj (hconn.symm.trans hconn')
    have hsocket := hstep.socketOf hx (h.within conn hconn) hsocket'
    have ho : Open { s with requests := rest } := open_iff.mpr ⟨hx, conn, hconn, hsocket⟩
    obtain ⟨more, hmore⟩ : ∃ more, (s.gate.serviceSubscribe conn session stLogin).sent =
        s.gate.sent ++ more := by
      rcases Gate.serviceSubscribe_cases session h.tidy.typed hsocket with
        ⟨more, hhears⟩ | ⟨more, hsent, -⟩
      · exact ⟨more, hhears.sent⟩
      · exact ⟨more, hsent⟩
    rw [inbox_setGate ho hmore]
    have hmirrors : Mirrors s.gate s.connector s.inbox := h.mirrors ho
    exact hmirrors.deliver h.tidy.typed h.listed hsocket hmore

lemma Inv.setConnector (h : Inv s) {call : GateConnector × List (UInt64 × UInt16)}
    (hsocket : call.1.socket = s.connector.socket) (hrequests : ∀ r ∈ call.2, r.2 = stLogin)
    (hdistinct : Distinct call.1.subscribes)
    (hfresh : s.conn = none → call.1.waiting = ∅ ∧ call.1.returned = [])
    (hmirrors : s.Open → Mirrors s.gate call.1 s.inbox) : Inv (s.setConnector call) where
  tidy := h.tidy
  listed := h.listed
  within := h.within
  asked := by
    intro r hr
    rcases List.mem_append.mp hr with hr | hr
    · exact h.asked r hr
    · split_ifs at hr
      · cases hr
      · exact hrequests r hr
  distinct := hdistinct
  fresh := fun hnone => ⟨(h.fresh hnone).1, hfresh hnone⟩
  mirrors := by
    intro ho
    apply hmirrors
    rw [open_iff] at ho ⊢
    rw [← hsocket]
    exact ho

lemma Inv.asks (h : Inv s) {call : GateConnector × List (UInt64 × UInt16)}
    (ha : Asks s.connector call) : Inv (s.setConnector call) := by
  refine h.setConnector ha.socket ha.requests (ha.subscribes ▸ h.distinct) ?_
    fun ho => (h.mirrors ho).asks ha
  intro hnone
  obtain ⟨-, hwaiting, hreturned⟩ := h.fresh hnone
  exact ⟨Set.subset_empty_iff.mp (hwaiting ▸ waiting_mono ha.calls), ha.returned.trans hreturned⟩

lemma Inv.resume (h : Inv s) {k : ℕ} {call : SubscribeCall} {ec : Ec} {services : List ServiceInfo}
    (hcall : s.connector.calls[k]? = some call) (hreply : call.reply = .received ec services) :
    Inv (s.setConnector (s.connector.resume now k call ec services)) := by
  by_cases hec : ec = .success
  · subst hec
    refine h.setConnector rfl ?_ ?_ ?_ fun ho => (h.mirrors ho).takeOver h.distinct hcall hreply
    · rintro r ⟨⟩
    · exact h.distinct.updates services
    · intro hnone
      have hmem : collect (ServiceInfo.entries stLogin services) ∈ s.connector.waiting :=
        ⟨call, List.mem_of_getElem? hcall, services, hreply, rfl⟩
      rw [(h.fresh hnone).2.1] at hmem
      cases hmem
  · have hretry : s.connector.resume now k call ec services = s.connector.timeout now k call := by
      simp only [GateConnector.resume, if_pos hec]
      rfl
    rw [hretry]
    exact h.asks (timeout_asks s.connector now k call)

lemma Inv.read (h : Inv s) {msg : LocalMessage} {rest : List LocalMessage}
    (hinbox : s.inbox = msg :: rest) (hsteady : s.Steady .read) :
    Inv { s with connector := s.connector.recv msg, inbox := rest } := by
  have hconn : s.conn ≠ none := by
    intro hnone
    rw [(h.fresh hnone).1] at hinbox
    cases hinbox
  refine ⟨h.tidy, h.listed, h.within, h.asked, ?_, fun hnone => absurd hnone hconn, ?_⟩
  · cases msg with
    | registerAck => exact h.distinct
    | subscribeAck session ec services =>
      simp only [recv]
      split_ifs <;> exact h.distinct
    | subscribeBrd infos => exact h.distinct.updates infos
  · intro ho'
    have ho : s.Open := by
      rw [open_iff] at ho' ⊢
      rwa [recv_socket] at ho'
    have hmirrors := h.mirrors ho
    rw [hinbox] at hmirrors
    cases msg with
    | registerAck => exact hmirrors.skip rfl
    | subscribeAck session ec services => exact hmirrors.recv_ack
    | subscribeBrd infos =>
      have hbroadcast : s.broadcast = infos := by simp only [broadcast, hinbox, List.head?_cons]
      exact hmirrors.subscribeBrd h.distinct (hbroadcast ▸ hsteady)

lemma Inv.lose (h : Inv s) :
    Inv { s with connector := { s.connector with socket := 0 }, inbox := [] } where
  tidy := h.tidy
  listed := h.listed
  within := h.within
  asked := h.asked
  distinct := h.distinct
  fresh := fun hnone => ⟨rfl, (h.fresh hnone).2⟩
  mirrors := fun ho => absurd rfl ho.1

lemma Inv.step (h : Inv s) {a : Action} (hsteady : s.Steady a) (hstep : s.step a = some s') :
    Inv s' := by
  cases a with
  | gate now a =>
    obtain ⟨g, hg, rfl, hown⟩ := stepGate_eq_some hstep
    exact h.gate hsteady (Gate.step_stepped hg) hown
  | connect x =>
    simp only [Subscription.step] at hstep
    split_ifs at hstep with hnone
    obtain ⟨g, hg, rfl⟩ := Option.map_eq_some_iff.mp hstep
    cases Gate.step_stepped hg with
    | accept hx hfree => exact h.connect hx (not_not.mp hnone) hfree
  | deliver =>
    simp only [Subscription.step] at hstep
    split at hstep
    · next conn session tp rest hconn hrequests =>
      split_ifs at hstep
      obtain rfl := Option.some.inj hstep
      exact h.deliver hconn hrequests
    · cases hstep
  | subscribe now tp =>
    obtain rfl := Option.some.inj hstep
    exact h.asks (subscribe_asks s.connector now tp s.connector.socket)
  | read =>
    simp only [Subscription.step] at hstep
    split at hstep
    · cases hstep
    · next msg rest hinbox =>
      obtain rfl := Option.some.inj hstep
      exact h.read hinbox hsteady
  | resume now k =>
    simp only [Subscription.step] at hstep
    split at hstep
    · cases hstep
    · next call hcall =>
      split at hstep
      · cases hstep
      · next ec services hreply =>
        obtain rfl := Option.some.inj hstep
        exact h.resume hcall hreply
  | timeout now k =>
    simp only [Subscription.step] at hstep
    split at hstep
    · cases hstep
    · next call hcall =>
      obtain rfl := Option.some.inj hstep
      exact h.asks (timeout_asks s.connector now k call)
  | lose =>
    simp only [Subscription.step] at hstep
    split_ifs at hstep
    obtain rfl := Option.some.inj hstep
    exact h.lose

variable (id : UInt16) (pid : ℕ) (addresses : List GateAddress) (pid' : ℕ) (left : List ServiceInfo)

lemma inv_initial : Inv (machine id pid addresses pid' left).initial where
  tidy := by
    refine ⟨Gate.indexed_empty, ⟨?_, ?_⟩, ⟨?_, ?_⟩, ⟨?_, ?_⟩⟩
    · rintro tp i ⟨⟩
    · rintro i k ⟨⟩
    · rintro m n x o p ⟨⟩
    · rintro x i ⟨⟩
    · rintro reg ⟨⟩
    · rintro tp c ⟨⟩
  listed := List.nodup_nil
  within := by
    rintro conn ⟨⟩
  asked := by
    rintro r ⟨⟩
  distinct := by
    have hempty : Distinct ∅ := fun _ => List.nodup_nil
    exact hempty.updates left
  fresh := by
    intro _
    refine ⟨rfl, Set.eq_empty_of_forall_notMem ?_, rfl⟩
    rintro w ⟨call, ⟨⟩, _⟩
  mirrors := fun ho => absurd rfl ho.1

lemma Inv.covers_iff (h : Inv s) (hsettled : s.Settled) {tp : UInt16}
    (htp : tp ∈ s.connector.returned) : s.Covers tp ↔ tp = stLogin := by
  obtain ⟨ho, hinbox, hidle⟩ := hsettled
  obtain ⟨hx, conn, hconn, hsocket⟩ := open_iff.mp ho
  have hmirrors := h.mirrors ho
  have hreturned : s.connector.returned ≠ [] := List.ne_nil_of_mem htp
  constructor
  · rintro ⟨-, conn', hconn', hmem⟩
    obtain rfl := Option.some.inj (hconn.symm.trans hconn')
    exact hmirrors.types tp ⟨conn, hmem, hsocket⟩
  · rintro rfl
    have hheeds : s.gate.Heeds s.connector.socket stLogin := by
      by_contra hnot
      exact hreturned (hmirrors.quiet hnot).2.2
    refine ⟨?_, conn, hconn, ?_⟩
    · have hfollows := hmirrors.follows hheeds
      rw [hinbox] at hfollows
      intro i hi o hobj online
      have hlisted : (o.id, o.online) ∈ s.gate.listing stLogin :=
        List.mem_filterMap.mpr ⟨i, hi, by simp [hobj]⟩
      have hview := hfollows.settled hreturned (collect_of_mem h.listed hlisted)
      have hdistinct := h.distinct stLogin
      constructor
      · intro hmem
        have hmem' := collect_of_mem hdistinct hmem
        exact Option.some.inj (hmem'.symm.trans hview)
      · rintro rfl
        exact mem_of_collect hview
    · obtain ⟨c, hc, hcx⟩ := hheeds
      rwa [Gate.eq_of_socketOf h.tidy.sound hx hsocket hcx] at hc

def joined : List Action :=
  [.connect 1, .gate 1 (.accept 2), .gate 1 (.connect 0),
    .gate 1 (.recv (.registerAck 0x100000001 .success [])), .gate 1 .registered,
    .gate 1 (.register 0 1 ⟨⟨7, 2, true⟩, 64, []⟩),
    .gate 1 (.recv (.updateAck 0x100000002 .success)), .gate 1 (.resume 0),
    .gate 1 (.register 1 1 ⟨⟨5, 3, true⟩, 64, []⟩),
    .gate 1 (.recv (.updateAck 0x100000004 .success)), .gate 1 (.resume 0)]

/-- Once everything has arrived, the service has the flags of the login services of the gate. -/
theorem agrees_of_steady (as : List Action)
    (h : (machine id pid addresses pid' left).Along Steady
      (machine id pid addresses pid' left).initial as) :
    (machine id pid addresses pid' left).Always
      (fun s => s.Settled → stLogin ∈ s.connector.returned → s.Agrees stLogin)
      (machine id pid addresses pid' left).initial as := by
  refine Machine.always_of_along (I := Inv) ?_ ?_ (inv_initial id pid addresses pid' left) h
  · intro s hs hsettled hreturned
    exact ((hs.covers_iff hsettled hreturned).mpr rfl).1
  · exact fun s a t hs hsteady hstep => hs.step hsteady hstep

theorem agrees_after_broadcast : ∃ s, (machine 9 0 [] 1 []).run (machine 9 0 [] 1 []).initial
    (joined ++ [.subscribe 1 3, .deliver, .gate 1 (.stop 1), .read, .read, .resume 1 0, .read]) =
      some s ∧ s.Settled ∧ s.Agrees stLogin := by
  have hagrees := agrees_of_steady 9 0 [] 1 []
    (joined ++ [.subscribe 1 3, .deliver, .gate 1 (.stop 1), .read, .read, .resume 1 0, .read])
    (by decide)
  refine ⟨_, rfl, ?_, hagrees.last rfl ?_ ?_⟩
  · exact ⟨by decide, rfl, by rintro call ⟨⟩⟩
  · exact ⟨by decide, rfl, by rintro call ⟨⟩⟩
  · decide

/-- The broadcast comes after the ack and is read in the same turn. -/
theorem overwritten : ∃ s, (machine 9 0 [] 1 []).run (machine 9 0 [] 1 []).initial
    (joined ++ [.subscribe 1 3, .deliver, .gate 1 (.stop 1), .read, .read, .read, .resume 1 0]) =
      some s ∧ s.Settled ∧ stLogin ∈ s.connector.returned ∧ ¬ s.Agrees stLogin := by
  refine ⟨_, rfl, ⟨by decide, rfl, by rintro call ⟨⟩⟩, by decide, ?_⟩
  intro h
  have honline := (h 1 (by decide) _ rfl true).mp (by decide)
  cases honline

/-- What a subscription promises holds of the login services, and of no other type. -/
theorem covers_iff_login (as : List Action)
    (h : (machine id pid addresses pid' left).Along Steady
      (machine id pid addresses pid' left).initial as) :
    (machine id pid addresses pid' left).Always
      (fun s => s.Settled → ∀ tp ∈ s.connector.returned, s.Covers tp ↔ tp = stLogin)
      (machine id pid addresses pid' left).initial as := by
  refine Machine.always_of_along (I := Inv) ?_ ?_ (inv_initial id pid addresses pid' left) h
  · exact fun s hs hsettled tp htp => hs.covers_iff hsettled htp
  · exact fun s a t hs hsteady hstep => hs.step hsteady hstep

theorem covers_login_alone : ∃ s, (machine 9 0 [] 1 []).run (machine 9 0 [] 1 []).initial
    (joined ++ [.subscribe 1 3, .subscribe 1 4, .deliver, .deliver, .read, .read, .read, .resume 1 0,
      .resume 1 0]) = some s ∧ s.Covers stLogin ∧ ¬ s.Covers 4 := by
  have hcovers := covers_iff_login 9 0 [] 1 []
    (joined ++ [.subscribe 1 3, .subscribe 1 4, .deliver, .deliver, .read, .read, .read, .resume 1 0,
      .resume 1 0]) (by decide)
  have hlast := hcovers.last rfl ⟨by decide, rfl, by rintro call ⟨⟩⟩
  refine ⟨_, rfl, (hlast stLogin (by decide)).mpr rfl, ?_⟩
  intro h
  cases (hlast 4 (by decide)).mp h

/-- A center subscribes to the db services, and the gate only ever hears of login services. -/
theorem not_covered : ∃ s, (machine 9 0 [] 1 []).run (machine 9 0 [] 1 []).initial
    (joined ++ [.subscribe 1 4, .deliver, .read, .read, .resume 1 0]) = some s ∧ s.Settled ∧
      4 ∈ s.connector.returned ∧ ¬ s.Covers 4 := by
  refine ⟨_, rfl, ⟨by decide, rfl, by rintro call ⟨⟩⟩, by decide, ?_⟩
  rintro ⟨-, conn, -, hmem⟩
  cases hmem

end Subscription

end Simple.Gobang
