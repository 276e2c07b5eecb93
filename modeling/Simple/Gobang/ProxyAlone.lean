import Simple.Gobang.ProxyOrder

/-! Each client of the proxy is served as if there were no others: neither the other connections nor
what is meant for other users can be told from what the proxy says about a connection. -/

namespace Simple.Gobang.Proxy

open Simple.Lib

def Output.about : Output → Option UInt32
  | .write msg => some msg.client.socket
  | .offline _ socket _ => some socket
  | .kickAck _ _ _ => none
  | .pingAck socket _ _ _ => some socket
  | .noMatch socket _ _ => some socket
  | .toClient socket _ _ _ => some socket
  | .close socket => some socket

def Output.isOffline : Output → Bool
  | .offline _ _ _ => true
  | _ => false

def about (c : UInt32) (outputs : List Output) : List Output :=
  outputs.filter fun o => o.about = some c

/-- What happens to the connection `c`, of which `u` is the user; before the login it has userid 0. -/
def concerns (P : Parsers) (c : UInt32) (u : Int32) : Action → Bool
  | .accept socket _ | .receive socket _ _ _ _ | .control socket _ | .loginAck socket _ _ _
  | .check socket _ | .finish socket => socket = c
  | .forwardBrd _ part _ _ => part.any fun x => x.socket = c ∧ (x.userid = 0 ∨ x.userid = u)
  | .kick _ _ strv =>
    (P.kickClientReq strv).any fun req => req.socket = c ∧ (req.userid = 0 ∨ req.userid = u)

variable {P : Parsers} {id : UInt16} {c d : UInt32} {u : Int32} {s : SocketData} {m : ClientMessage}
  {outputs new : List Output}

lemma about_append : about c (outputs ++ new) = about c outputs ++ about c new :=
  List.filter_append _ _

lemma about_eq_nil (hd : d ≠ c) (hnew : ∀ o ∈ new, o.about = some d) : about c new = [] := by
  refine List.filter_eq_nil_iff.mpr fun o ho => ?_
  simpa [hnew o ho] using hd

lemma said_forwardClient (millis : Int64) (login : UInt16) :
    ∀ o ∈ (forwardClient id s m P millis login).2, o.about = some s.socket ∧ o.isOffline = false := by
  unfold forwardClient clientRegisterMsg clientRoomMsg clientOtherMsg
  split_ifs
  · simp [Output.about, Output.isOffline]
  · simp [Output.about, Output.isOffline, sendToService]
  · simp [Output.about, Output.isOffline]
  · simp [Output.about, Output.isOffline, sendToService]
  · cases P.pingReq m.payload <;> simp [Output.about, Output.isOffline]
  · simp
  · simp
  · simp [Output.about, Output.isOffline, sendToService]

lemma said_onForward (strv : List UInt8) (part : ClientPart) :
    ∀ o ∈ (onForward id P s strv part).2, o.about = some s.socket ∧ o.isOffline = false := by
  unfold onForward clientLoginAck
  split_ifs
  · cases P.loginAck strv with
    | none => simp [Output.about, Output.isOffline]
    | some ack => cases hs : ack.success <;> simp [hs, Output.about, Output.isOffline, sendToService]
  · simp
  · simp
  · simp
  · simp

structure Same (c : UInt32) (p q : Proxy) : Prop where
  own : q.id = p.id
  data : q.sockets.get c = p.sockets.get c
  outputs : about c q.outputs = about c p.outputs

lemma Same.put {p q : Proxy} (h : Same c p q) (s : SocketData) (new : List Output) :
    Same c ⟨p.id, p.sockets.set c s, p.outputs ++ new⟩ ⟨q.id, q.sockets.set c s, q.outputs ++ new⟩ :=
  ⟨h.own, Table.get_set_self.trans Table.get_set_self.symm, by
    rw [about_append, about_append, h.outputs]⟩

lemma Same.drop {p q : Proxy} (h : Same c p q) (new : List Output) :
    Same c ⟨p.id, p.sockets.remove c, p.outputs ++ new⟩
      ⟨q.id, q.sockets.remove c, q.outputs ++ new⟩ :=
  ⟨h.own, (Table.get_remove.trans (if_pos rfl)).trans (Table.get_remove.trans (if_pos rfl)).symm, by
    rw [about_append, about_append, h.outputs]⟩

lemma Same.say {p q : Proxy} (h : Same c p q) (new : List Output) :
    Same c { p with outputs := p.outputs ++ new } { q with outputs := q.outputs ++ new } :=
  ⟨h.own, h.data, by rw [about_append, about_append, h.outputs]⟩

lemma Same.apart {p p' q : Proxy} (h : Same c p q) (hown : p'.id = p.id)
    (hdata : p'.sockets.get c = p.sockets.get c) (houtputs : p'.outputs = p.outputs ++ new)
    (hnew : about c new = []) : Same c p' q := by
  refine ⟨h.own.trans hown.symm, h.data.trans hdata.symm, ?_⟩
  rw [houtputs, about_append, hnew, List.append_nil]
  exact h.outputs

section Brd

variable {p q : Proxy} {session : UInt64} {part : ClientPart} {strv : List UInt8}

lemma Same.brd (h : Same c p q) (hpart : part.socket = c) :
    Same c (p.clientForwardBrd P session (some part) strv)
      (q.clientForwardBrd P session (some part) strv) := by
  subst hpart
  cases hs : p.sockets.get part.socket with
  | none => rwa [clientForwardBrd_gone hs, clientForwardBrd_gone (h.data.trans hs)]
  | some s =>
    by_cases huser : s.userid = part.userid
    · rw [clientForwardBrd_own hs huser, clientForwardBrd_own (h.data.trans hs) huser, h.own]
      have hput := h.put (onForward p.id P s strv part).1
        ((onForward p.id P s strv part).2 ++ [.toClient part.socket part.id session strv])
      rwa [h.own] at hput
    · rwa [clientForwardBrd_stranger hs huser, clientForwardBrd_stranger (h.data.trans hs) huser]

lemma Same.brd_apart (h : Same c p q) (hpart : part.socket ≠ c)
    (hkeyed : ∀ s, p.sockets.get part.socket = some s → s.socket = part.socket) :
    Same c (p.clientForwardBrd P session (some part) strv) q := by
  cases hs : p.sockets.get part.socket with
  | none => rwa [clientForwardBrd_gone hs]
  | some s =>
    by_cases huser : s.userid = part.userid
    · rw [clientForwardBrd_own hs huser]
      refine h.apart rfl (Table.get_set_ne hpart.symm) rfl (about_eq_nil hpart fun o ho => ?_)
      rcases List.mem_append.mp ho with ho | ho
      · rw [(said_onForward strv part o ho).1, hkeyed s hs]
      · rw [List.mem_singleton.mp ho]
        rfl
    · rwa [clientForwardBrd_stranger hs huser]

lemma Same.brd_stranger (h : Same c p q) (hpart : part.socket = c)
    (huser : ∀ s, p.sockets.get c = some s → s.userid ≠ part.userid) :
    Same c (p.clientForwardBrd P session (some part) strv) q := by
  subst hpart
  cases hs : p.sockets.get part.socket with
  | none => rwa [clientForwardBrd_gone hs]
  | some s => rwa [clientForwardBrd_stranger hs (huser s hs)]

lemma Same.kick (h : Same c p q) {req : KickClientReq} (hreq : P.kickClientReq strv = some req)
    (hsocket : req.socket = c) (sender : UInt16) :
    Same c (p.kickClient P sender session strv) (q.kickClient P sender session strv) := by
  subst hsocket
  simp only [kickClient, hreq, h.data, List.append_assoc]
  exact h.say _

lemma Same.kick_apart (h : Same c p q) (sender : UInt16)
    (hreq : ∀ req ∈ P.kickClientReq strv, req.socket = c →
      ∀ s, p.sockets.get c = some s → s.userid ≠ req.userid) :
    Same c (p.kickClient P sender session strv) q := by
  unfold kickClient
  cases hparse : P.kickClientReq strv with
  | none => exact h.apart rfl rfl rfl rfl
  | some req =>
    simp only [List.append_assoc]
    refine h.apart rfl rfl rfl ?_
    rw [about_append]
    split_ifs with hfound
    · obtain ⟨s, hs, huser⟩ := (Option.any_eq_true _ _).mp hfound
      have hne : req.socket ≠ c := by
        rintro rfl
        exact hreq req hparse rfl s hs (of_decide_eq_true huser)
      simp [about, Output.about, hne]
    · rfl

end Brd

section Shows

variable {p q : World × (UInt32 → History)} {w : World} {a : Action} {h : History}

lemma Follows.user_cases (hf : Follows id c h s outputs) (hu : ∀ g ∈ h.granted, g.2 = u) :
    s.userid = 0 ∨ s.userid = u := by
  rw [hf.user]
  cases hg : h.granted with
  | none => exact .inl rfl
  | some g => exact .inr (hu g hg)

lemma granted_record {w : World} {h : UInt32 → History} {g : UInt16 × Int32}
    (hg : g ∈ (h c).granted) (a : Action) : g ∈ (record P w h a c).granted := by
  have happend (x : Happening) (socket : UInt32) :
      g ∈ History.granted (Function.update h socket (h socket ++ [x]) c) := by
    rw [Function.update_apply]
    split_ifs with hc
    · subst hc
      rw [granted_append, Option.mem_def.mp hg]
      rfl
    · exact hg
  cases a with
  | receive socket m => exact happend _ socket
  | loginAck socket => exact happend _ socket
  | finish socket => exact happend _ socket
  | accept | control | forwardBrd | kick | check => exact hg

structure Shows (id : UInt16) (c : UInt32) (p : World × (UInt32 → History)) (w : World) : Prop where
  inv : Inv id p.1 p.2
  same : Same c p.1.proxy w.proxy
  used : c ∈ w.used ↔ c ∈ p.1.used
  asked : c ∈ w.asked ↔ c ∈ p.1.asked

lemma Shows.take (hs : Shows id c p w) (ha : concerns P c u a = true)
    (hq : (histories P id).step p a = some q) :
    ∃ w', World.step P w a = some w' ∧ Shows id c q w' := by
  obtain ⟨hstep, hrecord⟩ := Machine.step_withHistory.mp hq
  have hinv : Inv id q.1 q.2 := hrecord ▸ hs.inv.step hstep
  obtain ⟨w₁, h₁⟩ := q
  suffices hsuffices : ∃ w', World.step P w a = some w' ∧ Same c w₁.proxy w'.proxy ∧
      (c ∈ w'.used ↔ c ∈ w₁.used) ∧ (c ∈ w'.asked ↔ c ∈ w₁.asked) by
    obtain ⟨w', hw', hsame, hused, hasked⟩ := hsuffices
    exact ⟨w', hw', hinv, hsame, hused, hasked⟩
  change World.step P p.1 a = some w₁ at hstep
  cases a with
  | accept socket now =>
    obtain rfl : socket = c := of_decide_eq_true ha
    rw [World.step] at hstep
    split_ifs at hstep with hused
    obtain rfl := Option.some.inj hstep
    refine ⟨_, if_neg (hs.used.not.mpr hused), ?_, by simp, hs.asked⟩
    have hput := hs.same.put { socket := socket, lastRecv := now } []
    rwa [List.append_nil, List.append_nil] at hput
  | receive socket m now millis login =>
    obtain rfl : socket = c := of_decide_eq_true ha
    obtain ⟨s, hget, rfl⟩ := Option.map_eq_some_iff.mp hstep
    refine ⟨_, Option.map_eq_some_iff.mpr ⟨s, hs.same.data.trans hget, rfl⟩, ?_, hs.used, ?_⟩
    · rw [receive, receive, hs.same.own]
      have hput := hs.same.put (forwardClient p.1.proxy.id { s with lastRecv := now } m P millis login).1
        (forwardClient p.1.proxy.id { s with lastRecv := now } m P millis login).2
      rwa [hs.same.own] at hput
    · dsimp only
      split_ifs
      · simp
      · exact hs.asked
  | control socket now =>
    obtain rfl : socket = c := of_decide_eq_true ha
    obtain ⟨s, hget, rfl⟩ := Option.map_eq_some_iff.mp hstep
    refine ⟨_, Option.map_eq_some_iff.mpr ⟨s, hs.same.data.trans hget, rfl⟩, ?_, hs.used, hs.asked⟩
    have hput := hs.same.put { s with lastRecv := now } []
    rwa [List.append_nil, List.append_nil] at hput
  | loginAck socket session logic strv =>
    obtain rfl : socket = c := of_decide_eq_true ha
    rw [World.step] at hstep
    split_ifs at hstep with hasked
    obtain rfl := Option.some.inj hstep
    exact ⟨_, if_pos ⟨hs.asked.mpr hasked.1, hasked.2⟩, hs.same.brd rfl, hs.used, hs.asked⟩
  | forwardBrd session part strv hother =>
    obtain rfl := Option.some.inj hstep
    obtain ⟨part, rfl, hpart⟩ := (Option.any_eq_true _ _).mp ha
    exact ⟨_, rfl, hs.same.brd (of_decide_eq_true hpart).1, hs.used, hs.asked⟩
  | kick sender session strv =>
    obtain rfl := Option.some.inj hstep
    obtain ⟨req, hreq, hsocket⟩ := (Option.any_eq_true _ _).mp ha
    exact ⟨_, rfl, hs.same.kick hreq (of_decide_eq_true hsocket).1 sender, hs.used, hs.asked⟩
  | check socket now =>
    obtain rfl : socket = c := of_decide_eq_true ha
    obtain ⟨s, hget, rfl⟩ := Option.map_eq_some_iff.mp hstep
    refine ⟨_, Option.map_eq_some_iff.mpr ⟨s, hs.same.data.trans hget, rfl⟩, ?_, hs.used, hs.asked⟩
    unfold socketCheck
    split_ifs
    · exact hs.same.say _
    · exact hs.same
  | finish socket =>
    obtain rfl : socket = c := of_decide_eq_true ha
    obtain ⟨s, hget, rfl⟩ := Option.map_eq_some_iff.mp hstep
    exact ⟨_, Option.map_eq_some_iff.mpr ⟨s, hs.same.data.trans hget, rfl⟩, hs.same.drop _, hs.used,
      hs.asked⟩

lemma Shows.skip (hs : Shows id c p w) (hu : ∀ g ∈ (q.2 c).granted, g.2 = u)
    (ha : concerns P c u a = false) (hq : (histories P id).step p a = some q) :
    Shows id c q w := by
  obtain ⟨hstep, hrecord⟩ := Machine.step_withHistory.mp hq
  have hinv : Inv id q.1 q.2 := hrecord ▸ hs.inv.step hstep
  have huser : ∀ s, p.1.proxy.sockets.get c = some s → s.userid = 0 ∨ s.userid = u := by
    intro s hget
    refine (hs.inv.opened c s hget).2.2.user_cases fun g hg => hu g ?_
    rw [hrecord]
    exact granted_record hg a
  have hkeyed : ∀ d s, p.1.proxy.sockets.get d = some s → s.socket = d :=
    fun d s hget => (hs.inv.opened d s hget).2.2.own
  obtain ⟨w₁, h₁⟩ := q
  change World.step P p.1 a = some w₁ at hstep
  suffices hsuffices : Same c w₁.proxy w.proxy ∧ (c ∈ p.1.used ↔ c ∈ w₁.used) ∧
      (c ∈ p.1.asked ↔ c ∈ w₁.asked) by
    obtain ⟨hsame, hused, hasked⟩ := hsuffices
    exact ⟨hinv, hsame, hs.used.trans hused, hs.asked.trans hasked⟩
  cases a with
  | accept socket now =>
    have hne : socket ≠ c := of_decide_eq_false ha
    rw [World.step] at hstep
    split_ifs at hstep
    obtain rfl := Option.some.inj hstep
    exact ⟨hs.same.apart rfl (Table.get_set_ne hne.symm) (List.append_nil _).symm rfl,
      by simp [hne.symm], Iff.rfl⟩
  | receive socket m now millis login =>
    have hne : socket ≠ c := of_decide_eq_false ha
    obtain ⟨s, hget, rfl⟩ := Option.map_eq_some_iff.mp hstep
    refine ⟨?_, Iff.rfl, ?_⟩
    · refine hs.same.apart rfl (Table.get_set_ne hne.symm) rfl (about_eq_nil hne fun o ho => ?_)
      rw [(said_forwardClient millis login o ho).1, ← hkeyed socket s hget]
    · dsimp only
      split_ifs
      · simp [hne.symm]
      · exact Iff.rfl
  | control socket now =>
    have hne : socket ≠ c := of_decide_eq_false ha
    obtain ⟨s, hget, rfl⟩ := Option.map_eq_some_iff.mp hstep
    exact ⟨hs.same.apart rfl (Table.get_set_ne hne.symm) (List.append_nil _).symm rfl, Iff.rfl, Iff.rfl⟩
  | loginAck socket session logic strv =>
    have hne : socket ≠ c := of_decide_eq_false ha
    rw [World.step] at hstep
    split_ifs at hstep
    obtain rfl := Option.some.inj hstep
    exact ⟨hs.same.brd_apart hne (hkeyed socket), Iff.rfl, Iff.rfl⟩
  | forwardBrd session part strv hother =>
    obtain rfl := Option.some.inj hstep
    refine ⟨?_, Iff.rfl, Iff.rfl⟩
    cases part with
    | none => exact hs.same
    | some part =>
      have hpart : ¬(part.socket = c ∧ (part.userid = 0 ∨ part.userid = u)) := of_decide_eq_false ha
      by_cases hne : part.socket = c
      · refine hs.same.brd_stranger hne fun s hget heq => hpart ⟨hne, ?_⟩
        exact heq ▸ huser s hget
      · exact hs.same.brd_apart hne (hkeyed part.socket)
  | kick sender session strv =>
    obtain rfl := Option.some.inj hstep
    refine ⟨hs.same.kick_apart sender fun req hreq hsocket s hget heq => ?_, Iff.rfl, Iff.rfl⟩
    rw [concerns, Option.mem_def.mp hreq] at ha
    exact of_decide_eq_false ha ⟨hsocket, heq ▸ huser s hget⟩
  | check socket now =>
    have hne : socket ≠ c := of_decide_eq_false ha
    obtain ⟨s, hget, rfl⟩ := Option.map_eq_some_iff.mp hstep
    refine ⟨?_, Iff.rfl, Iff.rfl⟩
    unfold socketCheck
    split_ifs
    · refine hs.same.apart rfl rfl rfl (about_eq_nil hne fun o ho => ?_)
      rw [List.mem_singleton.mp ho]
      rfl
    · exact hs.same
  | finish socket =>
    have hne : socket ≠ c := of_decide_eq_false ha
    obtain ⟨s, hget, rfl⟩ := Option.map_eq_some_iff.mp hstep
    refine ⟨hs.same.apart rfl (Table.get_remove.trans (if_neg hne.symm)) rfl ?_, Iff.rfl, Iff.rfl⟩
    refine about_eq_nil hne fun o ho => ?_
    split_ifs at ho
    · cases ho
    · rw [List.mem_singleton.mp ho, ← hkeyed socket s hget]
      rfl

end Shows

section Told

variable {p q : World × (UInt32 → History)} {w w' : World} {a : Action} {h h' : UInt32 → History}
  {strv : List UInt8} {part : ClientPart}

def Output.told (c : UInt32) : Output → Bool
  | .write msg => msg.client.socket = c ∧ other msg.client.id
  | .offline _ socket _ => socket = c
  | _ => false

def told (c : UInt32) (outputs : List Output) : List Output := outputs.filter (Output.told c)

def reported (c : UInt32) (h : History) : List Output :=
  if .finished ∈ h then
    match h.opened.granted with
    | none => []
    | some (logic, userid) => if logic = 0 then [] else [.offline logic c userid]
  else []

lemma told_append : told c (outputs ++ new) = told c outputs ++ told c new := List.filter_append _ _

lemma told_eq_handed (hnew : ∀ o ∈ new, o.isOffline = false) :
    told c new = (handed c new).map .write := by
  induction new with
  | nil => rfl
  | cons o new ih =>
    have htail := ih fun o ho => hnew o (List.mem_cons_of_mem _ ho)
    rw [told, handed] at htail
    rw [told, handed, List.filter_cons, List.filterMap_cons, htail]
    cases o with
    | write msg =>
      simp only [Output.told, Output.handed, decide_eq_true_eq]
      split_ifs <;> rfl
    | offline dest socket userid => cases hnew _ List.mem_cons_self
    | kickAck | pingAck | noMatch | toClient | close => rfl

lemma brd_outputs {p : Proxy} {session : UInt64} {part : Option ClientPart} :
    ∃ new, (p.clientForwardBrd P session part strv).outputs = p.outputs ++ new ∧
      ∀ o ∈ new, o.isOffline = false := by
  cases part with
  | none => exact ⟨[], (List.append_nil _).symm, by simp⟩
  | some part =>
    cases hs : p.sockets.get part.socket with
    | none => exact ⟨[], by rw [clientForwardBrd_gone hs, List.append_nil], by simp⟩
    | some s =>
      by_cases huser : s.userid = part.userid
      · refine ⟨_, by rw [clientForwardBrd_own hs huser], fun o ho => ?_⟩
        rcases List.mem_append.mp ho with ho | ho
        · exact (said_onForward strv part o ho).2
        · rw [List.mem_singleton.mp ho]
          rfl
      · exact ⟨[], by rw [clientForwardBrd_stranger hs huser, List.append_nil], by simp⟩

lemma step_outputs (hw : World.step P w a = some w') (ha : ∀ c, a ≠ .finish c) :
    ∃ new, w'.proxy.outputs = w.proxy.outputs ++ new ∧ ∀ o ∈ new, o.isOffline = false := by
  cases a with
  | accept socket now =>
    rw [World.step] at hw
    split_ifs at hw
    obtain rfl := Option.some.inj hw
    exact ⟨[], (List.append_nil _).symm, by simp⟩
  | receive socket m now millis login =>
    obtain ⟨s, -, rfl⟩ := Option.map_eq_some_iff.mp hw
    exact ⟨_, rfl, fun o ho => (said_forwardClient millis login o ho).2⟩
  | control socket now =>
    obtain ⟨s, -, rfl⟩ := Option.map_eq_some_iff.mp hw
    exact ⟨[], (List.append_nil _).symm, by simp⟩
  | loginAck socket session logic strv =>
    rw [World.step] at hw
    split_ifs at hw
    obtain rfl := Option.some.inj hw
    exact brd_outputs
  | forwardBrd session part strv hother =>
    obtain rfl := Option.some.inj hw
    exact brd_outputs
  | kick sender session strv =>
    obtain rfl := Option.some.inj hw
    unfold kickClient
    cases P.kickClientReq strv with
    | none => exact ⟨_, rfl, by simp [Output.isOffline]⟩
    | some req =>
      refine ⟨_, List.append_assoc _ _ _, ?_⟩
      split_ifs <;> simp [Output.isOffline]
  | check socket now =>
    obtain ⟨s, -, rfl⟩ := Option.map_eq_some_iff.mp hw
    unfold socketCheck
    split_ifs
    · exact ⟨_, rfl, by simp [Output.isOffline]⟩
    · exact ⟨[], (List.append_nil _).symm, by simp⟩
  | finish socket => exact absurd rfl (ha socket)

lemma Inv.handed (hi : Inv id w h) (c : UInt32) :
    handed c w.proxy.outputs = due id c (h c).opened := by
  cases hs : w.proxy.sockets.get c with
  | none => exact (hi.closed c hs).1
  | some s =>
    obtain ⟨-, hopen, hf⟩ := hi.opened c s hs
    rw [opened_of_notMem hopen]
    exact hf.sent

lemma record_cases (w : World) (h : UInt32 → History) (ha : a ≠ .finish c) :
    record P w h a c = h c ∨ ∃ x ≠ .finished, record P w h a c = h c ++ [x] := by
  have happend (x : Happening) (hx : x ≠ .finished) (socket : UInt32) :
      Function.update h socket (h socket ++ [x]) c = h c ∨
        ∃ y ≠ .finished, Function.update h socket (h socket ++ [x]) c = h c ++ [y] := by
    rw [Function.update_apply]
    split_ifs with hc
    · subst hc
      exact .inr ⟨x, hx, rfl⟩
    · exact .inl rfl
  cases a with
  | receive socket m => exact happend (.message m) (by simp) socket
  | loginAck socket _ logic strv => exact happend (.answer logic (P.loginAck strv)) (by simp) socket
  | finish socket =>
    have hne : c ≠ socket := by
      rintro rfl
      exact ha rfl
    exact .inl (Function.update_of_ne hne _ _)
  | accept | control | forwardBrd | kick | check => exact .inl rfl

lemma Inv.keeps_closed (hi : Inv id w h) (hi' : Inv id w' h') (hmem : .finished ∈ h c)
    (hh : h' c = h c ∨ ∃ x ≠ .finished, h' c = h c ++ [x])
    (houtputs : w'.proxy.outputs = w.proxy.outputs ++ new) :
    (h' c).opened = (h c).opened ∧ Proxy.handed c new = [] := by
  have hopened : (h' c).opened = (h c).opened := by
    rcases hh with hh | ⟨x, -, hh⟩
    · rw [hh]
    · rw [hh, opened_append_of_mem hmem]
  refine ⟨hopened, ?_⟩
  have hafter := hi'.handed c
  rw [houtputs, handed_append, hi.handed c, hopened] at hafter
  exact List.append_cancel_left (hafter.trans (List.append_nil _).symm)

lemma told_step (hi : Inv id w h) (hi' : Inv id w' h')
    (hh : h' c = h c ∨ ∃ x ≠ .finished, h' c = h c ++ [x])
    (houtputs : w'.proxy.outputs = w.proxy.outputs ++ new) (hnew : told c new = (handed c new).map .write)
    (ht : told c w.proxy.outputs = (due id c (h c).opened).map .write ++ reported c (h c)) :
    told c w'.proxy.outputs = (due id c (h' c).opened).map .write ++ reported c (h' c) := by
  by_cases hmem : .finished ∈ h c
  · obtain ⟨hopened, hquiet⟩ := hi.keeps_closed hi' hmem hh houtputs
    have hmem' : .finished ∈ h' c := by
      rcases hh with hh | ⟨x, -, hh⟩
      · rwa [hh]
      · rw [hh]
        exact List.mem_append_left _ hmem
    rw [houtputs, told_append, hnew, hquiet, List.map_nil, List.append_nil, ht, reported, reported,
      if_pos hmem, if_pos hmem', hopened]
  · have hmem' : .finished ∉ h' c := by
      rcases hh with hh | ⟨x, hx, hh⟩
      · rwa [hh]
      · rw [hh]
        simp [hmem, hx.symm]
    have hafter := hi'.handed c
    rw [houtputs, handed_append] at hafter
    rw [reported, if_neg hmem, List.append_nil, ← hi.handed c] at ht
    rw [houtputs, told_append, hnew, ht, reported, if_neg hmem', List.append_nil, ← hafter,
      List.map_append]

lemma logic_forwardClient (millis : Int64) (login : UInt16) :
    (forwardClient id s m P millis login).1.logic = s.logic := by
  unfold forwardClient clientRegisterMsg clientRoomMsg clientOtherMsg
  split_ifs
  · rfl
  · rfl
  · rfl
  · rfl
  · cases P.pingReq m.payload <;> rfl
  · rfl
  · rfl
  · rfl

lemma logic_onForward (hpart : part.id ≠ idLoginAck) : (onForward id P s strv part).1.logic = s.logic := by
  unfold onForward clientMatchAck clientMoveAck clientMoveBrd
  rw [if_neg hpart]
  split_ifs
  · cases P.matchAck strv with
    | none => rfl
    | some ack => cases hs : ack.success <;> simp [hs]
  · cases P.moveAck strv with
    | none => rfl
    | some ack => cases hs : ack.success <;> cases ho : ack.isOver <;> simp [hs, ho]
  · cases P.moveBrd strv with
    | none => rfl
    | some brd => cases ho : brd.isOver <;> simp [ho]
  · rfl

lemma logic_clientLoginAck (logic : UInt16) : (clientLoginAck id P s strv logic).1.logic = s.logic ∨
    (Happening.answer logic (P.loginAck strv)).granted.isSome := by
  unfold clientLoginAck
  cases P.loginAck strv with
  | none => exact .inl rfl
  | some ack =>
    cases hs : ack.success with
    | false => exact .inl (by simp [hs])
    | true => exact .inr (by simp [Happening.granted, hs])

structure Tells (id : UInt16) (w : World) (h : UInt32 → History) : Prop where
  inv : Inv id w h
  said : ∀ c, told c w.proxy.outputs =
    (due id c (h c).opened).map .write ++ reported c (h c)
  idle : ∀ c s, w.proxy.sockets.get c = some s → (h c).granted = none → s.logic = 0

lemma Tells.initial (id : UInt16) : Tells id { proxy := { id := id } } fun _ => [] :=
  ⟨Inv.initial id, fun _ => rfl, fun _ _ hs => by cases hs⟩

lemma Tells.finish (ht : Tells id w h) (hs : w.proxy.sockets.get d = some s) (c : UInt32) :
    told c (w.proxy.finish d s).outputs =
      (due id c (Function.update h d (h d ++ [.finished]) c).opened).map .write ++
        reported c (Function.update h d (h d ++ [.finished]) c) := by
  obtain ⟨-, hopen, hf⟩ := ht.inv.opened d s hs
  have htold := ht.said c
  rw [Proxy.finish, told_append, htold]
  by_cases hc : c = d
  · subst hc
    have hopened : History.opened (h c ++ [.finished]) = h c := by
      rw [opened_append_of_notMem hopen]
      exact List.append_nil _
    have hmem : Happening.finished ∈ h c ++ [.finished] := List.mem_append_right _ List.mem_cons_self
    rw [Function.update_self, hopened, opened_of_notMem hopen, reported, if_neg hopen, List.append_nil,
      reported, if_pos hmem, hopened]
    congr 1
    cases hg : (h c).granted with
    | none => simp [ht.idle c s hs hg, told]
    | some g =>
      have huser : s.userid = g.2 := by
        rw [hf.user, hg]
        rfl
      rw [(hf.logic g hg).1, huser]
      split_ifs with hzero
      · simp [told, hzero]
      · simp [told, Output.told, hf.own, hzero]
  · rw [Function.update_of_ne hc]
    have hquiet : told c (if s.logic = 0 then [] else [.offline s.logic s.socket s.userid]) = [] := by
      split_ifs
      · rfl
      · simp [told, Output.told, hf.own, Ne.symm hc]
    rw [hquiet, List.append_nil]

lemma Tells.idle_put (ht : Tells id w h) (s' : SocketData) (hd : (h d).granted = none → s'.logic = 0)
    (hs : (w.proxy.sockets.set d s').get c = some s) (hg : (h c).granted = none) : s.logic = 0 := by
  rw [Table.get_set] at hs
  split_ifs at hs with hc
  · subst hc
    obtain rfl := Option.some.inj hs
    exact hd hg
  · exact ht.idle c s hs hg

lemma Tells.idle_brd (ht : Tells id w h) {session : UInt64} {part : Option ClientPart}
    (hpart : ∀ x ∈ part, ∀ s, w.proxy.sockets.get x.socket = some s → s.logic = 0 →
      (onForward w.proxy.id P s strv x).1.logic = 0 ∨ (h' x.socket).granted ≠ none)
    (hh : ∀ c, (h' c).granted = none → (h c).granted = none)
    (hs : (w.proxy.clientForwardBrd P session part strv).sockets.get c = some s)
    (hg : (h' c).granted = none) : s.logic = 0 := by
  cases part with
  | none => exact ht.idle c s hs (hh c hg)
  | some x =>
    cases hx : w.proxy.sockets.get x.socket with
    | none =>
      rw [clientForwardBrd_gone hx] at hs
      exact ht.idle c s hs (hh c hg)
    | some t =>
      by_cases huser : t.userid = x.userid
      · rw [clientForwardBrd_own hx huser, Table.get_set] at hs
        split_ifs at hs with hc
        · subst hc
          obtain rfl := Option.some.inj hs
          have hidle := ht.idle _ t hx (hh _ hg)
          exact (hpart x rfl t hx hidle).resolve_right (not_not.mpr hg)
        · exact ht.idle c s hs (hh c hg)
      · rw [clientForwardBrd_stranger hx huser] at hs
        exact ht.idle c s hs (hh c hg)

lemma Tells.idle_step (ht : Tells id w h) (hw : World.step P w a = some w')
    (hs : w'.proxy.sockets.get c = some s) (hg : (record P w h a c).granted = none) : s.logic = 0 := by
  have hback : ∀ c, (record P w h a c).granted = none → (h c).granted = none := by
    intro c hnone
    by_contra hsome
    obtain ⟨g, hg⟩ := Option.ne_none_iff_exists'.mp hsome
    have hlater := granted_record (P := P) (w := w) (Option.mem_def.mpr hg) a
    rw [hnone] at hlater
    cases hlater
  cases a with
  | accept socket now =>
    rw [World.step] at hw
    split_ifs at hw
    obtain rfl := Option.some.inj hw
    exact ht.idle_put _ (fun _ => rfl) hs hg
  | receive socket m now millis login =>
    obtain ⟨t, hget, rfl⟩ := Option.map_eq_some_iff.mp hw
    refine ht.idle_put _ (fun hnone => ?_) hs (hback c hg)
    rw [logic_forwardClient]
    exact ht.idle socket t hget hnone
  | control socket now =>
    obtain ⟨t, hget, rfl⟩ := Option.map_eq_some_iff.mp hw
    exact ht.idle_put { t with lastRecv := now } (fun hnone => ht.idle socket t hget hnone) hs hg
  | loginAck socket session logic strv =>
    rw [World.step] at hw
    split_ifs at hw
    obtain rfl := Option.some.inj hw
    refine ht.idle_brd (fun x hx t _ hzero => ?_) hback hs hg
    obtain rfl := Option.some.inj hx
    refine (logic_clientLoginAck logic).imp (fun hkept => hkept.trans hzero) fun hsome hnone => ?_
    rw [record, Function.update_self, granted_append] at hnone
    simp [Option.or_eq_none_iff.mp hnone] at hsome
  | forwardBrd session part strv hother =>
    obtain rfl := Option.some.inj hw
    refine ht.idle_brd (fun x hx t _ hzero => .inl ?_) hback hs hg
    rw [logic_onForward (hother x hx), hzero]
  | kick sender session strv =>
    obtain rfl := Option.some.inj hw
    unfold kickClient at hs
    cases hreq : P.kickClientReq strv <;> rw [hreq] at hs <;> exact ht.idle c s hs hg
  | check socket now =>
    obtain ⟨t, -, rfl⟩ := Option.map_eq_some_iff.mp hw
    unfold socketCheck at hs
    split_ifs at hs <;> exact ht.idle c s hs hg
  | finish socket =>
    obtain ⟨t, -, rfl⟩ := Option.map_eq_some_iff.mp hw
    have hget : (w.proxy.sockets.remove socket).get c = some s := hs
    rw [Table.get_remove] at hget
    split_ifs at hget
    exact ht.idle c s hget (hback c hg)

lemma Tells.step (ht : Tells id w h) (hw : World.step P w a = some w') :
    Tells id w' (record P w h a) := by
  have hinv := ht.inv.step hw
  refine ⟨hinv, fun c => ?_, fun c s hs hg => ht.idle_step hw hs hg⟩
  by_cases hfinish : ∃ d, a = .finish d
  · obtain ⟨d, rfl⟩ := hfinish
    obtain ⟨s, hs, rfl⟩ := Option.map_eq_some_iff.mp hw
    exact ht.finish hs c
  · have ha : ∀ d, a ≠ .finish d := fun d hd => hfinish ⟨d, hd⟩
    obtain ⟨new, houtputs, hquiet⟩ := step_outputs hw ha
    exact told_step ht.inv hinv (record_cases w h (ha c)) houtputs (told_eq_handed hquiet) (ht.said c)

end Told

/-- What the proxy says about a connection, and what it knows of it, is what it would say and know if
nothing but what concerns this connection had ever happened. -/
theorem served_alone {as : List Action} {p : World × (UInt32 → History)}
    (hrun : (histories P id).run (histories P id).initial as = some p) (c : UInt32) (u : Int32)
    (hu : ∀ g ∈ (p.2 c).granted, g.2 = u) :
    ∃ w, (World.machine P id).run (World.machine P id).initial (as.filter (concerns P c u)) = some w ∧
      w.proxy.sockets.get c = p.1.proxy.sockets.get c ∧
      about c w.proxy.outputs = about c p.1.proxy.outputs := by
  have hback : ∀ p a q, (histories P id).step p a = some q → (∀ g ∈ (q.2 c).granted, g.2 = u) →
      ∀ g ∈ (p.2 c).granted, g.2 = u := by
    intro p a q hstep hq g hg
    refine hq g ?_
    rw [(Machine.step_withHistory.mp hstep).2]
    exact granted_record hg a
  have halways := Machine.always_of_last hback hrun hu
  have hinitial : Shows id c (histories P id).initial (World.machine P id).initial :=
    ⟨Inv.initial id, ⟨rfl, rfl, rfl⟩, Iff.rfl, Iff.rfl⟩
  obtain ⟨w, hw, hshows⟩ := Machine.run_filter (N := World.machine P id) (R := Shows id c)
    (fun p a q w hs _ ha hq => hs.take ha hq) (fun p a q w hs hQ ha hq => hs.skip hQ ha hq)
    hinitial halways hrun
  exact ⟨w, hw, hshows.same.data, hshows.same.outputs⟩

def twoClients : List Action :=
  [.accept 17 0, .accept 18 0, loginReq, .receive 18 ⟨idLoginReq, 1, []⟩ 0 0 5, matchReq 2,
    .loginAck 18 1 4 [0], .loginAck 17 1 9 [0], .forwardBrd 0 (some ⟨12300, 9, 17, 5⟩) [1] (by simp; decide),
    .forwardBrd 0 (some ⟨12300, 9, 17, 7⟩) [2] (by simp; decide), .finish 18]

theorem served_alone_two : (twoClients.filter (concerns parsers 17 7)).length = 5 ∧
    ∃ w, (World.machine parsers 2).run (World.machine parsers 2).initial
        (twoClients.filter (concerns parsers 17 7)) = some w ∧ (about 17 w.proxy.outputs).length = 4 := by
  refine ⟨rfl, ?_⟩
  obtain ⟨p, hrun, hgranted, hlength⟩ : ∃ p,
      (histories parsers 2).run (histories parsers 2).initial twoClients = some p ∧
      (p.2 17).granted = some (9, 7) ∧ (about 17 p.1.proxy.outputs).length = 4 :=
    ⟨_, rfl, rfl, rfl⟩
  obtain ⟨w, hw, -, hsame⟩ := served_alone hrun 17 7 (by simp [hgranted])
  exact ⟨w, hw, hsame ▸ hlength⟩

/-- A logic service is told of its client the messages that are due, and at last, once, that the
connection has ended. -/
theorem logic_told {p : World × (UInt32 → History)} (h : (histories P id).Reachable p) (c : UInt32) :
    told c p.1.proxy.outputs =
      (due id c (p.2 c).opened).map .write ++ reported c (p.2 c) := by
  have hi : Tells id p.1 p.2 := by
    refine Machine.reachable_invariant (I := fun p => Tells id p.1 p.2) (Tells.initial id) ?_ h
    intro p a q hp hq
    obtain ⟨hstep, hrecord⟩ := Machine.step_withHistory.mp hq
    rw [hrecord]
    exact hp.step hstep
  exact hi.said c

theorem logic_told_two : ∃ p,
    (histories parsers 2).run (histories parsers 2).initial (twoClients ++ [.finish 17]) = some p ∧
      told 17 p.1.proxy.outputs =
        [.write ⟨2, 9, 2, ⟨3, 0, 17, 7⟩, []⟩, .offline 9 17 7] := by
  obtain ⟨p, hrun, hdue⟩ : ∃ p,
      (histories parsers 2).run (histories parsers 2).initial (twoClients ++ [.finish 17]) = some p ∧
      (due 2 17 (p.2 17).opened).map .write ++ reported 17 (p.2 17) =
        [.write ⟨2, 9, 2, ⟨3, 0, 17, 7⟩, []⟩, .offline 9 17 7] := ⟨_, rfl, by decide⟩
  exact ⟨p, hrun, (logic_told ⟨_, hrun⟩ 17).trans hdue⟩

end Simple.Gobang.Proxy
