import Simple.Gobang.Proxy

/-! Which messages of a client the proxy hands over, and in which order. -/

namespace Simple.Gobang.Proxy

open Simple.Lib

/-- What happens to one connection: the client's messages, the answers of the login service, and
the end of `socket_start`. -/
inductive Happening
  | message (m : ClientMessage)
  | answer (logic : UInt16) (ack : Option LoginAck)
  | finished
deriving DecidableEq

abbrev History := List Happening

variable (P : Parsers)

def record (_ : World) (h : UInt32 → History) : Action → UInt32 → History
  | .receive socket m _ _ _ => Function.update h socket (h socket ++ [.message m])
  | .loginAck socket _ logic strv =>
    Function.update h socket (h socket ++ [.answer logic (P.loginAck strv)])
  | .finish socket => Function.update h socket (h socket ++ [.finished])
  | _ => h

def histories (id : UInt16) : Machine (World × (UInt32 → History)) Action :=
  (World.machine P id).withHistory (fun _ => []) (record P)

namespace Happening

def asks : Happening → Bool
  | message m => m.id = idLoginReq
  | _ => false

def granted : Happening → Option (UInt16 × Int32)
  | answer logic (some ack) => if ack.success then some (logic, ack.userid) else none
  | _ => none

end Happening

def other (id : UInt16) : Bool := id ∉ [idLoginReq, idEnterRoomReq, idMoveReq]

/-- The message, if it is to be handed over: it comes behind a login request, is no room message, and
a ping only if there has been a successful answer. -/
def Happening.owed (asked granted : Bool) : Happening → List ClientMessage
  | message m => if asked ∧ other m.id ∧ (m.id = idPingReq → granted) then [m] else []
  | _ => []

namespace History

def owed : Bool → Bool → History → List ClientMessage
  | _, _, [] => []
  | asked, granted, x :: h =>
    x.owed asked granted ++ owed (asked || x.asks) (granted || x.granted.isSome) h

def granted (h : History) : Option (UInt16 × Int32) := h.findSome? Happening.granted

def asks (h : History) : Bool := h.any Happening.asks

def opened (h : History) : History := h.takeWhile (· ≠ .finished)

end History

def due (id : UInt16) (socket : UInt32) (h : History) : List Forwarded :=
  match h.granted with
  | none => []
  | some (logic, userid) =>
    (h.owed false false).map fun m => ⟨id, logic, m.session, ⟨m.id, 0, socket, userid⟩, m.payload⟩

def Output.handed (socket : UInt32) : Output → Option Forwarded
  | .write msg => if msg.client.socket = socket ∧ other msg.client.id then some msg else none
  | _ => none

/-- What has been handed to `gate_connector::write` of the client's messages. -/
def handed (socket : UInt32) (outputs : List Output) : List Forwarded :=
  outputs.filterMap (Output.handed socket)

variable {P}

section Histories

variable {h : History} {x : Happening} {id : UInt16} {socket : UInt32}

lemma granted_append : History.granted (h ++ [x]) = (History.granted h).or x.granted := by
  simp only [History.granted, List.findSome?_append]
  cases hx : x.granted <;> simp [hx]

lemma asks_append : History.asks (h ++ [x]) = (History.asks h || x.asks) := by
  simp [History.asks]

lemma owed_append (h : History) (x : Happening) (asked granted : Bool) :
    History.owed asked granted (h ++ [x]) = History.owed asked granted h ++
      x.owed (asked || History.asks h) (granted || (History.granted h).isSome) := by
  induction h generalizing asked granted with
  | nil => simp [History.owed, History.asks, History.granted]
  | cons y h ih =>
    have hgranted : (granted || y.granted.isSome || (History.granted h).isSome) =
        (granted || (History.granted (y :: h)).isSome) := by
      cases hy : y.granted <;> simp [History.granted, hy]
    rw [List.cons_append, History.owed, ih, hgranted, History.owed, List.append_assoc]
    simp [History.asks, Bool.or_assoc]

end Histories

structure Follows (id : UInt16) (socket : UInt32) (h : History) (s : SocketData)
    (outputs : List Output) : Prop where
  own : s.socket = socket
  waits : s.waitLogin = (h.asks && h.granted.isNone)
  user : s.userid = h.granted.elim 0 Prod.snd
  logic : ∀ g ∈ h.granted, s.logic = g.1 ∧ 0 < g.2 ∧ h.asks = true
  cache : s.cache = if h.granted = none then h.owed false false else []
  sent : handed socket outputs = due id socket h

structure Alike (s s' : SocketData) : Prop where
  own : s'.socket = s.socket
  user : s'.userid = s.userid
  logic : s'.logic = s.logic
  waits : s'.waitLogin = s.waitLogin
  cache : s'.cache = s.cache

lemma Alike.refl (s : SocketData) : Alike s s := ⟨rfl, rfl, rfl, rfl, rfl⟩

section Follows

variable {h : History} {x : Happening} {id : UInt16} {socket : UInt32} {s s' : SocketData}
  {m : ClientMessage} {outputs new : List Output}

lemma handed_append : handed socket (outputs ++ new) = handed socket outputs ++ handed socket new :=
  List.filterMap_append

lemma handed_sendToService (dest : UInt16) :
    handed socket [sendToService id s m dest] = if s.socket = socket ∧ other m.id then
      [⟨id, dest, m.session, ⟨m.id, 0, s.socket, s.userid⟩, m.payload⟩] else [] := by
  simp only [handed, sendToService, List.filterMap_cons, List.filterMap_nil, Output.handed]
  split_ifs <;> rfl

lemma Follows.initial (now : Int) (hempty : handed socket outputs = []) :
    Follows id socket [] { socket := socket, lastRecv := now } outputs where
  own := rfl
  waits := rfl
  user := rfl
  logic := by simp [History.granted]
  cache := rfl
  sent := hempty

lemma Follows.phase (hf : Follows id socket h s outputs) :
    (h.granted = none ∧ h.asks = false ∧ s.waitLogin = false ∧ s.userid = 0) ∨
      (h.granted = none ∧ h.asks = true ∧ s.waitLogin = true ∧ s.userid = 0) ∨
      h.granted = some (s.logic, s.userid) ∧ h.asks = true ∧ s.waitLogin = false ∧ 0 < s.userid := by
  have hwaits := hf.waits
  have huser := hf.user
  cases hg : h.granted with
  | none =>
    rw [hg] at hwaits huser
    cases ha : h.asks with
    | false => exact .inl ⟨rfl, rfl, by simpa [ha] using hwaits, huser⟩
    | true => exact .inr (.inl ⟨rfl, rfl, by simpa [ha] using hwaits, huser⟩)
  | some g =>
    obtain ⟨hlogic, hpos, hasks⟩ := hf.logic g hg
    rw [hg] at hwaits huser
    refine .inr (.inr ⟨?_, hasks, by simpa using hwaits, ?_⟩)
    · rw [hlogic, huser]
      rfl
    · rw [huser]
      exact hpos

lemma Follows.alike (hf : Follows id socket h s outputs) (hs : Alike s s')
    (hnew : handed socket new = []) : Follows id socket h s' (outputs ++ new) := by
  refine ⟨hs.own.trans hf.own, hs.waits.trans hf.waits, hs.user.trans hf.user, ?_,
    hs.cache.trans hf.cache, ?_⟩
  · rw [hs.logic]
    exact hf.logic
  · rw [handed_append, hnew, List.append_nil]
    exact hf.sent

lemma Follows.extend (hf : Follows id socket h s outputs)
    (hgranted : h.granted.or x.granted = h.granted) (hasks : x.asks = true → h.asks = true)
    (howed : x.owed h.asks h.granted.isSome = []) : Follows id socket (h ++ [x]) s outputs := by
  have hg : History.granted (h ++ [x]) = h.granted := granted_append.trans hgranted
  have ha : History.asks (h ++ [x]) = h.asks := by
    rw [asks_append]
    cases hx : x.asks with
    | false => exact Bool.or_false _
    | true => rw [hasks hx, Bool.or_true]
  have ho : History.owed false false (h ++ [x]) = h.owed false false := by
    rw [owed_append, Bool.false_or, Bool.false_or, howed, List.append_nil]
  refine ⟨hf.own, ?_, ?_, ?_, ?_, ?_⟩
  · rw [hf.waits, ha, hg]
  · rw [hf.user, hg]
  · rw [hg, ha]
    exact hf.logic
  · rw [hf.cache, hg, ho]
  · rw [hf.sent, due, due, hg, ho]

lemma owed_message {asked granted : Bool} : (Happening.message m).owed asked granted =
    if asked ∧ other m.id ∧ (m.id = idPingReq → granted) then [m] else [] := rfl

lemma Follows.quiet_message (hf : Follows id socket h s outputs)
    (hasks : m.id = idLoginReq → h.asks = true)
    (howed : ¬(h.asks = true ∧ other m.id ∧ (m.id = idPingReq → h.granted.isSome)))
    (hnew : handed socket new = []) :
    Follows id socket (h ++ [.message m]) s (outputs ++ new) :=
  have hx (hx : (Happening.message m).asks = true) : h.asks = true := hasks (of_decide_eq_true hx)
  (hf.extend Option.or_none hx (if_neg howed)).alike (.refl s) hnew

lemma Follows.register (hf : Follows id socket h s outputs) (hm : m.id = idLoginReq) (login : UInt16) :
    Follows id socket (h ++ [.message m]) (clientRegisterMsg id s m login).1
      (outputs ++ (clientRegisterMsg id s m login).2) := by
  have hother : ¬other m.id := by simp [other, hm]
  unfold clientRegisterMsg
  obtain ⟨hg, ha, hwait, huser⟩ | ⟨-, ha, hwait, -⟩ | ⟨-, ha, -, hpos⟩ := hf.phase
  · rw [if_neg (by simp [hwait, huser])]
    have hg' : History.granted (h ++ [.message m]) = none := by
      rw [granted_append, hg]
      rfl
    have ha' : History.asks (h ++ [.message m]) = true := by
      rw [asks_append, ha]
      simp [Happening.asks, hm]
    have hnew : handed socket [sendToService id { s with waitLogin := true }
        { m with id := idLoginReq } login] = [] := by
      rw [handed_sendToService, if_neg (by simp [other])]
    have howed : History.owed false false (h ++ [.message m]) = h.owed false false := by
      rw [owed_append, owed_message, if_neg (by simp [hother]), List.append_nil]
    refine ⟨hf.own, ?_, ?_, ?_, ?_, ?_⟩
    · rw [ha', hg']
      rfl
    · rw [hg']
      exact huser
    · rw [hg']
      simp
    · rw [if_pos hg', howed]
      exact hf.cache.trans (if_pos hg)
    · rw [handed_append, hnew, List.append_nil, hf.sent, due, due, hg, hg']
  · rw [if_pos (.inr hwait)]
    exact hf.quiet_message (fun _ => ha) (by simp [hother]) rfl
  · rw [if_pos (.inl hpos)]
    exact hf.quiet_message (fun _ => ha) (by simp [hother]) rfl

lemma Follows.room (hf : Follows id socket h s outputs)
    (hm : m.id = idEnterRoomReq ∨ m.id = idMoveReq) :
    Follows id socket (h ++ [.message m]) (clientRoomMsg id s m).1
      (outputs ++ (clientRoomMsg id s m).2) := by
  have hother : ¬other m.id := by
    rcases hm with hm | hm <;> simp [other, hm]
  have hlogin : m.id = idLoginReq → h.asks = true := by
    rcases hm with hm | hm <;> simp [hm, idEnterRoomReq, idMoveReq, idLoginReq]
  unfold clientRoomMsg
  split_ifs
  · exact hf.quiet_message hlogin (by simp [hother]) rfl
  · refine hf.quiet_message hlogin (by simp [hother]) ?_
    rw [handed_sendToService, if_neg (by simp [hother])]

lemma Follows.cached (hf : Follows id socket h s outputs) (hg : h.granted = none)
    (howed : h.asks = true ∧ other m.id ∧ (m.id = idPingReq → h.granted.isSome)) :
    Follows id socket (h ++ [.message m]) { s with cache := s.cache ++ [m] } (outputs ++ []) := by
  have hg' : History.granted (h ++ [.message m]) = none := granted_append.trans (by rw [hg]; rfl)
  have ha' : History.asks (h ++ [.message m]) = h.asks := by rw [asks_append, howed.1, Bool.true_or]
  refine ⟨hf.own, ?_, ?_, ?_, ?_, ?_⟩
  · rw [ha', hg', ← hg]
    exact hf.waits
  · rw [hg', ← hg]
    exact hf.user
  · rw [hg']
    simp
  · have hcache := hf.cache
    rw [if_pos hg] at hcache
    rw [if_pos hg', owed_append, owed_message, if_pos (by simpa using howed), ← hcache]
  · rw [List.append_nil, hf.sent, due, due, hg, hg']

lemma Follows.direct (hf : Follows id socket h s outputs)
    (hg : h.granted = some (s.logic, s.userid))
    (howed : h.asks = true ∧ other m.id ∧ (m.id = idPingReq → h.granted.isSome)) :
    Follows id socket (h ++ [.message m]) s (outputs ++ [sendToService id s m s.logic]) := by
  have hg' : History.granted (h ++ [.message m]) = h.granted := granted_append.trans Option.or_none
  have ha' : History.asks (h ++ [.message m]) = h.asks := by rw [asks_append, howed.1, Bool.true_or]
  refine ⟨hf.own, ?_, ?_, ?_, ?_, ?_⟩
  · rw [ha', hg']
    exact hf.waits
  · rw [hg']
    exact hf.user
  · rw [ha', hg']
    exact hf.logic
  · rw [hf.cache, hg', hg, if_neg (by simp), if_neg (by simp)]
  · have hsent := hf.sent
    rw [due, hg] at hsent
    rw [handed_append, hsent, handed_sendToService, if_pos ⟨hf.own, howed.2.1⟩, due, hg', hg,
      owed_append, owed_message, if_pos (by simpa using howed), hf.own]
    simp

lemma Follows.otherMsg (hf : Follows id socket h s outputs) (hother : other m.id) (P : Parsers)
    (millis : Int64) :
    Follows id socket (h ++ [.message m]) (clientOtherMsg id s m P millis).1
      (outputs ++ (clientOtherMsg id s m P millis).2) := by
  have hquiet (howed : ¬(h.asks = true ∧ (m.id = idPingReq → h.granted.isSome)))
      (new : List Output) (hnew : handed socket new = []) :
      Follows id socket (h ++ [.message m]) s (outputs ++ new) :=
    hf.quiet_message (fun hm => by simp [other, hm] at hother) (by tauto) hnew
  unfold clientOtherMsg
  split_ifs with hping hwait huser
  · have hg : h.granted = none := by
      obtain ⟨hg, -⟩ | ⟨hg, -⟩ | ⟨-, -, hwait, hpos⟩ := hf.phase
      · exact hg
      · exact hg
      · rcases hping.2 with hw | hu
        · rw [hwait] at hw
          cases hw
        · exact absurd hpos (Int32.not_lt.mpr hu)
    have howed : ¬(h.asks = true ∧ (m.id = idPingReq → h.granted.isSome)) := by simp [hg, hping.1]
    cases P.pingReq m.payload with
    | none => exact hquiet howed [] rfl
    | some t1 => exact hquiet howed [.pingAck s.socket m.session t1 millis] rfl
  · obtain ⟨-, -, hfalse, -⟩ | ⟨hg, ha, -, -⟩ | ⟨-, -, hfalse, -⟩ := hf.phase
    · rw [hwait] at hfalse
      cases hfalse
    · exact hf.cached hg ⟨ha, hother, fun hm => absurd ⟨hm, .inl hwait⟩ hping⟩
    · rw [hwait] at hfalse
      cases hfalse
  · obtain ⟨-, ha, -, -⟩ | ⟨-, -, htrue, -⟩ | ⟨-, -, -, hpos⟩ := hf.phase
    · exact hquiet (by simp [ha]) [] rfl
    · exact absurd htrue hwait
    · exact absurd hpos (Int32.not_lt.mpr huser)
  · obtain ⟨-, -, -, hzero⟩ | ⟨-, -, htrue, -⟩ | ⟨hg, ha, -, -⟩ := hf.phase
    · exact absurd (hzero ▸ Int32.le_refl 0) huser
    · exact absurd htrue hwait
    · exact hf.direct hg ⟨ha, hother, fun _ => by rw [hg]; rfl⟩

lemma Follows.message (hf : Follows id socket h s outputs) (P : Parsers) (millis : Int64)
    (login : UInt16) :
    Follows id socket (h ++ [.message m]) (forwardClient id s m P millis login).1
      (outputs ++ (forwardClient id s m P millis login).2) := by
  unfold forwardClient
  split_ifs with hlogin hroom
  · exact hf.register hlogin login
  · exact hf.room hroom
  · exact hf.otherMsg (by simp [other, hlogin, not_or.mp hroom]) P millis

lemma other_of_mem_owed {asked granted : Bool} (h : History) :
    m ∈ h.owed asked granted → other m.id := by
  induction h generalizing asked granted with
  | nil => simp [History.owed]
  | cons x h ih =>
    rw [History.owed, List.mem_append]
    rintro (hx | hx)
    · cases x with
      | message m' =>
        rw [owed_message] at hx
        split_ifs at hx with howed
        · obtain rfl := List.mem_singleton.mp hx
          exact howed.2.1
        · cases hx
      | answer logic ack => cases hx
      | finished => cases hx
    · exact ih hx

lemma handed_cache {l : List ClientMessage} (dest : UInt16) (hs : s.socket = socket)
    (hl : ∀ m ∈ l, other m.id) : handed socket (l.map fun m => sendToService id s m dest) =
      l.map fun m => ⟨id, dest, m.session, ⟨m.id, 0, socket, s.userid⟩, m.payload⟩ := by
  induction l with
  | nil => rfl
  | cons m l ih =>
    have hcons : ((m :: l).map fun m => sendToService id s m dest) =
        [sendToService id s m dest] ++ l.map fun m => sendToService id s m dest := rfl
    rw [hcons, handed_append, ih (fun m' hm' => hl m' (List.mem_cons_of_mem m hm')),
      handed_sendToService, if_pos ⟨hs, hl m List.mem_cons_self⟩, hs]
    rfl

lemma Follows.granted (hf : Follows id socket h s outputs) {P : Parsers} {strv : List UInt8}
    (logic : UInt16) (ha : h.asks = true) (hzero : s.userid = 0)
    (hack : ∀ ack ∈ P.loginAck strv, ack.success → 0 < ack.userid) :
    Follows id socket (h ++ [.answer logic (P.loginAck strv)]) (clientLoginAck id P s strv logic).1
      (outputs ++ (clientLoginAck id P s strv logic).2) := by
  have hg : h.granted = none := by
    obtain ⟨hg, -⟩ | ⟨hg, -⟩ | ⟨-, -, -, hpos⟩ := hf.phase
    · exact hg
    · exact hg
    · rw [hzero] at hpos
      exact absurd hpos Int32.lt_irrefl
  have hfails {new : List Output} (hx : (Happening.answer logic (P.loginAck strv)).granted = none)
      (hnew : handed socket new = []) :
      Follows id socket (h ++ [.answer logic (P.loginAck strv)]) s (outputs ++ new) :=
    (hf.extend (by rw [hx, Option.or_none]) (fun hx => by cases hx) rfl).alike (.refl s) hnew
  unfold clientLoginAck
  cases hparse : P.loginAck strv with
  | none =>
    rw [hparse] at hfails
    exact hfails rfl rfl
  | some ack =>
    rw [hparse] at hfails
    cases hsuccess : ack.success with
    | false =>
      simp only [hsuccess, Bool.not_false, if_true]
      exact hfails (by simp [Happening.granted, hsuccess]) rfl
    | true =>
      have hx : (Happening.answer logic (some ack)).granted = some (logic, ack.userid) := by
        simp [Happening.granted, hsuccess]
      have hg' : History.granted (h ++ [.answer logic (some ack)]) = some (logic, ack.userid) := by
        rw [granted_append, hg, hx]
        rfl
      have ha' : History.asks (h ++ [.answer logic (some ack)]) = true := by
        rw [asks_append, ha]
        rfl
      have hcache : s.cache = h.owed false false := hf.cache.trans (if_pos hg)
      have hothers : ∀ m ∈ s.cache, other m.id := by
        rw [hcache]
        exact fun m hm => other_of_mem_owed h hm
      have hsent : handed socket outputs = [] := by
        rw [hf.sent, due, hg]
      simp only [hsuccess, Bool.not_true, Bool.false_eq_true, if_false]
      refine ⟨hf.own, ?_, ?_, ?_, ?_, ?_⟩
      · rw [ha', hg']
        rfl
      · rw [hg']
        rfl
      · intro g hmem
        rw [hg'] at hmem
        obtain rfl := Option.some.inj hmem
        exact ⟨rfl, hack ack hparse hsuccess, ha'⟩
      · rw [hg', if_neg (by simp)]
      · rw [handed_append, hsent, List.nil_append, handed_cache logic ?own hothers, due, hg', hcache,
          owed_append]
        · simp [Happening.owed]
        · exact hf.own

lemma Follows.brd (hf : Follows id socket h s outputs) (P : Parsers) (strv : List UInt8)
    {part : ClientPart} (hpart : part.id ≠ idLoginAck) :
    Follows id socket h (onForward id P s strv part).1 (outputs ++ (onForward id P s strv part).2) := by
  have hroom (room : UInt16) : Follows id socket h { s with room := room } (outputs ++ []) :=
    hf.alike ⟨rfl, rfl, rfl, rfl, rfl⟩ rfl
  have hsame : Follows id socket h s (outputs ++ []) := hf.alike (.refl s) rfl
  unfold onForward clientMatchAck clientMoveAck clientMoveBrd
  rw [if_neg hpart]
  split_ifs
  · cases P.matchAck strv with
    | none => exact hsame
    | some ack => cases hs : ack.success <;> simp only [hs] <;> first | exact hsame | exact hroom _
  · cases P.moveAck strv with
    | none => exact hsame
    | some ack =>
      cases hs : ack.success <;> cases ho : ack.isOver <;> simp only [hs, ho] <;>
        first | exact hsame | exact hroom _
  · cases P.moveBrd strv with
    | none => exact hsame
    | some brd => cases ho : brd.isOver <;> simp only [ho] <;> first | exact hsame | exact hroom _
  · exact hsame

end Follows

lemma opened_append_of_mem {h : History} (hmem : .finished ∈ h) (x : Happening) :
    History.opened (h ++ [x]) = h.opened := by
  induction h with
  | nil => cases hmem
  | cons y h ih =>
    by_cases hy : y = .finished
    · simp [History.opened, hy]
    · have htail := ih ((List.mem_cons.mp hmem).resolve_left (Ne.symm hy))
      simpa [History.opened, hy] using htail

lemma opened_append_of_notMem {h : History} (hmem : .finished ∉ h) (t : History) :
    History.opened (h ++ t) = h ++ t.opened := by
  refine List.takeWhile_append_of_pos fun y hy => ?_
  exact decide_eq_true fun heq => hmem (heq ▸ hy)

lemma opened_of_notMem {h : History} (hmem : .finished ∉ h) : h.opened = h := by
  have hnil := opened_append_of_notMem hmem []
  rwa [List.append_nil, show History.opened [] = [] from rfl, List.append_nil] at hnil

section Elsewhere

variable {id : UInt16} {s : SocketData} {d : UInt32} {m : ClientMessage} {P : Parsers}

lemma handed_sendToService_ne (hd : d ≠ s.socket) (dest : UInt16) :
    handed d [sendToService id s m dest] = [] := by
  rw [handed_sendToService, if_neg fun h => hd h.1.symm]

lemma handed_forwardClient_ne (hd : d ≠ s.socket) (millis : Int64) (login : UInt16) :
    handed d (forwardClient id s m P millis login).2 = [] := by
  unfold forwardClient clientRegisterMsg clientRoomMsg clientOtherMsg
  split_ifs
  · rfl
  · exact handed_sendToService_ne (s := { s with waitLogin := true }) hd login
  · rfl
  · exact handed_sendToService_ne hd s.room
  · cases P.pingReq m.payload <;> rfl
  · rfl
  · rfl
  · exact handed_sendToService_ne hd s.logic

lemma handed_onForward_ne (hd : d ≠ s.socket) (strv : List UInt8) (part : ClientPart) :
    handed d (onForward id P s strv part).2 = [] := by
  unfold onForward clientLoginAck
  split_ifs
  · cases P.loginAck strv with
    | none => rfl
    | some ack =>
      cases hs : ack.success with
      | false => simp [hs, handed]
      | true =>
        simp only [hs, Bool.not_true, Bool.false_eq_true, if_false, handed, List.filterMap_map]
        refine List.filterMap_eq_nil_iff.mpr fun m _ => ?_
        simp [Output.handed, sendToService, Ne.symm hd]
  · rfl
  · rfl
  · rfl
  · rfl

end Elsewhere

structure Inv (id : UInt16) (w : World) (h : UInt32 → History) : Prop where
  own : w.proxy.id = id
  asked : ∀ c ∈ w.asked, (h c).asks = true
  opened : ∀ c s, w.proxy.sockets.get c = some s →
    c ∈ w.used ∧ .finished ∉ h c ∧ Follows id c (h c) s w.proxy.outputs
  closed : ∀ c, w.proxy.sockets.get c = none →
    handed c w.proxy.outputs = due id c (h c).opened ∧ (c ∈ w.used → .finished ∈ h c) ∧
      (c ∉ w.used → h c = [])

structure Elsewhere (c : UInt32) (w w' : World) (h h' : UInt32 → History) (new : List Output) :
    Prop where
  own : w'.proxy.id = w.proxy.id
  outputs : w'.proxy.outputs = w.proxy.outputs ++ new
  sockets : ∀ d ≠ c, w'.proxy.sockets.get d = w.proxy.sockets.get d
  used : ∀ d ≠ c, (d ∈ w'.used ↔ d ∈ w.used)
  asked : ∀ d ≠ c, d ∈ w'.asked → d ∈ w.asked
  history : ∀ d ≠ c, h' d = h d
  quiet : ∀ d ≠ c, handed d new = []

lemma Elsewhere.silent {c : UInt32} {w : World} {h h' : UInt32 → History}
    (hh : ∀ d ≠ c, h' d = h d) : Elsewhere c w w h h' [] :=
  ⟨rfl, (List.append_nil _).symm, fun _ _ => rfl, fun _ _ => Iff.rfl, fun _ _ hd => hd, hh,
    fun _ _ => rfl⟩

lemma Inv.update {id : UInt16} {c : UInt32} {w w' : World} {h h' : UInt32 → History}
    {new : List Output} (hi : Inv id w h) (he : Elsewhere c w w' h h' new)
    (hasked : c ∈ w'.asked → (h' c).asks = true)
    (hopened : ∀ s, w'.proxy.sockets.get c = some s →
      c ∈ w'.used ∧ .finished ∉ h' c ∧ Follows id c (h' c) s w'.proxy.outputs)
    (hclosed : w'.proxy.sockets.get c = none →
      handed c w'.proxy.outputs = due id c (h' c).opened ∧ (c ∈ w'.used → .finished ∈ h' c) ∧
        (c ∉ w'.used → h' c = [])) : Inv id w' h' := by
  refine ⟨he.own.trans hi.own, ?_, ?_, ?_⟩
  · intro d hd
    by_cases hdc : d = c
    · subst hdc
      exact hasked hd
    · rw [he.history d hdc]
      exact hi.asked d (he.asked d hdc hd)
  · intro d s hs
    by_cases hdc : d = c
    · subst hdc
      exact hopened s hs
    · rw [he.sockets d hdc] at hs
      obtain ⟨hused, hopen, hf⟩ := hi.opened d s hs
      rw [he.history d hdc, he.used d hdc, he.outputs]
      exact ⟨hused, hopen, hf.alike (.refl s) (he.quiet d hdc)⟩
  · intro d hs
    by_cases hdc : d = c
    · subst hdc
      exact hclosed hs
    · rw [he.sockets d hdc] at hs
      rw [he.history d hdc, he.used d hdc, he.outputs, handed_append, he.quiet d hdc, List.append_nil]
      exact hi.closed d hs

section Steps

variable {id : UInt16} {P : Parsers} {w : World} {h : UInt32 → History} {c : UInt32}

lemma Inv.initial (id : UInt16) : Inv id { proxy := { id := id } } fun _ => [] := by
  refine ⟨rfl, fun c hc => ?_, fun c s hs => ?_, fun c _ => ⟨rfl, fun hc => ?_, fun _ => rfl⟩⟩
  · cases hc
  · cases hs
  · cases hc

lemma Inv.accept (hi : Inv id w h) (hc : c ∉ w.used) (now : Int) :
    Inv id { w with proxy := w.proxy.accept c now, used := c :: w.used } h := by
  have hget : w.proxy.sockets.get c = none := by
    cases hs : w.proxy.sockets.get c with
    | none => rfl
    | some s => exact absurd (hi.opened c s hs).1 hc
  obtain ⟨hsent, -, hempty⟩ := hi.closed c hget
  rw [hempty hc] at hsent
  have he : Elsewhere c w { w with proxy := w.proxy.accept c now, used := c :: w.used } h h [] :=
    ⟨rfl, (List.append_nil _).symm, fun d hd => Table.get_set_ne hd, fun d hd => by simp [hd],
      fun d _ hd => hd, fun _ _ => rfl, fun _ _ => rfl⟩
  refine hi.update he (hi.asked c) (fun s hs => ?_) fun hs => ?_
  · have heq : (⟨c, 0, 0, 0, false, now, []⟩ : SocketData) = s :=
      Option.some.inj (Table.get_set_self.symm.trans hs)
    subst heq
    rw [hempty hc]
    exact ⟨List.mem_cons_self, List.not_mem_nil, Follows.initial now hsent⟩
  · exact absurd (Table.get_set_self.symm.trans hs) (Option.some_ne_none _)

section Put

variable {s s' : SocketData} {h' : UInt32 → History} {x : Happening} {new : List Output}
  {asked' : List UInt32}

lemma Inv.put (hi : Inv id w h) (hs : w.proxy.sockets.get c = some s) (hh : ∀ d ≠ c, h' d = h d)
    (hnew : ∀ d ≠ c, handed d new = []) (hasked : ∀ d ≠ c, d ∈ asked' → d ∈ w.asked)
    (hasks : c ∈ asked' → (h' c).asks = true) (hopen : .finished ∉ h' c)
    (hf : Follows id c (h' c) s' (w.proxy.outputs ++ new)) :
    Inv id ⟨⟨w.proxy.id, w.proxy.sockets.set c s', w.proxy.outputs ++ new⟩, w.used, asked'⟩ h' := by
  refine hi.update (c := c) ⟨rfl, rfl, fun d hd => Table.get_set_ne hd, fun _ _ => Iff.rfl, hasked, hh,
    hnew⟩ hasks (fun t ht => ?_) fun ht => ?_
  · obtain rfl := Option.some.inj (Table.get_set_self.symm.trans ht)
    exact ⟨(hi.opened c s hs).1, hopen, hf⟩
  · exact absurd (Table.get_set_self.symm.trans ht) (Option.some_ne_none _)

lemma Inv.keep (hi : Inv id w h) (hs : w.proxy.sockets.get c = some s)
    (hnew : ∀ d ≠ c, handed d new = []) (hf : Follows id c (h c) s' (w.proxy.outputs ++ new)) :
    Inv id ⟨⟨w.proxy.id, w.proxy.sockets.set c s', w.proxy.outputs ++ new⟩, w.used, w.asked⟩ h :=
  hi.put hs (fun _ _ => rfl) hnew (fun _ _ hd => hd) (hi.asked c) (hi.opened c s hs).2.1 hf

lemma Inv.say (hi : Inv id w h) (hnew : ∀ d, handed d new = []) :
    Inv id { w with proxy := { w.proxy with outputs := w.proxy.outputs ++ new } } h := by
  refine ⟨hi.own, hi.asked, fun c s hs => ?_, fun c hs => ?_⟩
  · obtain ⟨hused, hopen, hf⟩ := hi.opened c s hs
    exact ⟨hused, hopen, hf.alike (.refl s) (hnew c)⟩
  · rw [handed_append, hnew c, List.append_nil]
    exact hi.closed c hs

end Put

lemma Inv.receive {s : SocketData} (hi : Inv id w h) (hs : w.proxy.sockets.get c = some s)
    (m : ClientMessage) (now : Int) (millis : Int64) (login : UInt16) :
    Inv id
      { w with
        proxy := w.proxy.receive P c s m now millis login
        asked := if m.id = idLoginReq then c :: w.asked else w.asked }
      (Function.update h c (h c ++ [.message m])) := by
  obtain ⟨-, hopen, hf⟩ := hi.opened c s hs
  have htouch : Follows id c (h c) { s with lastRecv := now } (w.proxy.outputs ++ []) :=
    hf.alike ⟨rfl, rfl, rfl, rfl, rfl⟩ rfl
  rw [List.append_nil] at htouch
  have hafter := htouch.message (m := m) P millis login
  rw [← hi.own] at hafter
  refine hi.put hs (fun d hd => Function.update_of_ne hd _ _)
    (fun d hd => handed_forwardClient_ne (hf.own.symm ▸ hd) millis login) (fun d hd hmem => ?_)
    (fun hmem => ?_) ?_ ?_
  · split_ifs at hmem
    · exact (List.mem_cons.mp hmem).resolve_left hd
    · exact hmem
  · rw [Function.update_self, asks_append]
    split_ifs at hmem with hlogin
    · simp [Happening.asks, hlogin]
    · rw [hi.asked c hmem, Bool.true_or]
  · rw [Function.update_self]
    simpa using hopen
  · rw [Function.update_self, ← hi.own]
    exact hafter

lemma Inv.control {s : SocketData} (hi : Inv id w h) (hs : w.proxy.sockets.get c = some s)
    (now : Int) :
    Inv id { w with proxy := { w.proxy with
      sockets := w.proxy.sockets.set c { s with lastRecv := now } } } h := by
  have hf : Follows id c (h c) { s with lastRecv := now } (w.proxy.outputs ++ []) :=
    (hi.opened c s hs).2.2.alike ⟨rfl, rfl, rfl, rfl, rfl⟩ rfl
  have hkept := hi.keep hs (fun _ _ => rfl) hf
  rwa [List.append_nil] at hkept

lemma Inv.finish {s : SocketData} (hi : Inv id w h) (hs : w.proxy.sockets.get c = some s) :
    Inv id { w with proxy := w.proxy.finish c s } (Function.update h c (h c ++ [.finished])) := by
  obtain ⟨hused, hopen, hf⟩ := hi.opened c s hs
  have hquiet (d : UInt32) :
      handed d (if s.logic = 0 then [] else [.offline s.logic s.socket s.userid]) = [] := by
    split_ifs <;> rfl
  refine hi.update (c := c) ⟨rfl, rfl, fun d hd => ?_, fun _ _ => Iff.rfl, fun _ _ hd => hd,
    fun d hd => Function.update_of_ne hd _ _, fun d _ => hquiet d⟩ (fun hmem => ?_) (fun t ht => ?_)
    fun _ => ?_
  · exact Table.get_remove.trans (if_neg hd)
  · rw [Function.update_self, asks_append, hi.asked c hmem, Bool.true_or]
  · have hnone : (w.proxy.sockets.remove c).get c = none := Table.get_remove.trans (if_pos rfl)
    exact absurd (hnone.symm.trans ht) (Option.some_ne_none t).symm
  · rw [Function.update_self, opened_append_of_notMem hopen,
      show History.opened [.finished] = [] from rfl, List.append_nil]
    refine ⟨?_, fun _ => by simp, fun hc => absurd hused hc⟩
    exact handed_append.trans (by rw [hquiet, List.append_nil, hf.sent])

section Brd

variable {p : Proxy} {s : SocketData} {session : UInt64} {part : ClientPart} {strv : List UInt8}

lemma clientForwardBrd_gone (hs : p.sockets.get part.socket = none) :
    p.clientForwardBrd P session (some part) strv = p := by
  simp only [clientForwardBrd, hs]

lemma clientForwardBrd_stranger (hs : p.sockets.get part.socket = some s)
    (huser : s.userid ≠ part.userid) : p.clientForwardBrd P session (some part) strv = p := by
  simp only [clientForwardBrd, hs, if_pos huser]

lemma clientForwardBrd_own (hs : p.sockets.get part.socket = some s)
    (huser : s.userid = part.userid) : p.clientForwardBrd P session (some part) strv =
      ⟨p.id, p.sockets.set part.socket (onForward p.id P s strv part).1, p.outputs ++
        ((onForward p.id P s strv part).2 ++ [.toClient part.socket part.id session strv])⟩ := by
  simp only [clientForwardBrd, hs, if_neg (not_not.mpr huser), List.append_assoc]

lemma Follows.relayed {new : List Output} {outputs : List Output} {h : History}
    (hf : Follows id c h s (outputs ++ new)) (session : UInt64) (part : ClientPart)
    (strv : List UInt8) :
    Follows id c h s (outputs ++ (new ++ [.toClient part.socket part.id session strv])) := by
  rw [← List.append_assoc]
  exact hf.alike (.refl s) rfl

lemma handed_relayed_ne {d : UInt32} (hd : d ≠ s.socket) :
    handed d ((onForward id P s strv part).2 ++ [.toClient part.socket part.id session strv]) =
      [] := by
  rw [handed_append, handed_onForward_ne hd]
  rfl

end Brd

lemma Inv.forwardBrd (hi : Inv id w h) (session : UInt64) {part : Option ClientPart}
    (strv : List UInt8) (hpart : ∀ p ∈ part, p.id ≠ idLoginAck) :
    Inv id { w with proxy := w.proxy.clientForwardBrd P session part strv } h := by
  cases part with
  | none => exact hi
  | some part =>
    cases hs : w.proxy.sockets.get part.socket with
    | none =>
      rw [clientForwardBrd_gone hs]
      exact hi
    | some s =>
      by_cases huser : s.userid = part.userid
      · have hf := (hi.opened _ s hs).2.2
        have hafter := (hf.brd P strv (hpart part rfl)).relayed session part strv
        rw [← hi.own] at hafter
        rw [clientForwardBrd_own hs huser]
        exact hi.keep hs (fun d hd => handed_relayed_ne (hf.own.symm ▸ hd)) (hi.own ▸ hafter)
      · rw [clientForwardBrd_stranger hs huser]
        exact hi

lemma Inv.loginAck (hi : Inv id w h) (hc : c ∈ w.asked) (session : UInt64) (logic : UInt16)
    {strv : List UInt8} (hack : ∀ ack ∈ P.loginAck strv, ack.success → 0 < ack.userid) :
    Inv id { w with proxy :=
        w.proxy.clientForwardBrd P session (some ⟨idLoginAck, logic, c, 0⟩) strv }
      (Function.update h c (h c ++ [.answer logic (P.loginAck strv)])) := by
  have hasks := hi.asked c hc
  have hasks' : History.asks (h c ++ [.answer logic (P.loginAck strv)]) = true := by
    rw [asks_append, hasks, Bool.true_or]
  have hne : ∀ d ≠ c, Function.update h c (h c ++ [.answer logic (P.loginAck strv)]) d = h d :=
    fun d hd => Function.update_of_ne hd _ _
  cases hs : w.proxy.sockets.get c with
  | none =>
    obtain ⟨hsent, hused, hempty⟩ := hi.closed c hs
    have hmem : c ∈ w.used := by
      by_contra hnot
      rw [hempty hnot] at hasks
      cases hasks
    rw [clientForwardBrd_gone hs]
    refine hi.update (.silent hne) (fun _ => ?_) (fun s ht => ?_) fun _ => ?_
    · rw [Function.update_self]
      exact hasks'
    · exact absurd (hs.symm.trans ht) (Option.some_ne_none s).symm
    · rw [Function.update_self, opened_append_of_mem (hused hmem)]
      exact ⟨hsent, fun _ => List.mem_append_left _ (hused hmem), fun hnot => absurd hmem hnot⟩
  | some s =>
    obtain ⟨hused, hopen, hf⟩ := hi.opened c s hs
    have hopen' : Happening.finished ∉ h c ++ [.answer logic (P.loginAck strv)] := by simpa using hopen
    by_cases huser : s.userid = 0
    · have hafter := (hf.granted logic hasks huser hack).relayed session
        ⟨idLoginAck, logic, c, 0⟩ strv
      rw [← hi.own] at hafter
      rw [clientForwardBrd_own hs huser]
      refine hi.put hs hne (fun d hd => handed_relayed_ne (hf.own.symm ▸ hd)) (fun _ _ hd => hd)
        (fun _ => ?_) ?_ ?_
      · rw [Function.update_self]
        exact hasks'
      · rw [Function.update_self]
        exact hopen'
      · rw [Function.update_self, ← hi.own]
        exact hafter
    · have hgranted : ∃ g, (h c).granted = some g := by
        obtain ⟨-, -, -, hzero⟩ | ⟨-, -, -, hzero⟩ | ⟨hg, -⟩ := hf.phase
        · exact absurd hzero huser
        · exact absurd hzero huser
        · exact ⟨_, hg⟩
      obtain ⟨g, hg⟩ := hgranted
      have hsame : Follows id c (h c ++ [.answer logic (P.loginAck strv)]) s w.proxy.outputs :=
        hf.extend (by rw [hg]; rfl) (fun _ => hasks) rfl
      rw [clientForwardBrd_stranger hs huser]
      refine hi.update (.silent hne) (fun _ => ?_) (fun t ht => ?_) fun ht => ?_
      · rw [Function.update_self]
        exact hasks'
      · obtain rfl := Option.some.inj (hs.symm.trans ht)
        rw [Function.update_self]
        exact ⟨hused, hopen', hsame⟩
      · exact absurd (hs.symm.trans ht) (Option.some_ne_none s)

lemma Inv.step (hi : Inv id w h) {a : Action} {w' : World} (hw : World.step P w a = some w') :
    Inv id w' (record P w h a) := by
  cases a with
  | accept socket now =>
    rw [World.step] at hw
    split_ifs at hw with hused
    obtain rfl := Option.some.inj hw
    exact hi.accept hused now
  | receive socket m now millis login =>
    obtain ⟨s, hs, rfl⟩ := Option.map_eq_some_iff.mp hw
    exact hi.receive hs m now millis login
  | control socket now =>
    obtain ⟨s, hs, rfl⟩ := Option.map_eq_some_iff.mp hw
    exact hi.control hs now
  | loginAck socket session logic strv =>
    rw [World.step] at hw
    split_ifs at hw with hasked
    obtain rfl := Option.some.inj hw
    exact hi.loginAck hasked.1 session logic hasked.2
  | forwardBrd session part strv hother =>
    obtain rfl := Option.some.inj hw
    exact hi.forwardBrd session strv hother
  | kick sender session strv =>
    obtain rfl := Option.some.inj hw
    unfold kickClient
    cases P.kickClientReq strv with
    | none => exact hi.say fun _ => rfl
    | some req =>
      simp only [List.append_assoc]
      refine hi.say fun d => ?_
      split_ifs <;> rfl
  | check socket now =>
    obtain ⟨s, hs, rfl⟩ := Option.map_eq_some_iff.mp hw
    unfold socketCheck
    split_ifs
    · exact hi.say fun _ => rfl
    · exact hi
  | finish socket =>
    obtain ⟨s, hs, rfl⟩ := Option.map_eq_some_iff.mp hw
    exact hi.finish hs

end Steps

/-- While a connection is open its messages are handed over as they are due, and when it has ended
nothing more is. -/
theorem handed_eq_due {id : UInt16} {P : Parsers} {p : World × (UInt32 → History)}
    (h : (histories P id).Reachable p) (socket : UInt32) :
    handed socket p.1.proxy.outputs = due id socket (p.2 socket).opened := by
  have hi : Inv id p.1 p.2 := by
    refine Machine.reachable_invariant (I := fun p => Inv id p.1 p.2) (Inv.initial id) ?_ h
    intro p a q hp hq
    obtain ⟨hstep, hrecord⟩ := Machine.step_withHistory.mp hq
    rw [hrecord]
    exact hp.step hstep
  cases hs : p.1.proxy.sockets.get socket with
  | none => exact (hi.closed socket hs).1
  | some s =>
    obtain ⟨-, hopen, hf⟩ := hi.opened socket s hs
    rw [opened_of_notMem hopen]
    exact hf.sent

def parsers : Parsers where
  pingReq _ := some 0
  loginAck strv := some ⟨strv = [0], 7, 0⟩
  matchAck _ := none
  moveAck _ := none
  moveBrd _ := none
  kickClientReq _ := none

def loginReq : Action := .receive 17 ⟨idLoginReq, 1, []⟩ 0 0 5

def matchReq (session : UInt64) : Action := .receive 17 ⟨3, session, []⟩ 0 0 5

def login : List Action :=
  [.accept 17 0, matchReq 1, loginReq, matchReq 2, .loginAck 17 1 9 [1], matchReq 3,
    .loginAck 17 1 9 [0], matchReq 4]

theorem handed_eq_due_login :
    ∃ p, (histories parsers 2).run (histories parsers 2).initial login = some p ∧
      handed 17 p.1.proxy.outputs = due 2 17 (p.2 17).opened :=
  ⟨_, rfl, handed_eq_due (P := parsers) ⟨login, rfl⟩ 17⟩

/-- The second request closes the connection, and the answer to the first finds no data of it. -/
theorem cached_lost : ¬∀ as p, (histories parsers 2).run (histories parsers 2).initial as = some p →
    ∀ socket, handed socket p.1.proxy.outputs = due 2 socket (p.2 socket) := by
  intro h
  have hdue := h [.accept 17 0, loginReq, matchReq 2, loginReq, .finish 17, .loginAck 17 1 9 [0]]
    _ rfl 17
  revert hdue
  decide

end Simple.Gobang.Proxy
