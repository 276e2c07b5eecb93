import Simple.Coro.TaskOr
import Simple.Gobang.Proxy

/-! The login service: one coroutine for each client, which asks three services one after the other
and writes one answer. -/

namespace Simple.Gobang.Login

open Simple.Coro Simple.Coro.TaskTree
open Proxy (ClientPart idLoginAck)

def ecSuccess : Int32 := 0
def ecSystem : Int32 := 2
def ecTimeout : Int32 := 3

structure LoginReq where
  account : String
  password : String

structure SLoginReq where
  account : String := ""
  password : String := ""
deriving DecidableEq

structure SGetLogicReq where
  userid : Int32 := 0

structure SLoginLogicReq where
  gate : UInt32 := 0
  socket : UInt32 := 0
  userid : Int32 := 0
  account : String := ""

structure SLoginAck where
  ec : Int32
  userid : Int32

structure SGetLogicAck where
  ec : Int32
  logic : UInt32

structure SLoginLogicAck where
  ec : Int32
  room : Int32
  winCount : Int32
  loseCount : Int32

structure LoginAck where
  ec : Int32 := 0
  userid : Int32 := 0
  room : Int32 := 0
  winCount : Int32 := 0
  loseCount : Int32 := 0

inductive Written
  | login (dest : UInt16) (req : SLoginReq)
  | getLogic (dest : UInt16) (req : SGetLogicReq)
  | loginLogic (dest : UInt16) (req : SLoginLogicReq)
  | client (dest : UInt16) (session : UInt64) (part : ClientPart) (ack : LoginAck)

/-- A call against `rpc_timeout`, when both have completed. `co_start` gives the coroutine no token. -/
structure Race (B : Type) where
  call : Outcome B String
  timer : Outcome B String
  s : WhenReady
  ran : (TaskTree.or (.task .value call) (.task .void timer) s).Ran
  noToken : (WhenReady.machine .oneSucc 2 true false).Reachable s

/-- The variant of the call's message and of nothing, of which `std::get<0>` is taken. -/
def message {B : Type} : Returned B → Option B
  | .variant 0 (.value ack) => some ack
  | _ => none

def Race.outcome {B : Type} (r : Race B) : Except (Thrown String) (Option B) :=
  (TaskTree.or (.task .value r.call) (.task .void r.timer) r.s).eval.map message

/-- `ack` is shared by the coroutines, which write to it also before they throw. -/
structure State where
  ack : LoginAck := {}
  logic : UInt16 := 0
  written : List Written := []

abbrev LoginM := ExceptT (Thrown String) (StateM State)

def write (w : Written) : LoginM Unit := modify fun s => { s with written := s.written ++ [w] }

def setEc (ec : Int32) : LoginM Unit := modify fun s => { s with ack := { s.ack with ec := ec } }

/-- The ids in the configuration, and what the three calls come to. -/
structure Services where
  center : UInt16
  logicMaster : UInt16
  loginRace : Race SLoginAck
  getLogicRace : Race SGetLogicAck
  loginLogicRace : Race SLoginLogicAck

/-- What the three calls have in common; nothing is returned after the code of a failure is set. -/
def ask {B : Type} (w : Written) (race : Race B) (ec : B → Int32) : LoginM (Option B) := do
  write w
  match ← race.outcome with
  | none =>
    setEc ecTimeout
    return none
  | some ack =>
    if ec ack ≠ ecSuccess then
      setEc (ec ack)
      return none
    return some ack

variable (svc : Services)

/-- The password is taken from the request that is being made. -/
def internalLogin (account _password : String) : LoginM Int32 := do
  let req : SLoginReq := {}
  let req := { req with account := account }
  let req := { req with password := req.password }
  match ← ask (.login svc.center req) svc.loginRace SLoginAck.ec with
  | none => return 0
  | some ack => return ack.userid

def internalGetLogic (userid : Int32) : LoginM UInt16 := do
  let req : SGetLogicReq := { userid := userid }
  match ← ask (.getLogic svc.logicMaster req) svc.getLogicRace SGetLogicAck.ec with
  | none => return 0
  | some ack => return ack.logic.toUInt16

def internalLoginLogic (account : String) (userid : Int32) (logic gate : UInt16) (socket : UInt32) :
    LoginM Unit := do
  let req : SLoginLogicReq :=
    { userid := userid, gate := gate.toUInt32, socket := socket, account := account }
  match ← ask (.loginLogic logic req) svc.loginLogicRace SLoginLogicAck.ec with
  | none => return
  | some ack => modify fun s => { s with ack := { s.ack with
      ec := ecSuccess, room := ack.room, winCount := ack.winCount, loseCount := ack.loseCount } }

def afterLogin (sender : UInt16) (socket : UInt32) (account : String) (userid : Int32) :
    LoginM Unit := do
  modify fun s => { s with ack := { s.ack with userid := userid } }
  let logic ← internalGetLogic svc userid
  modify fun s => { s with logic := logic }
  if (← get).ack.ec ≠ ecSuccess then return
  internalLoginLogic svc account userid logic sender socket

def pipeline (sender : UInt16) (socket : UInt32) (req : LoginReq) : LoginM Unit := do
  let userid ← internalLogin svc req.account req.password
  if (← get).ack.ec ≠ ecSuccess then return
  afterLogin svc sender socket req.account userid

def clientLogin (sender : UInt16) (socket : UInt32) (session : UInt64) (req : LoginReq) :
    List Written :=
  let (result, s) := (pipeline svc sender socket req).run {}
  let ack := match result with
    | .error _ => { s.ack with ec := ecSystem }
    | .ok _ => s.ack
  s.written ++ [.client sender session ⟨idLoginAck, s.logic, socket, 0⟩ ack]

section Run

variable {α β : Type} {p : LoginM α} {f : α → LoginM β} {s t : State} {a : α} {e : Thrown String}

lemma run_bind_ok (h : p.run s = (.ok a, t)) : (p >>= f).run s = (f a).run t := by
  rw [ExceptT.run_bind]
  change StateT.bind p.run _ s = _
  unfold StateT.bind
  dsimp only [bind]
  rw [h]

lemma run_bind_error (h : p.run s = (.error e, t)) : (p >>= f).run s = (.error e, t) := by
  rw [ExceptT.run_bind]
  change StateT.bind p.run _ s = _
  unfold StateT.bind
  dsimp only [bind]
  rw [h]
  rfl

end Run

section Race

variable {B : Type} (r : Race B)

/-- Of the call and its timer, what has succeeded first. -/
def Race.first : Option (ℕ × Returned B) :=
  firstSuccess r.s.order (sides (.task .value r.call) (.task .void r.timer))

def Race.Answered (ack : B) : Prop := r.first = some (0, .value ack)

/-- What a call ends with: the code of its answer, or that it took too long, or that both threw. -/
def Race.code (ec : B → Int32) : Int32 :=
  match r.first with
  | some (0, .value ack) => ec ack
  | some _ => ecTimeout
  | none => ecSystem

lemma Race.tokenCancelled_eq : r.s.tokenCancelled = false := by
  have hreach := Lib.Machine.reachable_invariant
    (I := fun s : WhenReady => s.token = false ∧ s.tokenCancelled = false) ⟨rfl, rfl⟩ ?_ r.noToken
  · exact hreach.2
  · intro s a t hs hstep
    obtain ⟨-, htoken, hcancelled⟩ := WhenReady.step_frame a hstep
    exact ⟨htoken.trans hs.1, (hcancelled hs.1).trans hs.2⟩

lemma Race.answered_inj {r : Race B} {a a' : B} (h : r.Answered a) (h' : r.Answered a') : a = a' := by
  simpa [Race.Answered] using h.symm.trans h'

lemma Race.outcome_cases : (∃ ack, r.Answered ack ∧ r.outcome = .ok (some ack)) ∨
    (∃ v, r.first = some (1, v) ∧ r.outcome = .ok none) ∨
      ∃ e, r.first = none ∧ r.outcome = .error e := by
  rcases eval_firstSuccess r.ran r.tokenCancelled_eq with ⟨a, hfirst, ha, heval⟩ |
    ⟨b, hfirst, -, heval⟩ | ⟨e, e', first, -, -, hnone, -, heval⟩
  · have htype := r.ran.1 a ha
    cases a with
    | value ack =>
      refine .inl ⟨ack, hfirst, ?_⟩
      rw [Race.outcome, heval]
      rfl
    | void | variant | tuple => exact absurd htype id
  · refine .inr (.inl ⟨b, hfirst, ?_⟩)
    rw [Race.outcome, heval]
    rfl
  · refine .inr (.inr ⟨.multiple first, hnone, ?_⟩)
    rw [Race.outcome, heval]
    rfl

lemma Race.ask_cases (w : Written) (ec : B → Int32) (s : State) :
    (∃ a, r.Answered a ∧ ec a = ecSuccess ∧ r.code ec = ecSuccess ∧
      (ask w r ec).run s = (.ok (some a), { s with written := s.written ++ [w] })) ∨
    (r.code ec ≠ ecSuccess ∧ (∀ a, r.Answered a → ec a ≠ ecSuccess) ∧ (ask w r ec).run s =
      (.ok none, { s with written := s.written ++ [w], ack := { s.ack with ec := r.code ec } })) ∨
    (r.code ec = ecSystem ∧ (∀ a, ¬r.Answered a) ∧ ∃ e,
      (ask w r ec).run s = (.error e, { s with written := s.written ++ [w] })) := by
  rcases r.outcome_cases with ⟨a, ha, houtcome⟩ | ⟨v, hfirst, houtcome⟩ | ⟨e, hfirst, houtcome⟩
  · have hcode : r.code ec = ec a := by
      rw [Race.Answered] at ha
      simp only [Race.code, ha]
    by_cases hec : ec a = ecSuccess
    · refine .inl ⟨a, ha, hec, hcode.trans hec, ?_⟩
      unfold ask
      rw [houtcome]
      refine (run_bind_ok rfl).trans ((run_bind_ok rfl).trans ?_)
      simp only [hec, ne_eq, not_true_eq_false, if_false]
      rfl
    · refine .inr (.inl ⟨?_, ?_, ?_⟩)
      · rwa [hcode]
      · intro a' ha'
        rwa [Race.answered_inj ha' ha]
      · unfold ask
        rw [houtcome, hcode]
        refine (run_bind_ok rfl).trans ((run_bind_ok rfl).trans ?_)
        simp only [ne_eq, hec, not_false_eq_true, if_true]
        rfl
  · refine .inr (.inl ⟨?_, ?_, ?_⟩)
    · simp only [Race.code, hfirst]
      decide
    · intro a ha
      rw [Race.Answered, hfirst] at ha
      cases ha
    · unfold ask
      rw [houtcome]
      simp only [Race.code, hfirst]
      rfl
  · refine .inr (.inr ⟨?_, ?_, e, ?_⟩)
    · simp only [Race.code, hfirst]
    · intro a ha
      rw [Race.Answered, hfirst] at ha
      cases ha
    · unfold ask
      rw [houtcome]
      rfl

end Race

def Services.AllSucceed (a : SLoginAck) (b : SGetLogicAck) (c : SLoginLogicAck) : Prop :=
  (svc.loginRace.Answered a ∧ a.ec = ecSuccess) ∧ (svc.getLogicRace.Answered b ∧ b.ec = ecSuccess) ∧
    svc.loginLogicRace.Answered c ∧ c.ec = ecSuccess

/-- The code of the first call that fails, and that of success if none does. -/
def firstCode : List Int32 → Int32
  | [] => ecSuccess
  | ec :: codes => if ec ≠ ecSuccess then ec else firstCode codes

def Services.failure : Int32 :=
  firstCode [svc.loginRace.code SLoginAck.ec, svc.getLogicRace.code SGetLogicAck.ec,
    svc.loginLogicRace.code SLoginLogicAck.ec]

def Written.toClient : Written → Bool
  | .client .. => true
  | _ => false

structure Answer (sender : UInt16) (socket : UInt32) (session : UInt64) (written : List Written)
    (logic : UInt16) (ack : LoginAck) : Prop where
  only : written.filter Written.toClient =
    [.client sender session ⟨idLoginAck, logic, socket, 0⟩ ack]
  success : ack.ec = ecSuccess ↔ ∃ a b c, svc.AllSucceed a b c
  fields : ∀ a b c, svc.AllSucceed a b c → ack.userid = a.userid ∧ logic = b.logic.toUInt16 ∧
    ack.room = c.room ∧ ack.winCount = c.winCount ∧ ack.loseCount = c.loseCount
  failure : ack.ec ≠ ecSuccess → ack.ec = svc.failure

lemma firstCode_failed {ec : Int32} {codes : List Int32} (h : ec ≠ ecSuccess) :
    firstCode (ec :: codes) = ec := if_pos h

lemma firstCode_skip {ec : Int32} {codes : List Int32} (h : ec = ecSuccess) :
    firstCode (ec :: codes) = firstCode codes := if_neg (not_not.mpr h)

lemma ecSystem_ne : ecSystem ≠ ecSuccess := by decide

def finalEc (result : Except (Thrown String) Unit) (s : State) : Int32 :=
  match result with
  | .error _ => ecSystem
  | .ok _ => s.ack.ec

def Written.between : Written → Prop
  | .getLogic _ _ => True
  | .loginLogic _ _ => True
  | _ => False

lemma loginLogic_cases (account : String) (userid : Int32) (logic gate : UInt16) (socket : UInt32)
    (s : State) : ∃ result t w, (internalLoginLogic svc account userid logic gate socket).run s =
        (result, t) ∧ t.written = s.written ++ [w] ∧ w.between ∧ t.logic = s.logic ∧
      ((∃ c, (svc.loginLogicRace.Answered c ∧ c.ec = ecSuccess) ∧ result = .ok () ∧
          t.ack = ⟨ecSuccess, s.ack.userid, c.room, c.winCount, c.loseCount⟩) ∨
        (∀ c, ¬(svc.loginLogicRace.Answered c ∧ c.ec = ecSuccess)) ∧
          finalEc result t ≠ ecSuccess ∧
            finalEc result t = firstCode [svc.loginLogicRace.code SLoginLogicAck.ec]) := by
  rcases svc.loginLogicRace.ask_cases (.loginLogic logic ⟨gate.toUInt32, socket, userid, account⟩)
    SLoginLogicAck.ec s with
    ⟨c, hc, hec, hcode, hrun⟩ | ⟨hcode, hnot, hrun⟩ | ⟨hcode, hnot, e, hrun⟩
  · exact ⟨.ok (), _, _, run_bind_ok hrun, rfl, trivial, rfl, .inl ⟨c, ⟨hc, hec⟩, rfl, rfl⟩⟩
  · refine ⟨.ok (), _, _, run_bind_ok hrun, rfl, trivial, rfl, .inr ⟨?_, hcode, ?_⟩⟩
    · rintro c ⟨hc, hec⟩
      exact hnot c hc hec
    · exact (firstCode_failed hcode).symm
  · refine ⟨.error e, _, _, run_bind_error hrun, rfl, trivial, rfl, .inr ⟨?_, ecSystem_ne, ?_⟩⟩
    · rintro c ⟨hc, -⟩
      exact hnot c hc
    · rw [hcode]
      exact (firstCode_failed ecSystem_ne).symm

lemma afterLogin_cases (sender : UInt16) (socket : UInt32) (account : String) (userid : Int32)
    (s : State) (hec : s.ack.ec = ecSuccess) :
    ∃ result t ws, (afterLogin svc sender socket account userid).run s = (result, t) ∧
      t.written = s.written ++ ws ∧ (∀ w ∈ ws, w.between) ∧
      ((∃ b c, ((svc.getLogicRace.Answered b ∧ b.ec = ecSuccess) ∧
            svc.loginLogicRace.Answered c ∧ c.ec = ecSuccess) ∧ result = .ok () ∧
          t.logic = b.logic.toUInt16 ∧
          t.ack = ⟨ecSuccess, userid, c.room, c.winCount, c.loseCount⟩) ∨
        (∀ b c, ¬((svc.getLogicRace.Answered b ∧ b.ec = ecSuccess) ∧
            svc.loginLogicRace.Answered c ∧ c.ec = ecSuccess)) ∧
          finalEc result t ≠ ecSuccess ∧
            finalEc result t = firstCode [svc.getLogicRace.code SGetLogicAck.ec,
              svc.loginLogicRace.code SLoginLogicAck.ec]) := by
  rcases svc.getLogicRace.ask_cases (.getLogic svc.logicMaster ⟨userid⟩) SGetLogicAck.ec
    ⟨{ s.ack with userid := userid }, s.logic, s.written⟩ with
    ⟨b, hb, hec', hcode, hrun⟩ | ⟨hcode, hnot, hrun⟩ | ⟨hcode, hnot, e, hrun⟩
  · obtain ⟨result, t, w, hlast, hwritten, hw, hlogic, hcases⟩ := loginLogic_cases svc account userid
      b.logic.toUInt16 sender socket
      ⟨{ s.ack with userid := userid }, b.logic.toUInt16,
        s.written ++ [.getLogic svc.logicMaster ⟨userid⟩]⟩
    refine ⟨result, t, [.getLogic svc.logicMaster ⟨userid⟩, w], ?_, ?_, ?_, ?_⟩
    · have hget : (internalGetLogic svc userid).run _ = (.ok b.logic.toUInt16, _) := run_bind_ok hrun
      refine (run_bind_ok rfl).trans ?_
      refine (run_bind_ok hget).trans ?_
      refine (run_bind_ok rfl).trans ?_
      refine (run_bind_ok rfl).trans ?_
      rw [if_neg (not_not.mpr hec)]
      exact hlast
    · rw [hwritten, List.append_assoc]
      rfl
    · intro x hx
      rcases List.mem_pair.mp hx with rfl | rfl
      · exact trivial
      · exact hw
    · rw [firstCode_skip hcode]
      rcases hcases with ⟨c, hc, hresult, hack⟩ | ⟨hnot, hne, hfinal⟩
      · exact .inl ⟨b, c, ⟨⟨hb, hec'⟩, hc⟩, hresult, hlogic, hack⟩
      · exact .inr ⟨fun b c h => hnot c h.2, hne, hfinal⟩
  · have hget : (internalGetLogic svc userid).run _ = (.ok 0, _) := run_bind_ok hrun
    have hafter : (afterLogin svc sender socket account userid).run s =
        (.ok (), ⟨{ s.ack with ec := svc.getLogicRace.code SGetLogicAck.ec, userid := userid }, 0,
          s.written ++ [.getLogic svc.logicMaster ⟨userid⟩]⟩) := by
      refine (run_bind_ok rfl).trans ?_
      refine (run_bind_ok hget).trans ?_
      refine (run_bind_ok rfl).trans ?_
      refine (run_bind_ok rfl).trans ?_
      rw [if_pos hcode]
      rfl
    refine ⟨_, _, [.getLogic svc.logicMaster ⟨userid⟩], hafter, rfl, ?_,
      .inr ⟨?_, hcode, (firstCode_failed hcode).symm⟩⟩
    · intro x hx
      rw [List.mem_singleton.mp hx]
      exact trivial
    · rintro b c ⟨⟨hb, hec⟩, -⟩
      exact hnot b hb hec
  · refine ⟨.error e, _, [.getLogic svc.logicMaster ⟨userid⟩], (run_bind_ok rfl).trans
      (run_bind_error (run_bind_error hrun)), rfl, ?_, .inr ⟨?_, ecSystem_ne, ?_⟩⟩
    · intro x hx
      rw [List.mem_singleton.mp hx]
      exact trivial
    · rintro b c ⟨⟨hb, -⟩, -⟩
      exact hnot b hb
    · rw [hcode]
      exact (firstCode_failed ecSystem_ne).symm

lemma pipeline_cases (sender : UInt16) (socket : UInt32) (req : LoginReq) :
    ∃ result s ws, (pipeline svc sender socket req).run {} = (result, s) ∧
      s.written = .login svc.center ⟨req.account, ""⟩ :: ws ∧ (∀ w ∈ ws, w.between) ∧
      ((∃ a b c, svc.AllSucceed a b c ∧ result = .ok () ∧ s.logic = b.logic.toUInt16 ∧
          s.ack = ⟨ecSuccess, a.userid, c.room, c.winCount, c.loseCount⟩) ∨
        (∀ a b c, ¬svc.AllSucceed a b c) ∧ finalEc result s ≠ ecSuccess ∧
          finalEc result s = svc.failure) := by
  rcases svc.loginRace.ask_cases (.login svc.center ⟨req.account, ""⟩) SLoginAck.ec {} with
    ⟨a, ha, hec, hcode, hrun⟩ | ⟨hcode, hnot, hrun⟩ | ⟨hcode, hnot, e, hrun⟩
  · obtain ⟨result, t, ws, hlast, hwritten, hws, hcases⟩ := afterLogin_cases svc sender socket
      req.account a.userid ⟨{}, 0, [.login svc.center ⟨req.account, ""⟩]⟩ rfl
    refine ⟨result, t, ws, ?_, hwritten, hws, ?_⟩
    · have hlogin : (internalLogin svc req.account req.password).run {} = (.ok a.userid, _) :=
        run_bind_ok hrun
      refine (run_bind_ok hlogin).trans ?_
      exact (run_bind_ok rfl).trans hlast
    · rw [Services.failure, firstCode_skip hcode]
      rcases hcases with ⟨b, c, hbc, hresult, hlogic, hack⟩ | ⟨hnot, hne, hfinal⟩
      · exact .inl ⟨a, b, c, ⟨⟨ha, hec⟩, hbc⟩, hresult, hlogic, hack⟩
      · exact .inr ⟨fun a b c h => hnot b c h.2, hne, hfinal⟩
  · have hlogin : (internalLogin svc req.account req.password).run {} = (.ok 0, _) :=
      run_bind_ok hrun
    have hpipeline : (pipeline svc sender socket req).run {} =
        (.ok (), ⟨{ ec := svc.loginRace.code SLoginAck.ec }, 0,
          [.login svc.center ⟨req.account, ""⟩]⟩) := by
      refine (run_bind_ok hlogin).trans ?_
      refine (run_bind_ok rfl).trans ?_
      rw [if_pos hcode]
      rfl
    refine ⟨_, _, [], hpipeline, rfl, ?_, .inr ⟨?_, hcode, (firstCode_failed hcode).symm⟩⟩
    · intro w hw
      cases hw
    · rintro a b c ⟨⟨ha, hec⟩, -⟩
      exact hnot a ha hec
  · refine ⟨.error e, _, [], run_bind_error (run_bind_error hrun), rfl, ?_,
      .inr ⟨?_, ecSystem_ne, ?_⟩⟩
    · intro w hw
      cases hw
    · rintro a b c ⟨⟨ha, -⟩, -⟩
      exact hnot a ha
    · rw [Services.failure, hcode]
      exact (firstCode_failed ecSystem_ne).symm

def finalAck (result : Except (Thrown String) Unit) (s : State) : LoginAck :=
  { s.ack with ec := finalEc result s }

lemma clientLogin_eq {sender : UInt16} {socket : UInt32} {session : UInt64} {req : LoginReq}
    {result : Except (Thrown String) Unit} {s : State}
    (h : (pipeline svc sender socket req).run {} = (result, s)) :
    clientLogin svc sender socket session req =
      s.written ++ [.client sender session ⟨idLoginAck, s.logic, socket, 0⟩ (finalAck result s)] := by
  rw [clientLogin, h]
  cases result with
  | error e => rfl
  | ok u => rfl

lemma toClient_between {ws : List Written} (h : ∀ w ∈ ws, w.between) :
    ws.filter Written.toClient = [] := by
  rw [List.filter_eq_nil_iff]
  intro w hw
  have hbetween := h w hw
  cases w with
  | getLogic | loginLogic => exact Bool.false_ne_true
  | login | client => exact absurd hbetween id

lemma answered (sender : UInt16) (socket : UInt32) (session : UInt64) (req : LoginReq) :
    ∃ logic ack, Answer svc sender socket session (clientLogin svc sender socket session req) logic
      ack := by
  obtain ⟨result, s, ws, hrun, hwritten, hws, hcases⟩ := pipeline_cases svc sender socket req
  rw [clientLogin_eq svc hrun, hwritten]
  refine ⟨s.logic, finalAck result s, ?_, ?_, ?_, ?_⟩
  · rw [List.filter_append, List.filter_cons_of_neg Bool.false_ne_true, toClient_between hws]
    rfl
  · rcases hcases with ⟨a, b, c, hall, rfl, -, hack⟩ | ⟨hnot, hne, -⟩
    · refine ⟨fun _ => ⟨a, b, c, hall⟩, fun _ => ?_⟩
      change s.ack.ec = _
      rw [hack]
    · refine ⟨fun h => absurd h hne, ?_⟩
      rintro ⟨a, b, c, hall⟩
      exact absurd hall (hnot a b c)
  · intro a b c hall
    rcases hcases with ⟨a', b', c', hall', rfl, hlogic, hack⟩ | ⟨hnot, -, -⟩
    · obtain rfl := Race.answered_inj hall.1.1 hall'.1.1
      obtain rfl := Race.answered_inj hall.2.1.1 hall'.2.1.1
      obtain rfl := Race.answered_inj hall.2.2.1 hall'.2.2.1
      change s.ack.userid = _ ∧ _ ∧ s.ack.room = _ ∧ s.ack.winCount = _ ∧ s.ack.loseCount = _
      rw [hack]
      exact ⟨rfl, hlogic, rfl, rfl, rfl⟩
    · exact absurd hall (hnot a b c)
  · intro hne
    rcases hcases with ⟨a, b, c, hall, rfl, -, hack⟩ | ⟨-, -, hfinal⟩
    · exact absurd (congrArg LoginAck.ec hack) hne
    · exact hfinal

lemma login_mem {sender : UInt16} {socket : UInt32} {session : UInt64} {req : LoginReq}
    {dest : UInt16} {q : SLoginReq} : .login dest q ∈ clientLogin svc sender socket session req ↔
      dest = svc.center ∧ q = ⟨req.account, ""⟩ := by
  obtain ⟨result, s, ws, hrun, hwritten, hws, -⟩ := pipeline_cases svc sender socket req
  rw [clientLogin_eq svc hrun, hwritten, List.mem_append, List.mem_cons]
  constructor
  · rintro ((h | h) | h)
    · cases h
      exact ⟨rfl, rfl⟩
    · exact absurd (hws _ h) id
    · cases List.mem_singleton.mp h
  · rintro ⟨rfl, rfl⟩
    exact .inl (.inl rfl)

/-- What a login is to do: one answer put together from the three, and a request to the center that
has the client's account and password. -/
structure Meaning (sender : UInt16) (socket : UInt32) (session : UInt64) (req : LoginReq) : Prop where
  answer : ∃ logic ack, Answer svc sender socket session
    (clientLogin svc sender socket session req) logic ack
  asked : ∀ dest q, .login dest q ∈ clientLogin svc sender socket session req ↔
    dest = svc.center ∧ q = ⟨req.account, req.password⟩

/-- The center never gets the client's password. -/
theorem meaning_iff (sender : UInt16) (socket : UInt32) (session : UInt64) (req : LoginReq) :
    Meaning svc sender socket session req ↔ req.password = "" := by
  constructor
  · intro h
    have hasked := (h.asked svc.center ⟨req.account, ""⟩).mp ((login_mem svc).mpr ⟨rfl, rfl⟩)
    exact (congrArg SLoginReq.password hasked.2).symm
  · intro hpassword
    refine ⟨answered svc sender socket session req, ?_⟩
    intro dest q
    rw [login_mem, hpassword]

def answeredInTime {B : Type} (ack : B) : Race B where
  call := .ok (.value ack)
  timer := .error .canceled
  s := firstFirst
  ran := by
    refine ⟨?_, ?_, joined_after rfl rfl rfl rfl⟩
    · intro r hr
      cases hr
      exact trivial
    · intro r hr
      cases hr
  noToken := ⟨actions [.resume 0, .complete 0 false, .decrement, .resume 1, .complete 1 true,
    .decrement], rfl⟩

theorem password_lost :
    ¬Meaning ⟨1, 2, answeredInTime ⟨0, 5⟩, answeredInTime ⟨0, 7⟩, answeredInTime ⟨0, 0, 0, 0⟩⟩ 9 4 8
      ⟨"account", "password"⟩ := by
  intro h
  have hasked := (h.asked 1 ⟨"account", ""⟩).mp ((login_mem _).mpr ⟨rfl, rfl⟩)
  exact absurd (congrArg SLoginReq.password hasked.2) (by decide)

end Simple.Gobang.Login
