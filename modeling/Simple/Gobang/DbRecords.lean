import Simple.Gobang.DbCreate
import Simple.Lib.Machine

/-! What `query_user` and `query_account` answer after any requests and updates. -/

namespace Simple.Gobang

open Simple.Lib

namespace DbProxy

structure Create where
  sender : UInt16
  session : UInt64
  req : CreateUserReq
  /-- `none` when the worker has thrown. -/
  worker : Option (Work Unit Unit)

structure Records where
  db : Db := Db.empty
  creates : List Create := []
  sent : List (UInt16 × UInt64 × Ack Unit) := []

namespace Records

/-- `updateUser` and `updateAccount` are the writes of the batches of `update_user` and
`update_account`. -/
inductive Action
  | create (sender : UInt16) (session : UInt64) (req : Option CreateUserReq)
  | work (i : ℕ) (lost : Bool)
  | resume (i : ℕ)
  | updateUser (userid winCount loseCount : Int32)
  | updateAccount (userid : Int32) (account password : String)
  | restart

def send (s : Records) (c : Create) (ec : ErrorCode) : Records :=
  { s with sent := s.sent ++ [(c.sender, c.session, { ec := ec, body := () })] }

def work (s : Records) (i : ℕ) (c : Create) (lost : Bool) : Option Records :=
  match c.worker with
  | some (.act x next) =>
    match x.exec lost (s.db, { body := () }) with
    | none => some { s with creates := s.creates.set i { c with worker := none } }
    | some ((db, _), answer) =>
      some { s with db := db, creates := s.creates.set i { c with worker := some (next answer) } }
  | _ => none

def resume (s : Records) (i : ℕ) (c : Create) : Option Records :=
  match c.worker with
  | none => some { s.send c .system with creates := s.creates.eraseIdx i }
  | some (.pure _) => some { s.send c .success with creates := s.creates.eraseIdx i }
  | some (.act _ _) => none

def update (s : Records) (coll : Coll) (userid : Int32) (fields : BsonDocument) : Option Records :=
  ((s.db coll).updateOne "userid" (.int32 userid) fields).map fun c =>
    { s with db := Function.update s.db coll c }

def userFields (winCount loseCount : Int32) : BsonDocument :=
  [("win_count", .int32 winCount), ("lose_count", .int32 loseCount)]

def accountFields (account password : String) : BsonDocument :=
  [("account", .string account), ("password", .string password)]

def step (s : Records) : Action → Option Records
  | .create sender session none =>
    some { s with sent := s.sent ++ [(sender, session, { ec := .system, body := () })] }
  | .create sender session (some req) =>
    some { s with creates := s.creates ++ [⟨sender, session, req, some (createUserWork req)⟩] }
  | .work i lost => s.creates[i]?.bind fun c => s.work i c lost
  | .resume i => s.creates[i]?.bind fun c => s.resume i c
  | .updateUser userid winCount loseCount =>
    s.update .userInfo userid (userFields winCount loseCount)
  | .updateAccount userid account password =>
    s.update .accountInfo userid (accountFields account password)
  | .restart => some { s with creates := [] }

def machine : Machine Records Action where
  initial := {}
  step := step

structure History where
  created : List CreateUserReq := []
  users : List Int32 := []
  accounts : List Int32 := []

def finished (s : Records) (i : ℕ) : List CreateUserReq :=
  match s.creates[i]? with
  | some ⟨_, _, req, some (.pure _)⟩ => [req]
  | _ => []

def present (s : Records) (coll : Coll) (userid : Int32) : List Int32 :=
  if Unused s.db coll "userid" (.int32 userid) then [] else [userid]

def record (s : Records) (h : History) : Action → History
  | .resume i => { h with created := h.created ++ s.finished i }
  | .updateUser userid _ _ => { h with users := h.users ++ s.present .userInfo userid }
  | .updateAccount userid _ _ => { h with accounts := h.accounts ++ s.present .accountInfo userid }
  | _ => h

def recorded : Machine (Records × History) Action := machine.withHistory {} record

inductive Query
  | user (userid : Int32)
  | account (req : QueryAccountReq)

def connected : ℕ → Bool := fun _ => false

def Query.ec (db : Db) : Query → ErrorCode
  | .user userid => (queryUser (some userid) connected db).ec
  | .account req => (queryAccount (some req) connected db).ec

def Query.Names (r : CreateUserReq) : Query → Prop
  | .user userid => r.userid = userid
  | .account req => if req.account = "" then r.userid = req.userid else r.account = req.account

/-- Nothing has been created that the query could be about: no document has its key. -/
def Query.Absent (db : Db) : Query → Prop
  | .user userid => Unused db .userInfo "userid" (.int32 userid)
  | .account req =>
    if req.account = "" then Unused db .accountInfo "userid" (.int32 req.userid)
    else Unused db .accountInfo "account" (.string req.account)

instance (db : Db) : DecidablePred (Query.Absent db)
  | .user userid => inferInstanceAs (Decidable (Unused db .userInfo "userid" (.int32 userid)))
  | .account req => inferInstanceAs (Decidable (
      if req.account = "" then Unused db .accountInfo "userid" (.int32 req.userid)
      else Unused db .accountInfo "account" (.string req.account)))

def Query.Updated (h : History) (r : CreateUserReq) : Query → Prop
  | .user _ => r.userid ∈ h.users
  | .account _ => r.userid ∈ h.accounts

/-- The answer is of the record that the request has made. -/
def Query.Returns (db : Db) (r : CreateUserReq) : Query → Prop
  | .user userid =>
    let ack := queryUser (some userid) connected db
    ack.ec = .success ∧ ack.body.winCount = r.winCount ∧ ack.body.loseCount = r.loseCount ∧
      ack.body.isAi = r.isAi
  | .account req =>
    queryAccount (some req) connected db =
      { ec := .success, body := { account := r.account, userid := r.userid, password := r.password } }

structure Answered (x : Records × History) (q : Query) : Prop where
  created : ∀ r ∈ x.2.created, q.Names r → ¬q.Updated x.2 r → q.Returns x.1.db r
  unknown : q.Absent x.1.db → q.ec x.1.db = .noData

/-- There is a document of the key, and what is returned for `is_ai` is so. -/
structure Known (x : Records × History) (q : Query) : Prop where
  present : ¬q.Absent x.1.db
  ai : ∀ userid, q = .user userid → ∀ r ∈ x.2.created, q.Names r → ¬q.Updated x.2 r →
    r.isAi = (userid != 0)

variable {B : Type} {lost : ℕ → Bool} {db : Db} {ack : Ack B} {n : ℕ} {α : Type}
variable {r : CreateUserReq}

lemma attempt_findOne {f : Option BsonDocument → Work B α} {coll : Coll} {key : String} {value : Bson}
    (h : lost n = false) :
    (Work.findOne coll key value >>= f).attempt (Call.execFrom lost) ((db, ack), n) =
      (f ((db coll).findOne key value)).attempt (Call.execFrom lost) ((db, ack), n + 1) := by
  apply Prog.attempt_goes_on
  simp [Call.execFrom, Call.exec, h]

lemma await_ec_ne (work : Work B Unit) : (work.await lost db ack).2.ec ≠ .noData := by
  unfold Work.await
  split <;> simp

lemma ec_ne (q : Query) : q.ec db ≠ .noData := by
  cases q <;> exact await_ec_ne _

def queriedUser (r : CreateUserReq) : Ack QueriedUser where
  body := { userid := r.userid, winCount := r.winCount, loseCount := r.loseCount,
            isAi := r.userid != 0 }

def queriedAccount (r : CreateUserReq) : Ack QueriedAccount where
  body := { account := r.account, userid := r.userid, password := r.password }

lemma queryUser_of_found
    (h : (db .userInfo).findOne "userid" (.int32 r.userid) = some (userDoc r)) :
    queryUser (some r.userid) connected db = queriedUser r := by
  have hwork : (queryUserWork r.userid).await connected db { body := {} } = (db, queriedUser r) := by
    apply await_returns (a := queriedUser r)
    unfold queryUserWork
    rw [attempt_acquire rfl, attempt_findOne rfl, h]
    rfl
  exact congrArg Prod.snd hwork

lemma queryAccount_of_found {req : QueryAccountReq}
    (h : (if req.account = "" then (db .accountInfo).findOne "userid" (.int32 req.userid)
      else (db .accountInfo).findOne "account" (.string req.account)) = some (accountDoc r)) :
    queryAccount (some req) connected db = queriedAccount r := by
  have hwork : (queryAccountWork req).await connected db { body := {} } = (db, queriedAccount r) := by
    apply await_returns (a := queriedAccount r)
    unfold queryAccountWork
    rw [attempt_acquire rfl]
    split_ifs at h ⊢ with ha
    all_goals
      rw [attempt_findOne rfl, h]
      rfl
  exact congrArg Prod.snd hwork

def UserIn (x : Records × History) (r : CreateUserReq) : Prop :=
  r.userid ∈ x.2.users ∨ userDoc r ∈ (x.1.db .userInfo).docs

def AccountIn (x : Records × History) (r : CreateUserReq) : Prop :=
  r.userid ∈ x.2.accounts ∨ accountDoc r ∈ (x.1.db .accountInfo).docs

def afterAccount (r : CreateUserReq) : Work Unit Unit :=
  if r.isAi then Work.insertOne .aiList (aiDoc r) else pure ()

def afterUser (r : CreateUserReq) : Work Unit Unit := do
  Work.insertOne .accountInfo (accountDoc r)
  afterAccount r

def afterAcquire (r : CreateUserReq) : Work Unit Unit := do
  Work.insertOne .userInfo (userDoc r)
  afterUser r

inductive Progress (x : Records × History) (r : CreateUserReq) : Option (Work Unit Unit) → Prop
  | thrown : Progress x r none
  | start : Progress x r (some (createUserWork r))
  | acquired : Progress x r (some (afterAcquire r))
  | user : UserIn x r → Progress x r (some (afterUser r))
  | account : UserIn x r → AccountIn x r → Progress x r (some (afterAccount r))
  | done : UserIn x r → AccountIn x r → Progress x r (some (pure ()))

structure Inv (x : Records × History) : Prop where
  creates : ∀ c ∈ x.1.creates, Progress x c.req c.worker
  created : ∀ r ∈ x.2.created, UserIn x r ∧ AccountIn x r

structure Keeps (x y : Records × History) : Prop where
  user : ∀ r, UserIn x r → UserIn y r
  account : ∀ r, AccountIn x r → AccountIn y r

variable {s t : Records} {h h' : History} {x y : Records × History}

lemma Progress.keeps {w : Option (Work Unit Unit)} (hp : Progress x r w) (hk : Keeps x y) :
    Progress y r w := by
  cases hp with
  | thrown => exact .thrown
  | start => exact .start
  | acquired => exact .acquired
  | user hu => exact .user (hk.user r hu)
  | account hu ha => exact .account (hk.user r hu) (hk.account r ha)
  | done hu ha => exact .done (hk.user r hu) (hk.account r ha)

lemma Keeps.of_docs (hu : x.2.users ⊆ y.2.users) (ha : x.2.accounts ⊆ y.2.accounts)
    (hdocs : ∀ coll, (x.1.db coll).docs ⊆ (y.1.db coll).docs) : Keeps x y :=
  ⟨fun _ h => h.imp (fun h => hu h) fun h => hdocs _ h,
    fun _ h => h.imp (fun h => ha h) fun h => hdocs _ h⟩

lemma Inv.keeps (hi : Inv x) (hk : Keeps x y)
    (hcreates : ∀ c ∈ y.1.creates, c ∈ x.1.creates ∨ Progress y c.req c.worker)
    (hcreated : ∀ r ∈ y.2.created, r ∈ x.2.created ∨ UserIn y r ∧ AccountIn y r) : Inv y := by
  constructor
  · intro c hc
    rcases hcreates c hc with hc | hc
    · exact (hi.creates c hc).keeps hk
    · exact hc
  · intro r hr
    rcases hcreated r hr with hr | hr
    · exact ⟨hk.user r (hi.created r hr).1, hk.account r (hi.created r hr).2⟩
    · exact hr

lemma work_insert {i : ℕ} {c : Create} {b : Bool} (coll : Coll) (doc : BsonDocument)
    {next : Unit → Work Unit Unit} (hc : c.worker = some (.act (Call.insertOne coll doc) next))
    (ht : s.work i c b = some t) :
    t = { s with creates := s.creates.set i { c with worker := none } } ∨
      ∃ d, d.docs = (s.db coll).docs ++ [doc] ∧ t = { s with
        db := Function.update s.db coll d
        creates := s.creates.set i { c with worker := some (next ()) } } := by
  simp only [work, hc, Call.exec] at ht
  cases hd : (s.db coll).insertOne doc with
  | none =>
    left
    cases b <;> simpa [hd] using ht.symm
  | some d =>
    cases b with
    | true =>
      left
      simpa [hd] using ht.symm
    | false =>
      right
      refine ⟨d, (Collection.docs_insertOne hd).2, ?_⟩
      simpa [hd] using ht.symm

lemma keeps_insert {coll : Coll} {doc : BsonDocument} {d : Collection String Bson coll.unique}
    {creates : List Create} (hd : d.docs = (s.db coll).docs ++ [doc]) :
    Keeps (s, h) ({ s with db := Function.update s.db coll d, creates := creates }, h) := by
  refine .of_docs (List.Subset.refl _) (List.Subset.refl _) ?_
  intro coll'
  dsimp only
  by_cases hcoll : coll' = coll
  · subst hcoll
    rw [Function.update_self, hd]
    exact List.subset_append_left _ _
  · rw [Function.update_of_ne hcoll]
    exact List.Subset.refl _

lemma work_keeps {i : ℕ} {c : Create} {b : Bool} (hp : Progress (s, h) c.req c.worker)
    (ht : s.work i c b = some t) : Keeps (s, h) (t, h) ∧
      ∃ w, t.creates = s.creates.set i { c with worker := w } ∧ Progress (t, h) c.req w := by
  have hthrown {u : Records} (hu : u = { s with creates := s.creates.set i { c with worker := none } }) :
      Keeps (s, h) (u, h) ∧ ∃ w, u.creates = s.creates.set i { c with worker := w } ∧
        Progress (u, h) c.req w := by
    subst hu
    exact ⟨⟨fun _ h => h, fun _ h => h⟩, none, rfl, .thrown⟩
  obtain ⟨sender, session, r, w⟩ := c
  dsimp only at hp
  cases hp with
  | thrown => simp [work] at ht
  | start =>
    change s.work i ⟨_, _, _, some (.act Call.acquire fun _ => afterAcquire r)⟩ b = _ at ht
    cases b with
    | true => exact hthrown (by simpa [work, Call.exec] using ht.symm)
    | false =>
      obtain rfl : _ = t := by simpa [work, Call.exec] using ht
      exact ⟨⟨fun _ h => h, fun _ h => h⟩, some (afterAcquire r), rfl, .acquired⟩
  | acquired =>
    rcases work_insert .userInfo (userDoc r) rfl ht with ht | ⟨d, hd, rfl⟩
    · exact hthrown ht
    · refine ⟨keeps_insert hd, some (afterUser r), rfl, .user (Or.inr ?_)⟩
      simp [hd]
  | user hu =>
    rcases work_insert .accountInfo (accountDoc r) rfl ht with ht | ⟨d, hd, rfl⟩
    · exact hthrown ht
    · refine ⟨keeps_insert hd, some (afterAccount r), rfl, .account ?_ (Or.inr ?_)⟩
      · exact (keeps_insert hd).user r hu
      · simp [hd]
  | account hu ha =>
    unfold afterAccount at ht
    split_ifs at ht
    · rcases work_insert .aiList (aiDoc r) rfl ht with ht | ⟨d, hd, rfl⟩
      · exact hthrown ht
      · refine ⟨keeps_insert hd, some (pure ()), rfl, .done ?_ ?_⟩
        · exact (keeps_insert hd).user r hu
        · exact (keeps_insert hd).account r ha
    · simp [work, pure] at ht
  | done hu ha => simp [work, pure] at ht

lemma Progress.finished {u : Unit} (hp : Progress x r (some (.pure u))) :
    UserIn x r ∧ AccountIn x r := by
  generalize hw : some (Prog.pure u : Work Unit Unit) = w at hp
  cases hp with
  | thrown => cases hw
  | start => cases hw
  | acquired => cases hw
  | user => cases hw
  | account hu ha => exact ⟨hu, ha⟩
  | done hu ha => exact ⟨hu, ha⟩

lemma mem_present {coll : Coll} {doc : BsonDocument} {userid : Int32}
    (hd : doc ∈ (s.db coll).docs) (hu : doc.lookup "userid" = some (.int32 userid)) :
    userid ∈ s.present coll userid := by
  unfold present
  rw [if_neg]
  · exact List.mem_singleton_self _
  · exact fun hun => hun doc hd hu

lemma mem_update {coll : Coll} {doc fields : BsonDocument} {userid userid' : Int32}
    {d : Collection String Bson coll.unique}
    (hd : doc ∈ (s.db coll).docs) (hu : doc.lookup "userid" = some (.int32 userid'))
    (ht : (s.db coll).updateOne "userid" (.int32 userid) fields = some d) :
    userid' ∈ s.present coll userid ∨ doc ∈ d.docs := by
  by_cases heq : userid' = userid
  · subst heq
    exact Or.inl (mem_present hd hu)
  · right
    rw [Collection.docs_updateOne ht]
    apply Collection.mem_updated_of_ne hd
    simpa [hu] using heq

lemma recorded_step {act : Action} (hi : Inv x) (ht : recorded.step x act = some y) : Inv y := by
  obtain ⟨hstep, hy⟩ := Machine.step_withHistory.mp ht
  obtain ⟨s, h⟩ := x
  obtain ⟨t, h'⟩ := y
  dsimp only at hstep hy
  subst hy
  cases act with
  | create sender session req =>
    cases req with
    | none =>
      obtain rfl := Option.some.inj hstep
      exact hi.keeps ⟨fun _ h => h, fun _ h => h⟩ (fun _ h => Or.inl h) fun _ h => Or.inl h
    | some req =>
      obtain rfl := Option.some.inj hstep
      refine hi.keeps ⟨fun _ h => h, fun _ h => h⟩ ?_ fun _ h => Or.inl h
      intro c hc
      rcases List.mem_append.mp hc with hc | hc
      · exact Or.inl hc
      · obtain rfl := List.mem_singleton.mp hc
        exact Or.inr .start
  | work i b =>
    obtain ⟨c, hc, hw⟩ := Option.bind_eq_some_iff.mp hstep
    obtain ⟨hk, w, hcreates, hp⟩ := work_keeps (hi.creates c (List.mem_of_getElem? hc)) hw
    refine hi.keeps hk ?_ fun _ h => Or.inl h
    intro c' hc'
    dsimp only at hc'
    rw [hcreates] at hc'
    rcases List.mem_or_eq_of_mem_set hc' with hc' | rfl
    · exact Or.inl hc'
    · exact Or.inr hp
  | resume i =>
    obtain ⟨c, hc, hr⟩ := Option.bind_eq_some_iff.mp hstep
    have hp := hi.creates c (List.mem_of_getElem? hc)
    obtain ⟨sender, session, r, w⟩ := c
    dsimp only at hp
    cases w with
    | none =>
      obtain rfl := Option.some.inj hr
      refine hi.keeps ⟨fun _ h => h, fun _ h => h⟩ (fun _ h => Or.inl (List.mem_of_mem_eraseIdx h)) ?_
      intro r hr
      simpa [record, finished, hc] using Or.inl hr
    | some code =>
      cases code with
      | act => simp [resume] at hr
      | pure u =>
        obtain rfl := Option.some.inj hr
        refine hi.keeps ⟨fun _ h => h, fun _ h => h⟩ (fun _ h => Or.inl (List.mem_of_mem_eraseIdx h)) ?_
        intro r' hr'
        have hmem : r' ∈ h.created ∨ r' = r := by simpa [record, finished, hc] using hr'
        refine hmem.imp_right ?_
        rintro rfl
        exact hp.finished
  | updateUser userid winCount loseCount =>
    obtain ⟨d, hd, rfl⟩ := Option.map_eq_some_iff.mp hstep
    refine hi.keeps ⟨?_, fun _ h => h⟩ (fun _ h => Or.inl h) fun _ h => Or.inl h
    rintro r (hr | hr)
    · exact Or.inl (List.mem_append_left _ hr)
    · exact (mem_update hr rfl hd).imp (fun h => List.mem_append_right _ h) id
  | updateAccount userid account password =>
    obtain ⟨d, hd, rfl⟩ := Option.map_eq_some_iff.mp hstep
    refine hi.keeps ⟨fun _ h => h, ?_⟩ (fun _ h => Or.inl h) fun _ h => Or.inl h
    rintro r (hr | hr)
    · exact Or.inl (List.mem_append_left _ hr)
    · exact (mem_update hr rfl hd).imp (fun h => List.mem_append_right _ h) id
  | restart =>
    obtain rfl := Option.some.inj hstep
    exact hi.keeps ⟨fun _ h => h, fun _ h => h⟩ (fun _ h => by simp at h) fun _ h => Or.inl h

lemma reachable_inv (hx : recorded.Reachable x) : Inv x := by
  apply Machine.reachable_invariant (I := Inv) ?_ (fun _ _ _ => recorded_step) hx
  exact ⟨fun _ h => by simp [recorded, Machine.withHistory, machine] at h,
    fun _ h => by simp [recorded, Machine.withHistory] at h⟩

lemma findOne_user (hi : Inv x) (hr : r ∈ x.2.created) (hn : r.userid ∉ x.2.users) :
    (x.1.db .userInfo).findOne "userid" (.int32 r.userid) = some (userDoc r) :=
  Collection.findOne_of_mem (List.mem_singleton_self _) ((hi.created r hr).1.resolve_left hn) rfl

lemma findOne_account (hi : Inv x) (hr : r ∈ x.2.created) (hn : r.userid ∉ x.2.accounts)
    {req : QueryAccountReq} (hq : (Query.account req).Names r) :
    (if req.account = "" then (x.1.db .accountInfo).findOne "userid" (.int32 req.userid)
      else (x.1.db .accountInfo).findOne "account" (.string req.account)) = some (accountDoc r) := by
  have hmem := (hi.created r hr).2.resolve_left hn
  simp only [Query.Names] at hq
  split_ifs at hq ⊢
  · rw [← hq]
    exact Collection.findOne_of_mem (k := "userid") (by simp [Coll.unique]) hmem rfl
  · rw [← hq]
    exact Collection.findOne_of_mem (k := "account") (by simp [Coll.unique]) hmem rfl

theorem answered_iff_known (x : Records × History) (hx : recorded.Reachable x) (q : Query) :
    Answered x q ↔ Known x q := by
  have hi := reachable_inv hx
  constructor
  · intro h
    constructor
    · intro habsent
      exact ec_ne q (h.unknown habsent)
    · rintro userid rfl r hr hname hup
      have hret := h.created r hr hname hup
      obtain rfl : r.userid = userid := hname
      simp only [Query.Returns, queryUser_of_found (findOne_user hi hr hup)] at hret
      exact hret.2.2.2.symm
  · intro h
    constructor
    · intro r hr hname hup
      cases q with
      | user userid =>
        have hai := h.ai userid rfl r hr hname hup
        obtain rfl : r.userid = userid := hname
        simp only [Query.Returns, queryUser_of_found (findOne_user hi hr hup)]
        exact ⟨rfl, rfl, rfl, hai.symm⟩
      | account req => exact queryAccount_of_found (findOne_account hi hr hup hname)
    · exact fun habsent => absurd habsent h.present

def firstRun : List Action :=
  [.create 3 9 (some first), .work 0 false, .work 0 false, .work 0 false, .resume 0]

lemma first_result : (recorded.run recorded.initial firstRun).map
    (fun x => (decide ((Query.account ⟨"a", 0⟩).Absent x.1.db), x.2.created)) =
      some (false, [first]) := by
  decide +kernel

theorem answered_account : ∃ x, recorded.run recorded.initial firstRun = some x ∧
    x.2.created = [first] ∧ Answered x (.account ⟨"a", 0⟩) := by
  obtain ⟨x, hx, hres⟩ := Option.map_eq_some_iff.mp first_result
  obtain ⟨hpresent, hcreated⟩ := Prod.mk.inj hres
  exact ⟨x, hx, hcreated, (answered_iff_known x ⟨_, hx⟩ _).mpr
    ⟨of_decide_eq_false hpresent, fun _ h => by simp at h⟩⟩

/-- Of a user that nobody has created the answer is success. -/
theorem unknown_success : ¬Answered recorded.initial (.user 5) := by
  intro h
  exact absurd (h.unknown (by decide)) (by decide)

end Records

end DbProxy

end Simple.Gobang
