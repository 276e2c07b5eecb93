import Simple.Gobang.DbProxy

/-! `create_user` inserts into three collections, one after the other. -/

namespace Simple.Gobang

open Simple.Lib

namespace DbProxy

variable {B : Type} {α : Type} {lost : ℕ → Bool} {db db' : Db} {ack : Ack B} {n : ℕ}
variable {coll : Coll} {doc : BsonDocument} {r : CreateUserReq}

section Attempt

variable {f : Unit → Work B α}

lemma attempt_acquire_lost (h : lost n = true) :
    (Work.acquire >>= f).attempt (Call.execFrom lost) ((db, ack), n) = (((db, ack), n), none) := by
  apply Prog.attempt_throws
  simp [Call.execFrom, Call.exec, h]

lemma attempt_acquire (h : lost n = false) :
    (Work.acquire >>= f).attempt (Call.execFrom lost) ((db, ack), n) =
      (f ()).attempt (Call.execFrom lost) ((db, ack), n + 1) := by
  apply Prog.attempt_goes_on
  simp [Call.execFrom, Call.exec, h]

lemma attempt_insertOne_refused (h : lost n = true ∨ ¬(db coll).Accepts doc) :
    (Work.insertOne coll doc >>= f).attempt (Call.execFrom lost) ((db, ack), n) =
      (((db, ack), n), none) := by
  apply Prog.attempt_throws
  rcases h with h | h
  · simp [Call.execFrom, Call.exec, h]
  · simp [Call.execFrom, Call.exec, Collection.insertOne_of_not_accepts h]

lemma attempt_insertOne (h : lost n = false) (ha : (db coll).Accepts doc) :
    (Work.insertOne coll doc >>= f).attempt (Call.execFrom lost) ((db, ack), n) =
      (f ()).attempt (Call.execFrom lost)
        ((Function.update db coll ((db coll).insert doc ha), ack), n + 1) := by
  apply Prog.attempt_goes_on
  simp [Call.execFrom, Call.exec, h, Collection.insertOne_of_accepts ha]

end Attempt

lemma accepts_aiList (c : Collection String Bson (Coll.unique .aiList)) (d : BsonDocument) :
    c.Accepts d := fun _ hk => nomatch hk

/-- The user and, where `account` says so, the account that `create_user` has inserted. -/
def Db.withUser (db : Db) (r : CreateUserReq) (h : (db .userInfo).Accepts (userDoc r)) : Db :=
  Function.update db .userInfo ((db .userInfo).insert (userDoc r) h)

def Db.withAccount (db : Db) (r : CreateUserReq) (h : (db .accountInfo).Accepts (accountDoc r)) :
    Db :=
  Function.update db .accountInfo ((db .accountInfo).insert (accountDoc r) h)

def Db.withAi (db : Db) (r : CreateUserReq) : Db :=
  Function.update db .aiList ((db .aiList).insert (aiDoc r) (accepts_aiList _ _))

section Inserts

variable {f : Unit → Work B α} {hu : (db .userInfo).Accepts (userDoc r)}
variable (h : lost n = false) (ha : (db .accountInfo).Accepts (accountDoc r))

include h

lemma attempt_user (hu : (db .userInfo).Accepts (userDoc r)) :
    (Work.insertOne .userInfo (userDoc r) >>= f).attempt (Call.execFrom lost) ((db, ack), n) =
      (f ()).attempt (Call.execFrom lost) ((db.withUser r hu, ack), n + 1) :=
  attempt_insertOne h hu

lemma attempt_account :
    (Work.insertOne .accountInfo (accountDoc r) >>= f).attempt (Call.execFrom lost)
        ((db.withUser r hu, ack), n) =
      (f ()).attempt (Call.execFrom lost) (((db.withUser r hu).withAccount r ha, ack), n + 1) :=
  attempt_insertOne h (show (db.withUser r hu .accountInfo).Accepts (accountDoc r) from ha)

lemma attempt_ai : (Work.insertOne .aiList (aiDoc r)).attempt (Call.execFrom lost) ((db, ack), n) =
    (((db.withAi r, ack), n + 1), some ()) :=
  attempt_insertOne (f := pure) h (accepts_aiList _ _)

end Inserts

lemma await_throws {work : Work B Unit} {a : Ack B}
    (h : work.attempt (Call.execFrom lost) ((db, ack), 0) = (((db', a), n), none)) :
    work.await lost db ack = (db', { a with ec := .system }) := by
  simp only [Work.await, h]

lemma await_returns {work : Work B Unit} {a : Ack B}
    (h : work.attempt (Call.execFrom lost) ((db, ack), 0) = (((db', a), n), some ())) :
    work.await lost db ack = (db', { a with ec := .success }) := by
  simp only [Work.await, h]

lemma createUser_refused (h : lost 0 = true ∨ lost 1 = true ∨ ¬(db .userInfo).Accepts (userDoc r)) :
    createUser (some r) lost db = (db, { ec := .system, body := () }) := by
  by_cases h0 : lost 0 = true
  · exact await_throws (attempt_acquire_lost h0)
  · have h1 := h.resolve_left h0
    exact await_throws ((attempt_acquire (Bool.eq_false_iff.mpr h0)).trans
      (attempt_insertOne_refused h1))

/-- What stays in the store of a request whose account is refused. -/
lemma createUser_torn (h0 : lost 0 = false) (h1 : lost 1 = false)
    (hu : (db .userInfo).Accepts (userDoc r))
    (h : lost 2 = true ∨ ¬(db .accountInfo).Accepts (accountDoc r)) :
    createUser (some r) lost db = (db.withUser r hu, { ec := .system, body := () }) := by
  apply await_throws
  unfold createUserWork
  rw [attempt_acquire h0, attempt_user h1 hu]
  exact attempt_insertOne_refused h

section Accepted

variable (h0 : lost 0 = false) (h1 : lost 1 = false) (h2 : lost 2 = false)
variable (hu : (db .userInfo).Accepts (userDoc r)) (ha : (db .accountInfo).Accepts (accountDoc r))

include h0 h1 h2

lemma createUser_player (hai : r.isAi = false) :
    createUser (some r) lost db =
      ((db.withUser r hu).withAccount r ha, { ec := .success, body := () }) := by
  apply await_returns
  unfold createUserWork
  rw [attempt_acquire h0, attempt_user h1 hu, attempt_account h2 ha, hai]
  rfl

lemma createUser_ai (hai : r.isAi = true) (h3 : lost 3 = false) :
    createUser (some r) lost db =
      (((db.withUser r hu).withAccount r ha).withAi r, { ec := .success, body := () }) := by
  apply await_returns
  unfold createUserWork
  rw [attempt_acquire h0, attempt_user h1 hu, attempt_account h2 ha, hai]
  exact attempt_ai h3

lemma createUser_ai_lost (hai : r.isAi = true) (h3 : lost 3 = true) :
    createUser (some r) lost db =
      ((db.withUser r hu).withAccount r ha, { ec := .system, body := () }) := by
  apply await_throws
  unfold createUserWork
  rw [attempt_acquire h0, attempt_user h1 hu, attempt_account h2 ha, hai]
  exact attempt_insertOne_refused (f := pure) (Or.inl h3)

end Accepted

def Unused (db : Db) (coll : Coll) (key : String) (value : Bson) : Prop :=
  ∀ e ∈ (db coll).docs, e.lookup key ≠ some value

instance (db : Db) (coll : Coll) (key : String) (value : Bson) :
    Decidable (Unused db coll key value) := inferInstanceAs (Decidable (∀ e ∈ _, _))

lemma accepts_userDoc_iff : (db .userInfo).Accepts (userDoc r) ↔
    Unused db .userInfo "userid" (.int32 r.userid) := by
  simp [Collection.Accepts, Coll.unique, Unused, userDoc, Document.lookup_cons]

lemma accepts_accountDoc_iff : (db .accountInfo).Accepts (accountDoc r) ↔
    Unused db .accountInfo "userid" (.int32 r.userid) ∧
      Unused db .accountInfo "account" (.string r.account) := by
  simp [Collection.Accepts, Coll.unique, Unused, accountDoc, Document.lookup_cons]

structure Added (r : CreateUserReq) (db db' : Db) : Prop where
  userInfo : (db' .userInfo).docs = (db .userInfo).docs ++ [userDoc r]
  accountInfo : (db' .accountInfo).docs = (db .accountInfo).docs ++ [accountDoc r]
  aiList : (db' .aiList).docs = (db .aiList).docs ++ if r.isAi then [aiDoc r] else []

/-- Nothing but the account name stands in the way of the request. -/
structure AccountTaken (r : CreateUserReq) (lost : ℕ → Bool) (db : Db) : Prop where
  connected : ∀ n < 3, lost n = false
  user : Unused db .userInfo "userid" (.int32 r.userid)
  userid : Unused db .accountInfo "userid" (.int32 r.userid)
  account : ¬Unused db .accountInfo "account" (.string r.account)

structure AllOrNothing (req : Option CreateUserReq) (lost : ℕ → Bool) (db : Db) : Prop where
  success : (createUser req lost db).2.ec = .success →
    ∃ r, req = some r ∧ Added r db (createUser req lost db).1
  system : (createUser req lost db).2.ec = .system → (createUser req lost db).1 = db
  retry : ∀ r, req = some r → AccountTaken r lost db →
    ∀ account, Unused (createUser req lost db).1 .accountInfo "account" (.string account) →
      (createUser (some { r with account := account }) (fun _ => false)
        (createUser req lost db).1).2.ec = .success

/-- The user is refused, or everything after it is inserted. -/
def Whole (req : Option CreateUserReq) (lost : ℕ → Bool) (db : Db) : Prop :=
  ∀ r, req = some r →
    (lost 0 = true ∨ lost 1 = true ∨ ¬(db .userInfo).Accepts (userDoc r)) ∨
      lost 2 = false ∧ (db .accountInfo).Accepts (accountDoc r) ∧ (r.isAi = true → lost 3 = false)

lemma whole_some_iff : Whole (some r) lost db ↔
    (lost 0 = true ∨ lost 1 = true ∨ ¬(db .userInfo).Accepts (userDoc r)) ∨
      lost 2 = false ∧ (db .accountInfo).Accepts (accountDoc r) ∧
        (r.isAi = true → lost 3 = false) := by
  simp [Whole]

lemma withUser_ne {h : (db .userInfo).Accepts (userDoc r)}
    (hdb : db' .userInfo = db.withUser r h .userInfo) : db' ≠ db := by
  rintro rfl
  have hlen := congrArg (fun c => c.docs.length) hdb
  simp [Db.withUser, Collection.insert] at hlen

lemma AllOrNothing.of_refused
    (h : lost 0 = true ∨ lost 1 = true ∨ ¬(db .userInfo).Accepts (userDoc r)) :
    AllOrNothing (some r) lost db := by
  have hcreate := createUser_refused h
  refine ⟨?_, fun _ => by rw [hcreate], ?_⟩
  · intro hec
    simp [hcreate] at hec
  · rintro _ ⟨⟩ htaken
    rcases h with h | h | h
    · simp [htaken.connected] at h
    · simp [htaken.connected] at h
    · exact absurd (accepts_userDoc_iff.mpr htaken.user) h

lemma AllOrNothing.of_created (ha : (db .accountInfo).Accepts (accountDoc r))
    (hcreate : createUser (some r) lost db = (db', { ec := .success, body := () }))
    (hadded : Added r db db') : AllOrNothing (some r) lost db := by
  refine ⟨fun _ => ⟨r, rfl, by rwa [hcreate]⟩, ?_, ?_⟩
  · intro hec
    simp [hcreate] at hec
  · rintro _ ⟨⟩ htaken
    exact absurd (accepts_accountDoc_iff.mp ha).2 htaken.account

lemma AllOrNothing.not_left (h : (db .userInfo).Accepts (userDoc r))
    (hcreate : createUser (some r) lost db = (db', { ec := .system, body := () }))
    (hdb : db' .userInfo = db.withUser r h .userInfo) : ¬AllOrNothing (some r) lost db := by
  intro hall
  have hkept := hall.system (by rw [hcreate])
  rw [hcreate] at hkept
  exact withUser_ne hdb hkept

theorem create_user_iff_whole (req : Option CreateUserReq) (lost : ℕ → Bool) (db : Db) :
    AllOrNothing req lost db ↔ Whole req lost db := by
  cases req with
  | none =>
    have hall : AllOrNothing none lost db :=
      ⟨fun hec => by simp [createUser] at hec, fun _ => rfl, fun r hr => by simp at hr⟩
    exact iff_of_true hall fun r hr => by simp at hr
  | some r =>
    rw [whole_some_iff]
    by_cases hrefused : lost 0 = true ∨ lost 1 = true ∨ ¬(db .userInfo).Accepts (userDoc r)
    · exact iff_of_true (.of_refused hrefused) (Or.inl hrefused)
    rw [or_iff_right hrefused]
    obtain ⟨h0, h1, hu⟩ : lost 0 = false ∧ lost 1 = false ∧ (db .userInfo).Accepts (userDoc r) := by
      simpa using hrefused
    by_cases htorn : lost 2 = true ∨ ¬(db .accountInfo).Accepts (accountDoc r)
    · refine iff_of_false (AllOrNothing.not_left hu (createUser_torn h0 h1 hu htorn) rfl) ?_
      rintro ⟨h2, ha, -⟩
      simp [h2, ha] at htorn
    obtain ⟨h2, ha⟩ : lost 2 = false ∧ (db .accountInfo).Accepts (accountDoc r) := by
      simpa using htorn
    cases hai : r.isAi with
    | false =>
      refine iff_of_true (.of_created ha (createUser_player h0 h1 h2 hu ha hai) ?_)
        ⟨h2, ha, fun h => by simp at h⟩
      exact ⟨rfl, rfl, by simp [hai, Db.withAccount, Db.withUser]⟩
    | true =>
      cases h3 : lost 3 with
      | false =>
        refine iff_of_true (.of_created ha (createUser_ai h0 h1 h2 hu ha hai h3) ?_)
          ⟨h2, ha, fun _ => rfl⟩
        refine ⟨rfl, rfl, ?_⟩
        rw [if_pos hai]
        rfl
      | true =>
        refine iff_of_false
          (AllOrNothing.not_left hu (createUser_ai_lost h0 h1 h2 hu ha hai h3) rfl) ?_
        rintro ⟨-, -, h3'⟩
        exact absurd (h3' rfl) (by simp)

def first : CreateUserReq where
  userid := 1
  account := "a"
  password := "x"
  winCount := 0
  loseCount := 0
  isAi := false

def second : CreateUserReq := { first with userid := 2 }

/-- The account name is taken, and the userid is lost with it. -/
theorem create_user_torn : ¬AllOrNothing (some second) (fun _ => false)
    (createUser (some first) (fun _ => false) Db.empty).1 := by
  intro h
  have hec := h.retry second rfl ⟨fun _ _ => rfl, by decide, by decide, by decide⟩ "b" (by decide)
  exact absurd hec (by decide)

end DbProxy

end Simple.Gobang
