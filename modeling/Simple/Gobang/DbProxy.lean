import Simple.Lib.Documents
import Simple.Lib.Program

/-! `db_proxy`: users and their accounts are created and looked up in a document store. A worker
thread makes the calls to the driver, any of which may throw. -/

namespace Simple.Gobang

open Simple.Lib

inductive Bson
  | int32 (n : Int32)
  | bool (b : Bool)
  | string (s : String)
deriving DecidableEq

abbrev BsonDocument := Document String Bson

namespace DbProxy

inductive ErrorCode
  | success
  | system
  | noData
deriving DecidableEq

structure CreateUserReq where
  userid : Int32
  account : String
  password : String
  winCount : Int32
  loseCount : Int32
  isAi : Bool
deriving DecidableEq

structure QueryAccountReq where
  account : String
  userid : Int32

structure QueriedUser where
  userid : Int32 := 0
  winCount : Int32 := 0
  loseCount : Int32 := 0
  isAi : Bool := false
deriving DecidableEq

structure QueriedAccount where
  account : String := ""
  userid : Int32 := 0
  password : String := ""
deriving DecidableEq

/-- The result code of a message that was never set is that of success. -/
structure Ack (B : Type) where
  ec : ErrorCode := .success
  body : B
deriving DecidableEq

inductive Coll
  | userInfo
  | accountInfo
  | aiList
deriving DecidableEq

/-- The fields for which `create_index` makes an index. -/
def Coll.unique : Coll → List String
  | .userInfo => ["userid"]
  | .accountInfo => ["userid", "account"]
  | .aiList => []

abbrev Db := ∀ c : Coll, Collection String Bson c.unique

def Db.empty : Db := fun _ => ∅

/-- What a worker does: calls to the driver, changes of the message it was given, and exceptions. -/
inductive Call (B : Type)
  | acquire
  | insertOne (coll : Coll) (doc : BsonDocument)
  | findOne (coll : Coll) (key : String) (value : Bson)
  | mutate (f : Ack B → Ack B)
  | raise

def Call.Answer {B : Type} : Call B → Type
  | .acquire => Unit
  | .insertOne _ _ => Unit
  | .findOne _ _ _ => Option BsonDocument
  | .mutate _ => Unit
  | .raise => Empty

abbrev Work (B α : Type) := Prog (Call B) Call.Answer α

variable {B : Type}

def Call.exec (lost : Bool) : (x : Call B) → Db × Ack B → Option ((Db × Ack B) × x.Answer)
  | .acquire, s => if lost then none else some (s, ())
  | .insertOne coll doc, s =>
    if lost then none
    else ((s.1 coll).insertOne doc).map fun c => ((Function.update s.1 coll c, s.2), ())
  | .findOne coll key value, s => if lost then none else some (s, (s.1 coll).findOne key value)
  | .mutate f, s => some ((s.1, f s.2), ())
  | .raise, _ => none

def Work.acquire : Work B Unit := Prog.perform Call.acquire

def Work.insertOne (coll : Coll) (doc : BsonDocument) : Work B Unit :=
  Prog.perform (Call.insertOne coll doc)

def Work.findOne (coll : Coll) (key : String) (value : Bson) : Work B (Option BsonDocument) :=
  Prog.perform (Call.findOne coll key value)

def Work.mutate (f : Ack B → Ack B) : Work B Unit := Prog.perform (Call.mutate f)

def Work.getInt32 (doc : BsonDocument) (key : String) : Work B Int32 :=
  match doc.lookup key with
  | some (.int32 n) => pure n
  | _ => Prog.perform Call.raise >>= Empty.elim

def Work.getString (doc : BsonDocument) (key : String) : Work B String :=
  match doc.lookup key with
  | some (.string text) => pure text
  | _ => Prog.perform Call.raise >>= Empty.elim

/-- The `n`th step of the worker loses its connection where `lost n`. -/
def Call.execFrom (lost : ℕ → Bool) (x : Call B) (s : (Db × Ack B) × ℕ) :
    Option (((Db × Ack B) × ℕ) × x.Answer) :=
  (x.exec (lost s.2) s.1).map fun r => ((r.1, s.2 + 1), r.2)

/-- The coroutine awaits the worker, and only then sets the result code. -/
def Work.await (work : Work B Unit) (lost : ℕ → Bool) (db : Db) (ack : Ack B) : Db × Ack B :=
  match work.attempt (Call.execFrom lost) ((db, ack), 0) with
  | (((db, ack), _), some ()) => (db, { ack with ec := .success })
  | (((db, ack), _), none) => (db, { ack with ec := .system })

def userDoc (req : CreateUserReq) : BsonDocument :=
  [("userid", .int32 req.userid), ("win_count", .int32 req.winCount),
    ("lose_count", .int32 req.loseCount), ("is_ai", .bool req.isAi)]

def accountDoc (req : CreateUserReq) : BsonDocument :=
  [("userid", .int32 req.userid), ("account", .string req.account),
    ("password", .string req.password)]

def aiDoc (req : CreateUserReq) : BsonDocument := [("userid", .int32 req.userid)]

def createUserWork (req : CreateUserReq) : Work Unit Unit := do
  Work.acquire
  Work.insertOne .userInfo (userDoc req)
  Work.insertOne .accountInfo (accountDoc req)
  if req.isAi then Work.insertOne .aiList (aiDoc req)

def createUser (req : Option CreateUserReq) (lost : ℕ → Bool) (db : Db) : Db × Ack Unit :=
  match req with
  | none => (db, { ec := .system, body := () })
  | some req => (createUserWork req).await lost db { body := () }

/-- `is_ai` is set from the field `userid`. -/
def queryUserWork (userid : Int32) : Work QueriedUser Unit := do
  Work.acquire
  match ← Work.findOne .userInfo "userid" (.int32 userid) with
  | none => Work.mutate fun ack => { ack with ec := .noData }
  | some doc =>
    Work.mutate fun ack => { ack with body := { ack.body with userid := userid } }
    let isAi ← Work.getInt32 doc "userid"
    Work.mutate fun ack => { ack with body := { ack.body with isAi := isAi != 0 } }
    let winCount ← Work.getInt32 doc "win_count"
    Work.mutate fun ack => { ack with body := { ack.body with winCount := winCount } }
    let loseCount ← Work.getInt32 doc "lose_count"
    Work.mutate fun ack => { ack with body := { ack.body with loseCount := loseCount } }

def queryUser (userid : Option Int32) (lost : ℕ → Bool) (db : Db) : Ack QueriedUser :=
  match userid with
  | none => { ec := .system, body := {} }
  | some userid => ((queryUserWork userid).await lost db { body := {} }).2

def queryAccountWork (req : QueryAccountReq) : Work QueriedAccount Unit := do
  Work.acquire
  let result ←
    if req.account = "" then Work.findOne .accountInfo "userid" (.int32 req.userid)
    else Work.findOne .accountInfo "account" (.string req.account)
  match result with
  | none => Work.mutate fun ack => { ack with ec := .noData }
  | some doc =>
    let userid ← Work.getInt32 doc "userid"
    Work.mutate fun ack => { ack with body := { ack.body with userid := userid } }
    let account ← Work.getString doc "account"
    Work.mutate fun ack => { ack with body := { ack.body with account := account } }
    let password ← Work.getString doc "password"
    Work.mutate fun ack => { ack with body := { ack.body with password := password } }

def queryAccount (req : Option QueryAccountReq) (lost : ℕ → Bool) (db : Db) : Ack QueriedAccount :=
  match req with
  | none => { ec := .system, body := {} }
  | some req => ((queryAccountWork req).await lost db { body := {} }).2

end DbProxy

end Simple.Gobang
