import Simple.Gobang.DbProxy
import Simple.Lib.Machine
import Simple.Lib.Table

/-! `update_user` and `update_account`: updates are kept until a worker has written them, and a
userid that is kept already gets the newer values. The entries of a message are taken one by
one, each under its own mutex, so a worker may take its snapshots between two of them. -/

namespace Simple.Gobang

open Simple.Lib

namespace DbProxy

/-- A `user_info` or an `account_info`, without its userid. -/
structure Info (D : Type) where
  version : UInt16
  data : D
deriving DecidableEq

structure UpdateInfo (D : Type) where
  userid : Int32
  version : UInt32
  data : D

def UpdateInfo.info {D : Type} (u : UpdateInfo D) : Info D := ⟨u.version.toUInt16, u.data⟩

structure Saver (D : Type) where
  coll : Coll
  fields : D → BsonDocument
  userid_free : ∀ d, ∀ e ∈ fields d, e.1 ≠ "userid"
  fields_nodup : ∀ d, ((fields d).map Prod.fst).Nodup

structure UserData where
  winCount : Int32
  loseCount : Int32
deriving DecidableEq

structure AccountData where
  account : String
  password : String
deriving DecidableEq

def updateUser : Saver UserData where
  coll := .userInfo
  fields d := [("win_count", .int32 d.winCount), ("lose_count", .int32 d.loseCount)]
  userid_free d := by simp
  fields_nodup d := by simp

def updateAccount : Saver AccountData where
  coll := .accountInfo
  fields d := [("account", .string d.account), ("password", .string d.password)]
  userid_free d := by simp
  fields_nodup d := by simp

/-- What the worker does next: it goes through the infos, then the bulk is executed. -/
inductive Stage (D : Type)
  | acquire
  | append (todo : List Int32)
  | execute (todo : List (Int32 × D))
  | done (thrown : Bool)

structure Batch (D : Type) where
  sender : UInt16
  infos : List Int32
  output : List (Int32 × UInt16) := []
  bulk : List (Int32 × D) := []
  stage : Stage D := .acquire

/-- A message whose entries are being taken over; `new` are the userids that were not kept. -/
structure Merging (D : Type) where
  sender : UInt16
  todo : List (UpdateInfo D)
  new : List Int32 := []

structure WriteBehind (D : Type) where
  db : Db
  infos : Table Int32 (Info D) := ∅
  merging : Option (Merging D) := none
  batches : List (Batch D) := []
  sent : List (UInt16 × List (Int32 × UInt16)) := []

namespace WriteBehind

variable {D : Type}

def newUserid (s : WriteBehind D) (userid : Int32) : List Int32 :=
  match s.infos.get userid with
  | some _ => []
  | none => [userid]

/-- The next entry is taken over, or there is none left and the worker is posted. -/
def merge (s : WriteBehind D) (m : Merging D) : WriteBehind D :=
  match m.todo with
  | [] =>
    { s with
      merging := none
      batches :=
        if m.new = [] then s.batches else s.batches ++ [{ sender := m.sender, infos := m.new }] }
  | u :: todo =>
    { s with
      infos := s.infos.set u.userid u.info
      merging := some { m with todo := todo, new := m.new ++ s.newUserid u.userid } }

def put (s : WriteBehind D) (i : ℕ) (b : Batch D) : WriteBehind D :=
  { s with batches := s.batches.set i b }

/-- `update_one` without the option to insert what is not there. -/
def save (saver : Saver D) (db : Db) (userid : Int32) (d : D) : Option Db :=
  ((db saver.coll).updateOne "userid" (.int32 userid) (saver.fields d)).map fun c =>
    Function.update db saver.coll c

def saved (s : WriteBehind D) (i : ℕ) (b : Batch D) (todo : List (Int32 × D)) (db : Db) :
    WriteBehind D :=
  { s.put i { b with stage := .execute todo } with db := db }

def work (saver : Saver D) (s : WriteBehind D) (i : ℕ) (b : Batch D) (lost : Bool) :
    Option (WriteBehind D) :=
  match b.stage with
  | .acquire => some (s.put i { b with stage := if lost then .done true else .append b.infos })
  | .append [] => some (s.put i { b with stage := .execute b.bulk })
  | .append (userid :: todo) =>
    (s.infos.get userid).map fun info => s.put i { b with
      output := b.output ++ [(userid, info.version)]
      bulk := b.bulk ++ [(userid, info.data)]
      stage := .append todo }
  | .execute [] => some (s.put i { b with stage := .done lost })
  | .execute ((userid, d) :: todo) =>
    if lost then some (s.put i { b with stage := .done true })
    else
      match save saver s.db userid d with
      | none => some (s.put i { b with stage := .done true })
      | some db => some (s.saved i b todo db)
  | .done _ => none

def complete (s : WriteBehind D) (i : ℕ) (b : Batch D) (thrown : Bool) : WriteBehind D :=
  let output := if thrown then [] else b.output
  { s with
    infos := b.infos.foldl (fun t userid => t.remove userid) s.infos
    batches := s.batches.eraseIdx i
    sent := if output = [] then s.sent else s.sent ++ [(b.sender, output)] }

/-- No updates where the bytes do not parse. A worker that loses its connection throws. Only
`work` is of another thread: it may come between any two steps. -/
inductive Action (D : Type)
  | update (sender : UInt16) (input : Option (List (UpdateInfo D)))
  | merge
  | work (i : ℕ) (lost : Bool)
  | resume (i : ℕ)

def step (saver : Saver D) (s : WriteBehind D) : Action D → Option (WriteBehind D)
  | .update sender input =>
    match s.merging, input with
    | some _, _ => none
    | none, none => some s
    | none, some input => some { s with merging := some { sender := sender, todo := input } }
  | .merge => s.merging.map s.merge
  | .work i lost => s.batches[i]?.bind fun b => s.work saver i b lost
  | .resume i =>
    match s.merging with
    | some _ => none
    | none => s.batches[i]?.bind fun b =>
      match b.stage with
      | .done thrown => some (s.complete i b thrown)
      | _ => none

def machine (saver : Saver D) (db : Db) : Machine (WriteBehind D) (Action D) where
  initial := { db := db }
  step := step saver

/-- `written` is the last that was written for the userid, `stored` its document. -/
structure Announced (D : Type) where
  userid : Int32
  version : UInt16
  written : Option (Info D)
  stored : Option BsonDocument
deriving DecidableEq

/-- `arrived` are the updates of the messages as far as they have been taken over. -/
structure History (D : Type) where
  arrived : List (UpdateInfo D) := []
  written : List (Int32 × Info D) := []
  announced : List (Bool × List (Announced D)) := []

def History.arrivedOf (h : History D) (userid : Int32) : List (Info D) :=
  (h.arrived.filter fun u => u.userid = userid).map UpdateInfo.info

def History.writtenOf (h : History D) (userid : Int32) : List (Info D) :=
  (h.written.filter fun e => e.1 = userid).map Prod.snd

def History.wrote (h : History D) (es : List (Int32 × Info D)) : History D :=
  { h with written := h.written ++ es }

def stored (saver : Saver D) (db : Db) (userid : Int32) : Option BsonDocument :=
  (db saver.coll).findOne "userid" (.int32 userid)

def writes (saver : Saver D) (s : WriteBehind D) (i : ℕ) : List (Int32 × Info D) :=
  match s.batches[i]? with
  | none => []
  | some b =>
    match b.stage with
    | .execute ((userid, d) :: _) =>
      if (save saver s.db userid d).isSome then
        [(userid, ⟨(b.output.lookup userid).getD 0, d⟩)]
      else []
    | _ => []

def announces (saver : Saver D) (s : WriteBehind D) (h : History D) (i : ℕ) :
    List (Bool × List (Announced D)) :=
  match s.batches[i]? with
  | none => []
  | some b =>
    match b.stage with
    | .done thrown =>
      [(thrown, ((s.complete i b thrown).sent.drop s.sent.length).flatMap fun e =>
        e.2.map fun o => ⟨o.1, o.2, (h.writtenOf o.1).getLast?, stored saver s.db o.1⟩)]
    | _ => []

def arriving (s : WriteBehind D) : List (UpdateInfo D) :=
  match s.merging with
  | none => []
  | some m => m.todo.take 1

def record (saver : Saver D) (s : WriteBehind D) (h : History D) : Action D → History D
  | .update _ _ => h
  | .merge => { h with arrived := h.arrived ++ s.arriving }
  | .work i lost => if lost then h else h.wrote (s.writes saver i)
  | .resume i => { h with announced := h.announced ++ s.announces saver h i }

def recorded (saver : Saver D) (db : Db) : Machine (WriteBehind D × History D) (Action D) :=
  (machine saver db).withHistory {} (record saver)

def Holds (saver : Saver D) (d : D) (doc : BsonDocument) : Prop :=
  ∀ e ∈ saver.fields d, doc.lookup e.1 = some e.2

def collected (s : WriteBehind D) : List Int32 :=
  match s.merging with
  | none => []
  | some m => m.new

/-- The userids of the batches, the one that is being put together included. -/
def unfinished (s : WriteBehind D) : List Int32 :=
  s.batches.flatMap Batch.infos ++ s.collected

structure Ordered (saver : Saver D) (x : WriteBehind D × History D) : Prop where
  single : x.1.unfinished.Nodup
  written : ∀ userid, (x.2.writtenOf userid).Sublist (x.2.arrivedOf userid)
  failed : ∀ e ∈ x.2.announced, e.1 = true → e.2 = []
  announced : ∀ e ∈ x.2.announced, ∀ a ∈ e.2, ∃ info doc, a.written = some info ∧
    info.version = a.version ∧ a.stored = some doc ∧ Holds saver info.data doc

/-- When a batch that was executed is announced, its userids have documents. -/
def Stored (saver : Saver D) (x : WriteBehind D × History D) : Action D → Prop
  | .resume i => ∀ b, x.1.batches[i]? = some b → b.stage = .done false →
      ∀ userid ∈ b.infos, (stored saver x.1.db userid).isSome
  | _ => True

end WriteBehind

end DbProxy

end Simple.Gobang
