import Simple.Lib.Machine
import Simple.Lib.Table

/-! The ids of sockets: drawn from a counter of each type, checked against the sockets there are, and
given to a socket that enters `sockets_` only later. -/

namespace Simple.Net

open Simple.Lib

inductive SocketProtocol
  | tcp | ssl | kcp
  deriving DecidableEq

inductive SocketClass
  | server | session | client
  deriving DecidableEq

structure SocketType where
  protocol : SocketProtocol
  socketClass : SocketClass
  deriving DecidableEq

def SocketProtocol.value : SocketProtocol → UInt32
  | .tcp => 0 | .ssl => 1 | .kcp => 2

def SocketClass.value : SocketClass → UInt32
  | .server => 1 | .session => 2 | .client => 3

def SocketType.value (tp : SocketType) : UInt32 := tp.protocol.value <<< 2 ||| tp.socketClass.value

def getSocketType (id : UInt32) : UInt32 := id &&& 15

def getSocketProtocol (id : UInt32) : UInt32 := id >>> 2 &&& 3

def getSocketClass (id : UInt32) : UInt32 := id &&& 3

/-- The number of a socket: its type, and what the type's counter was before it was drawn from. The
counter counts on past 2 ^ 32, which its lowest 28 bits do not tell. -/
structure SocketKey where
  tp : SocketType
  n : ℕ
  deriving DecidableEq

def SocketKey.id (key : SocketKey) : UInt32 := UInt32.ofNat key.n <<< 4 ||| key.tp.value

/-- `drawing` are the ids that were drawn and are still to be checked. A socket is its place in
`given`; `waiting` are those that have not started yet, `opened` those that have started. -/
structure SocketIds where
  drawn : SocketType → ℕ := fun _ => 0
  drawing : List SocketKey := []
  given : List SocketKey := []
  waiting : List ℕ := []
  opened : List ℕ := []
  sockets : Table UInt32 ℕ := ∅

namespace SocketIds

/-- `fetch` and `check` are the two steps of a turn of the loop in `new_socket_id`, which any thread
may take. A server whose address is in use fails before it is inserted, and may erase its id. -/
inductive Action
  | fetch (tp : SocketType)
  | check (k : ℕ)
  | insert (j : ℕ)
  | fail (j : ℕ) (erases : Bool)
  | stop (j : ℕ)

def fetch (tp : SocketType) (s : SocketIds) : SocketIds :=
  { s with
    drawn := Function.update s.drawn tp (s.drawn tp + 1)
    drawing := s.drawing ++ [⟨tp, s.drawn tp⟩] }

def check (k : ℕ) (s : SocketIds) : Option SocketIds :=
  s.drawing[k]?.map fun key =>
    if s.sockets.get key.id = none then { s with
      drawing := s.drawing.eraseIdx k
      given := s.given ++ [key]
      waiting := s.waiting ++ [s.given.length] }
    else { s with drawing := s.drawing.eraseIdx k }

/-- `emplace` leaves a socket that is there already. -/
def emplace (id : UInt32) (j : ℕ) (sockets : Table UInt32 ℕ) : Table UInt32 ℕ :=
  match sockets.get id with
  | none => sockets.set id j
  | some _ => sockets

def insert (j : ℕ) (s : SocketIds) : Option SocketIds :=
  if j ∈ s.waiting then s.given[j]?.map fun key => { s with
    waiting := s.waiting.erase j
    opened := s.opened ++ [j]
    sockets := emplace key.id j s.sockets }
  else none

def fail (j : ℕ) (erases : Bool) (s : SocketIds) : Option SocketIds :=
  if j ∈ s.waiting then s.given[j]?.map fun key => { s with
    waiting := s.waiting.erase j
    sockets := if erases then s.sockets.remove key.id else s.sockets }
  else none

def stop (j : ℕ) (s : SocketIds) : Option SocketIds :=
  if j ∈ s.opened then s.given[j]?.map fun key => { s with
    opened := s.opened.erase j
    sockets := s.sockets.remove key.id }
  else none

def step (s : SocketIds) : Action → Option SocketIds
  | .fetch tp => some (s.fetch tp)
  | .check k => s.check k
  | .insert j => s.insert j
  | .fail j erases => s.fail j erases
  | .stop j => s.stop j

def machine : Machine SocketIds Action where
  initial := {}
  step := step

/-- The key is not older than a turn of the counter. -/
def Recent (s : SocketIds) (key : SocketKey) : Prop := s.drawn key.tp ≤ key.n + 2 ^ 28

instance (s : SocketIds) (key : SocketKey) : Decidable (s.Recent key) :=
  inferInstanceAs (Decidable (_ ≤ _))

/-- No id of the type is drawn while one that is a whole turn older has not come to its socket. -/
def Timely (s : SocketIds) : Action → Prop
  | .fetch tp => (∀ key ∈ s.drawing, key.tp = tp → s.drawn tp < key.n + 2 ^ 28) ∧
    ∀ j ∈ s.waiting, ∀ key ∈ s.given[j]?, key.tp = tp → s.drawn tp < key.n + 2 ^ 28
  | _ => True

instance (s : SocketIds) : DecidablePred s.Timely
  | .fetch tp => inferInstanceAs
      (Decidable ((∀ key ∈ s.drawing, key.tp = tp → s.drawn tp < key.n + 2 ^ 28) ∧
        ∀ j ∈ s.waiting, ∀ key ∈ s.given[j]?, key.tp = tp → s.drawn tp < key.n + 2 ^ 28))
  | .check _ | .insert _ | .fail _ _ | .stop _ => .isTrue trivial

end SocketIds

namespace SocketKey

variable {key key' : SocketKey}

lemma value_toNat (tp : SocketType) : tp.value.toNat < 16 ∧ 1 ≤ tp.value.toNat := by
  obtain ⟨protocol, socketClass⟩ := tp
  cases protocol <;> cases socketClass <;> decide

lemma value_injective {tp tp' : SocketType} (h : tp.value = tp'.value) : tp = tp' := by
  obtain ⟨protocol, socketClass⟩ := tp
  obtain ⟨protocol', socketClass'⟩ := tp'
  revert h
  cases protocol <;> cases socketClass <;> cases protocol' <;> cases socketClass' <;> decide

lemma id_toNat (key : SocketKey) : key.id.toNat = key.n % 2 ^ 28 * 2 ^ 4 + key.tp.value.toNat := by
  have hlow := (value_toNat key.tp).1
  have hshift : (UInt32.ofNat key.n <<< 4).toNat = (key.n % 2 ^ 28) <<< 4 := by
    rw [UInt32.toNat_shiftLeft, UInt32.toNat_ofNat', Nat.shiftLeft_eq, Nat.shiftLeft_eq]
    have hfour : (4 : UInt32).toNat % 32 = 4 := by decide
    rw [hfour]
    omega
  rw [id, UInt32.toNat_or, hshift, ← Nat.shiftLeft_add_eq_or_of_lt hlow, Nat.shiftLeft_eq]

lemma id_eq_iff : key.id = key'.id ↔ key.tp = key'.tp ∧ key.n % 2 ^ 28 = key'.n % 2 ^ 28 := by
  have hlow := (value_toNat key.tp).1
  have hlow' := (value_toNat key'.tp).1
  rw [← UInt32.toNat_inj, id_toNat, id_toNat]
  constructor
  · intro h
    exact ⟨value_injective (UInt32.toNat_inj.mp (by omega)), by omega⟩
  · rintro ⟨htp, hn⟩
    rw [htp, hn]

lemma getSocketType_id (key : SocketKey) : getSocketType key.id = key.tp.value := by
  have hlow := (value_toNat key.tp).1
  have hmask : (15 : UInt32).toNat = 2 ^ 4 - 1 := rfl
  rw [getSocketType, ← UInt32.toNat_inj, UInt32.toNat_and, hmask, Nat.and_two_pow_sub_one_eq_mod,
    id_toNat]
  omega

lemma getSocketClass_value (tp : SocketType) : getSocketClass tp.value = tp.socketClass.value := by
  obtain ⟨protocol, socketClass⟩ := tp
  cases protocol <;> cases socketClass <;> decide

lemma getSocketProtocol_value (tp : SocketType) : getSocketProtocol tp.value = tp.protocol.value := by
  obtain ⟨protocol, socketClass⟩ := tp
  cases protocol <;> cases socketClass <;> decide

lemma getSocketClass_id (key : SocketKey) : getSocketClass key.id = key.tp.socketClass.value := by
  rw [← getSocketClass_value, ← getSocketType_id, getSocketClass, getSocketClass, getSocketType,
    UInt32.and_assoc]
  rfl

lemma getSocketProtocol_id (key : SocketKey) : getSocketProtocol key.id = key.tp.protocol.value := by
  have htwo : (2 : UInt32).toNat % 32 = 2 := by decide
  have hthree : (3 : UInt32).toNat = 2 ^ 2 - 1 := rfl
  have hfifteen : (15 : UInt32).toNat = 2 ^ 4 - 1 := rfl
  rw [← getSocketProtocol_value, ← getSocketType_id, getSocketProtocol, getSocketProtocol,
    getSocketType, ← UInt32.toNat_inj]
  simp only [UInt32.toNat_and, UInt32.toNat_shiftRight, htwo, hthree, hfifteen,
    Nat.and_two_pow_sub_one_eq_mod, Nat.shiftRight_eq_div_pow]
  omega

end SocketKey

namespace SocketIds

variable {s s' : SocketIds} {a : Action} {tp : SocketType} {k j : ℕ} {key key' : SocketKey} {id : UInt32}

def Fresh (s : SocketIds) (key : SocketKey) : Prop := key.n < s.drawn key.tp ∧ s.Recent key

structure Inv (s : SocketIds) : Prop where
  drawing : ∀ key ∈ s.drawing, s.Fresh key
  given : ∀ key ∈ s.given, key.n < s.drawn key.tp
  distinct : (s.given ++ s.drawing).Nodup
  waiting : ∀ j ∈ s.waiting, ∃ key, s.given[j]? = some key ∧ s.Fresh key ∧
    s.sockets.get key.id = none
  waitingNodup : s.waiting.Nodup
  opened : ∀ j ∈ s.opened, ∃ key, s.given[j]? = some key ∧ s.sockets.get key.id = some j
  openedNodup : s.opened.Nodup
  table : ∀ id j, s.sockets.get id = some j → j ∈ s.opened ∧
    ∃ key, s.given[j]? = some key ∧ key.id = id
  newest : ∀ j key key', s.given[j]? = some key → key' ∈ s.given → key'.id = key.id →
    s.sockets.get key.id = some j → key'.n ≤ key.n

lemma nodup_append_singleton {T : Type} {l : List T} {x : T} (h : l.Nodup) (hx : x ∉ l) :
    (l ++ [x]).Nodup := by
  rw [← List.concat_eq_append]
  exact h.concat hx

lemma Fresh.eq (h : s.Fresh key) (h' : s.Fresh key') (hid : key.id = key'.id) : key = key' := by
  obtain ⟨htp, hn⟩ := SocketKey.id_eq_iff.mp hid
  obtain ⟨tp, n⟩ := key
  obtain ⟨tp', n'⟩ := key'
  obtain rfl : tp = tp' := htp
  simp only [Fresh, Recent] at h h' hn
  congr 1
  omega

lemma Inv.index_eq (h : Inv s) {i : ℕ} (hi : s.given[i]? = some key) (hj : s.given[j]? = some key) :
    i = j :=
  (List.getElem?_inj (List.getElem?_eq_some_iff.mp hi).1 (List.nodup_append.mp h.distinct).1).mp
    (hi.trans hj.symm)

lemma Inv.fresh_of_waiting (h : Inv s) (hj : j ∈ s.waiting) (hkey : s.given[j]? = some key) :
    s.Fresh key ∧ s.sockets.get key.id = none := by
  obtain ⟨key', hkey', hrest⟩ := h.waiting j hj
  rw [← Option.some.inj (hkey'.symm.trans hkey)]
  exact hrest

lemma Inv.found_of_opened (h : Inv s) (hj : j ∈ s.opened) (hkey : s.given[j]? = some key) :
    s.sockets.get key.id = some j := by
  obtain ⟨key', hkey', hsocket⟩ := h.opened j hj
  rw [← Option.some.inj (hkey'.symm.trans hkey)]
  exact hsocket

lemma fetch_drawn (t : SocketType) :
    (s.fetch tp).drawn t = if t = tp then s.drawn tp + 1 else s.drawn t := Function.update_apply ..

lemma Fresh.fetch (h : s.Fresh key) (htimely : key.tp = tp → s.drawn tp < key.n + 2 ^ 28) :
    (s.fetch tp).Fresh key := by
  rw [Fresh, Recent, fetch_drawn]
  split_ifs with htp
  · have hlt := htimely htp
    have hn := h.1
    rw [htp] at hn
    omega
  · exact h

lemma Inv.fetch (h : Inv s) (htimely : s.Timely (.fetch tp)) : Inv (s.fetch tp) := by
  have hmono : ∀ t, s.drawn t ≤ (s.fetch tp).drawn t := by
    intro t
    rw [fetch_drawn]
    split_ifs with ht
    · exact ht ▸ Nat.le_succ _
    · exact le_rfl
  have hpast : ∀ key ∈ s.given ++ s.drawing, key.n < s.drawn key.tp := by
    intro key hkey
    rcases List.mem_append.mp hkey with hkey | hkey
    · exact h.given key hkey
    · exact (h.drawing key hkey).1
  refine ⟨?_, ?_, ?_, ?_, h.waitingNodup, h.opened, h.openedNodup, h.table, h.newest⟩
  · intro key hkey
    rcases List.mem_append.mp hkey with hkey | hkey
    · exact (h.drawing key hkey).fetch (htimely.1 key hkey)
    · obtain rfl := List.mem_singleton.mp hkey
      rw [Fresh, Recent, fetch_drawn, if_pos rfl]
      exact ⟨Nat.lt_succ_self _, by simp⟩
  · exact fun key hkey => (h.given key hkey).trans_le (hmono key.tp)
  · have hnew : (⟨tp, s.drawn tp⟩ : SocketKey) ∉ s.given ++ s.drawing :=
      fun hmem => Nat.lt_irrefl _ (hpast _ hmem)
    have hnodup := nodup_append_singleton h.distinct hnew
    rwa [List.append_assoc] at hnodup
  · intro j hj
    obtain ⟨key, hkey, hfresh, hnone⟩ := h.waiting j hj
    exact ⟨key, hkey, hfresh.fetch (htimely.2 j hj key hkey), hnone⟩

lemma Inv.check (h : Inv s) (hs : s.check k = some s') : Inv s' := by
  obtain ⟨key, hkey, hs⟩ := Option.map_eq_some_iff.mp hs
  obtain ⟨hlt, hget⟩ := List.getElem?_eq_some_iff.mp hkey
  have hmem := List.mem_of_getElem? hkey
  have hdrawing : ∀ key ∈ s.drawing.eraseIdx k, s.Fresh key :=
    fun key hkey => h.drawing key (List.mem_of_mem_eraseIdx hkey)
  split_ifs at hs with hnone
  · obtain rfl := hs
    have hold : ∀ {i : ℕ} {key' : SocketKey}, s.given[i]? = some key' →
        (s.given ++ [key])[i]? = some key' := by
      intro i key' hi
      rw [List.getElem?_append_left (List.getElem?_eq_some_iff.mp hi).1]
      exact hi
    refine ⟨hdrawing, ?_, ?_, ?_, ?_, ?_, h.openedNodup, ?_, ?_⟩
    · intro key' hkey'
      rcases List.mem_append.mp hkey' with hkey' | hkey'
      · exact h.given key' hkey'
      · obtain rfl := List.mem_singleton.mp hkey'
        exact (h.drawing key' hmem).1
    · have hperm : (s.given ++ s.drawing).Perm (s.given ++ [key] ++ s.drawing.eraseIdx k) := by
        rw [List.append_assoc, List.singleton_append, ← hget]
        exact (List.getElem_cons_eraseIdx_perm hlt).symm.append_left _
      exact hperm.nodup_iff.mp h.distinct
    · intro j hj
      rcases List.mem_append.mp hj with hj | hj
      · obtain ⟨key', hkey', hrest⟩ := h.waiting j hj
        exact ⟨key', hold hkey', hrest⟩
      · obtain rfl := List.mem_singleton.mp hj
        exact ⟨key, List.getElem?_concat_length, h.drawing key hmem, hnone⟩
    · refine nodup_append_singleton h.waitingNodup fun hj => ?_
      obtain ⟨key', hkey', -⟩ := h.waiting _ hj
      exact Nat.lt_irrefl _ (List.getElem?_eq_some_iff.mp hkey').1
    · intro j hj
      obtain ⟨key', hkey', hsocket⟩ := h.opened j hj
      exact ⟨key', hold hkey', hsocket⟩
    · intro id j hj
      obtain ⟨hopen, key', hkey', hid⟩ := h.table id j hj
      exact ⟨hopen, key', hold hkey', hid⟩
    · intro j key₁ key₂ hkey₁ hkey₂ hid hj
      obtain ⟨-, key', hkey', -⟩ := h.table _ j hj
      obtain rfl := Option.some.inj ((hold hkey').symm.trans hkey₁)
      rcases List.mem_append.mp hkey₂ with hkey₂ | hkey₂
      · exact h.newest j key' key₂ hkey' hkey₂ hid hj
      · obtain rfl := List.mem_singleton.mp hkey₂
        exact absurd (hnone.symm.trans (hid ▸ hj)) (Option.some_ne_none j).symm
  · obtain rfl := hs
    refine ⟨hdrawing, h.given, ?_, h.waiting, h.waitingNodup, h.opened, h.openedNodup, h.table,
      h.newest⟩
    exact h.distinct.sublist ((List.eraseIdx_sublist _ _).append_left _)

lemma Inv.insert (h : Inv s) (hs : s.insert j = some s') : Inv s' := by
  rw [SocketIds.insert] at hs
  split_ifs at hs with hj
  obtain ⟨key, hkey, rfl⟩ := Option.map_eq_some_iff.mp hs
  obtain ⟨key', hkey', hfresh, hnone⟩ := h.waiting j hj
  obtain rfl : key' = key := Option.some.inj (hkey'.symm.trans hkey)
  have hget : ∀ id, (emplace key'.id j s.sockets).get id =
      if id = key'.id then some j else s.sockets.get id := by
    intro id
    rw [emplace, hnone]
    exact Table.get_set
  have hother : ∀ {i : ℕ} {key : SocketKey}, s.sockets.get key.id = some i → key.id ≠ key'.id := by
    intro i key hi hid
    exact Option.some_ne_none i (hi.symm.trans (hid ▸ hnone))
  refine ⟨h.drawing, h.given, h.distinct, ?_, h.waitingNodup.erase j, ?_, ?_, ?_, ?_⟩
  · intro i hi
    obtain ⟨hij, hi⟩ := h.waitingNodup.mem_erase_iff.mp hi
    obtain ⟨key₁, hkey₁, hfresh₁, hnone₁⟩ := h.waiting i hi
    refine ⟨key₁, hkey₁, hfresh₁, ?_⟩
    rw [hget, if_neg, hnone₁]
    intro hid
    rw [hfresh₁.eq hfresh hid] at hkey₁
    exact hij (h.index_eq hkey₁ hkey')
  · intro i hi
    rcases List.mem_append.mp hi with hi | hi
    · obtain ⟨key, hkey, hsocket⟩ := h.opened i hi
      refine ⟨key, hkey, ?_⟩
      rw [hget, if_neg (hother hsocket), hsocket]
    · obtain rfl := List.mem_singleton.mp hi
      exact ⟨key', hkey', (hget _).trans (if_pos rfl)⟩
  · refine nodup_append_singleton h.openedNodup fun hopen => ?_
    obtain ⟨key, hkey, hsocket⟩ := h.opened j hopen
    obtain rfl : key = key' := Option.some.inj (hkey.symm.trans hkey')
    exact hother hsocket rfl
  · intro id i hi
    rw [hget] at hi
    split_ifs at hi with hid
    · obtain rfl := Option.some.inj hi
      exact ⟨List.mem_append_right _ List.mem_cons_self, key', hkey', hid.symm⟩
    · obtain ⟨hopen, hrest⟩ := h.table id i hi
      exact ⟨List.mem_append_left _ hopen, hrest⟩
  · intro i key₁ key₂ hkey₁ hkey₂ hid hi
    rw [hget] at hi
    split_ifs at hi with hsame
    · obtain rfl := Option.some.inj hi
      obtain rfl : key₁ = key' := Option.some.inj (hkey₁.symm.trans hkey')
      obtain ⟨htp, hn⟩ := SocketKey.id_eq_iff.mp hid
      have hpast := h.given key₂ hkey₂
      have hrecent : s.drawn key₁.tp ≤ key₁.n + 2 ^ 28 := hfresh.2
      rw [htp] at hpast
      omega
    · exact h.newest i key₁ key₂ hkey₁ hkey₂ hid hi

lemma Inv.fail {erases : Bool} (h : Inv s) (hs : s.fail j erases = some s') : Inv s' := by
  have hj : j ∈ s.waiting := by
    by_contra hj
    rw [SocketIds.fail, if_neg hj] at hs
    cases hs
  rw [SocketIds.fail, if_pos hj] at hs
  obtain ⟨key, hkey, rfl⟩ := Option.map_eq_some_iff.mp hs
  obtain ⟨key', hkey', -, hnone⟩ := h.waiting j hj
  obtain rfl : key' = key := Option.some.inj (hkey'.symm.trans hkey)
  have hget : ∀ id, (if erases then s.sockets.remove key'.id else s.sockets).get id =
      s.sockets.get id := by
    intro id
    cases erases
    · rfl
    · rw [if_pos rfl, Table.get_remove]
      split_ifs with hid
      · exact (hid ▸ hnone).symm
      · rfl
  refine ⟨h.drawing, h.given, h.distinct, ?_, h.waitingNodup.erase j, ?_, h.openedNodup, ?_, ?_⟩ <;>
    simp only [hget]
  · exact fun i hi => h.waiting i (List.mem_of_mem_erase hi)
  · exact h.opened
  · exact h.table
  · exact h.newest

lemma Inv.stop (h : Inv s) (hs : s.stop j = some s') : Inv s' := by
  rw [SocketIds.stop] at hs
  split_ifs at hs with hj
  obtain ⟨key, hkey, rfl⟩ := Option.map_eq_some_iff.mp hs
  obtain ⟨key', hkey', hsocket⟩ := h.opened j hj
  obtain rfl : key' = key := Option.some.inj (hkey'.symm.trans hkey)
  have hget : ∀ id, (s.sockets.remove key'.id).get id =
      if id = key'.id then none else s.sockets.get id := fun id => Table.get_remove
  refine ⟨h.drawing, h.given, h.distinct, ?_, h.waitingNodup, ?_, h.openedNodup.erase j, ?_, ?_⟩
  · intro i hi
    obtain ⟨key, hkey, hfresh, hnone⟩ := h.waiting i hi
    exact ⟨key, hkey, hfresh, by rw [hget, hnone, ite_self]⟩
  · intro i hi
    obtain ⟨hij, hi⟩ := h.openedNodup.mem_erase_iff.mp hi
    obtain ⟨key, hkey, hsocket'⟩ := h.opened i hi
    refine ⟨key, hkey, ?_⟩
    rw [hget, if_neg, hsocket']
    intro hid
    rw [hid, hsocket] at hsocket'
    exact hij (Option.some.inj hsocket').symm
  · intro id i hi
    rw [hget] at hi
    split_ifs at hi with hid
    obtain ⟨hopen, key₁, hkey₁, hid₁⟩ := h.table id i hi
    refine ⟨h.openedNodup.mem_erase_iff.mpr ⟨?_, hopen⟩, key₁, hkey₁, hid₁⟩
    rintro rfl
    have hsame : key₁ = key' := Option.some.inj (hkey₁.symm.trans hkey')
    exact hid (hsame ▸ hid₁).symm
  · intro i key₁ key₂ hkey₁ hkey₂ hid hi
    rw [hget] at hi
    split_ifs at hi with hsame
    exact h.newest i key₁ key₂ hkey₁ hkey₂ hid hi

lemma step_inv (h : Inv s) (htimely : s.Timely a) (hs : s.step a = some s') : Inv s' := by
  cases a with
  | fetch tp => exact Option.some.inj hs ▸ h.fetch htimely
  | check k => exact h.check hs
  | insert j => exact h.insert hs
  | fail j erases => exact h.fail hs
  | stop j => exact h.stop hs

lemma inv_initial : Inv {} where
  drawing key hkey := absurd hkey List.not_mem_nil
  given key hkey := absurd hkey List.not_mem_nil
  distinct := List.nodup_nil
  waiting j hj := absurd hj List.not_mem_nil
  waitingNodup := List.nodup_nil
  opened j hj := absurd hj List.not_mem_nil
  openedNodup := List.nodup_nil
  table id j hj := by cases hj
  newest j key key' hkey := by cases hkey

lemma run_inv {as : List Action} (h : Inv s) (htimely : machine.Along Timely s as)
    (hrun : machine.run s as = some s') : Inv s' :=
  htimely.invariant (fun _ _ _ hs ha ht => step_inv hs ha ht) h hrun

def turn (s : SocketIds) (tp : SocketType) : List Action := [.fetch tp, .check s.drawing.length]

lemma run_turn {t : SocketIds} (h : machine.run s (s.turn tp) = some t) :
    t.drawing = s.drawing ∧ t.sockets = s.sockets ∧ t.drawn tp = s.drawn tp + 1 ∧
    t.given = if s.sockets.get (SocketKey.id ⟨tp, s.drawn tp⟩) = none then
      s.given ++ [⟨tp, s.drawn tp⟩] else s.given := by
  obtain ⟨_, hfetch, h⟩ := Machine.run_cons_eq_some.mp h
  obtain rfl := Option.some.inj hfetch
  obtain ⟨_, hcheck, h⟩ := Machine.run_cons_eq_some.mp h
  obtain rfl := Option.some.inj h
  obtain ⟨key, hkey, hs⟩ := Option.map_eq_some_iff.mp hcheck
  have hlast : (s.fetch tp).drawing[s.drawing.length]? = some ⟨tp, s.drawn tp⟩ :=
    List.getElem?_concat_length
  obtain rfl := Option.some.inj (hkey.symm.trans hlast)
  have herase : (s.fetch tp).drawing.eraseIdx s.drawing.length = s.drawing := by
    rw [SocketIds.fetch, List.eraseIdx_append_of_length_le le_rfl, Nat.sub_self]
    simp
  have hdrawn : (s.fetch tp).drawn tp = s.drawn tp + 1 := by rw [fetch_drawn, if_pos rfl]
  split_ifs at hs ⊢ with hsocket hnone hnone <;> obtain rfl := hs
  · exact ⟨herase, rfl, hdrawn, rfl⟩
  · exact absurd hsocket hnone
  · exact absurd hnone hsocket
  · exact ⟨herase, rfl, hdrawn, rfl⟩

lemma exists_run_turn (s : SocketIds) (tp : SocketType) : ∃ t, machine.run s (s.turn tp) = some t := by
  have hlast : (s.fetch tp).drawing[s.drawing.length]? = some ⟨tp, s.drawn tp⟩ :=
    List.getElem?_concat_length
  obtain ⟨t, ht⟩ : ∃ t, (s.fetch tp).check s.drawing.length = some t := by
    rw [check, hlast]
    exact ⟨_, rfl⟩
  exact ⟨t, Machine.run_cons_eq_some.mpr ⟨_, rfl, Machine.run_cons_eq_some.mpr ⟨t, ht, rfl⟩⟩⟩

lemma exists_free (s : SocketIds) (tp : SocketType) (hroom : s.sockets.toList.length < 2 ^ 28) :
    ∃ k ≤ s.sockets.toList.length, s.sockets.get (SocketKey.id ⟨tp, s.drawn tp + k⟩) = none := by
  by_contra hfull
  push Not at hfull
  have hmaps : ∀ k ∈ Finset.range (s.sockets.toList.length + 1),
      SocketKey.id ⟨tp, s.drawn tp + k⟩ ∈ (s.sockets.toList.map Prod.fst).toFinset := by
    intro k hk
    obtain ⟨j, hj⟩ := Option.ne_none_iff_exists'.mp
      (hfull k (Nat.lt_succ_iff.mp (Finset.mem_range.mp hk)))
    exact List.mem_toFinset.mpr (List.mem_map.mpr ⟨_, Table.mem_toList.mpr hj, rfl⟩)
  have hcard : (s.sockets.toList.map Prod.fst).toFinset.card <
      (Finset.range (s.sockets.toList.length + 1)).card := by
    rw [Finset.card_range, Nat.lt_succ_iff]
    exact (List.toFinset_card_le _).trans_eq (List.length_map _)
  obtain ⟨i, hi, j, hj, hne, hsame⟩ := Finset.exists_ne_map_eq_of_card_lt_of_maps_to hcard hmaps
  have hn := (SocketKey.id_eq_iff.mp hsame).2
  rw [Finset.mem_range] at hi hj
  dsimp only at hn
  omega

def loop (s : SocketIds) (tp : SocketType) (turns : ℕ) : List Action :=
  (List.replicate turns (s.turn tp)).flatten

lemma run_loop (k : ℕ) (hfull : ∀ i < k, s.sockets.get (SocketKey.id ⟨tp, s.drawn tp + i⟩) ≠ none)
    (hfree : s.sockets.get (SocketKey.id ⟨tp, s.drawn tp + k⟩) = none) :
    ∃ t, machine.run s (s.loop tp (k + 1)) = some t ∧ t.given = s.given ++ [⟨tp, s.drawn tp + k⟩] := by
  induction k generalizing s with
  | zero =>
    obtain ⟨t, ht⟩ := exists_run_turn s tp
    have hnow : s.sockets.get (SocketKey.id ⟨tp, s.drawn tp⟩) = none := hfree
    refine ⟨t, by simpa [loop] using ht, ?_⟩
    rw [(run_turn ht).2.2.2, if_pos hnow]
    rfl
  | succ k ih =>
    obtain ⟨t, ht⟩ := exists_run_turn s tp
    obtain ⟨hdrawing, hsockets, hdrawn, hgiven⟩ := run_turn ht
    have hshift : ∀ i, t.drawn tp + i = s.drawn tp + (i + 1) := by
      intro i
      rw [hdrawn]
      omega
    have hnow : s.sockets.get (SocketKey.id ⟨tp, s.drawn tp⟩) ≠ none := hfull 0 (Nat.succ_pos k)
    rw [if_neg hnow] at hgiven
    obtain ⟨u, hu, hgiven'⟩ := ih (s := t)
      (fun i hi => by rw [hsockets, hshift]; exact hfull (i + 1) (by omega))
      (by rw [hsockets, hshift]; exact hfree)
    refine ⟨u, ?_, by rw [hgiven', hgiven, hshift]⟩
    have hsplit : s.loop tp (k + 1 + 1) = s.turn tp ++ t.loop tp (k + 1) := by
      rw [loop, loop, turn, turn, hdrawing, List.replicate_succ, List.flatten_cons]
    rw [hsplit]
    exact Machine.run_append_eq_some.mpr ⟨t, ht, hu⟩

/-- No two sockets have one id at a time, be they started or still to be started; an id finds the
socket that has started with it, and no other one until its counter has come round. -/
theorem ids_identify {as : List Action} (htimely : machine.Along Timely machine.initial as)
    (hrun : machine.run machine.initial as = some s) :
    (∀ i ∈ s.waiting ++ s.opened, ∀ j ∈ s.waiting ++ s.opened, ∀ key key',
      s.given[i]? = some key → s.given[j]? = some key' → key.id = key'.id → i = j) ∧
    (∀ j ∈ s.opened, ∃ key, s.given[j]? = some key ∧ s.sockets.get key.id = some j) ∧
    ∀ j key, s.given[j]? = some key → s.Recent key →
      ∀ i, s.sockets.get key.id = some i → i = j := by
  have h : Inv s := run_inv inv_initial htimely hrun
  refine ⟨?_, h.opened, ?_⟩
  · intro i hi j hj key key' hkey hkey' hid
    rcases List.mem_append.mp hi with hi | hi <;> rcases List.mem_append.mp hj with hj | hj
    · obtain rfl := (h.fresh_of_waiting hi hkey).1.eq (h.fresh_of_waiting hj hkey').1 hid
      exact h.index_eq hkey hkey'
    · have hsome := h.found_of_opened hj hkey'
      rw [← hid, (h.fresh_of_waiting hi hkey).2] at hsome
      cases hsome
    · have hsome := h.found_of_opened hi hkey
      rw [hid, (h.fresh_of_waiting hj hkey').2] at hsome
      cases hsome
    · have hsome := h.found_of_opened hi hkey
      rw [hid, h.found_of_opened hj hkey'] at hsome
      exact (Option.some.inj hsome).symm
  · intro j key hkey hrecent i hi
    obtain ⟨-, key', hkey', hid⟩ := h.table _ i hi
    obtain ⟨htp, hn⟩ := SocketKey.id_eq_iff.mp hid
    have hle := h.newest i key' key hkey' (List.mem_of_getElem? hkey) hid.symm (hid ▸ hi)
    have hpast := h.given key' (List.mem_of_getElem? hkey')
    have hsame : key' = key := by
      rw [Recent] at hrecent
      obtain ⟨tp, n⟩ := key
      obtain ⟨tp', n'⟩ := key'
      obtain rfl : tp' = tp := htp
      simp only at hrecent hn hle hpast
      congr 1
      omega
    rw [hsame] at hkey'
    exact h.index_eq hkey' hkey

/-- With less than 2 ^ 28 sockets the loop ends after as many turns as there are sockets, and one more
at most, and it gives an id that no socket has. -/
theorem id_given (s : SocketIds) (tp : SocketType) (hroom : s.sockets.toList.length < 2 ^ 28) :
    ∃ turns ≤ s.sockets.toList.length + 1, ∃ t key, machine.run s (s.loop tp turns) = some t ∧
      t.given = s.given ++ [key] ∧ getSocketType key.id = tp.value ∧
      getSocketProtocol key.id = tp.protocol.value ∧ getSocketClass key.id = tp.socketClass.value ∧
      s.sockets.get key.id = none := by
  have hfree := exists_free s tp hroom
  have hexists : ∃ k, s.sockets.get (SocketKey.id ⟨tp, s.drawn tp + k⟩) = none :=
    hfree.imp fun k hk => hk.2
  obtain ⟨k, hk, hfree⟩ := hfree
  have hle : Nat.find hexists ≤ k := Nat.find_min' hexists hfree
  obtain ⟨t, hrun, hgiven⟩ := run_loop (Nat.find hexists) (fun i hi => Nat.find_min hexists hi)
    (Nat.find_spec hexists)
  exact ⟨Nat.find hexists + 1, by omega, t, _, hrun, hgiven, SocketKey.getSocketType_id _,
    SocketKey.getSocketProtocol_id _, SocketKey.getSocketClass_id _, Nat.find_spec hexists⟩

/-- The counter has come round to the ids of two sockets that are still there, and wraps between
them. -/
def comeRound : SocketIds where
  drawn := fun _ => 2 ^ 29 - 1
  given := [⟨⟨.kcp, .server⟩, 2 ^ 28 - 1⟩, ⟨⟨.kcp, .server⟩, 2 ^ 28⟩]
  opened := [0, 1]
  sockets := (Table.set ∅ 0xfffffff9 0).set 9 1

theorem id_given_round : (comeRound.sockets.get (SocketKey.id ⟨⟨.kcp, .server⟩, 2 ^ 29 - 1⟩) = some 0 ∧
      comeRound.sockets.get (SocketKey.id ⟨⟨.kcp, .server⟩, 2 ^ 29⟩) = some 1) ∧
    ∃ turns ≤ 3, ∃ t key, machine.run comeRound (comeRound.loop ⟨.kcp, .server⟩ turns) = some t ∧
      t.given = comeRound.given ++ [key] ∧ getSocketType key.id = 9 ∧ getSocketProtocol key.id = 2 ∧
      getSocketClass key.id = 1 ∧ comeRound.sockets.get key.id = none :=
  ⟨by decide, id_given comeRound ⟨.kcp, .server⟩ (by decide)⟩

/-- Two sockets, one that has failed, and a third one. -/
def threeSockets : List Action :=
  [.fetch ⟨.tcp, .client⟩, .fetch ⟨.tcp, .client⟩, .check 1, .check 0, .insert 1, .fail 0 true,
    .fetch ⟨.tcp, .client⟩, .check 0, .insert 2]

theorem ids_identify_three : ∃ s, machine.run machine.initial threeSockets = some s ∧
    s.opened = [1, 2] ∧ ∀ i, s.sockets.get 3 = some i → i = 1 := by
  have htimely : machine.Along Timely machine.initial threeSockets := by decide
  obtain ⟨s, hrun, hopened, hkey, hrecent⟩ : ∃ s, machine.run machine.initial threeSockets = some s ∧
      s.opened = [1, 2] ∧ s.given[1]? = some ⟨⟨.tcp, .client⟩, 0⟩ ∧
      s.Recent ⟨⟨.tcp, .client⟩, 0⟩ := ⟨_, rfl, rfl, rfl, by decide⟩
  exact ⟨s, hrun, hopened, (ids_identify htimely hrun).2.2 1 _ hkey hrecent⟩

end SocketIds

end Simple.Net
