import Simple.Net.KcpServer

/-! What a datagram does, and whose bytes it depends on. -/

namespace Simple.Net.Kcp

open Simple.Lib Simple.Lib.Bytes

/-- A datagram with data that ends before the conversation id does. -/
def Datagram.Short (d : Datagram) : Prop :=
  headSize ≤ d.bytes.length ∧ d.bytes.length < headSize + 4 ∧ d.bytes.take 3 = magic ∧
    d.bytes.getD 3 0 = opData

variable {K : Type} (ikcp : Ikcp K)

/-- The effect does not depend on what was left in the array, and is none if the datagram is
too short. -/
def Isolated (p : Server K) : Action K → Prop
  | .datagram d =>
    (∀ left : List UInt8, left.length = udpMtu →
      effect ikcp left p.sessions d = effect ikcp p.data p.sessions d) ∧
    (d.Short → effect ikcp p.data p.sessions d = (p.sessions, []))
  | .other _ => True

/-- No live session has an id that the datagram could begin, whatever is left behind it. -/
def Missed (p : Server K) : Action K → Prop
  | .datagram d => d.Short → ∀ left : List UInt8, left.length = udpMtu →
      p.sessions.get (ikcp.getconv ((received left d.bytes).1.drop headSize)) = none
  | .other _ => True

def behaviour (p : Server K) : List (Action K) → List (Sessions K × List Output)
  | [] => []
  | a :: as => ((operate ikcp p a).1.sessions, (operate ikcp p a).2) ::
      behaviour (operate ikcp p a).1 as

variable {ikcp} {data left bytes x y : List UInt8} {len : ℕ} {sessions : Sessions K} {d : Datagram}

section Congr

variable (hconv : ∀ xs ys : List UInt8, xs.take 4 = ys.take 4 → ikcp.getconv xs = ikcp.getconv ys)
include hconv

lemma getconv_congr (h : x.take len = y.take len) (hle : headSize + 4 ≤ len) :
    ikcp.getconv (x.drop headSize) = ikcp.getconv (y.drop headSize) :=
  hconv _ _ (take_drop_eq h hle)

lemma read_congr {s : Session K} {id now : ℕ} (h : x.take len = y.take len) (hhead : headSize ≤ len)
    (hlong : x.getD 3 0 = opData → headSize + 4 ≤ len) :
    s.read ikcp id x len now = s.read ikcp id y len now := by
  have hcode : x.getD 3 0 = y.getD 3 0 := getD_eq h hhead
  have hbody : (x.drop headSize).take (len - headSize) = (y.drop headSize).take (len - headSize) :=
    take_drop_eq h (by omega)
  rw [Session.read, Session.read, ← hcode]
  by_cases hdata : x.getD 3 0 = opData
  · simp only [Session.handReadData, getconv_congr hconv h (hlong hdata), hbody]
  · simp only [if_neg hdata]

lemma turn_congr (h : x.take len = y.take len)
    (hlong : headSize ≤ len → x.take 3 = magic → x.getD 3 0 = opData → headSize + 4 ≤ len) :
    turn ikcp sessions x len d = turn ikcp sessions y len d := by
  rw [turn, turn]
  by_cases hhead : len < headSize
  · rw [if_pos hhead, if_pos hhead]
  have hle : headSize ≤ len := Nat.le_of_not_lt hhead
  have hcode : x.getD 3 0 = y.getD 3 0 := getD_eq h hle
  have hmagic : x.take 3 = y.take 3 := take_eq h (Nat.le_of_succ_le hle)
  rw [if_neg hhead, if_neg hhead, ← hmagic, ← hcode]
  by_cases hx : x.take 3 = magic
  · have hdata := hlong hle hx
    have hconvOf : convOf ikcp x len = convOf ikcp y len := by
      rw [convOf, convOf, ← hcode]
      by_cases hd : x.getD 3 0 = opData
      · rw [if_pos hd, if_pos hd, getconv_congr hconv h (hdata hd)]
      · rw [if_neg hd, if_neg hd]
        by_cases hlt : len < headSize + 4
        · rw [if_pos hlt, if_pos hlt]
        · rw [if_neg hlt, if_neg hlt, take_drop_eq h (Nat.le_of_not_lt hlt)]
    have hread : readSession ikcp sessions x len d.now = readSession ikcp sessions y len d.now := by
      rw [readSession, readSession, hconvOf]
      simp only [read_congr hconv h hle hdata]
    rw [hread]
  · rw [if_pos hx, if_pos hx]

end Congr

lemma Datagram.Short.received_len (hd : d.Short) (left : List UInt8) :
    (received left d.bytes).2 = d.bytes.length := by
  have hlt := hd.2.1
  change min d.bytes.length udpMtu = d.bytes.length
  rw [Nat.min_eq_left]
  simp only [udpMtu, headSize] at hlt ⊢
  omega

lemma Datagram.Short.received_take (hd : d.Short) (left : List UInt8) :
    (received left d.bytes).1.take d.bytes.length = d.bytes.take d.bytes.length := by
  rw [← hd.received_len left]
  exact Kcp.received_take

lemma Datagram.Short.code (hd : d.Short) : (received left d.bytes).1.getD 3 0 = opData :=
  (getD_eq (hd.received_take left) hd.1).trans hd.2.2.2

lemma Datagram.Short.effect_eq (hd : d.Short) : effect ikcp left sessions d =
    readSession ikcp sessions (received left d.bytes).1 d.bytes.length d.now := by
  have hmagic : (received left d.bytes).1.take 3 = magic := by
    rw [← hd.2.2.1]
    exact take_eq (hd.received_take left) (Nat.le_of_succ_le hd.1)
  rw [effect, hd.received_len, turn, if_neg (Nat.not_lt.mpr hd.1), if_neg (not_not.mpr hmagic), hd.code,
    if_neg (by decide)]

lemma effect_missed (hd : d.Short)
    (h : sessions.get (ikcp.getconv ((received left d.bytes).1.drop headSize)) = none) :
    effect ikcp left sessions d = (sessions, []) := by
  rw [hd.effect_eq, readSession, convOf, hd.code, if_pos rfl]
  simp only [h]

lemma effect_hit (hinput : ∀ k (xs : List UInt8), xs.length < 24 → (ikcp.input k xs).2 < 0)
    (hd : d.Short) {s : Session K}
    (h : sessions.get (ikcp.getconv ((received left d.bytes).1.drop headSize)) = some s) :
    (effect ikcp left sessions d).1 =
      sessions.remove (ikcp.getconv ((received left d.bytes).1.drop headSize)) := by
  have hshort : ((received left d.bytes).1.drop headSize |>.take
      (d.bytes.length - headSize)).length < 24 := by
    have hlt := hd.2.1
    rw [List.length_take]
    simp only [headSize] at hlt ⊢
    omega
  have hneg := hinput s.kcp _ hshort
  have hstop : ∃ outputs, s.read ikcp (ikcp.getconv ((received left d.bytes).1.drop headSize))
      (received left d.bytes).1 d.bytes.length d.now = (none, outputs) := by
    rw [Session.read, hd.code]
    simp only [if_neg (show opData ≠ opDisconnect by decide),
      if_neg (show opData ≠ opHeartbeat by decide), if_neg (show opData ≠ opHeartbeatAck by decide),
      if_true, Session.handReadData, Session.stop]
    split_ifs
    · exact ⟨_, rfl⟩
    · exact ⟨_, rfl⟩
  obtain ⟨outputs, hread⟩ := hstop
  rw [hd.effect_eq, readSession, convOf, hd.code, if_pos rfl]
  simp only [h, hread]

section Runs

variable (hconv : ∀ xs ys : List UInt8, xs.take 4 = ys.take 4 → ikcp.getconv xs = ikcp.getconv ys)
include hconv

lemma effect_congr {left' : List UInt8} (hd : ¬d.Short) :
    effect ikcp left sessions d = effect ikcp left' sessions d := by
  have htake : ∀ left : List UInt8, (received left d.bytes).1.take (min d.bytes.length udpMtu) =
      d.bytes.take (min d.bytes.length udpMtu) := fun _ => received_take
  refine turn_congr hconv ((htake left).trans (htake left').symm) fun hle hmagic hdata => ?_
  change headSize ≤ min d.bytes.length udpMtu at hle
  change headSize + 4 ≤ min d.bytes.length udpMtu
  by_contra hlt
  refine hd ⟨by omega, ?_, ?_, ?_⟩
  · simp only [udpMtu, headSize] at hlt ⊢
    omega
  · rw [← hmagic]
    exact (take_eq (htake left) (Nat.le_of_succ_le hle)).symm
  · rw [← hdata]
    exact (getD_eq (htake left) hle).symm

variable (hinput : ∀ k (xs : List UInt8), xs.length < 24 → (ikcp.input k xs).2 < 0)
include hinput

lemma isolated_iff_missed {p : Server K} {a : Action K} (hdata : p.data.length = udpMtu) :
    Isolated ikcp p a ↔ Missed ikcp p a := by
  cases a with
  | other f => exact Iff.rfl
  | datagram d =>
    by_cases hd : d.Short
    · constructor
      · rintro ⟨hsame, hnone⟩ - left hleft
        by_contra hget
        obtain ⟨s, hs⟩ := Option.ne_none_iff_exists'.mp hget
        have hremove := effect_hit hinput hd hs
        rw [hsame left hleft, hnone hd] at hremove
        have := congrArg (fun t : Sessions K =>
          t.get (ikcp.getconv ((received left d.bytes).1.drop headSize))) hremove
        simp [hs, Table.get_remove] at this
      · intro hmiss
        have heffect : ∀ left : List UInt8, left.length = udpMtu →
            effect ikcp left p.sessions d = (p.sessions, []) :=
          fun left hleft => effect_missed hd (hmiss hd left hleft)
        exact ⟨fun left hleft => (heffect left hleft).trans (heffect _ hdata).symm,
          fun _ => heffect _ hdata⟩
    · exact iff_of_true ⟨fun _ _ => effect_congr hconv hd, fun h => absurd h hd⟩
        fun h => absurd h hd

omit hconv hinput in
lemma operate_length {p : Server K} (a : Action K) (h : p.data.length = udpMtu) :
    (operate ikcp p a).1.data.length = udpMtu := by
  cases a with
  | datagram d => exact received_length h
  | other f => exact h

lemma behaviour_congr {p : Server K} {as : List (Action K)} (hdata : p.data.length = udpMtu)
    {initial : Server K} (hmiss : (machine ikcp initial).Along (Missed ikcp) p as)
    (hleft : left.length = udpMtu) : behaviour ikcp ⟨left, p.sessions⟩ as = behaviour ikcp p as := by
  induction as generalizing p left with
  | nil => rfl
  | cons a as ih =>
    obtain ⟨ha, has⟩ := hmiss _ rfl
    have hsame : (operate ikcp ⟨left, p.sessions⟩ a).1.sessions = (operate ikcp p a).1.sessions ∧
        (operate ikcp ⟨left, p.sessions⟩ a).2 = (operate ikcp p a).2 := by
      cases a with
      | other f => exact ⟨rfl, rfl⟩
      | datagram d =>
        have heffect := ((isolated_iff_missed hconv hinput hdata).mpr ha).1 left hleft
        simp only [operate, heffect, and_self]
    have hlength : (operate ikcp ⟨left, p.sessions⟩ a).1.data.length = udpMtu :=
      operate_length a hleft
    have hrest := ih (operate_length a hdata) has hlength
    rw [← hsame.1] at hrest
    rw [behaviour, behaviour, hsame.1, hsame.2, ← hrest]

/-- Datagrams act by their own bytes in a run exactly when no short one could be for a live session,
and in such a run nothing that is to be seen depends on what was in the array. -/
theorem isolated_iff (p : Server K) (hdata : p.data.length = udpMtu) (as : List (Action K)) :
    ((machine ikcp p).Along (Isolated ikcp) p as ↔ (machine ikcp p).Along (Missed ikcp) p as) ∧
      ((machine ikcp p).Along (Missed ikcp) p as → ∀ left : List UInt8, left.length = udpMtu →
        behaviour ikcp ⟨left, p.sessions⟩ as = behaviour ikcp p as) := by
  refine ⟨?_, fun hmiss left hleft => behaviour_congr hconv hinput hdata hmiss hleft⟩
  refine Machine.along_congr (I := fun p : Server K => p.data.length = udpMtu) ?_
    (fun p a hp => isolated_iff_missed hconv hinput hp) hdata
  intro p a t hp ht
  obtain rfl := Option.some.inj ht
  exact operate_length a hp

end Runs

def idle : Ikcp ℕ where
  create := id
  conv := id
  getconv := fun xs => ofLe (xs.take 4)
  input := fun k xs => if xs.length < 24 then (k, -1) else (k, 0)
  recvAll := fun k => (k, [])

def serving : Server ℕ where
  data := List.replicate udpMtu 0
  sessions := (∅ : Sessions ℕ).set 18 { remote := 1, kcp := 18, lastRead := 0, lastWrite := 0 }

def leftovers : List (Action ℕ) :=
  [.datagram { bytes := [0, 0, 0, 0, 18, 0, 0, 0], remote := 2, newId := 34, now := 1 },
    .datagram { bytes := [0x62, 0xf9, 0x8e, 6], remote := 2, newId := 34, now := 2 }]

theorem leftovers_stop : ¬(machine idle serving).Along (Isolated idle) serving leftovers := by
  intro h
  have hshort := ((h _ rfl).2 _ rfl).1.2 ⟨by decide, by decide, rfl, rfl⟩
  have houtputs := congrArg Prod.snd hshort
  revert houtputs
  decide

theorem isolated_heartbeat : ((machine idle serving).Along (Isolated idle) serving
      [.datagram { bytes := [0x62, 0xf9, 0x8e, 4, 0, 0, 0, 18], remote := 1, newId := 34, now := 1 }] ↔
    (machine idle serving).Along (Missed idle) serving
      [.datagram { bytes := [0x62, 0xf9, 0x8e, 4, 0, 0, 0, 18], remote := 1, newId := 34, now := 1 }]) :=
  (@isolated_iff ℕ idle (fun _ _ h => congrArg ofLe h)
    (fun k xs h => by simp [idle, h]) serving List.length_replicate _).1

end Simple.Net.Kcp
