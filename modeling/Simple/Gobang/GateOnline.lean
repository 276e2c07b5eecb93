import Simple.Gobang.GateServices

/-! When a gate takes one of its own services for online. -/

namespace Simple.Gobang

open Simple.Lib

structure Line where
  id : UInt16
  isLocal : Bool
  online : Bool := false
  socket : UInt32 := 0
deriving DecidableEq

def Service.line (s : Service) : Line := ⟨s.id, s.isLocal, s.online, s.socket⟩

def LocalSocket.bound (c : LocalSocket) : UInt32 × Option ℕ := (c.socket, c.service)

/-- The services of a gate, the number and the service of every local connection, and the
registrations that were answered with success, each with the socket it was answered on. -/
structure Bindings where
  services : List Line
  conns : List (UInt32 × Option ℕ)
  acks : List (UInt32 × UInt64)

namespace Bindings

def Live (b : Bindings) : Prop :=
  ∀ (i : ℕ) s, b.services[i]? = some s → s.isLocal = true →
    (s.online = true ↔ s.socket ≠ 0 ∧ (s.socket, some i) ∈ b.conns)

def Serves (b : Bindings) (x : UInt32) (conn : ℕ) (id : UInt16) : Prop :=
  x ≠ 0 ∧ ∃ (i : ℕ) (s : Line), b.services[i]? = some s ∧ s.id = id ∧ s.isLocal = true ∧
    s.online = true ∧ s.socket = x ∧ b.conns[conn]? = some (x, some i)

structure Sound (b : Bindings) : Prop where
  distinct : ∀ (m n : ℕ) x o p, b.conns[m]? = some (x, o) → b.conns[n]? = some (x, p) → x ≠ 0 → m = n
  bound : ∀ x i, (x, some i) ∈ b.conns → ∃ s, b.services[i]? = some s ∧ s.isLocal = true

def add (b : Bindings) (s : Line) : Bindings := { b with services := b.services ++ [s] }

def accept (b : Bindings) (x : UInt32) : Bindings := { b with conns := b.conns ++ [(x, none)] }

def ack (b : Bindings) (x : UInt32) (session : UInt64) : Bindings :=
  { b with acks := b.acks ++ [(x, session)] }

def setService (b : Bindings) (i : ℕ) (x : UInt32) (online : Bool) : Bindings :=
  { b with services := b.services.modify i fun s => { s with socket := x, online := online } }

def setConn (b : Bindings) (conn : ℕ) (x : UInt32) (o : Option ℕ) : Bindings :=
  { b with conns := b.conns.set conn (x, o) }

def bind (b : Bindings) (conn : ℕ) (x : UInt32) (i : ℕ) : Bindings :=
  (b.setConn conn x (some i)).setService i x true

def stop (b : Bindings) (conn : ℕ) (x : UInt32) (o : Option ℕ) : Bindings :=
  let b' := match o with
    | none => b
    | some i => if b.services[i]?.map Line.socket = some x then b.setService i 0 false else b
  b'.setConn conn 0 none

variable {b b' : Bindings} {i conn : ℕ} {x : UInt32} {o : Option ℕ} {s : Line}

lemma Sound.service (hs : Sound b) (hc : b.conns[conn]? = some (x, o)) (hx : x ≠ 0) {k : ℕ}
    (hk : (x, some k) ∈ b.conns) : o = some k := by
  obtain ⟨n, hn⟩ := List.mem_iff_getElem?.mp hk
  obtain rfl := hs.distinct conn n x o (some k) hc hn hx
  exact (Prod.mk.inj (Option.some.inj (hc.symm.trans hn))).2

lemma mem_setConn (hs : Sound b) (hc : b.conns[conn]? = some (x, o)) (hx : x ≠ 0)
    {y z : UInt32} {p q : Option ℕ} :
    (y, p) ∈ (b.setConn conn z q).conns ↔ (y, p) = (z, q) ∨ y ≠ x ∧ (y, p) ∈ b.conns := by
  have hlt := (List.getElem?_eq_some_iff.mp hc).1
  simp only [setConn, List.mem_iff_getElem?, List.getElem?_set]
  constructor
  · rintro ⟨n, hn⟩
    split_ifs at hn with hnc
    · exact .inl (Option.some.inj hn).symm
    · refine .inr ⟨?_, n, hn⟩
      rintro rfl
      exact hnc (hs.distinct conn n y o p hc hn hx)
  · rintro (heq | ⟨hne, n, hn⟩)
    · exact ⟨conn, by simp [hlt, heq]⟩
    · refine ⟨n, ?_⟩
      have hnc : conn ≠ n := by
        rintro rfl
        rw [hc] at hn
        exact hne (Prod.mk.inj (Option.some.inj hn)).1.symm
      rw [if_neg hnc, hn]

lemma Live.add (hl : Live b) (hs : s.isLocal = true → s.online = false ∧ s.socket = 0) :
    Live (b.add s) := by
  intro k t ht hlocal
  simp only [Bindings.add, List.getElem?_append] at ht
  split_ifs at ht with hk
  · exact hl k t ht hlocal
  · obtain rfl : s = t := List.mem_singleton.mp (List.mem_of_getElem? ht) |>.symm
    simp [hs hlocal]

lemma Live.accept (hl : Live b) : Live (b.accept x) := by
  intro k t ht hlocal
  rw [hl k t ht hlocal]
  simp [Bindings.accept]

lemma live_bind_iff (hs : Sound b) (hl : Live b) (hc : b.conns[conn]? = some (x, o))
    (hi : b.services[i]? = some s) (hlocal : s.isLocal = true) :
    Live (b.bind conn x i) ↔
      x ≠ 0 ∧ ∀ j t, o = some j → j ≠ i → b.services[j]? = some t → t.socket ≠ x := by
  have hget : ∀ k : ℕ, (b.bind conn x i).services[k]? =
      b.services[k]?.map fun t => if i = k then { t with socket := x, online := true } else t := by
    intro k
    simp only [bind, setService, setConn, List.getElem?_modify]
    split_ifs <;> rfl
  have hx : Live (b.bind conn x i) → x ≠ 0 := by
    intro h
    exact ((h i { s with socket := x, online := true } (by simp [hget, hi]) hlocal).mp rfl).1
  constructor
  · intro h
    refine ⟨hx h, ?_⟩
    rintro j t rfl hji hj rfl
    have hmem : (t.socket, some j) ∈ b.conns := List.mem_of_getElem? hc
    obtain ⟨t', ht', htl⟩ := hs.bound _ _ hmem
    obtain rfl := Option.some.inj (ht'.symm.trans hj)
    have honline := (hl j t' hj htl).mpr ⟨hx h, hmem⟩
    have hbound := (h j t' (by simp [hget, hj, hji.symm]) htl).mp honline
    rcases (mem_setConn hs hc (hx h)).mp hbound.2 with heq | ⟨hne, -⟩
    · exact hji (Option.some.inj (Prod.mk.inj heq).2)
    · exact hne rfl
  · rintro ⟨hx, hother⟩ k t ht htl
    have hmem := @mem_setConn b conn x o hs hc hx t.socket x (some k) (some i)
    rw [hget] at ht
    obtain ⟨t', ht', rfl⟩ := Option.map_eq_some_iff.mp ht
    by_cases hki : i = k
    · subst hki
      simp only [if_true] at hmem ⊢
      exact ⟨fun _ => ⟨hx, hmem.mpr (Or.inl trivial)⟩, fun _ => trivial⟩
    · simp only [if_neg hki] at htl hmem ⊢
      rw [hl k t' ht' htl]
      refine and_congr_right fun h0 => (Iff.trans ?_ hmem.symm)
      constructor
      · intro hk
        refine .inr ⟨?_, hk⟩
        rintro rfl
        exact hother k t' (hs.service hc hx hk) (Ne.symm hki) ht' rfl
      · rintro (heq | ⟨-, hk⟩)
        · exact absurd (Option.some.inj (Prod.mk.inj heq).2).symm hki
        · exact hk

lemma conns_stop : (b.stop conn x o).conns = (b.setConn conn 0 none).conns := by
  cases o with
  | none => rfl
  | some i =>
    simp only [Bindings.stop]
    split_ifs <;> rfl

lemma Live.stop (hs : Sound b) (hl : Live b) (hc : b.conns[conn]? = some (x, o)) (hx : x ≠ 0) :
    Live (b.stop conn x o) := by
  have hget : ∀ k : ℕ, (b.stop conn x o).services[k]? = b.services[k]?.map fun t =>
      if o = some k ∧ t.socket = x then { t with socket := 0, online := false } else t := by
    intro k
    cases o with
    | none => simp [Bindings.stop, setConn]
    | some i =>
      simp only [Bindings.stop, setConn, setService]
      split_ifs with hi
      · rw [List.getElem?_modify]
        by_cases hki : i = k
        · subst hki
          obtain ⟨t, ht, hts⟩ := Option.map_eq_some_iff.mp hi
          simp [ht, hts]
        · simp [hki]
      · by_cases hki : i = k
        · subst hki
          cases ht : b.services[i]? with
          | none => rfl
          | some t =>
            have hts : t.socket ≠ x := by
              rintro rfl
              exact hi (by simp [ht])
            simp [hts]
        · simp [hki]
  intro k t ht htl
  rw [hget] at ht
  obtain ⟨t', ht', rfl⟩ := Option.map_eq_some_iff.mp ht
  rw [conns_stop, mem_setConn hs hc hx]
  split_ifs at htl ⊢ with hk
  · simp
  · rw [hl k t' ht' htl]
    refine and_congr_right fun h0 => ?_
    constructor
    · intro hmem
      refine .inr ⟨?_, hmem⟩
      rintro rfl
      exact hk ⟨hs.service hc hx hmem, rfl⟩
    · rintro (heq | ⟨-, hmem⟩)
      · exact absurd (Prod.mk.inj heq).1 h0
      · exact hmem

lemma acks_stop : (b.stop conn x o).acks = b.acks := by
  cases o with
  | none => rfl
  | some i =>
    simp only [Bindings.stop]
    split_ifs <;> rfl

lemma serves_bind (hc : b.conns[conn]? = some (x, o)) (hx : x ≠ 0) (hi : b.services[i]? = some s)
    {id : UInt16} (hid : s.id = id) (hlocal : s.isLocal = true) {session : UInt64} :
    ((b.bind conn x i).ack x session).Serves x conn id := by
  have hlt := (List.getElem?_eq_some_iff.mp hc).1
  refine ⟨hx, i, { s with socket := x, online := true }, ?_, hid, hlocal, rfl, rfl, ?_⟩
  · simp [ack, bind, setService, setConn, hi]
  · simp [ack, bind, setService, setConn, hlt]

lemma serves_iff_socket (hs : Sound b) (hl : Live b) (hc : b.conns[conn]? = some (x, some i))
    (hx : x ≠ 0) (hi : b.services[i]? = some s) {id : UInt16} (hid : s.id = id)
    {session : UInt64} : (b.ack x session).Serves x conn id ↔ s.socket = x := by
  constructor
  · rintro ⟨-, j, t, hj, -, -, -, ht, hcj⟩
    obtain ⟨-, hij⟩ := Prod.mk.inj (Option.some.inj (hc.symm.trans hcj))
    obtain rfl := Option.some.inj hij
    obtain rfl := Option.some.inj (hi.symm.trans hj)
    exact ht
  · rintro rfl
    have hmem := List.mem_of_getElem? hc
    obtain ⟨t, ht, hlocal⟩ := hs.bound _ _ hmem
    obtain rfl := Option.some.inj (hi.symm.trans ht)
    exact ⟨hx, i, s, hi, hid, hlocal, (hl i s hi hlocal).mpr ⟨hx, hmem⟩, rfl, hc⟩

lemma Sound.of_services (hs : Sound b) (hconns : b'.conns = b.conns)
    (hlocal : ∀ (i : ℕ) s, b.services[i]? = some s → s.isLocal = true →
      ∃ s', b'.services[i]? = some s' ∧ s'.isLocal = true) : Sound b' := by
  constructor
  · rw [hconns]
    exact hs.distinct
  · intro x i hmem
    rw [hconns] at hmem
    obtain ⟨s, hi, hl⟩ := hs.bound x i hmem
    exact hlocal i s hi hl

lemma Sound.add (hs : Sound b) : Sound (b.add s) := by
  refine hs.of_services rfl ?_
  intro i s' hi hl
  exact ⟨s', List.getElem?_append_left (List.getElem?_eq_some_iff.mp hi).1 ▸ hi, hl⟩

lemma Sound.ack (hs : Sound b) {session : UInt64} : Sound (b.ack x session) :=
  ⟨hs.distinct, hs.bound⟩

lemma Sound.setService (hs : Sound b) {online : Bool} : Sound (b.setService i x online) := by
  refine hs.of_services rfl ?_
  intro k t hk hl
  simp only [Bindings.setService, List.getElem?_modify, hk]
  split_ifs
  · exact ⟨_, rfl, hl⟩
  · exact ⟨t, rfl, hl⟩

lemma Sound.setConn (hs : Sound b) (hc : b.conns[conn]? = some (x, o)) {z : UInt32} {q : Option ℕ}
    (hz : z = 0 ∨ z = x)
    (hq : ∀ i, q = some i → ∃ s, b.services[i]? = some s ∧ s.isLocal = true) :
    Sound (b.setConn conn z q) := by
  have hlt := (List.getElem?_eq_some_iff.mp hc).1
  -- an open connection had its number before
  have hold : ∀ (n : ℕ) y p, (b.setConn conn z q).conns[n]? = some (y, p) → y ≠ 0 →
      ∃ p', b.conns[n]? = some (y, p') := by
    intro n y p hn hy
    simp only [Bindings.setConn, List.getElem?_set, hlt, if_true] at hn
    split_ifs at hn with hnc
    · obtain ⟨rfl, rfl⟩ := Prod.mk.inj (Option.some.inj hn)
      obtain rfl := hz.resolve_left hy
      exact ⟨o, hnc ▸ hc⟩
    · exact ⟨p, hn⟩
  constructor
  · intro m n y p p' hm hn hy
    obtain ⟨_, hm'⟩ := hold m y p hm hy
    obtain ⟨_, hn'⟩ := hold n y p' hn hy
    exact hs.distinct m n y _ _ hm' hn' hy
  · intro y i hmem
    obtain hmem | hmem := List.mem_or_eq_of_mem_set hmem
    · exact hs.bound y i hmem
    · exact hq i (Prod.mk.inj hmem).2.symm

lemma Sound.accept (hs : Sound b) (hx : x ∉ b.conns.map Prod.fst) : Sound (b.accept x) := by
  have hget : ∀ (n : ℕ) y p, (b.accept x).conns[n]? = some (y, p) →
      b.conns[n]? = some (y, p) ∨ n = b.conns.length ∧ y = x := by
    intro n y p hn
    simp only [Bindings.accept, List.getElem?_append] at hn
    split_ifs at hn with hlt
    · exact .inl hn
    · obtain ⟨hlen, heq⟩ := List.getElem?_eq_some_iff.mp hn
      simp only [List.length_singleton, Nat.lt_one_iff] at hlen
      simp only [hlen, List.getElem_cons_zero, Prod.mk.injEq] at heq
      exact .inr ⟨by omega, heq.1.symm⟩
  have hfree : ∀ (n : ℕ) p, b.conns[n]? ≠ some (x, p) := by
    intro n p hn
    exact hx (List.mem_map.mpr ⟨_, List.mem_of_getElem? hn, rfl⟩)
  constructor
  · intro m n y p q hm hn hy
    rcases hget m y p hm with hm | ⟨rfl, rfl⟩ <;> rcases hget n y q hn with hn | ⟨rfl, hyx⟩
    · exact hs.distinct m n y p q hm hn hy
    · exact absurd (hyx ▸ hm) (hfree m p)
    · exact absurd hn (hfree n q)
    · rfl
  · intro y i hmem
    simp only [Bindings.accept, List.mem_append, List.mem_singleton, Prod.mk.injEq, reduceCtorEq,
      and_false, or_false] at hmem
    exact hs.bound y i hmem

lemma Sound.bind (hs : Sound b) (hc : b.conns[conn]? = some (x, o))
    (hi : b.services[i]? = some s) (hlocal : s.isLocal = true) : Sound (b.bind conn x i) := by
  apply Sound.setService
  apply hs.setConn hc (Or.inr rfl)
  rintro _ ⟨⟩
  exact ⟨s, hi, hlocal⟩

lemma Sound.stop (hs : Sound b) (hc : b.conns[conn]? = some (x, o)) : Sound (b.stop conn x o) := by
  have hnone : ∀ (c : Bindings) (i : ℕ), (none : Option ℕ) = some i →
      ∃ s, c.services[i]? = some s ∧ s.isLocal = true := by
    rintro _ _ ⟨⟩
  simp only [Bindings.stop]
  split
  · exact hs.setConn hc (Or.inl rfl) (hnone _)
  · split_ifs
    · exact hs.setService.setConn hc (Or.inl rfl) (hnone _)
    · exact hs.setConn hc (Or.inl rfl) (hnone _)

/-- Services are announced: `f` is what becomes of the flags, and new services are remote. -/
structure Told (f : ℕ → Bool → Bool) (b b' : Bindings) : Prop where
  conns : b'.conns = b.conns
  acks : b'.acks = b.acks
  known : ∀ (i : ℕ) s, b.services[i]? = some s →
    b'.services[i]? = some { s with online := f i s.online }
  new : ∀ (i : ℕ) s, b.services[i]? = none → b'.services[i]? = some s → s.isLocal = false

variable {f f' : ℕ → Bool → Bool} {b'' : Bindings}

lemma Told.refl (b : Bindings) : Told (fun _ online => online) b b := by
  refine ⟨rfl, rfl, fun _ _ h => h, ?_⟩
  intro i s hnone hsome
  rw [hnone] at hsome
  cases hsome

lemma Told.congr (h : Told f b b')
    (hf : ∀ i online, i < b.services.length → f' i online = f i online) : Told f' b b' := by
  refine ⟨h.conns, h.acks, ?_, h.new⟩
  intro i s hi
  rw [hf i s.online (List.getElem?_eq_some_iff.mp hi).1]
  exact h.known i s hi

lemma Told.trans (h : Told f b b') (h' : Told f' b' b'') :
    Told (fun i online => f' i (f i online)) b b'' := by
  refine ⟨h'.conns.trans h.conns, h'.acks.trans h.acks, ?_, ?_⟩
  · intro i s hi
    exact h'.known i _ (h.known i s hi)
  · intro i s hnone hi
    cases hi' : b'.services[i]? with
    | none => exact h'.new i s hi' hi
    | some t =>
      obtain rfl := Option.some.inj ((h'.known i t hi').symm.trans hi)
      exact h.new i t hnone hi'

lemma Told.add (hs : s.isLocal = false) : Told (fun _ online => online) b (b.add s) := by
  refine ⟨rfl, rfl, ?_, ?_⟩
  · intro i t hi
    exact (List.getElem?_append_left (List.getElem?_eq_some_iff.mp hi).1).trans hi
  · intro i t hnone hi
    rw [List.getElem?_eq_none_iff] at hnone
    rw [Bindings.add, List.getElem?_append_right hnone] at hi
    obtain rfl := List.mem_singleton.mp (List.mem_of_getElem? hi)
    exact hs

lemma Told.modify (i : ℕ) (online : Bool) : Told (fun j on => if i = j then online else on) b
    { b with services := b.services.modify i fun s => { s with online := online } } := by
  refine ⟨rfl, rfl, ?_, ?_⟩
  · intro j s hj
    simp only [List.getElem?_modify, hj]
    split_ifs <;> rfl
  · intro j s hnone hj
    simp [List.getElem?_modify, hnone] at hj

lemma Told.sound (h : Told f b b') (hs : Sound b) : Sound b' := by
  apply hs.of_services h.conns
  intro i s hi hl
  exact ⟨_, h.known i s hi, hl⟩

lemma Told.live_iff (h : Told f b b') (hl : Live b) : Live b' ↔
    ∀ (i : ℕ) s, b.services[i]? = some s → s.isLocal = true → f i s.online = s.online := by
  constructor
  · intro hl' i s hi hlocal
    have hnew := hl' i _ (h.known i s hi) hlocal
    rw [h.conns, ← hl i s hi hlocal] at hnew
    exact Bool.eq_iff_iff.mpr hnew
  · intro hf i s' hi' hlocal
    cases hi : b.services[i]? with
    | none =>
      rw [h.new i s' hi hi'] at hlocal
      cases hlocal
    | some s =>
      obtain rfl := Option.some.inj ((h.known i s hi).symm.trans hi')
      rw [h.conns, hf i s hi hlocal]
      exact hl i s hi hlocal

end Bindings

def LocalMessage.acked : LocalMessage → Option UInt64
  | .registerAck session .success _ => some session
  | _ => none

namespace Gate

def acks (g : Gate) : List (UInt32 × UInt64) :=
  g.sent.filterMap fun m => m.2.acked.map fun session => (m.1, session)

def bindings (g : Gate) : Bindings :=
  ⟨g.objects.map Service.line, g.conns.map LocalSocket.bound, g.acks⟩

variable {g g' : Gate} {now : ℕ}

lemma bindings_modifyObject {i : ℕ} {f : Service → Service} {k : Line → Line}
    (hf : ∀ s, (f s).line = k s.line) : (g.modifyObject i f).bindings =
      { g.bindings with services := g.bindings.services.modify i k } := by
  simp only [bindings, modifyObject, map_modify_comm hf]
  rfl

lemma bindings_setService {i : ℕ} {x : UInt32} {online : Bool} :
    (g.modifyObject i fun s => { s with socket := x, online := online }).bindings =
      g.bindings.setService i x online :=
  bindings_modifyObject fun _ => rfl

lemma acks_send {x : UInt32} {msg : LocalMessage} : (g.send x msg).acks =
    g.acks ++ (msg.acked.map fun session => (x, session)).toList := by
  simp only [acks, send, List.filterMap_append]
  cases h : msg.acked <;> simp [h]

lemma bindings_send {x : UInt32} {msg : LocalMessage} (h : msg.acked = none) :
    (g.send x msg).bindings = g.bindings := by
  have hacks : (g.send x msg).acks = g.acks := by simp [acks_send, h]
  simp only [bindings, hacks]
  rfl

lemma bindings_send_ack {x gate : UInt32} {session : UInt64} :
    (g.send x (.registerAck session .success gate)).bindings = g.bindings.ack x session := by
  simp only [bindings, acks_send, Bindings.ack]
  rfl

@[simp] lemma bindings_write {i : ℕ} {msg : List UInt8} :
    (write i g msg).bindings = g.bindings := by
  simp only [bindings, write, modifyObject]
  rw [map_modify]
  · rfl
  · exact fun _ => rfl

@[simp] lemma bindings_writes {i : ℕ} {queue : List (List UInt8)} :
    (queue.foldl (write i) g).bindings = g.bindings := by
  induction queue generalizing g with
  | nil => rfl
  | cons msg queue ih => rw [List.foldl_cons, ih, bindings_write]

@[simp] lemma bindings_emplaceService {i : ℕ} {s : Service} :
    (g.emplaceService i s).bindings = g.bindings := by
  simp only [emplaceService]
  split
  · rfl
  · exact bindings_writes

@[simp] lemma bindings_upload {info : ServiceInfo} :
    (g.upload now info).1.bindings = g.bindings := by
  simp only [upload]
  split <;> rfl

@[simp] lemma bindings_publish {s : Service} : (g.publish s).bindings = g.bindings := by
  simp only [publish]
  split
  · rfl
  · next conns _ =>
    have hnone : ((conns.filterMap fun c => g.conns[c]?.map fun ptr =>
        (ptr.socket, LocalMessage.subscribeBrd [s.toProto])).filterMap fun m =>
          m.2.acked.map fun session => (m.1, session)) = [] := by
      rw [List.filterMap_eq_nil_iff]
      intro m hm
      obtain ⟨c, -, hc⟩ := List.mem_filterMap.mp hm
      obtain ⟨ptr, -, rfl⟩ := Option.map_eq_some_iff.mp hc
      rfl
    simp only [bindings, acks, List.filterMap_append, hnone, List.append_nil]

@[simp] lemma bindings_update {i : ℕ} : (g.update now i).bindings = g.bindings := by
  simp only [update]
  split
  · rfl
  · rw [bindings_publish]
    split_ifs
    · rfl
    · exact bindings_upload

lemma bindings_answer {conn : ℕ} {session : UInt64} {ec : Ec} (hec : ec ≠ .success) :
    (g.answer conn session ec).bindings = g.bindings := by
  simp only [answer]
  split
  · rfl
  · apply bindings_send
    cases ec with
    | success => exact absurd rfl hec
    | _ => rfl

lemma bindings_bind {conn i : ℕ} {session : UInt64} {ptr : LocalSocket}
    (hptr : g.conns[conn]? = some ptr) : (g.bind now conn session i).bindings =
      (g.bindings.bind conn ptr.socket i).ack ptr.socket session := by
  simp only [bind, hptr, bindings_send_ack, bindings_update, bindings_setService]
  simp only [bindings, Bindings.bind, Bindings.setConn, List.map_set]
  rfl

lemma writes_frame (i : ℕ) (queue : List (List UInt8)) (g : Gate) :
    ∃ objects, queue.foldl (write i) g = { g with objects := objects } := by
  induction queue generalizing g with
  | nil => exact ⟨g.objects, rfl⟩
  | cons msg queue ih => exact ih (write i g msg)

lemma emplaceService_frame (i : ℕ) (s : Service) (g : Gate) :
    ∃ objects services types queues, g.emplaceService i s =
      { g with
        objects := objects, services := services, serviceTypes := types, sendQueues := queues } := by
  simp only [emplaceService]
  split
  · exact ⟨_, _, _, _, rfl⟩
  · next queue _ =>
    obtain ⟨objects, hwrites⟩ := writes_frame i queue { g with
      services := if (g.services.get s.id).isSome then g.services else g.services.set s.id i
      serviceTypes := g.serviceTypes.set s.tp ((g.serviceTypes.get s.tp).getD [] ++ [i]) }
    rw [hwrites]
    exact ⟨_, _, _, _, rfl⟩

lemma addLocalService_frame (req : RegisterRequest) (g : Gate) :
    ∃ objects services types queues shm, g.addLocalService req =
      { g with
        objects := objects, services := services, serviceTypes := types, sendQueues := queues
        shm := shm } := by
  obtain ⟨objects, services, types, queues, h⟩ := emplaceService_frame g.objects.length _ _
  exact ⟨objects, services, types, queues, _, h⟩

lemma bindings_addLocalService {req : RegisterRequest} : (g.addLocalService req).bindings =
    g.bindings.add { id := req.info.id.toUInt16, isLocal := true } := by
  simp only [addLocalService, bindings_emplaceService]
  simp only [bindings, Bindings.add, List.map_append]
  rfl

@[simp] lemma bindings_serviceSubscribe {conn : ℕ} {session : UInt64} {tp : UInt16} :
    (g.serviceSubscribe conn session tp).bindings = g.bindings := by
  simp only [serviceSubscribe]
  split
  · rfl
  · next ptr hptr =>
    have hconns : ∀ l, (g.conns.set conn { ptr with subscribe := l }).map LocalSocket.bound =
        g.conns.map LocalSocket.bound := fun l => map_set hptr rfl
    split
    · exact bindings_send rfl
    · rw [bindings_send rfl]
      simp only [bindings, hconns]
      rfl

lemma bindings_socketStop {conn : ℕ} {ptr : LocalSocket} :
    (g.socketStop now conn ptr).bindings = g.bindings.stop conn ptr.socket ptr.service := by
  have hconns : ∀ g : Gate, ∀ infos, ({ g with
      subscribeInfos := infos
      conns := g.conns.set conn { ptr with service := none, socket := 0 } } : Gate).bindings =
      g.bindings.setConn conn 0 none := by
    intro g infos
    simp only [bindings, Bindings.setConn, List.map_set]
    rfl
  simp only [socketStop, hconns, Bindings.stop]
  cases ptr.service with
  | none => rfl
  | some i =>
    have hi : g.bindings.services[i]?.map Line.socket = g.objects[i]?.map Service.socket := by
      simp only [bindings, List.getElem?_map, Option.map_map]
      rfl
    simp only [hi]
    split_ifs
    · rw [bindings_update, bindings_setService]
    · rfl

@[simp] lemma bindings_forward {dest : UInt16} {msg : List UInt8} :
    (g.forward dest msg).bindings = g.bindings := by
  simp only [forward]
  split
  · rfl
  · exact bindings_write

@[simp] lemma bindings_recvOneMessage {session : UInt64} {msg : MasterMessage} :
    (g.recvOneMessage session msg).bindings = g.bindings := by
  cases msg with
  | registerAck session' ec gates =>
    simp only [recvOneMessage]
    split_ifs <;> rfl
  | _ => rfl

def told (g : Gate) (infos : List ServiceInfo) (i : ℕ) (online : Bool) : Bool :=
  infos.foldl (fun on info => if g.services.get info.id.toUInt16 = some i then info.online else on)
    online

lemma told_append (infos infos' : List ServiceInfo) (i : ℕ) (online : Bool) :
    g.told (infos ++ infos') i online = g.told infos' i (g.told infos i online) := by
  simp only [told, List.foldl_append]

lemma told_of_grows {R : Key → Prop} (h : Shape.Grows R g.shape g'.shape)
    (infos : List ServiceInfo) {i : ℕ} (hi : i < g.objects.length) (online : Bool) :
    g'.told infos i online = g.told infos i online := by
  have hlt : i < g.shape.keys.length := by simpa [shape] using hi
  have hget : ∀ id, g'.shape.services.get id = some i ↔ g.shape.services.get id = some i :=
    fun _ => h.get_iff hlt
  simp only [shape] at hget
  simp only [told, hget]

lemma remoteService_told {h : UInt16} {info : ServiceInfo} :
    Bindings.Told (fun _ online => online) g.bindings (remoteService h g info).1.bindings := by
  simp only [remoteService]
  split
  · exact .refl _
  · have hadd : ∀ s, ({ g with objects := g.objects ++ [s] } : Gate).bindings =
        g.bindings.add s.line := by
      intro s
      simp only [bindings, Bindings.add, List.map_append]
      rfl
    rw [bindings_emplaceService, hadd]
    exact .add rfl

lemma remoteService_eq_iff (h : UInt16) (info : ServiceInfo) {i : ℕ} (hi : i < g.objects.length) :
    (remoteService h g info).2 = i ↔ g.services.get info.id.toUInt16 = some i := by
  simp only [remoteService]
  split
  · next j hj => rw [hj, Option.some.injEq]
  · next hnone =>
    rw [hnone]
    simp only [reduceCtorEq, iff_false]
    exact hi.ne'

lemma addRemoteService_told {h : UInt16} {info : ServiceInfo} :
    Bindings.Told (g.told [info]) g.bindings (addRemoteService h now g info).bindings := by
  have hbindings : (addRemoteService h now g info).bindings =
      { (remoteService h g info).1.bindings with
        services := (remoteService h g info).1.bindings.services.modify (remoteService h g info).2
          fun s => { s with online := info.online } } := by
    rw [addRemoteService, bindings_update]
    exact bindings_modifyObject fun _ => rfl
  rw [hbindings]
  refine (remoteService_told.trans (.modify _ _)).congr ?_
  intro i online hi
  have hlt : i < g.objects.length := by simpa [bindings] using hi
  have hiff := remoteService_eq_iff h info hlt
  simp only [told, List.foldl_cons, List.foldl_nil, hiff]

lemma addRemoteServices_told (h : UInt16) (now : ℕ) (infos : List ServiceInfo) (g : Gate) :
    Bindings.Told (g.told infos) g.bindings (infos.foldl (addRemoteService h now) g).bindings := by
  induction infos generalizing g with
  | nil => exact .refl _
  | cons info infos ih =>
    refine (addRemoteService_told.trans (ih _)).congr ?_
    intro i online hi
    rw [told_of_grows addRemoteService_grows infos (by simpa [bindings] using hi)]
    exact told_append [info] infos i online

lemma addRemoteGate_told {info : GateInfo} :
    Bindings.Told (g.told info.services) g.bindings (addRemoteGate now g info).bindings :=
  addRemoteServices_told info.id.toUInt16 now info.services { g with
    remoteGates := g.remoteGates.set info.id.toUInt16
      (info.addresses.map fun a => a.host ++ "," ++ a.port) }

lemma addRemoteGates_told {gates : List GateInfo} :
    Bindings.Told (g.told (gates.flatMap GateInfo.services)) g.bindings
      (gates.foldl (addRemoteGate now) g).bindings := by
  induction gates generalizing g with
  | nil => exact .refl _
  | cons info gates ih =>
    refine (addRemoteGate_told.trans ih).congr ?_
    intro i online hi
    rw [told_of_grows addRemoteGate_grows _ (by simpa [bindings] using hi), List.flatMap_cons]
    exact told_append _ _ i online

/-- A local service is online exactly when an open connection is bound to it. -/
def Live (g : Gate) : Prop :=
  ∀ (i : ℕ) s, g.objects[i]? = some s → s.isLocal = true →
    (s.online = true ↔
      s.socket ≠ 0 ∧ ∃ ptr ∈ g.conns, ptr.socket = s.socket ∧ ptr.service = some i)

/-- The service `id` is online, and bound to the connection, which has the number `x`. -/
def Serves (g : Gate) (x : UInt32) (conn : ℕ) (id : UInt16) : Prop :=
  x ≠ 0 ∧ ∃ i s ptr, g.objects[i]? = some s ∧ s.id = id ∧ s.isLocal = true ∧ s.online = true ∧
    s.socket = x ∧ g.conns[conn]? = some ptr ∧ ptr.socket = x ∧ ptr.service = some i

def asked (g : Gate) : ℕ × Action → Option (ℕ × UInt64 × UInt16)
  | (_, .register conn session req) => some (conn, session, req.info.id.toUInt16)
  | (_, .resume r) =>
    g.registrations[r]?.map fun reg => (reg.conn, reg.session, reg.req.info.id.toUInt16)
  | _ => none

def Acked (g : Gate) (a : ℕ × Action) : Prop :=
  ∀ g', g.step a = some g' → ∀ x session, (x, session) ∈ g'.acks.drop g.acks.length →
    ∃ conn id, g.asked a = some (conn, session, id) ∧ g'.Serves x conn id

def Repeats (g : Gate) (gates : List GateInfo) : Prop :=
  ∀ (i : ℕ) s, g.objects[i]? = some s → s.isLocal = true →
    g.told (gates.flatMap GateInfo.services) i s.online = s.online

/-- A connection that registers again has its service still, one whose upload has succeeded is
open and has no other service, and the gate master says nothing new of a local service. -/
def Kept (g : Gate) : ℕ × Action → Prop
  | (_, .register conn _ req) => ∀ ptr i s, g.conns[conn]? = some ptr → ptr.socket ≠ 0 →
      ptr.service = some i → g.objects[i]? = some s → s.id = req.info.id.toUInt16 → s.id ≠ 0 →
        s.socket = ptr.socket
  | (_, .resume r) => ∀ reg ptr, g.registrations[r]? = some reg → reg.upload = .done .success →
      g.conns[reg.conn]? = some ptr → ptr.socket ≠ 0 ∧
        ∀ i s, ptr.service = some i → g.objects[i]? = some s → s.socket ≠ ptr.socket
  | (_, .recv (.registerBrd gates)) => g.phase = .running → g.Repeats gates
  | (_, .registered) => ∀ gates, g.phase = .registered .success gates → g.Repeats gates
  | _ => True

lemma conns_bindings {conn : ℕ} {ptr : LocalSocket} (h : g.conns[conn]? = some ptr) :
    g.bindings.conns[conn]? = some (ptr.socket, ptr.service) := by
  simp [bindings, h, LocalSocket.bound]

lemma services_bindings {i : ℕ} {s : Service} (h : g.objects[i]? = some s) :
    g.bindings.services[i]? = some s.line := by
  simp [bindings, h]

lemma services_bindings_add {s : Line} :
    (g.bindings.add s).services[g.objects.length]? = some s := by
  simp [bindings, Bindings.add]

lemma serves_iff {x : UInt32} {conn : ℕ} {id : UInt16} :
    g.Serves x conn id ↔ g.bindings.Serves x conn id := by
  simp only [Serves, Bindings.Serves, bindings, List.getElem?_map, Option.map_eq_some_iff]
  refine and_congr_right fun _ => ?_
  constructor
  · rintro ⟨i, s, ptr, hs, hid, hlocal, honline, hsocket, hptr, hx, hi⟩
    exact ⟨i, s.line, ⟨s, hs, rfl⟩, hid, hlocal, honline, hsocket, ptr, hptr,
      by rw [LocalSocket.bound, hx, hi]⟩
  · rintro ⟨i, _, ⟨s, hs, rfl⟩, hid, hlocal, honline, hsocket, ptr, hptr, hbound⟩
    obtain ⟨hx, hi⟩ := Prod.mk.inj hbound
    exact ⟨i, s, ptr, hs, hid, hlocal, honline, hsocket, hptr, hx, hi⟩

lemma live_iff : g.Live ↔ g.bindings.Live := by
  have hmem : ∀ x i, (∃ ptr ∈ g.conns, ptr.socket = x ∧ ptr.service = some i) ↔
      (x, some i) ∈ g.bindings.conns := by
    intro x i
    simp [bindings, LocalSocket.bound]
  simp only [Live, Bindings.Live, hmem]
  constructor
  · intro h i s hi hlocal
    simp only [bindings, List.getElem?_map, Option.map_eq_some_iff] at hi
    obtain ⟨s, hs, rfl⟩ := hi
    exact h i s hs hlocal
  · intro h i s hi hlocal
    exact h i s.line (by simp [bindings, hi]) hlocal

inductive Rebound (g : Gate) : ℕ × Action → Bindings → Prop
  | same {a : ℕ × Action} (ha : Kept g a) : Rebound g a g.bindings
  | accept {now : ℕ} {x : UInt32} (hx : x ≠ 0) (hfree : x ∉ g.conns.map LocalSocket.socket) :
      Rebound g (now, .accept x) (g.bindings.accept x)
  | stop {now conn : ℕ} {ptr : LocalSocket} (hptr : g.conns[conn]? = some ptr)
      (hopen : ptr.socket ≠ 0) :
      Rebound g (now, .stop conn) (g.bindings.stop conn ptr.socket ptr.service)
  | again {now conn i : ℕ} {session : UInt64} {req : RegisterRequest} {ptr : LocalSocket}
      {s : Service} (hptr : g.conns[conn]? = some ptr) (hopen : ptr.socket ≠ 0)
      (hservice : ptr.service = some i) (hs : g.objects[i]? = some s)
      (hid : s.id = req.info.id.toUInt16) (hpos : s.id ≠ 0) :
      Rebound g (now, .register conn session req) (g.bindings.ack ptr.socket session)
  | bind {now conn i : ℕ} {session : UInt64} {req : RegisterRequest} {ptr : LocalSocket}
      {s : Service} (hptr : g.conns[conn]? = some ptr) (hopen : ptr.socket ≠ 0)
      (hservice : ptr.service = none) (hget : g.services.get req.info.id.toUInt16 = some i)
      (hs : g.objects[i]? = some s) (hlocal : s.isLocal = true) :
      Rebound g (now, .register conn session req)
        ((g.bindings.bind conn ptr.socket i).ack ptr.socket session)
  | resume {now r : ℕ} {reg : Registration} {ptr : LocalSocket}
      (hreg : g.registrations[r]? = some reg) (hdone : reg.upload = .done .success)
      (hptr : g.conns[reg.conn]? = some ptr) : Rebound g (now, .resume r)
        (((g.bindings.add { id := reg.req.info.id.toUInt16, isLocal := true }).bind reg.conn
          ptr.socket g.objects.length).ack ptr.socket reg.session)
  | add {now r : ℕ} {reg : Registration} (hreg : g.registrations[r]? = some reg)
      (hptr : g.conns[reg.conn]? = none) : Rebound g (now, .resume r)
        (g.bindings.add { id := reg.req.info.id.toUInt16, isLocal := true })
  | told {a : ℕ × Action} {gates : List GateInfo} {b : Bindings}
      (ha : Kept g a ↔ g.Repeats gates) (hask : g.asked a = none)
      (hb : Bindings.Told (g.told (gates.flatMap GateInfo.services)) g.bindings b) : Rebound g a b

lemma serviceRegister_rebound {conn : ℕ} {session : UInt64} {req : RegisterRequest} :
    Rebound g (now, .register conn session req)
      (g.serviceRegister now conn session req).bindings := by
  simp only [serviceRegister]
  cases hptr : g.conns[conn]? with
  | none =>
    apply Rebound.same
    intro ptr' i s hptr'
    rw [hptr] at hptr'
    cases hptr'
  | some ptr =>
    -- what `Kept` asks is about this connection only
    have hsame : (∀ i s, ptr.socket ≠ 0 → ptr.service = some i → g.objects[i]? = some s →
        s.id = req.info.id.toUInt16 → s.id ≠ 0 → False) →
        Rebound g (now, .register conn session req) g.bindings := by
      intro hnot
      apply Rebound.same
      intro ptr' i s hptr' hopen hservice hs hid hpos
      obtain rfl := Option.some.inj (hptr.symm.trans hptr')
      exact (hnot i s hopen hservice hs hid hpos).elim
    simp only
    split_ifs with hopen hid
    · exact hsame fun _ _ hne => absurd hopen hne
    · rw [bindings_answer (by simp)]
      exact hsame fun _ _ _ _ _ hid' hpos => hpos (hid'.trans hid)
    · cases hservice : ptr.service with
      | some i =>
        simp only
        split_ifs with hown
        · obtain ⟨s, hs, hsid⟩ := Option.map_eq_some_iff.mp hown
          simp only [answer, hptr, bindings_send_ack]
          exact .again hptr hopen hservice hs hsid (hsid ▸ hid)
        · rw [bindings_answer (by simp)]
          apply hsame
          intro j s _ hj hs hsid _
          obtain rfl := Option.some.inj (hservice.symm.trans hj)
          exact hown (by rw [hs, Option.map_some, hsid])
      | none =>
        have hfree : Rebound g (now, .register conn session req) g.bindings := by
          apply hsame
          intro i s _ hi
          rw [hservice] at hi
          cases hi
        cases hget : g.services.get req.info.id.toUInt16 with
        | none =>
          simp only
          refine Eq.subst ?_ hfree
          exact bindings_upload.symm
        | some i =>
          simp only
          split_ifs with hlocal
          · obtain ⟨s, hs, hl⟩ := Option.map_eq_some_iff.mp hlocal
            rw [bindings_bind hptr]
            exact .bind hptr hopen hservice hget hs hl
          · rw [bindings_answer (by simp)]
            exact hfree

lemma resume_rebound {r : ℕ} {reg : Registration} {ec : Ec}
    (hreg : g.registrations[r]? = some reg) (hdone : reg.upload = .done ec) :
    Rebound g (now, .resume r) (g.resume now r reg ec).bindings := by
  have hadd : (({ g with registrations := g.registrations.eraseIdx r } : Gate).addLocalService
      reg.req).bindings = g.bindings.add { id := reg.req.info.id.toUInt16, isLocal := true } :=
    bindings_addLocalService
  have hconns : (({ g with registrations := g.registrations.eraseIdx r } : Gate).addLocalService
      reg.req).conns = g.conns := by
    obtain ⟨_, _, _, _, _, h⟩ := addLocalService_frame reg.req
      { g with registrations := g.registrations.eraseIdx r }
    rw [h]
  simp only [resume]
  split_ifs with hec
  · rw [bindings_answer hec]
    apply Rebound.same
    intro reg' ptr hreg' hdone'
    obtain rfl := Option.some.inj (hreg.symm.trans hreg')
    rw [hdone, Upload.done.injEq] at hdone'
    exact absurd hdone' hec
  · rw [not_not] at hec
    subst hec
    cases hptr : g.conns[reg.conn]? with
    | none =>
      simp only [Gate.bind, hconns, hptr, hadd]
      exact .add hreg hptr
    | some ptr =>
      rw [bindings_bind (hconns.symm ▸ hptr), hadd]
      exact .resume hreg hdone hptr

lemma Stepped.rebound {a : ℕ × Action} (h : Stepped g a g') : Rebound g a g'.bindings := by
  cases h with
  | accept hs hfree =>
    have haccept : ∀ x, ({ g with conns := g.conns ++ [{ socket := x }] } : Gate).bindings =
        g.bindings.accept x := by
      intro x
      simp only [bindings, Bindings.accept, List.map_append]
      rfl
    rw [haccept]
    exact .accept hs hfree
  | register => exact serviceRegister_rebound
  | subscribe =>
    rw [bindings_serviceSubscribe]
    exact .same trivial
  | stop hptr hopen =>
    rw [bindings_socketStop]
    exact .stop hptr hopen
  | resume hreg hdone => exact resume_rebound hreg hdone
  | expire =>
    rw [Gate.expire, bindings_answer (by simp)]
    exact .same trivial
  | forward =>
    rw [bindings_forward]
    exact .same trivial
  | connect => exact .same trivial
  | @recvOneMessage now session msg hphase =>
    rw [bindings_recvOneMessage]
    apply Rebound.same
    cases msg with
    | registerBrd gates =>
      intro hrunning
      rw [hphase] at hrunning
      cases hrunning
    | _ => trivial
  | @forwardMessage now msg hphase =>
    cases msg with
    | registerBrd gates =>
      refine .told ?_ rfl addRemoteGates_told
      exact ⟨fun h => h hphase, fun h _ => h⟩
    | updateAck session ec =>
      simp only [Gate.forwardMessage]
      split_ifs <;> exact .same trivial
    | _ => exact .same trivial
  | @registered now ec gates hphase =>
    simp only [registerToMaster]
    split_ifs with hec
    · apply Rebound.same
      intro gates' hphase'
      rw [hphase, Phase.registered.injEq] at hphase'
      exact absurd hphase'.1 hec
    · rw [not_not] at hec
      subst hec
      have hkept : Kept g (now, .registered) ↔ g.Repeats gates := by
        constructor
        · exact fun h => h gates hphase
        · intro h gates' hphase'
          rw [hphase, Phase.registered.injEq] at hphase'
          exact hphase'.2 ▸ h
      exact .told hkept rfl addRemoteGates_told
  | ping => exact .same trivial
  | lose => exact .same trivial

lemma Rebound.sound {a : ℕ × Action} {b : Bindings} (hr : Rebound g a b)
    (hs : g.bindings.Sound) : b.Sound := by
  cases hr with
  | same => exact hs
  | accept hx hfree =>
    apply hs.accept
    simpa [bindings, LocalSocket.bound, Function.comp_def] using hfree
  | stop hptr hopen => exact hs.stop (conns_bindings hptr)
  | again => exact hs.ack
  | bind hptr _ _ _ hobj hlocal =>
    exact (hs.bind (conns_bindings hptr) (services_bindings hobj) hlocal).ack
  | resume hreg hdone hptr =>
    exact (hs.add.bind (conns_bindings hptr) services_bindings_add rfl).ack
  | add => exact hs.add
  | told _ _ hb => exact hb.sound hs

lemma forall_acks_of_eq {l l' : List (UInt32 × UInt64)} {P : UInt32 → UInt64 → Prop} (h : l = l')
    (x : UInt32) (session : UInt64) (hmem : (x, session) ∈ l.drop l'.length) : P x session := by
  simp [h] at hmem

lemma forall_acks_iff {l : List (UInt32 × UInt64)} {P : UInt32 → UInt64 → Prop} {x : UInt32}
    {session : UInt64} :
    (∀ y session', (y, session') ∈ (l ++ [(x, session)]).drop l.length → P y session') ↔
      P x session := by
  simp

lemma exists_asked_iff {conn : ℕ} {session : UInt64} {id : UInt16} {P : ℕ → UInt16 → Prop} :
    (∃ conn' id', some (conn, session, id) = some (conn', session, id') ∧ P conn' id') ↔
      P conn id := by
  constructor
  · rintro ⟨_, _, ⟨⟩, h⟩
    exact h
  · exact fun h => ⟨conn, id, rfl, h⟩

lemma kept_register_iff {conn i : ℕ} {session : UInt64} {req : RegisterRequest} {ptr : LocalSocket}
    {s : Service} (hptr : g.conns[conn]? = some ptr) (hopen : ptr.socket ≠ 0)
    (hservice : ptr.service = some i) (hs : g.objects[i]? = some s)
    (hid : s.id = req.info.id.toUInt16) (hpos : s.id ≠ 0) :
    Kept g (now, .register conn session req) ↔ s.socket = ptr.socket := by
  constructor
  · exact fun h => h ptr i s hptr hopen hservice hs hid hpos
  · intro h ptr' j t hptr' _ hj ht _ _
    obtain rfl := Option.some.inj (hptr.symm.trans hptr')
    obtain rfl := Option.some.inj (hservice.symm.trans hj)
    obtain rfl := Option.some.inj (hs.symm.trans ht)
    exact h

lemma kept_resume_iff {r : ℕ} {reg : Registration} {ptr : LocalSocket}
    (hreg : g.registrations[r]? = some reg) (hdone : reg.upload = .done .success)
    (hptr : g.conns[reg.conn]? = some ptr) :
    Kept g (now, .resume r) ↔ ptr.socket ≠ 0 ∧
      ∀ i s, ptr.service = some i → g.objects[i]? = some s → s.socket ≠ ptr.socket := by
  constructor
  · exact fun h => h reg ptr hreg hdone hptr
  · intro h reg' ptr' hreg' _ hptr'
    obtain rfl := Option.some.inj (hreg.symm.trans hreg')
    obtain rfl := Option.some.inj (hptr.symm.trans hptr')
    exact h

lemma live_bind_add_iff (hs : g.bindings.Sound) (hl : g.bindings.Live) {conn : ℕ}
    {ptr : LocalSocket} (hptr : g.conns[conn]? = some ptr) {id : UInt16} :
    ((g.bindings.add { id := id, isLocal := true }).bind conn ptr.socket g.objects.length).Live ↔
      ptr.socket ≠ 0 ∧
        ∀ i s, ptr.service = some i → g.objects[i]? = some s → s.socket ≠ ptr.socket := by
  have hlt : ∀ (i : ℕ) s, g.objects[i]? = some s → i < g.objects.length :=
    fun i s h => (List.getElem?_eq_some_iff.mp h).1
  have hold : ∀ (i : ℕ) s, g.objects[i]? = some s →
      (g.bindings.add { id := id, isLocal := true }).services[i]? = some s.line := by
    intro i s hi
    have hi' := services_bindings hi
    exact (List.getElem?_append_left (List.getElem?_eq_some_iff.mp hi').1).trans hi'
  rw [Bindings.live_bind_iff hs.add (hl.add fun _ => ⟨rfl, rfl⟩) (conns_bindings hptr)
    services_bindings_add rfl]
  refine and_congr_right fun _ => ?_
  constructor
  · intro h i s hi hobj
    exact h i s.line hi (hlt i s hobj).ne (hold i s hobj)
  · intro h i t hi hne hget
    obtain ⟨s, hobj, -⟩ := hs.bound ptr.socket i
      (List.mem_of_getElem? (hi ▸ conns_bindings hptr))
    simp only [bindings, List.getElem?_map, Option.map_eq_some_iff] at hobj
    obtain ⟨s, hobj, rfl⟩ := hobj
    obtain rfl := Option.some.inj ((hold i s hobj).symm.trans hget)
    exact h i s hi hobj

lemma Rebound.live_and_acked_iff {a : ℕ × Action} {b : Bindings} (hr : Rebound g a b)
    (hidx : g.shape.Indexed) (hs : g.bindings.Sound) (hl : g.bindings.Live) :
    b.Live ∧ (∀ x session, (x, session) ∈ b.acks.drop g.acks.length →
      ∃ conn id, g.asked a = some (conn, session, id) ∧ b.Serves x conn id) ↔ Kept g a := by
  cases hr with
  | same ha => exact ⟨fun _ => ha, fun _ => ⟨hl, forall_acks_of_eq rfl⟩⟩
  | accept => exact ⟨fun _ => trivial, fun _ => ⟨hl.accept, forall_acks_of_eq rfl⟩⟩
  | stop hptr hopen =>
    refine ⟨fun _ => trivial, fun _ => ⟨hl.stop hs (conns_bindings hptr) hopen, ?_⟩⟩
    exact forall_acks_of_eq Bindings.acks_stop
  | again hptr hopen hservice hobj hid hpos =>
    rw [kept_register_iff hptr hopen hservice hobj hid hpos]
    refine (and_iff_right hl).trans (forall_acks_iff.trans (exists_asked_iff.trans ?_))
    have hconn := conns_bindings hptr
    rw [hservice] at hconn
    exact Bindings.serves_iff_socket hs hl hconn hopen (services_bindings hobj) hid
  | @bind now conn i session req ptr s hptr hopen hservice hget hobj hlocal =>
    have hconn := conns_bindings hptr
    have hfree : ∀ j, ptr.service ≠ some j := by simp [hservice]
    refine ⟨?_, fun _ => ⟨?_, forall_acks_iff.mpr (exists_asked_iff.mpr ?_)⟩⟩
    · rintro - ptr' j t hptr' - hj
      obtain rfl := Option.some.inj (hptr.symm.trans hptr')
      exact absurd hj (hfree j)
    · refine (Bindings.live_bind_iff hs hl hconn (services_bindings hobj) hlocal).mpr ⟨hopen, ?_⟩
      exact fun j t hj => absurd hj (hfree j)
    · obtain ⟨k, hk, hid⟩ := hidx.found _ _ hget
      simp only [shape, List.getElem?_map, hobj, Option.map_some, Option.some.injEq] at hk
      subst hk
      exact Bindings.serves_bind hconn hopen (services_bindings hobj) hid hlocal
  | @resume now r reg ptr hreg hdone hptr =>
    rw [kept_resume_iff hreg hdone hptr, ← live_bind_add_iff hs hl hptr]
    refine and_iff_left_of_imp fun hlive => forall_acks_iff.mpr ?_
    have hopen := ((live_bind_add_iff hs hl hptr).mp hlive).1
    simp only [asked, hreg, Option.map_some]
    rw [exists_asked_iff]
    have hconn : (g.bindings.add { id := reg.req.info.id.toUInt16, isLocal := true }).conns[reg.conn]? =
        some (ptr.socket, ptr.service) := conns_bindings hptr
    exact Bindings.serves_bind hconn hopen services_bindings_add rfl rfl
  | add hreg hptr =>
    refine ⟨?_, fun _ => ⟨hl.add fun _ => ⟨rfl, rfl⟩, forall_acks_of_eq rfl⟩⟩
    rintro - reg' ptr hreg' - hptr'
    obtain rfl := Option.some.inj (hreg.symm.trans hreg')
    rw [hptr] at hptr'
    cases hptr'
  | told ha hask hb =>
    have hacks : b.acks = g.acks := hb.acks
    rw [ha, and_iff_left (forall_acks_of_eq hacks), hb.live_iff hl]
    constructor
    · intro h i s hi hlocal
      exact h i s.line (services_bindings hi) hlocal
    · intro h i t hi hlocal
      simp only [bindings, List.getElem?_map, Option.map_eq_some_iff] at hi
      obtain ⟨s, hi, rfl⟩ := hi
      exact h i s hi hlocal

variable (id : UInt16) (pid : ℕ) (addresses : List GateAddress)

/-- Along a run local services are online exactly while a connection serves them, and every
registration that succeeds is of such a service, exactly when every step is `Kept`. -/
theorem live_and_acked_iff_kept (as : List (ℕ × Action)) :
    (machine id pid addresses).Always Live (machine id pid addresses).initial as ∧
        (machine id pid addresses).Along Acked (machine id pid addresses).initial as ↔
      (machine id pid addresses).Along Kept (machine id pid addresses).initial as := by
  apply Machine.always_and_along_iff (I := fun g => g.shape.Indexed ∧ g.bindings.Sound)
  · rintro g a g' ⟨hidx, hs⟩ hstep
    have hstepped : Stepped g a g' := step_stepped hstep
    exact ⟨hstepped.reshaped.indexed hidx, hstepped.rebound.sound hs⟩
  · rintro g a g' ⟨hidx, hs⟩ hl hstep
    have hstepped : Stepped g a g' := step_stepped hstep
    have hacked : Acked g a ↔ ∀ x session, (x, session) ∈ g'.bindings.acks.drop g.acks.length →
        ∃ conn id, g.asked a = some (conn, session, id) ∧ g'.bindings.Serves x conn id := by
      simp only [← serves_iff]
      constructor
      · exact fun h => h g' hstep
      · intro h g'' hstep''
        obtain rfl := Option.some.inj (hstep.symm.trans hstep'')
        exact h
    rw [hacked, live_iff]
    exact hstepped.rebound.live_and_acked_iff hidx hs (live_iff.mp hl)
  · refine ⟨indexed_empty, ?_, ?_⟩
    · intro m n x o p hm
      cases hm
    · intro x i hmem
      cases hmem
  · intro i s hs
    cases hs

/-- The connection is lost while its service is uploaded. -/
theorem online_without_connection : ∃ g, (machine 9 0 []).run (machine 9 0 []).initial
    [(1, .accept 1), (1, .connect 0), (1, .recv (.registerAck 0x100000001 .success [])),
      (1, .registered), (1, .register 0 1 ⟨⟨5, 3, true⟩, 64, []⟩), (1, .stop 0),
      (1, .recv (.updateAck 0x100000002 .success)), (1, .resume 0)] = some g ∧ ¬ Live g := by
  refine ⟨_, rfl, ?_⟩
  intro hl
  exact ((hl 0 _ rfl rfl).mp rfl).1 rfl

end Gate

end Simple.Gobang
