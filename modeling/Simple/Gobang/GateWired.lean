import Simple.Gobang.GateNotes

/-! The connections that a gate refers to. -/

namespace Simple.Gobang

open Simple.Lib

namespace Gate

variable {g g' : Gate} {now : ℕ} {x : UInt32} {tp : UInt16}

def socketOf (g : Gate) (conn : ℕ) : Option UInt32 := g.conns[conn]?.map LocalSocket.socket

lemma socketOf_eq {conn : ℕ} : g.socketOf conn = g.bindings.conns[conn]?.map Prod.fst := by
  simp only [socketOf, bindings, List.getElem?_map, Option.map_map]
  rfl

lemma eq_of_socketOf {conn c : ℕ} (hs : g.bindings.Sound) (hx : x ≠ 0)
    (h : g.socketOf conn = some x) (h' : g.socketOf c = some x) : c = conn := by
  rw [socketOf_eq] at h h'
  obtain ⟨⟨_, o⟩, hc, rfl⟩ := Option.map_eq_some_iff.mp h
  obtain ⟨⟨_, o'⟩, hc', heq⟩ := Option.map_eq_some_iff.mp h'
  obtain rfl : _ = _ := heq
  exact hs.distinct c conn _ _ _ hc' hc hx

lemma socketOf_socketStop {conn : ℕ} {ptr : LocalSocket} (hptr : g.conns[conn]? = some ptr) :
    (g.socketStop now conn ptr).socketOf conn = some 0 := by
  have hlt : conn < g.bindings.conns.length := by
    simpa [bindings] using (List.getElem?_eq_some_iff.mp hptr).1
  rw [socketOf_eq, bindings_socketStop, Bindings.conns_stop, Bindings.setConn,
    List.getElem?_set_self hlt]
  rfl

lemma remoteService_frame (h : UInt16) (g : Gate) (info : ServiceInfo) :
    ∃ objects services types queues, (remoteService h g info).1 =
      { g with
        objects := objects, services := services, serviceTypes := types, sendQueues := queues } := by
  simp only [remoteService]
  split
  · exact ⟨_, _, _, _, rfl⟩
  · obtain ⟨objects, services, types, queues, hframe⟩ := emplaceService_frame g.objects.length
      { id := info.id.toUInt16, tp := info.tp.toUInt16, gate := h, isLocal := false } { g with
        objects := g.objects ++
          [{ id := info.id.toUInt16, tp := info.tp.toUInt16, gate := h, isLocal := false }] }
    exact ⟨objects, services, types, queues, hframe⟩

lemma remoteService_shape {h : UInt16} {info : ServiceInfo}
    (hget : g.services.get info.id.toUInt16 = none) : (remoteService h g info).1.shape =
      g.shape.add ⟨info.id.toUInt16, info.tp.toUInt16, h, false⟩ := by
  have hlen : g.objects.length = g.shape.keys.length := by simp [shape]
  simp only [remoteService, hget, hlen]
  exact shape_emplaceService (by simp [shape]) rfl rfl

lemma remoteService_services {h : UInt16} {info : ServiceInfo}
    (hget : g.services.get info.id.toUInt16 = none) : (remoteService h g info).1.bindings.services =
      g.bindings.services ++ [{ id := info.id.toUInt16, isLocal := false }] := by
  simp only [remoteService, hget, bindings_emplaceService]
  simp only [bindings, List.map_append]
  rfl

lemma mem_swapRemove {l : List ℕ} {c c' : ℕ} (hne : c' ≠ c) : c' ∈ swapRemove l c ↔ c' ∈ l := by
  rcases List.eq_nil_or_concat l with rfl | ⟨l, last, rfl⟩
  · rfl
  · rw [List.concat_eq_append]
    simp only [swapRemove, List.getLast?_append, List.getLast?_singleton, Option.some_or]
    split_ifs with hc
    · by_cases hlast : c ∈ l
      · have hidx : (l ++ [last]).idxOf c = l.idxOf c := List.idxOf_append_of_mem hlast
        have hlt := List.idxOf_lt_length_of_mem hlast
        rw [hidx, List.set_append_left _ _ hlt, List.dropLast_concat, List.mem_append,
          List.mem_singleton]
        constructor
        · intro h
          rcases List.mem_or_eq_of_mem_set h with h | h
          · exact .inl h
          · exact .inr h
        · rintro (h | rfl)
          · obtain ⟨n, hn, rfl⟩ := List.mem_iff_getElem.mp h
            apply List.mem_iff_getElem.mpr
            refine ⟨n, by simpa using hn, ?_⟩
            rw [List.getElem_set_of_ne]
            rintro rfl
            exact hne (List.getElem_idxOf hlt)
          · exact List.mem_set hlt _
      · have hcl : c = last := by simpa [hlast] using hc
        subst hcl
        have hidx : (l ++ [c]).idxOf c = l.length := by
          rw [List.idxOf_append_of_notMem hlast]
          simp
        rw [hidx, List.set_append_right _ _ le_rfl]
        simp [hne]
    · rfl

lemma mem_foldl_swapRemove {infos : Table UInt16 (List ℕ)} {tps : List UInt16} {c c' : ℕ}
    (hne : c' ≠ c) : c' ∈ ((tps.foldl (fun infos tp => infos.modify tp fun conns =>
      swapRemove conns c) infos).get tp).getD [] ↔ c' ∈ (infos.get tp).getD [] := by
  induction tps generalizing infos with
  | nil => rfl
  | cons t tps ih =>
    rw [List.foldl_cons, ih, Table.get_modify]
    split_ifs with htp
    · cases infos.get tp with
      | none => rfl
      | some l => exact mem_swapRemove hne
    · rfl

structure Wired (g : Gate) : Prop where
  waiting : ∀ reg ∈ g.registrations, reg.conn < g.conns.length
  subscribed : ∀ tp, ∀ c ∈ (g.subscribeInfos.get tp).getD [], c < g.conns.length

def wiring (g : Gate) : List Registration × Table UInt16 (List ℕ) × ℕ :=
  (g.registrations, g.subscribeInfos, g.conns.length)

lemma Wired.congr (h : Wired g) (hw : g'.wiring = g.wiring) : Wired g' := by
  simp only [wiring, Prod.mk.injEq] at hw
  obtain ⟨hregs, hinfos, hlen⟩ := hw
  constructor
  · rw [hregs, hlen]
    exact h.waiting
  · rw [hinfos, hlen]
    exact h.subscribed

@[simp] lemma wiring_update {i : ℕ} : (g.update now i).wiring = g.wiring := by
  cases hobj : g.objects[i]? with
  | none => simp [update, hobj]
  | some s =>
    obtain ⟨rpc, outbox, hupdate⟩ := update_frame now hobj
    rw [hupdate]
    rfl

lemma wiring_upload (g : Gate) (now : ℕ) (info : ServiceInfo) :
    (g.upload now info).1.wiring = g.wiring := by
  simp only [upload]
  split <;> rfl

@[simp] lemma wiring_answer {conn : ℕ} {session : UInt64} {ec : Ec} :
    (g.answer conn session ec).wiring = g.wiring := by
  simp only [answer]
  split <;> rfl

@[simp] lemma wiring_bind {conn i : ℕ} {session : UInt64} :
    (g.bind now conn session i).wiring = g.wiring := by
  simp only [bind]
  split
  · rfl
  · refine wiring_update.trans ?_
    simp [wiring, modifyObject]

lemma wiring_addRemoteService {h : UInt16} {info : ServiceInfo} :
    (addRemoteService h now g info).wiring = g.wiring := by
  obtain ⟨_, _, _, _, hframe⟩ := remoteService_frame h g info
  rw [addRemoteService, wiring_update, hframe]
  rfl

lemma wiring_addRemoteServices (h : UInt16) (now : ℕ) (infos : List ServiceInfo) (g : Gate) :
    (infos.foldl (addRemoteService h now) g).wiring = g.wiring := by
  induction infos generalizing g with
  | nil => rfl
  | cons info infos ih => rw [List.foldl_cons, ih, wiring_addRemoteService]

lemma wiring_addRemoteGates (now : ℕ) (gates : List GateInfo) (g : Gate) :
    (gates.foldl (addRemoteGate now) g).wiring = g.wiring := by
  induction gates generalizing g with
  | nil => rfl
  | cons info gates ih =>
    rw [List.foldl_cons, ih]
    exact wiring_addRemoteServices _ now info.services _

lemma Wired.wakeUpSession (h : Wired g) {session : UInt64} {ec : Ec} :
    Wired (g.wakeUpSession session ec) := by
  refine ⟨?_, h.subscribed⟩
  intro reg hreg
  obtain ⟨reg', hreg', rfl⟩ := List.mem_map.mp hreg
  have hconn := h.waiting reg' hreg'
  split_ifs <;> exact hconn

lemma Wired.serviceRegister (h : Wired g) {conn : ℕ} {session : UInt64} {req : RegisterRequest} :
    Wired (g.serviceRegister now conn session req) := by
  simp only [Gate.serviceRegister]
  split
  · exact h
  · next ptr hptr =>
    split_ifs
    · exact h
    · exact h.congr wiring_answer
    · split
      · split_ifs <;> exact h.congr wiring_answer
      · split
        · have hup := h.congr (wiring_upload g now { req.info with online := false })
          refine ⟨?_, hup.subscribed⟩
          intro reg hreg
          rcases List.mem_append.mp hreg with hreg | hreg
          · exact hup.waiting reg hreg
          · obtain rfl := List.mem_singleton.mp hreg
            have hlen := congrArg (fun w => w.2.2)
              (wiring_upload g now { req.info with online := false })
            exact (List.getElem?_eq_some_iff.mp hptr).1.trans_eq hlen.symm
        · split_ifs
          · exact h.congr wiring_bind
          · exact h.congr wiring_answer

lemma Wired.eraseIdx (h : Wired g) (r : ℕ) :
    Wired { g with registrations := g.registrations.eraseIdx r } :=
  ⟨fun reg hreg => h.waiting reg (List.mem_of_mem_eraseIdx hreg), h.subscribed⟩

lemma Wired.resume (h : Wired g) {r : ℕ} {reg : Registration} {ec : Ec} :
    Wired (g.resume now r reg ec) := by
  have herased := h.eraseIdx r
  simp only [Gate.resume]
  split_ifs
  · exact herased.congr wiring_answer
  · refine herased.congr (wiring_bind.trans ?_)
    obtain ⟨_, _, _, _, _, hframe⟩ := addLocalService_frame reg.req
      { g with registrations := g.registrations.eraseIdx r }
    rw [hframe]
    rfl

lemma Wired.serviceSubscribe (h : Wired g) {conn : ℕ} {session : UInt64} {tp : UInt16} :
    Wired (g.serviceSubscribe conn session tp) := by
  simp only [Gate.serviceSubscribe]
  split
  · exact h
  · next ptr hptr =>
    have hlt := (List.getElem?_eq_some_iff.mp hptr).1
    split
    · exact h.congr rfl
    · constructor
      · intro reg hreg
        rw [send, List.length_set]
        exact h.waiting reg hreg
      · intro tp' c hc
        rw [send, List.length_set]
        simp only [send, Table.get_set] at hc
        split_ifs at hc with htp hmem
        · exact h.subscribed tp c hc
        · rcases List.mem_append.mp hc with hc | hc
          · exact h.subscribed tp c hc
          · rwa [List.mem_singleton.mp hc]
        · exact h.subscribed tp' c hc

lemma mem_of_mem_swapRemove {l : List ℕ} {c c' : ℕ} (h : c' ∈ swapRemove l c) : c' ∈ l := by
  by_cases hne : c' = c
  · by_contra hl
    subst hne
    simp only [swapRemove, hl, if_false] at h
    split at h
    · cases h
    · exact hl h
  · exact (mem_swapRemove hne).mp h

lemma mem_of_mem_foldl_swapRemove {infos : Table UInt16 (List ℕ)} {tps : List UInt16} {c c' : ℕ}
    (h : c' ∈ ((tps.foldl (fun infos tp => infos.modify tp fun conns => swapRemove conns c)
      infos).get tp).getD []) : c' ∈ (infos.get tp).getD [] := by
  induction tps generalizing infos with
  | nil => exact h
  | cons t tps ih =>
    have hrest := ih h
    rw [Table.get_modify] at hrest
    split_ifs at hrest with htp
    · cases hinfos : infos.get tp with
      | none => simp [hinfos] at hrest
      | some l =>
        rw [hinfos] at hrest
        exact mem_of_mem_swapRemove hrest
    · exact hrest

lemma Wired.disconnect (h : Wired g) (conn : ℕ) (ptr : LocalSocket) : Wired { g with
    subscribeInfos := ptr.subscribe.foldl
      (fun infos tp => infos.modify tp fun conns => swapRemove conns conn) g.subscribeInfos
    conns := g.conns.set conn { ptr with service := none, socket := 0 } } := by
  constructor
  · intro reg hreg
    rw [List.length_set]
    exact h.waiting reg hreg
  · intro tp c hc
    rw [List.length_set]
    exact h.subscribed tp c (mem_of_mem_foldl_swapRemove hc)

lemma Wired.socketStop (h : Wired g) {conn : ℕ} {ptr : LocalSocket} :
    Wired (g.socketStop now conn ptr) := by
  simp only [Gate.socketStop]
  split
  · exact h.disconnect conn ptr
  · next i _ =>
    split_ifs
    · have hupdate : Wired ((g.modifyObject i fun s =>
          { s with socket := 0, online := false }).update now i) := h.congr (wiring_update.trans rfl)
      exact hupdate.disconnect conn ptr
    · exact h.disconnect conn ptr

lemma Stepped.wired {a : ℕ × Action} (h : Stepped g a g') (hw : Wired g) : Wired g' := by
  cases h with
  | accept =>
    constructor
    · intro reg hreg
      rw [List.length_append]
      exact Nat.lt_add_right _ (hw.waiting reg hreg)
    · intro tp c hc
      rw [List.length_append]
      exact Nat.lt_add_right _ (hw.subscribed tp c hc)
  | register => exact hw.serviceRegister
  | subscribe => exact hw.serviceSubscribe
  | stop => exact hw.socketStop
  | resume => exact hw.resume
  | expire => exact (hw.eraseIdx _).congr wiring_answer
  | @forward now dest msg =>
    simp only [Gate.forward]
    split <;> exact hw.congr rfl
  | connect => exact hw.congr rfl
  | @recvOneMessage now session msg =>
    cases msg with
    | registerAck session' ec gates =>
      simp only [Gate.recvOneMessage]
      split_ifs <;> exact hw.congr rfl
    | updateAck session' ec => exact (hw.wakeUpSession).congr rfl
    | _ => exact hw.congr rfl
  | @forwardMessage now msg =>
    cases msg with
    | registerBrd gates => exact hw.congr (wiring_addRemoteGates now gates g)
    | updateAck session ec =>
      simp only [Gate.forwardMessage]
      split_ifs
      · exact hw
      · exact hw.wakeUpSession
    | _ => exact hw
  | @registered now ec gates =>
    simp only [registerToMaster]
    split_ifs
    · exact hw.congr rfl
    · exact hw.congr (wiring_addRemoteGates now gates g)
  | ping => exact hw.congr rfl
  | lose => exact hw.congr rfl

lemma Stepped.conns_le {a : ℕ × Action} (h : Stepped g a g') :
    g.conns.length ≤ g'.conns.length := by
  have hlen : ∀ g : Gate, g.conns.length = g.bindings.conns.length := by simp [bindings]
  have hr := h.rebound
  rw [hlen, hlen]
  generalize g'.bindings = b at hr
  cases hr with
  | accept => simp [Bindings.accept]
  | stop => simp [Bindings.conns_stop, Bindings.setConn]
  | told _ _ hb => rw [hb.conns]
  | _ => simp [Bindings.ack, Bindings.bind, Bindings.setService, Bindings.setConn, Bindings.add]

end Gate

end Simple.Gobang
