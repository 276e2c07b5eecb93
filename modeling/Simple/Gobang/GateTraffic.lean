import Simple.Gobang.Codec
import Simple.Gobang.GateServices

/-! What a gate writes to its services. A message waits in `sendQueues` for a service that the gate
has not heard of, and is written to the others as it comes. -/

namespace Simple.Gobang

open Simple.Lib Simple.Lib.Bytes

@[ext]
structure Traffic where
  keys : List Key
  known : UInt16 → Bool
  parked : UInt16 → List (List UInt8)
  written : List (List (List UInt8))

namespace Traffic

def add (t : Traffic) (k : Key) : Traffic where
  keys := t.keys ++ [k]
  known := Function.update t.known k.id true
  parked := Function.update t.parked k.id []
  written := t.written ++ [t.parked k.id]

def write (t : Traffic) (i : ℕ) (queue : List (List UInt8)) : Traffic :=
  { t with written := t.written.modify i (· ++ queue) }

def park (t : Traffic) (dest : UInt16) (msg : List UInt8) : Traffic :=
  { t with parked := Function.update t.parked dest (t.parked dest ++ [msg]) }

inductive Flow (t : Traffic) : Traffic → Prop
  | refl : Flow t t
  | add {t' : Traffic} (h : Flow t t') (k : Key) : Flow t (t'.add k)

/-- What has been written since `t`, from the first service to the last. -/
def handed (t t' : Traffic) : List (Key × List UInt8) :=
  (t'.keys.zip t'.written).zipIdx.flatMap fun e =>
    (e.1.2.drop (t.written[e.2]?.getD []).length).map fun msg => (e.1.1, msg)

structure Paired (t : Traffic) : Prop where
  length : t.written.length = t.keys.length

variable {t t' t'' : Traffic} {k : Key}

lemma Flow.trans (h : Flow t t') (h' : Flow t' t'') : Flow t t'' := by
  induction h' with
  | refl => exact h
  | add _ k ih => exact ih.add k

lemma Flow.paired (h : Flow t t') (hp : t.Paired) :
    t'.Paired ∧ t.keys.length ≤ t'.keys.length := by
  induction h with
  | refl => exact ⟨hp, le_rfl⟩
  | add _ _ ih =>
    obtain ⟨⟨hlen⟩, hle⟩ := ih
    exact ⟨⟨by simp [Traffic.add, hlen]⟩, by simp [Traffic.add]; omega⟩

lemma flatMap_zipIdx_single {α β : Type} {l : List α} {f : α × ℕ → List β} {i : ℕ} {x : α}
    (hx : l[i]? = some x) (hf : ∀ j y, j ≠ i → l[j]? = some y → f (y, j) = []) :
    l.zipIdx.flatMap f = f (x, i) := by
  obtain ⟨hlt, rfl⟩ := List.getElem?_eq_some_iff.mp hx
  have hnil : ∀ (l' : List α) (k : ℕ), (∀ j y, l'[j]? = some y → f (y, k + j) = []) →
      (l'.zipIdx k).flatMap f = [] := by
    intro l' k h
    rw [List.flatMap_eq_nil_iff]
    intro e he
    obtain ⟨j, hj⟩ := List.mem_iff_getElem?.mp he
    rw [List.getElem?_zipIdx] at hj
    obtain ⟨y, hy, rfl⟩ := Option.map_eq_some_iff.mp hj
    exact h j y hy
  have hsplit : l.zipIdx = (l.take i).zipIdx ++ (l[i], i) :: (l.drop (i + 1)).zipIdx (i + 1) := by
    conv_lhs => rw [← List.take_append_drop i l, ← List.getElem_cons_drop hlt]
    rw [List.zipIdx_append, List.zipIdx_cons, List.length_take_of_le hlt.le, Nat.zero_add]
  rw [hsplit, List.flatMap_append, List.flatMap_cons, hnil, hnil, List.nil_append, List.append_nil]
  · intro j y hy
    rw [List.getElem?_drop] at hy
    exact hf _ y (by omega) hy
  · intro j y hy
    have hj := (List.getElem?_eq_some_iff.mp hy).1
    rw [List.length_take_of_le hlt.le] at hj
    rw [List.getElem?_take_of_lt hj] at hy
    rw [Nat.zero_add]
    exact hf j y hj.ne hy

lemma handed_nil (h : t'.written = t.written) : handed t t' = [] := by
  rw [handed, List.flatMap_eq_nil_iff]
  rintro ⟨⟨k, w⟩, i⟩ he
  obtain ⟨j, hj⟩ := List.getElem?_of_mem he
  rw [List.getElem?_zipIdx] at hj
  obtain ⟨e, hzip, heq⟩ := Option.map_eq_some_iff.mp hj
  obtain ⟨rfl, rfl⟩ := Prod.mk.inj heq
  have hw := (List.getElem?_zip_eq_some.mp hzip).2
  rw [h] at hw
  simp [hw]

lemma handed_add (hp : t.Paired) (hp' : t'.Paired) (hle : t.keys.length ≤ t'.keys.length) :
    handed t (t'.add k) = handed t t' ++ (t'.parked k.id).map fun msg => (k, msg) := by
  have hzip : (t'.add k).keys.zip (t'.add k).written =
      t'.keys.zip t'.written ++ [(k, t'.parked k.id)] := by
    simp only [add]
    rw [List.zip_append hp'.length.symm]
    rfl
  have hnone : t.written[t'.keys.length]? = none := by
    rw [List.getElem?_eq_none_iff, hp.length]
    exact hle
  rw [handed, hzip, List.zipIdx_append, List.flatMap_append]
  congr 1
  simp [hp'.length, hnone]

lemma handed_write {i : ℕ} {msg : List UInt8} (hp : t.Paired) (hk : t.keys[i]? = some k) :
    handed t (t.write i [msg]) = [(k, msg)] := by
  have hlt : i < t.written.length := hp.length ▸ (List.getElem?_eq_some_iff.mp hk).1
  have hw : t.written[i]? = some t.written[i] := List.getElem?_eq_getElem hlt
  have hzip : (t.keys.zip (t.written.modify i (· ++ [msg])))[i]? =
      some (k, t.written[i] ++ [msg]) := by
    rw [List.getElem?_zip_eq_some]
    exact ⟨hk, by simp [hw]⟩
  rw [handed, write, flatMap_zipIdx_single hzip]
  · simp [hw]
  · rintro j ⟨k', w⟩ hj he
    have hwj : t.written[j]? = some w := by
      have hmodified := (List.getElem?_zip_eq_some.mp he).2
      simpa [List.getElem?_modify, Ne.symm hj] using hmodified
    simp [hwj]

end Traffic

namespace Gate

def traffic (g : Gate) : Traffic where
  keys := g.objects.map Service.key
  known id := (g.services.get id).isSome
  parked id := (g.sendQueues.get id).getD []
  written := g.objects.map Service.written

variable {g g' : Gate} {now : ℕ}

lemma traffic_paired : g.traffic.Paired := ⟨by simp [traffic]⟩

lemma traffic_modifyObject {i : ℕ} {f : Service → Service} (hkey : ∀ s, (f s).key = s.key)
    (hwritten : ∀ s, (f s).written = s.written) : (g.modifyObject i f).traffic = g.traffic := by
  simp only [traffic, modifyObject, map_modify hkey, map_modify hwritten]

@[simp] lemma traffic_send {s : UInt32} {msg : LocalMessage} :
    (g.send s msg).traffic = g.traffic := rfl

lemma traffic_write {i : ℕ} {msg : List UInt8} :
    (write i g msg).traffic = g.traffic.write i [msg] := by
  have hkey : (write i g msg).objects.map Service.key = g.objects.map Service.key :=
    map_modify fun _ => rfl
  have hwritten : (write i g msg).objects.map Service.written =
      (g.objects.map Service.written).modify i (· ++ [msg]) :=
    map_modify_comm fun _ => rfl
  simp only [traffic, Traffic.write, hkey, hwritten]
  rfl

lemma traffic_writes {i : ℕ} {queue : List (List UInt8)} :
    (queue.foldl (write i) g).traffic = g.traffic.write i queue := by
  induction queue generalizing g with
  | nil =>
    have hnil : (fun l : List (List UInt8) => l ++ []) = fun l => l := by
      funext l
      exact List.append_nil l
    rw [List.foldl_nil, Traffic.write, hnil]
    exact Traffic.ext rfl rfl rfl (List.modify_id _ _).symm
  | cons msg queue ih =>
    have happend : (fun l : List (List UInt8) => l ++ queue) ∘ (fun l => l ++ [msg]) =
        fun l => l ++ msg :: queue := by
      funext l
      simp
    rw [List.foldl_cons, ih, traffic_write]
    refine Traffic.ext rfl rfl rfl ?_
    simp only [Traffic.write, List.modify_modify_eq, happend]

lemma traffic_emplaceService {t : Traffic} {s : Service} (ht : t.Paired)
    (hkeys : g.objects.map Service.key = t.keys ++ [s.key])
    (hwritten : g.objects.map Service.written = t.written ++ [[]])
    (hknown : ∀ id, (g.services.get id).isSome = t.known id)
    (hparked : ∀ id, (g.sendQueues.get id).getD [] = t.parked id) :
    (g.emplaceService t.keys.length s).traffic = t.add s.key := by
  simp only [emplaceService]
  set g₁ : Gate := { g with
    services := if (g.services.get s.id).isSome then g.services
      else g.services.set s.id t.keys.length
    serviceTypes := g.serviceTypes.set s.tp ((g.serviceTypes.get s.tp).getD [] ++ [t.keys.length]) }
    with hg₁
  have hknown₁ : g₁.traffic.known = Function.update t.known s.key.id true := by
    funext id
    simp only [hg₁, traffic, Function.update_apply, ← hknown]
    by_cases hid : id = s.id
    · subst hid
      simp only [Service.key, if_true]
      split_ifs with hsome
      · exact hsome
      · simp
    · have hne : ¬ id = s.key.id := hid
      rw [if_neg hne]
      split_ifs
      · rfl
      · rw [Table.get_set_ne hid]
  have hself : (t.add s.key).parked s.id = [] := by
    change (t.add s.key).parked s.key.id = []
    simp [Traffic.add]
  have hparked₁ : ∀ id, id ≠ s.id → g₁.traffic.parked id = (t.add s.key).parked id := by
    intro id hid
    have hne : id ≠ s.key.id := hid
    simp only [Traffic.add, Function.update_of_ne hne]
    exact hparked id
  split
  · next hnone =>
    have hempty : t.parked s.key.id = [] := by
      rw [← hparked]
      exact congrArg (Option.getD · []) hnone
    refine Traffic.ext hkeys hknown₁ ?_ ?_
    · funext id
      by_cases hid : id = s.id
      · subst hid
        rw [hself]
        exact congrArg (Option.getD · []) hnone
      · exact hparked₁ id hid
    · simp only [Traffic.add, hempty]
      exact hwritten
  · next queue hqueue =>
    have hall : (queue.foldl (Gate.write t.keys.length) g₁).traffic =
        g₁.traffic.write t.keys.length queue := traffic_writes
    have hfull : t.parked s.key.id = queue := by
      rw [← hparked]
      exact congrArg (Option.getD · []) hqueue
    refine Traffic.ext ((congrArg Traffic.keys hall).trans hkeys)
      ((congrArg Traffic.known hall).trans hknown₁) ?_ ?_
    · funext id
      by_cases hid : id = s.id
      · subst hid
        rw [hself]
        simp only [traffic, Table.get_remove, if_true]
        rfl
      · simp only [traffic, Table.get_remove, if_neg hid]
        exact (congrFun (congrArg Traffic.parked hall) id).trans (hparked₁ id hid)
    · refine (congrArg Traffic.written hall).trans ?_
      have hold : g₁.traffic.written = t.written ++ [[]] := hwritten
      simp only [Traffic.write, Traffic.add, hold, hfull, ← ht.length, modify_concat]
      rfl

@[simp] lemma traffic_upload {info : ServiceInfo} :
    (g.upload now info).1.traffic = g.traffic := by
  simp only [upload]
  split <;> rfl

@[simp] lemma traffic_update {i : ℕ} : (g.update now i).traffic = g.traffic := by
  have hpublish : ∀ (g : Gate) (s : Service), (g.publish s).traffic = g.traffic := by
    intro g s
    simp only [publish]
    split <;> rfl
  simp only [update]
  split
  · rfl
  · rw [hpublish]
    split_ifs
    · rfl
    · exact traffic_upload

@[simp] lemma traffic_bind {conn i : ℕ} {session : UInt64} :
    (g.bind now conn session i).traffic = g.traffic := by
  simp only [bind]
  split
  · rfl
  · rw [traffic_send, traffic_update]
    exact traffic_modifyObject (fun _ => rfl) fun _ => rfl

@[simp] lemma traffic_answer {conn : ℕ} {session : UInt64} {ec : Ec} :
    (g.answer conn session ec).traffic = g.traffic := by
  simp only [answer]
  split <;> rfl

@[simp] lemma traffic_serviceRegister {conn : ℕ} {session : UInt64} {req : RegisterRequest} :
    (g.serviceRegister now conn session req).traffic = g.traffic := by
  simp only [serviceRegister]
  split
  · rfl
  split_ifs
  · rfl
  · exact traffic_answer
  · split
    · split_ifs <;> exact traffic_answer
    · split
      · exact traffic_upload
      · split_ifs
        · exact traffic_bind
        · exact traffic_answer

@[simp] lemma traffic_serviceSubscribe {conn : ℕ} {session : UInt64} {tp : UInt16} :
    (g.serviceSubscribe conn session tp).traffic = g.traffic := by
  simp only [serviceSubscribe]
  split
  · rfl
  · split_ifs <;> rfl

@[simp] lemma traffic_socketStop {conn : ℕ} {ptr : LocalSocket} :
    (g.socketStop now conn ptr).traffic = g.traffic := by
  simp only [socketStop]
  split
  · rfl
  · split_ifs
    · exact traffic_update.trans (traffic_modifyObject (fun _ => rfl) fun _ => rfl)
    · rfl

@[simp] lemma traffic_recvOneMessage {session : UInt64} {msg : MasterMessage} :
    (g.recvOneMessage session msg).traffic = g.traffic := by
  cases msg with
  | registerAck session' ec gates =>
    simp only [recvOneMessage]
    split_ifs <;> rfl
  | _ => rfl

lemma emplaceService_flow {h : Gate} {s : Service} (hobjects : h.objects = g.objects ++ [s])
    (hwritten : s.written = []) (hservices : h.services = g.services)
    (hqueues : h.sendQueues = g.sendQueues) :
    Traffic.Flow g.traffic (h.emplaceService g.objects.length s).traffic := by
  have hlen : g.objects.length = g.traffic.keys.length := by simp [traffic]
  rw [hlen, traffic_emplaceService (t := g.traffic) traffic_paired]
  · exact Traffic.Flow.refl.add _
  · simp [traffic, hobjects]
  · simp [traffic, hobjects, hwritten]
  · simp [traffic, hservices]
  · simp [traffic, hqueues]

lemma resume_flow {r : ℕ} {reg : Registration} {ec : Ec} :
    Traffic.Flow g.traffic (g.resume now r reg ec).traffic := by
  simp only [resume]
  split_ifs
  · rw [traffic_answer]
    exact .refl
  · rw [traffic_bind]
    have hadd : ∀ g : Gate, Traffic.Flow g.traffic (g.addLocalService reg.req).traffic := by
      intro g
      simp only [addLocalService]
      exact emplaceService_flow rfl rfl rfl rfl
    exact hadd { g with registrations := g.registrations.eraseIdx r }

lemma addRemoteService_flow {h : UInt16} {info : ServiceInfo} :
    Traffic.Flow g.traffic (addRemoteService h now g info).traffic := by
  have hfound : Traffic.Flow g.traffic (remoteService h g info).1.traffic := by
    simp only [remoteService]
    split
    · exact .refl
    · exact emplaceService_flow rfl rfl rfl rfl
  have honline : ((remoteService h g info).1.modifyObject (remoteService h g info).2 fun s =>
      { s with online := info.online }).traffic = (remoteService h g info).1.traffic :=
    traffic_modifyObject (fun _ => rfl) fun _ => rfl
  simp only [addRemoteService, traffic_update]
  rw [honline]
  exact hfound

lemma addRemoteGates_flow (gates : List GateInfo) :
    Traffic.Flow g.traffic (gates.foldl (addRemoteGate now) g).traffic := by
  have hservices : ∀ (h : UInt16) (infos : List ServiceInfo) (g : Gate),
      Traffic.Flow g.traffic (infos.foldl (addRemoteService h now) g).traffic := by
    intro h infos
    induction infos with
    | nil => exact fun _ => .refl
    | cons info infos ih => exact fun g => addRemoteService_flow.trans (ih _)
  induction gates generalizing g with
  | nil => exact .refl
  | cons info gates ih =>
    refine Traffic.Flow.trans ?_ ih
    exact hservices _ info.services { g with
      remoteGates := g.remoteGates.set info.id.toUInt16
        (info.addresses.map fun a => a.host ++ "," ++ a.port) }

lemma Stepped.flow {a : ℕ × Action} (h : Stepped g a g')
    (ha : ∀ now dest msg, a ≠ (now, .forward dest msg)) :
    Traffic.Flow g.traffic g'.traffic := by
  cases h with
  | accept => exact .refl
  | register =>
    rw [traffic_serviceRegister]
    exact .refl
  | subscribe =>
    rw [traffic_serviceSubscribe]
    exact .refl
  | stop =>
    rw [traffic_socketStop]
    exact .refl
  | resume => exact resume_flow
  | expire =>
    simp only [Gate.expire, traffic_answer]
    exact .refl
  | forward => exact absurd rfl (ha _ _ _)
  | connect => exact .refl
  | recvOneMessage =>
    rw [traffic_recvOneMessage]
    exact .refl
  | @forwardMessage now msg =>
    cases msg with
    | registerBrd gates => exact addRemoteGates_flow gates
    | updateAck session ec =>
      simp only [Gate.forwardMessage]
      split_ifs <;> exact .refl
    | _ => exact .refl
  | registered =>
    simp only [registerToMaster]
    split_ifs
    · exact .refl
    · exact addRemoteGates_flow _
  | ping => exact .refl
  | lose => exact .refl

lemma traffic_forward_unknown {dest : UInt16} {msg : List UInt8}
    (hd : g.services.get dest = none) : (g.forward dest msg).traffic = g.traffic.park dest msg := by
  simp only [forward, hd]
  refine Traffic.ext rfl rfl ?_ rfl
  funext id
  simp only [traffic, Traffic.park, Function.update_apply, Table.get_set]
  split_ifs <;> rfl

lemma traffic_forward_known {dest : UInt16} {msg : List UInt8} {i : ℕ}
    (hd : g.services.get dest = some i) :
    (g.forward dest msg).traffic = g.traffic.write i [msg] := by
  simp only [forward, hd]
  exact traffic_write

end Gate

end Simple.Gobang
