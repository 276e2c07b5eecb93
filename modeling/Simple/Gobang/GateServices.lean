import Simple.Gobang.Gate
import Simple.Lib.Modify

/-! The services that a gate knows, and when the tables list one of them twice. -/

namespace Simple.Gobang

open Simple.Lib

structure Key where
  id : UInt16
  tp : UInt16
  gate : UInt16
  isLocal : Bool
deriving DecidableEq

def Service.key (s : Service) : Key := ⟨s.id, s.tp, s.gate, s.isLocal⟩

structure Shape where
  keys : List Key
  services : Table UInt16 ℕ
  types : Table UInt16 (List ℕ)

namespace Shape

def add (sh : Shape) (k : Key) : Shape where
  keys := sh.keys ++ [k]
  services := if (sh.services.get k.id).isSome then sh.services
    else sh.services.set k.id sh.keys.length
  types := sh.types.set k.tp ((sh.types.get k.tp).getD [] ++ [sh.keys.length])

def localIds (sh : Shape) : List UInt16 := (sh.keys.filter Key.isLocal).map Key.id

def typeIds (sh : Shape) (tp : UInt16) : List UInt16 :=
  ((sh.types.get tp).getD []).filterMap fun i => sh.keys[i]?.map Key.id

/-- Remote services are added, all of them unknown before and as `R` says. -/
inductive Grows (R : Key → Prop) : Shape → Shape → Prop
  | refl (sh : Shape) : Grows R sh sh
  | add {sh sh' : Shape} {k : Key} (hk : R k) (hremote : k.isLocal = false)
      (hnew : sh.services.get k.id = none) (h : Grows R (sh.add k) sh') : Grows R sh sh'

variable {sh sh' : Shape} {k : Key} {R R' : Key → Prop}

lemma Grows.trans {sh'' : Shape} (h : Grows R sh sh') (h' : Grows R sh' sh'') :
    Grows R sh sh'' := by
  induction h with
  | refl => exact h'
  | add hk hremote hnew _ ih => exact .add hk hremote hnew (ih h')

lemma Grows.mono (hR : ∀ k, R k → R' k) (h : Grows R sh sh') : Grows R' sh sh' := by
  induction h with
  | refl => exact .refl _
  | add hk hremote hnew _ ih => exact .add (hR _ hk) hremote hnew ih

lemma Grows.get_iff {id : UInt16} {i : ℕ} (h : Grows R sh sh') (hi : i < sh.keys.length) :
    sh'.services.get id = some i ↔ sh.services.get id = some i := by
  induction h with
  | refl => exact Iff.rfl
  | @add sh sh' k _ _ hnew _ ih =>
    rw [ih (by simp [Shape.add]; omega)]
    simp only [Shape.add, hnew, Option.isSome_none, Bool.false_eq_true, if_false, Table.get_set]
    split_ifs with hid
    · simp [hid, hnew, hi.ne']
    · rfl

structure Indexed (sh : Shape) : Prop where
  known : ∀ k ∈ sh.keys, (sh.services.get k.id).isSome
  found : ∀ id i, sh.services.get id = some i → ∃ k, sh.keys[i]? = some k ∧ k.id = id
  listed : ∀ tp l, sh.types.get tp = some l → ∀ i ∈ l, i < sh.keys.length

structure Unique (sh : Shape) : Prop where
  locals : sh.localIds.Nodup
  types : ∀ tp, (sh.typeIds tp).Nodup

lemma Indexed.add (h : Indexed sh) (k : Key) : Indexed (sh.add k) := by
  have hservices : ∀ id, (sh.services.get id).isSome → ((sh.add k).services.get id).isSome := by
    intro id hid
    simp only [Shape.add]
    split_ifs
    · exact hid
    · rw [Table.get_set]
      split_ifs
      · rfl
      · exact hid
  refine ⟨?_, ?_, ?_⟩
  · intro k' hk'
    rcases List.mem_append.mp hk' with hk' | hk'
    · exact hservices _ (h.known k' hk')
    · obtain rfl := List.mem_singleton.mp hk'
      simp only [Shape.add]
      split_ifs with hsome
      · exact hsome
      · simp
  · have hold : ∀ id i, sh.services.get id = some i →
        ∃ k', (sh.keys ++ [k])[i]? = some k' ∧ k'.id = id := by
      intro id i hid
      obtain ⟨k', hk', hkid⟩ := h.found id i hid
      exact ⟨k', List.getElem?_append_left (List.getElem?_eq_some_iff.mp hk').1 ▸ hk', hkid⟩
    intro id i hid
    simp only [Shape.add] at hid
    split_ifs at hid
    · exact hold id i hid
    · rw [Table.get_set] at hid
      split_ifs at hid with heq
      · obtain rfl := Option.some.inj hid
        exact ⟨k, by simp [Shape.add], heq.symm⟩
      · exact hold id i hid
  · intro tp l hl i hi
    have hlen : (sh.add k).keys.length = sh.keys.length + 1 := by simp [Shape.add]
    rw [hlen]
    simp only [Shape.add, Table.get_set] at hl
    split_ifs at hl with heq
    · obtain rfl := Option.some.inj hl
      rcases List.mem_append.mp hi with hi | hi
      · cases hold : sh.types.get k.tp with
        | none => simp [hold] at hi
        | some l' =>
          rw [hold, Option.getD_some] at hi
          exact Nat.lt_succ_of_lt (h.listed _ l' hold i hi)
      · rw [List.mem_singleton.mp hi]
        exact Nat.lt_succ_self _
    · exact Nat.lt_succ_of_lt (h.listed tp l hl i hi)

lemma localIds_add : (sh.add k).localIds =
    sh.localIds ++ if k.isLocal then [k.id] else [] := by
  cases hk : k.isLocal <;> simp [localIds, Shape.add, hk]

lemma Indexed.typeIds_add (h : Indexed sh) (tp : UInt16) : (sh.add k).typeIds tp =
    sh.typeIds tp ++ if tp = k.tp then [k.id] else [] := by
  -- numbers that are listed already keep their ids
  have hold : ∀ l : List ℕ, (∀ i ∈ l, i < sh.keys.length) →
      (l.filterMap fun i => (sh.keys ++ [k])[i]?.map Key.id) =
        l.filterMap fun i => sh.keys[i]?.map Key.id := by
    intro l hl
    apply List.filterMap_congr
    intro i hi
    rw [List.getElem?_append_left (hl i hi)]
  have hlisted : ∀ i ∈ (sh.types.get tp).getD [], i < sh.keys.length := by
    cases htp : sh.types.get tp with
    | none => simp
    | some l => exact h.listed tp l htp
  simp only [typeIds, Shape.add, Table.get_set]
  split_ifs with heq
  · rw [Option.getD_some, List.filterMap_append, hold _ (heq ▸ hlisted), heq]
    simp
  · rw [hold _ hlisted, List.append_nil]

lemma Indexed.unique_add (h : Indexed sh) (hu : Unique sh) : Unique (sh.add k) ↔
    (k.isLocal = true → k.id ∉ sh.localIds) ∧ k.id ∉ sh.typeIds k.tp := by
  constructor
  · rintro ⟨hl, ht⟩
    refine ⟨?_, ?_⟩
    · intro hk
      rw [localIds_add, if_pos hk] at hl
      exact fun hmem => (List.nodup_append.mp hl).2.2 k.id hmem k.id (by simp) rfl
    · have htp := ht k.tp
      rw [h.typeIds_add, if_pos rfl] at htp
      exact fun hmem => (List.nodup_append.mp htp).2.2 k.id hmem k.id (by simp) rfl
  · rintro ⟨hl, ht⟩
    refine ⟨?_, ?_⟩
    · rw [localIds_add]
      split_ifs with hk
      · exact hu.locals.append (List.nodup_singleton _) (by simpa using hl hk)
      · rw [List.append_nil]
        exact hu.locals
    · intro tp
      rw [h.typeIds_add]
      split_ifs with htp
      · exact (hu.types tp).append (List.nodup_singleton _) (by simpa [htp] using ht)
      · rw [List.append_nil]
        exact hu.types tp

lemma mem_typeIds {id tp : UInt16} (h : id ∈ sh.typeIds tp) : ∃ k ∈ sh.keys, k.id = id := by
  obtain ⟨i, -, hi⟩ := List.mem_filterMap.mp h
  obtain ⟨k, hk, rfl⟩ := Option.map_eq_some_iff.mp hi
  exact ⟨k, List.mem_of_getElem? hk, rfl⟩

lemma Indexed.not_mem_typeIds (h : Indexed sh) {id : UInt16} (hid : sh.services.get id = none)
    (tp : UInt16) : id ∉ sh.typeIds tp := by
  intro hmem
  obtain ⟨k, hk, rfl⟩ := mem_typeIds hmem
  have hsome := h.known k hk
  simp [hid] at hsome

lemma Grows.indexed (hg : Grows R sh sh') (h : Indexed sh) : Indexed sh' := by
  induction hg with
  | refl => exact h
  | add _ _ _ _ ih => exact ih (h.add _)

lemma Grows.unique (hg : Grows R sh sh') (h : Indexed sh) (hu : Unique sh) : Unique sh' := by
  induction hg with
  | refl => exact hu
  | add _ hremote hnew _ ih =>
    apply ih (h.add _)
    rw [h.unique_add hu]
    exact ⟨by simp [hremote], h.not_mem_typeIds hnew _⟩

end Shape

namespace Gate

def shape (g : Gate) : Shape := ⟨g.objects.map Service.key, g.services, g.serviceTypes⟩

variable {g g' : Gate} {now : ℕ}

lemma shape_modifyObject {i : ℕ} {f : Service → Service} (hf : ∀ s, (f s).key = s.key) :
    (g.modifyObject i f).shape = g.shape := by
  simp only [shape, modifyObject, map_modify hf]

@[simp] lemma shape_send {s : UInt32} {msg : LocalMessage} : (g.send s msg).shape = g.shape := rfl

@[simp] lemma shape_write {i : ℕ} {msg : List UInt8} : (write i g msg).shape = g.shape :=
  shape_modifyObject fun _ => rfl

@[simp] lemma shape_writes {i : ℕ} {queue : List (List UInt8)} :
    (queue.foldl (write i) g).shape = g.shape := by
  induction queue generalizing g with
  | nil => rfl
  | cons msg queue ih => rw [List.foldl_cons, ih, shape_write]

lemma shape_emplaceService {sh : Shape} {s : Service}
    (hkeys : g.objects.map Service.key = sh.keys ++ [s.key]) (hservices : g.services = sh.services)
    (htypes : g.serviceTypes = sh.types) :
    (g.emplaceService sh.keys.length s).shape = sh.add s.key := by
  have hadd : ({ g with
      services := if (g.services.get s.id).isSome then g.services
        else g.services.set s.id sh.keys.length
      serviceTypes := g.serviceTypes.set s.tp
        ((g.serviceTypes.get s.tp).getD [] ++ [sh.keys.length]) } : Gate).shape =
      sh.add s.key := by
    obtain ⟨keys, services, types⟩ := sh
    subst hservices htypes
    simp only [shape, Shape.add, hkeys]
    rfl
  simp only [emplaceService]
  split
  · exact hadd
  · exact shape_writes.trans hadd

@[simp] lemma shape_upload {info : ServiceInfo} : (g.upload now info).1.shape = g.shape := by
  simp only [upload]
  split <;> rfl

@[simp] lemma shape_publish {s : Service} : (g.publish s).shape = g.shape := by
  simp only [publish]
  split <;> rfl

@[simp] lemma shape_update {i : ℕ} : (g.update now i).shape = g.shape := by
  simp only [update]
  split
  · rfl
  · rw [shape_publish]
    split_ifs
    · rfl
    · exact shape_upload

@[simp] lemma shape_bind {conn i : ℕ} {session : UInt64} :
    (g.bind now conn session i).shape = g.shape := by
  simp only [bind]
  split
  · rfl
  · rw [shape_send, shape_update]
    exact shape_modifyObject fun _ => rfl

@[simp] lemma shape_answer {conn : ℕ} {session : UInt64} {ec : Ec} :
    (g.answer conn session ec).shape = g.shape := by
  simp only [answer]
  split <;> rfl

lemma shape_addLocalService {req : RegisterRequest} : (g.addLocalService req).shape =
    g.shape.add ⟨req.info.id.toUInt16, req.info.tp.toUInt16, g.id, true⟩ := by
  have hlen : g.objects.length = g.shape.keys.length := by simp [shape]
  simp only [addLocalService, hlen]
  exact shape_emplaceService (by simp [shape]) rfl rfl

@[simp] lemma shape_serviceRegister {conn : ℕ} {session : UInt64} {req : RegisterRequest} :
    (g.serviceRegister now conn session req).shape = g.shape := by
  simp only [serviceRegister]
  split
  · rfl
  split_ifs
  · rfl
  · exact shape_answer
  · split
    · split_ifs <;> exact shape_answer
    · split
      · exact shape_upload
      · split_ifs
        · exact shape_bind
        · exact shape_answer

lemma shape_resume {r : ℕ} {reg : Registration} {ec : Ec} : (g.resume now r reg ec).shape =
    if ec = .success then
      g.shape.add ⟨reg.req.info.id.toUInt16, reg.req.info.tp.toUInt16, g.id, true⟩
    else g.shape := by
  simp only [resume]
  by_cases hec : ec = .success
  · rw [if_neg (not_not.mpr hec), if_pos hec, shape_bind, shape_addLocalService]
    rfl
  · rw [if_pos hec, if_neg hec, shape_answer]
    rfl

@[simp] lemma shape_serviceSubscribe {conn : ℕ} {session : UInt64} {tp : UInt16} :
    (g.serviceSubscribe conn session tp).shape = g.shape := by
  simp only [serviceSubscribe]
  split
  · rfl
  · split_ifs <;> rfl

@[simp] lemma shape_socketStop {conn : ℕ} {ptr : LocalSocket} :
    (g.socketStop now conn ptr).shape = g.shape := by
  simp only [socketStop]
  split
  · rfl
  · split_ifs
    · exact shape_update.trans (shape_modifyObject fun _ => rfl)
    · rfl

@[simp] lemma shape_forward {dest : UInt16} {msg : List UInt8} :
    (g.forward dest msg).shape = g.shape := by
  simp only [forward]
  split
  · rfl
  · exact shape_write

def Told (gates : List GateInfo) (k : Key) : Prop :=
  ∃ info ∈ gates, ∃ s ∈ info.services,
    k = ⟨s.id.toUInt16, s.tp.toUInt16, info.id.toUInt16, false⟩

lemma remoteService_grows {h : UInt16} {info : ServiceInfo} :
    Shape.Grows (fun k => k = ⟨info.id.toUInt16, info.tp.toUInt16, h, false⟩)
      g.shape (remoteService h g info).1.shape := by
  simp only [remoteService]
  cases hid : g.services.get info.id.toUInt16 with
  | some i => exact .refl _
  | none =>
    have hlen : g.objects.length = g.shape.keys.length := by simp [shape]
    simp only [hlen]
    rw [shape_emplaceService (by simp [shape]) rfl rfl]
    exact .add rfl rfl hid (.refl _)

lemma addRemoteService_grows {h : UInt16} {info : ServiceInfo} :
    Shape.Grows (fun k => k = ⟨info.id.toUInt16, info.tp.toUInt16, h, false⟩)
      g.shape (addRemoteService h now g info).shape := by
  simp only [addRemoteService, shape_update]
  rw [shape_modifyObject]
  · exact remoteService_grows
  · exact fun _ => rfl

lemma addRemoteServices_grows (h : UInt16) (now : ℕ) (infos : List ServiceInfo) (g : Gate) :
    Shape.Grows (fun k => ∃ s ∈ infos, k = ⟨s.id.toUInt16, s.tp.toUInt16, h, false⟩)
      g.shape (infos.foldl (addRemoteService h now) g).shape := by
  induction infos generalizing g with
  | nil => exact .refl _
  | cons info infos ih =>
    have hfirst : Shape.Grows
        (fun k => ∃ s ∈ info :: infos, k = ⟨s.id.toUInt16, s.tp.toUInt16, h, false⟩)
        g.shape (addRemoteService h now g info).shape := by
      apply addRemoteService_grows.mono
      exact fun k hk => ⟨info, by simp, hk⟩
    apply hfirst.trans
    apply (ih _).mono
    rintro k ⟨s, hs, hk⟩
    exact ⟨s, by simp [hs], hk⟩

lemma addRemoteGate_grows {info : GateInfo} :
    Shape.Grows (Told [info]) g.shape (addRemoteGate now g info).shape := by
  apply (addRemoteServices_grows info.id.toUInt16 now info.services { g with
    remoteGates := g.remoteGates.set info.id.toUInt16
      (info.addresses.map fun a => a.host ++ "," ++ a.port) }).mono
  rintro k ⟨s, hs, hk⟩
  exact ⟨info, by simp, s, hs, hk⟩

lemma addRemoteGates_grows {gates : List GateInfo} :
    Shape.Grows (Told gates) g.shape (gates.foldl (addRemoteGate now) g).shape := by
  induction gates generalizing g with
  | nil => exact .refl _
  | cons info gates ih =>
    have hfirst : Shape.Grows (Told (info :: gates)) g.shape (addRemoteGate now g info).shape := by
      apply addRemoteGate_grows.mono
      rintro k ⟨i, hi, hk⟩
      exact ⟨i, by simp_all, hk⟩
    apply hfirst.trans
    apply ih.mono
    rintro k ⟨i, hi, hk⟩
    exact ⟨i, by simp [hi], hk⟩

def localIds (g : Gate) : List UInt16 := (g.objects.filter Service.isLocal).map Service.id

def typeIds (g : Gate) (tp : UInt16) : List UInt16 :=
  ((g.serviceTypes.get tp).getD []).filterMap fun i => g.objects[i]?.map Service.id

structure Unique (g : Gate) : Prop where
  locals : g.localIds.Nodup
  types : ∀ tp, (g.typeIds tp).Nodup

lemma localIds_eq : g.localIds = g.shape.localIds := by
  simp [localIds, Shape.localIds, shape, List.filter_map, Function.comp_def, Service.key]

lemma typeIds_eq {tp : UInt16} : g.typeIds tp = g.shape.typeIds tp := by
  simp [typeIds, Shape.typeIds, shape, Function.comp_def, Service.key]

lemma unique_iff : Unique g ↔ g.shape.Unique := by
  constructor
  · rintro ⟨hl, ht⟩
    exact ⟨localIds_eq ▸ hl, fun tp => typeIds_eq ▸ ht tp⟩
  · rintro ⟨hl, ht⟩
    exact ⟨localIds_eq ▸ hl, fun tp => typeIds_eq ▸ ht tp⟩

/-- No other registration has entered the service while this one was waiting for its upload. It takes
two registrations of one id that wait at the same time for this to fail. -/
def Unraced (g : Gate) : ℕ × Action → Prop
  | (_, .resume r) => ∀ reg, g.registrations[r]? = some reg → reg.upload = .done .success →
      reg.req.info.id.toUInt16 ∉ g.localIds ∧
        reg.req.info.id.toUInt16 ∉ g.typeIds reg.req.info.tp.toUInt16
  | _ => True

/-- No registration enters a service that its type lists already. -/
def EntersOnce (g : Gate) (tp : UInt16) : ℕ × Action → Prop
  | (_, .resume r) => ∀ reg, g.registrations[r]? = some reg → reg.upload = .done .success →
      reg.req.info.tp.toUInt16 = tp → reg.req.info.id.toUInt16 ∉ g.typeIds tp
  | _ => True

instance (g : Gate) (tp : UInt16) : DecidablePred (g.EntersOnce tp)
  | (_, .resume r) => inferInstanceAs (Decidable (∀ reg ∈ g.registrations[r]?,
      reg.upload = .done .success → reg.req.info.tp.toUInt16 = tp →
        reg.req.info.id.toUInt16 ∉ g.typeIds tp))
  | (_, .accept _) | (_, .register _ _ _) | (_, .subscribe _ _ _) | (_, .stop _) | (_, .expire _)
  | (_, .forward _ _) | (_, .connect _) | (_, .recv _) | (_, .registered) | (_, .ping)
  | (_, .lose) => .isTrue trivial

inductive Reshaped (g : Gate) : ℕ × Action → Shape → Prop
  | resume {now r : ℕ} {reg : Registration} (hreg : g.registrations[r]? = some reg)
      (hdone : reg.upload = .done .success) :
      Reshaped g (now, .resume r)
        (g.shape.add ⟨reg.req.info.id.toUInt16, reg.req.info.tp.toUInt16, g.id, true⟩)
  | grow {a : ℕ × Action} {gates : List GateInfo} {sh : Shape} (ha : Unraced g a)
      (hgates : (∃ now, a = (now, .recv (.registerBrd gates))) ∨ g.phase = .registered .success gates)
      (hsh : Shape.Grows (Told gates) g.shape sh) : Reshaped g a sh
  | same {a : ℕ × Action} (ha : Unraced g a) : Reshaped g a g.shape

@[simp] lemma shape_recvOneMessage {session : UInt64} {msg : MasterMessage} :
    (g.recvOneMessage session msg).shape = g.shape := by
  cases msg with
  | registerAck session' ec gates =>
    simp only [recvOneMessage]
    split_ifs <;> rfl
  | _ => rfl

inductive Stepped (g : Gate) : ℕ × Action → Gate → Prop
  | accept {now : ℕ} {s : UInt32} (hs : s ≠ 0) (hfree : s ∉ g.conns.map LocalSocket.socket) :
      Stepped g (now, .accept s) { g with conns := g.conns ++ [{ socket := s }] }
  | register {now conn : ℕ} {session : UInt64} {req : RegisterRequest} :
      Stepped g (now, .register conn session req) (g.serviceRegister now conn session req)
  | subscribe {now conn : ℕ} {session : UInt64} {tp : UInt16} :
      Stepped g (now, .subscribe conn session tp) (g.serviceSubscribe conn session tp)
  | stop {now conn : ℕ} {ptr : LocalSocket} (hptr : g.conns[conn]? = some ptr)
      (hopen : ptr.socket ≠ 0) : Stepped g (now, .stop conn) (g.socketStop now conn ptr)
  | resume {now r : ℕ} {reg : Registration} {ec : Ec} (hreg : g.registrations[r]? = some reg)
      (hdone : reg.upload = .done ec) : Stepped g (now, .resume r) (g.resume now r reg ec)
  | expire {now r : ℕ} {reg : Registration} (hreg : g.registrations[r]? = some reg) :
      Stepped g (now, .expire r) (g.expire r reg)
  | forward {now : ℕ} {dest : UInt16} {msg : List UInt8} :
      Stepped g (now, .forward dest msg) (g.forward dest msg)
  | connect {now link : ℕ} (hs : g.socket = none) :
      Stepped g (now, .connect link) (g.connect now link)
  | recvOneMessage {now : ℕ} {session : UInt64} {msg : MasterMessage}
      (hphase : g.phase = .registering session) :
      Stepped g (now, .recv msg) (g.recvOneMessage session msg)
  | forwardMessage {now : ℕ} {msg : MasterMessage} (hphase : g.phase = .running) :
      Stepped g (now, .recv msg) (g.forwardMessage now msg)
  | registered {now : ℕ} {ec : Ec} {gates : List GateInfo}
      (hphase : g.phase = .registered ec gates) :
      Stepped g (now, .registered) (g.registerToMaster now ec gates)
  | ping {now : ℕ} (hphase : g.phase = .running) : Stepped g (now, .ping) (g.rpcCall now .ping).1
  | lose {now : ℕ} (hs : g.socket ≠ none) : Stepped g (now, .lose) g.lose

lemma step_stepped {a : ℕ × Action} (h : g.step a = some g') : Stepped g a g' := by
  obtain ⟨now, a⟩ := a
  cases a with
  | accept s =>
    simp only [step] at h
    split_ifs at h with hs
    obtain rfl := Option.some.inj h
    rw [not_or] at hs
    exact .accept hs.1 hs.2
  | register conn session req =>
    obtain rfl := Option.some.inj h
    exact .register
  | subscribe conn session tp =>
    obtain rfl := Option.some.inj h
    exact .subscribe
  | stop conn =>
    simp only [step] at h
    split at h
    · cases h
    · next ptr hptr =>
      split_ifs at h with hopen
      obtain rfl := Option.some.inj h
      exact .stop hptr hopen
  | resume r =>
    simp only [step] at h
    split at h
    · cases h
    · next reg hreg =>
      split at h
      · cases h
      · next ec hdone =>
        obtain rfl := Option.some.inj h
        exact .resume hreg hdone
  | expire r =>
    simp only [step] at h
    split at h
    · cases h
    · next reg hreg =>
      obtain rfl := Option.some.inj h
      exact .expire hreg
  | forward dest msg =>
    obtain rfl := Option.some.inj h
    exact .forward
  | connect link =>
    simp only [step] at h
    split_ifs at h with hs
    obtain rfl := Option.some.inj h
    exact .connect hs
  | recv msg =>
    cases hphase : g.phase with
    | registering session =>
      rw [step, hphase] at h
      obtain rfl := Option.some.inj h
      exact .recvOneMessage hphase
    | running =>
      rw [step, hphase] at h
      obtain rfl := Option.some.inj h
      exact .forwardMessage hphase
    | _ =>
      rw [step, hphase] at h
      cases h
  | registered =>
    simp only [step] at h
    split at h
    · next ec gates hphase =>
      obtain rfl := Option.some.inj h
      exact .registered hphase
    · cases h
  | ping =>
    simp only [step] at h
    split_ifs at h with hphase
    obtain rfl := Option.some.inj h
    exact .ping hphase
  | lose =>
    simp only [step] at h
    split_ifs at h with hs
    obtain rfl := Option.some.inj h
    exact .lose hs

lemma Stepped.reshaped {a : ℕ × Action} (h : Stepped g a g') : Reshaped g a g'.shape := by
  cases h with
  | accept => exact .same trivial
  | register =>
    rw [shape_serviceRegister]
    exact .same trivial
  | subscribe =>
    rw [shape_serviceSubscribe]
    exact .same trivial
  | stop =>
    rw [shape_socketStop]
    exact .same trivial
  | @resume now r reg ec hreg hdone =>
    rw [shape_resume]
    split_ifs with hec
    · subst hec
      exact .resume hreg hdone
    · apply Reshaped.same
      intro reg' hreg' hdone'
      obtain rfl := Option.some.inj (hreg.symm.trans hreg')
      rw [hdone, Upload.done.injEq] at hdone'
      exact absurd hdone' hec
  | expire =>
    simp only [Gate.expire, shape_answer]
    exact .same trivial
  | forward =>
    rw [shape_forward]
    exact .same trivial
  | connect => exact .same trivial
  | recvOneMessage =>
    rw [shape_recvOneMessage]
    exact .same trivial
  | @forwardMessage now msg =>
    cases msg with
    | registerBrd gates => exact .grow trivial (Or.inl ⟨now, rfl⟩) addRemoteGates_grows
    | updateAck session ec =>
      simp only [Gate.forwardMessage]
      split_ifs <;> exact .same trivial
    | _ => exact .same trivial
  | registered hphase =>
    simp only [registerToMaster]
    split_ifs with hec
    · exact .same trivial
    · rw [not_not.mp hec] at hphase
      exact .grow trivial (Or.inr hphase) addRemoteGates_grows
  | ping => exact .same trivial
  | lose => exact .same trivial

lemma Reshaped.indexed {a : ℕ × Action} {sh : Shape} (hr : Reshaped g a sh)
    (h : g.shape.Indexed) : sh.Indexed := by
  cases hr with
  | resume => exact h.add _
  | grow _ _ hsh => exact hsh.indexed h
  | same => exact h

lemma Reshaped.unique_iff {a : ℕ × Action} {sh : Shape} (hr : Reshaped g a sh)
    (h : g.shape.Indexed) (hu : g.shape.Unique) : sh.Unique ↔ Unraced g a := by
  cases hr with
  | @resume now r reg hreg hdone =>
    rw [h.unique_add hu, ← localIds_eq, ← typeIds_eq]
    constructor
    · rintro ⟨hl, ht⟩ reg' hreg' -
      obtain rfl := Option.some.inj (hreg.symm.trans hreg')
      exact ⟨hl rfl, ht⟩
    · intro hrace
      obtain ⟨hl, ht⟩ := hrace reg hreg hdone
      exact ⟨fun _ => hl, ht⟩
  | grow ha _ hsh => exact ⟨fun _ => ha, fun _ => hsh.unique h hu⟩
  | same ha => exact ⟨fun _ => ha, fun _ => hu⟩

lemma indexed_empty : (⟨[], ∅, ∅⟩ : Shape).Indexed :=
  ⟨nofun, nofun, nofun⟩

variable (id : UInt16) (pid : ℕ) (addresses : List GateAddress)

/-- A service is listed once along a run exactly when no registration resumes into a race. -/
theorem unique_always_iff (as : List (ℕ × Action)) :
    (machine id pid addresses).Always Unique (machine id pid addresses).initial as ↔
      (machine id pid addresses).Along Unraced (machine id pid addresses).initial as := by
  apply Machine.always_iff_along (I := fun g => g.shape.Indexed)
  · intro g a g' h hstep
    have hstepped : Stepped g a g' := step_stepped hstep
    have hr := hstepped.reshaped
    exact hr.indexed h
  · intro g a g' h hu hstep
    have hstepped : Stepped g a g' := step_stepped hstep
    have hr := hstepped.reshaped
    rw [unique_iff, hr.unique_iff h (unique_iff.mp hu)]
  · exact indexed_empty
  · exact ⟨List.nodup_nil, fun _ => List.nodup_nil⟩

theorem unique_raced : ∃ g, (machine 9 0 []).run (machine 9 0 []).initial
    [(1, .accept 1), (1, .accept 2), (1, .connect 0),
      (1, .recv (.registerAck 0x100000001 .success [])), (1, .registered),
      (1, .register 0 1 ⟨⟨5, 3, true⟩, 64, []⟩), (1, .register 1 1 ⟨⟨5, 3, true⟩, 64, []⟩),
      (1, .recv (.updateAck 0x100000002 .success)), (1, .recv (.updateAck 0x100000003 .success)),
      (1, .resume 0), (1, .resume 0)] = some g ∧ ¬ Unique g := by
  refine ⟨_, rfl, ?_⟩
  intro hu
  exact absurd hu.locals (by decide)

end Gate

end Simple.Gobang
