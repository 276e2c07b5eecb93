import Simple.Gobang.GateServices
import Simple.Gobang.MasterOwnership

/-! The side of a gate that faces the gate master: its calls and the registrations that wait for
them. -/

namespace Simple.Gobang

open Simple.Lib

open GateMaster (Tells TellsAll Extends)

structure Wire where
  id : UInt16
  pid : ℕ
  rpc : RpcSystem
  outbox : List MasterRequest
  socket : Option ℕ
  phase : Phase
  registrations : List Registration

def Registration.id (r : Registration) : UInt16 := r.req.info.id.toUInt16

namespace Wire

def Issued (w : Wire) (session : UInt64) : Prop := RpcSystem.Issued w.pid w.rpc session

def call (w : Wire) (now : ℕ) (req : UInt64 → MasterRequest) : Wire :=
  { w with
    rpc := w.rpc.tick now
    outbox := w.outbox ++ [req (w.rpc.createSession w.pid now).2] }

def Asks (w : Wire) : MasterRequest → Prop
  | .register _ info => info.id.toUInt16 = w.id
  | .update session services => w.Issued session ∧
      ∀ r ∈ w.registrations, r.upload = .waiting session →
        ∃ info ∈ services, info.id.toUInt16 = r.id
  | _ => True

structure Hears (own : UInt16 → Option UInt16) (w : Wire) (msg : MasterMessage) : Prop where
  tells : TellsAll own w.id msg
  issued : ∀ session, msg = .updateAck session .success → w.Issued session
  owned : ∀ session, msg = .updateAck session .success →
    ∀ r ∈ w.registrations, r.upload = .waiting session → own r.id = some w.id

structure Heard (own : UInt16 → Option UInt16) (w : Wire) : Prop where
  answer : ∀ ec gates, w.phase = .registered ec gates → ∀ info ∈ gates, Tells own w.id info
  waiting : ∀ r ∈ w.registrations, ∀ session, r.upload = .waiting session → w.Issued session
  owned : ∀ r ∈ w.registrations, r.upload = .done .success → own r.id = some w.id

variable {own own' : UInt16 → Option UInt16} {w w' w'' : Wire} {now : ℕ}

structure Progress (own : UInt16 → Option UInt16) (w w' : Wire) : Prop where
  id : w'.id = w.id
  issued : ∀ session, w.Issued session → w'.Issued session
  waits : ∀ r ∈ w'.registrations, ∀ session, r.upload = .waiting session →
    r ∈ w.registrations ∨ ¬ w.Issued session
  sends : ∃ news, w'.outbox = w.outbox ++ news ∧ ∀ req ∈ news, w'.Asks req
  heard : Heard own w'

lemma Progress.asks (hp : Progress own w w') {req : MasterRequest} (h : w.Asks req) :
    w'.Asks req := by
  cases req with
  | register session info => exact Eq.trans h hp.id.symm
  | update session services =>
    refine ⟨hp.issued session h.1, ?_⟩
    intro r hr hwait
    rcases hp.waits r hr session hwait with hold | hnew
    · exact h.2 r hold hwait
    · exact absurd h.1 hnew
  | _ => trivial

lemma Progress.hears (hp : Progress own w w') {msg : MasterMessage} (h : Hears own w msg) :
    Hears own w' msg := by
  refine ⟨hp.id ▸ h.tells, fun session hmsg => hp.issued session (h.issued session hmsg), ?_⟩
  intro session hmsg r hr hwait
  rcases hp.waits r hr session hwait with hold | hnew
  · rw [hp.id]
    exact h.owned session hmsg r hold hwait
  · exact absurd (h.issued session hmsg) hnew

lemma Progress.trans (h : Progress own w w') (h' : Progress own w' w'') : Progress own w w'' := by
  refine ⟨h'.id.trans h.id, fun session hs => h'.issued session (h.issued session hs), ?_, ?_,
    h'.heard⟩
  · intro r hr session hwait
    rcases h'.waits r hr session hwait with hold | hnew
    · exact h.waits r hold session hwait
    · exact Or.inr fun hs => hnew (h.issued session hs)
  · obtain ⟨news, hsent, hasks⟩ := h.sends
    obtain ⟨news', hsent', hasks'⟩ := h'.sends
    refine ⟨news ++ news', by rw [hsent', hsent, List.append_assoc], ?_⟩
    intro req hreq
    rcases List.mem_append.mp hreq with hreq | hreq
    · exact h'.asks (hasks req hreq)
    · exact hasks' req hreq

lemma Heard.progress (h : Heard own w) : Progress own w w :=
  ⟨rfl, fun _ hs => hs, fun _ hr _ _ => Or.inl hr, ⟨[], by simp⟩, h⟩

lemma Heard.mono (hown : Extends own own') (h : Heard own w) : Heard own' w :=
  ⟨fun ec gates hphase info hinfo => (h.answer ec gates hphase info hinfo).mono hown, h.waiting,
    fun r hr hdone => hown _ _ (h.owned r hr hdone)⟩

lemma Hears.mono (hown : Extends own own') {msg : MasterMessage} (h : Hears own w msg) :
    Hears own' w msg :=
  ⟨h.tells.mono hown, h.issued, fun session hmsg r hr hwait => hown _ _ (h.owned session hmsg r hr hwait)⟩

lemma Heard.progress_silent (h : Heard own w) (hid : w'.id = w.id) (hpid : w'.pid = w.pid)
    (hrpc : w'.rpc = w.rpc) (hout : w'.outbox = w.outbox)
    (hregs : ∀ r ∈ w'.registrations, r ∈ w.registrations ∨
      ∃ ec, r.upload = .done ec ∧ (ec = .success → own r.id = some w.id))
    (hphase : ∀ ec gates, w'.phase = .registered ec gates → ∀ info ∈ gates, Tells own w.id info) :
    Progress own w w' := by
  have hissued : ∀ session, w'.Issued session ↔ w.Issued session := by
    intro session
    rw [Issued, Issued, hpid, hrpc]
  refine ⟨hid, fun session hs => (hissued session).mpr hs, ?_, ⟨[], by simp [hout], by simp⟩,
    ?_, ?_, ?_⟩
  · intro r hr session hwait
    rcases hregs r hr with hold | ⟨ec, hdone, -⟩
    · exact Or.inl hold
    · simp [hdone] at hwait
  · exact fun ec gates hp info hinfo => hid ▸ hphase ec gates hp info hinfo
  · intro r hr session hwait
    rcases hregs r hr with hold | ⟨ec, hdone, -⟩
    · exact (hissued session).mpr (h.waiting r hold session hwait)
    · simp [hdone] at hwait
  · intro r hr hdone
    rw [hid]
    rcases hregs r hr with hold | ⟨ec, hdone', hown⟩
    · exact h.owned r hold hdone
    · rw [hdone', Upload.done.injEq] at hdone
      exact hown hdone

lemma Heard.progress_call (h : Heard own w) (news : List Registration) (phase : Phase)
    (socket : Option ℕ) (req : UInt64 → MasterRequest) (hfits : (w.rpc.tick now).Fits)
    (hnews : ∀ r ∈ news, r.upload = .waiting (w.rpc.createSession w.pid now).2)
    (hreq : ∀ session, (∃ info, req session = .register session info ∧ info.id.toUInt16 = w.id) ∨
      (∃ services, req session = .update session services ∧
        ∀ r ∈ news, ∃ info ∈ services, info.id.toUInt16 = r.id) ∨ req session = .ping session)
    (hphase : ∀ ec gates, phase = .registered ec gates → ∀ info ∈ gates, Tells own w.id info) :
    Progress own w { w.call now req with
      registrations := w.registrations ++ news, phase := phase, socket := socket } := by
  have hnew : ∀ session, w.Issued session → (w.rpc.createSession w.pid now).2 ≠ session :=
    fun session hs => RpcSystem.createSession_ne hfits hs
  have hissued := RpcSystem.issued_createSession w.pid hfits
  refine ⟨rfl, fun session hs => RpcSystem.Issued.tick hs, ?_, ⟨[_], rfl, ?_⟩, hphase, ?_, ?_⟩
  · intro r hr session hwait
    rcases List.mem_append.mp hr with hr | hr
    · exact Or.inl hr
    · right
      intro hs
      rw [hnews r hr, Upload.waiting.injEq] at hwait
      exact hnew session hs hwait
  · intro q hq
    obtain rfl := List.mem_singleton.mp hq
    rcases hreq (w.rpc.createSession w.pid now).2 with ⟨info, heq, hid⟩ | ⟨services, heq, hmem⟩ | heq
    · rw [heq]
      exact hid
    · rw [heq]
      refine ⟨hissued, ?_⟩
      intro r hr hwait
      rcases List.mem_append.mp hr with hr | hr
      · exact absurd rfl (hnew _ (h.waiting r hr _ hwait))
      · exact hmem r hr
    · rw [heq]
      trivial
  · intro r hr session hwait
    rcases List.mem_append.mp hr with hr | hr
    · exact RpcSystem.Issued.tick (h.waiting r hr session hwait)
    · rw [hnews r hr, Upload.waiting.injEq] at hwait
      exact hwait ▸ hissued
  · intro r hr hdone
    rcases List.mem_append.mp hr with hr | hr
    · exact h.owned r hr hdone
    · rw [hnews r hr] at hdone
      cases hdone

end Wire

namespace Gate

def wire (g : Gate) : Wire :=
  ⟨g.id, g.pid, g.rpc, g.outbox, g.socket, g.phase, g.registrations⟩

variable {g g' : Gate} {now : ℕ} {own : UInt16 → Option UInt16}

@[simp] lemma wire_send {s : UInt32} {msg : LocalMessage} : (g.send s msg).wire = g.wire := rfl

@[simp] lemma wire_writes {i : ℕ} {queue : List (List UInt8)} :
    (queue.foldl (write i) g).wire = g.wire := by
  induction queue generalizing g with
  | nil => rfl
  | cons msg queue ih => exact ih

@[simp] lemma wire_emplaceService {i : ℕ} {s : Service} :
    (g.emplaceService i s).wire = g.wire := by
  simp only [emplaceService]
  split
  · rfl
  · exact wire_writes

@[simp] lemma wire_publish {s : Service} : (g.publish s).wire = g.wire := by
  simp only [publish]
  split <;> rfl

@[simp] lemma wire_answer {conn : ℕ} {session : UInt64} {ec : Ec} :
    (g.answer conn session ec).wire = g.wire := by
  simp only [answer]
  split <;> rfl

@[simp] lemma wire_addLocalService {req : RegisterRequest} :
    (g.addLocalService req).wire = g.wire := wire_emplaceService

inductive Called (now : ℕ) (w : Wire) : Wire → Prop
  | silent : Called now w w
  | update (info : ServiceInfo) : Called now w (w.call now fun session => .update session [info])

lemma update_called {i : ℕ} {w : Wire} (hw : g.wire = w) : Called now w (g.update now i).wire := by
  subst hw
  simp only [update]
  split
  · exact .silent
  · next s _ =>
    rw [wire_publish]
    split_ifs
    · exact .silent
    · simp only [upload]
      split
      · exact .silent
      · exact .update s.toProto

lemma wire_update_remote {i : ℕ} (h : ∀ s, g.objects[i]? = some s → s.gate ≠ g.id) :
    (g.update now i).wire = g.wire := by
  simp only [update]
  split
  · rfl
  · next s hs => rw [wire_publish, if_pos (h s hs)]

lemma bind_called {conn i : ℕ} {session : UInt64} {w : Wire} (hw : g.wire = w) :
    Called now w (g.bind now conn session i).wire := by
  subst hw
  simp only [bind]
  split
  · exact .silent
  · rw [wire_send]
    exact update_called rfl

lemma socketStop_called (now conn : ℕ) (ptr : LocalSocket) :
    Called now g.wire (g.socketStop now conn ptr).wire := by
  simp only [socketStop]
  split
  · exact .silent
  · next i _ =>
    split_ifs
    · change Called now g.wire ((g.modifyObject i _).update now i).wire
      exact update_called rfl
    · exact .silent

lemma Called.progress {w w' : Wire} (hc : Called now w w') (h : w.Heard own)
    (hfits : w'.rpc.Fits) : w.Progress own w' := by
  cases hc with
  | silent => exact h.progress
  | update info =>
    have hcall := h.progress_call [] w.phase w.socket (fun x => .update x [info]) hfits nofun
      (fun session => Or.inr (Or.inl ⟨[info], rfl, nofun⟩)) h.answer
    rw [List.append_nil] at hcall
    exact hcall

lemma Called.socket {w w' : Wire} (hc : Called now w w') : w'.socket = w.socket := by
  cases hc <;> rfl

lemma serviceRegister_socket {conn : ℕ} {session : UInt64} {req : RegisterRequest} :
    (g.serviceRegister now conn session req).socket = g.socket := by
  have hanswer : ∀ ec, (g.answer conn session ec).socket = g.socket :=
    fun ec => congrArg Wire.socket wire_answer
  simp only [serviceRegister]
  split
  · rfl
  split_ifs
  · rfl
  · exact hanswer _
  · split
    · split_ifs <;> exact hanswer _
    · split
      · simp only [upload]
        split <;> rfl
      · split_ifs
        · exact (bind_called rfl).socket
        · exact hanswer _

lemma resume_socket {r : ℕ} {reg : Registration} {ec : Ec} :
    (g.resume now r reg ec).socket = g.socket := by
  simp only [resume]
  split_ifs
  · exact congrArg Wire.socket wire_answer
  · exact (bind_called wire_addLocalService).socket

lemma addRemoteService_socket {h : UInt16} {info : ServiceInfo} :
    (addRemoteService h now g info).socket = g.socket := by
  have hfound : (remoteService h g info).1.socket = g.socket := by
    simp only [remoteService]
    split
    · rfl
    · exact congrArg Wire.socket wire_emplaceService
  exact (update_called rfl).socket.trans hfound

lemma addRemoteGates_socket {gates : List GateInfo} :
    (gates.foldl (addRemoteGate now) g).socket = g.socket := by
  have hservices : ∀ (h : UInt16) (infos : List ServiceInfo) (g : Gate),
      (infos.foldl (addRemoteService h now) g).socket = g.socket := by
    intro h infos
    induction infos with
    | nil => exact fun _ => rfl
    | cons info infos ih => exact fun g => (ih _).trans addRemoteService_socket
  induction gates generalizing g with
  | nil => rfl
  | cons info gates ih => exact ih.trans (hservices _ _ _)

lemma Stepped.socket {a : ℕ × Action} (h : Stepped g a g') :
    g'.socket = g.socket ∨ g'.socket = none ∨ ∃ now link, a = (now, .connect link) := by
  cases h with
  | accept => exact Or.inl rfl
  | register => exact Or.inl serviceRegister_socket
  | subscribe =>
    left
    simp only [serviceSubscribe]
    split
    · rfl
    · split_ifs <;> rfl
  | @stop now conn ptr => exact Or.inl (socketStop_called now conn ptr).socket
  | resume => exact Or.inl resume_socket
  | expire => exact Or.inl (congrArg Wire.socket wire_answer)
  | forward =>
    left
    simp only [Gate.forward]
    split <;> rfl
  | @connect now link => exact Or.inr (Or.inr ⟨now, link, rfl⟩)
  | @recvOneMessage now session msg =>
    left
    cases msg with
    | registerAck session' ec gates =>
      simp only [Gate.recvOneMessage]
      split_ifs <;> rfl
    | _ => rfl
  | @forwardMessage now msg =>
    left
    cases msg with
    | registerBrd gates => exact addRemoteGates_socket
    | updateAck session ec =>
      simp only [Gate.forwardMessage]
      split_ifs <;> rfl
    | _ => rfl
  | registered =>
    simp only [registerToMaster]
    split_ifs
    · exact Or.inr (Or.inl rfl)
    · exact Or.inl addRemoteGates_socket
  | ping => exact Or.inl rfl
  | lose => exact Or.inr (Or.inl rfl)

structure Knows (own : UInt16 → Option UInt16) (k : UInt16) (sh : Shape) : Prop where
  indexed : sh.Indexed
  owned : ∀ key ∈ sh.keys, own key.id = some key.gate
  here : ∀ key ∈ sh.keys, key.isLocal = true ↔ key.gate = k

variable {own' : UInt16 → Option UInt16} {k : UInt16} {sh sh' : Shape}

lemma Knows.mono (hown : Extends own own') (h : Knows own k sh) : Knows own' k sh :=
  ⟨h.indexed, fun key hkey => hown _ _ (h.owned key hkey), h.here⟩

lemma Knows.add (h : Knows own k sh) {key : Key} (hown : own key.id = some key.gate)
    (hhere : key.isLocal = true ↔ key.gate = k) : Knows own k (sh.add key) := by
  refine ⟨h.indexed.add key, ?_, ?_⟩
  · intro key' hkey'
    rcases List.mem_append.mp hkey' with hkey' | hkey'
    · exact h.owned key' hkey'
    · rw [List.mem_singleton.mp hkey']
      exact hown
  · intro key' hkey'
    rcases List.mem_append.mp hkey' with hkey' | hkey'
    · exact h.here key' hkey'
    · rw [List.mem_singleton.mp hkey']
      exact hhere

lemma Knows.grows (h : Knows own k sh) {R : Key → Prop}
    (hR : ∀ key, R key → own key.id = some key.gate ∧ key.gate ≠ k)
    (hg : Shape.Grows R sh sh') : Knows own k sh' := by
  induction hg with
  | refl => exact h
  | add hk hremote _ _ ih =>
    obtain ⟨hown, hne⟩ := hR _ hk
    apply ih
    apply h.add hown
    simp [hremote, hne]

lemma Told.owned {gates : List GateInfo} (hgates : ∀ info ∈ gates, Tells own k info) {key : Key}
    (h : Told gates key) : own key.id = some key.gate ∧ key.gate ≠ k := by
  obtain ⟨info, hinfo, s, hs, rfl⟩ := h
  exact ⟨(hgates info hinfo).2 s hs, (hgates info hinfo).1⟩

variable {h : UInt16} {info : ServiceInfo}

lemma remoteService_key (hk : Knows own k g.shape) (hinfo : own info.id.toUInt16 = some h) :
    ∃ key, (remoteService h g info).1.shape.keys[(remoteService h g info).2]? = some key ∧
      key.gate = h := by
  simp only [remoteService]
  cases hid : g.services.get info.id.toUInt16 with
  | some i =>
    obtain ⟨key, hkey, hkid⟩ := hk.indexed.found _ i hid
    refine ⟨key, hkey, ?_⟩
    have hown := hk.owned key (List.mem_of_getElem? hkey)
    rw [hkid, hinfo] at hown
    exact (Option.some.inj hown).symm
  | none =>
    have hlen : g.objects.length = g.shape.keys.length := by simp [shape]
    simp only [hlen]
    rw [shape_emplaceService (by simp [shape]) rfl rfl]
    exact ⟨_, List.getElem?_concat_length, rfl⟩

@[simp] lemma wire_remoteService : (remoteService h g info).1.wire = g.wire := by
  simp only [remoteService]
  split
  · rfl
  · exact wire_emplaceService

lemma wire_addRemoteService (hk : Knows own g.id g.shape) (hinfo : own info.id.toUInt16 = some h)
    (hne : h ≠ g.id) : (addRemoteService h now g info).wire = g.wire := by
  obtain ⟨key, hkey, hgate⟩ := remoteService_key hk hinfo
  have hid : (remoteService h g info).1.id = g.id := congrArg Wire.id wire_remoteService
  simp only [addRemoteService]
  rw [wire_update_remote]
  · exact wire_remoteService
  · intro s hs
    have hshape := shape_modifyObject (g := (remoteService h g info).1)
      (i := (remoteService h g info).2) (f := fun s => { s with online := info.online })
      fun _ => rfl
    have hsome : s.key = key := by
      rw [← hshape] at hkey
      simp only [shape, List.getElem?_map] at hkey
      rw [hs, Option.map_some] at hkey
      exact Option.some.inj hkey
    have hsgate : s.gate = h := by
      rw [← hgate, ← hsome]
      rfl
    rw [hsgate]
    exact fun heq => hne (heq.trans hid)

lemma wire_addRemoteServices (now : ℕ) {infos : List ServiceInfo} (hk : Knows own g.id g.shape)
    (hinfos : ∀ info ∈ infos, own info.id.toUInt16 = some h) (hne : h ≠ g.id) :
    (infos.foldl (addRemoteService h now) g).wire = g.wire ∧
      Knows own g.id (infos.foldl (addRemoteService h now) g).shape := by
  induction infos generalizing g with
  | nil => exact ⟨rfl, hk⟩
  | cons info infos ih =>
    have hinfo := hinfos info (by simp)
    have hwire : (addRemoteService h now g info).wire = g.wire :=
      wire_addRemoteService hk hinfo hne
    have hid : (addRemoteService h now g info).id = g.id := congrArg Wire.id hwire
    have hknows : Knows own g.id (addRemoteService h now g info).shape := by
      apply hk.grows _ addRemoteService_grows
      rintro key rfl
      exact ⟨hinfo, hne⟩
    obtain ⟨hw, hs⟩ := ih (hid.symm ▸ hknows) (fun i hi => hinfos i (by simp [hi])) (hid.symm ▸ hne)
    exact ⟨hw.trans hwire, hid ▸ hs⟩

lemma wire_addRemoteGates {gates : List GateInfo} (hk : Knows own g.id g.shape)
    (hgates : ∀ info ∈ gates, Tells own g.id info) :
    (gates.foldl (addRemoteGate now) g).wire = g.wire := by
  induction gates generalizing g with
  | nil => rfl
  | cons info gates ih =>
    obtain ⟨hne, hservices⟩ := hgates info (by simp)
    obtain ⟨hwire, hknows⟩ := wire_addRemoteServices now (g := { g with
      remoteGates := g.remoteGates.set info.id.toUInt16
        (info.addresses.map fun a => a.host ++ "," ++ a.port) }) hk hservices hne
    have hid : (addRemoteGate now g info).id = g.id := congrArg Wire.id hwire
    rw [List.foldl_cons, ih]
    · exact hwire
    · rw [hid]
      exact hknows
    · exact fun i hi => hid.symm ▸ hgates i (by simp [hi])

structure Sound (own : UInt16 → Option UInt16) (g : Gate) : Prop where
  knows : Knows own g.id g.shape
  heard : g.wire.Heard own

lemma Sound.mono (hown : Extends own own') (hg : Sound own g) : Sound own' g :=
  ⟨hg.knows.mono hown, hg.heard.mono hown⟩

lemma erase_progress (hg : Sound own g) (r : ℕ) :
    g.wire.Progress own { g with registrations := g.registrations.eraseIdx r }.wire :=
  hg.heard.progress_silent rfl rfl rfl rfl (fun _ hr => Or.inl (List.mem_of_mem_eraseIdx hr))
    hg.heard.answer

lemma wakeUp_progress (hg : Sound own g) {session : UInt64} {ec : Ec} {phase : Phase}
    (hmsg : g.wire.Hears own (.updateAck session ec))
    (hphase : ∀ ec gates, phase = .registered ec gates → ∀ info ∈ gates, Tells own g.id info) :
    g.wire.Progress own { g.wakeUpSession session ec with phase := phase }.wire := by
  refine hg.heard.progress_silent rfl rfl rfl rfl ?_ hphase
  intro r hr
  obtain ⟨old, hold, rfl⟩ := List.mem_map.mp hr
  split_ifs with hwait
  · refine Or.inr ⟨ec, rfl, ?_⟩
    rintro rfl
    exact hmsg.owned session rfl old hold hwait
  · exact Or.inl hold

lemma register_progress (hg : Sound own g) {conn : ℕ} {session : UInt64} {req : RegisterRequest}
    (hfits : (g.serviceRegister now conn session req).rpc.Fits) :
    g.wire.Progress own (g.serviceRegister now conn session req).wire := by
  have hanswer : ∀ ec, g.wire.Progress own (g.answer conn session ec).wire := by
    intro ec
    rw [wire_answer]
    exact hg.heard.progress
  revert hfits
  simp only [serviceRegister]
  split
  · exact fun _ => hg.heard.progress
  split_ifs
  · exact fun _ => hg.heard.progress
  · exact fun _ => hanswer _
  · split
    · split_ifs <;> exact fun _ => hanswer _
    · split
      · simp only [upload]
        split
        · intro _
          refine hg.heard.progress_silent rfl rfl rfl rfl ?_ hg.heard.answer
          intro r hr
          rcases List.mem_append.mp hr with hr | hr
          · exact Or.inl hr
          · rw [List.mem_singleton.mp hr]
            exact Or.inr ⟨.system, rfl, by simp⟩
        · intro hfits
          refine hg.heard.progress_call
            [⟨conn, session, req, .waiting (g.rpc.createSession g.pid now).2⟩] g.phase g.socket
            (fun x => .update x [{ req.info with online := false }]) hfits ?_ ?_ hg.heard.answer
          · simp [wire]
          · exact fun x => Or.inr (Or.inl ⟨_, rfl, by simp [Registration.id]⟩)
      · split_ifs
        · intro hfits
          exact (bind_called rfl).progress hg.heard hfits
        · exact fun _ => hanswer _

lemma resume_progress (hg : Sound own g) {r : ℕ} {reg : Registration} {ec : Ec}
    (hfits : (g.resume now r reg ec).rpc.Fits) :
    g.wire.Progress own (g.resume now r reg ec).wire := by
  have herase := erase_progress hg r
  revert hfits
  simp only [resume]
  split_ifs
  · intro _
    rw [wire_answer]
    exact herase
  · intro hfits
    apply herase.trans
    exact (bind_called wire_addLocalService).progress herase.heard hfits

lemma connect_progress (hg : Sound own g) {link : ℕ} (hfits : (g.connect now link).rpc.Fits) :
    g.wire.Progress own (g.connect now link).wire := by
  have hcall := hg.heard.progress_call [] (.registering (g.rpc.createSession g.pid now).2)
    (some link) (fun x => .register x ⟨g.id.toUInt32, g.localServices, g.addresses⟩) hfits nofun
    (fun x => Or.inl ⟨_, rfl, UInt16.toUInt16_toUInt32 g.id⟩) nofun
  rw [List.append_nil] at hcall
  exact hcall

lemma recvOneMessage_progress (hg : Sound own g) {session : UInt64} {msg : MasterMessage}
    (hmsg : g.wire.Hears own msg) : g.wire.Progress own (g.recvOneMessage session msg).wire := by
  have hphase : ∀ phase : Phase, (∀ ec gates, phase = .registered ec gates →
      ∀ info ∈ gates, Tells own g.id info) → g.wire.Progress own { g with phase := phase }.wire :=
    fun phase hp => hg.heard.progress_silent rfl rfl rfl rfl (fun _ hr => Or.inl hr) hp
  cases msg with
  | registerAck session' ec gates =>
    simp only [recvOneMessage]
    split_ifs
    · apply hphase
      rintro _ _ ⟨⟩
      exact hmsg.tells
    · exact hphase _ (by simp)
  | updateAck session' ec => exact wakeUp_progress hg hmsg (by simp)
  | _ => exact hphase _ (by simp)

lemma forwardMessage_progress (hg : Sound own g) {msg : MasterMessage}
    (hmsg : g.wire.Hears own msg) : g.wire.Progress own (g.forwardMessage now msg).wire := by
  cases msg with
  | registerBrd gates =>
    rw [forwardMessage, wire_addRemoteGates hg.knows hmsg.tells]
    exact hg.heard.progress
  | updateAck session ec =>
    simp only [forwardMessage]
    split_ifs
    · exact hg.heard.progress
    · exact wakeUp_progress hg hmsg hg.heard.answer
  | _ => exact hg.heard.progress

lemma lose_progress (hg : Sound own g) : g.wire.Progress own g.lose.wire :=
  hg.heard.progress_silent rfl rfl rfl rfl (fun _ hr => Or.inl hr) nofun

lemma registerToMaster_progress (hg : Sound own g) {ec : Ec} {gates : List GateInfo}
    (hphase : g.phase = .registered ec gates) :
    g.wire.Progress own (g.registerToMaster now ec gates).wire := by
  simp only [registerToMaster]
  split_ifs
  · exact lose_progress hg
  · have hwire : (gates.foldl (addRemoteGate now) g).wire = g.wire :=
      wire_addRemoteGates hg.knows (hg.heard.answer ec gates hphase)
    generalize gates.foldl (addRemoteGate now) g = g' at hwire
    have hprogress : g.wire.Progress own { g.wire with phase := .running } :=
      hg.heard.progress_silent rfl rfl rfl rfl (fun _ hr => Or.inl hr) (by simp)
    rw [← hwire] at hprogress ⊢
    exact hprogress

lemma ping_progress (hg : Sound own g) (hfits : (g.rpcCall now .ping).1.rpc.Fits) :
    g.wire.Progress own (g.rpcCall now .ping).1.wire := by
  have hcall := hg.heard.progress_call [] g.phase g.socket .ping hfits nofun
    (fun x => Or.inr (Or.inr rfl)) hg.heard.answer
  rw [List.append_nil] at hcall
  exact hcall

lemma Stepped.progress {a : Action} (h : Stepped g (now, a) g') (hg : Sound own g)
    (hfits : g'.rpc.Fits) (hmsg : ∀ msg, a = .recv msg → g.wire.Hears own msg) :
    g.wire.Progress own g'.wire := by
  cases h with
  | accept => exact hg.heard.progress
  | register => exact register_progress hg hfits
  | @subscribe _ conn session tp =>
    have hwire : (g.serviceSubscribe conn session tp).wire = g.wire := by
      simp only [serviceSubscribe]
      split
      · rfl
      · split_ifs <;> rfl
    rw [hwire]
    exact hg.heard.progress
  | stop => exact (socketStop_called _ _ _).progress hg.heard hfits
  | resume => exact resume_progress hg hfits
  | expire =>
    simp only [Gate.expire, wire_answer]
    exact erase_progress hg _
  | @forward _ dest msg =>
    have hwire : (g.forward dest msg).wire = g.wire := by
      simp only [Gate.forward]
      split <;> rfl
    rw [hwire]
    exact hg.heard.progress
  | connect => exact connect_progress hg hfits
  | recvOneMessage => exact recvOneMessage_progress hg (hmsg _ rfl)
  | forwardMessage => exact forwardMessage_progress hg (hmsg _ rfl)
  | registered hphase => exact registerToMaster_progress hg hphase
  | ping => exact ping_progress hg hfits
  | lose => exact lose_progress hg

lemma Stepped.sound {a : Action} (h : Stepped g (now, a) g') (hg : Sound own g)
    (hfits : g'.rpc.Fits) (hmsg : ∀ msg, a = .recv msg → g.wire.Hears own msg) : Sound own g' := by
  have hp := h.progress hg hfits hmsg
  have hid : g'.id = g.id := hp.id
  have hr := h.reshaped
  refine ⟨?_, hp.heard⟩
  rw [hid]
  generalize g'.shape = sh at hr
  cases hr with
  | resume hreg hdone =>
    apply hg.knows.add
    · exact hg.heard.owned _ (List.mem_of_getElem? hreg) hdone
    · simp
  | @grow _ gates _ _ hgates hsh =>
    have htells : ∀ info ∈ gates, Tells own g.id info := by
      rcases hgates with ⟨_, heq⟩ | hphase
      · exact (hmsg _ (Prod.mk.inj heq).2).tells
      · exact hg.heard.answer _ gates hphase
    exact hg.knows.grows (fun key hkey => hkey.owned htells) hsh
  | same => exact hg.knows

end Gate

end Simple.Gobang
