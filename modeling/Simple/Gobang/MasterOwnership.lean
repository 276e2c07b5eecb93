import Simple.Gobang.MasterView

/-! Who owns a service, as the gate master has it and as its messages tell it. -/

namespace Simple.Gobang

open Simple.Lib

namespace GateMaster

variable {m n : GateMaster} {g h k id : UInt16} {s t : UInt32} {c : SocketData}

def owner (m : GateMaster) (id : UInt16) : Option UInt16 :=
  (m.services.get id).map ServiceData.gate

def Tells (own : UInt16 → Option UInt16) (k : UInt16) (info : GateInfo) : Prop :=
  info.id.toUInt16 ≠ k ∧
    ∀ s ∈ info.services, own s.id.toUInt16 = some info.id.toUInt16

def TellsAll (own : UInt16 → Option UInt16) (k : UInt16) : MasterMessage → Prop
  | .registerAck _ _ gates => ∀ info ∈ gates, Tells own k info
  | .registerBrd gates => ∀ info ∈ gates, Tells own k info
  | _ => True

def Extends (own own' : UInt16 → Option UInt16) : Prop :=
  ∀ id g, own id = some g → own' id = some g

variable {own own' : UInt16 → Option UInt16}

lemma Tells.mono (hown : Extends own own') {info : GateInfo} (ht : Tells own k info) :
    Tells own' k info :=
  ⟨ht.1, fun s hs => hown _ _ (ht.2 s hs)⟩

lemma TellsAll.mono (hown : Extends own own') {msg : MasterMessage} (ht : TellsAll own k msg) :
    TellsAll own' k msg := by
  cases msg with
  | registerAck session ec gates => exact fun info hinfo => (ht info hinfo).mono hown
  | registerBrd gates => exact fun info hinfo => (ht info hinfo).mono hown
  | _ => trivial

lemma owner_congr (hs : n.services = m.services) : n.owner = m.owner := by
  funext id
  simp only [owner, hs]

@[simp] lemma publish_owner : (m.publish g).owner = m.owner := owner_congr publish_services

@[simp] lemma send_owner {msg : MasterMessage} : (m.send s msg).owner = m.owner := rfl

lemma extends_refl (own : UInt16 → Option UInt16) : Extends own own := fun _ _ h => h

lemma darkened_owner {gate : GateData} : (m.darkened g gate).owner = m.owner := by
  funext id
  simp only [owner, darkened_services]
  split_ifs
  · simp [Function.comp_def]
  · rfl

lemma Added.extends {ids : List UInt16} (hn : Added g ids m n) : Extends m.owner n.owner := by
  intro id k hk
  obtain ⟨sd, hsd, rfl⟩ := Option.map_eq_some_iff.mp hk
  obtain ⟨b, hb, -⟩ := hn.kept id sd hsd
  simp [owner, hb]

lemma gateInfo_tells (hc : Catalog m) {gd : GateData} (hh : m.gates.get h = some gd)
    (hne : h ≠ k) : Tells m.owner k (m.gateInfo gd) := by
  have hid : (m.gateInfo gd).id.toUInt16 = h := by
    rw [gateInfo, hc.key h gd hh, UInt16.toUInt16_toUInt32]
  refine ⟨by rwa [hid], ?_⟩
  intro s hs
  rw [hid]
  obtain ⟨id, hmem, hinfo⟩ := List.mem_filterMap.mp hs
  obtain ⟨sd, hsd, rfl⟩ := Option.map_eq_some_iff.mp hinfo
  obtain ⟨sd', hsd', hgate⟩ := hc.owned h gd id hh hmem
  obtain rfl := Option.some.inj (hsd.symm.trans hsd')
  have hsid : sd.info.id.toUInt16 = id := by
    rw [ServiceData.info, UInt16.toUInt16_toUInt32, hc.serviceKey id sd hsd]
  rw [hsid, owner, hsd, Option.map_some, hgate]

lemma addService_isSome {info : ServiceInfo}
    (hid : info.id.toUInt16 = id ∨ (m.services.get id).isSome) :
    ((addService g m info).services.get id).isSome := by
  have hset : ∀ sd, ((m.services.set info.id.toUInt16 sd).get id).isSome := by
    intro sd
    rw [Table.get_set]
    split_ifs with heq
    · rfl
    · exact hid.resolve_left (Ne.symm heq)
  simp only [addService]
  cases m.services.get info.id.toUInt16 <;> exact hset _

lemma addServices_isSome {services : List ServiceInfo}
    (hid : (∃ info ∈ services, info.id.toUInt16 = id) ∨ (m.services.get id).isSome) :
    ((m.addServices services g).services.get id).isSome := by
  induction services generalizing m with
  | nil => exact hid.resolve_left (by simp)
  | cons first services ih =>
    apply ih
    rcases hid with ⟨info, hinfo, heq⟩ | hsome
    · rcases List.mem_cons.mp hinfo with rfl | hinfo
      · exact Or.inr (addService_isSome (Or.inl heq))
      · exact Or.inl ⟨info, hinfo, heq⟩
    · exact Or.inr (addService_isSome (Or.inr hsome))

lemma addServices_owner {services : List ServiceInfo} (hcheck : m.checkServices services g = true)
    {info : ServiceInfo} (hinfo : info ∈ services) :
    (m.addServices services g).owner info.id.toUInt16 = some g := by
  obtain ⟨ids, hadded⟩ := addServices_added hcheck
  have hsome : ((m.addServices services g).services.get info.id.toUInt16).isSome :=
    addServices_isSome (Or.inl ⟨info, hinfo, rfl⟩)
  obtain ⟨sd, hsd⟩ := Option.isSome_iff_exists.mp hsome
  rw [owner, hsd, Option.map_some]
  exact congrArg some (checkServices_iff.mp (hadded.check hcheck) info hinfo sd hsd)

inductive Emitted (a : Action) (n : GateMaster) (t : UInt32) (msg : MasterMessage) : Prop
  | told {k : UInt16} {c : SocketData} (ht : n.sockets.get t = some c) (hc : c.data = some k)
      (hmsg : TellsAll n.owner k msg) (hack : ∀ session ec, msg ≠ .updateAck session ec)
  | registered {now : ℤ} {session : UInt64} {info : GateInfo}
      (ha : a = .recv t now (.register session info))
      (hmsg : TellsAll n.owner info.id.toUInt16 msg) (hack : ∀ session ec, msg ≠ .updateAck session ec)
  | uploaded {now : ℤ} {session : UInt64} {services : List ServiceInfo} {k : UInt16} {c : SocketData}
      (ha : a = .recv t now (.update session services)) (hmsg : msg = .updateAck session .success)
      (ht : n.sockets.get t = some c) (hc : c.data = some k)
      (hown : ∀ info ∈ services, n.owner info.id.toUInt16 = some k)
  | quiet (hmsg : Quiet msg)

lemma publish_emitted {a : Action} (h : Tables m) (hg : (m.gates.get g).isSome) :
    ∃ brds, (m.publish g).sent = m.sent ++ brds ∧
      ∀ t msg, (t, msg) ∈ brds → Emitted a (m.publish g) t msg := by
  obtain ⟨gate, hgate⟩ := Option.isSome_iff_exists.mp hg
  obtain ⟨brds, hsent, hiff⟩ := publish_sent hgate
  refine ⟨brds, hsent, ?_⟩
  intro t msg hmem
  obtain ⟨rfl, k, gk, hk, hkg, rfl, hsock⟩ := (hiff t msg).mp hmem
  obtain ⟨c, hc, hdata⟩ := h.sockets.bound k gk hk hsock
  refine .told (by rw [publish_sockets, hc]) hdata ?_ nofun
  rw [publish_owner]
  intro info hinfo
  obtain rfl := List.mem_singleton.mp hinfo
  exact gateInfo_tells h.catalog hgate (Ne.symm hkg)

lemma announce_emitted {a : Action} {ack : MasterMessage} (h : Tables m)
    (hg : (m.gates.get g).isSome) (hack : Emitted a ((m.send s ack).publish g) s ack) :
    ∃ out, ((m.send s ack).publish g).sent = m.sent ++ out ∧
      ∀ t msg, (t, msg) ∈ out → Emitted a ((m.send s ack).publish g) t msg := by
  obtain ⟨brds, hsent, hbrds⟩ := publish_emitted (a := a) h.send hg
  refine ⟨(s, ack) :: brds, by rw [hsent, send, List.append_assoc, List.singleton_append], ?_⟩
  intro t msg hmem
  rcases List.mem_cons.mp hmem with heq | hmem
  · obtain ⟨rfl, rfl⟩ := Prod.mk.inj heq
    exact hack
  · exact hbrds t msg hmem

lemma others_tells (hc : Catalog m) {info : GateInfo} (hinfo : info ∈ m.others g) :
    Tells m.owner g info := by
  obtain ⟨h, hd, hh, hne, rfl⟩ := mem_others.mp hinfo
  exact gateInfo_tells hc hh hne

lemma Handled.emitted {req : MasterRequest} {now : ℤ} (hn : Handled m c req n) (h : Tables m)
    (hs : m.sockets.get s = some c) : Extends m.owner n.owner ∧
      ∃ out, n.sent = m.sent ++ out ∧
        ∀ t msg, (t, msg) ∈ out → Emitted (.recv s now req) n t msg := by
  have hcs := (h.sockets.key s c hs).1
  cases hn with
  | ignored => exact ⟨extends_refl _, [], by simp, nofun⟩
  | @answered _ msg _ hmsg =>
    refine ⟨extends_refl _, [(c.socket, msg)], rfl, ?_⟩
    intro t msg' hmem
    obtain ⟨rfl, rfl⟩ := Prod.mk.inj (List.mem_singleton.mp hmem)
    exact .quiet hmsg
  | @register session info base hcheck hbase =>
    have hp := hbase.prepared h hs
    rw [← checkServices_congr hbase.services] at hcheck
    obtain ⟨ids, o, hadded, heq⟩ := registered_eq c session hcheck
    rw [hcs] at hadded heq
    have ho : Tables o := hadded.tables hp.attach_tables (by rw [attach_isSome]; exact hp.known)
    obtain ⟨gate, hgate, -⟩ := hadded.attached hp
    rw [heq]
    constructor
    · have hown : m.owner = (base.attach info.id.toUInt16 s info.addresses).owner :=
        owner_congr hbase.services.symm
      rw [publish_owner, send_owner, hown]
      exact hadded.extends
    · have hsent : m.sent = o.sent := hbase.sent.symm.trans hadded.sent.symm
      rw [hsent]
      apply announce_emitted ho (Option.isSome_iff_exists.mpr ⟨gate, hgate⟩)
      refine .registered rfl ?_ nofun
      rw [publish_owner, send_owner]
      exact fun info hinfo => others_tells ho.catalog hinfo
  | @upload session services g hc hcheck =>
    obtain ⟨ids, hadded⟩ := addServices_added hcheck
    have hknown := h.sockets.known s c g hs hc
    have ho : Tables (m.addServices services g) := hadded.tables h hknown
    rw [hcs]
    constructor
    · rw [publish_owner, send_owner]
      exact hadded.extends
    · rw [← hadded.sent]
      apply announce_emitted ho
      · obtain ⟨gate, hgate⟩ := Option.isSome_iff_exists.mp hknown
        simp [hadded.gates, hgate]
      · refine .uploaded rfl rfl ?_ hc ?_
        · rw [publish_sockets]
          exact hadded.sockets ▸ hs
        · rw [publish_owner, send_owner]
          exact fun info hinfo => addServices_owner hcheck hinfo

lemma socketStop_emitted (h : Tables m) (hs : m.sockets.get s = some c) :
    Extends m.owner (m.socketStop s).owner ∧ ∃ out, (m.socketStop s).sent = m.sent ++ out ∧
      ∀ t msg, (t, msg) ∈ out → Emitted (.stop s) (m.socketStop s) t msg := by
  have htables := socketStop_tables h hs
  rcases socketStop_cases hs with ⟨g, gate, -, hg, -, heq⟩ | ⟨-, heq⟩
  · rw [heq] at htables ⊢
    -- the broadcasts do not depend on the connections
    have hpublish : { (m.darkened g gate).publish g with sockets := m.sockets.remove s } =
        ({ m.darkened g gate with sockets := m.sockets.remove s } : GateMaster).publish g := by
      simp only [GateMaster.publish]
      split <;> rfl
    have hgates : ((m.darkened g gate).publish g).gates = (m.darkened g gate).gates := publish_gates
    have hservices : ((m.darkened g gate).publish g).services = (m.darkened g gate).services :=
      publish_services
    have hbefore : Tables { m.darkened g gate with sockets := m.sockets.remove s } :=
      ⟨htables.catalog.congr hgates.symm hservices.symm, htables.sockets.congr hgates.symm rfl⟩
    rw [hpublish]
    constructor
    · have hown : (m.darkened g gate).owner = m.owner := darkened_owner
      rw [publish_owner]
      exact fun id k hk => (congrFun hown id).trans hk
    · apply publish_emitted hbefore
      simp [darkened_gates, hg]
  · rw [heq]
    exact ⟨extends_refl _, [], by simp, by simp⟩

lemma Stepped.emitted {a : Action} (hn : Stepped m a n) (h : Tables m) :
    Extends m.owner n.owner ∧ ∃ out, n.sent = m.sent ++ out ∧
      ∀ t msg, (t, msg) ∈ out → Emitted a n t msg := by
  cases hn with
  | accept => exact ⟨extends_refl _, [], by simp, nofun⟩
  | recv hs hn => exact hn.emitted h.touch hs
  | stop hs => exact socketStop_emitted h hs

end GateMaster

end Simple.Gobang
