import Simple.Gobang.MasterTables

/-! What the gate master has told a connection, against what it knows. -/

namespace Simple.Gobang

open Simple.Lib

namespace MasterMessage

def ec : MasterMessage → Option Ec
  | .registerAck _ ec _ => some ec
  | .registerBrd _ => none
  | .updateAck _ ec => some ec
  | .pingAck _ => none

def records (infos : List GateInfo) : MasterMessage → List GateInfo
  | .registerAck _ ec gates => if ec = .success then gates else infos
  | .registerBrd gates => infos ++ gates
  | _ => infos

end MasterMessage

def records (s : UInt32) (log : List (UInt32 × MasterMessage)) : List GateInfo :=
  log.foldl (fun infos (t, msg) => if t = s then msg.records infos else infos) []

def replay (infos : List GateInfo) : UInt32 → Option GateInfo :=
  infos.foldl (fun view info => Function.update view info.id (some info)) fun _ => none

lemma records_append_singleton {s t : UInt32} {log : List (UInt32 × MasterMessage)}
    {msg : MasterMessage} : records s (log ++ [(t, msg)]) =
      if t = s then msg.records (records s log) else records s log := by
  simp [records]

lemma records_brds {s : UInt32} {log brds : List (UInt32 × MasterMessage)} {info : GateInfo}
    (h : ∀ e ∈ brds, e.2 = .registerBrd [info]) : records s (log ++ brds) =
      records s log ++ (brds.filter fun e => e.1 = s).map fun _ => info := by
  induction brds using List.reverseRecOn with
  | nil => simp
  | append_singleton brds e ih =>
    obtain ⟨t, msg⟩ := e
    obtain rfl : msg = .registerBrd [info] := h (t, msg) (by simp)
    rw [← List.append_assoc, records_append_singleton, ih fun e he => h e (by simp [he])]
    split_ifs with ht <;> simp [ht, MasterMessage.records]

lemma replay_append_singleton {infos : List GateInfo} {info : GateInfo} :
    replay (infos ++ [info]) = Function.update (replay infos) info.id (some info) := by
  simp [replay]

lemma replay_append_ne {infos news : List GateInfo} {id : UInt32}
    (h : ∀ info ∈ news, info.id ≠ id) : replay (infos ++ news) id = replay infos id := by
  induction news using List.reverseRecOn with
  | nil => rw [List.append_nil]
  | append_singleton news info ih =>
    rw [← List.append_assoc, replay_append_singleton,
      Function.update_of_ne (h info (by simp)).symm]
    exact ih fun i hi => h i (by simp [hi])

lemma replay_append_mem {infos news : List GateInfo} {info : GateInfo} (hmem : info ∈ news)
    (h : ∀ i ∈ news, i.id = info.id → i = info) :
    replay (infos ++ news) info.id = some info := by
  induction news using List.reverseRecOn with
  | nil => cases hmem
  | append_singleton news last ih =>
    rw [← List.append_assoc, replay_append_singleton]
    by_cases hid : last.id = info.id
    · rw [h last (by simp) hid, Function.update_self]
    · rw [Function.update_of_ne (Ne.symm hid)]
      apply ih
      · rcases List.mem_append.mp hmem with hmem | hmem
        · exact hmem
        · rw [List.mem_singleton.mp hmem] at hid
          exact absurd rfl hid
      · exact fun i hi => h i (by simp [hi])

namespace GateMaster

variable {m n : GateMaster} {g h k : UInt16} {s t : UInt32} {c : SocketData}

def Sees (m : GateMaster) (s : UInt32) (h : UInt16) : Prop :=
  ∀ gd, m.gates.get h = some gd → replay (records s m.sent) h.toUInt32 = some (m.gateInfo gd)

def View (m : GateMaster) : Prop :=
  ∀ k gd, m.gates.get k = some gd → gd.socket ≠ 0 → ∀ h ≠ k, Sees m gd.socket h

def ViewExcept (g : UInt16) (m : GateMaster) : Prop :=
  ∀ k gd, m.gates.get k = some gd → gd.socket ≠ 0 → ∀ h ≠ k, h ≠ g → Sees m gd.socket h

lemma View.except (hv : View m) : ViewExcept g m :=
  fun k gd hk hs h hne _ => hv k gd hk hs h hne

lemma publish_sent {gd : GateData} (hg : m.gates.get g = some gd) :
    ∃ brds, (m.publish g).sent = m.sent ++ brds ∧ ∀ t msg, (t, msg) ∈ brds ↔
      msg = .registerBrd [m.gateInfo gd] ∧
        ∃ k gk, m.gates.get k = some gk ∧ k ≠ g ∧ gk.socket = t ∧ t ≠ 0 := by
  simp only [publish, hg]
  refine ⟨_, rfl, ?_⟩
  intro t msg
  rw [List.mem_filterMap]
  constructor
  · rintro ⟨⟨k, gk⟩, hk, hsome⟩
    dsimp only at hsome
    split_ifs at hsome with hskip
    obtain ⟨rfl, rfl⟩ := Prod.mk.inj (Option.some.inj hsome)
    rw [not_or] at hskip
    exact ⟨rfl, k, gk, Table.mem_toList.mp hk, hskip.2, rfl, hskip.1⟩
  · rintro ⟨rfl, k, gk, hk, hkg, rfl, hs⟩
    refine ⟨(k, gk), Table.mem_toList.mpr hk, ?_⟩
    simp [hs, hkg]

lemma records_publish {gd : GateData} (hg : m.gates.get g = some gd) :
    ∃ news, records s (m.publish g).sent = records s m.sent ++ news ∧
      (∀ info ∈ news, info = m.gateInfo gd) ∧
      ∀ k gk, m.gates.get k = some gk → k ≠ g → gk.socket = s → s ≠ 0 → m.gateInfo gd ∈ news := by
  obtain ⟨brds, hsent, hmem⟩ := publish_sent hg
  have hbrds : ∀ e ∈ brds, e.2 = .registerBrd [m.gateInfo gd] :=
    fun e he => ((hmem e.1 e.2).mp he).1
  refine ⟨_, hsent ▸ records_brds hbrds, by simp, ?_⟩
  intro k gk hk hkg hks hs
  have he := (hmem s _).mpr ⟨rfl, k, gk, hk, hkg, hks, hs⟩
  exact List.mem_map.mpr ⟨_, List.mem_filter.mpr ⟨he, by simp⟩, rfl⟩

lemma toUInt32_ne (hne : g ≠ h) : g.toUInt32 ≠ h.toUInt32 := by
  intro heq
  apply hne
  rw [← UInt16.toUInt16_toUInt32 g, heq, UInt16.toUInt16_toUInt32]

lemma publish_info {gd : GateData} : (m.publish g).gateInfo gd = m.gateInfo gd := by
  simp [gateInfo]

lemma publish_view (hc : Catalog m) (hg : (m.gates.get g).isSome) (hv : ViewExcept g m) :
    View (m.publish g) := by
  obtain ⟨gate, hgate⟩ := Option.isSome_iff_exists.mp hg
  have hid : (m.gateInfo gate).id = g.toUInt32 := by rw [gateInfo, hc.key g gate hgate]
  intro k gd hk hs h hne hd hh
  rw [publish_gates] at hk hh
  rw [publish_info]
  obtain ⟨news, hnews, hall, hmem⟩ := records_publish (s := gd.socket) hgate
  rw [hnews]
  by_cases hhg : h = g
  · subst hhg
    obtain rfl := Option.some.inj (hgate.symm.trans hh)
    rw [← hid]
    exact replay_append_mem (hmem k gd hk hne.symm rfl hs) fun i hi _ => hall i hi
  · rw [replay_append_ne]
    · exact hv k gd hk hs h hne hhg hd hh
    · intro info hinfo
      rw [hall info hinfo, hid]
      exact toUInt32_ne (Ne.symm hhg)

lemma ViewExcept.congr (hv : ViewExcept g m)
    (hsent : ∀ k gd, n.gates.get k = some gd → gd.socket ≠ 0 →
      records gd.socket n.sent = records gd.socket m.sent)
    (hviewer : ∀ k gd, n.gates.get k = some gd → gd.socket ≠ 0 →
      ∃ old, m.gates.get k = some old ∧ old.socket = gd.socket)
    (hgates : ∀ h ≠ g, n.gates.get h = m.gates.get h)
    (hinfo : ∀ h ≠ g, ∀ hd, m.gates.get h = some hd → n.gateInfo hd = m.gateInfo hd) :
    ViewExcept g n := by
  intro k gd hk hs h hne hhg hd hh
  obtain ⟨old, hold, hsock⟩ := hviewer k gd hk hs
  rw [hgates h hhg] at hh
  rw [hsent k gd hk hs, ← hsock, hinfo h hhg hd hh]
  exact hv k old hold (hsock ▸ hs) h hne hhg hd hh

lemma records_send_other {msg : MasterMessage} (hst : t ≠ s) :
    records s (m.send t msg).sent = records s m.sent := by
  simp [send, records_append_singleton, hst]

lemma records_send_quiet {msg : MasterMessage} (hmsg : ∀ infos, msg.records infos = infos) :
    records s (m.send t msg).sent = records s m.sent := by
  simp [send, records_append_singleton, hmsg]

lemma Quiet.records {msg : MasterMessage} (h : Quiet msg) (infos : List GateInfo) :
    msg.records infos = infos := by
  cases msg with
  | registerAck session ec gates =>
    rw [h.1]
    rfl
  | registerBrd gates => cases h
  | updateAck session ec => rfl
  | pingAck session => rfl

lemma View.send {msg : MasterMessage} (hv : View m) (hmsg : ∀ infos, msg.records infos = infos) :
    View (m.send s msg) := by
  intro k gd hk hs h hne hd hh
  rw [records_send_quiet hmsg]
  exact hv k gd hk hs h hne hd hh

lemma ViewExcept.send {msg : MasterMessage} (hv : ViewExcept g m)
    (hmsg : ∀ infos, msg.records infos = infos) : ViewExcept g (m.send s msg) := by
  intro k gd hk hs h hne hhg hd hh
  rw [records_send_quiet hmsg]
  exact hv k gd hk hs h hne hhg hd hh

lemma darkened_view {gate : GateData} (hc : Catalog m) (hgate : m.gates.get g = some gate)
    (hv : View m) : ViewExcept g (m.darkened g gate) := by
  apply hv.except.congr
  · exact fun _ _ _ _ => rfl
  · intro k gd hk hs
    rw [darkened_gates] at hk
    split_ifs at hk with hkg
    · obtain ⟨old, -, rfl⟩ := Option.map_eq_some_iff.mp hk
      exact absurd rfl hs
    · exact ⟨gd, hk, rfl⟩
  · intro h hne
    rw [darkened_gates, if_neg hne]
  · exact fun h hne hd hh => darkened_info hc hgate hh hne

lemma View.congr (hv : View m) (hg : n.gates = m.gates) (hs : n.services = m.services)
    (hl : n.sent = m.sent) : View n := by
  intro k gd hk hsock h hne hd hh
  rw [hg] at hk hh
  have hinfo : n.gateInfo hd = m.gateInfo hd := by simp only [gateInfo, hs]
  rw [hl, hinfo]
  exact hv k gd hk hsock h hne hd hh

lemma socketStop_view (h : Tables m) (hs : m.sockets.get s = some c) (hv : View m) :
    View (m.socketStop s) := by
  rcases socketStop_cases hs with ⟨g, gate, -, hg, -, heq⟩ | ⟨-, heq⟩
  · rw [heq]
    have hsome : ((m.darkened g gate).gates.get g).isSome := by
      simp [darkened_gates, hg]
    exact (publish_view (darkened_catalog h.catalog) hsome (darkened_view h.catalog hg hv)).congr
      rfl rfl rfl
  · rw [heq]
    exact hv.congr rfl rfl rfl

variable {ids : List UInt16}

lemma Added.viewExcept (hn : Added g ids m n) (hc : Catalog m) (hv : ViewExcept g m) :
    ViewExcept g n := by
  apply hv.congr
  · intro k gd _ _
    rw [hn.sent]
  · intro k gd hk hs
    by_cases hkg : k = g
    · subst hkg
      obtain ⟨gate, hgate, rfl⟩ := hn.gate_of_gate hk
      exact ⟨gate, hgate, rfl⟩
    · exact ⟨gd, hn.other hkg ▸ hk, rfl⟩
  · exact fun h hne => hn.other hne
  · exact fun h hne hd hh => hn.info hc hh hne

lemma mem_others {info : GateInfo} :
    info ∈ m.others g ↔ ∃ h hd, m.gates.get h = some hd ∧ h ≠ g ∧ info = m.gateInfo hd := by
  rw [others, List.mem_filterMap]
  constructor
  · rintro ⟨⟨h, hd⟩, hh, hsome⟩
    dsimp only at hsome
    split_ifs at hsome with hhg
    exact ⟨h, hd, Table.mem_toList.mp hh, hhg, (Option.some.inj hsome).symm⟩
  · rintro ⟨h, hd, hh, hhg, rfl⟩
    exact ⟨(h, hd), Table.mem_toList.mpr hh, by simp [hhg]⟩

lemma replay_others (hc : Catalog m) {hd : GateData} (hh : m.gates.get h = some hd) (hhg : h ≠ g) :
    replay (m.others g) h.toUInt32 = some (m.gateInfo hd) := by
  have hid : ∀ k kd, m.gates.get k = some kd → (m.gateInfo kd).id = k.toUInt32 := by
    intro k kd hk
    rw [gateInfo, hc.key k kd hk]
  rw [← hid h hd hh, ← List.nil_append (m.others g)]
  apply replay_append_mem
  · exact mem_others.mpr ⟨h, hd, hh, hhg, rfl⟩
  · intro info hinfo heq
    obtain ⟨k, kd, hk, -, rfl⟩ := mem_others.mp hinfo
    rw [hid k kd hk, hid h hd hh] at heq
    have hkh : k = h := by
      by_contra hne
      exact toUInt32_ne hne heq
    subst hkh
    rw [Option.some.inj (hk.symm.trans hh)]

lemma registered_view {base : GateMaster} {session : UInt64} {info : GateInfo}
    (h : Tables m) (hs : m.sockets.get s = some c) (hv : View m)
    (hcheck : m.checkServices info.services info.id.toUInt16 = true)
    (hbase : Rebased m c info.id.toUInt16 base) : View (base.registered c session info) := by
  have hcs := (h.sockets.key s c hs).1
  have hp := hbase.prepared h hs
  rw [← checkServices_congr hbase.services] at hcheck
  obtain ⟨ids, n, hadded, heq⟩ := registered_eq c session hcheck
  rw [heq]
  rw [hcs] at hadded ⊢
  generalize info.id.toUInt16 = g at *
  have hn : Tables n := hadded.tables hp.attach_tables (by rw [attach_isSome]; exact hp.known)
  have hsent : n.sent = m.sent := hadded.sent.trans hbase.sent
  obtain ⟨gate, hgate, hsock⟩ := hadded.attached hp
  apply publish_view (hn.send.catalog)
  · exact Option.isSome_iff_exists.mpr ⟨gate, hgate⟩
  intro k gd hk hne h' hh' hhg hd hh
  change n.gates.get k = some gd at hk
  change n.gates.get h' = some hd at hh
  by_cases hkg : k = g
  · subst hkg
    obtain rfl := Option.some.inj (hgate.symm.trans hk)
    rw [hsock, send, records_append_singleton, if_pos rfl]
    exact replay_others hn.catalog hh hhg
  · have hother : s ≠ gd.socket := by
      intro heq
      obtain ⟨c₁, hc₁, hd₁⟩ := hn.sockets.bound k gd hk hne
      obtain ⟨c₂, hc₂, hd₂⟩ := hn.sockets.bound g gate hgate (by rw [hsock, heq]; exact hne)
      rw [hsock, heq, hc₁] at hc₂
      obtain rfl := Option.some.inj hc₂
      exact hkg (Option.some.inj (hd₁.symm.trans hd₂))
    rw [records_send_other hother, hsent]
    rw [hadded.rebased hbase hkg] at hk
    rw [hadded.rebased hbase hhg] at hh
    have hbh : (base.attach g s info.addresses).gates.get h' = some hd := by
      rw [attach_gates, if_neg hhg, hbase.other hhg, hh]
    have hinfo : n.gateInfo hd = m.gateInfo hd := by
      rw [hadded.info hp.attach_tables.catalog hbh hhg]
      simp only [gateInfo, attach, modifyGate, hbase.services]
    rw [show (n.send s _).gateInfo hd = n.gateInfo hd from rfl, hinfo]
    exact hv k gd hk hne h' hh' hd hh

lemma Handled.view {req : MasterRequest} (hn : Handled m c req n) (h : Tables m)
    (hs : m.sockets.get s = some c) (hv : View m) : View n := by
  cases hn with
  | ignored => exact hv
  | answered hreq hmsg => exact hv.send hmsg.records
  | register hcheck hbase => exact registered_view h hs hv hcheck hbase
  | upload hc hcheck =>
    obtain ⟨ids, hadded⟩ := addServices_added hcheck
    have hsome := h.sockets.known s c _ hs hc
    have htables := hadded.tables h hsome
    refine publish_view htables.send.catalog ?_ ?_
    · obtain ⟨gate, hgate⟩ := Option.isSome_iff_exists.mp hsome
      simp [send, hadded.gates, hgate]
    · apply (hadded.viewExcept h.catalog hv.except).send
      exact fun _ => rfl

lemma Stepped.view {a : Action} (hn : Stepped m a n) (h : Tables m) (hv : View m) : View n := by
  cases hn with
  | accept hs hfree => exact hv.congr rfl rfl rfl
  | recv hs hn => exact hn.view h.touch hs (hv.congr rfl rfl rfl)
  | stop hs => exact socketStop_view h hs hv

lemma reachable_view (h : machine.Reachable m) : Tables m ∧ View m := by
  apply Machine.reachable_invariant (I := fun m => Tables m ∧ View m) _ _ h
  · exact ⟨tables_initial, nofun⟩
  · rintro n a o ⟨ht, hv⟩ ho
    have hstep : Stepped n a o := step_stepped ho
    exact ⟨hstep.tables ht, hstep.view ht hv⟩

lemma Catalog.info_services (hc : Catalog m) {gd : GateData} (hg : m.gates.get g = some gd) :
    (m.gateInfo gd).services.map some =
      gd.services.map fun id => (m.services.get id).map ServiceData.info := by
  have hall : ∀ ids : List UInt16, (∀ id ∈ ids, ∃ sd, m.services.get id = some sd) →
      (ids.filterMap fun id => (m.services.get id).map ServiceData.info).map some =
        ids.map fun id => (m.services.get id).map ServiceData.info := by
    intro ids hids
    induction ids with
    | nil => rfl
    | cons id ids ih =>
      obtain ⟨sd, hsd⟩ := hids id (by simp)
      simpa [hsd] using ih fun i hi => hids i (by simp [hi])
  apply hall
  intro id hid
  obtain ⟨sd, hsd, -⟩ := hc.owned g gd id hg hid
  exact ⟨sd, hsd⟩

lemma publish_ec : ∃ brds, (m.publish g).sent = m.sent ++ brds ∧ ∀ e ∈ brds, e.2.ec = none := by
  cases hg : m.gates.get g with
  | none => exact ⟨[], by simp [publish, hg], nofun⟩
  | some gate =>
    obtain ⟨brds, hsent, hbrd⟩ := publish_sent hg
    refine ⟨brds, hsent, ?_⟩
    intro e he
    rw [((hbrd e.1 e.2).mp he).1]
    rfl

lemma served_ec {ack : MasterMessage} (hack : ack.ec = some .success)
    {out : List (UInt32 × MasterMessage)} (hout : ((m.send s ack).publish g).sent = m.sent ++ out)
    {msg : MasterMessage} (hmem : (t, msg) ∈ out) : msg.ec ≠ some .system := by
  obtain ⟨brds, hbrds, hec⟩ := publish_ec (m := m.send s ack) (g := g)
  rw [hbrds, send, List.append_assoc] at hout
  obtain rfl := List.append_cancel_left hout
  rcases List.mem_append.mp hmem with hmem | hmem
  · obtain ⟨rfl, rfl⟩ := Prod.mk.inj (List.mem_singleton.mp hmem)
    simp [hack]
  · have hnone : msg.ec = none := hec _ hmem
    simp [hnone]

lemma Handled.refused {req : MasterRequest} (hn : Handled m c req n)
    {out : List (UInt32 × MasterMessage)} (hout : n.sent = m.sent ++ out)
    {msg : MasterMessage} (hmem : (t, msg) ∈ out) (hec : msg.ec = some .system) :
    n = m.send c.socket msg ∧ out = [(c.socket, msg)] := by
  cases hn with
  | ignored =>
    obtain rfl : out = [] := by simpa using hout
    cases hmem
  | answered hreq hmsg =>
    obtain rfl := List.append_cancel_left hout
    obtain ⟨rfl, rfl⟩ := Prod.mk.inj (List.mem_singleton.mp hmem)
    exact ⟨rfl, rfl⟩
  | register hcheck hbase =>
    rw [← checkServices_congr hbase.services] at hcheck
    obtain ⟨ids, o, hadded, heq⟩ := registered_eq c _ hcheck
    have hsent : o.sent = m.sent := hadded.sent.trans hbase.sent
    rw [heq, ← hsent] at hout
    exact absurd hec (served_ec rfl hout hmem)
  | upload hc hcheck =>
    obtain ⟨ids, hadded⟩ := addServices_added hcheck
    rw [← hadded.sent] at hout
    exact absurd hec (served_ec rfl hout hmem)

/-- A gate that is connected knows of every other gate what the master knows, and a request
that the handler answers with `ec_system` leaves the tables alone and is not published. -/
theorem gates_propagated (h : machine.Reachable m) :
    (∀ g gd, m.gates.get g = some gd → gd.socket ≠ 0 → ∀ k kd, m.gates.get k = some kd → k ≠ g →
      ∃ info, replay (records gd.socket m.sent) k.toUInt32 = some info ∧
        info.addresses = kd.addresses ∧
        info.services.map some =
          kd.services.map fun id => (m.services.get id).map ServiceData.info) ∧
    (∀ s now c, (m.touch s now).sockets.get s = some c → ∀ req out,
      ((m.touch s now).forwardMessage c req).sent = m.sent ++ out →
      (∃ t msg, (t, msg) ∈ out ∧ msg.ec = some .system) →
      ((m.touch s now).forwardMessage c req).gates = m.gates ∧
      ((m.touch s now).forwardMessage c req).services = m.services ∧
      ((m.touch s now).forwardMessage c req).sockets = (m.touch s now).sockets ∧
      ∀ t gates, (t, MasterMessage.registerBrd gates) ∉ out) := by
  obtain ⟨htables, hview⟩ := reachable_view h
  constructor
  · intro g gd hg hs k kd hk hne
    exact ⟨_, hview g gd hg hs k hne kd hk, rfl, htables.catalog.info_services hk⟩
  · rintro s now c - req out hout ⟨t, msg, hmem, hec⟩
    have hn : Handled (m.touch s now) c req _ := forwardMessage_handled
    obtain ⟨heq, rfl⟩ := hn.refused hout hmem hec
    rw [heq]
    refine ⟨rfl, rfl, rfl, ?_⟩
    intro t' gates hbrd
    obtain ⟨-, rfl⟩ := Prod.mk.inj (List.mem_singleton.mp hbrd)
    cases hec

def pair : List Action :=
  [.accept 1 0, .accept 2 0, .recv 1 1 (.register 1 ⟨7, [⟨70, 3, true⟩], []⟩),
    .recv 2 1 (.register 1 ⟨8, [⟨80, 3, true⟩], []⟩), .stop 2]

theorem gates_propagated_pair : ∃ m gd kd, machine.run machine.initial pair = some m ∧
    m.gates.get 7 = some gd ∧ gd.socket = 1 ∧ m.gates.get 8 = some kd ∧
    ∃ info, replay (records 1 m.sent) 8 = some info ∧ info.services = [⟨80, 3, false⟩] := by
  refine ⟨_, _, _, rfl, rfl, rfl, rfl, ?_⟩
  obtain ⟨info, hinfo, -, hservices⟩ :=
    (gates_propagated ⟨pair, rfl⟩).1 7 _ rfl (by decide) 8 _ rfl (by decide)
  refine ⟨info, hinfo, ?_⟩
  exact List.map_injective_iff.mpr (Option.some_injective _) hservices

end GateMaster

end Simple.Gobang
