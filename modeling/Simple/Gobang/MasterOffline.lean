import Simple.Gobang.MasterTables

/-! The services of a gate without a connection. Only a connection that has lost its gate to a
newer one can still bring them online. -/

namespace Simple.Gobang

open Simple.Lib

namespace GateMaster

variable {m n : GateMaster} {g h k id : UInt16} {s t : UInt32} {c : SocketData}

def Offline (m : GateMaster) (id : UInt16) : Prop :=
  ∃ sd, m.services.get id = some sd ∧ sd.online = false

def Dark (m : GateMaster) : Prop :=
  ∀ g gd, m.gates.get g = some gd → gd.socket = 0 → ∀ id ∈ gd.services, m.Offline id

def lastInfo (services : List ServiceInfo) (id : UInt16) : Option ServiceInfo :=
  services.reverse.find? fun info => info.id.toUInt16 == id

def LeavesOffline (services : List ServiceInfo) : Prop :=
  ∀ id info, lastInfo services id = some info → info.online = false

/-- An upload for a gate that has no connection brings none of its services online. There is such an
upload only from a connection whose gate another one has taken over, and closed. -/
def Quenched (m : GateMaster) : Action → Prop
  | .recv s _ (.update session services) => ∀ c g gd, m.sockets.get s = some c → c.data = some g →
      m.gates.get g = some gd → gd.socket = 0 → m.accepts c (.update session services) = true →
      LeavesOffline services
  | _ => True

lemma Dark.of_others (hd : Dark m) (hc : Catalog m)
    (hgates : ∀ k ≠ g, n.gates.get k = m.gates.get k)
    (hservices : ∀ id sd, m.services.get id = some sd → sd.gate ≠ g → n.services.get id = some sd)
    (hg : ∀ gd, n.gates.get g = some gd → gd.socket = 0 → ∀ id ∈ gd.services, n.Offline id) :
    Dark n := by
  intro k gd hk hs id hid
  by_cases hkg : k = g
  · subst hkg
    exact hg gd hk hs id hid
  · rw [hgates k hkg] at hk
    obtain ⟨sd, hsd, hoff⟩ := hd k gd hk hs id hid
    obtain ⟨sd', hsd', hsk⟩ := hc.owned k gd id hk hid
    obtain rfl := Option.some.inj (hsd.symm.trans hsd')
    exact ⟨sd, hservices id sd hsd (hsk ▸ hkg), hoff⟩

lemma Dark.congr (hd : Dark m) (hg : n.gates = m.gates) (hs : n.services = m.services) :
    Dark n := by
  intro g gd hgd hsock id hid
  rw [Offline, hs]
  exact hd g gd (hg ▸ hgd) hsock id hid

lemma dark_announce {msg : MasterMessage} : Dark ((m.send s msg).publish g) ↔ Dark m := by
  simp only [Dark, Offline, publish_gates, publish_services, send]

lemma darkened_dark {gate : GateData} (hd : Dark m) (hc : Catalog m)
    (hgate : m.gates.get g = some gate) : Dark (m.darkened g gate) := by
  apply hd.of_others hc
  · intro k hk
    rw [darkened_gates, if_neg hk]
  · intro id sd hsd hne
    rw [darkened_services, if_neg (hc.not_listed hgate hsd hne), hsd]
  · intro gd hgd _ id hid
    rw [darkened_gates, if_pos rfl, hgate] at hgd
    obtain rfl := Option.some.inj hgd
    obtain ⟨sd, hsd, -⟩ := hc.owned g gate id hgate hid
    rw [Offline, darkened_services, if_pos hid, hsd]
    exact ⟨_, rfl, rfl⟩

lemma socketStop_dark (hd : Dark m) (h : Tables m) (hs : m.sockets.get s = some c) :
    Dark (m.socketStop s) := by
  rcases socketStop_cases hs with ⟨g, gate, -, hg, -, heq⟩ | ⟨-, heq⟩
  · rw [heq]
    exact (darkened_dark hd h.catalog hg).congr publish_gates publish_services
  · rw [heq]
    exact hd.congr rfl rfl

variable {ids : List UInt16}

lemma Added.others_kept (hn : Added g ids m n) {sd : ServiceData}
    (hsd : m.services.get id = some sd) (hne : sd.gate ≠ g) : n.services.get id = some sd := by
  obtain ⟨b, hb, hsame⟩ := hn.kept id sd hsd
  rw [hb, hsame hne]

lemma registered_dark {base : GateMaster} {session : UInt64} {info : GateInfo} (hd : Dark m)
    (h : Tables m) (hs : m.sockets.get s = some c)
    (hcheck : m.checkServices info.services info.id.toUInt16 = true)
    (hbase : Rebased m c info.id.toUInt16 base) : Dark (base.registered c session info) := by
  obtain ⟨hcs, hs0⟩ := h.sockets.key s c hs
  rw [← checkServices_congr hbase.services] at hcheck
  obtain ⟨ids, n, hadded, heq⟩ := registered_eq c session hcheck
  rw [heq]
  rw [dark_announce]
  rw [hcs] at hadded
  apply hd.of_others h.catalog
  · exact fun k hk => hadded.rebased hbase hk
  · intro id sd hsd hne
    rw [← hbase.services] at hsd
    exact hadded.others_kept hsd hne
  · intro gd hgd hzero
    obtain ⟨gate, hgate, hsock⟩ := hadded.attached (hbase.prepared h hs)
    obtain rfl := Option.some.inj (hgate.symm.trans hgd)
    exact absurd (hsock.symm.trans hzero) hs0

lemma addService_online {info : ServiceInfo} :
    ((addService g m info).services.get id).map ServiceData.online =
      if info.id.toUInt16 = id then some info.online
      else (m.services.get id).map ServiceData.online := by
  have hset : ∀ sd : ServiceData, sd.online = info.online →
      ((m.services.set info.id.toUInt16 sd).get id).map ServiceData.online =
        if info.id.toUInt16 = id then some info.online
        else (m.services.get id).map ServiceData.online := by
    intro sd hsd
    split_ifs with hid
    · rw [← hid, Table.get_set_self, Option.map_some, hsd]
    · rw [Table.get_set_ne (Ne.symm hid)]
  simp only [addService]
  cases m.services.get info.id.toUInt16 <;> exact hset _ rfl

lemma lastInfo_cons {info : ServiceInfo} {services : List ServiceInfo} :
    lastInfo (info :: services) id =
      (lastInfo services id).or (if info.id.toUInt16 = id then some info else none) := by
  rw [lastInfo, List.reverse_cons, List.find?_append, List.find?_singleton]
  simp [lastInfo]

lemma addServices_online (m : GateMaster) (g id : UInt16) (services : List ServiceInfo) :
    ((m.addServices services g).services.get id).map ServiceData.online =
      ((lastInfo services id).map ServiceInfo.online).or
        ((m.services.get id).map ServiceData.online) := by
  induction services generalizing m with
  | nil => simp [addServices, lastInfo]
  | cons info services ih =>
    have hih := ih (addService g m info)
    rw [addService_online] at hih
    rw [lastInfo_cons]
    apply hih.trans
    cases lastInfo services id <;> split_ifs <;> simp

lemma lastInfo_mem {info : ServiceInfo} {services : List ServiceInfo}
    (h : lastInfo services id = some info) : info ∈ services ∧ info.id.toUInt16 = id := by
  have hmem := List.mem_of_find?_eq_some h
  have hid := List.find?_some h
  exact ⟨List.mem_reverse.mp hmem, by simpa using hid⟩

lemma upload_dark {services : List ServiceInfo} {gate : GateData} (hd : Dark m) (h : Tables m)
    (hcheck : m.checkServices services g = true) (hgate : m.gates.get g = some gate)
    (hzero : gate.socket = 0) : Dark (m.addServices services g) ↔ LeavesOffline services := by
  obtain ⟨ids, hadded⟩ := addServices_added hcheck
  have hcat := hadded.catalog h.catalog (Option.isSome_iff_exists.mpr ⟨gate, hgate⟩)
  have hgate' : (m.addServices services g).gates.get g =
      some { gate with services := gate.services ++ ids } := by
    rw [hadded.gates g, if_pos rfl, hgate, Option.map_some]
  constructor
  · intro hdark id info hlast
    obtain ⟨hmem, hid⟩ := lastInfo_mem hlast
    have honline := addServices_online m g id services
    rw [hlast, Option.map_some, Option.some_or, Option.map_eq_some_iff] at honline
    obtain ⟨sd, hsd, honline⟩ := honline
    have hsg : sd.gate = g :=
      checkServices_iff.mp (hadded.check hcheck) info hmem sd (hid ▸ hsd)
    obtain ⟨gd, hgd, hlisted⟩ := hcat.listed id sd hsd
    rw [hsg, hgate'] at hgd
    obtain rfl := Option.some.inj hgd
    obtain ⟨sd', hsd', hoff⟩ := hdark g _ hgate' hzero id hlisted
    obtain rfl := Option.some.inj (hsd.symm.trans hsd')
    rw [← honline, hoff]
  · intro hoff
    apply hd.of_others h.catalog
    · exact fun k hk => hadded.other hk
    · exact fun id sd hsd hne => hadded.others_kept hsd hne
    · intro gd hgd _ id hid
      obtain ⟨sd, hsd, hsg⟩ := hcat.owned g gd id hgd hid
      refine ⟨sd, hsd, ?_⟩
      have honline := addServices_online m g id services
      rw [hsd, Option.map_some] at honline
      cases hlast : lastInfo services id with
      | some info =>
        rw [hlast, Option.map_some, Option.some_or] at honline
        rw [Option.some.inj honline]
        exact hoff id info hlast
      | none =>
        rw [hlast, Option.map_none, Option.none_or] at honline
        obtain ⟨old, hold, hsame⟩ := Option.map_eq_some_iff.mp honline.symm
        obtain ⟨gd', hgd', hlisted⟩ := h.catalog.listed id old hold
        have hog : old.gate = g := by
          rcases hadded.service_cases hsd with ⟨hnone, -⟩ | ⟨old', hold', heq⟩
          · simp [hold] at hnone
          · obtain rfl := Option.some.inj (hold.symm.trans hold')
            rw [heq] at hsg
            exact hsg
        rw [hog, hgate] at hgd'
        obtain rfl := Option.some.inj hgd'
        obtain ⟨sd', hsd', hfalse⟩ := hd g gate hgate hzero id hlisted
        obtain rfl := Option.some.inj (hold.symm.trans hsd')
        rw [← hsame, hfalse]

def QuenchedBy (m : GateMaster) (c : SocketData) (req : MasterRequest) : Prop :=
  ∀ session services g gd, req = .update session services → c.data = some g →
    m.gates.get g = some gd → gd.socket = 0 → m.accepts c req = true → LeavesOffline services

lemma quenched_iff {now : ℤ} {req : MasterRequest}
    (hs : (m.touch s now).sockets.get s = some c) :
    m.Quenched (.recv s now req) ↔ (m.touch s now).QuenchedBy c req := by
  obtain ⟨old, hold, -, hdata⟩ := touch_data hs
  rw [QuenchedBy, accepts_touch hdata, hdata]
  cases req with
  | update session services =>
    constructor
    · rintro hq _ _ g gd ⟨⟩
      exact hq old g gd hold
    · intro hq d g gd hd
      obtain rfl := Option.some.inj (hold.symm.trans hd)
      exact hq session services g gd rfl
  | _ => exact ⟨fun _ => nofun, fun _ => trivial⟩

lemma Handled.dark {req : MasterRequest} (hn : Handled m c req n) (hd : Dark m) (h : Tables m)
    (hs : m.sockets.get s = some c) : Dark n ↔ m.QuenchedBy c req := by
  cases hn with
  | ignored => exact ⟨fun _ => nofun, fun _ => hd⟩
  | answered hreq =>
    refine ⟨fun _ _ _ _ _ _ _ _ _ hacc => ?_, fun _ => hd.congr rfl rfl⟩
    simp [hreq] at hacc
  | register hcheck hbase =>
    exact ⟨fun _ => nofun, fun _ => registered_dark hd h hs hcheck hbase⟩
  | @upload session services g hc hcheck =>
    obtain ⟨gate, hgate⟩ := Option.isSome_iff_exists.mp (h.sockets.known s c g hs hc)
    rw [dark_announce]
    by_cases hzero : gate.socket = 0
    · rw [upload_dark hd h hcheck hgate hzero]
      constructor
      · rintro hoff _ _ k gd ⟨⟩ - - - -
        exact hoff
      · intro hq
        exact hq session services g gate rfl hc hgate hzero (by simp [accepts, hc, hcheck])
    · refine ⟨?_, fun _ => ?_⟩
      · rintro - _ _ k gd ⟨⟩ hk hgd hgs -
        obtain rfl := Option.some.inj (hc.symm.trans hk)
        obtain rfl := Option.some.inj (hgate.symm.trans hgd)
        exact absurd hgs hzero
      · obtain ⟨ids, hadded⟩ := addServices_added hcheck
        apply hd.of_others h.catalog
        · exact fun k hk => hadded.other hk
        · exact fun id sd hsd hne => hadded.others_kept hsd hne
        · intro gd hgd hgs
          obtain ⟨gate', hgate', rfl⟩ := hadded.gate_of_gate hgd
          obtain rfl := Option.some.inj (hgate.symm.trans hgate')
          exact absurd hgs hzero

lemma Stepped.dark {a : Action} (hn : Stepped m a n) (hd : Dark m) (h : Tables m) :
    Dark n ↔ m.Quenched a := by
  cases hn with
  | accept hs hfree => exact ⟨fun _ => trivial, fun _ => hd.congr rfl rfl⟩
  | recv hs hn =>
    rw [quenched_iff hs]
    exact hn.dark (hd.congr rfl rfl) h.touch hs
  | stop hs => exact ⟨fun _ => trivial, fun _ => socketStop_dark hd h hs⟩

/-- Gates without a connection stay dark along a run exactly when no upload lights one up. -/
theorem dark_always_iff (as : List Action) :
    machine.Always Dark machine.initial as ↔ machine.Along Quenched machine.initial as := by
  apply Machine.always_iff_along (I := Tables)
  · intro m a n h hn
    exact h.step hn
  · intro m a n h hd hn
    have hstep : Stepped m a n := step_stepped hn
    exact hstep.dark hd h
  · exact tables_initial
  · exact nofun

theorem dark_lit_up : ∃ m, machine.run machine.initial
    [.accept 1 0, .accept 2 0, .recv 1 1 (.register 1 ⟨7, [⟨70, 3, true⟩], []⟩),
      .recv 2 2 (.register 1 ⟨7, [⟨70, 3, true⟩], []⟩), .stop 2,
      .recv 1 3 (.update 2 [⟨70, 3, true⟩])] = some m ∧ ¬ Dark m := by
  refine ⟨_, rfl, ?_⟩
  intro hd
  obtain ⟨sd, hsd, hoff⟩ := hd 7 _ rfl rfl 70 (by decide)
  obtain rfl := Option.some.inj (show some _ = some sd from hsd)
  cases hoff

end GateMaster

end Simple.Gobang
