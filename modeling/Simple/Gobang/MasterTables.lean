import Simple.Gobang.GateMaster

/-! What the operations of the gate master do to each table, and how the tables agree. -/

namespace Simple.Gobang

open Simple.Lib

namespace GateMaster

variable {m n : GateMaster} {g h id : UInt16} {s t : UInt32}

@[simp] lemma publish_gates : (m.publish g).gates = m.gates := by
  unfold publish
  split <;> rfl

@[simp] lemma publish_services : (m.publish g).services = m.services := by
  unfold publish
  split <;> rfl

@[simp] lemma publish_sockets : (m.publish g).sockets = m.sockets := by
  unfold publish
  split <;> rfl

lemma checkServices_iff {services : List ServiceInfo} :
    m.checkServices services g = true ↔
      ∀ info ∈ services, ∀ sd, m.services.get info.id.toUInt16 = some sd → sd.gate = g := by
  simp only [checkServices, List.all_eq_true]
  apply forall₂_congr
  intro info _
  cases m.services.get info.id.toUInt16 <;> simp

structure Catalog (m : GateMaster) : Prop where
  key : ∀ g gd, m.gates.get g = some gd → gd.id = g
  serviceKey : ∀ id sd, m.services.get id = some sd → sd.id = id
  owned : ∀ g gd id, m.gates.get g = some gd → id ∈ gd.services →
    ∃ sd, m.services.get id = some sd ∧ sd.gate = g
  listed : ∀ id sd, m.services.get id = some sd →
    ∃ gd, m.gates.get sd.gate = some gd ∧ id ∈ gd.services

lemma Catalog.not_listed (h : Catalog m) {gate : GateData} {sd : ServiceData}
    (hgate : m.gates.get g = some gate) (hsd : m.services.get id = some sd) (hne : sd.gate ≠ g) :
    id ∉ gate.services := by
  intro hid
  obtain ⟨sd', hsd', hsg⟩ := h.owned g gate id hgate hid
  obtain rfl := Option.some.inj (hsd.symm.trans hsd')
  exact hne hsg

structure Added (g : UInt16) (ids : List UInt16) (m n : GateMaster) : Prop where
  sockets : n.sockets = m.sockets
  sent : n.sent = m.sent
  gates : ∀ h, n.gates.get h = if h = g then
    (m.gates.get g).map fun gd => { gd with services := gd.services ++ ids } else m.gates.get h
  kept : ∀ id sd, m.services.get id = some sd → ∃ online,
    n.services.get id = some { sd with online := online } ∧ (sd.gate ≠ g → online = sd.online)
  fresh : ∀ id sd, m.services.get id = none → n.services.get id = some sd →
    sd.gate = g ∧ sd.id = id ∧ id ∈ ids
  gained : ∀ id ∈ ids, m.services.get id = none ∧ ∃ sd, n.services.get id = some sd

lemma Added.refl (g : UInt16) (m : GateMaster) : Added g [] m m := by
  refine ⟨rfl, rfl, ?_, ?_, ?_, nofun⟩
  · intro h
    split_ifs with hh
    · subst hh
      cases m.gates.get h <;> simp
    · rfl
  · intro id sd hsd
    exact ⟨sd.online, hsd, fun _ => rfl⟩
  · intro id sd hn hs
    simp [hn] at hs

variable {ids ids' : List UInt16}

lemma Added.trans {o : GateMaster} (hmn : Added g ids m n) (hno : Added g ids' n o) :
    Added g (ids ++ ids') m o := by
  refine ⟨hno.sockets.trans hmn.sockets, hno.sent.trans hmn.sent, ?_, ?_, ?_, ?_⟩
  · intro h
    rw [hno.gates h, hmn.gates h, hmn.gates g, if_pos rfl]
    split_ifs
    · cases m.gates.get g <;> simp
    · rfl
  · intro id sd hsd
    obtain ⟨b, hb, hbo⟩ := hmn.kept id sd hsd
    obtain ⟨b', hb', hbo'⟩ := hno.kept id _ hb
    exact ⟨b', hb', fun hg => (hbo' hg).trans (hbo hg)⟩
  · intro id sd hn hs
    cases hmid : n.services.get id with
    | none =>
      obtain ⟨hg, hid, hmem⟩ := hno.fresh id sd hmid hs
      exact ⟨hg, hid, List.mem_append_right _ hmem⟩
    | some sd' =>
      obtain ⟨b, hb, -⟩ := hno.kept id sd' hmid
      rw [hs] at hb
      obtain rfl := Option.some.inj hb
      obtain ⟨hg, hid, hmem⟩ := hmn.fresh id sd' hn hmid
      exact ⟨hg, hid, List.mem_append_left _ hmem⟩
  · intro id hid
    rcases List.mem_append.mp hid with hid | hid
    · obtain ⟨hnone, sd, hsd⟩ := hmn.gained id hid
      obtain ⟨b, hb, -⟩ := hno.kept id sd hsd
      exact ⟨hnone, _, hb⟩
    · obtain ⟨hnone, hsome⟩ := hno.gained id hid
      refine ⟨?_, hsome⟩
      cases hm : m.services.get id with
      | none => rfl
      | some sd =>
        obtain ⟨b, hb, -⟩ := hmn.kept id sd hm
        simp [hnone] at hb

lemma addService_added {info : ServiceInfo}
    (hc : ∀ sd, m.services.get info.id.toUInt16 = some sd → sd.gate = g) :
    ∃ ids, Added g ids m (addService g m info) := by
  unfold addService
  dsimp only
  cases hs : m.services.get info.id.toUInt16 with
  | some sd =>
    refine ⟨[], rfl, rfl, (Added.refl g m).gates, ?_, ?_, nofun⟩
    · intro id sd' hsd'
      by_cases hid : id = info.id.toUInt16
      · subst hid
        obtain rfl := Option.some.inj (hs.symm.trans hsd')
        exact ⟨info.online, Table.get_set_self, fun hg => absurd (hc sd hs) hg⟩
      · exact ⟨sd'.online, (Table.get_set_ne hid).trans hsd', fun _ => rfl⟩
    · intro id sd' hn hsd'
      by_cases hid : id = info.id.toUInt16
      · subst hid
        simp [hn] at hs
      · simp [Table.get_set_ne hid, hn] at hsd'
  | none =>
    refine ⟨[info.id.toUInt16], rfl, rfl, ?_, ?_, ?_, ?_⟩
    · intro h
      simp only [modifyGate, Table.get_modify]
      split_ifs with hh
      · rw [hh]
      · rfl
    · intro id sd' hsd'
      have hid : id ≠ info.id.toUInt16 := by
        rintro rfl
        simp [hs] at hsd'
      exact ⟨sd'.online, (Table.get_set_ne hid).trans hsd', fun _ => rfl⟩
    · intro id sd' hn hsd'
      by_cases hid : id = info.id.toUInt16
      · subst hid
        simp only [modifyGate, Table.get_set_self, Option.some.injEq] at hsd'
        subst hsd'
        exact ⟨rfl, rfl, by simp⟩
      · simp [modifyGate, Table.get_set_ne hid, hn] at hsd'
    · intro id hid
      obtain rfl := List.mem_singleton.mp hid
      exact ⟨hs, _, Table.get_set_self⟩

lemma Added.check (h : Added g ids m n) {services : List ServiceInfo}
    (hc : m.checkServices services g = true) : n.checkServices services g = true := by
  rw [checkServices_iff] at hc ⊢
  intro info hi sd hsd
  cases hm : m.services.get info.id.toUInt16 with
  | none => exact (h.fresh _ sd hm hsd).1
  | some sd' =>
    obtain ⟨b, hb, -⟩ := h.kept _ sd' hm
    rw [hsd] at hb
    obtain rfl := Option.some.inj hb
    exact hc info hi sd' hm

lemma addServices_added {services : List ServiceInfo} (hc : m.checkServices services g = true) :
    ∃ ids, Added g ids m (m.addServices services g) := by
  induction services generalizing m with
  | nil => exact ⟨[], Added.refl g m⟩
  | cons info services ih =>
    have hc' := checkServices_iff.mp hc
    obtain ⟨ids, hfirst⟩ : ∃ ids, Added g ids m (addService g m info) :=
      addService_added (hc' info (by simp))
    have hrest : m.checkServices services g = true :=
      checkServices_iff.mpr fun i hi => hc' i (by simp [hi])
    obtain ⟨ids', hadded⟩ := ih (hfirst.check hrest)
    exact ⟨ids ++ ids', hfirst.trans hadded⟩

lemma Added.gate_of_gate (hn : Added g ids m n) {gd : GateData} (h : n.gates.get g = some gd) :
    ∃ gate, m.gates.get g = some gate ∧ gd = { gate with services := gate.services ++ ids } := by
  rw [hn.gates g, if_pos rfl, Option.map_eq_some_iff] at h
  obtain ⟨gate, hgate, rfl⟩ := h
  exact ⟨gate, hgate, rfl⟩

lemma Added.other (hn : Added g ids m n) (hh : h ≠ g) : n.gates.get h = m.gates.get h := by
  rw [hn.gates h, if_neg hh]

lemma Added.service_cases (hn : Added g ids m n) {sd : ServiceData}
    (h : n.services.get id = some sd) :
    (m.services.get id = none ∧ sd.gate = g ∧ sd.id = id ∧ id ∈ ids) ∨
      ∃ old, m.services.get id = some old ∧ sd = { old with online := sd.online } := by
  cases hm : m.services.get id with
  | none => exact Or.inl ⟨rfl, hn.fresh id sd hm h⟩
  | some old =>
    obtain ⟨b, hb, -⟩ := hn.kept id old hm
    rw [h] at hb
    obtain rfl := Option.some.inj hb
    exact Or.inr ⟨old, rfl, rfl⟩

lemma Added.catalog (hn : Added g ids m n) (h : Catalog m) (hg : (m.gates.get g).isSome) :
    Catalog n := by
  obtain ⟨gate, hgate⟩ := Option.isSome_iff_exists.mp hg
  have hgate' : n.gates.get g = some { gate with services := gate.services ++ ids } := by
    rw [hn.gates g, if_pos rfl, hgate, Option.map_some]
  have hkept : ∀ k id sd, m.services.get id = some sd → sd.gate = k →
      ∃ sd', n.services.get id = some sd' ∧ sd'.gate = k := by
    intro k id sd hsd hk
    obtain ⟨b, hb, -⟩ := hn.kept id sd hsd
    exact ⟨_, hb, hk⟩
  refine ⟨?_, ?_, ?_, ?_⟩
  · intro k gd hk
    by_cases hkg : k = g
    · subst hkg
      rw [hgate'] at hk
      obtain rfl := Option.some.inj hk
      exact h.key k gate hgate
    · exact h.key k gd (hn.other hkg ▸ hk)
  · intro id sd hsd
    rcases hn.service_cases hsd with ⟨-, -, hid, -⟩ | ⟨old, hold, heq⟩
    · exact hid
    · rw [heq]
      exact h.serviceKey id old hold
  · intro k gd id hk hid
    by_cases hkg : k = g
    · subst hkg
      rw [hgate'] at hk
      obtain rfl := Option.some.inj hk
      rcases List.mem_append.mp hid with hid | hid
      · obtain ⟨sd, hsd, hsk⟩ := h.owned k gate id hgate hid
        exact hkept k id sd hsd hsk
      · obtain ⟨hnone, sd, hsd⟩ := hn.gained id hid
        exact ⟨sd, hsd, (hn.fresh id sd hnone hsd).1⟩
    · rw [hn.other hkg] at hk
      obtain ⟨sd, hsd, hsk⟩ := h.owned k gd id hk hid
      exact hkept k id sd hsd hsk
  · intro id sd hsd
    rcases hn.service_cases hsd with ⟨-, hsg, -, hid⟩ | ⟨old, hold, heq⟩
    · rw [hsg]
      exact ⟨_, hgate', List.mem_append_right _ hid⟩
    · obtain ⟨gd, hgd, hmem⟩ := h.listed id old hold
      have hgo : sd.gate = old.gate := by rw [heq]
      rw [hgo]
      by_cases hkg : old.gate = g
      · rw [hkg] at hgd ⊢
        rw [hgate] at hgd
        obtain rfl := Option.some.inj hgd
        exact ⟨_, hgate', List.mem_append_left _ hmem⟩
      · exact ⟨gd, (hn.other hkg).trans hgd, hmem⟩

lemma Added.info (hn : Added g ids m n) (h : Catalog m) {k : UInt16} {gd : GateData}
    (hk : m.gates.get k = some gd) (hkg : k ≠ g) : n.gateInfo gd = m.gateInfo gd := by
  have hservices : ∀ id ∈ gd.services, n.services.get id = m.services.get id := by
    intro id hid
    obtain ⟨sd, hsd, hsk⟩ := h.owned k gd id hk hid
    obtain ⟨b, hb, hsame⟩ := hn.kept id sd hsd
    rw [hb, hsd, hsame (by rw [hsk]; exact hkg)]
  simp only [gateInfo, GateInfo.mk.injEq, true_and, and_true]
  apply List.filterMap_congr
  intro id hid
  rw [hservices id hid]

def darkened (m : GateMaster) (g : UInt16) (gate : GateData) : GateMaster :=
  { m with
    gates := m.gates.modify g fun gate => { gate with socket := 0 }
    services := gate.services.foldl
      (fun services id => services.modify id fun s => { s with online := false }) m.services }

lemma gateDisconnect_eq {gate : GateData} (h : m.gates.get g = some gate) :
    m.gateDisconnect g = (m.darkened g gate).publish g := by
  simp only [gateDisconnect, h]
  rfl

lemma darkened_services {gate : GateData} : (m.darkened g gate).services.get id =
    if id ∈ gate.services then (m.services.get id).map fun s => { s with online := false }
    else m.services.get id :=
  Table.get_foldl_modify _ fun _ => rfl

lemma darkened_gates {gate : GateData} : (m.darkened g gate).gates.get h =
    if h = g then (m.gates.get h).map fun gate => { gate with socket := 0 } else m.gates.get h :=
  Table.get_modify _

lemma darkened_service {gate : GateData} {sd : ServiceData}
    (h : (m.darkened g gate).services.get id = some sd) :
    ∃ old, m.services.get id = some old ∧ sd = { old with online := sd.online } := by
  rw [darkened_services] at h
  split_ifs at h
  · obtain ⟨old, hold, rfl⟩ := Option.map_eq_some_iff.mp h
    exact ⟨old, hold, rfl⟩
  · exact ⟨sd, h, rfl⟩

lemma darkened_catalog {gate : GateData} (h : Catalog m) : Catalog (m.darkened g gate) := by
  have hgate : ∀ k gd, (m.darkened g gate).gates.get k = some gd →
      ∃ old, m.gates.get k = some old ∧ gd.id = old.id ∧ gd.services = old.services := by
    intro k gd hk
    rw [darkened_gates] at hk
    split_ifs at hk
    · obtain ⟨old, hold, rfl⟩ := Option.map_eq_some_iff.mp hk
      exact ⟨old, hold, rfl, rfl⟩
    · exact ⟨gd, hk, rfl, rfl⟩
  refine ⟨?_, ?_, ?_, ?_⟩
  · intro k gd hk
    obtain ⟨old, hold, hid, -⟩ := hgate k gd hk
    rw [hid, h.key k old hold]
  · intro id sd hsd
    obtain ⟨old, hold, heq⟩ := darkened_service hsd
    rw [heq]
    exact h.serviceKey id old hold
  · intro k gd id hk hid
    obtain ⟨old, hold, -, hsame⟩ := hgate k gd hk
    obtain ⟨sd, hsd, hsk⟩ := h.owned k old id hold (hsame ▸ hid)
    rw [darkened_services, hsd]
    split_ifs
    · exact ⟨_, rfl, hsk⟩
    · exact ⟨sd, rfl, hsk⟩
  · intro id sd hsd
    obtain ⟨old, hold, heq⟩ := darkened_service hsd
    obtain ⟨gd, hgd, hmem⟩ := h.listed id old hold
    have hgo : sd.gate = old.gate := by rw [heq]
    rw [hgo, darkened_gates, hgd]
    split_ifs
    · exact ⟨_, rfl, hmem⟩
    · exact ⟨gd, rfl, hmem⟩

lemma darkened_info {gate : GateData} (h : Catalog m) (hgate : m.gates.get g = some gate)
    {k : UInt16} {gd : GateData} (hk : m.gates.get k = some gd) (hkg : k ≠ g) :
    (m.darkened g gate).gateInfo gd = m.gateInfo gd := by
  simp only [gateInfo, GateInfo.mk.injEq, true_and, and_true]
  apply List.filterMap_congr
  intro id hid
  obtain ⟨sd, hsd, hsk⟩ := h.owned k gd id hk hid
  rw [darkened_services, if_neg (h.not_listed hgate hsd (hsk ▸ hkg))]

structure Sockets (m : GateMaster) : Prop where
  key : ∀ s c, m.sockets.get s = some c → c.socket = s ∧ s ≠ 0
  known : ∀ s c g, m.sockets.get s = some c → c.data = some g → (m.gates.get g).isSome
  bound : ∀ g gd, m.gates.get g = some gd → gd.socket ≠ 0 →
    ∃ c, m.sockets.get gd.socket = some c ∧ c.data = some g

structure Tables (m : GateMaster) : Prop where
  catalog : Catalog m
  sockets : Sockets m

lemma tables_initial : Tables {} :=
  ⟨⟨nofun, nofun, nofun, nofun⟩, ⟨nofun, nofun, nofun⟩⟩

lemma Catalog.congr (h : Catalog m) (hg : n.gates = m.gates) (hs : n.services = m.services) :
    Catalog n :=
  ⟨hg ▸ h.key, hs ▸ h.serviceKey, hg ▸ hs ▸ h.owned, hg ▸ hs ▸ h.listed⟩

lemma Sockets.congr (h : Sockets m) (hg : n.gates = m.gates) (hs : n.sockets = m.sockets) :
    Sockets n :=
  ⟨hs ▸ h.key, hg ▸ hs ▸ h.known, hg ▸ hs ▸ h.bound⟩

lemma socketStop_cases {c : SocketData} (hs : m.sockets.get s = some c) :
    (∃ g gate, c.data = some g ∧ m.gates.get g = some gate ∧ gate.socket = s ∧
      m.socketStop s = { (m.darkened g gate).publish g with sockets := m.sockets.remove s }) ∨
    ((∀ g gate, c.data = some g → m.gates.get g = some gate → gate.socket ≠ s) ∧
      m.socketStop s = { m with sockets := m.sockets.remove s }) := by
  simp only [socketStop, hs]
  cases hd : c.data with
  | none => exact Or.inr ⟨by simp, rfl⟩
  | some g =>
    dsimp only
    cases hg : m.gates.get g with
    | none =>
      refine Or.inr ⟨?_, by simp⟩
      rintro k gate ⟨⟩ hk
      simp [hg] at hk
    | some gate =>
      by_cases hsock : gate.socket = s
      · refine Or.inl ⟨g, gate, rfl, hg, hsock, ?_⟩
        rw [if_pos (by simp [hsock]), gateDisconnect_eq hg]
        simp [darkened]
      · refine Or.inr ⟨?_, by simp [hsock]⟩
        rintro k gate' ⟨⟩ hk
        rwa [← Option.some.inj (hg.symm.trans hk)]

lemma Sockets.remove {c : SocketData} (h : Sockets m) (hs : m.sockets.get s = some c)
    (hsockets : n.sockets = m.sockets.remove s)
    (hknown : ∀ k, (m.gates.get k).isSome → (n.gates.get k).isSome)
    (hbound : ∀ k gd, n.gates.get k = some gd → gd.socket ≠ 0 →
      m.gates.get k = some gd ∧ (c.data = some k → gd.socket ≠ s)) : Sockets n := by
  have hget : ∀ t d, n.sockets.get t = some d → m.sockets.get t = some d := by
    intro t d ht
    rw [hsockets, Table.get_remove] at ht
    split_ifs at ht
    exact ht
  refine ⟨fun t d ht => h.key t d (hget t d ht),
    fun t d k ht hk => hknown k (h.known t d k (hget t d ht) hk), ?_⟩
  intro k gd hk hsock
  obtain ⟨hgd, hfree⟩ := hbound k gd hk hsock
  obtain ⟨d, hd, hdata⟩ := h.bound k gd hgd hsock
  have hne : gd.socket ≠ s := by
    intro hss
    rw [hss, hs] at hd
    obtain rfl := Option.some.inj hd
    exact hfree hdata hss
  exact ⟨d, by rw [hsockets, Table.get_remove, if_neg hne, hd], hdata⟩

lemma socketStop_tables {c : SocketData} (h : Tables m) (hs : m.sockets.get s = some c) :
    Tables (m.socketStop s) := by
  rcases socketStop_cases hs with ⟨g, gate, hd, hg, hgs, heq⟩ | ⟨hfree, heq⟩
  · rw [heq]
    refine ⟨(darkened_catalog h.catalog).congr publish_gates publish_services,
      h.sockets.remove hs rfl ?_ ?_⟩
    · intro k hk
      simp only [publish_gates, darkened_gates]
      split_ifs
      · simpa using hk
      · exact hk
    · intro k gd hk hsock
      simp only [publish_gates, darkened_gates] at hk
      split_ifs at hk with hkg
      · obtain ⟨old, -, rfl⟩ := Option.map_eq_some_iff.mp hk
        exact absurd rfl hsock
      · exact ⟨hk, fun hdata => absurd (Option.some.inj (hdata.symm.trans hd)) hkg⟩
  · rw [heq]
    refine ⟨h.catalog.congr rfl rfl, h.sockets.remove hs rfl (fun _ hk => hk) ?_⟩
    intro k gd hk _
    exact ⟨hk, fun hdata => hfree k gd hdata hk⟩

structure Prepared (g : UInt16) (s : UInt32) (m : GateMaster) : Prop where
  catalog : Catalog m
  known : (m.gates.get g).isSome
  opened : ∃ c, m.sockets.get s = some c ∧ c.data = some g
  key : ∀ s c, m.sockets.get s = some c → c.socket = s ∧ s ≠ 0
  gates : ∀ s c g, m.sockets.get s = some c → c.data = some g → (m.gates.get g).isSome
  bound : ∀ k gd, m.gates.get k = some gd → k ≠ g → gd.socket ≠ 0 →
    ∃ c, m.sockets.get gd.socket = some c ∧ c.data = some k

lemma Tables.prepared {c : SocketData} (h : Tables m) (hs : m.sockets.get s = some c)
    (hc : c.data = some g) : Prepared g s m :=
  ⟨h.catalog, h.sockets.known s c g hs hc, ⟨c, hs, hc⟩, h.sockets.key, h.sockets.known,
    fun k gd hk _ hsock => h.sockets.bound k gd hk hsock⟩

lemma kickOlder_eq {c : SocketData} {gate : GateData}
    (hg : m.gates.get g = some gate) : m.kickOlder c g = m ∨
    (gate.socket ≠ c.socket ∧ (m.kickOlder c g).gates = m.gates ∧
      (m.kickOlder c g).services = m.services ∧ (m.kickOlder c g).sent = m.sent ∧
      ∀ t, (m.kickOlder c g).sockets.get t = if t = gate.socket then none else m.sockets.get t) := by
  simp only [kickOlder, hg]
  split_ifs with hk
  · right
    obtain ⟨old, hold⟩ := Option.isSome_iff_exists.mp hk.2
    have hold' : (m.setData gate.socket none).sockets.get gate.socket =
        some { old with data := none } := by
      simp [setData, Table.get_modify, hold]
    rcases socketStop_cases hold' with ⟨k, _, hd, -⟩ | ⟨-, heq⟩
    · cases hd
    · rw [heq]
      refine ⟨hk.1, rfl, rfl, rfl, ?_⟩
      intro t
      simp only [setData, Table.get_remove, Table.get_modify]
      split_ifs <;> rfl
  · exact Or.inl rfl

lemma kickOlder_prepared {c : SocketData} (h : Tables m) (hs : m.sockets.get s = some c)
    (hc : c.data = some g) : Prepared g s (m.kickOlder c g) := by
  have hp := h.prepared hs hc
  obtain ⟨gate, hgate⟩ := Option.isSome_iff_exists.mp hp.known
  have hcs := (h.sockets.key s c hs).1
  rcases kickOlder_eq (c := c) hgate with heq | ⟨hne, hgates, hservices, -, hsockets⟩
  · rw [heq]
    exact hp
  refine ⟨h.catalog.congr hgates hservices, ?_, ⟨c, ?_, hc⟩, ?_, ?_, ?_⟩
  · rw [hgates]
    exact hp.known
  · rw [hsockets, if_neg (by rw [← hcs]; exact hne.symm), hs]
  · intro t c' ht
    rw [hsockets] at ht
    split_ifs at ht
    exact h.sockets.key t c' ht
  · intro t c' k ht hk
    rw [hsockets] at ht
    split_ifs at ht
    rw [hgates]
    exact h.sockets.known t c' k ht hk
  · intro k gd hk hkg hsock
    rw [hgates] at hk
    obtain ⟨c', hc', hdata⟩ := h.sockets.bound k gd hk hsock
    refine ⟨c', ?_, hdata⟩
    have hother : gd.socket ≠ gate.socket := by
      intro heq
      obtain ⟨c'', hc'', hdata'⟩ := h.sockets.bound g gate hgate (heq ▸ hsock)
      rw [heq, hc''] at hc'
      obtain rfl := Option.some.inj hc'
      exact hkg (Option.some.inj (hdata.symm.trans hdata'))
    rw [hsockets, if_neg hother, hc']

lemma emplaceGate_get : (m.emplaceGate g).gates.get h =
    if h = g then some ((m.gates.get g).getD { id := g }) else m.gates.get h := by
  unfold emplaceGate
  cases hg : m.gates.get g with
  | none => simp [Table.get_set]
  | some gate =>
    simp only [Option.isSome_some, if_true, Option.getD_some]
    split_ifs with hh
    · rw [hh, hg]
    · rfl

@[simp] lemma emplaceGate_services : (m.emplaceGate g).services = m.services := by
  unfold emplaceGate
  split_ifs <;> rfl

@[simp] lemma emplaceGate_sockets : (m.emplaceGate g).sockets = m.sockets := by
  unfold emplaceGate
  split_ifs <;> rfl

@[simp] lemma emplaceGate_sent : (m.emplaceGate g).sent = m.sent := by
  unfold emplaceGate
  split_ifs <;> rfl

lemma emplaceGate_catalog (h : Catalog m) : Catalog (m.emplaceGate g) := by
  have hgate : ∀ k gd, (m.emplaceGate g).gates.get k = some gd →
      m.gates.get k = some gd ∨ (k = g ∧ gd = { id := g }) := by
    intro k gd hk
    rw [emplaceGate_get] at hk
    split_ifs at hk with hkg
    · subst hkg
      cases hold : m.gates.get k with
      | none =>
        rw [hold] at hk
        exact Or.inr ⟨rfl, (Option.some.inj hk).symm⟩
      | some old =>
        rw [hold] at hk
        exact Or.inl hk
    · exact Or.inl hk
  refine ⟨?_, ?_, ?_, ?_⟩
  · intro k gd hk
    rcases hgate k gd hk with hk | ⟨rfl, rfl⟩
    · exact h.key k gd hk
    · rfl
  · rw [emplaceGate_services]
    exact h.serviceKey
  · intro k gd id hk hid
    rw [emplaceGate_services]
    rcases hgate k gd hk with hk | ⟨rfl, rfl⟩
    · exact h.owned k gd id hk hid
    · cases hid
  · intro id sd hsd
    rw [emplaceGate_services] at hsd
    obtain ⟨gd, hgd, hmem⟩ := h.listed id sd hsd
    refine ⟨gd, ?_, hmem⟩
    rw [emplaceGate_get]
    split_ifs with hkg
    · rw [← hkg, hgd, Option.getD_some]
    · exact hgd

def bindNew (m : GateMaster) (g : UInt16) (s : UInt32) : GateMaster :=
  (m.emplaceGate g).setData s (some g)

lemma bindNew_sockets : (m.bindNew g s).sockets.get t = if t = s then
    (m.sockets.get t).map fun c => { c with data := some g } else m.sockets.get t := by
  simp only [bindNew, setData, emplaceGate_sockets]
  exact Table.get_modify _

lemma bindNew_prepared {c : SocketData} (h : Tables m) (hs : m.sockets.get s = some c)
    (hc : c.data = none) : Prepared g s (m.bindNew g s) := by
  have hsome : ∀ k, (m.gates.get k).isSome → ((m.emplaceGate g).gates.get k).isSome := by
    intro k hk
    rw [emplaceGate_get]
    split_ifs
    · rfl
    · exact hk
  refine ⟨(emplaceGate_catalog h.catalog).congr rfl rfl, ?_, ⟨{ c with data := some g }, ?_, rfl⟩,
    ?_, ?_, ?_⟩
  · simp [bindNew, setData, emplaceGate_get]
  · simp [bindNew_sockets, hs]
  · intro t c' ht
    rw [bindNew_sockets] at ht
    split_ifs at ht
    · obtain ⟨old, hold, rfl⟩ := Option.map_eq_some_iff.mp ht
      exact h.sockets.key t old hold
    · exact h.sockets.key t c' ht
  · intro t c' k ht hk
    rw [bindNew_sockets] at ht
    split_ifs at ht
    · obtain ⟨old, hold, rfl⟩ := Option.map_eq_some_iff.mp ht
      obtain rfl := Option.some.inj hk
      simp [bindNew, setData, emplaceGate_get]
    · exact hsome k (h.sockets.known t c' k ht hk)
  · intro k gd hk hkg hsock
    have hk' : m.gates.get k = some gd := by
      simpa [bindNew, setData, emplaceGate_get, hkg] using hk
    obtain ⟨c', hc', hdata⟩ := h.sockets.bound k gd hk' hsock
    refine ⟨c', ?_, hdata⟩
    have hne : gd.socket ≠ s := by
      intro heq
      rw [heq, hs] at hc'
      obtain rfl := Option.some.inj hc'
      simp [hc] at hdata
    rw [bindNew_sockets, if_neg hne, hc']

def attach (m : GateMaster) (g : UInt16) (s : UInt32) (addresses : List GateAddress) : GateMaster :=
  m.modifyGate g fun gate => { gate with socket := s, addresses := addresses }

lemma attach_gates {addresses : List GateAddress} : (m.attach g s addresses).gates.get h =
    if h = g then (m.gates.get h).map fun gate => { gate with socket := s, addresses := addresses }
    else m.gates.get h :=
  Table.get_modify _

lemma attach_gate {addresses : List GateAddress} {gd : GateData}
    (hk : (m.attach g s addresses).gates.get h = some gd) :
    ∃ old, m.gates.get h = some old ∧ gd.id = old.id ∧ gd.services = old.services ∧
      (h = g → gd.socket = s) ∧ (h ≠ g → gd = old) := by
  rw [attach_gates] at hk
  split_ifs at hk with hkg
  · obtain ⟨old, hold, rfl⟩ := Option.map_eq_some_iff.mp hk
    exact ⟨old, hold, rfl, rfl, fun _ => rfl, fun hne => absurd hkg hne⟩
  · exact ⟨gd, hk, rfl, rfl, fun heq => absurd heq hkg, fun _ => rfl⟩

lemma attach_isSome {addresses : List GateAddress} :
    ((m.attach g s addresses).gates.get h).isSome = (m.gates.get h).isSome := by
  rw [attach_gates]
  split_ifs <;> simp

lemma attach_catalog {addresses : List GateAddress} (h : Catalog m) :
    Catalog (m.attach g s addresses) := by
  refine ⟨?_, h.serviceKey, ?_, ?_⟩
  · intro k gd hk
    obtain ⟨old, hold, hid, -⟩ := attach_gate hk
    rw [hid, h.key k old hold]
  · intro k gd id hk hid
    obtain ⟨old, hold, -, hsame, -⟩ := attach_gate hk
    exact h.owned k old id hold (hsame ▸ hid)
  · intro id sd hsd
    obtain ⟨gd, hgd, hmem⟩ := h.listed id sd hsd
    rw [attach_gates, hgd]
    split_ifs
    · exact ⟨_, rfl, hmem⟩
    · exact ⟨gd, rfl, hmem⟩

lemma Prepared.attach_tables {addresses : List GateAddress} (h : Prepared g s m) :
    Tables (m.attach g s addresses) := by
  refine ⟨attach_catalog h.catalog, h.key, ?_, ?_⟩
  · intro t c k ht hk
    rw [attach_isSome]
    exact h.gates t c k ht hk
  · intro k gd hk hsock
    obtain ⟨old, hold, -, -, hsame, hother⟩ := attach_gate hk
    by_cases hkg : k = g
    · rw [hsame hkg, hkg]
      exact h.opened
    · rw [hother hkg] at hsock ⊢
      exact h.bound k old hold hkg hsock

lemma Added.tables (hn : Added g ids m n) (h : Tables m) (hg : (m.gates.get g).isSome) :
    Tables n := by
  have hgate : ∀ k gd, n.gates.get k = some gd →
      ∃ old, m.gates.get k = some old ∧ gd.socket = old.socket := by
    intro k gd hk
    by_cases hkg : k = g
    · subst hkg
      obtain ⟨gate, hgate, rfl⟩ := hn.gate_of_gate hk
      exact ⟨gate, hgate, rfl⟩
    · exact ⟨gd, hn.other hkg ▸ hk, rfl⟩
  refine ⟨hn.catalog h.catalog hg, ?_, ?_, ?_⟩
  · rw [hn.sockets]
    exact h.sockets.key
  · intro t c k ht hk
    rw [hn.sockets] at ht
    have hsome := h.sockets.known t c k ht hk
    rw [hn.gates k]
    split_ifs with hkg
    · simpa [hkg] using hsome
    · exact hsome
  · intro k gd hk hsock
    obtain ⟨old, hold, hsame⟩ := hgate k gd hk
    rw [hn.sockets, hsame]
    exact h.sockets.bound k old hold (hsame ▸ hsock)

lemma registered_eq (c : SocketData) (session : UInt64) {info : GateInfo}
    (h : m.checkServices info.services info.id.toUInt16 = true) :
    ∃ ids n, Added info.id.toUInt16 ids (m.attach info.id.toUInt16 c.socket info.addresses) n ∧
      m.registered c session info = (n.send c.socket (.registerAck session .success
        (n.others info.id.toUInt16))).publish info.id.toUInt16 := by
  have h' : (m.attach info.id.toUInt16 c.socket info.addresses).checkServices info.services
      info.id.toUInt16 = true := h
  obtain ⟨ids, hadded⟩ := addServices_added h'
  exact ⟨ids, _, hadded, rfl⟩

lemma Tables.announce {msg : MasterMessage} (h : Tables m) : Tables ((m.send s msg).publish g) :=
  ⟨h.catalog.congr publish_gates publish_services, h.sockets.congr publish_gates publish_sockets⟩

lemma Tables.send {msg : MasterMessage} (h : Tables m) : Tables (m.send s msg) :=
  ⟨h.catalog.congr rfl rfl, h.sockets.congr rfl rfl⟩

lemma checkServices_congr {services : List ServiceInfo} (h : n.services = m.services) :
    n.checkServices services g = m.checkServices services g := by
  simp only [checkServices, h]

inductive Rebased (m : GateMaster) (c : SocketData) (g : UInt16) : GateMaster → Prop
  | kicked (hc : c.data = some g) : Rebased m c g (m.kickOlder c g)
  | bound (hc : c.data = none) : Rebased m c g (m.bindNew g c.socket)

variable {c : SocketData} {req : MasterRequest}

lemma kickOlder_same : (m.kickOlder c g).gates = m.gates ∧
    (m.kickOlder c g).services = m.services ∧ (m.kickOlder c g).sent = m.sent := by
  cases hg : m.gates.get g with
  | none => simp [kickOlder, hg]
  | some gate =>
    rcases kickOlder_eq (c := c) hg with heq | ⟨-, hgates, hservices, hsent, -⟩
    · rw [heq]
      exact ⟨rfl, rfl, rfl⟩
    · exact ⟨hgates, hservices, hsent⟩

lemma Rebased.services (h : Rebased m c g n) : n.services = m.services := by
  cases h with
  | kicked => exact kickOlder_same.2.1
  | bound => exact emplaceGate_services

lemma Rebased.sent (h : Rebased m c g n) : n.sent = m.sent := by
  cases h with
  | kicked => exact kickOlder_same.2.2
  | bound => exact emplaceGate_sent

lemma Rebased.other (hn : Rebased m c g n) (hh : h ≠ g) : n.gates.get h = m.gates.get h := by
  cases hn with
  | kicked => rw [kickOlder_same.1]
  | bound => exact emplaceGate_get.trans (if_neg hh)

lemma Rebased.prepared (hn : Rebased m c g n) (h : Tables m) (hs : m.sockets.get s = some c) :
    Prepared g s n := by
  have hcs := (h.sockets.key s c hs).1
  cases hn with
  | kicked hc => exact kickOlder_prepared h hs hc
  | bound hc =>
    rw [hcs]
    exact bindNew_prepared h hs hc

lemma Added.attached {base : GateMaster} {addresses : List GateAddress}
    (hn : Added g ids (base.attach g s addresses) n) (hp : Prepared g s base) :
    ∃ gate, n.gates.get g = some gate ∧ gate.socket = s := by
  obtain ⟨old, hold⟩ := Option.isSome_iff_exists.mp hp.known
  rw [hn.gates g, if_pos rfl, attach_gates, if_pos rfl, hold]
  exact ⟨_, rfl, rfl⟩

lemma Added.rebased {base : GateMaster} {addresses : List GateAddress}
    (hn : Added g ids (base.attach g s addresses) n) (hbase : Rebased m c g base) (hh : h ≠ g) :
    n.gates.get h = m.gates.get h := by
  rw [hn.other hh, attach_gates, if_neg hh, hbase.other hh]

def Quiet : MasterMessage → Prop
  | .registerAck _ ec gates => ec = .system ∧ gates = []
  | .registerBrd _ => False
  | .updateAck _ ec => ec = .system
  | .pingAck _ => True

def accepts (m : GateMaster) (c : SocketData) : MasterRequest → Bool
  | .register _ info =>
    m.checkServices info.services info.id.toUInt16 && c.data.all (· == info.id.toUInt16)
  | .update _ services => c.data.any fun g => m.checkServices services g
  | _ => false

inductive Handled (m : GateMaster) (c : SocketData) : MasterRequest → GateMaster → Prop
  | ignored : Handled m c .ignored m
  | answered {req : MasterRequest} {msg : MasterMessage} (hreq : m.accepts c req = false)
      (hmsg : Quiet msg) : Handled m c req (m.send c.socket msg)
  | register {session : UInt64} {info : GateInfo} {n : GateMaster}
      (hcheck : m.checkServices info.services info.id.toUInt16 = true)
      (hn : Rebased m c info.id.toUInt16 n) :
      Handled m c (.register session info) (n.registered c session info)
  | upload {session : UInt64} {services : List ServiceInfo} {g : UInt16} (hc : c.data = some g)
      (hcheck : m.checkServices services g = true) :
      Handled m c (.update session services)
        (((m.addServices services g).send c.socket (.updateAck session .success)).publish g)

lemma forwardMessage_handled : Handled m c req (m.forwardMessage c req) := by
  cases req with
  | register session info =>
    simp only [forwardMessage, gateRegister]
    cases hcheck : m.checkServices info.services info.id.toUInt16 with
    | false => exact .answered (by simp [accepts, hcheck]) ⟨rfl, rfl⟩
    | true =>
      simp only [Bool.not_true, Bool.false_eq_true, if_false]
      cases hc : c.data with
      | none => exact .register hcheck (.bound hc)
      | some g =>
        dsimp only
        split_ifs with hg
        · exact .answered (by simp [accepts, hc, hg]) ⟨rfl, rfl⟩
        · obtain rfl : g = info.id.toUInt16 := not_not.mp hg
          exact .register hcheck (.kicked hc)
  | update session services =>
    simp only [forwardMessage, gateUpload]
    cases hc : c.data with
    | none => exact .answered (by simp [accepts, hc]) rfl
    | some g =>
      dsimp only
      cases hcheck : m.checkServices services g with
      | false => exact .answered (by simp [accepts, hc, hcheck]) rfl
      | true => exact .upload hc hcheck
  | ping session => exact .answered rfl trivial
  | ignored => exact .ignored

lemma Handled.data (hn : Handled m c req n) (h : Tables m) (hs : m.sockets.get s = some c)
    {d : SocketData} (ht : n.sockets.get t = some d) : ∃ old, m.sockets.get t = some old ∧
      (d.data = old.data ∨ t = s ∧
        ∃ session info, req = .register session info ∧ d.data = some info.id.toUInt16) := by
  cases hn with
  | ignored => exact ⟨d, ht, Or.inl rfl⟩
  | answered => exact ⟨d, ht, Or.inl rfl⟩
  | @register session info base hcheck hbase =>
    rw [← checkServices_congr hbase.services] at hcheck
    obtain ⟨ids, o, hadded, heq⟩ := registered_eq c session hcheck
    rw [heq, publish_sockets] at ht
    change o.sockets.get t = some d at ht
    rw [hadded.sockets] at ht
    change base.sockets.get t = some d at ht
    cases hbase with
    | kicked hc =>
      obtain ⟨gate, hgate⟩ := Option.isSome_iff_exists.mp (h.sockets.known s c _ hs hc)
      rcases kickOlder_eq (c := c) hgate with hm | ⟨-, -, -, -, hsockets⟩
      · rw [hm] at ht
        exact ⟨d, ht, Or.inl rfl⟩
      · rw [hsockets] at ht
        split_ifs at ht
        exact ⟨d, ht, Or.inl rfl⟩
    | bound hc =>
      rw [bindNew_sockets, (h.sockets.key s c hs).1] at ht
      split_ifs at ht with hts
      · obtain ⟨old, hold, rfl⟩ := Option.map_eq_some_iff.mp ht
        exact ⟨old, hold, Or.inr ⟨hts, session, info, rfl, rfl⟩⟩
      · exact ⟨d, ht, Or.inl rfl⟩
  | upload hc hcheck =>
    obtain ⟨ids, hadded⟩ := addServices_added hcheck
    rw [publish_sockets] at ht
    exact ⟨d, hadded.sockets ▸ ht, Or.inl rfl⟩

lemma Handled.tables (hn : Handled m c req n) (h : Tables m) (hs : m.sockets.get s = some c) :
    Tables n := by
  cases hn with
  | ignored => exact h
  | answered => exact h.send
  | register hcheck hn =>
    rw [← checkServices_congr hn.services] at hcheck
    obtain ⟨ids, o, hadded, heq⟩ := registered_eq c _ hcheck
    have hp := hn.prepared h hs
    rw [heq]
    apply Tables.announce
    rw [(h.sockets.key s c hs).1] at hadded
    exact hadded.tables hp.attach_tables (by rw [attach_isSome]; exact hp.known)
  | upload hc hcheck =>
    obtain ⟨ids, hadded⟩ := addServices_added hcheck
    apply Tables.announce
    exact hadded.tables h (h.sockets.known s c _ hs hc)

lemma touch_get {now : ℤ} : (m.touch s now).sockets.get t = if t = s then
    (m.sockets.get t).map fun c => { c with lastRecv := now } else m.sockets.get t :=
  Table.get_modify _

lemma touch_data {now : ℤ} (h : (m.touch s now).sockets.get t = some c) :
    ∃ old, m.sockets.get t = some old ∧ c.socket = old.socket ∧ c.data = old.data := by
  rw [touch_get] at h
  split_ifs at h
  · obtain ⟨old, hold, rfl⟩ := Option.map_eq_some_iff.mp h
    exact ⟨old, hold, rfl, rfl⟩
  · exact ⟨c, h, rfl, rfl⟩

lemma accepts_touch {now : ℤ} {old : SocketData} (h : c.data = old.data) :
    (m.touch s now).accepts c req = m.accepts old req := by
  cases req <;> simp only [accepts, h] <;> rfl

lemma Tables.touch {now : ℤ} (h : Tables m) : Tables (m.touch s now) := by
  refine ⟨h.catalog.congr rfl rfl, ?_, ?_, ?_⟩
  · intro t c ht
    obtain ⟨old, hold, hsock, -⟩ := touch_data ht
    rw [hsock]
    exact h.sockets.key t old hold
  · intro t c k ht hk
    obtain ⟨old, hold, -, hdata⟩ := touch_data ht
    exact h.sockets.known t old k hold (hdata ▸ hk)
  · intro k gd hk hsock
    obtain ⟨c, hc, hdata⟩ := h.sockets.bound k gd hk hsock
    rw [touch_get, hc]
    split_ifs
    · exact ⟨_, rfl, hdata⟩
    · exact ⟨c, rfl, hdata⟩

lemma accept_tables {now : ℤ} (h : Tables m) (hs : s ≠ 0) (hfree : m.sockets.get s = none) :
    Tables { m with sockets := m.sockets.set s { socket := s, lastRecv := now } } := by
  refine ⟨h.catalog.congr rfl rfl, ?_, ?_, ?_⟩
  · intro t c ht
    rw [Table.get_set] at ht
    split_ifs at ht with heq
    · obtain rfl := Option.some.inj ht
      exact ⟨heq.symm, heq ▸ hs⟩
    · exact h.sockets.key t c ht
  · intro t c k ht hk
    rw [Table.get_set] at ht
    split_ifs at ht with heq
    · obtain rfl := Option.some.inj ht
      cases hk
    · exact h.sockets.known t c k ht hk
  · intro k gd hk hsock
    obtain ⟨c, hc, hdata⟩ := h.sockets.bound k gd hk hsock
    refine ⟨c, ?_, hdata⟩
    have hne : gd.socket ≠ s := by
      intro heq
      simp [heq, hfree] at hc
    rw [Table.get_set_ne hne, hc]

inductive Stepped (m : GateMaster) : Action → GateMaster → Prop
  | accept {s : UInt32} {now : ℤ} (hs : s ≠ 0) (hfree : m.sockets.get s = none) :
      Stepped m (.accept s now)
        { m with sockets := m.sockets.set s { socket := s, lastRecv := now } }
  | recv {s : UInt32} {now : ℤ} {req : MasterRequest} {c : SocketData} {n : GateMaster}
      (hs : (m.touch s now).sockets.get s = some c) (hn : Handled (m.touch s now) c req n) :
      Stepped m (.recv s now req) n
  | stop {s : UInt32} {c : SocketData} (hs : m.sockets.get s = some c) :
      Stepped m (.stop s) (m.socketStop s)

lemma step_stepped {a : Action} (h : m.step a = some n) : Stepped m a n := by
  cases a with
  | accept s now =>
    simp only [step] at h
    split_ifs at h with hfree
    obtain rfl := Option.some.inj h
    rw [not_or, Option.not_isSome_iff_eq_none] at hfree
    exact .accept hfree.1 hfree.2
  | recv s now req =>
    simp only [step] at h
    cases hs : (m.touch s now).sockets.get s with
    | none => simp [hs] at h
    | some c =>
      simp only [hs, Option.some.injEq] at h
      exact .recv hs (h ▸ forwardMessage_handled)
  | stop s =>
    simp only [step] at h
    split_ifs at h with hs
    obtain rfl := Option.some.inj h
    obtain ⟨c, hc⟩ := Option.isSome_iff_exists.mp hs
    exact .stop hc

lemma Stepped.tables {a : Action} (hn : Stepped m a n) (h : Tables m) : Tables n := by
  cases hn with
  | accept hs hfree => exact accept_tables h hs hfree
  | recv hs hn => exact hn.tables h.touch hs
  | stop hs => exact socketStop_tables h hs

lemma Tables.step {a : Action} (h : Tables m) (hn : m.step a = some n) : Tables n := by
  have hstep : Stepped m a n := step_stepped hn
  exact hstep.tables h

lemma Stepped.data {a : Action} (hn : Stepped m a n) (h : Tables m) {d : SocketData}
    (ht : n.sockets.get t = some d) :
    (∃ now, a = .accept t now ∧ d.data = none) ∨
    (∃ old, m.sockets.get t = some old ∧ (d.data = old.data ∨ ∃ now session info,
      a = .recv t now (.register session info) ∧ d.data = some info.id.toUInt16)) := by
  cases hn with
  | @accept s now hs hfree =>
    rw [Table.get_set] at ht
    split_ifs at ht with hts
    · obtain rfl := Option.some.inj ht
      exact Or.inl ⟨now, by rw [hts], rfl⟩
    · exact Or.inr ⟨d, ht, Or.inl rfl⟩
  | @recv s now req c n hs hn =>
    obtain ⟨mid, hmid, hdata⟩ := hn.data h.touch hs ht
    obtain ⟨old, hold, -, hsame⟩ := touch_data hmid
    refine Or.inr ⟨old, hold, ?_⟩
    rcases hdata with hdata | ⟨rfl, session, info, rfl, hdata⟩
    · exact Or.inl (hdata.trans hsame)
    · exact Or.inr ⟨now, session, info, rfl, hdata⟩
  | @stop s c hs =>
    have hremove : (m.sockets.remove s).get t = some d := by
      rcases socketStop_cases hs with ⟨g, gate, -, -, -, heq⟩ | ⟨-, heq⟩ <;>
        · rw [heq] at ht
          exact ht
    rw [Table.get_remove] at hremove
    split_ifs at hremove
    exact Or.inr ⟨d, hremove, Or.inl rfl⟩

end GateMaster

end Simple.Gobang
