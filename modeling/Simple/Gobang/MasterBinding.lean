import Simple.Gobang.MasterTables

/-! Which connection a gate belongs to. A connection that has registered no gate yet takes the gate
over without closing the connection that has it. -/

namespace Simple.Gobang

open Simple.Lib

namespace GateMaster

variable {m n : GateMaster} {g h k : UInt16} {s t : UInt32} {c : SocketData}

structure Agree (m : GateMaster) : Prop where
  single : ∀ s t c d g, m.sockets.get s = some c → m.sockets.get t = some d →
    c.data = some g → d.data = some g → s = t
  gate : ∀ s c g, m.sockets.get s = some c → c.data = some g →
    ∃ gd, m.gates.get g = some gd ∧ gd.socket = s
  socket : ∀ g gd, m.gates.get g = some gd → gd.socket ≠ 0 →
    ∃ c, m.sockets.get gd.socket = some c ∧ c.data = some g

/-- A connection without a gate registers only a gate that has no connection. -/
def Unclaimed (m : GateMaster) : Action → Prop
  | .recv s _ (.register session info) => ∀ c, m.sockets.get s = some c → c.data = none →
      m.accepts c (.register session info) = true →
      ∀ gd, m.gates.get info.id.toUInt16 = some gd → gd.socket = 0
  | _ => True

lemma agree_iff (h : Tables m) : Agree m ↔ ∀ s c g, m.sockets.get s = some c → c.data = some g →
    ∃ gd, m.gates.get g = some gd ∧ gd.socket = s := by
  refine ⟨Agree.gate, ?_⟩
  intro hgate
  refine ⟨?_, hgate, h.sockets.bound⟩
  intro s t c d g hs ht hc hd
  obtain ⟨gd, hgd, rfl⟩ := hgate s c g hs hc
  obtain ⟨gd', hgd', rfl⟩ := hgate t d g ht hd
  rw [Option.some.inj (hgd.symm.trans hgd')]

lemma Agree.keep (ha : Agree m) (hn : Tables n)
    (hsockets : ∀ t d k, n.sockets.get t = some d → d.data = some k →
      ∃ old, m.sockets.get t = some old ∧ old.data = some k)
    (hgates : ∀ t d k gd, n.sockets.get t = some d → d.data = some k → m.gates.get k = some gd →
      gd.socket = t → ∃ gd', n.gates.get k = some gd' ∧ gd'.socket = t) : Agree n := by
  rw [agree_iff hn]
  intro t d k ht hk
  obtain ⟨old, hold, hdata⟩ := hsockets t d k ht hk
  obtain ⟨gd, hgd, hgs⟩ := ha.gate t old k hold hdata
  exact hgates t d k gd ht hk hgd hgs

lemma Agree.congr (ha : Agree m) (hg : n.gates = m.gates) (hs : n.sockets = m.sockets) : Agree n :=
  ⟨hs ▸ ha.single, hg ▸ hs ▸ ha.gate, hg ▸ hs ▸ ha.socket⟩

lemma Agree.touch {now : ℤ} (ha : Agree m) (h : Tables m) : Agree (m.touch s now) := by
  apply ha.keep h.touch
  · intro t d k ht hk
    obtain ⟨old, hold, -, hdata⟩ := touch_data ht
    exact ⟨old, hold, hdata ▸ hk⟩
  · exact fun t d k gd _ _ hgd hgs => ⟨gd, hgd, hgs⟩

lemma accept_agree {now : ℤ} (ha : Agree m) (h : Tables m) (hs : s ≠ 0)
    (hfree : m.sockets.get s = none) :
    Agree { m with sockets := m.sockets.set s { socket := s, lastRecv := now } } := by
  apply ha.keep (accept_tables h hs hfree)
  · intro t d k ht hk
    rw [Table.get_set] at ht
    split_ifs at ht
    · obtain rfl := Option.some.inj ht
      cases hk
    · exact ⟨d, ht, hk⟩
  · exact fun t d k gd _ _ hgd hgs => ⟨gd, hgd, hgs⟩

lemma socketStop_agree (ha : Agree m) (h : Tables m) (hs : m.sockets.get s = some c) :
    Agree (m.socketStop s) := by
  have hremove : ∀ t d, (m.sockets.remove s).get t = some d → t ≠ s ∧ m.sockets.get t = some d := by
    intro t d ht
    rw [Table.get_remove] at ht
    split_ifs at ht with hts
    exact ⟨hts, ht⟩
  have htables := socketStop_tables h hs
  rcases socketStop_cases hs with ⟨g, gate, -, hg, hgs, heq⟩ | ⟨-, heq⟩ <;>
    rw [heq] at htables ⊢ <;> apply ha.keep htables
  · exact fun t d k ht hk => ⟨d, (hremove t d ht).2, hk⟩
  · intro t d k gd ht hk hgd hgs'
    refine ⟨gd, ?_, hgs'⟩
    have hkg : k ≠ g := by
      rintro rfl
      obtain rfl := Option.some.inj (hg.symm.trans hgd)
      exact (hremove t d ht).1 (hgs'.symm.trans hgs)
    simp only [publish_gates, darkened_gates, if_neg hkg, hgd]
  · exact fun t d k ht hk => ⟨d, (hremove t d ht).2, hk⟩
  · exact fun t d k gd ht hk hgd hgs => ⟨gd, hgd, hgs⟩

variable {ids : List UInt16}

lemma Added.agree (hn : Added g ids m n) (ha : Agree m) (h : Tables n) : Agree n := by
  apply ha.keep h
  · exact fun t d k ht hk => ⟨d, hn.sockets ▸ ht, hk⟩
  · intro t d k gd _ _ hgd hgs
    rw [hn.gates k]
    split_ifs with hkg
    · rw [← hkg, hgd]
      exact ⟨_, rfl, hgs⟩
    · exact ⟨gd, hgd, hgs⟩

lemma kickOlder_agree (ha : Agree m) (hs : m.sockets.get s = some c) (hcs : c.socket = s)
    (hc : c.data = some g) : m.kickOlder c g = m := by
  obtain ⟨gate, hgate, hgs⟩ := ha.gate s c g hs hc
  rcases kickOlder_eq (c := c) hgate with heq | ⟨hne, -⟩
  · exact heq
  · exact absurd (hgs.trans hcs.symm) hne

lemma registered_agree {base : GateMaster} {session : UInt64} {info : GateInfo} (ha : Agree m)
    (h : Tables m) (hs : m.sockets.get s = some c)
    (hcheck : m.checkServices info.services info.id.toUInt16 = true)
    (hbase : Rebased m c info.id.toUInt16 base) : Agree (base.registered c session info) ↔
      (c.data = none → ∀ gd, m.gates.get info.id.toUInt16 = some gd → gd.socket = 0) := by
  have hn : Handled m c (.register session info) (base.registered c session info) :=
    .register hcheck hbase
  have htables := hn.tables h hs
  have hcs := (h.sockets.key s c hs).1
  have hp := hbase.prepared h hs
  rw [← checkServices_congr hbase.services] at hcheck
  obtain ⟨ids, n, hadded, heq⟩ := registered_eq c session hcheck
  rw [heq] at htables ⊢
  rw [hcs] at hadded htables ⊢
  generalize info.id.toUInt16 = g at *
  obtain ⟨gate, hgate, hsock⟩ := hadded.attached hp
  have hsockets : n.sockets = base.sockets := hadded.sockets
  rw [agree_iff htables]
  simp only [publish_gates, publish_sockets, send, hsockets]
  cases hbase with
  | kicked hc =>
    have hm := kickOlder_agree ha hs hcs hc
    refine ⟨fun _ hnone => by simp [hc] at hnone, fun _ => ?_⟩
    intro t d k ht hk
    rw [hm] at ht
    by_cases hkg : k = g
    · subst hkg
      exact ⟨gate, hgate, hsock.trans (ha.single s t c d k hs ht hc hk)⟩
    · rw [hadded.rebased (.kicked hc) hkg]
      exact ha.gate t d k ht hk
  | bound hc =>
    rw [hcs] at hadded hsockets ⊢
    constructor
    · intro hgates _ gd hgd
      by_contra hne
      obtain ⟨d, hd, hdata⟩ := ha.socket g gd hgd hne
      have hts : gd.socket ≠ s := by
        intro hts
        rw [hts, hs] at hd
        obtain rfl := Option.some.inj hd
        simp [hc] at hdata
      obtain ⟨gate', hgate', hsock'⟩ :=
        hgates gd.socket d g (by rw [bindNew_sockets, if_neg hts, hd]) hdata
      obtain rfl := Option.some.inj (hgate.symm.trans hgate')
      exact hts (hsock'.symm.trans hsock)
    · intro hfree t d k ht hk
      rw [bindNew_sockets] at ht
      split_ifs at ht with hts
      · obtain ⟨old, -, rfl⟩ := Option.map_eq_some_iff.mp ht
        obtain rfl := Option.some.inj hk
        exact ⟨gate, hgate, hsock.trans hts.symm⟩
      · have hkg : k ≠ g := by
          rintro rfl
          obtain ⟨gd, hgd, hgs⟩ := ha.gate t d k ht hk
          exact (h.sockets.key t d ht).2 (hgs.symm.trans (hfree hc gd hgd))
        have hrebased : Rebased m c g (m.bindNew g s) := hcs ▸ .bound hc
        rw [hadded.rebased hrebased hkg]
        exact ha.gate t d k ht hk

def UnclaimedBy (m : GateMaster) (c : SocketData) (req : MasterRequest) : Prop :=
  ∀ session info, req = .register session info → c.data = none → m.accepts c req = true →
    ∀ gd, m.gates.get info.id.toUInt16 = some gd → gd.socket = 0

lemma unclaimed_iff {now : ℤ} {req : MasterRequest}
    (hs : (m.touch s now).sockets.get s = some c) :
    m.Unclaimed (.recv s now req) ↔ (m.touch s now).UnclaimedBy c req := by
  obtain ⟨old, hold, -, hdata⟩ := touch_data hs
  rw [UnclaimedBy, accepts_touch hdata, hdata]
  cases req with
  | register session info =>
    constructor
    · rintro hu _ _ ⟨⟩
      exact hu old hold
    · intro hu d hd
      obtain rfl := Option.some.inj (hold.symm.trans hd)
      exact hu session info rfl
  | _ => exact ⟨fun _ => nofun, fun _ => trivial⟩

lemma Handled.agree {req : MasterRequest} (hn : Handled m c req n) (ha : Agree m) (h : Tables m)
    (hs : m.sockets.get s = some c) : Agree n ↔ m.UnclaimedBy c req := by
  cases hn with
  | ignored =>
    refine ⟨?_, fun _ => ha⟩
    rintro - _ _ ⟨⟩
  | answered hreq =>
    refine ⟨fun _ _ _ _ _ hacc => ?_, fun _ => ha.congr rfl rfl⟩
    simp [hreq] at hacc
  | @register session info base hcheck hbase =>
    rw [registered_agree ha h hs hcheck hbase]
    constructor
    · rintro hfree _ _ ⟨⟩ hc -
      exact hfree hc
    · intro hu hc
      exact hu session info rfl hc (by simp [accepts, hc, hcheck])
  | upload hc hcheck =>
    obtain ⟨ids, hadded⟩ := addServices_added hcheck
    have htables := hadded.tables h (h.sockets.known s c _ hs hc)
    refine ⟨?_, fun _ => ?_⟩
    · rintro - _ _ ⟨⟩
    · exact (hadded.agree ha htables).congr publish_gates publish_sockets

lemma Stepped.agree {a : Action} (hn : Stepped m a n) (ha : Agree m) (h : Tables m) :
    Agree n ↔ m.Unclaimed a := by
  cases hn with
  | accept hs hfree => exact ⟨fun _ => trivial, fun _ => accept_agree ha h hs hfree⟩
  | recv hs hn =>
    rw [unclaimed_iff hs]
    exact hn.agree (ha.touch h) h.touch hs
  | stop hs => exact ⟨fun _ => trivial, fun _ => socketStop_agree ha h hs⟩

/-- Gates and connections agree along a run exactly when nobody takes a gate that is in use. -/
theorem agree_always_iff (as : List Action) :
    machine.Always Agree machine.initial as ↔ machine.Along Unclaimed machine.initial as := by
  apply Machine.always_iff_along (I := Tables)
  · intro m a n h hn
    exact h.step hn
  · intro m a n h ha hn
    have hstep : Stepped m a n := step_stepped hn
    exact hstep.agree ha h
  · exact tables_initial
  · exact ⟨nofun, nofun, nofun⟩

theorem agree_taken_over : ∃ m, machine.run machine.initial
    [.accept 1 0, .accept 2 0, .recv 1 1 (.register 1 ⟨7, [], []⟩),
      .recv 2 2 (.register 1 ⟨7, [], []⟩)] = some m ∧ ¬ Agree m := by
  refine ⟨_, rfl, ?_⟩
  intro ha
  exact absurd (ha.single 1 2 _ _ 7 rfl rfl rfl rfl) (by decide)

end GateMaster

end Simple.Gobang
