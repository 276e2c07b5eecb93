import Simple.Gobang.MasterOffline
import Simple.Gobang.MasterOwnership
import Simple.Lib.Replica

/-! What the gate master takes for the status of a service, and which connections may change it. -/

namespace Simple.Gobang

open Simple.Lib

def ServiceInfo.entry (s : ServiceInfo) : UInt16 × Bool := (s.id.toUInt16, s.online)

namespace GateMaster

def flags (m : GateMaster) (id : UInt16) : Option Bool :=
  (m.services.get id).map ServiceData.online

/-- The open connections, each with the gate that has registered on it -/
def bindings (m : GateMaster) (s : UInt32) : Option (Option UInt16) :=
  (m.sockets.get s).map SocketData.data

def holder (m : GateMaster) (g : UInt16) : Option UInt32 := (m.gates.get g).map GateData.socket

variable {m n : GateMaster} {g h k id : UInt16} {s t : UInt32} {c : SocketData}

/-- A step of the gate master, as far as the status of services goes. -/
inductive Served (m : GateMaster) : Action → GateMaster → Prop
  | accept {s : UInt32} {now : ℤ} {n : GateMaster} (hs : m.bindings s = none)
      (hflags : n.flags = m.flags) (hholder : n.holder = m.holder)
      (hbindings : n.bindings = Function.update m.bindings s (some none)) :
      Served m (.accept s now) n
  | refuse {s : UInt32} {now : ℤ} {req : MasterRequest} {n : GateMaster} {c : SocketData}
      (hs : m.sockets.get s = some c) (hreq : m.accepts c req = false) (hflags : n.flags = m.flags)
      (hholder : n.holder = m.holder) (hbindings : n.bindings = m.bindings) :
      Served m (.recv s now req) n
  | register {s : UInt32} {now : ℤ} {session : UInt64} {info : GateInfo} {n : GateMaster}
      (hs : (m.bindings s).isSome) (hcheck : m.checkServices info.services info.id.toUInt16 = true)
      (hflags : n.flags = override m.flags (collect (info.services.map ServiceInfo.entry)))
      (hholder : n.holder = Function.update m.holder info.id.toUInt16 (some s))
      (hbound : n.bindings s = some (some info.id.toUInt16))
      (hbindings : ∀ t ≠ s, ∀ d, n.bindings t = some d → m.bindings t = some d) :
      Served m (.recv s now (.register session info)) n
  | upload {s : UInt32} {now : ℤ} {session : UInt64} {services : List ServiceInfo} {g : UInt16}
      {n : GateMaster} (hs : m.bindings s = some (some g))
      (hcheck : m.checkServices services g = true)
      (hflags : n.flags = override m.flags (collect (services.map ServiceInfo.entry)))
      (hholder : n.holder = m.holder) (hbindings : n.bindings = m.bindings) :
      Served m (.recv s now (.update session services)) n
  | stop {s : UInt32} {n : GateMaster} (hs : (m.bindings s).isSome) (hflags : n.flags = m.flags)
      (hholder : n.holder = m.holder)
      (hbindings : n.bindings = Function.update m.bindings s none) : Served m (.stop s) n
  | disconnect {s : UInt32} {n : GateMaster} {g : UInt16} (hs : m.bindings s = some (some g))
      (hg : m.holder g = some s) (hflags : ∀ id, m.owner id ≠ some g → n.flags id = m.flags id)
      (hholder : n.holder = Function.update m.holder g (some 0))
      (hbindings : n.bindings = Function.update m.bindings s none) : Served m (.stop s) n

lemma addServices_flags {services : List ServiceInfo} : (m.addServices services g).flags =
    override m.flags (collect (services.map ServiceInfo.entry)) := by
  induction services generalizing m with
  | nil =>
    funext id
    simp [addServices, collect, override]
  | cons info services ih =>
    have hfirst : (addService g m info).flags =
        Function.update m.flags info.id.toUInt16 (some info.online) := by
      funext id
      by_cases hid : id = info.id.toUInt16
      · subst hid
        rw [Function.update_self]
        exact addService_online.trans (if_pos rfl)
      · rw [Function.update_of_ne hid]
        exact addService_online.trans (if_neg (Ne.symm hid))
    rw [List.map_cons, collect, ← override_assoc, override_update]
    exact ih.trans (by rw [hfirst]; rfl)

lemma flags_congr (h : n.services = m.services) : n.flags = m.flags := by
  funext id
  rw [flags, flags, h]

lemma holder_congr (h : n.gates = m.gates) : n.holder = m.holder := by
  funext g
  rw [holder, holder, h]

lemma bindings_congr (h : n.sockets = m.sockets) : n.bindings = m.bindings := by
  funext s
  rw [bindings, bindings, h]

@[simp] lemma publish_flags : (m.publish g).flags = m.flags := flags_congr publish_services

@[simp] lemma publish_holder : (m.publish g).holder = m.holder := holder_congr publish_gates

@[simp] lemma publish_bindings : (m.publish g).bindings = m.bindings :=
  bindings_congr publish_sockets

lemma touch_bindings {now : ℤ} : (m.touch s now).bindings = m.bindings := by
  funext t
  rw [bindings, touch_get]
  split_ifs
  · rw [Option.map_map]
    rfl
  · rfl

lemma Added.holder {ids : List UInt16} (hn : Added g ids m n) : n.holder = m.holder := by
  funext k
  rw [GateMaster.holder, hn.gates k]
  split_ifs with hk
  · rw [hk, Option.map_map]
    rfl
  · rfl

lemma Rebased.holder (hn : Rebased m c g n) (hh : h ≠ g) : n.holder h = m.holder h := by
  rw [GateMaster.holder, hn.other hh]
  rfl

lemma Rebased.bindings (hn : Rebased m c g n) (h : Tables m) (hs : m.sockets.get s = some c) :
    n.bindings s = some (some g) ∧ ∀ t ≠ s, ∀ d, n.bindings t = some d → m.bindings t = some d := by
  obtain ⟨old, hold, hdata⟩ := (hn.prepared h hs).opened
  refine ⟨by rw [GateMaster.bindings, hold, Option.map_some, hdata], ?_⟩
  intro t ht d hd
  have hcs := (h.sockets.key s c hs).1
  cases hn with
  | kicked hc =>
    obtain ⟨gate, hgate⟩ := Option.isSome_iff_exists.mp (h.sockets.known s c _ hs hc)
    rcases kickOlder_eq (c := c) hgate with hm | ⟨-, -, -, -, hsockets⟩
    · rwa [hm] at hd
    · rw [GateMaster.bindings, hsockets] at hd
      split_ifs at hd
      · cases hd
      · exact hd
  | bound hc =>
    rw [GateMaster.bindings, bindNew_sockets, hcs, if_neg ht] at hd
    exact hd

lemma attach_holder {addresses : List GateAddress} (hg : (m.gates.get g).isSome) :
    (m.attach g s addresses).holder = Function.update m.holder g (some s) := by
  funext k
  rw [holder, attach_gates]
  split_ifs with hk
  · subst hk
    obtain ⟨gate, hgate⟩ := Option.isSome_iff_exists.mp hg
    rw [hgate, Function.update_self]
    rfl
  · rw [Function.update_of_ne hk]
    rfl

lemma registered_spec (c : SocketData) (session : UInt64) {info : GateInfo}
    (hcheck : m.checkServices info.services info.id.toUInt16 = true)
    (hg : (m.gates.get info.id.toUInt16).isSome) :
    (m.registered c session info).flags =
        override m.flags (collect (info.services.map ServiceInfo.entry)) ∧
      (m.registered c session info).holder =
        Function.update m.holder info.id.toUInt16 (some c.socket) ∧
      (m.registered c session info).bindings = m.bindings := by
  obtain ⟨ids, hadded⟩ :=
    addServices_added (m := m.attach info.id.toUInt16 c.socket info.addresses) hcheck
  refine ⟨?_, ?_, ?_⟩ <;> rw [registered]
  · rw [publish_flags]
    exact addServices_flags
  · rw [publish_holder, ← attach_holder hg]
    exact hadded.holder
  · rw [publish_bindings]
    exact bindings_congr hadded.sockets

lemma Handled.served {req : MasterRequest} (now : ℤ) (hn : Handled m c req n) (h : Tables m)
    (hs : m.sockets.get s = some c) : Served m (.recv s now req) n := by
  have hcs := (h.sockets.key s c hs).1
  cases hn with
  | ignored => exact .refuse hs rfl rfl rfl rfl
  | answered hreq => exact .refuse hs hreq rfl rfl rfl
  | @register session info base hcheck hbase =>
    obtain ⟨hbound, hothers⟩ := hbase.bindings h hs
    have hknown := (hbase.prepared h hs).known
    obtain ⟨hflags, hholder, hbindings⟩ :=
      registered_spec c session (checkServices_congr hbase.services ▸ hcheck) hknown
    rw [hcs] at hholder
    refine .register ?_ hcheck ?_ ?_ ?_ ?_
    · rw [bindings, hs]
      rfl
    · rw [hflags, flags_congr hbase.services]
    · rw [hholder]
      funext k
      by_cases hk : k = info.id.toUInt16
      · rw [hk, Function.update_self, Function.update_self]
      · rw [Function.update_of_ne hk, Function.update_of_ne hk, hbase.holder hk]
    · rw [hbindings, hbound]
    · rw [hbindings]
      exact hothers
  | @upload session services g hc hcheck =>
    obtain ⟨ids, hadded⟩ := addServices_added hcheck
    refine .upload (g := g) ?_ hcheck ?_ ?_ ?_
    · rw [bindings, hs, Option.map_some, hc]
    · rw [publish_flags]
      exact addServices_flags
    · rw [publish_holder]
      exact hadded.holder
    · rw [publish_bindings]
      exact bindings_congr hadded.sockets

lemma socketStop_served (h : Tables m) (hs : m.sockets.get s = some c) :
    Served m (.stop s) (m.socketStop s) := by
  have hopen : m.bindings s = some c.data := by
    rw [bindings, hs]
    rfl
  have hremove : ∀ n : GateMaster, n.sockets = m.sockets.remove s →
      n.bindings = Function.update m.bindings s none := by
    intro n hn
    funext t
    by_cases ht : t = s
    · rw [bindings, hn, Table.get_remove, if_pos ht, ht, Function.update_self]
      rfl
    · rw [bindings, hn, Table.get_remove, if_neg ht, Function.update_of_ne ht]
      rfl
  rcases socketStop_cases hs with ⟨g, gate, hc, hg, hgs, heq⟩ | ⟨-, heq⟩
  · refine .disconnect (g := g) (hc ▸ hopen) ?_ ?_ ?_ (hremove _ (by rw [heq]))
    · rw [holder, hg, Option.map_some, hgs]
    · intro id hown
      have hid : id ∉ gate.services := by
        intro hmem
        obtain ⟨sd, hsd, hsg⟩ := h.catalog.owned g gate id hg hmem
        exact hown (by rw [owner, hsd, Option.map_some, hsg])
      have hflags : (m.socketStop s).flags = (m.darkened g gate).flags := by
        rw [heq]
        exact publish_flags
      rw [hflags, flags, darkened_services, if_neg hid]
      rfl
    · have hholder : (m.socketStop s).holder = (m.darkened g gate).holder := by
        rw [heq]
        exact publish_holder
      rw [hholder]
      funext k
      rw [holder, darkened_gates]
      split_ifs with hk
      · rw [hk, Function.update_self, hg]
        rfl
      · rw [Function.update_of_ne hk]
        rfl
  · refine .stop (by rw [hopen]; rfl) ?_ ?_ (hremove _ (by rw [heq])) <;> rw [heq] <;> rfl

lemma Stepped.served {a : Action} (hn : Stepped m a n) (h : Tables m) : Served m a n := by
  cases hn with
  | @accept s now hs hfree =>
    refine .accept ?_ rfl rfl ?_
    · rw [bindings, hfree]
      rfl
    · funext t
      by_cases ht : t = s
      · rw [ht, bindings, Table.get_set_self, Function.update_self]
        rfl
      · rw [bindings, Table.get_set_ne ht, Function.update_of_ne ht]
        rfl
  | @recv s now req c n hs hn =>
    have hserved := hn.served now h.touch hs
    have htouch : (m.touch s now).bindings = m.bindings := touch_bindings
    cases hserved with
    | @refuse _ _ _ _ c' hs' hreq hflags hholder hbindings =>
      obtain ⟨old, hold, -, hdata⟩ := touch_data hs'
      refine .refuse hold ?_ hflags hholder (hbindings.trans htouch)
      rwa [accepts_touch hdata] at hreq
    | register hs' hcheck hflags hholder hbound hbindings =>
      exact .register (htouch ▸ hs') hcheck hflags hholder hbound (htouch ▸ hbindings)
    | upload hs' hcheck hflags hholder hbindings =>
      exact .upload (htouch ▸ hs') hcheck hflags hholder (hbindings.trans htouch)
  | stop hs => exact socketStop_served h hs

variable {now : ℤ} {req : MasterRequest}

lemma Served.bindings_of_ne (hn : Served m (.recv s now req) n) (ht : t ≠ s) {d : Option UInt16}
    (hd : n.bindings t = some d) : m.bindings t = some d := by
  cases hn with
  | refuse _ _ _ _ hbindings => rwa [hbindings] at hd
  | register _ _ _ _ _ hbindings => exact hbindings t ht d hd
  | upload _ _ _ _ hbindings => rwa [hbindings] at hd

lemma Served.isSome_bindings (hn : Served m (.recv s now req) n) : (m.bindings s).isSome := by
  cases hn with
  | refuse hs =>
    rw [bindings, hs]
    rfl
  | register hs => exact hs
  | upload hs =>
    rw [hs]
    rfl

end GateMaster

end Simple.Gobang
