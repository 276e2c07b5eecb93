import Simple.Gobang.GateWire
import Simple.Gobang.System

/-! Master and gates agree on who owns a service, whatever is on the links. -/

namespace Simple.Gobang

open Simple.Lib

open GateMaster (Tells TellsAll Extends Emitted)

namespace System

variable {sys : System} {k : UInt16} {now : ℕ}

def linkGates (sys : System) : List UInt16 := sys.links.map MasterLink.gate

lemma lt_of_linkGates {sys : System} {l : ℕ} {k : UInt16} (h : sys.linkGates[l]? = some k) :
    l < sys.links.length := by
  simpa [linkGates] using (List.getElem?_eq_some_iff.mp h).1

lemma linkGates_modify {l : ℕ} {f : MasterLink → MasterLink}
    (hf : ∀ link, (f link).gate = link.gate) :
    linkGates { sys with links := sys.links.modify l f } = sys.linkGates :=
  map_modify hf

structure Asked (gates : UInt16 → Gate) (l : ℕ) (k : UInt16) (req : MasterRequest) : Prop where
  register : ∀ session info, req = .register session info → info.id.toUInt16 = k
  asks : (gates k).socket = some l → (gates k).wire.Asks req

def Answered (own : UInt16 → Option UInt16) (gates : UInt16 → Gate) (l : ℕ) (k : UInt16)
    (msg : MasterMessage) : Prop :=
  (gates k).socket = some l → (gates k).wire.Hears own msg

structure Inv (sys : System) : Prop where
  tables : sys.master.Tables
  sent : sys.master.sent = []
  outbox : ∀ k, (sys.gates k).outbox = []
  id : ∀ k, (sys.gates k).id = k
  sound : ∀ k, (sys.gates k).Sound sys.master.owner
  socket : ∀ k l, (sys.gates k).socket = some l → sys.linkGates[l]? = some k
  bound : ∀ s c, sys.master.sockets.get s = some c →
    ∃ k, sys.linkGates[sys.route s]? = some k ∧ ∀ g, c.data = some g → k = g
  asked : ∀ (l : ℕ) link, sys.links[l]? = some link →
    ∀ req ∈ link.toMaster, Asked sys.gates l link.gate req
  answered : ∀ (l : ℕ) link, sys.links[l]? = some link →
    ∀ msg ∈ link.toGate, Answered sys.master.owner sys.gates l link.gate msg

lemma Inv.modifyLink (h : Inv sys) (l : ℕ) (f : MasterLink → MasterLink)
    (hgate : ∀ link, (f link).gate = link.gate)
    (hasked : ∀ link, sys.links[l]? = some link →
      ∀ req ∈ (f link).toMaster, Asked sys.gates l link.gate req)
    (hanswered : ∀ link, sys.links[l]? = some link →
      ∀ msg ∈ (f link).toGate, Answered sys.master.owner sys.gates l link.gate msg) :
    Inv { sys with links := sys.links.modify l f } := by
  have hlinks : linkGates { sys with links := sys.links.modify l f } = sys.linkGates :=
    linkGates_modify hgate
  refine ⟨h.tables, h.sent, h.outbox, h.id, h.sound, ?_, ?_, ?_, ?_⟩
  · rw [hlinks]
    exact h.socket
  · rw [hlinks]
    exact h.bound
  · apply forall_getElem?_modify h.asked
    intro link hlink
    rw [hgate]
    exact hasked link hlink
  · apply forall_getElem?_modify h.answered
    intro link hlink
    rw [hgate]
    exact hanswered link hlink

lemma Inv.addLink (h : Inv sys) (k : UInt16) :
    Inv { sys with links := sys.links ++ [{ gate := k }] } := by
  have hlinks : ∀ (l : ℕ) k', sys.linkGates[l]? = some k' →
      (linkGates { sys with links := sys.links ++ [{ gate := k }] })[l]? = some k' := by
    intro l k' hl
    have hlt : l < (sys.links.map MasterLink.gate).length := (List.getElem?_eq_some_iff.mp hl).1
    rw [linkGates, List.map_append, List.getElem?_append_left hlt]
    exact hl
  have hlink : ∀ (l : ℕ) link, (sys.links ++ [{ gate := k }])[l]? = some link →
      sys.links[l]? = some link ∨ link = { gate := k } := by
    intro l link hl
    rcases lt_or_ge l sys.links.length with hlt | hge
    · exact Or.inl (List.getElem?_append_left hlt ▸ hl)
    · rw [List.getElem?_append_right hge] at hl
      exact Or.inr (List.mem_singleton.mp (List.mem_of_getElem? hl))
  refine ⟨h.tables, h.sent, h.outbox, h.id, h.sound, ?_, ?_, ?_, ?_⟩
  · exact fun k' l hl => hlinks l k' (h.socket k' l hl)
  · intro s c hs
    obtain ⟨k', hk', hdata⟩ := h.bound s c hs
    exact ⟨k', hlinks _ k' hk', hdata⟩
  · intro l link hl
    rcases hlink l link hl with hl | rfl
    · exact h.asked l link hl
    · exact nofun
  · intro l link hl
    rcases hlink l link hl with hl | rfl
    · exact h.answered l link hl
    · exact nofun

lemma link_of_queue {α : Type} {queue : MasterLink → List α} {l : ℕ} {x : α} {rest : List α}
    (h : (sys.links[l]?.map queue).getD [] = x :: rest) :
    ∃ link, sys.links[l]? = some link ∧ queue link = x :: rest := by
  cases hlink : sys.links[l]? with
  | none => simp [hlink] at h
  | some link => exact ⟨link, rfl, by simpa [hlink] using h⟩

lemma gate_of_link {l : ℕ} {link : MasterLink} (hk : sys.linkGates[l]? = some k)
    (hlink : sys.links[l]? = some link) : link.gate = k := by
  rw [linkGates, List.getElem?_map, hlink, Option.map_some] at hk
  exact Option.some.inj hk

lemma Inv.replaceGate {g : Gate} (h : Inv sys) (houtbox : g.outbox = []) (hid : g.id = k)
    (hsound : g.Sound sys.master.owner)
    (hsocket : ∀ l, g.socket = some l → sys.linkGates[l]? = some k)
    (hasks : ∀ (l : ℕ) link, sys.links[l]? = some link → link.gate = k → g.socket = some l →
      ∀ req ∈ link.toMaster, g.wire.Asks req)
    (hhears : ∀ (l : ℕ) link, sys.links[l]? = some link → link.gate = k → g.socket = some l →
      ∀ msg ∈ link.toGate, g.wire.Hears sys.master.owner msg) :
    Inv { sys with gates := Function.update sys.gates k g } := by
  have hgates : ∀ {P : UInt16 → Gate → Prop}, (∀ k', P k' (sys.gates k')) → P k g →
      ∀ k', P k' (Function.update sys.gates k g k') := by
    intro P hold hnew k'
    by_cases hk : k' = k
    · rw [hk, Function.update_self]
      exact hnew
    · rw [Function.update_of_ne hk]
      exact hold k'
  refine ⟨h.tables, h.sent, ?_, ?_, ?_, ?_, h.bound, ?_, ?_⟩
  · exact hgates (P := fun _ g => g.outbox = []) h.outbox houtbox
  · exact hgates (P := fun k' g => g.id = k') h.id hid
  · exact hgates (P := fun _ g => g.Sound sys.master.owner) h.sound hsound
  · exact hgates (P := fun k' g => ∀ l, g.socket = some l → sys.linkGates[l]? = some k')
      h.socket hsocket
  · intro l link hlink req hreq
    have hold := h.asked l link hlink req hreq
    refine ⟨hold.register, ?_⟩
    exact hgates (P := fun k' g => link.gate = k' → g.socket = some l → g.wire.Asks req)
      (fun k' hk => hk ▸ hold.asks) (fun hk hl => hasks l link hlink hk hl req hreq) _ rfl
  · intro l link hlink msg hmsg
    exact hgates (P := fun k' g => link.gate = k' → g.socket = some l →
        g.wire.Hears sys.master.owner msg)
      (fun k' hk => hk ▸ h.answered l link hlink msg hmsg)
      (fun hk hl => hhears l link hlink hk hl msg hmsg) _ rfl

def Follows (sys : System) (k : UInt16) (g : Gate) : Prop :=
  ∀ l, g.socket = some l → sys.linkGates[l]? = some k ∧
    ((sys.gates k).socket = some l ∨ sys.links[l]? = some { gate := k })

lemma Inv.stepGate {g : Gate} {a : Gate.Action} (h : Inv sys)
    (hg : Gate.Stepped (sys.gates k) (now, a) g) (hfits : g.rpc.Fits)
    (hmsg : ∀ msg, a = .recv msg → (sys.gates k).wire.Hears sys.master.owner msg)
    (hsocket : sys.Follows k g) : Inv (sys.setGate k g) := by
  have hp := hg.progress (h.sound k) hfits hmsg
  have hsound := hg.sound (h.sound k) hfits hmsg
  have houtbox : ∀ req ∈ g.outbox, g.wire.Asks req := by
    obtain ⟨news, hout, hnews⟩ := hp.sends
    have hempty : (sys.gates k).wire.outbox = [] := h.outbox k
    rw [hempty, List.nil_append] at hout
    exact fun req hreq => hnews req (hout ▸ hreq)
  have hsys : Inv { sys with gates := Function.update sys.gates k { g with outbox := [] } } := by
    refine h.replaceGate rfl (hp.id.trans (h.id k)) ?_ ?_ ?_ ?_
    · exact ⟨hsound.knows, hsound.heard.answer, hsound.heard.waiting, hsound.heard.owned⟩
    · exact fun l hl => (hsocket l hl).1
    · intro l link hlink hk hl req hreq
      rcases (hsocket l hl).2 with hold | hnew
      · exact hp.asks (hk ▸ (h.asked l link hlink req hreq).asks (hk.symm ▸ hold))
      · rw [hlink] at hnew
        rw [Option.some.inj hnew] at hreq
        cases hreq
    · intro l link hlink hk hl msg hmem
      rcases (hsocket l hl).2 with hold | hnew
      · have hnew := hp.hears (hk ▸ h.answered l link hlink msg hmem (hk.symm ▸ hold))
        exact ⟨hnew.tells, hnew.issued, hnew.owned⟩
      · rw [hlink] at hnew
        rw [Option.some.inj hnew] at hmem
        cases hmem
  unfold setGate
  split
  · exact hsys
  · next l hl =>
    refine hsys.modifyLink l _ (fun _ => rfl) ?_ (hsys.answered l)
    intro link hlink req hreq
    rcases List.mem_append.mp hreq with hreq | hreq
    · exact hsys.asked l link hlink req hreq
    · have hgate := gate_of_link (hsocket l hl).1 hlink
      refine ⟨?_, fun _ => ?_⟩
      · rintro session info rfl
        have hinfo : info.id.toUInt16 = g.wire.id := houtbox _ hreq
        rw [hinfo, hp.id, hgate]
        exact h.id k
      · rw [hgate]
        dsimp only
        rw [Function.update_self]
        exact houtbox req hreq

lemma push_map {β : Type} {f : MasterLink → β} {route : UInt32 → ℕ} {links : List MasterLink}
    {sent : List (UInt32 × MasterMessage)}
    (hf : ∀ link toGate, f { link with toGate := toGate } = f link) :
    (sent.foldl (push route) links).map f = links.map f := by
  induction sent generalizing links with
  | nil => rfl
  | cons e sent ih =>
    rw [List.foldl_cons, ih]
    exact map_modify fun link => hf link _

lemma push_toMaster {route : UInt32 → ℕ} {links : List MasterLink}
    {sent : List (UInt32 × MasterMessage)} {P : ℕ → UInt16 → MasterRequest → Prop}
    (h : ∀ (l : ℕ) link, links[l]? = some link → ∀ req ∈ link.toMaster, P l link.gate req) :
    ∀ (l : ℕ) link, (sent.foldl (push route) links)[l]? = some link →
      ∀ req ∈ link.toMaster, P l link.gate req := by
  induction sent generalizing links with
  | nil => exact h
  | cons e sent ih =>
    apply ih
    apply forall_getElem?_modify h
    exact fun link hlink => h _ link hlink

lemma push_toGate {route : UInt32 → ℕ} {links : List MasterLink}
    {sent : List (UInt32 × MasterMessage)} {P : ℕ → UInt16 → MasterMessage → Prop}
    (h : ∀ (l : ℕ) link, links[l]? = some link → ∀ msg ∈ link.toGate, P l link.gate msg)
    (hsent : ∀ t msg k, (t, msg) ∈ sent → (links.map MasterLink.gate)[route t]? = some k →
      P (route t) k msg) :
    ∀ (l : ℕ) link, (sent.foldl (push route) links)[l]? = some link →
      ∀ msg ∈ link.toGate, P l link.gate msg := by
  induction sent generalizing links with
  | nil => exact h
  | cons e sent ih =>
    apply ih
    · apply forall_getElem?_modify h
      intro link hlink msg hmsg
      rcases List.mem_append.mp hmsg with hmsg | hmsg
      · exact h _ link hlink msg hmsg
      · rw [List.mem_singleton.mp hmsg]
        apply hsent e.1 e.2 link.gate (by simp)
        rw [List.getElem?_map, hlink, Option.map_some]
    · intro t msg k hmem hk
      have hgates : (push route links e).map MasterLink.gate = links.map MasterLink.gate :=
        map_modify fun _ => rfl
      rw [hgates] at hk
      exact hsent t msg k (by simp [hmem]) hk

lemma Inv.routed {m : GateMaster} {a : GateMaster.Action} {route : UInt32 → ℕ} (h : Inv sys)
    (hm : GateMaster.Stepped sys.master a m)
    (hroute : ∀ t c, sys.master.sockets.get t = some c → route t = sys.route t)
    (haccept : ∀ t now, a = .accept t now → ∃ k, sys.linkGates[route t]? = some k)
    (hreq : ∀ t now req, a = .recv t now req → ∃ k, sys.linkGates[route t]? = some k ∧
      Asked sys.gates (route t) k req) {t : UInt32} {c : SocketData}
    (ht : m.sockets.get t = some c) :
    ∃ k, sys.linkGates[route t]? = some k ∧ ∀ g, c.data = some g → k = g := by
  rcases hm.data h.tables ht with ⟨now, ha, hdata⟩ | ⟨old, hold, hdata⟩
  · obtain ⟨k, hk⟩ := haccept t now ha
    exact ⟨k, hk, by simp [hdata]⟩
  · obtain ⟨k, hk, hkdata⟩ := h.bound t old hold
    rw [← hroute t old hold] at hk
    refine ⟨k, hk, ?_⟩
    rcases hdata with hdata | ⟨now, session, info, ha, hdata⟩
    · exact fun g hg => hkdata g (hdata ▸ hg)
    · obtain ⟨k', hk', hasked⟩ := hreq t now _ ha
      obtain rfl := Option.some.inj (hk.symm.trans hk')
      intro g hg
      rw [hdata, hasked.register session info rfl] at hg
      exact Option.some.inj hg

lemma Inv.hears_emitted {m : GateMaster} {a : GateMaster.Action} {route : UInt32 → ℕ} (h : Inv sys)
    (hbound : ∀ t c, m.sockets.get t = some c →
      ∃ k, sys.linkGates[route t]? = some k ∧ ∀ g, c.data = some g → k = g)
    (hreq : ∀ t now req, a = .recv t now req → ∃ k, sys.linkGates[route t]? = some k ∧
      Asked sys.gates (route t) k req) {t : UInt32} {msg : MasterMessage} (he : Emitted a m t msg)
    (hk : sys.linkGates[route t]? = some k) (hl : (sys.gates k).socket = some (route t)) :
    (sys.gates k).wire.Hears m.owner msg := by
  have hid : (sys.gates k).wire.id = k := h.id k
  cases he with
  | @told k' c ht hc hmsg hack =>
    obtain ⟨k'', hk'', hdata⟩ := hbound t c ht
    obtain rfl := Option.some.inj (hk.symm.trans hk'')
    obtain rfl := hdata k' hc
    exact ⟨hid.symm ▸ hmsg, fun session heq => absurd heq (hack session _),
      fun session heq => absurd heq (hack session _)⟩
  | @registered now session info ha hmsg hack =>
    obtain ⟨k', hk', hasked⟩ := hreq t now _ ha
    obtain rfl := Option.some.inj (hk.symm.trans hk')
    rw [hasked.register session info rfl] at hmsg
    exact ⟨hid.symm ▸ hmsg, fun session heq => absurd heq (hack session _),
      fun session heq => absurd heq (hack session _)⟩
  | @uploaded now session services k' c ha hmsg ht hc hservices =>
    obtain ⟨k'', hk'', hdata⟩ := hbound t c ht
    obtain rfl := Option.some.inj (hk.symm.trans hk'')
    obtain rfl := hdata k' hc
    obtain ⟨k', hk', hasked⟩ := hreq t now _ ha
    obtain rfl := Option.some.inj (hk.symm.trans hk')
    obtain ⟨hissued, hmatch⟩ := hasked.asks hl
    subst hmsg
    refine ⟨trivial, ?_, ?_⟩
    · rintro _ ⟨⟩
      exact hissued
    · rintro _ ⟨⟩ r hr hwait
      obtain ⟨info, hinfo, hrid⟩ := hmatch r hr hwait
      rw [← hrid, hid]
      exact hservices info hinfo
  | quiet hmsg =>
    cases msg with
    | registerAck session ec gates =>
      refine ⟨?_, nofun, nofun⟩
      rw [TellsAll, hmsg.2]
      exact nofun
    | registerBrd gates => cases hmsg
    | updateAck session ec =>
      obtain rfl : ec = .system := hmsg
      exact ⟨trivial, nofun, nofun⟩
    | pingAck session => exact ⟨trivial, nofun, nofun⟩

lemma Inv.stepMaster {m : GateMaster} {a : GateMaster.Action} (h : Inv sys)
    {route : UInt32 → ℕ} (hm : GateMaster.Stepped sys.master a m)
    (hroute : ∀ t c, sys.master.sockets.get t = some c → route t = sys.route t)
    (haccept : ∀ t now, a = .accept t now → ∃ k, sys.linkGates[route t]? = some k)
    (hreq : ∀ t now req, a = .recv t now req → ∃ k, sys.linkGates[route t]? = some k ∧
      Asked sys.gates (route t) k req) : Inv (setMaster { sys with route := route } m) := by
  obtain ⟨hown, out, hout, hemitted⟩ := hm.emitted h.tables
  rw [h.sent, List.nil_append] at hout
  have htables := hm.tables h.tables
  have hbound : ∀ t c, m.sockets.get t = some c →
      ∃ k, sys.linkGates[route t]? = some k ∧ ∀ g, c.data = some g → k = g :=
    fun t c ht => h.routed hm hroute haccept hreq ht
  have hlinks : (setMaster { sys with route := route } m).linkGates = sys.linkGates :=
    push_map fun _ _ => rfl
  refine ⟨⟨htables.catalog.congr rfl rfl, htables.sockets.congr rfl rfl⟩, rfl, h.outbox, h.id,
    fun k => (h.sound k).mono hown, ?_, ?_, ?_, ?_⟩
  · rw [hlinks]
    exact h.socket
  · rw [hlinks]
    exact hbound
  · exact push_toMaster (P := Asked sys.gates) h.asked
  · apply push_toGate (P := Answered m.owner sys.gates)
    · exact fun l link hlink msg hmsg hl => (h.answered l link hlink msg hmsg hl).mono hown
    · intro t msg k hmem hk hl
      exact h.hears_emitted hbound hreq (hemitted t msg (hout ▸ hmem)) hk hl

lemma restart_inv (h : Inv sys) {pid : ℕ} {addresses : List GateAddress} :
    Inv { sys with
      gates := Function.update sys.gates k { id := k, pid := pid, addresses := addresses } } := by
  refine h.replaceGate rfl rfl ?_ ?_ ?_ ?_
  · exact ⟨⟨Gate.indexed_empty, nofun, nofun⟩, nofun, nofun, nofun⟩
  · nofun
  · exact fun _ _ _ _ => nofun
  · exact fun _ _ _ _ => nofun

lemma stepGate_some {sys' : System} {a : Gate.Action} (h : sys.stepGate k now a = some sys') :
    ∃ g, Gate.Stepped (sys.gates k) (now, a) g ∧ g.rpc.Fits ∧ sys' = sys.setGate k g := by
  simp only [System.stepGate] at h
  split at h
  · cases h
  · next g hg =>
    split_ifs at h with hfits
    exact ⟨g, Gate.step_stepped hg, hfits, (Option.some.inj h).symm⟩

lemma gate_inv {sys' : System} {a : Gate.Action} (h : Inv sys)
    (hstep : sys.stepGate k now a = some sys') (hconnect : ∀ l, a ≠ .connect l)
    (hmsg : ∀ msg, a = .recv msg → (sys.gates k).wire.Hears sys.master.owner msg) : Inv sys' := by
  obtain ⟨g, hg, hfits, rfl⟩ := stepGate_some hstep
  apply h.stepGate hg hfits hmsg
  intro l hl
  rcases hg.socket with hsame | hnone | ⟨now', link, heq⟩
  · rw [hsame] at hl
    exact ⟨h.socket k l hl, Or.inl hl⟩
  · simp [hnone] at hl
  · exact absurd (Prod.mk.inj heq).2 (hconnect link)

lemma connect_inv {sys' : System} (h : Inv sys)
    (hstep : sys.step (.connect k now) = some sys') : Inv sys' := by
  obtain ⟨g, hg, hfits, rfl⟩ := stepGate_some hstep
  apply (h.addLink k).stepGate hg hfits nofun
  intro l hl
  cases hg with
  | connect hs =>
    obtain rfl : sys.links.length = l := Option.some.inj hl
    refine ⟨by simp [linkGates], Or.inr (by simp)⟩

lemma Inv.unqueue (h : Inv sys) {l : ℕ} {link : MasterLink} {msg : MasterMessage}
    {rest : List MasterMessage} (hlink : sys.links[l]? = some link)
    (htoGate : link.toGate = msg :: rest) :
    Inv { sys with links := sys.links.modify l fun link => { link with toGate := rest } } := by
  refine h.modifyLink l _ (fun _ => rfl) (h.asked l) ?_
  intro link' hlink' msg' hmsg'
  obtain rfl := Option.some.inj (hlink.symm.trans hlink')
  exact h.answered l link hlink msg' (htoGate ▸ List.mem_cons_of_mem _ hmsg')

lemma deliver_inv {sys' : System} (h : Inv sys)
    (hstep : sys.step (.deliver k now) = some sys') : Inv sys' := by
  simp only [step] at hstep
  split at hstep
  · cases hstep
  · next l hl =>
    split at hstep
    · cases hstep
    · next msg rest hmsgs =>
      obtain ⟨link, hlink, htoGate⟩ := link_of_queue hmsgs
      have hgate := gate_of_link (h.socket k l hl) hlink
      have hmsg := h.answered l link hlink msg (by simp [htoGate]) (hgate.symm ▸ hl)
      apply gate_inv (h.unqueue hlink htoGate) hstep
      · exact fun _ => nofun
      · rintro _ ⟨⟩
        exact hgate ▸ hmsg

lemma accept_inv {sys' : System} {l : ℕ} {s : UInt32} {time : ℤ} (h : Inv sys)
    (hstep : sys.step (.accept l s time) = some sys') : Inv sys' := by
  simp only [step] at hstep
  split_ifs at hstep with haccepted
  obtain ⟨m, hm, rfl⟩ := Option.map_eq_some_iff.mp hstep
  have hm' := GateMaster.step_stepped hm
  obtain ⟨link, hlink⟩ : ∃ link, sys.links[l]? = some link := by
    cases hlink : sys.links[l]? with
    | none => simp [hlink] at haccepted
    | some link => exact ⟨link, rfl⟩
  have hsys : Inv { sys with links := sys.links.modify l fun link =>
      { link with accepted := true } } :=
    h.modifyLink l _ (fun _ => rfl) (h.asked l) (h.answered l)
  apply hsys.stepMaster hm'
  · intro t c ht
    have hts : t ≠ s := by
      cases hm' with
      | accept hs hfree =>
        rintro rfl
        simp [hfree] at ht
    exact Function.update_of_ne hts _ _
  · rintro t now ⟨⟩
    have hlinks : linkGates { sys with links := sys.links.modify l fun link =>
        { link with accepted := true } } = sys.linkGates := linkGates_modify fun _ => rfl
    rw [Function.update_self, hlinks, linkGates, List.getElem?_map, hlink]
    exact ⟨link.gate, rfl⟩
  · rintro _ _ _ ⟨⟩

lemma receive_inv {sys' : System} {s : UInt32} {time : ℤ} (h : Inv sys)
    (hstep : sys.step (.receive s time) = some sys') : Inv sys' := by
  simp only [step] at hstep
  split at hstep
  · cases hstep
  · next req rest hreqs =>
    obtain ⟨m, hm, rfl⟩ := Option.map_eq_some_iff.mp hstep
    obtain ⟨link, hlink, htoMaster⟩ := link_of_queue hreqs
    have hsys : Inv { sys with links := sys.links.modify (sys.route s) fun link =>
        { link with toMaster := rest } } := by
      refine h.modifyLink (sys.route s) _ (fun _ => rfl) ?_ (h.answered _)
      intro link' hlink' req' hreq'
      obtain rfl := Option.some.inj (hlink.symm.trans hlink')
      exact h.asked _ link hlink req' (htoMaster ▸ List.mem_cons_of_mem _ hreq')
    apply hsys.stepMaster (GateMaster.step_stepped hm)
    · exact fun _ _ _ => rfl
    · nofun
    · rintro t now _ ⟨⟩
      refine ⟨link.gate, ?_, ?_⟩
      · have hlinks : linkGates { sys with links := sys.links.modify (sys.route s) fun link =>
            { link with toMaster := rest } } = sys.linkGates := linkGates_modify fun _ => rfl
        rw [hlinks, linkGates, List.getElem?_map, hlink]
        rfl
      · exact h.asked _ link hlink req (by simp [htoMaster])

lemma step_inv {sys' : System} {a : Action} (h : Inv sys) (hstep : sys.step a = some sys') :
    Inv sys' := by
  cases a with
  | restart k pid addresses =>
    obtain rfl := Option.some.inj hstep
    exact restart_inv h
  | gate k now a =>
    simp only [step] at hstep
    split at hstep
    · cases hstep
    · cases hstep
    · next hconnect hrecv =>
      apply gate_inv h hstep hconnect
      exact fun msg ha => absurd ha (hrecv msg)
  | connect k now => exact connect_inv h hstep
  | deliver k now => exact deliver_inv h hstep
  | accept l s time => exact accept_inv h hstep
  | receive s time => exact receive_inv h hstep
  | stop s =>
    obtain ⟨m, hm, rfl⟩ := Option.map_eq_some_iff.mp hstep
    exact h.stepMaster (GateMaster.step_stepped hm) (fun _ _ _ => rfl) nofun nofun

lemma inv_initial (pids : UInt16 → ℕ) (addresses : UInt16 → List GateAddress) :
    Inv (machine pids addresses).initial :=
  ⟨GateMaster.tables_initial, rfl, fun _ => rfl, fun _ => rfl,
    fun _ => ⟨⟨Gate.indexed_empty, nofun, nofun⟩, nofun, nofun, nofun⟩, nofun, nofun, nofun, nofun⟩

lemma stepGate_master {sys' : System} {a : Gate.Action} (h : sys.stepGate k now a = some sys') :
    sys'.master = sys.master := by
  obtain ⟨g, -, -, rfl⟩ := stepGate_some h
  rfl

lemma step_master {sys' : System} {a : Action} (hstep : sys.step a = some sys') :
    sys'.master = sys.master ∨
      ∃ b m, sys.master.step b = some m ∧ sys'.master = { m with sent := [] } := by
  cases a with
  | restart k pid addresses =>
    obtain rfl := Option.some.inj hstep
    exact Or.inl rfl
  | gate k now a =>
    left
    simp only [step] at hstep
    split at hstep
    · cases hstep
    · cases hstep
    · exact stepGate_master hstep
  | connect k now =>
    left
    have hm := stepGate_master hstep
    exact hm
  | deliver k now =>
    left
    simp only [step] at hstep
    split at hstep
    · cases hstep
    · split at hstep
      · cases hstep
      · have hm := stepGate_master hstep
        exact hm
  | accept l s time =>
    right
    simp only [step] at hstep
    split_ifs at hstep
    obtain ⟨m, hm, rfl⟩ := Option.map_eq_some_iff.mp hstep
    exact ⟨_, m, hm, rfl⟩
  | receive s time =>
    right
    simp only [step] at hstep
    split at hstep
    · cases hstep
    · obtain ⟨m, hm, rfl⟩ := Option.map_eq_some_iff.mp hstep
      exact ⟨_, m, hm, rfl⟩
  | stop s =>
    right
    obtain ⟨m, hm, rfl⟩ := Option.map_eq_some_iff.mp hstep
    exact ⟨_, m, hm, rfl⟩

lemma step_owner {sys' : System} {a : Action} (h : Inv sys) (hstep : sys.step a = some sys') :
    Extends sys.master.owner sys'.master.owner := by
  rcases step_master hstep with heq | ⟨b, m, hm, heq⟩
  · rw [heq]
    exact GateMaster.extends_refl _
  · rw [heq]
    exact ((GateMaster.step_stepped hm).emitted h.tables).1

variable {pids : UInt16 → ℕ} {addresses : UInt16 → List GateAddress}

lemma reachable_inv (h : (machine pids addresses).Reachable sys) : Inv sys := by
  apply Machine.reachable_invariant (inv_initial pids addresses) _ h
  intro s a t hs ht
  exact step_inv hs ht

lemma run_owner {sys' : System} {as : List Action} (h : Inv sys)
    (hrun : (machine pids addresses).run sys as = some sys') :
    Extends sys.master.owner sys'.master.owner := by
  suffices hboth : Inv sys' ∧ Extends sys.master.owner sys'.master.owner from hboth.2
  apply Machine.run_invariant (M := machine pids addresses)
    (I := fun t => Inv t ∧ Extends sys.master.owner t.master.owner) _ _ hrun
  · rintro s a t ⟨hs, hown⟩ ht
    refine ⟨step_inv hs ht, ?_⟩
    exact fun id g hid => step_owner hs ht id g (hown id g hid)
  · exact ⟨h, GateMaster.extends_refl _⟩

lemma Inv.key (h : Inv sys) {s : Service} (hs : s ∈ (sys.gates k).objects) :
    sys.master.owner s.id = some s.gate ∧ (s.isLocal = true ↔ s.gate = k) := by
  have hmem : s.key ∈ (sys.gates k).shape.keys := List.mem_map_of_mem hs
  have hknows := (h.sound k).knows
  rw [h.id k] at hknows
  exact ⟨hknows.owned s.key hmem, hknows.here s.key hmem⟩

lemma Inv.forward (h : Inv sys) {dest : UInt16} {msg : List UInt8}
    (hdest : sys.master.owner dest = some k) {i : ℕ} {s : Service}
    (hs : ((sys.gates k).forward dest msg).objects[i]? = some s) (hremote : s.isLocal = false) :
    (sys.gates k).objects[i]? = some s := by
  simp only [Gate.forward] at hs
  split at hs
  · exact hs
  · next j hj =>
    simp only [Gate.write, Gate.modifyObject, List.getElem?_modify] at hs
    obtain ⟨old, hold, rfl⟩ := Option.map_eq_some_iff.mp hs
    split_ifs at hremote ⊢ with hji
    · subst hji
      obtain ⟨key, hkey, hkid⟩ := (h.sound k).knows.indexed.found dest j hj
      have hkey' : old.key = key := by
        simpa [Gate.shape, hold] using hkey
      have hlocal := h.key (List.mem_of_getElem? hold)
      have hid : old.id = dest := by
        rw [← hkid, ← hkey']
        rfl
      rw [hid, hdest] at hlocal
      have htrue := hlocal.2.mpr (Option.some.inj hlocal.1).symm
      simp [htrue] at hremote
    · exact hold

/-- A service has one owner for good; the owner alone has it as a local service, whoever else
knows it has it from the owner, and the owner passes none of its messages on. -/
theorem ownership_agreed (h : (machine pids addresses).Reachable sys) :
    (∀ as sys', (machine pids addresses).run sys as = some sys' →
      ∀ id g, sys.master.owner id = some g → sys'.master.owner id = some g) ∧
    (∀ k k', ∀ s ∈ (sys.gates k).objects, ∀ s' ∈ (sys.gates k').objects,
      s.isLocal = true → s'.isLocal = true → s.id = s'.id → k = k') ∧
    (∀ k, ∀ s ∈ (sys.gates k).objects, s.isLocal = true → sys.master.owner s.id = some k) ∧
    (∀ k, ∀ s ∈ (sys.gates k).objects, s.isLocal = false →
      sys.master.owner s.id = some s.gate) ∧
    (∀ k dest msg, sys.master.owner dest = some k → ∀ (i : ℕ) s,
      ((sys.gates k).forward dest msg).objects[i]? = some s → s.isLocal = false →
      (sys.gates k).objects[i]? = some s) := by
  have hinv := reachable_inv h
  have hlocal : ∀ k, ∀ s ∈ (sys.gates k).objects, s.isLocal = true →
      sys.master.owner s.id = some k := by
    intro k s hs hs'
    obtain ⟨hown, hhere⟩ := hinv.key hs
    rw [hown, hhere.mp hs']
  refine ⟨fun as sys' hrun => run_owner hinv hrun, ?_, hlocal, ?_, ?_⟩
  · intro k k' s hs s' hs' hl hl' hid
    have hk := hlocal k s hs hl
    rw [hid, hlocal k' s' hs' hl'] at hk
    exact (Option.some.inj hk).symm
  · exact fun k s hs _ => (hinv.key hs).1
  · exact fun k dest msg hdest i s => hinv.forward hdest

def twoGates : List Action :=
  [.connect 7 1, .accept 0 1 0, .receive 1 0, .deliver 7 1, .gate 7 1 .registered,
    .connect 8 1, .accept 1 2 0, .receive 2 0, .deliver 8 1, .gate 8 1 .registered,
    .deliver 7 1, .gate 7 1 (.accept 5), .gate 7 1 (.register 0 1 ⟨⟨70, 3, true⟩, 64, []⟩),
    .receive 1 0, .deliver 7 1, .gate 7 1 (.resume 0), .deliver 8 1]

theorem ownership_agreed_two : ∃ sys,
    (machine (fun _ => 0) fun _ => []).run (machine (fun _ => 0) fun _ => []).initial twoGates =
      some sys ∧ (sys.gates 7).localIds = [70] ∧ (sys.gates 8).localIds = [] ∧
    (sys.gates 8).typeIds 3 = [70] ∧
    ∃ s ∈ (sys.gates 8).objects, sys.master.owner 70 = some s.gate := by
  refine ⟨_, rfl, rfl, rfl, rfl, ?_⟩
  have hreachable : (machine (fun _ => 0) fun _ => []).Reachable _ := ⟨twoGates, rfl⟩
  have hremote := (ownership_agreed hreachable).2.2.2.1 8
  exact ⟨_, List.mem_singleton_self _, hremote _ (List.mem_singleton_self _) rfl⟩

end System

end Simple.Gobang
