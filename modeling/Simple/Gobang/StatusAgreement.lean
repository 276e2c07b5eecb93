import Simple.Gobang.Agreement
import Simple.Gobang.StatusReports

/-! What the gate master takes for the status of a service and what the gate has, when nothing is
on the way between them. -/

namespace Simple.Gobang

open Simple.Lib

def MasterRequest.isReport : MasterRequest → Bool
  | .register _ _ => true
  | .update _ _ => true
  | _ => false

def Upload.isDone : Upload → Bool
  | .done _ => true
  | .waiting _ => false

namespace System

def toMaster (sys : System) (l : ℕ) : List MasterRequest :=
  (sys.links[l]?.map MasterLink.toMaster).getD []

def toGate (sys : System) (l : ℕ) : List MasterMessage :=
  (sys.links[l]?.map MasterLink.toGate).getD []

def Heeded (sys : System) (l : ℕ) : Prop :=
  sys.links[l]?.map MasterLink.accepted = some false ∨
    ∃ e ∈ sys.master.sockets.toList, sys.route e.1 = l

def Registered (sys : System) (k : UInt16) : Prop :=
  (sys.gates k).phase = .running ∧
    ∃ e ∈ sys.master.sockets.toList, e.2.data = some k ∧
      (sys.gates k).socket = some (sys.route e.1)

/-- Nothing is on the way between the gate and the gate master, and no coroutine of the gate can
go on. -/
def Quiet (sys : System) (k : UInt16) : Prop :=
  (∀ l < sys.links.length, sys.linkGates[l]? = some k →
    (sys.Heeded l → (sys.toMaster l).isEmpty = true) ∧
      ((sys.gates k).socket = some l → (sys.toGate l).isEmpty = true)) ∧
    ∀ reg ∈ (sys.gates k).registrations, reg.upload.isDone = false

def Settled (sys : System) (k : UInt16) : Prop := sys.Registered k ∧ sys.Quiet k

def Agrees (sys : System) (k : UInt16) : Prop :=
  ∀ s ∈ (sys.gates k).objects, s.isLocal = true →
    (sys.master.services.get s.id).map ServiceData.online = some s.online

def Current (sys : System) : Action → Prop
  | .receive s _ => ∀ req ∈ (sys.toMaster (sys.route s)).head?, req.isReport = true →
      ∀ e ∈ sys.master.sockets.toList, e.2.data.isSome →
        sys.linkGates[sys.route e.1]? = sys.linkGates[sys.route s]? → sys.route e.1 ≤ sys.route s
  | .gate k now a => (sys.gates k).EntersNew (now, a)
  | _ => True

instance (sys : System) (l : ℕ) : Decidable (sys.Heeded l) := inferInstanceAs (Decidable (_ ∨ _))

instance (sys : System) (k : UInt16) : Decidable (sys.Registered k) :=
  inferInstanceAs (Decidable (_ ∧ _))

instance (sys : System) (k : UInt16) : Decidable (sys.Quiet k) :=
  inferInstanceAs (Decidable (_ ∧ _))

instance (sys : System) (k : UInt16) : Decidable (sys.Settled k) :=
  inferInstanceAs (Decidable (_ ∧ _))

instance (sys : System) (k : UInt16) : Decidable (sys.Agrees k) :=
  inferInstanceAs (Decidable (∀ s ∈ (sys.gates k).objects, _))

instance (sys : System) : DecidablePred sys.Current
  | .receive s _ => inferInstanceAs (Decidable (∀ req ∈ (sys.toMaster (sys.route s)).head?,
      req.isReport = true → ∀ e ∈ sys.master.sockets.toList, e.2.data.isSome →
        sys.linkGates[sys.route e.1]? = sys.linkGates[sys.route s]? →
          sys.route e.1 ≤ sys.route s))
  | .gate k now a => inferInstanceAs (Decidable ((sys.gates k).EntersNew (now, a)))
  | .restart _ _ _ | .connect _ _ | .deliver _ _ | .accept _ _ _ | .stop _ => .isTrue trivial

/-- A connection of the master ends the link, and the gate has registered on it. -/
def Synced (sys : System) (k : UInt16) (l : ℕ) : Prop :=
  ∃ t, sys.master.bindings t = some (some k) ∧ sys.route t = l

/-- The gate `k` is on the link `l`: its registration is the first request there, later ones are
notices, and once the master has read it, it has the status of the services from there. -/
structure Reported (sys : System) (k : UInt16) (l : ℕ) : Prop where
  newest : ∀ j : ℕ, sys.linkGates[j]? = some k → j ≤ l
  follows : Lib.Follows (sys.gates k).localFlags ((sys.toMaster l).flatMap MasterRequest.notes) ∅
    (sys.Synced k l) sys.master.flags
  notices : ∀ req ∈ (sys.toMaster l).tail, req.Notice
  head : ∀ req ∈ (sys.toMaster l).head?, req.Notice ∨ (∃ session info, req = .register session info) ∧
    ∀ t d, sys.master.bindings t = some d → sys.route t = l → d = none
  holder : ∀ t, sys.master.bindings t = some (some k) → sys.route t = l →
    sys.master.holder k = some t

structure Ledger (sys : System) : Prop where
  wired : ∀ k, (sys.gates k).Wired
  locals : ∀ k, (sys.gates k).localIds.Nodup
  accepted : ∀ t, (sys.master.bindings t).isSome →
    sys.links[sys.route t]?.map MasterLink.accepted = some true
  injective : ∀ t t', (sys.master.bindings t).isSome → (sys.master.bindings t').isSome →
    sys.route t = sys.route t' → t = t'
  reported : ∀ k l, (sys.gates k).socket = some l → Reported sys k l

variable {sys sys' : System} {k : UInt16} {l : ℕ} {now : ℕ}

lemma bindings_of_mem {e : UInt32 × SocketData} (h : e ∈ sys.master.sockets.toList) :
    sys.master.bindings e.1 = some e.2.data := by
  rw [GateMaster.bindings, Table.mem_toList.mp h, Option.map_some]

lemma mem_of_bindings {t : UInt32} {d : Option UInt16} (h : sys.master.bindings t = some d) :
    ∃ e ∈ sys.master.sockets.toList, e.1 = t ∧ e.2.data = d := by
  obtain ⟨c, hc, hd⟩ := Option.map_eq_some_iff.mp h
  exact ⟨(t, c), Table.mem_toList.mpr hc, rfl, hd⟩

lemma Ledger.agrees (h : Ledger sys) (hinv : Inv sys) (hs : sys.Settled k) : sys.Agrees k := by
  obtain ⟨⟨-, e, he, hdata, hsocket⟩, hquiet, -⟩ := hs
  have hr := h.reported k _ hsocket
  have hlink := hinv.socket k _ hsocket
  have hempty := (hquiet _ (lt_of_linkGates hlink) hlink).1 (Or.inr ⟨e, he, rfl⟩)
  have hfollows := hr.follows
  rw [List.isEmpty_iff.mp hempty] at hfollows
  intro s hs hlocal
  apply hfollows.settled ⟨e.1, hdata ▸ bindings_of_mem he, rfl⟩
  exact Gate.localFlags_of_mem (h.locals k) hs hlocal

lemma Reported.keep (h : Reported sys k l)
    (hlocal : (sys'.gates k).localFlags = (sys.gates k).localFlags)
    (hlinks : ∀ j : ℕ, sys'.linkGates[j]? = some k → sys.linkGates[j]? = some k)
    (hqueue : sys'.toMaster l = sys.toMaster l)
    (hbound : ∀ t d, sys'.master.bindings t = some d → sys'.route t = l →
      d = none ∨ sys.master.bindings t = some d ∧ sys.route t = l)
    (hkept : sys.Synced k l → sys'.Synced k l →
      (∀ id v, (sys.gates k).localFlags id = some v →
        sys'.master.flags id = sys.master.flags id) ∧ sys'.master.holder k = sys.master.holder k) :
    Reported sys' k l := by
  have hsynced : sys'.Synced k l → sys.Synced k l := by
    rintro ⟨t, ht, hroute⟩
    rcases hbound t _ ht hroute with hnone | hold
    · cases hnone
    · exact ⟨t, hold⟩
  refine ⟨fun j hj => h.newest j (hlinks j hj), ?_, hqueue ▸ h.notices, ?_, ?_⟩
  · rw [hlocal, hqueue]
    apply (h.follows.weaken hsynced).retable
    exact fun hs id v hid => (hkept (hsynced hs) hs).1 id v hid
  · intro req hreq
    refine (h.head req (hqueue ▸ hreq)).imp_right ?_
    rintro ⟨hregister, hnone⟩
    refine ⟨hregister, ?_⟩
    intro t d ht hroute
    rcases hbound t d ht hroute with hd | ⟨hold, hroute'⟩
    · exact hd
    · exact hnone t d hold hroute'
  · intro t ht hroute
    have hs : sys'.Synced k l := ⟨t, ht, hroute⟩
    rcases hbound t _ ht hroute with hnone | ⟨hold, hroute'⟩
    · cases hnone
    · rw [(hkept (hsynced hs) hs).2]
      exact h.holder t hold hroute'

lemma Ledger.changeGate (h : Ledger sys) {g : Gate} (hmaster : sys'.master = sys.master)
    (hroute : sys'.route = sys.route) (hgates : sys'.gates = Function.update sys.gates k g)
    (haccepted : ∀ l : ℕ, sys.links[l]?.map MasterLink.accepted = some true →
      sys'.links[l]?.map MasterLink.accepted = some true)
    (hlinks : ∀ k' ≠ k, ∀ j : ℕ, sys'.linkGates[j]? = some k' → sys.linkGates[j]? = some k')
    (hqueue : ∀ k' ≠ k, ∀ l, (sys.gates k').socket = some l → sys'.toMaster l = sys.toMaster l)
    (hwired : g.Wired) (hlocals : g.localIds.Nodup)
    (hreported : ∀ l, g.socket = some l → Reported sys' k l) : Ledger sys' := by
  have hall : ∀ {P : UInt16 → Gate → Prop}, (∀ k' ≠ k, P k' (sys.gates k')) → P k g →
      ∀ k', P k' (sys'.gates k') := by
    intro P hold hnew k'
    rw [hgates]
    by_cases hk : k' = k
    · rw [hk, Function.update_self]
      exact hnew
    · rw [Function.update_of_ne hk]
      exact hold k' hk
  refine ⟨?_, ?_, ?_, ?_, ?_⟩
  · exact hall (P := fun _ g => g.Wired) (fun k' _ => h.wired k') hwired
  · exact hall (P := fun _ g => g.localIds.Nodup) (fun k' _ => h.locals k') hlocals
  · rw [hmaster, hroute]
    exact fun t ht => haccepted _ (h.accepted t ht)
  · rw [hmaster, hroute]
    exact h.injective
  · apply hall (P := fun k' g => ∀ l, g.socket = some l → Reported sys' k' l) _ hreported
    intro k' hk l hl
    apply (h.reported k' l hl).keep _ (hlinks k' hk) (hqueue k' hk l hl)
    · rw [hmaster, hroute]
      exact fun t d ht hr => Or.inr ⟨ht, hr⟩
    · rw [hmaster]
      exact fun _ _ => ⟨fun _ _ _ => rfl, rfl⟩
    · rw [hgates, Function.update_of_ne hk]

variable {g : Gate} {a : Gate.Action}

lemma linkGates_setGate : (sys.setGate k g).linkGates = sys.linkGates := by
  simp only [setGate]
  split
  · rfl
  · exact linkGates_modify fun _ => rfl

lemma accepted_setGate : (sys.setGate k g).links[l]?.map MasterLink.accepted =
    sys.links[l]?.map MasterLink.accepted := by
  simp only [setGate]
  split
  · rfl
  · apply getElem?_modify_map
    exact fun _ => rfl

lemma toMaster_setGate_self (hl : g.socket = some l) (hlt : l < sys.links.length) :
    (sys.setGate k g).toMaster l = sys.toMaster l ++ g.outbox := by
  simp [setGate, hl, toMaster, hlt]

lemma toMaster_setGate_ne (hl : g.socket ≠ some l) :
    (sys.setGate k g).toMaster l = sys.toMaster l := by
  simp only [setGate]
  split
  · rfl
  · next j hj =>
    have hne : j ≠ l := fun heq => hl (hj.trans (congrArg some heq))
    simp [toMaster, hne]

lemma gates_setGate : (sys.setGate k g).gates k = { g with outbox := [] } :=
  Function.update_self _ _ _

lemma toMaster_setGate_other (hinv : Inv sys) (hsocket : ∀ l, g.socket = some l →
    sys.linkGates[l]? = some k) {k' : UInt16} (hk : k' ≠ k)
    (hl : (sys.gates k').socket = some l) : (sys.setGate k g).toMaster l = sys.toMaster l := by
  apply toMaster_setGate_ne
  intro hg
  have hlink := hsocket l hg
  rw [hinv.socket k' l hl] at hlink
  exact hk (Option.some.inj hlink)

lemma mem_tail_append {α : Type} {x : α} {q news : List α} (h : x ∈ (q ++ news).tail) :
    x ∈ q.tail ∨ x ∈ news := by
  cases q with
  | nil => exact Or.inr (List.mem_of_mem_tail h)
  | cons y q => exact List.mem_append.mp h

lemma Reported.gate (h : Reported sys k l) (hlt : l < sys.links.length) (hl : g.socket = some l)
    (hout : (sys.gates k).outbox = []) (hreports : (sys.gates k).Reports g) :
    Reported (sys.setGate k g) k l := by
  obtain ⟨news, houtbox, hnews, hcarries⟩ := hreports
  rw [hout, List.nil_append] at houtbox
  have hqueue := toMaster_setGate_self (k := k) hl hlt
  rw [houtbox] at hqueue
  refine ⟨?_, ?_, ?_, ?_, h.holder⟩
  · rw [linkGates_setGate]
    exact h.newest
  · rw [gates_setGate, hqueue, List.flatMap_append]
    exact hcarries _ _ _ h.follows
  · rw [hqueue]
    intro req hreq
    rcases mem_tail_append hreq with hreq | hreq
    · exact h.notices req hreq
    · exact hnews req hreq
  · rw [hqueue, List.head?_append]
    intro req hreq
    rcases Option.or_eq_some_iff.mp hreq with hreq | ⟨-, hreq⟩
    · exact h.head req hreq
    · exact Or.inl (hnews req (List.mem_of_head? hreq))

lemma Ledger.stepGate (h : Ledger sys) (hinv : Inv sys)
    (hg : Gate.Stepped (sys.gates k) (now, a) g) (hconnect : ∀ l, a ≠ .connect l)
    (hmsg : ∀ msg, a = .recv msg → (sys.gates k).wire.Hears sys.master.owner msg)
    (ha : (sys.gates k).EntersNew (now, a)) : Ledger (sys.setGate k g) := by
  have hsame : ∀ l, g.socket = some l → (sys.gates k).socket = some l := by
    intro l hl
    rcases hg.socket with hsame | hnone | ⟨now', link, heq⟩
    · rwa [hsame] at hl
    · simp [hnone] at hl
    · exact absurd (Prod.mk.inj heq).2 (hconnect link)
  have hsocket : ∀ l, g.socket = some l → sys.linkGates[l]? = some k :=
    fun l hl => hinv.socket k l (hsame l hl)
  refine h.changeGate (g := { g with outbox := [] }) rfl rfl rfl ?_ ?_ ?_ ?_ ?_ ?_
  · intro l hl
    rwa [accepted_setGate]
  · intro k' _ j hj
    rwa [linkGates_setGate] at hj
  · exact fun k' hk l hl => toMaster_setGate_other hinv hsocket hk hl
  · exact (hg.wired (h.wired k)).congr rfl
  · exact hg.nodup_localIds (h.locals k) ha
  · intro l (hl : g.socket = some l)
    apply (h.reported k l (hsame l hl)).gate (lt_of_linkGates (hsocket l hl)) hl (hinv.outbox k)
    apply hg.reports (hinv.sound k) (h.wired k) (h.locals k) ha hmsg
    · rw [hsame l hl]
      exact Option.some_ne_none l
    · rw [hl]
      exact Option.some_ne_none l

lemma Ledger.links (h : Ledger sys) {links : List MasterLink}
    (hgate : links.map MasterLink.gate = sys.links.map MasterLink.gate)
    (hqueue : links.map MasterLink.toMaster = sys.links.map MasterLink.toMaster)
    (haccepted : links.map MasterLink.accepted = sys.links.map MasterLink.accepted) :
    Ledger { sys with links := links } := by
  refine ⟨h.wired, h.locals, ?_, h.injective, ?_⟩
  · intro t ht
    rw [← List.getElem?_map, haccepted, List.getElem?_map]
    exact h.accepted t ht
  · intro k l hl
    refine (h.reported k l hl).keep ?_ ?_ ?_ ?_ ?_
    · rfl
    · intro j hj
      rwa [linkGates, hgate] at hj
    · simp only [toMaster, ← List.getElem?_map, hqueue]
    · exact fun t d ht hr => Or.inr ⟨ht, hr⟩
    · exact fun _ _ => ⟨fun _ _ _ => rfl, rfl⟩

lemma linkGates_addLink {j : ℕ} {k' : UInt16}
    (hj : (linkGates { sys with links := sys.links ++ [{ gate := k }] })[j]? = some k') :
    j ≤ sys.links.length ∧ (k' ≠ k → sys.linkGates[j]? = some k') := by
  rw [linkGates, List.map_append] at hj
  rcases lt_or_ge j (sys.links.map MasterLink.gate).length with hlt | hge
  · rw [List.getElem?_append_left hlt] at hj
    rw [List.length_map] at hlt
    exact ⟨hlt.le, fun _ => hj⟩
  · have hlt := (List.getElem?_eq_some_iff.mp hj).1
    rw [List.getElem?_append_right hge] at hj
    have hk : k' = k := List.mem_singleton.mp (List.mem_of_getElem? hj)
    simp only [List.length_append, List.length_map, List.map_cons, List.map_nil,
      List.length_singleton] at hlt
    exact ⟨Nat.lt_succ_iff.mp hlt, fun hne => absurd hk hne⟩

lemma Ledger.connect (h : Ledger sys) (hinv : Inv sys)
    (hstep : sys.step (.connect k now) = some sys') : Ledger sys' := by
  obtain ⟨g, hg, -, rfl⟩ := stepGate_some hstep
  set sys₁ : System := { sys with links := sys.links ++ [{ gate := k }] } with hsys₁
  have hold : ∀ l < sys.links.length, sys₁.links[l]? = sys.links[l]? :=
    fun l hl => List.getElem?_append_left hl
  have hlt : ∀ k' l, (sys.gates k').socket = some l → l < sys.links.length :=
    fun k' l hl => lt_of_linkGates (hinv.socket k' l hl)
  have hwired := hg.wired (h.wired k)
  have hlocals := hg.nodup_localIds (h.locals k) trivial
  cases hg with
  | connect hs =>
    refine h.changeGate (k := k) (g := { (sys.gates k).connect now sys.links.length with
      outbox := [] }) rfl rfl rfl ?_ ?_ ?_ (hwired.congr rfl) hlocals ?_
    · intro l hl
      obtain ⟨link, hlink, -⟩ := Option.map_eq_some_iff.mp hl
      rwa [accepted_setGate, hold l (List.getElem?_eq_some_iff.mp hlink).1]
    · intro k' hk j hj
      rw [linkGates_setGate] at hj
      exact (linkGates_addLink hj).2 hk
    · intro k' hk l hl
      have hne : ((sys.gates k).connect now sys.links.length).socket ≠ some l := by
        intro heq
        exact (hlt k' l hl).ne (Option.some.inj heq).symm
      rw [toMaster_setGate_ne hne, toMaster, hold l (hlt k' l hl)]
      rfl
    · rintro l ⟨⟩
      have hqueue : (sys₁.setGate k ((sys.gates k).connect now sys.links.length)).toMaster
          sys.links.length = [.register ((sys.gates k).rpc.createSession (sys.gates k).pid now).2
            ⟨(sys.gates k).id.toUInt32, (sys.gates k).localServices, (sys.gates k).addresses⟩] := by
        have houtbox : ((sys.gates k).connect now sys.links.length).outbox = (sys.gates k).outbox ++
            [.register ((sys.gates k).rpc.createSession (sys.gates k).pid now).2
              ⟨(sys.gates k).id.toUInt32, (sys.gates k).localServices, (sys.gates k).addresses⟩] := rfl
        rw [toMaster_setGate_self rfl (by simp [hsys₁])]
        simp [toMaster, hsys₁, houtbox, hinv.outbox k]
      have hfree : ∀ t d, sys.master.bindings t = some d → sys.route t ≠ sys.links.length := by
        intro t d ht heq
        obtain ⟨c, hc, -⟩ := Option.map_eq_some_iff.mp ht
        obtain ⟨k', hk', -⟩ := hinv.bound t c hc
        have hlt' := lt_of_linkGates hk'
        rw [heq] at hlt'
        exact hlt'.false
      refine ⟨?_, ?_, ?_, ?_, fun t ht heq => absurd heq (hfree t _ ht)⟩
      · intro j hj
        rw [linkGates_setGate] at hj
        exact (linkGates_addLink hj).1
      · rw [hqueue, List.flatMap_singleton, Gate.notes_register, gates_setGate]
        apply (Lib.Follows.nil.send_copy).weaken
        rintro ⟨t, ht, heq⟩
        exact hfree t _ ht heq
      · rw [hqueue]
        intro req hreq
        cases hreq
      · rw [hqueue]
        rintro req ⟨⟩
        exact Or.inr ⟨⟨_, _, rfl⟩, fun t d ht heq => absurd heq (hfree t d ht)⟩

lemma Ledger.deliver (h : Ledger sys) (hinv : Inv sys)
    (hstep : sys.step (.deliver k now) = some sys') : Ledger sys' := by
  simp only [step] at hstep
  split at hstep
  · cases hstep
  · next l hl =>
    split at hstep
    · cases hstep
    · next msg rest hmsgs =>
      obtain ⟨link, hlink, htoGate⟩ := link_of_queue hmsgs
      have hgate := gate_of_link (hinv.socket k l hl) hlink
      have hmsg := hinv.answered l link hlink msg (by simp [htoGate]) (hgate.symm ▸ hl)
      obtain ⟨g, hg, -, rfl⟩ := stepGate_some hstep
      have hread : Ledger { sys with links := sys.links.modify l fun link =>
          { link with toGate := rest } } := by
        apply h.links <;> exact map_modify fun _ => rfl
      apply hread.stepGate (hinv.unqueue hlink htoGate) hg
      · intro link heq
        cases heq
      · rintro _ ⟨⟩
        exact hgate ▸ hmsg
      · trivial

lemma Ledger.restart (h : Ledger sys) {pid : ℕ} {addresses : List GateAddress} :
    Ledger { sys with
      gates := Function.update sys.gates k { id := k, pid := pid, addresses := addresses } } :=
  h.changeGate rfl rfl rfl (fun _ hl => hl) (fun _ _ _ hj => hj) (fun _ _ _ _ => rfl)
    ⟨nofun, nofun⟩ List.nodup_nil nofun

variable {m : GateMaster} {s : UInt32} {time : ℤ}

lemma linkGates_setMaster : (sys.setMaster m).linkGates = sys.linkGates :=
  push_map fun _ _ => rfl

lemma toMaster_setMaster : (sys.setMaster m).toMaster l = sys.toMaster l := by
  have hmap : (sys.setMaster m).links.map MasterLink.toMaster = sys.links.map MasterLink.toMaster :=
    push_map fun _ _ => rfl
  simp only [toMaster, ← List.getElem?_map, hmap]

lemma accepted_setMaster : (sys.setMaster m).links[l]?.map MasterLink.accepted =
    sys.links[l]?.map MasterLink.accepted := by
  have hmap : (sys.setMaster m).links.map MasterLink.accepted = sys.links.map MasterLink.accepted :=
    push_map fun _ _ => rfl
  rw [← List.getElem?_map, hmap, List.getElem?_map]

lemma Ledger.accept (h : Ledger sys) (hinv : Inv sys)
    (hstep : sys.step (.accept l s time) = some sys') : Ledger sys' := by
  simp only [step] at hstep
  split_ifs at hstep with haccepted
  obtain ⟨m, hm, rfl⟩ := Option.map_eq_some_iff.mp hstep
  set sys₀ : System := { sys with
    links := sys.links.modify l fun link => { link with accepted := true }
    route := Function.update sys.route s l } with hsys₀
  have hnew : ∀ t, (sys.master.bindings t).isSome → sys.route t ≠ l := by
    rintro t ht rfl
    rw [h.accepted t ht] at haccepted
    exact haccepted rfl
  have hlink : sys₀.links[l]?.map MasterLink.accepted = some true := by
    cases hlink : sys.links[l]? with
    | none => simp [hlink] at haccepted
    | some link => simp [hsys₀, hlink]
  have hlinks : ∀ j ≠ l, sys₀.links[j]? = sys.links[j]? := by
    intro j hj
    simp [hsys₀, Ne.symm hj]
  have hgates : sys₀.linkGates = sys.linkGates := map_modify fun _ => rfl
  have hqueues : sys₀.links.map MasterLink.toMaster = sys.links.map MasterLink.toMaster :=
    map_modify fun _ => rfl
  have hroute : sys₀.route s = l := Function.update_self _ _ _
  have hroutes : ∀ t ≠ s, sys₀.route t = sys.route t := fun t ht => Function.update_of_ne ht _ _
  have hserved := (GateMaster.step_stepped hm).served hinv.tables
  cases hserved with
  | accept hs hflags hholder hbindings =>
    have hbound : ∀ t d, m.bindings t = some d →
        t = s ∧ d = none ∨ t ≠ s ∧ sys.master.bindings t = some d := by
      intro t d ht
      rw [hbindings] at ht
      by_cases hts : t = s
      · rw [hts, Function.update_self] at ht
        exact Or.inl ⟨hts, (Option.some.inj ht).symm⟩
      · rw [Function.update_of_ne hts] at ht
        exact Or.inr ⟨hts, ht⟩
    have hopen : ∀ t, (m.bindings t).isSome → t = s ∨ t ≠ s ∧ (sys.master.bindings t).isSome := by
      intro t ht
      obtain ⟨d, hd⟩ := Option.isSome_iff_exists.mp ht
      exact (hbound t d hd).imp And.left (And.imp_right fun hold => by rw [hold]; rfl)
    refine ⟨h.wired, h.locals, ?_, ?_, ?_⟩
    · intro t ht
      rw [accepted_setMaster]
      change sys₀.links[sys₀.route t]?.map MasterLink.accepted = some true
      rcases hopen t ht with rfl | ⟨hts, hold⟩
      · rwa [hroute]
      · rw [hroutes t hts, hlinks _ (hnew t hold)]
        exact h.accepted t hold
    · intro t t' ht ht' (heq : sys₀.route t = sys₀.route t')
      rcases hopen t ht with rfl | ⟨hts, hold⟩ <;> rcases hopen t' ht' with rfl | ⟨hts', hold'⟩
      · rfl
      · rw [hroute, hroutes t' hts'] at heq
        exact absurd heq.symm (hnew t' hold')
      · rw [hroute, hroutes t hts] at heq
        exact absurd heq (hnew t hold)
      · rw [hroutes t hts, hroutes t' hts'] at heq
        exact h.injective t t' hold hold' heq
    · intro k l' hl
      refine (h.reported k l' hl).keep ?_ ?_ ?_ ?_ ?_
      · rfl
      · intro j hj
        rwa [linkGates_setMaster, hgates] at hj
      · rw [toMaster_setMaster]
        simp only [toMaster, ← List.getElem?_map, hqueues]
      · intro t d ht (hr : sys₀.route t = l')
        rcases hbound t d ht with ⟨-, rfl⟩ | ⟨hts, hold⟩
        · exact Or.inl rfl
        · exact Or.inr ⟨hold, (hroutes t hts).symm.trans hr⟩
      · exact fun _ _ => ⟨fun id _ _ => congrFun hflags id, congrFun hholder k⟩

lemma Ledger.master (h : Ledger sys) {sys₀ : System} (hgates : sys₀.gates = sys.gates)
    (hroute : sys₀.route = sys.route)
    (haccepted : sys₀.links.map MasterLink.accepted = sys.links.map MasterLink.accepted)
    (hopen : ∀ t, (m.bindings t).isSome → (sys.master.bindings t).isSome)
    (hreported : ∀ k l, (sys.gates k).socket = some l → Reported (sys₀.setMaster m) k l) :
    Ledger (sys₀.setMaster m) := by
  have hgates' : (sys₀.setMaster m).gates = sys.gates := hgates
  have hroute' : (sys₀.setMaster m).route = sys.route := hroute
  refine ⟨hgates' ▸ h.wired, hgates' ▸ h.locals, ?_, ?_, hgates' ▸ hreported⟩
  · intro t ht
    rw [accepted_setMaster, hroute', ← List.getElem?_map, haccepted, List.getElem?_map]
    exact h.accepted t (hopen t ht)
  · intro t t' ht ht'
    rw [hroute']
    exact h.injective t t' (hopen t ht) (hopen t' ht')

lemma Inv.owner_local (hinv : Inv sys) {id : UInt16} {online : Bool}
    (hid : (sys.gates k).localFlags id = some online) : sys.master.owner id = some k := by
  obtain ⟨s, hs, rfl⟩ := List.mem_map.mp (Gate.mem_localIds hid)
  obtain ⟨hmem, hlocal⟩ := List.mem_filter.mp hs
  obtain ⟨hown, hhere⟩ := hinv.key hmem
  rw [hown, hhere.mp hlocal]

lemma Ledger.stop (h : Ledger sys) (hinv : Inv sys)
    (hstep : sys.step (.stop s) = some sys') : Ledger sys' := by
  obtain ⟨m, hm, rfl⟩ := Option.map_eq_some_iff.mp hstep
  have hserved := (GateMaster.step_stepped hm).served hinv.tables
  have hbound : ∀ {t d}, m.bindings = Function.update sys.master.bindings s none →
      m.bindings t = some d → t ≠ s ∧ sys.master.bindings t = some d := by
    intro t d hb ht
    rw [hb] at ht
    by_cases hts : t = s
    · simp [hts] at ht
    · exact ⟨hts, by rwa [Function.update_of_ne hts] at ht⟩
  have hopen : m.bindings = Function.update sys.master.bindings s none →
      ∀ t, (m.bindings t).isSome → (sys.master.bindings t).isSome := by
    intro hb t ht
    obtain ⟨d, hd⟩ := Option.isSome_iff_exists.mp ht
    rw [(hbound hb hd).2]
    rfl
  have hkeep : m.bindings = Function.update sys.master.bindings s none →
      (∀ k l, (sys.gates k).socket = some l → sys.Synced k l → (sys.setMaster m).Synced k l →
        (∀ id v, (sys.gates k).localFlags id = some v → m.flags id = sys.master.flags id) ∧
          m.holder k = sys.master.holder k) → Ledger (sys.setMaster m) := by
    intro hb hkept
    apply h.master rfl rfl rfl (hopen hb)
    intro k l hl
    refine (h.reported k l hl).keep ?_ ?_ toMaster_setMaster ?_ (hkept k l hl)
    · rfl
    · intro j hj
      rwa [linkGates_setMaster] at hj
    · exact fun t d ht hr => Or.inr ⟨(hbound hb ht).2, hr⟩
  cases hserved with
  | stop hs hflags hholder hbindings =>
    apply hkeep hbindings
    exact fun k l _ _ _ => ⟨fun id _ _ => congrFun hflags id, congrFun hholder k⟩
  | @disconnect _ _ g hs hg hflags hholder hbindings =>
    apply hkeep hbindings
    rintro k l hl - ⟨t, ht, hr⟩
    obtain ⟨hts, hold⟩ := hbound hbindings ht
    have hkg : k ≠ g := by
      rintro rfl
      have hholds := (h.reported k l hl).holder t hold hr
      rw [hg] at hholds
      exact hts (Option.some.inj hholds).symm
    refine ⟨?_, ?_⟩
    · intro id v hid
      apply hflags
      rw [hinv.owner_local hid]
      exact fun heq => hkg (Option.some.inj heq)
    · rw [hholder, Function.update_of_ne hkg]

lemma Inv.override_flags (hinv : Inv sys) {g id : UInt16} {online : Bool}
    {services : List ServiceInfo} (hcheck : sys.master.checkServices services g = true) (hne : g ≠ k)
    (hid : (sys.gates k).localFlags id = some online) :
    override sys.master.flags (collect (services.map ServiceInfo.entry)) id =
      sys.master.flags id := by
  cases hc : collect (services.map ServiceInfo.entry) id with
  | none => rw [override, hc, Option.none_or]
  | some v =>
    obtain ⟨info, hinfo, heq⟩ := List.mem_map.mp (mem_of_collect hc)
    obtain ⟨rfl, -⟩ := Prod.mk.inj heq
    obtain ⟨sd, hsd, hgate⟩ := Option.map_eq_some_iff.mp (hinv.owner_local hid)
    rw [GateMaster.checkServices_iff.mp hcheck info hinfo sd hsd] at hgate
    exact absurd hgate hne

lemma Reported.read (h : Reported sys k l) {req : MasterRequest} {rest : List MasterRequest}
    (hqueue : sys.toMaster l = req :: rest) (hqueue' : sys'.toMaster l = rest)
    (hgate : sys'.gates k = sys.gates k) (hlinks : sys'.linkGates = sys.linkGates)
    (hfollows : Lib.Follows (sys.gates k).localFlags (rest.flatMap MasterRequest.notes) ∅
      (sys'.Synced k l) sys'.master.flags)
    (hholder : ∀ t, sys'.master.bindings t = some (some k) → sys'.route t = l →
      sys'.master.holder k = some t) : Reported sys' k l := by
  have hnotices : ∀ req ∈ rest, req.Notice := by
    intro req' hreq'
    apply h.notices
    rwa [hqueue]
  refine ⟨hlinks ▸ h.newest, ?_, ?_, ?_, hholder⟩
  · rw [hgate, hqueue']
    exact hfollows
  · rw [hqueue']
    exact fun req' hreq' => hnotices req' (List.mem_of_mem_tail hreq')
  · rw [hqueue']
    exact fun req' hreq' => Or.inl (hnotices req' (List.mem_of_head? hreq'))

lemma notes_update (session : UInt64) (services : List ServiceInfo) :
    (MasterRequest.update session services).notes =
      (services.map ServiceInfo.entry).map fun e => .put e.1 e.2 := by
  rw [List.map_map]
  rfl

lemma Inv.follows_refused (hinv : Inv sys) {synced : Prop} {req : MasterRequest}
    {notes : List (Note UInt16 Bool)} {c : SocketData} (hc : c.data = some k)
    (hreq : sys.master.accepts c req = false) (hnotice : req.Notice)
    (h : Lib.Follows (sys.gates k).localFlags (req.notes ++ notes) ∅ synced sys.master.flags) :
    Lib.Follows (sys.gates k).localFlags notes ∅ synced sys.master.flags := by
  cases req with
  | register => exact hnotice.elim
  | update session services =>
    obtain ⟨info, rfl⟩ := hnotice
    apply h.skip_put
    cases hid : (sys.gates k).localFlags info.id.toUInt16 with
    | none => rfl
    | some online =>
      obtain ⟨sd, hsd, hgate⟩ := Option.map_eq_some_iff.mp (hinv.owner_local hid)
      simp [GateMaster.accepts, hc, GateMaster.checkServices, hsd, hgate] at hreq
  | ping => exact h
  | ignored => exact h

structure Reads (sys sys₀ : System) (s : UInt32) (req : MasterRequest) (rest : List MasterRequest) :
    Prop where
  gates : sys₀.gates = sys.gates
  route : sys₀.route = sys.route
  linkGates : sys₀.linkGates = sys.linkGates
  queue : sys.toMaster (sys.route s) = req :: rest
  queue' : sys₀.toMaster (sys.route s) = rest
  others : ∀ l ≠ sys.route s, sys₀.toMaster l = sys.toMaster l

variable {sys₀ : System} {req : MasterRequest} {rest : List MasterRequest} {g₀ : UInt16}

lemma Ledger.reported_other (h : Ledger sys) (hinv : Inv sys)
    (hread : Reads sys sys₀ s req rest) (hserved : GateMaster.Served sys.master (.recv s time req) m)
    (hcurrent : sys.Current (.receive s time)) (hlink : sys.linkGates[sys.route s]? = some g₀)
    (hbound : ∀ g, sys.master.bindings s = some (some g) → g = g₀)
    (hregister : ∀ session info, req = .register session info → info.id.toUInt16 = g₀)
    (hl : (sys.gates k).socket = some l) (hne : l ≠ sys.route s) :
    Reported (sys₀.setMaster m) k l := by
  have hr := h.reported k l hl
  -- a report over an older link is not read while the newest one is registered
  have hstale : sys.Synced k l → req.isReport = true → g₀ ≠ k := by
    rintro ⟨t, ht, hroute⟩ hreport rfl
    obtain ⟨e, he, rfl, hdata⟩ := mem_of_bindings ht
    have hle := hcurrent req (by rw [hread.queue]; rfl) hreport e he (by rw [hdata]; rfl)
      (by rw [hlink, hroute]; exact hinv.socket g₀ l hl)
    rw [hroute] at hle
    exact hne (le_antisymm hle (hr.newest _ hlink))
  refine hr.keep ?_ ?_ ?_ ?_ ?_
  · exact congrArg (fun gates => (gates k).localFlags) hread.gates
  · intro j hj
    rwa [linkGates_setMaster, hread.linkGates] at hj
  · rw [toMaster_setMaster, hread.others l hne]
  · intro t d ht (hroute : sys₀.route t = l)
    rw [hread.route] at hroute
    refine Or.inr ⟨hserved.bindings_of_ne ?_ ht, hroute⟩
    rintro rfl
    exact hne hroute.symm
  · intro hsynced _
    cases hserved with
    | refuse _ _ hflags hholder => exact ⟨fun id _ _ => congrFun hflags id, congrFun hholder k⟩
    | register _ hcheck hflags hholder =>
      have hgk := hregister _ _ rfl ▸ hstale hsynced rfl
      refine ⟨?_, ?_⟩
      · intro id v hid
        exact (congrFun hflags id).trans (hinv.override_flags hcheck hgk hid)
      · exact (congrFun hholder k).trans (Function.update_of_ne hgk.symm _ _)
    | upload hs hcheck hflags hholder =>
      have hgk := hbound _ hs ▸ hstale hsynced rfl
      refine ⟨?_, congrFun hholder k⟩
      intro id v hid
      exact (congrFun hflags id).trans (hinv.override_flags hcheck hgk hid)

lemma Ledger.synced_iff (h : Ledger sys) (hs : (sys.master.bindings s).isSome) :
    sys.Synced k (sys.route s) ↔ sys.master.bindings s = some (some k) := by
  constructor
  · rintro ⟨t, ht, hroute⟩
    obtain rfl := h.injective t s (by rw [ht]; rfl) hs hroute
    exact ht
  · exact fun ht => ⟨s, ht, rfl⟩

lemma Ledger.reported_self (h : Ledger sys) (hinv : Inv sys)
    (hread : Reads sys sys₀ s req rest) (hserved : GateMaster.Served sys.master (.recv s time req) m)
    (hregister : ∀ session info, req = .register session info → info.id.toUInt16 = k)
    (hl : (sys.gates k).socket = some (sys.route s)) :
    Reported (sys₀.setMaster m) k (sys.route s) := by
  have hr := h.reported k _ hl
  have hopen := hserved.isSome_bindings
  have hfollows := hr.follows
  have hhead := hr.head req (by rw [hread.queue]; rfl)
  rw [hread.queue, List.flatMap_cons] at hfollows
  have hqueue' : (sys₀.setMaster m).toMaster (sys.route s) = rest := by
    rw [toMaster_setMaster, hread.queue']
  have hlinks : (sys₀.setMaster m).linkGates = sys.linkGates := by
    rw [linkGates_setMaster, hread.linkGates]
  have hsynced : (sys₀.setMaster m).Synced k (sys.route s) →
      ∃ t, m.bindings t = some (some k) ∧ sys.route t = sys.route s := by
    rw [← hread.route]
    exact id
  have hsame : m.bindings = sys.master.bindings → (sys₀.setMaster m).Synced k (sys.route s) →
      sys.Synced k (sys.route s) := by
    intro hbindings hs
    obtain ⟨t, ht, hroute⟩ := hsynced hs
    exact ⟨t, hbindings ▸ ht, hroute⟩
  have hkept : m.bindings = sys.master.bindings → m.holder = sys.master.holder →
      ∀ t, (sys₀.setMaster m).master.bindings t = some (some k) →
        (sys₀.setMaster m).route t = sys.route s → (sys₀.setMaster m).master.holder k = some t := by
    intro hbindings hholder t ht (hroute : sys₀.route t = sys.route s)
    rw [hread.route] at hroute
    exact (congrFun hholder k).trans (hr.holder t (hbindings ▸ ht) hroute)
  have hnotice : sys.Synced k (sys.route s) → req.Notice := by
    intro hs
    rcases hhead with hnotice | ⟨-, hnone⟩
    · exact hnotice
    · cases hnone s _ ((h.synced_iff hopen).mp hs) rfl
  refine hr.read hread.queue hqueue' (congrFun hread.gates k) hlinks ?_ ?_
  · cases hserved with
    | @refuse _ _ _ _ c hs hreq hflags hholder hbindings =>
      have hflags' : (sys₀.setMaster m).master.flags = sys.master.flags := hflags
      rw [hflags']
      by_cases hs' : sys.Synced k (sys.route s)
      · have hc : c.data = some k := by
          have hdata := (h.synced_iff hopen).mp hs'
          rw [GateMaster.bindings, hs] at hdata
          exact Option.some.inj hdata
        exact (hinv.follows_refused hc hreq (hnotice hs') hfollows).weaken (hsame hbindings)
      · exact hfollows.skip fun hs => hs' (hsame hbindings hs)
    | register hs hcheck hflags hholder hbound' hbindings =>
      have hflags' : (sys₀.setMaster m).master.flags = _ := hflags
      rw [hflags']
      have htaken := hfollows.read_copy.take_over (Set.mem_insert _ _)
      exact (htaken.mono (Set.empty_subset _)).weaken fun _ => trivial
    | upload hs hcheck hflags hholder hbindings =>
      have hflags' : (sys₀.setMaster m).master.flags = _ := hflags
      rw [hflags']
      rw [notes_update] at hfollows
      refine (hfollows.read_puts ?_).weaken (hsame hbindings)
      exact fun _ _ w hw => absurd hw (Set.notMem_empty w)
  · cases hserved with
    | refuse hs hreq hflags hholder hbindings => exact hkept hbindings hholder
    | @register _ _ session info _ hs hcheck hflags hholder hbound' hbindings =>
      intro t ht (hroute : sys₀.route t = sys.route s)
      rw [hread.route] at hroute
      have hts : t = s := by
        by_contra hne
        have hold := hbindings t hne _ ht
        exact hne (h.injective t s (by rw [hold]; rfl) hopen hroute)
      have hk := hregister session info rfl
      refine (congrFun hholder k).trans ?_
      rw [hk, Function.update_self, hts]
    | upload hs hcheck hflags hholder hbindings => exact hkept hbindings hholder

lemma Ledger.receive (h : Ledger sys) (hinv : Inv sys) (hcurrent : sys.Current (.receive s time))
    (hstep : sys.step (.receive s time) = some sys') : Ledger sys' := by
  simp only [step] at hstep
  split at hstep
  · cases hstep
  · next req rest hreqs =>
    obtain ⟨m, hm, rfl⟩ := Option.map_eq_some_iff.mp hstep
    obtain ⟨link, hlink, htoMaster⟩ := link_of_queue hreqs
    have hgate : sys.linkGates[sys.route s]? = some link.gate := by
      rw [linkGates, List.getElem?_map, hlink]
      rfl
    have hserved := (GateMaster.step_stepped hm).served hinv.tables
    have hread : Reads sys { sys with links := sys.links.modify (sys.route s) fun link =>
        { link with toMaster := rest } } s req rest := by
      refine ⟨rfl, rfl, linkGates_modify fun _ => rfl, hreqs, ?_, ?_⟩
      · simp [toMaster, hlink]
      · intro l hl
        simp [toMaster, Ne.symm hl]
    have hbound : ∀ g, sys.master.bindings s = some (some g) → g = link.gate := by
      intro g hg
      obtain ⟨c, hc, hdata⟩ := Option.map_eq_some_iff.mp hg
      obtain ⟨k, hk, hkdata⟩ := hinv.bound s c hc
      rw [← hkdata g hdata]
      exact Option.some.inj (hk.symm.trans hgate)
    have hregister : ∀ session info, req = .register session info →
        info.id.toUInt16 = link.gate := by
      have hmem : req ∈ link.toMaster := by
        rw [htoMaster]
        exact List.mem_cons_self
      exact (hinv.asked _ link hlink req hmem).register
    refine h.master hread.gates hread.route (map_modify fun _ => rfl) ?_ ?_
    · intro t ht
      by_cases hts : t = s
      · rw [hts]
        exact hserved.isSome_bindings
      · obtain ⟨d, hd⟩ := Option.isSome_iff_exists.mp ht
        rw [hserved.bindings_of_ne hts hd]
        rfl
    · intro k l hl
      by_cases hne : l = sys.route s
      · subst hne
        obtain rfl := Option.some.inj (hgate.symm.trans (hinv.socket k _ hl))
        exact h.reported_self hinv hread hserved hregister hl
      · exact h.reported_other hinv hread hserved hcurrent hgate hbound hregister hl hne

lemma Ledger.step (h : Ledger sys) (hinv : Inv sys) {a : Action} (ha : sys.Current a)
    (hstep : sys.step a = some sys') : Ledger sys' := by
  cases a with
  | restart k pid addresses =>
    obtain rfl := Option.some.inj hstep
    exact h.restart
  | gate k now a =>
    simp only [System.step] at hstep
    split at hstep
    · cases hstep
    · cases hstep
    · next hconnect hrecv =>
      obtain ⟨g, hg, -, rfl⟩ := stepGate_some hstep
      exact h.stepGate hinv hg hconnect (fun msg heq => absurd heq (hrecv msg)) ha
  | connect k now => exact h.connect hinv hstep
  | deliver k now => exact h.deliver hinv hstep
  | accept l s time => exact h.accept hinv hstep
  | receive s time => exact h.receive hinv ha hstep
  | stop s => exact h.stop hinv hstep

variable (pids : UInt16 → ℕ) (addresses : UInt16 → List GateAddress)

lemma ledger_initial : Ledger (machine pids addresses).initial :=
  ⟨fun _ => ⟨nofun, nofun⟩, fun _ => List.nodup_nil, nofun, nofun, nofun⟩

/-- Along a run that reads no report of a gate from an older connection than one it has registered
on, and enters no local service twice, the gate master has the status of every local service of a
gate that is registered with nothing on the way. -/
theorem agrees_of_current (as : List Action)
    (h : (machine pids addresses).Along Current (machine pids addresses).initial as) :
    (machine pids addresses).Always (fun sys => ∀ k, sys.Settled k → sys.Agrees k)
      (machine pids addresses).initial as := by
  refine Machine.always_of_along (I := fun sys => Inv sys ∧ Ledger sys) ?_ ?_
    ⟨inv_initial pids addresses, ledger_initial pids addresses⟩ h
  · exact fun sys h k hs => h.2.agrees h.1 hs
  · rintro sys a sys' ⟨hinv, h⟩ ha hstep
    exact ⟨step_inv hinv hstep, h.step hinv ha hstep⟩

def joined : List Action :=
  [.connect 7 1, .accept 0 1 0, .receive 1 0, .deliver 7 1, .gate 7 1 .registered,
    .gate 7 1 (.accept 5), .gate 7 1 (.register 0 1 ⟨⟨70, 3, true⟩, 64, []⟩),
    .receive 1 0, .deliver 7 1, .gate 7 1 (.resume 0), .receive 1 0, .deliver 7 1]

theorem agrees_of_current_joined : ∃ sys,
    (machine (fun _ => 0) fun _ => []).run (machine (fun _ => 0) fun _ => []).initial joined =
      some sys ∧ sys.Settled 7 ∧ (sys.gates 7).localIds = [70] ∧ sys.Agrees 7 := by
  have halong := agrees_of_current (fun _ => 0) (fun _ => []) joined (by decide)
  refine ⟨_, rfl, ?_, rfl, ?_⟩
  · decide
  · exact halong.last rfl 7 (by decide)

/-- The last report of the connection that was lost is read after the registration on the next. -/
theorem reported_late : ∃ sys,
    (machine (fun _ => 0) fun _ => []).run (machine (fun _ => 0) fun _ => []).initial
      (joined ++ [.gate 7 1 (.stop 0), .gate 7 1 .lose, .gate 7 1 (.accept 6),
        .gate 7 1 (.register 1 1 ⟨⟨70, 3, true⟩, 64, []⟩), .connect 7 1, .accept 1 2 0,
        .receive 2 0, .receive 1 0, .deliver 7 1, .gate 7 1 .registered]) = some sys ∧
      sys.Settled 7 ∧ ¬ sys.Agrees 7 := by
  refine ⟨_, rfl, ?_, ?_⟩ <;> decide

end System

end Simple.Gobang
