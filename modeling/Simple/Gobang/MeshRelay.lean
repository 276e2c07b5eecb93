import Simple.Gobang.Mesh

/-! The gates with their connections are a relay: whatever a gate does, its messages go where the
owners of their addresses are. -/

namespace Simple.Gobang

open Simple.Lib

namespace Mesh

variable {mesh mesh' : Mesh} {k : UInt16} {now : ℕ} {sys : System} {t t' : Traffic}
  {key : Key} {n : ℕ}

lemma foldl_write (queue : List (List UInt8)) :
    (queue.map fun msg => (key, msg)).foldl (write k) mesh =
      if key.isLocal then
        { mesh with delivered := mesh.delivered ++ queue.map fun msg => (k, key.id, msg) }
      else { mesh with wires := queue.foldl (Wires.post k key.gate) mesh.wires } := by
  induction queue generalizing mesh with
  | nil => split_ifs <;> simp
  | cons msg queue ih =>
    rw [List.map_cons, List.foldl_cons, ih, write]
    split_ifs
    · simp
    · rfl

lemma foldl_write_rest (es : List (Key × List UInt8)) :
    (es.foldl (write k) mesh).sys = mesh.sys ∧ (es.foldl (write k) mesh).garbled = mesh.garbled := by
  induction es generalizing mesh with
  | nil => exact ⟨rfl, rfl⟩
  | cons e es ih =>
    rw [List.foldl_cons, ih.1, ih.2, write]
    split_ifs <;> exact ⟨rfl, rfl⟩

lemma garbled_follow : (mesh.follow k sys).garbled = mesh.garbled := (foldl_write_rest _).2

lemma garbled_forward {msg : List UInt8} (h : mesh.forward k now msg = some mesh') :
    mesh'.garbled = mesh.garbled := by
  rw [forward] at h
  split_ifs at h
  · rw [Option.some.inj h]
  · obtain ⟨sys, -, rfl⟩ := Option.map_eq_some_iff.mp h
    exact garbled_follow

/-- The relay when gate `k` has come to `t`. -/
def relayAt (mesh : Mesh) (k : UInt16) (t : Traffic) : Relay UInt16 UInt16 (List UInt8) :=
  { mesh.relay with
    known := Function.update mesh.relay.known k t.known
    parked := Function.update mesh.relay.parked k t.parked }

lemma relayAt_same (hknown : t.known = mesh.relay.known k) (hparked : t.parked = mesh.relay.parked k) :
    relayAt mesh k t = mesh.relay := by
  rw [relayAt, hknown, hparked, Function.update_eq_self, Function.update_eq_self]

structure Fits (own : UInt16 → Option UInt16) (k : UInt16) (key : Key) : Prop where
  owned : own key.id = some key.gate
  here : key.isLocal = true ↔ key.gate = k

def Addressed (mesh : Mesh) : Prop := ∀ e ∈ mesh.delivered, e.2.1 = forwardTo e.2.2

lemma update₂_update {A V : Type} [DecidableEq A] (f : UInt16 → A → V) (g : A → V) (a : A) (v : V) :
    update₂ (Function.update f k g) k a v = Function.update f k (Function.update g a v) := by
  funext n x
  by_cases hn : n = k
  · subst hn
    by_cases hx : x = a
    · simp [hx]
    · rw [update₂_of_ne _ _ (fun h => hx h.2)]
      simp [hx]
  · rw [update₂_of_ne _ _ (fun h => hn h.1)]
    simp [hn]

/-- A gate that hears of services learns where they are, one after the other. -/
lemma learns_of_flow (hflow : Traffic.Flow t t') (ht : t = (mesh.sys.gates k).traffic)
    (hr : mesh.relay.Routed forwardTo) (ha : mesh.Addressed)
    (hkeys : ∀ key ∈ t'.keys, Fits mesh.sys.master.owner k key) :
    ∃ ids : List UInt16, (∀ id ∈ ids, mesh.sys.master.owner id ≠ none) ∧
      relayAt ((Traffic.handed t t').foldl (write k) mesh) k t' =
        ids.foldl (Relay.learn forwardTo k) mesh.relay ∧
      (relayAt ((Traffic.handed t t').foldl (write k) mesh) k t').Routed forwardTo ∧
      Addressed ((Traffic.handed t t').foldl (write k) mesh) := by
  have hpaired : t.Paired := ht ▸ Gate.traffic_paired
  induction hflow with
  | refl =>
    rw [Traffic.handed_nil rfl, List.foldl_nil, relayAt_same (by rw [ht]; rfl) (by rw [ht]; rfl)]
    exact ⟨[], nofun, rfl, hr, ha⟩
  | @add t' hflow key ih =>
    obtain ⟨ids, hids, heq, hrouted, haddressed⟩ :=
      ih fun x hx => hkeys x (List.mem_append_left _ hx)
    obtain ⟨hpaired', hle⟩ := hflow.paired hpaired
    have hfits := hkeys key (by simp [Traffic.add])
    rw [Traffic.handed_add hpaired hpaired' hle, List.foldl_append]
    set next := (Traffic.handed t t').foldl (write k) mesh with hnext
    have howner : next.sys.master.owner = mesh.sys.master.owner := by
      rw [hnext, (foldl_write_rest _).1]
    have hdest : ∀ msg ∈ t'.parked key.id, forwardTo msg = key.id := by
      intro msg hmsg
      apply hrouted.parked k key.id msg
      simpa [relayAt] using hmsg
    have hown : (relayAt next k t').owner key.id = some key.gate := by
      change next.sys.master.owner key.id = some key.gate
      rw [howner]
      exact hfits.owned
    have hparked : (relayAt next k t').parked k key.id = t'.parked key.id := by simp [relayAt]
    have hlearn : relayAt ((t'.parked key.id |>.map fun msg => (key, msg)).foldl (write k) next) k
        (t'.add key) = (relayAt next k t').learn forwardTo k key.id := by
      rw [Relay.learn, hparked, Relay.foldl_hand _ hdest (s := (relayAt next k t').unpark k key.id) hown,
        foldl_write]
      have hunpark : (relayAt next k t').unpark k key.id = { next.relay with
          known := Function.update next.relay.known k (t'.add key).known
          parked := Function.update next.relay.parked k (t'.add key).parked } := by
        simp only [Relay.unpark, relayAt, update₂_update, Traffic.add]
      rw [hunpark]
      by_cases hlocal : key.isLocal = true
      · rw [if_pos hlocal, if_pos (hfits.here.mp hlocal)]
        simp [relayAt, relay, Function.comp_def]
      · rw [if_neg hlocal, if_neg (mt hfits.here.mpr hlocal)]
        rfl
    refine ⟨ids ++ [key.id], ?_, ?_, ?_, ?_⟩
    · intro id hid
      rcases List.mem_append.mp hid with hid | hid
      · exact hids id hid
      · rw [List.mem_singleton.mp hid, hfits.owned]
        exact Option.some_ne_none _
    · rw [hlearn, heq, List.foldl_append]
      rfl
    · rw [hlearn]
      exact hrouted.learn k (by simp [hown])
    · rw [foldl_write]
      split_ifs
      · intro e he
        rcases List.mem_append.mp he with he | he
        · exact haddressed e he
        · obtain ⟨msg, hmsg, rfl⟩ := List.mem_map.mp he
          exact (hdest msg hmsg).symm
      · exact haddressed

def Within (n : ℕ) (msg : List UInt8) : Prop := forwardPart ≤ msg.length ∧ msg.length ≤ n

/-- What holds while the services give their gates no message of more than `n` bytes. -/
structure Inv (n : ℕ) (mesh : Mesh) : Prop where
  bound : n ≤ netLenMax
  sys : System.Inv mesh.sys
  routed : mesh.relay.Routed forwardTo
  sized : mesh.relay.All (Within n)
  addressed : mesh.Addressed
  garbled : mesh.garbled = []

lemma Inv.no_misread (h : mesh.Inv n) {l : ℕ} {msg : List UInt8} :
    mesh.step (.misread l now msg) = none := by
  simp [step, h.garbled]

lemma Inv.read_cases (h : mesh.Inv n) {l : ℕ} (hstep : mesh.step (.read l now) = some mesh') :
    ∃ line msg wires, mesh.wires.take l = some (line, msg, wires) ∧ Within n msg ∧
      Inv n { mesh with wires := wires } ∧
      (msgLenLimit < msg.length ∧ mesh' = { mesh with wires := mesh.wires.cut l 0 } ∨
        msg.length ≤ msgLenLimit ∧
          ({ mesh with wires := wires }).forward line.target now msg = some mesh') := by
  have hopen : l ∉ mesh.garbled := by simp [h.garbled]
  cases htake : mesh.wires.take l with
  | none =>
    simp only [step, if_neg hopen, htake] at hstep
    cases hstep
  | some taken =>
    obtain ⟨line, msg, wires⟩ := taken
    have ht := h.routed.wires.take htake
    obtain ⟨l₁, l₂, hhere, -, -⟩ := ht.here
    have hsub := h.routed.wires.take_sub htake
    have hwithin := h.sized.carried line.source line.target msg (by simp [hhere])
    have hlen : msg.length ≤ netLenMax := hwithin.2.trans h.bound
    have hmod : msg.length % 2 ^ 24 = msg.length := by
      apply Nat.mod_eq_of_lt
      rw [netLenMax] at hlen
      omega
    refine ⟨line, msg, wires, rfl, hwithin, ?_, ?_⟩
    · exact ⟨h.bound, h.sys, h.routed.wires_of ht.inv hsub, h.sized.wires_of hsub, h.addressed,
        h.garbled⟩
    · simp only [step, if_neg hopen, htake, hmod, if_pos hlen, List.take_length] at hstep
      split_ifs at hstep with hlimit
      · exact Or.inl ⟨hlimit, (Option.some.inj hstep).symm⟩
      · exact Or.inr ⟨not_lt.mp hlimit, hstep⟩

lemma fits_of_inv (h : System.Inv sys) {key : Key} (hk : key ∈ (sys.gates k).traffic.keys) :
    Fits sys.master.owner k key := by
  obtain ⟨s, hs, rfl⟩ := List.mem_map.mp hk
  exact ⟨(h.key hs).1, (h.key hs).2⟩

/-- `sys` after a step of gate `k` to `g`. -/
structure Turned (mesh : Mesh) (k : UInt16) (g : Gate) (sys : System) : Prop where
  master : sys.master = mesh.sys.master
  gates : sys.gates = Function.update mesh.sys.gates k { g with outbox := [] }

lemma Turned.traffic {g : Gate} (h : Turned mesh k g sys) :
    (sys.gates k).traffic = g.traffic := by
  rw [h.gates, Function.update_self]
  rfl

lemma turned_of_stepGate {sys' : System} {a : Gate.Action} (h : sys'.stepGate k now a = some sys)
    (hm : sys'.master = mesh.sys.master) (hg : sys'.gates = mesh.sys.gates) :
    ∃ g, Gate.Stepped (mesh.sys.gates k) (now, a) g ∧ Turned mesh k g sys := by
  obtain ⟨g, hstepped, -, rfl⟩ := System.stepGate_some h
  refine ⟨g, hg ▸ hstepped, hm, ?_⟩
  rw [← hg]
  rfl

lemma foldl_write_with (es : List (Key × List UInt8)) (mesh : Mesh) :
    es.foldl (write k) { mesh with sys := sys } = { es.foldl (write k) mesh with sys := sys } := by
  induction es generalizing mesh with
  | nil => rfl
  | cons e es ih =>
    have hwrite : write k { mesh with sys := sys } e = { write k mesh e with sys := sys } := by
      simp only [write]
      split_ifs <;> rfl
    rw [List.foldl_cons, hwrite, ih]
    rfl

lemma follow_eq {g : Gate} (ht : Turned mesh k g sys) : mesh.follow k sys =
    { (Traffic.handed (mesh.sys.gates k).traffic g.traffic).foldl (write k) mesh with sys := sys } := by
  rw [follow, ht.traffic, foldl_write_with]

lemma relay_follow {g : Gate} (ht : Turned mesh k g sys) :
    (mesh.follow k sys).relay = relayAt ((Traffic.handed (mesh.sys.gates k).traffic
      g.traffic).foldl (write k) mesh) k g.traffic := by
  rw [follow_eq ht]
  have hsys : ((Traffic.handed (mesh.sys.gates k).traffic g.traffic).foldl (write k) mesh).sys =
      mesh.sys := (foldl_write_rest _).1
  have hknown : (fun n => (sys.gates n).traffic.known) =
      Function.update (fun n => (mesh.sys.gates n).traffic.known) k g.traffic.known := by
    funext n
    rw [ht.gates]
    by_cases hn : n = k
    · subst hn
      simp only [Function.update_self]
      rfl
    · simp only [Function.update_of_ne hn]
  have hparked : (fun n => (sys.gates n).traffic.parked) =
      Function.update (fun n => (mesh.sys.gates n).traffic.parked) k g.traffic.parked := by
    funext n
    rw [ht.gates]
    by_cases hn : n = k
    · subst hn
      simp only [Function.update_self]
      rfl
    · simp only [Function.update_of_ne hn]
  simp only [relayAt, relay, hsys, hknown, hparked, ht.master]

inductive Relayed (mesh : Mesh) : Action → Relay UInt16 UInt16 (List UInt8) → Prop
  | learn {a : System.Action} {k : UInt16} {ids : List UInt16}
      (hids : ∀ id ∈ ids, mesh.sys.master.owner id ≠ none) :
      Relayed mesh (.system a) (ids.foldl (Relay.learn forwardTo k) mesh.relay)
  | assign {a : System.Action} {own : UInt16 → Option UInt16}
      (hown : ∀ id g, mesh.sys.master.owner id = some g → own id = some g) :
      Relayed mesh (.system a) { mesh.relay with owner := own }
  | restart {k : UInt16} {pid : ℕ} {addresses : List GateAddress} :
      Relayed mesh (.system (.restart k pid addresses)) (mesh.relay.restart k)
  | short {k : UInt16} {now i : ℕ} {msg : List UInt8} : Relayed mesh (.arrive k now i msg) mesh.relay
  | enter {k : UInt16} {now i : ℕ} {msg : List UInt8} {s : Service}
      (hs : (mesh.sys.gates k).objects[i]? = some s) (hlocal : s.isLocal = true)
      (hlong : forwardPart ≤ msg.length) :
      Relayed mesh (.arrive k now i msg) (mesh.relay.enter forwardTo k msg)
  | connect {k h : UInt16} :
      Relayed mesh (.connect k h) { mesh.relay with wires := mesh.wires.connect k h }
  | lose {k h : UInt16} : Relayed mesh (.lose k h) { mesh.relay with wires := mesh.wires.drop k h }
  | cut {l n : ℕ} : Relayed mesh (.cut l n) { mesh.relay with wires := mesh.wires.cut l n }
  | read {l now : ℕ} {s : Relay UInt16 UInt16 (List UInt8)}
      (hs : mesh.relay.read forwardTo l = some s) : Relayed mesh (.read l now) s
  | refuse {l now : ℕ} {line : Lib.Line UInt16 (List UInt8)} {msg : List UInt8}
      {wires : Wires UInt16 (List UInt8)} (htake : mesh.wires.take l = some (line, msg, wires))
      (hlimit : msgLenLimit < msg.length) :
      Relayed mesh (.read l now) { mesh.relay with wires := mesh.wires.cut l 0 }

lemma follow_learns {g : Gate} {a : Gate.Action} (h : mesh.Inv n) (hsys : System.Inv sys)
    (hstepped : Gate.Stepped (mesh.sys.gates k) (now, a) g) (ht : Turned mesh k g sys)
    (ha : ∀ dest msg, a ≠ .forward dest msg) (b : System.Action) :
    Relayed mesh (.system b) (mesh.follow k sys).relay ∧ (mesh.follow k sys).Addressed := by
  have hflow := hstepped.flow fun now' dest msg heq => ha dest msg (Prod.mk.inj heq).2
  have hkeys : ∀ key ∈ g.traffic.keys, Fits mesh.sys.master.owner k key := by
    intro key hkey
    rw [← ht.master]
    exact fits_of_inv hsys (ht.traffic ▸ hkey)
  obtain ⟨ids, hids, heq, -, haddressed⟩ := learns_of_flow hflow rfl h.routed h.addressed hkeys
  constructor
  · rw [relay_follow ht, heq]
    exact .learn hids
  · rw [follow_eq ht]
    exact haddressed

lemma relay_forward {msg : List UInt8} (h : mesh.Inv n) (hlong : forwardPart ≤ msg.length)
    (hf : mesh.forward k now msg = some mesh') :
    mesh'.relay = mesh.relay.dispatch forwardTo k msg ∧ mesh'.Addressed ∧
      mesh.sys.stepGate k now (.forward (forwardTo msg) msg) = some mesh'.sys := by
  rw [forward, if_neg (by omega)] at hf
  obtain ⟨sys, hsys, rfl⟩ := Option.map_eq_some_iff.mp hf
  obtain ⟨g, hstepped, ht⟩ := turned_of_stepGate hsys rfl rfl
  obtain rfl : g = (mesh.sys.gates k).forward (forwardTo msg) msg := by
    cases hstepped
    rfl
  suffices hwritten : relayAt ((Traffic.handed (mesh.sys.gates k).traffic
        ((mesh.sys.gates k).forward (forwardTo msg) msg).traffic).foldl (write k) mesh) k
        ((mesh.sys.gates k).forward (forwardTo msg) msg).traffic =
          mesh.relay.dispatch forwardTo k msg ∧
      Addressed ((Traffic.handed (mesh.sys.gates k).traffic
        ((mesh.sys.gates k).forward (forwardTo msg) msg).traffic).foldl (write k) mesh) by
    have hsame : (mesh.follow k sys).sys = sys := by rw [follow_eq ht]
    refine ⟨(relay_follow ht).trans hwritten.1, ?_, hsame.symm ▸ hsys⟩
    rw [follow_eq ht]
    exact hwritten.2
  cases hd : (mesh.sys.gates k).services.get (forwardTo msg) with
  | none =>
    have hknown : ¬ mesh.relay.known k (forwardTo msg) = true := by
      change ¬ ((mesh.sys.gates k).services.get (forwardTo msg)).isSome = true
      simp [hd]
    have hnil : Traffic.handed (mesh.sys.gates k).traffic
        ((mesh.sys.gates k).traffic.park (forwardTo msg) msg) = [] := Traffic.handed_nil rfl
    rw [Gate.traffic_forward_unknown hd, hnil, List.foldl_nil, Relay.dispatch_unknown hknown]
    refine ⟨?_, h.addressed⟩
    have hpark : update₂ mesh.relay.parked k (forwardTo msg)
          (mesh.relay.parked k (forwardTo msg) ++ [msg]) =
        Function.update mesh.relay.parked k (Function.update (mesh.relay.parked k) (forwardTo msg)
          (mesh.relay.parked k (forwardTo msg) ++ [msg])) := by
      rw [← update₂_update, Function.update_eq_self]
    have hsame : Function.update mesh.relay.known k
        ((mesh.sys.gates k).traffic.park (forwardTo msg) msg).known = mesh.relay.known :=
      Function.update_eq_self k mesh.relay.known
    rw [relayAt, Relay.park, hpark, hsame]
    rfl
  | some i =>
    have hknown : mesh.relay.known k (forwardTo msg) = true := by
      change ((mesh.sys.gates k).services.get (forwardTo msg)).isSome = true
      simp [hd]
    obtain ⟨key, hkey, hid⟩ := (h.sys.sound k).knows.indexed.found _ i hd
    have hfits := fits_of_inv h.sys (k := k) (List.mem_of_getElem? hkey)
    have hown : mesh.relay.owner (forwardTo msg) = some key.gate := hid ▸ hfits.owned
    have hone : [(key, msg)] = [msg].map fun msg => (key, msg) := rfl
    rw [Gate.traffic_forward_known hd, Traffic.handed_write Gate.traffic_paired hkey, hone,
      foldl_write, Relay.dispatch_known hknown hown]
    by_cases hlocal : key.isLocal = true
    · rw [if_pos hlocal, if_pos (hfits.here.mp hlocal)]
      refine ⟨(relayAt_same rfl rfl).trans ?_, ?_⟩
      · simp [relay]
      · intro e he
        rcases List.mem_append.mp he with he | he
        · exact h.addressed e he
        · obtain rfl := List.mem_singleton.mp he
          exact hid
    · rw [if_neg hlocal, if_neg (mt hfits.here.mpr hlocal)]
      exact ⟨relayAt_same rfl rfl, h.addressed⟩

lemma Inv.relay_read {l : ℕ} {line : Lib.Line UInt16 (List UInt8)} {msg : List UInt8}
    {wires : Wires UInt16 (List UInt8)} (h : Inv n { mesh with wires := wires })
    (htake : mesh.wires.take l = some (line, msg, wires)) (hwithin : Within n msg)
    (hf : ({ mesh with wires := wires }).forward line.target now msg = some mesh') :
    mesh.relay.read forwardTo l = some mesh'.relay := by
  have htake' : mesh.relay.wires.take l = some (line, msg, wires) := htake
  rw [Relay.read, htake', (relay_forward h hwithin.1 hf).1]
  rfl

lemma gates_of_master {a : System.Action} (h : mesh.sys.step a = some sys)
    (ha : (∃ l s now, a = .accept l s now) ∨ (∃ s now, a = .receive s now) ∨ ∃ s, a = .stop s) :
    sys.gates = mesh.sys.gates := by
  rcases ha with ⟨l, s, now, rfl⟩ | ⟨s, now, rfl⟩ | ⟨s, rfl⟩
  · simp only [System.step] at h
    split_ifs at h
    obtain ⟨m, -, rfl⟩ := Option.map_eq_some_iff.mp h
    rfl
  · simp only [System.step] at h
    split at h
    · cases h
    · obtain ⟨m, -, rfl⟩ := Option.map_eq_some_iff.mp h
      rfl
  · obtain ⟨m, -, rfl⟩ := Option.map_eq_some_iff.mp h
    rfl

lemma assigned {a : System.Action} (h : mesh.Inv n) (hsys : mesh.sys.step a = some sys)
    (hg : sys.gates = mesh.sys.gates) : Relayed mesh (.system a) (relay { mesh with sys := sys }) := by
  have hown := System.step_owner h.sys hsys
  have heq : relay { mesh with sys := sys } = { mesh.relay with owner := sys.master.owner } := by
    simp only [relay, hg]
  rw [heq]
  exact .assign hown

lemma restarted {pid : ℕ} {addresses : List GateAddress}
    (hsys : mesh.sys.step (.restart k pid addresses) = some sys) :
    Relayed mesh (.system (.restart k pid addresses))
      (relay { mesh with sys := sys, wires := mesh.wires.fail k }) := by
  obtain rfl := Option.some.inj hsys
  have heq : relay { mesh with
        sys := { mesh.sys with
          gates := Function.update mesh.sys.gates k { id := k, pid := pid, addresses := addresses } }
        wires := mesh.wires.fail k } = mesh.relay.restart k := by
    have hknown : (fun n => (Function.update mesh.sys.gates k
          ({ id := k, pid := pid, addresses := addresses } : Gate) n).traffic.known) =
        Function.update mesh.relay.known k fun _ => false := by
      funext n
      by_cases hn : n = k
      · subst hn
        simp only [Function.update_self]
        rfl
      · simp only [Function.update_of_ne hn]
        rfl
    have hparked : (fun n => (Function.update mesh.sys.gates k
          ({ id := k, pid := pid, addresses := addresses } : Gate) n).traffic.parked) =
        Function.update mesh.relay.parked k fun _ => [] := by
      funext n
      by_cases hn : n = k
      · subst hn
        simp only [Function.update_self]
        rfl
      · simp only [Function.update_of_ne hn]
        rfl
    simp only [relay, Relay.restart] at hknown hparked ⊢
    rw [hknown, hparked]
  rw [heq]
  exact .restart

lemma system_relayed {a : System.Action} (h : mesh.Inv n)
    (hstep : mesh.step (.system a) = some mesh') :
    Relayed mesh (.system a) mesh'.relay ∧ mesh'.Addressed ∧ mesh.sys.step a = some mesh'.sys := by
  simp only [step] at hstep
  split at hstep
  · cases hstep
  · next sys hsys =>
    have hinv := System.step_inv h.sys hsys
    have hlearn : ∀ (k : UInt16) (now : ℕ) (b : Gate.Action) (g : Gate),
        Gate.Stepped (mesh.sys.gates k) (now, b) g → Turned mesh k g sys →
        (∀ dest msg, b ≠ .forward dest msg) → mesh.follow k sys = mesh' →
        Relayed mesh (.system a) mesh'.relay ∧ mesh'.Addressed ∧ mesh.sys.step a = some mesh'.sys := by
      rintro k now b g hstepped ht hb rfl
      obtain ⟨hrelayed, haddressed⟩ := follow_learns h hinv hstepped ht hb a
      have hsame : (mesh.follow k sys).sys = sys := by rw [follow_eq ht]
      exact ⟨hrelayed, haddressed, hsame.symm ▸ hsys⟩
    cases a with
    | restart k pid addresses =>
      obtain rfl := Option.some.inj hstep
      exact ⟨restarted hsys, h.addressed, hsys⟩
    | gate k now b =>
      have hb : ∀ dest msg, b ≠ .forward dest msg := by
        rintro dest msg rfl
        cases hstep
      have hfollow : mesh.follow k sys = mesh' := by
        cases b <;> first | exact Option.some.inj hstep | cases hstep
      have hgate : mesh.sys.stepGate k now b = some sys := by
        simp only [System.step] at hsys
        split at hsys
        · cases hsys
        · cases hsys
        · exact hsys
      obtain ⟨g, hstepped, ht⟩ := turned_of_stepGate hgate rfl rfl
      exact hlearn k now b g hstepped ht hb hfollow
    | connect k now =>
      have hgate : System.stepGate { mesh.sys with links := mesh.sys.links ++ [{ gate := k }] } k now
          (.connect mesh.sys.links.length) = some sys := hsys
      obtain ⟨g, hstepped, ht⟩ := turned_of_stepGate hgate rfl rfl
      exact hlearn k now _ g hstepped ht (by simp) (Option.some.inj hstep)
    | deliver k now =>
      have hfollow := Option.some.inj hstep
      simp only [System.step] at hsys
      split at hsys
      · cases hsys
      · split at hsys
        · cases hsys
        · next msg rest _ =>
          obtain ⟨g, hstepped, ht⟩ := turned_of_stepGate hsys rfl rfl
          exact hlearn k now _ g hstepped ht (by simp) hfollow
    | accept l s now =>
      obtain rfl := Option.some.inj hstep
      exact ⟨assigned h hsys (gates_of_master hsys (Or.inl ⟨l, s, now, rfl⟩)), h.addressed, hsys⟩
    | receive s now =>
      obtain rfl := Option.some.inj hstep
      exact ⟨assigned h hsys (gates_of_master hsys (Or.inr (Or.inl ⟨s, now, rfl⟩))), h.addressed, hsys⟩
    | stop s =>
      obtain rfl := Option.some.inj hstep
      exact ⟨assigned h hsys (gates_of_master hsys (Or.inr (Or.inr ⟨s, rfl⟩))), h.addressed, hsys⟩

lemma step_relayed {a : Action} (h : mesh.Inv n) (hstep : mesh.step a = some mesh') :
    Relayed mesh a mesh'.relay ∧ mesh'.Addressed ∧ System.Inv mesh'.sys := by
  cases a with
  | system a =>
    obtain ⟨hrelayed, haddressed, hsys⟩ := system_relayed h hstep
    exact ⟨hrelayed, haddressed, System.step_inv h.sys hsys⟩
  | arrive k now i msg =>
    simp only [step] at hstep
    split_ifs at hstep with hlocal hshort
    · obtain rfl := Option.some.inj hstep
      exact ⟨.short, h.addressed, h.sys⟩
    · have hentered : Inv n { mesh with entered := mesh.entered ++ [msg] } :=
        ⟨h.bound, h.sys, ⟨h.routed.wires, h.routed.known, h.routed.parked, h.routed.learned,
          h.routed.carried, h.routed.delivered⟩, ⟨h.sized.parked, h.sized.carried⟩, h.addressed,
          h.garbled⟩
      obtain ⟨hrelay, haddressed, hsys⟩ := relay_forward hentered (by omega) hstep
      refine ⟨?_, haddressed, System.gate_inv h.sys hsys nofun nofun⟩
      rw [hrelay]
      cases hs : (mesh.sys.gates k).objects[i]? with
      | none => simp [hs] at hlocal
      | some s => exact .enter hs (by simpa [hs] using hlocal) (by omega)
  | connect k h' =>
    simp only [step] at hstep
    split_ifs at hstep
    obtain rfl := Option.some.inj hstep
    exact ⟨.connect, h.addressed, h.sys⟩
  | lose k h' =>
    obtain rfl := Option.some.inj hstep
    exact ⟨.lose, h.addressed, h.sys⟩
  | cut l n =>
    obtain rfl := Option.some.inj hstep
    exact ⟨.cut, h.addressed, h.sys⟩
  | read l now =>
    obtain ⟨line, msg, wires, htake, hwithin, htaken, ⟨hlimit, rfl⟩ | ⟨-, hforward⟩⟩ :=
      h.read_cases hstep
    · exact ⟨.refuse htake hlimit, h.addressed, h.sys⟩
    · obtain ⟨-, haddressed, hsys⟩ := relay_forward htaken hwithin.1 hforward
      exact ⟨.read (htaken.relay_read htake hwithin hforward), haddressed,
        System.gate_inv h.sys hsys nofun nofun⟩
  | misread l now msg => exact absurd hstep (by simp [h.no_misread])

lemma step_garbled {a : Action} (h : mesh.Inv n) (hstep : mesh.step a = some mesh') :
    mesh'.garbled = mesh.garbled := by
  cases a with
  | system a =>
    simp only [step] at hstep
    split at hstep
    · cases hstep
    · split at hstep <;> cases hstep <;> first | rfl | exact garbled_follow
  | arrive k now i msg =>
    simp only [step] at hstep
    split_ifs at hstep
    · rw [Option.some.inj hstep]
    · exact (garbled_forward hstep :)
  | connect k h' =>
    simp only [step] at hstep
    split_ifs at hstep
    rw [← Option.some.inj hstep]
  | lose k h' => rw [← Option.some.inj hstep]
  | cut l m => rw [← Option.some.inj hstep]
  | read l now =>
    obtain ⟨line, msg, wires, -, -, -, ⟨-, rfl⟩ | ⟨-, hforward⟩⟩ := h.read_cases hstep
    · rfl
    · exact (garbled_forward hforward :)
  | misread l now msg => exact absurd hstep (by simp [h.no_misread])

lemma learns_routed {ids : List UInt16} (h : mesh.relay.Routed forwardTo)
    (hsized : mesh.relay.All (Within n)) (hids : ∀ id ∈ ids, mesh.sys.master.owner id ≠ none) :
    (ids.foldl (Relay.learn forwardTo k) mesh.relay).Routed forwardTo ∧
      (ids.foldl (Relay.learn forwardTo k) mesh.relay).All (Within n) := by
  have hids' : ∀ id ∈ ids, mesh.relay.owner id ≠ none := hids
  generalize mesh.relay = s at h hsized hids'
  clear hids
  induction ids generalizing s with
  | nil => exact ⟨h, hsized⟩
  | cons id ids ih =>
    have hid := hids' id (by simp)
    refine ih _ (h.learn k hid) (hsized.learn h hid) ?_
    intro id' hid'
    rw [Relay.learn_owner]
    exact hids' id' (by simp [hid'])

lemma Relayed.inv {a : Action} {s : Relay UInt16 UInt16 (List UInt8)} (hr : Relayed mesh a s)
    (h : mesh.relay.Routed forwardTo) (hsized : mesh.relay.All (Within n)) (ha : Sized n a) :
    s.Routed forwardTo ∧ s.All (Within n) := by
  have hwires : ∀ w : Wires UInt16 (List UInt8), w.Inv →
      (∀ x y, ∀ m ∈ w.carried x y, m ∈ mesh.wires.carried x y) →
      Relay.Routed forwardTo { mesh.relay with wires := w } ∧
        Relay.All (Within n) { mesh.relay with wires := w } :=
    fun w hw hsub => ⟨h.wires_of hw hsub, hsized.wires_of hsub⟩
  have hcut : ∀ l m, Relay.Routed forwardTo { mesh.relay with wires := mesh.wires.cut l m } ∧
      Relay.All (Within n) { mesh.relay with wires := mesh.wires.cut l m } := by
    intro l m
    have hc := h.wires.cut l m
    exact hwires _ hc.inv fun x y _ hm => (hc.carried x y).subset hm
  cases hr with
  | learn hids => exact learns_routed h hsized hids
  | assign hown => exact ⟨h.assign hown, hsized.parked, hsized.carried⟩
  | restart => exact ⟨h.restart _, hsized.restart h _⟩
  | short => exact ⟨h, hsized⟩
  | @enter k now i msg s' hs hlocal hlong =>
    have hentered : Relay.All (Within n)
        { mesh.relay with entered := mesh.relay.entered ++ [msg] } := ⟨hsized.parked, hsized.carried⟩
    exact ⟨h.enter k msg, hentered.dispatch h.wires ⟨hlong, ha⟩⟩
  | @connect k h' =>
    have hc := h.wires.connect k h'
    exact hwires _ hc.inv fun x y m hm => hc.carried x y ▸ hm
  | @lose k h' =>
    have hd := h.wires.drop k h'
    exact hwires _ hd.inv fun x y m hm => hd.carried x y ▸ hm
  | cut => exact hcut _ _
  | read hs =>
    obtain ⟨⟨line, m, w⟩, htake, rfl⟩ := Option.map_eq_some_iff.mp hs
    have ht := h.wires.take htake
    have hsub := h.wires.take_sub htake
    obtain ⟨l₁, l₂, hhere, -, -⟩ := ht.here
    obtain ⟨hr', hs'⟩ := hwires w ht.inv hsub
    exact ⟨hr'.dispatch _ m, hs'.dispatch ht.inv
      (hsized.carried line.source line.target m (by simp [hhere]))⟩
  | refuse => exact hcut _ _

lemma step_inv {a : Action} (h : mesh.Inv n) (ha : Sized n a) (hstep : mesh.step a = some mesh') :
    mesh'.Inv n := by
  obtain ⟨hrelayed, haddressed, hsys⟩ := step_relayed h hstep
  obtain ⟨hrouted, hsized⟩ := hrelayed.inv h.routed h.sized ha
  exact ⟨h.bound, hsys, hrouted, hsized, haddressed, (step_garbled h hstep).trans h.garbled⟩

end Mesh

end Simple.Gobang
