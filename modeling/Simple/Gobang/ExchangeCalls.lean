import Simple.Gobang.ExchangePeers
import Simple.Gobang.Forwarding

/-! Calls over the gates: who has answered, and what is left when nothing is underway. -/

namespace Simple.Gobang

open Simple.Lib

namespace Mesh

variable {mesh mesh' : Mesh} {k : UInt16} {now i : ℕ} {msg : List UInt8} {sys : System}

structure Grows (mesh mesh' : Mesh) : Prop where
  entered : mesh'.entered = mesh.entered
  delivered : mesh.delivered <+: mesh'.delivered

lemma grows_refl (mesh : Mesh) : mesh.Grows mesh := ⟨rfl, List.prefix_rfl⟩

lemma grows_follow (mesh : Mesh) (k : UInt16) (sys : System) : mesh.Grows (mesh.follow k sys) := by
  rw [follow]
  generalize Traffic.handed (mesh.sys.gates k).traffic (sys.gates k).traffic = es
  have hstart : mesh.Grows { mesh with sys := sys } := ⟨rfl, List.prefix_rfl⟩
  generalize ({ mesh with sys := sys } : Mesh) = current at hstart
  induction es generalizing current with
  | nil => exact hstart
  | cons e es ih =>
    refine ih (current.write k e) ?_
    rw [write]
    split_ifs
    · exact ⟨hstart.entered, hstart.delivered.trans (List.prefix_append _ _)⟩
    · exact ⟨hstart.entered, hstart.delivered⟩

lemma grows_forward (h : mesh.forward k now msg = some mesh') : mesh.Grows mesh' := by
  rw [forward] at h
  split_ifs at h
  · obtain rfl := Option.some.inj h
    exact grows_refl mesh
  · obtain ⟨sys, -, rfl⟩ := Option.map_eq_some_iff.mp h
    exact grows_follow mesh k sys

lemma grows_arrive (hlong : forwardPart ≤ msg.length)
    (h : mesh.step (.arrive k now i msg) = some mesh') :
    Grows { mesh with entered := mesh.entered ++ [msg] } mesh' := by
  simp only [step] at h
  split_ifs at h with hlocal hshort
  · omega
  · exact grows_forward h

lemma grows_step {a : Action} (ha : ∀ k now i msg, a ≠ .arrive k now i msg)
    (h : mesh.step a = some mesh') : mesh.Grows mesh' := by
  cases a with
  | arrive k now i msg => exact absurd rfl (ha k now i msg)
  | connect k h' =>
    simp only [step] at h
    split_ifs at h
    obtain rfl := Option.some.inj h
    exact ⟨rfl, List.prefix_rfl⟩
  | lose k h' =>
    obtain rfl := Option.some.inj h
    exact ⟨rfl, List.prefix_rfl⟩
  | cut l n =>
    obtain rfl := Option.some.inj h
    exact ⟨rfl, List.prefix_rfl⟩
  | read l now =>
    simp only [step] at h
    split at h
    · cases h
    · split at h
      · cases h
      · split_ifs at h
        · obtain rfl := Option.some.inj h
          exact ⟨rfl, List.prefix_rfl⟩
        all_goals
          have hgrows := grows_forward h
          exact ⟨hgrows.entered, hgrows.delivered⟩
  | misread l now msg =>
    simp only [step] at h
    split_ifs at h
    obtain ⟨line, -, hforward⟩ := Option.bind_eq_some_iff.mp h
    exact grows_forward hforward
  | system a =>
    simp only [step] at h
    split at h
    · cases h
    · next sys _ =>
      have hfollow : ∀ k, mesh.Grows (mesh.follow k sys) := fun k => grows_follow mesh k sys
      cases a with
      | gate k now b =>
        cases b <;> first
          | exact Option.some.inj h ▸ hfollow k
          | cases h
      | connect k now => exact Option.some.inj h ▸ hfollow k
      | deliver k now => exact Option.some.inj h ▸ hfollow k
      | restart k pid addresses =>
        obtain rfl := Option.some.inj h
        exact ⟨rfl, List.prefix_rfl⟩
      | accept l s now =>
        obtain rfl := Option.some.inj h
        exact ⟨rfl, List.prefix_rfl⟩
      | receive s now =>
        obtain rfl := Option.some.inj h
        exact ⟨rfl, List.prefix_rfl⟩
      | stop s =>
        obtain rfl := Option.some.inj h
        exact ⟨rfl, List.prefix_rfl⟩

end Mesh

namespace Exchange

variable {services : UInt16 → ℕ} {n : ℕ} {lossless : Prop} {e e' : Exchange} {s : UInt16} {p : Peer}
  {msg : List UInt8} {a : Action}

structure Inv (services : UInt16 → ℕ) (n : ℕ) (lossless : Prop) (e : Exchange) : Prop where
  good : e.mesh.Good n False lossless
  peer : ∀ s, (e.peers s).Inv s (services s)
  sent : ∀ s, (e.mesh.entered.filter fun msg => forwardFrom msg = s) ++ (e.peers s).outbox =
    (e.peers s).written
  got : ∀ s, (e.peers s).got <+: e.inbox s

lemma Inv.delivered (h : Inv services n lossless e) (hmsg : msg ∈ e.inbox s) :
    forwardTo msg = s ∧ msg ∈ (e.peers (forwardFrom msg)).written := by
  obtain ⟨d, hd, rfl⟩ := List.mem_map.mp hmsg
  obtain ⟨hmem, hid⟩ := List.mem_filter.mp hd
  have hto : forwardTo d.2.2 = s := (h.good.inv.addressed d hmem).symm.trans (of_decide_eq_true hid)
  have hpipe : d.2.2 ∈ e.mesh.relay.pipe forwardTo forwardFrom (forwardFrom d.2.2) s := by
    rw [Mesh.pipe_eq_delivered]
    refine List.mem_append_left _ (List.mem_filter.mpr ⟨List.mem_map_of_mem hmem, ?_⟩)
    simp [hto]
  have hentered := (List.mem_filter.mp ((h.good.once _ _).subset hpipe)).1
  refine ⟨hto, ?_⟩
  rw [← h.sent]
  exact List.mem_append_left _ (List.mem_filter.mpr ⟨hentered, by simp⟩)

lemma Inv.ack (h : Inv services n lossless e) (hmsg : msg ∈ e.inbox s)
    (hack : IsAck (forwardId msg)) : ∃ req ∈ (e.peers s).asked,
      (req, msg) ∈ (e.peers (forwardFrom msg)).replies ∧ forwardTo req = forwardFrom msg ∧
      forwardSession msg = forwardSession req := by
  obtain ⟨hto, hwritten⟩ := h.delivered hmsg
  have hcallee := h.peer (forwardFrom msg)
  obtain ⟨req, hreply⟩ := (hcallee.written msg hwritten).2 hack
  obtain ⟨hreq, -, hback, hsession, hkind⟩ := hcallee.replies req msg hreply
  obtain ⟨hthere, hreqWritten⟩ := h.delivered ((h.got _).subset (hcallee.requests req hreq))
  have hfrom : forwardFrom req = s := hback.symm.trans hto
  rw [hfrom] at hreqWritten
  exact ⟨req, ((h.peer s).written req hreqWritten).1 (hkind hack), hreply, hthere, hsession⟩

lemma peers_setPeer {t : UInt16} : (e.setPeer s p).peers t = if t = s then p else e.peers t := by
  rw [setPeer]
  by_cases hts : t = s
  · subst hts
    simp
  · simp [hts]

lemma Inv.setPeer (h : Inv services n lossless e) (hp : p.Inv s (services s))
    (hsent : (e.mesh.entered.filter fun msg => forwardFrom msg = s) ++ p.outbox = p.written)
    (hgot : p.got <+: e.inbox s) : Inv services n lossless (e.setPeer s p) := by
  refine ⟨h.good, ?_, ?_, ?_⟩ <;> intro t <;> rw [peers_setPeer] <;> split_ifs with hts
  · exact hts ▸ hp
  · exact h.peer t
  · exact hts ▸ hsent
  · exact h.sent t
  · exact hts ▸ hgot
  · exact h.got t

lemma inbox_grows {mesh : Mesh} (h : e.mesh.delivered <+: mesh.delivered) :
    e.inbox s <+: ({ e with mesh := mesh }).inbox s := by
  exact (h.filter _).map _

lemma sent_write {entered : List (List UInt8)}
    (h : (entered.filter fun msg => forwardFrom msg = s) ++ p.outbox = p.written) :
    (entered.filter fun msg => forwardFrom msg = s) ++ (p.write msg).outbox = (p.write msg).written := by
  rw [Peer.write, ← List.append_assoc, h]

def Lossless : Action → Prop
  | .mesh a => Mesh.Lossless a
  | _ => True

/-- No service gives its gate a message of more than `n` bytes. -/
def Sized (n : ℕ) (e : Exchange) : Action → Prop
  | .arrive k _ i => ∀ o ∈ (e.mesh.sys.gates k).objects[i]?,
    ∀ msg ∈ (e.peers o.id).outbox.head?, msg.length ≤ n
  | _ => True

instance (n : ℕ) (e : Exchange) : DecidablePred (e.Sized n)
  | .arrive k _ i => inferInstanceAs (Decidable (∀ o ∈ (e.mesh.sys.gates k).objects[i]?,
      ∀ msg ∈ (e.peers o.id).outbox.head?, msg.length ≤ n))
  | .mesh _ | .receive _ | .call _ _ _ _ _ _ | .cancel _ _ | .note _ _ _ _ _
  | .reply _ _ _ _ => .isTrue trivial

instance : DecidablePred Lossless
  | .mesh a => inferInstanceAs (Decidable (Mesh.Lossless a))
  | .arrive _ _ _ | .receive _ | .call _ _ _ _ _ _ | .cancel _ _ | .note _ _ _ _ _
  | .reply _ _ _ _ => .isTrue trivial

lemma Inv.mesh {a : Mesh.Action} {mesh : Mesh} (h : Inv services n lossless e)
    (ha : ∀ k now i msg, a ≠ .arrive k now i msg)
    (hlossless : lossless → Mesh.Lossless a ∧ n ≤ msgLenLimit) (hstep : e.mesh.step a = some mesh) :
    Inv services n lossless { e with mesh := mesh } := by
  have hspeaks : e.mesh.Speaks a ∧ Mesh.Sized n a := by
    cases a with
    | arrive k now i msg => exact absurd rfl (ha k now i msg)
    | _ => exact ⟨trivial, trivial⟩
  have hgrows := Mesh.grows_step ha hstep
  refine ⟨Mesh.step_good h.good hspeaks.2 hspeaks.1 False.elim hlossless hstep, h.peer, fun s => ?_, fun s => ?_⟩
  · rw [hgrows.entered]
    exact h.sent s
  · exact (h.got s).trans (inbox_grows hgrows.delivered)

lemma Inv.arrive {k : UInt16} {now i : ℕ} {o : Service} {rest : List (List UInt8)} {mesh : Mesh}
    (h : Inv services n lossless e) (ho : (e.mesh.sys.gates k).objects[i]? = some o)
    (hout : (e.peers o.id).outbox = msg :: rest) (hsized : e.Sized n (.arrive k now i))
    (hlossless : lossless → n ≤ msgLenLimit)
    (hstep : e.mesh.step (.arrive k now i msg) = some mesh) :
    Inv services n lossless
      (({ e with mesh := mesh }).setPeer o.id { e.peers o.id with outbox := rest }) := by
  have hwritten : msg ∈ (e.peers o.id).written := by
    rw [← h.sent, hout]
    exact List.mem_append_right _ List.mem_cons_self
  obtain ⟨hfrom, hlong⟩ := (h.peer o.id).spoken msg hwritten
  have hspeaks : e.mesh.Speaks (.arrive k now i msg) := by
    intro s hs
    obtain rfl := Option.some.inj (ho.symm.trans hs)
    exact hfrom
  have hgrows := Mesh.grows_arrive hlong hstep
  have hlen : Mesh.Sized n (.arrive k now i msg) := hsized o ho msg (by simp [hout])
  have hgood := Mesh.step_good h.good hlen hspeaks False.elim
    (fun hl => ⟨trivial, hlossless hl⟩) hstep
  have hsent : ∀ s, (mesh.entered.filter fun msg => forwardFrom msg = s) =
      (e.mesh.entered.filter fun msg => forwardFrom msg = s) ++ if o.id = s then [msg] else [] := by
    intro s
    rw [hgrows.entered, List.filter_append, ← hfrom]
    congr 1
    split_ifs with hs <;> simp [hs]
  refine ⟨hgood, ?_, ?_, ?_⟩ <;> intro s <;> rw [peers_setPeer] <;> split_ifs with hs
  · exact hs ▸ (h.peer o.id).with_outbox rest
  · exact h.peer s
  · subst hs
    refine Eq.trans ?_ (h.sent o.id)
    rw [hout]
    refine (congrArg (· ++ rest) (hsent o.id)).trans ?_
    rw [if_pos rfl, List.append_assoc, List.singleton_append]
  · refine Eq.trans ?_ (h.sent s)
    refine (congrArg (· ++ _) (hsent s)).trans ?_
    rw [if_neg fun ho => hs ho.symm, List.append_nil]
  · exact hs ▸ (h.got o.id).trans (inbox_grows hgrows.delivered)
  · exact (h.got s).trans (inbox_grows hgrows.delivered)

lemma Inv.receive (h : Inv services n lossless e)
    (hmsg : (e.inbox s)[(e.peers s).got.length]? = some msg) :
    Inv services n lossless (e.setPeer s ((e.peers s).receive msg)) := by
  have hpeer : ((e.peers s).receive msg).Inv s (services s) := by
    refine (h.peer s).receive fun hack => ?_
    obtain ⟨req, hreq, -, -, hsession⟩ := h.ack (List.mem_of_getElem? hmsg) hack
    rw [hsession, ← (h.peer s).asked]
    exact List.mem_map_of_mem hreq
  have hsame : ((e.peers s).receive msg).outbox = (e.peers s).outbox ∧
      ((e.peers s).receive msg).written = (e.peers s).written ∧
      ((e.peers s).receive msg).got = (e.peers s).got ++ [msg] := by
    rw [Peer.receive]
    split
    · split <;> exact ⟨rfl, rfl, rfl⟩
    · exact ⟨rfl, rfl, rfl⟩
  refine h.setPeer hpeer ?_ ?_
  · rw [hsame.1, hsame.2.1]
    exact h.sent s
  · rw [hsame.2.2]
    obtain ⟨hlt, hget⟩ := List.getElem?_eq_some_iff.mp hmsg
    have htake := List.take_concat_get' (e.inbox s) _ hlt
    rw [← List.prefix_iff_eq_take.mp (h.got s), hget] at htake
    exact htake ▸ List.take_prefix _ _

lemma step_mesh {a : Mesh.Action} (h : e.step services (.mesh a) = some e') :
    (∀ k now i msg, a ≠ .arrive k now i msg) ∧
      ∃ mesh, e.mesh.step a = some mesh ∧ e' = { e with mesh := mesh } := by
  cases a with
  | arrive k now i msg => cases h
  | _ =>
    simp only [step] at h
    obtain ⟨mesh, hmesh, rfl⟩ := Option.map_eq_some_iff.mp h
    exact ⟨by simp, mesh, hmesh, rfl⟩

lemma step_inv (h : Inv services n lossless e) (hproper : e.Proper a) (hsized : e.Sized n a)
    (hlossless : lossless → Lossless a ∧ n ≤ msgLenLimit) (hstep : e.step services a = some e') : Inv services n lossless e' := by
  cases a with
  | mesh a =>
    obtain ⟨ha, mesh, hmesh, rfl⟩ := step_mesh hstep
    exact h.mesh ha hlossless hmesh
  | arrive k now i =>
    simp only [step] at hstep
    split at hstep
    · cases hstep
    · next o ho =>
      split at hstep
      · cases hstep
      · next msg rest hout =>
        obtain ⟨mesh, hmesh, rfl⟩ := Option.map_eq_some_iff.mp hstep
        exact h.arrive ho hout hsized (fun hl => (hlossless hl).2) hmesh
  | receive s =>
    obtain ⟨msg, hmsg, rfl⟩ := Option.map_eq_some_iff.mp hstep
    exact h.receive hmsg
  | call s dest id now body requested =>
    obtain rfl := Option.some.inj hstep
    refine h.setPeer ((h.peer s).call hproper.1 hproper.2.1 hproper.2.2) ?_ (h.got s)
    exact sent_write (h.sent s)
  | cancel s k =>
    obtain ⟨p, hp, rfl⟩ := Option.map_eq_some_iff.mp hstep
    have hpeer := (h.peer s).cancel hp
    obtain ⟨_, -, rfl⟩ := Option.map_eq_some_iff.mp hp
    exact h.setPeer hpeer (h.sent s) (h.got s)
  | note s dest id session body =>
    obtain rfl := Option.some.inj hstep
    refine h.setPeer ((h.peer s).write ?_ ?_ ?_ ?_) (sent_write (h.sent s)) (h.got s)
    · exact forwardFrom_initForwardBuffer
    · exact le_length_initForwardBuffer
    · rw [forwardId_initForwardBuffer]
      exact hproper.1
    · rw [forwardId_initForwardBuffer]
      exact hproper.2
  | reply s n id body =>
    obtain ⟨p, hp, rfl⟩ := Option.map_eq_some_iff.mp hstep
    have hpeer := (h.peer s).reply hproper.1 hproper.2 hp
    obtain ⟨_, -, rfl⟩ := Option.map_eq_some_iff.mp hp
    exact h.setPeer hpeer (sent_write (h.sent s)) (h.got s)

variable {pids : UInt16 → ℕ} {addresses : UInt16 → List GateAddress} {as : List Action}

lemma inv_initial (hn : n ≤ netLenMax) :
    Inv services n lossless (machine pids addresses services).initial :=
  ⟨Mesh.good_initial hn, fun _ => Peer.inv_initial, fun _ => rfl, fun _ => List.prefix_rfl⟩

lemma run_inv (hn : n ≤ netLenMax)
    (hproper : (machine pids addresses services).Along Proper (machine pids addresses services).initial
      as)
    (hsized : (machine pids addresses services).Along (Sized n)
      (machine pids addresses services).initial as)
    (hlossless : lossless → n ≤ msgLenLimit ∧ (machine pids addresses services).Along
      (fun _ => Lossless) (machine pids addresses services).initial as)
    (hrun : (machine pids addresses services).run (machine pids addresses services).initial as =
      some e) : Inv services n lossless e := by
  have hall := hproper.and (hsized.and (Machine.Along.of_imp fun hl => (hlossless hl).2))
  refine hall.invariant (I := Inv services n lossless) ?_ (inv_initial hn) hrun
  rintro e a e' h ⟨ha, hsized, hkeeps⟩ hstep
  exact step_inv h ha hsized (fun hl => ⟨hkeeps hl, (hlossless hl).1⟩) hstep

lemma Inv.asked_eq (h : Inv services n lossless e) {k : ℕ} {req : List UInt8}
    (hreq : req ∈ (e.peers s).asked)
    (hk : (e.peers s).calls.sessions[k]? = some (forwardSession req)) :
    (e.peers s).asked[k]? = some req := by
  obtain ⟨j, hj⟩ := List.mem_iff_getElem?.mp hreq
  have hsession : (e.peers s).calls.sessions[j]? = some (forwardSession req) := by
    rw [← (h.peer s).asked, List.getElem?_map, hj]
    rfl
  rw [← (h.peer s).calls.own hsession hk]
  exact hj

/-- Nothing of `f` is on its way to `d`. -/
def Settled (e : Exchange) (f d : UInt16) : Prop :=
  (e.peers f).outbox = [] ∧ e.mesh.underway f d = [] ∧ (e.peers d).got = e.inbox d

lemma Inv.got_of_written (h : Inv services n True e) {d : UInt16} (hsettled : e.Settled s d)
    (hmsg : msg ∈ (e.peers s).written) (hto : forwardTo msg = d) : msg ∈ (e.peers d).got := by
  obtain ⟨hout, hunderway, hgot⟩ := hsettled
  rw [← h.sent, hout, List.append_nil] at hmsg
  obtain ⟨hentered, hfrom⟩ := List.mem_filter.mp hmsg
  have hbetween : msg ∈ Mesh.between s d e.mesh.entered :=
    List.mem_filter.mpr ⟨hentered, by simpa [hto] using hfrom⟩
  have hpipe := ((h.good.kept trivial).2 s d).mem_iff.mpr hbetween
  rw [Mesh.pipe_eq_delivered, hunderway, List.append_nil] at hpipe
  obtain ⟨delivered, hdelivered, rfl⟩ := List.mem_map.mp (List.mem_filter.mp hpipe).1
  rw [hgot]
  refine List.mem_map.mpr ⟨delivered, List.mem_filter.mpr ⟨hdelivered, ?_⟩, rfl⟩
  rw [h.good.inv.addressed delivered hdelivered, hto]
  exact decide_eq_true rfl

/-- A call is answered once, by the service that it was made to, and with what this service has
replied to this call; whatever fails underway, and in whatever order the others do what they do. -/
theorem answered_by_callee
    (hproper : (machine pids addresses services).Along Proper (machine pids addresses services).initial
      as)
    (hsized : (machine pids addresses services).Along (Sized netLenMax)
      (machine pids addresses services).initial as)
    (hrun : (machine pids addresses services).run (machine pids addresses services).initial as =
      some e) (s : UInt16) :
    ((e.peers s).answers.map Prod.fst).Nodup ∧ ∀ k msg, (k, msg) ∈ (e.peers s).answers →
      ∃ req, (e.peers s).asked[k]? = some req ∧ forwardFrom msg = forwardTo req ∧
        (req, msg) ∈ (e.peers (forwardTo req)).replies := by
  have h : Inv services netLenMax False e :=
    run_inv le_rfl hproper hsized False.elim hrun
  refine ⟨(h.peer s).once, fun k msg hmem => ?_⟩
  obtain ⟨hgot, hack, hsession⟩ := (h.peer s).answers k msg hmem
  obtain ⟨req, hreq, hreply, hthere, hsame⟩ := h.ack ((h.got s).subset hgot) hack
  rw [hsame] at hsession
  exact ⟨req, h.asked_eq hreq hsession, hthere.symm, hthere ▸ hreply⟩

def askAndReply : List Action :=
  Mesh.twoServices.map (fun a => .mesh (.system a)) ++
    [.call 80 70 0x4001 100 [] false, .arrive 8 1 1, .mesh (.connect 8 7), .mesh (.read 0 1),
      .receive 70, .reply 70 0 0x5001 [5], .mesh (.system (.deliver 7 1)), .arrive 7 1 0,
      .mesh (.connect 7 8), .mesh (.read 1 1), .receive 80]

theorem answered_by_callee_five : ∃ e msg, (machine (fun _ => 0) (fun _ => []) fun _ => 0).run
      (machine (fun _ => 0) (fun _ => []) fun _ => 0).initial askAndReply = some e ∧
    (e.peers 80).answers = [(0, msg)] ∧ forwardFrom msg = 70 ∧ msg.drop forwardPart = [5] := by
  have hfine : (machine (fun _ => 0) (fun _ => []) fun _ => 0).Along
      (fun e a => e.Proper a ∧ e.Sized netLenMax a)
      (machine (fun _ => 0) (fun _ => []) fun _ => 0).initial askAndReply := by decide
  obtain ⟨e, hrun, hanswers, hasked⟩ : ∃ e, (machine (fun _ => 0) (fun _ => []) fun _ => 0).run
      (machine (fun _ => 0) (fun _ => []) fun _ => 0).initial askAndReply = some e ∧
      (e.peers 80).answers = [(0, initForwardBuffer 70 80 0x5001 (.ofNat (100 * 2 ^ 32 + 1)) [5])] ∧
      (e.peers 80).asked.map forwardTo = [70] := ⟨_, rfl, by decide, by decide⟩
  refine ⟨e, _, hrun, hanswers, ?_, by decide⟩
  obtain ⟨req, hreq, hfrom, -⟩ := (answered_by_callee (hfine.mono fun _ _ h => h.1)
    (hfine.mono fun _ _ h => h.2) hrun 80).2 0 _
    (hanswers ▸ List.mem_singleton_self _)
  have hto : ((e.peers 80).asked.map forwardTo)[0]? = some (forwardTo req) := by
    rw [List.getElem?_map, hreq]
    rfl
  rw [hasked] at hto
  exact hfrom.trans (Option.some.inj hto).symm

/-- As long as no connection and no gate fails and no message is above `msg_len_limit`: when nothing is on its way between a caller and its
callee, the call has been answered or cancelled, or the callee has its request and no ack for it. -/
theorem calls_settled
    (hproper : (machine pids addresses services).Along Proper (machine pids addresses services).initial
      as)
    (hsized : (machine pids addresses services).Along (Sized msgLenLimit)
      (machine pids addresses services).initial as)
    (hlossless : (machine pids addresses services).Along (fun _ => Lossless)
      (machine pids addresses services).initial as)
    (hrun : (machine pids addresses services).run (machine pids addresses services).initial as =
      some e) {s : UInt16} {k : ℕ} {req : List UInt8} (hk : (e.peers s).asked[k]? = some req)
    (hthere : e.Settled s (forwardTo req)) (hback : e.Settled (forwardTo req) s) :
    (∃ msg, (k, msg) ∈ (e.peers s).answers) ∨ k ∈ (e.peers s).cancelled ∨
      req ∈ (e.peers (forwardTo req)).requests ∧
        ∀ msg, (req, msg) ∈ (e.peers (forwardTo req)).replies → ¬IsAck (forwardId msg) := by
  have h : Inv services msgLenLimit True e :=
    run_inv Mesh.limit_le_max hproper hsized (fun _ => ⟨le_rfl, hlossless⟩) hrun
  obtain ⟨hreq, hwritten⟩ := (h.peer s).asks req (List.mem_of_getElem? hk)
  have hgot := h.got_of_written hthere hwritten rfl
  have hrequest := (h.peer _).handed req hgot hreq
  rw [← or_assoc, or_iff_not_imp_left]
  intro hopen
  refine ⟨hrequest, fun msg hreply hack => hopen ?_⟩
  obtain ⟨-, hanswered, hto, hsame, -⟩ := (h.peer _).replies req msg hreply
  have hfrom := ((h.peer s).spoken req hwritten).1
  have hsession : (e.peers s).calls.sessions[k]? = some (forwardSession msg) := by
    rw [← (h.peer s).asked, List.getElem?_map, hk, hsame]
    rfl
  have hheard := (h.peer s).heard msg (h.got_of_written hback hanswered (hto.trans hfrom)) hack k
    hsession
  refine hheard.imp_left fun hanswer => ?_
  obtain ⟨⟨j, answer⟩, hmem, hj⟩ := List.mem_map.mp hanswer
  obtain rfl : j = k := hj
  exact ⟨answer, hmem⟩

theorem calls_settled_five : ∃ e req, (machine (fun _ => 0) (fun _ => []) fun _ => 0).run
      (machine (fun _ => 0) (fun _ => []) fun _ => 0).initial askAndReply = some e ∧
    (e.peers 80).asked = [req] ∧ forwardTo req = 70 ∧
    ((∃ msg, (0, msg) ∈ (e.peers 80).answers) ∨ 0 ∈ (e.peers 80).cancelled ∨
      req ∈ (e.peers 70).requests ∧
        ∀ msg, (req, msg) ∈ (e.peers 70).replies → ¬IsAck (forwardId msg)) := by
  have hfine : (machine (fun _ => 0) (fun _ => []) fun _ => 0).Along
      (fun e a => e.Proper a ∧ e.Sized msgLenLimit a ∧ Lossless a)
      (machine (fun _ => 0) (fun _ => []) fun _ => 0).initial askAndReply := by decide
  let req := initForwardBuffer 80 70 0x4001 (.ofNat (100 * 2 ^ 32 + 1)) []
  obtain ⟨e, hrun, hasked, hthere, hback⟩ : ∃ e,
      (machine (fun _ => 0) (fun _ => []) fun _ => 0).run
        (machine (fun _ => 0) (fun _ => []) fun _ => 0).initial askAndReply = some e ∧
      (e.peers 80).asked = [req] ∧ e.Settled 80 (forwardTo req) ∧ e.Settled (forwardTo req) 80 :=
    ⟨_, rfl, by decide, ⟨by decide, by decide, by decide⟩, ⟨by decide, by decide, by decide⟩⟩
  refine ⟨e, req, hrun, hasked, by decide, ?_⟩
  have hk : (e.peers 80).asked[0]? = some req := by rw [hasked]; rfl
  have hto : forwardTo req = 70 := by decide
  rw [← hto]
  exact calls_settled (hfine.mono fun _ _ h => h.1) (hfine.mono fun _ _ h => h.2.1)
    (hfine.mono fun _ _ h => h.2.2) hrun hk hthere hback

end Exchange

end Simple.Gobang
