import Simple.Gobang.MeshRelay

/-! A message that a service sends to another one arrives at the owner of that service and nowhere
else, over one connection, at most once, in order, and surely unless a connection or a gate fails. -/

namespace Simple.Gobang

open Simple.Lib

namespace Mesh

/-- The messages from `f` to `d` -/
def between (f d : UInt16) (msgs : List (List UInt8)) : List (List UInt8) :=
  msgs.filter fun msg => forwardFrom msg = f ∧ forwardTo msg = d

def deliveredMessages (mesh : Mesh) : List (List UInt8) := mesh.delivered.map fun e => e.2.2

/-- At the gate of `d`, on the way there, and at the gate of `f` -/
def underway (mesh : Mesh) (f d : UInt16) : List (List UInt8) :=
  mesh.relay.underway forwardTo forwardFrom f d

/-- Services send in their own name. -/
def Speaks (mesh : Mesh) : Action → Prop
  | .arrive k _ i msg =>
    ∀ s ∈ (mesh.sys.gates k).objects[i]?, forwardFrom msg = s.id
  | _ => True

/-- A connection is read after the older ones between the same gates. -/
def Orderly (mesh : Mesh) : Action → Prop
  | .read l _ => mesh.wires.First l
  | _ => True

def Lossless : Action → Prop
  | .cut _ _ => False
  | .system (.restart _ _ _) => False
  | _ => True

instance (mesh : Mesh) : DecidablePred mesh.Speaks
  | .arrive k _ i msg => inferInstanceAs
      (Decidable (∀ s ∈ (mesh.sys.gates k).objects[i]?, forwardFrom msg = s.id))
  | .system _ | .connect _ _ | .lose _ _ | .cut _ _ | .read _ _ | .misread _ _ _ => .isTrue trivial

instance (mesh : Mesh) : DecidablePred mesh.Orderly
  | .read l _ => inferInstanceAs (Decidable (mesh.wires.First l))
  | .system _ | .arrive _ _ _ _ | .connect _ _ | .lose _ _ | .cut _ _ | .misread _ _ _ => .isTrue trivial

instance : DecidablePred Lossless
  | .cut _ _ | .system (.restart _ _ _) => .isFalse id
  | .system (.gate _ _ _) | .system (.connect _ _) | .system (.deliver _ _) | .system (.accept _ _ _)
  | .system (.receive _ _) | .system (.stop _) | .arrive _ _ _ _ | .connect _ _ | .lose _ _
  | .read _ _ | .misread _ _ _ => .isTrue trivial

variable {mesh mesh' : Mesh} {f d : UInt16} {a : Action} {n : ℕ} {fair lossless : Prop}

lemma limit_le_max : msgLenLimit ≤ netLenMax := by decide

lemma Sized.mono {m : ℕ} (h : Sized m a) (hmn : m ≤ n) : Sized n a := by
  cases a with
  | arrive k now i msg => exact le_trans h hmn
  | _ => trivial

lemma learns_moves {k : UInt16} {ids : List UInt16} {s : Relay UInt16 UInt16 (List UInt8)}
    (hr : s.Routed forwardTo) (hs : s.Spoken forwardTo forwardFrom)
    (hids : ∀ id ∈ ids, s.owner id ≠ none) :
    Relay.Moves forwardTo forwardFrom fair lossless [] s (ids.foldl (Relay.learn forwardTo k) s) := by
  induction ids generalizing s with
  | nil => exact .refl hr hs
  | cons id ids ih =>
    have hid := hids id (by simp)
    have hfirst : Relay.Moves forwardTo forwardFrom fair lossless [] s (s.learn forwardTo k id) :=
      .learn hr hs k hid
    refine hfirst.trans (ih hfirst.routed hfirst.spoken ?_)
    intro id' hid'
    rw [Relay.learn_owner]
    exact hids id' (by simp [hid'])

lemma Relayed.moves {s : Relay UInt16 UInt16 (List UInt8)} (hr : Relayed mesh a s) (h : mesh.Inv n)
    (hs : mesh.relay.Spoken forwardTo forwardFrom) (hspeaks : Speaks mesh a) :
    ∃ new, Relay.Moves forwardTo forwardFrom (Orderly mesh a) (Lossless a ∧ n ≤ msgLenLimit) new
      mesh.relay s := by
  cases hr with
  | @learn a k ids hids =>
    exact ⟨[], learns_moves h.routed hs hids⟩
  | assign hown => exact ⟨[], .assign h.routed hs hown⟩
  | restart => exact ⟨[], (Relay.Moves.restart h.routed hs _).mono id And.left⟩
  | short => exact ⟨[], .refl h.routed hs⟩
  | @enter k now i msg s hs' hlocal hlong =>
    have hfrom : mesh.relay.owner (forwardFrom msg) = some k := by
      rw [hspeaks s hs']
      obtain ⟨hown, hhere⟩ := h.sys.key (List.mem_of_getElem? hs')
      exact hown.trans (congrArg some (hhere.mp hlocal))
    exact ⟨[msg], .enter h.routed hs hfrom⟩
  | connect => exact ⟨[], .same h.routed hs (h.routed.wires.connect _ _)⟩
  | lose => exact ⟨[], .same h.routed hs (h.routed.wires.drop _ _)⟩
  | cut => exact ⟨[], (Relay.Moves.thinned h.routed hs (h.routed.wires.cut _ _)).mono id And.left⟩
  | read hs' => exact ⟨[], .read h.routed hs hs'⟩
  | @refuse l now line msg wires htake hlimit =>
    obtain ⟨l₁, l₂, hhere, -, -⟩ := (h.routed.wires.take htake).here
    have hlen := (h.sized.carried line.source line.target msg (by simp [hhere])).2
    refine ⟨[], (Relay.Moves.thinned h.routed hs (h.routed.wires.cut l 0)).mono id ?_⟩
    exact fun hl => absurd hlen (not_le.mpr (hl.2.trans_lt hlimit))

structure Good (n : ℕ) (fair lossless : Prop) (mesh : Mesh) : Prop where
  inv : mesh.Inv n
  spoken : mesh.relay.Spoken forwardTo forwardFrom
  once : ∀ f d, (mesh.relay.pipe forwardTo forwardFrom f d).Subperm (between f d mesh.entered)
  ordered : fair → ∀ f d,
    (mesh.relay.pipe forwardTo forwardFrom f d).Sublist (between f d mesh.entered)
  kept : lossless → mesh.wires.Intact ∧
    ∀ f d, (mesh.relay.pipe forwardTo forwardFrom f d).Perm (between f d mesh.entered)

lemma between_append (l l' : List (List UInt8)) :
    between f d (l ++ l') = between f d l ++ between f d l' := List.filter_append ..

lemma step_good (h : Good n fair lossless mesh) (hsized : Sized n a) (hspeaks : Speaks mesh a)
    (hfair : fair → Orderly mesh a) (hlossless : lossless → Lossless a ∧ n ≤ msgLenLimit)
    (hstep : mesh.step a = some mesh') : Good n fair lossless mesh' := by
  obtain ⟨new, hmoves⟩ := (step_relayed h.inv hstep).1.moves h.inv h.spoken hspeaks
  have hentered : mesh'.entered = mesh.entered ++ new := hmoves.entered
  refine ⟨step_inv h.inv hsized hstep, hmoves.spoken, ?_, ?_, ?_⟩
  · intro f d
    rw [hentered, between_append]
    exact (hmoves.once f d).trans ((List.subperm_append_right _).mpr (h.once f d))
  · intro hf f d
    rw [hentered, between_append]
    exact (hmoves.ordered (hfair hf) f d).trans ((h.ordered hf f d).append_right _)
  · intro hl
    obtain ⟨hintact, hperm⟩ := h.kept hl
    refine ⟨hmoves.intact (hlossless hl) hintact, ?_⟩
    intro f d
    rw [hentered, between_append]
    exact (hmoves.kept (hlossless hl) hintact f d).trans ((hperm f d).append_right _)

variable {pids : UInt16 → ℕ} {addresses : UInt16 → List GateAddress} {as : List Action}

lemma inv_initial (hn : n ≤ netLenMax) : (machine pids addresses).initial.Inv n := by
  have hempty : ({} : Wires UInt16 (List UInt8)).Inv := ⟨nofun, nofun⟩
  have hcarried : ∀ n b, ({} : Wires UInt16 (List UInt8)).carried n b = [] := fun _ _ => rfl
  refine ⟨hn, System.inv_initial pids addresses, ⟨hempty, nofun, ?_, ?_, ?_, nofun⟩, ⟨?_, ?_⟩, nofun, rfl⟩
  · exact fun n a m hm => absurd hm List.not_mem_nil
  · exact fun _ _ _ => rfl
  · exact fun n b m hm => absurd (hcarried n b ▸ hm) List.not_mem_nil
  · exact fun n a m hm => absurd hm List.not_mem_nil
  · exact fun n b m hm => absurd (hcarried n b ▸ hm) List.not_mem_nil

lemma good_initial (hn : n ≤ netLenMax) :
    Good n fair lossless (machine pids addresses).initial := by
  have hpipe : ∀ f d,
      (machine pids addresses).initial.relay.pipe forwardTo forwardFrom f d = [] := fun _ _ => rfl
  refine ⟨inv_initial hn, ⟨?_, ?_⟩, ?_, ?_, ?_⟩
  · exact fun n a m hm => absurd hm List.not_mem_nil
  · exact fun n b m hm => absurd hm List.not_mem_nil
  · exact fun f d => (hpipe f d).symm ▸ List.nil_subperm
  · exact fun _ f d => (hpipe f d).symm ▸ List.nil_sublist _
  · exact fun _ => ⟨nofun, fun f d => (hpipe f d).symm ▸ List.Perm.refl _⟩

lemma run_good (fair lossless : Prop) (hn : n ≤ netLenMax)
    (hsized : (machine pids addresses).Along (fun _ => Sized n) (machine pids addresses).initial as)
    (hspeaks : (machine pids addresses).Along Speaks (machine pids addresses).initial as)
    (hfair : fair → (machine pids addresses).Along Orderly (machine pids addresses).initial as)
    (hlossless : lossless → n ≤ msgLenLimit ∧
      (machine pids addresses).Along (fun _ => Lossless) (machine pids addresses).initial as)
    (hrun : (machine pids addresses).run (machine pids addresses).initial as = some mesh) :
    Good n fair lossless mesh := by
  have hall := hsized.and (hspeaks.and
    ((Machine.Along.of_imp hfair).and (Machine.Along.of_imp fun hl => (hlossless hl).2)))
  refine hall.invariant (I := Good n fair lossless) ?_ (good_initial hn) hrun
  rintro mesh a mesh' h ⟨ha, hspeaks, hfair, hkeeps⟩ hstep
  exact step_good h ha hspeaks hfair (fun hl => ⟨hkeeps hl, (hlossless hl).1⟩) hstep

lemma pipe_eq_delivered : mesh.relay.pipe forwardTo forwardFrom f d =
    between f d mesh.deliveredMessages ++ mesh.underway f d := by
  have hdelivered : mesh.relay.arrived forwardTo forwardFrom f d =
      between f d mesh.deliveredMessages := by
    rw [Relay.arrived, deliveredMessages]
    simp only [relay, List.map_map]
    rfl
  rw [Relay.pipe, hdelivered]
  rfl

/-- While no message is longer than a header can tell, a message reaches no gate but its owner's, and
crosses one connection at most; a message above `msg_len_limit` ends the connection that it is read
from. -/
theorem delivered_to_owner
    (hsized : (machine pids addresses).Along (fun _ => Sized netLenMax)
      (machine pids addresses).initial as)
    (hrun : (machine pids addresses).run (machine pids addresses).initial as = some mesh) :
    (∀ e ∈ mesh.delivered, e.2.1 = forwardTo e.2.2 ∧
      mesh.sys.master.owner (forwardTo e.2.2) = some e.1) ∧
    (∀ k b, ∀ msg ∈ mesh.wires.carried k b,
      mesh.sys.master.owner (forwardTo msg) = some b ∧ k ≠ b) ∧
    ∀ l now next, mesh.step (.read l now) = some next →
      ∃ line msg wires, mesh.wires.take l = some (line, msg, wires) ∧
        next.wires = if msgLenLimit < msg.length then mesh.wires.cut l 0 else wires := by
  have hinv : mesh.Inv netLenMax :=
    hsized.invariant (I := Inv netLenMax) (fun _ _ _ h ha ht => step_inv h ha ht)
      (inv_initial le_rfl) hrun
  refine ⟨?_, hinv.routed.carried, ?_⟩
  · intro e he
    exact ⟨hinv.addressed e he, hinv.routed.delivered (e.1, e.2.2) (List.mem_map_of_mem he)⟩
  · intro l now next hstep
    obtain ⟨line, msg, wires, htake, hwithin, htaken, ⟨hlimit, rfl⟩ | ⟨hlimit, hforward⟩⟩ :=
      hinv.read_cases hstep
    · exact ⟨line, msg, wires, htake, (if_pos hlimit).symm⟩
    · obtain ⟨line', msg', htake'⟩ :=
        Relay.read_wires hinv.routed (htaken.relay_read htake hwithin hforward)
      have hwires : next.wires = wires :=
        congrArg (fun taken => taken.2.2) (Option.some.inj (htake'.symm.trans htake))
      exact ⟨line, msg, wires, htake, hwires.trans (if_neg (not_lt.mpr hlimit)).symm⟩

def word : List UInt8 := [80, 0, 70, 0, 1, 0, 0, 0, 0, 0, 0, 0, 0, 0, 0, 0]

def twoServices : List System.Action :=
  System.twoGates ++ [.gate 8 1 (.accept 6), .gate 8 1 (.register 0 1 ⟨⟨80, 3, true⟩, 64, []⟩),
    .receive 2 0, .deliver 8 1, .gate 8 1 (.resume 0)]

/-- Service 70 is at gate 7, and service 80 at gate 8 says three things to it: the first before gate
8 has a connection, the last while the second is on its way. -/
def threeWords : List Action :=
  twoServices.map .system ++ [.arrive 8 1 1 word, .connect 8 7, .arrive 8 1 1 (word ++ [1]),
    .read 0 1, .arrive 8 1 1 (word ++ [2])]

lemma threeWords_fine :
    (machine (fun _ => 0) fun _ => []).Along
      (fun mesh a => Sized msgLenLimit a ∧ Speaks mesh a ∧ Orderly mesh a ∧ Lossless a)
      (machine (fun _ => 0) fun _ => []).initial threeWords := by
  decide

theorem delivered_to_owner_word : ∃ mesh, (machine (fun _ => 0) fun _ => []).run
      (machine (fun _ => 0) fun _ => []).initial threeWords = some mesh ∧
    mesh.delivered = [(7, 70, word)] ∧ mesh.sys.master.owner 70 = some 7 := by
  obtain ⟨mesh, hrun, hdelivered⟩ : ∃ mesh, (machine (fun _ => 0) fun _ => []).run
      (machine (fun _ => 0) fun _ => []).initial threeWords = some mesh ∧
      mesh.delivered = [(7, 70, word)] := ⟨_, rfl, rfl⟩
  have hsized := threeWords_fine.mono fun _ _ h => h.1.mono limit_le_max
  have hword : (7, 70, word) ∈ mesh.delivered := hdelivered ▸ List.mem_singleton_self _
  exact ⟨mesh, hrun, hdelivered, ((delivered_to_owner hsized hrun).1 _ hword).2⟩

/-- What `d` gets from `f` is what `f` has sent to it, without repetition, and in order when a
connection is read after the older ones, whatever fails. -/
theorem delivered_once_in_order
    (hrun : (machine pids addresses).run (machine pids addresses).initial as = some mesh)
    (hsized : (machine pids addresses).Along (fun _ => Sized netLenMax)
      (machine pids addresses).initial as)
    (hspeaks : (machine pids addresses).Along Speaks (machine pids addresses).initial as) (f d : UInt16) :
    (between f d mesh.deliveredMessages).Subperm (between f d mesh.entered) ∧
      ((machine pids addresses).Along Orderly (machine pids addresses).initial as →
        (between f d mesh.deliveredMessages).Sublist (between f d mesh.entered)) := by
  have hgood := run_good ((machine pids addresses).Along Orderly (machine pids addresses).initial as)
    False le_rfl hsized hspeaks id False.elim hrun
  have hpart : (between f d mesh.deliveredMessages).Sublist
      (mesh.relay.pipe forwardTo forwardFrom f d) := by
    rw [pipe_eq_delivered]
    exact List.sublist_append_left _ _
  exact ⟨hpart.subperm.trans (hgood.once f d), fun hf => hpart.trans (hgood.ordered hf f d)⟩

theorem delivered_once_in_order_words : ∃ mesh, (machine (fun _ => 0) fun _ => []).run
      (machine (fun _ => 0) fun _ => []).initial threeWords = some mesh ∧
    between 80 70 mesh.deliveredMessages = [word] ∧
    (between 80 70 mesh.deliveredMessages).Sublist (between 80 70 mesh.entered) := by
  obtain ⟨mesh, hrun, hdelivered⟩ : ∃ mesh, (machine (fun _ => 0) fun _ => []).run
      (machine (fun _ => 0) fun _ => []).initial threeWords = some mesh ∧
      between 80 70 mesh.deliveredMessages = [word] := ⟨_, rfl, by decide⟩
  refine ⟨mesh, hrun, hdelivered, ?_⟩
  have hsized := threeWords_fine.mono fun _ _ h => h.1.mono limit_le_max
  have hspeaks := threeWords_fine.mono fun _ _ h => h.2.1
  have horderly := threeWords_fine.mono fun _ _ h => h.2.2.1
  exact (delivered_once_in_order hrun hsized hspeaks 80 70).2 horderly

/-- As long as no connection and no gate fails and no message is above `msg_len_limit`, what `d` has
not got yet is underway, in order when a connection is read after the older ones. -/
theorem nothing_lost
    (hrun : (machine pids addresses).run (machine pids addresses).initial as = some mesh)
    (hsized : (machine pids addresses).Along (fun _ => Sized msgLenLimit)
      (machine pids addresses).initial as)
    (hspeaks : (machine pids addresses).Along Speaks (machine pids addresses).initial as)
    (hlossless :
      (machine pids addresses).Along (fun _ => Lossless) (machine pids addresses).initial as)
    (f d : UInt16) :
    (between f d mesh.entered).Perm (between f d mesh.deliveredMessages ++ mesh.underway f d) ∧
      ((machine pids addresses).Along Orderly (machine pids addresses).initial as →
        between f d mesh.entered = between f d mesh.deliveredMessages ++ mesh.underway f d) := by
  have hgood := run_good ((machine pids addresses).Along Orderly (machine pids addresses).initial as)
    True limit_le_max hsized hspeaks id (fun _ => ⟨le_rfl, hlossless⟩) hrun
  rw [← pipe_eq_delivered]
  have hperm := (hgood.kept trivial).2 f d
  exact ⟨hperm.symm, fun hf => ((hgood.ordered hf f d).eq_of_length hperm.length_eq).symm⟩

theorem nothing_lost_words : ∃ mesh, (machine (fun _ => 0) fun _ => []).run
      (machine (fun _ => 0) fun _ => []).initial threeWords = some mesh ∧
    mesh.underway 80 70 = [word ++ [1], word ++ [2]] ∧
    between 80 70 mesh.entered = between 80 70 mesh.deliveredMessages ++ mesh.underway 80 70 := by
  obtain ⟨mesh, hrun, hunderway⟩ : ∃ mesh, (machine (fun _ => 0) fun _ => []).run
      (machine (fun _ => 0) fun _ => []).initial threeWords = some mesh ∧
      mesh.underway 80 70 = [word ++ [1], word ++ [2]] := ⟨_, rfl, by decide⟩
  refine ⟨mesh, hrun, hunderway, ?_⟩
  have hsized := threeWords_fine.mono fun _ _ h => h.1
  have hspeaks := threeWords_fine.mono fun _ _ h => h.2.1
  have hlossless := threeWords_fine.mono fun _ _ h => h.2.2.2
  have horderly := threeWords_fine.mono fun _ _ h => h.2.2.1
  exact (nothing_lost hrun hsized hspeaks hlossless 80 70).2 horderly

end Mesh

end Simple.Gobang
