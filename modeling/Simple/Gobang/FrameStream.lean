import Mathlib.Data.List.TakeWhile
import Simple.Gobang.Codec
import Simple.Net.TcpSession

/-! Frames from one end of a connection to the other: through the queue of the socket, in whatever
pieces the socket takes them and the other end gets them. -/

namespace Simple.Gobang

open Simple.Lib Simple.Net

/-- At every moment the receiver has got the first of the frames sent, as long as the socket takes
nothing more behind a write that failed. When the connection lives long enough it gets them all, up to
the first one that is longer than `recv_net_buffer` accepts. -/
theorem frames_arrive {maxBuffers : ℕ} (hmax : 0 < maxBuffers) {as : List TcpSession.Action}
    {s : TcpSession} (h : (TcpSession.machine maxBuffers).run {} as = some s)
    (hlasting : (TcpSession.machine maxBuffers).Along TcpSession.Lasting {} as) {sent : List Packet}
    (hsent : s.written = sent.map Packet.wire)
    (hsmall : ∀ p ∈ sent.takeWhile Packet.accepted, p.payload.length < 2 ^ 24) :
    (∀ chunks : List (List UInt8), chunks.flatten <+: s.wire →
      (hangUp (recvNetBuffer.feedAll idle chunks)).yielded <+: sent.map Packet.frame) ∧
    (s.Running → ∀ n, s.deque.length + 2 ≤ n → ∀ chunks : List (List UInt8),
      chunks.flatten = ((TcpSession.advance maxBuffers)^[n] s).wire →
      (recvNetBuffer.feedAll idle chunks).yielded = (sent.takeWhile Packet.accepted).map Packet.frame ∧
      ((∀ p ∈ sent, p.payload.length ≤ msgLenLimit) →
        (recvNetBuffer.feedAll idle chunks).yielded = sent.map Packet.frame)) := by
  have hwritten : s.written.flatten = wire sent := by rw [hsent, wire]
  have hinv := TcpSession.lasting_inv hlasting h
  constructor
  · intro chunks hchunks
    exact yielded_of_broken sent chunks (hwritten ▸ hchunks.trans hinv.wire_start) hsmall
  · intro hrunning n hn chunks hchunks
    have hall := (TcpSession.drained hmax hrunning hinv (TcpSession.rank_le.trans hn)).2
    have hwire : chunks.flatten = wire sent := by rw [hchunks, hall, hwritten]
    have hyield := (feedAll_small hsmall hwire).1
    refine ⟨hyield, fun hlimit => ?_⟩
    rw [hyield, List.takeWhile_eq_self_iff.mpr]
    exact fun p hp => decide_eq_true ((Nat.mod_le _ _).trans (hlimit p hp))

theorem frames_arrive_one : ∃ s, (TcpSession.machine 8).run {} [.accept, .resume,
      .write (Packet.net 0x4001 7 [1, 2, 3] fun _ => 0).wire] = some s ∧ s.wire = [] ∧
    (recvNetBuffer.feedAll idle
      [((TcpSession.advance 8)^[3] s).wire.take 5, ((TcpSession.advance 8)^[3] s).wire.drop 5]).yielded =
        [(Packet.net 0x4001 7 [1, 2, 3] fun _ => 0).frame] := by
  have hrun : (TcpSession.machine 8).run {} [.accept, .resume,
    .write (Packet.net 0x4001 7 [1, 2, 3] fun _ => 0).wire] = some _ := rfl
  refine ⟨_, hrun, rfl, ?_⟩
  have hlimit : ∀ p ∈ [Packet.net 0x4001 7 [1, 2, 3] fun _ => 0], p.payload.length ≤ msgLenLimit := by
    intro p hp
    obtain rfl := List.mem_singleton.mp hp
    norm_num [Packet.payload, msgLenLimit]
  have hsmall : ∀ p ∈ [Packet.net 0x4001 7 [1, 2, 3] fun _ => 0].takeWhile Packet.accepted,
      p.payload.length < 2 ^ 24 :=
    fun p hp => (hlimit p ((List.takeWhile_prefix _).subset hp)).trans_lt (by decide)
  have hall := (frames_arrive (by decide) hrun
    (fun _ _ => ⟨trivial, fun _ _ => ⟨trivial, fun _ _ => ⟨trivial, trivial⟩⟩⟩) rfl hsmall).2
    ⟨rfl, rfl, by decide⟩ 3 le_rfl
  exact (hall _ (by rw [List.flatten_cons, List.flatten_singleton, List.take_append_drop])).2 hlimit

end Simple.Gobang
