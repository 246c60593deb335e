import Cm108Driver.Server.SessionDevices
import Cm108Driver.Server.Uplink

/-!
# OnAir — from the bytes that clients send to the OUT packets

A client's bytes, the messages decoded from them, the TX ring and the OUT packets, end to end.  What
goes out is audio that was sent, in the order of each client, and silence otherwise; and a frame in
the ring does not wait for longer than the ring is deep.
-/

namespace Cm108Driver

open Lib

/-! ## How long a frame waits -/

namespace Tx

section Waiting

variable {tr pre : TxTrace} {w v : TxWorld}

theorem popped_isPrefix (h : Trace txSystem tr w) : popped tr <+: enqueued tr :=
  ⟨_, (txInv_of_trace h).items⟩

theorem popped_snoc (tr : TxTrace) (w : TxWorld) (a : TxAct) :
    popped (tr ++ [(w, a)]) = popped tr ++ ((reap? w a).bind id).toList := by
  rw [popped, reaps_snoc, List.filterMap_append]
  rcases reap? w a with _ | _ | f <;> rfl

theorem enqueued_mono (h : pre <+: tr) : enqueued pre <+: enqueued tr := by
  rcases h with ⟨suf, rfl⟩
  simp [enqueued, pushes, List.filterMap_append]

/-- Every reap behind a point of the run pops one of the frames that were in the ring there, as long
as there are any. -/
theorem popped_behind (hpre : Trace txSystem pre v) (h : Trace txSystem tr w) (hle : pre <+: tr) :
    min (enqueued pre).length ((popped pre).length + ((reaps tr).length - (reaps pre).length)) ≤
      (popped tr).length := by
  induction h with
  | start =>
      have hnil : pre = [] := List.prefix_nil.1 hle
      subst hnil
      exact Nat.min_le_right _ _
  | snoc htr hstep ih =>
      rename_i tr w t a
      rcases List.prefix_concat_iff.1 hle with rfl | hbefore
      · rw [Nat.sub_self]
        exact Nat.min_le_right _ _
      · have hsofar := ih hbefore
        rw [popped_snoc, reaps_snoc, List.length_append, List.length_append]
        cases hreap : reap? w a with
        | none => exact hsofar
        | some head =>
            cases head with
            | some f =>
                change _ ≤ _ + 1
                change min _ (_ + (_ + 1 - _)) ≤ _
                omega
            | none =>
                -- the ring is empty, and all that went into it before is popped
                have hempty : w.loop.ring.ring.items = [] := by
                  cases a with
                  | reaped i c => simpa [reap?] using hreap
                  | _ => cases hreap
                have hitems := (txInv_of_trace htr).items
                rw [hempty, List.append_nil] at hitems
                have hall := (enqueued_mono hbefore).length_le
                rw [← hitems] at hall
                exact Nat.le_trans (Nat.min_le_left _ _) hall

/-- A frame in the ring goes out as one of the next 64 OUT packets. -/
theorem enqueued_goesOut (hpre : Trace txSystem pre v) (h : Trace txSystem tr w) (hle : pre <+: tr)
    (hreaps : (reaps pre).length + ringCapacity ≤ (reaps tr).length) :
    enqueued pre <+: popped tr := by
  have hitems := congrArg List.length (txInv_of_trace hpre).items
  have hbound := v.loop.ring.ring.fits
  have hpopped := popped_behind hpre h hle
  rw [List.length_append] at hitems
  have hlen : (enqueued pre).length ≤ (popped tr).length := by omega
  exact List.prefix_of_prefix_length_le (enqueued_mono hle) (popped_isPrefix h) hlen

/-- What a reap pops was pushed for a message. -/
theorem message_of_popped (h : Trace txSystem tr w) {f : AudioFrame} (hf : f ∈ popped tr) :
    ∃ m ∈ messages tr, f ∈ m.2 := by
  have henqueued := (popped_isPrefix h).subset hf
  rcases List.mem_map.1 henqueued with ⟨p, hp, rfl⟩
  have hpushed : p.1 ∈ (pushes tr).map Prod.fst :=
    List.mem_map_of_mem (List.mem_filter.1 hp).1
  have hmem : p.1 ∈ (messages tr).flatMap Prod.snd := by
    rw [← (txInv_of_trace h).pushed]
    exact List.mem_append_left _ hpushed
  exact List.mem_flatMap.1 hmem

end Waiting

end Tx

/-! ## End to end -/

section Runs

variable {fd : RawFd} {inbound : ClientId → Inbound} {tr : SessionTrace} {w : SessionWorld}
  {good rest : ClientId → List UInt8} {ms : ClientId → List ClientMsg}

/-- The run at the TX ring. -/
abbrev ringOf (fd : RawFd) (inbound : ClientId → Inbound) (tr : SessionTrace) : TxTrace :=
  (txSimulation fd inbound).trace tr

/-- What goes out of the audio in the clients' messages `ms`. -/
structure OnAir (fd : RawFd) (inbound : ClientId → Inbound) (ms : ClientId → List ClientMsg)
    (tr : SessionTrace) (w : SessionWorld) : Prop where
  /-- The `AudioWrite` messages that got the mutex. -/
  inOrder : ∀ c, messagesOf c (Tx.messages (ringOf fd inbound tr)) <+:
    (ms c).filterMap ClientMsg.audio?
  offered : Tx.Offered (ringOf fd inbound tr) w.tx
  packets : Tx.submitted (ringOf fd inbound tr) =
    (Tx.reaps (ringOf fd inbound tr)).map Tx.packetFor
  inRing : Tx.popped (ringOf fd inbound tr) <+: Tx.enqueued (ringOf fd inbound tr)
  sources : ∀ p ∈ Tx.submitted (ringOf fd inbound tr), p = Tx.packetFor none ∨
    ∃ c frames f, ClientMsg.audioWrite frames ∈ ms c ∧ f ∈ frames ∧ p = Tx.packetFor (some f)
  /-- Of a frame that was in the ring 64 OUT packets ago. -/
  inTime : ∀ pre, pre <+: tr →
    (Tx.reaps (ringOf fd inbound pre)).length + ringCapacity ≤
      (Tx.reaps (ringOf fd inbound tr)).length →
    Tx.enqueued (ringOf fd inbound pre) <+: Tx.popped (ringOf fd inbound tr)

/-- Once its handler is through with the stream. -/
theorem messages_of_served (h : Trace (sessionSystem fd inbound) tr w) {c : ClientId}
    (hrun : serverReader.LeadingRun (arrived (inbound c).script) (good c) (rest c) (ms c))
    (hentered : Session.LoopEntered c tr) (hserved : Served c w) :
    messagesOf c (Tx.messages (ringOf fd inbound tr)) = (ms c).filterMap ClientMsg.audio? := by
  have hall := messages_of_trace h c
  rw [hserved.rest.work, dispatched_of_served h hrun hentered hserved] at hall
  simpa [DeviceWork.waiting] using hall

theorem messages_inOrder (h : Trace (sessionSystem fd inbound) tr w) {c : ClientId}
    (hrun : serverReader.LeadingRun (arrived (inbound c).script) (good c) (rest c) (ms c)) :
    messagesOf c (Tx.messages (ringOf fd inbound tr)) <+: (ms c).filterMap ClientMsg.audio? := by
  have hall := messages_of_trace h c
  have hdispatched := (dispatched_inOrder h hrun).filterMap ClientMsg.audio?
  rw [← hall] at hdispatched
  exact (List.prefix_append _ _).trans hdispatched

theorem source_of_packet (h : Trace (sessionSystem fd inbound) tr w)
    (hrun : ∀ c, serverReader.LeadingRun (arrived (inbound c).script) (good c) (rest c) (ms c))
    {p : List UInt8} (hp : p ∈ Tx.submitted (ringOf fd inbound tr)) :
    p = Tx.packetFor none ∨
      ∃ c frames f, ClientMsg.audioWrite frames ∈ ms c ∧ f ∈ frames ∧
        p = Tx.packetFor (some f) := by
  have hring := (txSimulation fd inbound).run h
  rw [(Tx.txInv_of_trace hring).sent] at hp
  rcases List.mem_map.1 hp with ⟨head, hhead, rfl⟩
  cases head with
  | none => exact Or.inl rfl
  | some f =>
      have hpopped : f ∈ Tx.popped (ringOf fd inbound tr) :=
        List.mem_filterMap.2 ⟨some f, hhead, rfl⟩
      rcases Tx.message_of_popped hring hpopped with ⟨⟨c, frames⟩, hmessage, hf⟩
      have hmine : frames ∈ messagesOf c (Tx.messages (ringOf fd inbound tr)) :=
        List.mem_map.2 ⟨(c, frames), List.mem_filter.2 ⟨hmessage, by simp⟩, rfl⟩
      rcases List.mem_filterMap.1 ((messages_inOrder h (hrun c)).subset hmine) with ⟨m, hm, haudio⟩
      cases m with
      | audioWrite frames' =>
          cases haudio
          exact Or.inr ⟨c, frames, f, hm, hf, rfl⟩
      | _ => cases haudio

/-- In every run of the daemon, whatever bytes its clients send and however these are cut: the OUT
packets are the frames in the `AudioWrite` messages of the longest leading runs of the clients'
streams, each message in the order of its client and once, its frames in order but for those that
find 64 in the ring, and silence; and what is in the ring goes out within 64 packets. -/
theorem audio_on_air (h : Trace (sessionSystem fd inbound) tr w)
    (hrun : ∀ c, serverReader.LeadingRun (arrived (inbound c).script) (good c) (rest c) (ms c)) :
    OnAir fd inbound ms tr w ∧
      ∀ c, Session.LoopEntered c tr → Served c w →
        messagesOf c (Tx.messages (ringOf fd inbound tr)) = (ms c).filterMap ClientMsg.audio? := by
  have hring := (txSimulation fd inbound).run h
  have hinv := Tx.txInv_of_trace hring
  refine ⟨?_, fun c hentered hserved => messages_of_served h (hrun c) hentered hserved⟩
  refine
    { inOrder := fun c => messages_inOrder h (hrun c)
      offered := Tx.offered_of_trace hring
      packets := hinv.sent
      inRing := Tx.popped_isPrefix hring
      sources := fun p hp => source_of_packet h hrun hp
      inTime := ?_ }
  intro pre hpre hreaps
  rcases h.of_isPrefix hpre with ⟨v, hv⟩
  exact Tx.enqueued_goesOut ((txSimulation fd inbound).run hv) hring (hpre.filterMap _) hreaps

end Runs

/-! ### Two clients -/

theorem player_run (c : ClientId) :
    serverReader.LeadingRun (arrived (player c).script)
      (writeClientMsg (.audioWrite [Tx.tone])) []
      [.audioWrite [Tx.tone]] := by
  have hone : ClientMsg.Encodable (.audioWrite [Tx.tone]) :=
    show 1 ≤ maxFrames by decide
  have hshort : (toVec (ClientMsg.audioWrite [Tx.tone])).length ≤ maxPayload := by
    simp [toVec, encode, pushU8, pushU32]
    decide
  have hrun : serverReader.LeadingRun
      ([ClientMsg.audioWrite [Tx.tone]].flatMap writeClientMsg ++ [])
      ([ClientMsg.audioWrite [Tx.tone]].flatMap writeClientMsg) []
      [.audioWrite [Tx.tone]] :=
    .of_torn (by simpa using accepts_writeClientMsg hone hshort) (Or.inl rfl)
  simpa [player, arrived] using hrun

/-- Two clients connect, both send their frame, and the TX loop reaps three URBs. -/
def twoPlayers : List SessionAct :=
  [.server .connect, .server (.handler 1 .proceed), .server (.handler 1 (.sendFd true)),
    .server (.handler 1 (.spawnWriter true)), .server .connect, .server (.handler 2 .proceed),
    .server (.handler 2 (.sendFd true)), .server (.handler 2 (.spawnWriter true)), .read 1 1000,
    .read 2 1000, .lockTx 2, .pushTx, .unlockTx, .reapedTx 0 (ReapLoop.quiet _), .lockTx 1, .pushTx,
    .unlockTx, .reapedTx 1 (ReapLoop.quiet _), .reapedTx 2 (ReapLoop.quiet _)]

set_option maxRecDepth 4000 in
theorem audio_on_air_twoPlayers :
    ∃ tr w, Trace (sessionSystem 7 player) tr w ∧
      (Tx.messages (ringOf 7 player tr)).map Prod.fst = [2, 1] ∧
      Tx.reaps (ringOf 7 player tr) = [some Tx.tone, some Tx.tone, none] ∧
      OnAir 7 player (fun _ => [.audioWrite [Tx.tone]]) tr w := by
  have hrun := Trace.start.exec
    (show (sessionSystem 7 player).exec (SessionWorld.start player) twoPlayers = some _ from rfl)
  exact ⟨_, _, hrun, rfl, rfl, (audio_on_air hrun player_run).1⟩

end Cm108Driver
