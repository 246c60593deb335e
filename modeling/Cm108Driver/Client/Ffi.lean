import Cm108Driver.Client.Calls
import Cm108Driver.Ipc.ClientToServer
import Cm108Driver.Server.Uplink

/-!
# Ffi — the C calls that write, and what becomes of them

`cm108_subscribe`, `cm108_set_ptt` and `cm108_set_gpio` write one frame each and return 0 if the
socket took all of it; `cm108_write_audio` writes nothing.  The server's end may go away at any
time: a write then fails somewhere inside a frame, and so does every later one.

Of the calls of a C program those that return 0 have their effects at the server, in order and each
once, and one that returns -1 has none.
-/

namespace Cm108Driver

open Lib

/-! ## The writing end of the socket -/

/-- What `io::Error` says about a write that failed; nothing on the way to C looks at it. -/
structure WriteError where
  errno : Int32
  deriving DecidableEq, Repr

structure Outgoing where
  sent : List UInt8
  /-- The bytes that the socket still takes before a write fails, unless none ever does. -/
  room : Option Nat
  error : WriteError

namespace Outgoing

def connected (room : Option Nat) (error : WriteError) : Outgoing :=
  { sent := []
    room := room
    error := error }

/-- `Write::write_all`, which leaves a part of the bytes behind when it fails. -/
def writeAll (s : Outgoing) (bs : List UInt8) : Except WriteError Unit × Outgoing :=
  match s.room with
  | none => (.ok (), { s with sent := s.sent ++ bs })
  | some n =>
      if bs.length ≤ n then
        (.ok (), { s with sent := s.sent ++ bs, room := some (n - bs.length) })
      else
        (.error s.error, { s with sent := s.sent ++ bs.take n, room := some 0 })

/-- `write_client_msg`; `flush` does nothing on a socket. -/
def writeClientMsg (s : Outgoing) (msg : ClientMsg) : Except WriteError Unit × Outgoing :=
  let payload := toVec msg
  match s.writeAll (toLe 4 payload.length) with
  | (.error e, s) => (.error e, s)
  | (.ok _, s) => s.writeAll payload

/-- Two writes, the second only behind a good one, are one write of both. -/
theorem writeAll_append (s : Outgoing) (bs bs' : List UInt8) :
    s.writeAll (bs ++ bs') =
      match s.writeAll bs with
      | (.error e, s) => (.error e, s)
      | (.ok _, s) => s.writeAll bs' := by
  unfold writeAll
  cases hroom : s.room with
  | none => simp
  | some n =>
      by_cases hfirst : bs.length ≤ n
      · by_cases hboth : bs.length + bs'.length ≤ n
        · have hsecond : bs'.length ≤ n - bs.length := by omega
          simp [hfirst, hboth, hsecond, Nat.sub_sub]
        · have hsecond : ¬ bs'.length ≤ n - bs.length := by omega
          simp [hfirst, hboth, hsecond, List.take_append, List.take_of_length_le hfirst]
      · have hboth : ¬ bs.length + bs'.length ≤ n := by omega
        simp [hfirst, hboth, List.take_append_of_le_length (Nat.le_of_not_le hfirst)]

/-- `write_client_msg` is one write of the frame. -/
theorem writeClientMsg_eq (s : Outgoing) (msg : ClientMsg) :
    s.writeClientMsg msg = s.writeAll (Cm108Driver.writeClientMsg msg) :=
  (s.writeAll_append _ _).symm

/-- A write goes out as a whole, or a part of it does and nothing more from then on. -/
inductive WriteMove (s : Outgoing) (bs : List UInt8) : Except WriteError Unit → Outgoing → Prop
  | whole (room : Option Nat) :
      WriteMove s bs (.ok ()) { s with sent := s.sent ++ bs, room := room }
  | part (n : Nat) : n < bs.length →
      WriteMove s bs (.error s.error) { s with sent := s.sent ++ bs.take n, room := some 0 }

theorem writeMove (s : Outgoing) (bs : List UInt8) :
    WriteMove s bs (s.writeAll bs).1 (s.writeAll bs).2 := by
  unfold writeAll
  cases hroom : s.room with
  | none =>
      have hmove : WriteMove s bs _ _ := .whole s.room
      simpa [hroom] using hmove
  | some n =>
      by_cases hfits : bs.length ≤ n
      · have hmove : WriteMove s bs _ _ := .whole (some (n - bs.length))
        simpa [hfits] using hmove
      · simpa [hfits] using WriteMove.part (s := s) n (Nat.lt_of_not_le hfits)

theorem writeAll_stuck {s : Outgoing} {bs : List UInt8} (h : s.room = some 0) (hbs : bs ≠ []) :
    s.writeAll bs = (.error s.error, s) := by
  cases s
  cases h
  simp [writeAll, hbs]

end Outgoing

/-! ## The calls -/

/-- A sending call of `Cm108Client`. -/
def ClientCall.send (call : ClientCall) (s : Outgoing) : Except WriteError Unit × Outgoing :=
  match call.msg? with
  | some msg => s.writeClientMsg msg
  | none => (.ok (), s)

/-- What the C calls that write have in common: -1 for a client that is NULL and for an error. -/
def ffiSend (clientNull : Bool) (call : ClientCall) (s : Outgoing) : Int32 × Outgoing :=
  -- `ffi_client_mut!`
  if clientNull then
    (-1, s)
  else
    match call.send s with
    | (.ok _, s) => (0, s)
    | (.error _, s) => (-1, s)

def cm108Subscribe (clientNull : Bool) (flags : UInt8) : Outgoing → Int32 × Outgoing :=
  ffiSend clientNull (.subscribe (StreamFlags.fromBitsTruncate flags))

def cm108SetPtt (clientNull : Bool) (asserted : Int32) : Outgoing → Int32 × Outgoing :=
  ffiSend clientNull (.setPtt (asserted != 0))

def cm108SetGpio (clientNull : Bool) (pin : UInt8) (high : Int32) : Outgoing → Int32 × Outgoing :=
  ffiSend clientNull (.setGpio pin (high != 0))

/-- `cm108_write_audio` looks neither at the client nor at the samples; `as i32` wraps. -/
def cm108WriteAudio (frames : UInt64) (s : Outgoing) : Int32 × Outgoing :=
  (frames.toUInt32.toInt32, s)

/-- The C calls that do not read, with their arguments. -/
inductive CCall
  | subscribe (clientNull : Bool) (flags : UInt8)
  | setPtt (clientNull : Bool) (asserted : Int32)
  | setGpio (clientNull : Bool) (pin : UInt8) (high : Int32)
  | writeAudio (frames : UInt64)
  deriving DecidableEq, Repr

namespace CCall

def run : CCall → Outgoing → Int32 × Outgoing
  | subscribe clientNull flags => cm108Subscribe clientNull flags
  | setPtt clientNull asserted => cm108SetPtt clientNull asserted
  | setGpio clientNull pin high => cm108SetGpio clientNull pin high
  | writeAudio frames => cm108WriteAudio frames

/-- What the call is for, in terms of the daemon. -/
def effects : CCall → List Effect
  | subscribe _ flags => [.setStreams (StreamFlags.fromBitsTruncate flags)]
  | setPtt _ asserted => [.setPin 0 (asserted != 0)]
  | setGpio _ pin high => [.setPin pin (high != 0)]
  | writeAudio _ => []

/-- The message of a call that is made on a client. -/
def msg? : CCall → Option ClientMsg
  | subscribe _ flags => some (.subscribe (StreamFlags.fromBitsTruncate flags))
  | setPtt _ asserted => some (.setGpio 0 (asserted != 0))
  | setGpio _ pin high => some (.setGpio pin (high != 0))
  | writeAudio _ => none

end CCall

/-- The codes that the calls of a program return, one after the other, and the socket behind
them. -/
def runCalls : List CCall → Outgoing → List Int32 × Outgoing
  | [], s => ([], s)
  | call :: calls, s =>
      let (code, s) := call.run s
      let (codes, s) := runCalls calls s
      (code :: codes, s)

/-- The calls that returned 0. -/
def succeeded (calls : List CCall) (codes : List Int32) : List CCall :=
  ((calls.zip codes).filter fun p => p.2 = 0).map Prod.fst

/-! ## What they send -/

namespace CCall

/-- Whatever its arguments are, a call sends a message that `read_msg` accepts. -/
theorem accepts {call : CCall} {m : ClientMsg} (h : call.msg? = some m) :
    serverReader.Accepts (writeClientMsg m) m := by
  have hshort : (toVec m).length ≤ maxPayload := by
    refine Nat.le_trans (length_encode_clientMsg_le ?_) (by decide)
    rintro frames rfl
    cases call <;> cases h
  cases call with
  | subscribe clientNull flags =>
      cases h
      refine accepts_writeClientMsg ?_ hshort
      -- the undefined bits are gone
      show (flags &&& 0b0111) &&& 0b0111 = flags &&& 0b0111
      rw [UInt8.and_assoc, UInt8.and_self]
  | setPtt clientNull asserted =>
      cases h
      exact accepts_writeClientMsg trivial hshort
  | setGpio clientNull pin high =>
      cases h
      exact accepts_writeClientMsg trivial hshort
  | writeAudio frames => cases h

theorem effects_eq (call : CCall) : call.effects = call.msg?.toList.flatMap ClientMsg.effects := by
  cases call <;> rfl

end CCall

/-- One call: its message goes out as a whole, or it does not return 0. -/
inductive CallMove (s : Outgoing) (call : CCall) : Int32 → Outgoing → Prop
  | quiet (code : Int32) : (code = 0 → call.msg? = none) → CallMove s call code s
  | sent (m : ClientMsg) (room : Option Nat) : call.msg? = some m →
      CallMove s call 0 { s with sent := s.sent ++ writeClientMsg m, room := room }
  | torn (m : ClientMsg) (n : Nat) (t : Outgoing) :
      call.msg? = some m → n < (writeClientMsg m).length →
      t.sent = s.sent ++ (writeClientMsg m).take n → t.room = some 0 → CallMove s call (-1) t

theorem callMove_ffiSend {call : CCall} {c : ClientCall} (s : Outgoing) (clientNull : Bool)
    (hmsg : call.msg? = c.msg?) (hsome : c.msg?.isSome) :
    CallMove s call (ffiSend clientNull c s).1 (ffiSend clientNull c s).2 := by
  rcases Option.isSome_iff_exists.1 hsome with ⟨m, hm⟩
  cases clientNull with
  | true => exact .quiet (-1) fun hcode => absurd hcode (by decide)
  | false =>
      have hmove := s.writeMove (writeClientMsg m)
      simp only [ffiSend, ClientCall.send, hm, Outgoing.writeClientMsg_eq]
      generalize s.writeAll (writeClientMsg m) = r at hmove
      rcases r with ⟨res, s'⟩
      cases hmove with
      | whole room => exact .sent m room (hmsg.trans hm)
      | part n hn => exact .torn m n _ (hmsg.trans hm) hn rfl rfl

theorem callMove (s : Outgoing) (call : CCall) : CallMove s call (call.run s).1 (call.run s).2 := by
  cases call with
  | subscribe clientNull flags => exact callMove_ffiSend s clientNull rfl rfl
  | setPtt clientNull asserted => exact callMove_ffiSend s clientNull rfl rfl
  | setGpio clientNull pin high => exact callMove_ffiSend s clientNull rfl rfl
  | writeAudio frames => exact .quiet _ fun _ => rfl

/-- The messages of the calls that returned 0. -/
def succeededMsgs (calls : List CCall) (codes : List Int32) : List ClientMsg :=
  (succeeded calls codes).filterMap CCall.msg?

theorem succeededMsgs_cons (call : CCall) (calls : List CCall) (code : Int32) (codes : List Int32) :
    succeededMsgs (call :: calls) (code :: codes) =
      (if code = 0 then call.msg?.toList else []) ++ succeededMsgs calls codes := by
  by_cases hcode : code = 0
  · cases hm : call.msg? with
    | none => simp [succeededMsgs, succeeded, hcode, hm]
    | some m => simp [succeededMsgs, succeeded, hcode, hm]
  · simp [succeededMsgs, succeeded, hcode]

theorem mem_succeededMsgs {calls : List CCall} {codes : List Int32} {m : ClientMsg}
    (h : m ∈ succeededMsgs calls codes) : ∃ call : CCall, call.msg? = some m := by
  rcases List.mem_filterMap.1 h with ⟨call, _, hm⟩
  exact ⟨call, hm⟩

theorem effects_succeeded (calls : List CCall) (codes : List Int32) :
    (succeeded calls codes).flatMap CCall.effects =
      (succeededMsgs calls codes).flatMap ClientMsg.effects := by
  unfold succeededMsgs
  induction succeeded calls codes with
  | nil => rfl
  | cons call calls ih =>
      rw [List.flatMap_cons, ih, call.effects_eq]
      cases hm : call.msg? with
      | none => simp [hm]
      | some m => simp [hm]

theorem ffiSend_stuck {s : Outgoing} (hstuck : s.room = some 0) (clientNull : Bool)
    {c : ClientCall} (hsome : c.msg?.isSome) : ffiSend clientNull c s = (-1, s) := by
  rcases Option.isSome_iff_exists.1 hsome with ⟨m, hm⟩
  cases clientNull with
  | true => rfl
  | false =>
      have hframe : writeClientMsg m ≠ [] := by simp [writeClientMsg, frame, toLe]
      simp only [ffiSend, ClientCall.send, hm, Outgoing.writeClientMsg_eq,
        Outgoing.writeAll_stuck hstuck hframe]
      rfl

/-- Behind a write that failed nothing goes out. -/
theorem run_stuck {s : Outgoing} (hstuck : s.room = some 0) (call : CCall) :
    (call.run s).2 = s ∧ ((call.run s).1 = 0 → call.msg? = none) := by
  cases call with
  | writeAudio frames => exact ⟨rfl, fun _ => rfl⟩
  | subscribe clientNull flags =>
      rw [CCall.run, cm108Subscribe, ffiSend_stuck hstuck clientNull rfl]
      exact ⟨rfl, fun hcode => by cases hcode⟩
  | setPtt clientNull asserted =>
      rw [CCall.run, cm108SetPtt, ffiSend_stuck hstuck clientNull rfl]
      exact ⟨rfl, fun hcode => by cases hcode⟩
  | setGpio clientNull pin high =>
      rw [CCall.run, cm108SetGpio, ffiSend_stuck hstuck clientNull rfl]
      exact ⟨rfl, fun hcode => by cases hcode⟩

theorem runCalls_cons (call : CCall) (calls : List CCall) (s : Outgoing) :
    runCalls (call :: calls) s =
      ((call.run s).1 :: (runCalls calls (call.run s).2).1, (runCalls calls (call.run s).2).2) :=
  rfl

theorem runCalls_stuck {s : Outgoing} (hstuck : s.room = some 0) (calls : List CCall) :
    (runCalls calls s).2 = s ∧ succeededMsgs calls (runCalls calls s).1 = [] := by
  induction calls with
  | nil => exact ⟨rfl, rfl⟩
  | cons call calls ih =>
      rcases run_stuck hstuck call with ⟨hsame, hquiet⟩
      rw [runCalls_cons, hsame]
      refine ⟨ih.1, ?_⟩
      rw [succeededMsgs_cons, ih.2]
      by_cases hcode : (call.run s).1 = 0
      · simp [hquiet hcode]
      · simp [hcode]

/-- What a program sends are the frames of the calls that returned 0, and behind them a part of
one more at most. -/
theorem sent_runCalls (calls : List CCall) (s : Outgoing) :
    ∃ part, (runCalls calls s).2.sent =
        s.sent ++ ((succeededMsgs calls (runCalls calls s).1).flatMap writeClientMsg ++ part) ∧
      (part = [] ∨ ∃ f m, serverReader.Accepts f m ∧ part <+: f ∧ part ≠ f) := by
  induction calls generalizing s with
  | nil => exact ⟨[], by simp [runCalls, succeededMsgs, succeeded], Or.inl rfl⟩
  | cons call calls ih =>
      have hmove := callMove s call
      -- a call writes nothing, a whole frame, or a part of one behind which the socket is broken
      rw [runCalls_cons, succeededMsgs_cons]
      generalize (call.run s).1 = code at hmove ⊢
      generalize (call.run s).2 = s' at hmove ⊢
      rcases ih s' with ⟨part, hsent, hpart⟩
      cases hmove with
      | quiet code hquiet =>
          refine ⟨part, ?_, hpart⟩
          by_cases hcode : code = 0
          · simpa [hquiet hcode] using hsent
          · simpa [hcode] using hsent
      | sent m room hm =>
          refine ⟨part, ?_, hpart⟩
          simpa [hm] using hsent
      | torn m n s' hm hn htorn hstuck =>
          rcases runCalls_stuck hstuck calls with ⟨hsame, hnone⟩
          refine ⟨(writeClientMsg m).take n, ?_,
            Or.inr ⟨_, m, call.accepts hm, List.take_prefix n _, ?_⟩⟩
          · rw [hsame, hnone, htorn]
            simp
          · intro heq
            have hlen := congrArg List.length heq
            rw [List.length_take] at hlen
            omega

/-! ## Whole runs -/

/-- What the daemon has made of the calls of a C program, at a point of a run. -/
structure CallsCarried (fd : RawFd) (inbound : ClientId → Inbound) (c : ClientId)
    (calls : List CCall) (codes : List Int32) (tr : SessionTrace) (w : SessionWorld) : Prop where
  inOrder : effects c tr <+: (succeeded calls codes).flatMap CCall.effects
  changes : ∀ u a u', (u, a) ∈ tr → u.step fd a = some u' → Changes u a u'
  settles : Session.LoopEntered c tr →
    Settles (sessionSystem fd inbound) (SessionAct.serves c) (Served c) (workLeft c w) w
  complete : Session.LoopEntered c tr → ∀ tr' t, tr <+: tr' →
    Trace (sessionSystem fd inbound) tr' t → Served c t →
      effects c tr' = (succeeded calls codes).flatMap CCall.effects

section Runs

variable {fd : RawFd} {inbound : ClientId → Inbound} {tr : SessionTrace} {w : SessionWorld}
  {c : ClientId} {calls : List CCall} {room : Option Nat} {error : WriteError}

/-- Let a C program make any calls with any arguments, and its socket break at any byte or never.
In every run of the daemon that reads what was sent, cut in any way and whatever the other clients
do: the calls that returned 0 have their effects in order and each once, no other call has any, and
the handler gets through them once it has entered its loop. -/
theorem c_calls_take_effect (h : Trace (sessionSystem fd inbound) tr w)
    (hsent : arrived (inbound c).script =
      (runCalls calls (Outgoing.connected room error)).2.sent) :
    CallsCarried fd inbound c calls (runCalls calls (Outgoing.connected room error)).1 tr w := by
  rcases sent_runCalls calls (Outgoing.connected room error) with ⟨part, hbytes, hpart⟩
  have hmsgs : ∀ m ∈ succeededMsgs calls (runCalls calls (Outgoing.connected room error)).1,
      serverReader.Accepts (writeClientMsg m) m := by
    intro m hm
    rcases mem_succeededMsgs hm with ⟨call, hmsg⟩
    exact call.accepts hmsg
  have hrun := FrameReader.LeadingRun.of_torn hmsgs hpart
  rw [show _ ++ part = arrived (inbound c).script from (hsent.trans hbytes).symm] at hrun
  exact
    { inOrder := by
        rw [effects_succeeded]
        exact effects_inOrder h hrun
      changes := fun _ _ _ hmem hstep => changes_of_trace h hmem hstep
      settles := fun hentered =>
        (serves_ranked fd inbound c).settles (pastSetup_of_loopEntered h hrun hentered)
      complete := by
        intro hentered tr' t hpre ht hserved
        rw [effects_succeeded]
        exact effects_of_served ht hrun (hentered.mono hpre) hserved }

end Runs

/-! ### A program whose socket breaks -/

/-- PTT is asserted; a call without a client; a subscription whose frame is torn. -/
def keyAndSubscribe : List CCall :=
  [.setPtt false 1, .writeAudio 48, .subscribe true 255, .subscribe false 255]

def keyAndSubscribeSent : List Int32 × Outgoing :=
  runCalls keyAndSubscribe (Outgoing.connected (some 11) ⟨32⟩)

def keyAndSubscribeInbound : ClientId → Inbound := fun _ =>
  { script := [.data keyAndSubscribeSent.2.sent]
    closed := true }

/-- Client 1 connects, its handler sets the pin and leaves its loop. -/
def tornRun : List SessionAct :=
  [.server .connect, .server (.handler 1 .proceed), .server (.handler 1 (.sendFd true)),
    .server (.handler 1 (.spawnWriter true)), .read 1 1000, .setGpio 1 fun _ => .ok 4, .read 1 1001]

theorem c_calls_take_effect_torn :
    keyAndSubscribeSent.1 = [0, 48, -1, -1] ∧
      ∃ tr w, Trace (sessionSystem 7 keyAndSubscribeInbound) tr w ∧
        effects 1 tr = [.setPin 0 true] ∧
        CallsCarried 7 keyAndSubscribeInbound 1 keyAndSubscribe keyAndSubscribeSent.1 tr w := by
  have hrun := Trace.start.exec
    (show (sessionSystem 7 keyAndSubscribeInbound).exec (SessionWorld.start keyAndSubscribeInbound)
      tornRun = some _ from rfl)
  exact ⟨rfl, _, _, hrun, rfl, c_calls_take_effect hrun (by simp [keyAndSubscribeInbound, arrived,
    keyAndSubscribeSent])⟩

/-! ## The call that reads audio -/

/-- `cm108_read_audio`: the code it returns with the samples that it copies to the front of `buf`,
and what is left of the client and of the stream. -/
def cm108ReadAudio (bufNull clientNull : Bool) (frames : UInt64) (c : Cm108Client)
    (page : AudioFrame) (ending : Ending) (es : List (Arrival UInt8)) :
    Option (Int32 × List Int16) × Cm108Client × List (Arrival UInt8) :=
  if bufNull then
    (some (-1, []), c, es)
  else if clientNull then
    (some (-1, []), c, es)
  else
    match readAudioBlocking c page ending es with
    | (some (.ok frame), c, es) =>
        let n := min frames.toNat samplesPerFrame
        (some (Int32.ofNat n, frame.samples.toList.take (n * 2)), c, es)
    | (some (.error _), c, es) => (some (-1, []), c, es)
    | (none, c, es) => (none, c, es)

/-- A frame that `read_audio_blocking` returns is the page. -/
theorem readAudioBlocking_ok {c c' : Cm108Client} {page frame : AudioFrame} {ending : Ending}
    {es es' : List (Arrival UInt8)}
    (h : readAudioBlocking c page ending es = (some (.ok frame), c', es')) : frame = page := by
  unfold readAudioBlocking at h
  split at h
  · cases h
    rfl
  · cases h
  · cases h

/-- It copies as many stereo frames as it returns, and no more than the caller has room for. -/
theorem cm108ReadAudio_copied {bufNull clientNull : Bool} {ending : Ending} {frames : UInt64}
    {c c' : Cm108Client} {page : AudioFrame} {es es' : List (Arrival UInt8)} {code : Int32}
    {copied : List Int16}
    (h : cm108ReadAudio bufNull clientNull frames c page ending es = (some (code, copied), c', es')) :
    copied.length ≤ frames.toNat * 2 ∧
      (code = -1 ∧ copied = [] ∨ code.toInt * 2 = copied.length ∧ copied <+: page.samples.toList) := by
  unfold cm108ReadAudio at h
  split at h
  · cases h
    simp
  · split at h
    · cases h
      simp
    · split at h
      · rename_i frame c₁ es₁ hread
        cases h
        rw [readAudioBlocking_ok hread]
        have hle : min frames.toNat samplesPerFrame ≤ 48 := Nat.min_le_right _ _
        have hlen : (page.samples.toList.take (min frames.toNat samplesPerFrame * 2)).length =
            min frames.toNat samplesPerFrame * 2 := by
          rw [List.length_take, Vector.length_toList]
          exact Nat.min_eq_left (Nat.mul_le_mul_right 2 (Nat.min_le_right _ _))
        have hcode : (Int32.ofNat (min frames.toNat samplesPerFrame)).toInt =
            min frames.toNat samplesPerFrame := Int32.toInt_ofNat_of_lt (by omega)
        refine ⟨?_, Or.inr ⟨?_, List.take_prefix _ _⟩⟩
        · rw [hlen]
          exact Nat.mul_le_mul_right 2 (Nat.min_le_left _ _)
        · rw [hlen, hcode]
          simp
      · cases h
        simp
      · cases h

end Cm108Driver
