import Cm108Driver.Client.PollEvent
import Cm108Driver.Client.Polling

/-!
# Hangup — polling a server that is gone

Runs of `poll_msg` and `cm108_poll_event` on what a server sent, closed or still open.
`read_server_msg` gives the same answer for the end of the stream and for a dry socket as long as
it meets them in the header, and `poll_msg` gives the answer for a dry socket also when it meets
one in the payload.  A server that closed with bytes of the client unread leaves an error to be met
in front of the end of the stream, once; this one is reported.  A poll that says "nothing there"
therefore means an idle server exactly when it found a whole header or this error of a closed
connection, or nothing or a whole frame of an open one.
-/

namespace Cm108Driver

open Lib

/-! ## The calls -/

inductive PollCall
  | pollMsg
  | pollEvent
  deriving DecidableEq, Repr

/-- What is before the client: the data that it has yet to read, and what is behind it. -/
structure Incoming where
  script : List (Arrival UInt8)
  ending : Ending
  deriving DecidableEq, Repr

/-- The error of the socket that a call has met. -/
def met? : CallResult (Option ServerMsg) → Option IoError
  | some (.error (.io e)) => some e
  | _ => none

/-- Behind a `poll_msg` that leaves this data: an error that it has met is no longer pending. -/
def Incoming.polled (s : Incoming) (script : List (Arrival UInt8)) : Incoming :=
  { script := script
    ending := s.ending.after (met? (pollMsg s.ending s.script).1) }

namespace PollCall

/-- What a call leaves before the client; `none` if it does not return. -/
def left? (s : Incoming) : PollCall → Option Incoming
  | pollMsg =>
      match Cm108Driver.pollMsg s.ending s.script with
      | (some _, es') => some (s.polled es')
      | (none, _) => none
  | pollEvent =>
      match cm108PollEvent false false s.ending s.script with
      | (some _, es') => some (s.polled es')
      | (none, _) => none

/-- The message that a call takes off the stream. -/
def taken? (s : Incoming) : Option ServerMsg :=
  match (Cm108Driver.pollMsg s.ending s.script).1 with
  | some (.ok m) => m
  | _ => none

/-- The call reports a failure. -/
def Fails (s : Incoming) : PollCall → Prop
  | pollMsg => ∃ e, (Cm108Driver.pollMsg s.ending s.script).1 = some (.error e)
  | pollEvent => (cm108PollEvent false false s.ending s.script).1 = some (-1, none)

/-- The call reports that nothing is there: `Ok(None)`, or 0 without having taken a message. -/
def SaysIdle (s : Incoming) : PollCall → Prop
  | pollMsg => (Cm108Driver.pollMsg s.ending s.script).1 = some (.ok none)
  | pollEvent => (∃ out, (cm108PollEvent false false s.ending s.script).1 = some (0, out)) ∧
      taken? s = none

/-- Every call goes by what its `poll_msg` returns. -/
theorem left?_of {s : Incoming} {es' : List (Arrival UInt8)} (c : PollCall)
    {r : CallResult (Option ServerMsg)} (h : Cm108Driver.pollMsg s.ending s.script = (r, es')) :
    c.left? s = r.map fun _ => s.polled es' := by
  cases c with
  | pollMsg =>
      cases r with
      | none => simp [left?, h]
      | some r => simp [left?, h]
  | pollEvent =>
      have hevent := cm108PollEvent_of h
      match r with
      | some (.ok (some m)) => simp [left?, hevent]
      | some (.ok none) => simp [left?, hevent]
      | some (.error e) => simp [left?, hevent]
      | none => simp [left?, hevent]

theorem fails_of_error {s : Incoming} (c : PollCall) {e : ClientError}
    (h : (Cm108Driver.pollMsg s.ending s.script).1 = some (.error e)) : c.Fails s := by
  cases c with
  | pollMsg => exact ⟨e, h⟩
  | pollEvent =>
      have hevent := cm108PollEvent_of (r := some (.error e)) (Prod.ext h rfl)
      simp [Fails, hevent]

theorem saysIdle_iff {s : Incoming} (c : PollCall) :
    c.SaysIdle s ↔ (Cm108Driver.pollMsg s.ending s.script).1 = some (.ok none) := by
  cases c with
  | pollMsg => exact Iff.rfl
  | pollEvent =>
      cases h : Cm108Driver.pollMsg s.ending s.script with
      | mk r es' =>
          have hevent := cm108PollEvent_of h
          match r with
          | some (.ok (some m)) => simp [SaysIdle, taken?, h]
          | some (.ok none) => simp [SaysIdle, taken?, h, hevent]
          | some (.error e) => simp [SaysIdle, hevent]
          | none => simp [SaysIdle, hevent]

end PollCall

def hangupSystem (ending : Ending) (script : List (Arrival UInt8)) : System Incoming PollCall where
  init :=
    { script := script
      ending := ending }
  step s c := c.left? s

abbrev HangupTrace := List (Incoming × PollCall)

/-- The messages taken off the stream by the calls of a run. -/
def takenMsgs (tr : HangupTrace) : List ServerMsg := tr.filterMap fun p => PollCall.taken? p.1

/-- Of the messages sent, all that are complete on the stream have been returned. -/
def AllReturned (msgs : List ServerMsg) (script : List (Arrival UInt8)) (tr : HangupTrace) : Prop :=
  ∀ sent, sent <+: msgs → sent.flatMap writeMsg <+: arrived script → sent <+: takenMsgs tr

/-- What the run should tell: of a closed connection, every call behind the last complete message
fails; that nothing is there is said only of an open connection with no byte available. -/
structure DeadOrIdle (msgs : List ServerMsg) (script : List (Arrival UInt8)) (tr : HangupTrace) :
    Prop where
  dead : ∀ {tr' s c}, tr' ++ [(s, c)] <+: tr → s.ending ≠ .alive → AllReturned msgs script tr' →
    c.Fails s
  idle : ∀ p ∈ tr, p.2.SaysIdle p.1 → p.1.ending = .alive ∧ ready p.1.script = []

/-- A poll of a closed connection finds a whole header, or an error that is still pending; a poll of
an open one finds nothing or all of the next frame. -/
def FindsFrame (s : Incoming) (_ : PollCall) : Prop :=
  match s.ending with
  | .alive => PollClean s.script .poll
  | .eof => 4 ≤ (arrived s.script).length
  | .reset => True

/-! ## One poll -/

@[simp] theorem Ending.after_none (ending : Ending) : ending.after none = ending := by
  cases ending <;> rfl

/-- Behind the error at its end, a stream is at the end of file. -/
theorem Ending.after_error {ending : Ending} {e : IoError} (h : ending.error? = some e) :
    ending.after (some e) = .eof := by
  cases ending with
  | alive => cases h
  | eof => rfl
  | reset =>
      cases h
      rfl

/-- The next message is there in part only: a closed connection fails and is empty from then on. -/
theorem pollMsg_closed_torn {ending : Ending} {e : IoError} (he : ending.error? = some e)
    {es : List (Arrival UInt8)} {m : ServerMsg} {r : List UInt8}
    (hm : m.Sendable) (hfree : GapFree es) (hpre : arrived es <+: writeMsg m ++ r)
    (hfour : 4 ≤ (arrived es).length) (hshort : (arrived es).length < (writeMsg m).length) :
    pollMsg ending es = (some (.error (.io e)), []) := by
  have hwidth : (toVec m).length < 4294967296 := Nat.lt_of_le_of_lt hm.length_le (by decide)
  have htake : (arrived es).take 4 = toLe 4 (toVec m).length := by
    -- the header is whole, and asks for more than there is
    rw [List.prefix_iff_eq_take.1 hpre, List.take_take, Nat.min_eq_left hfour, writeMsg,
      take_four_frame]
  have hlen : ofLe ((arrived es).take 4) = (toVec m).length := by
    rw [htake, ofLe_header hwidth]
  have hread : readServerMsg .nonblocking ending es = (.err (dryError ending), []) := by
    refine read_gapFree_torn clientReader ending hfree hfour ?_ ?_
    · rw [hlen]
      exact hm.length_le
    · rw [hlen]
      simpa [writeMsg] using hshort
  have hdry : dryError ending = e := by simp [dryError, he]
  rw [hdry] at hread
  cases ending with
  | alive => cases he
  | eof =>
      cases he
      simp [pollMsg, hread]
  | reset =>
      cases he
      simp [pollMsg, hread]

/-- On an open connection that delivers the frame of a sendable message, a poll that finds part of
it says that nothing is there. -/
theorem pollMsg_open_torn {es : List (Arrival UInt8)} {m : ServerMsg} {r : List UInt8}
    (hm : m.Sendable) (hpre : arrived es <+: writeMsg m ++ r) (hpos : ready es ≠ [])
    (hunclean : ¬ PollClean es .poll) : (pollMsg .alive es).1 = some (.ok none) := by
  have hwidth : (toVec m).length < 4294967296 := Nat.lt_of_le_of_lt hm.length_le (by decide)
  have hshort : 4 ≤ (ready es).length → (ready es).length < 4 + ofLe ((ready es).take 4) :=
    fun hfour => Nat.lt_of_not_le fun hlen => hunclean (Or.inr ⟨hfour, hlen⟩)
  -- The length in the header is that of `m`, within the cap.
  have hcap : 4 ≤ (ready es).length → ofLe ((ready es).take 4) ≤ clientReader.cap := by
    intro hfour
    have htake : (ready es).take 4 = toLe 4 (toVec m).length := by
      rw [List.prefix_iff_eq_take.1 ((ready_prefix_arrived es).trans hpre), List.take_take,
        Nat.min_eq_left hfour, writeMsg, take_four_frame]
    rw [htake, ofLe_header hwidth]
    exact hm.length_le
  rcases read_nonblocking_partial clientReader hpos hshort hcap rfl with ⟨es', hread | hread, _⟩
  · simp [pollMsg, readServerMsg, hread]
  · simp [pollMsg, readServerMsg, hread]

/-! ## Whole runs -/

section Runs

variable {ending : Ending} {msgs : List ServerMsg} {script es : List (Arrival UInt8)}
  {s s' : Incoming} {missing : List UInt8} {tr : HangupTrace} {c : PollCall}

theorem hangupSystem_step (h : (hangupSystem ending script).step s c = some s') :
    ∃ r es', pollMsg s.ending s.script = (some r, es') ∧ s' = s.polled es' := by
  cases hp : pollMsg s.ending s.script with
  | mk r rest =>
      have hleft : r.map (fun _ => s.polled rest) = some s' := (PollCall.left?_of c hp).symm.trans h
      rcases Option.map_eq_some_iff.mp hleft with ⟨r', rfl, rfl⟩
      exact ⟨r', rest, rfl, rfl⟩

/-- A call that meets no error leaves the ending as it is. -/
theorem Incoming.polled_ok {m : Option ServerMsg} (h : (pollMsg s.ending s.script).1 = some (.ok m))
    (es : List (Arrival UInt8)) : (s.polled es).ending = s.ending := by
  simp [Incoming.polled, h, met?]

/-- What has been taken and what is still to come make up `msgs`. -/
def Awaits (msgs : List ServerMsg) (missing : List UInt8) (tr : HangupTrace) (s : Incoming) : Prop :=
  ∃ rest, takenMsgs tr ++ rest = msgs ∧ arrived s.script ++ missing = rest.flatMap writeMsg

/-- As long as every poll finds what it should, the stream stays cut at frames, unless a closed
connection has been read to its end. -/
structure HangupInv (msgs : List ServerMsg) (missing : List UInt8) (tr : HangupTrace)
    (s : Incoming) : Prop where
  gapFree : s.ending ≠ .alive → GapFree s.script
  awaits : Awaits msgs missing tr s ∨ s.ending = .eof ∧ arrived s.script = []

theorem takenMsgs_snoc (tr : HangupTrace) (s : Incoming) (c : PollCall) :
    takenMsgs (tr ++ [(s, c)]) = takenMsgs tr ++ (PollCall.taken? s).toList :=
  filterMap_snoc _ tr (s, c)

theorem Awaits.kept (h : Awaits msgs missing tr s) (c : PollCall)
    (hp : (pollMsg s.ending s.script).1 = some (.ok none))
    (hsame : arrived s'.script = arrived s.script) :
    Awaits msgs missing (tr ++ [(s, c)]) s' := by
  rcases h with ⟨rest, hsplit, hbytes⟩
  refine ⟨rest, ?_, by rw [hsame, hbytes]⟩
  simp [takenMsgs_snoc, PollCall.taken?, hp, hsplit]

theorem taken?_some {m : ServerMsg}
    (hp : (pollMsg s.ending s.script).1 = some (.ok (some m))) : PollCall.taken? s = some m := by
  simp [PollCall.taken?, hp]

/-- Nothing is there, or what is there starts the frame of the next message. -/
theorem Awaits.next (hmsgs : ∀ m ∈ msgs, m.Sendable) (h : Awaits msgs missing tr s) :
    arrived s.script = [] ∨ ∃ m rest, m.Sendable ∧ takenMsgs tr ++ m :: rest = msgs ∧
      arrived s.script ++ missing = writeMsg m ++ rest.flatMap writeMsg := by
  rcases h with ⟨rest, hsplit, hbytes⟩
  cases rest with
  | nil => exact Or.inl (List.append_eq_nil_iff.1 hbytes).1
  | cons m rest =>
      rw [List.flatMap_cons] at hbytes
      exact Or.inr ⟨m, rest, hmsgs m (by simp [← hsplit]), hsplit, hbytes⟩

theorem ready_of_arrived_nil (h : arrived es = []) : ready es = [] :=
  List.prefix_nil.1 (h ▸ ready_prefix_arrived es)

/-- A poll of a closed connection that finds a header or a pending error: it returns the next
message, or it fails and has read to the end. -/
theorem Awaits.closed_step (hmsgs : ∀ m ∈ msgs, m.Sendable) (hfree : GapFree s.script)
    (h : Awaits msgs missing tr s) {e : IoError} (he : s.ending.error? = some e)
    (hfinds : s.ending = .reset ∨ 4 ≤ (arrived s.script).length) :
    (∃ m es₁, pollMsg s.ending s.script = (some (.ok (some m)), es₁) ∧ GapFree es₁ ∧
        takenMsgs tr ++ [m] <+: msgs ∧ writeMsg m <+: arrived s.script ∧
        ∀ c, Awaits msgs missing (tr ++ [(s, c)]) (s.polled es₁)) ∨
      pollMsg s.ending s.script = (some (.error (.io e)), []) := by
  by_cases hfour : 4 ≤ (arrived s.script).length
  · rcases h.next hmsgs with hempty | ⟨m, rest, hm, hsplit, hbytes⟩
    · -- nothing is to come, and yet there are four bytes
      simp [hempty] at hfour
    · have hpre : arrived s.script <+: writeMsg m ++ rest.flatMap writeMsg := ⟨missing, hbytes⟩
      by_cases hwhole : (writeMsg m).length ≤ (arrived s.script).length
      · left
        have hframe : writeMsg m <+: arrived s.script :=
          List.prefix_of_prefix_length_le (List.prefix_append _ _) hpre hwhole
        rcases hframe with ⟨tail, htail⟩
        rcases pollMsg_frame s.ending hm hfree htail.symm with ⟨es₁, hpoll, harr, hkeep⟩
        refine ⟨m, es₁, hpoll, hkeep, ⟨rest, by simp [← hsplit]⟩, ⟨tail, htail⟩, fun c => ?_⟩
        refine ⟨rest, ?_, ?_⟩
        · rw [takenMsgs_snoc, taken?_some (by rw [hpoll])]
          simp [← hsplit]
        · rw [← htail, List.append_assoc] at hbytes
          have hleft : arrived (s.polled es₁).script = tail := harr
          rw [hleft]
          exact List.append_cancel_left hbytes
      · exact Or.inr (pollMsg_closed_torn he hm hfree hpre hfour (Nat.lt_of_not_le hwhole))
  · -- less than a header: the pending error is met
    right
    have hreset : s.ending = .reset := hfinds.resolve_right hfour
    rw [hreset] at he ⊢
    cases he
    exact pollMsg_reset hfree (Nat.lt_of_not_le hfour)

/-- A poll of an open connection that finds nothing or a whole frame. -/
theorem Awaits.open_step (hmsgs : ∀ m ∈ msgs, m.Sendable) (h : Awaits msgs missing tr s)
    (halive : s.ending = .alive) (hclean : PollClean s.script .poll)
    {r : Except ClientError (Option ServerMsg)} {es' : List (Arrival UInt8)}
    (hpoll : pollMsg s.ending s.script = (some r, es')) (c : PollCall) :
    Awaits msgs missing (tr ++ [(s, c)]) (s.polled es') ∧ (s.polled es').ending = .alive := by
  rcases h with ⟨rest, hsplit, hbytes⟩
  have hrest : ∀ m ∈ rest, m.Sendable := fun m hm => hmsgs m (by simp [← hsplit, hm])
  have hrun : ReadCall.poll.run s.script = (some r, es') := by
    rw [halive] at hpoll
    exact hpoll
  rcases ReadCall.run_aligned hrest hbytes hclean hrun with
    ⟨rfl, hsame⟩ | ⟨m, rest', rfl, rfl, hbytes', _⟩
  · have hnone : (pollMsg s.ending s.script).1 = some (.ok none) := by rw [hpoll]
    exact ⟨Awaits.kept ⟨rest, hsplit, hbytes⟩ c hnone hsame,
      (Incoming.polled_ok hnone es').trans halive⟩
  · have hsome : (pollMsg s.ending s.script).1 = some (.ok (some m)) := by rw [hpoll]
    refine ⟨⟨rest', ?_, hbytes'⟩, (Incoming.polled_ok hsome es').trans halive⟩
    rw [takenMsgs_snoc, taken?_some hsome]
    simp [← hsplit]

/-- What a poll of a closed connection finds, if it finds what it should. -/
theorem FindsFrame.closed (h : FindsFrame s c) {e : IoError} (he : s.ending.error? = some e) :
    s.ending = .reset ∨ 4 ≤ (arrived s.script).length := by
  cases hending : s.ending with
  | alive =>
      rw [hending] at he
      cases he
  | eof =>
      right
      simpa [FindsFrame, hending] using h
  | reset => exact Or.inl rfl

theorem error?_of_closed {ending : Ending} (h : ending ≠ .alive) : ∃ e, ending.error? = some e := by
  cases ending with
  | alive => exact absurd rfl h
  | eof => exact ⟨_, rfl⟩
  | reset => exact ⟨_, rfl⟩

/-- Behind the end of a closed connection no poll finds what it should. -/
theorem FindsFrame.not_at_end (h : FindsFrame s c) (hending : s.ending = .eof)
    (hempty : arrived s.script = []) : False := by
  simp [FindsFrame, hending, hempty] at h

theorem HangupInv.step (hmsgs : ∀ m ∈ msgs, m.Sendable) (h : HangupInv msgs missing tr s)
    (hfinds : FindsFrame s c) (hstep : (hangupSystem ending script).step s c = some s') :
    HangupInv msgs missing (tr ++ [(s, c)]) s' := by
  rcases hangupSystem_step hstep with ⟨r, es', hpoll, rfl⟩
  rcases h.awaits with hawaits | ⟨hending, hempty⟩
  · by_cases halive : s.ending = .alive
    · have hclean : PollClean s.script .poll := by simpa [FindsFrame, halive] using hfinds
      rcases hawaits.open_step hmsgs halive hclean hpoll c with ⟨hnext, halive'⟩
      exact ⟨fun hclosed => absurd halive' hclosed, Or.inl hnext⟩
    · rcases error?_of_closed halive with ⟨e, he⟩
      rcases hawaits.closed_step hmsgs (h.gapFree halive) he (hfinds.closed he) with
        ⟨m, es₁, hp, hfree, _, _, hnext⟩ | hp
      · rw [hpoll] at hp
        cases hp
        exact ⟨fun _ => hfree, Or.inl (hnext c)⟩
      · rw [hpoll] at hp
        cases hp
        have hend : (s.polled []).ending = .eof := by
          simp only [Incoming.polled, hpoll, met?]
          exact Ending.after_error he
        exact ⟨fun _ => by simp [Incoming.polled, GapFree], Or.inr ⟨hend, rfl⟩⟩
  · exact absurd hempty fun hempty => hfinds.not_at_end hending hempty

theorem hangupInv_of_guarded (hmsgs : ∀ m ∈ msgs, m.Sendable)
    (hscript : arrived script ++ missing = msgs.flatMap writeMsg)
    (hall : ending ≠ .alive → GapFree script) (h : Trace (hangupSystem ending script) tr s)
    (hfinds : Guarded FindsFrame tr) : HangupInv msgs missing tr s :=
  h.guarded (P := HangupInv msgs missing)
    ⟨hall, Or.inl ⟨msgs, by simp [takenMsgs], hscript⟩⟩
    (fun _ hs hC hstep => hs.step hmsgs hC hstep) hfinds

/-- What has been read of the stream are the frames of the messages taken. -/
theorem Awaits.arrived_script (h : Awaits msgs missing tr s)
    (hscript : arrived script ++ missing = msgs.flatMap writeMsg) :
    arrived script = (takenMsgs tr).flatMap writeMsg ++ arrived s.script := by
  rcases h with ⟨rest, hsplit, hbytes⟩
  apply (List.append_left_inj missing).mp
  calc
    arrived script ++ missing
        = (takenMsgs tr ++ rest).flatMap writeMsg := by rw [hscript, hsplit]
    _ = (takenMsgs tr).flatMap writeMsg ++ rest.flatMap writeMsg := List.flatMap_append
    _ = (takenMsgs tr).flatMap writeMsg ++ arrived s.script ++ missing := by
          rw [← hbytes, List.append_assoc]

/-- On an open connection that awaits `msgs`, a poll that finds something and says that nothing is
there has found a part of a frame. -/
theorem Awaits.ready_eq_nil (hmsgs : ∀ m ∈ msgs, m.Sendable) (h : Awaits msgs missing tr s)
    (hclean : PollClean s.script .poll) (hidle : (pollMsg .alive s.script).1 = some (.ok none)) :
    ready s.script = [] := by
  rcases hclean with hdry | ⟨hfour, hlen⟩
  · exact hdry
  · rcases h.next hmsgs with hempty | ⟨m, rest, hm, hsplit, hbytes⟩
    · exact ready_of_arrived_nil hempty
    · have hpre : ready s.script <+: writeMsg m ++ rest.flatMap writeMsg :=
        (ready_prefix_arrived s.script).trans ⟨missing, hbytes⟩
      -- the whole frame of `m` is there, so the poll would return `m`
      have hwhole := whole_of_pollClean hm hpre hfour hlen
      rcases List.prefix_of_prefix_length_le (List.prefix_append _ _) hpre hwhole with ⟨r, hr⟩
      rcases ReadCall.run_frame .poll hm hr.symm with ⟨es', hrun, _⟩
      have hmsg : pollMsg .alive s.script = (some (.ok (some m)), es') := hrun
      rw [hmsg] at hidle
      cases hidle

/-- A poll that does not find what it should says that nothing is there, of a closed connection or
of bytes that are available. -/
theorem HangupInv.findsFrame (hmsgs : ∀ m ∈ msgs, m.Sendable) (hinv : HangupInv msgs missing tr s)
    (hidle : (pollMsg s.ending s.script).1 = some (.ok none) →
      s.ending = .alive ∧ ready s.script = []) (c : PollCall) : FindsFrame s c := by
  by_contra hnot
  cases hending : s.ending with
  -- with an error pending any poll will do; else less than a header is there, or part of a frame
  | reset => exact hnot (by simp [FindsFrame, hending])
  | eof =>
      -- `read_server_msg` takes this for an empty socket
      have hshort : (arrived s.script).length < 4 := by simpa [FindsFrame, hending] using hnot
      have hfree := hinv.gapFree (by simp [hending])
      have hpoll : pollMsg s.ending s.script = (some (.ok none), []) :=
        pollMsg_short (by simp [hending]) hfree hshort
      have halive := (hidle (by rw [hpoll])).1
      rw [hending] at halive
      cases halive
  | alive =>
      have hunclean : ¬ PollClean s.script .poll := by simpa [FindsFrame, hending] using hnot
      have hpos : ready s.script ≠ [] := fun hdry => hunclean (Or.inl hdry)
      rcases hinv.awaits with hawaits | ⟨hclosed, _⟩
      · rcases hawaits.next hmsgs with hempty | ⟨m, rest, hm, hsplit, hbytes⟩
        · exact hpos (ready_of_arrived_nil hempty)
        · have htorn := pollMsg_open_torn hm ⟨missing, hbytes⟩ hpos hunclean
          rw [← hending] at htorn
          exact hpos (hidle htorn).2
      · rw [hending] at hclosed
        cases hclosed

/-- A poll that finds what it should and says that nothing is there is one of an open connection
with no byte available. -/
theorem HangupInv.idle (hmsgs : ∀ m ∈ msgs, m.Sendable) (hinv : HangupInv msgs missing tr s)
    (hfinds : FindsFrame s c) (hidle : (pollMsg s.ending s.script).1 = some (.ok none)) :
    s.ending = .alive ∧ ready s.script = [] := by
  rcases hinv.awaits with hawaits | ⟨hending, hempty⟩
  · by_cases halive : s.ending = .alive
    · refine ⟨halive, hawaits.ready_eq_nil hmsgs ?_ (halive ▸ hidle)⟩
      simpa [FindsFrame, halive] using hfinds
    · -- a closed connection returns a message or fails
      rcases error?_of_closed halive with ⟨e, he⟩
      rcases hawaits.closed_step hmsgs (hinv.gapFree halive) he (hfinds.closed he) with
        ⟨m, es₁, hmsg, _⟩ | herr
      · rw [hmsg] at hidle
        cases hidle
      · rw [herr] at hidle
        cases hidle
  · exact absurd hempty fun hempty => hfinds.not_at_end hending hempty

theorem guarded_of_idle (hmsgs : ∀ m ∈ msgs, m.Sendable)
    (hscript : arrived script ++ missing = msgs.flatMap writeMsg)
    (hall : ending ≠ .alive → GapFree script) (h : Trace (hangupSystem ending script) tr s)
    (hidle : ∀ p ∈ tr, p.2.SaysIdle p.1 → p.1.ending = .alive ∧ ready p.1.script = []) :
    Guarded FindsFrame tr := by
  -- The first poll that finds less starts where all before it found what they should.
  induction h with
  | start => simp
  | snoc htr hstep ih =>
      rename_i tr s t c
      have hbefore := ih fun p hp => hidle p (List.mem_append_left _ hp)
      have hinv := hangupInv_of_guarded hmsgs hscript hall htr hbefore
      refine (guarded_snoc _ _ _ _).2 ⟨hbefore, hinv.findsFrame hmsgs (fun hp => ?_) c⟩
      exact hidle (s, c) (by simp) ((PollCall.saysIdle_iff c).mpr hp)

theorem dead_of_guarded (hmsgs : ∀ m ∈ msgs, m.Sendable)
    (hscript : arrived script ++ missing = msgs.flatMap writeMsg)
    (hinv : HangupInv msgs missing tr s) (hclosed : s.ending ≠ .alive) (hfinds : FindsFrame s c)
    (hret : AllReturned msgs script tr) : c.Fails s := by
  rcases hinv.awaits with hawaits | ⟨hending, hempty⟩
  · rcases error?_of_closed hclosed with ⟨e, he⟩
    rcases hawaits.closed_step hmsgs (hinv.gapFree hclosed) he (hfinds.closed he) with
      ⟨m, es₁, _, _, hmore, hframe, _⟩ | hpoll
    · -- One more complete message was waiting.
      have hsent : (takenMsgs tr ++ [m]).flatMap writeMsg <+: arrived script := by
        rw [hawaits.arrived_script hscript, List.flatMap_append, List.flatMap_singleton]
        exact (List.prefix_append_right_inj _).2 hframe
      have hle := (hret _ hmore hsent).length_le
      rw [List.length_append] at hle
      exact absurd hle (Nat.not_succ_le_self _)
    · exact PollCall.fails_of_error c (by rw [hpoll])
  · exact absurd hempty fun hempty => hfinds.not_at_end hending hempty

end Runs

/-- Polling tells a dead server from an idle one on exactly the runs in which every poll of a closed
connection finds a whole header or a pending error, and every poll of an open one finds nothing or
all of the next frame. -/
theorem deadOrIdle_iff {ending : Ending} {msgs : List ServerMsg} {script : List (Arrival UInt8)}
    {tr : HangupTrace} {s : Incoming}
    (hmsgs : ∀ m ∈ msgs, m.Sendable) (hscript : arrived script <+: msgs.flatMap writeMsg)
    (hall : ending ≠ .alive → GapFree script) (h : Trace (hangupSystem ending script) tr s) :
    DeadOrIdle msgs script tr ↔ Guarded FindsFrame tr := by
  rcases hscript with ⟨missing, hbytes⟩
  constructor
  · intro hprop
    exact guarded_of_idle hmsgs hbytes hall h hprop.idle
  · intro hfinds
    -- before every call of the run the stream is cut at a frame
    have hinv : ∀ {tr' s' c}, tr' ++ [(s', c)] <+: tr →
        HangupInv msgs missing tr' s' ∧ FindsFrame s' c := by
      intro tr' s' c hpre
      have hbefore := (h.of_prefix hpre).1
      refine ⟨hangupInv_of_guarded hmsgs hbytes hall hbefore fun p hp => ?_, ?_⟩
      · exact hfinds p (hpre.subset (List.mem_append_left _ hp))
      · exact hfinds (s', c) (hpre.subset (by simp))
    constructor
    · intro tr' s' c hpre hclosed hret
      rcases hinv hpre with ⟨hs, hfound⟩
      exact dead_of_guarded hmsgs hbytes hs hclosed hfound hret
    · intro p hp hidle
      rcases exists_prefix_of_mem hp with ⟨pre, hpre⟩
      rcases hinv hpre with ⟨hs, hfound⟩
      exact hs.idle hmsgs hfound ((PollCall.saysIdle_iff p.2).mp hidle)

/-- A `Pong` and the header of another one, of a server that then closed with a byte unread. -/
def tornReset : Incoming :=
  { script := [.data [1, 0, 0, 0, 3, 1, 0, 0, 0]]
    ending := .reset }

/-- The equivalence there: the second call reports the error. -/
theorem deadOrIdle_iff_torn :
    DeadOrIdle [.pong, .pong] tornReset.script
        [(tornReset, .pollMsg), ({ tornReset with script := [.data [1, 0, 0, 0]] }, .pollEvent)] ↔
      Guarded FindsFrame
        [(tornReset, .pollMsg),
          ({ tornReset with script := [.data [1, 0, 0, 0]] }, .pollEvent)] := by
  have hmsgs : ∀ m ∈ [ServerMsg.pong, .pong], m.Sendable := by simp [ServerMsg.Sendable]
  have htrace : Trace (hangupSystem .reset tornReset.script)
      [(tornReset, .pollMsg), ({ tornReset with script := [.data [1, 0, 0, 0]] }, .pollEvent)]
      { script := [], ending := .eof } :=
    (Trace.start.snoc rfl).snoc rfl
  exact deadOrIdle_iff hmsgs (by decide) (by simp [tornReset, GapFree]) htrace

/-- One `Pong` of a server that then closed at the frame boundary. -/
def closedScript : List (Arrival UInt8) := [.data (writeMsg .pong)]

/-- After the message, `poll_msg` returns `Ok(None)` and `cm108_poll_event` returns 0, though the
server is gone. -/
theorem deadOrIdle_fails :
    ∃ tr s, Trace (hangupSystem .eof closedScript) tr s ∧ takenMsgs tr = [.pong] ∧
      (pollMsg s.ending s.script).1 = some (.ok none) ∧
      (cm108PollEvent false false s.ending s.script).1 = some (0, none) ∧ s.ending = .eof ∧
      ∀ c, ¬ DeadOrIdle [.pong] closedScript (tr ++ [(s, c)]) := by
  refine ⟨_, _, Trace.start.snoc (a := .pollMsg) rfl, rfl, rfl, rfl, rfl, fun c hprop => ?_⟩
  have hidle : c.SaysIdle { script := [], ending := .eof } := (PollCall.saysIdle_iff c).mpr rfl
  have halive := (hprop.idle ({ script := [], ending := .eof }, c) (by simp; exact Or.inr rfl) hidle).1
  cases halive

end Cm108Driver
