import Cm108Driver.Client.Calls
import Cm108Driver.Lib.Runs

/-!
# Polling — `poll_msg` and `wait_msg` on the server's stream

One client and a live server: the state is what the socket will still deliver, a step is one call
of the client that returns.  A blocking call that finds less than a frame is no step, it waits.

`read_server_msg` keeps nothing between calls, so a `poll_msg` that meets the socket dry part-way
through a frame drops the part it has read.  The stream is delivered whole exactly on the runs
without such a poll.
-/

namespace Cm108Driver

open Lib

/-! ## The calls -/

inductive ReadCall
  | poll
  | wait
  deriving DecidableEq, Repr

namespace ReadCall

def mode : ReadCall → Mode
  | poll => .nonblocking
  | wait => .blocking

/-- The call on a connection that the server keeps open. -/
def run : ReadCall → List (Arrival UInt8) → CallResult (Option ServerMsg) × List (Arrival UInt8)
  | poll, es => pollMsg .alive es
  | wait, es => waitMsg .alive es

end ReadCall

def pollSystem (script : List (Arrival UInt8)) : System (List (Arrival UInt8)) ReadCall where
  init := script
  step es c :=
    match c.run es with
    | (some _, es') => some es'
    | (none, _) => none

/-- What the calls of a run return, in order. -/
def returned (tr : List (List (Arrival UInt8) × ReadCall)) :
    List (Except ClientError (Option ServerMsg)) :=
  tr.filterMap fun p => (p.2.run p.1).1

/-- The messages among the results. -/
def messages (tr : List (List (Arrival UInt8) × ReadCall)) : List ServerMsg :=
  (returned tr).filterMap fun
    | .ok m => m
    | .error _ => none

/-- A poll finds either nothing or all of the next frame: the four bytes of its header and as many
bytes behind them as the header says. -/
def PollClean (es : List (Arrival UInt8)) : ReadCall → Prop
  | .poll => ready es = [] ∨
      (4 ≤ (ready es).length ∧ 4 + ofLe ((ready es).take 4) ≤ (ready es).length)
  | .wait => True

/-- What the run should do with the stream of `msgs`: the messages come out in order, no call
fails, a call that returns nothing leaves the bytes on the stream, and once all of them have
arrived as many further calls as messages are missing return these. -/
structure StreamReturned (msgs : List ServerMsg) (script : List (Arrival UInt8))
    (tr : List (List (Arrival UInt8) × ReadCall)) : Prop where
  inOrder : ∀ {tr' es}, Trace (pollSystem script) tr' es → tr' <+: tr → messages tr' <+: msgs
  noError : ∀ e, Except.error e ∉ returned tr
  noLoss : ∀ p ∈ tr, (p.2.run p.1).1 = some (.ok none) → arrived (p.2.run p.1).2 = arrived p.1
  complete : ∀ {tr' es}, Trace (pollSystem script) tr' es → tr' <+: tr →
    arrived script = msgs.flatMap writeMsg → GapFree es →
    ∀ calls : List ReadCall, (messages tr').length + calls.length = msgs.length →
      ∃ es', (pollSystem script).exec es calls = some es' ∧
        messages (tr' ++ (pollSystem script).steps es calls) = msgs

/-! ## One call -/

/-- Either call returns a frame that is there for it. -/
theorem ReadCall.run_frame (c : ReadCall) {es : List (Arrival UInt8)} {m : ServerMsg}
    {r : List UInt8} (hm : m.Sendable) (havail : available c.mode es = writeMsg m ++ r) :
    ∃ es', c.run es = (some (.ok (some m)), es') ∧
      arrived es' = (arrived es).drop (writeMsg m).length ∧ (GapFree es → GapFree es') := by
  rcases readServerMsg_writeMsg .alive hm havail with ⟨es', hread, harr, _, hfree⟩
  refine ⟨es', ?_, harr, hfree⟩
  cases c with
  | poll =>
      have hpoll : readServerMsg .nonblocking .alive es = (.ok (some m), es') := hread
      simp [run, pollMsg, hpoll]
  | wait =>
      have hwait : readServerMsg .blocking .alive es = (.ok (some m), es') := hread
      simp [run, waitMsg, hwait]

/-- A poll on a dry socket returns nothing and takes nothing. -/
theorem ReadCall.poll_dry {es : List (Arrival UInt8)} (h : ready es = []) :
    ∃ es', ReadCall.poll.run es = (some (.ok none), es') ∧ arrived es' = arrived es := by
  rcases read_nonblocking_dry clientReader h rfl with ⟨es', hread, harr⟩
  exact ⟨es', by simp [run, pollMsg, readServerMsg, hread], harr⟩

/-- A wait that returns has found the whole of the next frame. -/
theorem ReadCall.wait_whole {es : List (Arrival UInt8)} {m : ServerMsg} {r : List UInt8}
    (hm : m.Sendable) (hpre : arrived es <+: writeMsg m ++ r)
    (hret : (ReadCall.wait.run es).1 ≠ none) : (writeMsg m).length ≤ (arrived es).length := by
  by_contra hshort
  have hwidth : (toVec m).length < 4294967296 := Nat.lt_of_le_of_lt hm.length_le (by decide)
  have hwaits := read_blocking_waits clientReader hpre (Nat.lt_of_not_le hshort) hm.length_le hwidth
  apply hret
  cases hr : readServerMsg .blocking .alive es with
  | mk out es' =>
      have hout : out = .pending := by
        rw [← hwaits, ← readServerMsg, hr]
      subst hout
      simp [run, waitMsg, hr]

/-- A wait at the end of the stream does not return. -/
theorem ReadCall.wait_end {es : List (Arrival UInt8)} (h : arrived es = []) :
    (ReadCall.wait.run es).1 = none := by
  have hread : readServerMsg .blocking .alive es = (.pending, []) :=
    read_blocking_short clientReader .alive (by simp [h])
  simp [run, waitMsg, hread]

/-- A poll that finds a whole frame by its header finds the whole of the next message. -/
theorem whole_of_pollClean {es : List (Arrival UInt8)} {m : ServerMsg} {r : List UInt8}
    (hm : m.Sendable) (hpre : ready es <+: writeMsg m ++ r) (hfour : 4 ≤ (ready es).length)
    (hlen : 4 + ofLe ((ready es).take 4) ≤ (ready es).length) :
    (writeMsg m).length ≤ (ready es).length := by
  have hwidth : (toVec m).length < 4294967296 := Nat.lt_of_le_of_lt hm.length_le (by decide)
  have htake : (ready es).take 4 = toLe 4 (toVec m).length := by
    rw [List.prefix_iff_eq_take.1 hpre, List.take_take, Nat.min_eq_left hfour, writeMsg,
      take_four_frame]
  rw [htake, ofLe_header hwidth] at hlen
  simpa [writeMsg] using hlen

/-- On an aligned stream, a clean call that returns either reports nothing and takes nothing, or
returns the next message and takes its frame. -/
theorem ReadCall.run_aligned {c : ReadCall} {es es' : List (Arrival UInt8)}
    {missing : List UInt8} {rest : List ServerMsg} {r : Except ClientError (Option ServerMsg)}
    (hrest : ∀ m ∈ rest, m.Sendable) (hbytes : arrived es ++ missing = rest.flatMap writeMsg)
    (hclean : PollClean es c) (hrun : c.run es = (some r, es')) :
    (r = .ok none ∧ arrived es' = arrived es) ∨
      ∃ m rest', rest = m :: rest' ∧ r = .ok (some m) ∧
        arrived es' ++ missing = rest'.flatMap writeMsg ∧ (GapFree es → GapFree es') := by
  have hret : (c.run es).1 ≠ none := by simp [hrun]
  have havail := available_prefix_arrived c.mode es
  cases rest with
  | nil =>
      -- nothing is to come: a blocking read would not return
      have hempty : arrived es = [] := (List.append_eq_nil_iff.1 hbytes).1
      cases c with
      | wait => exact absurd (wait_end hempty) hret
      | poll =>
          have hdry : ready es = [] := List.prefix_nil.1 (hempty ▸ ready_prefix_arrived es)
          rcases poll_dry hdry with ⟨es₁, hpoll, harr⟩
          rw [hrun] at hpoll
          cases hpoll
          exact Or.inl ⟨rfl, harr⟩
  | cons m rest' =>
      have hm := hrest m (List.mem_cons_self ..)
      rw [List.flatMap_cons] at hbytes
      have hpre : arrived es <+: writeMsg m ++ rest'.flatMap writeMsg := ⟨missing, hbytes⟩
      -- Either the poll is dry, or the whole frame of `m` is available.
      have hcase : (c = .poll ∧ ready es = []) ∨
          (writeMsg m).length ≤ (available c.mode es).length := by
        cases c with
        | wait => exact Or.inr (wait_whole hm hpre hret)
        | poll =>
            rcases hclean with hdry | ⟨hfour, hlen⟩
            · exact Or.inl ⟨rfl, hdry⟩
            · exact Or.inr (whole_of_pollClean hm ((ready_prefix_arrived es).trans hpre) hfour hlen)
      rcases hcase with ⟨rfl, hdry⟩ | hwhole
      · rcases poll_dry hdry with ⟨es₁, hpoll, harr⟩
        rw [hrun] at hpoll
        cases hpoll
        exact Or.inl ⟨rfl, harr⟩
      · have hframe : writeMsg m <+: available c.mode es :=
          List.prefix_of_prefix_length_le (List.prefix_append _ _) (havail.trans hpre) hwhole
        rcases hframe with ⟨tail, htail⟩
        rcases run_frame c hm htail.symm with ⟨es₁, hcall, harr, hfree⟩
        rw [hrun] at hcall
        cases hcall
        refine Or.inr ⟨m, rest', rfl, rfl, ?_, hfree⟩
        have hlen : (writeMsg m).length ≤ (arrived es).length := Nat.le_trans hwhole havail.length_le
        rw [harr, ← List.drop_append_of_le_length hlen, hbytes, List.drop_left' rfl]

/-- A poll that is not clean fails, or returns nothing although it has taken bytes. -/
theorem ReadCall.poll_unclean {es : List (Arrival UInt8)} (h : ¬ PollClean es .poll) :
    (∃ e, (ReadCall.poll.run es).1 = some (.error e)) ∨
      ((ReadCall.poll.run es).1 = some (.ok none) ∧
        arrived (ReadCall.poll.run es).2 ≠ arrived es) := by
  have hpos : ready es ≠ [] := fun hnil => h (Or.inl hnil)
  have hshort : 4 ≤ (ready es).length → (ready es).length < 4 + ofLe ((ready es).take 4) :=
    fun hfour => Nat.lt_of_not_le fun hlen => h (Or.inr ⟨hfour, hlen⟩)
  rcases read_nonblocking_torn clientReader hpos hshort rfl with ⟨es', htoo | ⟨hret, hlost⟩⟩
  · exact Or.inl ⟨_, by simp [run, pollMsg, readServerMsg, htoo]; rfl⟩
  · have hne : arrived es' ≠ arrived es := fun hsame => by
      rw [hsame] at hlost
      exact Nat.lt_irrefl _ hlost
    rcases hret with hret | hret
    · exact Or.inr (by simpa [run, pollMsg, readServerMsg, hret] using hne)
    · exact Or.inr (by simpa [run, pollMsg, readServerMsg, hret] using hne)

/-! ## Whole runs -/

theorem pollSystem_step {script es es' : List (Arrival UInt8)} {c : ReadCall}
    (h : (pollSystem script).step es c = some es') : ∃ r, c.run es = (some r, es') := by
  cases hr : c.run es with
  | mk out rest =>
      cases out with
      | none => simp [pollSystem, hr] at h
      | some r =>
          simp only [pollSystem, hr, Option.some.injEq] at h
          exact ⟨r, by rw [h]⟩

theorem messages_append (tr tr' : List (List (Arrival UInt8) × ReadCall)) :
    messages (tr ++ tr') = messages tr ++ messages tr' := by
  simp [messages, returned]

theorem messages_none {es : List (Arrival UInt8)} {c : ReadCall}
    (h : (c.run es).1 = some (.ok none)) : messages [(es, c)] = [] := by
  simp [messages, returned, h]

theorem messages_some {es : List (Arrival UInt8)} {c : ReadCall} {m : ServerMsg}
    (h : (c.run es).1 = some (.ok (some m))) : messages [(es, c)] = [m] := by
  simp [messages, returned, h]

/-- What has been returned and what is still to come make up `msgs`, and the stream, with the bytes
that the script never delivers, is what is still to come. -/
def Aligned (msgs : List ServerMsg) (missing : List UInt8)
    (tr : List (List (Arrival UInt8) × ReadCall)) (es : List (Arrival UInt8)) : Prop :=
  ∃ rest, messages tr ++ rest = msgs ∧ arrived es ++ missing = rest.flatMap writeMsg

section Runs

variable {msgs : List ServerMsg} {script : List (Arrival UInt8)} {missing : List UInt8}
  {tr : List (List (Arrival UInt8) × ReadCall)} {es : List (Arrival UInt8)}

/-- A clean call on an aligned stream does not fail, and one that returns nothing takes nothing. -/
theorem Aligned.call (hmsgs : ∀ m ∈ msgs, m.Sendable) (h : Aligned msgs missing tr es)
    {c : ReadCall} {es' : List (Arrival UInt8)} {r : Except ClientError (Option ServerMsg)}
    (hclean : PollClean es c) (hrun : c.run es = (some r, es')) :
    ∃ m es₁, c.run es = (some (.ok m), es₁) ∧ (m = none → arrived es₁ = arrived es) := by
  rcases h with ⟨rest, hsplit, hbytes⟩
  have hrest : ∀ m ∈ rest, m.Sendable := fun m hm => hmsgs m (by simp [← hsplit, hm])
  rcases ReadCall.run_aligned hrest hbytes hclean hrun with
    ⟨rfl, hsame⟩ | ⟨m, rest', rfl, rfl, _⟩
  · exact ⟨none, es', hrun, fun _ => hsame⟩
  · exact ⟨some m, es', hrun, fun hm => by cases hm⟩

/-- A clean step keeps the alignment. -/
theorem Aligned.step (hmsgs : ∀ m ∈ msgs, m.Sendable) (h : Aligned msgs missing tr es)
    {c : ReadCall} {es' : List (Arrival UInt8)} {r : Except ClientError (Option ServerMsg)}
    (hclean : PollClean es c) (hrun : c.run es = (some r, es')) :
    Aligned msgs missing (tr ++ [(es, c)]) es' := by
  rcases h with ⟨rest, hsplit, hbytes⟩
  have hrest : ∀ m ∈ rest, m.Sendable := fun m hm => hmsgs m (by simp [← hsplit, hm])
  have hfst : (c.run es).1 = some r := by rw [hrun]
  rcases ReadCall.run_aligned hrest hbytes hclean hrun with
    ⟨rfl, hsame⟩ | ⟨m, rest', rfl, rfl, hbytes', _⟩
  · refine ⟨rest, ?_, by rw [hsame, hbytes]⟩
    rw [messages_append, messages_none hfst, List.append_nil, hsplit]
  · refine ⟨rest', ?_, hbytes'⟩
    rw [messages_append, messages_some hfst, List.append_assoc]
    exact hsplit

theorem aligned_of_guarded (hmsgs : ∀ m ∈ msgs, m.Sendable)
    (hscript : arrived script ++ missing = msgs.flatMap writeMsg)
    (h : Trace (pollSystem script) tr es) (hclean : Guarded PollClean tr) :
    Aligned msgs missing tr es := by
  refine h.guarded (P := Aligned msgs missing) ?_ ?_ hclean
  · exact ⟨msgs, by simp [messages, returned], hscript⟩
  · intro tr s c t _ hs hC hstep
    rcases pollSystem_step hstep with ⟨r, hrun⟩
    exact hs.step hmsgs hC hrun

/-- With whole frames on the stream and no gap in it, every call returns the next message. -/
theorem exec_gapFree (script : List (Arrival UInt8)) {rest : List ServerMsg} (hrest : ∀ m ∈ rest, m.Sendable)
    (hbytes : arrived es = rest.flatMap writeMsg) (hfree : GapFree es) {calls : List ReadCall}
    (hcalls : calls.length = rest.length) :
    ∃ es', (pollSystem script).exec es calls = some es' ∧
      messages ((pollSystem script).steps es calls) = rest := by
  induction calls generalizing rest es with
  | nil =>
      have hnil : rest = [] := List.length_eq_zero_iff.1 (by simpa using hcalls.symm)
      subst hnil
      exact ⟨es, rfl, rfl⟩
  | cons c cs ih =>
      cases rest with
      | nil => simp at hcalls
      | cons m rest' =>
          rw [List.flatMap_cons] at hbytes
          -- without a gap a poll finds the whole frame as a wait does
          have havail : available c.mode es = writeMsg m ++ rest'.flatMap writeMsg := by
            rw [hfree.available_eq, hbytes]
          rcases ReadCall.run_frame c (hrest m (List.mem_cons_self ..)) havail with
            ⟨es₁, hrun, harr, hkeep⟩
          rw [hbytes, List.drop_left' rfl] at harr
          have hcs : cs.length = rest'.length := by simpa using hcalls
          rcases ih (fun m' hm' => hrest m' (List.mem_cons_of_mem _ hm')) harr (hkeep hfree) hcs with
            ⟨es', hexec, hmsgs⟩
          have hstep : (pollSystem script).step es c = some es₁ := by simp [pollSystem, hrun]
          refine ⟨es', by simpa [System.exec, hstep] using hexec, ?_⟩
          have hhead : messages [(es, c)] = [m] := messages_some (by rw [hrun])
          rw [System.steps, hstep]
          show messages ([(es, c)] ++ (pollSystem script).steps es₁ cs) = m :: rest'
          rw [messages_append, hhead, hmsgs]
          rfl

end Runs

/-- The stream is delivered whole on exactly the runs in which every poll finds either nothing or
all of the next frame. -/
theorem streamReturned_iff {msgs : List ServerMsg} {script : List (Arrival UInt8)}
    {tr : List (List (Arrival UInt8) × ReadCall)} {es : List (Arrival UInt8)}
    (hmsgs : ∀ m ∈ msgs, m.Sendable) (hscript : arrived script <+: msgs.flatMap writeMsg)
    (h : Trace (pollSystem script) tr es) :
    StreamReturned msgs script tr ↔ Guarded PollClean tr := by
  rcases hscript with ⟨missing, hbytes⟩
  constructor
  · -- a poll that is not clean fails or loses bytes, and the property excludes both
    intro hprop p hp
    rcases p with ⟨es₀, c⟩
    cases c with
    | wait => trivial
    | poll =>
        by_contra hunclean
        rcases ReadCall.poll_unclean hunclean with ⟨e, herr⟩ | ⟨hnone, hlost⟩
        · exact hprop.noError e (List.mem_filterMap.2 ⟨_, hp, herr⟩)
        · exact hlost (hprop.noLoss _ hp hnone)
  · intro hclean
    have haligned : ∀ {tr' es'}, Trace (pollSystem script) tr' es' → tr' <+: tr →
        Aligned msgs missing tr' es' := fun htr' hpre =>
      aligned_of_guarded hmsgs hbytes htr' fun p hp => hclean p (hpre.subset hp)
    -- Every call of the run starts from an aligned stream.
    have hcalls : ∀ p ∈ tr, ∃ m es', p.2.run p.1 = (some (.ok m), es') ∧
        (m = none → arrived es' = arrived p.1) := by
      intro p hp
      rcases exists_prefix_of_mem hp with ⟨pre, hpre⟩
      rcases h.of_prefix hpre with ⟨hbefore, es₁, hstep, _⟩
      rcases pollSystem_step hstep with ⟨r, hrun⟩
      exact (haligned hbefore ((List.prefix_append _ _).trans hpre)).call hmsgs (hclean p hp) hrun
    refine ⟨?_, ?_, ?_, ?_⟩
    · intro tr' es' htr' hpre
      rcases haligned htr' hpre with ⟨rest, hsplit, _⟩
      exact ⟨rest, hsplit⟩
    · intro e he
      rcases List.mem_filterMap.1 he with ⟨p, hp, hret⟩
      rcases hcalls p hp with ⟨m, es', hrun, _⟩
      rw [hrun] at hret
      cases hret
    · intro p hp hnone
      rcases hcalls p hp with ⟨m, es', hrun, hkeep⟩
      rw [hrun] at hnone ⊢
      cases hnone
      exact hkeep rfl
    · -- when all is there without a gap, further calls return what is left
      intro tr' es' htr' hpre hall hfree calls hcount
      have hmissing : missing = [] := by
        rw [hall] at hbytes
        simpa using hbytes
      rcases haligned htr' hpre with ⟨rest, hsplit, hrest⟩
      rw [hmissing, List.append_nil] at hrest
      have hlen : calls.length = rest.length := by
        have hlen := congrArg List.length hsplit
        rw [List.length_append] at hlen
        omega
      rcases exec_gapFree script (fun m hm => hmsgs m (by simp [← hsplit, hm])) hrest
        hfree hlen with ⟨es'', hexec, hmsgs'⟩
      exact ⟨es'', hexec, by rw [messages_append, hmsgs', hsplit]⟩

/-- A `Pong`, and behind it an event cut inside its length prefix. -/
def cutScript : List (Arrival UInt8) :=
  [.data [1, 0, 0, 0, 3, 2, 0, 0], .gap, .data [0, 1, 0]]

/-- The equivalence at a poll that finds its frame whole and one that finds three bytes of it. -/
theorem streamReturned_iff_cut :
    ∃ tr es, Trace (pollSystem cutScript) tr es ∧ returned tr = [.ok (some .pong), .ok none] ∧
      (StreamReturned [.pong, .radioEvent .pttAssert] cutScript tr ↔ Guarded PollClean tr) ∧
      ¬ Guarded PollClean tr := by
  have hmsgs : ∀ m ∈ [ServerMsg.pong, .radioEvent .pttAssert], m.Sendable := by
    simp [ServerMsg.Sendable]
  have hrun := ((Trace.start (S := pollSystem cutScript)).snoc (a := .poll) rfl).snoc
    (a := .poll) rfl
  refine ⟨_, _, hrun, by decide, streamReturned_iff hmsgs (by decide) hrun, fun hclean => ?_⟩
  rcases ((guarded_snoc _ _ _ _).1 hclean).2 with hdry | ⟨hfour, _⟩
  · cases hdry
  · exact absurd hfour (by decide)

/-! ## A poll between the two writes of `write_msg` -/

/-- The length prefix of the first event arrives alone; its payload and the second event follow. -/
def splitScript : List (Arrival UInt8) :=
  [.data [2, 0, 0, 0], .gap, .data [1, 0, 2, 0, 0, 0, 1, 2]]

/-- The first poll takes the prefix and returns nothing; the second reads the payload as a header
and fails. -/
theorem streamReturned_fails :
    ∃ tr es, Trace (pollSystem splitScript) tr es ∧
      arrived splitScript =
        [ServerMsg.radioEvent .pttAssert, .radioEvent .cosActive].flatMap writeMsg ∧
      returned tr = [.ok none, .error (.io (.invalidData "message too large"))] ∧
      ¬ StreamReturned [.radioEvent .pttAssert, .radioEvent .cosActive] splitScript tr := by
  refine ⟨_, _, (Trace.start.snoc (a := .poll) rfl).snoc (a := .poll) rfl, by decide, by decide, ?_⟩
  intro h
  exact h.noError (.io (.invalidData "message too large")) (by decide)

end Cm108Driver
