import Cm108Driver.Client.Calls
import Cm108Driver.Lib.Runs
import Mathlib.Data.List.Flatten

/-!
# Events — four calls on one message stream

`poll_msg`, `wait_msg`, `read_audio_blocking` and `get_stats` all read from the one stream of a
`Cm108Client`.  The first two hand out the message they read.  The other two wait for one kind of
message and drop every other one on the way ("stale notification or other message — keep waiting");
there is no queue of deferred messages.

Every message is taken by exactly one call, in order, and the radio events that come out are those
taken by `poll_msg` and `wait_msg`.
-/

namespace Cm108Driver

open Lib

/-! ## Deliveries -/

/-- Complete frames reach the socket one after the other; `none` is a pause. -/
def deliver (ds : List (Option ServerMsg)) : List (Arrival UInt8) :=
  ds.map fun
    | some m => .data (writeMsg m)
    | none => .gap

/-- The messages delivered. -/
def sent (ds : List (Option ServerMsg)) : List ServerMsg :=
  ds.filterMap id

def radioEvents (msgs : List ServerMsg) : List RadioEvent :=
  msgs.filterMap fun
    | .radioEvent ev => some ev
    | _ => none

/-! ## The calls of one client -/

inductive StreamCall
  | poll
  | wait
  | readAudio (page : AudioFrame)
  | getStats

/-- The client, its socket, and whether a call on it is still waiting. -/
structure ClientWorld where
  client : Cm108Client
  script : List (Arrival UInt8)
  blocked : Bool

namespace StreamCall

/-- Whether the call hands out the messages it reads. -/
def handsOut : StreamCall → Bool
  | poll => true
  | wait => true
  | readAudio _ => false
  | getStats => false

/-- The world after the call, on a connection that the server keeps open. -/
def next (w : ClientWorld) : StreamCall → ClientWorld
  | poll =>
      let r := pollMsg .alive w.script
      { w with script := r.2, blocked := r.1.isNone }
  | wait =>
      let r := waitMsg .alive w.script
      { w with script := r.2, blocked := r.1.isNone }
  | readAudio page =>
      let r := readAudioBlocking w.client page .alive w.script
      { client := r.2.1, script := r.2.2, blocked := r.1.isNone }
  | getStats =>
      let r := Cm108Driver.getStats .alive w.script
      { w with script := r.2, blocked := r.1.isNone }

/-- The radio event that the call returns, if any. -/
def event? (w : ClientWorld) : StreamCall → Option RadioEvent
  | poll =>
      match (pollMsg .alive w.script).1 with
      | some (.ok (some (.radioEvent ev))) => some ev
      | _ => none
  | wait =>
      match (waitMsg .alive w.script).1 with
      | some (.ok (some (.radioEvent ev))) => some ev
      | _ => none
  | readAudio _ => none
  | getStats => none

end StreamCall

/-- The runs of one client on the given deliveries; behind a call that waits forever there is no
further one. -/
def clientSystem (ds : List (Option ServerMsg)) : System ClientWorld StreamCall where
  init :=
    { client := Cm108Client.connected
      script := deliver ds
      blocked := false }
  step w c := if w.blocked then none else some (c.next w)

/-- The radio events returned by the calls of a run, in order. -/
def returnedEvents (tr : List (ClientWorld × StreamCall)) : List RadioEvent :=
  tr.filterMap fun p => p.2.event? p.1

/-! ## What a call takes off the stream -/

/-- A call that hands out what it reads takes the message it returns. -/
def ReadTakes (r : CallResult (Option ServerMsg)) (seg : List ServerMsg) : Prop :=
  (r = none ∧ seg = []) ∨ ∃ m, r = some (.ok m) ∧ seg = m.toList

/-- A call that waits takes the first message it wants and all those in front of it. -/
def AwaitTakes {α : Type} (want : ServerMsg → Option α) (r : CallResult α)
    (seg : List ServerMsg) : Prop :=
  (r = none ∧ ∀ m ∈ seg, want m = none) ∨
    ∃ skipped m a, seg = skipped ++ [m] ∧ (∀ s ∈ skipped, want s = none) ∧ want m = some a ∧
      r = some (.ok a)

/-- The call in the world `w` takes the messages `seg`. -/
def Takes (w : ClientWorld) : StreamCall → List ServerMsg → Prop
  | .poll, seg => ReadTakes (pollMsg .alive w.script).1 seg
  | .wait, seg => ReadTakes (waitMsg .alive w.script).1 seg
  | .readAudio _, seg =>
      AwaitTakes (wantAudio w.client.lastSeq)
        (awaitMsg (wantAudio w.client.lastSeq) .alive w.script).1 seg
  | .getStats, seg => AwaitTakes wantStats (Cm108Driver.getStats .alive w.script).1 seg

/-! ## Reading from deliveries -/

section Deliveries

variable {m : ServerMsg} {ds : List (Option ServerMsg)}

theorem read_deliver_some (mode : Mode) (hm : m.Sendable) :
    readServerMsg mode .alive (deliver (some m :: ds)) = (.ok (some m), deliver ds) :=
  readServerMsg_portion mode .alive hm

theorem read_deliver_pause_blocking :
    readServerMsg .blocking .alive (deliver (none :: ds)) =
      readServerMsg .blocking .alive (deliver ds) := by
  rfl

/-- A blocking read waits through the pauses and returns the next message. -/
theorem read_deliver_blocking (hds : ∀ m ∈ sent ds, m.Sendable) :
    (sent ds = [] ∧ readServerMsg .blocking .alive (deliver ds) = (.pending, deliver [])) ∨
      ∃ m ds', sent ds = m :: sent ds' ∧
        readServerMsg .blocking .alive (deliver ds) = (.ok (some m), deliver ds') ∧
        ds'.length < ds.length := by
  induction ds with
  | nil => exact Or.inl ⟨rfl, rfl⟩
  | cons d ds ih =>
      cases d with
      | some m =>
          have hm : m.Sendable := hds m (by simp [sent])
          exact Or.inr ⟨m, ds, rfl, read_deliver_some .blocking hm, Nat.lt_succ_self _⟩
      | none =>
          rw [read_deliver_pause_blocking]
          rcases ih hds with hnone | ⟨m, ds', hsent, hread, hlt⟩
          · exact Or.inl hnone
          · exact Or.inr ⟨m, ds', hsent, hread, Nat.lt_succ_of_lt hlt⟩

/-- A poll returns the next message, or nothing during a pause or at the end. -/
theorem read_deliver_nonblocking (hds : ∀ m ∈ sent ds, m.Sendable) :
    ∃ m ds', sent ds = m.toList ++ sent ds' ∧
      readServerMsg .nonblocking .alive (deliver ds) = (.ok m, deliver ds') := by
  cases ds with
  | nil => exact ⟨none, [], rfl, rfl⟩
  | cons d ds =>
      cases d with
      | none => exact ⟨none, ds, rfl, rfl⟩
      | some m =>
          have hm : m.Sendable := hds m (by simp [sent])
          exact ⟨some m, ds, rfl, read_deliver_some .nonblocking hm⟩

/-- The waiting loop on deliveries. -/
theorem awaitMsg_deliver {α : Type} (want : ServerMsg → Option α)
    (hds : ∀ m ∈ sent ds, m.Sendable) :
    ∃ seg ds', sent ds = seg ++ sent ds' ∧
      AwaitTakes want (awaitMsg want .alive (deliver ds)).1 seg ∧
      (awaitMsg want .alive (deliver ds)).2 = deliver ds' := by
  -- Each turn of the loop reads one delivery at least, so induct on their number.
  induction hn : ds.length using Nat.strongRecOn generalizing ds with
  | ind n ih =>
      rcases read_deliver_blocking hds with ⟨hnil, hread⟩ | ⟨m, ds₁, hsent, hread, hlt⟩
      · rw [awaitMsg_of hread]
        exact ⟨[], [], hnil, Or.inl ⟨rfl, by simp⟩, rfl⟩
      · rw [awaitMsg_of hread]
        have hds₁ : ∀ m ∈ sent ds₁, m.Sendable := fun m' hm' => hds m' (by simp [hsent, hm'])
        cases hwant : want m with
        | some a =>
            refine ⟨[m], ds₁, hsent, Or.inr ⟨[], m, a, rfl, by simp, hwant, ?_⟩, ?_⟩
            · simp [hwant]
            · simp [hwant]
        | none =>
            -- The message is dropped and the loop goes on.
            rcases ih ds₁.length (by omega) hds₁ rfl with ⟨seg, ds', hsplit, htakes, hrest⟩
            refine ⟨m :: seg, ds', by simp [hsent, hsplit], ?_, by simpa [hwant] using hrest⟩
            rcases htakes with ⟨hpending, hnone⟩ | ⟨skipped, m', a, hseg, hskip, hm', hres⟩
            · refine Or.inl ⟨by simpa [hwant] using hpending, ?_⟩
              intro s hs
              rcases List.mem_cons.1 hs with rfl | hs
              · exact hwant
              · exact hnone s hs
            · refine Or.inr ⟨m :: skipped, m', a, by simp [hseg], ?_, hm', by simpa [hwant] using hres⟩
              intro s hs
              rcases List.mem_cons.1 hs with rfl | hs
              · exact hwant
              · exact hskip s hs

end Deliveries

/-! ## One call -/

/-- Every call takes a front part of what is still to come and leaves the rest. -/
theorem StreamCall.takes_front (c : StreamCall) {w : ClientWorld} {ds : List (Option ServerMsg)}
    (hds : ∀ m ∈ sent ds, m.Sendable) (hscript : w.script = deliver ds) :
    ∃ seg ds', sent ds = seg ++ sent ds' ∧ Takes w c seg ∧ (c.next w).script = deliver ds' := by
  cases c with
  | poll =>
      rcases read_deliver_nonblocking hds with ⟨m, ds', hsent, hread⟩
      have hpoll : pollMsg .alive w.script = (some (.ok m), deliver ds') := by
        simp [pollMsg, hscript, hread]
      exact ⟨m.toList, ds', hsent, Or.inr ⟨m, by rw [hpoll], rfl⟩, by simp [next, hpoll]⟩
  | wait =>
      rcases read_deliver_blocking hds with ⟨hnil, hread⟩ | ⟨m, ds', hsent, hread, _⟩
      · have hwait : waitMsg .alive w.script = (none, deliver []) := by
          simp [waitMsg, hscript, hread]
        exact ⟨[], [], hnil, Or.inl ⟨by rw [hwait], rfl⟩, by simp [next, hwait]⟩
      · have hwait : waitMsg .alive w.script = (some (.ok (some m)), deliver ds') := by
          simp [waitMsg, hscript, hread]
        exact ⟨[m], ds', hsent, Or.inr ⟨some m, by rw [hwait], rfl⟩, by simp [next, hwait]⟩
  | readAudio page =>
      rcases awaitMsg_deliver (wantAudio w.client.lastSeq) hds with ⟨seg, ds', hsent, htakes, hrest⟩
      refine ⟨seg, ds', hsent, by rw [Takes, hscript]; exact htakes, ?_⟩
      rw [← hscript] at hrest
      simp only [next, readAudioBlocking]
      split <;> simp_all
  | getStats =>
      rcases awaitMsg_deliver wantStats hds with ⟨seg, ds', hsent, htakes, hrest⟩
      refine ⟨seg, ds', hsent, by rw [Takes, hscript]; exact htakes, ?_⟩
      rw [← hscript] at hrest
      exact hrest

/-- The event a call returns is the one among the messages it takes, if it hands these out. -/
theorem Takes.event {c : StreamCall} {w : ClientWorld} {seg : List ServerMsg} (h : Takes w c seg) :
    (c.event? w).toList = if c.handsOut then radioEvents seg else [] := by
  have hread : ∀ {r : CallResult (Option ServerMsg)}, ReadTakes r seg →
      (match r with
        | some (.ok (some (.radioEvent ev))) => some ev
        | _ => none).toList = radioEvents seg := by
    intro r hr
    rcases hr with ⟨rfl, rfl⟩ | ⟨m, rfl, rfl⟩
    · rfl
    · cases m with
      | none => rfl
      | some m => cases m <;> rfl
  cases c with
  | poll => exact hread h
  | wait => exact hread h
  | readAudio page => rfl
  | getStats => rfl

/-! ## Whole runs -/

/-- An account of a run: the messages that each call takes, in order, and what is still to come. -/
structure Ledger (msgs : List ServerMsg) (tr : List (ClientWorld × StreamCall))
    (entries : List ((ClientWorld × StreamCall) × List ServerMsg)) (rest : List ServerMsg) :
    Prop where
  calls : entries.map Prod.fst = tr
  takes : ∀ e ∈ entries, Takes e.1.1 e.1.2 e.2
  split : entries.flatMap Prod.snd ++ rest = msgs

/-- A call of the run adds its entry to the account. -/
theorem Ledger.snoc {msgs rest rest' seg : List ServerMsg} {tr : List (ClientWorld × StreamCall)}
    {entries : List ((ClientWorld × StreamCall) × List ServerMsg)} {w : ClientWorld}
    {c : StreamCall} (h : Ledger msgs tr entries rest) (htakes : Takes w c seg)
    (hrest : rest = seg ++ rest') :
    Ledger msgs (tr ++ [(w, c)]) (entries ++ [((w, c), seg)]) rest' := by
  constructor
  · simp [h.calls]
  · intro e he
    rcases List.mem_append.1 he with he | he
    · exact h.takes e he
    · rw [List.mem_singleton.1 he]
      exact htakes
  · rw [← h.split, hrest]
    simp

theorem exists_ledger {ds : List (Option ServerMsg)} (hds : ∀ m ∈ sent ds, m.Sendable)
    {tr : List (ClientWorld × StreamCall)} {w : ClientWorld} (h : Trace (clientSystem ds) tr w) :
    ∃ entries ds', w.script = deliver ds' ∧ Ledger (sent ds) tr entries (sent ds') := by
  induction h with
  | start => exact ⟨[], ds, rfl, rfl, by simp, rfl⟩
  | snoc htr hstep ih =>
      rename_i tr w t c
      rcases ih with ⟨entries, ds', hscript, hledger⟩
      have ht : c.next w = t := by
        by_cases hb : w.blocked = true
        · simp [clientSystem, hb] at hstep
        · simpa [clientSystem, hb] using hstep
      have hds' : ∀ m ∈ sent ds', m.Sendable := fun m hm => hds m (by simp [← hledger.split, hm])
      rcases c.takes_front hds' hscript with ⟨seg, ds'', hsent, htakes, hnext⟩
      exact ⟨_, ds'', by rw [← ht, hnext], hledger.snoc htakes hsent⟩

/-- The events returned are those among the messages that `poll_msg` and `wait_msg` take. -/
theorem Ledger.returned {msgs rest : List ServerMsg} {tr : List (ClientWorld × StreamCall)}
    {entries : List ((ClientWorld × StreamCall) × List ServerMsg)}
    (h : Ledger msgs tr entries rest) :
    returnedEvents tr =
      (entries.filter fun e => e.1.2.handsOut).flatMap fun e => radioEvents e.2 := by
  rw [← h.calls, returnedEvents, List.filterMap_map]
  change entries.filterMap (fun e => e.1.2.event? e.1.1) = _
  have htakes := h.takes
  clear h
  induction entries with
  | nil => rfl
  | cons e es ih =>
      have hhead := (htakes e (List.mem_cons_self ..)).event
      have htail := ih fun e' he' => htakes e' (List.mem_cons_of_mem _ he')
      cases hout : e.1.2.handsOut with
      | true =>
          simp only [hout, if_true] at hhead
          cases hev : e.1.2.event? e.1.1 <;> simp [hout, hev, ← hhead, htail]
      | false =>
          have hev : e.1.2.event? e.1.1 = none := by
            simpa [hout] using hhead
          simp [hout, hev, htail]

/-- A part of the entries yields everything exactly when the others yield nothing. -/
theorem flatMap_filter_eq_iff {α β : Type} (p : α → Bool) (f : α → List β) (l : List α) :
    (l.filter p).flatMap f = l.flatMap f ↔ ∀ a ∈ l, p a = false → f a = [] := by
  have hle : ∀ l : List α, ((l.filter p).flatMap f).length ≤ (l.flatMap f).length :=
    fun l => (List.filter_sublist.flatMap f).length_le
  induction l with
  | nil => simp
  | cons a l ih =>
      cases hp : p a with
      | true => simp [hp, ih]
      | false =>
          rw [List.filter_cons_of_neg (by simp [hp]), List.flatMap_cons]
          constructor
          · intro h b hb hpb
            -- The entry in front has to be empty, since the rest cannot yield more than it has.
            have hlen := congrArg List.length h
            rw [List.length_append] at hlen
            have hnil : f a = [] := List.length_eq_zero_iff.1 (by have := hle l; omega)
            rcases List.mem_cons.1 hb with rfl | hb
            · exact hnil
            · rw [hnil, List.nil_append] at h
              exact ih.1 h b hb hpb
          · intro h
            rw [h a (List.mem_cons_self ..) hp, List.nil_append]
            exact ih.2 fun b hb => h b (List.mem_cons_of_mem _ hb)

theorem radioEvents_append (a b : List ServerMsg) :
    radioEvents (a ++ b) = radioEvents a ++ radioEvents b :=
  List.filterMap_append

theorem radioEvents_flatMap {α : Type} (l : List α) (f : α → List ServerMsg) :
    radioEvents (l.flatMap f) = l.flatMap fun a => radioEvents (f a) :=
  List.filterMap_flatMap

/-- Every message is taken by exactly one call, in the order sent; the events returned are those
taken by `poll_msg` and `wait_msg`; none is lost exactly when the calls that wait for something
else take none. -/
theorem events_returned {ds : List (Option ServerMsg)} (hds : ∀ m ∈ sent ds, m.Sendable)
    {tr : List (ClientWorld × StreamCall)} {w : ClientWorld} (h : Trace (clientSystem ds) tr w) :
    ∃ entries ds', w.script = deliver ds' ∧ Ledger (sent ds) tr entries (sent ds') ∧
      returnedEvents tr =
        ((entries.filter fun e => e.1.2.handsOut).flatMap fun e => radioEvents e.2) ∧
      (returnedEvents tr ++ radioEvents (sent ds') = radioEvents (sent ds) ↔
        ∀ e ∈ entries, e.1.2.handsOut = false → radioEvents e.2 = []) := by
  rcases exists_ledger hds h with ⟨entries, ds', hscript, hledger⟩
  refine ⟨entries, ds', hscript, hledger, hledger.returned, ?_⟩
  rw [hledger.returned, ← hledger.split, radioEvents_append, radioEvents_flatMap,
    List.append_left_inj]
  exact flatMap_filter_eq_iff (fun e => e.1.2.handsOut) (fun e => radioEvents e.2) entries

/-! ## An event in front of an audio notification -/

/-- The client reads audio while a `PttAssert` is waiting in front of the notification. -/
def eventThenAudio : List (Option ServerMsg) :=
  [some (.radioEvent .pttAssert), some (.audioReady 2)]

theorem eventThenAudio_sendable : ∀ m ∈ sent eventThenAudio, m.Sendable := by
  intro m hm
  simp only [sent, eventThenAudio, List.filterMap_cons, id, List.filterMap_nil, List.mem_cons,
    List.not_mem_nil, or_false] at hm
  rcases hm with rfl | rfl
  · trivial
  · trivial

/-- The account, for a run that polls first and reads audio then. -/
theorem events_returned_pollFirst :
    ∃ tr w, Trace (clientSystem eventThenAudio) tr w ∧ returnedEvents tr = [.pttAssert] ∧
      ∃ entries ds', w.script = deliver ds' ∧
        Ledger (sent eventThenAudio) tr entries (sent ds') ∧
        returnedEvents tr =
          ((entries.filter fun e => e.1.2.handsOut).flatMap fun e => radioEvents e.2) ∧
        (returnedEvents tr ++ radioEvents (sent ds') = radioEvents (sent eventThenAudio) ↔
          ∀ e ∈ entries, e.1.2.handsOut = false → radioEvents e.2 = []) :=
  have h := (Trace.start (S := clientSystem eventThenAudio)).snoc (a := .poll) rfl
  ⟨_, _, h.snoc (a := .readAudio AudioFrame.default) rfl, rfl,
    events_returned eventThenAudio_sendable (h.snoc rfl)⟩

/-- `read_audio_blocking` returns a frame and the event is gone: the stream is consumed and no call
has returned it. -/
theorem events_lost :
    ∃ tr w, Trace (clientSystem eventThenAudio) tr w ∧ w.script = [] ∧ w.blocked = false ∧
      returnedEvents tr = [] ∧ radioEvents (sent eventThenAudio) = [.pttAssert] := by
  have hskip : wantAudio 0 (.radioEvent .pttAssert) = none := rfl
  have hwant : wantAudio 0 (.audioReady 2) = some 2 := by decide
  have hread : awaitMsg (wantAudio 0) .alive (deliver eventThenAudio) = (some (.ok 2), []) := by
    rw [eventThenAudio, awaitMsg_of (read_deliver_some (m := .radioEvent .pttAssert) .blocking trivial)]
    simp only [hskip]
    rw [awaitMsg_of (read_deliver_some (m := .audioReady 2) .blocking trivial)]
    simp only [hwant]
    rfl
  refine ⟨_, _, Trace.start.snoc (a := .readAudio AudioFrame.default) rfl, ?_, ?_, rfl, by decide⟩
  · simp [StreamCall.next, readAudioBlocking, clientSystem, Cm108Client.connected, hread]
  · simp [StreamCall.next, readAudioBlocking, clientSystem, Cm108Client.connected, hread]

end Cm108Driver
