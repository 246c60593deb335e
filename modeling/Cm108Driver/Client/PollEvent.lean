import Cm108Driver.Client.Calls

/-!
# PollEvent — `cm108_poll_event` and the loop around it

The C call makes one `poll_msg` and looks at one message.  It returns 1 with the event for a
`RadioEvent`, and 0 both for an empty socket and for any other message, which it takes off the
stream.  A program drains the socket with `while (cm108_poll_event(client, &ev) == 1)`.
-/

namespace Cm108Driver

open Lib

/-! ## Events at the C boundary -/

structure Cm108Event where
  eventType : UInt8
  gpioState : UInt8
  deriving DecidableEq, Repr

def radioToC : RadioEvent → Cm108Event
  | .pttAssert => { eventType := 0, gpioState := 0 }
  | .pttDeassert => { eventType := 1, gpioState := 0 }
  | .cosActive => { eventType := 2, gpioState := 0 }
  | .cosInactive => { eventType := 3, gpioState := 0 }
  | .gpioChange g => { eventType := 4, gpioState := g.bits }

def serverMsgToEvent : ServerMsg → Option Cm108Event
  | .radioEvent ev => some (radioToC ev)
  | _ => none

/-! ## The call -/

/-- `cm108_poll_event`: the code it returns with the event it writes to `*out`, and what it leaves
on the stream.  The two flags say that `out` or `client` is NULL. -/
def cm108PollEvent (outNull clientNull : Bool) (ending : Ending) (es : List (Arrival UInt8)) :
    Option (Int32 × Option Cm108Event) × List (Arrival UInt8) :=
  if outNull then
    (some (-1, none), es)
  else if clientNull then
    (some (-1, none), es)
  else
    match pollMsg ending es with
    | (some (.ok (some msg)), es) =>
        match serverMsgToEvent msg with
        | some ev => (some (1, some ev), es)
        | none => (some (0, none), es)
    | (some (.ok none), es) => (some (0, none), es)
    | (some (.error _), es) => (some (-1, none), es)
    | (none, es) => (none, es)

/-- The call on a client and an `out` that exist, by what its `poll_msg` returns. -/
theorem cm108PollEvent_of {ending : Ending} {es es' : List (Arrival UInt8)}
    {r : CallResult (Option ServerMsg)} (h : pollMsg ending es = (r, es')) :
    cm108PollEvent false false ending es =
      match r with
      | some (.ok (some msg)) =>
          (some ((if (serverMsgToEvent msg).isSome then 1 else 0), serverMsgToEvent msg), es')
      | some (.ok none) => (some (0, none), es')
      | some (.error _) => (some (-1, none), es')
      | none => (none, es') := by
  match r with
  | some (.ok (some msg)) => cases hev : serverMsgToEvent msg <;> simp [cm108PollEvent, h, hev]
  | some (.ok none) => simp [cm108PollEvent, h]
  | some (.error e) => simp [cm108PollEvent, h]
  | none => simp [cm108PollEvent, h]

/-- A message that `poll_msg` returns has been taken off the stream. -/
theorem arrived_pollMsg_lt {ending : Ending} {es es' : List (Arrival UInt8)} {m : ServerMsg}
    (h : pollMsg ending es = (some (.ok (some m)), es')) :
    (arrived es').length < (arrived es).length := by
  unfold pollMsg at h
  split at h
  · rename_i hread
    cases h
    exact arrived_read_lt clientReader .nonblocking ending hread
  · cases h
  · cases h
  · cases h

/-- A call that returns 1 has taken a message off the stream. -/
theorem arrived_cm108PollEvent_lt {ending : Ending} {es es' : List (Arrival UInt8)}
    {out : Option Cm108Event}
    (h : cm108PollEvent false false ending es = (some (1, out), es')) :
    (arrived es').length < (arrived es).length := by
  cases hp : pollMsg ending es with
  | mk r rest =>
      rw [cm108PollEvent_of hp] at h
      match r with
      | some (.ok (some msg)) =>
          have hrest : rest = es' := (Prod.mk.inj h).2
          subst hrest
          exact arrived_pollMsg_lt hp
      | some (.ok none) => simp at h
      | some (.error e) => simp at h
      | none => simp at h

/-! ## The drain loop -/

structure DrainResult where
  /-- The events written to `*out` by the calls that returned 1. -/
  filled : List Cm108Event
  /-- What the last call returned. -/
  code : Option Int32
  left : List (Arrival UInt8)
  deriving DecidableEq, Repr

/-- `while (cm108_poll_event(client, &ev) == 1)`. -/
def drain (ending : Ending) (es : List (Arrival UInt8)) : DrainResult :=
  match _h : cm108PollEvent false false ending es with
  | (some (code, out), es') =>
      if _hcode : code = 1 then
        let r := drain ending es'
        { r with filled := out.toList ++ r.filled }
      else
        { filled := [], code := some code, left := es' }
  | (none, es') => { filled := [], code := none, left := es' }
termination_by (arrived es).length
decreasing_by
  subst _hcode
  exact arrived_cm108PollEvent_lt _h

/-- The `RadioEvent`s among the messages, as the C program sees them. -/
def eventsOf (msgs : List ServerMsg) : List Cm108Event := msgs.filterMap serverMsgToEvent

/-- What the loop should do with the messages waiting in the socket: it fills in their events, in
order, and the call that returns 0 leaves whole messages without an event among them. -/
structure Drains (msgs : List ServerMsg) (script : List (Arrival UInt8)) : Prop where
  filled : (drain .alive script).filled = eventsOf msgs
  code : (drain .alive script).code = some 0
  left : ∃ taken rest, msgs = taken ++ rest ∧
    arrived (drain .alive script).left = rest.flatMap writeMsg ∧ eventsOf rest = []

/-- No `RadioEvent` stands behind a message of another kind. -/
def EventsFirst (msgs : List ServerMsg) : Prop :=
  msgs.Pairwise fun m m' => serverMsgToEvent m = none → serverMsgToEvent m' = none

/-! ## One turn of the loop -/

/-- A message waiting in the socket is what the next `poll_msg` returns. -/
theorem pollMsg_frame (ending : Ending) {es : List (Arrival UInt8)} {m : ServerMsg}
    {r : List UInt8} (hm : m.Sendable) (hfree : GapFree es) (harr : arrived es = writeMsg m ++ r) :
    ∃ es', pollMsg ending es = (some (.ok (some m)), es') ∧ arrived es' = r ∧ GapFree es' := by
  have havail : available .nonblocking es = writeMsg m ++ r := by
    rw [hfree.available_eq, harr]
  rcases readServerMsg_writeMsg ending hm havail with ⟨es', hread, hrest, _, hkeep⟩
  refine ⟨es', by simp [pollMsg, hread], ?_, hkeep hfree⟩
  rw [hrest, harr, List.drop_left' rfl]

/-- With less than a header in the socket, `poll_msg` takes it and returns nothing, connected or
not, unless it meets a pending reset. -/
theorem pollMsg_short {ending : Ending} (hquiet : ending ≠ .reset) {es : List (Arrival UInt8)}
    (hfree : GapFree es) (hshort : (arrived es).length < 4) :
    pollMsg ending es = (some (.ok none), []) := by
  have hread := read_gapFree_short clientReader ending hfree hshort
  have hnone : clientReader.noneOn (dryError ending) = true := by
    cases ending with
    | reset => exact absurd rfl hquiet
    | _ => rfl
  rw [hnone, if_pos rfl] at hread
  simp [pollMsg, readServerMsg, hread]

theorem pollMsg_reset {es : List (Arrival UInt8)} (hfree : GapFree es)
    (hshort : (arrived es).length < 4) :
    pollMsg .reset es = (some (.error (.io .connectionReset)), []) := by
  have hread := read_gapFree_short clientReader .reset hfree hshort
  have hnone : clientReader.noneOn (dryError .reset) = false := rfl
  rw [hnone] at hread
  simp [pollMsg, readServerMsg, hread, dryError, Ending.error?]

/-- A turn of the loop. -/
theorem drain_of {ending : Ending} {es es' : List (Arrival UInt8)}
    {r : Option (Int32 × Option Cm108Event)}
    (h : cm108PollEvent false false ending es = (r, es')) :
    drain ending es =
      match r with
      | some (code, out) =>
          if code = 1 then
            { drain ending es' with filled := out.toList ++ (drain ending es').filled }
          else
            { filled := [], code := some code, left := es' }
      | none => { filled := [], code := none, left := es' } := by
  rw [drain]
  split
  all_goals
    rename_i h'
    rw [h] at h'
    cases h'
    rfl

/-- What the loop fills in from a queue of messages, and what it leaves of it. -/
def drainQueue : List ServerMsg → List Cm108Event × List ServerMsg
  | [] => ([], [])
  | m :: ms =>
      match serverMsgToEvent m with
      | some ev => (ev :: (drainQueue ms).1, (drainQueue ms).2)
      | none => ([], ms)

/-- The loop on whole messages stops with 0 at the first message that is no event, which it has
taken too, or at the empty socket. -/
theorem drain_queue {ending : Ending} (hquiet : ending ≠ .reset) {msgs : List ServerMsg}
    {es : List (Arrival UInt8)} (hmsgs : ∀ m ∈ msgs, m.Sendable) (hfree : GapFree es)
    (harr : arrived es = msgs.flatMap writeMsg) :
    (drain ending es).filled = (drainQueue msgs).1 ∧ (drain ending es).code = some 0 ∧
      arrived (drain ending es).left = (drainQueue msgs).2.flatMap writeMsg := by
  induction msgs generalizing es with
  | nil =>
      have hpoll := pollMsg_short hquiet hfree (by simp [harr])
      have hdrain := drain_of (cm108PollEvent_of hpoll)
      simp [hdrain, drainQueue, arrived]
  | cons m ms ih =>
      rw [List.flatMap_cons] at harr
      rcases pollMsg_frame ending (hmsgs m (List.mem_cons_self ..)) hfree harr with
        ⟨es', hpoll, hrest, hkeep⟩
      have hdrain := drain_of (cm108PollEvent_of hpoll)
      cases hev : serverMsgToEvent m with
      | none => simp [hdrain, hev, drainQueue, hrest]
      | some ev =>
          have htail := ih (fun m' hm' => hmsgs m' (List.mem_cons_of_mem _ hm')) hkeep hrest
          simpa [hdrain, hev, drainQueue] using htail

/-! ## The queues that are drained -/

theorem drainQueue_suffix (msgs : List ServerMsg) : ∃ taken, msgs = taken ++ (drainQueue msgs).2 := by
  induction msgs with
  | nil => exact ⟨[], rfl⟩
  | cons m ms ih =>
      rcases ih with ⟨taken, htaken⟩
      cases hev : serverMsgToEvent m with
      | none => exact ⟨[m], by simp [drainQueue, hev]⟩
      | some ev => exact ⟨m :: taken, by simpa [drainQueue, hev] using htaken⟩

/-- The loop fills in the events of the queue exactly when they come first, and then no event is
left. -/
theorem drainQueue_iff (msgs : List ServerMsg) :
    ((drainQueue msgs).1 = eventsOf msgs ↔ EventsFirst msgs) ∧
      (EventsFirst msgs → eventsOf (drainQueue msgs).2 = []) := by
  induction msgs with
  | nil => simp [drainQueue, eventsOf, EventsFirst]
  | cons m ms ih =>
      cases hev : serverMsgToEvent m with
      | some ev =>
          -- An event in front changes neither side.
          have hfirst : EventsFirst (m :: ms) ↔ EventsFirst ms := by
            simp [EventsFirst, hev]
          rw [hfirst]
          simpa [drainQueue, eventsOf, hev] using ih
      | none =>
          have hnone : eventsOf ms = [] ↔ ∀ m' ∈ ms, serverMsgToEvent m' = none :=
            List.filterMap_eq_nil_iff
          have hfirst : EventsFirst (m :: ms) ↔ eventsOf ms = [] := by
            rw [hnone]
            constructor
            · intro h m' hm'
              exact List.rel_of_pairwise_cons h hm' hev
            · intro h
              refine List.pairwise_cons.mpr ⟨fun m' hm' _ => h m' hm', ?_⟩
              exact List.pairwise_of_forall_mem_list fun a _ b hb _ => h b hb
          rw [hfirst]
          have hskip : eventsOf (m :: ms) = eventsOf ms := by simp [eventsOf, hev]
          simp only [drainQueue, hev, hskip]
          exact ⟨eq_comm, id⟩

/-- The loop drains a queue of whole messages exactly when no `RadioEvent` of it stands behind a
message of another kind. -/
theorem drains_iff {msgs : List ServerMsg} {script : List (Arrival UInt8)}
    (hmsgs : ∀ m ∈ msgs, m.Sendable) (hfree : GapFree script)
    (harr : arrived script = msgs.flatMap writeMsg) : Drains msgs script ↔ EventsFirst msgs := by
  rcases drain_queue Ending.alive_ne_reset hmsgs hfree harr with ⟨hfilled, hcode, hleft⟩
  rcases drainQueue_iff msgs with ⟨hiff, hnone⟩
  constructor
  · intro h
    exact hiff.mp (hfilled.symm.trans h.filled)
  · intro h
    rcases drainQueue_suffix msgs with ⟨taken, htaken⟩
    exact
      { filled := hfilled.trans (hiff.mpr h)
        code := hcode
        left := ⟨taken, (drainQueue msgs).2, htaken, hleft, hnone h⟩ }

/-- The equivalence at one event in front of a notification. -/
theorem drains_iff_event_first :
    Drains [.radioEvent .pttAssert, .pong] [.data ([.radioEvent .pttAssert, .pong].flatMap writeMsg)] ↔
      EventsFirst [.radioEvent .pttAssert, .pong] :=
  drains_iff (by simp [ServerMsg.Sendable]) (by simp [GapFree]) (by simp [arrived])

/-- A notification in front of an event. -/
def mixedQueue : List ServerMsg := [.audioReady 1, .radioEvent .pttAssert]

/-- The loop ends with 0 at the notification; the event is still in the socket. -/
theorem drains_fails :
    (drain .alive [.data (mixedQueue.flatMap writeMsg)]).code = some 0 ∧
      arrived (drain .alive [.data (mixedQueue.flatMap writeMsg)]).left =
        writeMsg (.radioEvent .pttAssert) ∧
      ¬ Drains mixedQueue [.data (mixedQueue.flatMap writeMsg)] := by
  have hmsgs : ∀ m ∈ mixedQueue, m.Sendable := by simp [mixedQueue, ServerMsg.Sendable]
  have hfree : GapFree [Arrival.data (mixedQueue.flatMap writeMsg)] := by simp [GapFree]
  have harr : arrived [Arrival.data (mixedQueue.flatMap writeMsg)] = mixedQueue.flatMap writeMsg := by
    simp [arrived]
  have hqueue : drainQueue mixedQueue = ([], [.radioEvent .pttAssert]) := rfl
  rcases drain_queue Ending.alive_ne_reset hmsgs hfree harr with ⟨hfilled, hcode, hleft⟩
  rw [hqueue] at hfilled hleft
  refine ⟨hcode, hleft.trans (List.flatMap_singleton ..), fun h => ?_⟩
  have hall := hfilled.symm.trans h.filled
  have hevent : eventsOf mixedQueue = [radioToC .pttAssert] := rfl
  rw [hevent] at hall
  cases hall

end Cm108Driver
