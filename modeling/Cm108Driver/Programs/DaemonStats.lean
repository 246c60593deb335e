import Cm108Driver.Programs.Daemon
import Cm108Driver.Server.SessionDevices

/-!
# DaemonStats — what a `Stats` message says

A `Stats` message carries a summary of latencies and two counters.  A handler loads them for a
`GetStats`, the dispatch thread behind every 5000th frame, each of them one after the other, and the
message is sent some time later, when the RX loop, the TX loop and the other clients have gone on.

What it says is true of the run nevertheless: each of the three was what it says at a point of the
run, in this order, and for a reply behind the read of the request.
-/

namespace Cm108Driver

open Lib

section Reports

variable {fd : RawFd} {inbound : ClientId → Inbound}

/-! ## What is loaded -/

/-- Behind `p`, this part of the registry's world was `x`. -/
def Shows (fd : RawFd) (inbound : ClientId → Inbound) {α : Type} (part : ServerWorld → α)
    (p : DaemonTrace) (x : α) : Prop :=
  ∃ v, Trace (daemonSystem fd inbound) p v ∧ part v.server = x

/-- At a point of the run behind which `before` holds, this part was `x`. -/
def Loaded (fd : RawFd) (inbound : ClientId → Inbound) {α : Type} (part : ServerWorld → α)
    (before : DaemonTrace → Prop) (tr : DaemonTrace) (x : α) : Prop :=
  ∃ p, p <+: tr ∧ before p ∧ Shows fd inbound part p x

/-- Since `since`, `last_latency` was `lat`. -/
def LatencyLoaded (fd : RawFd) (inbound : ClientId → Inbound) (since tr : DaemonTrace)
    (lat : LatencyStats) : Prop :=
  Loaded fd inbound ServerWorld.lastLatency (fun p => since <+: p) tr lat

/-- And after that, `rx_xruns` was `rxXruns`. -/
def RxLoaded (fd : RawFd) (inbound : ClientId → Inbound) (since tr : DaemonTrace)
    (lat : LatencyStats) (rxXruns : UInt64) : Prop :=
  Loaded fd inbound ServerWorld.rxXruns (fun p => LatencyLoaded fd inbound since p lat) tr rxXruns

/-- And after that, `tx_xruns` was `txXruns`. -/
def AllLoaded (fd : RawFd) (inbound : ClientId → Inbound) (since tr : DaemonTrace)
    (rxXruns txXruns : UInt64) (lat : LatencyStats) : Prop :=
  Loaded fd inbound ServerWorld.txXruns (fun p => RxLoaded fd inbound since p lat rxXruns) tr
    txXruns

variable {since tr tr' : DaemonTrace} {w t : DaemonWorld} {a : DaemonAct} {c : ClientId}
  {lat : LatencyStats} {rxXruns txXruns : UInt64}

theorem Loaded.mono {α : Type} {part : ServerWorld → α} {before : DaemonTrace → Prop} {x : α}
    (h : Loaded fd inbound part before tr x) (hpre : tr <+: tr') :
    Loaded fd inbound part before tr' x := by
  rcases h with ⟨p, hp, hrest⟩
  exact ⟨p, hp.trans hpre, hrest⟩

/-- What a handler has loaded for its reply. -/
def Serving.Held (fd : RawFd) (inbound : ClientId → Inbound) (since tr : DaemonTrace) :
    Serving → Prop
  | .latencyLoaded lat => LatencyLoaded fd inbound since tr lat
  | .rxLoaded lat rxXruns => RxLoaded fd inbound since tr lat rxXruns
  | .replying (.stats rxXruns txXruns lat) => AllLoaded fd inbound since tr rxXruns txXruns lat
  | _ => True

/-- What the dispatch thread has loaded for its broadcast. -/
def DaemonPc.Held (fd : RawFd) (inbound : ClientId → Inbound) (tr : DaemonTrace) :
    DaemonPc → Prop
  | .stored snap => LatencyLoaded fd inbound [] tr snap
  | .rxLoaded snap rxXruns => RxLoaded fd inbound [] tr snap rxXruns
  | .txLoaded snap rxXruns txXruns => AllLoaded fd inbound [] tr rxXruns txXruns snap
  | _ => True

theorem Serving.Held.mono {s : Serving} (h : s.Held fd inbound since tr) (hpre : tr <+: tr') :
    s.Held fd inbound since tr' := by
  cases s with
  | latencyLoaded lat => exact Loaded.mono h hpre
  | rxLoaded lat rxXruns => exact Loaded.mono h hpre
  | replying m =>
      cases m with
      | stats rxXruns txXruns lat => exact Loaded.mono h hpre
      | _ => trivial
  | _ => trivial

theorem DaemonPc.Held.mono {pc : DaemonPc} (h : pc.Held fd inbound tr) (hpre : tr <+: tr') :
    pc.Held fd inbound tr' := by
  cases pc with
  | stored snap => exact Loaded.mono h hpre
  | rxLoaded snap rxXruns => exact Loaded.mono h hpre
  | txLoaded snap rxXruns txXruns => exact Loaded.mono h hpre
  | _ => trivial

/-! ## The request -/

/-- The message of `c` that a step dispatches. -/
def dispatchedAt? (c : ClientId) (w : DaemonWorld) : DaemonAct → Option ClientMsg
  | .session a => Session.dispatched? c w.session a
  | _ => none

def dispatchedIn (c : ClientId) (tr : DaemonTrace) : List ClientMsg :=
  tr.filterMap fun p => dispatchedAt? c p.1 p.2

/-- The last message that was dispatched for `c` is the `GetStats` read by the last step of
`since`. -/
structure Asked (c : ClientId) (since tr : DaemonTrace) : Prop where
  before : since <+: tr
  read : ∃ q u nowMs, since = q ++ [(u, .session (.read c nowMs))] ∧
    (u.session.nextMsg c).1 = .ok (some .getStats)
  last : dispatchedIn c tr = dispatchedIn c since

theorem Asked.snoc (h : Asked c since tr) (hquiet : dispatchedAt? c w a = none) :
    Asked c since (tr ++ [(w, a)]) where
  before := h.before.trans (List.prefix_append _ _)
  read := h.read
  last := by
    rw [dispatchedIn, filterMap_snoc, hquiet, Option.toList_none, List.append_nil]
    exact h.last

/-- Nothing is dispatched for `c` unless its handler is called for it. -/
theorem dispatchedAt_none (hquiet : ∀ m, w.atRegistry fd a ≠ some (.handler c (.request m))) :
    dispatchedAt? c w a = none := by
  cases a with
  | session a =>
      cases a with
      | read id nowMs =>
          by_cases hid : id = c
          · subst hid
            simp only [dispatchedAt?, Session.dispatched?, if_true]
            split
            · rename_i m? hm
              cases m? with
              | none => rfl
              | some m =>
                  refine absurd ?_ (hquiet m)
                  simp [DaemonWorld.atRegistry, SessionWorld.atRegistry, hm]
            · rfl
          · simp [dispatchedAt?, Session.dispatched?, hid]
      | _ => rfl
  | _ => rfl

/-- A handler is called for what it has read. -/
theorem read_of_request {m : ClientMsg} (hstep : w.step fd a = some t)
    (h : w.atRegistry fd a = some (.handler c (.request m))) :
    ∃ nowMs, a = .session (.read c nowMs) ∧ (w.session.nextMsg c).1 = .ok (some m) := by
  cases a with
  | session a =>
      simp only [DaemonWorld.atRegistry] at h
      cases a with
      | read id nowMs =>
          simp only [SessionWorld.atRegistry] at h
          split at h
          · rename_i m' hm
            cases h
            exact ⟨nowMs, rfl, hm⟩
          · cases h
      | server b =>
          cases h
          simp [DaemonWorld.step, SessionAct.elsewhere, SessionWorld.step, ServerAct.ofSession]
            at hstep
      | _ =>
          simp only [SessionWorld.atRegistry] at h
          rcases Option.map_eq_some_iff.1 h with ⟨t, _, ht⟩
          cases ht
  | poller a =>
      cases daemonMove_of_step hstep with
      | poller hown hmonitor =>
          rcases radioEvent_of_poller hown h with ⟨event, hevent⟩
          cases hevent
  | proceed =>
      rcases Option.map_eq_some_iff.1 h with ⟨call, _, hcall⟩
      cases hcall
  | _ => cases h

theorem serve_ne_statsCall {w : ServerWorld} (c : ClientId) (s : Serving) :
    w.serve c s ≠ some (w.setHandler c (.serving .statsCall)) := by
  intro h
  cases s with
  | reading => cases h
  | subscribing streams =>
      rcases ServerWorld.whenUnlocked_eq_some h with ⟨_, ht⟩
      have hpc := congrArg (fun v => (v.conns c).handler) ht
      simp at hpc
  | replying m =>
      rcases ServerWorld.whenUnlocked_eq_some h with ⟨_, ht⟩
      have hpc := congrArg (fun v => (v.conns c).handler) ht
      simp at hpc
  | _ =>
      have hpc := congrArg (fun v => (v.conns c).handler) (Option.some.inj h)
      simp at hpc

/-- A handler is about to load the statistics, or is called for a `GetStats`. -/
theorem statsCall_of_step {w t : ServerWorld} {b : ServerAct} (hinv : ServerInv w)
    (hstep : w.step fd b = some t) (hpc : (t.conns c).handler = .serving .statsCall) :
    ((w.conns c).handler = .serving .statsCall ∧ ∀ b', b ≠ .handler c b') ∨
      b = .handler c (.request .getStats) := by
  by_cases hown : ∃ b', b = .handler c b'
  · right
    rcases hown with ⟨b', rfl⟩
    cases handlerMove_of_step hstep with
    | register hpc₀ hlock => simp at hpc
    | sendFd hpc₀ => simp at hpc
    | spawn hpc₀ => simp at hpc
    | leave hreg hact => simp at hpc
    | serve next hpc₀ hquiet hact hnext =>
        rename_i s
        simp only [ServerWorld.setHandler_conns, Function.update_self, HandlerPc.serving.injEq] at hpc
        subst hpc
        rcases hact with rfl | ⟨m, rfl⟩
        · -- from where it is, it goes on to another place
          have hserve : w.serve c s = some (w.setHandler c (.serving .statsCall)) := by
            simpa [ServerWorld.step, ServerWorld.handlerStep, hpc₀] using hstep
          exact absurd hserve (serve_ne_statsCall c s)
        · have hcalled := congrArg (fun v => (v.conns c).handler) (reading_of_request hstep).2
          simp only [ServerWorld.setHandler_conns, Function.update_self,
            HandlerPc.serving.injEq] at hcalled
          cases m with
          | getStats => rfl
          | _ => cases hcalled
    | subscribe hpc₀ hlock => simp at hpc
    | reply hpc₀ hlock => simp at hpc
    | unregister hpc₀ hlock => simp at hpc
  · left
    have hother : ∀ b', b ≠ .handler c b' := fun b' hb => hown ⟨b', hb⟩
    rcases handler_of_step hinv hstep hother with hsame | ⟨rfl, rfl⟩
    · exact ⟨hsame ▸ hpc, hother⟩
    · cases hstep
      simp at hpc

/-- The call of the broadcast under way is the one that has taken the mutex. -/
theorem call_of_step {w t : ServerWorld} {b : ServerAct} {br : Broadcast}
    (hstep : w.step fd b = some t) (hbr : t.broadcast = some br) :
    (∃ br₀, w.broadcast = some br₀ ∧ br₀.call = br.call) ∨ b = .broadcast br.call := by
  cases serverMove_of_step hstep with
  | broadcast call hlock =>
      cases hbr
      exact Or.inr rfl
  | visit hb hid =>
      cases hbr
      exact Or.inl ⟨_, hb, rfl⟩
  | endBroadcast hb => cases hbr
  | handler hmove => exact Or.inl ⟨br, by rw [← hmove.broadcast]; exact hbr, rfl⟩
  | _ => exact Or.inl ⟨br, hbr, rfl⟩

/-! ## The invariant -/

/-- Whatever is on its way into a `Stats` message has been loaded in this run. -/
structure ReportInv (fd : RawFd) (inbound : ClientId → Inbound) (tr : DaemonTrace)
    (w : DaemonWorld) : Prop where
  handlers : ∀ c s, (w.server.conns c).handler = .serving s → s = .statsCall ∨ s.forStats = true →
    ∃ since, Asked c since tr ∧ s.Held fd inbound since tr
  dispatcher : w.pc.Held fd inbound tr
  calls : ∀ br rxXruns txXruns lat, w.server.broadcast = some br →
    br.call = .stats rxXruns txXruns lat → AllLoaded fd inbound [] tr rxXruns txXruns lat

namespace ReportInv

/-- A handler that stands where it was. -/
theorem keep {s : Serving} (h : ReportInv fd inbound tr w)
    (hpc : (w.server.conns c).handler = .serving s) (hs : s = .statsCall ∨ s.forStats = true)
    (hquiet : ∀ m, w.atRegistry fd a ≠ some (.handler c (.request m))) :
    ∃ since, Asked c since (tr ++ [(w, a)]) ∧ s.Held fd inbound since (tr ++ [(w, a)]) := by
  rcases h.handlers c s hpc hs with ⟨since, hasked, hheld⟩
  exact ⟨since, hasked.snoc (dispatchedAt_none hquiet), hheld.mono (List.prefix_append _ _)⟩

/-- An access to `last_latency` or to a counter. -/
theorem serve {s s' : Serving} (h : ReportInv fd inbound tr w)
    (htr : Trace (daemonSystem fd inbound) tr w)
    (hpc : (w.server.conns c).handler = .serving s) (hserve : StatsServe w.server s s')
    (hquiet : ∀ m, w.atRegistry fd a ≠ some (.handler c (.request m))) :
    ∃ since, Asked c since (tr ++ [(w, a)]) ∧ s'.Held fd inbound since (tr ++ [(w, a)]) := by
  have hpre : tr <+: tr ++ [(w, a)] := List.prefix_append _ _
  cases hserve with
  | lockLatency =>
      rcases h.handlers c _ hpc (Or.inl rfl) with ⟨since, hasked, _⟩
      exact ⟨since, hasked.snoc (dispatchedAt_none hquiet), tr, hpre, hasked.before, w, htr, rfl⟩
  | loadRx lat =>
      rcases h.handlers c _ hpc (Or.inr rfl) with ⟨since, hasked, hheld⟩
      exact ⟨since, hasked.snoc (dispatchedAt_none hquiet), tr, hpre, hheld, w, htr, rfl⟩
  | loadTx lat rxXruns =>
      rcases h.handlers c _ hpc (Or.inr rfl) with ⟨since, hasked, hheld⟩
      exact ⟨since, hasked.snoc (dispatchedAt_none hquiet), tr, hpre, hheld, w, htr, rfl⟩

theorem handlers_step {s' : Serving} (h : ReportInv fd inbound tr w)
    (htr : Trace (daemonSystem fd inbound) tr w) (hstep : w.step fd a = some t)
    (hpc : (t.server.conns c).handler = .serving s') (hs : s' = .statsCall ∨ s'.forStats = true) :
    ∃ since, Asked c since (tr ++ [(w, a)]) ∧ s'.Held fd inbound since (tr ++ [(w, a)]) := by
  have hinv := serverInv_of_trace ((daemonRegistry fd inbound).run htr)
  rcases registry_of_step hstep with ⟨b, hb, hserver⟩ | ⟨hnone, hsame⟩
  · have hquiet : (∀ b', b ≠ .handler c b') →
        ∀ m, w.atRegistry fd a ≠ some (.handler c (.request m)) := by
      intro hnot m hm
      rw [hb] at hm
      exact hnot _ (Option.some.inj hm)
    rcases hs with rfl | hs
    · rcases statsCall_of_step hinv hserver hpc with ⟨hpc₀, hnot⟩ | rfl
      · exact h.keep hpc₀ (Or.inl rfl) (hquiet hnot)
      · -- the request has just been read
        rcases read_of_request hstep hb with ⟨nowMs, rfl, hread⟩
        exact ⟨_, ⟨List.prefix_rfl, ⟨tr, w, nowMs, rfl, hread⟩, rfl⟩, trivial⟩
    · rcases statsServe_of_step hinv hserver hpc hs with ⟨hpc₀, hnot⟩ | ⟨s, rfl, hpc₀, hserve⟩
      · exact h.keep hpc₀ (Or.inr hs) (hquiet hnot)
      · refine h.serve htr hpc₀ hserve ?_
        intro m hm
        rw [hb] at hm
        cases hm
  · rw [hsame] at hpc
    exact h.keep hpc hs (by simp [hnone])

theorem dispatcher_step (h : ReportInv fd inbound tr w)
    (htr : Trace (daemonSystem fd inbound) tr w) (hstep : w.step fd a = some t) :
    t.pc.Held fd inbound (tr ++ [(w, a)]) := by
  have hpre : tr <+: tr ++ [(w, a)] := List.prefix_append _ _
  have hheld := h.dispatcher
  cases daemonMove_of_step hstep with
  | pop hpc hitems => trivial
  | write hpc hwrite => trivial
  | store hpc hstore =>
      unfold DaemonPc.stores
      split
      · trivial
      · trivial
  | notify hpc hserver => trivial
  | publish hpc hserver => trivial
  | reset hpc hdone => trivial
  | record hpc hdone hend =>
      rename_i us shmem
      have hrun : Trace (daemonSystem fd inbound) (tr ++ [(w, .record us)])
          ((w.setShmem shmem).recorded us) := htr.snoc hstep
      by_cases hfull : (w.ticker + 1) % 5000 = 0
      · -- the snapshot is what has just been stored
        rw [DaemonWorld.recorded_full (w := w.setShmem shmem) us hfull] at hrun ⊢
        exact ⟨_, List.prefix_rfl, List.nil_prefix, _, hrun, rfl⟩
      · rw [DaemonWorld.recorded_open (w := w.setShmem shmem) us hfull]
        trivial
  | loadRx hpc =>
      rw [hpc] at hheld
      exact ⟨tr, hpre, hheld, w, htr, rfl⟩
  | loadTx hpc =>
      rw [hpc] at hheld
      exact ⟨tr, hpre, hheld, w, htr, rfl⟩
  | _ => exact hheld.mono hpre

theorem calls_step {br : Broadcast} (h : ReportInv fd inbound tr w) (hstep : w.step fd a = some t)
    (hbr : t.server.broadcast = some br) (hcall : br.call = .stats rxXruns txXruns lat) :
    AllLoaded fd inbound [] (tr ++ [(w, a)]) rxXruns txXruns lat := by
  have hpre : tr <+: tr ++ [(w, a)] := List.prefix_append _ _
  rcases registry_of_step hstep with ⟨b, hb, hserver⟩ | ⟨_, hsame⟩
  · rcases call_of_step hserver hbr with ⟨br₀, hbr₀, hsame⟩ | rfl
    · exact Loaded.mono (h.calls br₀ _ _ _ hbr₀ (hsame.trans hcall)) hpre
    · rw [hcall] at hb
      have hheld := h.dispatcher
      -- only the dispatch thread broadcasts statistics
      cases a with
      | session a =>
          cases daemonMove_of_step hstep with
          | session hown hsession => exact absurd rfl (ne_broadcast_of_session hown hb _)
      | poller a =>
          cases daemonMove_of_step hstep with
          | poller hown hmonitor =>
              rcases radioEvent_of_poller hown hb with ⟨event, hevent⟩
              cases hevent
      | proceed =>
          simp only [DaemonWorld.atRegistry] at hb
          cases hpc : w.pc with
          | txLoaded snap rx tx =>
              rw [hpc] at hb hheld
              cases hb
              exact Loaded.mono hheld hpre
          | _ =>
              rw [hpc] at hb
              cases hb
      | _ => cases hb
  · rw [hsame] at hbr
    exact Loaded.mono (h.calls br _ _ _ hbr hcall) hpre

theorem step (h : ReportInv fd inbound tr w) (htr : Trace (daemonSystem fd inbound) tr w)
    (hstep : w.step fd a = some t) : ReportInv fd inbound (tr ++ [(w, a)]) t where
  handlers := fun _ _ hpc hs => h.handlers_step htr hstep hpc hs
  dispatcher := h.dispatcher_step htr hstep
  calls := fun _ _ _ _ hbr hcall => h.calls_step hstep hbr hcall

end ReportInv

end Reports

/-! ## An underrun before the reply -/

end Cm108Driver
