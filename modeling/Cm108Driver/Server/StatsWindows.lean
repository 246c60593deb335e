import Cm108Driver.Lib.Windows
import Cm108Driver.Server.DispatchStats

/-!
# StatsWindows — one snapshot for every 5000 frames

The histogram holds the samples of the window that the dispatch thread fills, and from the snapshot
to the reset those of the window it has just filled.  `last_latency` is the snapshot of the last
window filled, and the broadcasts carry the snapshots of all windows in order.

`ticker` counts the frames modulo 2^64, which 5000 does not divide: the results hold for runs of
fewer than 2^64 frames.
-/

namespace Cm108Driver

open Lib

/-! ## Histories -/

def recorded? : StatsAct → Option UInt32
  | .record us => some us
  | _ => none

/-- The samples of all frames so far. -/
def recorded (tr : StatsTrace) : List UInt32 := tr.filterMap fun p => recorded? p.2

def published? (w : StatsWorld) : StatsAct → Option LatencyStats
  | .proceed =>
      match w.dispatcher.pc with
      | .txLoaded snap _ _ => some snap
      | _ => none
  | _ => none

/-- The snapshots that were broadcast so far. -/
def published (tr : StatsTrace) : List LatencyStats := tr.filterMap fun p => published? p.1 p.2

theorem recorded_snoc (tr : StatsTrace) (w : StatsWorld) (a : StatsAct) :
    recorded (tr ++ [(w, a)]) = recorded tr ++ (recorded? a).toList :=
  filterMap_snoc _ tr (w, a)

theorem published_snoc (tr : StatsTrace) (w : StatsWorld) (a : StatsAct) :
    published (tr ++ [(w, a)]) = published tr ++ (published? w a).toList :=
  filterMap_snoc _ tr (w, a)

/-! ## Windows of samples -/

/-- A histogram that has recorded these samples. -/
def histogramOf (samples : List UInt32) : LatencyHistogram :=
  samples.foldl LatencyHistogram.record LatencyHistogram.new

def statsOf (samples : List UInt32) : LatencyStats := (histogramOf samples).toStats

/-- The statistics of the complete windows. -/
def snapshots (samples : List UInt32) : List LatencyStats := (windows 5000 samples).map statsOf

/-- The statistics of the last complete window; all zero if there is none. -/
def latest (samples : List UInt32) : LatencyStats :=
  (snapshots samples).getLast?.getD LatencyStats.default

theorem histogramOf_snoc (samples : List UInt32) (us : UInt32) :
    histogramOf (samples ++ [us]) = (histogramOf samples).record us := by
  simp [histogramOf]

theorem summarizes_histogramOf (samples : List UInt32) :
    Summarizes (histogramOf samples) samples := by
  induction samples using List.reverseRecOn with
  | nil => exact Summarizes.new
  | append_singleton samples us ih =>
      rw [histogramOf_snoc]
      exact ih.record us

/-- A window is short enough for the multiplication in `p99_us`. -/
theorem window_fits {samples : List UInt32} (h : samples.length ≤ 5000) :
    99 * samples.length + 99 < 2 ^ 64 :=
  calc 99 * samples.length + 99
      ≤ 99 * 5000 + 99 := Nat.add_le_add_right (Nat.mul_le_mul_left 99 h) 99
    _ < 2 ^ 64 := by decide

theorem isSummary_statsOf {samples : List UInt32} (h : samples.length ≤ 5000) :
    IsSummary samples (statsOf samples) :=
  (summarizes_histogramOf samples).isSummary (window_fits h)

/-! ## The invariant -/

/-- A snapshot that is stored and has yet to be broadcast. -/
def StatsPc.unpublished : StatsPc → List LatencyStats
  | .stored snap => [snap]
  | .rxLoaded snap _ => [snap]
  | .txLoaded snap _ _ => [snap]
  | _ => []

/-- Between the snapshot and the reset. -/
def StatsPc.reporting : StatsPc → Bool
  | .stored _ => true
  | .rxLoaded _ _ => true
  | .txLoaded _ _ _ => true
  | .publishing => true
  | _ => false

structure WindowInv (samples : List UInt32) (snaps : List LatencyStats) (w : StatsWorld) :
    Prop where
  ticker : w.dispatcher.ticker = UInt64.ofNat samples.length
  lastLatency : w.server.lastLatency = latest samples
  published : snaps ++ w.dispatcher.pc.unpublished = snapshots samples
  filling : w.dispatcher.pc.reporting = false →
    w.dispatcher.histogram = histogramOf (openWindow 5000 samples)
  filled : w.dispatcher.pc.reporting = true → openWindow 5000 samples = [] ∧
    ∃ filled, filled.length = 5000 ∧ w.dispatcher.histogram = histogramOf filled

namespace WindowInv

variable {samples : List UInt32} {snaps : List LatencyStats} {w : StatsWorld}

theorem start : WindowInv [] [] StatsWorld.start where
  ticker := rfl
  lastLatency := rfl
  published := rfl
  filling := fun _ => rfl
  filled := fun h => Bool.noConfusion h

/-- A step that records and publishes nothing and leaves the histogram, the ticker and
`last_latency`. -/
theorem keep {t : StatsWorld} {a : StatsAct} (h : WindowInv samples snaps w)
    (hrecorded : recorded? a = none) (hpublished : published? w a = none)
    (hhistogram : t.dispatcher.histogram = w.dispatcher.histogram)
    (hticker : t.dispatcher.ticker = w.dispatcher.ticker)
    (hlatency : t.server.lastLatency = w.server.lastLatency)
    (hunpublished : t.dispatcher.pc.unpublished = w.dispatcher.pc.unpublished)
    (hreporting : t.dispatcher.pc.reporting = w.dispatcher.pc.reporting) :
    WindowInv (samples ++ (recorded? a).toList) (snaps ++ (published? w a).toList) t := by
  rw [hrecorded, hpublished, Option.toList_none, Option.toList_none, List.append_nil,
    List.append_nil]
  exact
    { ticker := hticker.trans h.ticker
      lastLatency := hlatency.trans h.lastLatency
      published := hunpublished ▸ h.published
      filling := by
        rw [hhistogram, hreporting]
        exact h.filling
      filled := by
        rw [hhistogram, hreporting]
        exact h.filled }

/-- The tick is due exactly with the last sample of a window. -/
theorem due_iff (h : WindowInv samples snaps w) (hfew : samples.length + 1 < 2 ^ 64) :
    (w.dispatcher.ticker + 1) % 5000 = 0 ↔ (samples.length + 1) % 5000 = 0 := by
  have hticker : w.dispatcher.ticker + 1 = UInt64.ofNat (samples.length + 1) := by
    rw [h.ticker, UInt64.ofNat_add]
    rfl
  -- the ticker has not wrapped yet
  have hmod : ((w.dispatcher.ticker + 1) % 5000).toNat = (samples.length + 1) % 5000 := by
    rw [hticker, UInt64.toNat_mod, UInt64.toNat_ofNat_of_lt' hfew]
    rfl
  rw [← UInt64.toNat_inj, hmod]
  rfl

/-- A sample that does not complete its window. -/
theorem recordOpen (h : WindowInv samples snaps w) (us : UInt32)
    (hpc : w.dispatcher.pc = .notifying) (hfew : samples.length + 1 < 2 ^ 64)
    (hopen : (w.dispatcher.ticker + 1) % 5000 ≠ 0) :
    WindowInv (samples ++ [us]) snaps
      { w with dispatcher := { w.dispatcher.record us with pc := .polling } } := by
  have hmod : (samples.length + 1) % 5000 ≠ 0 := fun hzero => hopen ((h.due_iff hfew).mpr hzero)
  rcases windows_snoc_open (a := us) hmod with ⟨hwindows, hwindow⟩
  have hsame : snapshots (samples ++ [us]) = snapshots samples := by
    rw [snapshots, hwindows, snapshots]
  have hhistogram := h.filling (by rw [hpc]; rfl)
  have hpublished := h.published
  rw [hpc] at hpublished
  -- only the ticker and the open window move
  refine
    { ticker := ?_
      lastLatency := ?_
      published := ?_
      filling := ?_
      filled := fun hreporting => Bool.noConfusion hreporting }
  · rw [List.length_append, UInt64.ofNat_add]
    exact congrArg (· + 1) h.ticker
  · rw [latest, hsame]
    exact h.lastLatency
  · exact hpublished.trans hsame.symm
  · intro _
    calc (w.dispatcher.histogram.record us)
        = (histogramOf (openWindow 5000 samples)).record us := by rw [hhistogram]
      _ = histogramOf (openWindow 5000 (samples ++ [us])) := by rw [hwindow, histogramOf_snoc]

/-- The last sample of a window: its snapshot is the next one. -/
theorem recordFull (h : WindowInv samples snaps w) (us : UInt32)
    (hpc : w.dispatcher.pc = .notifying) (hfew : samples.length + 1 < 2 ^ 64)
    (hfull : (w.dispatcher.ticker + 1) % 5000 = 0) :
    WindowInv (samples ++ [us]) snaps
      { server := { w.server with lastLatency := (w.dispatcher.record us).histogram.toStats }
        dispatcher :=
          { w.dispatcher.record us with
            pc := .stored (w.dispatcher.record us).histogram.toStats } } := by
  have hmod := (h.due_iff hfew).mp hfull
  rcases windows_snoc_full (a := us) hmod with ⟨hwindows, hwindow⟩
  -- the histogram holds the samples of the window that ends here, and no others
  have hhistogram : w.dispatcher.histogram.record us =
      histogramOf (openWindow 5000 samples ++ [us]) := by
    rw [h.filling (by rw [hpc]; rfl), histogramOf_snoc]
  have hnext : snapshots (samples ++ [us]) =
      snapshots samples ++ [(w.dispatcher.histogram.record us).toStats] := by
    rw [snapshots, hwindows, List.map_append, List.map_singleton, statsOf, hhistogram, snapshots]
  have hpublished := h.published
  rw [hpc] at hpublished
  refine
    { ticker := ?_
      lastLatency := ?_
      published := ?_
      filling := fun hreporting => Bool.noConfusion hreporting
      filled := ?_ }
  · rw [List.length_append, UInt64.ofNat_add]
    exact congrArg (· + 1) h.ticker
  · simp [latest, hnext, Dispatcher.record]
  · calc snaps ++ [(w.dispatcher.histogram.record us).toStats]
        = snapshots samples ++ [(w.dispatcher.histogram.record us).toStats] := by
          rw [← hpublished]
          simp [StatsPc.unpublished]
      _ = snapshots (samples ++ [us]) := hnext.symm
  · intro _
    refine ⟨hwindow, openWindow 5000 samples ++ [us], ?_, hhistogram⟩
    rw [List.length_append, length_openWindow, List.length_singleton]
    omega

/-- The broadcast: what was stored is published. -/
theorem publish {snap : LatencyStats} {rxXruns txXruns : UInt64} {server : ServerWorld}
    (h : WindowInv samples snaps w) (hpc : w.dispatcher.pc = .txLoaded snap rxXruns txXruns)
    (hlatency : server.lastLatency = w.server.lastLatency) :
    WindowInv samples (snaps ++ [snap]) ({ w with server := server }.setPc .publishing) where
  ticker := h.ticker
  lastLatency := hlatency.trans h.lastLatency
  published := by
    have hpublished := h.published
    rw [hpc] at hpublished
    exact (List.append_nil _).trans hpublished
  filling := fun hreporting => Bool.noConfusion hreporting
  filled := fun _ => h.filled (by rw [hpc]; rfl)

/-- The reset: the next window is empty. -/
theorem reset (h : WindowInv samples snaps w) (hpc : w.dispatcher.pc = .publishing) :
    WindowInv samples snaps
      { w with
        dispatcher :=
          { w.dispatcher with
            pc := .polling
            histogram := w.dispatcher.histogram.reset } } where
  ticker := h.ticker
  lastLatency := h.lastLatency
  published := by
    have hpublished := h.published
    rw [hpc] at hpublished
    exact hpublished
  filling := by
    intro _
    rw [(h.filled (by rw [hpc]; rfl)).1]
    rfl
  filled := fun hreporting => Bool.noConfusion hreporting

/-- What the histogram holds is one window at most. -/
theorem held (h : WindowInv samples snaps w) :
    ∃ held, held.length ≤ 5000 ∧ w.dispatcher.histogram = histogramOf held := by
  -- between snapshot and reset it is a whole window, else the open one
  cases hreporting : w.dispatcher.pc.reporting with
  | true =>
      rcases (h.filled hreporting).2 with ⟨filled, hlen, hhistogram⟩
      exact ⟨filled, Nat.le_of_eq hlen, hhistogram⟩
  | false =>
      refine ⟨openWindow 5000 samples, ?_, h.filling hreporting⟩
      rw [length_openWindow]
      exact Nat.le_of_lt (Nat.mod_lt _ (by decide))

/-- A step of the run. -/
theorem step {fd : RawFd} {t : StatsWorld} {a : StatsAct} (h : WindowInv samples snaps w)
    (hstep : w.step fd a = some t) (hfew : (samples ++ (recorded? a).toList).length < 2 ^ 64) :
    WindowInv (samples ++ (recorded? a).toList) (snaps ++ (published? w a).toList) t := by
  cases statsMove_of_step hstep with
  -- four steps move the window: a sample, the last one of 5000, the broadcast and the reset
  | empty hpc => exact h.keep rfl rfl rfl rfl rfl rfl rfl
  | frame seq hpc => exact h.keep rfl rfl rfl rfl rfl (by rw [hpc]; rfl) (by rw [hpc]; rfl)
  | notify hpc hserver =>
      have hsame := sameCounters_of_step hserver (by simp)
      exact h.keep rfl (by simp [published?, hpc]) rfl rfl hsame.lastLatency (by rw [hpc]; rfl)
        (by rw [hpc]; rfl)
  | recordOpen hpc hopen =>
      rename_i us
      have hmore : samples.length + 1 < 2 ^ 64 := by simpa [recorded?] using hfew
      simpa [recorded?, published?] using h.recordOpen us hpc hmore hopen
  | recordFull hpc hfull =>
      rename_i us
      have hmore : samples.length + 1 < 2 ^ 64 := by simpa [recorded?] using hfew
      simpa [recorded?, published?] using h.recordFull us hpc hmore hfull
  | loadRx hpc =>
      exact h.keep rfl (by simp [published?, hpc]) rfl rfl rfl (by rw [hpc]; rfl) (by rw [hpc]; rfl)
  | loadTx hpc =>
      exact h.keep rfl (by simp [published?, hpc]) rfl rfl rfl (by rw [hpc]; rfl) (by rw [hpc]; rfl)
  | publish hpc hserver =>
      have hsame := sameCounters_of_step hserver (by simp)
      simpa [recorded?, published?, hpc] using h.publish hpc hsame.lastLatency
  | reset hpc => simpa [recorded?, published?, hpc] using h.reset hpc
  | rxXrun => exact h.keep rfl rfl rfl rfl rfl rfl rfl
  | txXrun => exact h.keep rfl rfl rfl rfl rfl rfl rfl
  | server hothers hserver =>
      have hsame := sameCounters_of_others hserver hothers
      exact h.keep rfl rfl rfl rfl hsame.lastLatency rfl rfl

end WindowInv

theorem windowInv_of_trace {fd : RawFd} {tr : StatsTrace} {w : StatsWorld}
    (h : Trace (statsSystem fd) tr w) (hfew : (recorded tr).length < 2 ^ 64) :
    WindowInv (recorded tr) (published tr) w := by
  induction h with
  | start => exact WindowInv.start
  | snoc htr hstep ih =>
      rename_i tr w t a
      rw [recorded_snoc] at hfew ⊢
      rw [published_snoc]
      have hbefore : (recorded tr).length < 2 ^ 64 := by
        rw [List.length_append] at hfew
        exact Nat.lt_of_le_of_lt (Nat.le_add_right _ _) hfew
      exact (ih hbefore).step hstep hfew

/-! ## The replies -/

/-- The `last_latency` that a handler has cloned for its reply. -/
def Serving.latency? : Serving → Option LatencyStats
  | .latencyLoaded lat => some lat
  | .rxLoaded lat _ => some lat
  | .replying (.stats _ _ lat) => some lat
  | _ => none

theorem Serving.forStats_of_latency {s : Serving} {lat : LatencyStats}
    (h : s.latency? = some lat) : s.forStats := by
  unfold latency? at h
  split at h
  · rfl
  · rfl
  · rfl
  · cases h

/-- For the request that it works on, the handler of `c` has locked `last_latency` and found `lat`,
the statistics of the last window complete at that moment. -/
def LockedAt (c : ClientId) (lat : LatencyStats) (tr : StatsTrace) : Prop :=
  ∃ tr₀ s rest, tr = tr₀ ++ (s, .server (.handler c .proceed)) :: rest ∧
    (s.server.conns c).handler = .serving .statsCall ∧ lat = latest (recorded tr₀) ∧
    ∀ p ∈ rest, ∀ m, p.2 ≠ .server (.handler c (.request m))

theorem LockedAt.snoc {c : ClientId} {lat : LatencyStats} {tr : StatsTrace} (h : LockedAt c lat tr)
    (w : StatsWorld) {a : StatsAct} (ha : ∀ m, a ≠ .server (.handler c (.request m))) :
    LockedAt c lat (tr ++ [(w, a)]) := by
  rcases h with ⟨tr₀, s, rest, rfl, hpc, hlat, hrest⟩
  refine ⟨tr₀, s, rest ++ [(w, a)], by simp, hpc, hlat, ?_⟩
  intro p hp
  rcases List.mem_append.mp hp with hold | hnew
  · exact hrest p hold
  · rw [List.mem_singleton.mp hnew]
    exact ha

theorem recorded_length_le {tr tr' : StatsTrace} (h : tr <+: tr') :
    (recorded tr).length ≤ (recorded tr').length :=
  (h.filterMap _).length_le

theorem lockedAt_of_trace {fd : RawFd} {tr : StatsTrace} {w : StatsWorld}
    (h : Trace (statsSystem fd) tr w) (hfew : (recorded tr).length < 2 ^ 64) {c : ClientId}
    {s : Serving} {lat : LatencyStats} (hpc : (w.server.conns c).handler = .serving s)
    (hlat : s.latency? = some lat) : LockedAt c lat tr := by
  induction h generalizing s with
  | start => cases hpc
  | snoc htr hstep ih =>
      rename_i tr w t a
      have hbefore : (recorded tr).length < 2 ^ 64 :=
        Nat.lt_of_le_of_lt (recorded_length_le (List.prefix_append _ _)) hfew
      have hforStats := Serving.forStats_of_latency hlat
      rcases statsServe_of_statsStep (serverInv_of_statsTrace htr) hstep hpc hforStats with
        ⟨hpc₀, hnot⟩ | ⟨s₀, rfl, hpc₀, hserve⟩
      · -- the handler stands where it was, and reads no request
        exact (ih hbefore hpc₀ hlat).snoc w fun m => hnot (.request m)
      · cases hserve with
        | lockLatency =>
            -- this is the access to `last_latency`
            cases hlat
            exact ⟨tr, w, [], rfl, hpc₀, (windowInv_of_trace htr hbefore).lastLatency, by simp⟩
        | loadRx lat₀ => exact (ih hbefore hpc₀ hlat).snoc w (by simp)
        | loadTx lat₀ rxXruns => exact (ih hbefore hpc₀ hlat).snoc w (by simp)

/-! ## The windows partition the run -/

/-- The statistics of a run.  Window `j` holds the samples of the frames `5000 * j + 1` up to
`5000 * (j + 1)`. -/
structure StatsWindows (tr : StatsTrace) (w : StatsWorld) : Prop where
  /-- The snapshot broadcast as number `j` is the one of window `j`, and a summary of its samples. -/
  inOrder : ∀ j snap, (published tr)[j]? = some snap →
    snap = statsOf (window 5000 (recorded tr) j) ∧ (window 5000 (recorded tr) j).length = 5000 ∧
      IsSummary (window 5000 (recorded tr) j) snap
  /-- No window is passed over: all snapshots but one that is on its way are broadcast. -/
  complete : published tr ++ w.dispatcher.pc.unpublished = snapshots (recorded tr)
  /-- Every sample is in one window, or behind the last one. -/
  partition : (windows 5000 (recorded tr)).flatten ++ openWindow 5000 (recorded tr) = recorded tr
  lastLatency : w.server.lastLatency = latest (recorded tr)
  /-- Every reply to a `GetStats` carries what `last_latency` was when its handler locked it. -/
  replies : ∀ tr₀ s c rxXruns txXruns lat,
    tr₀ ++ [(s, .server (.handler c .proceed))] <+: tr →
    (s.server.conns c).reply? = some (.stats rxXruns txXruns lat) → LockedAt c lat tr₀
  total : w.dispatcher.histogram.total.toNat ≤ 5000
  /-- The multiplication in `p99_us` does not overflow. -/
  fits : (w.dispatcher.histogram.total * 99 + 99).toNat =
    w.dispatcher.histogram.total.toNat * 99 + 99

theorem statsWindows_of_trace {fd : RawFd} {tr : StatsTrace} {w : StatsWorld}
    (h : Trace (statsSystem fd) tr w) (hfew : (recorded tr).length < 2 ^ 64) :
    StatsWindows tr w := by
  have hinv := windowInv_of_trace h hfew
  rcases hinv.held with ⟨held, hlen, hhistogram⟩
  have hsum := summarizes_histogramOf held
  have htotal : w.dispatcher.histogram.total.toNat = held.length := by
    rw [hhistogram]
    exact hsum.toNat_total (window_fits hlen)
  refine
    { inOrder := ?_
      complete := hinv.published
      partition := flatten_windows 5000 (recorded tr)
      lastLatency := hinv.lastLatency
      replies := ?_
      total := htotal ▸ hlen
      fits := ?_ }
  · intro j snap hsnap
    -- a snapshot broadcast is a snapshot taken
    have htaken : (snapshots (recorded tr))[j]? = some snap := by
      rw [← hinv.published, List.getElem?_append_left (List.getElem?_eq_some_iff.mp hsnap).1]
      exact hsnap
    rw [snapshots, List.getElem?_map] at htaken
    rcases Option.map_eq_some_iff.mp htaken with ⟨samples, hwindow, rfl⟩
    have hj : j < (recorded tr).length / 5000 := by
      have hlt := (List.getElem?_eq_some_iff.mp hwindow).1
      rwa [length_windows] at hlt
    rw [getElem?_windows hj] at hwindow
    cases hwindow
    have hfull := length_window hj
    exact ⟨rfl, hfull, isSummary_statsOf (Nat.le_of_eq hfull)⟩
  · intro tr₀ s c rxXruns txXruns lat hpre hreply
    have htr₀ := (h.of_prefix hpre).1
    have hfew₀ : (recorded tr₀).length < 2 ^ 64 :=
      Nat.lt_of_le_of_lt (recorded_length_le ((List.prefix_append _ _).trans hpre)) hfew
    exact lockedAt_of_trace htr₀ hfew₀ (Connection.reply?_eq_some.mp hreply) rfl
  · -- 99 * 5000 + 99 is far below 2^64
    have hsmall : w.dispatcher.histogram.total.toNat ≤ 5000 := htotal ▸ hlen
    rw [UInt64.toNat_add, UInt64.toNat_mul]
    simp only [UInt64.reduceToNat]
    omega

/-! ## A window without clients -/

/-- The world in which these samples were recorded, fewer than a window, and no client came. -/
def StatsWorld.quiet (samples : List UInt32) : StatsWorld :=
  { server := ServerWorld.start
    dispatcher :=
      { pc := .polling
        histogram := histogramOf samples
        ticker := UInt64.ofNat samples.length } }

/-- One frame up to its sample. -/
def quietFrame (us : UInt32) : List StatsAct :=
  [.frame 0, .proceed, .server .endBroadcast, .record us]

theorem ofNat_length_snoc (samples : List UInt32) (us : UInt32) :
    UInt64.ofNat samples.length + 1 = UInt64.ofNat (samples ++ [us]).length := by
  rw [List.length_append, UInt64.ofNat_add]
  rfl

theorem exec_quietFrame (fd : RawFd) (samples : List UInt32) (us : UInt32)
    (h : samples.length + 1 < 5000) :
    (statsSystem fd).exec (StatsWorld.quiet samples) (quietFrame us) =
      some (StatsWorld.quiet (samples ++ [us])) := by
  have hopen : (UInt64.ofNat samples.length + 1) % 5000 ≠ 0 := by
    have hlt : (samples ++ [us]).length < 5000 := by simpa using h
    have hpos : (samples ++ [us]).length ≠ 0 := by simp
    have hsmall : (samples ++ [us]).length < 2 ^ 64 := by omega
    have hmod : (UInt64.ofNat (samples ++ [us]).length % 5000).toNat = (samples ++ [us]).length := by
      rw [UInt64.toNat_mod, UInt64.toNat_ofNat_of_lt' hsmall]
      exact Nat.mod_eq_of_lt hlt
    intro hzero
    rw [ofNat_length_snoc samples us] at hzero
    rw [hzero] at hmod
    exact hpos hmod.symm
  have hrecord := StatsWorld.record_open (w := (StatsWorld.quiet samples).setPc .notifying) us hopen
  have hquiet : StatsWorld.quiet (samples ++ [us]) =
      { StatsWorld.quiet samples with
        dispatcher := { (StatsWorld.quiet samples).dispatcher.record us with pc := .polling } } := by
    simp only [StatsWorld.quiet, Dispatcher.record, histogramOf_snoc, ofNat_length_snoc samples us]
  rw [hquiet]
  exact congrArg some hrecord

theorem exec_quietFrames (fd : RawFd) (samples more : List UInt32)
    (h : samples.length + more.length < 5000) :
    (statsSystem fd).exec (StatsWorld.quiet samples) (more.flatMap quietFrame) =
      some (StatsWorld.quiet (samples ++ more)) := by
  induction more generalizing samples with
  | nil =>
      rw [List.append_nil]
      rfl
  | cons us more ih =>
      rw [List.length_cons] at h
      have hmore : (samples ++ [us]).length + more.length < 5000 := by
        rw [List.length_append, List.length_singleton]
        omega
      have hframe := exec_quietFrame fd samples us (by omega)
      rw [List.flatMap_cons, System.exec_trans hframe, ih _ hmore, List.append_assoc]
      rfl

/-- From the sample of a window's last frame to the reset. -/
def lastFrame (us : UInt32) : List StatsAct :=
  quietFrame us ++ [.proceed, .proceed, .proceed, .server .endBroadcast, .proceed]

/-- The last frame of the first window, with its report. -/
theorem exec_lastFrame (fd : RawFd) {samples : List UInt32} (us : UInt32)
    (h : samples.length = 4999) :
    (statsSystem fd).exec (StatsWorld.quiet samples) (lastFrame us) =
      some
        { server := { ServerWorld.start with lastLatency := statsOf (samples ++ [us]) }
          dispatcher :=
            { pc := .polling
              histogram := LatencyHistogram.new
              ticker := 5000 } } := by
  have hfull : (UInt64.ofNat samples.length + 1) % 5000 = 0 := by
    rw [h]
    decide
  have hticker : UInt64.ofNat samples.length + 1 = 5000 := by
    rw [h]
    decide
  have hrecord := StatsWorld.record_full (w := (StatsWorld.quiet samples).setPc .notifying) us hfull
  have hframe : (statsSystem fd).exec (StatsWorld.quiet samples) (quietFrame us) =
      some (((StatsWorld.quiet samples).setPc .notifying).record us) := rfl
  rw [lastFrame, System.exec_trans hframe, hrecord, statsOf, histogramOf_snoc, ← hticker]
  rfl

/-- The first window, of the samples `more` and `us`. -/
def firstWindow (more : List UInt32) (us : UInt32) : List StatsAct :=
  more.flatMap quietFrame ++ lastFrame us

theorem exec_firstWindow (fd : RawFd) {more : List UInt32} (us : UInt32) (h : more.length = 4999) :
    (statsSystem fd).exec StatsWorld.start (firstWindow more us) =
      some
        { server := { ServerWorld.start with lastLatency := statsOf (more ++ [us]) }
          dispatcher :=
            { pc := .polling
              histogram := LatencyHistogram.new
              ticker := 5000 } } := by
  have hframes := exec_quietFrames fd [] more (by
    rw [List.length_nil, h]
    omega)
  exact (System.exec_trans hframes _).trans (exec_lastFrame fd us h)

theorem recorded_eq_labels (tr : StatsTrace) :
    recorded tr = (tr.map Prod.snd).filterMap recorded? := by
  simp [recorded, List.filterMap_map]

theorem recorded_firstWindow (more : List UInt32) (us : UInt32) :
    (firstWindow more us).filterMap recorded? = more ++ [us] := by
  have hframes : (more.flatMap quietFrame).filterMap recorded? = more := by
    induction more with
    | nil => rfl
    | cons us more ih =>
        rw [List.flatMap_cons, List.filterMap_append, ih]
        rfl
  rw [firstWindow, List.filterMap_append, hframes]
  rfl

theorem trace_firstWindow (fd : RawFd) {more : List UInt32} (us : UInt32) (h : more.length = 4999) :
    ∃ tr w, Trace (statsSystem fd) tr w ∧ recorded tr = more ++ [us] ∧
      w.dispatcher.pc = .polling := by
  have hexec := exec_firstWindow fd us h
  refine ⟨_, _, Trace.start.exec hexec, ?_, rfl⟩
  rw [List.nil_append, recorded_eq_labels]
  exact (congrArg _ (System.labels_steps hexec)).trans (recorded_firstWindow more us)

/-- A window of 5000 samples of 17 microseconds. -/
theorem statsWindows_oneWindow :
    ∃ tr w, Trace (statsSystem 7) tr w ∧ recorded tr = List.replicate 4999 17 ++ [17] ∧
      (published tr).length = 1 ∧ StatsWindows tr w := by
  rcases trace_firstWindow 7 17 (List.length_replicate (n := 4999) (a := 17)) with
    ⟨tr, w, hrun, hrecorded, hpc⟩
  have hlen : (recorded tr).length = 5000 := by
    rw [hrecorded, List.length_append, List.length_replicate, List.length_singleton]
  have hwindows := statsWindows_of_trace hrun (by omega)
  refine ⟨tr, w, hrun, hrecorded, ?_, hwindows⟩
  have hcount := congrArg List.length hwindows.complete
  rw [List.length_append, snapshots, List.length_map, length_windows, hlen, hpc] at hcount
  exact hcount

end Cm108Driver
