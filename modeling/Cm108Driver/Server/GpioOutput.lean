import Cm108Driver.Hal.HidGpio

/-!
# GpioOutput — the shared output register over whole runs

Everything that reaches `HidGpio::set_pin` in the daemon: the `SetGpio` messages of any number of
clients, as `dispatch_client_msg` passes them on after decoding, and the heartbeat thread, which
toggles pin 3.  Both take the `gpio` mutex around the call, so a run is a sequence of whole calls.

The register follows the requests pin by pin exactly as long as no request for a pin outside `0..3`
changes the bit that its masked shift amount reaches.
-/

namespace Cm108Driver

open Lib

/-! ## The threads that share the register -/

/-- GPIO4 (pin index 3), the heartbeat LED. -/
def heartbeatPin : UInt8 := 3

/-- The register behind the mutex and the heartbeat thread's own `pin_state`. -/
structure GpioWorld where
  gpio : HidGpio
  pinState : Bool
  deriving DecidableEq, Repr

inductive GpioAct
  /-- The handler thread of client `id` dispatches a message with this payload. -/
  | client (id : Nat) (payload : List UInt8) (handle : WriteControl)
  | heartbeat (handle : WriteControl)

/-- One call of `set_pin`: the pin byte and the level asked for. -/
structure PinRequest where
  pin : UInt8
  high : Bool
  deriving DecidableEq, Repr

namespace GpioWorld

def start : GpioWorld :=
  { gpio := HidGpio.new
    pinState := false }

/-- The call of `set_pin` that an action leads to, if any. -/
def request? (w : GpioWorld) : GpioAct → Option PinRequest
  | .client _ payload _ =>
      match fromBytes ClientMsg payload with
      | some (.setGpio pin high) => some { pin := pin, high := high }
      | _ => none
  | .heartbeat _ => some { pin := heartbeatPin, high := !w.pinState }

def next (w : GpioWorld) : GpioAct → GpioWorld
  | .client _ payload handle =>
      match fromBytes ClientMsg payload with
      | some (.setGpio pin high) => { w with gpio := (w.gpio.setPin handle pin high).1 }
      | _ => w
  | .heartbeat handle =>
      { gpio := (w.gpio.setPin handle heartbeatPin (!w.pinState)).1
        pinState := !w.pinState }

end GpioWorld

def gpioSystem : System GpioWorld GpioAct where
  init := GpioWorld.start
  step w a := some (w.next a)

/-- Every control transfer of the run succeeds. -/
def UsbSucceeds (_ : GpioWorld) : GpioAct → Prop
  | .client _ _ handle => ∀ t, ∃ n, handle t = .ok n
  | .heartbeat handle => ∀ t, ∃ n, handle t = .ok n

/-! ## What the register should show -/

/-- The calls of `set_pin` along a run, in order. -/
def pinRequests (tr : List (GpioWorld × GpioAct)) : List PinRequest :=
  tr.filterMap fun p => p.1.request? p.2

/-- The level of the last request addressed to exactly pin `p` (low if there was none). -/
def lastRequest (reqs : List PinRequest) (p : Nat) : Bool :=
  reqs.foldl (fun level r => if r.pin.toNat = p then r.high else level) false

/-- Bits 0..3 carry the last request for their pin and bits 4..7 are low. -/
structure RegisterShows (g : HidGpio) (reqs : List PinRequest) : Prop where
  pins : ∀ p, p < 4 → g.bit p = lastRequest reqs p
  upper : ∀ p, 4 ≤ p → p < 8 → g.bit p = false

/-- The register follows the requests after every step of the run; a request for a pin outside
`0..3` leaves it alone; the PTT bit changes only through a request for pin 0. -/
structure FollowsRequests (tr : List (GpioWorld × GpioAct)) : Prop where
  shows : ∀ {tr' w}, Trace gpioSystem tr' w → tr' <+: tr → RegisterShows w.gpio (pinRequests tr')
  outOfRange : ∀ p ∈ tr, ∀ r, p.1.request? p.2 = some r → 4 ≤ r.pin.toNat →
    (p.1.next p.2).gpio = p.1.gpio
  ptt : ∀ p ∈ tr, (p.1.next p.2).gpio.bit 0 ≠ p.1.gpio.bit 0 →
    ∃ r, p.1.request? p.2 = some r ∧ r.pin = 0

/-- The level that the bit `q` of the register should have: pins `0..3` by their last request, the
upper bits low. -/
def bitLevel (reqs : List PinRequest) (q : Nat) : Bool :=
  if q < 4 then lastRequest reqs q else false

/-- Every request for a pin outside `0..3` asks for the level that the bit `pin % 8` should have
already. -/
def AliasesHarmless (tr : List (GpioWorld × GpioAct)) : Prop :=
  ∀ pre p, pre ++ [p] <+: tr → ∀ r, p.1.request? p.2 = some r → 4 ≤ r.pin.toNat →
    r.high = bitLevel (pinRequests pre) (r.pin.toNat % 8)

/-! ## One step -/

@[simp] theorem pinRequests_snoc (tr : List (GpioWorld × GpioAct)) (p : GpioWorld × GpioAct) :
    pinRequests (tr ++ [p]) = pinRequests tr ++ (p.1.request? p.2).toList :=
  filterMap_snoc _ tr p

@[simp] theorem lastRequest_snoc (reqs : List PinRequest) (r : PinRequest) (p : Nat) :
    lastRequest (reqs ++ [r]) p = if r.pin.toNat = p then r.high else lastRequest reqs p := by
  simp [lastRequest]

theorem RegisterShows.bit_eq {g : HidGpio} {reqs : List PinRequest} (h : RegisterShows g reqs)
    {q : Nat} (hq : q < 8) : g.bit q = bitLevel reqs q := by
  by_cases hlt : q < 4
  · simpa [bitLevel, hlt] using h.pins q hlt
  · simpa [bitLevel, hlt] using h.upper q (by omega) hq

/-- An action either leaves the register alone or is exactly one call of `set_pin`. -/
theorem GpioWorld.next_gpio (w : GpioWorld) (a : GpioAct) :
    (w.request? a = none ∧ (w.next a).gpio = w.gpio) ∨
      ∃ r handle, w.request? a = some r ∧
        (w.next a).gpio = (w.gpio.setPin handle r.pin r.high).1 := by
  cases a with
  | heartbeat handle => exact Or.inr ⟨_, handle, rfl, rfl⟩
  | client id payload handle =>
      cases h : fromBytes ClientMsg payload with
      | none => exact Or.inl (by simp [request?, next, h])
      | some m =>
          cases m with
          | setGpio pin high =>
              exact Or.inr ⟨{ pin := pin, high := high }, handle, by simp [request?, next, h]⟩
          | _ => exact Or.inl (by simp [request?, next, h])

/-- An in-range request keeps the register in step with the requests. -/
theorem RegisterShows.setPin {g : HidGpio} {reqs : List PinRequest} (h : RegisterShows g reqs)
    (handle : WriteControl) {r : PinRequest} (hr : r.pin.toNat < 4) :
    RegisterShows (g.setPin handle r.pin r.high).1 (reqs ++ [r]) := by
  have hmod : r.pin.toNat % 8 = r.pin.toNat := Nat.mod_eq_of_lt (by omega)
  constructor
  · intro p hp
    rw [HidGpio.bit_setPin _ _ _ _ (by omega), hmod, lastRequest_snoc]
    by_cases hpin : r.pin.toNat = p
    · simp [hpin]
    · have hpin' : p ≠ r.pin.toNat := fun he => hpin he.symm
      simpa [hpin, hpin'] using h.pins p hp
  · intro p hlo hhi
    have hpin : p ≠ r.pin.toNat := by omega
    rw [HidGpio.bit_setPin _ _ _ _ hhi, hmod, if_neg hpin]
    exact h.upper p hlo hhi

/-- A request for a pin outside `0..3` does not count for any of the pins `0..3`. -/
theorem RegisterShows.ignore {g : HidGpio} {reqs : List PinRequest} (h : RegisterShows g reqs)
    {r : PinRequest} (hr : 4 ≤ r.pin.toNat) : RegisterShows g (reqs ++ [r]) := by
  refine ⟨?_, h.upper⟩
  intro p hp
  have hpin : r.pin.toNat ≠ p := by omega
  simpa [hpin] using h.pins p hp

theorem AliasesHarmless.of_prefix {tr tr' : List (GpioWorld × GpioAct)} (h : AliasesHarmless tr)
    (hpre : tr' <+: tr) : AliasesHarmless tr' :=
  fun pre p hp => h pre p (hp.trans hpre)

/-! ## Whole runs -/

/-- Under the condition, the step of a run keeps the register in step with the requests. -/
theorem registerShows_next {tr : List (GpioWorld × GpioAct)} {w : GpioWorld} {a : GpioAct}
    (hw : RegisterShows w.gpio (pinRequests tr)) (hok : AliasesHarmless (tr ++ [(w, a)])) :
    RegisterShows (w.next a).gpio (pinRequests (tr ++ [(w, a)])) := by
  rw [pinRequests_snoc]
  rcases w.next_gpio a with ⟨hnone, hsame⟩ | ⟨r, handle, hsome, hset⟩
  · simpa [hnone, hsame] using hw
  · rw [hset, hsome]
    by_cases hr : r.pin.toNat < 4
    · simpa using hw.setPin handle hr
    · -- an alias: the bit has the level asked for, so that the call changes nothing
      have hge : 4 ≤ r.pin.toNat := by omega
      have hlevel := hok tr (w, a) List.prefix_rfl r hsome hge
      have hbit : w.gpio.bit (r.pin.toNat % 8) = r.high := by
        rw [hw.bit_eq (Nat.mod_lt _ (by decide)), hlevel]
      rw [HidGpio.setPin_eq_self handle hbit]
      simpa using hw.ignore hge

theorem registerShows_of_aliasesHarmless {tr : List (GpioWorld × GpioAct)} {w : GpioWorld}
    (h : Trace gpioSystem tr w) (hok : AliasesHarmless tr) :
    RegisterShows w.gpio (pinRequests tr) := by
  induction h with
  | start =>
      refine ⟨?_, ?_⟩
      · intro p _
        simp [gpioSystem, GpioWorld.start, pinRequests, lastRequest]
      · intro p _ _
        simp [gpioSystem, GpioWorld.start]
  | snoc htr hs ih =>
      simp only [gpioSystem, Option.some.injEq] at hs
      subst hs
      exact registerShows_next (ih (hok.of_prefix (List.prefix_append _ _))) hok

/-- At every step of a run that meets the condition, the register shows the requests so far and an
out-of-range request asks for the level its aliased bit has. -/
theorem AliasesHarmless.at_step {tr : List (GpioWorld × GpioAct)} {w : GpioWorld}
    (h : Trace gpioSystem tr w) (hok : AliasesHarmless tr) {p : GpioWorld × GpioAct}
    (hp : p ∈ tr) {r : PinRequest} (hr : p.1.request? p.2 = some r) (hge : 4 ≤ r.pin.toNat) :
    p.1.gpio.bit (r.pin.toNat % 8) = r.high := by
  rcases exists_prefix_of_mem hp with ⟨pre, hpre⟩
  rcases h.of_prefix hpre with ⟨hbefore, _⟩
  have hshow := registerShows_of_aliasesHarmless hbefore
    (hok.of_prefix ((List.prefix_append _ _).trans hpre))
  rw [hok pre p hpre r hr hge]
  exact hshow.bit_eq (Nat.mod_lt _ (by decide))

/-- The register follows the requests on exactly those runs whose requests for a pin outside `0..3`
ask for the level that the aliased bit has already. -/
theorem followsRequests_iff {tr : List (GpioWorld × GpioAct)} {w : GpioWorld}
    (h : Trace gpioSystem tr w) : FollowsRequests tr ↔ AliasesHarmless tr := by
  constructor
  · intro hfollow pre p hpre r hr hge
    rcases h.of_prefix hpre with ⟨hbefore, _⟩
    have hshow := hfollow.shows hbefore ((List.prefix_append _ _).trans hpre)
    have hsame := hfollow.outOfRange p (hpre.subset (by simp)) r hr hge
    have hlt : r.pin.toNat % 8 < 8 := Nat.mod_lt _ (by decide)
    rcases p.1.next_gpio p.2 with ⟨hnone, _⟩ | ⟨r', handle, hsome, hset⟩
    · simp [hnone] at hr
    · have hrr : r' = r := Option.some.inj (hsome.symm.trans hr)
      subst hrr
      -- The call wrote `r'.high` to the aliased bit, and the register is what it was before.
      have hwritten := HidGpio.bit_setPin p.1.gpio handle r'.pin r'.high hlt
      rw [← hset, hsame, if_pos rfl] at hwritten
      rw [← hwritten, hshow.bit_eq hlt]
  · intro hok
    refine ⟨?_, ?_, ?_⟩
    · intro tr' w' htr' hpre
      exact registerShows_of_aliasesHarmless htr' (hok.of_prefix hpre)
    · intro p hp r hr hge
      have hbit := hok.at_step h hp hr hge
      rcases p.1.next_gpio p.2 with ⟨_, hsame⟩ | ⟨r', handle, hsome, hset⟩
      · exact hsame
      · have hrr : r' = r := Option.some.inj (hsome.symm.trans hr)
        subst hrr
        rw [hset]
        exact HidGpio.setPin_eq_self handle hbit
    · intro p hp hchange
      rcases p.1.next_gpio p.2 with ⟨_, hsame⟩ | ⟨r, handle, hsome, hset⟩
      · exact absurd (by rw [hsame]) hchange
      · refine ⟨r, hsome, ?_⟩
        by_contra hne
        have hpos : r.pin.toNat ≠ 0 := fun h0 => hne (UInt8.toNat_inj.1 h0)
        have hbit := HidGpio.bit_setPin p.1.gpio handle r.pin r.high (p := 0) (by decide)
        apply hchange
        rw [hset, hbit]
        by_cases halias : 0 = r.pin.toNat % 8
        · -- Bit 0 is reached through an alias, which the condition makes harmless.
          rw [if_pos halias, ← hok.at_step h hp hsome (by omega), ← halias]
        · rw [if_neg halias]

/-- A run whose requests are all for pins in `0..3` meets the condition. -/
theorem aliasesHarmless_of_inRange {tr : List (GpioWorld × GpioAct)}
    (hpins : ∀ p ∈ tr, ∀ r, p.1.request? p.2 = some r → r.pin.toNat < 4) :
    AliasesHarmless tr := by
  intro pre p hpre r hr hge
  have hlt := hpins p (hpre.subset (by simp)) r hr
  omega

/-! ## A request for pin 8 keys the transmitter -/

/-- A client's `SetGpio { pin: 8, high: true }`. -/
def aliasAct : GpioAct := .client 1 [1, 8, 1] fun _ => .ok 4

theorem aliasAct_trace :
    Trace gpioSystem [(GpioWorld.start, aliasAct)] (GpioWorld.start.next aliasAct) :=
  Trace.start.snoc rfl

/-- The exact condition, at the run of one request for pin 8. -/
theorem followsRequests_iff_aliasAct :
    FollowsRequests [(GpioWorld.start, aliasAct)] ↔
      AliasesHarmless [(GpioWorld.start, aliasAct)] :=
  followsRequests_iff aliasAct_trace

/-- After one decoded request for pin 8 the PTT bit is set, although nobody asked for pin 0. -/
theorem followsRequests_fails :
    ∃ tr w, Trace gpioSystem tr w ∧ Guarded UsbSucceeds tr ∧ w.gpio.bit 0 = true ∧
      (∀ r ∈ pinRequests tr, r.pin ≠ 0) ∧ ¬ FollowsRequests tr := by
  refine ⟨_, _, aliasAct_trace, ?_, by decide, by decide, ?_⟩
  · intro p hp
    simp only [List.mem_singleton] at hp
    subst hp
    exact fun _ => ⟨4, rfl⟩
  · intro h
    rcases h.ptt _ (List.mem_singleton_self _) (by decide) with ⟨r, hr, hpin⟩
    have hr8 : some r = some { pin := 8, high := true } := hr.symm
    cases hr8
    exact absurd hpin (by decide)

end Cm108Driver
