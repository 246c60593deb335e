import Cm108Driver.Lib.Framing

/-!
# LeadingRun — the frames that a reader accepts before it stops

Every stream begins with a longest run of frames that a reader accepts.  Once the peer has closed
the stream, a blocking reader returns the messages of this run, one a call, and the call behind the
last of them returns no message; how the bytes were cut into reads does not matter.
-/

namespace Cm108Driver
namespace Lib

variable {α : Type}

namespace FrameReader

variable (R : FrameReader α)

/-- A header of four bytes, and behind it a payload of the length that the header says, which is
within the cap and decoded as `m`. -/
def Accepts (f : List UInt8) (m : α) : Prop :=
  ∃ header payload, f = header ++ payload ∧ header.length = 4 ∧ payload.length = ofLe header ∧
    payload.length ≤ R.cap ∧ R.decode payload = some m

/-- Accepted frames, one behind the other, with their messages. -/
inductive Frames : List UInt8 → List α → Prop where
  | nil : Frames [] []
  | cons {f bs : List UInt8} {m : α} {ms : List α} :
      R.Accepts f m → Frames bs ms → Frames (f ++ bs) (m :: ms)

/-- The stream `bs` is a run of accepted frames with the messages `ms`, and what follows begins
with no accepted frame. -/
structure LeadingRun (bs good rest : List UInt8) (ms : List α) : Prop where
  split : bs = good ++ rest
  frames : R.Frames good ms
  longest : ∀ f m, R.Accepts f m → ¬ f <+: rest

end FrameReader

section Runs

variable {R : FrameReader α}

/-! ## One frame -/

theorem FrameReader.Accepts.four_le {f : List UInt8} {m : α} (h : R.Accepts f m) :
    4 ≤ f.length := by
  rcases h with ⟨header, payload, rfl, hfour, _⟩
  rw [List.length_append, hfour]
  exact Nat.le_add_right 4 _

/-- An accepted frame at the front of the stream is what one call takes. -/
theorem read_accepts {f r : List UInt8} {m : α} (h : R.Accepts f m) (ending : Ending)
    {es : List (Arrival UInt8)} (harr : arrived es = f ++ r) :
    ∃ es', R.read .blocking ending es = (.ok (some m), es') ∧ arrived es' = r := by
  rcases h with ⟨header, payload, rfl, hfour, hlen, hcap, hdec⟩
  have hframe : frame payload = header ++ payload := by
    rw [frame, hlen, ← hfour, toLe_ofLe]
  have hwidth : payload.length < 4294967296 := by
    have hlt := ofLe_lt header
    rw [hfour] at hlt
    rw [hlen]
    exact hlt
  have havail : available .blocking es = frame payload ++ r := by
    rw [hframe]
    exact harr
  rcases read_frame R .blocking ending havail hcap hwidth hdec with ⟨es', hread, _, hrest, _⟩
  exact ⟨es', hread, hrest⟩

/-- An accepted frame is a frame of its payload. -/
theorem FrameReader.Accepts.eq_frame {f : List UInt8} {m : α} (h : R.Accepts f m) :
    ∃ payload, f = frame payload ∧ payload.length ≤ R.cap ∧ payload.length < 4294967296 := by
  rcases h with ⟨header, payload, rfl, hfour, hlen, hcap, hdec⟩
  refine ⟨payload, ?_, hcap, ?_⟩
  · rw [frame, hlen, ← hfour, toLe_ofLe]
  · have hlt := ofLe_lt header
    rw [hfour] at hlt
    rw [hlen]
    exact hlt

/-- No accepted frame is a part of another one at its front: they have the same header. -/
theorem FrameReader.Accepts.eq_of_isPrefix {f g : List UInt8} {m m' : α} (hf : R.Accepts f m)
    (hg : R.Accepts g m') (h : f <+: g) : f = g := by
  rcases hf with ⟨header, payload, rfl, hfour, hlen, _⟩
  rcases hg with ⟨header', payload', rfl, hfour', hlen', _⟩
  have hheader : header = header' := by
    have htake := (List.prefix_iff_eq_take.1 ((List.prefix_append header payload).trans h))
    rw [hfour, ← hfour', List.take_left] at htake
    exact htake
  subst hheader
  refine h.eq_of_length ?_
  rw [List.length_append, List.length_append, hlen, hlen']

/-- A call at the front of accepted frames, the last of which may be cut off: it returns the first
message if its frame is there, and otherwise takes all and ends as the stream ends. -/
theorem read_frames_next {enc : α → List UInt8} {ms : List α} (hms : ∀ m ∈ ms, R.Accepts (enc m) m)
    (ending : Ending) {es : List (Arrival UInt8)} {more : List UInt8}
    (h : arrived es ++ more = ms.flatMap enc) :
    (∃ m ms' es', ms = m :: ms' ∧ R.read .blocking ending es = (.ok (some m), es') ∧
      arrived es = enc m ++ arrived es' ∧ arrived es' ++ more = ms'.flatMap enc) ∨
    (R.read .blocking ending es = (R.cutOff ending ((arrived es).length < 4), []) ∧
      (more = [] → ms = [])) := by
  cases ms with
  | nil =>
      right
      have hnone : arrived es = [] := (List.append_eq_nil_iff.mp h).1
      refine ⟨?_, fun _ => rfl⟩
      rw [read_blocking_short R ending (by simp [hnone])]
      simp [hnone]
  | cons m ms =>
      have hacc := hms m List.mem_cons_self
      rw [List.flatMap_cons] at h
      by_cases hshort : (arrived es).length < (enc m).length
      · right
        rcases hacc.eq_frame with ⟨payload, hframe, hcap, hwidth⟩
        rw [hframe] at h hshort
        refine ⟨read_blocking_torn R ending ⟨more, h⟩ hshort hcap hwidth, ?_⟩
        -- part of a frame is not all of the frames
        intro hmore
        rw [hmore, List.append_nil] at h
        rw [h, List.length_append] at hshort
        omega
      · left
        rcases List.prefix_of_prefix_length_le ⟨ms.flatMap enc, rfl⟩ ⟨more, h⟩
          (Nat.le_of_not_lt hshort) with ⟨bs, hbs⟩
        rcases read_accepts hacc ending hbs.symm with ⟨es', hread, htail⟩
        refine ⟨m, ms, es', rfl, hread, by rw [htail, hbs], ?_⟩
        rw [← hbs, List.append_assoc] at h
        rw [htail]
        exact List.append_cancel_left h

/-- What a call returns was an accepted frame at the front of the stream. -/
theorem accepts_of_read {mode : Mode} {ending : Ending} {es es' : List (Arrival UInt8)} {m : α}
    (h : R.read mode ending es = (.ok (some m), es')) :
    ∃ f, R.Accepts f m ∧ arrived es = f ++ arrived es' := by
  unfold FrameReader.read at h
  split at h
  -- a header, a payload within the cap, and the two decoded: every other way returns no message
  · rename_i header es₁ hheader
    rcases readExact_ok hheader with ⟨hfour, hsplit⟩
    unfold FrameReader.readPayload at h
    split at h
    · cases h
    · rename_i hcap
      split at h
      · rename_i payload es₂ hpayload
        rcases readExact_ok hpayload with ⟨hlen, hsplit₂⟩
        split at h
        · rename_i hdec
          cases h
          refine ⟨header ++ payload, ⟨header, payload, rfl, hfour, hlen, ?_, hdec⟩, ?_⟩
          · rw [hlen]
            exact Nat.le_of_not_lt hcap
          · rw [List.append_assoc, hsplit₂, hsplit]
        · cases h
      · cases h
      · cases h
  · split at h
    · cases h
    · cases h
  · cases h

/-- At the end of a closed stream a read does not wait. -/
theorem readExact_closed (n : Nat) (es : List (Arrival UInt8)) :
    (readExact .blocking .eof n es).1 ≠ .pending := by
  by_cases henough : n ≤ (arrived es).length
  · rcases readExact_enough .blocking .eof n es henough with ⟨es', hread, _⟩
    rw [hread]
    intro hpending
    cases hpending
  · rw [readExact_blocking_short .eof n es (Nat.lt_of_not_le henough)]
    intro hpending
    cases hpending

theorem read_closed (R : FrameReader α) (es : List (Arrival UInt8)) :
    (R.read .blocking .eof es).1 ≠ .pending := by
  unfold FrameReader.read
  split
  · unfold FrameReader.readPayload
    split
    · intro hpending
      cases hpending
    · split
      · split
        · intro hpending
          cases hpending
        · intro hpending
          cases hpending
      · intro hpending
        cases hpending
      · rename_i hread
        exact absurd (congrArg Prod.fst hread) (readExact_closed _ _)
  · split
    · intro hpending
      cases hpending
    · intro hpending
      cases hpending
  · rename_i hread
    exact absurd (congrArg Prod.fst hread) (readExact_closed _ _)

/-! ### Whether the peer is still connected -/

/-- A blocking read that returns while the peer is connected does not notice when it is not. -/
theorem readExact_open {n : Nat} {es : List (Arrival UInt8)}
    (h : (readExact .blocking .alive n es).1 ≠ .pending) :
    readExact .blocking .eof n es = readExact .blocking .alive n es := by
  induction es generalizing n with
  | nil =>
      cases n with
      | zero => rfl
      | succ n => exact absurd rfl h
  | cons e es ih =>
      cases n with
      | zero => rfl
      | succ n =>
          cases e with
          | gap =>
              simp only [readExact] at h ⊢
              exact ih h
          | data bs =>
              simp only [readExact] at h ⊢
              split
              · rfl
              · rename_i hle
                rw [if_neg hle] at h
                have hrest : (readExact .blocking .alive (n + 1 - bs.length) es).1 ≠ .pending := by
                  intro hpending
                  exact h (by rw [hpending]; rfl)
                rw [ih hrest]

theorem read_open {R : FrameReader α} {es : List (Arrival UInt8)}
    (h : (R.read .blocking .alive es).1 ≠ .pending) :
    R.read .blocking .eof es = R.read .blocking .alive es := by
  have hheader : (readExact .blocking .alive 4 es).1 ≠ .pending := by
    intro hpending
    cases hread : readExact .blocking .alive 4 es with
    | mk out es' =>
        rw [hread] at hpending
        cases hpending
        exact h (by simp [FrameReader.read, hread])
  unfold FrameReader.read at h ⊢
  rw [readExact_open hheader]
  split
  · rename_i header es' hread
    rw [hread] at h
    unfold FrameReader.readPayload at h ⊢
    split
    · rfl
    · rename_i hcap
      simp only [if_neg hcap] at h
      -- had it waited for the payload, the whole read would wait
      have hpayload : (readExact .blocking .alive (ofLe header) es').1 ≠ .pending := by
        intro hpending
        cases hrest : readExact .blocking .alive (ofLe header) es' with
        | mk out es'' =>
            rw [hrest] at hpending
            cases hpending
            exact h (by simp [hrest])
      rw [readExact_open hpayload]
  · rfl
  · rfl

/-! ## The whole run -/

namespace FrameReader.LeadingRun

variable {bs good rest : List UInt8} {m : α} {ms : List α}

/-- The first frame, and the run behind it. -/
theorem uncons (h : R.LeadingRun bs good rest (m :: ms)) :
    ∃ f bs' good', R.Accepts f m ∧ bs = f ++ bs' ∧ R.LeadingRun bs' good' rest ms := by
  rcases h with ⟨rfl, hframes, hlongest⟩
  cases hframes with
  | cons hfirst hothers =>
      exact ⟨_, _, _, hfirst, List.append_assoc _ _ _, ⟨rfl, hothers, hlongest⟩⟩

/-- The run of no frame. -/
theorem stops (h : R.LeadingRun bs good rest []) : ∀ f m, R.Accepts f m → ¬ f <+: bs := by
  rcases h with ⟨rfl, hframes, hlongest⟩
  cases hframes
  exact hlongest

/-- Accepted frames, and behind them one that is cut off. -/
theorem of_torn {enc : α → List UInt8} {part : List UInt8} {ms : List α}
    (hms : ∀ m ∈ ms, R.Accepts (enc m) m)
    (hpart : part = [] ∨ ∃ f m, R.Accepts f m ∧ part <+: f ∧ part ≠ f) :
    R.LeadingRun (ms.flatMap enc ++ part) (ms.flatMap enc) part ms where
  split := rfl
  frames := by
    induction ms with
    | nil => exact .nil
    | cons m ms ih =>
        rw [List.flatMap_cons]
        exact .cons (hms m List.mem_cons_self) (ih fun m' hm' => hms m' (List.mem_cons_of_mem m hm'))
  longest := by
    intro f m hacc hpre
    rcases hpart with rfl | ⟨g, m', haccg, hpart, hne⟩
    · have hfour := hacc.four_le
      rw [List.prefix_nil.1 hpre] at hfour
      cases hfour
    · -- the frame would be the one that is cut off
      have heq := hacc.eq_of_isPrefix haccg (hpre.trans hpart)
      subst heq
      exact hne (hpart.eq_of_length_le hpre.length_le)

/-- Without what follows, the run is the same. -/
theorem alone (h : R.LeadingRun bs good rest ms) : R.LeadingRun good good [] ms where
  split := by simp
  frames := h.frames
  longest := by
    intro f m hacc hpre
    have hfour := hacc.four_le
    rw [List.prefix_nil.1 hpre] at hfour
    cases hfour

end FrameReader.LeadingRun

/-- Induction along the accepted frames at the front of a stream, up to a rest that starts with
none. -/
@[elab_as_elim] theorem FrameReader.frame_induction (R : FrameReader α)
    {motive : List UInt8 → Prop}
    (frame : ∀ f m tail, R.Accepts f m → motive tail → motive (f ++ tail))
    (stop : ∀ bs, (∀ f m, R.Accepts f m → ¬ f <+: bs) → motive bs) (bs : List UInt8) :
    motive bs := by
  -- on the length: an accepted frame has four bytes at least
  induction hn : bs.length using Nat.strongRecOn generalizing bs with
  | ind n ih =>
      subst hn
      by_cases hfirst : ∃ f m, R.Accepts f m ∧ f <+: bs
      · rcases hfirst with ⟨f, m, hacc, tail, rfl⟩
        have hshorter : tail.length < (f ++ tail).length := by
          have hfour := hacc.four_le
          rw [List.length_append]
          exact Nat.lt_add_of_pos_left (Nat.lt_of_lt_of_le (by decide) hfour)
        exact frame f m tail hacc (ih tail.length hshorter tail rfl)
      · exact stop bs fun f m hacc hpre => hfirst ⟨f, m, hacc, hpre⟩

/-- Every stream has a longest leading run of accepted frames. -/
theorem exists_leadingRun (R : FrameReader α) (bs : List UInt8) :
    ∃ good rest ms, R.LeadingRun bs good rest ms := by
  induction bs using R.frame_induction with
  | frame f m tail hacc ih =>
      rcases ih with ⟨good, rest, ms, hrun⟩
      refine ⟨f ++ good, rest, m :: ms, ?_, .cons hacc hrun.frames, hrun.longest⟩
      rw [hrun.split, List.append_assoc]
  | stop bs hnone => exact ⟨[], bs, [], rfl, .nil, hnone⟩

/-- The next call of a reader with messages to come returns the first of them. -/
theorem read_leadingRun_cons {good rest : List UInt8} {m : α} {ms : List α}
    {es : List (Arrival UInt8)}
    (h : R.LeadingRun (arrived es) good rest (m :: ms)) (ending : Ending) :
    ∃ es' good', R.read .blocking ending es = (.ok (some m), es') ∧
      R.LeadingRun (arrived es') good' rest ms := by
  rcases h.uncons with ⟨f, bs', good', hacc, harr, hrun⟩
  rcases read_accepts hacc ending harr with ⟨es', hread, hrest⟩
  exact ⟨es', good', hread, by rw [hrest]; exact hrun⟩

/-- Behind the last message no call returns a message, and none waits for one. -/
theorem read_leadingRun_nil {good rest : List UInt8} {es : List (Arrival UInt8)}
    (h : R.LeadingRun (arrived es) good rest []) :
    (∀ m, (R.read .blocking .eof es).1 ≠ .ok (some m)) ∧
      (R.read .blocking .eof es).1 ≠ .pending := by
  refine ⟨?_, read_closed R es⟩
  intro m hm
  have hread : R.read .blocking .eof es = (.ok (some m), (R.read .blocking .eof es).2) := by
    rw [← hm]
  -- the message would come from one more accepted frame
  rcases accepts_of_read hread with ⟨f, hacc, harr⟩
  exact h.stops f m hacc ⟨_, harr.symm⟩

/-! ## Reading on until no message comes -/

/-- The messages of a reader that is called until a call returns none. -/
def FrameReader.readAll (R : FrameReader α) (ending : Ending) (es : List (Arrival UInt8)) : List α :=
  match _h : R.read .blocking ending es with
  | (.ok (some m), es') => m :: R.readAll ending es'
  | _ => []
termination_by (arrived es).length
decreasing_by exact arrived_read_lt R .blocking ending _h

theorem readAll_some {ending : Ending} {es es' : List (Arrival UInt8)} {m : α}
    (h : R.read .blocking ending es = (.ok (some m), es')) :
    R.readAll ending es = m :: R.readAll ending es' := by
  rw [FrameReader.readAll]
  split
  · rename_i h'
    rw [h] at h'
    cases h'
    rfl
  · rename_i hnot
    exact absurd h (hnot m es')

theorem readAll_stop {ending : Ending} {es : List (Arrival UInt8)}
    (h : ∀ m es', R.read .blocking ending es ≠ (.ok (some m), es')) :
    R.readAll ending es = [] := by
  rw [FrameReader.readAll]
  split
  · rename_i h'
    exact absurd h' (h _ _)
  · rfl

/-! ### What is read does not depend on how the bytes were cut -/

theorem readAll_leadingRun {good rest : List UInt8} {ms : List α} {es : List (Arrival UInt8)}
    (h : R.LeadingRun (arrived es) good rest ms) : R.readAll .eof es = ms := by
  induction ms generalizing es good with
  | nil =>
      apply readAll_stop
      intro m es' hread
      exact (read_leadingRun_nil h).1 m (congrArg Prod.fst hread)
  | cons m ms ih =>
      rcases read_leadingRun_cons h .eof with ⟨es', good', hread, hrun⟩
      rw [readAll_some hread, ih hrun]

theorem readAll_congr {es es' : List (Arrival UInt8)} (h : arrived es = arrived es') :
    R.readAll .eof es = R.readAll .eof es' := by
  rcases exists_leadingRun R (arrived es) with ⟨good, rest, ms, hrun⟩
  exact (readAll_leadingRun hrun).trans (readAll_leadingRun (h ▸ hrun)).symm

/-- An accepted frame in front of the stream is the first one read. -/
theorem readAll_append {f bs : List UInt8} {m : α} (h : R.Accepts f m) :
    R.readAll .eof [.data (f ++ bs)] = m :: R.readAll .eof [.data bs] := by
  have harr : arrived [Arrival.data (f ++ bs)] = f ++ bs := by simp [arrived]
  rcases read_accepts h .eof harr with ⟨es', hread, hrest⟩
  have hsame : R.readAll .eof es' = R.readAll .eof [.data bs] := readAll_congr (by simp [arrived, hrest])
  rw [readAll_some hread, hsame]

/-- A stream that ends earlier yields no other messages. -/
theorem readAll_prefix {bs more : List UInt8} :
    R.readAll .eof [.data bs] <+: R.readAll .eof [.data (bs ++ more)] := by
  induction bs using R.frame_induction with
  | frame f m tail hacc ih =>
      rw [List.append_assoc, readAll_append hacc, readAll_append hacc]
      exact (List.prefix_cons_inj m).mpr ih
  | stop bs hnone =>
      have hempty : R.readAll .eof [.data bs] = [] := by
        apply readAll_stop
        intro m es' hread
        rcases accepts_of_read hread with ⟨f, hacc, harr⟩
        exact hnone f m hacc ⟨arrived es', by simpa [arrived] using harr.symm⟩
      rw [hempty]
      exact List.nil_prefix

end Runs

end Lib
end Cm108Driver
