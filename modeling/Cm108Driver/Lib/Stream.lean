import Mathlib.Data.List.Basic
import Mathlib.Tactic.Common

/-!
# Stream — `read_exact` over a socket that fills up over time

A reader meets a socket only through its reads.  A **script** lists, in order, what the successive
reads find: a portion of data that has arrived, or a gap (nothing there yet).  Quantifying over
scripts therefore covers every way the bytes can arrive and be cut into reads, in every
interleaving with the calls of the reader.

A blocking read waits through gaps; a non-blocking one fails with `wouldBlock` at the first one.
`readExact` is the loop of `Read::read_exact`: what it has taken off the stream before it fails is
not put back.  Behind the last byte, a read meets the `Ending` of the stream.
-/

namespace Cm108Driver
namespace Lib

universe u

variable {β : Type u}

/-- What one read of the socket finds. -/
inductive Arrival (β : Type u) where
  | data (bs : List β)
  | gap
  deriving DecidableEq, Repr

inductive Mode
  | blocking
  | nonblocking
  deriving DecidableEq, Repr

/-- The error kinds of a byte stream and of a decoder on top of it. -/
inductive IoError
  | unexpectedEof
  | wouldBlock
  | connectionReset
  | invalidData (text : String)
  deriving DecidableEq, Repr

/-- The result of a call that reads: it returns, fails, or is still waiting when the script
ends. -/
inductive Outcome (α : Type u) where
  | ok (a : α)
  | err (e : IoError)
  | pending
  deriving DecidableEq, Repr

namespace Outcome

variable {α γ : Type u}

def map (f : α → γ) : Outcome α → Outcome γ
  | ok a => ok (f a)
  | err e => err e
  | pending => pending

end Outcome

/-- What a read finds behind the last byte: nothing yet, the end of file, or the pending error of a
socket whose peer closed with bytes unread on its own side.  This error is reported to one read; the
next one finds the end of file. -/
inductive Ending
  | alive
  | eof
  | reset
  deriving DecidableEq, Repr

namespace Ending

/-- The error of a read behind the last byte. -/
def error? : Ending → Option IoError
  | .alive => none
  | .eof => some .unexpectedEof
  | .reset => some .connectionReset

/-- Behind a read with this error, if any. -/
def after : Ending → Option IoError → Ending
  | .reset, some .connectionReset => .eof
  | ending, _ => ending

/-- A peer that closes with nothing unread, or has not closed. -/
def ofClosed : Bool → Ending
  | true => .eof
  | false => .alive

instance : Coe Bool Ending := ⟨ofClosed⟩

theorem alive_ne_reset : Ending.alive ≠ .reset := by
  decide

/-- A peer that has closed stays closed. -/
theorem after_ne_alive {ending : Ending} (h : ending ≠ .alive) (e : Option IoError) :
    ending.after e ≠ .alive := by
  unfold after
  split
  · simp
  · exact h

/-- A pending error was pending before. -/
theorem eq_reset_of_after {ending : Ending} {e : Option IoError} (h : ending.after e = .reset) :
    ending = .reset := by
  unfold after at h
  split at h
  · cases h
  · exact h

@[simp] theorem ofClosed_true : ofClosed true = .eof := rfl

@[simp] theorem ofClosed_false : ofClosed false = .alive := rfl

end Ending

/-! ## Scripts -/

/-- All the data of a script. -/
def arrived : List (Arrival β) → List β
  | [] => []
  | .data bs :: es => bs ++ arrived es
  | .gap :: es => arrived es

/-- The data up to the first gap: what a reader gets without waiting. -/
def ready : List (Arrival β) → List β
  | [] => []
  | .data bs :: es => bs ++ ready es
  | .gap :: _ => []

/-- What a reader in the given mode can take off the stream before it fails or has to give up. -/
def available : Mode → List (Arrival β) → List β
  | .blocking, es => arrived es
  | .nonblocking, es => ready es

/-- All the data is there at once. -/
def GapFree (es : List (Arrival β)) : Prop :=
  Arrival.gap ∉ es

theorem ready_prefix_arrived (es : List (Arrival β)) : ready es <+: arrived es := by
  induction es with
  | nil => simp [ready]
  | cons e es ih =>
      cases e with
      | gap => simp [ready]
      | data bs => exact (List.prefix_append_right_inj bs).2 ih

theorem available_prefix_arrived (mode : Mode) (es : List (Arrival β)) :
    available mode es <+: arrived es := by
  cases mode with
  | blocking => exact List.prefix_rfl
  | nonblocking => exact ready_prefix_arrived es

theorem GapFree.ready_eq {es : List (Arrival β)} (h : GapFree es) : ready es = arrived es := by
  induction es with
  | nil => rfl
  | cons e es ih =>
      cases e with
      | gap => exact absurd (List.mem_cons_self ..) h
      | data bs =>
          have htail : GapFree es := fun hmem => h (List.mem_cons_of_mem _ hmem)
          simp [ready, arrived, ih htail]

theorem GapFree.available_eq {es : List (Arrival β)} (h : GapFree es) (mode : Mode) :
    available mode es = arrived es := by
  cases mode with
  | blocking => rfl
  | nonblocking => exact h.ready_eq

/-! ## `read_exact` -/

/-- What a read at the end of the script gets. -/
def atEnd (mode : Mode) (ending : Ending) : Outcome (List β) :=
  match ending.error?, mode with
  | some e, _ => .err e
  | none, .blocking => .pending
  | none, .nonblocking => .err .wouldBlock

/-- `Read::read_exact` into a buffer of `n` bytes: each read takes a non-empty part of what is
there, at most what is still wanted. -/
def readExact (mode : Mode) (ending : Ending) : Nat → List (Arrival β) →
    Outcome (List β) × List (Arrival β)
  | 0, es => (.ok [], es)
  | _ + 1, [] => (atEnd mode ending, [])
  | n + 1, .gap :: es =>
      match mode with
      | .blocking => readExact mode ending (n + 1) es
      | .nonblocking => (.err .wouldBlock, es)
  | n + 1, .data bs :: es =>
      if n + 1 < bs.length then
        (.ok (bs.take (n + 1)), .data (bs.drop (n + 1)) :: es)
      else
        let r := readExact mode ending (n + 1 - bs.length) es
        (r.1.map (bs ++ ·), r.2)

/-- A read that finds enough returns the next `n` elements and leaves the rest. -/
theorem readExact_enough (mode : Mode) (ending : Ending) (n : Nat) (es : List (Arrival β))
    (h : n ≤ (available mode es).length) :
    ∃ es', readExact mode ending n es = (.ok ((available mode es).take n), es') ∧
      arrived es' = (arrived es).drop n ∧ available mode es' = (available mode es).drop n ∧
      (GapFree es → GapFree es') := by
  induction es generalizing n with
  | nil =>
      have hn : n = 0 := by
        cases mode <;> simpa [available, arrived, ready] using h
      subst hn
      exact ⟨[], by simp [readExact], by simp, by simp, id⟩
  | cons e es ih =>
      cases n with
      | zero => exact ⟨e :: es, by simp [readExact], by simp, by simp, id⟩
      | succ n =>
          cases e with
          | gap =>
              -- a blocking read waits through the gap, the other mode has nothing available
              cases mode with
              | nonblocking => simp [available, ready] at h
              | blocking =>
                  rcases ih (n + 1) (by simpa [available, arrived] using h) with
                    ⟨es', hread, harr, havail, _⟩
                  refine ⟨es', ?_, harr, havail, fun hfree => ?_⟩
                  · simpa [readExact, available, arrived] using hread
                  · exact absurd (List.mem_cons_self ..) hfree
          | data bs =>
              have hcons : available mode (.data bs :: es) = bs ++ available mode es := by
                cases mode <;> rfl
              have hmem : ∀ {bs' : List β}, GapFree (.data bs :: es) → GapFree (.data bs' :: es) := by
                intro bs' hfree hgap
                exact hfree (by simpa using hgap)
              by_cases hlt : n + 1 < bs.length
              · -- The portion holds more than is wanted: part of it stays.
                refine ⟨.data (bs.drop (n + 1)) :: es, ?_, ?_, ?_, hmem⟩
                · simp [readExact, hlt, hcons, List.take_append_of_le_length (Nat.le_of_lt hlt)]
                · simp [arrived, List.drop_append_of_le_length (Nat.le_of_lt hlt)]
                · rw [hcons, List.drop_append_of_le_length (Nat.le_of_lt hlt)]
                  cases mode <;> rfl
              · -- The whole portion is taken and the loop goes on behind it.
                have hge : bs.length ≤ n + 1 := by omega
                have hrest : n + 1 - bs.length ≤ (available mode es).length := by
                  rw [hcons, List.length_append] at h
                  omega
                rcases ih (n + 1 - bs.length) hrest with ⟨es', hread, harr, havail, hfree⟩
                refine ⟨es', ?_, ?_, ?_, fun hg => hfree fun hgap => hg (by simp [hgap])⟩
                · simp [readExact, hlt, hread, Outcome.map, hcons, List.take_append,
                    List.take_of_length_le hge]
                · simp [arrived, harr, List.drop_append, List.drop_eq_nil_of_le hge]
                · rw [hcons, havail, List.drop_append, List.drop_eq_nil_of_le hge,
                    List.nil_append]

/-- A blocking read that finds too little takes everything and ends as the stream ends. -/
theorem readExact_blocking_short (ending : Ending) (n : Nat) (es : List (Arrival β))
    (h : (arrived es).length < n) :
    readExact .blocking ending n es = (atEnd .blocking ending, []) := by
  induction es generalizing n with
  | nil =>
      cases n with
      | zero => simp at h
      | succ n => rfl
  | cons e es ih =>
      cases n with
      | zero => simp at h
      | succ n =>
          cases e with
          | gap => simpa [readExact] using ih (n + 1) (by simpa [arrived] using h)
          | data bs =>
              rw [arrived, List.length_append] at h
              have hlt : ¬ n + 1 < bs.length := by omega
              have hrest := ih (n + 1 - bs.length) (by omega)
              have hmap : (atEnd .blocking ending : Outcome (List β)).map (bs ++ ·) =
                  atEnd .blocking ending := by
                cases ending <;> rfl
              simp [readExact, hlt, hrest, hmap]

/-- A non-blocking read that finds too little before the first gap fails, and what it has found is
gone from the stream. -/
theorem readExact_nonblocking_short (n : Nat) (es : List (Arrival β)) (h : (ready es).length < n) :
    ∃ es', readExact .nonblocking .alive n es = (.err .wouldBlock, es') ∧
      arrived es' = (arrived es).drop (ready es).length := by
  induction es generalizing n with
  | nil =>
      cases n with
      | zero => simp at h
      | succ n => exact ⟨[], rfl, by simp [arrived]⟩
  | cons e es ih =>
      cases n with
      | zero => simp at h
      | succ n =>
          cases e with
          | gap => exact ⟨es, rfl, by simp [arrived, ready]⟩
          | data bs =>
              rw [ready, List.length_append] at h
              -- the portion is taken, and the rest of the read fails behind it
              have hlt : ¬ n + 1 < bs.length := by omega
              rcases ih (n + 1 - bs.length) (by omega) with ⟨es', hread, harr⟩
              refine ⟨es', by simp [readExact, hlt, hread, Outcome.map], ?_⟩
              have hnil : bs.drop (bs.length + (ready es).length) = [] :=
                List.drop_eq_nil_of_le (Nat.le_add_right _ _)
              rw [harr, arrived, ready, List.length_append, List.drop_append, hnil,
                List.nil_append, Nat.add_sub_cancel_left]

/-- Without a gap in the script, a read that finds too little takes everything and ends as the
stream ends, in either mode. -/
theorem readExact_gapFree_short (mode : Mode) (ending : Ending) (n : Nat) {es : List (Arrival β)}
    (hfree : GapFree es) (h : (arrived es).length < n) :
    readExact mode ending n es = (atEnd mode ending, []) := by
  induction es generalizing n with
  | nil =>
      cases n with
      | zero => simp at h
      | succ n => rfl
  | cons e es ih =>
      cases n with
      | zero => simp at h
      | succ n =>
          cases e with
          | gap => exact absurd (List.mem_cons_self ..) hfree
          | data bs =>
              rw [arrived, List.length_append] at h
              have hlt : ¬ n + 1 < bs.length := by omega
              have htail : GapFree es := fun hmem => hfree (List.mem_cons_of_mem _ hmem)
              have hrest := ih (n + 1 - bs.length) htail (by omega)
              have hmap : (atEnd mode ending : Outcome (List β)).map (bs ++ ·) =
                  atEnd mode ending := by
                cases mode <;> cases ending <;> rfl
              simp [readExact, hlt, hrest, hmap]

/-- A read of exactly the portion that is next takes this portion. -/
theorem readExact_portion (mode : Mode) (ending : Ending) {bs : List β} (h : bs ≠ [])
    (es : List (Arrival β)) : readExact mode ending bs.length (.data bs :: es) = (.ok bs, es) := by
  cases bs with
  | nil => exact absurd rfl h
  | cons b bs => simp [readExact, Outcome.map]

/-- A read that returns has moved exactly what it returns off the front of the stream. -/
theorem readExact_ok {mode : Mode} {ending : Ending} {n : Nat} {es es' : List (Arrival β)}
    {bs : List β} (h : readExact mode ending n es = (.ok bs, es')) :
    bs.length = n ∧ bs ++ arrived es' = arrived es := by
  induction es generalizing n bs with
  | nil =>
      cases n with
      | zero =>
          rcases Prod.mk.inj h with ⟨hok, rfl⟩
          cases hok
          simp
      | succ n =>
          rcases Prod.mk.inj h with ⟨hok, _⟩
          cases mode <;> cases ending <;> cases hok
  | cons e es ih =>
      cases n with
      | zero =>
          rcases Prod.mk.inj h with ⟨hok, rfl⟩
          cases hok
          simp
      | succ n =>
          cases e with
          | gap =>
              cases mode with
              | blocking => simpa [arrived] using ih (by simpa [readExact] using h)
              | nonblocking => simp [readExact] at h
          | data part =>
              by_cases hlt : n + 1 < part.length
              -- `part` has all that is asked for, or is taken whole and the rest comes from `es`
              · simp only [readExact, if_pos hlt, Prod.mk.injEq, Outcome.ok.injEq] at h
                rcases h with ⟨rfl, rfl⟩
                refine ⟨by simp; omega, ?_⟩
                rw [arrived, arrived, ← List.append_assoc, List.take_append_drop]
              · cases hr : readExact mode ending (n + 1 - part.length) es with
                | mk out rest =>
                    simp only [readExact, if_neg hlt, hr, Prod.mk.injEq] at h
                    rcases h with ⟨hout, rfl⟩
                    cases out with
                    | ok tail =>
                        cases hout
                        rcases ih hr with ⟨hlen, harr⟩
                        refine ⟨by rw [List.length_append, hlen]; omega, ?_⟩
                        rw [arrived, List.append_assoc, harr]
                    | err e => cases hout
                    | pending => cases hout

end Lib
end Cm108Driver
