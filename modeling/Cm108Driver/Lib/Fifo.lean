import Mathlib.Data.List.Basic
import Mathlib.Tactic.Common

/-!
# Fifo — bounded queues

A queue that holds at most `cap` items, the bound being part of the type.  `push` fails on a full
queue and `pop` on an empty one; `offer` is the push whose failure is ignored, so that a full queue
stays as it is.
-/

namespace Cm108Driver
namespace Lib

universe u

structure Fifo (α : Type u) (cap : Nat) where
  items : List α
  fits : items.length ≤ cap

namespace Fifo

variable {α : Type u} {cap : Nat}

def empty : Fifo α cap :=
  { items := []
    fits := Nat.zero_le _ }

/-- `none` when the queue is full. -/
def push (q : Fifo α cap) (a : α) : Option (Fifo α cap) :=
  if h : q.items.length < cap then
    some
      { items := q.items ++ [a]
        fits := by
          rw [List.length_append]
          exact h }
  else
    none

/-- `none` when the queue is empty. -/
def pop (q : Fifo α cap) : Option (α × Fifo α cap) :=
  match h : q.items with
  | [] => none
  | a :: as =>
      some (a,
        { items := as
          fits := by
            have hfits := q.fits
            rw [h, List.length_cons] at hfits
            exact Nat.le_of_succ_le hfits })

/-- Push, or leave a full queue alone. -/
def offer (q : Fifo α cap) (a : α) : Fifo α cap :=
  (q.push a).getD q

/-! ## Items -/

@[ext] theorem ext {q r : Fifo α cap} (h : q.items = r.items) : q = r := by
  cases q with
  | mk items fits =>
      cases r with
      | mk items' fits' =>
          simp only at h
          subst h
          rfl

theorem items_offer (q : Fifo α cap) (a : α) :
    (q.offer a).items = if q.items.length < cap then q.items ++ [a] else q.items := by
  unfold offer push
  split
  · rfl
  · rfl

/-- What is popped is the head, and the rest stays. -/
theorem items_pop {q r : Fifo α cap} {a : α} (h : q.pop = some (a, r)) :
    q.items = a :: r.items := by
  unfold pop at h
  split at h
  · cases h
  · rename_i hitems
    cases h
    exact hitems

theorem pop_of_nil {q : Fifo α cap} (h : q.items = []) : q.pop = none := by
  unfold pop
  split
  · rfl
  · rename_i hitems
    rw [h] at hitems
    cases hitems

theorem pop_of_items {q : Fifo α cap} {a : α} {as : List α} (h : q.items = a :: as) :
    ∃ r, q.pop = some (a, r) ∧ r.items = as := by
  cases q with
  | mk items fits =>
      simp only at h
      subst h
      exact ⟨_, rfl, rfl⟩

end Fifo

end Lib
end Cm108Driver
