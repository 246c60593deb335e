import Mathlib.Data.List.Basic
import Mathlib.Data.List.FinRange
import Mathlib.Logic.Function.Basic
import Mathlib.Tactic.Common

/-!
# Versioned — optimistic snapshots of an array under a version counter

A writer replaces the cells of an array one after the other.  The counter is `2 * k` while the array
holds its version `k`, and odd while a replacement is under way.  A reader notes an even value of
the counter, copies the cells one after the other, and accepts the copy if the counter still has
that value.

`Snapshot` is what holds of such a copy at any point: as long as the counter has not moved, the
cells copied so far are those of one version.  Its rules follow the moves of the reader (`start`,
`copy`, `accept`) and of the writer (`advance`).
-/

namespace Cm108Driver
namespace Lib

universe u

variable {n : Nat} {V : Type u}

/-! ## Versions -/

/-- Version `0` is the initial array, version `k + 1` the `k`-th array written. -/
def version (init : Fin n → V) (written : List (Fin n → V)) (k : Nat) : Fin n → V :=
  (init :: written).getD k init

theorem version_append {init : Fin n → V} {written : List (Fin n → V)} {k : Nat}
    (h : k ≤ written.length) (more : List (Fin n → V)) :
    version init (written ++ more) k = version init written k := by
  unfold version
  rw [← List.cons_append, List.getD_eq_getElem?_getD, List.getD_eq_getElem?_getD,
    List.getElem?_append_left (Nat.lt_succ_of_le h)]

theorem version_last (init : Fin n → V) (written : List (Fin n → V)) (f : Fin n → V) :
    version init (written ++ [f]) (written.length + 1) = f := by
  simp [version]

/-- A version other than the initial one has been written. -/
theorem version_mem {init : Fin n → V} {written : List (Fin n → V)} {k : Nat}
    (h : k < written.length) : version init written (k + 1) = written[k] := by
  simp [version, h]

/-! ## Replacing cells -/

/-- The array with the cells below `i` replaced. -/
def replaced (i : Nat) (new old : Fin n → V) : Fin n → V :=
  fun j => if j.val < i then new j else old j

@[simp] theorem replaced_zero (new old : Fin n → V) : replaced 0 new old = old := by
  funext j
  simp [replaced]

theorem replaced_all {i : Nat} (h : n ≤ i) (new old : Fin n → V) : replaced i new old = new := by
  funext j
  have hj : j.val < i := Nat.lt_of_lt_of_le j.isLt h
  simp [replaced, hj]

theorem update_replaced {i : Nat} (h : i < n) (new old : Fin n → V) :
    Function.update (replaced i new old) ⟨i, h⟩ (new ⟨i, h⟩) = replaced (i + 1) new old := by
  funext j
  by_cases hj : j = ⟨i, h⟩
  · subst hj
    simp [replaced]
  · have hne : j.val ≠ i := fun hval => hj (Fin.ext hval)
    have hiff : j.val < i + 1 ↔ j.val < i := by omega
    simp [replaced, Function.update_of_ne hj, hiff]

/-- Cells written one after the other, in any order. -/
theorem foldl_update (f init : Fin n → V) (js : List (Fin n)) :
    js.foldl (fun cells j => Function.update cells j (f j)) init =
      fun j => if j ∈ js then f j else init j := by
  induction js generalizing init with
  | nil => simp
  | cons i js ih =>
      rw [List.foldl_cons, ih]
      funext j
      by_cases hji : j = i
      · subst hji
        simp
      · simp [hji]

theorem foldl_update_finRange (f init : Fin n → V) :
    (List.finRange n).foldl (fun cells j => Function.update cells j (f j)) init = f := by
  rw [foldl_update]
  simp

/-! ## Snapshots -/

/-- A copy in progress: the reader has noted the counter value `seen` and copied some cells. -/
structure Snapshot (ver : Nat → Fin n → V) (counter seen : Nat) (copied : Fin n → Prop)
    (buf : Fin n → V) : Prop where
  even : seen % 2 = 0
  le : seen ≤ counter
  agrees : seen = counter → ∀ j, copied j → buf j = ver (seen / 2) j

namespace Snapshot

variable {ver ver' : Nat → Fin n → V} {counter counter' seen : Nat} {copied copied' : Fin n → Prop}
  {buf cells : Fin n → V}

/-- Before the first cell. -/
theorem start (h : counter % 2 = 0) (hnone : ∀ j, ¬ copied j) (buf : Fin n → V) :
    Snapshot ver counter counter copied buf :=
  { even := h
    le := Nat.le_refl _
    agrees := fun _ j hj => absurd hj (hnone j) }

/-- Copy one more cell of an array that holds a version whenever the counter is even. -/
theorem copy (h : Snapshot ver counter seen copied buf) (i : Fin n)
    (hcells : counter % 2 = 0 → cells = ver (counter / 2))
    (hcopied : ∀ j, copied' j → j = i ∨ copied j) :
    Snapshot ver counter seen copied' (Function.update buf i (cells i)) := by
  refine ⟨h.even, h.le, ?_⟩
  intro hsame j hj
  by_cases hji : j = i
  · subst hji
    have heven : counter % 2 = 0 := by
      rw [← hsame]
      exact h.even
    rw [Function.update_self, hcells heven, hsame]
  · rw [Function.update_of_ne hji]
    rcases hcopied j hj with hj | hj
    · exact absurd hj hji
    · exact h.agrees hsame j hj

/-- The counter moves on, and versions already there stay what they are. -/
theorem advance (h : Snapshot ver counter seen copied buf) (hle : counter ≤ counter')
    (hver : seen = counter' → ver' (seen / 2) = ver (seen / 2)) :
    Snapshot ver' counter' seen copied buf := by
  refine ⟨h.even, Nat.le_trans h.le hle, ?_⟩
  intro hsame j hj
  rw [hver hsame]
  exact h.agrees (Nat.le_antisymm h.le (hsame ▸ hle)) j hj

/-- A complete copy, accepted, is one version. -/
theorem accept (h : Snapshot ver counter seen copied buf) (hall : ∀ j, copied j)
    (hsame : counter = seen) : buf = ver (seen / 2) := by
  funext j
  exact h.agrees hsame.symm j (hall j)

end Snapshot

end Lib
end Cm108Driver
