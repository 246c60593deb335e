import Mathlib.Data.List.Induction
import Mathlib.Tactic.Common

/-!
# Windows — a growing list cut into windows of one length

A list that grows at its end fills one window of length `n` after the other.  This file defines:

* `window n l j`   : the elements `n * j` up to `n * (j + 1)` of `l`;
* `windows n l`    : the windows that are complete;
* `openWindow n l` : what lies behind them.

The snoc lemmas say what one more element does: it goes into the open window, and if it is the last
one of that window, the window is complete and the next one is empty.
-/

namespace Cm108Driver
namespace Lib

universe u

variable {α : Type u}

def window (n : Nat) (l : List α) (j : Nat) : List α := (l.drop (n * j)).take n

def windows (n : Nat) (l : List α) : List (List α) :=
  (List.range (l.length / n)).map (window n l)

def openWindow (n : Nat) (l : List α) : List α := l.drop (n * (l.length / n))

@[simp] theorem windows_nil (n : Nat) : windows n ([] : List α) = [] := by
  simp [windows]

@[simp] theorem openWindow_nil (n : Nat) : openWindow n ([] : List α) = [] := by
  simp [openWindow]

@[simp] theorem length_windows (n : Nat) (l : List α) : (windows n l).length = l.length / n := by
  simp [windows]

theorem length_openWindow (n : Nat) (l : List α) : (openWindow n l).length = l.length % n := by
  have hsplit := Nat.div_add_mod l.length n
  rw [openWindow, List.length_drop]
  omega

theorem window_end_le {n j : Nat} {l : List α} (hj : j < l.length / n) :
    n * j + n ≤ l.length :=
  calc n * j + n
      = n * (j + 1) := (Nat.mul_succ n j).symm
    _ ≤ n * (l.length / n) := Nat.mul_le_mul_left n hj
    _ ≤ l.length := Nat.mul_div_le l.length n

theorem length_window {n j : Nat} {l : List α} (hj : j < l.length / n) :
    (window n l j).length = n := by
  have hend := window_end_le hj
  rw [window, List.length_take, List.length_drop]
  omega

theorem getElem?_windows {n j : Nat} {l : List α} (hj : j < l.length / n) :
    (windows n l)[j]? = some (window n l j) := by
  simp [windows, hj]

/-! ## One more element -/

section Snoc

variable {n : Nat} {l : List α} {a : α}

/-- The element behind the complete windows changes none of them. -/
theorem window_snoc {j : Nat} (hj : j < l.length / n) : window n (l ++ [a]) j = window n l j := by
  have hend := window_end_le hj
  have hdrop : (l ++ [a]).drop (n * j) = l.drop (n * j) ++ [a] := by
    apply List.drop_append_of_le_length
    omega
  rw [window, window, hdrop]
  apply List.take_append_of_le_length
  rw [List.length_drop]
  omega

theorem map_window_snoc :
    (List.range (l.length / n)).map (window n (l ++ [a])) = windows n l := by
  apply List.map_congr_left
  intro j hj
  exact window_snoc (List.mem_range.mp hj)

theorem drop_snoc : (l ++ [a]).drop (n * (l.length / n)) = openWindow n l ++ [a] :=
  List.drop_append_of_le_length (Nat.mul_div_le l.length n)

/-- The window stays open. -/
theorem windows_snoc_open (h : (l.length + 1) % n ≠ 0) :
    windows n (l ++ [a]) = windows n l ∧ openWindow n (l ++ [a]) = openWindow n l ++ [a] := by
  have hdiv : (l ++ [a]).length / n = l.length / n := by
    have hndvd : ¬ n ∣ l.length + 1 := fun hdvd => h (Nat.mod_eq_zero_of_dvd hdvd)
    rw [List.length_append, List.length_singleton, Nat.succ_div, if_neg hndvd]
    rfl
  constructor
  · rw [windows, hdiv]
    exact map_window_snoc
  · rw [openWindow, hdiv]
    exact drop_snoc

/-- The element completes the window. -/
theorem windows_snoc_full (h : (l.length + 1) % n = 0) :
    windows n (l ++ [a]) = windows n l ++ [openWindow n l ++ [a]] ∧
      openWindow n (l ++ [a]) = [] := by
  have hdvd : n ∣ l.length + 1 := Nat.dvd_of_mod_eq_zero h
  have hdiv : (l ++ [a]).length / n = l.length / n + 1 := by
    rw [List.length_append, List.length_singleton, Nat.succ_div, if_pos hdvd]
  have hall : n * (l.length / n + 1) = l.length + 1 := by
    rw [← hdiv, List.length_append, List.length_singleton]
    exact Nat.mul_div_cancel' hdvd
  constructor
  · rw [windows, hdiv, List.range_succ, List.map_append, map_window_snoc]
    -- the last window is all that was behind the others
    have hlast : window n (l ++ [a]) (l.length / n) = openWindow n l ++ [a] := by
      rw [window, drop_snoc]
      apply List.take_of_length_le
      rw [List.length_append, length_openWindow, List.length_singleton]
      exact Nat.mod_lt l.length (Nat.pos_of_dvd_of_pos hdvd (Nat.succ_pos _))
    rw [List.map_singleton, hlast]
  · rw [openWindow, hdiv, hall]
    apply List.drop_of_length_le
    simp

end Snoc

/-- The complete windows and the open one are the list. -/
theorem flatten_windows (n : Nat) (l : List α) : (windows n l).flatten ++ openWindow n l = l := by
  induction l using List.reverseRecOn with
  | nil => simp
  | append_singleton l a ih =>
      by_cases h : (l.length + 1) % n = 0
      · rcases windows_snoc_full (a := a) h with ⟨hwindows, hopen⟩
        calc (windows n (l ++ [a])).flatten ++ openWindow n (l ++ [a])
            = (windows n l).flatten ++ openWindow n l ++ [a] := by simp [hwindows, hopen]
          _ = l ++ [a] := by rw [ih]
      · rcases windows_snoc_open (a := a) h with ⟨hwindows, hopen⟩
        calc (windows n (l ++ [a])).flatten ++ openWindow n (l ++ [a])
            = (windows n l).flatten ++ openWindow n l ++ [a] := by simp [hwindows, hopen]
          _ = l ++ [a] := by rw [ih]

end Lib
end Cm108Driver
