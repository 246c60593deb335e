import Mathlib.Data.List.Sort
import Mathlib.Algebra.Order.Floor.Div
import Mathlib.GroupTheory.GroupAction.Ring

/-!
# OrderStatistic — the k-th smallest entry of a list

Ranks of a list over a linear order, and what a summary by classes can say about them: when the
entries are sorted into classes by a monotone function, the class of the `k`-th smallest entry is
the first one at which the entries counted so far are at least `k`.
-/

namespace Cm108Driver
namespace Lib

open scoped List

variable {α : Type} [LinearOrder α]

/-- The `k`-th smallest entry, counted from one; `none` past the end. -/
def kthSmallest (l : List α) (k : Nat) : Option α :=
  (l.mergeSort (· ≤ ·))[k - 1]?

theorem mergeSort_pairwise_le (l : List α) : (l.mergeSort (· ≤ ·)).Pairwise (· ≤ ·) :=
  l.pairwise_mergeSort' (· ≤ ·)

/-- The rank does not look at the order of the entries. -/
theorem kthSmallest_congr {l l' : List α} (hperm : l ~ l') (k : Nat) :
    kthSmallest l k = kthSmallest l' k := by
  have hsorted : l.mergeSort (· ≤ ·) = l'.mergeSort (· ≤ ·) := by
    exact (((l.mergeSort_perm _).trans hperm).trans (l'.mergeSort_perm _).symm).eq_of_pairwise'
      (mergeSort_pairwise_le l) (mergeSort_pairwise_le l')
  simp [kthSmallest, hsorted]

theorem exists_kthSmallest {l : List α} {k : Nat} (hpos : 0 < k) (hk : k ≤ l.length) :
    ∃ q, kthSmallest l k = some q := by
  have hlt : k - 1 < (l.mergeSort (· ≤ ·)).length := by
    simp only [List.length_mergeSort]
    omega
  exact ⟨_, List.getElem?_eq_getElem hlt⟩

theorem mem_of_kthSmallest {l : List α} {k : Nat} {q : α} (hq : kthSmallest l k = some q) :
    q ∈ l :=
  List.mem_mergeSort.mp (List.mem_of_getElem? hq)

/-- For classes given by a monotone `f`: at least `k` entries lie in a class up to `b` exactly when
the `k`-th smallest does. -/
theorem le_countP_iff_kthSmallest {β : Type} [LinearOrder β] {f : α → β} (hf : Monotone f)
    {l : List α} {k : Nat} {q : α} (hpos : 0 < k) (hq : kthSmallest l k = some q) (b : β) :
    k ≤ l.countP (fun x => f x ≤ b) ↔ f q ≤ b := by
  -- Count in the sorted list, cut at the place of the `k`-th entry.
  let s := l.mergeSort (· ≤ ·)
  have hcount : l.countP (fun x => f x ≤ b) = s.countP (fun x => f x ≤ b) :=
    ((l.mergeSort_perm _).countP_eq _).symm
  obtain ⟨hlt, hget⟩ := List.getElem?_eq_some_iff.mp hq
  have hsplit : s = s.take (k - 1) ++ q :: s.drop k := by
    have hk : k - 1 + 1 = k := by omega
    calc
      s = s.take (k - 1) ++ s.drop (k - 1) := (List.take_append_drop _ _).symm
      _ = s.take (k - 1) ++ q :: s.drop k := by
            rw [List.drop_eq_getElem_cons hlt, hk]
            exact congrArg (fun x => s.take (k - 1) ++ x :: s.drop k) hget
  have hsorted : (s.take (k - 1) ++ q :: s.drop k).Pairwise (· ≤ ·) := by
    rw [← hsplit]
    exact mergeSort_pairwise_le l
  have hlen : (s.take (k - 1)).length = k - 1 := by
    rw [List.length_take]
    exact Nat.min_eq_left (Nat.le_of_lt hlt)
  have hbefore : ∀ x ∈ s.take (k - 1), x ≤ q := fun x hx =>
    (List.pairwise_append.mp hsorted).2.2 x hx q (by simp)
  have hafter : ∀ x ∈ s.drop k, q ≤ x :=
    (List.pairwise_cons.mp (List.pairwise_append.mp hsorted).2.1).1
  rw [hcount, hsplit, List.countP_append, List.countP_cons]
  constructor
  · intro hk
    by_contra hnot
    -- Nothing from the `k`-th entry on is counted.
    have htail : (s.drop k).countP (fun x => f x ≤ b) = 0 := by
      refine List.countP_eq_zero.mpr fun x hx hle => hnot ?_
      exact (hf (hafter x hx)).trans (by simpa using hle)
    have hhead := (List.countP_le_length (p := fun x => decide (f x ≤ b)) (l := s.take (k - 1)))
    simp only [htail, hnot, decide_false, Bool.false_eq_true, if_false] at hk
    omega
  · intro hle
    have hhead : (s.take (k - 1)).countP (fun x => f x ≤ b) = k - 1 := by
      refine (List.countP_eq_length.mpr fun x hx => ?_).trans hlen
      simpa using (hf (hbefore x hx)).trans hle
    simp only [hhead, hle, decide_true, if_true]
    omega

/-- At least `k` entries are at most the `k`-th smallest. -/
theorem le_countP_le_kthSmallest {l : List α} {k : Nat} {q : α} (hpos : 0 < k)
    (hq : kthSmallest l k = some q) : k ≤ l.countP (fun x => x ≤ q) :=
  (le_countP_iff_kthSmallest monotone_id hpos hq q).mpr le_rfl

end Lib
end Cm108Driver
