import Cm108Driver.Lib.Runs

/-!
# Progress — moves that lead to a goal

Some moves of a system are **ranked** towards a goal when one of them is possible wherever the goal
does not hold, and each of them lowers a number read off the state.  In whatever order such moves
are taken, there are no more of them than this number says, and where none is possible the goal
holds.  What the other moves of the system do in between does not matter: the statement is about
the state that they leave.
-/

namespace Cm108Driver
namespace Lib

universe u v

variable {σ : Type u} {ι : Type v}

/-- A property that each of the moves keeps. -/
theorem System.exec_keeps {S : System σ ι} {moves : ι → Prop} {P : σ → Prop}
    (hkeep : ∀ {s a t}, P s → moves a → S.step s a = some t → P t) {as : List ι} {s t : σ}
    (hs : P s) (has : ∀ a ∈ as, moves a) (hexec : S.exec s as = some t) : P t := by
  induction as generalizing s with
  | nil =>
      cases hexec
      exact hs
  | cons a as ih =>
      rcases Option.bind_eq_some_iff.1 hexec with ⟨u, hstep, hrest⟩
      exact ih (hkeep hs (has a List.mem_cons_self) hstep)
        (fun b hb => has b (List.mem_cons_of_mem a hb)) hrest

structure Ranked (S : System σ ι) (Inv : σ → Prop) (moves : ι → Prop) (goal : σ → Prop)
    (rank : σ → Nat) : Prop where
  keeps : ∀ {s a t}, Inv s → moves a → S.step s a = some t → Inv t
  enabled : ∀ {s}, Inv s → ¬ goal s → ∃ a t, moves a ∧ S.step s a = some t
  lowers : ∀ {s a t}, Inv s → moves a → S.step s a = some t → rank t < rank s

/-- What becomes of the state `s` under these moves alone. -/
structure Settles (S : System σ ι) (moves : ι → Prop) (goal : σ → Prop) (bound : Nat) (s : σ) :
    Prop where
  bounded : ∀ as t, (∀ a ∈ as, moves a) → S.exec s as = some t → as.length ≤ bound
  goesOn : ∀ as t, (∀ a ∈ as, moves a) → S.exec s as = some t →
    goal t ∨ ∃ a u, moves a ∧ S.step t a = some u
  reaches : ∃ as t, (∀ a ∈ as, moves a) ∧ S.exec s as = some t ∧ goal t

namespace Ranked

variable {S : System σ ι} {Inv : σ → Prop} {moves : ι → Prop} {goal : σ → Prop} {rank : σ → Nat}
  {s t : σ}

/-- Every move costs one. -/
theorem exec (h : Ranked S Inv moves goal rank) (hs : Inv s) {as : List ι}
    (has : ∀ a ∈ as, moves a) (hexec : S.exec s as = some t) :
    rank t + as.length ≤ rank s := by
  induction as generalizing s with
  | nil =>
      cases hexec
      exact Nat.le_refl _
  | cons a as ih =>
      rcases Option.bind_eq_some_iff.1 hexec with ⟨u, hstep, hrest⟩
      have hlower := h.lowers hs (has a List.mem_cons_self) hstep
      have hrank := ih (h.keeps hs (has a List.mem_cons_self) hstep)
        (fun b hb => has b (List.mem_cons_of_mem a hb)) hrest
      calc
        rank t + (as.length + 1) = rank t + as.length + 1 := rfl
        _ ≤ rank u + 1 := Nat.succ_le_succ hrank
        _ ≤ rank s := hlower

/-- The moves can be taken until the goal holds. -/
theorem reaches (h : Ranked S Inv moves goal rank) (hs : Inv s) :
    ∃ as t, (∀ a ∈ as, moves a) ∧ S.exec s as = some t ∧ goal t := by
  -- by induction on the rank
  generalize hn : rank s = n
  induction n using Nat.strongRecOn generalizing s with
  | ind n ih =>
      by_cases hgoal : goal s
      · exact ⟨[], s, by simp, rfl, hgoal⟩
      · rcases h.enabled hs hgoal with ⟨a, u, ha, hstep⟩
        have hlower := h.lowers hs ha hstep
        rw [hn] at hlower
        rcases ih (rank u) hlower (h.keeps hs ha hstep) rfl with ⟨as, t, has, hexec, ht⟩
        refine ⟨a :: as, t, ?_, (System.exec_cons hstep as).trans hexec, ht⟩
        intro b hb
        rcases List.mem_cons.1 hb with rfl | hb
        · exact ha
        · exact has b hb

theorem settles (h : Ranked S Inv moves goal rank) (hs : Inv s) :
    Settles S moves goal (rank s) s where
  bounded := fun _ _ has hexec => Nat.le_trans (Nat.le_add_left _ _) (h.exec hs has hexec)
  goesOn := by
    intro as t has hexec
    by_cases hgoal : goal t
    · exact Or.inl hgoal
    · have ht : Inv t := System.exec_keeps h.keeps hs has hexec
      exact Or.inr (h.enabled ht hgoal)
  reaches := h.reaches hs

end Ranked

/-! ## Stopping at the goal -/

/-- The system, stopped wherever `stop` holds. -/
def System.stoppedAt (S : System σ ι) (stop : σ → Bool) : System σ ι where
  init := S.init
  step s a := if stop s then none else S.step s a

section StoppedAt

variable {S : System σ ι} {stop : σ → Bool} {s t : σ}

theorem System.step_of_stoppedAt {a : ι} (h : (S.stoppedAt stop).step s a = some t) :
    stop s = false ∧ S.step s a = some t := by
  simpa [System.stoppedAt] using h

end StoppedAt

end Lib
end Cm108Driver
