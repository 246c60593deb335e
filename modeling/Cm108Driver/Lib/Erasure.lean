import Cm108Driver.Lib.Runs

/-!
# Erasure — runs without some of their steps

Some steps of a system can be taken out of its runs when there is a relation between states that
these steps do not leave and that lets every other step be taken on the other side as well.  What
the relation keeps equal then does not depend on whether, when or how often the erased steps happen.
-/

namespace Cm108Driver
namespace Lib

universe u v

variable {σ : Type u} {ι : Type v}

structure Erasable (S : System σ ι) (erased : ι → Bool) (R : σ → σ → Prop) : Prop where
  start : R S.init S.init
  skip : ∀ {s s' t a}, R s s' → erased a = true → S.step s a = some t → R t s'
  follow : ∀ {s s' t a}, R s s' → erased a = false → S.step s a = some t →
    ∃ t', S.step s' a = some t' ∧ R t t'

/-- The run without the erased steps is a run, and its last state is related to that of the run. -/
theorem Erasable.erase {S : System σ ι} {erased : ι → Bool} {R : σ → σ → Prop}
    (h : Erasable S erased R) {tr : List (σ × ι)} {s : σ} (htr : Trace S tr s) :
    ∃ tr' s', Trace S tr' s' ∧
      tr'.map Prod.snd = (tr.map Prod.snd).filter (fun a => !erased a) ∧ R s s' := by
  induction htr with
  | start => exact ⟨[], S.init, Trace.start, rfl, h.start⟩
  | snoc htr hstep ih =>
      rename_i tr s t a
      rcases ih with ⟨tr', s', htr', hlabels, hrel⟩
      cases ha : erased a with
      | true => exact ⟨tr', s', htr', by simp [hlabels, ha], h.skip hrel ha hstep⟩
      | false =>
          rcases h.follow hrel ha hstep with ⟨t', hstep', hrel'⟩
          exact ⟨tr' ++ [(s', a)], t', htr'.snoc hstep', by simp [hlabels, ha], hrel'⟩

end Lib
end Cm108Driver
