import Mathlib.Data.List.Basic
import Mathlib.Tactic.Common

/-!
# PrefixParser — parsers that consume an exact prefix of their input

A parser returns a value and the unconsumed rest of its input, or fails.  `Exact p ok` says that
the grammar `ok` is all there is to `p`: what it accepts is a word of the grammar in front of the
rest, and every word of the grammar is accepted in front of every rest.

Two facts follow for any exact parser.  It does not look past what it consumes
(`Exact.extend`), and a word cut short is refused (`Exact.properPrefix`), so no word of the grammar
is a proper prefix of another one.
-/

namespace Cm108Driver
namespace Lib

universe u v

variable {β : Type u} {α : Type v}

/-- `ok a c` : the word `c` spells the value `a`. -/
structure Exact (p : List β → Option (α × List β)) (ok : α → List β → Prop) : Prop where
  sound : ∀ {b a rest}, p b = some (a, rest) → ∃ c, ok a c ∧ b = c ++ rest
  complete : ∀ {a c} rest, ok a c → p (c ++ rest) = some (a, rest)

namespace Exact

variable {p : List β → Option (α × List β)} {ok : α → List β → Prop}

/-- What follows the rest does not matter. -/
theorem extend (hp : Exact p ok) {b rest : List β} {a : α} (h : p b = some (a, rest))
    (t : List β) : p (b ++ t) = some (a, rest ++ t) := by
  rcases hp.sound h with ⟨c, hok, rfl⟩
  simpa [List.append_assoc] using hp.complete (rest ++ t) hok

/-- A word cut short is refused. -/
theorem properPrefix (hp : Exact p ok) {a : α} {c c' : List β} (hok : ok a c)
    (hpre : c' <+: c) (hne : c' ≠ c) : p c' = none := by
  cases hres : p c' with
  | none => rfl
  | some res =>
      rcases res with ⟨a', r⟩
      rcases hpre with ⟨d, rfl⟩
      -- read on to the end of the word, the parser would leave `d` unconsumed
      have hlong : p (c' ++ d) = some (a', r ++ d) := hp.extend hres d
      have hwhole : p (c' ++ d) = some (a, []) := by
        simpa using hp.complete [] hok
      have hnil : r ++ d = [] := by
        have heq := hlong.symm.trans hwhole
        simp only [Option.some.injEq, Prod.mk.injEq] at heq
        exact heq.2
      have hd : d = [] := (List.append_eq_nil_iff.1 hnil).2
      exact absurd (by simp [hd]) hne

end Exact

end Lib
end Cm108Driver
