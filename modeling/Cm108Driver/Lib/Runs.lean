import Mathlib.Data.List.Basic
import Mathlib.Tactic.Common

/-!
# Runs — traces of a partial step function

A system is an initial state together with a partial step function: `step s a = some t` says that
the move `a` is possible in `s` and leads to `t`.  A **trace** records, for every step taken, the
state before the step and the label of the step.  The properties of a run (histories, conditions
on the steps, what was sent so far) are functions of its trace, so that the state itself carries
nothing but what the program has.

* `Trace.induct`  : the step lemma of an invariant gives the run lemma;
* `Trace.guarded` : the same when every step of the run meets a condition;
* `System.exec`   : the executable form, for concrete runs;
* `Simulation`    : the steps of one system, some of them hidden, are steps of another.
-/

namespace Cm108Driver
namespace Lib

universe u v w z x y

/-- An initial state and a partial, labelled step function. -/
structure System (σ : Type u) (ι : Type v) where
  init : σ
  step : σ → ι → Option σ

variable {σ : Type u} {ι : Type v} {S : System σ ι}

/-! ## Traces -/

/-- `Trace S tr s`: `S` runs from its initial state to `s` by the steps listed in `tr`. -/
inductive Trace (S : System σ ι) : List (σ × ι) → σ → Prop where
  | start : Trace S [] S.init
  | snoc {tr : List (σ × ι)} {s t : σ} {a : ι} :
      Trace S tr s → S.step s a = some t → Trace S (tr ++ [(s, a)]) t

/-- Every step of the trace meets the condition `C` on the state before it and its label. -/
def Guarded (C : σ → ι → Prop) (tr : List (σ × ι)) : Prop :=
  ∀ p ∈ tr, C p.1 p.2

@[simp] theorem guarded_nil (C : σ → ι → Prop) : Guarded C [] := by
  simp [Guarded]

@[simp] theorem guarded_snoc (C : σ → ι → Prop) (tr : List (σ × ι)) (s : σ) (a : ι) :
    Guarded C (tr ++ [(s, a)]) ↔ Guarded C tr ∧ C s a := by
  simp [Guarded, or_imp, forall_and]

theorem guarded_append (C : σ → ι → Prop) (tr tr' : List (σ × ι)) :
    Guarded C (tr ++ tr') ↔ Guarded C tr ∧ Guarded C tr' := by
  simp [Guarded, or_imp, forall_and]

/-- A history read off a trace grows by what the last step adds to it. -/
theorem filterMap_snoc {α : Type u} {β : Type v} (f : α → Option β) (l : List α) (a : α) :
    (l ++ [a]).filterMap f = l.filterMap f ++ (f a).toList := by
  rw [List.filterMap_append]
  cases h : f a with
  | none => simp [h]
  | some b => simp [h]

/-- The member of a run at which an action is taken, with the run up to it. -/
theorem exists_prefix_of_mem {α : Type u} {l : List α} {p : α} (h : p ∈ l) :
    ∃ pre, pre ++ [p] <+: l := by
  rcases List.append_of_mem h with ⟨pre, post, rfl⟩
  exact ⟨pre, post, by simp⟩

namespace Trace

/-- A property of trace and state that holds at the start and is kept by every step holds of every
run. -/
theorem induct {P : List (σ × ι) → σ → Prop} (hstart : P [] S.init)
    (hstep : ∀ {tr s a t}, Trace S tr s → P tr s → S.step s a = some t → P (tr ++ [(s, a)]) t)
    {tr : List (σ × ι)} {s : σ} (h : Trace S tr s) : P tr s := by
  induction h with
  | start => exact hstart
  | snoc htr hs ih => exact hstep htr ih hs

/-- The invariant rule for runs all of whose steps meet a condition. -/
theorem guarded {C : σ → ι → Prop} {P : List (σ × ι) → σ → Prop} (hstart : P [] S.init)
    (hstep : ∀ {tr s a t}, Trace S tr s → P tr s → C s a → S.step s a = some t →
      P (tr ++ [(s, a)]) t)
    {tr : List (σ × ι)} {s : σ} (h : Trace S tr s) (hC : Guarded C tr) : P tr s := by
  induction h with
  | start => exact hstart
  | snoc htr hs ih =>
      rcases (guarded_snoc C _ _ _).1 hC with ⟨hprev, hlast⟩
      exact hstep htr (ih hprev) hlast hs

/-- Every state met on a run is itself reached by a run. -/
theorem of_prefix {tr tr' : List (σ × ι)} {s : σ} {p : σ × ι}
    (h : Trace S tr s) (hpre : tr' ++ [p] <+: tr) :
    Trace S tr' p.1 ∧ ∃ t, S.step p.1 p.2 = some t ∧ Trace S (tr' ++ [p]) t := by
  induction h with
  | start => simp at hpre
  | snoc htr hs ih =>
      rename_i tr₀ s₀ t₀ a₀
      rcases List.prefix_concat_iff.1 hpre with heq | hlt
      · have hsplit := List.append_inj' heq rfl
        rcases hsplit with ⟨rfl, hp⟩
        simp only [List.cons.injEq, and_true] at hp
        subst hp
        exact ⟨htr, t₀, hs, Trace.snoc htr hs⟩
      · exact ih hlt

theorem of_isPrefix {tr tr' : List (σ × ι)} {s : σ} (h : Trace S tr s) (hpre : tr' <+: tr) :
    ∃ t, Trace S tr' t := by
  rcases List.eq_nil_or_concat tr' with rfl | ⟨tr₀, p, rfl⟩
  · exact ⟨S.init, .start⟩
  · rcases (h.of_prefix (by simpa using hpre)).2 with ⟨t, _, ht⟩
    exact ⟨t, by simpa using ht⟩

end Trace

/-! ## Execution of a list of labels -/

namespace System

/-- Run the labels in order; `none` as soon as one of them is not possible. -/
def exec (S : System σ ι) : σ → List ι → Option σ
  | s, [] => some s
  | s, a :: as => (S.step s a).bind fun t => S.exec t as

/-- The trace that `exec` follows. -/
def steps (S : System σ ι) : σ → List ι → List (σ × ι)
  | _, [] => []
  | s, a :: as => (s, a) :: ((S.step s a).elim [] fun t => S.steps t as)

theorem exec_append (S : System σ ι) (s : σ) (as bs : List ι) :
    S.exec s (as ++ bs) = (S.exec s as).bind fun t => S.exec t bs := by
  induction as generalizing s with
  | nil => rfl
  | cons a as ih =>
      cases h : S.step s a with
      | none => simp [exec, h]
      | some t => simpa [exec, h] using ih t

/-- One possible move, then the rest. -/
theorem exec_cons {S : System σ ι} {s t : σ} {a : ι} (h : S.step s a = some t) (as : List ι) :
    S.exec s (a :: as) = S.exec t as := by
  rw [exec, h]
  rfl

/-- One execution after the other. -/
theorem exec_trans {S : System σ ι} {s t : σ} {as : List ι} (h : S.exec s as = some t)
    (bs : List ι) : S.exec s (as ++ bs) = S.exec t bs := by
  rw [exec_append, h]
  rfl

/-- The labels of the steps are the labels run. -/
theorem labels_steps {S : System σ ι} {s t : σ} {as : List ι} (h : S.exec s as = some t) :
    (S.steps s as).map Prod.snd = as := by
  induction as generalizing s with
  | nil => rfl
  | cons a as ih =>
      rcases Option.bind_eq_some_iff.1 h with ⟨u, hstep, hrest⟩
      simp [steps, hstep, ih hrest]

/-- The first step meets the condition, and so do the others. -/
theorem guarded_steps_cons {S : System σ ι} {C : σ → ι → Prop} {s : σ} {a : ι} {as : List ι}
    (ha : C s a) (has : ∀ t, Guarded C (S.steps t as)) : Guarded C (S.steps s (a :: as)) := by
  intro p hp
  rcases List.mem_cons.1 hp with rfl | hp
  · exact ha
  · cases hs : S.step s a with
    | none => simp [hs] at hp
    | some t =>
        rw [hs] at hp
        exact has t p hp

/-- The steps of an execution meet a condition that all its labels meet in every state. -/
theorem guarded_steps {S : System σ ι} {C : σ → ι → Prop} {as : List ι}
    (h : ∀ a ∈ as, ∀ s, C s a) (s : σ) : Guarded C (S.steps s as) := by
  induction as generalizing s with
  | nil => exact guarded_nil C
  | cons a as ih =>
      exact guarded_steps_cons (h a (List.mem_cons_self ..) s)
        (ih fun b hb => h b (List.mem_cons_of_mem _ hb))

end System

/-- A successful execution extends a trace by the steps it takes. -/
theorem Trace.exec {tr : List (σ × ι)} {s t : σ} {as : List ι} (h : Trace S tr s)
    (hexec : S.exec s as = some t) : Trace S (tr ++ S.steps s as) t := by
  induction as generalizing tr s with
  | nil =>
      simp only [System.exec, Option.some.injEq] at hexec
      subst hexec
      simpa [System.steps] using h
  | cons a as ih =>
      cases hs : S.step s a with
      | none => simp [System.exec, hs] at hexec
      | some u =>
          have hrest : S.exec u as = some t := by
            simpa [System.exec, hs] using hexec
          simpa [System.steps, hs] using ih (h.snoc hs) hrest

/-! ## States of guarded runs -/

/-- `S` gets to `s` by steps that all meet the condition `C`. -/
def GuardedRun (S : System σ ι) (C : σ → ι → Prop) (s : σ) : Prop :=
  ∃ tr, Trace S tr s ∧ Guarded C tr

namespace GuardedRun

variable {C : σ → ι → Prop} {s t : σ}

theorem start : GuardedRun S C S.init := ⟨[], Trace.start, guarded_nil C⟩

theorem snoc {a : ι} (h : GuardedRun S C s) (ha : C s a) (hstep : S.step s a = some t) :
    GuardedRun S C t := by
  rcases h with ⟨tr, htr, hC⟩
  exact ⟨tr ++ [(s, a)], htr.snoc hstep, (guarded_snoc C tr s a).2 ⟨hC, ha⟩⟩

/-- Steps that meet the condition in every state. -/
theorem exec (h : GuardedRun S C s) (as : List ι) (has : ∀ a ∈ as, ∀ s, C s a)
    (hexec : S.exec s as = some t) : GuardedRun S C t := by
  rcases h with ⟨tr, htr, hC⟩
  exact ⟨_, htr.exec hexec, (guarded_append C _ _).2 ⟨hC, System.guarded_steps has s⟩⟩

end GuardedRun

/-! ## Simulation -/

/-- A system seen through another one: a step shows as the step `label` names, or not at all. -/
structure Simulation {τ : Type w} {κ : Type z} (S : System σ ι) (T : System τ κ) where
  proj : σ → τ
  label : σ → ι → Option κ
  init : proj S.init = T.init
  hidden : ∀ {s a t}, S.step s a = some t → label s a = none → proj t = proj s
  shown : ∀ {s a t b}, S.step s a = some t → label s a = some b →
    T.step (proj s) b = some (proj t)

namespace Simulation

variable {τ : Type w} {κ : Type z} {T : System τ κ}

/-- The steps that show. -/
def trace (R : Simulation S T) (tr : List (σ × ι)) : List (τ × κ) :=
  tr.filterMap fun p => (R.label p.1 p.2).map fun b => (R.proj p.1, b)

theorem trace_snoc_hidden (R : Simulation S T) (tr : List (σ × ι)) {s : σ} {a : ι}
    (h : R.label s a = none) : R.trace (tr ++ [(s, a)]) = R.trace tr := by
  simp [trace, h]

theorem trace_snoc_shown (R : Simulation S T) (tr : List (σ × ι)) {s : σ} {a : ι} {b : κ}
    (h : R.label s a = some b) : R.trace (tr ++ [(s, a)]) = R.trace tr ++ [(R.proj s, b)] := by
  simp [trace, h]

/-- A run shows as a run. -/
theorem run (R : Simulation S T) {tr : List (σ × ι)} {s : σ} (h : Trace S tr s) :
    Trace T (R.trace tr) (R.proj s) := by
  induction h with
  | start =>
      rw [R.init]
      exact Trace.start
  | snoc htr hs ih =>
      rename_i tr s t a
      cases hlabel : R.label s a with
      | none =>
          rw [R.trace_snoc_hidden tr hlabel, R.hidden hs hlabel]
          exact ih
      | some b =>
          rw [R.trace_snoc_shown tr hlabel]
          exact ih.snoc (R.shown hs hlabel)

end Simulation

/-! ## Views -/

/-- A system seen through another one, for which each of its steps is any number of steps.  What is
asked of a step is asked of the states of runs only. -/
structure View {τ : Type w} {κ : Type z} (S : System σ ι) (T : System τ κ) where
  proj : σ → τ
  acts : σ → ι → List κ
  init : proj S.init = T.init
  exec : ∀ {tr s a t}, Trace S tr s → S.step s a = some t →
    T.exec (proj s) (acts s a) = some (proj t)

namespace View

variable {τ : Type w} {κ : Type z} {T : System τ κ}

def trace (V : View S T) (tr : List (σ × ι)) : List (τ × κ) :=
  tr.flatMap fun p => T.steps (V.proj p.1) (V.acts p.1 p.2)

theorem trace_snoc (V : View S T) (tr : List (σ × ι)) (s : σ) (a : ι) :
    V.trace (tr ++ [(s, a)]) = V.trace tr ++ T.steps (V.proj s) (V.acts s a) := by
  simp [trace]

/-- A run shows as a run. -/
theorem run (V : View S T) {tr : List (σ × ι)} {s : σ} (h : Trace S tr s) :
    Trace T (V.trace tr) (V.proj s) := by
  induction h with
  | start =>
      rw [V.init]
      exact Trace.start
  | snoc htr hs ih =>
      rw [V.trace_snoc]
      exact ih.exec (V.exec htr hs)

end View

end Lib
end Cm108Driver
