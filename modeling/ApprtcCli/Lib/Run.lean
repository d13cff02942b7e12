import Mathlib.Data.List.Basic

/-!
# Runs of a system of labelled steps

A system is a partial function `step : σ → ε → Option σ`: from a state, a label
is either impossible (`none`) or leads to exactly one next state. Whatever the
environment may choose is in the label, so "every interleaving" is "every list
of labels".

`Run` keeps the history a property of a whole run needs: the states visited, each
with the label taken out of it. The rules below are the only inductions over
runs: an invariant is proved by one step lemma and one of them.
-/

namespace ApprtcCli.Lib

variable {σ ε : Type}

/-- A run from `s₀`: the visited states with the labels taken, and where it ends. -/
inductive Run (step : σ → ε → Option σ) (s₀ : σ) : List (σ × ε) → σ → Prop where
  | start : Run step s₀ [] s₀
  | next {tr : List (σ × ε)} {s s' : σ} {e : ε} :
      Run step s₀ tr s → step s e = some s' → Run step s₀ (tr ++ [(s, e)]) s'

/-- Some run ends here. -/
def Reachable (step : σ → ε → Option σ) (s₀ s : σ) : Prop :=
  ∃ tr, Run step s₀ tr s

variable {step : σ → ε → Option σ} {s₀ : σ}

theorem Reachable.init : Reachable step s₀ s₀ := ⟨[], Run.start⟩

theorem Reachable.next {s s' : σ} {e : ε} (h : Reachable step s₀ s)
    (hs : step s e = some s') : Reachable step s₀ s' := by
  obtain ⟨tr, hr⟩ := h
  exact ⟨_, Run.next hr hs⟩

theorem Run.reachable {tr : List (σ × ε)} {s : σ} (h : Run step s₀ tr s) :
    Reachable step s₀ s := ⟨tr, h⟩

/-- **The invariant rule**, for steps that all meet a condition on the state before them. -/
theorem Run.invariant_where {P : σ → ε → Prop} {I : σ → Prop} (h0 : I s₀)
    (hstep : ∀ s e s', Reachable step s₀ s → P s e → I s → step s e = some s' → I s')
    {tr : List (σ × ε)} {s : σ} (h : Run step s₀ tr s)
    (hP : ∀ p ∈ tr, P p.1 p.2) : I s := by
  induction h with
  | start => exact h0
  | @next tr s s' e hr hs ih =>
      have hlast : P s e := hP (s, e) (by simp)
      have hrest : ∀ p ∈ tr, P p.1 p.2 := fun p hp => hP p (by simp [hp])
      exact hstep s e s' hr.reachable hlast (ih hrest) hs

/--
**The exactness rule**: a law that a step keeps exactly where it meets a condition, given an
invariant, holds at the end of exactly the runs whose steps all meet the condition.
-/
theorem Run.law_iff {P : σ → ε → Prop} {J I : σ → Prop} (hJ0 : J s₀) (h0 : I s₀)
    (hJ : ∀ s e s', J s → step s e = some s' → J s')
    (hstep : ∀ s e s', J s → step s e = some s' → (I s' ↔ I s ∧ P s e))
    {tr : List (σ × ε)} {s : σ} (h : Run step s₀ tr s) :
    J s ∧ (I s ↔ ∀ p ∈ tr, P p.1 p.2) := by
  induction h with
  | start => exact ⟨hJ0, fun _ _ hp => absurd hp (by simp), fun _ => h0⟩
  | @next tr s s' e _ hs ih =>
      obtain ⟨hj, hiff⟩ := ih
      refine ⟨hJ s e s' hj hs, ?_⟩
      rw [hstep s e s' hj hs, hiff, List.forall_mem_append]
      simp

/-- **The invariant rule**: what holds at the start and is kept by every step holds throughout. -/
theorem Reachable.invariant {I : σ → Prop} (h0 : I s₀)
    (hstep : ∀ s e s', Reachable step s₀ s → I s → step s e = some s' → I s')
    {s : σ} (h : Reachable step s₀ s) : I s := by
  obtain ⟨tr, hr⟩ := h
  exact hr.invariant_where (P := fun _ _ => True) h0
    (fun s e s' hs _ hi he => hstep s e s' hs hi he) (fun _ _ => trivial)

/-- Run a list of labels. -/
def exec (step : σ → ε → Option σ) : σ → List ε → Option σ
  | s, [] => some s
  | s, e :: es => (step s e).bind (fun s' => exec step s' es)

theorem exec_concat {es : List ε} {e : ε} {s s₁ s₂ : σ} (h : exec step s es = some s₁)
    (hs : step s₁ e = some s₂) : exec step s (es ++ [e]) = some s₂ := by
  induction es generalizing s with
  | nil =>
      injection h with h
      subst h
      simp [exec, hs]
  | cons e' es ih =>
      obtain ⟨s', h1, h2⟩ := Option.bind_eq_some_iff.mp h
      simp only [List.cons_append, exec, h1, Option.bind_some]
      exact ih h2

/-- Executing labels after a run extends the run. -/
theorem Run.exec {s s' : σ} {tr : List (σ × ε)} (hr : Run step s₀ tr s) :
    ∀ {es : List ε}, exec step s es = some s' →
      ∃ tr', Run step s₀ (tr ++ tr') s' ∧ tr'.map Prod.snd = es := by
  intro es
  induction es generalizing s tr with
  | nil =>
      intro h
      injection h with h
      subst h
      exact ⟨[], by simpa using hr, rfl⟩
  | cons e es ih =>
      intro h
      obtain ⟨s₁, h1, h2⟩ := Option.bind_eq_some_iff.mp h
      obtain ⟨tr', hrun, hlab⟩ := ih (hr.next h1) h2
      exact ⟨(s, e) :: tr', by simpa using hrun, by simp [hlab]⟩

theorem Reachable.of_exec {s : σ} {es : List ε} (h : ApprtcCli.Lib.exec step s₀ es = some s) :
    Reachable step s₀ s := by
  obtain ⟨tr, hr, _⟩ := Run.start.exec h
  exact ⟨_, hr⟩

/-- What every step keeps, a list of labels keeps. -/
theorem Reachable.exec {I : σ → Prop}
    (hstep : ∀ s e s', Reachable step s₀ s → I s → step s e = some s' → I s') :
    ∀ {es : List ε} {s s' : σ}, Reachable step s₀ s → I s →
      ApprtcCli.Lib.exec step s es = some s' → Reachable step s₀ s' ∧ I s' := by
  intro es
  induction es with
  | nil =>
      intro s s' h hi he
      injection he with he
      subst he
      exact ⟨h, hi⟩
  | cons e es ih =>
      intro s s' h hi he
      obtain ⟨s₁, h1, h2⟩ := Option.bind_eq_some_iff.mp he
      exact ih (h.next h1) (hstep s e s₁ h hi h1) h2

/-- Each step of a run was taken from a reachable state, and labels lead from it to the end. -/
theorem Run.passes {tr : List (σ × ε)} {s s' : σ} {e : ε} (h : Run step s₀ tr s')
    (hp : (s, e) ∈ tr) : ∃ s₁, Reachable step s₀ s ∧ step s e = some s₁
      ∧ ∃ es, ApprtcCli.Lib.exec step s₁ es = some s' := by
  induction h with
  | start => cases hp
  | @next tr t t' e' hr hs ih =>
      rcases List.mem_append.mp hp with hp | hp
      · obtain ⟨s₁, hreach, hstep, es, hes⟩ := ih hp
        exact ⟨s₁, hreach, hstep, es ++ [e'], exec_concat hes hs⟩
      · cases List.mem_singleton.mp hp
        exact ⟨t', hr.reachable, hs, [], rfl⟩

/-! ## Fewer labels -/

/-- The system whose environment keeps to what `allow` says. -/
def restrict (step : σ → ε → Option σ) (allow : σ → ε → Bool) (s : σ) (e : ε) : Option σ :=
  if allow s e then step s e else none

theorem restrict_eq_some {allow : σ → ε → Bool} {s s' : σ} {e : ε} :
    restrict step allow s e = some s' ↔ allow s e = true ∧ step s e = some s' := by
  unfold restrict
  split
  · rename_i hallow
    exact (and_iff_right hallow).symm
  · rename_i hallow
    simp [hallow]

/-- What is reachable with fewer labels is reachable. -/
theorem Reachable.of_restrict {allow : σ → ε → Bool} {s : σ}
    (h : Reachable (restrict step allow) s₀ s) : Reachable step s₀ s :=
  h.invariant (I := Reachable step s₀) Reachable.init
    (fun _ _ _ _ hr hs => hr.next (restrict_eq_some.mp hs).2)

end ApprtcCli.Lib
