-- SUMMARY: Labelled transition systems given by a step function: runs, reachability under a condition on the steps, and the invariant rules.
import Mathlib.Data.List.Basic

/-!
# Labelled transition systems

A system is a set of initial states and a step function. An action resolves
every choice of the environment, so a step is a function: it is disabled
(`none`), or it gives the next state and what the step lets an observer see.

The rules below are the two shapes in which a safety property of a whole run is
proved: an invariant that every allowed step preserves (`Run.preserves`,
`Reachable.invariant`), and the exact condition on the steps of a run under
which a property holds throughout (`Run.always_iff`).
-/

/-- A transition system with states `σ`, actions `α`, and observations `ε`. -/
structure Lts (σ α ε : Type) where
  init : σ → Prop
  step : σ → α → Option (σ × ε)

/-- One step of a run, with the states around it. -/
structure Transition (σ α ε : Type) where
  pre : σ
  act : α
  out : ε
  post : σ

namespace Lts

variable {σ α ε : Type} {M : Lts σ α ε}

/-- `M.Run s tr s'`: the steps `tr`, one after the other, lead from `s` to `s'`. -/
inductive Run (M : Lts σ α ε) : σ → List (Transition σ α ε) → σ → Prop where
  | nil (s : σ) : Run M s [] s
  | cons {s s' s'' : σ} {a : α} {e : ε} {tr : List (Transition σ α ε)} :
      M.step s a = some (s', e) → Run M s' tr s'' → Run M s (⟨s, a, e, s'⟩ :: tr) s''

/-- The states reached from an initial one by steps that all satisfy `P`, a
condition on the state before the step and the action taken there. -/
def Reachable (M : Lts σ α ε) (P : σ → α → Prop) (s : σ) : Prop :=
  ∃ s₀ tr, M.init s₀ ∧ M.Run s₀ tr s ∧ ∀ t ∈ tr, P t.pre t.act

/-- Execute a list of actions, collecting the steps. -/
def exec (M : Lts σ α ε) (s : σ) : List α → Option (List (Transition σ α ε) × σ)
  | [] => some ([], s)
  | a :: as =>
    match M.step s a with
    | none => none
    | some (s', e) => (M.exec s' as).map fun r => (⟨s, a, e, s'⟩ :: r.1, r.2)

/-! ## Runs -/

theorem Run.append {s s' s'' : σ} {tr tr' : List (Transition σ α ε)}
    (h : M.Run s tr s') (h' : M.Run s' tr' s'') : M.Run s (tr ++ tr') s'' := by
  induction h with
  | nil => exact h'
  | cons hstep _ ih => exact .cons hstep (ih h')

/-- A run of two parts stops between them. -/
theorem Run.of_append {s s'' : σ} {tr tr' : List (Transition σ α ε)}
    (h : M.Run s (tr ++ tr') s'') : ∃ s', M.Run s tr s' ∧ M.Run s' tr' s'' := by
  induction tr generalizing s with
  | nil => exact ⟨s, .nil s, h⟩
  | cons t tr ih =>
      cases h with
      | cons hstep hrest =>
          obtain ⟨s', hfirst, hsecond⟩ := ih hrest
          exact ⟨s', .cons hstep hfirst, hsecond⟩

theorem Run.of_cons {s s' : σ} {t : Transition σ α ε} {tr : List (Transition σ α ε)}
    (h : M.Run s (t :: tr) s') :
    t.pre = s ∧ M.step s t.act = some (t.post, t.out) ∧ M.Run t.post tr s' := by
  cases h with
  | cons hstep hrest => exact ⟨rfl, hstep, hrest⟩

/-- The steps of a run determine where it ends. -/
theorem Run.end_unique {s s₁ s₂ : σ} {tr : List (Transition σ α ε)} (h₁ : M.Run s tr s₁)
    (h₂ : M.Run s tr s₂) : s₁ = s₂ := by
  induction h₁ with
  | nil => cases h₂; rfl
  | cons _ _ ih =>
      cases h₂ with
      | cons _ hrest => exact ih hrest

theorem Run.single {s s' : σ} {a : α} {e : ε} (h : M.step s a = some (s', e)) :
    M.Run s [⟨s, a, e, s'⟩] s' :=
  .cons h (.nil s')

/-- Every entry of a run is a step of the system. -/
theorem Run.step_of_mem {s s' : σ} {tr : List (Transition σ α ε)} (h : M.Run s tr s')
    {t : Transition σ α ε} (ht : t ∈ tr) : M.step t.pre t.act = some (t.post, t.out) := by
  induction h with
  | nil => cases ht
  | cons hstep _ ih =>
      cases ht with
      | head => exact hstep
      | tail _ hmem => exact ih hmem

/-- An executed list of actions is a run with these actions. -/
theorem Run.of_exec {s s' : σ} {l : List α} {tr : List (Transition σ α ε)}
    (h : M.exec s l = some (tr, s')) : M.Run s tr s' ∧ tr.map (·.act) = l := by
  induction l generalizing s tr with
  | nil =>
      obtain ⟨rfl, rfl⟩ : [] = tr ∧ s = s' := by simpa [exec] using h
      exact ⟨.nil _, rfl⟩
  | cons a l ih =>
      simp only [exec] at h
      split at h
      · cases h
      · rename_i s₁ e hstep
        obtain ⟨⟨tr', s₂⟩, hrest, heq⟩ := Option.map_eq_some_iff.mp h
        obtain ⟨rfl, rfl⟩ : _ = tr ∧ s₂ = s' := by simpa using heq
        obtain ⟨hrun, hacts⟩ := ih hrest
        exact ⟨.cons hstep hrun, by simp [hacts]⟩

/-- A run read off from an execution, with what `g` computes from it. -/
theorem Run.of_exec_map {β : Type} {g : List (Transition σ α ε) × σ → β} {v : β} {s : σ}
    {l : List α} (h : (M.exec s l).map g = some v) :
    ∃ tr s', M.Run s tr s' ∧ tr.map (·.act) = l ∧ g (tr, s') = v := by
  obtain ⟨⟨tr, s'⟩, hexec, hg⟩ := Option.map_eq_some_iff.mp h
  obtain ⟨hrun, hacts⟩ := Run.of_exec hexec
  exact ⟨tr, s', hrun, hacts, hg⟩

/-- The end of a run that took a step is the state after one of its steps. -/
theorem Run.end_mem {s s' : σ} {tr : List (Transition σ α ε)} (h : M.Run s tr s') (hne : tr ≠ []) :
    ∃ t ∈ tr, t.post = s' := by
  induction h with
  | nil => exact absurd rfl hne
  | @cons s₁ s₂ _ a e tr _ hrest ih =>
      cases tr with
      | nil => cases hrest; exact ⟨_, List.mem_cons_self .., rfl⟩
      | cons t tr =>
          obtain ⟨t', ht', hpost⟩ := ih (by simp)
          exact ⟨t', List.mem_cons_of_mem _ ht', hpost⟩

/-- Steps that lower a potential, in a run in which no step raises it, are not
more than the potential allows. -/
theorem Run.length_filter_le {φ : σ → Nat} {mine : Transition σ α ε → Bool} {s s' : σ}
    {tr : List (Transition σ α ε)} (h : M.Run s tr s')
    (hmine : ∀ t ∈ tr, mine t = true → φ t.post < φ t.pre)
    (hother : ∀ t ∈ tr, φ t.post ≤ φ t.pre) : (tr.filter mine).length + φ s' ≤ φ s := by
  induction h with
  | nil => simp
  | @cons s₁ s₂ _ a e tr _ _ ih =>
      have hrest := ih (fun t ht => hmine t (List.mem_cons_of_mem _ ht))
        (fun t ht => hother t (List.mem_cons_of_mem _ ht))
      have hle := hother _ (List.mem_cons_self ..)
      cases hm : mine ⟨s₁, a, e, s₂⟩ with
      | true =>
          have hlt := hmine _ (List.mem_cons_self ..) hm
          rw [List.filter_cons_of_pos hm, List.length_cons]
          simp only at hlt
          omega
      | false =>
          rw [List.filter_cons_of_neg (by simp [hm])]
          simp only at hle
          omega

/-- If every step lowers a measure, a run is no longer than it. -/
theorem Run.length_le {φ : σ → Nat} {s s' : σ} {tr : List (Transition σ α ε)}
    (h : M.Run s tr s') (hdec : ∀ t ∈ tr, φ t.post < φ t.pre) : tr.length + φ s' ≤ φ s := by
  have hall : ∀ t ∈ tr, true = true → φ t.post < φ t.pre := fun t ht _ => hdec t ht
  have hle := h.length_filter_le hall fun t ht => Nat.le_of_lt (hdec t ht)
  rwa [List.filter_true] at hle

/-! ## Invariants -/

section Invariant

variable {I J : σ → Prop} {P : σ → α → Prop}

/-- What every step that satisfies `P` preserves holds at every state of a run
of such steps. -/
theorem Run.preserves
    (hpres : ∀ s a s' e, I s → P s a → M.step s a = some (s', e) → I s')
    {s s' : σ} {tr : List (Transition σ α ε)} (h : M.Run s tr s') (hI : I s)
    (hP : ∀ t ∈ tr, P t.pre t.act) : I s' ∧ ∀ t ∈ tr, I t.pre ∧ I t.post := by
  induction h with
  | nil => exact ⟨hI, by simp⟩
  | cons hstep _ ih =>
      have hI' := hpres _ _ _ _ hI (hP _ (List.mem_cons_self ..)) hstep
      obtain ⟨hend, hall⟩ := ih hI' (fun t ht => hP t (List.mem_cons_of_mem _ ht))
      refine ⟨hend, ?_⟩
      intro t ht
      cases ht with
      | head => exact ⟨hI, hI'⟩
      | tail _ hmem => exact hall t hmem

/-- What is recorded of a run step by step stays in a relation with the state that
every allowed step preserves. -/
theorem Run.foldl_preserves {γ : Type} {note : γ → Transition σ α ε → γ} {J : γ → σ → Prop}
    (hpres : ∀ g s a s' e, J g s → P s a → M.step s a = some (s', e) →
      J (note g ⟨s, a, e, s'⟩) s')
    {g : γ} {s s' : σ} {tr : List (Transition σ α ε)} (h : M.Run s tr s') (hJ : J g s)
    (hP : ∀ t ∈ tr, P t.pre t.act) : J (tr.foldl note g) s' := by
  induction h generalizing g with
  | nil => exact hJ
  | cons hstep _ ih =>
      apply ih (hpres _ _ _ _ _ hJ (hP _ (List.mem_cons_self ..)) hstep)
      exact fun t ht => hP t (List.mem_cons_of_mem _ ht)

theorem Reachable.invariant
    (hinit : ∀ s, M.init s → I s)
    (hpres : ∀ s a s' e, I s → P s a → M.step s a = some (s', e) → I s')
    {s : σ} (h : M.Reachable P s) : I s := by
  obtain ⟨s₀, tr, h₀, hrun, hP⟩ := h
  exact (hrun.preserves hpres (hinit s₀ h₀) hP).1

/-- The exact condition for a property `I` along a run of steps that all satisfy
`A`. `J` is an invariant of the steps that satisfy `P`, it implies `I`, and a
step that does not satisfy `P` breaks `I` at once. Then `I` holds after every
step of the run if and only if every step satisfies `P`. -/
theorem Run.always_iff {A : σ → α → Prop}
    (hJI : ∀ s, J s → I s)
    (hpres : ∀ s a s' e, J s → A s a → P s a → M.step s a = some (s', e) → J s')
    (hbreak : ∀ s a s' e, J s → A s a → ¬ P s a → M.step s a = some (s', e) → ¬ I s')
    {s s' : σ} {tr : List (Transition σ α ε)} (h : M.Run s tr s') (hJ : J s)
    (hA : ∀ t ∈ tr, A t.pre t.act) :
    (∀ t ∈ tr, I t.post) ↔ ∀ t ∈ tr, P t.pre t.act := by
  constructor
  · intro hI
    induction h with
    | nil => simp
    | @cons s₁ s₂ _ a e _ hstep _ ih =>
        have hA₁ : A s₁ a := hA _ (List.mem_cons_self ..)
        have hP : P s₁ a := by
          by_contra hnP
          exact hbreak _ _ _ _ hJ hA₁ hnP hstep (hI _ (List.mem_cons_self ..))
        have hrest := ih (hpres _ _ _ _ hJ hA₁ hP hstep)
          (fun t ht => hA t (List.mem_cons_of_mem _ ht))
          (fun t ht => hI t (List.mem_cons_of_mem _ ht))
        intro t ht
        cases ht with
        | head => exact hP
        | tail _ hmem => exact hrest t hmem
  · intro hP t ht
    have hall := h.preserves (P := fun s a => A s a ∧ P s a)
      (fun s a s' e hJ hAP => hpres s a s' e hJ hAP.1 hAP.2) hJ (fun t ht => ⟨hA t ht, hP t ht⟩)
    exact hJI _ (hall.2 t ht).2

end Invariant

end Lts
