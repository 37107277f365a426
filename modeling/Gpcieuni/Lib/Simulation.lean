-- SUMMARY: Forward simulations between transition systems, in which a step is matched by any number of steps of the other system.
import Mathlib.Data.List.Forall2
import Gpcieuni.Lib.Lts

/-!
# Simulations

A system is simulated by another one if each of its steps can be matched by steps
of the other, with labels that are read off the step. A step that is matched by
nothing is internal. What a simulation says of one step, `Simulation.run` says of
a run: it is matched step by step.
-/

/-- What a step shows of itself: its action and its observation. -/
def Transition.label {σ α ε : Type} (t : Transition σ α ε) : α × ε := (t.act, t.out)

namespace Lts

variable {σ α ε σ' α' ε' : Type}

/-- The steps of `M` that satisfy `P` are matched by steps of `N`. -/
structure Simulation (M : Lts σ α ε) (N : Lts σ' α' ε') (P : Transition σ α ε → Prop) where
  rel : σ → σ' → Prop
  /-- The labels by which a step is matched. -/
  labels : Transition σ α ε → List (α' × ε')
  step : ∀ s a s' e p, rel s p → P ⟨s, a, e, s'⟩ → M.step s a = some (s', e) →
    ∃ w p', N.Run p w p' ∧ w.map (·.label) = labels ⟨s, a, e, s'⟩ ∧ rel s' p'

namespace Simulation

variable {M : Lts σ α ε} {N : Lts σ' α' ε'} {P : Transition σ α ε → Prop} (S : Simulation M N P)

/-- The steps `w` match the step `t`. -/
def Matches (t : Transition σ α ε) (w : List (Transition σ' α' ε')) : Prop :=
  ∃ p p', S.rel t.pre p ∧ N.Run p w p' ∧ w.map (·.label) = S.labels t ∧ S.rel t.post p'

/-- Every run is matched step by step. -/
theorem run {s s' : σ} {p : σ'} {tr : List (Transition σ α ε)} (h : M.Run s tr s')
    (hrel : S.rel s p) (hP : ∀ t ∈ tr, P t) :
    ∃ ws p', List.Forall₂ S.Matches tr ws ∧ N.Run p ws.flatten p' ∧ S.rel s' p' := by
  induction h generalizing p with
  | nil => exact ⟨[], p, .nil, .nil p, hrel⟩
  | cons hstep _ ih =>
      obtain ⟨w, p₁, hrun, hlabels, hrel₁⟩ :=
        S.step _ _ _ _ _ hrel (hP _ (List.mem_cons_self ..)) hstep
      obtain ⟨ws, p₂, hmatch, hrest, hrel₂⟩ :=
        ih hrel₁ fun t ht => hP t (List.mem_cons_of_mem _ ht)
      exact ⟨w :: ws, p₂, .cons ⟨p, p₁, hrel, hrun, hlabels, hrel₁⟩ hmatch, hrun.append hrest, hrel₂⟩

theorem label_mem_of_matches {t : Transition σ α ε} {w : List (Transition σ' α' ε')}
    (h : S.Matches t w) {u : Transition σ' α' ε'} (hu : u ∈ w) : u.label ∈ S.labels t := by
  obtain ⟨p, p', -, -, hlabels, -⟩ := h
  rw [← hlabels]
  exact List.mem_map_of_mem hu

/-- A step with one label is matched by one step, from a related state. -/
theorem matches_single {t : Transition σ α ε} {w : List (Transition σ' α' ε')} {l : α' × ε'}
    (h : S.Matches t w) (hl : S.labels t = [l]) :
    ∃ u, w = [u] ∧ u.label = l ∧ S.rel t.pre u.pre := by
  obtain ⟨p, p', hrel, hrun, hlabels, -⟩ := h
  rw [hl] at hlabels
  obtain ⟨u, rfl, hu⟩ := List.map_eq_singleton_iff.mp hlabels
  obtain ⟨hpre, -, -⟩ := hrun.of_cons
  exact ⟨u, rfl, hu, by rw [hpre]; exact hrel⟩

theorem matches_nil {t : Transition σ α ε} {w : List (Transition σ' α' ε')}
    (h : S.Matches t w) (hl : S.labels t = []) : w = [] := by
  obtain ⟨p, p', -, -, hlabels, -⟩ := h
  rw [hl] at hlabels
  exact List.map_eq_nil_iff.mp hlabels

variable {tr : List (Transition σ α ε)} {ws : List (List (Transition σ' α' ε'))}
  (h : List.Forall₂ S.Matches tr ws)

include h

/-- The labels of the matching run. -/
theorem labels_flatten : ws.flatten.map (·.label) = tr.flatMap S.labels := by
  induction h with
  | nil => rfl
  | cons hmatch _ ih =>
      obtain ⟨_, _, -, -, hlabels, -⟩ := hmatch
      simp [hlabels, ih]

/-- Each step of the run is matched within the matching run. -/
theorem matches_of_mem {t : Transition σ α ε} (ht : t ∈ tr) :
    ∃ w, S.Matches t w ∧ ∀ u ∈ w, u ∈ ws.flatten := by
  induction h with
  | nil => cases ht
  | @cons _ w _ ws hmatch _ ih =>
      cases ht with
      | head => exact ⟨w, hmatch, fun u hu => by simp [hu]⟩
      | tail _ hmem =>
          obtain ⟨w', hmatch', hsub⟩ := ih hmem
          exact ⟨w', hmatch', fun u hu => List.mem_append_right _ (hsub u hu)⟩

/-- Each step of the matching run matches a step, with others or alone. -/
theorem matches_of_mem_flatten {u : Transition σ' α' ε'} (hu : u ∈ ws.flatten) :
    ∃ t ∈ tr, ∃ w, S.Matches t w ∧ u ∈ w := by
  induction h with
  | nil => cases hu
  | @cons t w _ ws hmatch _ ih =>
      rcases List.mem_append.mp hu with hu | hu
      · exact ⟨t, List.mem_cons_self .., w, hmatch, hu⟩
      · obtain ⟨t', ht', hrest⟩ := ih hu
        exact ⟨t', List.mem_cons_of_mem _ ht', hrest⟩

omit h in
/-- If the steps that `visible` selects are matched by one step each and the others by
none, then the matching run consists of the visible steps, from related states. -/
theorem forall₂_filter {S : Simulation M M P} {visible : Transition σ α ε → Bool}
    {ws : List (List (Transition σ α ε))}
    (hvisible : ∀ t, S.labels t = if visible t then [t.label] else [])
    (h : List.Forall₂ S.Matches tr ws) :
    List.Forall₂ (fun t u => u.label = t.label ∧ S.rel t.pre u.pre) (tr.filter visible)
      ws.flatten := by
  induction h with
  | nil => exact .nil
  | @cons t w tr ws hmatch _ ih =>
      have hl := hvisible t
      cases ht : visible t with
      | true =>
          rw [ht, if_pos rfl] at hl
          obtain ⟨u, rfl, hu⟩ := S.matches_single hmatch hl
          rw [List.filter_cons_of_pos ht]
          exact .cons hu ih
      | false =>
          rw [ht, if_neg (by simp)] at hl
          obtain rfl : w = [] := S.matches_nil hmatch hl
          rw [List.filter_cons_of_neg (by simp [ht])]
          exact ih

end Simulation

end Lts
