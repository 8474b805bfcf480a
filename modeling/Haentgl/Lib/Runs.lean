import Mathlib.Data.List.Induction
import Mathlib.Tactic

/-! # Systems that take one action after another

A system has an initial state and a step, which says what an action makes of a state, or that it is not
possible there. Whatever is chosen outside the system (which task moves next, what the network
delivers) is part of the action, so a run is a list of actions.

`System.induction` is the induction along a run. A condition on single steps, `Every`, is what an
invariant may assume of the runs it speaks about (`invariant_of_every`). -/

namespace Haentgl.Lib.Runs

structure System (σ α : Type) where
  init : σ
  step : σ → α → Option σ

namespace System
variable {σ α : Type} (S : System σ α)

/-- The state after some actions, if all of them are possible. -/
def run (as : List α) : Option σ := as.foldlM S.step S.init

/-- Every step of the run meets the condition, in the state it is taken in. -/
def Every (ok : σ → α → Prop) (as : List α) : Prop :=
  ∀ pre a post s, as = pre ++ a :: post → S.run pre = some s → ok s a

/-- The same, step by step from a state on. -/
def EveryFrom (ok : σ → α → Prop) : σ → List α → Prop
  | _, [] => True
  | s, a :: as => ok s a ∧ ∀ s' ∈ S.step s a, EveryFrom ok s' as

instance decidableEveryFrom (ok : σ → α → Prop) [∀ s a, Decidable (ok s a)] :
    ∀ s as, Decidable (S.EveryFrom ok s as)
  | _, [] => .isTrue trivial
  | s, a :: as =>
    have : ∀ s', Decidable (S.EveryFrom ok s' as) := fun s' => decidableEveryFrom ok s' as
    inferInstanceAs (Decidable (ok s a ∧ ∀ s' ∈ S.step s a, S.EveryFrom ok s' as))

variable {S} {as : List α} {a : α} {s s' : σ}

@[simp] theorem run_nil : S.run [] = some S.init := rfl

theorem run_append (as bs : List α) : S.run (as ++ bs) = (S.run as).bind fun s => bs.foldlM S.step s :=
  List.foldlM_append

theorem run_snoc (as : List α) (a : α) : S.run (as ++ [a]) = (S.run as).bind (S.step · a) := by
  simp [run_append]

/-- A run is a run followed by a step. -/
theorem run_snoc_eq_some :
    S.run (as ++ [a]) = some s' ↔ ∃ s, S.run as = some s ∧ S.step s a = some s' := by
  rw [run_snoc, Option.bind_eq_some_iff]

theorem exists_run_of_append {bs : List α} (h : S.run (as ++ bs) = some s') :
    ∃ s, S.run as = some s := by
  rw [run_append, Option.bind_eq_some_iff] at h
  obtain ⟨s, hs, -⟩ := h
  exact ⟨s, hs⟩

/-- Every step of a run is possible. -/
theorem exists_step_of_append {bs : List α} {t : σ} (h : S.run (as ++ a :: bs) = some t)
    (hs : S.run as = some s) : ∃ s', S.step s a = some s' ∧ S.run (as ++ [a]) = some s' := by
  rw [← List.singleton_append, ← List.append_assoc] at h
  obtain ⟨s', hs'⟩ := exists_run_of_append h
  obtain ⟨u, hu, hstep⟩ := run_snoc_eq_some.mp hs'
  obtain rfl := Option.some.inj (hs.symm.trans hu)
  exact ⟨s', hstep, hs'⟩

/-- Induction along a run. -/
theorem induction {motive : List α → σ → Prop} (nil : motive [] S.init)
    (snoc : ∀ as s a s', S.run as = some s → motive as s → S.step s a = some s' →
      motive (as ++ [a]) s') (h : S.run as = some s) : motive as s := by
  induction as using List.reverseRecOn generalizing s with
  | nil =>
    cases h
    exact nil
  | append_singleton as a ih =>
    obtain ⟨t, ht, hstep⟩ := run_snoc_eq_some.mp h
    exact snoc as t a s ht (ih ht) hstep

theorem Every.of_append {ok : σ → α → Prop} {bs : List α} (h : S.Every ok (as ++ bs)) :
    S.Every ok as := by
  intro pre a post s he
  refine h pre a (post ++ bs) s ?_
  rw [he, List.append_assoc, List.cons_append]

theorem every_snoc {ok : σ → α → Prop} :
    S.Every ok (as ++ [a]) ↔ S.Every ok as ∧ ∀ s, S.run as = some s → ok s a := by
  constructor
  · intro h
    exact ⟨h.of_append, fun s => h as a [] s rfl⟩
  · rintro ⟨h, ha⟩ pre b post s he hs
    rcases List.eq_nil_or_concat post with rfl | ⟨post, c, rfl⟩
    · obtain ⟨rfl, hb⟩ := List.append_inj' he rfl
      cases hb
      exact ha s hs
    · rw [List.concat_eq_append, ← List.cons_append, ← List.append_assoc] at he
      obtain ⟨rfl, -⟩ := List.append_inj' he rfl
      exact h pre b post s rfl hs

/-- A condition on steps is checked along the run. -/
theorem every_of_everyFrom {ok : σ → α → Prop} (h : S.EveryFrom ok S.init as) : S.Every ok as := by
  have hgen : ∀ (pre post : List α) (a : α) (t s : σ), S.EveryFrom ok t (pre ++ a :: post) →
      pre.foldlM S.step t = some s → ok s a := by
    intro pre post a
    induction pre with
    | nil =>
      intro t s ht hs
      cases hs
      exact ht.1
    | cons b pre ih =>
      intro t s ht hs
      rw [List.foldlM_cons] at hs
      obtain ⟨u, hu, hs⟩ := Option.bind_eq_some_iff.mp hs
      exact ih u s (ht.2 u hu) hs
  intro pre a post s he hs
  subst he
  exact hgen pre post a S.init s h hs

/-- **An invariant** of the runs that meet a condition on steps: it holds in the beginning, and every
step that meets the condition keeps it. -/
theorem invariant_of_every {I : σ → Prop} {ok : σ → α → Prop} (init : I S.init)
    (step : ∀ s a s', I s → ok s a → S.step s a = some s' → I s') (hok : S.Every ok as)
    (h : S.run as = some s) : I s := by
  induction as using List.reverseRecOn generalizing s with
  | nil =>
    cases h
    exact init
  | append_singleton as a ih =>
    obtain ⟨t, ht, hstep⟩ := run_snoc_eq_some.mp h
    obtain ⟨hevery, hlast⟩ := every_snoc.mp hok
    exact step t a s (ih hevery ht) (hlast t ht) hstep

/-- An invariant of all runs. -/
theorem invariant {I : σ → Prop} (init : I S.init)
    (step : ∀ s a s', I s → S.step s a = some s' → I s') (h : S.run as = some s) : I s :=
  invariant_of_every init (fun s a s' hs _ => step s a s' hs)
    (fun _ _ _ _ _ _ => trivial) h

/-- **A budget.** If every step that is counted takes something off `Φ`, and no other step adds to it, then
there are no more of them than `Φ` has had. -/
theorem budget {I : σ → Prop} {Φ : σ → ℕ} {p : α → Bool}
    (step : ∀ s a s', I s → S.step s a = some s' → I s' ∧ Φ s' + (if p a then 1 else 0) ≤ Φ s) :
    ∀ (as : List α) {s : σ}, I s → as.foldlM S.step s = some s' → I s' ∧ Φ s' + as.countP p ≤ Φ s
  | [], s, hs, h => by
    cases h
    exact ⟨hs, le_rfl⟩
  | a :: as, s, hs, h => by
    rw [List.foldlM_cons] at h
    obtain ⟨t, ht, h⟩ := Option.bind_eq_some_iff.mp h
    obtain ⟨hI, hle⟩ := step s a t hs ht
    obtain ⟨hI', hle'⟩ := budget step as hI h
    rw [List.countP_cons]
    exact ⟨hI', by omega⟩

end System

end Haentgl.Lib.Runs
