import Mathlib.Data.List.Basic
import Mathlib.Data.List.Pairwise
import Mathlib.Data.List.Perm.Basic
import Mathlib.Tactic

/-! # The latest element of every key

A list is read as a row of reports, each on its key. `latest` keeps of every key the last report, in the
order of these last reports (`mem_latest`). One more report removes the one with its key and goes to the
end (`latest_append_singleton`), which is how a program keeps such a list up to date.

The reports may fall into groups: the latest of a group are the group's part of the latest of all
(`filter_latest_prod`), and the groups one after the other are all of them (`flatMap_filter_perm`). -/

namespace Haentgl.Lib.Latest

variable {α κ γ : Type} [DecidableEq κ] [DecidableEq γ]

/-- The elements whose key no later element has. -/
def latest (key : α → κ) (l : List α) : List α := l.pwFilter fun a b => key a ≠ key b

@[simp] theorem latest_nil (key : α → κ) : latest key [] = [] := rfl

theorem latest_cons (key : α → κ) (a : α) (l : List α) :
    latest key (a :: l) = if key a ∈ l.map key then latest key l else a :: latest key l := by
  have hall : (∀ b ∈ latest key l, key a ≠ key b) ↔ ∀ b ∈ l, key a ≠ key b := by
    refine List.forall_mem_pwFilter (fun {x y z} hxz => ?_) a l
    by_cases hxy : key x = key y
    · exact .inr (hxy ▸ hxz)
    · exact .inl hxy
  split_ifs with h
  · refine List.pwFilter_cons_of_neg fun hne => ?_
    obtain ⟨b, hb, he⟩ := List.mem_map.mp h
    exact hall.mp hne b hb he.symm
  · exact List.pwFilter_cons_of_pos (hall.mpr fun b hb he => h (List.mem_map.mpr ⟨b, hb, he.symm⟩))

theorem mem_of_mem_latest {key : α → κ} {l : List α} {a : α} (h : a ∈ latest key l) : a ∈ l :=
  List.pwFilter_subset l h

/-- No key occurs twice. -/
theorem nodup_latest (key : α → κ) (l : List α) : ((latest key l).map key).Nodup :=
  List.pairwise_map.mpr (List.pairwise_pwFilter l)

/-- An element is kept at the last place of its key. -/
theorem mem_latest {key : α → κ} {a : α} : ∀ {l : List α},
    a ∈ latest key l ↔ ∃ pre post, l = pre ++ a :: post ∧ ∀ x ∈ post, key x ≠ key a
  | [] => by simp
  | b :: l => by
    have ih : a ∈ latest key l ↔ ∃ pre post, l = pre ++ a :: post ∧ ∀ x ∈ post, key x ≠ key a :=
      mem_latest
    have hlater : key b ∈ l.map key ↔ ∃ x ∈ l, key x = key b := List.mem_map
    rw [latest_cons]
    constructor
    · intro h
      split_ifs at h with hb
      · obtain ⟨pre, post, rfl, hpost⟩ := ih.mp h
        exact ⟨b :: pre, post, rfl, hpost⟩
      · rcases List.mem_cons.mp h with rfl | h
        · exact ⟨[], l, rfl, fun x hx he => hb (hlater.mpr ⟨x, hx, he⟩)⟩
        · obtain ⟨pre, post, rfl, hpost⟩ := ih.mp h
          exact ⟨b :: pre, post, rfl, hpost⟩
    · rintro ⟨pre, post, he, hpost⟩
      rcases pre with _ | ⟨c, pre⟩
      · obtain ⟨rfl, rfl⟩ := List.cons.inj he
        have hb : key b ∉ l.map key := fun hb => by
          obtain ⟨x, hx, hkey⟩ := hlater.mp hb
          exact hpost x hx hkey
        rw [if_neg hb]
        exact List.mem_cons_self
      · obtain ⟨rfl, rfl⟩ := List.cons.inj he
        have hmem := ih.mpr ⟨pre, post, rfl, hpost⟩
        split_ifs with hb
        · exact hmem
        · exact List.mem_cons_of_mem _ hmem

/-- **One more report** takes the place of the one with its key, at the end. -/
theorem latest_append_singleton (key : α → κ) (a : α) : ∀ l : List α,
    latest key (l ++ [a]) = (latest key l).filter (fun b => key b ≠ key a) ++ [a]
  | [] => by simp [latest_cons]
  | b :: l => by
    have ih := latest_append_singleton key a l
    have hmem : key b ∈ (l ++ [a]).map key ↔ key b ∈ l.map key ∨ key b = key a := by simp
    rw [List.cons_append, latest_cons, latest_cons, ih]
    by_cases hb : key b ∈ l.map key
    · rw [if_pos (hmem.mpr (.inl hb)), if_pos hb]
    · rw [if_neg hb]
      by_cases he : key b = key a
      · rw [if_pos (hmem.mpr (.inr he)), List.filter_cons_of_neg (by simp [he])]
      · rw [if_neg (by rw [hmem]; exact not_or.mpr ⟨hb, he⟩), List.filter_cons_of_pos (by simp [he]),
          List.cons_append]

/-! ### Groups -/

/-- A group's part of the latest of all. -/
theorem filter_latest_prod (key : α → κ) (group : α → γ) (g : γ) : ∀ l : List α,
    (latest (fun a => (group a, key a)) l).filter (fun a => group a = g) =
      latest key (l.filter fun a => group a = g)
  | [] => rfl
  | a :: l => by
    have ih := filter_latest_prod key group g l
    by_cases hg : group a = g
    · have hmem : (group a, key a) ∈ l.map (fun a => (group a, key a)) ↔
          key a ∈ (l.filter fun a => group a = g).map key := by
        simp [hg, and_assoc]
      rw [List.filter_cons_of_pos (by simp [hg]), latest_cons, latest_cons]
      by_cases h : key a ∈ (l.filter fun a => group a = g).map key
      · rw [if_pos h, if_pos (hmem.mpr h), ih]
      · rw [if_neg h, if_neg fun h' => h (hmem.mp h'), List.filter_cons_of_pos (by simp [hg]), ih]
    · rw [List.filter_cons_of_neg (by simp [hg]), latest_cons, ← ih]
      split_ifs
      · rfl
      · rw [List.filter_cons_of_neg (by simp [hg])]

/-- All groups one after the other. -/
theorem flatMap_filter_perm (group : α → γ) : ∀ (gs : List γ) (l : List α), gs.Nodup →
    (∀ a ∈ l, group a ∈ gs) → (gs.flatMap fun g => l.filter fun a => group a = g).Perm l
  | [], l, _, h => by
    rcases l with _ | ⟨a, l⟩
    · exact .nil
    · exact absurd (h a (by simp)) (by simp)
  | g :: gs, l, hnodup, h => by
    obtain ⟨hg, hgs⟩ := List.nodup_cons.mp hnodup
    have ih := flatMap_filter_perm group gs (l.filter fun a => !decide (group a = g)) hgs
      fun a ha => by
        obtain ⟨hmem, hne⟩ := List.mem_filter.mp ha
        exact (List.mem_cons.mp (h a hmem)).resolve_left (by simpa using hne)
    -- what is not in the first group is where it was
    have hrest : (gs.flatMap fun g' =>
          (l.filter fun a => !decide (group a = g)).filter fun a => group a = g') =
        gs.flatMap fun g' => l.filter fun a => group a = g' := by
      refine List.flatMap_congr fun g' hg' => ?_
      rw [List.filter_filter]
      refine List.filter_congr fun a _ => ?_
      have hne : g' ≠ g := fun he => hg (he ▸ hg')
      by_cases ha : group a = g'
      · simp [ha, hne]
      · simp [ha]
    rw [List.flatMap_cons, ← hrest]
    exact (ih.append_left _).trans (List.filter_append_perm _ l)

end Haentgl.Lib.Latest
