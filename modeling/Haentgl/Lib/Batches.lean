import Mathlib.Data.List.Basic
import Mathlib.Tactic

/-! # Groups sent in batches

A group of items goes out in batches of at most `n`, and every batch says how many items the whole group
has; an empty group is one empty batch. `reassemble` puts the groups together again: it collects batches
until it has as many items as they say.

All groups come back (`reassemble_parts`), and whoever sees only the first batches of a stream puts
together the first of its groups (`reassemble_leading`). -/

namespace Haentgl.Lib.Batches

variable {α : Type}

/-- `batches` with a bound on their number. -/
def batchesAux (n : ℕ) : ℕ → List α → List (List α)
  | 0, _ => []
  | k + 1, l => if l = [] then [] else l.take n :: batchesAux n k (l.drop n)

/-- The batches of `n` items; the last one may be shorter. -/
def batches (n : ℕ) (l : List α) : List (List α) := batchesAux n l.length l

/-- A batch with the number of items of its group. -/
abbrev Portion (α : Type) := ℕ × List α

/-- The parts of a group. -/
def parts (n : ℕ) (l : List α) : List (Portion α) :=
  if l = [] then [(0, [])] else (batches n l).map fun b => (l.length, b)

/-- The groups that are complete, from the parts behind the items `acc`. -/
def reassemble : List α → List (Portion α) → List (List α)
  | _, [] => []
  | acc, p :: ps =>
    if (acc ++ p.2).length < p.1 then reassemble (acc ++ p.2) ps else (acc ++ p.2) :: reassemble [] ps

section Batches
variable {n : ℕ} (hn : 0 < n)
include hn

/-- The bound is no restriction. -/
theorem batchesAux_bound : ∀ (k m : ℕ) (l : List α), l.length ≤ k → l.length ≤ m →
    batchesAux n k l = batchesAux n m l
  | 0, m, l, hk, _ => by
    obtain rfl := List.length_eq_zero_iff.mp (Nat.le_zero.mp hk)
    cases m <;> simp [batchesAux]
  | k + 1, 0, l, _, hm => by
    obtain rfl := List.length_eq_zero_iff.mp (Nat.le_zero.mp hm)
    simp [batchesAux]
  | k + 1, m + 1, l, hk, hm => by
    rw [batchesAux, batchesAux]
    split_ifs with hl
    · rfl
    · have hpos := List.length_pos_iff.mpr hl
      have hdrop : (l.drop n).length = l.length - n := List.length_drop
      rw [batchesAux_bound k m (l.drop n) (by omega) (by omega)]

theorem batches_of_ne_nil {l : List α} (h : l ≠ []) : batches n l = l.take n :: batches n (l.drop n) := by
  have hpos := List.length_pos_iff.mpr h
  have hdrop : (l.drop n).length = l.length - n := List.length_drop
  obtain ⟨k, hk⟩ := Nat.exists_eq_succ_of_ne_zero hpos.ne'
  rw [batches, hk, batchesAux, if_neg h, batches, batchesAux_bound hn k (l.drop n).length _ (by omega) le_rfl]

/-- The batches are the list, cut into pieces that are not empty and not too long. -/
theorem batches_spec (l : List α) : (batches n l).flatten = l ∧
    ∀ b ∈ batches n l, b ≠ [] ∧ b.length ≤ n := by
  induction hl : l.length using Nat.strong_induction_on generalizing l with
  | _ k ih =>
    rcases eq_or_ne l [] with rfl | hne
    · exact ⟨rfl, fun b hb => by cases hb⟩
    have hpos := List.length_pos_iff.mpr hne
    have hdrop : (l.drop n).length = l.length - n := List.length_drop
    obtain ⟨hflat, hall⟩ := ih (l.drop n).length (by omega) (l.drop n) rfl
    rw [batches_of_ne_nil hn hne]
    refine ⟨by rw [List.flatten_cons, hflat, List.take_append_drop], fun b hb => ?_⟩
    rcases List.mem_cons.mp hb with rfl | hb
    · refine ⟨fun hnil => ?_, List.length_take_le n l⟩
      rcases List.take_eq_nil_iff.mp hnil with h0 | h0
      · omega
      · exact hne h0
    · exact hall b hb

end Batches

/-- Batches that do not complete their group are collected; the last one completes it. -/
theorem reassemble_batches (ps : List (Portion α)) : ∀ (bs : List (List α)) (acc : List α) (total : ℕ),
    bs ≠ [] → (∀ b ∈ bs, b ≠ []) → (acc ++ bs.flatten).length = total →
    reassemble acc (bs.map (fun b => (total, b)) ++ ps) = (acc ++ bs.flatten) :: reassemble [] ps
  | [], _, _, h, _, _ => absurd rfl h
  | [b], acc, total, _, _, htotal => by
    have hb : (acc ++ b).length = total := by simpa using htotal
    rw [List.map_singleton, List.singleton_append, reassemble, if_neg (by simp only; omega)]
    simp
  | b :: b' :: bs, acc, total, _, hne, htotal => by
    have hpos := List.length_pos_iff.mpr (hne b' (by simp))
    have hlt : (acc ++ b).length < total := by
      rw [← htotal]
      simp only [List.length_append, List.flatten_cons]
      omega
    rw [List.map_cons, List.cons_append, reassemble, if_pos hlt,
      reassemble_batches ps (b' :: bs) (acc ++ b) total (by simp) (fun x hx => hne x (by simp [hx]))
        (by rw [← htotal]; simp)]
    simp

/-- **All groups come back**, empty ones too. -/
theorem reassemble_parts {n : ℕ} (hn : 0 < n) : ∀ gs : List (List α),
    reassemble [] (gs.flatMap (parts n)) = gs
  | [] => rfl
  | g :: gs => by
    rw [List.flatMap_cons, parts]
    split_ifs with hg
    · rw [hg, List.singleton_append, reassemble, if_neg (by simp), reassemble_parts hn gs]
      rfl
    · obtain ⟨hflat, hall⟩ := batches_spec hn g
      have hne : batches n g ≠ [] := by
        rw [batches_of_ne_nil hn hg]
        simp
      rw [reassemble_batches _ _ [] g.length hne (fun b hb => (hall b hb).1) (by rw [hflat]; rfl), hflat,
        reassemble_parts hn gs]
      rfl

/-- **The first parts give the first groups.** -/
theorem reassemble_leading : ∀ (ps qs : List (Portion α)) (acc : List α),
    reassemble acc ps <+: reassemble acc (ps ++ qs)
  | [], _, _ => List.nil_prefix
  | p :: ps, qs, acc => by
    rw [List.cons_append, reassemble, reassemble]
    split_ifs
    · exact reassemble_leading ps qs _
    · exact (List.prefix_cons_inj _).mpr (reassemble_leading ps qs [])

end Haentgl.Lib.Batches
