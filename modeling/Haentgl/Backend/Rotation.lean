import Haentgl.Backend.Resolver
import Mathlib.Data.List.Rotate

/-! # The choice in turn

`get_cp_backend` moves a counter on, which wraps around, starts it again if it is behind the list of the
available channels, and takes the channel at the counter. The list is collected anew for every call, while
the counter stays from the call before.

Whatever the counter was, the first call leaves it within the list (`next_lt`). From there it goes around
as long as the list is the same, so as many calls as the list is long return a rotation of it
(`getCpBackends_replicate`). -/

namespace Haentgl.Backend.Rotation

open Haentgl.Backend.Resolver

variable {α : Type}

/-- `fetch_add(1)`; `usizeMax` is `usize::MAX`. -/
def fetchAdd (usizeMax : ℕ) (r : CpResolver) : CpResolver :=
  { r with pickIndex := (r.pickIndex + 1) % (usizeMax + 1) }

/-- The end of `get_cp_backend`, once the available channels are collected. -/
def getCpBackend (usizeMax : ℕ) (available : List α) (r : CpResolver) : Option α × CpResolver :=
  if (fetchAdd usizeMax r).pickIndex ≥ available.length then
    (available[0]?, { fetchAdd usizeMax r with pickIndex := 0 })
  else (available[(fetchAdd usizeMax r).pickIndex]?, fetchAdd usizeMax r)

/-- Calls one after the other, with the channels that each of them has collected. -/
def getCpBackends (usizeMax : ℕ) : List (List α) → CpResolver → List (Option α) × CpResolver
  | [], r => ([], r)
  | available :: calls, r =>
    let (channel, r) := getCpBackend usizeMax available r
    let (channels, r) := getCpBackends usizeMax calls r
    (channel :: channels, r)

/-- The counter after a call over `n` channels. -/
def next (usizeMax n pickIndex : ℕ) : ℕ :=
  if (pickIndex + 1) % (usizeMax + 1) ≥ n then 0 else (pickIndex + 1) % (usizeMax + 1)

/-! ### One call -/

section Calls
variable {usizeMax : ℕ}

theorem next_lt (usizeMax : ℕ) {n : ℕ} (hn : 0 < n) (p : ℕ) : next usizeMax n p < n := by
  unfold next
  split_ifs with h
  · exact hn
  · omega

/-- Within the list the counter goes around. -/
theorem next_of_lt {n p : ℕ} (hp : p < n) (hn : n ≤ usizeMax) : next usizeMax n p = (p + 1) % n := by
  unfold next
  rw [Nat.mod_eq_of_lt (by omega : p + 1 < usizeMax + 1)]
  split_ifs with h
  · have hend : p + 1 = n := by omega
    rw [hend, Nat.mod_self]
  · rw [Nat.mod_eq_of_lt (by omega)]

/-- A call takes the channel at the new counter. -/
theorem getCpBackend_eq (available : List α) (r : CpResolver) :
    getCpBackend usizeMax available r = (available[next usizeMax available.length r.pickIndex]?,
      { r with pickIndex := next usizeMax available.length r.pickIndex }) := by
  have hmoved : (fetchAdd usizeMax r).pickIndex = (r.pickIndex + 1) % (usizeMax + 1) := rfl
  rw [getCpBackend, next, hmoved]
  split_ifs with h
  · rfl
  · rfl

/-- The counter of the resolver's runs does not wrap around; the choice is the same. -/
theorem getCpBackend_eq_pick {available : List α} {r : CpResolver} (hr : r.pickIndex ≤ usizeMax)
    (hl : available.length ≤ usizeMax) : getCpBackend usizeMax available r = r.pick available := by
  have hnext : next usizeMax available.length r.pickIndex =
      if r.pickIndex + 1 ≥ available.length then 0 else r.pickIndex + 1 := by
    unfold next
    rcases Nat.lt_or_ge r.pickIndex usizeMax with h | h
    · rw [Nat.mod_eq_of_lt (by omega)]
    · have hmax : r.pickIndex + 1 = usizeMax + 1 := by omega
      rw [hmax, Nat.mod_self, if_pos (by omega : usizeMax + 1 ≥ available.length), ite_self]
  rw [getCpBackend_eq, hnext]
  rfl

theorem getCpBackends_cons (available : List α) (calls : List (List α)) (r : CpResolver) :
    getCpBackends usizeMax (available :: calls) r =
      ((getCpBackend usizeMax available r).1 ::
        (getCpBackends usizeMax calls (getCpBackend usizeMax available r).2).1,
        (getCpBackends usizeMax calls (getCpBackend usizeMax available r).2).2) := rfl

theorem getCpBackends_append : ∀ (calls calls' : List (List α)) (r : CpResolver),
    (getCpBackends usizeMax (calls ++ calls') r).1 = (getCpBackends usizeMax calls r).1 ++
      (getCpBackends usizeMax calls' (getCpBackends usizeMax calls r).2).1
  | [], _, _ => rfl
  | available :: calls, calls', r => by
    rw [List.cons_append, getCpBackends_cons, getCpBackends_cons, getCpBackends_append calls]
    rfl

/-! ### Calls over one list -/

/-- The calls over a list take its elements in turn. -/
theorem getCpBackends_replicate_eq {l : List α} (hne : l ≠ []) (hl : l.length ≤ usizeMax) :
    ∀ (k : ℕ) (r : CpResolver), (getCpBackends usizeMax (List.replicate k l) r).1 =
      (List.range k).map fun i => l[(i + next usizeMax l.length r.pickIndex) % l.length]?
  | 0, r => rfl
  | k + 1, r => by
    have hlt := next_lt usizeMax (List.length_pos_iff.mpr hne) r.pickIndex
    have ih := getCpBackends_replicate_eq hne hl k (getCpBackend usizeMax l r).2
    rw [List.replicate_succ, getCpBackends_cons, ih, List.range_succ_eq_map, List.map_cons,
      List.map_map, getCpBackend_eq]
    refine congrArg₂ List.cons ?_ (List.map_congr_left fun i _ => ?_)
    · rw [Nat.zero_add, Nat.mod_eq_of_lt hlt]
    · show l[(i + next usizeMax l.length (next usizeMax l.length r.pickIndex)) % l.length]? = _
      rw [next_of_lt hlt hl, Nat.add_mod_mod]
      show _ = l[(i + 1 + next usizeMax l.length r.pickIndex) % l.length]?
      congr 2
      omega

/-- As many calls as the list is long return a rotation of it. -/
theorem getCpBackends_replicate {l : List α} (hne : l ≠ []) (hl : l.length ≤ usizeMax) (r : CpResolver) :
    (getCpBackends usizeMax (List.replicate l.length l) r).1 =
      (l.rotate (next usizeMax l.length r.pickIndex)).map some := by
  rw [getCpBackends_replicate_eq hne hl]
  refine List.ext_getElem (by simp) fun i h₁ h₂ => ?_
  have hi : i < l.length := by simpa using h₁
  have hmod : (i + next usizeMax l.length r.pickIndex) % l.length < l.length :=
    Nat.mod_lt _ (List.length_pos_iff.mpr hne)
  simp only [List.getElem_map, List.getElem_range, List.getElem_rotate]
  exact List.getElem?_eq_getElem hmod

@[simp] theorem length_getCpBackends : ∀ (calls : List (List α)) (r : CpResolver),
    (getCpBackends usizeMax calls r).1.length = calls.length
  | [], _ => rfl
  | available :: calls, r => by
    rw [getCpBackends_cons, List.length_cons, length_getCpBackends calls, List.length_cons]

/-- **The choice in turn**: every call takes a channel that it has collected, whatever the counter and
the calls before it, and as many calls in a row as there are channels take each of them once. -/
theorem getCpBackends_turn (r : CpResolver) {calls : List (List α)} (hne : ∀ l ∈ calls, l ≠ [])
    (hl : ∀ l ∈ calls, l.length ≤ usizeMax) :
    (∀ pre l post, calls = pre ++ l :: post →
      ∃ c ∈ l, (getCpBackends usizeMax calls r).1[pre.length]? = some (some c)) ∧
    ∀ pre l post, calls = pre ++ List.replicate l.length l ++ post →
      ∃ picked : List α,
        ((getCpBackends usizeMax calls r).1.drop pre.length).take l.length = picked.map some ∧
          picked.Perm l := by
  refine ⟨fun pre l post he => ?_, fun pre l post he => ?_⟩
  · have hpos : 0 < l.length := List.length_pos_iff.mpr (hne l (by simp [he]))
    have hlt := next_lt usizeMax hpos (getCpBackends usizeMax pre r).2.pickIndex
    refine ⟨_, List.getElem_mem hlt, ?_⟩
    rw [he, getCpBackends_append, List.getElem?_append_right (by simp), length_getCpBackends,
      Nat.sub_self, getCpBackends_cons, getCpBackend_eq, List.getElem?_cons_zero,
      List.getElem?_eq_getElem hlt]
  · rcases eq_or_ne l [] with rfl | hnil
    · exact ⟨[], by simp, .nil⟩
    · have hmem : l ∈ calls := by
        rw [he]
        simp [hnil]
      refine ⟨_, ?_, List.rotate_perm l (next usizeMax l.length (getCpBackends usizeMax pre r).2.pickIndex)⟩
      rw [he, getCpBackends_append, getCpBackends_append, List.append_assoc,
        List.drop_left' (length_getCpBackends pre r), List.take_left' (by simp),
        getCpBackends_replicate hnil (hl l hmem)]

/-- The counter is at its largest value, and the channels come and go. -/
theorem getCpBackends_turn_wraps : ∃ picked : List ℕ,
    ((getCpBackends 18446744073709551615 [[7], [7, 8], [7, 8], [9, 7, 8]]
      { CpResolver.new with pickIndex := 18446744073709551615 }).1.drop 1).take 2 = picked.map some ∧
      picked.Perm [7, 8] :=
  (getCpBackends_turn { CpResolver.new with pickIndex := 18446744073709551615 } (by decide)
    (by decide)).2 [[7]] [7, 8] [[9, 7, 8]] rfl

end Calls

end Haentgl.Backend.Rotation
