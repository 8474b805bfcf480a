import Mathlib.Data.List.Basic
import Mathlib.Tactic

/-! # Byte parsers and little-endian numbers

A parser takes a byte string to the rest of it and a value, or fails. A failure is an error of one of
three modes or a panic. Input is complete: a parser that runs out of bytes fails in the mode
`backtrack`, the same as one that sees a wrong byte.

`whileOk p` applies `p` as long as it succeeds. A parser is *stable* if more input behind what it has
accepted changes nothing but the rest, which is what makes it independent of how a stream is cut
into pieces. -/

namespace Haentgl.Lib.Parse

/-- A byte string. -/
abbrev Bytes := List UInt8

/-! ### Little-endian numbers -/

/-- The number with the given little-endian bytes. -/
def leNat : Bytes → ℕ
  | [] => 0
  | b :: bs => b.toNat + 256 * leNat bs

/-- The `k` low bytes of a number, least significant first. -/
def leBytes : ℕ → ℕ → Bytes
  | 0, _ => []
  | k + 1, n => UInt8.ofNat n :: leBytes k (n / 256)

@[simp] theorem length_leBytes (k n : ℕ) : (leBytes k n).length = k := by
  induction k generalizing n with
  | zero => rfl
  | succ k ih => simp [leBytes, ih]

theorem leNat_leBytes {k n : ℕ} (h : n < 256 ^ k) : leNat (leBytes k n) = n := by
  induction k generalizing n with
  | zero => simp [leBytes, leNat] at h ⊢; exact h.symm
  | succ k ih =>
    have hd : n / 256 < 256 ^ k := by
      rw [pow_succ] at h
      exact Nat.div_lt_of_lt_mul (by rw [Nat.mul_comm]; exact h)
    rw [leBytes, leNat, ih hd, UInt8.toNat_ofNat']
    omega

theorem leBytes_leNat : ∀ b : Bytes, leBytes b.length (leNat b) = b
  | [] => rfl
  | x :: b => by
    have hx := x.toNat_lt
    have h1 : UInt8.ofNat (x.toNat + 256 * leNat b) = x := by
      apply UInt8.toNat_inj.mp
      rw [UInt8.toNat_ofNat']
      omega
    have h2 : (x.toNat + 256 * leNat b) / 256 = leNat b := by omega
    rw [List.length_cons, leNat, leBytes, h1, h2, leBytes_leNat b]

theorem leNat_lt (b : Bytes) : leNat b < 256 ^ b.length := by
  induction b with
  | nil => simp [leNat]
  | cons x b ih =>
    have := x.toNat_lt
    rw [leNat, List.length_cons, pow_succ]
    omega

/-! ### Parsers -/

/-- The modes of a parse error. -/
inductive ErrMode
  | incomplete
  | backtrack
  | cut
  deriving DecidableEq, Repr

/-- How a parser fails. -/
inductive Failure
  | err (mode : ErrMode)
  | panic
  deriving DecidableEq, Repr

/-- The rest of the input and a value, or a failure. -/
abbrev IResult (α : Type) := Except Failure (Bytes × α)

/-- The first `n` bytes. -/
def take (n : ℕ) (i : Bytes) : IResult Bytes :=
  if n ≤ i.length then .ok (i.drop n, i.take n) else .error (.err .backtrack)

/-- The given bytes. -/
def literal (l i : Bytes) : IResult Bytes :=
  if i.take l.length = l then .ok (i.drop l.length, l) else .error (.err .backtrack)

/-- A little-endian number of `k` bytes. -/
def leUint (k : ℕ) (i : Bytes) : IResult ℕ :=
  if k ≤ i.length then .ok (i.drop k, leNat (i.take k)) else .error (.err .backtrack)

/-- The bytes before the first `b`, at least one. -/
def takeUntil1 (b : UInt8) (i : Bytes) : IResult Bytes :=
  if b ∈ i ∧ 1 ≤ i.idxOf b then .ok (i.drop (i.idxOf b), i.take (i.idxOf b))
  else .error (.err .backtrack)

variable {α β : Type}

/-- `whileOk` with a bound on the number of items. -/
def whileOkAux (p : Bytes → IResult α) : ℕ → Bytes → List α × Bytes
  | 0, i => ([], i)
  | n + 1, i =>
    match p i with
    | .ok (r, a) => (a :: (whileOkAux p n r).1, (whileOkAux p n r).2)
    | .error _ => ([], i)

/-- Apply `p` as long as it succeeds: the values, and the input on which it fails. -/
def whileOk (p : Bytes → IResult α) (i : Bytes) : List α × Bytes := whileOkAux p i.length i

/-- Every success uses up input. -/
def Consuming (p : Bytes → IResult α) : Prop :=
  ∀ i r a, p i = .ok (r, a) → r.length < i.length

/-- More input behind an accepted one is left over. -/
def Stable (p : Bytes → IResult α) : Prop :=
  ∀ i r a x, p i = .ok (r, a) → p (i ++ x) = .ok (r ++ x, a)

theorem bind_eq_ok {ε : Type} {x : Except ε α} {f : α → Except ε β} {b : β} :
    (x >>= f) = .ok b ↔ ∃ a, x = .ok a ∧ f a = .ok b := by
  rcases x with e | a
  · simp [Bind.bind, Except.bind]
  · simp [Bind.bind, Except.bind]

theorem pure_eq_ok {a b : α} : (pure a : Except Failure α) = .ok b ↔ a = b := by
  simp [Pure.pure, Except.pure]

theorem take_eq_ok {n : ℕ} {i r a : Bytes} : take n i = .ok (r, a) ↔ i = a ++ r ∧ a.length = n := by
  unfold take
  split_ifs with h
  · simp only [Except.ok.injEq, Prod.mk.injEq]
    constructor
    · rintro ⟨rfl, rfl⟩
      exact ⟨(List.take_append_drop n i).symm, List.length_take_of_le h⟩
    · rintro ⟨rfl, rfl⟩
      exact ⟨List.drop_left, List.take_left⟩
  · simp only [false_iff]
    rintro ⟨rfl, rfl⟩
    simp at h

theorem take_append (a r : Bytes) : take a.length (a ++ r) = .ok (r, a) :=
  take_eq_ok.mpr ⟨rfl, rfl⟩

theorem take_all (a : Bytes) : take a.length a = .ok ([], a) :=
  take_eq_ok.mpr ⟨(List.append_nil a).symm, rfl⟩

theorem take_eq_error {n : ℕ} {i : Bytes} {e : Failure} (h : take n i = .error e) :
    e = .err .backtrack := by
  unfold take at h
  split_ifs at h
  cases h; rfl

theorem literal_eq_ok {l i r a : Bytes} : literal l i = .ok (r, a) ↔ i = l ++ r ∧ a = l := by
  unfold literal
  split_ifs with h
  · simp only [Except.ok.injEq, Prod.mk.injEq]
    constructor
    · rintro ⟨rfl, rfl⟩
      refine ⟨?_, rfl⟩
      conv_lhs => rw [← List.take_append_drop l.length i, h]
    · rintro ⟨rfl, rfl⟩
      exact ⟨List.drop_left, rfl⟩
  · simp only [false_iff]
    rintro ⟨rfl, -⟩
    exact h List.take_left

theorem leUint_eq_ok {k n : ℕ} {i r : Bytes} :
    leUint k i = .ok (r, n) ↔ ∃ b, i = b ++ r ∧ b.length = k ∧ leNat b = n := by
  unfold leUint
  split_ifs with h
  · simp only [Except.ok.injEq, Prod.mk.injEq]
    constructor
    · rintro ⟨rfl, rfl⟩
      exact ⟨i.take k, (List.take_append_drop k i).symm, List.length_take_of_le h, rfl⟩
    · rintro ⟨b, rfl, rfl, rfl⟩
      exact ⟨List.drop_left, by rw [List.take_left]⟩
  · simp only [false_iff]
    rintro ⟨b, rfl, rfl, -⟩
    simp at h

theorem leUint_eq_error {k : ℕ} {i : Bytes} {e : Failure} (h : leUint k i = .error e) :
    e = .err .backtrack := by
  unfold leUint at h
  split_ifs at h
  cases h; rfl

theorem leUint_leBytes {k n : ℕ} (r : Bytes) (h : n < 256 ^ k) :
    leUint k (leBytes k n ++ r) = .ok (r, n) :=
  leUint_eq_ok.mpr ⟨leBytes k n, rfl, length_leBytes k n, leNat_leBytes h⟩

/-! ### Repetition -/

section Repeat
variable {p : Bytes → IResult α} (hp : Consuming p)
include hp

/-- The bound is no restriction. -/
theorem whileOkAux_bound : ∀ (n m : ℕ) (i : Bytes), i.length ≤ n → i.length ≤ m →
    whileOkAux p n i = whileOkAux p m i
  | 0, 0, _, _, _ => rfl
  | 0, m + 1, i, h, _ => by
    rcases hr : p i with e | ⟨r, a⟩
    · simp [whileOkAux, hr]
    · have := hp _ _ _ hr; omega
  | n + 1, 0, i, _, h => by
    rcases hr : p i with e | ⟨r, a⟩
    · simp [whileOkAux, hr]
    · have := hp _ _ _ hr; omega
  | n + 1, m + 1, i, hn, hm => by
    rcases hr : p i with e | ⟨r, a⟩
    · simp [whileOkAux, hr]
    · have hl := hp _ _ _ hr
      have ih := whileOkAux_bound n m r (by omega) (by omega)
      simp [whileOkAux, hr, ih]

theorem whileOk_ok {i r : Bytes} {a : α} (h : p i = .ok (r, a)) :
    whileOk p i = (a :: (whileOk p r).1, (whileOk p r).2) := by
  have hl := hp _ _ _ h
  obtain ⟨n, hn⟩ := Nat.exists_eq_succ_of_ne_zero (show i.length ≠ 0 by omega)
  have h1 : whileOkAux p n r = whileOk p r := whileOkAux_bound hp n r.length r (by omega) le_rfl
  rw [whileOk, hn, whileOkAux, h]
  simp only [h1]

omit hp in
theorem whileOk_error {i : Bytes} {e : Failure} (h : p i = .error e) : whileOk p i = ([], i) := by
  rw [whileOk]
  rcases i with _ | ⟨b, i⟩
  · rfl
  · simp [whileOkAux, h]

/-- Induction along the repetition. -/
theorem whileOk_induction {motive : Bytes → Prop}
    (ok : ∀ i r a, p i = .ok (r, a) → motive r → motive i)
    (error : ∀ i e, p i = .error e → motive i) (i : Bytes) : motive i := by
  induction hn : i.length using Nat.strong_induction_on generalizing i with
  | _ n ih =>
    rcases hr : p i with e | ⟨r, a⟩
    · exact error i e hr
    · exact ok i r a hr (ih r.length (by rw [← hn]; exact hp _ _ _ hr) r rfl)

theorem whileOk_eq_cons {i j : Bytes} {a : α} {as : List α} (h : whileOk p i = (a :: as, j)) :
    ∃ r, p i = .ok (r, a) ∧ whileOk p r = (as, j) := by
  rcases hr : p i with e | ⟨r, a'⟩
  · rw [whileOk_error hr] at h
    cases h
  · rw [whileOk_ok hp hr] at h
    obtain ⟨hcons, hj⟩ := Prod.mk.inj h
    obtain ⟨rfl, has⟩ := List.cons.inj hcons
    exact ⟨r, rfl, Prod.ext has hj⟩

theorem whileOk_eq_nil {i j : Bytes} (h : whileOk p i = ([], j)) : j = i ∧ ∃ e, p i = .error e := by
  rcases hr : p i with e | ⟨r, a⟩
  · rw [whileOk_error hr] at h
    exact ⟨(Prod.mk.inj h).2.symm, e, rfl⟩
  · rw [whileOk_ok hp hr] at h
    cases h

/-- Behind items that leave nothing over the repetition begins anew. -/
theorem whileOk_append (hs : Stable p) (i j : Bytes) (h : (whileOk p i).2 = []) :
    whileOk p (i ++ j) = ((whileOk p i).1 ++ (whileOk p j).1, (whileOk p j).2) := by
  induction i using whileOk_induction hp with
  | ok i r a hr ih =>
    rw [whileOk_ok hp hr] at h ⊢
    rw [whileOk_ok hp (hs _ _ _ j hr), ih h]
    rfl
  | error i e he =>
    rw [whileOk_error he] at h ⊢
    obtain rfl : i = [] := h
    rfl

end Repeat

/-! ### Pieces of bounded length -/

/-- The next piece of at most `n` bytes, if there is one. -/
def piece (n : ℕ) (i : Bytes) : IResult Bytes :=
  if i = [] then .error (.err .backtrack) else .ok (i.drop n, i.take n)

/-- The pieces of `n` bytes; the last one may be shorter. -/
def chunks (n : ℕ) (i : Bytes) : List Bytes := (whileOk (piece n) i).1

theorem consuming_piece {n : ℕ} (hn : 0 < n) : Consuming (piece n) := by
  intro i r a h
  unfold piece at h
  split_ifs at h with hi
  cases h
  have := List.length_pos_iff.mpr hi
  simp; omega

@[simp] theorem chunks_nil (n : ℕ) : chunks n [] = [] := rfl

theorem chunks_of_ne_nil {n : ℕ} (hn : 0 < n) {i : Bytes} (hi : i ≠ []) :
    chunks n i = i.take n :: chunks n (i.drop n) := by
  have h : piece n i = .ok (i.drop n, i.take n) := if_neg hi
  rw [chunks, whileOk_ok (consuming_piece hn) h]
  rfl

theorem chunks_of_le {n : ℕ} (hn : 0 < n) {i : Bytes} (hi : i ≠ []) (h : i.length ≤ n) :
    chunks n i = [i] := by
  rw [chunks_of_ne_nil hn hi, List.take_of_length_le h, List.drop_eq_nil_of_le h, chunks_nil]

/-- A first piece of full length. -/
theorem chunks_append {n : ℕ} (hn : 0 < n) {a : Bytes} (ha : a.length = n) (i : Bytes) :
    chunks n (a ++ i) = a :: chunks n i := by
  have hne : a ++ i ≠ [] := by
    intro h
    have := congrArg List.length h
    rw [List.length_append, List.length_nil] at this
    omega
  rw [chunks_of_ne_nil hn hne, List.take_left' ha, List.drop_left' ha]

/-- Every byte string is a row of full pieces and a shorter one. -/
theorem exists_pieces {n : ℕ} (hn : 0 < n) (i : Bytes) :
    ∃ (cs : List Bytes) (c : Bytes), (∀ x ∈ cs, x.length = n) ∧ c.length < n ∧
      i = cs.flatten ++ c := by
  induction hl : i.length using Nat.strong_induction_on generalizing i with
  | _ l ih =>
    rcases Nat.lt_or_ge i.length n with h | h
    · exact ⟨[], i, by simp, h, rfl⟩
    · obtain ⟨cs, c, hcs, hc, he⟩ := ih (i.drop n).length (by simp; omega) _ rfl
      refine ⟨i.take n :: cs, c, ?_, hc, ?_⟩
      · intro x hx
        rcases List.mem_cons.mp hx with rfl | hx
        · exact List.length_take_of_le h
        · exact hcs x hx
      · rw [List.flatten_cons, List.append_assoc, ← he, List.take_append_drop]

theorem length_flatten_pieces {n : ℕ} {cs : List Bytes} (hcs : ∀ x ∈ cs, x.length = n) :
    cs.flatten.length = n * cs.length := by
  rw [List.length_flatten, List.eq_replicate_of_mem (a := n) (l := cs.map List.length)]
  · simp [Nat.mul_comm]
  · simpa using hcs

theorem chunks_pieces {n : ℕ} (hn : 0 < n) {cs : List Bytes} (hcs : ∀ x ∈ cs, x.length = n)
    (c : Bytes) : chunks n (cs.flatten ++ c) = cs ++ chunks n c := by
  induction cs with
  | nil => rfl
  | cons x cs ih =>
    rw [List.flatten_cons, List.append_assoc, chunks_append hn (hcs x (by simp)),
      ih fun y hy => hcs y (by simp [hy])]
    rfl

theorem length_of_mem_chunks {n : ℕ} (hn : 0 < n) {i x : Bytes} (hx : x ∈ chunks n i) :
    x.length ≤ n := by
  obtain ⟨cs, c, hcs, hc, rfl⟩ := exists_pieces hn i
  rw [chunks_pieces hn hcs] at hx
  rcases List.mem_append.mp hx with hx | hx
  · exact (hcs x hx).le
  · rcases eq_or_ne c [] with rfl | hne
    · simp at hx
    · rw [chunks_of_le hn hne hc.le] at hx
      rw [List.mem_singleton.mp hx]
      exact hc.le

end Haentgl.Lib.Parse
