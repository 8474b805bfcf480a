import Mathlib.Logic.Relation
import Mathlib.Tactic

/-! # Programs that change a state and may stop

A program `Proc ε σ α` runs from a state of type `σ` to a value of type `α` or to a reason to stop of
type `ε`; it leaves a state in both cases, so what a stopped program has done so far is not lost.
Loops carry a value of their own and a bound on the number of rounds; `outOfRounds` is the reason an
exhausted bound gives.

Two styles of reasoning are used. A run is computed round by round with `run_bind_ok` and
`loop_again`/`loop_break`; an invariant is carried through a program by `Spec`, a pre- and
postcondition with a third assertion for the states in which the program stops. -/

namespace Haentgl.Lib.Program

/-- A program over the states `σ`. -/
def Proc (ε σ α : Type) : Type := σ → Except ε α × σ

namespace Proc

variable {ε σ τ α β γ : Type}

/-- The run of a program from a state. -/
def run (p : Proc ε σ α) (s : σ) : Except ε α × σ := p s

instance : Monad (Proc ε σ) where
  pure a := fun s => (.ok a, s)
  bind p f := fun s =>
    match p s with
    | (.ok a, s') => f a s'
    | (.error e, s') => (.error e, s')

/-- Stop for the reason `e`. -/
def stop (e : ε) : Proc ε σ α := fun s => (.error e, s)

/-- The current state. -/
def get : Proc ε σ σ := fun s => (.ok s, s)

/-- Replace the state. -/
def modify (f : σ → σ) : Proc ε σ Unit := fun s => (.ok (), f s)

/-- A value, or a reason to stop, that is already computed. -/
def lift : Except ε α → Proc ε σ α
  | .ok a => pure a
  | .error e => stop e

/-- Run a program on a part of the state. -/
def zoom (view : σ → τ) (put : τ → σ → σ) (p : Proc ε τ α) : Proc ε σ α := fun s =>
  ((p (view s)).1, put (p (view s)).2 s)

@[ext] theorem ext {p q : Proc ε σ α} (h : ∀ s, p.run s = q.run s) : p = q := funext h

@[simp] theorem run_pure (a : α) (s : σ) : (pure a : Proc ε σ α).run s = (.ok a, s) := rfl

@[simp] theorem run_stop (e : ε) (s : σ) : (stop e : Proc ε σ α).run s = (.error e, s) := rfl

@[simp] theorem run_get (s : σ) : (get : Proc ε σ σ).run s = (.ok s, s) := rfl

@[simp] theorem run_modify (f : σ → σ) (s : σ) :
    (modify f : Proc ε σ Unit).run s = (.ok (), f s) := rfl

@[simp] theorem run_zoom (view : σ → τ) (put : τ → σ → σ) (p : Proc ε τ α) (s : σ) :
    (zoom view put p).run s = ((p.run (view s)).1, put (p.run (view s)).2 s) := rfl

theorem run_bind (p : Proc ε σ α) (f : α → Proc ε σ β) (s : σ) :
    (p >>= f).run s = match p.run s with
      | (.ok a, s') => (f a).run s'
      | (.error e, s') => (.error e, s') := rfl

theorem run_bind_ok {p : Proc ε σ α} {s s' : σ} {a : α} (h : p.run s = (.ok a, s'))
    (f : α → Proc ε σ β) : (p >>= f).run s = (f a).run s' := by
  rw [run_bind, h]

theorem run_bind_error {p : Proc ε σ α} {s s' : σ} {e : ε} (h : p.run s = (.error e, s'))
    (f : α → Proc ε σ β) : (p >>= f).run s = (.error e, s') := by
  rw [run_bind, h]

theorem run_bind_pure (p : Proc ε σ α) (f : α → β) (s : σ) :
    (p >>= fun a => pure (f a)).run s = ((p.run s).1.map f, (p.run s).2) := by
  rw [run_bind]
  rcases p.run s with ⟨_ | a, s'⟩ <;> rfl

/-- A sequence that ends has run its first part to an end. -/
theorem of_run_bind_ok {p : Proc ε σ α} {f : α → Proc ε σ β} {s s'' : σ} {b : β}
    (h : (p >>= f).run s = (.ok b, s'')) :
    ∃ a s', p.run s = (.ok a, s') ∧ (f a).run s' = (.ok b, s'') := by
  rw [run_bind] at h
  rcases hp : p.run s with ⟨_ | a, s'⟩
  · rw [hp] at h; simp at h
  · rw [hp] at h; exact ⟨a, s', rfl, h⟩

theorem run_bind_ok_iff {p : Proc ε σ α} {f : α → Proc ε σ β} {s s'' : σ} {b : β} :
    (p >>= f).run s = (.ok b, s'') ↔
      ∃ a s', p.run s = (.ok a, s') ∧ (f a).run s' = (.ok b, s'') := by
  refine ⟨of_run_bind_ok, ?_⟩
  rintro ⟨a, s', hp, hf⟩
  rw [run_bind_ok hp, hf]

theorem bind_pure_eq (p : Proc ε σ α) : (p >>= pure) = p := by
  ext s : 1
  rw [run_bind]
  rcases p.run s with ⟨_ | a, s'⟩ <;> rfl

theorem bind_bind_eq (p : Proc ε σ α) (f : α → Proc ε σ β) (g : β → Proc ε σ γ) :
    ((p >>= f) >>= g) = p >>= fun a => f a >>= g := by
  ext s : 1
  simp only [run_bind]
  rcases p.run s with ⟨_ | a, s'⟩ <;> rfl

instance : LawfulMonad (Proc ε σ) :=
  LawfulMonad.mk' _ bind_pure_eq (fun _ _ => rfl) bind_bind_eq

/-! ### Pre- and postconditions -/

/-- From every state that satisfies `P` the program ends in `Q` or stops in `E`. -/
def Spec (P : σ → Prop) (p : Proc ε σ α) (Q : α → σ → Prop) (E : ε → σ → Prop) : Prop :=
  ∀ s, P s → match p.run s with
    | (.ok a, s') => Q a s'
    | (.error e, s') => E e s'

variable {P : σ → Prop} {Q : α → σ → Prop} {R : β → σ → Prop} {E : ε → σ → Prop}

theorem Spec.pure {a : α} (h : ∀ s, P s → Q a s) : Spec P (pure a : Proc ε σ α) Q E := h

theorem Spec.stop {e : ε} (h : ∀ s, P s → E e s) : Spec P (stop e : Proc ε σ α) Q E := h

theorem Spec.bind {p : Proc ε σ α} {f : α → Proc ε σ β} (hp : Spec P p Q E)
    (hf : ∀ a, Spec (Q a) (f a) R E) : Spec P (p >>= f) R E := by
  intro s hs
  have h := hp s hs
  rw [run_bind]
  rcases hr : p.run s with ⟨_ | a, s'⟩
  · rw [hr] at h; exact h
  · rw [hr] at h; exact hf a s' h

/-- Consequence. -/
theorem Spec.mono {P' : σ → Prop} {Q' : α → σ → Prop} {E' : ε → σ → Prop} {p : Proc ε σ α}
    (h : Spec P p Q E) (hP : ∀ s, P' s → P s) (hQ : ∀ a s, Q a s → Q' a s)
    (hE : ∀ e s, E e s → E' e s) : Spec P' p Q' E' := by
  intro s hs
  have h' := h s (hP s hs)
  rcases hr : p.run s with ⟨e | a, s'⟩ <;> rw [hr] at h'
  · exact hE e s' h'
  · exact hQ a s' h'

theorem Spec.ite {c : Prop} [Decidable c] {p q : Proc ε σ α} (hp : c → Spec P p Q E)
    (hq : ¬ c → Spec P q Q E) : Spec P (if c then p else q) Q E := by
  split_ifs with h
  · exact hp h
  · exact hq h

/-! ### Loops -/

/-- Repeat `body`: `inl c` goes on with `c`, `inr b` leaves the loop with `b`. After `n` rounds the
loop stops for the reason `outOfRounds`. -/
def loop (outOfRounds : ε) (body : γ → Proc ε σ (γ ⊕ β)) : ℕ → γ → Proc ε σ β
  | 0, _ => stop outOfRounds
  | n + 1, c => do
    match ← body c with
    | .inl c' => loop outOfRounds body n c'
    | .inr b => pure b

variable {o : ε} {body : γ → Proc ε σ (γ ⊕ β)}

theorem loop_again {n : ℕ} {c c' : γ} {s s' : σ} (h : (body c).run s = (.ok (.inl c'), s')) :
    (loop o body (n + 1) c).run s = (loop o body n c').run s' :=
  run_bind_ok h _

theorem loop_break {n : ℕ} {c : γ} {b : β} {s s' : σ} (h : (body c).run s = (.ok (.inr b), s')) :
    (loop o body (n + 1) c).run s = (.ok b, s') :=
  run_bind_ok h _

theorem loop_stop {n : ℕ} {c : γ} {e : ε} {s s' : σ} (h : (body c).run s = (.error e, s')) :
    (loop o body (n + 1) c).run s = (.error e, s') :=
  run_bind_error h _

/-- **A property of programs that sequencing keeps.** What the operations of a program have, the program
has. -/
structure Closed (P : (α : Type) → Proc ε σ α → Prop) : Prop where
  pure : ∀ {α : Type} (a : α), P α (pure a)
  stop : ∀ {α : Type} (e : ε), P α (stop e)
  bind : ∀ {α β : Type} {p : Proc ε σ α} {f : α → Proc ε σ β},
    P α p → (∀ a, P β (f a)) → P β (p >>= f)

namespace Closed

variable {P : (α : Type) → Proc ε σ α → Prop}

theorem ite (_ : Closed P) {c : Prop} [Decidable c] {p q : Proc ε σ α} (hp : P α p) (hq : P α q) :
    P α (if c then p else q) := by
  split_ifs
  · exact hp
  · exact hq

theorem loop (C : Closed P) (hb : ∀ c, P _ (body c)) : ∀ (n : ℕ) (c : γ), P β (loop o body n c)
  | 0, _ => C.stop _
  | n + 1, c => by
    refine C.bind (hb c) fun r => ?_
    rcases r with c' | b
    · exact loop C hb n c'
    · exact C.pure b

end Closed

/-- What holds before a program holds after it, also if it stops. -/
def Keeps (I : σ → Prop) (p : Proc ε σ α) : Prop := ∀ s, I s → I (p.run s).2

section Keeps
variable {I : σ → Prop}

theorem Spec.of_final {p : Proc ε σ α} (h : ∀ s, P s → I (p.run s).2) :
    Spec P p (fun _ => I) (fun _ => I) := by
  intro s hs
  have hI := h s hs
  rcases hrun : p.run s with ⟨e | a, s'⟩ <;> rwa [hrun] at hI

theorem Keeps.spec {p : Proc ε σ α} (h : Keeps I p) : Spec I p (fun _ => I) (fun _ => I) :=
  .of_final h

/-- What holds whether the program ends or stops. -/
theorem Spec.final {p : Proc ε σ α} (h : Spec P p (fun _ => I) (fun _ => I)) {s : σ} (hs : P s) :
    I (p.run s).2 := by
  have := h s hs
  rcases hr : p.run s with ⟨e | a, s'⟩ <;> rw [hr] at this <;> exact this

theorem Spec.keeps {p : Proc ε σ α} (h : Spec I p (fun _ => I) (fun _ => I)) : Keeps I p :=
  fun _ hs => h.final hs

theorem Keeps.pure (a : α) : Keeps I (pure a : Proc ε σ α) := fun _ hs => hs

theorem Keeps.stop (e : ε) : Keeps I (stop e : Proc ε σ α) := fun _ hs => hs

theorem Keeps.get : Keeps I (get : Proc ε σ σ) := fun _ hs => hs

theorem Keeps.bind {p : Proc ε σ α} {f : α → Proc ε σ β} (hp : Keeps I p)
    (hf : ∀ a, Keeps I (f a)) : Keeps I (p >>= f) :=
  (Spec.bind hp.spec fun a => (hf a).spec).keeps

/-- What holds behind a program's first part holds behind the program. -/
theorem Keeps.bind_after {p : Proc ε σ α} {f : α → Proc ε σ β} {s : σ} (hp : I (p.run s).2)
    (hf : ∀ a, Keeps I (f a)) : I ((p >>= f).run s).2 := by
  rw [run_bind]
  rcases hr : p.run s with ⟨_ | a, s'⟩
  · rw [hr] at hp; exact hp
  · rw [hr] at hp; exact hf a s' hp

theorem Keeps.closed (I : σ → Prop) : Closed fun (α : Type) (p : Proc ε σ α) => Keeps I p :=
  ⟨.pure, .stop, .bind⟩

theorem Keeps.ite {c : Prop} [Decidable c] {p q : Proc ε σ α} (hp : Keeps I p) (hq : Keeps I q) :
    Keeps I (if c then p else q) := (Keeps.closed I).ite hp hq

theorem Keeps.loop {n : ℕ} {c : γ} (hb : ∀ c, Keeps I (body c)) : Keeps I (loop o body n c) :=
  (Keeps.closed I).loop hb n c

end Keeps

/-- One round that goes on. -/
def Again (body : γ → Proc ε σ (γ ⊕ β)) (x y : γ × σ) : Prop :=
  (body x.1).run x.2 = (.ok (.inl y.1), y.2)

/-- The loop heads that a loop can come back to. -/
def Heads (body : γ → Proc ε σ (γ ⊕ β)) : γ × σ → γ × σ → Prop :=
  Relation.ReflTransGen (Again body)

/-- **The invariant of the loop heads.** -/
theorem Heads.invariant {I : γ → σ → Prop}
    (hI : ∀ c s c' s', I c s → (body c).run s = (.ok (.inl c'), s') → I c' s') {x y : γ × σ}
    (h : Heads body x y) (hx : I x.1 x.2) : I y.1 y.2 := by
  induction h with
  | refl => exact hx
  | tail _ hstep ih => exact hI _ _ _ _ ih hstep

/-- Every run of a loop ends in a last round from some head, or has used up its rounds there. -/
theorem exists_head (o : ε) (body : γ → Proc ε σ (γ ⊕ β)) (n : ℕ) (c : γ) (s : σ) :
    ∃ c' s', Heads body (c, s) (c', s') ∧
      ((loop o body n c).run s = (.error o, s') ∨
        (∃ b s'', (body c').run s' = (.ok (.inr b), s'') ∧
          (loop o body n c).run s = (.ok b, s'')) ∨
        ∃ e s'', (body c').run s' = (.error e, s'') ∧
          (loop o body n c).run s = (.error e, s'')) := by
  induction n generalizing c s with
  | zero => exact ⟨c, s, .refl, Or.inl rfl⟩
  | succ n ih =>
    rcases hr : (body c).run s with ⟨e | c1 | b, s1⟩
    · exact ⟨c, s, .refl, Or.inr (Or.inr ⟨e, s1, hr, loop_stop hr⟩)⟩
    · obtain ⟨c', s', hh, h⟩ := ih c1 s1
      refine ⟨c', s', .head (show Again body (c, s) (c1, s1) from hr) hh, ?_⟩
      rw [loop_again hr]; exact h
    · exact ⟨c, s, .refl, Or.inr (Or.inl ⟨b, s1, hr, loop_break hr⟩)⟩

/-! ### Successive calls -/

/-- The results of `n` successive runs; a run that stops does not keep the next from starting. -/
def results (p : Proc ε σ α) : ℕ → σ → List (Except ε α)
  | 0, _ => []
  | n + 1, s => (p.run s).1 :: results p n (p.run s).2

/-- The state after `n` successive runs. -/
def after (p : Proc ε σ α) : ℕ → σ → σ
  | 0, s => s
  | n + 1, s => after p n (p.run s).2

end Proc

end Haentgl.Lib.Program
