import Haentgl.Lib.Program

/-! # One program at two levels

A program over the states `σ`, and the same program over the states `τ` of a simpler level. `Simulates`
says that from related states the two come to the same result and to related states, as long as the
simpler one stays within `G`. What is outside of `G` must stay there, so the end of a run answers for all
of it (`Simulates.bind`). -/

namespace Haentgl.Lib.Simulation

open Haentgl.Lib.Program
open Haentgl.Lib.Program.Proc (Keeps)

variable {ε σ τ σ' τ' α β γ δ : Type}

structure Simulates (R : σ → τ → Prop) (G : τ → Prop) (p : Proc ε σ α) (q : Proc ε τ α) : Prop where
  same : ∀ {s t}, R s t → G (q.run t).2 → (p.run s).1 = (q.run t).1 ∧ R (p.run s).2 (q.run t).2
  stays : Keeps (fun t => ¬ G t) q

namespace Simulates

variable {R : σ → τ → Prop} {G : τ → Prop}

/-- A run that ends within `G` has begun there. -/
theorem within {p : Proc ε σ α} {q : Proc ε τ α} (h : Simulates R G p q) {t : τ}
    (hG : G (q.run t).2) : G t := by
  by_contra ht
  exact h.stays t ht hG

theorem pure (a : α) : Simulates R G (pure a : Proc ε σ α) (pure a) :=
  ⟨fun hR _ => ⟨rfl, hR⟩, .pure a⟩

theorem stop (e : ε) : Simulates R G (Proc.stop e : Proc ε σ α) (Proc.stop e) :=
  ⟨fun hR _ => ⟨rfl, hR⟩, .stop e⟩

theorem bind {p : Proc ε σ α} {q : Proc ε τ α} {f : α → Proc ε σ β} {g : α → Proc ε τ β}
    (h : Simulates R G p q) (hf : ∀ a, Simulates R G (f a) (g a)) :
    Simulates R G (p >>= f) (q >>= g) := by
  refine ⟨fun {s t} hR hG => ?_, h.stays.bind fun a => (hf a).stays⟩
  have hsame := @h.same s t hR
  rw [Proc.run_bind] at hG ⊢
  rw [Proc.run_bind]
  rcases hp : p.run s with ⟨r, s'⟩
  rcases hq : q.run t with ⟨r', t'⟩
  rw [hp, hq] at hsame
  rw [hq] at hG
  rcases r' with e | a
  · obtain ⟨he, hR'⟩ := hsame hG
    obtain rfl : r = .error e := he
    exact ⟨rfl, hR'⟩
  · obtain ⟨ha, hR'⟩ := hsame ((hf a).within hG)
    obtain rfl : r = .ok a := ha
    exact (hf a).same hR' hG

theorem ite {c : Prop} [Decidable c] {p p' : Proc ε σ α} {q q' : Proc ε τ α}
    (h : Simulates R G p q) (h' : Simulates R G p' q') :
    Simulates R G (if c then p else p') (if c then q else q') := by
  split_ifs
  · exact h
  · exact h'

theorem loop {o : ε} {f : γ → Proc ε σ (γ ⊕ β)} {g : γ → Proc ε τ (γ ⊕ β)}
    (h : ∀ c, Simulates R G (f c) (g c)) :
    ∀ (n : ℕ) (c : γ), Simulates R G (Proc.loop o f n c) (Proc.loop o g n c)
  | 0, _ => stop o
  | n + 1, c => by
    refine bind (h c) fun r => ?_
    rcases r with c' | b
    · exact loop h n c'
    · exact pure b

/-- A part of the state that the two levels have in common. -/
theorem bind_get {v : σ → δ} {w : τ → δ} (hv : ∀ {s t}, R s t → v s = w t) {f : δ → Proc ε σ β}
    {g : δ → Proc ε τ β} (h : ∀ d, Simulates R G (f d) (g d)) :
    Simulates R G (Proc.get >>= fun s => f (v s)) (Proc.get >>= fun t => g (w t)) := by
  refine ⟨fun {s t} hR hG => ?_, Keeps.get.bind fun t => (h (w t)).stays⟩
  rw [Proc.run_bind_ok (Proc.run_get t)] at hG ⊢
  rw [Proc.run_bind_ok (Proc.run_get s), hv hR]
  exact (h (w t)).same hR hG

theorem modify {f : σ → σ} {g : τ → τ} (hR : ∀ {s t}, R s t → R (f s) (g t))
    (hG : ∀ {t}, G (g t) → G t) : Simulates R G (Proc.modify f : Proc ε σ Unit) (Proc.modify g) :=
  ⟨fun h _ => ⟨rfl, hR h⟩, fun _ ht h => ht (hG h)⟩

/-- On a part of the state. -/
theorem zoom {R' : σ' → τ' → Prop} {v : σ' → σ} {put : σ → σ' → σ'} {w : τ' → τ} {put' : τ → τ' → τ'}
    {p : Proc ε σ α} {q : Proc ε τ α} (h : Simulates R G p q) (hv : ∀ {s t}, R' s t → R (v s) (w t))
    (hput : ∀ {s t a b}, R' s t → R a b → R' (put a s) (put' b t)) (hw : ∀ b t, w (put' b t) = b) :
    Simulates R' (fun t => G (w t)) (Proc.zoom v put p) (Proc.zoom w put' q) := by
  refine ⟨fun {s t} hR hG => ?_, fun t ht hG => ?_⟩
  · rw [Proc.run_zoom, hw] at hG
    obtain ⟨hr, hR'⟩ := h.same (hv hR) hG
    exact ⟨hr, hput hR hR'⟩
  · rw [Proc.run_zoom, hw] at hG
    exact ht (h.within hG)

end Simulates

end Haentgl.Lib.Simulation
