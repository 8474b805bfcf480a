import Haentgl.Protocol.ReadErrors

/-! # `next_async` on a socket

A socket hands its bytes over in pieces of any length. Behind them it is at its end, or a read fails or
waits, and so does every further one. What a call of `next_async` returns depends on the bytes alone and
on what is behind them, not on the pieces (`run_nextAsync_socket`). -/

namespace Haentgl.Protocol.Sockets

open Haentgl.Lib.Parse Haentgl.Lib.Program Haentgl.Protocol.Constants Haentgl.Protocol.Io
open Haentgl.Protocol.Packets Haentgl.Protocol.Reader Haentgl.Protocol.ReadErrors

/-- The bytes, and what a read behind them does if it does not find the end. -/
structure Socket where
  source : Source
  last : Option Stop

namespace Socket

def new (stream : Bytes) (last : Option Stop) (cut : ℕ → ℕ) : Socket := ⟨.new stream cut, last⟩

/-- More bytes, and what is behind them. -/
def extend (k : Socket) (i : Bytes) (last : Option Stop) : Socket :=
  ⟨{ k.source with stream := k.source.stream ++ i }, last⟩

def asyncRead : AsyncRead Socket where
  read n := do
    let k ← Proc.get
    match k.source.stream, k.last with
    | [], some e => Proc.stop e
    | _, _ => Proc.zoom Socket.source (fun t k => { k with source := t }) (Source.asyncRead.read n)

variable {k : Socket} {n : ℕ}

theorem run_read (h : k.source.stream ≠ [] ∨ k.last = none) : (asyncRead.read n).run k =
    (.ok (k.source.stream.take (k.source.len n)), { k with source := k.source.next n }) := by
  obtain ⟨⟨stream, cut, turn, offered⟩, last⟩ := k
  rw [asyncRead, Proc.run_bind_ok (Proc.run_get _)]
  rcases stream with _ | ⟨x, xs⟩
  · obtain rfl : last = none := h.resolve_left (not_not_intro rfl)
    rfl
  · rfl

theorem run_read_stop {e : Stop} (hs : k.source.stream = []) (hl : k.last = some e) :
    (asyncRead.read n).run k = (.error e, k) := by
  rw [asyncRead, Proc.run_bind_ok (Proc.run_get _), hs, hl]
  rfl

end Socket

/-- What a reader and its socket still hold. -/
def Holds (x : PacketReader × Socket) (i : Bytes) : Prop :=
  ∃ u, IdleRead x.1 u ∧ u ++ x.2.source.stream = i

theorem holds_new (stream : Bytes) (last : Option Stop) (cut : ℕ → ℕ) :
    Holds (.new, .new stream last cut) stream :=
  ⟨[], ⟨rfl, List.nil_suffix⟩, rfl⟩

theorem Holds.extend {pr : PacketReader} {k : Socket} {i : Bytes} (h : Holds (pr, k) i) (j : Bytes)
    (last : Option Stop) : Holds (pr, k.extend j last) (i ++ j) := by
  obtain ⟨u, hu, rfl⟩ := h
  exact ⟨u, hu, (List.append_assoc _ _ _).symm⟩

/-- What a call returns on the bytes `i`. -/
def outcome (b : Profile) (last : Option Stop) (i : Bytes) : Except Stop (Option (UInt8 × Packet)) :=
  match packet b i, last with
  | .ok (_, m), _ => .ok (some m)
  | .error _, none => ending i
  | .error _, some e => .error e

theorem outcome_ok {b : Profile} {last : Option Stop} {i rest : Bytes} {m : UInt8 × Packet}
    (h : packet b i = .ok (rest, m)) : outcome b last i = .ok (some m) := by
  unfold outcome
  rw [h]

theorem outcome_none {b : Profile} {i : Bytes} {e : Failure} (h : packet b i = .error e) :
    outcome b none i = ending i := by
  unfold outcome
  rw [h]

theorem outcome_some {b : Profile} {e : Stop} {i : Bytes} {x : Failure} (h : packet b i = .error x) :
    outcome b (some e) i = .error e := by
  unfold outcome
  rw [h]

/-- What stands behind the last message: nothing, or a part of a message that the end of the socket cuts
off. -/
def Clean (b : Profile) (last : Option Stop) (i : Bytes) : Prop :=
  packet b i = .error (.err .backtrack) → last = none ∨ i = []

section Rounds
variable {b : Profile} {c : ℕ} {pr : PacketReader} {u : Bytes} {k : Socket}

/-- A round with a message in the buffer. -/
theorem round_found {rest : Bytes} {m : UInt8 × Packet} (h : HeadPadded c pr u)
    (hu : packet b u = .ok (rest, m)) : ∃ pr',
      (roundAsync b Socket.asyncRead c).run (pr, k) = (.ok (.inr (some m)), (pr', k)) ∧ IdleRead pr' rest := by
  obtain ⟨pr', hrun, hidle⟩ := parseAsync_found k h.head hu
  refine ⟨pr', ?_, idleRead_async hidle.async⟩
  rw [roundAsync, Proc.run_bind_ok hrun]
  rfl

/-- A round that reads some bytes. -/
theorem round_more (h : HeadPadded c pr u) (hu : packet b u = .error (.err .backtrack))
    (hs : k.source.stream ≠ []) : ∃ n pr' c', 0 < n ∧
      (roundAsync b Socket.asyncRead c).run (pr, k) =
        (.ok (.inl c'), (pr', { k with source := k.source.next n })) ∧
      HeadPadded c' pr' (u ++ k.source.stream.take (k.source.len n)) := by
  obtain ⟨n, hn, hok, -⟩ := run_fillAsync_padded Socket.asyncRead h k
  have hread := hok _ _ (Socket.run_read (.inl hs))
  rw [length_take_len] at hread
  have hlen : k.source.len n ≠ 0 := (Source.len_pos hn hs).ne'
  refine ⟨n, ⟨u ++ k.source.stream.take (k.source.len n) ++
      List.replicate (n - k.source.len n) 0, 0, u.length + k.source.len n⟩,
    packetLargeBufferSize, hn, ?_, ⟨by decide, ?_, Nat.zero_le _, List.prefix_append _ _⟩, _, rfl⟩
  · rw [roundAsync, Proc.run_bind_ok (parseAsync_more k h.head hu)]
    simp only
    rw [Proc.run_bind_ok hread, if_neg hlen]
    rfl
  · rw [List.length_append, length_take_len]

/-- A round at the end of the socket. -/
theorem round_end (h : HeadPadded c pr u) (hu : packet b u = .error (.err .backtrack))
    (hs : k.source.stream = []) (hl : k.last = none) : ∃ n pr',
      (roundAsync b Socket.asyncRead c).run (pr, k) =
        ((ending u).map .inr, (pr', { k with source := k.source.next n })) ∧ IdleRead pr' u := by
  obtain ⟨n, -, hok, -⟩ := run_fillAsync_padded Socket.asyncRead h k
  have hread := hok _ _ (Socket.run_read (.inr hl))
  rw [hs, List.take_nil, List.append_nil] at hread
  refine ⟨n, ⟨u, 0, u.length⟩, ?_, rfl, List.suffix_rfl⟩
  rw [roundAsync, Proc.run_bind_ok (parseAsync_more k h.head hu)]
  simp only
  rw [Proc.run_bind_ok hread, List.length_nil, if_pos rfl, Proc.run_bind_ok (run_update _ _),
    Proc.run_bind_pure, run_atEnd]
  simp

/-- A round whose read fails or waits, with nothing in the buffer. -/
theorem round_stop {e : Stop} (h : HeadPadded c pr []) (hs : k.source.stream = []) (hl : k.last = some e) :
    ∃ pr', (roundAsync b Socket.asyncRead c).run (pr, k) = (.error e, (pr', k)) ∧ IdleRead pr' [] := by
  obtain ⟨n, -, -, herr⟩ := run_fillAsync_padded Socket.asyncRead h k
  refine ⟨⟨[] ++ List.replicate n 0, 0, 0⟩, ?_, rfl, List.nil_suffix⟩
  rw [roundAsync, Proc.run_bind_ok (parseAsync_more k h.head (packet_nil b))]
  simp only
  rw [Proc.run_bind_error (herr _ _ (Socket.run_read_stop hs hl))]
  rfl

/-- The rounds of a call, by induction on their number: every round that goes on has read something. -/
theorem run_rounds : ∀ (rounds c : ℕ) (pr : PacketReader) (u : Bytes) (k : Socket), HeadPadded c pr u →
    k.source.stream.length < rounds → packet b (u ++ k.source.stream) ≠ .error .panic →
    Clean b k.last (u ++ k.source.stream) →
    ∃ x, (Proc.loop .outOfRounds (roundAsync b Socket.asyncRead) rounds c).run (pr, k) =
        (outcome b k.last (u ++ k.source.stream), x) ∧
      Holds x (result b (u ++ k.source.stream)).2 ∧ x.2.last = k.last
  | 0, _, _, _, _, _, hr, _, _ => by omega
  | rounds + 1, c, pr, u, k, hh, hr, hp, hclean => by
    rcases hu : packet b u with e | ⟨rest, m⟩
    · rcases packet_eq_error hu with rfl | rfl
      · exact absurd (packet_panic_append hu k.source.stream) hp
      rcases eq_or_ne k.source.stream [] with hs | hs
      · rw [hs, List.append_nil] at hclean ⊢
        have hrest : (result b u).2 = u := by rw [result, hu]
        rw [hrest]
        rcases hl : k.last with _ | e
        · rw [outcome_none hu]
          obtain ⟨n, pr', hrun, hidle⟩ := round_end hh hu hs hl
          refine ⟨(pr', { k with source := k.source.next n }), ?_, ⟨u, hidle, ?_⟩, hl⟩
          · rw [ending] at hrun ⊢
            split_ifs at hrun ⊢
            · exact Proc.loop_break hrun
            · exact Proc.loop_stop hrun
          · simp [Source.next, hs]
        · obtain rfl : u = [] := (hclean hu).resolve_left (by rw [hl]; simp)
          rw [outcome_some hu]
          obtain ⟨pr', hrun, hidle⟩ := @round_stop b c pr k e hh hs hl
          exact ⟨(pr', k), Proc.loop_stop hrun, ⟨[], hidle, by rw [hs]; rfl⟩, hl⟩
      · obtain ⟨n, pr', c', hn, hrun, hhead⟩ := round_more hh hu hs
        have hlt := length_stream_next hn hs
        have happ := append_stream_next u k.source n
        obtain ⟨x, h1, h2, h3⟩ := run_rounds rounds c' pr' _ { k with source := k.source.next n } hhead
          (by simpa using by omega) (by rw [happ]; exact hp) (by rw [happ]; exact hclean)
        rw [happ] at h1 h2
        exact ⟨x, by rw [Proc.loop_again hrun, h1], h2, h3⟩
    · obtain ⟨pr', hrun, hidle⟩ := @round_found b c pr u k rest m hh hu
      have hall := stable_packet b _ _ _ k.source.stream hu
      refine ⟨(pr', k), ?_, ?_, rfl⟩
      · rw [outcome_ok hall]
        exact Proc.loop_break hrun
      · rw [result, hall]
        exact ⟨rest, hidle, rfl⟩

end Rounds

/-- **One call of `next_async`** on a socket, in as many rounds as there are bytes and one. -/
theorem run_nextAsync_socket {b : Profile} {x : PacketReader × Socket} {i : Bytes} (hx : Holds x i)
    (hp : packet b i ≠ .error .panic) (hclean : Clean b x.2.last i) :
    ∃ x', (nextAsync b Socket.asyncRead (x.2.source.stream.length + 1)).run x =
        (outcome b x.2.last i, x') ∧ Holds x' (result b i).2 ∧ x'.2.last = x.2.last := by
  obtain ⟨pr, k⟩ := x
  obtain ⟨u, hu, rfl⟩ := hx
  obtain ⟨pr1, hstart, hhead⟩ := enter_padded k hu
  obtain ⟨x', hrun, hx', hlast⟩ := run_rounds _ _ pr1 u k hhead (Nat.lt_succ_self _) hp hclean
  exact ⟨x', by rw [nextAsync, Proc.run_bind_ok hstart, hrun], hx', hlast⟩

end Haentgl.Protocol.Sockets
