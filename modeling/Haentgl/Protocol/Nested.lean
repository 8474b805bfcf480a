import Haentgl.Protocol.Reader

/-! # A reader inside a reader

A `PacketReader` is itself an `AsyncRead`: the bytes it has read ahead come first, then those of its own
stream. It hands them over in one piece, whatever the free capacity of the destination.
`pollRead_exact_iff` says when that is enough. -/

namespace Haentgl.Protocol.Nested

open Haentgl.Lib.Parse Haentgl.Lib.Program Haentgl.Protocol.Constants Haentgl.Protocol.Io
open Haentgl.Protocol.Packets Haentgl.Protocol.Reader

section Model
variable {ρ : Type} (r : AsyncRead ρ)

/-- `buf.put_slice(data)`, which panics if the bytes do not fit. -/
def putSlice (capacity : ℕ) (data : Bytes) : Proc Stop (PacketReader × ρ) Bytes :=
  if data.length ≤ capacity then pure data else Proc.stop .panic

/-- `poll_read` into a buffer with the given free capacity; what was put into it. -/
def pollRead (capacity : ℕ) : Proc Stop (PacketReader × ρ) Bytes := do
  let (s, _) ← Proc.get
  if s.remaining ≠ 0 then
    let data ← orPanic (sliceFrom s.bytes s.start)
    let data ← putSlice capacity data
    update fun _ => ⟨[], 0, 0⟩
    return data
  else onStream (r.read capacity)

/-- A reader as the stream of another one. -/
def asyncRead : AsyncRead (PacketReader × ρ) := ⟨pollRead r⟩

/-- Successive polls; all bytes that were put into their buffers. -/
def polls : List ℕ → Proc Stop (PacketReader × ρ) Bytes
  | [] => pure []
  | k :: ks => do
    let x ← pollRead r k
    let xs ← polls ks
    return x ++ xs

end Model

/-! ### Polls -/

/-- Nothing is buffered: the stream is read. -/
theorem run_pollRead_empty {pr : PacketReader} (h : pr.remaining = 0) (src : Source) (k : ℕ) :
    (pollRead Source.asyncRead k).run (pr, src) = (.ok (src.stream.take (src.len k)), (pr, src.next k)) := by
  rw [pollRead, Proc.run_bind_ok (Proc.run_get _)]
  simp only [h, ne_eq, not_true_eq_false, if_false]
  rfl

/-- What is buffered is handed over as a whole, if it fits. -/
theorem run_pollRead_buffered {ρ : Type} (r : AsyncRead ρ) {pr : PacketReader} {u : Bytes}
    (h : IdleAtStart pr u) (hu : u ≠ []) (src : ρ) (k : ℕ) : (pollRead r k).run (pr, src) =
      if u.length ≤ k then (.ok u, (⟨[], 0, 0⟩, src)) else (.error .panic, (pr, src)) := by
  obtain ⟨hrem, hbytes⟩ := h
  obtain ⟨hbytes, hstart⟩ := hbytes hu
  have hne : u.length ≠ 0 := by simpa using hu
  rw [pollRead, Proc.run_bind_ok (Proc.run_get _)]
  simp only [hrem, hne, ne_eq, not_false_eq_true, if_true, sliceFrom, hbytes, hstart, Nat.zero_le,
    List.drop_zero, orPanic, pure_bind, putSlice]
  split_ifs <;> rfl

/-- Polls with nothing buffered take the stream in order, and all of it if there are enough of them. -/
theorem run_polls_empty {pr : PacketReader} (h : pr.remaining = 0) : ∀ (ks : List ℕ) (src : Source),
    (∀ k ∈ ks, 0 < k) → ∃ got src', (polls Source.asyncRead ks).run (pr, src) = (.ok got, (pr, src')) ∧
      got ++ src'.stream = src.stream ∧ (src.stream.length ≤ ks.length → src'.stream = [])
  | [], src, _ => ⟨[], src, rfl, rfl, fun hl => List.length_eq_zero_iff.mp (by simpa using hl)⟩
  | k :: ks, src, hks => by
    obtain ⟨got, src', hrun, happ, hall⟩ :=
      run_polls_empty h ks (src.next k) fun x hx => hks x (by simp [hx])
    refine ⟨src.stream.take (src.len k) ++ got, src', ?_, ?_, fun hl => hall ?_⟩
    · rw [polls, Proc.run_bind_ok (run_pollRead_empty h src k), Proc.run_bind_ok hrun]
      rfl
    · rw [List.append_assoc, happ, Source.next, List.take_append_drop]
    · rcases eq_or_ne src.stream [] with hs | hs
      · simp [Source.next, hs]
      · have hlt := length_stream_next (hks k (by simp)) hs
        rw [List.length_cons] at hl
        omega

theorem buffered_atStart {pr : PacketReader} {u : Bytes} (h : IdleAtStart pr u) : buffered pr = u := by
  obtain ⟨hrem, hbytes⟩ := h
  rw [buffered, hrem]
  rcases eq_or_ne u [] with rfl | hu
  · simp
  · simp [(hbytes hu).1]

/-- What polls with free capacities `ks` must do from `x` on, if the bytes `i` have not been returned: they
do not panic, get a part of these bytes and leave the others, and get them all if there are enough polls. -/
def Exact (ks : List ℕ) (i : Bytes) (x : PacketReader × Source) : Prop :=
  ∃ got x', (polls Source.asyncRead ks).run x = (.ok got, x') ∧ got ++ (buffered x'.1 ++ x'.2.stream) = i ∧
    (i.length < ks.length → got = i)

theorem exact_iff {pr : PacketReader} {u : Bytes} (h : IdleAtStart pr u) (src : Source) {ks : List ℕ}
    (hks : ∀ k ∈ ks, 0 < k) :
    Exact ks (u ++ src.stream) (pr, src) ↔ ∀ k ∈ ks.head?, u.length ≤ k := by
  rcases eq_or_ne u [] with rfl | hu
  · -- only the stream is read
    obtain ⟨got, src', hrun, happ, hall⟩ := run_polls_empty h.1 ks src hks
    refine ⟨fun _ _ _ => Nat.zero_le _, fun _ => ⟨got, _, hrun, ?_, fun hlt => ?_⟩⟩
    · rw [buffered_atStart h, List.nil_append, List.nil_append, happ]
    · rw [List.nil_append] at hlt
      rw [hall hlt.le, List.append_nil] at happ
      exact happ
  rcases ks with _ | ⟨k, ks⟩
  · refine ⟨fun _ k hk => (Option.not_mem_none k hk).elim, fun _ => ⟨[], (pr, src), rfl, ?_, ?_⟩⟩
    · rw [buffered_atStart h, List.nil_append]
    · exact fun hlt => absurd hlt (Nat.not_lt_zero _)
  have hfirst := run_pollRead_buffered Source.asyncRead h hu src k
  by_cases hk : u.length ≤ k
  · rw [if_pos hk] at hfirst
    have hempty : (⟨[], 0, 0⟩ : PacketReader).remaining = 0 := rfl
    obtain ⟨got, src', hrun, happ, hall⟩ :=
      run_polls_empty hempty ks src fun x hx => hks x (by simp [hx])
    refine ⟨fun _ x hx => ?_, fun _ => ⟨u ++ got, (⟨[], 0, 0⟩, src'), ?_, ?_, fun hlt => ?_⟩⟩
    · rwa [← Option.some.inj hx]
    · rw [polls, Proc.run_bind_ok hfirst, Proc.run_bind_ok hrun]
      rfl
    · rw [List.append_assoc]
      exact congrArg (u ++ ·) happ
    · rw [List.length_append, List.length_cons] at hlt
      rw [hall (by omega), List.append_nil] at happ
      rw [happ]
  · rw [if_neg hk] at hfirst
    refine ⟨?_, fun hall => absurd (hall k rfl) hk⟩
    rintro ⟨got, x', hrun, -⟩
    rw [polls, Proc.run_bind_error hfirst] at hrun
    cases hrun

/-- **Nested readers**: after calls that succeed the polls of a reader are exact if and only if there are
none, or what it has buffered fits into the first buffer. -/
theorem pollRead_exact_iff (b : Profile) (stream : Bytes) (cut : ℕ → ℕ) (rounds n : ℕ)
    (hr : stream.length < rounds)
    (hok : ∀ r ∈ Proc.results (nextAsync b Source.asyncRead rounds) n (.new, .new stream cut),
      ∃ o, r = .ok o) (ks : List ℕ) (hks : ∀ k ∈ ks, 0 < k) :
    Exact ks (unread b n stream)
        (Proc.after (nextAsync b Source.asyncRead rounds) n (.new, .new stream cut)) ↔
      ∀ k ∈ ks.head?, (buffered (Proc.after (nextAsync b Source.asyncRead rounds) n
        (.new, .new stream cut)).1).length ≤ k := by
  obtain ⟨u, hu, happ⟩ := (buffers_atStart b).idle_after (fun src h => enter_async src h.async) n .new []
    (.new stream cut) ⟨rfl, fun h => absurd rfl h⟩ hr fun r hr' => by
      obtain ⟨o, rfl⟩ := hok r hr'
      simp
  rw [← nextAsync_eq] at hu happ
  generalize Proc.after (nextAsync b Source.asyncRead rounds) n (.new, .new stream cut) = x at hu happ
  obtain ⟨pr, src⟩ := x
  rw [List.nil_append] at happ
  rw [show unread b n stream = u ++ src.stream from happ.symm, exact_iff hu src hks, buffered_atStart hu]

/-- The state after a ping that has arrived with two bytes of the next message. -/
def behindPing : PacketReader × Source :=
  Proc.after (nextAsync .dev Source.asyncRead 8) 1 (.new, .new [1, 0, 0, 0, 0x0e, 7, 8] fun _ => 4096)

theorem behindPing_ok : ∀ r ∈ Proc.results (nextAsync .dev Source.asyncRead 8) 1
    (.new, .new [1, 0, 0, 0, 0x0e, 7, 8] fun _ => 4096), ∃ o, r = .ok o := by
  have h : ∀ r ∈ Proc.results (nextAsync .dev Source.asyncRead 8) 1
      (.new, .new [1, 0, 0, 0, 0x0e, 7, 8] fun _ => 4096), r.isOk = true := by decide +kernel
  intro r hr
  have hok := h r hr
  cases r with
  | ok o => exact ⟨o, rfl⟩
  | error e => cases hok

/-- They fit into a buffer of two bytes. -/
theorem pollRead_exact_ping : unread .dev 1 [1, 0, 0, 0, 0x0e, 7, 8] = [7, 8] ∧
    Exact [2, 1] (unread .dev 1 [1, 0, 0, 0, 0x0e, 7, 8]) behindPing :=
  ⟨by decide, (pollRead_exact_iff .dev [1, 0, 0, 0, 0x0e, 7, 8] (fun _ => 4096) 8 1 (by decide)
    behindPing_ok [2, 1] (by decide)).mpr (by decide +kernel)⟩

/-- They do not fit into a buffer of one byte. -/
theorem pollRead_panics : ¬ Exact [1, 1, 1] (unread .dev 1 [1, 0, 0, 0, 0x0e, 7, 8]) behindPing := by
  have hrun : ((polls Source.asyncRead [1, 1, 1]).run behindPing).1.isOk = false := by decide +kernel
  rintro ⟨got, x', hok, -⟩
  rw [hok] at hrun
  cases hrun

/-! ### The reader around it -/

/-- A new reader offers a buffer of 4096 bytes first, so it panics if more are buffered inside. -/
theorem nextAsync_nested_panics {ρ : Type} (r : AsyncRead ρ) (b : Profile) {pr : PacketReader} {u : Bytes}
    (h : IdleAtStart pr u) (hlen : packetBufferSize < u.length) (src : ρ) (rounds : ℕ) :
    ((nextAsync b (asyncRead r) (rounds + 1)).run (.new, (pr, src))).1 = .error .panic := by
  have hu : u ≠ [] := by
    rintro rfl
    exact absurd hlen (Nat.not_lt_zero _)
  have hpoll := run_pollRead_buffered r h hu src packetBufferSize
  rw [if_neg (by omega)] at hpoll
  have hbuf : (resize [] packetBufferSize).length - 0 = packetBufferSize := by
    rw [Nat.sub_zero, length_resize]
  have hread : (readInto (asyncRead r) 0).run (⟨resize [] packetBufferSize, 0, 0⟩, (pr, src)) =
      (.error .panic, (⟨resize [] packetBufferSize, 0, 0⟩, (pr, src))) :=
    run_readInto_error (Nat.zero_le _) (by rw [hbuf]; exact hpoll)
  have hreserve : (reserve packetBufferSize 0).run (⟨[], 0, 0⟩, (pr, src)) =
      (.ok (), (⟨resize [] packetBufferSize, 0, 0⟩, (pr, src))) := by
    have hlt : 0 < packetBufferSize := by decide
    have hmax : max packetBufferSize (0 * 2) = packetBufferSize := by decide
    rw [reserve, Proc.run_bind_ok (Proc.run_get _)]
    simp only [subUsize, List.length_nil, le_refl, if_true, Nat.sub_zero, pure_bind, hlt, hmax]
    rfl
  have hfill : (fillAsync (asyncRead r) packetBufferSize).run (⟨[], 0, 0⟩, (pr, src)) =
      (.error .panic, (⟨resize [] packetBufferSize, 0, 0⟩, (pr, src))) := by
    rw [fillAsync, Proc.run_bind_ok (run_drain (Nat.zero_le _)), Proc.run_bind_ok (Proc.run_get _)]
    simp only [List.drop_nil]
    rw [Proc.run_bind_ok hreserve, Proc.run_bind_error hread]
  have hparse : (parseAsync b).run (⟨[], 0, 0⟩, (pr, src)) = (.ok none, (⟨[], 0, 0⟩, (pr, src))) := rfl
  have hround : (roundAsync b (asyncRead r) packetBufferSize).run (⟨[], 0, 0⟩, (pr, src)) =
      (.error .panic, (⟨resize [] packetBufferSize, 0, 0⟩, (pr, src))) := by
    rw [roundAsync, Proc.run_bind_ok hparse]
    simp only
    rw [Proc.run_bind_error hfill]
  rw [nextAsync, PacketReader.new, Proc.run_bind_ok (run_setStart _ le_rfl)]
  exact congrArg Prod.fst (Proc.loop_stop hround)

end Haentgl.Protocol.Nested
