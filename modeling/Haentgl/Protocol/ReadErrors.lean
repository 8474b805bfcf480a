import Haentgl.Protocol.Reader

/-! # Reads that fail

`next_async` and `next_read` make room in their vector before they read, and note what they have read
afterwards. A read that fails leaves them in between: behind the bytes that were read and not parsed there
are zeros, and the next call takes the end of the vector for these bytes. `Faulty` is a stream with errors
in it, and `Survives` is what both loops guarantee on such a stream.

`failedRead_iff` says when a failed read loses nothing. -/

namespace Haentgl.Protocol.ReadErrors

open Haentgl.Lib.Parse Haentgl.Lib.Program Haentgl.Protocol.Constants Haentgl.Protocol.Io
open Haentgl.Protocol.Packets Haentgl.Protocol.Reader

/-! ### A stream with errors -/

/-- The bytes up to the next error, and the errors that are to come, each with the bytes behind it. -/
structure Faulty where
  segment : Source
  later : List (IoError × Bytes)

namespace Faulty

/-- The source at the start of a stream. -/
def new (stream : Bytes) (later : List (IoError × Bytes)) (cut : ℕ → ℕ) : Faulty :=
  ⟨.new stream cut, later⟩

/-- The source behind an error. -/
def resume (s : Faulty) (i : Bytes) (later : List (IoError × Bytes)) : Faulty :=
  ⟨⟨i, s.segment.cut, s.segment.turn + 1, s.segment.offered⟩, later⟩

/-- An error is returned where the bytes before it are used up. -/
def asyncRead : AsyncRead Faulty where
  read n := do
    let s ← Proc.get
    match s.segment.stream, s.later with
    | [], (e, i) :: later =>
      Proc.modify fun s => s.resume i later
      Proc.stop (.io e)
    | _, _ => Proc.zoom Faulty.segment (fun t s => { s with segment := t }) (Source.asyncRead.read n)

/-- The same source without its next error. -/
def unbroken (s : Faulty) : Faulty :=
  match s.later with
  | [] => s
  | (_, i) :: later => { s with segment.stream := s.segment.stream ++ i, later := later }

/-- How many bytes are still to come. -/
def size (s : Faulty) : ℕ := s.segment.stream.length + (s.later.map fun x => x.2.length).sum

variable {s : Faulty}

theorem run_read {n : ℕ} (h : s.segment.stream ≠ [] ∨ s.later = []) : (asyncRead.read n).run s =
    (.ok (s.segment.stream.take (s.segment.len n)), { s with segment := s.segment.next n }) := by
  obtain ⟨⟨stream, cut, turn, offered⟩, later⟩ := s
  rw [asyncRead, Proc.run_bind_ok (Proc.run_get _)]
  rcases stream with _ | ⟨x, xs⟩
  · obtain rfl : later = [] := h.resolve_left (not_not_intro rfl)
    rfl
  · rfl

theorem run_read_error {n : ℕ} {e : IoError} {i : Bytes} {later : List (IoError × Bytes)}
    (hs : s.segment.stream = []) (hl : s.later = (e, i) :: later) :
    (asyncRead.read n).run s = (.error (.io e), s.resume i later) := by
  rw [asyncRead, Proc.run_bind_ok (Proc.run_get _), hs, hl]
  rfl

end Faulty

/-! ### The vector while a read is under way -/

theorem buffered_idle {pr : PacketReader} {u : Bytes} (h : IdleRead pr u) : buffered pr = u := by
  rw [buffered, h.1]
  exact (List.suffix_iff_eq_drop.mp h.2).symm

/-- What a call takes for the bytes `u` if there are `k` zeros behind them. -/
def shifted (u : Bytes) (k : ℕ) : Bytes := (u ++ List.replicate k 0).drop k

theorem idle_padded (u : Bytes) (k : ℕ) : IdleRead ⟨u ++ List.replicate k 0, 0, u.length⟩ (shifted u k) :=
  ⟨by simp [shifted], List.drop_suffix _ _⟩

/-- Only zeros are the same behind their shift: every byte is the one `k` places further on. -/
theorem shifted_eq_iff {u : Bytes} {k : ℕ} (hk : 0 < k) : shifted u k = u ↔ ∀ x ∈ u, x = 0 := by
  constructor
  · intro h
    have hat : ∀ (d i : ℕ), u.length - i ≤ d → ∀ x, u[i]? = some x → x = 0 := by
      intro d
      induction d with
      | zero =>
        intro i hi x hx
        rw [List.getElem?_eq_none (by omega)] at hx
        cases hx
      | succ d ih =>
        intro i hi x hx
        rw [← h, shifted, List.getElem?_drop] at hx
        by_cases hlt : k + i < u.length
        · rw [List.getElem?_append_left hlt] at hx
          exact ih (k + i) (by omega) x hx
        · rw [List.getElem?_append_right (by omega)] at hx
          exact List.eq_of_mem_replicate (List.mem_of_getElem? hx)
    intro x hx
    obtain ⟨i, hi⟩ := List.mem_iff_getElem?.mp hx
    exact hat _ i le_rfl x hi
  · intro h
    rw [List.eq_replicate_of_mem h, shifted, List.replicate_append_replicate, List.drop_replicate,
      Nat.add_sub_cancel]

/-- The vector of `next_async` holds zeros behind its bytes. -/
structure HeadPadded (bufferSize : ℕ) (pr : PacketReader) (u : Bytes) : Prop where
  head : HeadAsync bufferSize pr u
  padded : ∃ k, pr.bytes.drop pr.start = u ++ List.replicate k 0

theorem enter_padded {ρ : Type} {pr : PacketReader} {u : Bytes} (src : ρ) (h : IdleRead pr u) :
    ∃ pr', setStart.run (pr, src) = (.ok (), (pr', src)) ∧ HeadPadded packetBufferSize pr' u := by
  obtain ⟨pr', hrun, hhead⟩ := enter_read src h
  exact ⟨pr', hrun, ⟨by decide, hhead.remaining, hhead.start, hhead.data ▸ List.prefix_rfl⟩, 0,
    by simp [hhead.data]⟩

theorem resize_padded (u : Bytes) (k : ℕ) {n : ℕ} (h : u.length ≤ n) :
    resize (u ++ List.replicate k 0) n = u ++ List.replicate (n - u.length) 0 := by
  rw [resize, List.take_append, List.take_of_length_le h, List.take_replicate, List.append_assoc,
    List.replicate_append_replicate, List.length_append, List.length_replicate]
  congr 2
  omega

theorem overwrite_padded (u data : Bytes) (k : ℕ) :
    overwrite (u ++ List.replicate k 0) u.length data =
      u ++ data ++ List.replicate (k - data.length) 0 := by
  rw [overwrite, List.take_left, List.drop_append, List.drop_replicate]
  simp

section Fill
variable {ρ : Type} (r : AsyncRead ρ)

theorem run_reserve_padded {c : ℕ} (hc : 0 < c) (u : Bytes) (k n m : ℕ) (src : ρ) :
    ∃ k', 0 < k' ∧ (reserve c u.length).run (⟨u ++ List.replicate k 0, n, m⟩, src) =
      (.ok (), (⟨u ++ List.replicate k' 0, n, m⟩, src)) := by
  rw [reserve, Proc.run_bind_ok (Proc.run_get _)]
  simp only [subUsize, List.length_append, List.length_replicate, Nat.le_add_right, if_true, pure_bind]
  split_ifs
  · refine ⟨max c (u.length * 2) - u.length, by omega, ?_⟩
    rw [run_update, resize_padded u k (by omega)]
  · exact ⟨k, by omega, rfl⟩

/-- The reading half of a round: a read of a buffer of zeros, and what it leaves if it fails. -/
theorem run_fillAsync_padded {c : ℕ} {pr : PacketReader} {u : Bytes} (h : HeadPadded c pr u) (src : ρ) :
    ∃ k, 0 < k ∧
      (∀ data src', (r.read k).run src = (.ok data, src') → (fillAsync r c).run (pr, src) =
        (.ok data.length, (⟨u ++ data ++ List.replicate (k - data.length) 0, 0, u.length + data.length⟩,
          src'))) ∧
      ∀ e src', (r.read k).run src = (.error e, src') → (fillAsync r c).run (pr, src) =
        (.error e, (⟨u ++ List.replicate k 0, 0, u.length⟩, src')) := by
  obtain ⟨⟨hc, hrem, hstart, -⟩, k0, hpad⟩ := h
  obtain ⟨k, hk, hres⟩ := run_reserve_padded hc u k0 0 u.length src
  have hlen : (u ++ List.replicate k (0 : UInt8)).length - u.length = k := by simp
  have hle : u.length ≤ (u ++ List.replicate k (0 : UInt8)).length := by simp
  refine ⟨k, hk, fun data src' hread => ?_, fun e src' hread => ?_⟩
  · rw [fillAsync, Proc.run_bind_ok (run_drain hstart), Proc.run_bind_ok (Proc.run_get _)]
    simp only [hrem, hpad]
    rw [Proc.run_bind_ok hres, Proc.run_bind_ok (run_readInto_ok hle (by rw [hlen]; exact hread)),
      Proc.run_bind_ok (run_update _ _), overwrite_padded]
    rfl
  · rw [fillAsync, Proc.run_bind_ok (run_drain hstart), Proc.run_bind_ok (Proc.run_get _)]
    simp only [hrem, hpad]
    rw [Proc.run_bind_ok hres,
      Proc.run_bind_error (run_readInto_error hle (by rw [hlen]; exact hread))]

theorem run_fillRead_padded {c : Unit} {pr : PacketReader} {u : Bytes} (h : HeadRead c pr u) (src : ρ) :
    ∃ k, 0 < k ∧
      (∀ data src', (r.read k).run src = (.ok data, src') → (fillRead r).run (pr, src) =
        (.ok data.length, (⟨u ++ data, 0, u.length + data.length⟩, src'))) ∧
      ∀ e src', (r.read k).run src = (.error e, src') → (fillRead r).run (pr, src) =
        (.error e, (⟨u ++ List.replicate k 0, 0, u.length⟩, src')) := by
  obtain ⟨hrem, hstart, hdata⟩ := h
  have hres : resize u (max 4096 (u.length * 2)) =
      u ++ List.replicate (max 4096 (u.length * 2) - u.length) 0 := by
    have := resize_padded u 0 (n := max 4096 (u.length * 2)) (by omega)
    simpa using this
  generalize hk : max 4096 (u.length * 2) - u.length = k at hres
  have hlen : (u ++ List.replicate k (0 : UInt8)).length - u.length = k := by simp
  have hle : u.length ≤ (u ++ List.replicate k (0 : UInt8)).length := by simp
  refine ⟨k, by omega, fun data src' hread => ?_, fun e src' hread => ?_⟩
  · rw [fillRead, Proc.run_bind_ok (run_drain hstart), Proc.run_bind_ok (Proc.run_get _)]
    simp only [hdata]
    rw [Proc.run_bind_ok (run_update _ _)]
    simp only [hres]
    rw [Proc.run_bind_ok (run_readInto_ok hle (by rw [hlen]; exact hread)),
      Proc.run_bind_ok (run_update _ _), Proc.run_bind_ok (run_update _ _), overwrite_padded]
    have htake : (u ++ data ++ List.replicate (k - data.length) 0).take (u.length + data.length) =
        u ++ data := List.take_left' (by simp)
    simp only [htake, List.length_append]
    rfl
  · rw [fillRead, Proc.run_bind_ok (run_drain hstart), Proc.run_bind_ok (Proc.run_get _)]
    simp only [hdata]
    rw [Proc.run_bind_ok (run_update _ _)]
    simp only [hres]
    rw [Proc.run_bind_error (run_readInto_error hle (by rw [hlen]; exact hread)), hrem]

end Fill

/-! ### What a round does -/

/-- A loop on a stream with errors, with the bytes `u` that are read and not parsed. -/
structure Survives {γ : Type} (b : Profile)
    (round : γ → Proc Stop (PacketReader × Faulty) (γ ⊕ Option (UInt8 × Packet)))
    (Head : γ → PacketReader → Bytes → Prop) : Prop where
  found : ∀ {c pr u rest m} (src : Faulty), Head c pr u → packet b u = .ok (rest, m) →
    ∃ pr', (round c).run (pr, src) = (.ok (.inr (some m)), (pr', src)) ∧ IdleRead pr' rest
  panics : ∀ {c pr u} (src : Faulty), Head c pr u → packet b u = .error .panic →
    ∃ x, (round c).run (pr, src) = (.error .panic, x)
  more : ∀ {c pr u} {src : Faulty}, Head c pr u → packet b u = .error (.err .backtrack) →
    src.segment.stream ≠ [] → ∃ n pr' c', 0 < n ∧
      (round c).run (pr, src) = (.ok (.inl c'), (pr', { src with segment := src.segment.next n })) ∧
      Head c' pr' (u ++ src.segment.stream.take (src.segment.len n))
  last : ∀ {c pr u} {src : Faulty}, Head c pr u → packet b u = .error (.err .backtrack) →
    src.segment.stream = [] → src.later = [] → ∃ n pr',
      (round c).run (pr, src) = ((ending u).map .inr, (pr', { src with segment := src.segment.next n })) ∧
      IdleRead pr' u
  /-- A failed read leaves zeros. -/
  fails : ∀ {c pr u} {src : Faulty} {e i later}, Head c pr u → packet b u = .error (.err .backtrack) →
    src.segment.stream = [] → src.later = (e, i) :: later → ∃ k pr', 0 < k ∧
      (round c).run (pr, src) = (.error (.io e), (pr', src.resume i later)) ∧ IdleRead pr' (shifted u k)

theorem idleRead_async {pr : PacketReader} {u : Bytes} (h : IdleAsync pr u) : IdleRead pr u := by
  refine ⟨h.1, ?_⟩
  rcases eq_or_ne u [] with rfl | hu
  · exact List.nil_suffix
  · rw [h.2 hu]

theorem survives_async (b : Profile) : Survives b (roundAsync b Faulty.asyncRead) HeadPadded where
  found src h hu := by
    obtain ⟨pr', hrun, hidle⟩ := parseAsync_found src h.head hu
    refine ⟨pr', ?_, idleRead_async hidle.async⟩
    rw [roundAsync, Proc.run_bind_ok hrun]
    rfl
  panics src h hu := ⟨_, Proc.run_bind_error (parseAsync_panics src h.head hu) _⟩
  more {c pr u src} h hu hs := by
    obtain ⟨k, hk, hok, -⟩ := run_fillAsync_padded Faulty.asyncRead h src
    have hread := hok _ _ (Faulty.run_read (.inl hs))
    rw [length_take_len] at hread
    have hlen : src.segment.len k ≠ 0 := (Source.len_pos hk hs).ne'
    refine ⟨k, ⟨u ++ src.segment.stream.take (src.segment.len k) ++
        List.replicate (k - src.segment.len k) 0, 0, u.length + src.segment.len k⟩,
      packetLargeBufferSize, hk, ?_, ⟨by decide, ?_, Nat.zero_le _, List.prefix_append _ _⟩, _, rfl⟩
    · rw [roundAsync, Proc.run_bind_ok (parseAsync_more src h.head hu)]
      simp only
      rw [Proc.run_bind_ok hread, if_neg hlen]
      rfl
    · rw [List.length_append, length_take_len]
  last {c pr u src} h hu hs hl := by
    obtain ⟨k, -, hok, -⟩ := run_fillAsync_padded Faulty.asyncRead h src
    have hread := hok _ _ (Faulty.run_read (.inr hl))
    rw [hs, List.take_nil, List.append_nil] at hread
    refine ⟨k, ⟨u, 0, u.length⟩, ?_, rfl, List.suffix_rfl⟩
    rw [roundAsync, Proc.run_bind_ok (parseAsync_more src h.head hu)]
    simp only
    rw [Proc.run_bind_ok hread, List.length_nil, if_pos rfl, Proc.run_bind_ok (run_update _ _),
      Proc.run_bind_pure, run_atEnd]
    simp
  fails {c pr u src e i later} h hu hs hl := by
    obtain ⟨k, hk, -, herr⟩ := run_fillAsync_padded Faulty.asyncRead h src
    refine ⟨k, _, hk, ?_, idle_padded u k⟩
    rw [roundAsync, Proc.run_bind_ok (parseAsync_more src h.head hu)]
    simp only
    rw [Proc.run_bind_error (herr _ _ (Faulty.run_read_error hs hl))]

theorem survives_read (b : Profile) : Survives b (roundRead b Faulty.asyncRead) HeadRead where
  found src h hu := by
    obtain ⟨pr', hrun, hidle⟩ := parseRead_found src h hu
    refine ⟨pr', ?_, hidle⟩
    rw [roundRead, Proc.run_bind_ok hrun]
    rfl
  panics src h hu := ⟨_, Proc.run_bind_error (parseRead_panics src h hu) _⟩
  more {c pr u src} h hu hs := by
    obtain ⟨k, hk, hok, -⟩ := run_fillRead_padded Faulty.asyncRead h src
    have hread := hok _ _ (Faulty.run_read (.inl hs))
    rw [length_take_len] at hread
    have hlen : src.segment.len k ≠ 0 := (Source.len_pos hk hs).ne'
    refine ⟨k, ⟨u ++ src.segment.stream.take (src.segment.len k), 0, u.length + src.segment.len k⟩, (), hk,
      ?_, ⟨?_, Nat.zero_le _, rfl⟩⟩
    · rw [roundRead, Proc.run_bind_ok (parseRead_more src h hu)]
      simp only
      rw [Proc.run_bind_ok hread, if_neg hlen]
      rfl
    · rw [List.length_append, length_take_len]
  last {c pr u src} h hu hs hl := by
    obtain ⟨k, -, hok, -⟩ := run_fillRead_padded Faulty.asyncRead h src
    have hread := hok _ _ (Faulty.run_read (.inr hl))
    rw [hs, List.take_nil, List.append_nil] at hread
    refine ⟨k, ⟨u, 0, u.length⟩, ?_, rfl, List.suffix_rfl⟩
    rw [roundRead, Proc.run_bind_ok (parseRead_more src h hu)]
    simp only
    rw [Proc.run_bind_ok hread, List.length_nil, if_pos rfl, Proc.run_bind_pure, run_atEnd]
    simp
  fails {c pr u src e i later} h hu hs hl := by
    obtain ⟨k, hk, -, herr⟩ := run_fillRead_padded Faulty.asyncRead h src
    refine ⟨k, _, hk, ?_, idle_padded u k⟩
    rw [roundRead, Proc.run_bind_ok (parseRead_more src h hu)]
    simp only
    rw [Proc.run_bind_error (herr _ _ (Faulty.run_read_error hs hl))]

/-! ### One call -/

/-- What a call does if the bytes `i` come before the next error: its result, the bytes in its buffer
afterwards, and what is still to come. -/
inductive Called (b : Profile) (i : Bytes) : List (IoError × Bytes) →
    Except Stop (Option (UInt8 × Packet)) → Bytes → Bytes → List (IoError × Bytes) → Prop
  | found {later rest m u s} : packet b i = .ok (rest, m) → u ++ s = rest →
      Called b i later (.ok (some m)) u s later
  | ended : packet b i = .error (.err .backtrack) → Called b i [] (ending i) i [] []
  | failed {e j later k} : packet b i = .error (.err .backtrack) → 0 < k →
      Called b i ((e, j) :: later) (.error (.io e)) (shifted i k) j later

/-- The result of a call and what it leaves behind, unless the numbers of the frames make it panic. -/
def Goes (b : Profile) (i : Bytes) (src : Faulty)
    (x : Except Stop (Option (UInt8 × Packet)) × PacketReader × Faulty) : Prop :=
  (x.1 = .error .panic ∧ packet b i = .error .panic) ∨
    ∃ u, IdleRead x.2.1 u ∧ Called b i src.later x.1 u x.2.2.segment.stream x.2.2.later ∧
      x.2.2.size ≤ src.size

theorem Faulty.size_next (src : Faulty) (n : ℕ) :
    Faulty.size { src with segment := src.segment.next n } ≤ src.size := by
  simp only [Faulty.size, Source.next, List.length_drop]
  omega

/-- What calls return if no failed read loses anything. -/
def ideal (b : Profile) : ℕ → Bytes → List (IoError × Bytes) →
    List (Except Stop (Option (UInt8 × Packet)))
  | 0, _, _ => []
  | n + 1, i, later =>
    match packet b i, later with
    | .ok (rest, m), later => .ok (some m) :: ideal b n rest later
    | .error _, [] => ending i :: ideal b n i []
    | .error _, (e, j) :: later => .error (.io e) :: ideal b n (i ++ j) later

/-- Every failed read finds zeros only, and no call panics. -/
def Harmless (b : Profile) : ℕ → Bytes → List (IoError × Bytes) → Prop
  | 0, _, _ => True
  | n + 1, i, later =>
    match packet b i, later with
    | .ok (rest, _), later => Harmless b n rest later
    | .error .panic, _ => False
    | .error _, [] => Harmless b n i []
    | .error _, (_, j) :: later => (∀ x ∈ i, x = 0) ∧ Harmless b n (i ++ j) later

/-- The failed read between `x` and `x'` loses nothing: the bytes before the error are still in the buffer,
and the following calls return what they return on a stream without this error, as long as the failed reads
among them are harmless. -/
structure LosesNothing (b : Profile)
    (call : Proc Stop (PacketReader × Faulty) (Option (UInt8 × Packet))) (x x' : PacketReader × Faulty) :
    Prop where
  kept : buffered x'.1 = buffered x.1 ++ x.2.segment.stream
  results : ∀ n, Harmless b n (buffered x.1 ++ x.2.unbroken.segment.stream) x.2.unbroken.later →
    Proc.results call n x' = Proc.results call n (x.1, x.2.unbroken)

section Run
variable {γ : Type} {b : Profile}
  {round : γ → Proc Stop (PacketReader × Faulty) (γ ⊕ Option (UInt8 × Packet))}
  {Head : γ → PacketReader → Bytes → Prop}

/-- The rounds of a call: every round that goes on has read something. -/
theorem Survives.run_loop (hS : Survives b round Head) : ∀ (rounds : ℕ) (c : γ) (pr : PacketReader)
    (u : Bytes) (src : Faulty), Head c pr u → src.segment.stream.length < rounds →
    Goes b (u ++ src.segment.stream) src ((Proc.loop .outOfRounds round rounds c).run (pr, src))
  | rounds + 1, c, pr, u, src, hh, hr => by
    rcases hu : packet b u with e | ⟨rest, m⟩
    swap
    · -- a message is there
      obtain ⟨pr', hrun, hidle⟩ := hS.found src hh hu
      rw [Proc.loop_break hrun]
      exact .inr ⟨rest, hidle, .found (stable_packet b _ _ _ src.segment.stream hu) rfl, le_rfl⟩
    rcases packet_eq_error hu with rfl | rfl
    · obtain ⟨x, hrun⟩ := hS.panics src hh hu
      rw [Proc.loop_stop hrun]
      exact .inl ⟨rfl, packet_panic_append hu src.segment.stream⟩
    rcases eq_or_ne src.segment.stream [] with hs | hs
    swap
    · obtain ⟨n, pr', c', hn, hrun, hhead⟩ := hS.more hh hu hs
      have hlt := length_stream_next hn hs
      have hgoes := hS.run_loop rounds c' pr' _ { src with segment := src.segment.next n } hhead
        (by simp only; omega)
      rw [append_stream_next] at hgoes
      rw [Proc.loop_again hrun]
      refine hgoes.imp_right ?_
      rintro ⟨u', hidle, hcalled, hsize⟩
      exact ⟨u', hidle, hcalled, hsize.trans (src.size_next n)⟩
    rw [hs, List.append_nil]
    rcases hl : src.later with _ | ⟨⟨e, i⟩, later⟩
    · -- the end of the stream
      obtain ⟨n, pr', hrun, hidle⟩ := hS.last hh hu hs hl
      have hres : (Proc.loop .outOfRounds round (rounds + 1) c).run (pr, src) =
          (ending u, (pr', { src with segment := src.segment.next n })) := by
        rw [ending] at hrun ⊢
        split_ifs at hrun ⊢
        · exact Proc.loop_break hrun
        · exact Proc.loop_stop hrun
      have hstream : (src.segment.next n).stream = [] := by simp [Source.next, hs]
      rw [hres]
      refine .inr ⟨u, hidle, ?_, src.size_next n⟩
      simp only [hl, hstream]
      exact .ended hu
    · -- the next error
      obtain ⟨k, pr', hk, hrun, hidle⟩ := hS.fails hh hu hs hl
      rw [Proc.loop_stop hrun]
      refine .inr ⟨shifted u k, hidle, ?_, ?_⟩
      · rw [hl]
        exact .failed hu hk
      · simp [Faulty.size, Faulty.resume, hl]

variable {c : γ} (rounds : ℕ) (hS : Survives b round Head)
  (henter : ∀ {pr u} (src : Faulty), IdleRead pr u →
    ∃ pr', setStart.run (pr, src) = (.ok (), (pr', src)) ∧ Head c pr' u)
include hS henter

theorem Survives.run_next {pr : PacketReader} {u : Bytes} {src : Faulty} (hu : IdleRead pr u)
    (hr : src.size < rounds) :
    Goes b (u ++ src.segment.stream) src ((next round rounds c).run (pr, src)) := by
  obtain ⟨pr', hstart, hhead⟩ := henter src hu
  rw [next, Proc.run_bind_ok hstart]
  refine hS.run_loop rounds c pr' u src hhead ?_
  rw [Faulty.size] at hr
  omega

/-- Between two calls the end of the vector is what is read and not parsed. -/
theorem Survives.idle_after : ∀ (n : ℕ) (pr : PacketReader) (src : Faulty), (∃ u, IdleRead pr u) →
    src.size < rounds → (∀ r ∈ Proc.results (next round rounds c) n (pr, src), r ≠ .error .panic) →
    (∃ u, IdleRead (Proc.after (next round rounds c) n (pr, src)).1 u) ∧
      (Proc.after (next round rounds c) n (pr, src)).2.size < rounds
  | 0, _, _, hu, hr, _ => ⟨hu, hr⟩
  | n + 1, pr, src, ⟨u, hu⟩, hr, hp => by
    have hgoes := hS.run_next rounds henter hu hr
    rw [Proc.after]
    generalize hx : (next round rounds c).run (pr, src) = x at hgoes
    rw [Proc.results, hx] at hp
    rcases hgoes with ⟨hpanic, -⟩ | ⟨u', hu', -, hsize⟩
    · exact absurd hpanic (hp _ (by simp))
    · exact Survives.idle_after n x.2.1 x.2.2 ⟨u', hu'⟩ (hsize.trans_lt hr) fun r hr =>
        hp r (by simp [hr])

/-- **A run of calls** whose failed reads find zeros only. -/
theorem Survives.results_ideal : ∀ (n : ℕ) (pr : PacketReader) (u : Bytes) (src : Faulty), IdleRead pr u →
    src.size < rounds → Harmless b n (u ++ src.segment.stream) src.later →
    Proc.results (next round rounds c) n (pr, src) = ideal b n (u ++ src.segment.stream) src.later
  | 0, _, _, _, _, _, _ => rfl
  | n + 1, pr, u, src, hu, hr, hh => by
    have hgoes := hS.run_next rounds henter hu hr
    rw [Proc.results]
    generalize hx : (next round rounds c).run (pr, src) = x at hgoes
    generalize u ++ src.segment.stream = i at hgoes hh
    rcases hgoes with ⟨-, hp⟩ | ⟨u', hu', hcalled, hsize⟩
    · simp only [Harmless, hp] at hh
    obtain ⟨r, pr', src'⟩ := x
    have ih := fun hh => Survives.results_ideal n pr' u' src' hu' (hsize.trans_lt hr) hh
    generalize src.later = later at hcalled hh
    simp only at hcalled ⊢
    generalize src'.segment.stream = s', src'.later = later' at hcalled ih
    cases hcalled with
    | @found _ rest m _ _ hp hrest =>
      simp only [Harmless, hp] at hh
      subst hrest
      simp only [ideal, hp, ih hh]
    | ended hp =>
      simp only [Harmless, hp] at hh
      rw [List.append_nil] at ih
      simp only [ideal, hp, ih hh]
    | @failed e j _ k hp hk =>
      simp only [Harmless, hp] at hh
      -- the zeros are still there
      rw [(shifted_eq_iff hk).mpr hh.1] at ih
      simp only [ideal, hp, ih hh.2]

theorem Survives.losesNothing_iff {x : PacketReader × Faulty} (hidle : ∃ u, IdleRead x.1 u)
    (hr : x.2.size < rounds) {e : IoError} {i : Bytes} {later : List (IoError × Bytes)}
    (hl : x.2.later = (e, i) :: later)
    (hp : packet b (buffered x.1 ++ x.2.segment.stream) = .error (.err .backtrack)) :
    ∃ x', (next round rounds c).run x = (.error (.io e), x') ∧
      (LosesNothing b (next round rounds c) x x' ↔ ∀ y ∈ buffered x.1 ++ x.2.segment.stream, y = 0) := by
  obtain ⟨u, hu⟩ := hidle
  obtain ⟨pr, src⟩ := x
  have hbuf := buffered_idle hu
  simp only at hu hr hl hp hbuf ⊢
  have hgoes := hS.run_next rounds henter hu hr
  rw [hbuf] at hp ⊢
  generalize hx : (next round rounds c).run (pr, src) = y at hgoes
  obtain ⟨r, pr', src'⟩ := y
  rcases hgoes with ⟨-, hpanic⟩ | ⟨u', hu', hcalled, hsize⟩
  · rw [hp] at hpanic
    cases hpanic
  simp only [hl] at hu' hcalled hsize
  generalize hs' : src'.segment.stream = s', hl' : src'.later = later' at hcalled
  cases hcalled with
  | found hok =>
    rw [hp] at hok
    cases hok
  | @failed _ _ _ k _ hk =>
    refine ⟨(pr', src'), rfl, fun hlose => ?_, fun hzero => ?_⟩
    · have hkept := hlose.kept
      rw [buffered_idle hu', hbuf] at hkept
      exact (shifted_eq_iff hk).mp hkept
    · rw [(shifted_eq_iff hk).mpr hzero] at hu'
      have hunbroken : src.unbroken =
          { src with segment.stream := src.segment.stream ++ i, later := later } := by
        rw [Faulty.unbroken, hl]
      refine ⟨by rw [buffered_idle hu', hbuf], fun n hh => ?_⟩
      rw [hunbroken, hbuf] at hh
      simp only [← List.append_assoc] at hh
      have h1 := hS.results_ideal rounds henter n pr' _ src' hu' (hsize.trans_lt hr)
        (by rw [hs', hl']; exact hh)
      have h2 := hS.results_ideal rounds henter n pr u src.unbroken hu
        (by simpa [hunbroken, Faulty.size, hl, add_assoc] using hr)
        (by rw [hunbroken]; simpa only [List.append_assoc] using hh)
      rw [h1, h2, hunbroken, hs', hl', List.append_assoc]

end Run

/-! ### A header that is interrupted -/

/-- The error of the examples. -/
def reset : IoError := ⟨.connectionReset, "connection reset"⟩

/-- A ping whose header is interrupted after two bytes. -/
def interrupted : PacketReader × Faulty :=
  (.new, .new [1, 0] [(reset, [0, 0, 0x0e])] fun _ => 4096)

/-- The two bytes are lost: the next call returns an empty packet. -/
theorem Survives.results_interrupted {γ : Type}
    {round : γ → Proc Stop (PacketReader × Faulty) (γ ⊕ Option (UInt8 × Packet))}
    {Head : γ → PacketReader → Bytes → Prop} (hS : Survives .release round Head) {c : γ}
    (henter : ∀ {pr u} (src : Faulty), IdleRead pr u →
      ∃ pr', setStart.run (pr, src) = (.ok (), (pr', src)) ∧ Head c pr' u) {rounds : ℕ} (hr : 5 < rounds) :
    Proc.results (next round rounds c) 2 interrupted = [.error (.io reset), .ok (some (0, []))] := by
  have hfirst : Goes .release [1, 0] interrupted.2 ((next round rounds c).run interrupted) :=
    hS.run_next rounds henter (show IdleRead .new [] from ⟨rfl, List.nil_suffix⟩) hr
  rw [Proc.results, Proc.results, Proc.results]
  generalize (next round rounds c).run interrupted = x at hfirst
  rcases hfirst with ⟨-, hp⟩ | ⟨u, hu, hcalled, hsize⟩
  · cases hp
  obtain ⟨r, pr, src⟩ := x
  simp only at hu hcalled hsize ⊢
  generalize hs : src.segment.stream = s, hl : src.later = l at hcalled
  cases hcalled with
  | found hok => cases hok
  | @failed e j later k hp hk =>
    have hshift : shifted [1, 0] k = [0, 0] := by
      obtain ⟨k, rfl⟩ : ∃ n, k = n + 1 := ⟨k - 1, by omega⟩
      rcases k with _ | k <;> simp [shifted, List.replicate_succ']
    rw [hshift] at hu
    have hsecond := hS.run_next rounds henter hu (hsize.trans_lt hr)
    rw [hs] at hsecond
    generalize (next round rounds c).run (pr, src) = y at hsecond
    rcases hsecond with ⟨-, hp⟩ | ⟨u', -, hcalled, -⟩
    · cases hp
    obtain ⟨r, pr', src'⟩ := y
    rw [hl] at hcalled
    simp only at hcalled ⊢
    generalize src'.segment.stream = s', src'.later = l' at hcalled
    cases hcalled with
    | found hok =>
      cases hok
      rfl
    | ended hp => cases hp

/-- What holds of calls from `x` on, on a stream with errors in it. -/
structure Recovers (b : Profile) (call : Proc Stop (PacketReader × Faulty) (Option (UInt8 × Packet)))
    (stream : Bytes) (later : List (IoError × Bytes)) (x : PacketReader × Faulty) : Prop where
  /-- After any calls, a call that comes to the next error returns it, and it loses nothing if and only if
  the bytes that were read before it and not parsed are zeros. -/
  failed : ∀ n, (∀ r ∈ Proc.results call n x, r ≠ .error .panic) → ∀ e i rest,
    (Proc.after call n x).2.later = (e, i) :: rest →
    packet b (buffered (Proc.after call n x).1 ++ (Proc.after call n x).2.segment.stream) =
      .error (.err .backtrack) →
    ∃ x', call.run (Proc.after call n x) = (.error (.io e), x') ∧
      (LosesNothing b call (Proc.after call n x) x' ↔
        ∀ y ∈ buffered (Proc.after call n x).1 ++ (Proc.after call n x).2.segment.stream, y = 0)
  /-- A run in which every failed read finds zeros returns what the stream holds, and the errors. -/
  run : ∀ n, Harmless b n stream later → Proc.results call n x = ideal b n stream later

theorem Survives.recovers {γ : Type} {b : Profile}
    {round : γ → Proc Stop (PacketReader × Faulty) (γ ⊕ Option (UInt8 × Packet))}
    {Head : γ → PacketReader → Bytes → Prop} (hS : Survives b round Head) {c : γ}
    (henter : ∀ {pr u} (src : Faulty), IdleRead pr u →
      ∃ pr', setStart.run (pr, src) = (.ok (), (pr', src)) ∧ Head c pr' u) {rounds : ℕ} {stream : Bytes}
    {later : List (IoError × Bytes)} {cut : ℕ → ℕ} (hr : (Faulty.new stream later cut).size < rounds) :
    Recovers b (next round rounds c) stream later (.new, .new stream later cut) where
  failed n hp e i rest hl hu := by
    obtain ⟨hidle, hsize⟩ := hS.idle_after rounds henter n .new (.new stream later cut)
      ⟨[], rfl, List.nil_suffix⟩ hr hp
    exact hS.losesNothing_iff rounds henter hidle hsize hl hu
  run n hh := hS.results_ideal rounds henter n .new [] (.new stream later cut) ⟨rfl, List.nil_suffix⟩ hr hh

/-- **A failed read** loses nothing if and only if there are only zeros to lose, in both versions of the
reader, however the stream is cut and wherever it fails. -/
theorem failedRead_iff (b : Profile) (stream : Bytes) (later : List (IoError × Bytes)) (cut : ℕ → ℕ)
    (rounds : ℕ) (hr : (Faulty.new stream later cut).size < rounds) :
    Recovers b (nextAsync b Faulty.asyncRead rounds) stream later (.new, .new stream later cut) ∧
      Recovers b (nextRead b Faulty.asyncRead rounds) stream later (.new, .new stream later cut) :=
  ⟨(survives_async b).recovers enter_padded hr, (survives_read b).recovers enter_read hr⟩

/-- A header of zeros that is interrupted behind its first byte. -/
theorem failedRead_zeros : (Faulty.new [0] [(reset, [0, 0, 3])] fun _ => 1).size < 8 ∧
    (∃ x', (nextAsync .dev Faulty.asyncRead 8).run (.new, .new [0] [(reset, [0, 0, 3])] fun _ => 1) =
        (.error (.io reset), x') ∧
      LosesNothing .dev (nextAsync .dev Faulty.asyncRead 8)
        (.new, .new [0] [(reset, [0, 0, 3])] fun _ => 1) x') ∧
    Proc.results (nextRead .dev Faulty.asyncRead 8) 2 (.new, .new [0] [(reset, [0, 0, 3])] fun _ => 1) =
      [.error (.io reset), .ok (some (3, []))] := by
  have hsize : (Faulty.new [0] [(reset, [0, 0, 3])] fun _ => 1).size < 8 := by decide
  obtain ⟨hasync, hread⟩ := failedRead_iff .dev [0] [(reset, [0, 0, 3])] (fun _ => 1) 8 hsize
  obtain ⟨x', hrun, hiff⟩ := hasync.failed 0 (fun r hr => by cases hr) reset [0, 0, 3] [] rfl (by decide)
  have hzero : ∀ y ∈ ([0] : Bytes), y = 0 := fun y hy => List.mem_singleton.mp hy
  exact ⟨hsize, ⟨x', hrun, hiff.mpr hzero⟩, hread.run 2 ⟨hzero, trivial⟩⟩

/-- The two bytes of the interrupted header are lost by both versions, and the ping comes out as an empty
packet. -/
theorem failedRead_loses :
    (∃ x', (nextAsync .release Faulty.asyncRead 6).run interrupted = (.error (.io reset), x') ∧
      ¬ LosesNothing .release (nextAsync .release Faulty.asyncRead 6) interrupted x') ∧
    Proc.results (nextAsync .release Faulty.asyncRead 6) 2 interrupted =
      [.error (.io reset), .ok (some (0, []))] ∧
    Proc.results (nextRead .release Faulty.asyncRead 6) 2 interrupted =
      [.error (.io reset), .ok (some (0, []))] ∧
    Proc.results (nextAsync .release Faulty.asyncRead 6) 1 (interrupted.1, interrupted.2.unbroken) =
      [.ok (some (0, [0x0e]))] := by
  refine ⟨?_, (survives_async _).results_interrupted enter_padded (by decide),
    (survives_read _).results_interrupted enter_read (by decide),
    (survives_async .release).results_ideal 6 enter_padded 1 .new [] interrupted.2.unbroken
      ⟨rfl, List.nil_suffix⟩ (by decide) trivial⟩
  obtain ⟨x', hrun, hiff⟩ := (survives_async .release).losesNothing_iff 6 enter_padded
    (x := interrupted) ⟨[], rfl, List.nil_suffix⟩ (by decide) rfl (by decide)
  exact ⟨x', hrun, fun hlose => absurd (hiff.mp hlose) (by decide)⟩

end Haentgl.Protocol.ReadErrors
