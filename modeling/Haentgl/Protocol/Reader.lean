import Haentgl.Protocol.Io
import Haentgl.Protocol.Packets

/-! # `PacketReader`

The reader keeps a vector of bytes, a position `start` in it and the number `remaining` of bytes that
are read but not parsed. `next_async` and `next_read` try `packet` on these bytes and read more as long
as it does not succeed. The two differ in what the tail of the vector means: the asynchronous version
keeps the vector at the length of its buffer, so that only `remaining` bytes from `start` on are data;
the synchronous one truncates it after every read, so that everything from `start` on is.

`Buffers` is what both guarantee round by round, stated with the bytes that are read and not parsed;
the results of a whole run of calls follow from it alone (`Buffers.results_next`). -/

namespace Haentgl.Protocol.Reader

open Haentgl.Lib.Parse Haentgl.Lib.Program Haentgl.Protocol.Constants Haentgl.Protocol.Io
open Haentgl.Protocol.Packets

def packetBufferSize : ℕ := 4096

def packetLargeBufferSize : ℕ := 1048576

structure PacketReader where
  bytes : Bytes
  start : ℕ
  remaining : ℕ
  deriving DecidableEq, Repr

/-- The bytes that are read and not parsed, as the next call sees them. -/
def buffered (pr : PacketReader) : Bytes := pr.bytes.drop (pr.bytes.length - pr.remaining)

/-- A new reader. -/
def PacketReader.new : PacketReader := ⟨[], 0, 0⟩

/-! ### Vectors -/

/-- `&v[from..]`, which panics behind the end. -/
def sliceFrom (v : Bytes) (start : ℕ) : Option Bytes :=
  if start ≤ v.length then some (v.drop start) else none

/-- `n` bytes from the start of a slice, none if there are not as many. -/
def fromRawParts (v : Bytes) (n : ℕ) : Option Bytes :=
  if n ≤ v.length then some (v.take n) else none

/-- `v.resize(n, 0)`. -/
def resize (v : Bytes) (n : ℕ) : Bytes := v.take n ++ List.replicate (n - v.length) 0

/-- A vector whose bytes from `at` on have been overwritten. -/
def overwrite (v : Bytes) (pos : ℕ) (data : Bytes) : Bytes :=
  v.take pos ++ data ++ v.drop (pos + data.length)

@[simp] theorem length_resize (v : Bytes) (n : ℕ) : (resize v n).length = n := by
  simp [resize]; omega

theorem take_resize {v : Bytes} {k n : ℕ} (hk : k ≤ n) (hv : k ≤ v.length) :
    (resize v n).take k = v.take k := by
  rw [resize, List.take_append_of_le_length (by simp; omega), List.take_take, min_eq_left hk]

theorem take_overwrite {v : Bytes} {pos : ℕ} (h : pos ≤ v.length) (data : Bytes) :
    (overwrite v pos data).take (pos + data.length) = v.take pos ++ data :=
  List.take_left' (by simp [h])

/-! ### The two loops -/

section Model
variable {ρ : Type} (b : Profile) (r : AsyncRead ρ)

/-- Change the fields of the reader. -/
def update (f : PacketReader → PacketReader) : Proc Stop (PacketReader × ρ) Unit :=
  Proc.modify fun s => (f s.1, s.2)

/-- Run on the underlying stream. -/
def onStream {α : Type} (p : Proc Stop ρ α) : Proc Stop (PacketReader × ρ) α :=
  Proc.zoom Prod.snd (fun t s => (s.1, t)) p

/-- The error at the end of a stream that stops inside a message. -/
def unhandled (n : ℕ) : Stop := .io ⟨.unexpectedEof, toString n ++ " unhandled bytes"⟩

/-- The error of a parser that cannot be retried. The text of its context is left out: `packet` has
no such error. -/
def cutError : Stop := .io ⟨.invalidData, ""⟩

/-- `self.start = self.bytes.len() - self.remaining`. -/
def setStart : Proc Stop (PacketReader × ρ) Unit := do
  let (s, _) ← Proc.get
  let start ← subUsize s.bytes.length s.remaining
  update fun s => { s with start := start }

/-- `self.bytes.drain(0..self.start)`. -/
def drain : Proc Stop (PacketReader × ρ) Unit := do
  let (s, _) ← Proc.get
  let tail ← orPanic (sliceFrom s.bytes s.start)
  update fun s => { s with bytes := tail, start := 0 }

/-- `self.r.read(&mut self.bytes[used..])`; the number of bytes read. -/
def readInto (used : ℕ) : Proc Stop (PacketReader × ρ) ℕ := do
  let (s, _) ← Proc.get
  let buf ← orPanic (sliceFrom s.bytes used)
  let data ← onStream (r.read buf.length)
  update fun s => { s with bytes := overwrite s.bytes used data }
  return data.length

/-- What both loops do when nothing was read. -/
def atEnd : Proc Stop (PacketReader × ρ) (Option (UInt8 × Packet)) := do
  let (s, _) ← Proc.get
  if s.bytes = [] then return none
  else Proc.stop (unhandled s.bytes.length)

/-- The attempt of `next_async` to parse what it has. -/
def parseAsync : Proc Stop (PacketReader × ρ) (Option (UInt8 × Packet)) := do
  let (s, _) ← Proc.get
  if s.remaining ≠ 0 then
    let tail ← orPanic (sliceFrom s.bytes s.start)
    let bytes ← orPanic (fromRawParts tail s.remaining)
    match packet b bytes with
    | .ok (rest, p) =>
      update fun s => { s with remaining := rest.length }
      if rest.length > 0 then update fun s => { s with bytes := rest, start := 0 }
      return some p
    | .error .panic => Proc.stop .panic
    | .error (.err .cut) =>
      update fun s => { s with bytes := s.bytes.take s.remaining }
      Proc.stop cutError
    | .error (.err .incomplete) => return none
    | .error (.err .backtrack) => return none
  else return none

/-- Make room for a read. -/
def reserve (bufferSize used : ℕ) : Proc Stop (PacketReader × ρ) Unit := do
  let (s, _) ← Proc.get
  let free ← subUsize s.bytes.length used
  if free < bufferSize then
    update fun s => { s with bytes := resize s.bytes (max bufferSize (used * 2)) }

/-- The reading half of its round; the number of bytes read. -/
def fillAsync (bufferSize : ℕ) : Proc Stop (PacketReader × ρ) ℕ := do
  drain
  let (s, _) ← Proc.get
  let used := s.remaining
  reserve bufferSize used
  let read ← readInto r used
  update fun s => { s with remaining := used + read }
  return read

def roundAsync (bufferSize : ℕ) :
    Proc Stop (PacketReader × ρ) (ℕ ⊕ Option (UInt8 × Packet)) := do
  match ← parseAsync b with
  | some p => return .inr (some p)
  | none =>
    let read ← fillAsync r bufferSize
    if read = 0 then
      update fun s => { s with bytes := s.bytes.take s.remaining }
      return .inr (← atEnd)
    -- a larger buffer from the second read on
    else return .inl packetLargeBufferSize

def nextAsync (rounds : ℕ) : Proc Stop (PacketReader × ρ) (Option (UInt8 × Packet)) := do
  setStart
  Proc.loop .outOfRounds (roundAsync b r) rounds packetBufferSize

/-- The attempt of `next_read` to parse what it has. -/
def parseRead : Proc Stop (PacketReader × ρ) (Option (UInt8 × Packet)) := do
  let (s, _) ← Proc.get
  if s.remaining ≠ 0 then
    let bytes ← orPanic (sliceFrom s.bytes s.start)
    match packet b bytes with
    | .ok (rest, p) =>
      update fun s => { s with remaining := rest.length }
      return some p
    | .error .panic => Proc.stop .panic
    | .error (.err .cut) => Proc.stop cutError
    | .error (.err .incomplete) => return none
    | .error (.err .backtrack) => return none
  else return none

/-- The reading half of its round; the number of bytes read. -/
def fillRead : Proc Stop (PacketReader × ρ) ℕ := do
  drain
  let (s, _) ← Proc.get
  let used := s.bytes.length
  update fun s => { s with bytes := resize s.bytes (max 4096 (used * 2)) }
  let read ← readInto r used
  update fun s => { s with bytes := s.bytes.take (used + read) }
  update fun s => { s with remaining := s.bytes.length }
  return read

def roundRead (_ : Unit) : Proc Stop (PacketReader × ρ) (Unit ⊕ Option (UInt8 × Packet)) := do
  match ← parseRead b with
  | some p => return .inr (some p)
  | none =>
    let read ← fillRead r
    if read = 0 then return .inr (← atEnd)
    else return .inl ()

def nextRead (rounds : ℕ) : Proc Stop (PacketReader × ρ) (Option (UInt8 × Packet)) := do
  setStart
  Proc.loop .outOfRounds (roundRead b r) rounds ()

end Model

/-! ### What a round does -/

/-- The end of the stream with the bytes `u` left over. -/
def ending (u : Bytes) : Except Stop (Option (UInt8 × Packet)) :=
  if u = [] then .ok none else .error (unhandled u.length)

/-- A loop that keeps the bytes which are read and not parsed: `Idle pr u` between two calls, and
`Head c pr u` at the head of the loop. -/
structure Buffers {γ : Type} (b : Profile)
    (round : γ → Proc Stop (PacketReader × Source) (γ ⊕ Option (UInt8 × Packet)))
    (Idle : PacketReader → Bytes → Prop) (Head : γ → PacketReader → Bytes → Prop) : Prop where
  /-- A message that is there is taken out. -/
  found : ∀ {c pr u rest m} (src : Source), Head c pr u → packet b u = .ok (rest, m) →
    ∃ pr', (round c).run (pr, src) = (.ok (.inr (some m)), (pr', src)) ∧ Idle pr' rest
  /-- The assertion about the numbers goes through. -/
  panics : ∀ {c pr u} (src : Source), Head c pr u → packet b u = .error .panic →
    ∃ s, (round c).run (pr, src) = (.error .panic, s)
  /-- Otherwise a nonempty buffer is offered, -/
  more : ∀ {c pr u} {src : Source}, Head c pr u → packet b u = .error (.err .backtrack) →
    src.stream ≠ [] → ∃ n pr' c', 0 < n ∧
      (round c).run (pr, src) = (.ok (.inl c'), (pr', src.next n)) ∧
      Head c' pr' (u ++ src.stream.take (src.len n))
  /-- also at the end of the stream. -/
  last : ∀ {c pr u} {src : Source}, Head c pr u → packet b u = .error (.err .backtrack) →
    src.stream = [] → ∃ n pr', 0 < n ∧
      (round c).run (pr, src) = ((ending u).map .inr, (pr', src.next n)) ∧ Idle pr' u

theorem Buffers.mono {γ : Type} {b : Profile}
    {round : γ → Proc Stop (PacketReader × Source) (γ ⊕ Option (UInt8 × Packet))}
    {Idle Idle' : PacketReader → Bytes → Prop} {Head : γ → PacketReader → Bytes → Prop}
    (hB : Buffers b round Idle Head) (h : ∀ {pr u}, Idle pr u → Idle' pr u) :
    Buffers b round Idle' Head where
  found src hh hu := by
    obtain ⟨pr', hrun, hidle⟩ := hB.found src hh hu
    exact ⟨pr', hrun, h hidle⟩
  panics := hB.panics
  more := hB.more
  last hh hu hs := by
    obtain ⟨n, pr', hn, hrun, hidle⟩ := hB.last hh hu hs
    exact ⟨n, pr', hn, hrun, h hidle⟩

theorem ne_nil_of_packet {b : Profile} {u rest : Bytes} {m : UInt8 × Packet}
    (h : packet b u = .ok (rest, m)) : u ≠ [] := by
  rintro rfl
  rw [packet_nil] at h
  cases h

theorem run_update {ρ : Type} (f : PacketReader → PacketReader) (s : PacketReader × ρ) :
    (update f).run s = (.ok (), (f s.1, s.2)) := rfl

theorem run_atEnd {ρ : Type} (pr : PacketReader) (src : ρ) :
    atEnd.run (pr, src) = (ending pr.bytes, (pr, src)) := by
  rw [atEnd, Proc.run_bind_ok (Proc.run_get _), ending]
  simp only
  split_ifs <;> rfl

/-- `src.len` is the length of what is read. -/
theorem length_take_len (src : Source) (n : ℕ) :
    (src.stream.take (src.len n)).length = src.len n :=
  List.length_take_of_le (src.len_le n).2

/-- Between two calls `next_async` keeps exactly the unparsed bytes, or anything if there are none. -/
def IdleAsync (pr : PacketReader) (u : Bytes) : Prop :=
  pr.remaining = u.length ∧ (u ≠ [] → pr.bytes = u)

/-- More precisely, they are all of the vector. -/
def IdleAtStart (pr : PacketReader) (u : Bytes) : Prop :=
  pr.remaining = u.length ∧ (u ≠ [] → pr.bytes = u ∧ pr.start = 0)

theorem IdleAtStart.async {pr : PacketReader} {u : Bytes} (h : IdleAtStart pr u) : IdleAsync pr u :=
  ⟨h.1, fun hu => (h.2 hu).1⟩

/-- At the head of its loop they are `remaining` bytes from `start` on. -/
structure HeadAsync (bufferSize : ℕ) (pr : PacketReader) (u : Bytes) : Prop where
  pos : 0 < bufferSize
  remaining : pr.remaining = u.length
  start : pr.start ≤ pr.bytes.length
  data : u <+: pr.bytes.drop pr.start

theorem HeadAsync.le {c : ℕ} {pr : PacketReader} {u : Bytes} (h : HeadAsync c pr u) :
    u.length ≤ (pr.bytes.drop pr.start).length := h.data.length_le

theorem run_drain {ρ : Type} {pr : PacketReader} {src : ρ} (h : pr.start ≤ pr.bytes.length) :
    drain.run (pr, src) = (.ok (), ({ pr with bytes := pr.bytes.drop pr.start, start := 0 }, src)) := by
  rw [drain, Proc.run_bind_ok (Proc.run_get _)]
  simp only [sliceFrom, if_pos h]
  rfl

theorem parseAsync_found {ρ : Type} {b : Profile} {c : ℕ} {pr : PacketReader} {u rest : Bytes}
    {m : UInt8 × Packet} (src : ρ) (h : HeadAsync c pr u) (hu : packet b u = .ok (rest, m)) :
    ∃ pr', (parseAsync b).run (pr, src) = (.ok (some m), (pr', src)) ∧ IdleAtStart pr' rest := by
  have hne : u.length ≠ 0 := by simpa using ne_nil_of_packet hu
  have hle := h.le
  have hdata : (pr.bytes.drop pr.start).take u.length = u := (List.prefix_iff_eq_take.mp h.data).symm
  rw [parseAsync, Proc.run_bind_ok (Proc.run_get _)]
  simp only [if_pos hne, sliceFrom, if_pos h.start, orPanic, fromRawParts, h.remaining, if_pos hle,
    hdata, pure_bind, hu]
  rcases rest with _ | ⟨x, rest⟩
  · exact ⟨{ pr with remaining := 0 }, rfl, rfl, fun h => absurd rfl h⟩
  · exact ⟨⟨x :: rest, 0, (x :: rest).length⟩, rfl, rfl, fun _ => ⟨rfl, rfl⟩⟩

theorem parseAsync_panics {ρ : Type} {b : Profile} {c : ℕ} {pr : PacketReader} {u : Bytes} (src : ρ)
    (h : HeadAsync c pr u) (hu : packet b u = .error .panic) :
    (parseAsync b).run (pr, src) = (.error .panic, (pr, src)) := by
  have hne : u.length ≠ 0 := by
    intro h0
    rw [List.length_eq_zero_iff.mp h0, packet_nil] at hu
    cases hu
  have hle := h.le
  have hdata : (pr.bytes.drop pr.start).take u.length = u := (List.prefix_iff_eq_take.mp h.data).symm
  rw [parseAsync, Proc.run_bind_ok (Proc.run_get _)]
  simp only [if_pos hne, sliceFrom, if_pos h.start, orPanic, fromRawParts, h.remaining, if_pos hle,
    hdata, pure_bind, hu]
  rfl

theorem parseAsync_more {ρ : Type} {b : Profile} {c : ℕ} {pr : PacketReader} {u : Bytes} (src : ρ)
    (h : HeadAsync c pr u) (hu : packet b u = .error (.err .backtrack)) :
    (parseAsync b).run (pr, src) = (.ok none, (pr, src)) := by
  have hle := h.le
  have hdata : (pr.bytes.drop pr.start).take u.length = u := (List.prefix_iff_eq_take.mp h.data).symm
  rw [parseAsync, Proc.run_bind_ok (Proc.run_get _)]
  simp only [sliceFrom, if_pos h.start, orPanic, fromRawParts, h.remaining, if_pos hle,
    hdata, pure_bind, hu]
  split_ifs <;> rfl

theorem run_readInto_ok {ρ : Type} {r : AsyncRead ρ} {pr : PacketReader} {src src' : ρ} {used : ℕ}
    {data : Bytes} (h : used ≤ pr.bytes.length)
    (hread : (r.read (pr.bytes.length - used)).run src = (.ok data, src')) :
    (readInto r used).run (pr, src) =
      (.ok data.length, (⟨overwrite pr.bytes used data, pr.start, pr.remaining⟩, src')) := by
  have hstream : (onStream (r.read (pr.bytes.length - used))).run (pr, src) = (.ok data, (pr, src')) := by
    simp only [onStream, Proc.run_zoom, hread]
  rw [readInto, Proc.run_bind_ok (Proc.run_get _)]
  simp only [sliceFrom, if_pos h, orPanic, pure_bind, List.length_drop]
  rw [Proc.run_bind_ok hstream, Proc.run_bind_ok (run_update _ _), Proc.run_pure]

theorem run_readInto_error {ρ : Type} {r : AsyncRead ρ} {pr : PacketReader} {src src' : ρ} {used : ℕ}
    {e : Stop} (h : used ≤ pr.bytes.length)
    (hread : (r.read (pr.bytes.length - used)).run src = (.error e, src')) :
    (readInto r used).run (pr, src) = (.error e, (pr, src')) := by
  have hstream : (onStream (r.read (pr.bytes.length - used))).run (pr, src) = (.error e, (pr, src')) := by
    simp only [onStream, Proc.run_zoom, hread]
  rw [readInto, Proc.run_bind_ok (Proc.run_get _)]
  simp only [sliceFrom, if_pos h, orPanic, pure_bind, List.length_drop]
  exact Proc.run_bind_error hstream _

theorem run_readInto {pr : PacketReader} (src : Source) {used : ℕ} (h : used ≤ pr.bytes.length) :
    (readInto Source.asyncRead used).run (pr, src) =
      (.ok (src.len (pr.bytes.length - used)),
        (⟨overwrite pr.bytes used (src.stream.take (src.len (pr.bytes.length - used))), pr.start,
          pr.remaining⟩, src.next (pr.bytes.length - used))) := by
  rw [run_readInto_ok h rfl, length_take_len]

/-- The new data goes behind the old. -/
theorem prefix_overwrite {u w : Bytes} (hw : u <+: w) (data : Bytes) :
    u ++ data <+: overwrite w u.length data := by
  rw [List.prefix_iff_eq_take, List.length_append, take_overwrite hw.length_le,
    ← List.prefix_iff_eq_take.mp hw]

theorem prefix_resize {u w : Bytes} (hw : u <+: w) {n : ℕ} (hn : u.length ≤ n) :
    u <+: resize w n := by
  rw [List.prefix_iff_eq_take, take_resize hn hw.length_le, ← List.prefix_iff_eq_take.mp hw]

/-- The buffer after the optional resize has room. -/
theorem run_reserve {c : ℕ} (hc : 0 < c) {u w : Bytes} (hw : u <+: w) (n m : ℕ) (src : Source) :
    ∃ w', (reserve c u.length).run (⟨w, n, m⟩, src) = (.ok (), (⟨w', n, m⟩, src)) ∧
      u.length < w'.length ∧ u <+: w' := by
  rw [reserve, Proc.run_bind_ok (Proc.run_get _)]
  simp only [subUsize, if_pos hw.length_le, pure_bind]
  split_ifs
  · exact ⟨_, rfl, by rw [length_resize]; omega, prefix_resize hw (by omega)⟩
  · exact ⟨w, rfl, by omega, hw⟩

theorem run_fillAsync {c : ℕ} {pr : PacketReader} {u : Bytes} (src : Source)
    (h : HeadAsync c pr u) : ∃ n v, 0 < n ∧
      (fillAsync Source.asyncRead c).run (pr, src) =
        (.ok (src.len n), (⟨v, 0, u.length + src.len n⟩, src.next n)) ∧
      u ++ src.stream.take (src.len n) <+: v := by
  obtain ⟨w, hw, hlt, hu⟩ := run_reserve h.pos h.data 0 u.length src
  refine ⟨w.length - u.length, overwrite w u.length
    (src.stream.take (src.len (w.length - u.length))), by omega, ?_, prefix_overwrite hu _⟩
  rw [fillAsync, Proc.run_bind_ok (run_drain h.start), Proc.run_bind_ok (Proc.run_get _)]
  simp only [h.remaining]
  rw [Proc.run_bind_ok hw, Proc.run_bind_ok (run_readInto src hlt.le)]
  rfl

/-- **`next_async` keeps the unparsed bytes**, from the start of the vector on. -/
theorem buffers_atStart (b : Profile) :
    Buffers b (roundAsync b Source.asyncRead) IdleAtStart HeadAsync where
  found src h hu := by
    obtain ⟨pr', hrun, hidle⟩ := parseAsync_found src h hu
    refine ⟨pr', ?_, hidle⟩
    rw [roundAsync, Proc.run_bind_ok hrun]
    rfl
  panics src h hu := ⟨_, Proc.run_bind_error (parseAsync_panics src h hu) _⟩
  more {c pr u src} h hu hs := by
    obtain ⟨n, v, hn, hrun, hv⟩ := run_fillAsync src h
    have hlen : src.len n ≠ 0 := (Source.len_pos hn hs).ne'
    refine ⟨n, ⟨v, 0, u.length + src.len n⟩, packetLargeBufferSize, hn, ?_,
      ⟨by decide, ?_, Nat.zero_le _, hv⟩⟩
    · rw [roundAsync, Proc.run_bind_ok (parseAsync_more src h hu)]
      simp only
      rw [Proc.run_bind_ok hrun, if_neg hlen]
      rfl
    · rw [List.length_append, length_take_len]
  last {c pr u src} h hu hs := by
    obtain ⟨n, v, hn, hrun, hv⟩ := run_fillAsync src h
    have hlen : src.len n = 0 := by simp [Source.len, hs]
    rw [hlen, List.take_zero, List.append_nil] at hv
    rw [hlen, Nat.add_zero] at hrun
    have htake : v.take u.length = u := (List.prefix_iff_eq_take.mp hv).symm
    refine ⟨n, ⟨u, 0, u.length⟩, hn, ?_, rfl, fun _ => ⟨rfl, rfl⟩⟩
    rw [roundAsync, Proc.run_bind_ok (parseAsync_more src h hu)]
    simp only
    rw [Proc.run_bind_ok hrun, if_pos rfl, Proc.run_bind_ok (run_update _ _), Proc.run_bind_pure,
      run_atEnd]
    simp only [htake]

theorem buffers_async (b : Profile) :
    Buffers b (roundAsync b Source.asyncRead) IdleAsync HeadAsync :=
  (buffers_atStart b).mono IdleAtStart.async

/-! ### The synchronous version -/

/-- Between two calls `next_read` keeps the unparsed bytes at the end of the vector. -/
def IdleRead (pr : PacketReader) (u : Bytes) : Prop :=
  pr.remaining = u.length ∧ u <:+ pr.bytes

/-- At the head of its loop they are what stands from `start` on. -/
structure HeadRead (_ : Unit) (pr : PacketReader) (u : Bytes) : Prop where
  remaining : pr.remaining = u.length
  start : pr.start ≤ pr.bytes.length
  data : pr.bytes.drop pr.start = u

theorem parseRead_found {ρ : Type} {b : Profile} {c : Unit} {pr : PacketReader} {u rest : Bytes}
    {m : UInt8 × Packet} (src : ρ) (h : HeadRead c pr u) (hu : packet b u = .ok (rest, m)) :
    ∃ pr', (parseRead b).run (pr, src) = (.ok (some m), (pr', src)) ∧ IdleRead pr' rest := by
  have hne : u.length ≠ 0 := by simpa using ne_nil_of_packet hu
  refine ⟨{ pr with remaining := rest.length }, ?_, rfl, ?_⟩
  · rw [parseRead, Proc.run_bind_ok (Proc.run_get _)]
    simp only [if_pos hne, sliceFrom, if_pos h.start, orPanic, h.remaining, h.data, pure_bind, hu]
    rfl
  · -- what is left over is at the end of what was parsed
    obtain ⟨fs, last, -, -, hi, -, -⟩ := packet_eq_ok.mp (show packet b u = .ok (rest, (m.1, m.2)) from hu)
    exact (hi ▸ List.suffix_append _ rest : rest <:+ u).trans (h.data ▸ List.drop_suffix _ _)

theorem parseRead_panics {ρ : Type} {b : Profile} {c : Unit} {pr : PacketReader} {u : Bytes} (src : ρ)
    (h : HeadRead c pr u) (hu : packet b u = .error .panic) :
    (parseRead b).run (pr, src) = (.error .panic, (pr, src)) := by
  have hne : u.length ≠ 0 := by
    intro h0
    rw [List.length_eq_zero_iff.mp h0, packet_nil] at hu
    cases hu
  rw [parseRead, Proc.run_bind_ok (Proc.run_get _)]
  simp only [if_pos hne, sliceFrom, if_pos h.start, orPanic, h.remaining, h.data, pure_bind, hu]
  rfl

theorem parseRead_more {ρ : Type} {b : Profile} {c : Unit} {pr : PacketReader} {u : Bytes} (src : ρ)
    (h : HeadRead c pr u) (hu : packet b u = .error (.err .backtrack)) :
    (parseRead b).run (pr, src) = (.ok none, (pr, src)) := by
  rw [parseRead, Proc.run_bind_ok (Proc.run_get _)]
  simp only [sliceFrom, if_pos h.start, orPanic, h.remaining, h.data, pure_bind, hu]
  split_ifs <;> rfl

theorem run_fillRead {c : Unit} {pr : PacketReader} {u : Bytes} (src : Source)
    (h : HeadRead c pr u) : ∃ n, 0 < n ∧
      (fillRead Source.asyncRead).run (pr, src) =
        (.ok (src.len n), (⟨u ++ src.stream.take (src.len n), 0, u.length + src.len n⟩,
          src.next n)) := by
  have hlen : (resize u (max 4096 (u.length * 2))).length = max 4096 (u.length * 2) :=
    length_resize _ _
  refine ⟨max 4096 (u.length * 2) - u.length, by omega, ?_⟩
  rw [fillRead, Proc.run_bind_ok (run_drain h.start), Proc.run_bind_ok (Proc.run_get _)]
  simp only [h.data]
  rw [Proc.run_bind_ok (run_update _ _), Proc.run_bind_ok (run_readInto src (by rw [hlen]; omega)),
    Proc.run_bind_ok (run_update _ _), Proc.run_bind_ok (run_update _ _), Proc.run_pure]
  have hle : u.length ≤ (resize u (max 4096 (u.length * 2))).length := by rw [hlen]; omega
  have htake := take_overwrite hle
    (src.stream.take (src.len (max 4096 (u.length * 2) - u.length)))
  rw [length_take_len, take_resize (by omega) le_rfl, List.take_length] at htake
  simp only [hlen, htake, List.length_append, length_take_len]

/-- **`next_read` keeps the unparsed bytes.** -/
theorem buffers_read (b : Profile) :
    Buffers b (roundRead b Source.asyncRead) IdleRead HeadRead where
  found src h hu := by
    obtain ⟨pr', hrun, hidle⟩ := parseRead_found src h hu
    refine ⟨pr', ?_, hidle⟩
    rw [roundRead, Proc.run_bind_ok hrun]
    rfl
  panics src h hu := ⟨_, Proc.run_bind_error (parseRead_panics src h hu) _⟩
  more {c pr u src} h hu hs := by
    obtain ⟨n, hn, hrun⟩ := run_fillRead src h
    have hlen : src.len n ≠ 0 := (Source.len_pos hn hs).ne'
    refine ⟨n, ⟨u ++ src.stream.take (src.len n), 0, u.length + src.len n⟩, (), hn, ?_,
      ⟨?_, Nat.zero_le _, rfl⟩⟩
    · rw [roundRead, Proc.run_bind_ok (parseRead_more src h hu)]
      simp only
      rw [Proc.run_bind_ok hrun, if_neg hlen]
      rfl
    · rw [List.length_append, length_take_len]
  last {c pr u src} h hu hs := by
    obtain ⟨n, hn, hrun⟩ := run_fillRead src h
    have hlen : src.len n = 0 := by simp [Source.len, hs]
    rw [hlen, List.take_zero, List.append_nil, Nat.add_zero] at hrun
    refine ⟨n, ⟨u, 0, u.length⟩, hn, ?_, rfl, List.suffix_refl u⟩
    rw [roundRead, Proc.run_bind_ok (parseRead_more src h hu)]
    simp only
    rw [Proc.run_bind_ok hrun, if_pos rfl, Proc.run_bind_pure, run_atEnd]

/-! ### A run of calls -/

/-- `next` over a loop: set `start`, then the rounds. -/
def next {γ ρ : Type} (round : γ → Proc Stop (PacketReader × ρ) (γ ⊕ Option (UInt8 × Packet)))
    (rounds : ℕ) (c : γ) : Proc Stop (PacketReader × ρ) (Option (UInt8 × Packet)) := do
  setStart
  Proc.loop .outOfRounds round rounds c

theorem nextAsync_eq {ρ : Type} (b : Profile) (r : AsyncRead ρ) (rounds : ℕ) :
    nextAsync b r rounds = next (roundAsync b r) rounds packetBufferSize := rfl

theorem nextRead_eq {ρ : Type} (b : Profile) (r : AsyncRead ρ) (rounds : ℕ) :
    nextRead b r rounds = next (roundRead b r) rounds () := rfl

/-- What a run of calls on the stream `i` must return: the messages, then its end again and again. -/
def expected (b : Profile) (i : Bytes) (n : ℕ) : List (Except Stop (Option (UInt8 × Packet))) :=
  ((whileOk (packet b) i).1.map (fun m => Except.ok (some m)) ++
    List.replicate n (ending (whileOk (packet b) i).2)).take n

/-- No buffer that was offered was empty. -/
def AllOffered (src : Source) : Prop := ∀ n ∈ src.offered, 0 < n

theorem AllOffered.next {src : Source} (h : AllOffered src) {n : ℕ} (hn : 0 < n) :
    AllOffered (src.next n) := by
  intro k hk
  rcases List.mem_append.mp hk with hk | hk
  · exact h k hk
  · rw [List.mem_singleton.mp hk]; exact hn

/-- What one call returns and leaves behind, from `u` unparsed bytes and the rest of the stream. -/
def result (b : Profile) (i : Bytes) : Except Stop (Option (UInt8 × Packet)) × Bytes :=
  match packet b i with
  | .ok (rest, m) => (.ok (some m), rest)
  | .error _ => (ending i, i)

section Run
variable {γ : Type} {b : Profile}
  {round : γ → Proc Stop (PacketReader × Source) (γ ⊕ Option (UInt8 × Packet))}
  {Idle : PacketReader → Bytes → Prop} {Head : γ → PacketReader → Bytes → Prop}

theorem append_stream_next (u : Bytes) (src : Source) (n : ℕ) :
    u ++ src.stream.take (src.len n) ++ (src.next n).stream = u ++ src.stream := by
  rw [List.append_assoc, Source.next, List.take_append_drop]

theorem length_stream_next {src : Source} {n : ℕ} (hn : 0 < n) (hs : src.stream ≠ []) :
    (src.next n).stream.length < src.stream.length := by
  have h1 := Source.len_pos hn hs
  have h2 := (src.len_le n).2
  rw [Source.next, List.length_drop]
  omega

/-- One call, by induction on its rounds: every round that goes on has read something. -/
theorem Buffers.run_loop (hB : Buffers b round Idle Head) : ∀ (rounds : ℕ) (c : γ)
    (pr : PacketReader) (u : Bytes) (src : Source), Head c pr u →
    src.stream.length < rounds → packet b (u ++ src.stream) ≠ .error .panic →
    ∃ pr' u' src', (Proc.loop .outOfRounds round rounds c).run (pr, src) =
        ((result b (u ++ src.stream)).1, (pr', src')) ∧ Idle pr' u' ∧
      u' ++ src'.stream = (result b (u ++ src.stream)).2 ∧
      src'.stream.length ≤ src.stream.length ∧ (AllOffered src → AllOffered src')
  | 0, _, _, _, _, _, hr, _ => by omega
  | rounds + 1, c, pr, u, src, hh, hr, hp => by
    rcases hu : packet b u with e | ⟨rest, m⟩
    · rcases packet_eq_error hu with rfl | rfl
      · exact absurd (packet_panic_append hu src.stream) hp
      rcases eq_or_ne src.stream [] with hs | hs
      · -- the end of the stream
        obtain ⟨n, pr', hn, hrun, hidle⟩ := hB.last hh hu hs
        have hres : result b (u ++ src.stream) = (ending u, u) := by
          rw [hs, List.append_nil, result, hu]
        have hstream : (src.next n).stream = [] := by simp [Source.next, hs]
        refine ⟨pr', u, src.next n, ?_, hidle, ?_, ?_, fun ho => ho.next hn⟩
        · rw [hres]
          rw [ending] at hrun ⊢
          split_ifs at hrun ⊢
          · exact Proc.loop_break hrun
          · exact Proc.loop_stop hrun
        · rw [hres, hstream, List.append_nil]
        · rw [hstream]; exact Nat.zero_le _
      · obtain ⟨n, pr', c', hn, hrun, hhead⟩ := hB.more hh hu hs
        have hlt := length_stream_next hn hs
        have happ := append_stream_next u src n
        obtain ⟨pr2, u2, src2, h1, h2, h3, h4, h5⟩ := hB.run_loop rounds c' pr' _ (src.next n) hhead
          (by omega) (by rw [happ]; exact hp)
        rw [happ] at h1 h3
        exact ⟨pr2, u2, src2, by rw [Proc.loop_again hrun, h1], h2, h3, by omega,
          fun ho => h5 (ho.next hn)⟩
    · obtain ⟨pr', hrun, hidle⟩ := hB.found src hh hu
      have hres : result b (u ++ src.stream) = (.ok (some m), rest ++ src.stream) := by
        rw [result, stable_packet b _ _ _ src.stream hu]
      exact ⟨pr', rest, src, by rw [hres]; exact Proc.loop_break hrun, hidle, by rw [hres], le_rfl,
        fun ho => ho⟩

/-- A message whose numbers are wrong is a panic, however it is cut. -/
theorem Buffers.run_loop_panic (hB : Buffers b round Idle Head) : ∀ (rounds : ℕ) (c : γ)
    (pr : PacketReader) (u : Bytes) (src : Source), Head c pr u →
    src.stream.length < rounds → packet b (u ++ src.stream) = .error .panic →
    ∃ s, (Proc.loop .outOfRounds round rounds c).run (pr, src) = (.error .panic, s)
  | 0, _, _, _, _, _, hr, _ => by omega
  | rounds + 1, c, pr, u, src, hh, hr, hp => by
    rcases hu : packet b u with e | ⟨rest, m⟩
    · rcases packet_eq_error hu with rfl | rfl
      · obtain ⟨s, hrun⟩ := hB.panics src hh hu
        exact ⟨s, Proc.loop_stop hrun⟩
      rcases eq_or_ne src.stream [] with hs | hs
      · rw [hs, List.append_nil, hu] at hp
        cases hp
      · obtain ⟨n, pr', c', hn, hrun, hhead⟩ := hB.more hh hu hs
        have hlt := length_stream_next hn hs
        obtain ⟨s, hs⟩ := hB.run_loop_panic rounds c' pr' _ (src.next n) hhead (by omega)
          (by rw [append_stream_next]; exact hp)
        exact ⟨s, by rw [Proc.loop_again hrun, hs]⟩
    · rw [stable_packet b _ _ _ src.stream hu] at hp
      cases hp

/-- What is left over never panics again. -/
theorem result_rest (i : Bytes) : (whileOk (packet b) (result b i).2).2 = (whileOk (packet b) i).2 := by
  rw [result]
  rcases h : packet b i with e | ⟨rest, m⟩
  · rfl
  · rw [whileOk_ok (consuming_packet b) h]

theorem packet_ne_panic {i : Bytes} (h : packet b (whileOk (packet b) i).2 ≠ .error .panic) :
    packet b i ≠ .error .panic := by
  intro hp
  rw [whileOk_error hp] at h
  exact h hp

theorem expected_succ (i : Bytes) (n : ℕ) :
    expected b i (n + 1) = (result b i).1 :: expected b (result b i).2 n := by
  rw [result]
  rcases h : packet b i with e | ⟨rest, m⟩
  · simp only [expected, whileOk_error h, List.map_nil, List.nil_append, List.take_replicate,
      min_self]
    rfl
  · have hlen : n ≤ ((whileOk (packet b) rest).1.map (fun m => Except.ok (some m)) ++
        List.replicate n (ending (whileOk (packet b) rest).2)).length := by simp
    simp only [expected, whileOk_ok (consuming_packet b) h, List.map_cons, List.cons_append,
      List.take_succ_cons]
    rw [List.replicate_succ', ← List.append_assoc, List.take_append_of_le_length hlen]

/-- What `n` calls leave of a stream. -/
def unread (b : Profile) (n : ℕ) (i : Bytes) : Bytes := (fun i => (result b i).2)^[n] i

/-- After calls that do not panic the rest of the stream is held. -/
theorem Buffers.idle_after (hB : Buffers b round Idle Head) {c : γ}
    (henter : ∀ {pr u} (src : Source), Idle pr u →
      ∃ pr', setStart.run (pr, src) = (.ok (), (pr', src)) ∧ Head c pr' u) {rounds : ℕ} :
    ∀ (n : ℕ) (pr : PacketReader) (u : Bytes) (src : Source), Idle pr u → src.stream.length < rounds →
      (∀ r ∈ Proc.results (next round rounds c) n (pr, src), r ≠ .error .panic) →
      ∃ u', Idle (Proc.after (next round rounds c) n (pr, src)).1 u' ∧
        u' ++ (Proc.after (next round rounds c) n (pr, src)).2.stream = unread b n (u ++ src.stream)
  | 0, _, u, _, hi, _, _ => ⟨u, hi, rfl⟩
  | n + 1, pr, u, src, hi, hr, hok => by
    obtain ⟨pr1, hstart, hhead⟩ := henter src hi
    have hnext : (next round rounds c).run (pr, src) =
        (Proc.loop .outOfRounds round rounds c).run (pr1, src) := by
      rw [next, Proc.run_bind_ok hstart]
    rw [Proc.results, hnext] at hok
    rw [Proc.after, hnext]
    have hp : packet b (u ++ src.stream) ≠ .error .panic := by
      intro hp
      obtain ⟨s, hs⟩ := hB.run_loop_panic rounds c pr1 u src hhead hr hp
      rw [hs] at hok
      exact hok _ (by simp) rfl
    obtain ⟨pr', u', src', hrun, hidle, happ, hle, -⟩ := hB.run_loop rounds c pr1 u src hhead hr hp
    rw [hrun] at hok ⊢
    obtain ⟨u2, hidle2, happ2⟩ := hB.idle_after henter n pr' u' src' hidle (hle.trans_lt hr)
      fun r hr => hok r (by simp [hr])
    exact ⟨u2, hidle2, by rw [happ2, happ, unread, unread, Function.iterate_succ_apply]⟩

/-- **A run of calls** returns what the whole stream holds, however it is cut. -/
theorem Buffers.results_next (hB : Buffers b round Idle Head) {c : γ}
    (henter : ∀ {pr u} (src : Source), Idle pr u →
      ∃ pr', setStart.run (pr, src) = (.ok (), (pr', src)) ∧ Head c pr' u) {rounds : ℕ} :
    ∀ (n : ℕ) (pr : PacketReader) (u : Bytes) (src : Source), Idle pr u → AllOffered src →
      src.stream.length < rounds →
      packet b (whileOk (packet b) (u ++ src.stream)).2 ≠ .error .panic →
      Proc.results (next round rounds c) n (pr, src) = expected b (u ++ src.stream) n ∧
        AllOffered (Proc.after (next round rounds c) n (pr, src)).2
  | 0, _, _, _, _, ho, _, _ => ⟨by simp [Proc.results, expected], ho⟩
  | n + 1, pr, u, src, hi, ho, hr, hp => by
    obtain ⟨pr1, hstart, hhead⟩ := henter src hi
    obtain ⟨pr', u', src', hrun, hidle, happ, hle, hoff⟩ :=
      hB.run_loop rounds c pr1 u src hhead hr (packet_ne_panic hp)
    have hnext : (next round rounds c).run (pr, src) = ((result b (u ++ src.stream)).1, (pr', src')) := by
      rw [next, Proc.run_bind_ok hstart, hrun]
    obtain ⟨h1, h2⟩ := hB.results_next henter n pr' u' src' hidle (hoff ho) (hle.trans_lt hr)
      (by rw [happ, result_rest]; exact hp)
    rw [Proc.results, Proc.after, hnext, expected_succ, ← happ]
    exact ⟨by rw [h1], h2⟩

end Run

theorem run_setStart {ρ : Type} {pr : PacketReader} (src : ρ) (h : pr.remaining ≤ pr.bytes.length) :
    setStart.run (pr, src) =
      (.ok (), ({ pr with start := pr.bytes.length - pr.remaining }, src)) := by
  rw [setStart, Proc.run_bind_ok (Proc.run_get _)]
  simp only [subUsize, if_pos h]
  rfl

theorem enter_async {ρ : Type} {pr : PacketReader} {u : Bytes} (src : ρ) (h : IdleAsync pr u) :
    ∃ pr', setStart.run (pr, src) = (.ok (), (pr', src)) ∧ HeadAsync packetBufferSize pr' u := by
  obtain ⟨hr, hd⟩ := h
  rcases eq_or_ne u [] with rfl | hu
  · rw [List.length_nil] at hr
    refine ⟨_, run_setStart src (by omega), ⟨by decide, hr, ?_, List.nil_prefix⟩⟩
    simp
  · have hd := hd hu
    refine ⟨_, run_setStart src (by rw [hr, hd]), ⟨by decide, hr, ?_, ?_⟩⟩
    · simp
    · simp [hr, hd]

theorem enter_read {ρ : Type} {pr : PacketReader} {u : Bytes} (src : ρ) (h : IdleRead pr u) :
    ∃ pr', setStart.run (pr, src) = (.ok (), (pr', src)) ∧ HeadRead () pr' u := by
  obtain ⟨hr, hd⟩ := h
  refine ⟨_, run_setStart src (by rw [hr]; exact hd.length_le), ⟨hr, ?_, ?_⟩⟩
  · simp
  · rw [hr]; exact (List.suffix_iff_eq_drop.mp hd).symm

/-- What an asynchronous reader and its stream still hold. -/
def Holds (x : PacketReader × Source) (i : Bytes) : Prop :=
  ∃ u, IdleAsync x.1 u ∧ u ++ x.2.stream = i

theorem holds_new (stream : Bytes) (cut : ℕ → ℕ) : Holds (.new, .new stream cut) stream :=
  ⟨[], ⟨rfl, fun h => absurd rfl h⟩, rfl⟩

/-- **One call of `next_async`** takes one message off what is held. -/
theorem run_nextAsync {b : Profile} {x : PacketReader × Source} {i rest : Bytes}
    {m : UInt8 × Packet} {rounds : ℕ} (hx : Holds x i) (hr : x.2.stream.length < rounds)
    (hp : packet b i = .ok (rest, m)) :
    ∃ x', (nextAsync b Source.asyncRead rounds).run x = (.ok (some m), x') ∧ Holds x' rest ∧
      x'.2.stream.length ≤ x.2.stream.length := by
  obtain ⟨pr, src⟩ := x
  obtain ⟨u, hu, rfl⟩ := hx
  obtain ⟨pr1, hstart, hhead⟩ := enter_async src hu
  obtain ⟨pr', u', src', hrun, hidle, happ, hle, -⟩ :=
    (buffers_async b).run_loop rounds _ pr1 u src hhead hr (by rw [hp]; simp)
  rw [result, hp] at hrun happ
  exact ⟨(pr', src'), by rw [nextAsync, Proc.run_bind_ok hstart, hrun], ⟨u', hidle, happ⟩, hle⟩

theorem run_nextAsync_panic {b : Profile} {x : PacketReader × Source} {i : Bytes} {rounds : ℕ}
    (hx : Holds x i) (hr : x.2.stream.length < rounds) (hp : packet b i = .error .panic) :
    ∃ x', (nextAsync b Source.asyncRead rounds).run x = (.error .panic, x') := by
  obtain ⟨pr, src⟩ := x
  obtain ⟨u, hu, rfl⟩ := hx
  obtain ⟨pr1, hstart, hhead⟩ := enter_async src hu
  obtain ⟨s, hrun⟩ := (buffers_async b).run_loop_panic rounds _ pr1 u src hhead hr hp
  exact ⟨s, by rw [nextAsync, Proc.run_bind_ok hstart, hrun]⟩

/-- **Chunking independence**: however the stream is cut, both versions return its messages and then
its end; they never panic and never offer an empty buffer. -/
theorem results_reader (b : Profile) (stream : Bytes)
    (h : packet b (whileOk (packet b) stream).2 ≠ .error .panic) (cut : ℕ → ℕ) (rounds n : ℕ)
    (hr : stream.length < rounds) :
    (Proc.results (nextAsync b Source.asyncRead rounds) n (.new, .new stream cut) =
        expected b stream n ∧
      AllOffered (Proc.after (nextAsync b Source.asyncRead rounds) n (.new, .new stream cut)).2) ∧
    (Proc.results (nextRead b Source.asyncRead rounds) n (.new, .new stream cut) =
        expected b stream n ∧
      AllOffered (Proc.after (nextRead b Source.asyncRead rounds) n (.new, .new stream cut)).2) := by
  have ho : AllOffered (.new stream cut) := by intro k hk; cases hk
  refine ⟨?_, ?_⟩
  · rw [nextAsync_eq]
    exact (buffers_async b).results_next enter_async n .new [] (.new stream cut)
      ⟨rfl, fun h => absurd rfl h⟩ ho hr h
  · rw [nextRead_eq]
    exact (buffers_read b).results_next enter_read n .new [] (.new stream cut)
      ⟨rfl, List.nil_suffix⟩ ho hr h

/-- A ping that arrives byte by byte, and a second message that is cut off. -/
theorem results_reader_ping :
    packet .dev (whileOk (packet .dev) [1, 0, 0, 0, 0x0e, 1, 0]).2 ≠ .error .panic ∧
    Proc.results (nextAsync .dev Source.asyncRead 8) 3 (.new, .new [1, 0, 0, 0, 0x0e, 1, 0] fun _ => 1) =
      [.ok (some (0, [0x0e])), .error (unhandled 2), .error (unhandled 2)] := by
  have h : packet .dev (whileOk (packet .dev) [1, 0, 0, 0, 0x0e, 1, 0]).2 ≠ .error .panic := by
    decide
  refine ⟨h, ((results_reader .dev _ h (fun _ => 1) 8 3 (by decide)).1.1).trans ?_⟩
  decide

end Haentgl.Protocol.Reader
