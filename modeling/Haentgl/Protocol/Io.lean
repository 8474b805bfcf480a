import Haentgl.Lib.Parse
import Haentgl.Lib.Program

/-! # Sockets

How a task stops, and the two halves of a byte stream. A reader is given the length of the buffer it
may fill, a writer the bytes it may take. `Source` and `Sink` are the two halves with an arbitrary
behaviour: a source returns any non-empty piece that fits the buffer, nothing only at the end of the
stream; a sink takes any part of what `write_vectored` offers and everything `write_all` offers. -/

namespace Haentgl.Protocol.Io

open Haentgl.Lib.Parse Haentgl.Lib.Program

/-- The kinds of errors the proxy creates or meets. -/
inductive ErrorKind
  | connectionAborted
  | connectionReset
  | invalidData
  | permissionDenied
  | unexpectedEof
  | connectionRefused
  | notConnected
  | notFound
  deriving DecidableEq, Repr

/-- `std::io::Error`. -/
structure IoError where
  kind : ErrorKind
  message : String
  deriving DecidableEq, Repr

/-- The two links of the proxy. -/
inductive Side
  | client
  | backend
  deriving DecidableEq, Repr

/-- Why a task does not return a value: an error it returns, a panic, a read that nothing will ever
answer, or a loop that has not ended within the given number of rounds. -/
inductive Stop
  | io (e : IoError)
  | panic
  | blocked (side : Side)
  | outOfRounds
  deriving DecidableEq, Repr

/-- A checked operation whose failure is a panic. -/
def orPanic {σ α : Type} : Option α → Proc Stop σ α
  | some a => pure a
  | none => Proc.stop .panic

/-- `a - b` on `usize`. -/
def subUsize {σ : Type} (a b : ℕ) : Proc Stop σ ℕ :=
  if b ≤ a then pure (a - b) else Proc.stop .panic

/-- The reading half of a stream: `read n` fills a buffer of length `n`. -/
structure AsyncRead (ρ : Type) where
  read : ℕ → Proc Stop ρ Bytes

/-- The writing half of a stream. -/
structure AsyncWrite (τ : Type) where
  writeVectored : Bytes → Bytes → Proc Stop τ ℕ
  writeAll : Bytes → Proc Stop τ Unit

/-! ### A source that splits its stream in any way -/

/-- What is not read yet, how much the `n`-th read would return, how many reads there were, and the
lengths of the buffers that were offered. -/
structure Source where
  stream : Bytes
  cut : ℕ → ℕ
  turn : ℕ
  offered : List ℕ

namespace Source

/-- The source at the start of a stream. -/
def new (stream : Bytes) (cut : ℕ → ℕ) : Source := ⟨stream, cut, 0, []⟩

/-- How many bytes the next read returns: at least one if there is one and room for it. -/
def len (s : Source) (n : ℕ) : ℕ := min (max 1 (s.cut s.turn)) (min n s.stream.length)

/-- The source after a read. -/
def next (s : Source) (n : ℕ) : Source :=
  ⟨s.stream.drop (s.len n), s.cut, s.turn + 1, s.offered ++ [n]⟩

def asyncRead : AsyncRead Source where
  read n := do
    let s ← Proc.get
    Proc.modify fun s => s.next n
    return s.stream.take (s.len n)

theorem len_pos {s : Source} {n : ℕ} (hn : 0 < n) (hs : s.stream ≠ []) : 0 < s.len n := by
  have := List.length_pos_iff.mpr hs
  unfold len
  omega

theorem len_le (s : Source) (n : ℕ) : s.len n ≤ n ∧ s.len n ≤ s.stream.length := by
  unfold len
  omega

end Source

/-! ### A sink that takes any part of what it is offered -/

/-- What was delivered, how much of `n` bytes the `k`-th `write_vectored` takes, and how many there
were. -/
structure Sink where
  out : Bytes
  accept : ℕ → ℕ → ℕ
  turn : ℕ

namespace Sink

/-- A sink that nothing has been written to. -/
def new (accept : ℕ → ℕ → ℕ) : Sink := ⟨[], accept, 0⟩

def asyncWrite : AsyncWrite Sink where
  writeVectored header chunk := do
    let s ← Proc.get
    let n := min (s.accept s.turn (header ++ chunk).length) (header ++ chunk).length
    Proc.modify fun s => { s with out := s.out ++ (header ++ chunk).take n, turn := s.turn + 1 }
    return n
  writeAll bytes := Proc.modify fun s => { s with out := s.out ++ bytes }

end Sink

end Haentgl.Protocol.Io
