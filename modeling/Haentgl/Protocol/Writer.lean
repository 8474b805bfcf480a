import Haentgl.Protocol.Io
import Haentgl.Protocol.Packets

/-! # `PacketWriter`

The writer collects a payload and writes it as frames when the packet is ended: pieces of the maximal
length and a last piece, numbered from the writer's counter on, which moves on by one with every
frame. An empty payload is one empty frame and leaves the counter where it is. A short
`write_vectored` is completed by `write_all`, but not the one of the empty frame.

What is written for a payload is `frames` (`run_endPacket`). A payload whose length is a positive
multiple of the maximal length ends in a full frame; the protocol wants an empty frame after it, which
the writer does not send. `Recoverable` says what `packet` reads back, and `numberedFrom_outAll_iff`
when the frames of a row of payloads are numbered through. -/

namespace Haentgl.Protocol.Writer

open Haentgl.Lib.Parse Haentgl.Lib.Program Haentgl.Protocol.Constants Haentgl.Protocol.Io
open Haentgl.Protocol.Packets

/-- The buffer and the counter. -/
structure PacketWriter where
  buf : Bytes
  seq : UInt8
  deriving DecidableEq, Repr

namespace PacketWriter

def new : PacketWriter := ⟨[], 0⟩

def setSeq (w : PacketWriter) (seq : UInt8) : PacketWriter := { w with seq := seq }

def increaseSeq (w : PacketWriter) : PacketWriter := { w with seq := w.seq + 1 }

def resetSeq (w : PacketWriter) : PacketWriter := { w with seq := 0 }

/-- `write_all` on the writer: the bytes go to the buffer. -/
def write (w : PacketWriter) (bytes : Bytes) : PacketWriter := { w with buf := w.buf ++ bytes }

def takeBuffer (w : PacketWriter) : PacketWriter := { w with buf := [] }

end PacketWriter

/-! ### Ending a packet -/

section Model
variable {τ α : Type} (w : AsyncWrite τ)

/-- Run on the inner writer. -/
def inner (p : Proc Stop τ α) : Proc Stop (PacketWriter × τ) α :=
  Proc.zoom Prod.snd (fun t s => (s.1, t)) p

/-- The header of a frame. -/
def header (len : ℕ) (seq : UInt8) : Bytes := leBytes 3 len ++ [seq]

/-- One round of the loop over the pieces. -/
def writeChunk (chunk : Bytes) : Proc Stop (PacketWriter × τ) Unit := do
  let (pw, _) ← Proc.get
  let header := header chunk.length pw.seq
  Proc.modify fun s => (s.1.increaseSeq, s.2)
  let written ← inner (w.writeVectored header chunk)
  -- the rest of a short write
  if written ≠ packetHeaderLen + chunk.length then
    inner (w.writeAll ((header ++ chunk).drop written))

def writeChunks : List Bytes → Proc Stop (PacketWriter × τ) Unit
  | [] => pure ()
  | c :: cs => do
    writeChunk w c
    writeChunks cs

def endPacket : Proc Stop (PacketWriter × τ) Unit := do
  let (pw, _) ← Proc.get
  if pw.buf ≠ [] then
    Proc.modify fun s => (s.1.takeBuffer, s.2)
    writeChunks w (chunks maxPayloadLen pw.buf)
  else
    let _size ← inner (w.writeVectored (header 0 pw.seq) [])

/-- Write payloads one after another. -/
def endPackets : List Bytes → Proc Stop (PacketWriter × τ) Unit
  | [] => pure ()
  | p :: ps => do
    Proc.modify fun s => (s.1.write p, s.2)
    endPacket w
    endPackets ps

end Model

/-! ### The frames of a payload -/

/-- Number the pieces from `s` on. -/
def numberFrom : UInt8 → List Bytes → List Frame
  | _, [] => []
  | s, c :: cs => ⟨s, c⟩ :: numberFrom (s + 1) cs

/-- The frames `end_packet` writes. -/
def frames (s : UInt8) (p : Bytes) : List Frame :=
  if p = [] then [⟨s, []⟩] else numberFrom s (chunks maxPayloadLen p)

/-- The counter after `end_packet`. -/
def seqAfter (s : UInt8) (p : Bytes) : UInt8 :=
  s + UInt8.ofNat (chunks maxPayloadLen p).length

/-- The number of the last frame. -/
def lastSeq (s : UInt8) (p : Bytes) : UInt8 := ((frames s p).getLast?.map Frame.seq).getD s

theorem lastSeq_of_short {x : UInt8} {p : Packet} (h : p.length < maxPayloadLen) : lastSeq x p = x := by
  unfold lastSeq frames
  split_ifs with hp
  · rfl
  · rw [chunks_of_le (by decide) hp h.le]
    rfl

theorem seqAfter_of_short {x : UInt8} {p : Packet} (hne : p ≠ []) (h : p.length < maxPayloadLen) :
    seqAfter x p = x + 1 := by
  rw [seqAfter, chunks_of_le (by decide) hne h.le]
  rfl

theorem frame_bytes_eq (s : UInt8) (c : Bytes) :
    (Frame.mk s c).bytes = header c.length s ++ c := by
  simp [Frame.bytes, header]

@[simp] theorem length_header (n : ℕ) (s : UInt8) : (header n s).length = packetHeaderLen := by
  simp [header, packetHeaderLen]

@[simp] theorem length_numberFrom : ∀ (s : UInt8) (cs : List Bytes),
    (numberFrom s cs).length = cs.length
  | _, [] => rfl
  | s, c :: cs => by simp [numberFrom, length_numberFrom (s + 1) cs]

@[simp] theorem map_payload_numberFrom : ∀ (s : UInt8) (cs : List Bytes),
    (numberFrom s cs).map Frame.payload = cs
  | _, [] => rfl
  | s, c :: cs => by simp [numberFrom, map_payload_numberFrom (s + 1) cs]

theorem add_ofNat_succ (s : UInt8) (n : ℕ) :
    s + 1 + UInt8.ofNat n = s + UInt8.ofNat (n + 1) := by
  rw [UInt8.add_assoc, UInt8.add_comm 1, UInt8.ofNat_add]
  rfl

theorem numberFrom_append : ∀ (s : UInt8) (cs ds : List Bytes),
    numberFrom s (cs ++ ds) = numberFrom s cs ++ numberFrom (s + UInt8.ofNat cs.length) ds
  | s, [], ds => by simp [numberFrom]
  | s, c :: cs, ds => by
    simp [numberFrom, numberFrom_append (s + 1) cs ds, add_ofNat_succ]

/-- The counter goes on behind the last frame, unless the payload is empty. -/
theorem seqAfter_eq_lastSeq {s : UInt8} {p : Bytes} (hp : p ≠ []) : seqAfter s p = lastSeq s p + 1 := by
  have hne : chunks maxPayloadLen p ≠ [] := by
    rw [chunks_of_ne_nil maxPayloadLen_pos hp]
    exact List.cons_ne_nil _ _
  obtain ⟨cs, c, hcs⟩ := (List.eq_nil_or_concat _).resolve_left hne
  rw [List.concat_eq_append] at hcs
  rw [seqAfter, lastSeq, frames, if_neg hp, hcs, numberFrom_append, List.length_append,
    List.length_singleton, ← add_ofNat_succ]
  simp only [numberFrom, List.getLast?_append, List.getLast?_singleton, Option.some_or, Option.map_some,
    Option.getD_some]
  rw [UInt8.add_assoc, UInt8.add_assoc, UInt8.add_comm 1]

/-! ### What `end_packet` writes -/

/-- How much of `n` bytes the next `write_vectored` takes. -/
def taken (k : Sink) (n : ℕ) : ℕ := min (k.accept k.turn n) n

theorem run_writeVectored (k : Sink) (h c : Bytes) :
    (Sink.asyncWrite.writeVectored h c).run k = (.ok (taken k (h ++ c).length),
      { k with out := k.out ++ (h ++ c).take (taken k (h ++ c).length), turn := k.turn + 1 }) :=
  rfl

theorem run_inner {τ α : Type} {p : Proc Stop τ α} {t t' : τ} {r : Except Stop α}
    (h : p.run t = (r, t')) (pw : PacketWriter) : (inner p).run (pw, t) = (r, (pw, t')) := by
  simp only [inner, Proc.run_zoom, h]

/-- A piece is delivered whole, whatever part of it the first write takes. -/
theorem run_writeChunk (pw : PacketWriter) (k : Sink) (c : Bytes) :
    (writeChunk Sink.asyncWrite c).run (pw, k) =
      (.ok (), (pw.increaseSeq,
        { k with out := k.out ++ (Frame.mk pw.seq c).bytes, turn := k.turn + 1 })) := by
  have hlen : (header c.length pw.seq ++ c).length = packetHeaderLen + c.length := by simp
  rw [writeChunk, Proc.run_bind_ok (Proc.run_get _), Proc.run_bind_ok (Proc.run_modify _ _),
    Proc.run_bind_ok (run_inner (run_writeVectored k _ c) _), frame_bytes_eq, hlen]
  simp only
  split_ifs with h
  · simp only [inner, Proc.run_zoom, Sink.asyncWrite, Proc.run_modify, List.append_assoc,
      List.take_append_drop]
  · -- everything was taken at once
    rw [not_not] at h
    rw [Proc.run_pure, h, ← hlen, List.take_length]

theorem run_writeChunks : ∀ (cs : List Bytes) (pw : PacketWriter) (k : Sink),
    (writeChunks Sink.asyncWrite cs).run (pw, k) =
      (.ok (), ({ pw with seq := pw.seq + UInt8.ofNat cs.length },
        { k with out := k.out ++ wire (numberFrom pw.seq cs), turn := k.turn + cs.length }))
  | [], pw, k => by simp [writeChunks, wire, numberFrom]
  | c :: cs, pw, k => by
    rw [writeChunks, Proc.run_bind_ok (run_writeChunk pw k c), run_writeChunks cs]
    simp [numberFrom, wire, PacketWriter.increaseSeq, add_ofNat_succ]
    omega

/-- What is written for the payload `p`: its frames, or as much of the one empty frame as the inner
writer takes. -/
def written (k : Sink) (s : UInt8) (p : Bytes) : Bytes :=
  if p = [] then (header 0 s).take (taken k packetHeaderLen) else wire (frames s p)

/-- The inner writer after a payload. -/
def sinkAfter (k : Sink) (s : UInt8) (p : Bytes) : Sink :=
  { k with out := k.out ++ written k s p, turn := k.turn + (frames s p).length }

/-- **Ending a packet**: the payload goes out as its frames and the counter moves on. -/
theorem run_endPacket (p : Bytes) (s : UInt8) (k : Sink) :
    (endPacket Sink.asyncWrite).run (⟨p, s⟩, k) =
      (.ok (), (⟨[], seqAfter s p⟩, sinkAfter k s p)) := by
  rw [endPacket, Proc.run_bind_ok (Proc.run_get _)]
  simp only
  split_ifs with hp
  · rw [Proc.run_bind_ok (Proc.run_modify _ _), run_writeChunks]
    simp [PacketWriter.takeBuffer, seqAfter, sinkAfter, written, frames, hp]
  · rw [not_not] at hp
    subst hp
    rw [Proc.run_bind_ok (run_inner (run_writeVectored k _ []) _)]
    simp [seqAfter, sinkAfter, written, frames]

/-- What `end_packet` writes for a row of payloads. -/
def writtenAll : Sink → UInt8 → List Bytes → Bytes
  | _, _, [] => []
  | k, s, p :: ps => written k s p ++ writtenAll (sinkAfter k s p) (seqAfter s p) ps

theorem run_endPackets : ∀ (ps : List Bytes) (s : UInt8) (k : Sink),
    ∃ s' n, (endPackets Sink.asyncWrite ps).run (⟨[], s⟩, k) =
      (.ok (), (⟨[], s'⟩, { k with out := k.out ++ writtenAll k s ps, turn := n }))
  | [], s, k => ⟨s, k.turn, by simp [endPackets, writtenAll]⟩
  | p :: ps, s, k => by
    obtain ⟨s', n, h⟩ := run_endPackets ps (seqAfter s p) (sinkAfter k s p)
    refine ⟨s', n, ?_⟩
    rw [endPackets, Proc.run_bind_ok (Proc.run_modify _ _)]
    simp only [PacketWriter.write, List.nil_append]
    rw [Proc.run_bind_ok (run_endPacket p s k), h]
    simp [writtenAll, sinkAfter]

/-! ### Short writes -/

/-- The pieces of payloads, one payload after another. -/
def allChunks (ps : List Bytes) : List Bytes := ps.flatMap (chunks maxPayloadLen)

theorem wire_append (fs gs : List Frame) : wire (fs ++ gs) = wire fs ++ wire gs := List.flatMap_append

/-- One payload: its pieces are frames whatever the inner writer takes. -/
theorem run_endPacket_chunks {p : Bytes} (hp : p ≠ []) (s : UInt8) (k : Sink) :
    (endPacket Sink.asyncWrite).run (⟨p, s⟩, k) =
      (.ok (), (⟨[], s + UInt8.ofNat (chunks maxPayloadLen p).length⟩,
        ⟨k.out ++ wire (numberFrom s (chunks maxPayloadLen p)), k.accept,
          k.turn + (chunks maxPayloadLen p).length⟩)) := by
  rw [run_endPacket, sinkAfter, written, if_neg hp, frames, if_neg hp, length_numberFrom]
  rfl

/-- **Short writes do not corrupt the stream.** Whatever part of the vectors the inner writer takes, the
bytes of a row of payloads are their pieces as frames, numbered through, and the counter has moved on by
their number. -/
theorem run_endPackets_chunks : ∀ (ps : List Bytes) (s : UInt8) (k : Sink), (∀ p ∈ ps, p ≠ []) →
    (endPackets Sink.asyncWrite ps).run (⟨[], s⟩, k) =
      (.ok (), (⟨[], s + UInt8.ofNat (allChunks ps).length⟩,
        ⟨k.out ++ wire (numberFrom s (allChunks ps)), k.accept, k.turn + (allChunks ps).length⟩))
  | [], s, k, _ => by simp [endPackets, allChunks, numberFrom, wire]
  | p :: ps, s, k, h => by
    have hp := run_endPacket_chunks (h p (by simp)) s k
    have ih := run_endPackets_chunks ps (s + UInt8.ofNat (chunks maxPayloadLen p).length)
      ⟨k.out ++ wire (numberFrom s (chunks maxPayloadLen p)), k.accept,
        k.turn + (chunks maxPayloadLen p).length⟩ fun q hq => h q (by simp [hq])
    have hcons : allChunks (p :: ps) = chunks maxPayloadLen p ++ allChunks ps := List.flatMap_cons
    rw [endPackets, Proc.run_bind_ok (Proc.run_modify _ _)]
    simp only [PacketWriter.write, List.nil_append]
    rw [Proc.run_bind_ok hp, ih, hcons, numberFrom_append, wire_append, List.length_append,
      UInt8.ofNat_add]
    simp only [List.append_assoc, Nat.add_assoc, UInt8.add_assoc]

/-- Two payloads from the number 255 on, of which the inner writer takes two bytes and then none. -/
theorem run_endPackets_short : (∀ p ∈ [[1], [2, 3]], p ≠ ([] : Bytes)) ∧
    (endPackets Sink.asyncWrite [[1], [2, 3]]).run (⟨[], 255⟩, .new fun n _ => if n = 0 then 2 else 0) =
      (.ok (), (⟨[], 255 + UInt8.ofNat (allChunks [[1], [2, 3]]).length⟩,
        ⟨[] ++ wire (numberFrom 255 (allChunks [[1], [2, 3]])), fun n _ => if n = 0 then 2 else 0,
          0 + (allChunks [[1], [2, 3]]).length⟩)) ∧
    wire (numberFrom 255 (allChunks [[1], [2, 3]])) = [1, 0, 0, 255, 1, 2, 0, 0, 0, 2, 3] :=
  ⟨by decide, run_endPackets_chunks [[1], [2, 3]] 255 _ (by decide), by decide⟩

/-! ### Reading back -/

/-- The payload is nonempty and does not end in a full frame, or it is empty and the inner writer takes
the header at once. -/
def Closed (k : Sink) (p : Bytes) : Prop :=
  if p = [] then packetHeaderLen ≤ k.accept k.turn packetHeaderLen
  else p.length % maxPayloadLen ≠ 0

instance (k : Sink) (p : Bytes) : Decidable (Closed k p) := by
  unfold Closed; infer_instance

/-- A checked build does not overflow between the full frames. -/
def NoWrap (b : Profile) (s : UInt8) (p : Bytes) : Prop :=
  b = .dev → s.toNat + p.length / maxPayloadLen ≤ 256

instance (b : Profile) (s : UInt8) (p : Bytes) : Decidable (NoWrap b s p) :=
  inferInstanceAs (Decidable (b = .dev → _))

/-- What the writer must be given to be understood. -/
def Recoverable (b : Profile) (k : Sink) (s : UInt8) (p : Bytes) : Prop :=
  Closed k p ∧ NoWrap b s p

/-- The same for payloads that are written one after another. -/
def RecoverableAll (b : Profile) : Sink → UInt8 → List Bytes → Prop
  | _, _, [] => True
  | k, s, p :: ps => Recoverable b k s p ∧ RecoverableAll b (sinkAfter k s p) (seqAfter s p) ps

theorem allFull_numberFrom (s : UInt8) {cs : List Bytes}
    (hcs : ∀ c ∈ cs, c.length = maxPayloadLen) : AllFull (numberFrom s cs) := by
  intro f hf
  refine hcs f.payload ?_
  rw [← map_payload_numberFrom s cs]
  exact List.mem_map_of_mem hf

@[simp] theorem payloads_numberFrom (s : UInt8) (cs : List Bytes) :
    payloads (numberFrom s cs) = cs.flatten := by
  rw [payloads, List.flatMap_def, map_payload_numberFrom]

/-- The numbers follow each other; only a checked build minds the wrap-around. -/
theorem numbered_numberFrom (b : Profile) : ∀ (s : UInt8) (cs : List Bytes),
    Numbered b (numberFrom s cs) ↔ (b = .dev → s.toNat + cs.length ≤ 256)
  | s, [] => by
    have := s.toNat_lt
    simp [Numbered, numberFrom]; omega
  | s, [c] => by
    have := s.toNat_lt
    simp [Numbered, numberFrom]; omega
  | s, c :: d :: cs => by
    have ih := numbered_numberFrom b (s + 1) (d :: cs)
    have hs := s.toNat_lt
    have hadd : (s + 1).toNat = (s.toNat + 1) % 256 := by simp [UInt8.toNat_add]
    simp only [Numbered, numberFrom, List.map_cons, List.isChain_cons_cons, List.length_cons] at ih ⊢
    rw [ih, hadd, addU8]
    by_cases hb : b = .dev
    · simp [hb]; omega
    · simp [hb]

/-- The pieces of a message: full ones and a shorter one, which may be empty. -/
def closedChunks (p : Bytes) : List Bytes :=
  if p.length % maxPayloadLen = 0 then chunks maxPayloadLen p ++ [[]] else chunks maxPayloadLen p

/-- The frames of a message as the protocol has them. -/
def messageFrames (s : UInt8) (p : Bytes) : List Frame := numberFrom s (closedChunks p)

theorem closedChunks_pieces {cs : List Bytes} {c : Bytes} (hcs : ∀ x ∈ cs, x.length = maxPayloadLen)
    (hc : c.length < maxPayloadLen) : closedChunks (cs.flatten ++ c) = cs ++ [c] := by
  have hmod : (cs.flatten ++ c).length % maxPayloadLen = c.length := by
    rw [List.length_append, length_flatten_pieces hcs, Nat.mul_add_mod, Nat.mod_eq_of_lt hc]
  rw [closedChunks, hmod, chunks_pieces maxPayloadLen_pos hcs]
  rcases eq_or_ne c [] with rfl | hne
  · simp
  · rw [chunks_of_le maxPayloadLen_pos hne hc.le, if_neg (by simpa using hne)]

theorem messageFrames_eq (s : UInt8) (p : Bytes) :
    ∃ cs last, messageFrames s p = numberFrom s cs ++ [last] ∧ IsMessage (numberFrom s cs) last ∧
      cs.length = p.length / maxPayloadLen ∧ cs.flatten ++ last.payload = p ∧
      last.seq = s + UInt8.ofNat cs.length := by
  obtain ⟨cs, c, hcs, hc, rfl⟩ := exists_pieces maxPayloadLen_pos p
  refine ⟨cs, ⟨s + UInt8.ofNat cs.length, c⟩, ?_, ⟨allFull_numberFrom s hcs, hc⟩, ?_, rfl, rfl⟩
  · rw [messageFrames, closedChunks_pieces hcs hc, numberFrom_append]
    rfl
  · rw [List.length_append, length_flatten_pieces hcs, Nat.mul_add_div maxPayloadLen_pos,
      Nat.div_eq_of_lt hc]
    rfl

/-- `packet` on a message followed by anything. -/
theorem packet_messageFrames (b : Profile) (s : UInt8) (p rest : Bytes) :
    packet b (wire (messageFrames s p) ++ rest) =
      if NoWrap b s p then .ok (rest, (s + UInt8.ofNat (p.length / maxPayloadLen), p))
      else .error .panic := by
  obtain ⟨cs, last, hf, hm, hlen, hpay, hseq⟩ := messageFrames_eq s p
  have hbytes : wire (messageFrames s p) = wire (numberFrom s cs) ++ last.bytes := by
    simp [hf, wire]
  have hnum : Numbered b (numberFrom s cs) ↔ NoWrap b s p := by
    rw [numbered_numberFrom, NoWrap, hlen]
  rw [hbytes, packet_message b hm, payloads_numberFrom, hpay, hseq, hlen]
  simp only [hnum]

/-- The writer's frames are those of the message if the payload does not end in a full frame. -/
theorem frames_eq_messageFrames (s : UInt8) {p : Bytes}
    (hp : p = [] ∨ p.length % maxPayloadLen ≠ 0) : frames s p = messageFrames s p := by
  rw [frames, messageFrames, closedChunks]
  rcases eq_or_ne p [] with rfl | hne
  · simp [numberFrom]
  · rw [if_neg hne, if_neg (hp.resolve_left hne)]

/-- The bytes of a message with payload `p`. -/
def messageLen (p : Bytes) : ℕ := packetHeaderLen * (p.length / maxPayloadLen + 1) + p.length

theorem length_wire : ∀ fs : List Frame,
    (wire fs).length = packetHeaderLen * fs.length + (payloads fs).length
  | [] => rfl
  | f :: fs => by
    have ih := length_wire fs
    simp only [wire, payloads, List.flatMap_cons, List.length_append, List.length_cons,
      length_bytes] at ih ⊢
    rw [ih, Nat.mul_add]; omega

theorem length_payloads {fs : List Frame} (h : AllFull fs) :
    (payloads fs).length = maxPayloadLen * fs.length := by
  have hm : ∀ x ∈ fs.map Frame.payload, x.length = maxPayloadLen := by
    intro x hx
    obtain ⟨f, hf, rfl⟩ := List.mem_map.mp hx
    exact h f hf
  rw [payloads, List.flatMap_def, length_flatten_pieces hm, List.length_map]

/-- What `packet` takes for a payload. -/
theorem length_of_packet {b : Profile} {i rest p : Bytes} {q : UInt8}
    (h : packet b i = .ok (rest, (q, p))) : i.length = messageLen p + rest.length := by
  obtain ⟨fs, last, hm, -, rfl, -, rfl⟩ := packet_eq_ok.mp h
  have hl := length_payloads hm.full
  rw [messageLen, List.length_append, List.length_append, List.length_append, hl,
    Nat.mul_add_div maxPayloadLen_pos, Nat.div_eq_of_lt hm.short, length_wire, length_bytes, hl]
  ring

/-- The number of frames: one for every full piece, and one for the rest if there is a rest. -/
theorem length_chunks (p : Bytes) : (chunks maxPayloadLen p).length =
    p.length / maxPayloadLen + if p.length % maxPayloadLen = 0 then 0 else 1 := by
  obtain ⟨cs, c, hcs, hc, rfl⟩ := exists_pieces maxPayloadLen_pos p
  have hdiv : (cs.flatten ++ c).length / maxPayloadLen = cs.length := by
    rw [List.length_append, length_flatten_pieces hcs, Nat.mul_add_div maxPayloadLen_pos,
      Nat.div_eq_of_lt hc]
    rfl
  have hmod : (cs.flatten ++ c).length % maxPayloadLen = c.length := by
    rw [List.length_append, length_flatten_pieces hcs, Nat.mul_add_mod, Nat.mod_eq_of_lt hc]
  rw [chunks_pieces maxPayloadLen_pos hcs, List.length_append, hdiv, hmod]
  rcases eq_or_ne c [] with rfl | hne
  · simp
  · simp [chunks_of_le maxPayloadLen_pos hne hc.le, hne]

theorem payloads_frames (s : UInt8) (p : Bytes) : payloads (frames s p) = p := by
  rw [frames]
  split_ifs with hp
  · simp [payloads, hp]
  · obtain ⟨cs, c, hcs, hc, rfl⟩ := exists_pieces maxPayloadLen_pos p
    rw [payloads_numberFrom, chunks_pieces maxPayloadLen_pos hcs]
    rcases eq_or_ne c [] with rfl | hne
    · simp
    · simp [chunks_of_le maxPayloadLen_pos hne hc.le]

theorem length_written_nil (k : Sink) (s : UInt8) :
    (written k s []).length = taken k packetHeaderLen := by
  simp [written, taken]

theorem length_written (k : Sink) (s : UInt8) {p : Bytes} (hp : p ≠ []) :
    (written k s p).length = packetHeaderLen * (chunks maxPayloadLen p).length + p.length := by
  rw [written, if_neg hp, length_wire, payloads_frames, frames, if_neg hp, length_numberFrom]

/-- The writer never writes more than a message takes. -/
theorem length_written_le (k : Sink) (s : UInt8) (p : Bytes) :
    (written k s p).length ≤ messageLen p := by
  rw [messageLen]
  rcases eq_or_ne p [] with rfl | hp
  · rw [length_written_nil]; simp [taken]
  · rw [length_written k s hp, length_chunks]
    split_ifs <;> simp [Nat.mul_add]

/-- It writes that much unless the closing frame is missing. -/
theorem length_written_eq (k : Sink) (s : UInt8) (p : Bytes) :
    (written k s p).length = messageLen p ↔ Closed k p := by
  rw [messageLen, Closed]
  rcases eq_or_ne p [] with rfl | hp
  · rw [length_written_nil]; simp [taken]
  · rw [length_written k s hp, length_chunks, if_neg hp]
    have : 0 < packetHeaderLen := by decide
    split_ifs with h
    · simp [h, Nat.mul_add]; omega
    · simp [h]

/-- A closed payload is written as its frames. -/
theorem written_closed {k : Sink} {p : Bytes} (h : Closed k p) (s : UInt8) :
    written k s p = wire (frames s p) ∧ (p = [] ∨ p.length % maxPayloadLen ≠ 0) := by
  rw [Closed] at h
  rw [written]
  split_ifs at h ⊢ with hp
  · refine ⟨?_, Or.inl hp⟩
    rw [frames, if_pos hp, List.take_of_length_le (by simp [taken, h])]
    simp [wire, frame_bytes_eq]
  · exact ⟨rfl, Or.inr h⟩

theorem lastSeq_messageFrames {s : UInt8} {p : Bytes} (h : frames s p = messageFrames s p) :
    lastSeq s p = s + UInt8.ofNat (p.length / maxPayloadLen) := by
  obtain ⟨cs, last, hf, -, hlen, -, hseq⟩ := messageFrames_eq s p
  rw [lastSeq, h, hf, ← hlen, ← hseq]
  simp

/-- What `packet` makes of a closed payload. -/
theorem packet_written {b : Profile} {k : Sink} {s : UInt8} {p : Bytes} (h : Closed k p)
    (rest : Bytes) : packet b (written k s p ++ rest) =
      if NoWrap b s p then .ok (rest, (lastSeq s p, p)) else .error .panic := by
  obtain ⟨hw, hp⟩ := written_closed h s
  have hf := frames_eq_messageFrames s hp
  rw [hw, lastSeq_messageFrames hf, hf, packet_messageFrames]

/-- **One payload** is read back exactly if it is recoverable. -/
theorem packet_written_iff (b : Profile) (k : Sink) (s : UInt8) (p rest : Bytes) :
    packet b (written k s p ++ rest) = .ok (rest, (lastSeq s p, p)) ↔ Recoverable b k s p := by
  constructor
  · intro h
    have hlen := length_of_packet h
    rw [List.length_append] at hlen
    have hc : Closed k p := (length_written_eq k s p).mp (by omega)
    rw [packet_written hc] at h
    split_ifs at h with hn
    exact ⟨hc, hn⟩
  · rintro ⟨hc, hn⟩
    rw [packet_written hc, if_pos hn]

/-- The messages that are read account for the bytes. -/
theorem length_whileOk (b : Profile) (i : Bytes) :
    i.length = ((whileOk (packet b) i).1.map fun m => messageLen m.2).sum +
      (whileOk (packet b) i).2.length := by
  induction i using whileOk_induction (consuming_packet b) with
  | ok i r a h ih =>
    rw [length_of_packet h, ih, whileOk_ok (consuming_packet b) h, List.map_cons, List.sum_cons]
    exact (Nat.add_assoc _ _ _).symm
  | error i e h => rw [whileOk_error h]; simp

theorem length_writtenAll_le : ∀ (ps : List Bytes) (k : Sink) (s : UInt8),
    (writtenAll k s ps).length ≤ (ps.map messageLen).sum
  | [], _, _ => le_rfl
  | p :: ps, k, s => by
    have h1 := length_written_le k s p
    have h2 := length_writtenAll_le ps (sinkAfter k s p) (seqAfter s p)
    rw [writtenAll, List.length_append, List.map_cons, List.sum_cons]
    omega

/-- The payloads that were written come back, and nothing is left over. -/
def Recovers (b : Profile) (i : Bytes) (ps : List Bytes) : Prop :=
  (whileOk (packet b) i).1.map Prod.snd = ps ∧ (whileOk (packet b) i).2 = []

/-- **A row of payloads** is read back exactly if every one of them is recoverable. -/
theorem recovers_writtenAll (b : Profile) : ∀ (ps : List Bytes) (k : Sink) (s : UInt8),
    Recovers b (writtenAll k s ps) ps ↔ RecoverableAll b k s ps
  | [], k, s => by
    simp only [writtenAll, RecoverableAll, iff_true]
    exact ⟨rfl, rfl⟩
  | p :: ps, k, s => by
    have ih := recovers_writtenAll b ps (sinkAfter k s p) (seqAfter s p)
    rw [writtenAll, RecoverableAll, ← ih, ← packet_written_iff b k s p
      (writtenAll (sinkAfter k s p) (seqAfter s p) ps)]
    constructor
    · rintro ⟨hps, hrest⟩
      -- the lengths leave no room for a missing frame
      have hlen := length_whileOk b
        (written k s p ++ writtenAll (sinkAfter k s p) (seqAfter s p) ps)
      have hsum : ((whileOk (packet b) (written k s p ++
          writtenAll (sinkAfter k s p) (seqAfter s p) ps)).1.map fun m => messageLen m.2).sum =
          ((p :: ps).map messageLen).sum := by
        rw [← hps, List.map_map]; rfl
      rw [hsum, hrest, List.length_append, List.map_cons, List.sum_cons, List.length_nil] at hlen
      have h1 := length_written_le k s p
      have h2 := length_writtenAll_le ps (sinkAfter k s p) (seqAfter s p)
      have hc : Closed k p := (length_written_eq k s p).mp (by omega)
      have hpk := packet_written (b := b) (s := s) hc
        (writtenAll (sinkAfter k s p) (seqAfter s p) ps)
      split_ifs at hpk with hn
      · rw [whileOk_ok (consuming_packet b) hpk] at hps hrest
        exact ⟨hpk, by simpa using hps, hrest⟩
      · rw [whileOk_error hpk] at hps
        simp at hps
    · rintro ⟨hpk, hps, hrest⟩
      rw [Recovers, whileOk_ok (consuming_packet b) hpk]
      exact ⟨by simp [hps], hrest⟩

/-- What `end_packet` writes for the buffer `p` from the number `s` on. -/
def out (accept : ℕ → ℕ → ℕ) (s : UInt8) (p : Bytes) : Bytes :=
  ((endPacket Sink.asyncWrite).run (⟨p, s⟩, Sink.new accept)).2.2.out

/-- What it writes for payloads one after another. -/
def outAll (accept : ℕ → ℕ → ℕ) (s : UInt8) (ps : List Bytes) : Bytes :=
  ((endPackets Sink.asyncWrite ps).run (⟨[], s⟩, Sink.new accept)).2.2.out

theorem out_eq (accept : ℕ → ℕ → ℕ) (s : UInt8) (p : Bytes) :
    out accept s p = written (Sink.new accept) s p := by
  rw [out, run_endPacket]
  simp [sinkAfter, Sink.new]

theorem outAll_eq (accept : ℕ → ℕ → ℕ) (s : UInt8) (ps : List Bytes) :
    outAll accept s ps = writtenAll (Sink.new accept) s ps := by
  obtain ⟨s', n, h⟩ := run_endPackets ps s (Sink.new accept)
  rw [outAll, h]
  simp [Sink.new]

/-- **The framing round trip**, for one payload and for a row of payloads: it fails at the positive
multiples of the maximal length, for an empty payload whose header is cut short, and where a checked
build would let the number wrap around. -/
theorem packet_out_iff (b : Profile) (accept : ℕ → ℕ → ℕ) (s : UInt8) :
    (∀ p rest, packet b (out accept s p ++ rest) = .ok (rest, (lastSeq s p, p)) ↔
      Recoverable b (Sink.new accept) s p) ∧
    ∀ ps, Recovers b (outAll accept s ps) ps ↔ RecoverableAll b (Sink.new accept) s ps := by
  refine ⟨fun p rest => ?_, fun ps => ?_⟩
  · rw [out_eq, packet_written_iff]
  · rw [outAll_eq, recovers_writtenAll]

/-- A payload of exactly the maximal length is not read back. -/
theorem packet_out_maxPayloadLen :
    packet .release (out (fun _ n => n) 0 (List.replicate maxPayloadLen 0) ++ []) ≠
      .ok ([], (lastSeq 0 (List.replicate maxPayloadLen 0), List.replicate maxPayloadLen 0)) := by
  rw [out_eq, Ne, packet_written_iff]
  rintro ⟨hc, -⟩
  have hne : List.replicate maxPayloadLen (0 : UInt8) ≠ [] := by
    simp [List.replicate_eq_nil_iff, maxPayloadLen_pos.ne']
  rw [Closed, if_neg hne, List.length_replicate, Nat.mod_self] at hc
  exact hc rfl

/-! ### The numbers of a row of payloads -/

/-- The frames that a stream starts with. -/
def framesOf (i : Bytes) : List Frame := (whileOk onePacket i).1.map fun f => ⟨f.1, f.2⟩

/-- The frame at place `i` has the number `s + i`. -/
def NumberedFrom (s : UInt8) (fs : List Frame) : Prop :=
  ∀ i f, fs[i]? = some f → f.seq = s + UInt8.ofNat i

/-- The frames of payloads that are written one after another. -/
def framesAll : UInt8 → List Bytes → List Frame
  | _, [] => []
  | s, p :: ps => frames s p ++ framesAll (seqAfter s p) ps

theorem consuming_onePacket : Consuming onePacket := by
  rintro i r ⟨q, p⟩ h
  obtain ⟨rfl, -⟩ := onePacket_eq_ok.mp h
  simp [length_bytes, packetHeaderLen]

/-- Frames can be read off their bytes. -/
theorem framesOf_wire {fs : List Frame} (h : ∀ f ∈ fs, f.payload.length ≤ maxPayloadLen) :
    framesOf (wire fs) = fs := by
  induction fs with
  | nil => rfl
  | cons f fs ih =>
    have hf : onePacket (wire (f :: fs)) = .ok (wire fs, (f.seq, f.payload)) :=
      onePacket_eq_ok.mpr ⟨by simp [wire], h f (by simp)⟩
    have hfs : framesOf (wire fs) = fs := ih fun g hg => h g (by simp [hg])
    rw [framesOf, whileOk_ok consuming_onePacket hf, List.map_cons]
    exact congrArg (f :: ·) hfs

theorem length_payload_frames {s : UInt8} {p : Bytes} {f : Frame} (hf : f ∈ frames s p) :
    f.payload.length ≤ maxPayloadLen := by
  rw [frames] at hf
  split_ifs at hf with hp
  · rw [List.mem_singleton.mp hf]
    exact Nat.zero_le _
  · have hmem : f.payload ∈ (numberFrom s (chunks maxPayloadLen p)).map Frame.payload :=
      List.mem_map_of_mem hf
    rw [map_payload_numberFrom] at hmem
    exact length_of_mem_chunks maxPayloadLen_pos hmem

theorem length_payload_framesAll : ∀ (ps : List Bytes) (s : UInt8),
    ∀ f ∈ framesAll s ps, f.payload.length ≤ maxPayloadLen
  | [], _, f, hf => by simp [framesAll] at hf
  | p :: ps, s, f, hf => by
    rw [framesAll] at hf
    rcases List.mem_append.mp hf with hf | hf
    · exact length_payload_frames hf
    · exact length_payload_framesAll ps _ f hf

/-- A sink that takes everything is given all frames. -/
theorem writtenAll_eq_wire : ∀ (ps : List Bytes) (s : UInt8) (k : Sink),
    (∀ j n, n ≤ k.accept j n) → writtenAll k s ps = wire (framesAll s ps)
  | [], _, _, _ => rfl
  | p :: ps, s, k, hk => by
    have ih := writtenAll_eq_wire ps (seqAfter s p) (sinkAfter k s p) hk
    have hp : written k s p = wire (frames s p) := by
      rcases eq_or_ne p [] with rfl | hne
      · have hclosed : Closed k [] := hk k.turn packetHeaderLen
        exact (written_closed hclosed s).1
      · rw [written, if_neg hne]
    rw [writtenAll, framesAll, wire_append, ih, hp]

theorem numberedFrom_cons (s : UInt8) (f : Frame) (fs : List Frame) :
    NumberedFrom s (f :: fs) ↔ f.seq = s ∧ NumberedFrom (s + 1) fs := by
  constructor
  · intro h
    refine ⟨by simpa using h 0 f rfl, fun i g hg => ?_⟩
    rw [add_ofNat_succ]
    exact h (i + 1) g (by simpa using hg)
  · rintro ⟨hf, h⟩ i g hg
    rcases i with _ | i
    · obtain rfl : f = g := by simpa using hg
      simpa using hf
    · rw [← add_ofNat_succ]
      exact h i g (by simpa using hg)

/-- The pieces of a payload are numbered through, so the numbers depend on what follows. -/
theorem numberedFrom_append : ∀ (cs : List Bytes) (s : UInt8) (gs : List Frame),
    NumberedFrom s (numberFrom s cs ++ gs) ↔ NumberedFrom (s + UInt8.ofNat cs.length) gs
  | [], s, gs => by simp [numberFrom]
  | c :: cs, s, gs => by
    rw [numberFrom, List.cons_append, numberedFrom_cons, numberedFrom_append cs, add_ofNat_succ]
    simp

/-- The first frame of a payload has the number of the counter. -/
theorem exists_frames_cons (s : UInt8) (p : Bytes) : ∃ f fs, frames s p = f :: fs ∧ f.seq = s := by
  rw [frames]
  split_ifs with hp
  · exact ⟨_, [], rfl, rfl⟩
  · rw [chunks_of_ne_nil maxPayloadLen_pos hp]
    exact ⟨_, _, rfl, rfl⟩

/-- The numbers go wrong behind an empty payload, and nowhere else. -/
theorem numberedFrom_framesAll : ∀ (ps : List Bytes) (s : UInt8),
    NumberedFrom s (framesAll s ps) ↔ ∀ p ∈ ps.dropLast, p ≠ []
  | [], s => by simp [framesAll, NumberedFrom]
  | [p], s => by
    have hnil : NumberedFrom (seqAfter s p) [] := by simp [NumberedFrom]
    simp only [framesAll, List.append_nil, frames, List.dropLast_singleton, List.not_mem_nil,
      false_imp_iff, implies_true, iff_true]
    split_ifs with hp
    · rw [numberedFrom_cons]
      exact ⟨rfl, by simp [NumberedFrom]⟩
    · have h := (numberedFrom_append (chunks maxPayloadLen p) s []).mpr hnil
      rwa [List.append_nil] at h
  | p :: q :: ps, s => by
    have ih := numberedFrom_framesAll (q :: ps) (seqAfter s p)
    rw [List.dropLast_cons_cons, List.forall_mem_cons, framesAll]
    rcases eq_or_ne p [] with rfl | hp
    · -- the counter has not moved, so the next frame has the same number
      obtain ⟨f, fs, hf, hseq⟩ := exists_frames_cons s q
      have hsame : seqAfter s [] = s := by simp [seqAfter]
      rw [hsame, framesAll, hf, frames, if_pos rfl, List.singleton_append, numberedFrom_cons,
        List.cons_append, numberedFrom_cons, hseq]
      simp
    · rw [frames, if_neg hp, numberedFrom_append]
      exact ih.trans (by simp [hp])

/-- **The numbers of a row of payloads** that a sink takes whole: the frames are numbered through if
and only if no payload but the last is empty. -/
theorem numberedFrom_outAll_iff {accept : ℕ → ℕ → ℕ} (h : ∀ k n, n ≤ accept k n) (s : UInt8)
    (ps : List Bytes) :
    wire (framesOf (outAll accept s ps)) = outAll accept s ps ∧
      (NumberedFrom s (framesOf (outAll accept s ps)) ↔ ∀ p ∈ ps.dropLast, p ≠ []) := by
  have hout : outAll accept s ps = wire (framesAll s ps) := by
    rw [outAll_eq]
    exact writtenAll_eq_wire ps s (Sink.new accept) h
  have hframes : framesOf (outAll accept s ps) = framesAll s ps := by
    rw [hout]
    exact framesOf_wire (length_payload_framesAll ps s)
  rw [hframes]
  exact ⟨hout.symm, numberedFrom_framesAll ps s⟩

/-- Only the last payload is empty; the number wraps around. -/
theorem numberedFrom_outAll_last :
    wire (framesOf (outAll (fun _ n => n) 255 [[7], []])) = outAll (fun _ n => n) 255 [[7], []] ∧
      (NumberedFrom 255 (framesOf (outAll (fun _ n => n) 255 [[7], []])) ↔
        ∀ p ∈ [[7], []].dropLast, p ≠ ([] : Bytes)) :=
  numberedFrom_outAll_iff (fun _ _ => le_rfl) 255 [[7], []]

/-- The frame behind an empty payload repeats its number. -/
theorem outAll_empty_first : ¬ NumberedFrom 0 (framesOf (outAll (fun _ n => n) 0 [[], [1]])) := by
  have hframes : framesOf (outAll (fun _ n => n) 0 [[], [1]]) = [⟨0, []⟩, ⟨0, [1]⟩] := by decide
  intro h
  have hseq := h 1 ⟨0, [1]⟩ (by rw [hframes]; rfl)
  exact absurd hseq (by decide)

end Haentgl.Protocol.Writer
