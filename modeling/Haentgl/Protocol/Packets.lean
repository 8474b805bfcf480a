import Haentgl.Protocol.Constants

/-! # Frames and packets

A frame is three bytes of length, a sequence number and the payload. A message is a row of frames of
the maximal length and one shorter frame. `packet` takes full frames as long as there are some,
then one more frame, and merges the payloads; it compares the numbers of the full frames with each
other, not the last one, and returns the number of the last frame.

`packet_eq_ok` and `packet_eq_panic` say which inputs it accepts and on which the assertion about the
numbers fails; on every other input it asks for more. Both are stable under more input
(`stable_packet`, `packet_panic_append`). -/

namespace Haentgl.Protocol.Packets

open Haentgl.Lib.Parse Haentgl.Protocol.Constants

/-- The payload of a message. -/
abbrev Packet := Bytes

/-- One frame. -/
structure Frame where
  seq : UInt8
  payload : Bytes
  deriving DecidableEq, Repr

/-- A frame on the wire. -/
def Frame.bytes (f : Frame) : Bytes := leBytes 3 f.payload.length ++ f.seq :: f.payload

/-! ### The parsers -/

/-- A frame of the maximal length. -/
def fullPacket (i : Bytes) : Except Failure (Bytes × UInt8 × Bytes) := do
  let (i, _) ← literal [0xff, 0xff, 0xff] i
  let (i, seq) ← take 1 i
  let (i, bytes) ← take maxPayloadLen i
  return (i, (seq.headD 0, bytes))

/-- A frame of any length. -/
def onePacket (i : Bytes) : Except Failure (Bytes × UInt8 × Bytes) := do
  let (i, length) ← leUint 3 i
  let (i, seq) ← take 1 i
  let (i, bytes) ← take length i
  return (i, (seq.headD 0, bytes))

/-- One round of the loop over the full frames: the number must follow the previous one. -/
def addFull (b : Profile) (acc : Bytes × Option UInt8) (f : UInt8 × Bytes) :
    Except Failure (Bytes × Option UInt8) :=
  match acc.2 with
  | none => .ok (acc.1 ++ f.2, some f.1)
  | some prevSeq =>
    if addU8 b prevSeq 1 = some f.1 then .ok (acc.1 ++ f.2, some f.1) else .error .panic

/-- A message: its number and its payload. -/
def packet (b : Profile) (i : Bytes) : Except Failure (Bytes × UInt8 × Packet) := do
  let (fullPackets, input) := whileOk fullPacket i
  let (input, (lastSeq, lastP)) ← onePacket input
  let (pktData, _) ← fullPackets.foldlM (addFull b) ([], none)
  return (input, (lastSeq, pktData ++ lastP))

/-! ### The kinds of packets -/

section Kinds
variable (p : Packet)

/-- The first byte is `h`. -/
def hasHeader (h : HeaderInfo) : Bool := p.head? == some h.toU8

def isEofPacket : Bool := hasHeader p .eofHeader && p.length ≤ 5

def isResultSetEofPacket : Bool := hasHeader p .eofHeader && (7 ≤ p.length && p.length < 0xffffff)

def isOkPacket : Bool := hasHeader p .okHeader

def isErrPacket : Bool := hasHeader p .errHeader

def isLocalInFilePacket : Bool := hasHeader p .localInFileHeader

end Kinds

/-! ### What the parsers accept -/

theorem leBytes_maxPayloadLen : leBytes 3 maxPayloadLen = [0xff, 0xff, 0xff] := by decide

theorem fullPacket_eq_ok {i r p : Bytes} {q : UInt8} :
    fullPacket i = .ok (r, (q, p)) ↔ i = (Frame.mk q p).bytes ++ r ∧ p.length = maxPayloadLen := by
  simp only [fullPacket, Frame.bytes, bind_eq_ok, Prod.exists, literal_eq_ok, take_eq_ok,
    pure_eq_ok, Prod.mk.injEq]
  constructor
  · rintro ⟨i1, l, ⟨rfl, rfl⟩, i2, s, ⟨rfl, hs⟩, i3, bs, ⟨rfl, hl⟩, rfl, rfl, rfl⟩
    obtain ⟨x, rfl⟩ := List.length_eq_one_iff.mp hs
    exact ⟨by simp [hl, leBytes_maxPayloadLen], hl⟩
  · rintro ⟨rfl, hl⟩
    refine ⟨q :: p ++ r, _, ⟨?_, rfl⟩, p ++ r, [q], ⟨rfl, rfl⟩, r, p, ⟨rfl, hl⟩, rfl, rfl, rfl⟩
    rw [hl, leBytes_maxPayloadLen, List.append_assoc]

theorem onePacket_eq_ok {i r p : Bytes} {q : UInt8} :
    onePacket i = .ok (r, (q, p)) ↔ i = (Frame.mk q p).bytes ++ r ∧ p.length ≤ maxPayloadLen := by
  have hM := maxPayloadLen_eq
  simp only [onePacket, Frame.bytes, bind_eq_ok, Prod.exists, leUint_eq_ok, take_eq_ok,
    pure_eq_ok, Prod.mk.injEq]
  constructor
  · rintro ⟨i1, n, ⟨b, rfl, hb, rfl⟩, i2, s, ⟨rfl, hs⟩, i3, bs, ⟨rfl, hl⟩, rfl, rfl, rfl⟩
    obtain ⟨x, rfl⟩ := List.length_eq_one_iff.mp hs
    have hlt := leNat_lt b
    rw [hb] at hlt
    refine ⟨?_, by omega⟩
    rw [hl, ← hb, leBytes_leNat]
    simp
  · rintro ⟨rfl, hl⟩
    refine ⟨q :: p ++ r, p.length, ⟨_, List.append_assoc _ _ _, length_leBytes _ _, ?_⟩,
      p ++ r, [q], ⟨rfl, rfl⟩, r, p, ⟨rfl, rfl⟩, rfl, rfl, rfl⟩
    exact leNat_leBytes (by omega)

/-- A frame that is cut off is asked for again. -/
theorem onePacket_eq_error {i : Bytes} {e : Failure} (h : onePacket i = .error e) :
    e = .err .backtrack := by
  unfold onePacket at h
  rcases h1 : leUint 3 i with e1 | ⟨i1, n⟩
  · rw [h1] at h; cases h; exact leUint_eq_error h1
  rw [h1] at h
  rcases h2 : take 1 i1 with e2 | ⟨i2, s⟩
  · simp only [bind, Except.bind, h2] at h; cases h; exact take_eq_error h2
  rcases h3 : take n i2 with e3 | ⟨i3, p⟩
  · simp only [bind, Except.bind, h2, h3] at h; cases h; exact take_eq_error h3
  · simp [bind, Except.bind, h2, h3, pure, Except.pure] at h

theorem length_bytes (f : Frame) : f.bytes.length = packetHeaderLen + f.payload.length := by
  simp [Frame.bytes, packetHeaderLen]; omega

theorem consuming_fullPacket : Consuming fullPacket := by
  rintro i r ⟨q, p⟩ h
  obtain ⟨rfl, -⟩ := fullPacket_eq_ok.mp h
  simp [length_bytes, packetHeaderLen]

/-! ### The loop over the full frames -/

/-- Every frame has the maximal length. -/
def AllFull (fs : List Frame) : Prop := ∀ f ∈ fs, f.payload.length = maxPayloadLen

/-- The frames of a list, one after another. -/
def wire (fs : List Frame) : Bytes := fs.flatMap Frame.bytes

/-- The payloads of a list, one after another. -/
def payloads (fs : List Frame) : Bytes := fs.flatMap Frame.payload

/-- What the assertion about the numbers of the full frames demands. -/
def Numbered (b : Profile) (fs : List Frame) : Prop :=
  (fs.map Frame.seq).IsChain fun x y => addU8 b x 1 = some y

instance (b : Profile) (fs : List Frame) : Decidable (Numbered b fs) := by
  unfold Numbered; infer_instance

theorem whileOk_wire {fs : List Frame} {j : Bytes} {e : Failure} (hfs : AllFull fs)
    (hj : fullPacket j = .error e) :
    whileOk fullPacket (wire fs ++ j) = (fs.map fun f => (f.seq, f.payload), j) := by
  induction fs with
  | nil => exact whileOk_error hj
  | cons f fs ih =>
    have hf : fullPacket (wire (f :: fs) ++ j) = .ok (wire fs ++ j, (f.seq, f.payload)) :=
      fullPacket_eq_ok.mpr ⟨by simp [wire], hfs f (by simp)⟩
    rw [whileOk_ok consuming_fullPacket hf, ih fun g hg => hfs g (by simp [hg])]
    rfl

/-- Every input is a row of full frames and something that does not start with a full frame. -/
theorem exists_fulls (i : Bytes) :
    ∃ fs j e, AllFull fs ∧ i = wire fs ++ j ∧ fullPacket j = .error e := by
  induction i using whileOk_induction consuming_fullPacket with
  | ok i r a h ih =>
    obtain ⟨q, p⟩ := a
    obtain ⟨fs, j, e, hfs, rfl, hj⟩ := ih
    obtain ⟨rfl, hp⟩ := fullPacket_eq_ok.mp h
    refine ⟨⟨q, p⟩ :: fs, j, e, ?_, by simp [wire], hj⟩
    intro f hf
    rcases List.mem_cons.mp hf with rfl | hf
    · exact hp
    · exact hfs f hf
  | error i e h => exact ⟨[], i, e, by simp [AllFull], rfl, h⟩

/-- One round of the loop, by what the assertion demands of it. -/
theorem addFull_ok {b : Profile} {o : Option UInt8} {f : Frame} (h : ∀ q ∈ o, addU8 b q 1 = some f.seq)
    (d : Bytes) : addFull b (d, o) (f.seq, f.payload) = .ok (d ++ f.payload, some f.seq) := by
  rcases o with _ | q
  · rfl
  · exact if_pos (h q rfl)

theorem addFull_panic {b : Profile} {o : Option UInt8} {f : Frame}
    (h : ¬ ∀ q ∈ o, addU8 b q 1 = some f.seq) (d : Bytes) :
    addFull b (d, o) (f.seq, f.payload) = .error .panic := by
  rcases o with _ | q
  · simp at h
  · exact if_neg (by simpa using h)

theorem foldlM_addFull (b : Profile) : ∀ (fs : List Frame) (d : Bytes) (o : Option UInt8),
    ((o.toList ++ fs.map Frame.seq).IsChain (fun x y => addU8 b x 1 = some y) →
      ∃ o', (fs.map fun f => (f.seq, f.payload)).foldlM (addFull b) (d, o) =
        .ok (d ++ payloads fs, o')) ∧
    (¬ (o.toList ++ fs.map Frame.seq).IsChain (fun x y => addU8 b x 1 = some y) →
      (fs.map fun f => (f.seq, f.payload)).foldlM (addFull b) (d, o) = .error .panic)
  | [], d, o => by
    refine ⟨fun _ => ⟨o, by simp [payloads]; rfl⟩, fun h => ?_⟩
    rcases o with _ | q <;> simp at h
  | f :: fs, d, o => by
    obtain ⟨ih1, ih2⟩ := foldlM_addFull b fs (d ++ f.payload) (some f.seq)
    have hchain : (o.toList ++ (f :: fs).map Frame.seq).IsChain (fun x y => addU8 b x 1 = some y) ↔
        (∀ q ∈ o, addU8 b q 1 = some f.seq) ∧
          ((some f.seq).toList ++ fs.map Frame.seq).IsChain (fun x y => addU8 b x 1 = some y) := by
      rcases o with _ | q <;> simp
    rw [hchain, List.map_cons, List.foldlM_cons]
    by_cases ho : ∀ q ∈ o, addU8 b q 1 = some f.seq
    · rw [addFull_ok ho]
      refine ⟨fun h => ?_, fun h => ih2 fun hc => h ⟨ho, hc⟩⟩
      obtain ⟨o', h'⟩ := ih1 h.2
      refine ⟨o', h'.trans ?_⟩
      simp [payloads]
    · rw [addFull_panic ho]
      exact ⟨fun h => absurd h.1 ho, fun _ => rfl⟩

/-! ### What `packet` accepts -/

/-- The rows of frames that make up one message. -/
structure IsMessage (fs : List Frame) (last : Frame) : Prop where
  full : AllFull fs
  short : last.payload.length < maxPayloadLen

theorem fullPacket_short {last : Frame} (h : last.payload.length < maxPayloadLen) (r : Bytes) :
    ∃ e, fullPacket (last.bytes ++ r) = .error e := by
  rcases hr : fullPacket (last.bytes ++ r) with e | ⟨r', q, p⟩
  · exact ⟨e, rfl⟩
  · obtain ⟨he, hp⟩ := fullPacket_eq_ok.mp hr
    have h3 := congrArg (List.take 3) he
    simp only [Frame.bytes, List.append_assoc] at h3
    rw [List.take_left' (length_leBytes _ _), List.take_left' (length_leBytes _ _), hp] at h3
    have h4 := congrArg leNat h3
    have hM := maxPayloadLen_eq
    rw [leNat_leBytes (by omega), leNat_leBytes (by omega)] at h4
    omega

/-- `packet` on a message followed by anything. -/
theorem packet_message (b : Profile) {fs : List Frame} {last : Frame} (h : IsMessage fs last)
    (rest : Bytes) :
    packet b (wire fs ++ last.bytes ++ rest) =
      if Numbered b fs then .ok (rest, (last.seq, payloads fs ++ last.payload))
      else .error .panic := by
  obtain ⟨e, he⟩ := fullPacket_short h.short rest
  have h1 : onePacket (last.bytes ++ rest) = .ok (rest, (last.seq, last.payload)) :=
    onePacket_eq_ok.mpr ⟨rfl, h.short.le⟩
  obtain ⟨hok, hpanic⟩ := foldlM_addFull b fs [] none
  rw [packet, List.append_assoc, whileOk_wire h.full he]
  simp only [h1]
  split_ifs with hn
  · obtain ⟨o, ho⟩ := hok hn
    simp only [bind, Except.bind, ho]; rfl
  · simp only [bind, Except.bind, hpanic hn]

/-- Every input starts with a message, or is one on which `packet` asks for more. -/
theorem message_or_more (b : Profile) (i : Bytes) :
    (∃ fs last rest, IsMessage fs last ∧ i = wire fs ++ last.bytes ++ rest) ∨
      packet b i = .error (.err .backtrack) := by
  obtain ⟨fs, j, e, hfs, rfl, hj⟩ := exists_fulls i
  rcases h : onePacket j with e' | ⟨rest, q, p⟩
  · right
    rw [packet, whileOk_wire hfs hj, ← onePacket_eq_error h]
    simp only [h, bind, Except.bind]
  · left
    obtain ⟨rfl, hp⟩ := onePacket_eq_ok.mp h
    refine ⟨fs, ⟨q, p⟩, rest, ⟨hfs, lt_of_le_of_ne hp fun hp' => ?_⟩, by simp⟩
    rw [fullPacket_eq_ok.mpr ⟨rfl, hp'⟩] at hj
    simp at hj

/-- **The accepted inputs.** -/
theorem packet_eq_ok {b : Profile} {i rest p : Bytes} {q : UInt8} :
    packet b i = .ok (rest, (q, p)) ↔ ∃ fs last, IsMessage fs last ∧ Numbered b fs ∧
      i = wire fs ++ last.bytes ++ rest ∧ q = last.seq ∧ p = payloads fs ++ last.payload := by
  constructor
  · intro h
    rcases message_or_more b i with ⟨fs, last, rest', hm, rfl⟩ | he
    · rw [packet_message b hm] at h
      split_ifs at h with hn
      cases h
      exact ⟨fs, last, hm, hn, rfl, rfl, rfl⟩
    · rw [he] at h; cases h
  · rintro ⟨fs, last, hm, hn, rfl, rfl, rfl⟩
    rw [packet_message b hm, if_pos hn]

/-- The inputs on which the assertion fails. -/
theorem packet_eq_panic {b : Profile} {i : Bytes} :
    packet b i = .error .panic ↔ ∃ fs last rest, IsMessage fs last ∧ ¬ Numbered b fs ∧
      i = wire fs ++ last.bytes ++ rest := by
  constructor
  · intro h
    rcases message_or_more b i with ⟨fs, last, rest, hm, rfl⟩ | he
    · rw [packet_message b hm] at h
      split_ifs at h with hn
      exact ⟨fs, last, rest, hm, hn, rfl⟩
    · rw [he] at h; cases h
  · rintro ⟨fs, last, rest, hm, hn, rfl⟩
    rw [packet_message b hm, if_neg hn]

/-- Every error is a panic or a request for more. -/
theorem packet_eq_error {b : Profile} {i : Bytes} {e : Failure} (h : packet b i = .error e) :
    e = .panic ∨ e = .err .backtrack := by
  rcases message_or_more b i with ⟨fs, last, rest, hm, rfl⟩ | he
  · rw [packet_message b hm] at h
    split_ifs at h
    cases h; exact Or.inl rfl
  · rw [he] at h; cases h; exact Or.inr rfl

theorem stable_packet (b : Profile) : Stable (packet b) := by
  rintro i r ⟨q, p⟩ x h
  obtain ⟨fs, last, hm, hn, rfl, rfl, rfl⟩ := packet_eq_ok.mp h
  exact packet_eq_ok.mpr ⟨fs, last, hm, hn, by simp, rfl, rfl⟩

theorem packet_panic_append {b : Profile} {i : Bytes} (h : packet b i = .error .panic)
    (x : Bytes) : packet b (i ++ x) = .error .panic := by
  obtain ⟨fs, last, rest, hm, hn, rfl⟩ := packet_eq_panic.mp h
  exact packet_eq_panic.mpr ⟨fs, last, rest ++ x, hm, hn, by simp⟩

theorem consuming_packet (b : Profile) : Consuming (packet b) := by
  rintro i r ⟨q, p⟩ h
  obtain ⟨fs, last, -, -, rfl, -, -⟩ := packet_eq_ok.mp h
  simp [length_bytes, packetHeaderLen]
  omega

theorem packet_nil (b : Profile) : packet b [] = .error (.err .backtrack) := rfl

/-! ### Well-formed messages -/

/-- The numbers follow each other, 0 after 255. -/
def Consecutive (fs : List Frame) : Prop := (fs.map Frame.seq).IsChain fun x y => y = x + 1

instance (fs : List Frame) : Decidable (Consecutive fs) := by unfold Consecutive; infer_instance

/-- A message at the head of `i` as the protocol has it: full frames and a shorter one, numbered
consecutively. -/
def WellFormed (i rest : Bytes) (seq : UInt8) (p : Packet) : Prop :=
  ∃ fs last, IsMessage fs last ∧ Consecutive (fs ++ [last]) ∧ i = wire fs ++ last.bytes ++ rest ∧
    seq = last.seq ∧ p = payloads fs ++ last.payload

/-- `packet` accepts `i` exactly as the protocol does, and returns an error if the protocol does not. -/
structure AcceptsWellFormed (b : Profile) (i : Bytes) : Prop where
  accepts : ∀ rest seq p, packet b i = .ok (rest, (seq, p)) ↔ WellFormed i rest seq p
  rejects : (¬ ∃ rest seq p, WellFormed i rest seq p) → ∃ mode, packet b i = .error (.err mode)

theorem frame_ext_map {fs gs : List Frame}
    (h : (fs.map fun f => (f.seq, f.payload)) = gs.map fun f => (f.seq, f.payload)) : fs = gs := by
  refine List.map_injective_iff.mpr (fun f g hfg => ?_) h
  obtain ⟨hs, hp⟩ := Prod.mk.inj hfg
  cases f
  cases g
  cases hs
  cases hp
  rfl

/-- The frames of a message can be read off its bytes. -/
theorem message_unique {fs gs : List Frame} {last last' : Frame} {rest rest' : Bytes}
    (h : IsMessage fs last) (h' : IsMessage gs last')
    (he : wire fs ++ last.bytes ++ rest = wire gs ++ last'.bytes ++ rest') :
    fs = gs ∧ last = last' ∧ rest = rest' := by
  obtain ⟨e, hshort⟩ := fullPacket_short h.short rest
  obtain ⟨e', hshort'⟩ := fullPacket_short h'.short rest'
  have hrun := whileOk_wire h.full hshort
  rw [← List.append_assoc, he, List.append_assoc, whileOk_wire h'.full hshort'] at hrun
  obtain ⟨hfull, hlast⟩ := Prod.mk.inj hrun
  have hone : onePacket (last.bytes ++ rest) = .ok (rest, (last.seq, last.payload)) :=
    onePacket_eq_ok.mpr ⟨rfl, h.short.le⟩
  have hone' : onePacket (last'.bytes ++ rest') = .ok (rest', (last'.seq, last'.payload)) :=
    onePacket_eq_ok.mpr ⟨rfl, h'.short.le⟩
  rw [hlast, hone] at hone'
  simp only [Except.ok.injEq, Prod.mk.injEq] at hone'
  obtain ⟨hrest, hseq, hpayload⟩ := hone'
  refine ⟨(frame_ext_map hfull).symm, ?_, hrest⟩
  cases last
  cases last'
  cases hseq
  cases hpayload
  rfl

/-- **Well-formed messages.** On an input the parser does what the protocol says if and only if the
frames of the message at its head, if there is a whole one, are numbered consecutively and a checked
build does not overflow between the full ones. -/
theorem acceptsWellFormed_iff (b : Profile) (i : Bytes) : AcceptsWellFormed b i ↔
    ∀ fs last rest, IsMessage fs last → i = wire fs ++ last.bytes ++ rest →
      Consecutive (fs ++ [last]) ∧ Numbered b fs := by
  constructor
  · rintro ⟨haccepts, hrejects⟩ fs last rest hm rfl
    have hrun := packet_message b hm rest
    by_cases hn : Numbered b fs
    · rw [if_pos hn] at hrun
      obtain ⟨gs, last', hm', hcons, he, -⟩ := (haccepts _ _ _).mp hrun
      obtain ⟨rfl, rfl, -⟩ := message_unique hm hm' he
      exact ⟨hcons, hn⟩
    · -- the assertion fails, whether the message is well formed or not
      rw [if_neg hn] at hrun
      by_cases hwf : ∃ rest' seq p, WellFormed (wire fs ++ last.bytes ++ rest) rest' seq p
      · obtain ⟨rest', seq, p, hwf⟩ := hwf
        rw [(haccepts _ _ _).mpr hwf] at hrun
        cases hrun
      · obtain ⟨mode, hmode⟩ := hrejects hwf
        rw [hmode] at hrun
        cases hrun
  · intro h
    have haccepts : ∀ rest seq p, packet b i = .ok (rest, (seq, p)) ↔ WellFormed i rest seq p := by
      intro rest seq p
      rw [packet_eq_ok]
      constructor
      · rintro ⟨fs, last, hm, -, he, hq, hp⟩
        exact ⟨fs, last, hm, (h fs last rest hm he).1, he, hq, hp⟩
      · rintro ⟨fs, last, hm, -, he, hq, hp⟩
        exact ⟨fs, last, hm, (h fs last rest hm he).2, he, hq, hp⟩
    refine ⟨haccepts, fun hnone => ?_⟩
    rcases hr : packet b i with e | ⟨rest, seq, p⟩
    · rcases packet_eq_error hr with rfl | rfl
      · obtain ⟨fs, last, rest, hm, hn, he⟩ := packet_eq_panic.mp hr
        exact absurd (h fs last rest hm he).2 hn
      · exact ⟨_, rfl⟩
    · exact absurd ⟨rest, seq, p, (haccepts rest seq p).mp hr⟩ hnone

/-- The last frame of this message has the number 5 instead of 1. -/
def misnumbered : Bytes :=
  wire [⟨0, List.replicate maxPayloadLen 0⟩] ++ (Frame.mk 5 []).bytes ++ []

theorem misnumbered_accepted : ¬ AcceptsWellFormed .release misnumbered := by
  intro h
  have hm : IsMessage [⟨0, List.replicate maxPayloadLen 0⟩] ⟨5, []⟩ :=
    ⟨fun f hf => by rw [List.mem_singleton.mp hf, List.length_replicate], maxPayloadLen_pos⟩
  have hcons := ((acceptsWellFormed_iff .release misnumbered).mp h _ _ _ hm rfl).1
  simp [Consecutive] at hcons

end Haentgl.Protocol.Packets
