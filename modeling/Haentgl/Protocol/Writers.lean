import Haentgl.Protocol.Basic
import Haentgl.Protocol.Writer
import Haentgl.Lib.Text

/-! # The packets the proxy writes itself

The writers of `packet/writers.rs` put the fields of a packet into the buffer of a `PacketWriter` one after
another and end the packet. A writer is therefore the same program as writing one payload, or a row of
them: `writeOkPacketWithClientFlags_eq` and `writePrepareOk_eq` say which.

`okPacket_written` is the round trip of an OK packet under the protocol 4.1. -/

namespace Haentgl.Protocol.Writers

open Haentgl.Lib.Parse Haentgl.Lib.Program Haentgl.Lib.Text Haentgl.Protocol.Constants
open Haentgl.Protocol.Io Haentgl.Protocol.Packets Haentgl.Protocol.Basic Haentgl.Protocol.Writer

/-- `as_bytes`. -/
def asBytes (s : String) : Bytes := utf8 s.toList

/-- The description of a column or of a parameter. -/
structure Column where
  table : String
  column : String
  columnType : UInt8
  columnFlags : BitVec 16
  deriving DecidableEq, Repr

/-! ### The writers -/

section Model
variable {τ : Type} (w : AsyncWrite τ)

/-- `write_all`, and the writes of fixed width: the bytes go to the buffer. -/
def writeAll (bytes : Bytes) : Proc Stop (PacketWriter × τ) Unit :=
  Proc.modify fun s => (s.1.write bytes, s.2)

/-- `write_u16::<LittleEndian>` of the other crates, and so on. -/
def writeUint (k n : ℕ) : Proc Stop (PacketWriter × τ) Unit := writeAll (leBytes k n)

def writeLenencInt (n : ℕ) : Proc Stop (PacketWriter × τ) Unit := writeAll (lenenc n)

def writeLenencStr (s : Bytes) : Proc Stop (PacketWriter × τ) Unit := writeAll (lenencStr s)

def writeEofPacket (s : StatusFlags) : Proc Stop (PacketWriter × τ) Unit := do
  writeAll [0xfe, 0x00, 0x00]
  writeUint 2 s.toNat
  endPacket w

def writeOkPacketWithClientFlags (clientCapabilities : CapabilityFlags) (okPacket : OkPacket) :
    Proc Stop (PacketWriter × τ) Unit := do
  writeAll [okPacket.header]
  writeLenencInt okPacket.affectedRows
  writeLenencInt okPacket.lastInsertId
  if clientCapabilities.contains .clientProtocol41 then
    writeUint 2 okPacket.statusFlags.toNat
    writeAll [0x00, 0x00]
  else if clientCapabilities.contains .clientTransactions then
    writeUint 2 okPacket.statusFlags.toNat
  if clientCapabilities.contains .clientSessionTrack then
    writeLenencStr (asBytes okPacket.info)
    if okPacket.statusFlags.contains .serverSessionStateChanged then
      writeLenencStr (asBytes okPacket.sessionStateInfo)
  else
    writeAll (asBytes okPacket.info)
  endPacket w

/-- One round of the loop over the columns. -/
def writeColumnDefinition (isComFieldList : Bool) (c : Column) :
    Proc Stop (PacketWriter × τ) Unit := do
  writeLenencStr (asBytes "def")
  writeLenencStr []
  writeLenencStr (asBytes c.table)
  writeLenencStr []
  writeLenencStr (asBytes c.column)
  writeLenencStr []
  writeLenencInt 0xC
  writeUint 2 33
  writeUint 4 1024
  writeAll [c.columnType]
  writeUint 2 c.columnFlags.toNat
  writeAll [0x00]
  writeAll [0x00, 0x00]
  if isComFieldList then
    writeAll [0xfb]
  endPacket w

def writeEach (isComFieldList : Bool) : List Column → Proc Stop (PacketWriter × τ) Unit
  | [] => pure ()
  | c :: cs => do
    writeColumnDefinition w isComFieldList c
    writeEach isComFieldList cs

def writeColumnDefinitions41 (i : List Column) (clientCapabilities : CapabilityFlags)
    (isComFieldList : Bool) : Proc Stop (PacketWriter × τ) Unit := do
  writeEach w isComFieldList i
  if !clientCapabilities.contains .clientDeprecateEof then
    writeEofPacket w 0

def writePrepareOk (id : UInt32) (params columns : List Column) (clientCapabilities : CapabilityFlags) :
    Proc Stop (PacketWriter × τ) Unit := do
  writeAll [0x00]
  writeUint 4 id.toNat
  writeUint 2 columns.length
  writeUint 2 params.length
  writeAll [0x00]
  writeUint 2 0
  endPacket w
  if params.length > 0 then
    writeColumnDefinitions41 w params clientCapabilities false
  if columns.length > 0 then
    writeColumnDefinitions41 w columns clientCapabilities false

end Model

/-! ### The payloads -/

/-- The status and the warnings, of which there are none. -/
def okStatus (caps : CapabilityFlags) (status : StatusFlags) : Bytes :=
  if caps.contains .clientProtocol41 then leBytes 2 status.toNat ++ [0x00, 0x00]
  else if caps.contains .clientTransactions then leBytes 2 status.toNat
  else []

/-- The texts behind them. -/
def okTail (caps : CapabilityFlags) (ok : OkPacket) : Bytes :=
  if caps.contains .clientSessionTrack then
    lenencStr (asBytes ok.info) ++
      if ok.statusFlags.contains .serverSessionStateChanged then
        lenencStr (asBytes ok.sessionStateInfo)
      else []
  else asBytes ok.info

def okPayload (caps : CapabilityFlags) (ok : OkPacket) : Bytes :=
  ok.header :: (lenenc ok.affectedRows ++ (lenenc ok.lastInsertId ++
    (okStatus caps ok.statusFlags ++ okTail caps ok)))

def eofPayload (s : StatusFlags) : Bytes := [0xfe, 0x00, 0x00] ++ leBytes 2 s.toNat

def columnPayload (isComFieldList : Bool) (c : Column) : Bytes :=
  lenencStr (asBytes "def") ++ (lenencStr [] ++ (lenencStr (asBytes c.table) ++ (lenencStr [] ++
    (lenencStr (asBytes c.column) ++ (lenencStr [] ++ (lenenc 0xC ++ (leBytes 2 33 ++
      (leBytes 4 1024 ++ ([c.columnType] ++ (leBytes 2 c.columnFlags.toNat ++ ([0x00] ++
        ([0x00, 0x00] ++ if isComFieldList then [0xfb] else []))))))))))))

/-- The definitions of a group and the packet that closes it. -/
def groupPayloads (caps : CapabilityFlags) (isComFieldList : Bool) (i : List Column) : List Bytes :=
  i.map (columnPayload isComFieldList) ++
    if caps.contains .clientDeprecateEof then [] else [eofPayload 0]

/-- The two groups, as far as they are not empty. -/
def definitionPayloads (caps : CapabilityFlags) (params columns : List Column) : List Bytes :=
  (if 0 < params.length then groupPayloads caps false params else []) ++
    if 0 < columns.length then groupPayloads caps false columns else []

def prepareOkPayload (id : UInt32) (params columns : List Column) : Bytes :=
  [0x00] ++ (leBytes 4 id.toNat ++ (leBytes 2 columns.length ++ (leBytes 2 params.length ++
    ([0x00] ++ leBytes 2 0))))

def preparePayloads (id : UInt32) (params columns : List Column) (caps : CapabilityFlags) :
    List Bytes := prepareOkPayload id params columns :: definitionPayloads caps params columns

/-! ### A writer writes its payloads -/

section Equations
variable {τ α : Type} (w : AsyncWrite τ)

theorem writeAll_bind (a b : Bytes) (f : Unit → Proc Stop (PacketWriter × τ) α) :
    (writeAll a >>= fun _ => writeAll b >>= f) = writeAll (a ++ b) >>= f := by
  ext s : 1
  change (f ()).run ((s.1.write a).write b, s.2) = (f ()).run (s.1.write (a ++ b), s.2)
  simp [PacketWriter.write]

theorem endPackets_cons (p : Bytes) (ps : List Bytes) :
    endPackets w (p :: ps) = writeAll p >>= fun _ => endPacket w >>= fun _ => endPackets w ps := rfl

theorem endPackets_singleton (p : Bytes) :
    endPackets w [p] = writeAll p >>= fun _ => endPacket w := by
  rw [endPackets_cons]
  exact bind_congr fun _ => bind_pure _

theorem endPackets_append (ps qs : List Bytes) :
    endPackets w (ps ++ qs) = endPackets w ps >>= fun _ => endPackets w qs := by
  induction ps with
  | nil => rfl
  | cons p ps ih =>
    simp only [List.cons_append, endPackets_cons, ih, bind_assoc]

theorem writeEofPacket_eq (s : StatusFlags) : writeEofPacket w s = endPackets w [eofPayload s] := by
  rw [endPackets_singleton, writeEofPacket, writeUint, writeAll_bind]
  rfl

theorem writeOkPacketWithClientFlags_eq (caps : CapabilityFlags) (ok : OkPacket) :
    writeOkPacketWithClientFlags w caps ok = endPackets w [okPayload caps ok] := by
  rw [endPackets_singleton, writeOkPacketWithClientFlags, okPayload, okStatus, okTail]
  simp only [writeLenencInt, writeLenencStr, writeUint]
  split_ifs <;> simp only [writeAll_bind, List.append_assoc, List.append_nil, List.nil_append,
    List.cons_append]

theorem writeColumnDefinition_eq (isComFieldList : Bool) (c : Column) :
    writeColumnDefinition w isComFieldList c = endPackets w [columnPayload isComFieldList c] := by
  rw [endPackets_singleton, writeColumnDefinition, columnPayload]
  simp only [writeLenencInt, writeLenencStr, writeUint]
  split_ifs <;> simp only [writeAll_bind, List.append_nil]

theorem writeEach_eq (isComFieldList : Bool) : ∀ i : List Column,
    writeEach w isComFieldList i = endPackets w (i.map (columnPayload isComFieldList))
  | [] => rfl
  | c :: cs => by
    have h : (c :: cs).map (columnPayload isComFieldList) =
        [columnPayload isComFieldList c] ++ cs.map (columnPayload isComFieldList) := rfl
    rw [h, endPackets_append, writeEach, writeColumnDefinition_eq, writeEach_eq isComFieldList cs]

theorem writeColumnDefinitions41_eq (i : List Column) (caps : CapabilityFlags) (isComFieldList : Bool) :
    writeColumnDefinitions41 w i caps isComFieldList =
      endPackets w (groupPayloads caps isComFieldList i) := by
  rw [writeColumnDefinitions41, groupPayloads, endPackets_append, writeEach_eq, writeEofPacket_eq]
  cases caps.contains .clientDeprecateEof <;> rfl

/-- **A prepared statement** is announced by its payloads. -/
theorem writePrepareOk_eq (id : UInt32) (params columns : List Column) (caps : CapabilityFlags) :
    writePrepareOk w id params columns caps = endPackets w (preparePayloads id params columns caps) := by
  have hgroup : ∀ i : List Column, (if i.length > 0 then writeColumnDefinitions41 w i caps false
      else pure ()) = endPackets w (if 0 < i.length then groupPayloads caps false i else []) := by
    intro i
    split_ifs
    · exact writeColumnDefinitions41_eq w i caps false
    · rfl
  have hhead : preparePayloads id params columns caps =
      [prepareOkPayload id params columns] ++ definitionPayloads caps params columns := rfl
  rw [hhead, endPackets_append, endPackets_singleton, definitionPayloads, endPackets_append, ← hgroup,
    ← hgroup, writePrepareOk, prepareOkPayload]
  simp only [writeUint, writeAll_bind, bind_assoc]
  split_ifs <;> rfl

end Equations

/-! ### The round trip of an OK packet -/

/-- The counters are `u64`, and the texts fit into the memory. -/
structure Fits (ok : OkPacket) : Prop where
  affectedRows : ok.affectedRows < 256 ^ 8
  lastInsertId : ok.lastInsertId < 256 ^ 8
  info : (asBytes ok.info).length < 256 ^ 8
  sessionStateInfo : (asBytes ok.sessionStateInfo).length < 256 ^ 8

/-- What the decoder must give back under the capabilities `caps`. -/
structure Agrees (caps : CapabilityFlags) (ok ok' : OkPacket) : Prop where
  header : ok'.header = ok.header
  affectedRows : ok'.affectedRows = ok.affectedRows
  lastInsertId : ok'.lastInsertId = ok.lastInsertId
  statusFlags : ok'.statusFlags = ok.statusFlags
  info : caps.contains .clientSessionTrack → ok'.info = ok.info
  sessionStateInfo : caps.contains .clientSessionTrack →
    ok.statusFlags.contains .serverSessionStateChanged → ok'.sessionStateInfo = ok.sessionStateInfo

theorem fromUtf8_asBytes (s : String) : fromUtf8 (asBytes s) = some s := fromUTF8_eq_some.mpr rfl

/-- The two texts come back as far as they are written. -/
theorem okTexts_okTail (caps : CapabilityFlags) {ok : OkPacket} (hok : Fits ok) :
    ∃ info state, okTexts ok.statusFlags caps (okTail caps ok) = .ok (info, state) ∧
      (caps.contains .clientSessionTrack → info = ok.info) ∧
      (caps.contains .clientSessionTrack → ok.statusFlags.contains .serverSessionStateChanged →
        state = ok.sessionStateInfo) := by
  unfold okTail
  by_cases ht : caps.contains .clientSessionTrack
  · have hne : ∀ r, lenencStr (asBytes ok.info) ++ r ≠ [] := fun r h =>
      absurd (List.append_eq_nil_iff.mp (List.append_eq_nil_iff.mp h).1).1 (lenenc_ne_nil _)
    have hinfo : ∀ r, readLengthEncodedNumber (lenencStr (asBytes ok.info) ++ r) =
        .ok (asBytes ok.info ++ r, (asBytes ok.info).length) := fun r => by
      rw [lenencStr, List.append_assoc, readLengthEncodedNumber_lenenc hok.info]
    rw [if_pos ht]
    by_cases hs : ok.statusFlags.contains .serverSessionStateChanged
    · have hstate : readLengthEncodedNumber (lenencStr (asBytes ok.sessionStateInfo)) =
          .ok (asBytes ok.sessionStateInfo, (asBytes ok.sessionStateInfo).length) := by
        rw [lenencStr, readLengthEncodedNumber_lenenc hok.sessionStateInfo]
      refine ⟨ok.info, ok.sessionStateInfo, ?_, fun _ => rfl, fun _ _ => rfl⟩
      rw [if_pos hs, okTexts, if_pos ⟨hne _, ht⟩, hinfo]
      simp only [bind, Except.bind, take_append, hs, if_true, hstate, take_all, fromUtf8_asBytes,
        Option.getD_some]
      rfl
    · refine ⟨ok.info, "", ?_, fun _ => rfl, fun _ h => absurd h hs⟩
      rw [if_neg hs, okTexts, if_pos ⟨hne _, ht⟩, hinfo]
      simp only [bind, Except.bind, take_append, if_neg hs, fromUtf8_asBytes, Option.getD_some]
      rfl
  · refine ⟨"", "", ?_, fun h => absurd h ht, fun h => absurd h ht⟩
    rw [if_neg ht, okTexts, if_neg fun h => ht h.2]
    rfl

/-- **OK packets**: what the encoder writes as a packet is decoded to the fields it was given. -/
theorem okPacket_written {τ : Type} (w : AsyncWrite τ) {caps : CapabilityFlags}
    (h41 : caps.contains .clientProtocol41) {ok : OkPacket} (hok : Fits ok) :
    ∃ p, writeOkPacketWithClientFlags w caps ok = endPackets w [p] ∧
      ∃ r ok', okPacket p caps = .ok (r, ok') ∧ Agrees caps ok ok' := by
  refine ⟨okPayload caps ok, writeOkPacketWithClientFlags_eq w caps ok, ?_⟩
  obtain ⟨info, state, htexts, hinfo, hstate⟩ := okTexts_okTail caps hok
  have hhead : ∀ r, take 1 (ok.header :: r) = .ok (r, [ok.header]) := take_append [ok.header]
  have hst : StatusFlags.fromBitsRetain ok.statusFlags.toNat = ok.statusFlags := by
    simp [StatusFlags.fromBitsRetain]
  have hwarn : ∀ r, leUint 2 ([0x00, 0x00] ++ r) = .ok (r, 0) := fun r =>
    leUint_leBytes (k := 2) (n := 0) r (by decide)
  rw [okPayload, okStatus, if_pos h41, okPacket, hhead]
  simp only [bind, Except.bind, readLengthEncodedNumber_lenenc hok.affectedRows,
    readLengthEncodedNumber_lenenc hok.lastInsertId, List.append_assoc,
    leUint_leBytes _ (show ok.statusFlags.toNat < 256 ^ 2 from ok.statusFlags.isLt), hst, hwarn, htexts]
  exact ⟨_, _, rfl, rfl, rfl, rfl, rfl, hinfo, hstate⟩

/-- A packet with both texts and with counters of three and of nine bytes. -/
theorem okPacket_written_tracked : Fits ⟨0, 300, 2 ^ 24, 0x4000, 0, "rows", "état"⟩ ∧
    ∃ p, writeOkPacketWithClientFlags Sink.asyncWrite 0x800200 ⟨0, 300, 2 ^ 24, 0x4000, 0, "rows", "état"⟩ =
        endPackets Sink.asyncWrite [p] ∧
      ∃ r ok', okPacket p 0x800200 = .ok (r, ok') ∧
        Agrees 0x800200 ⟨0, 300, 2 ^ 24, 0x4000, 0, "rows", "état"⟩ ok' :=
  have hok : Fits ⟨0, 300, 2 ^ 24, 0x4000, 0, "rows", "état"⟩ :=
    ⟨by decide, by decide, by decide, by decide⟩
  ⟨hok, okPacket_written Sink.asyncWrite (by decide) hok⟩

end Haentgl.Protocol.Writers
