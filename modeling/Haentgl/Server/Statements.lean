import Haentgl.Protocol.Writers
import Haentgl.Server.Capabilities

/-! # Prepared statements and cursors

Two responses whose end is announced by a number inside a packet. The definitions of a prepared statement
are counted in 16 bits, together with the EOF packets behind them; `preparedStatement_relayed_iff` says
when the count is right. A cursor is announced by a bit of the status behind the definitions of its
columns, and the forwarder rejects a status with an undefined bit; `cursor_relayed_iff` says that it then
goes on reading. -/

namespace Haentgl.Server.Statements

open Haentgl.Lib.Parse Haentgl.Lib.Program Haentgl.Protocol.Constants Haentgl.Protocol.Io
open Haentgl.Protocol.Packets Haentgl.Protocol.Basic Haentgl.Protocol.Writer Haentgl.Protocol.Writers
open Haentgl.Server.Links Haentgl.Server.Forwarders Haentgl.Server.Parties Haentgl.Server.Invariants
open Haentgl.Server.Responses Haentgl.Server.Capabilities
open Haentgl.Lib.Program.Proc (Keeps)

/-! ### The count -/

theorem addU16_lt {b : Profile} {x y z : ℕ} (h : addU16 b x y = some z) : z < 2 ^ 16 := by
  rw [addU16] at h
  split_ifs at h
  have := Option.some.inj h
  omega

theorem expectedPackets_lt {b : Profile} {deprecateEof : Bool} {column params n : ℕ}
    (h : expectedPackets b deprecateEof column params = some n) : n < 2 ^ 16 := by
  have hone : ∀ (p : Prop) [Decidable p] (x : ℕ), x < 2 ^ 16 →
      (if p then addU16 b x 1 else some x) = some n → n < 2 ^ 16 := by
    intro p _ x hx hn
    split_ifs at hn
    · exact addU16_lt hn
    · exact Option.some.inj hn ▸ hx
  rw [expectedPackets] at h
  obtain ⟨x, hx, h⟩ := Option.bind_eq_some_iff.mp h
  have hsum := addU16_lt hx
  cases deprecateEof
  · simp only [Bool.false_eq_true, if_false] at h
    by_cases hcol : column > 0
    · rw [if_pos hcol] at h
      obtain ⟨y, hy, h⟩ := Option.bind_eq_some_iff.mp h
      exact hone _ y (addU16_lt hy) h
    · rw [if_neg hcol] at h
      exact hone _ x hsum h
  · exact Option.some.inj h ▸ hsum

theorem length_groupPayloads (caps : CapabilityFlags) (isComFieldList : Bool) (i : List Column) :
    (groupPayloads caps isComFieldList i).length =
      i.length + if caps.contains .clientDeprecateEof then 0 else 1 := by
  unfold groupPayloads
  split_ifs <;> simp

theorem length_definitionPayloads (caps : CapabilityFlags) (params columns : List Column) :
    (definitionPayloads caps params columns).length = definitions caps columns.length params.length := by
  have hgroup : ∀ i : List Column, (if 0 < i.length then groupPayloads caps false i else []).length =
      i.length + if caps.contains .clientDeprecateEof then 0 else if 0 < i.length then 1 else 0 := by
    intro i
    by_cases hi : 0 < i.length
    · rw [if_pos hi, length_groupPayloads, if_pos hi]
    · have hzero : i.length = 0 := by omega
      simp [hzero]
  rw [definitionPayloads, List.length_append, hgroup, hgroup, definitions]
  split_ifs <;> omega

/-! ### Prepared statements -/

section Prepared
variable (R : Respond) (mc : MysqlCommon) (b : Profile) (h : HandshakeResponse) (id : UInt32)
  {params columns : List Column} {ms rest : List Message} {c : Conn World}

theorem forwardPrepareStmt_relayed_iff (hp : params.length ≤ 65535) (hcols : columns.length ≤ 65535)
    (hms : ms.map Prod.snd = preparePayloads id params columns h.clientFlag)
    (hin : c.net.inbox = ms ++ rest) (hw : c.net.writesLeft = none) :
    (∃ c', (forwardPrepareStmt (net R) mc b h).run c = (.ok none, c') ∧ Relayed ms rest c c') ↔
      definitions h.clientFlag columns.length params.length < 2 ^ 16 := by
  obtain ⟨m, defs, rfl, hm, hdefs⟩ := List.map_eq_cons_iff.mp hms
  have hc : Ready (m :: defs) c := ⟨⟨rest, hin.symm⟩, hw⟩
  have hlen : defs.length = definitions h.clientFlag columns.length params.length := by
    rw [← List.length_map, hdefs, length_definitionPayloads]
  have hrun : (forwardPrepareStmt (net R) mc b h).run c =
      (orPanic (expectedPackets b (h.clientFlag.contains .clientDeprecateEof) columns.length
        params.length) >>= fun n => forwardMany (net R) n >>= fun _ => pure none).run (relayOne c m) :=
    run_forwardPrepareStmt_counts (length_leBytes 4 id.toNat) (by omega) (by omega) hm hc
  rw [← hlen]
  constructor
  · rintro ⟨c', hok, hrel⟩
    by_contra hlt
    rw [hrun] at hok
    rcases hn : expectedPackets b (h.clientFlag.contains .clientDeprecateEof) columns.length params.length
      with _ | n
    · -- the checked overflow
      rw [hn] at hok
      cases hok
    · -- the count has wrapped around, and leaves packets of the response behind
      have hsmall := expectedPackets_lt hn
      have htake : (defs.take n).length = n := List.length_take_of_le (by omega)
      have hready : Ready (defs.take n) (relayOne c m) :=
        ⟨(List.take_prefix n defs).trans hc.tail.1, hc.tail.2⟩
      have hmany := run_forwardMany (R := R) (defs.take n) (relayOne c m) hready
      rw [htake] at hmany
      rw [hn, orPanic, pure_bind, Proc.run_bind_ok hmany] at hok
      have hunread := hrel.unread
      rw [← (Prod.mk.inj hok).2, relay_inbox, htake] at hunread
      have hinbox : (relayOne c m).net.inbox = defs ++ rest := by
        simp [relayOne, World.take, World.deliver, hin]
      rw [hinbox] at hunread
      have := congrArg List.length hunread
      rw [List.length_drop, List.length_append] at this
      omega
  · intro hlt
    refine ⟨relay (m :: defs) c, ?_, relayed_relay hin⟩
    rw [hrun, expectedPackets_eq b h.clientFlag (hlen ▸ hlt), orPanic, pure_bind, ← hlen,
      Proc.run_bind_ok (run_forwardMany defs _ hc.tail)]
    rfl

/-- **Prepared statements**: what `write_prepare_ok` writes is relayed exactly, and counted without an
overflow, if and only if the definitions and the EOF packets together fit 16 bits. -/
theorem preparedStatement_relayed_iff {τ : Type} (w : AsyncWrite τ) (params columns : List Column)
    (hp : params.length ≤ 65535) (hcols : columns.length ≤ 65535) (ms rest : List Message)
    (c : Conn World) (hms : ms.map Prod.snd = preparePayloads id params columns h.clientFlag)
    (hin : c.net.inbox = ms ++ rest) (hw : c.net.writesLeft = none) :
    writePrepareOk w id params columns h.clientFlag = endPackets w (ms.map Prod.snd) ∧
      ((expectedPackets b (h.clientFlag.contains .clientDeprecateEof) columns.length params.length =
            some ms.tail.length ∧
          ∃ c', (forwardPrepareStmt (net R) mc b h).run c = (.ok none, c') ∧ Relayed ms rest c c') ↔
        definitions h.clientFlag columns.length params.length < 2 ^ 16) := by
  refine ⟨by rw [hms, writePrepareOk_eq], ?_⟩
  rw [forwardPrepareStmt_relayed_iff R mc b h id hp hcols hms hin hw]
  refine ⟨fun hd => hd.2, fun hlt => ⟨?_, hlt⟩⟩
  have hlen : ms.tail.length = definitions h.clientFlag columns.length params.length := by
    rw [← length_definitionPayloads, ← List.length_map, List.map_tail, hms]
    rfl
  rw [hlen, expectedPackets_eq b h.clientFlag hlt]

end Prepared

theorem preparedStatement_relayed_one : ∃ c',
    (forwardPrepareStmt (net silent) .plain .dev (.bare .clientProtocol41)).run ⟨0, 0, .idle
      ((preparePayloads 1 [⟨"t", "c", 3, 0⟩] [] .clientProtocol41).map (Prod.mk 0) ++ [(0, [0xff])])⟩ =
        (.ok none, c') ∧ c'.net.inbox = [(0, [0xff])] := by
  obtain ⟨c', hrun, hrel⟩ := ((preparedStatement_relayed_iff silent .plain .dev (.bare .clientProtocol41) 1
    Sink.asyncWrite [⟨"t", "c", 3, 0⟩] [] (by decide) (by decide)
    ((preparePayloads 1 [⟨"t", "c", 3, 0⟩] [] .clientProtocol41).map (Prod.mk 0)) [(0, [0xff])]
    ⟨0, 0, .idle _⟩ (by decide) rfl rfl).2.mpr (by decide)).2
  exact ⟨c', hrun, hrel.unread⟩

/-- The response to a statement of 65535 placeholders. -/
def placeholders : List Message :=
  (preparePayloads 1 (List.replicate 65535 ⟨"", "?", 253, 0⟩) [] .clientProtocol41).map (Prod.mk 0)

/-- Its EOF packet is the packet too many. -/
theorem placeholders_not_relayed : ¬ ∃ c',
    (forwardPrepareStmt (net silent) .plain .release (.bare .clientProtocol41)).run
      ⟨0, 0, .idle (placeholders ++ [])⟩ = (.ok none, c') ∧
      Relayed placeholders [] ⟨0, 0, .idle (placeholders ++ [])⟩ c' := by
  have hms : placeholders.map Prod.snd =
      preparePayloads 1 (List.replicate 65535 ⟨"", "?", 253, 0⟩) [] .clientProtocol41 := by
    rw [placeholders, List.map_map]
    exact List.map_id _
  have hlen : (List.replicate 65535 (⟨"", "?", 253, 0⟩ : Column)).length = 65535 :=
    List.length_replicate
  generalize List.replicate 65535 (⟨"", "?", 253, 0⟩ : Column) = params at hms hlen
  intro hrel
  have hlt := (forwardPrepareStmt_relayed_iff silent .plain .release (.bare .clientProtocol41) 1 hlen.le
    (by simp) hms rfl rfl).mp hrel
  rw [hlen] at hlt
  exact absurd hlt (by decide)

/-! ### Cursors -/

/-- No definition of a column is taken for an EOF packet, also before version 4.1. -/
theorem isEofPacket_column {caps : CapabilityFlags} {p : Packet} (hp : IsColumn caps p) :
    isEofPacket p = false := by
  unfold IsColumn at hp
  split_ifs at hp
  · exact isEofPacket_columnDef hp
  · obtain ⟨table, rest, rfl⟩ := hp
    rw [lenencStr, List.append_assoc]
    rcases lenenc_cases table.length with ⟨b, r, hb, -, h2, -⟩ | ⟨hlong, r, hr⟩
    · rw [hb]
      simp [isEofPacket, hasHeader_cons, HeaderInfo.toU8, h2]
    · rw [hr]
      have hlen : ¬ r.length + (table.length + rest.length) + 1 ≤ 5 := by omega
      simp [isEofPacket, hlen]

theorem relays_inbox (R : Respond) (l : List Message) :
    Relays (net R) fun _ p => Keeps (fun c => c.net.inbox <:+ l) p where
  toClosed := Keeps.closed _
  relay isFlush c hc := by
    rcases hin : c.net.inbox with _ | ⟨m, ms⟩
    · rw [run_forward_nil R hin]
      exact hc
    · have htail : (c.net.take m).inbox <:+ l := (List.tail_suffix _).trans hc
      by_cases hw : c.net.writesLeft = some 0
      · rw [run_forward_broken R hin hw]
        exact htail
      · rw [run_forward_cons R hin hw]
        exact htail
  flush _ hc := hc

section Cursor
variable {R : Respond} {mc : MysqlCommon} {h : HandshakeResponse} {c c' : Conn World}

theorem forwardUntilResultEnd_reads {rounds : ℕ} {s : StatusFlags} (hw : c.net.writesLeft = none)
    (hrun : (forwardUntilResultEnd (net R) mc rounds h).run c = (.ok s, c')) :
    c.net.inbox ≠ [] ∧ c'.net.inbox <:+ c.net.inbox.tail := by
  have K := relays_inbox R c.net.inbox.tail
  obtain ⟨f, hf, hrest⟩ := K.resultRound_rest mc h ()
  rcases rounds with _ | n
  · cases hrun
  obtain ⟨r, c2, hround, hloop⟩ := Proc.of_run_bind_ok hrun
  rw [hf] at hround
  obtain ⟨p, c1, hone, hr⟩ := Proc.of_run_bind_ok hround
  rcases hin : c.net.inbox with _ | ⟨m, ms⟩
  · rw [run_forward_nil R hin] at hone
    cases hone
  · rw [run_forward_cons R hin (by simp [hw])] at hone
    have h1 : c1.net.inbox <:+ c.net.inbox.tail := by
      rw [← (Prod.mk.inj hone).2]
      exact List.suffix_rfl
    have h2 : c2.net.inbox <:+ c.net.inbox.tail := by
      have := hrest p c1 h1
      rwa [hr] at this
    refine ⟨List.cons_ne_nil m ms, ?_⟩
    rw [← hin]
    rcases r with u | s'
    · have hkeep : ((forwardUntilResultEnd (net R) mc n h).run c2).2.net.inbox <:+ c.net.inbox.tail :=
        K.forwardUntilResultEnd n h c2 h2
      rw [forwardUntilResultEnd] at hkeep
      rwa [hloop] at hkeep
    · cases hloop
      exact h2

theorem forwardQuery_unknown {m e : Message} {columns rest : List Message} {status : StatusFlags}
    {rounds : ℕ} (hd : h.clientFlag.contains .clientDeprecateEof = false) (hm : Announces m.2)
    (hcols : ∀ x ∈ columns, isEofPacket x.2 = false) (heof : IsEof status e.2)
    (hbits : StatusFlags.fromBits mc.statusFlags status.toNat = none)
    (hin : c.net.inbox = m :: (columns ++ [e]) ++ rest) (hw : c.net.writesLeft = none)
    (hr : columns.length < rounds) (hrun : (forwardQuery (net R) mc rounds h).run c = (.ok (), c')) :
    c'.net.inbox ≠ rest := by
  have hc : Ready (m :: (columns ++ [e])) c := ⟨⟨rest, hin.symm⟩, hw⟩
  obtain ⟨k, rfl⟩ : ∃ k, rounds = k + 1 := ⟨rounds - 1, by omega⟩
  obtain ⟨r, c2, hround, hloop⟩ := Proc.of_run_bind_ok hrun
  rw [queryRound_announced hm hc] at hround
  obtain ⟨s, c1, hresult, hpure⟩ := Proc.of_run_bind_ok hround
  rw [run_forwardResult_unknown hd hcols heof hbits hc.tail hr] at hresult
  have hunread : (relay (columns ++ [e]) (relayOne c m)).net.inbox = rest := by
    rw [← relay_cons, relay_inbox, hin, List.drop_left]
  have hready : Ready (m :: (columns ++ [e]) ++ []) c := by rwa [List.append_nil]
  obtain ⟨hne, h1⟩ := forwardUntilResultEnd_reads hready.append_right.2 hresult
  have h2 : c2.net.inbox <:+ rest.tail := by
    rw [← (Prod.mk.inj hpure).2, ← hunread]
    exact h1
  have h3 : c'.net.inbox <:+ rest.tail := by
    have K := relays_inbox R rest.tail
    rcases r with u | u
    · have hkeep : ((Proc.loop .outOfRounds (queryRound (net R) mc (k + 1) h) k ()).run c2).2.net.inbox <:+
          rest.tail := K.toClosed.loop (K.queryRound (k + 1) h) k () c2 h2
      rwa [show (Proc.loop _ _ k ()).run c2 = _ from hloop] at hkeep
    · cases hloop
      exact h2
  intro heq
  have hlen := h3.length_le
  rw [heq, List.length_tail] at hlen
  have := List.length_pos_iff.mpr (hunread ▸ hne)
  omega

/-- **Cursors**: the response that opens one is relayed exactly, and the later packets stay unread, if and
only if the status has no bit that the crate leaves undefined. -/
theorem cursor_relayed_iff (R : Respond) (mc : MysqlCommon) (h : HandshakeResponse)
    (hd : h.clientFlag.contains .clientDeprecateEof = false) (n : ℕ) (hn : 1 ≤ n) (m e : Message)
    (columns rest : List Message) (status : StatusFlags) (c : Conn World)
    (hm : m.2 = header h.clientFlag true n) (hlen : columns.length = n)
    (hcols : ∀ x ∈ columns, IsColumn h.clientFlag x.2) (heof : IsEof status e.2)
    (hcur : status.contains .serverStatusCursorExists = true)
    (hmore : status.contains .serverMoreResultsExists = false)
    (hin : c.net.inbox = m :: (columns ++ [e]) ++ rest) (hw : c.net.writesLeft = none) (rounds : ℕ)
    (hr : n < rounds) :
    (∃ c', (forwardQuery (net R) mc rounds h).run c = (.ok (), c') ∧
      Relayed (m :: (columns ++ [e])) rest c c') ↔ status &&& ~~~ mc.statusFlags = 0 := by
  have hkind : Announces m.2 := hm ▸ announces_header hn
  have hplain : ∀ x ∈ columns, isEofPacket x.2 = false := fun x hx => isEofPacket_column (hcols x hx)
  have hbits : StatusFlags.fromBits mc.statusFlags status.toNat =
      if status &&& ~~~ mc.statusFlags = 0 then some status else none := by
    simp [StatusFlags.fromBits]
  rw [← hlen] at hr
  constructor
  · rintro ⟨c', hrun, hrel⟩
    by_contra hset
    rw [if_neg hset] at hbits
    exact forwardQuery_unknown hd hkind hplain heof hbits hin hw hr hrun hrel.unread
  · intro hset
    rw [if_pos hset] at hbits
    have hc : Ready (m :: (columns ++ [e])) c := ⟨⟨rest, hin.symm⟩, hw⟩
    obtain ⟨k, rfl⟩ : ∃ k, rounds = k + 1 := ⟨rounds - 1, by omega⟩
    exact ⟨relay (m :: (columns ++ [e])) c,
      Proc.loop_break (queryRound_cursor hd hkind hplain heof hbits hcur hmore hc hr), relayed_relay hin⟩

end Cursor

theorem cursor_relayed_one : ∃ c',
    (forwardQuery (net silent) .plain 2 (.bare .clientProtocol41)).run ⟨0, 0, .idle
      ((1, [1]) :: ([(2, [3, 0x64, 0x65, 0x66, 0])] ++ [(3, [0xfe, 0, 0, 0x42, 0])]) ++ [(0, [0xff])])⟩ =
        (.ok (), c') ∧ c'.net.inbox = [(0, [0xff])] := by
  obtain ⟨c', hrun, hrel⟩ := (cursor_relayed_iff silent .plain (.bare .clientProtocol41) (by decide) 1 le_rfl
    (1, [1]) (3, [0xfe, 0, 0, 0x42, 0]) [(2, [3, 0x64, 0x65, 0x66, 0])] [(0, [0xff])] 0x42
    ⟨0, 0, .idle _⟩ (by decide) rfl (fun x hx => ⟨[0], List.mem_singleton.mp hx ▸ rfl⟩)
    ⟨[0, 0], rfl, by decide⟩ (by decide) (by decide) rfl rfl 2 (by decide)).mpr (by decide)
  exact ⟨c', hrun, hrel.unread⟩

/-- With the undefined bit `0x0004` beside the cursor's bit the unrelated packet is taken for a row. -/
theorem cursor_undefined_bit : ¬ ∃ c',
    (forwardQuery (net silent) .plain 2 (.bare .clientProtocol41)).run ⟨0, 0, .idle
      ((1, [1]) :: ([(2, [3, 0x64, 0x65, 0x66, 0])] ++ [(3, [0xfe, 0, 0, 0x44, 0])]) ++ [(0, [0xff])])⟩ =
        (.ok (), c') ∧
      Relayed ((1, [1]) :: ([(2, [3, 0x64, 0x65, 0x66, 0])] ++ [(3, [0xfe, 0, 0, 0x44, 0])])) [(0, [0xff])]
        ⟨0, 0, .idle ((1, [1]) :: ([(2, [3, 0x64, 0x65, 0x66, 0])] ++ [(3, [0xfe, 0, 0, 0x44, 0])]) ++
          [(0, [0xff])])⟩ c' := by
  rintro ⟨c', hrun, hrel⟩
  have heof : IsEof 0x44 [0xfe, 0, 0, 0x44, 0] := ⟨[0, 0], rfl, by decide⟩
  exact forwardQuery_unknown (by decide) (lenenc_kind le_rfl) (by decide) heof (by decide) rfl rfl
    (by decide) hrun hrel.unread

end Haentgl.Server.Statements
