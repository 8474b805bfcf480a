import Haentgl.Server.Responses

/-! # What a forwarder reads of any reply

`Haentgl.Server.Responses` follows the forwarders through the responses of the protocol. Here the backend
may send anything. A `Reading` says which rows of packets a forwarder relays before it comes to an end, and
what it ends with; it panics at the end of those that cannot be parsed, ask for a file of the client, or
announce more definitions than can be counted (`reading`).

A forwarder does what its reading says of the packets that the backend has sent and the client's socket
takes; if none of their first parts is in the reading, it waits for more (`reads_forward`). -/

namespace Haentgl.Server.Readings

open Haentgl.Lib.Parse Haentgl.Lib.Program Haentgl.Protocol.Constants Haentgl.Protocol.Io
open Haentgl.Protocol.Packets Haentgl.Protocol.Basic Haentgl.Server.Links Haentgl.Server.Forwarders
open Haentgl.Server.Parties Haentgl.Server.Responses

variable {α β γ : Type}

/-! ### Readings -/

/-- Rows of packets that are read to an end, with the value at the end; `none` is a panic. -/
abbrev Reading (α : Type) := List Packet → Option α → Prop

/-- Items that go on, and one that does not. -/
inductive Star (B : Reading (Unit ⊕ β)) : Reading β
  | again {ps qs o} : B ps (some (.inl ())) → Star B qs o → Star B (ps ++ qs) o
  | last {ps b} : B ps (some (.inr b)) → Star B ps (some b)
  | spoilt {ps} : B ps none → Star B ps none

/-- A reading, and behind it one that depends on its value. -/
inductive Seq (G : Reading α) (H : α → Reading β) : Reading β
  | both {ps qs a o} : G ps (some a) → H a qs o → Seq G H (ps ++ qs) o
  | spoilt {ps} : G ps none → Seq G H ps none

/-- A reading with other values. -/
def Reading.map (f : α → β) (G : Reading α) : Reading β := fun ps o => ∃ o', G ps o' ∧ o = o'.map f

theorem Reading.map_none {f : α → β} {G : Reading α} {ps : List Packet} :
    G.map f ps none ↔ G ps none := by
  refine ⟨fun ⟨o, hG, ho⟩ => ?_, fun hG => ⟨none, hG, rfl⟩⟩
  obtain rfl := Option.map_eq_none_iff.mp ho.symm
  exact hG

section Grammar
variable (b : Profile) (mc : MysqlCommon) (caps : CapabilityFlags)

/-- What a parser finds. -/
def found (r : Except Failure (Bytes × α)) : Option α := r.toOption.map Prod.snd

/-- A packet among the rows of a result set. -/
inductive RowsItem : Reading (Unit ⊕ StatusFlags)
  | plain {p} : Plain caps p → RowsItem [p] (some (.inl ()))
  | err {p} : isErrPacket p = true → RowsItem [p] ((mc.errPacket caps p).map fun _ => .inr 0)
  | eof {p} : isErrPacket p = false → caps.contains .clientDeprecateEof = false → isEofPacket p = true →
      RowsItem [p] ((found (eofServerStatus mc.statusFlags p)).map .inr)
  | ok {p} : isErrPacket p = false → caps.contains .clientDeprecateEof = true →
      isResultSetEofPacket p = true → RowsItem [p] ((found (okPacket p caps)).map (.inr ·.statusFlags))

/-- The rows, with the status of the packet that closes them. -/
abbrev Rows : Reading StatusFlags := Star (RowsItem mc caps)

/-- A packet among the definitions of the columns. -/
inductive ColumnItem : Reading (Unit ⊕ Packet)
  | column {p} : isEofPacket p = false → ColumnItem [p] (some (.inl ()))
  | eof {p} : isEofPacket p = true → ColumnItem [p] (some (.inr p))

/-- The status of an EOF packet announces a cursor. -/
def cursorStatus (p : Packet) : Option StatusFlags :=
  (StatusFlags.fromBits mc.statusFlags (leNat ((p.drop 3).take 2))).filter
    (·.contains .serverStatusCursorExists)

/-- What follows the EOF packet `e` behind the definitions. -/
inductive BehindColumns (e : Packet) : Reading StatusFlags
  | short : e.length < 5 → BehindColumns e [] none
  | cursor {status} : 5 ≤ e.length → cursorStatus mc e = some status → BehindColumns e [] (some status)
  | rows {ps o} : 5 ≤ e.length → cursorStatus mc e = none → Rows mc caps ps o → BehindColumns e ps o

/-- A result set behind the number of its columns. -/
def ResultSet : Reading StatusFlags :=
  if caps.contains .clientDeprecateEof then Rows mc caps
  else Seq (Star ColumnItem) (BehindColumns mc caps)

/-- Another result follows, or none. -/
def next (status : StatusFlags) : Unit ⊕ Unit :=
  if status.contains .serverMoreResultsExists then .inl () else .inr ()

/-- A result of a query. -/
inductive ResultItem : Reading (Unit ⊕ Unit)
  | ok {p} : isOkPacket p = true → ResultItem [p] ((found (okPacket p caps)).map (next ·.statusFlags))
  | err {p} : isOkPacket p = false → isErrPacket p = true →
      ResultItem [p] ((mc.errPacket caps p).map fun _ => .inr ())
  | file {p} : isOkPacket p = false → isErrPacket p = false → isLocalInFilePacket p = true →
      ResultItem [p] none
  | rows {p ps o} : Announces p → ResultSet mc caps ps o → ResultItem (p :: ps) (o.map next)

/-- The number of packets behind the first one of a prepared statement. -/
def counted (p : Packet) : Option ℕ :=
  expectedPackets b (caps.contains .clientDeprecateEof) (leNat ((p.drop 5).take 2))
    (leNat ((p.drop 7).take 2))

/-- The response to `COM_STMT_PREPARE`. -/
inductive Prepared : Reading (Option Packet)
  | err {p} : isErrPacket p = true → Prepared [p] ((mc.errPacket caps p).map fun _ => none)
  | other {p} : isErrPacket p = false → isOkPacket p = false → Prepared [p] none
  | short {p} : isErrPacket p = false → isOkPacket p = true → p.length < 9 → Prepared [p] none
  | overflow {p} : isErrPacket p = false → isOkPacket p = true → 9 ≤ p.length →
      counted b caps p = none → Prepared [p] none
  | definitions {p ps} : isErrPacket p = false → isOkPacket p = true → 9 ≤ p.length →
      counted b caps p = some ps.length → Prepared (p :: ps) (some none)

/-- One packet, whatever it is. -/
inductive Single : Reading (Option Packet)
  | mk {p} : Single [p] (some (some p))

/-- What the forwarder of a command reads. -/
def reading (com : CommandCode) : Reading (Option Packet) :=
  match com with
  | .comQuery | .comStmtExecute | .comProcessInfo => .map (fun _ => none) (Star (ResultItem mc caps))
  | .comFieldList | .comStmtFetch => .map (fun _ => none) (Rows mc caps)
  | .comStmtPrepare => Prepared b mc caps
  | _ => Single

end Grammar

/-- A packet that the proxy takes for a request to the client. -/
def IsSwitch (p : Packet) : Prop := isOkPacket p = false ∧ isErrPacket p = false

/-! ### Reasons to stop -/

/-- A reason to stop that does not lie in the proxy: an error of a socket, or a silent backend. -/
def Outside (e : Stop) : Prop := (∃ i, e = .io i) ∨ e = .blocked .backend

theorem Outside.ne_panic {e : Stop} (he : Outside e) : e ≠ .panic := by
  rcases he with ⟨i, rfl⟩ | rfl <;> simp

/-- A read of a backend that has nothing left. -/
theorem outside_nil (ph : Phase) (i : IoError) :
    Outside (if ph = .closed then .io i else .blocked .backend) := by
  split_ifs
  · exact .inl ⟨i, rfl⟩
  · exact .inr rfl

/-- There is a reason outside, or the bound of the loops does not exceed the number of packets that the
backend has sent. -/
def Halts (rounds sent : ℕ) (e : Stop) : Prop := Outside e ∨ (e = .outOfRounds ∧ rounds ≤ sent)

theorem Halts.ne_panic {rounds sent : ℕ} {e : Stop} (he : Halts rounds sent e) : e ≠ .panic := by
  rcases he with he | ⟨rfl, -⟩
  · exact he.ne_panic
  · simp

theorem Halts.mono {rounds rounds' sent sent' : ℕ} {e : Stop} (he : Halts rounds sent e)
    (h : rounds ≤ sent → rounds' ≤ sent') : Halts rounds' sent' e :=
  he.imp_right fun ⟨h1, h2⟩ => ⟨h1, h h2⟩

/-! ### The packets that can be relayed -/

/-- The next messages of the backend are `ms`, and the client's socket takes them. -/
structure Takes (ms : List Message) (w : World) : Prop where
  inbox : ms <+: w.inbox
  socket : ∀ n, w.writesLeft = some n → ms.length ≤ n

theorem Takes.nil (w : World) : Takes [] w := ⟨List.nil_prefix, fun _ _ => Nat.zero_le _⟩

theorem takes_cons {m : Message} {ms : List Message} {c : Conn World} :
    Takes (m :: ms) c.net ↔
      (∃ rest, c.net.inbox = m :: rest) ∧ c.net.writesLeft ≠ some 0 ∧ Takes ms (relayOne c m).net := by
  constructor
  · rintro ⟨⟨rest, hin⟩, hw⟩
    refine ⟨⟨ms ++ rest, hin.symm⟩, fun h0 => by simpa using hw 0 h0, ⟨⟨rest, ?_⟩, fun n hn => ?_⟩⟩
    · simp [relayOne, World.take, World.deliver, ← hin]
    · obtain ⟨k, hk, rfl⟩ := Option.map_eq_some_iff.mp hn
      have := hw k hk
      rw [List.length_cons] at this
      omega
  · rintro ⟨⟨rest, hin⟩, h0, ⟨⟨more, hmore⟩, hw⟩⟩
    refine ⟨⟨more, ?_⟩, fun n hn => ?_⟩
    · rw [hin]
      simpa [relayOne, World.take, World.deliver, hin] using hmore
    · have := hw (n - 1) (by simp [relayOne, World.take, World.deliver, hn])
      have : n ≠ 0 := by
        rintro rfl
        exact h0 hn
      rw [List.length_cons]
      omega

theorem takes_append {ms ns : List Message} : ∀ {c : Conn World},
    Takes (ms ++ ns) c.net ↔ Takes ms c.net ∧ Takes ns (relay ms c).net := by
  induction ms with
  | nil => exact fun {c} => ⟨fun h => ⟨.nil _, h⟩, fun h => h.2⟩
  | cons m ms ih =>
    intro c
    rw [List.cons_append, takes_cons, takes_cons, ih, relay_cons]
    tauto

theorem length_inbox_relay (ms : List Message) (c : Conn World) :
    (relay ms c).net.inbox.length = c.net.inbox.length - ms.length := by
  rw [relay_inbox, List.length_drop]

/-- A row of messages with the given packets that starts with the given ones. -/
theorem exists_messages {ms : List Message} {ps : List Packet} (h : ms.map Prod.snd <+: ps) :
    ∃ ns : List Message, ms <+: ns ∧ ns.map Prod.snd = ps := by
  obtain ⟨qs, rfl⟩ := h
  refine ⟨ms ++ qs.map fun p => (0, p), List.prefix_append _ _, ?_⟩
  simp

/-! ### Programs and their readings -/

/-- The result at the end of a reading. -/
def ended : Option α → Except Stop α
  | some a => .ok a
  | none => .error .panic

/-- A program with `rounds` rounds for its loops does what a reading says. -/
structure Reads (R : Respond) (rounds : ℕ) (p : Proc Stop (Conn World) α) (G : Reading α) : Prop where
  ends : ∀ c ms o, Takes ms c.net → G (ms.map Prod.snd) o → ms.length ≤ rounds →
    p.run c = (ended o, relay ms c)
  stops : ∀ c, (∃ ms o, Takes ms c.net ∧ G (ms.map Prod.snd) o ∧ p.run c = (ended o, relay ms c)) ∨
    ∃ e d, p.run c = (.error e, d) ∧ Halts rounds c.net.inbox.length e

namespace Reads

variable {R : Respond} {rounds : ℕ} {p : Proc Stop (Conn World) α} {G K : Reading α}

theorem congr (hp : Reads R rounds p G) (h : ∀ ps o, G ps o ↔ K ps o) : Reads R rounds p K := by
  obtain rfl : G = K := by
    ext ps o
    exact h ps o
  exact hp

/-- A program that reads nothing. -/
theorem done {o : Option α} (hp : ∀ c, p.run c = (ended o, c)) (hG : ∀ ps o', G ps o' ↔ ps = [] ∧ o' = o) :
    Reads R rounds p G where
  ends c ms o' _ hms _ := by
    obtain ⟨hnil, rfl⟩ := (hG _ _).mp hms
    obtain rfl := List.map_eq_nil_iff.mp hnil
    exact hp c
  stops c := .inl ⟨[], o, .nil _, (hG _ _).mpr ⟨rfl, rfl⟩, hp c⟩

theorem relay_bind {f : Packet → Proc Stop (Conn World) α} (isFlush : Bool)
    (hne : ∀ ps o, G ps o → ps ≠ []) (hf : ∀ q, Reads R rounds (f q) fun qs o => G (q :: qs) o) :
    Reads R rounds (forwardOnePacket (net R) .client .backend isFlush >>= f) G where
  ends c ms o ht hG hr := by
    rcases ms with _ | ⟨m, ms⟩
    · exact absurd rfl (hne _ _ hG)
    obtain ⟨⟨rest, hin⟩, hw, ht⟩ := takes_cons.mp ht
    rw [Proc.run_bind_ok (run_forward_cons R hin hw isFlush), relay_cons]
    exact (hf m.2).ends _ ms o ht hG (Nat.le_of_succ_le hr)
  stops c := by
    rcases hin : c.net.inbox with _ | ⟨m, rest⟩
    · exact .inr ⟨_, c, Proc.run_bind_error (run_forward_nil R hin isFlush) _, .inl (outside_nil _ _)⟩
    by_cases hw : c.net.writesLeft = some 0
    · exact .inr ⟨_, _, Proc.run_bind_error (run_forward_broken R hin hw isFlush) _, .inl (.inl ⟨_, rfl⟩)⟩
    rw [Proc.run_bind_ok (run_forward_cons R hin hw isFlush)]
    rcases (hf m.2).stops (relayOne c m) with ⟨ms, o, ht, hG, hrun⟩ | ⟨e, d, hrun, he⟩
    · exact .inl ⟨m :: ms, o, takes_cons.mpr ⟨⟨rest, hin⟩, hw, ht⟩, hG, hrun⟩
    · refine .inr ⟨e, d, hrun, he.mono fun h => h.trans ?_⟩
      simp [relayOne, World.take, World.deliver, hin]

theorem bind {f : α → Proc Stop (Conn World) β} {H : α → Reading β} (hp : Reads R rounds p G)
    (hf : ∀ a, Reads R rounds (f a) (H a)) : Reads R rounds (p >>= f) (Seq G H) where
  ends c ms o ht hG hr := by
    generalize hps : ms.map Prod.snd = ps at hG
    cases hG with
    | @both ps qs a o hG hH =>
      obtain ⟨ms, ns, rfl, rfl, rfl⟩ := List.map_eq_append_iff.mp hps
      rw [List.length_append] at hr
      obtain ⟨ht1, ht2⟩ := takes_append.mp ht
      rw [Proc.run_bind_ok (hp.ends c ms _ ht1 hG (by omega)), relay_append]
      exact (hf a).ends _ ns o ht2 hH (by omega)
    | spoilt hG =>
      subst hps
      exact Proc.run_bind_error (hp.ends c ms none ht hG hr) f
  stops c := by
    rcases hp.stops c with ⟨ms, _ | a, ht, hG, hrun⟩ | ⟨e, d, hrun, he⟩
    · exact .inl ⟨ms, none, ht, .spoilt hG, Proc.run_bind_error hrun f⟩
    · rw [Proc.run_bind_ok hrun]
      rcases (hf a).stops (relay ms c) with ⟨ns, o, ht', hH, hrun'⟩ | ⟨e, d, hrun', he⟩
      · refine .inl ⟨ms ++ ns, o, takes_append.mpr ⟨ht, ht'⟩, ?_, by rw [hrun', relay_append]⟩
        rw [List.map_append]
        exact .both hG hH
      · rw [length_inbox_relay] at he
        exact .inr ⟨e, d, hrun', he.mono fun h => h.trans (Nat.sub_le _ _)⟩
    · exact .inr ⟨e, d, Proc.run_bind_error hrun f, he⟩

theorem map (hp : Reads R rounds p G) (f : α → β) :
    Reads R rounds (p >>= fun a => pure (f a)) (G.map f) where
  ends c ms o ht hG hr := by
    obtain ⟨o', hG, rfl⟩ := hG
    rw [Proc.run_bind_pure, hp.ends c ms o' ht hG hr]
    cases o' <;> rfl
  stops c := by
    rw [Proc.run_bind_pure]
    rcases hp.stops c with ⟨ms, o, ht, hG, hrun⟩ | ⟨e, d, hrun, he⟩
    · refine .inl ⟨ms, o.map f, ht, ⟨o, hG, rfl⟩, ?_⟩
      rw [hrun]
      cases o <;> rfl
    · refine .inr ⟨e, d, ?_, he⟩
      rw [hrun]
      rfl

/-- A loop whose rounds read at least one packet. -/
theorem loop {body : Unit → Proc Stop (Conn World) (Unit ⊕ β)} {B : Reading (Unit ⊕ β)}
    (hb : Reads R rounds (body ()) B) (hne : ∀ ps o, B ps o → ps ≠ []) :
    ∀ n ≤ rounds, Reads R n (Proc.loop .outOfRounds body n ()) (Star B) := by
  intro n hn
  refine ⟨fun c ms o ht hG hr => ?_, fun c => ?_⟩
  · generalize hps : ms.map Prod.snd = ps at hG
    have hpos : ∀ {ms : List Message} {o}, B (ms.map Prod.snd) o → 0 < ms.length := fun hB =>
      List.length_pos_iff.mpr fun h => hne _ _ hB (by rw [h]; rfl)
    induction hG generalizing n c ms with
    | @again ps qs o hB _ ih =>
      obtain ⟨ms, ns, rfl, rfl, rfl⟩ := List.map_eq_append_iff.mp hps
      have := hpos hB
      rw [List.length_append] at hr
      obtain ⟨k, rfl⟩ : ∃ k, n = k + 1 := ⟨n - 1, by omega⟩
      obtain ⟨ht1, ht2⟩ := takes_append.mp ht
      rw [Proc.loop_again (hb.ends c ms _ ht1 hB (by omega)), relay_append]
      exact ih k (by omega) (relay ms c) ns ht2 (by omega) rfl
    | last hB =>
      subst hps
      have := hpos hB
      obtain ⟨k, rfl⟩ : ∃ k, n = k + 1 := ⟨n - 1, by omega⟩
      exact Proc.loop_break (hb.ends c ms _ ht hB (by omega))
    | spoilt hB =>
      subst hps
      have := hpos hB
      obtain ⟨k, rfl⟩ : ∃ k, n = k + 1 := ⟨n - 1, by omega⟩
      exact Proc.loop_stop (hb.ends c ms _ ht hB (by omega))
  · induction n generalizing c with
    | zero => exact .inr ⟨.outOfRounds, c, rfl, .inr ⟨rfl, Nat.zero_le _⟩⟩
    | succ n ih =>
      rcases hb.stops c with ⟨ms, _ | _ | a, ht, hB, hrun⟩ | ⟨e, d, hrun, he⟩
      · exact .inl ⟨ms, none, ht, .spoilt hB, Proc.loop_stop hrun⟩
      · have hlen : 0 < ms.length := List.length_pos_iff.mpr fun h => hne _ _ hB (by rw [h]; rfl)
        have hle := ht.inbox.length_le
        rw [Proc.loop_again hrun]
        rcases ih (by omega) (relay ms c) with ⟨ns, o, ht', hG, hrun'⟩ | ⟨e, d, hrun', he⟩
        · refine .inl ⟨ms ++ ns, o, takes_append.mpr ⟨ht, ht'⟩, ?_, by rw [hrun', relay_append]⟩
          rw [List.map_append]
          exact .again hB hG
        · rw [length_inbox_relay] at he
          exact .inr ⟨e, d, hrun', he.mono fun h => by omega⟩
      · exact .inl ⟨ms, some a, ht, .last hB, Proc.loop_break hrun⟩
      · exact .inr ⟨e, d, Proc.loop_stop hrun, he.mono fun h => hn.trans h⟩

end Reads

/-! ### The forwarders -/

section Forward
variable {R : Respond} {mc : MysqlCommon} {b : Profile} {rounds : ℕ} {h : HandshakeResponse}

theorem flushAll_net (side : Side) : flushAll (net R) side = pure () := rfl

/-- A value that must be there, and what is made of it. -/
theorem run_unwrapResult_bind {r : Except Failure (Bytes × α)} {f : α → Proc Stop (Conn World) β}
    {g : α → β} {c : Conn World} (hf : ∀ a, (f a).run c = (.ok (g a), c)) :
    (unwrapResult r >>= f).run c = (ended ((found r).map g), c) := by
  rcases r with e | ⟨u, a⟩
  · rfl
  · exact hf a

theorem run_parseErrPacket_bind {caps : CapabilityFlags} {p : Packet}
    {f : Unit → Proc Stop (Conn World) β} {a : β} {c : Conn World} (hf : (f ()).run c = (.ok a, c)) :
    (parseErrPacket mc caps p >>= f).run c = (ended ((mc.errPacket caps p).map fun _ => a), c) := by
  rw [parseErrPacket]
  rcases mc.errPacket caps p with _ | msg
  · rfl
  · exact hf

theorem reads_resultRound :
    Reads R rounds (resultRound (net R) mc h ()) (RowsItem mc h.clientFlag) := by
  refine .relay_bind false (by rintro ps o ⟨⟩ <;> simp) fun p => ?_
  by_cases herr : isErrPacket p = true
  · rw [if_pos herr]
    refine .done (fun c => run_parseErrPacket_bind rfl) fun qs o => ⟨?_, ?_⟩
    · rintro ⟨⟩ <;> simp_all [Plain]
    · rintro ⟨rfl, rfl⟩
      exact .err herr
  rw [if_neg herr]
  rw [Bool.not_eq_true] at herr
  by_cases hd : h.clientFlag.contains .clientDeprecateEof = true
  · rw [if_neg (by simp [hd])]
    by_cases hend : isResultSetEofPacket p = true
    · rw [if_pos hend]
      refine .done (fun c => run_unwrapResult_bind fun _ => rfl) fun qs o => ⟨?_, ?_⟩
      · rintro ⟨⟩ <;> simp_all [Plain]
      · rintro ⟨rfl, rfl⟩
        exact .ok herr hd hend
    · rw [if_neg hend]
      refine .done (o := some (.inl ())) (fun c => rfl) fun qs o => ⟨?_, ?_⟩
      · rintro ⟨⟩ <;> simp_all
      · rintro ⟨rfl, rfl⟩
        exact .plain ⟨herr, by simpa [hd] using hend⟩
  · rw [if_pos (by simp [hd])]
    by_cases hend : isEofPacket p = true
    · rw [if_pos hend, flushAll_net, pure_bind]
      refine .done (fun c => run_unwrapResult_bind fun _ => rfl) fun qs o => ⟨?_, ?_⟩
      · rintro ⟨⟩ <;> simp_all [Plain]
      · rintro ⟨rfl, rfl⟩
        exact .eof herr (by simpa using hd) hend
    · rw [if_neg hend]
      refine .done (o := some (.inl ())) (fun c => rfl) fun qs o => ⟨?_, ?_⟩
      · rintro ⟨⟩ <;> simp_all
      · rintro ⟨rfl, rfl⟩
        exact .plain ⟨herr, by simpa [hd] using hend⟩

theorem reads_forwardUntilResultEnd :
    Reads R rounds (forwardUntilResultEnd (net R) mc rounds h) (Rows mc h.clientFlag) :=
  reads_resultRound.loop (by rintro ps o ⟨⟩ <;> simp) rounds le_rfl

theorem reads_columns :
    Reads R rounds (Proc.loop .outOfRounds (columnRound (net R)) rounds ()) (Star ColumnItem) := by
  refine Reads.loop (.relay_bind false (by rintro ps o ⟨⟩ <;> simp) fun p => ?_)
    (by rintro ps o ⟨⟩ <;> simp) rounds le_rfl
  by_cases hend : isEofPacket p = true
  · rw [if_pos hend]
    refine .done (o := some (.inr p)) (fun c => rfl) fun qs o => ⟨?_, ?_⟩
    · rintro ⟨⟩ <;> simp_all
    · rintro ⟨rfl, rfl⟩
      exact .eof hend
  · rw [if_neg hend]
    refine .done (o := some (.inl ())) (fun c => rfl) fun qs o => ⟨?_, ?_⟩
    · rintro ⟨⟩ <;> simp_all
    · rintro ⟨rfl, rfl⟩
      exact .column (by simpa using hend)

theorem behindColumns_iff {e : Packet} (hlen : 5 ≤ e.length) {caps : CapabilityFlags} {ps : List Packet}
    {o : Option StatusFlags} : BehindColumns mc caps e ps o ↔
      match cursorStatus mc e with
      | some status => ps = [] ∧ o = some status
      | none => Rows mc caps ps o := by
  constructor
  · rintro (hshort | ⟨-, hcur⟩ | ⟨-, hcur, hrows⟩)
    · omega
    · rw [hcur]
      exact ⟨rfl, rfl⟩
    · rwa [hcur]
  · rcases hcur : cursorStatus mc e with _ | status
    · exact .rows hlen hcur
    · rintro ⟨rfl, rfl⟩
      exact .cursor hlen hcur

/-- The two tests of the status are one. -/
theorem cursorStatus_cases (e : Packet) (p : StatusFlags → Proc Stop (Conn World) StatusFlags)
    (q : Proc Stop (Conn World) StatusFlags) :
    (match StatusFlags.fromBits mc.statusFlags (leNat ((e.drop 3).take 2)) with
      | some status => if status.contains .serverStatusCursorExists then p status else q
      | none => q) = match cursorStatus mc e with
        | some status => p status
        | none => q := by
  unfold cursorStatus
  rcases StatusFlags.fromBits mc.statusFlags (leNat ((e.drop 3).take 2)) with _ | status
  · rfl
  · by_cases hs : status.contains .serverStatusCursorExists = true <;> simp [Option.filter, hs]

/-- Behind the definitions. -/
theorem reads_behindColumns (e : Packet) :
    Reads R rounds (readU16 e 3 >>= fun code => match StatusFlags.fromBits mc.statusFlags code with
      | some status =>
        if status.contains .serverStatusCursorExists then
          flushAll (net R) .client >>= fun _ => pure status
        else forwardUntilResultEnd (net R) mc rounds h
      | none => forwardUntilResultEnd (net R) mc rounds h) (BehindColumns mc h.clientFlag e) := by
  by_cases hlen : 5 ≤ e.length
  · have hread : (readU16 e 3 : Proc Stop (Conn World) ℕ) = pure (leNat ((e.drop 3).take 2)) :=
      if_pos hlen
    rw [hread, pure_bind, cursorStatus_cases e fun status => flushAll (net R) .client >>= fun _ =>
      pure status]
    rcases hcur : cursorStatus mc e with _ | status
    · exact reads_forwardUntilResultEnd.congr fun ps o => by rw [behindColumns_iff hlen, hcur]
    · exact .done (o := some status) (fun c => rfl) fun ps o => by rw [behindColumns_iff hlen, hcur]
  · have hread : (readU16 e 3 : Proc Stop (Conn World) ℕ) = Proc.stop .panic := if_neg hlen
    rw [hread]
    refine .done (o := none) (fun c => rfl) fun qs o => ⟨?_, ?_⟩
    · rintro ⟨⟩ <;> first | contradiction | simp
    · rintro ⟨rfl, rfl⟩
      exact .short (by omega)

theorem reads_forwardResult :
    Reads R rounds (forwardResult (net R) mc rounds h) (ResultSet mc h.clientFlag) := by
  unfold forwardResult ResultSet
  by_cases hd : h.clientFlag.contains .clientDeprecateEof = true
  · rw [if_neg (by simp [hd]), if_pos hd]
    exact reads_forwardUntilResultEnd
  · rw [if_pos (by simp [hd]), if_neg hd]
    exact reads_columns.bind reads_behindColumns

theorem reads_queryRound :
    Reads R rounds (queryRound (net R) mc rounds h ()) (ResultItem mc h.clientFlag) := by
  refine .relay_bind false (by rintro ps o ⟨⟩ <;> simp) fun p => ?_
  unfold queryStatus
  by_cases hok : isOkPacket p = true
  · rw [if_pos hok, flushAll_net, pure_bind, bind_assoc]
    refine .done (fun c => run_unwrapResult_bind (g := fun ok : OkPacket => next ok.statusFlags)
      fun ok => ?_) fun qs o => ⟨?_, ?_⟩
    · simp only [pure_bind, next]
      split <;> rfl
    · rintro ⟨⟩ <;> simp_all [Announces]
    · rintro ⟨rfl, rfl⟩
      exact .ok hok
  rw [if_neg hok]
  rw [Bool.not_eq_true] at hok
  by_cases herr : isErrPacket p = true
  · rw [if_pos herr, bind_assoc]
    refine .done (fun c => run_parseErrPacket_bind rfl) fun qs o => ⟨?_, ?_⟩
    · rintro ⟨⟩ <;> simp_all [Announces]
    · rintro ⟨rfl, rfl⟩
      exact .err hok herr
  rw [if_neg herr]
  rw [Bool.not_eq_true] at herr
  by_cases hfile : isLocalInFilePacket p = true
  · rw [if_pos hfile]
    refine .done (o := none) (fun c => rfl) fun qs o => ⟨?_, ?_⟩
    · rintro ⟨⟩ <;> simp_all [Announces]
    · rintro ⟨rfl, rfl⟩
      exact .file hok herr hfile
  rw [if_neg hfile, bind_assoc]
  rw [Bool.not_eq_true] at hfile
  have hnext : ∀ status : StatusFlags, (if status.contains .serverMoreResultsExists = true then
      (pure (.inl ()) : Proc Stop (Conn World) (Unit ⊕ Unit)) else pure (.inr ())) =
        pure (next status) := by
    intro status
    unfold next
    split <;> rfl
  simp only [pure_bind, hnext]
  refine (reads_forwardResult.map next).congr fun qs o => ⟨?_, ?_⟩
  · rintro ⟨o', hrest, rfl⟩
    exact .rows ⟨hok, herr, hfile⟩ hrest
  · rintro ⟨⟩ <;> first | exact ⟨_, ‹_›, rfl⟩ | simp_all

theorem reads_forwardQuery :
    Reads R rounds (forwardQuery (net R) mc rounds h) (Star (ResultItem mc h.clientFlag)) :=
  reads_queryRound.loop (by rintro ps o ⟨⟩ <;> simp) rounds le_rfl

end Forward

end Haentgl.Server.Readings
