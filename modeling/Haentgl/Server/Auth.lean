import Haentgl.Server.Parties

/-! # The authentication of a session

When the authentication of a session goes through: `Login` lists what the client and the backend must
have sent, and `authenticate_some_iff` says that the proxy enters the command loop for nothing else.

A backend takes the client for authenticated after an OK packet. The proxy does so after any verdict
that is not an ERR packet, so it is right unless the verdict is an `AuthMoreData` (`authenticate_ok_iff`). -/

namespace Haentgl.Server.Auth

open Haentgl.Lib.Parse Haentgl.Lib.Program Haentgl.Protocol.Constants Haentgl.Protocol.Io
open Haentgl.Protocol.Packets Haentgl.Protocol.Basic Haentgl.Server.Links Haentgl.Server.Forwarders
open Haentgl.Server.Proxy Haentgl.Server.Parties Haentgl.Server.Invariants
open Haentgl.Protocol.Writer (seqAfter)

variable {R : Respond} {S : Setup} {c c' : Conn World} {m : Message}

/-! ### When an operation succeeds -/

theorem run_orPanic_ok_iff {α : Type} {o : Option α} {a : α} :
    (orPanic o : Proc Stop (Conn World) α).run c = (.ok a, c') ↔ o = some a ∧ c' = c := by
  rcases o with _ | b
  · simp [orPanic]
  · simp [orPanic, eq_comm]

/-- What a read returns, if it returns. -/
theorem run_asyncPacketRead_ok_iff {side : Side} :
    (asyncPacketRead (net R) side).run c = (.ok m, c') ↔
      ∃ w, ((net R).next side).run c.net = (.ok (some m), w) ∧ c' = { c with net := w } := by
  rw [asyncPacketRead, Proc.run_bind_ok_iff]
  constructor
  · rintro ⟨o, c1, hnext, hm⟩
    have heq : (onNet ((net R).next side)).run c = _ := run_onNet (Prod.mk.eta).symm
    obtain ⟨hres, rfl⟩ := Prod.mk.inj (heq.symm.trans hnext)
    rcases o with _ | n
    · simp at hm
    · obtain ⟨hn, rfl⟩ := Prod.mk.inj hm
      obtain rfl := Option.some.inj (Option.some.inj (by simpa using hn) : some n = some m)
      exact ⟨_, Prod.ext hres rfl, rfl⟩
  · rintro ⟨w, hnext, rfl⟩
    exact ⟨some m, _, run_onNet hnext, rfl⟩

theorem run_readBackend_ok_iff :
    (asyncPacketRead (net R) .backend).run c = (.ok m, c') ↔
      c.net.inbox.head? = some m ∧ c' = { c with net := c.net.take m } := by
  rw [run_asyncPacketRead_ok_iff]
  change (∃ w, readBackend.run c.net = _ ∧ _) ↔ _
  rcases hin : c.net.inbox with _ | ⟨n, ns⟩
  · rw [run_readBackend_nil hin]
    split_ifs <;> simp
  · rw [run_readBackend_cons hin]
    constructor
    · rintro ⟨w, hw, rfl⟩
      simp only [Prod.mk.injEq, Except.ok.injEq, Option.some.injEq] at hw
      obtain ⟨rfl, rfl⟩ := hw
      exact ⟨rfl, rfl⟩
    · rintro ⟨hn, rfl⟩
      obtain rfl := Option.some.inj hn
      exact ⟨_, rfl, rfl⟩

theorem run_readClient_ok_iff :
    (asyncPacketRead (net R) .client).run c = (.ok m, c') ↔
      c.net.toCome.head? = some m ∧ c' = { c with net := c.net.hear m } := by
  rw [run_asyncPacketRead_ok_iff]
  change (∃ w, readClient.run c.net = _ ∧ _) ↔ _
  rcases htc : c.net.toCome with _ | ⟨n, ns⟩
  · rw [run_readClient_nil htc]
    cases c.net.clientEnd <;> simp
  · rw [run_readClient_cons htc]
    constructor
    · rintro ⟨w, hw, rfl⟩
      simp only [Prod.mk.injEq, Except.ok.injEq, Option.some.injEq] at hw
      obtain ⟨rfl, rfl⟩ := hw
      exact ⟨rfl, rfl⟩
    · rintro ⟨hn, rfl⟩
      obtain rfl := Option.some.inj hn
      exact ⟨_, rfl, rfl⟩

theorem run_writePacket_ok_iff {side : Side} {q : UInt8} {p : Packet} :
    (writePacket (net R) side q p).run c = (.ok (), c') ↔
      ∃ w, ((net R).send side q p).run c.net = (.ok (), w) ∧ c' = wrote c side (q, p) w := by
  constructor
  · intro h
    obtain ⟨_, c1, hseq, h1⟩ := Proc.of_run_bind_ok h
    obtain ⟨_, c2, hend, hflush⟩ := Proc.of_run_bind_ok h1
    obtain rfl : c.setSeq side q = c1 := (Prod.mk.inj hseq).2
    obtain rfl : c2 = c' := (Prod.mk.inj hflush).2
    rw [run_endPacket, Conn.seq_setSeq] at hend
    obtain ⟨hres, rfl⟩ := Prod.mk.inj hend
    have hnet : ((c.setSeq side q).setSeq side (seqAfter q p)).net = c.net := by simp
    refine ⟨(((net R).send side q p).run c.net).2, Prod.ext ?_ rfl, ?_⟩
    · rw [← hres, hnet]
      rfl
    · cases side <;> rfl
  · rintro ⟨w, hsend, rfl⟩
    exact run_writePacket (m := (q, p)) hsend rfl

theorem run_writePacket_client_ok_iff {q : UInt8} {p : Packet} :
    (writePacket (net R) .client q p).run c = (.ok (), c') ↔
      c.net.writesLeft ≠ some 0 ∧ c' = wrote c .client (q, p) (c.net.deliver (q, p)) := by
  rw [run_writePacket_ok_iff]
  change (∃ w, (writeClient (q, p)).run c.net = _ ∧ _) ↔ _
  by_cases hw : c.net.writesLeft = some 0
  · rw [run_writeClient_broken hw]
    simp [hw]
  · rw [run_writeClient hw]
    simp [hw]

theorem run_writePacket_backend_ok_iff {q : UInt8} {p : Packet} :
    (writePacket (net R) .backend q p).run c = (.ok (), c') ↔
      ¬ c.net.Reset ∧ c' = wrote c .backend (q, p) (c.net.receive R (q, p)) := by
  rw [run_writePacket_ok_iff]
  change (∃ w, (writeBackend R (q, p)).run c.net = _ ∧ _) ↔ _
  by_cases hph : c.net.Reset
  · rw [run_writeBackend_reset hph]
    simp [hph]
  · rw [run_writeBackend hph]
    simp [hph]

/-! ### The exchange of the three packets -/

/-- The backend's switch request, the client's answer and the backend's verdict, from a state in which
the exchange has been opened. -/
structure Relayed (R : Respond) (S : Setup) (seq : UInt8) (c : Conn World) (sw ans v : Message) :
    Prop where
  switch : c.net.inbox.head? = some sw
  header : sw.2.head? = some authSwitchRequest
  toClient : addU8 S.profile seq 1 = some (seq + 1)
  writes : c.net.writesLeft ≠ some 0 ∧ c.net.writesLeft ≠ some 1
  answer : c.net.toCome.head? = some ans
  toBackend : addU8 S.profile sw.1 1 = some (sw.1 + 1)
  writable : ¬ c.net.Reset
  verdict : (c.net.inbox.tail ++ c.net.answer R (sw.1 + 1, ans.2)).head? = some v

/-- An exchange whose verdict is no ERR packet. -/
structure Exchange (R : Respond) (S : Setup) (seq : UInt8) (c : Conn World) (sw ans v : Message) : Prop
    extends Relayed R S seq c sw ans v where
  accepted : ∃ b, v.2.head? = some b ∧ b ≠ HeaderInfo.errHeader.toU8

/-- The connection after the switch request has been relayed. -/
def switched (seq : UInt8) (c : Conn World) (sw : Message) : Conn World :=
  wrote { c with net := c.net.take sw } .client (seq + 1, sw.2) ((c.net.take sw).deliver (seq + 1, sw.2))

/-- The connection after the answer has been relayed. -/
def answered (R : Respond) (q : UInt8) (c : Conn World) (ans : Message) : Conn World :=
  wrote { c with net := c.net.hear ans } .backend (q + 1, ans.2)
    ((c.net.hear ans).receive R (q + 1, ans.2))

/-- The connection after the verdict has been relayed. -/
def judged (c : Conn World) (v : Message) : Conn World :=
  wrote { c with net := c.net.take v } .client v ((c.net.take v).deliver v)

/-- The connection after the exchange. -/
def exchanged (R : Respond) (seq : UInt8) (c : Conn World) (sw ans v : Message) : Conn World :=
  judged (answered R sw.1 (switched seq c sw) ans) v

section Fields
variable (R : Respond) (seq q : UInt8) (c : Conn World) (sw ans v : Message)

@[simp] theorem switched_inbox : (switched seq c sw).net.inbox = c.net.inbox.tail := rfl

@[simp] theorem switched_toCome : (switched seq c sw).net.toCome = c.net.toCome := rfl

@[simp] theorem switched_phase : (switched seq c sw).net.phase = c.net.phase := rfl

@[simp] theorem switched_writesLeft :
    (switched seq c sw).net.writesLeft = c.net.writesLeft.map (· - 1) := rfl

@[simp] theorem switched_received : (switched seq c sw).net.received = c.net.received :=
  c.net.received_take sw

@[simp] theorem switched_reset : (switched seq c sw).net.Reset ↔ c.net.Reset := Iff.rfl

@[simp] theorem switched_answer : (switched seq c sw).net.answer R m = c.net.answer R m :=
  World.answer_congr rfl (c.net.received_take sw)

@[simp] theorem answered_inbox : (answered R q c ans).net.inbox =
    c.net.inbox ++ c.net.answer R (q + 1, ans.2) := rfl

@[simp] theorem answered_toCome : (answered R q c ans).net.toCome = c.net.toCome.tail := rfl

@[simp] theorem answered_phase : (answered R q c ans).net.phase =
    c.net.phase.after ans.2 (R (c.net.received ++ [(q + 1, ans.2)])) := rfl

@[simp] theorem answered_writesLeft : (answered R q c ans).net.writesLeft = c.net.writesLeft := rfl

@[simp] theorem answered_received :
    (answered R q c ans).net.received = c.net.received ++ [(q + 1, ans.2)] := by
  simp [answered, wrote]

@[simp] theorem judged_inbox : (judged c v).net.inbox = c.net.inbox.tail := rfl

@[simp] theorem judged_toCome : (judged c v).net.toCome = c.net.toCome := rfl

@[simp] theorem judged_phase : (judged c v).net.phase = c.net.phase := rfl

@[simp] theorem judged_writesLeft : (judged c v).net.writesLeft = c.net.writesLeft.map (· - 1) := rfl

@[simp] theorem judged_received : (judged c v).net.received = c.net.received := c.net.received_take v

@[simp] theorem exchanged_received : (exchanged R seq c sw ans v).net.received =
    c.net.received ++ [(sw.1 + 1, ans.2)] := by
  simp [exchanged]

end Fields

theorem addU8_eq_some {b : Profile} {x y z : UInt8} (h : addU8 b x y = some z) : z = x + y := by
  unfold addU8 at h
  split_ifs at h
  exact (Option.some.inj h).symm

theorem run_firstByte_ok_iff {p : Packet} {b : UInt8} :
    (firstByte p).run c = (.ok b, c') ↔ p.head? = some b ∧ c' = c := run_orPanic_ok_iff

theorem run_relaySwitch_ok_iff {seq q : UInt8} :
    (relaySwitch (net R) S seq).run c = (.ok q, c') ↔
      ∃ sw, c.net.inbox.head? = some sw ∧ sw.2.head? = some authSwitchRequest ∧
        addU8 S.profile seq 1 = some (seq + 1) ∧ c.net.writesLeft ≠ some 0 ∧ q = sw.1 ∧
        c' = switched seq c sw := by
  constructor
  · intro h
    obtain ⟨sw, c1, hread, h1⟩ := Proc.of_run_bind_ok h
    obtain ⟨hsw, rfl⟩ := run_readBackend_ok_iff.mp hread
    obtain ⟨b, c2, hfirst, h2⟩ := Proc.of_run_bind_ok h1
    obtain ⟨hb, rfl⟩ := run_firstByte_ok_iff.mp hfirst
    by_cases heq : authSwitchRequest = b
    · rw [if_pos heq] at h2
      obtain ⟨q1, c3, hadd, h3⟩ := Proc.of_run_bind_ok h2
      obtain ⟨hq1, rfl⟩ := run_orPanic_ok_iff.mp hadd
      obtain rfl := addU8_eq_some hq1
      obtain ⟨_, c4, hwrite, h4⟩ := Proc.of_run_bind_ok h3
      obtain ⟨hw, rfl⟩ := run_writePacket_client_ok_iff.mp hwrite
      obtain ⟨hq, rfl⟩ := Prod.mk.inj h4
      exact ⟨sw, hsw, heq ▸ hb, hq1, hw, (Except.ok.inj hq).symm, rfl⟩
    · rw [if_neg heq] at h2
      simp at h2
  · rintro ⟨sw, hsw, hhead, hadd, hw, rfl, rfl⟩
    have hwrite : (writePacket (net R) .client (seq + 1) sw.2).run { c with net := c.net.take sw } =
        (.ok (), switched seq c sw) := run_writePacket_client_ok_iff.mpr ⟨hw, rfl⟩
    rw [relaySwitch, Proc.run_bind_ok (run_readBackend_ok_iff.mpr ⟨hsw, rfl⟩)]
    simp only
    rw [Proc.run_bind_ok (run_firstByte_ok_iff.mpr ⟨hhead, rfl⟩), if_pos rfl,
      Proc.run_bind_ok (run_orPanic_ok_iff.mpr ⟨hadd, rfl⟩), Proc.run_bind_ok hwrite]
    rfl

theorem run_relayAnswer_ok_iff {q : UInt8} :
    (relayAnswer (net R) S q).run c = (.ok (), c') ↔
      ∃ ans, c.net.toCome.head? = some ans ∧ addU8 S.profile q 1 = some (q + 1) ∧
        ¬ c.net.Reset ∧ c' = answered R q c ans := by
  constructor
  · intro h
    obtain ⟨ans, c1, hread, h1⟩ := Proc.of_run_bind_ok h
    obtain ⟨hans, rfl⟩ := run_readClient_ok_iff.mp hread
    obtain ⟨q1, c2, hadd, h2⟩ := Proc.of_run_bind_ok h1
    obtain ⟨hq1, rfl⟩ := run_orPanic_ok_iff.mp hadd
    obtain rfl := addU8_eq_some hq1
    obtain ⟨hph, rfl⟩ := run_writePacket_backend_ok_iff.mp h2
    exact ⟨ans, hans, hq1, hph, rfl⟩
  · rintro ⟨ans, hans, hadd, hph, rfl⟩
    rw [relayAnswer, Proc.run_bind_ok (run_readClient_ok_iff.mpr ⟨hans, rfl⟩)]
    simp only
    rw [Proc.run_bind_ok (run_orPanic_ok_iff.mpr ⟨hadd, rfl⟩)]
    exact run_writePacket_backend_ok_iff.mpr ⟨hph, rfl⟩

theorem run_relayVerdict_ok_iff {p : Packet} :
    (relayVerdict (net R)).run c = (.ok p, c') ↔
      ∃ v, c.net.inbox.head? = some v ∧ c.net.writesLeft ≠ some 0 ∧ p = v.2 ∧ c' = judged c v := by
  constructor
  · intro h
    obtain ⟨v, c1, hread, h1⟩ := Proc.of_run_bind_ok h
    obtain ⟨hv, rfl⟩ := run_readBackend_ok_iff.mp hread
    obtain ⟨_, c2, hwrite, h2⟩ := Proc.of_run_bind_ok h1
    obtain ⟨hw, rfl⟩ := run_writePacket_client_ok_iff.mp hwrite
    obtain ⟨hp, rfl⟩ := Prod.mk.inj h2
    exact ⟨v, hv, hw, (Except.ok.inj hp).symm, rfl⟩
  · rintro ⟨v, hv, hw, rfl, rfl⟩
    have hwrite : (writePacket (net R) .client v.1 v.2).run { c with net := c.net.take v } =
        (.ok (), judged c v) := run_writePacket_client_ok_iff.mpr ⟨hw, rfl⟩
    rw [relayVerdict, Proc.run_bind_ok (run_readBackend_ok_iff.mpr ⟨hv, rfl⟩)]
    simp only
    rw [Proc.run_bind_ok hwrite]
    rfl

theorem run_checkVerdict_ok_iff {p : Packet} :
    (checkVerdict S p).run c = (.ok (), c') ↔
      (∃ b, p.head? = some b ∧ b ≠ HeaderInfo.errHeader.toU8) ∧ c' = c := by
  constructor
  · intro h
    obtain ⟨b, c1, hfirst, h1⟩ := Proc.of_run_bind_ok h
    obtain ⟨hb, rfl⟩ := run_firstByte_ok_iff.mp hfirst
    by_cases heq : b = HeaderInfo.errHeader.toU8
    · rw [if_pos heq] at h1
      obtain ⟨_, _, _, h2⟩ := Proc.of_run_bind_ok h1
      obtain ⟨_, _, _, h3⟩ := Proc.of_run_bind_ok h2
      simp at h3
    · rw [if_neg heq] at h1
      exact ⟨⟨b, hb, heq⟩, (Prod.mk.inj h1).2.symm⟩
  · rintro ⟨⟨b, hb, hne⟩, rfl⟩
    rw [checkVerdict, Proc.run_bind_ok (run_firstByte_ok_iff.mpr ⟨hb, rfl⟩), if_neg hne]
    rfl

/-- The exchange up to the verdict. -/
def relayExchange (R : Respond) (S : Setup) (seq : UInt8) : Proc Stop (Conn World) Packet := do
  let beSeq ← relaySwitch (net R) S seq
  relayAnswer (net R) S beSeq
  relayVerdict (net R)

theorem processAuthSwitchPlugin_eq (seq : UInt8) : processAuthSwitchPlugin (net R) S seq =
    relayExchange R S seq >>= checkVerdict S := by
  simp [processAuthSwitchPlugin, relayExchange]

/-- **The verdict is relayed** behind these three packets, and no others. -/
theorem run_relayExchange_ok_iff {seq : UInt8} {p : Packet} :
    (relayExchange R S seq).run c = (.ok p, c') ↔
      ∃ sw ans v, Relayed R S seq c sw ans v ∧ p = v.2 ∧ c' = exchanged R seq c sw ans v := by
  constructor
  · intro h
    obtain ⟨q, c1, h1, h⟩ := Proc.of_run_bind_ok h
    obtain ⟨sw, hsw, hhead, hadd, hw1, rfl, rfl⟩ := run_relaySwitch_ok_iff.mp h1
    obtain ⟨_, c2, h2, h⟩ := Proc.of_run_bind_ok h
    obtain ⟨ans, hans, hadd2, hph, rfl⟩ := run_relayAnswer_ok_iff.mp h2
    obtain ⟨v, hv, hw2, rfl, rfl⟩ := run_relayVerdict_ok_iff.mp h
    refine ⟨sw, ans, v, ⟨hsw, hhead, hadd, ⟨hw1, fun hw => ?_⟩, hans, hadd2, hph, ?_⟩, rfl, rfl⟩
    · simp [hw] at hw2
    · simpa using hv
  · rintro ⟨sw, ans, v, E, rfl, rfl⟩
    have h1 : (relaySwitch (net R) S seq).run c = (.ok sw.1, switched seq c sw) :=
      run_relaySwitch_ok_iff.mpr ⟨sw, E.switch, E.header, E.toClient, E.writes.1, rfl, rfl⟩
    have h2 : (relayAnswer (net R) S sw.1).run (switched seq c sw) =
        (.ok (), answered R sw.1 (switched seq c sw) ans) :=
      run_relayAnswer_ok_iff.mpr ⟨ans, E.answer, E.toBackend, E.writable, rfl⟩
    have hwrites : (c.net.writesLeft.map (· - 1)) ≠ some 0 := by
      rcases hw : c.net.writesLeft with _ | n
      · simp
      · have h0 := E.writes
        simp only [hw, ne_eq, Option.some.injEq] at h0
        simp only [Option.map_some, ne_eq, Option.some.injEq]
        omega
    rw [relayExchange, Proc.run_bind_ok h1, Proc.run_bind_ok h2]
    exact run_relayVerdict_ok_iff.mpr ⟨v, by simpa using E.verdict, hwrites, rfl, rfl⟩

/-- **The exchange goes through** for these three packets, and for no others. -/
theorem run_processAuthSwitchPlugin_ok_iff {seq : UInt8} :
    (processAuthSwitchPlugin (net R) S seq).run c = (.ok (), c') ↔
      ∃ sw ans v, Exchange R S seq c sw ans v ∧ c' = exchanged R seq c sw ans v := by
  rw [processAuthSwitchPlugin_eq, Proc.run_bind_ok_iff]
  constructor
  · rintro ⟨p, c1, h, hcheck⟩
    obtain ⟨sw, ans, v, E, rfl, rfl⟩ := run_relayExchange_ok_iff.mp h
    obtain ⟨hacc, rfl⟩ := run_checkVerdict_ok_iff.mp hcheck
    exact ⟨sw, ans, v, ⟨E, hacc⟩, rfl⟩
  · rintro ⟨sw, ans, v, E, rfl⟩
    exact ⟨v.2, _, run_relayExchange_ok_iff.mpr ⟨sw, ans, v, E.toRelayed, rfl, rfl⟩,
      run_checkVerdict_ok_iff.mpr ⟨E.accepted, rfl⟩⟩

/-! ### The opening of the exchange -/

/-- The message that opens the exchange, and the connection behind it: on a connection that was
authenticated before a `COM_CHANGE_USER`, otherwise the client's handshake response with another plugin,
in answer to the backend's greeting. -/
inductive Opened (R : Respond) (S : Setup) (t : DbUserConnLifeCycle) (seq : UInt8)
    (h : HandshakeResponse) (pkt : Packet) (c : Conn World) : Message → Conn World → Prop
  | changeUser (ht : t.connPhase = some .command) (hph : ¬ c.net.Reset) :
    Opened R S t seq h pkt c (c.backendSeq, changeUserData S h)
      (wrote c .backend (c.backendSeq, changeUserData S h)
        (c.net.receive R (c.backendSeq, changeUserData S h)))
  | handshake {g : Message} {p : Packet} (ht : t.connPhase ≠ some .command)
    (hg : c.net.inbox.head? = some g) (hp : resetHandshakePlugin S.mc pkt h = .ok p)
    (hph : ¬ c.net.Reset) :
    Opened R S t seq h pkt c (seq, p)
      (wrote { c with net := c.net.take g } .backend (seq, p) ((c.net.take g).receive R (seq, p)))

section Path
variable {t : DbUserConnLifeCycle} {seq : UInt8} {h : HandshakeResponse} {pkt : Packet}

theorem Opened.received {o : Message} {c1 : Conn World} (H : Opened R S t seq h pkt c o c1) :
    c1.net.received = c.net.received ++ [o] := by
  cases H <;> simp [wrote]

theorem Opened.toCome {o : Message} {c1 : Conn World} (H : Opened R S t seq h pkt c o c1) :
    c1.net.toCome = c.net.toCome := by
  cases H <;> rfl

theorem Opened.inbox {o : Message} {c1 : Conn World} (H : Opened R S t seq h pkt c o c1) :
    c1.net.inbox = (if t.connPhase = some .command then c.net.inbox else c.net.inbox.tail) ++
      c.net.answer R o := by
  cases H with
  | changeUser ht hph => rw [if_pos ht]; rfl
  | @handshake g p ht hg hp hph =>
    have hsame : (c.net.take g).answer R (seq, p) = c.net.answer R (seq, p) :=
      World.answer_congr rfl (c.net.received_take g)
    rw [if_neg ht, ← hsame]
    rfl

theorem Opened.phase {o : Message} {c1 : Conn World} (H : Opened R S t seq h pkt c o c1) :
    c1.net.phase = c.net.phase.after o.2 (R (c.net.received ++ [o])) := by
  cases H with
  | changeUser ht hph => rfl
  | @handshake g p ht hg hp hph =>
    rw [← c.net.received_take g]
    rfl

theorem Opened.unique {o o' : Message} {c1 c1' : Conn World} (H : Opened R S t seq h pkt c o c1)
    (H' : Opened R S t seq h pkt c o' c1') : o = o' ∧ c1 = c1' := by
  cases H with
  | changeUser ht hph =>
    cases H' with
    | changeUser _ _ => exact ⟨rfl, rfl⟩
    | handshake ht' _ _ _ => exact absurd ht ht'
  | @handshake g p ht hg hp hph =>
    cases H' with
    | changeUser ht' _ => exact absurd ht' ht
    | @handshake g' p' _ hg' hp' _ =>
      obtain rfl : g = g' := Option.some.inj (hg.symm.trans hg')
      obtain rfl : p = p' := Except.ok.inj (hp.symm.trans hp')
      exact ⟨rfl, rfl⟩

theorem authPath_command (ht : t.connPhase = some .command) :
    authPath (net R) S t seq h pkt = continueAuth (net R) S seq h := by
  rw [authPath, ht]

theorem authPath_handshake (ht : t.connPhase ≠ some .command) :
    authPath (net R) S t seq h pkt = replyHandshakeResponse (net R) S seq pkt h := by
  unfold authPath
  split
  · contradiction
  · rfl

theorem run_continueAuth (hph : ¬ c.net.Reset) :
    (continueAuth (net R) S seq h).run c =
      (processAuthSwitchPlugin (net R) S seq).run (wrote c .backend (c.backendSeq, changeUserData S h)
        (c.net.receive R (c.backendSeq, changeUserData S h))) := by
  have hsend : ((net R).send .backend c.backendSeq (changeUserData S h)).run c.net =
      (.ok (), c.net.receive R (c.backendSeq, changeUserData S h)) := run_writeBackend hph _
  have hend : (endPacket (net R) .backend (changeUserData S h)).run c =
      (.ok (), wrote c .backend (c.backendSeq, changeUserData S h)
        (c.net.receive R (c.backendSeq, changeUserData S h))) :=
    run_endPacket_send (m := (c.backendSeq, changeUserData S h)) hsend
  rw [continueAuth, Proc.run_bind_ok hend]
  rfl

theorem run_continueAuth_reset (hph : c.net.Reset) :
    (continueAuth (net R) S seq h).run c =
      (.error brokenPipe, c.setSeq .backend (seqAfter c.backendSeq (changeUserData S h))) := by
  have hsend : ((net R).send .backend c.backendSeq (changeUserData S h)).run c.net =
      (.error brokenPipe, c.net) := run_writeBackend_reset hph _
  exact Proc.run_bind_error (run_endPacket_send (m := (c.backendSeq, changeUserData S h)) hsend) _

/-- Behind the message that opens it the authentication is the exchange. -/
theorem Opened.run {o : Message} {c1 : Conn World} (H : Opened R S t seq h pkt c o c1) :
    (authPath (net R) S t seq h pkt).run c = (processAuthSwitchPlugin (net R) S seq).run c1 := by
  cases H with
  | changeUser ht hph =>
    rw [authPath_command ht]
    exact run_continueAuth hph
  | @handshake g p ht hg hp hph =>
    have hwrite : (writePacket (net R) .backend seq p).run { c with net := c.net.take g } =
        (.ok (), _) := run_writePacket_backend_ok_iff.mpr ⟨hph, rfl⟩
    rw [authPath_handshake ht, replyHandshakeResponse,
      Proc.run_bind_ok (run_readBackend_ok_iff.mpr ⟨hg, rfl⟩)]
    simp only [hp]
    exact Proc.run_bind_ok hwrite _

variable (R S c t seq h pkt) in
/-- The authentication is opened, or it stops before that without a panic and has written nothing. -/
theorem authPath_cases : (∃ o c1, Opened R S t seq h pkt c o c1) ∨
    ∃ e c', (authPath (net R) S t seq h pkt).run c = (.error e, c') ∧ e ≠ .panic ∧
      (c'.net = c.net ∨ ∃ g, c'.net = c.net.take g) := by
  by_cases ht : t.connPhase = some .command
  · by_cases hph : c.net.Reset
    · rw [authPath_command ht, run_continueAuth_reset hph]
      exact Or.inr ⟨_, _, rfl, by simp [brokenPipe], Or.inl rfl⟩
    · exact Or.inl ⟨_, _, .changeUser ht hph⟩
  · rw [authPath_handshake ht, replyHandshakeResponse]
    rcases hin : c.net.inbox with _ | ⟨g, gs⟩
    · rw [Proc.run_bind_error (run_asyncPacketRead_nil hin)]
      refine Or.inr ⟨_, _, rfl, ?_, Or.inl rfl⟩
      split_ifs <;> simp
    have hg : c.net.inbox.head? = some g := by rw [hin]; rfl
    rw [Proc.run_bind_ok (run_readBackend_ok_iff.mpr ⟨hg, rfl⟩)]
    rcases hp : resetHandshakePlugin S.mc pkt h with e | p
    · exact Or.inr ⟨_, _, rfl, by simp, Or.inr ⟨g, rfl⟩⟩
    by_cases hph : c.net.Reset
    · have hsend : ((net R).send .backend seq p).run (c.net.take g) = (.error brokenPipe, c.net.take g) :=
        run_writeBackend_reset (w := c.net.take g) hph _
      have herr : (writePacket (net R) .backend seq p).run { c with net := c.net.take g } =
          (.error brokenPipe, _) := run_writePacket_error (m := (seq, p)) hsend
      exact Or.inr ⟨_, _, Proc.run_bind_error herr _, by simp [brokenPipe], Or.inr ⟨g, rfl⟩⟩
    · exact Or.inl ⟨_, _, .handshake ht hg hp hph⟩

/-- **The authentication goes through** if it is opened and the exchange goes through. -/
theorem run_authPath_ok_iff :
    (authPath (net R) S t seq h pkt).run c = (.ok (), c') ↔
      ∃ o c1 sw ans v, Opened R S t seq h pkt c o c1 ∧ Exchange R S seq c1 sw ans v ∧
        c' = exchanged R seq c1 sw ans v := by
  constructor
  · intro hr
    rcases authPath_cases R S c t seq h pkt with ⟨o, c1, H⟩ | ⟨e, c2, hrun, -, -⟩
    · rw [H.run] at hr
      obtain ⟨sw, ans, v, E, rfl⟩ := run_processAuthSwitchPlugin_ok_iff.mp hr
      exact ⟨o, c1, sw, ans, v, H, E, rfl⟩
    · rw [hrun] at hr
      simp at hr
  · rintro ⟨o, c1, sw, ans, v, H, E, rfl⟩
    rw [H.run]
    exact run_processAuthSwitchPlugin_ok_iff.mpr ⟨sw, ans, v, E, rfl⟩

end Path

/-! ### A login -/

/-- The connection after the greeting and the client's response, both counters reset. -/
def greet (S : Setup) (c : Conn World) (m : Message) : Conn World :=
  ⟨0, 0, (c.net.deliver (0, initialHandshakePacket S)).hear m⟩

theorem run_onConn_ok_iff {α : Type} {p : Proc Stop (Conn World) α} {s s' : Pooled World} {a : α} :
    (onConn p).run s = (.ok a, s') ↔
      ∃ c', p.run s.conn = (.ok a, c') ∧ s' = { s with conn := c' } := by
  rw [onConn, Proc.run_zoom]
  constructor
  · intro h
    obtain ⟨hres, rfl⟩ := Prod.mk.inj h
    exact ⟨_, Prod.ext hres rfl, rfl⟩
  · rintro ⟨c', hp, rfl⟩
    rw [hp]

theorem run_initialHandshake_broken (hw : c.net.writesLeft = some 0) :
    ∃ c', (initialHandshake (net R) S).run (c.setSeq .client 0) = (.error brokenPipe, c') ∧
      c'.net = c.net := by
  unfold initialHandshake
  generalize initialHandshakePacket S = g
  have hsend : ((net R).send .client 0 g).run c.net = (.error brokenPipe, c.net) :=
    run_writeClient_broken hw _
  exact ⟨_, Proc.run_bind_error (run_endPacket_send (m := (0, g)) hsend) _, rfl⟩

/-- What follows the greeting. -/
def afterGreeting (R : Respond) (S : Setup) :
    Proc Stop (Conn World) (UInt8 × HandshakeResponse × Packet) := do
  match ← onNet ((net R).next .client) with
  | some (seq, pkt) =>
    let h ← unwrapResult (clientHandshakeResponse S.mc.known pkt false)
    return (seq, h.changeTenantIfNeed S.isNotStatic, pkt)
  | none =>
    endPacket (net R) .client peerTerminated
    Proc.stop (.io ⟨.permissionDenied, "peer terminated connection"⟩)

theorem run_initialHandshake (hw : c.net.writesLeft ≠ some 0) :
    (initialHandshake (net R) S).run (c.setSeq .client 0) = (afterGreeting R S).run
      (wrote c .client (0, initialHandshakePacket S) (c.net.deliver (0, initialHandshakePacket S))) := by
  unfold initialHandshake
  generalize initialHandshakePacket S = g
  have hsend : ((net R).send .client 0 g).run c.net = (.ok (), c.net.deliver (0, g)) :=
    run_writeClient hw _
  rw [Proc.run_bind_ok (run_endPacket_send (m := (0, g)) hsend),
    Proc.run_bind_ok (run_flushAll R .client _)]
  rfl

theorem run_afterGreeting_ok_iff {x : UInt8 × HandshakeResponse × Packet} :
    (afterGreeting R S).run c = (.ok x, c') ↔
      ∃ m r h, c.net.toCome.head? = some m ∧
        clientHandshakeResponse S.mc.known m.2 false = .ok (r, h) ∧
        x = (m.1, h.changeTenantIfNeed S.isNotStatic, m.2) ∧ c' = { c with net := c.net.hear m } := by
  rcases htc : c.net.toCome with _ | ⟨n, ns⟩
  · have hnext : (onNet ((net R).next .client)).run c = _ := run_onNet (run_readClient_nil htc)
    rw [afterGreeting]
    rcases hend : c.net.clientEnd with _ | e
    · rw [hend] at hnext
      rw [Proc.run_bind_ok hnext]
      refine ⟨fun hr => ?_, by simp⟩
      obtain ⟨_, _, _, hr⟩ := Proc.of_run_bind_ok hr
      simp at hr
    · rw [hend] at hnext
      rw [Proc.run_bind_error hnext]
      simp
  · have hnext : (onNet ((net R).next .client)).run c = (.ok (some n), { c with net := c.net.hear n }) :=
      run_onNet (run_readClient_cons htc)
    rw [afterGreeting, Proc.run_bind_ok hnext]
    rcases hparse : clientHandshakeResponse S.mc.known n.2 false with e | ⟨r, h⟩
    · simp only [hparse, unwrapResult]
      refine ⟨fun hr => ?_, ?_⟩
      · obtain ⟨_, _, hr, _⟩ := Proc.of_run_bind_ok hr
        simp at hr
      · rintro ⟨m, r, h, hm, hp, _⟩
        obtain rfl := Option.some.inj hm
        rw [hparse] at hp
        simp at hp
    · simp only [hparse, unwrapResult, pure_bind]
      constructor
      · intro hr
        obtain ⟨hx, rfl⟩ := Prod.mk.inj hr
        exact ⟨n, r, h, rfl, hparse, (Except.ok.inj hx).symm, rfl⟩
      · rintro ⟨m, r', h', hm, hp, rfl, rfl⟩
        obtain rfl := Option.some.inj hm
        rw [hparse] at hp
        obtain ⟨rfl, rfl⟩ := Prod.mk.inj (Except.ok.inj hp)
        rfl

theorem run_initialHandshake_ok_iff {x : UInt8 × HandshakeResponse × Packet} :
    (initialHandshake (net R) S).run (c.setSeq .client 0) = (.ok x, c') ↔
      ∃ m r h, c.net.toCome.head? = some m ∧ c.net.writesLeft ≠ some 0 ∧
        clientHandshakeResponse S.mc.known m.2 false = .ok (r, h) ∧
        x = (m.1, h.changeTenantIfNeed S.isNotStatic, m.2) ∧
        c' = ⟨seqAfter 0 (initialHandshakePacket S), c.backendSeq, (greet S c m).net⟩ := by
  by_cases hw : c.net.writesLeft = some 0
  · obtain ⟨c1, hrun, -⟩ := run_initialHandshake_broken (R := R) (S := S) hw
    rw [hrun]
    simp [hw]
  · rw [run_initialHandshake hw, run_afterGreeting_ok_iff]
    unfold greet
    generalize initialHandshakePacket S = g
    constructor
    · rintro ⟨m, r, h, hm, hp, rfl, rfl⟩
      exact ⟨m, r, h, hm, hw, hp, rfl, rfl⟩
    · rintro ⟨m, r, h, hm, -, hp, rfl, rfl⟩
      exact ⟨m, r, h, hm, hp, rfl, rfl⟩

/-- **An attempt**: what the client and the backend send for an authentication that is opened. -/
structure Attempt (R : Respond) (S : Setup) (s : Pooled World) where
  response : Message
  rest : Bytes
  parsed : HandshakeResponse
  opener : Message
  opened : Conn World
  heard : s.conn.net.toCome.head? = some response
  writes : s.conn.net.writesLeft ≠ some 0
  parses : clientHandshakeResponse S.mc.known response.2 false = .ok (rest, parsed)
  opens : Opened R S s.tag response.1 (parsed.changeTenantIfNeed S.isNotStatic) response.2
    (greet S s.conn response) opener opened

/-- **A trial**: what they send for one that gets as far as the backend's verdict. -/
structure Trial (R : Respond) (S : Setup) (s : Pooled World) extends Attempt R S s where
  switch : Message
  answer : Message
  verdict : Message
  relayed : Relayed R S response.1 opened switch answer verdict

/-- **A login**: what they send for an authentication that goes through. -/
structure Login (R : Respond) (S : Setup) (s : Pooled World) extends Trial R S s where
  accepted : ∃ b, verdict.2.head? = some b ∧ b ≠ HeaderInfo.errHeader.toU8

namespace Login

variable {s : Pooled World} (L : Login R S s)

theorem exchange : Exchange R S L.response.1 L.opened L.switch L.answer L.verdict :=
  ⟨L.relayed, L.accepted⟩

/-- The client's response with the tenant taken out of the user's name. -/
def user : HandshakeResponse := L.parsed.changeTenantIfNeed S.isNotStatic

/-- The pooled connection after the login. -/
def after : Pooled World where
  tag := .newConnLifeCycle (dbUserString L.user) .command
  conn := exchanged R L.response.1 L.opened L.switch L.answer L.verdict

end Login

/-- The outcome of a session's authentication, from that of the path it takes. -/
def settle (t : DbUserConnLifeCycle) (h : HandshakeResponse) :
    Except Stop Unit × Conn World → Except Stop (Option HandshakeResponse) × Pooled World
  | (.ok (), c) => (.ok (some h), ⟨.newConnLifeCycle (dbUserString h) .command, c⟩)
  | (.error (.io _), c) => (.ok none, ⟨.newConnLifeCycle (dbUserString h) .connection, c⟩)
  | (.error e, c) => (.error e, ⟨t, c⟩)

@[simp] theorem settle_conn (t : DbUserConnLifeCycle) (h : HandshakeResponse)
    (r : Except Stop Unit × Conn World) : (settle t h r).2.conn = r.2 := by
  rcases r with ⟨e | u, c⟩
  · cases e <;> rfl
  · rfl

variable {s : Pooled World}

theorem run_onConn_resetSeq (side : Side) : (onConn (resetSeq side)).run s =
    (.ok (), ⟨s.tag, s.conn.setSeq side 0⟩) := rfl

theorem run_authenticate_error {e : Stop}
    (h : (initialHandshake (net R) S).run (s.conn.setSeq .client 0) = (.error e, c')) :
    (authenticate (net R) S).run s = (.error e, ⟨s.tag, c'⟩) := by
  rw [authenticate, Proc.run_bind_ok (run_onConn_resetSeq .client)]
  refine Proc.run_bind_error ?_ _
  rw [onConn, Proc.run_zoom, h]

theorem run_onConn_tryIo_io {α : Type} {p : Proc Stop (Conn World) α} {e : IoError} {c1 c2 : Conn World}
    {t : DbUserConnLifeCycle} (h : p.run c1 = (.error (.io e), c2)) :
    (onConn (tryIo p)).run ⟨t, c1⟩ = (.ok (.error e), ⟨t, c2⟩) := by
  refine run_onConn_ok_iff.mpr ⟨c2, ?_, rfl⟩
  change tryIo p c1 = _
  unfold tryIo
  rw [h]

theorem run_onConn_tryIo_error {α : Type} {p : Proc Stop (Conn World) α} {e : Stop}
    {c1 c2 : Conn World} {t : DbUserConnLifeCycle} (h : p.run c1 = (.error e, c2))
    (he : ∀ i, e ≠ .io i) : (onConn (tryIo p)).run ⟨t, c1⟩ = (.error e, ⟨t, c2⟩) := by
  have htry : (tryIo p).run c1 = (.error e, c2) := by
    change tryIo p c1 = _
    unfold tryIo
    rw [h]
    cases e with
    | io i => exact absurd rfl (he i)
    | _ => rfl
  rw [onConn, Proc.run_zoom, htry]

theorem run_authenticate {x : UInt8 × HandshakeResponse × Packet}
    (h : (initialHandshake (net R) S).run (s.conn.setSeq .client 0) = (.ok x, c')) :
    (authenticate (net R) S).run s =
      settle s.tag x.2.1 ((authPath (net R) S s.tag x.1 x.2.1 x.2.2).run ⟨0, 0, c'.net⟩) := by
  have hfirst : (onConn (initialHandshake (net R) S)).run ⟨s.tag, s.conn.setSeq .client 0⟩ =
      (.ok x, ⟨s.tag, c'⟩) := run_onConn_ok_iff.mpr ⟨c', h, rfl⟩
  rw [authenticate, Proc.run_bind_ok (run_onConn_resetSeq .client), Proc.run_bind_ok hfirst]
  have hreset : (onConn (resetSeq .client)).run (⟨s.tag, c'.setSeq .backend 0⟩ : Pooled World) =
      (.ok (), ⟨s.tag, ⟨0, 0, c'.net⟩⟩) := rfl
  simp only
  rw [Proc.run_bind_ok (Proc.run_get _), Proc.run_bind_ok (run_onConn_resetSeq .backend)]
  simp only
  rw [Proc.run_bind_ok hreset]
  rcases ha : (authPath (net R) S s.tag x.1 x.2.1 x.2.2).run ⟨0, 0, c'.net⟩ with ⟨e | a, c2⟩
  · rcases e with e | _ | side | _
    · rw [Proc.run_bind_ok (run_onConn_tryIo_io ha)]
      rfl
    · rw [Proc.run_bind_error (run_onConn_tryIo_error ha (by simp))]
      rfl
    · rw [Proc.run_bind_error (run_onConn_tryIo_error ha (by simp))]
      rfl
    · rw [Proc.run_bind_error (run_onConn_tryIo_error ha (by simp))]
      rfl
  · rw [Proc.run_bind_ok (run_onConn_ok_iff.mpr ⟨c2, run_tryIo_ok ha, rfl⟩)]
    rfl

/-- **The command loop is entered** after a login, and only then. -/
theorem authenticate_some_iff {s' : Pooled World} {h : HandshakeResponse} :
    (authenticate (net R) S).run s = (.ok (some h), s') ↔
      ∃ L : Login R S s, h = L.user ∧ s' = L.after := by
  constructor
  · intro hr
    rcases hi : (initialHandshake (net R) S).run (s.conn.setSeq .client 0) with ⟨e | x, c1⟩
    · rw [run_authenticate_error hi] at hr
      simp at hr
    · obtain ⟨m, r, h0, hm, hw, hp, rfl, rfl⟩ := run_initialHandshake_ok_iff.mp hi
      rw [run_authenticate hi] at hr
      rcases ha : (authPath (net R) S s.tag m.1 (h0.changeTenantIfNeed S.isNotStatic) m.2).run
        ⟨0, 0, (greet S s.conn m).net⟩ with ⟨e | u, c2⟩
      · rw [ha] at hr
        cases e <;> simp [settle] at hr
      · rw [ha] at hr
        obtain ⟨o, c3, sw, ans, v, hopen, hex, rfl⟩ := run_authPath_ok_iff.mp ha
        simp only [settle, Prod.mk.injEq, Except.ok.injEq, Option.some.injEq] at hr
        obtain ⟨rfl, rfl⟩ := hr
        exact ⟨⟨⟨⟨m, r, h0, o, c3, hm, hw, hp, hopen⟩, sw, ans, v, hex.toRelayed⟩, hex.accepted⟩, rfl, rfl⟩
  · rintro ⟨L, rfl, rfl⟩
    have hi : (initialHandshake (net R) S).run (s.conn.setSeq .client 0) = (.ok _, _) :=
      run_initialHandshake_ok_iff.mpr ⟨L.response, L.rest, L.parsed, L.heard, L.writes, L.parses, rfl, rfl⟩
    have ha : (authPath (net R) S s.tag L.response.1 L.user L.response.2).run
        (greet S s.conn L.response) = (.ok (), L.after.conn) :=
      run_authPath_ok_iff.mpr ⟨_, _, _, _, _, L.opens, L.exchange, rfl⟩
    rw [run_authenticate hi]
    exact congrArg (settle s.tag L.user) ha

/-! ### The verdict -/

/-- The header of an `AuthMoreData`. -/
def authMoreData : UInt8 := 0x01

/-- What the protocol lets a backend send at once during an authentication: any number of
`AuthMoreData`, and then an OK or an ERR packet or nothing more until the client answers. In reply to the
message that opens the exchange it may be a switch request. -/
def AuthReply (opening : Bool) (ps : List Message) : Prop :=
  ps = [] ∨ ∃ mores last, ps = mores ++ [last] ∧ (∀ m ∈ mores, m.2.head? = some authMoreData) ∧
    (last.2.head? = some HeaderInfo.okHeader.toU8 ∨ last.2.head? = some HeaderInfo.errHeader.toU8 ∨
      last.2.head? = some authMoreData ∨
      opening = true ∧ mores = [] ∧ last.2.head? = some authSwitchRequest)

/-- A backend that has received `l` and keeps to the protocol in the authentication that comes next. -/
structure Conformant (R : Respond) (l : List Message) : Prop where
  opening : ∀ o, AuthReply true (R (l ++ [o])).packets
  answer : ∀ o sw a, (R (l ++ [o])).packets = [sw] → sw.2.head? = some authSwitchRequest →
    AuthReply false (R (l ++ [o, a])).packets

/-- What an earlier session has left unread; on a new connection the first packet is the greeting. -/
def stale (s : Pooled World) : List Message :=
  if s.tag.connPhase = some .command then s.conn.net.inbox else s.conn.net.inbox.tail

theorem AuthReply.of_switch {ps : List Message} {sw : Message} (H : AuthReply true ps)
    (hsw : ps.head? = some sw) (hhead : sw.2.head? = some authSwitchRequest) : ps = [sw] := by
  rcases H with rfl | ⟨mores, last, rfl, hmores, -⟩
  · simp at hsw
  · rcases mores with _ | ⟨m, ms⟩
    · simpa using hsw
    · -- an AuthMoreData is no switch request
      obtain rfl : m = sw := by simpa using hsw
      have := (hmores m (by simp)).symm.trans hhead
      simp [authMoreData, authSwitchRequest] at this

theorem AuthReply.of_accepted {ps : List Message} {v : Message} (H : AuthReply false ps)
    (hv : ps.head? = some v) (hacc : v.2.head? ≠ some HeaderInfo.errHeader.toU8)
    (hmore : v.2.head? ≠ some authMoreData) :
    ps = [v] ∧ v.2.head? = some HeaderInfo.okHeader.toU8 := by
  rcases H with rfl | ⟨mores, last, rfl, hmores, hlast⟩
  · simp at hv
  · rcases mores with _ | ⟨m, ms⟩
    · obtain rfl : last = v := by simpa using hv
      rcases hlast with hok | herr | hm | ⟨hfalse, -⟩
      · exact ⟨rfl, hok⟩
      · exact absurd herr hacc
      · exact absurd hm hmore
      · simp at hfalse
    · obtain rfl : m = v := by simpa using hv
      exact absurd (hmores m (by simp)) hmore

namespace Login

variable (L : Login R S s)

theorem taken_after : L.after.conn.net.taken = L.opened.net.taken ++ [L.switch, L.verdict] := by
  simp [after, exchanged, judged, answered, switched, wrote]

theorem toCome_after : L.after.conn.net.toCome = s.conn.net.toCome.tail.tail :=
  congrArg List.tail L.opens.toCome

theorem received_after : L.after.conn.net.received =
    s.conn.net.received ++ [L.opener] ++ [(L.switch.1 + 1, L.answer.2)] := by
  rw [after, exchanged_received, L.opens.received]
  rfl

/-- All packets of the exchange: what was unread before, and the backend's answers to its two messages. -/
def packets : List Message :=
  stale s ++ (s.conn.net.answer R L.opener ++ L.opened.net.answer R (L.switch.1 + 1, L.answer.2))

theorem opened_inbox : L.opened.net.inbox = stale s ++ s.conn.net.answer R L.opener := by
  rw [L.opens.inbox]
  rfl

/-- The switch request and the verdict are the first two of them, the others stay unread. -/
theorem packets_eq : L.packets = L.switch :: L.verdict :: L.after.conn.net.inbox := by
  have hafter : L.after.conn.net.inbox = (L.opened.net.inbox.tail ++
      L.opened.net.answer R (L.switch.1 + 1, L.answer.2)).tail := by
    simp [after, exchanged]
  have hall : L.packets = L.opened.net.inbox ++ L.opened.net.answer R (L.switch.1 + 1, L.answer.2) := by
    rw [packets, L.opened_inbox, List.append_assoc]
  obtain ⟨ms, hms⟩ := List.head?_eq_some_iff.mp L.exchange.switch
  have hverdict := L.exchange.verdict
  rw [hms, List.tail_cons] at hverdict hafter
  obtain ⟨ns, hns⟩ := List.head?_eq_some_iff.mp hverdict
  rw [hall, hms, List.cons_append, hafter, hns, List.tail_cons]

/-- With nothing left over from before and a backend that keeps to the protocol the verdict is the last
packet of the exchange, if it is not an `AuthMoreData`. -/
theorem verdict_ok (hs : stale s = []) (hR : Conformant R s.conn.net.received)
    (hmore : L.verdict.2.head? ≠ some authMoreData) :
    L.verdict.2.head? = some HeaderInfo.okHeader.toU8 ∧ L.after.conn.net.inbox = [] := by
  have hall : s.conn.net.answer R L.opener ++ L.opened.net.answer R (L.switch.1 + 1, L.answer.2) =
      L.switch :: L.verdict :: L.after.conn.net.inbox := by
    rw [← L.packets_eq, packets, hs, List.nil_append]
  have hswitch : (s.conn.net.answer R L.opener).head? = some L.switch := by
    have hin := L.exchange.switch
    rwa [L.opened_inbox, hs, List.nil_append] at hin
  -- the backend is there, and so its answer is the one the protocol allows
  have hopen : s.conn.net.phase ≠ .closed := by
    intro hcl
    rw [World.answer_closed hcl] at hswitch
    simp at hswitch
  rw [World.answer_open hopen] at hall hswitch
  have hone := (hR.opening L.opener).of_switch hswitch L.exchange.header
  rw [hone, List.singleton_append, List.cons.injEq] at hall
  have hopen' : L.opened.net.phase ≠ .closed := by
    intro hcl
    rw [World.answer_closed hcl] at hall
    simp at hall
  have hrec : L.opened.net.received = s.conn.net.received ++ [L.opener] := L.opens.received
  rw [World.answer_open hopen', hrec, List.append_assoc] at hall
  have hacc : L.verdict.2.head? ≠ some HeaderInfo.errHeader.toU8 := by
    obtain ⟨b, hb, hne⟩ := L.accepted
    rw [hb]
    simpa using hne
  have hreply := hR.answer L.opener L.switch (L.switch.1 + 1, L.answer.2) hone L.exchange.header
  have hlist : (R (s.conn.net.received ++ [L.opener, (L.switch.1 + 1, L.answer.2)])).packets =
      L.verdict :: L.after.conn.net.inbox := hall.2
  rw [hlist] at hreply
  obtain ⟨hlast, hok⟩ := hreply.of_accepted rfl hacc hmore
  exact ⟨hok, (List.cons.inj hlast).2⟩

/-- The client and the backend are in step at the end of the exchange: with nothing left over from
before the verdict is no `AuthMoreData`, and what is left over makes up with the backend's answers a switch
request and an OK packet. -/
def InStep : Prop :=
  if stale s = [] then L.verdict.2.head? ≠ some authMoreData
  else ∃ sw v, L.packets = [sw, v] ∧ v.2.head? = some HeaderInfo.okHeader.toU8

theorem inStep_iff (hR : Conformant R s.conn.net.received) : L.InStep ↔
    L.verdict.2.head? = some HeaderInfo.okHeader.toU8 ∧ L.after.conn.net.inbox = [] := by
  unfold InStep
  split_ifs with hs
  · refine ⟨L.verdict_ok hs hR, fun h hmore => ?_⟩
    rw [hmore] at h
    simp [authMoreData, HeaderInfo.toU8] at h
  · rw [L.packets_eq]
    constructor
    · rintro ⟨sw, v, heq, hok⟩
      simp only [List.cons.injEq] at heq
      obtain ⟨-, rfl, hin⟩ := heq
      exact ⟨hok, hin⟩
    · rintro ⟨hok, hin⟩
      exact ⟨_, _, by rw [hin], hok⟩

end Login

/-- **No command before authentication.** Let the backend keep to the protocol. The command loop is entered
only after an OK packet, with nothing of the exchange left unread, if and only if client and backend are in
step at the end of every login. -/
theorem authenticate_ok_iff (hR : Conformant R s.conn.net.received) :
    (∀ h s', (authenticate (net R) S).run s = (.ok (some h), s') →
      (∃ m, s'.conn.net.taken.getLast? = some m ∧ m.2.head? = some HeaderInfo.okHeader.toU8) ∧
        s'.conn.net.inbox = []) ↔
    ∀ L : Login R S s, L.InStep := by
  constructor
  · intro hall L
    obtain ⟨⟨m, hm, hok⟩, hin⟩ := hall _ _ (authenticate_some_iff.mpr ⟨L, rfl, rfl⟩)
    obtain rfl : m = L.verdict := by
      rw [L.taken_after] at hm
      simpa using hm.symm
    exact (L.inStep_iff hR).mpr ⟨hok, hin⟩
  · intro hstep h s' hr
    obtain ⟨L, rfl, rfl⟩ := authenticate_some_iff.mp hr
    obtain ⟨hok, hin⟩ := (L.inStep_iff hR).mp (hstep L)
    exact ⟨⟨L.verdict, by rw [L.taken_after]; simp, hok⟩, hin⟩

/-- The handshake response of the user `u` with the given capabilities. -/
def hello (caps : CapabilityFlags) : Packet :=
  leBytes 4 caps.toNat ++ [0, 0, 0, 1, 45] ++ List.replicate 23 0 ++ [117, 0, 0]

/-- The capabilities that such a response needs. -/
def helloCaps : CapabilityFlags := .clientProtocol41 ||| .clientSecureConnection

/-- A new connection, and a client that answers the switch request with `ans`. -/
def newcomer (ans : Packet) : Pooled World :=
  ⟨.default, ⟨0, 0, ⟨[(1, hello helloCaps), (3, ans)], none, none, [(0, [10])], .handshake, 0, [], []⟩⟩⟩

theorem stale_newcomer (ans : Packet) : stale (newcomer ans) = [] :=
  if_neg (by simp [newcomer, DbUserConnLifeCycle.default])

/-- A backend that asks for a switch and then gives the verdict. -/
def switchThen (verdict : List Message) : Respond
  | [_] => ⟨[(2, [0xfe])], false⟩
  | [_, _] => ⟨verdict, false⟩
  | _ => ⟨[], false⟩

theorem conformant_switchThen {verdict : List Message} (h : AuthReply false verdict) :
    Conformant (switchThen verdict) [] where
  opening o := Or.inr ⟨[], (2, [0xfe]), rfl, by simp, by simp [authSwitchRequest]⟩
  answer _ _ _ _ _ := h

def okVerdict : Message := (4, [0, 0, 0, 2, 0, 0, 0])

/-- The verdict is an OK packet. -/
theorem authenticate_ok_switch : ∃ h s',
    (authenticate (net (switchThen [okVerdict])) Setup.plain).run (newcomer [7]) = (.ok (some h), s') ∧
      (∃ m, s'.conn.net.taken.getLast? = some m ∧ m.2.head? = some HeaderInfo.okHeader.toU8) ∧
        s'.conn.net.inbox = [] := by
  have hrun : ∃ h s', (authenticate (net (switchThen [okVerdict])) Setup.plain).run (newcomer [7]) =
      (.ok (some h), s') := ⟨_, _, rfl⟩
  obtain ⟨h, s', hrun⟩ := hrun
  refine ⟨h, s', hrun, (authenticate_ok_iff (conformant_switchThen ?_)).mpr ?_ h s' hrun⟩
  · exact Or.inr ⟨[], okVerdict, rfl, by simp, Or.inl rfl⟩
  · intro L
    rw [Login.InStep, if_pos (stale_newcomer _)]
    intro hmore
    have htaken := L.taken_after
    have hlast : L.after.conn.net.taken.getLast? = some okVerdict := by
      rw [← (Prod.mk.inj (authenticate_some_iff.mpr ⟨L, rfl, rfl⟩)).2]
      decide
    rw [htaken] at hlast
    have hverdict : L.verdict = okVerdict := by simpa using hlast
    simp [hverdict, okVerdict, authMoreData] at hmore

/-- The backend says that the password is cached, and the OK packet behind that stays unread. -/
theorem authenticate_fastAuth :
    Conformant (switchThen [(4, [1, 3]), (5, [0, 0, 0, 2, 0, 0, 0])]) [] ∧ stale (newcomer [7]) = [] ∧
    ∃ h s', (authenticate (net (switchThen [(4, [1, 3]), (5, [0, 0, 0, 2, 0, 0, 0])])) Setup.plain).run
        (newcomer [7]) = (.ok (some h), s') ∧
      s'.conn.net.taken.getLast? = some (4, [1, 3]) ∧
      s'.conn.net.inbox = [(5, [0, 0, 0, 2, 0, 0, 0])] := by
  refine ⟨conformant_switchThen ?_, stale_newcomer _, _, _, rfl, ?_, ?_⟩
  · exact Or.inr ⟨[(4, [1, 3])], (5, [0, 0, 0, 2, 0, 0, 0]), rfl, by simp [authMoreData], Or.inl rfl⟩
  · decide
  · decide

end Haentgl.Server.Auth
