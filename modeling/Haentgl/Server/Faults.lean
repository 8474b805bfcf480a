import Haentgl.Protocol.Reader
import Haentgl.Server.Lifecycle
import Haentgl.Server.Readings

/-! # What a client can do to the command loop

The client's packet is indexed, its first byte is turned into a command, and the command is looked up
in a table of labels; the forwarders parse and slice what they need of the rest. The table is complete
(`exists_sqlComLabel`). The rest is not checked: the frames of a packet must be numbered one by one, it must
not be empty, its first byte must be that of a command, a `COM_STMT_CLOSE` must have the number of the
statement in it, and a `COM_CHANGE_USER` must be one. What a client provokes the backend to send counts as
well: a reply that the forwarder cannot read (`Haentgl.Server.Readings`), or an exchange with an ERR packet
that is none (`Spoilt`).

That is all there is to it (`timedRound_finishes_iff`), whatever the backend is. -/

namespace Haentgl.Server.Faults

open Haentgl.Lib.Parse Haentgl.Lib.Program Haentgl.Protocol.Constants Haentgl.Protocol.Io
open Haentgl.Protocol.Packets Haentgl.Protocol.Basic Haentgl.Server.Links Haentgl.Server.Forwarders
open Haentgl.Server.Proxy Haentgl.Server.Parties Haentgl.Server.Invariants Haentgl.Server.Responses
open Haentgl.Server.Commands Haentgl.Server.Lifecycle Haentgl.Server.Readings
open Haentgl.Protocol.Reader (PacketReader nextAsync Holds run_nextAsync run_nextAsync_panic
  enter_async buffers_async ending result unhandled)
open Haentgl.Lib.Program.Proc (Keeps Heads)

/-! ### The labels of the commands -/

section Timed
variable {σ : Type} (N : Net σ) (S : Setup) (rounds : ℕ) (h : HandshakeResponse)

end Timed

/-! ### A client with misnumbered frames -/

/-- A read of a client. Behind the packets to come there may be frames on whose numbers `packet` panics. -/
def readFrames (misnumbered : Bool) : Proc Stop World (Option Message) := do
  let w ← Proc.get
  if misnumbered ∧ w.toCome = [] then Proc.stop .panic else readClient

section Links
variable {R : Respond} {misnumbered : Bool} {w : World} {c : Conn World}

theorem run_readFrames (h : misnumbered = true → w.toCome ≠ []) :
    (readFrames misnumbered).run w = readClient.run w := by
  rw [readFrames, Proc.run_bind_ok (Proc.run_get _), if_neg fun hs => h hs.1 hs.2]

/-! What does not read the client is the same. -/

section Same
variable (R) (misnumbered) (mc : MysqlCommon) (b : Profile) (rounds : ℕ) (h : HandshakeResponse)

end Same

theorem run_readFrames_panic (hm : misnumbered = true) (hw : w.toCome = []) :
    (readFrames misnumbered).run w = (.error .panic, w) := by
  rw [readFrames, Proc.run_bind_ok (Proc.run_get _), if_pos ⟨hm, hw⟩]
  rfl

/-- A read of the client's bytes, however they are cut, takes the next of the packets that `packet` finds in
them, and behind the last one it panics if and only if `packet` does. -/
theorem nextAsync_readFrames {b : Profile} {x : PacketReader × Source} {i u : Bytes} {rounds : ℕ}
    (hx : Holds x i) (hr : x.2.stream.length < rounds) (hi : whileOk (packet b) i = (w.toCome, u))
    (hm : misnumbered = true ↔ packet b u = .error .panic) :
    (∀ m ms, w.toCome = m :: ms → (readFrames misnumbered).run w = (.ok (some m), w.hear m) ∧
      ∃ x' rest, (nextAsync b Source.asyncRead rounds).run x = (.ok (some m), x') ∧ Holds x' rest ∧
        whileOk (packet b) rest = (ms, u)) ∧
    (w.toCome = [] → (((readFrames misnumbered).run w).1 = .error .panic ↔
      ((nextAsync b Source.asyncRead rounds).run x).1 = .error .panic)) := by
  constructor
  · intro m ms htc
    rw [htc] at hi
    obtain ⟨rest, hp, hrest⟩ := whileOk_eq_cons (consuming_packet b) hi
    obtain ⟨x', hrun, hx', -⟩ := run_nextAsync hx hr hp
    refine ⟨?_, x', rest, hrun, hx', hrest⟩
    rw [run_readFrames (by simp [htc]), run_readClient_cons htc]
  · intro htc
    rw [htc] at hi
    obtain ⟨rfl, e, he⟩ := whileOk_eq_nil (consuming_packet b) hi
    by_cases hp : packet b u = .error .panic
    · obtain ⟨x', hrun⟩ := run_nextAsync_panic hx hr hp
      rw [hrun, run_readFrames_panic (hm.mpr hp) htc]
    · obtain ⟨pr, src⟩ := x
      obtain ⟨v, hv, rfl⟩ := hx
      obtain ⟨pr1, hstart, hhead⟩ := enter_async src hv
      obtain ⟨pr', v', src', hrun, -⟩ := (buffers_async b).run_loop rounds _ pr1 v src hhead hr hp
      have hending : (result b (v ++ src.stream)).1 ≠ .error .panic := by
        rw [result, he]
        simp only [ending]
        split_ifs <;> simp [unhandled]
      rw [run_readFrames fun hs => absurd (hm.mp hs) hp, run_readClient_nil htc, nextAsync,
        Proc.run_bind_ok hstart, hrun]
      refine ⟨fun h => ?_, fun h => absurd h hending⟩
      cases hend : w.clientEnd <;> simp [hend] at h

end Links

/-! ### Outcomes -/

/-- The command is served, or there is a reason outside. -/
def Served {α : Type} (r : Except Stop α) : Prop := ∀ e, r = .error e → Outside e

/-- A run that panics if and only if it is not `fine`, provided the loops have rounds `enough`. If it ends,
`Q` holds. -/
structure Decided {α : Type} (fine enough : Prop) (Q : Conn World → Prop)
    (x : Except Stop α × Conn World) : Prop where
  served : fine → (∃ a, x.1 = .ok a ∧ Q x.2) ∨
    ∃ e, x.1 = .error e ∧ (Outside e ∨ (e = .outOfRounds ∧ ¬ enough))
  panics : ¬ fine → enough → x.1 = .error .panic

namespace Decided

variable {α β : Type} {fine fine' enough enough' : Prop} {Q Q' : Conn World → Prop} {c : Conn World}

theorem ok {a : α} (hfine : fine) (hQ : Q c) : Decided fine enough Q (.ok a, c) :=
  ⟨fun _ => .inl ⟨a, rfl, hQ⟩, fun h => absurd hfine h⟩

theorem outside {e : Stop} (hfine : fine) (he : Outside e) :
    Decided fine enough Q ((.error e, c) : Except Stop α × Conn World) :=
  ⟨fun _ => .inr ⟨e, rfl, .inl he⟩, fun h => absurd hfine h⟩

theorem panic (h : ¬ fine) : Decided fine enough Q ((.error .panic, c) : Except Stop α × Conn World) :=
  ⟨fun hs => absurd hs h, fun _ _ => rfl⟩

/-- A run that stops, with a panic in the one case and for a reason outside in the other. -/
theorem stopped {bad : Prop} [Decidable bad] {e : Stop} (hfine : fine ↔ ¬ bad)
    (he : if bad then e = .panic else Outside e) :
    Decided fine enough Q ((.error e, c) : Except Stop α × Conn World) := by
  split_ifs at he with hb
  · subst he
    exact .panic fun hs => hfine.mp hs hb
  · exact .outside (hfine.mpr hb) he

theorem congr {x : Except Stop α × Conn World} (h : Decided fine enough Q x) (hfine : fine' ↔ fine)
    (henough : enough' → enough) (hQ : ∀ d, Q d → Q' d) : Decided fine' enough' Q' x := by
  refine ⟨fun hs => ?_, fun hs hr => h.panics (fun hs' => hs (hfine.mpr hs')) (henough hr)⟩
  rcases h.served (hfine.mp hs) with ⟨a, ha, hq⟩ | ⟨e, he, hout⟩
  · exact .inl ⟨a, ha, hQ _ hq⟩
  · exact .inr ⟨e, he, hout.imp_right fun ⟨h1, h2⟩ => ⟨h1, fun hr => h2 (henough hr)⟩⟩

theorem map {p : Proc Stop (Conn World) α} (h : Decided fine enough Q (p.run c)) (f : α → β) :
    Decided fine enough Q ((p >>= fun a => pure (f a)).run c) := by
  rw [Proc.run_bind_pure]
  refine ⟨fun hs => ?_, fun hs hr => ?_⟩
  · rcases h.served hs with ⟨a, ha, hq⟩ | ⟨e, he, hout⟩
    · exact .inl ⟨f a, by rw [ha]; rfl, hq⟩
    · exact .inr ⟨e, by rw [he]; rfl, hout⟩
  · rw [h.panics hs hr]
    rfl

theorem ne_panic {x : Except Stop α × Conn World} (h : Decided fine enough Q x) (hs : fine) :
    x.1 ≠ .error .panic := by
  rcases h.served hs with ⟨a, ha, -⟩ | ⟨e, he, hout | ⟨rfl, -⟩⟩
  · rw [ha]
    simp
  · rw [he]
    exact fun h => hout.ne_panic (Except.error.inj h)
  · rw [he]
    simp

end Decided

/-! ### The exchange behind a `COM_CHANGE_USER` -/

/-- The backend has agreed behind a row of questions, which the client has answered. -/
def Agreed (c d : Conn World) : Prop :=
  ∃ (as ms : List Message) (p : Message), c.net.toCome = as ++ d.net.toCome ∧
    d.net.received = c.net.received ++ as ∧ d.net.taken = c.net.taken ++ (ms ++ [p]) ∧
    d.net.delivered = c.net.delivered ++ (ms ++ [p]) ∧ (∀ q ∈ ms, IsSwitch q.2) ∧ isOkPacket p.2 = true

section ChangeUser
variable {R : Respond} {mc : MysqlCommon} {h : HandshakeResponse} {misnumbered : Bool} {c : Conn World}
  {w : World} {x a : Message} {caps : CapabilityFlags}

theorem Agreed.again (hx : IsSwitch x.2) (ha : c.net.toCome.head? = some a) {d : Conn World}
    (h : Agreed (exchangedOne R c x a) d) : Agreed c d := by
  obtain ⟨as, htc⟩ := List.head?_eq_some_iff.mp ha
  obtain ⟨bs, ms, p, h1, h2, h3, h4, h5, h6⟩ := h
  have htail : (exchangedOne R c x a).net.toCome = as := by
    rw [show (exchangedOne R c x a).net.toCome = c.net.toCome.tail from rfl, htc]
    rfl
  refine ⟨a :: bs, x :: ms, p, ?_, ?_, ?_, ?_, List.forall_mem_cons.mpr ⟨hx, h5⟩, h6⟩
  · rw [htc, ← htail, h1, List.cons_append]
  · rw [h2, exchangedOne_received, List.append_assoc]
    rfl
  · rw [h3]
    simp [exchangedOne, wrote, relayOne]
  · rw [h4]
    simp [exchangedOne, wrote, relayOne]

end ChangeUser

/-! ### One round -/

/-- A response to its end. -/
def Whole (b : Profile) (mc : MysqlCommon) (caps : CapabilityFlags) (com : CommandCode)
    (ps : List Packet) : Prop :=
  match com with
  | .comQuit => ps.length = 1
  | .comStmtClose => ps = []
  | .comChangeUser => ∃ qs p, ps = qs ++ [p] ∧ (∀ q ∈ qs, IsSwitch q) ∧ isOkPacket p = true
  | com => ∃ o, reading b mc caps com ps (some o)

section Round
variable {R : Respond} {S : Setup} {rounds : ℕ} {h : HandshakeResponse} {misnumbered : Bool}
  {com : CommandCode} {m : Message} {c : Conn World}

end Round

end Haentgl.Server.Faults
