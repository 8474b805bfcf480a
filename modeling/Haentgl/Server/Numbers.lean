import Haentgl.Server.Auth

/-! # Sequence numbers during authentication

Each link has a numbering of its own: a packet carries the successor of the last number seen on the link,
and the first packet of an exchange carries 0. The proxy copies numbers from one link to the other in two
places, and its numbers are right exactly if these two fit where they are copied to (`Matching`).

Let every packet be of one frame. The first, the number of the handshake response, is then the same on both
links. The second, the number of the verdict, is the same on both links for a handshake, where the backend
greets first, but not for a `COM_CHANGE_USER`, where it does not: there the client receives the verdict, if
it comes to one, with the number 3 in place of 4 (`authenticate_numbers`). -/

namespace Haentgl.Server.Numbers

open Haentgl.Lib.Parse Haentgl.Lib.Program Haentgl.Protocol.Constants Haentgl.Protocol.Io
open Haentgl.Protocol.Packets Haentgl.Protocol.Basic Haentgl.Server.Links Haentgl.Server.Forwarders
open Haentgl.Server.Proxy Haentgl.Server.Parties Haentgl.Server.Auth
open Haentgl.Protocol.Writer (seqAfter lastSeq lastSeq_of_short seqAfter_eq_lastSeq)
open Haentgl.Lib.Program.Proc (Spec)

/-! ### The numbers on a link -/

/-- The number that must follow a message. -/
def following (_ : UInt8) (e : Event) : UInt8 :=
  (if e.fromProxy then lastSeq e.msg.1 e.msg.2 else e.msg.1) + 1

/-- The number that the next packet on a link must carry, 0 for the first. -/
def expected (link : List Event) : UInt8 := link.foldl following 0

/-- A message whose first frame carries the number `x`. -/
def InStep (x : UInt8) (e : Event) : Prop :=
  if e.fromProxy then e.msg.1 = x else e.msg.1 = lastSeq x e.msg.2

/-- The messages of one direction carry the numbers they must carry, from `x` on. -/
def Numbered (fromProxy : Bool) : UInt8 → List Event → Prop
  | _, [] => True
  | x, e :: es => (e.fromProxy = fromProxy → InStep x e) ∧ Numbered fromProxy (following x e) es

theorem numbered_append_singleton (b : Bool) (e : Event) : ∀ (x : UInt8) (es : List Event),
    Numbered b x (es ++ [e]) ↔ Numbered b x es ∧ (e.fromProxy = b → InStep (es.foldl following x) e)
  | x, [] => by simp [Numbered]
  | x, d :: es => by
    simp only [List.cons_append, Numbered, List.foldl_cons, numbered_append_singleton b e _ es, and_assoc]

/-- A message of one frame. -/
def Short (m : Message) : Prop := m.2.length < maxPayloadLen

@[simp] theorem numbered_nil (b : Bool) (x : UInt8) : Numbered b x [] := trivial

theorem numbered_cons_of_short {b : Bool} {x : UInt8} {e : Event} {es : List Event} (h : Short e.msg) :
    Numbered b x (e :: es) ↔ (e.fromProxy = b → e.msg.1 = x) ∧ Numbered b (e.msg.1 + 1) es := by
  simp [Numbered, InStep, following, lastSeq_of_short h]

section OneLink
variable {es : List Event} {m : Message}

theorem numbered_in_of_short (h : Numbered false 0 (es ++ [⟨false, m⟩])) (hm : Short m) :
    Numbered false 0 es ∧ m.1 = expected es := by
  obtain ⟨hes, hstep⟩ := (numbered_append_singleton false _ _ _).mp h
  refine ⟨hes, ?_⟩
  have := hstep rfl
  simpa [InStep, lastSeq_of_short hm, expected] using this

theorem numbered_true_in : Numbered true 0 (es ++ [⟨false, m⟩]) ↔ Numbered true 0 es := by
  simp [numbered_append_singleton]

theorem numbered_true_out :
    Numbered true 0 (es ++ [⟨true, m⟩]) ↔ Numbered true 0 es ∧ m.1 = expected es := by
  simp [numbered_append_singleton, InStep, expected]

theorem numbered_false_out : Numbered false 0 (es ++ [⟨true, m⟩]) ↔ Numbered false 0 es := by
  simp [numbered_append_singleton]

theorem expected_in : expected (es ++ [⟨false, m⟩]) = m.1 + 1 := by simp [expected, following]

theorem expected_out : expected (es ++ [⟨true, m⟩]) = lastSeq m.1 m.2 + 1 := by
  simp [expected, following]

end OneLink

/-- Client and backend number their packets, and every packet is of one frame. Of the backend's link
only what comes after the first `n` messages is looked at. -/
structure Conforming (n : ℕ) (w : World) : Prop where
  client : Numbered false 0 w.clientLink
  backend : Numbered false 0 (w.backendLink.drop n)
  shortClient : ∀ e ∈ w.clientLink, Short e.msg
  shortBackend : ∀ e ∈ w.backendLink.drop n, Short e.msg

/-- The proxy numbers its packets on both links. -/
def Disciplined (n : ℕ) (w : World) : Prop :=
  Numbered true 0 w.clientLink ∧ Numbered true 0 (w.backendLink.drop n)

/-! ### Following an authentication -/

/-- The numbers of the proxy are right so far exactly if `G` holds, and `F` is what is known of the numbers
that were read, if the others conform. -/
structure Outcome (n : ℕ) (G F : Prop) (w : World) : Prop where
  numbers : Disciplined n w ↔ G
  facts : Conforming n w → F

/-- The same, and the next numbers are `x` for the client and `y` for the backend. -/
structure Track (n : ℕ) (G F : Prop) (x y : UInt8) (w : World) : Prop extends Outcome n G F w where
  base : n ≤ w.backendLink.length
  client : expected w.clientLink = x
  backend : expected (w.backendLink.drop n) = y

section Steps
variable {R : Respond} {n : ℕ} {G G' F F' : Prop} {x y : UInt8} {w : World} {m : Message}

theorem Outcome.imp (H : Outcome n G F w) (hG : G ↔ G') (hF : F → F') : Outcome n G' F' w :=
  ⟨H.numbers.trans hG, fun C => hF (H.facts C)⟩

theorem Track.imp (T : Track n G F x y w) (hG : G ↔ G') (hF : F → F') : Track n G' F' x y w :=
  ⟨T.toOutcome.imp hG hF, T.base, T.client, T.backend⟩

/-- The proxy reads a packet of the client. -/
theorem Track.hear (T : Track n G F x y w) : Track n G (F ∧ m.1 = x) (m.1 + 1) y (w.hear m) := by
  have hcl : (w.hear m).clientLink = w.clientLink ++ [⟨false, m⟩] := rfl
  refine ⟨⟨?_, fun C => ?_⟩, T.base, by rw [hcl, expected_in], T.backend⟩
  · rw [← T.numbers, Disciplined, hcl, numbered_true_in]
    rfl
  · have hshort : Short m := C.shortClient ⟨false, m⟩ (by simp [hcl])
    obtain ⟨hin, hm⟩ := numbered_in_of_short (hcl ▸ C.client) hshort
    refine ⟨T.facts ⟨hin, C.backend, fun e he => C.shortClient e (by simp [hcl, he]), C.shortBackend⟩, ?_⟩
    rw [hm, T.client]

/-- The proxy reads a packet of the backend. -/
theorem Track.take (T : Track n G F x y w) : Track n G (F ∧ m.1 = y) x (m.1 + 1) (w.take m) := by
  have hbl : (w.take m).backendLink.drop n = w.backendLink.drop n ++ [⟨false, m⟩] :=
    List.drop_append_of_le_length T.base
  refine ⟨⟨?_, fun C => ?_⟩, T.base.trans (by simp [World.take]), T.client, by rw [hbl, expected_in]⟩
  · rw [← T.numbers, Disciplined, hbl, numbered_true_in]
    rfl
  · have hshort : Short m := C.shortBackend ⟨false, m⟩ (by simp [hbl])
    obtain ⟨hin, hm⟩ := numbered_in_of_short (hbl ▸ C.backend) hshort
    refine ⟨T.facts ⟨C.client, hin, C.shortClient, fun e he => C.shortBackend e (by simp [hbl, he])⟩, ?_⟩
    rw [hm, T.backend]

/-- A packet goes to the client: its number must be `x`. -/
theorem Track.deliver (T : Track n G F x y w) :
    Track n (G ∧ m.1 = x) (F ∧ Short m) (lastSeq m.1 m.2 + 1) y (w.deliver m) := by
  have hcl : (w.deliver m).clientLink = w.clientLink ++ [⟨true, m⟩] := rfl
  refine ⟨⟨?_, fun C => ?_⟩, T.base, by rw [hcl, expected_out], T.backend⟩
  · rw [← T.numbers, ← T.client, Disciplined, hcl, numbered_true_out, and_right_comm]
    rfl
  · have hin : Numbered false 0 w.clientLink := numbered_false_out.mp (hcl ▸ C.client)
    exact ⟨T.facts ⟨hin, C.backend, fun e he => C.shortClient e (by simp [hcl, he]), C.shortBackend⟩,
      C.shortClient ⟨true, m⟩ (by simp [hcl])⟩

/-- A packet goes to the backend: its number must be `y`. -/
theorem Track.receive (T : Track n G F x y w) :
    Track n (G ∧ m.1 = y) (F ∧ Short m) x (lastSeq m.1 m.2 + 1) (w.receive R m) := by
  have hbl : (w.receive R m).backendLink.drop n = w.backendLink.drop n ++ [⟨true, m⟩] :=
    List.drop_append_of_le_length T.base
  refine ⟨⟨?_, fun C => ?_⟩, T.base.trans (by simp [World.receive]), T.client, by rw [hbl, expected_out]⟩
  · rw [← T.numbers, ← T.backend, Disciplined, hbl, numbered_true_out, ← and_assoc]
    rfl
  · have hin : Numbered false 0 (w.backendLink.drop n) := numbered_false_out.mp (hbl ▸ C.backend)
    exact ⟨T.facts ⟨C.client, hin, C.shortClient, fun e he => C.shortBackend e (by simp [hbl, he])⟩,
      C.shortBackend ⟨true, m⟩ (by simp [hbl])⟩

end Steps

/-! ### The exchange -/

section Exchange
variable {R : Respond} {S : Setup} {n : ℕ} {G F : Prop} {y seq : UInt8} {c : Conn World}

theorem spec_relaySwitch :
    Spec (fun c => Track n G F (seq + 1) y c.net) (relaySwitch (net R) S seq)
      (fun q c => ∃ x, Track n G F x (q + 1) c.net) (fun _ c => Outcome n G F c.net) := by
  refine .bind (spec_readBackend (Q := fun m => Track n G F (seq + 1) (m.1 + 1))
    (E := fun _ => Outcome n G F) (fun w m _ T => T.take.imp .rfl And.left)
    fun w e _ T => T.toOutcome) fun sw => ?_
  refine spec_orPanic_bind _ (fun _ c T => T.toOutcome) fun b _ => .ite (fun _ => ?_) fun _ => ?_
  · refine spec_orPanic_bind _ (fun _ c T => T.toOutcome) fun q hq => ?_
    obtain rfl := addU8_eq_some hq
    refine .bind (spec_writeClient (seq + 1) sw.2 (Q := fun w => ∃ x, Track n G F x (sw.1 + 1) w)
      (E := fun _ => Outcome n G F) (fun w T => ⟨_, T.deliver.imp (by simp) And.left⟩)
      fun w T => T.toOutcome) fun _ => .pure fun c T => T
  · exact .stop fun c T => T.toOutcome

theorem spec_relayAnswer {q : UInt8} :
    Spec (fun c => ∃ x, Track n G F x (q + 1) c.net) (relayAnswer (net R) S q)
      (fun _ c => ∃ x y, Track n G F x y c.net) (fun _ c => Outcome n G F c.net) := by
  refine .bind (spec_readClient (P := fun w => ∃ x, Track n G F x (q + 1) w)
    (Q := fun _ w => ∃ x, Track n G F x (q + 1) w) (E := fun _ => Outcome n G F)
    (fun w m _ T => ?_) fun w e _ T => ?_) fun ans => ?_
  · obtain ⟨x, T⟩ := T
    exact ⟨_, T.hear.imp .rfl And.left⟩
  · exact T.elim fun _ T => T.toOutcome
  refine spec_orPanic_bind _ (fun _ c T => T.elim fun _ T => T.toOutcome) fun q' hq' => ?_
  obtain rfl := addU8_eq_some hq'
  refine spec_writeBackend (P := fun w => ∃ x, Track n G F x (q + 1) w) (q + 1) ans.2
    (Q := fun w => ∃ x y, Track n G F x y w) (E := fun _ => Outcome n G F) (fun w _ T => ?_)
    fun w T => T.elim fun _ T => T.toOutcome
  obtain ⟨x, T⟩ := T
  exact ⟨_, _, T.receive.imp (by simp) And.left⟩

theorem spec_relayVerdict :
    Spec (fun c => ∃ x y, Track n G F x y c.net) (relayVerdict (net R)) (fun _ _ => True)
      (fun _ c => Outcome n G F c.net) := by
  refine .bind (spec_readBackend (P := fun w => ∃ x y, Track n G F x y w) (Q := fun _ => Outcome n G F)
    (E := fun _ => Outcome n G F) (fun w m _ T => ?_) fun w e _ T => ?_) fun v => ?_
  · obtain ⟨x, y, T⟩ := T
    exact (T.take.imp .rfl And.left).toOutcome
  · obtain ⟨x, y, T⟩ := T
    exact T.toOutcome
  exact .bind (spec_writeClient v.1 v.2 (Q := fun _ => True) (E := fun _ => Outcome n G F)
    (fun w _ => trivial) fun w T => T) fun _ => .pure fun c _ => trivial

/-- Up to the verdict all numbers are right. -/
theorem spec_relayExchange :
    Spec (fun c => Track n G F (seq + 1) y c.net) (relayExchange R S seq) (fun _ _ => True)
      (fun _ c => Outcome n G F c.net) :=
  .bind spec_relaySwitch fun _ => .bind spec_relayAnswer fun _ => spec_relayVerdict

/-- The verdict goes to the client with the number that it has on the backend's link. -/
theorem Track.exchanged (T : Track n G F (seq + 1) y c.net) (sw ans v : Message) :
    Outcome n (G ∧ v.1 = ans.1 + 1) (F ∧ (v.1 = ans.1 + 1 ↔ y = seq + 1))
      (exchanged R seq c sw ans v).net := by
  have T1 := (T.take (m := sw)).deliver (m := (seq + 1, sw.2))
  have T2 := (T1.hear (m := ans)).receive (R := R) (m := (sw.1 + 1, ans.2))
  have T3 := (T2.take (m := v)).deliver (m := v)
  refine T3.toOutcome.imp (by simp) ?_
  rintro ⟨⟨⟨⟨⟨⟨hF, hsw⟩, hs⟩, hans⟩, hs'⟩, hv⟩, -⟩
  rw [lastSeq_of_short hs] at hans
  rw [lastSeq_of_short hs'] at hv
  refine ⟨hF, ?_⟩
  rw [hv, hans, hsw]
  simp

theorem relayed_unique {sw ans v sw' ans' v' : Message} (H : Relayed R S seq c sw ans v)
    (H' : Relayed R S seq c sw' ans' v') : sw = sw' ∧ ans = ans' ∧ v = v' := by
  obtain rfl : sw = sw' := Option.some.inj (H.switch.symm.trans H'.switch)
  obtain rfl : ans = ans' := Option.some.inj (H.answer.symm.trans H'.answer)
  exact ⟨rfl, rfl, Option.some.inj (H.verdict.symm.trans H'.verdict)⟩

/-- Checking the verdict touches no link. -/
theorem run_checkVerdict_net (p : Packet) (c : Conn World) :
    ((checkVerdict S p).run c).2.net = c.net := by
  have hkeep : Spec (fun c' : Conn World => c'.net = c.net) (checkVerdict S p)
      (fun _ c' => c'.net = c.net) (fun _ c' => c'.net = c.net) := by
    refine spec_orPanic_bind _ (fun _ c' h => h) fun b _ => .ite (fun _ => ?_) fun _ => .pure fun c' h => h
    refine spec_orPanic_bind _ (fun _ c' h => h) fun msg _ => ?_
    exact spec_orPanic_bind _ (fun _ c' h => h) fun text _ => .stop fun c' h => h
  exact hkeep.final rfl

/-- **The exchange.** Its numbers are right exactly if the verdict, if it comes to one, has the number
behind that of the answer. With packets of one frame it has so if the client's link expects the number `x`
when the exchange begins, and the backend's link the same. -/
theorem outcome_processAuthSwitchPlugin (T : Track n G F (seq + 1) y c.net) :
    Outcome n (G ∧ ∀ sw ans v, Relayed R S seq c sw ans v → v.1 = ans.1 + 1)
      (F ∧ ∀ sw ans v, Relayed R S seq c sw ans v → (v.1 = ans.1 + 1 ↔ y = seq + 1))
      ((processAuthSwitchPlugin (net R) S seq).run c).2.net := by
  have hspec := spec_relayExchange (R := R) (S := S) c T
  rw [processAuthSwitchPlugin_eq]
  rcases hrun : (relayExchange R S seq).run c with ⟨e | p, c'⟩
  · rw [hrun] at hspec
    rw [Proc.run_bind_error hrun]
    have hno : ∀ sw ans v, ¬ Relayed R S seq c sw ans v := by
      intro sw ans v H
      rw [run_relayExchange_ok_iff.mpr ⟨sw, ans, v, H, rfl, rfl⟩] at hrun
      simp at hrun
    exact Outcome.imp hspec (by simp [hno]) fun hF => ⟨hF, fun sw ans v H => absurd H (hno sw ans v)⟩
  · obtain ⟨sw, ans, v, H, -, rfl⟩ := run_relayExchange_ok_iff.mp hrun
    rw [Proc.run_bind_ok hrun, run_checkVerdict_net]
    refine (T.exchanged sw ans v).imp (and_congr_right fun _ => ⟨fun h sw' ans' v' H' => ?_, fun h => ?_⟩)
      (And.imp_right fun h sw' ans' v' H' => ?_)
    · obtain ⟨rfl, rfl, rfl⟩ := relayed_unique H H'
      exact h
    · exact h sw ans v H
    · obtain ⟨rfl, rfl, rfl⟩ := relayed_unique H H'
      exact h

/-! ### The two paths -/

variable {t : DbUserConnLifeCycle} {h : HandshakeResponse} {pkt : Packet} {w : World}

/-- The handshake response goes to the backend with the number that it has on the client's link, the
`COM_CHANGE_USER` with 0. -/
theorem track_opened {o : Message} {c1 : Conn World} (T : Track n G F (seq + 1) 0 w) (hseq : F → seq = 1)
    (H : Opened R S t seq h pkt ⟨0, 0, w⟩ o c1) :
    Track n (G ∧ (t.connPhase ≠ some .command → ∀ g ∈ w.inbox.head?, seq = g.1 + 1))
      (F ∧ (t.connPhase ≠ some .command → ∀ g ∈ w.inbox.head?, g.1 = 0) ∧
        (lastSeq o.1 o.2 + 1 = seq + 1 ↔ t.connPhase ≠ some .command))
      (seq + 1) (lastSeq o.1 o.2 + 1) c1.net := by
  cases H with
  | changeUser ht hph =>
    refine (T.receive (R := R) (m := (0, changeUserData S h))).imp (by simp [ht]) ?_
    rintro ⟨hF, hs⟩
    refine ⟨hF, fun hne => absurd ht hne, ?_⟩
    rw [lastSeq_of_short hs, hseq hF]
    simp [ht]
  | @handshake g p ht hg hp hph =>
    have hhead : w.inbox.head? = some g := hg
    refine ((T.take (m := g)).receive (R := R) (m := (seq, p))).imp (by simp [ht, hhead]) ?_
    rintro ⟨⟨hF, hg0⟩, hs⟩
    refine ⟨hF, fun _ => by simpa [hhead] using hg0, ?_⟩
    rw [lastSeq_of_short hs]
    simp [ht]

/-- The numbers of either path. -/
theorem outcome_authPath (T : Track n G F (seq + 1) 0 w) (hseq : F → seq = 1) :
    Outcome n (G ∧ ∀ o c1, Opened R S t seq h pkt ⟨0, 0, w⟩ o c1 →
        (t.connPhase ≠ some .command → ∀ g ∈ w.inbox.head?, seq = g.1 + 1) ∧
          ∀ sw ans v, Relayed R S seq c1 sw ans v → v.1 = ans.1 + 1)
      (F ∧ ∀ o c1, Opened R S t seq h pkt ⟨0, 0, w⟩ o c1 →
        (t.connPhase ≠ some .command → ∀ g ∈ w.inbox.head?, g.1 = 0) ∧
          ∀ sw ans v, Relayed R S seq c1 sw ans v → (v.1 = ans.1 + 1 ↔ t.connPhase ≠ some .command))
      ((authPath (net R) S t seq h pkt).run ⟨0, 0, w⟩).2.net := by
  by_cases hopen : ∃ o c1, Opened R S t seq h pkt ⟨0, 0, w⟩ o c1
  · obtain ⟨o, c1, H⟩ := hopen
    rw [H.run]
    refine (outcome_processAuthSwitchPlugin (track_opened T hseq H)).imp ?_ ?_
    · rw [and_assoc]
      refine and_congr_right fun _ => ⟨fun h o' c1' H' => ?_, fun h => h o c1 H⟩
      obtain ⟨rfl, rfl⟩ := H.unique H'
      exact h
    · rintro ⟨⟨hF, hg, hy⟩, hv⟩
      refine ⟨hF, fun o' c1' H' => ?_⟩
      obtain ⟨rfl, rfl⟩ := H.unique H'
      exact ⟨hg, fun sw ans v E => (hv sw ans v E).trans hy⟩
  · obtain ⟨e, c', hrun, -, hnet⟩ := (authPath_cases R S ⟨0, 0, w⟩ t seq h pkt).resolve_left hopen
    rw [hrun]
    have hno : ∀ o c1, ¬ Opened R S t seq h pkt ⟨0, 0, w⟩ o c1 := fun o c1 H => hopen ⟨o, c1, H⟩
    have hout : Outcome n G F c'.net := by
      rcases hnet with hnet | ⟨g, hnet⟩
      · rw [hnet]
        exact T.toOutcome
      · rw [hnet]
        exact (T.take.imp .rfl And.left).toOutcome
    exact hout.imp (by simp [hno]) fun hF => ⟨hF, fun o c1 H => absurd H (hno o c1)⟩

/-! ### The greeting -/

theorem initialHandshakePacket_ne_nil : initialHandshakePacket S ≠ [] :=
  List.append_ne_nil_of_right_ne_nil _ (List.cons_ne_nil 0 [])

theorem track_greeting {g : Packet} (hg : g ≠ []) (T : Track n True True 0 0 c.net) :
    let c' := wrote c .client (0, g) (c.net.deliver (0, g))
    Track n True (c'.clientSeq = 1) c'.clientSeq 0 c'.net := by
  have hseq : seqAfter 0 g = lastSeq 0 g + 1 := seqAfter_eq_lastSeq hg
  have hone : True ∧ Short (0, g) → seqAfter 0 g = 1 := by
    rintro ⟨-, hs⟩
    rw [hseq, lastSeq_of_short hs]
    rfl
  have T' : Track n True (seqAfter 0 g = 1) (lastSeq 0 g + 1) 0 (c.net.deliver (0, g)) :=
    (T.deliver (m := (0, g))).imp (by simp) hone
  rw [← hseq] at T'
  exact T'

/-- The message for a client that is gone. -/
theorem outcome_peerTerminated {c : Conn World} (T : Track n True F c.clientSeq 0 c.net) :
    ∃ e c', (do
      endPacket (net R) .client peerTerminated
      Proc.stop (.io ⟨.permissionDenied, "peer terminated connection"⟩) :
        Proc Stop (Conn World) (UInt8 × HandshakeResponse × Packet)).run c = (.error e, c') ∧
      Outcome n True True c'.net := by
  generalize peerTerminated = p
  by_cases hw : c.net.writesLeft = some 0
  · have hsend : ((net R).send .client c.clientSeq p).run c.net = (.error brokenPipe, c.net) :=
      run_writeClient_broken hw _
    have herr : (endPacket (net R) .client p).run c = (.error brokenPipe, _) :=
      run_endPacket_send (m := (c.clientSeq, p)) hsend
    exact ⟨_, _, Proc.run_bind_error herr _, T.toOutcome.imp .rfl fun _ => trivial⟩
  · have hsend : ((net R).send .client c.clientSeq p).run c.net =
        (.ok (), c.net.deliver (c.clientSeq, p)) := run_writeClient hw _
    have hend : (endPacket (net R) .client p).run c = (.ok (), _) :=
      run_endPacket_send (m := (c.clientSeq, p)) hsend
    exact ⟨_, _, Proc.run_bind_ok hend _, T.deliver.toOutcome.imp (by simp) fun _ => trivial⟩

/-- The client's response, or the message for a client that is gone. -/
theorem spec_afterGreeting :
    Spec (fun c => Track n True (c.clientSeq = 1) c.clientSeq 0 c.net) (afterGreeting R S)
      (fun x c => Track n True (x.1 = 1) (x.1 + 1) 0 c.net) (fun _ c => Outcome n True True c.net) := by
  intro c T
  have hout : Outcome n True True c.net := T.toOutcome.imp .rfl fun _ => trivial
  rw [afterGreeting]
  rcases htc : c.net.toCome with _ | ⟨m, ms⟩
  · have hnext : (onNet ((net R).next .client)).run c = _ := run_onNet (run_readClient_nil htc)
    rcases hend : c.net.clientEnd with _ | e
    · rw [hend] at hnext
      rw [Proc.run_bind_ok hnext]
      obtain ⟨e, c', hgone, hout'⟩ := outcome_peerTerminated (R := R) T
      simp only at hgone ⊢
      rw [hgone]
      exact hout'
    · rw [hend] at hnext
      rw [Proc.run_bind_error hnext]
      exact hout
  · have hnext : (onNet ((net R).next .client)).run c = (.ok (some m), { c with net := c.net.hear m }) :=
      run_onNet (run_readClient_cons htc)
    rw [Proc.run_bind_ok hnext]
    have T' : Track n True (m.1 = 1) (m.1 + 1) 0 (c.net.hear m) :=
      T.hear.imp .rfl fun hF => hF.2.trans hF.1
    rcases hparse : clientHandshakeResponse S.mc.known m.2 false with e | ⟨r, h⟩
    · simp only [hparse, unwrapResult]
      exact T'.toOutcome.imp .rfl fun _ => trivial
    · simp only [hparse, unwrapResult, pure_bind]
      exact T'

/-! ### The authentication -/

/-- The two numbers that are copied from one link to the other fit there: on a first authentication that
of the handshake response is the one behind the backend's greeting, and that of the backend's verdict is
the one behind the client's answer. -/
structure Matching (R : Respond) (S : Setup) (s : Pooled World) : Prop where
  response : ∀ A : Attempt R S s, s.tag.connPhase ≠ some .command →
    ∀ g ∈ s.conn.net.inbox.head?, A.response.1 = g.1 + 1
  verdict : ∀ T : Trial R S s, T.verdict.1 = T.answer.1 + 1

section Attempts
variable {s : Pooled World} {c' : Conn World} {x : UInt8 × HandshakeResponse × Packet}
  (hrun : (initialHandshake (net R) S).run (s.conn.setSeq .client 0) = (.ok x, c'))

include hrun

/-- An attempt begins with the client's response, and its rest is up to the path. -/
theorem opened_of_attempt (A : Attempt R S s) : A.response.1 = x.1 ∧
    Opened R S s.tag x.1 x.2.1 x.2.2 ⟨0, 0, c'.net⟩ A.opener A.opened := by
  obtain ⟨res, r, h, hm, hw, hp, rfl, rfl⟩ := run_initialHandshake_ok_iff.mp hrun
  obtain rfl : A.response = res := Option.some.inj (A.heard.symm.trans hm)
  obtain ⟨-, hh⟩ := Prod.mk.inj (Except.ok.inj (A.parses.symm.trans hp))
  exact ⟨rfl, hh ▸ A.opens⟩

theorem attempt_of_opened {o : Message} {c1 : Conn World}
    (H : Opened R S s.tag x.1 x.2.1 x.2.2 ⟨0, 0, c'.net⟩ o c1) :
    ∃ A : Attempt R S s, A.response.1 = x.1 ∧ A.opened = c1 := by
  obtain ⟨res, r, h, hm, hw, hp, rfl, rfl⟩ := run_initialHandshake_ok_iff.mp hrun
  exact ⟨⟨res, r, h, o, c1, hm, hw, hp, H⟩, rfl, rfl⟩

theorem matching_iff : Matching R S s ↔
    ∀ o c1, Opened R S s.tag x.1 x.2.1 x.2.2 ⟨0, 0, c'.net⟩ o c1 →
      (s.tag.connPhase ≠ some .command → ∀ g ∈ c'.net.inbox.head?, x.1 = g.1 + 1) ∧
        ∀ sw ans v, Relayed R S x.1 c1 sw ans v → v.1 = ans.1 + 1 := by
  have hinbox : c'.net.inbox = s.conn.net.inbox := by
    obtain ⟨res, r, h, -, -, -, -, rfl⟩ := run_initialHandshake_ok_iff.mp hrun
    rfl
  rw [hinbox]
  constructor
  · intro M o c1 H
    obtain ⟨A, hA, rfl⟩ := attempt_of_opened hrun H
    refine ⟨fun ht g hg => ?_, fun sw ans v E => ?_⟩
    · rw [← hA]
      exact M.response A ht g hg
    · rw [← hA] at E
      exact M.verdict ⟨A, sw, ans, v, E⟩
  · intro hall
    constructor
    · intro A ht g hg
      obtain ⟨hA, H⟩ := opened_of_attempt hrun A
      rw [hA]
      exact (hall _ _ H).1 ht g hg
    · intro T
      obtain ⟨hA, H⟩ := opened_of_attempt hrun T.toAttempt
      exact (hall _ _ H).2 _ _ _ (hA ▸ T.relayed)

theorem nonempty_trial_iff : Nonempty (Trial R S s) ↔
    ∃ o c1, Opened R S s.tag x.1 x.2.1 x.2.2 ⟨0, 0, c'.net⟩ o c1 ∧
      ∃ sw ans v, Relayed R S x.1 c1 sw ans v := by
  constructor
  · rintro ⟨T⟩
    obtain ⟨hA, H⟩ := opened_of_attempt hrun T.toAttempt
    exact ⟨_, _, H, _, _, _, hA ▸ T.relayed⟩
  · rintro ⟨o, c1, H, sw, ans, v, E⟩
    obtain ⟨A, hA, rfl⟩ := attempt_of_opened hrun H
    rw [← hA] at E
    exact ⟨⟨A, sw, ans, v, E⟩⟩

end Attempts

/-- Without a response there is nothing to be copied. -/
theorem outcome_of_error {s : Pooled World} {e : Stop} {c' : Conn World}
    (hrun : (initialHandshake (net R) S).run (s.conn.setSeq .client 0) = (.error e, c'))
    (hout : Outcome n True True w) :
    Outcome n (Matching R S s)
      (Matching R S s ↔ ¬ (s.tag.connPhase = some .command ∧ Nonempty (Trial R S s))) w := by
  have hno : Attempt R S s → False := by
    intro A
    rw [run_initialHandshake_ok_iff.mpr ⟨_, _, _, A.heard, A.writes, A.parses, rfl, rfl⟩] at hrun
    simp at hrun
  have hmatch : Matching R S s := ⟨fun A => (hno A).elim, fun T => (hno T.toAttempt).elim⟩
  refine hout.imp (iff_of_true trivial hmatch) fun _ => iff_of_true hmatch ?_
  rintro ⟨-, ⟨T⟩⟩
  exact hno T.toAttempt

theorem outcome_authenticate {s : Pooled World} (hnew : s.conn.net.clientLink = []) :
    Outcome s.conn.net.backendLink.length (Matching R S s)
      (Matching R S s ↔ ¬ (s.tag.connPhase = some .command ∧ Nonempty (Trial R S s)))
      ((authenticate (net R) S).run s).2.conn.net := by
  have hstart : Track s.conn.net.backendLink.length True True 0 0 s.conn.net := by
    refine ⟨⟨?_, fun _ => trivial⟩, le_rfl, ?_, ?_⟩ <;> simp [Disciplined, hnew, expected]
  by_cases hw : s.conn.net.writesLeft = some 0
  · obtain ⟨c', hrun, hnet⟩ := run_initialHandshake_broken (R := R) (S := S) hw
    rw [run_authenticate_error hrun]
    simp only [hnet]
    exact outcome_of_error hrun hstart.toOutcome
  · have hresult := spec_afterGreeting (R := R) (S := S) _
      (track_greeting (initialHandshakePacket_ne_nil (S := S)) hstart)
    rw [← run_initialHandshake hw] at hresult
    rcases hrun : (initialHandshake (net R) S).run (s.conn.setSeq .client 0) with ⟨e | x, c'⟩
    · rw [hrun] at hresult
      rw [run_authenticate_error hrun]
      exact outcome_of_error hrun hresult
    · rw [hrun] at hresult
      rw [run_authenticate hrun, settle_conn, matching_iff hrun, nonempty_trial_iff hrun]
      refine (outcome_authPath hresult fun hF => hF).imp (by simp) ?_
      rintro ⟨hseq, hall⟩
      constructor
      · rintro hfit ⟨ht, o, c1, H, sw, ans, v, E⟩
        exact ((hall o c1 H).2 sw ans v E).mp ((hfit o c1 H).2 sw ans v E) ht
      · intro hno o c1 H
        refine ⟨fun ht g hg => ?_, fun sw ans v E => ?_⟩
        · rw [hseq, (hall o c1 H).1 ht g hg]
          rfl
        · exact ((hall o c1 H).2 sw ans v E).mpr fun ht => hno ⟨ht, o, c1, H, sw, ans, v, E⟩

/-- **Sequence numbers during authentication.** On a client's link that is new the numbers of the proxy are
right exactly if the two that it copies fit. If the client and the backend number their packets, each on its
own link, and every packet is of one frame, they fit unless the connection is reused and client and backend
get as far as the verdict. -/
theorem authenticate_numbers {s : Pooled World} (hnew : s.conn.net.clientLink = []) :
    let n := s.conn.net.backendLink.length
    let w := ((authenticate (net R) S).run s).2.conn.net
    (Disciplined n w ↔ Matching R S s) ∧ (Conforming n w →
      (Disciplined n w ↔ ¬ (s.tag.connPhase = some .command ∧ Nonempty (Trial R S s)))) := by
  intro n w
  have hout : Outcome n _ _ w := outcome_authenticate hnew
  exact ⟨hout.numbers, fun C => hout.numbers.trans (hout.facts C)⟩

end Exchange

theorem short_of_length_lt {m : Message} (h : m.2.length < 200) : Short m := h.trans (by decide)

/-- The handshake response of the example as the proxy passes it on. -/
def rewritten : Packet := hello helloCaps ++ unKnowPlugin ++ [0]

theorem short_examples : ∀ p ∈ [initialHandshakePacket Setup.plain, hello helloCaps, rewritten, [0xfe], [7],
    [10], okVerdict.2], ∀ q, Short (q, p) := by
  have hlen : ∀ p ∈ [initialHandshakePacket Setup.plain, hello helloCaps, rewritten, [0xfe], [7],
    [10], okVerdict.2], p.length < 200 := by decide +kernel
  exact fun p hp q => short_of_length_lt (hlen p hp)

/-- A first authentication: both links count from 0 to 4. -/
theorem authenticate_numbers_newcomer :
    Disciplined 0
      ((authenticate (net (switchThen [okVerdict])) Setup.plain).run (newcomer [7])).2.conn.net := by
  have hcl : ((authenticate (net (switchThen [okVerdict])) Setup.plain).run
      (newcomer [7])).2.conn.net.clientLink =
    [⟨true, (0, initialHandshakePacket Setup.plain)⟩, ⟨false, (1, hello helloCaps)⟩,
      ⟨true, (2, [0xfe])⟩, ⟨false, (3, [7])⟩, ⟨true, (4, okVerdict.2)⟩] := rfl
  have hbl : ((authenticate (net (switchThen [okVerdict])) Setup.plain).run
      (newcomer [7])).2.conn.net.backendLink =
    [⟨false, (0, [10])⟩, ⟨true, (1, rewritten)⟩, ⟨false, (2, [0xfe])⟩, ⟨true, (3, [7])⟩,
      ⟨false, (4, okVerdict.2)⟩] := by decide +kernel
  have hshort := short_examples
  simp only [List.forall_mem_cons, List.not_mem_nil, false_imp_iff, implies_true, and_true] at hshort
  have hnum := (authenticate_numbers (R := switchThen [okVerdict]) (S := Setup.plain) (s := newcomer [7])
    rfl).2
  refine (hnum ?_).mpr fun H => absurd H.1 (by decide)
  rw [show (newcomer [7]).conn.net.backendLink.length = 0 from rfl]
  constructor
  · rw [hcl]
    simp [numbered_cons_of_short, hshort]
  · rw [hbl]
    simp [numbered_cons_of_short, hshort]
  · rw [hcl]
    simp [hshort]
  · rw [hbl]
    simp [hshort]

/-- A reused connection, and a client with the same packets as before. -/
def regular : Pooled World :=
  ⟨.newConnLifeCycle [117] .command,
    ⟨0, 0, ⟨[(1, hello helloCaps), (3, [7])], none, none, [], .command, 0, [], []⟩⟩⟩

/-- A backend that has greeted before. -/
def switchAgain : Respond
  | [_] => ⟨[(1, [0xfe])], false⟩
  | [_, _] => ⟨[(3, okVerdict.2)], false⟩
  | _ => ⟨[], false⟩

/-- On a reused connection the verdict has the number 3 on both links. -/
theorem authenticate_numbers_regular :
    let w := ((authenticate (net switchAgain) Setup.plain).run regular).2.conn.net
    Conforming 0 w ∧ ¬ Disciplined 0 w := by
  intro w
  have hcl : w.clientLink =
    [⟨true, (0, initialHandshakePacket Setup.plain)⟩, ⟨false, (1, hello helloCaps)⟩,
      ⟨true, (2, [0xfe])⟩, ⟨false, (3, [7])⟩, ⟨true, (3, okVerdict.2)⟩] := rfl
  have hbl : w.backendLink =
    [⟨true, (0, [0x11, 117, 0, 0, 0])⟩, ⟨false, (1, [0xfe])⟩, ⟨true, (2, [7])⟩,
      ⟨false, (3, okVerdict.2)⟩] := rfl
  have hshort := short_examples
  simp only [List.forall_mem_cons, List.not_mem_nil, false_imp_iff, implies_true, and_true] at hshort
  have huser : Short (0, [0x11, 117, 0, 0, 0]) := short_of_length_lt (by decide)
  refine ⟨⟨?_, ?_, ?_, ?_⟩, fun hD => ?_⟩
  · rw [hcl]
    simp [numbered_cons_of_short, hshort]
  · rw [hbl]
    simp [numbered_cons_of_short, hshort, huser]
  · rw [hcl]
    simp [hshort]
  · rw [hbl]
    simp [hshort, huser]
  · have hclient := hD.1
    rw [hcl] at hclient
    simp [numbered_cons_of_short, hshort] at hclient

end Haentgl.Server.Numbers
