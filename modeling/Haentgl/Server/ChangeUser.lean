import Haentgl.Server.Lifecycle
import Haentgl.Server.Readings

/-! # Who decides a change of the user

Behind a `COM_CHANGE_USER` the backend asks the client any number of times and then agrees or refuses.
`Exchange` describes such a run of the two parties, whatever the client answers. The forwarder also tests
the answers, which are hashes, for the header of an ERR packet: `changeUser_decided_iff` says that the
backend alone decides if and only if no answer starts with that byte. -/

namespace Haentgl.Server.ChangeUser

open Haentgl.Lib.Parse Haentgl.Lib.Program Haentgl.Protocol.Constants Haentgl.Protocol.Io
open Haentgl.Protocol.Packets Haentgl.Protocol.Basic Haentgl.Server.Links Haentgl.Server.Forwarders
open Haentgl.Server.Parties Haentgl.Server.Responses Haentgl.Server.Lifecycle Haentgl.Server.Readings

/-- A packet that asks the client, and the client's answer. -/
abbrev Round := Message × Message

/-- The backend asks, the client answers, and the backend agrees or refuses in the end. -/
def Exchange (R : Respond) : List Round → Message → World → Prop
  | [], final, w => w.inbox.head? = some final ∧ (isOkPacket final.2 = true ∨ isErrPacket final.2 = true)
  | (x, a) :: rs, final, w => w.inbox.head? = some x ∧ IsSwitch x.2 ∧ w.toCome.head? = some a ∧
    ¬ w.Reset ∧ Exchange R rs final ((((w.take x).deliver x).hear a).receive R a)

/-- What the last packet of the backend means. -/
def outcome (final : Message) : Except Stop (Option Packet) :=
  if isErrPacket final.2 then .error (.io ⟨.permissionDenied, "Error packet from backend"⟩)
  else .ok (some final.2)

/-- All packets went over both links, in their order. -/
structure Exchanged (rs : List Round) (final : Message) (c c' : Conn World) : Prop where
  clientLink : c'.net.clientLink =
    c.net.clientLink ++ rs.flatMap (fun r => [⟨true, r.1⟩, ⟨false, r.2⟩]) ++ [⟨true, final⟩]
  backendLink : c'.net.backendLink =
    c.net.backendLink ++ rs.flatMap (fun r => [⟨false, r.1⟩, ⟨true, r.2⟩]) ++ [⟨false, final⟩]

/-- No answer starts like an ERR packet. -/
def PlainAnswers (rs : List Round) : Prop := ∀ r ∈ rs, isErrPacket r.2.2 = false

instance (rs : List Round) : Decidable (PlainAnswers rs) := by unfold PlainAnswers; infer_instance

/-- If the last packet of the backend is an ERR packet the other crate understands it. -/
def Readable (mc : MysqlCommon) (caps : CapabilityFlags) (final : Message) : Prop :=
  isErrPacket final.2 = true → (mc.errPacket caps final.2).isSome = true

/-- The state behind a row of questions and answers. -/
def exchanged (R : Respond) (rs : List Round) (c : Conn World) : Conn World :=
  rs.foldl (fun c r => exchangedOne R c r.1 r.2) c

theorem exchanged_links (R : Respond) : ∀ (rs : List Round) (c : Conn World),
    (exchanged R rs c).net.clientLink =
        c.net.clientLink ++ rs.flatMap (fun r => [⟨true, r.1⟩, ⟨false, r.2⟩]) ∧
      (exchanged R rs c).net.backendLink =
        c.net.backendLink ++ rs.flatMap (fun r => [⟨false, r.1⟩, ⟨true, r.2⟩])
  | [], c => by simp [exchanged]
  | (x, a) :: rs, c => by
    obtain ⟨h1, h2⟩ := exchanged_links R rs (exchangedOne R c x a)
    have hclient : (exchangedOne R c x a).net.clientLink =
        c.net.clientLink ++ [⟨true, x⟩] ++ [⟨false, a⟩] := rfl
    have hbackend : (exchangedOne R c x a).net.backendLink =
        c.net.backendLink ++ [⟨false, x⟩] ++ [⟨true, a⟩] := rfl
    rw [hclient] at h1
    rw [hbackend] at h2
    refine ⟨h1.trans ?_, h2.trans ?_⟩ <;> simp

theorem exchanged_relayOne (R : Respond) (rs : List Round) (final : Message) (c : Conn World) :
    Exchanged rs final c (relayOne (exchanged R rs c) final) := by
  obtain ⟨h1, h2⟩ := exchanged_links R rs c
  refine ⟨?_, ?_⟩
  · rw [← h1]
    rfl
  · rw [← h2]
    rfl

section Runs
variable {R : Respond} (mc : MysqlCommon) (h : HandshakeResponse)

theorem changeUserRound_final {final : Message} {c : Conn World} (hin : c.net.inbox.head? = some final)
    (hfinal : isOkPacket final.2 = true ∨ isErrPacket final.2 = true) (hw : c.net.writesLeft = none)
    (n : ℕ) : (changeUserForward (net R) mc (n + 1) h).run c =
      (if isErrPacket final.2 = true ∧ (mc.errPacket h.clientFlag final.2).isSome = false then
        .error .panic else outcome final, relayOne c final) := by
  obtain ⟨xs, hin⟩ := List.head?_eq_some_iff.mp hin
  have hround := changeUserRound_read R mc h hin (by simp [hw])
  by_cases herr : isErrPacket final.2 = true
  · rw [if_pos herr] at hround
    rcases hmsg : mc.errPacket h.clientFlag final.2 with _ | msg
    · simp only [parseErrPacket, hmsg, orPanic] at hround
      rw [if_pos ⟨herr, rfl⟩]
      exact Proc.loop_stop hround
    · simp only [parseErrPacket, hmsg, orPanic, pure_bind] at hround
      rw [if_neg (by simp), outcome, if_pos herr]
      exact Proc.loop_stop hround
  · rw [if_neg herr, if_pos (hfinal.resolve_right herr)] at hround
    rw [if_neg (fun hs => herr hs.1), outcome, if_neg herr]
    exact Proc.loop_break hround

theorem changeUserForward_again {x a : Message} {rs : List Round} {final : Message} {c : Conn World}
    (hex : Exchange R ((x, a) :: rs) final c.net) (hw : c.net.writesLeft = none)
    (ha : isErrPacket a.2 = false) (n : ℕ) :
    (changeUserForward (net R) mc (n + 1) h).run c =
        (changeUserForward (net R) mc n h).run (exchangedOne R c x a) ∧
      (exchangedOne R c x a).net.writesLeft = none := by
  obtain ⟨hin, hx, htc, hph, -⟩ := hex
  obtain ⟨xs, hin⟩ := List.head?_eq_some_iff.mp hin
  obtain ⟨as, htc⟩ := List.head?_eq_some_iff.mp htc
  have hround : (changeUserRound (net R) mc h ()).run c = (.ok (.inl ()), exchangedOne R c x a) :=
    changeUserRound_again hin (by simp [hw]) hx.1 hx.2 htc ha hph
  refine ⟨Proc.loop_again hround, ?_⟩
  change c.net.writesLeft.map (· - 1) = none
  rw [hw]
  rfl

/-- **The exchange**, as long as no answer starts like an ERR packet. -/
theorem run_exchange {final : Message} : ∀ (rs : List Round) (rounds : ℕ) (c : Conn World),
    Exchange R rs final c.net → c.net.writesLeft = none → PlainAnswers rs → rs.length < rounds →
    (changeUserForward (net R) mc rounds h).run c =
      (if isErrPacket final.2 = true ∧ (mc.errPacket h.clientFlag final.2).isSome = false then
        .error .panic else outcome final, relayOne (exchanged R rs c) final)
  | [], n + 1, c, ⟨hin, hfinal⟩, hw, _, _ => changeUserRound_final mc h hin hfinal hw n
  | (x, a) :: rs, n + 1, c, hex, hw, hplain, hr => by
    obtain ⟨hrun, hw'⟩ := changeUserForward_again mc h hex hw (hplain (x, a) (by simp)) n
    rw [hrun]
    exact run_exchange rs n (exchangedOne R c x a) hex.2.2.2.2 hw' (fun r hr => hplain r (by simp [hr]))
      (by simpa using hr)

/-- The forwarder stops because of an answer of the client. -/
def Refused (e : Stop) : Prop := e = .panic ∨ e = .io ⟨.permissionDenied, "Error packet from client"⟩

theorem Refused.ne_outcome {e : Stop} (he : Refused e) (final : Message) : .error e ≠ outcome final := by
  unfold outcome
  rcases he with rfl | rfl <;> split_ifs <;> simp

theorem changeUserForward_stops {x a : Message} {rs : List Round} {final : Message} {c : Conn World}
    (hex : Exchange R ((x, a) :: rs) final c.net) (hw : c.net.writesLeft = none)
    (ha : isErrPacket a.2 = true) (n : ℕ) :
    ∃ e, ((changeUserForward (net R) mc (n + 1) h).run c).1 = .error e ∧ Refused e := by
  obtain ⟨hin, hx, htc, hph, -⟩ := hex
  obtain ⟨xs, hin⟩ := List.head?_eq_some_iff.mp hin
  obtain ⟨as, htc⟩ := List.head?_eq_some_iff.mp htc
  have hround := changeUserRound_answer R mc h hin (by simp [hw]) hx.1 hx.2 htc hph
  rw [if_pos ha] at hround
  rcases hmsg : mc.errPacket h.clientFlag a.2 with _ | msg
  · simp only [parseErrPacket, hmsg, orPanic] at hround
    rw [changeUserForward, Proc.loop_stop hround]
    exact ⟨.panic, rfl, .inl rfl⟩
  · simp only [parseErrPacket, hmsg, orPanic, pure_bind] at hround
    rw [changeUserForward, Proc.loop_stop hround]
    exact ⟨_, rfl, .inr rfl⟩

theorem run_exchange_refused {final : Message} : ∀ (rs : List Round) (rounds : ℕ) (c : Conn World),
    Exchange R rs final c.net → c.net.writesLeft = none → ¬ PlainAnswers rs → rs.length < rounds →
    ∃ e, ((changeUserForward (net R) mc rounds h).run c).1 = .error e ∧ Refused e
  | [], _, _, _, _, hplain, _ => absurd (fun _ hr => absurd hr List.not_mem_nil) hplain
  | (x, a) :: rs, n + 1, c, hex, hw, hplain, hr => by
    by_cases ha : isErrPacket a.2 = true
    · exact changeUserForward_stops mc h hex hw ha n
    · have ha' : isErrPacket a.2 = false := by simpa using ha
      obtain ⟨hrun, hw'⟩ := changeUserForward_again mc h hex hw ha' n
      have hplain' : ¬ PlainAnswers rs := fun hs => hplain (List.forall_mem_cons.mpr ⟨ha', hs⟩)
      rw [hrun]
      exact run_exchange_refused rs n (exchangedOne R c x a) hex.2.2.2.2 hw' hplain' (by simpa using hr)

/-- The result is the backend's decision if and only if the answers let it through. -/
theorem changeUserForward_outcome_iff {rs : List Round} {final : Message} {c : Conn World} {rounds : ℕ}
    (hex : Exchange R rs final c.net) (hw : c.net.writesLeft = none) (hr : rs.length < rounds) :
    ((changeUserForward (net R) mc rounds h).run c).1 = outcome final ↔
      PlainAnswers rs ∧ Readable mc h.clientFlag final := by
  by_cases hplain : PlainAnswers rs
  · rw [run_exchange mc h rs rounds c hex hw hplain hr]
    refine ⟨fun hout => ⟨hplain, fun herr => ?_⟩, fun ⟨_, hread⟩ => ?_⟩
    · by_contra hnone
      rw [if_pos ⟨herr, by simpa using hnone⟩] at hout
      exact Refused.ne_outcome (.inl rfl) final hout
    · exact if_neg fun ⟨herr, hnone⟩ => by simp [hread herr] at hnone
  · obtain ⟨e, hrun, he⟩ := run_exchange_refused mc h rs rounds c hex hw hplain hr
    rw [hrun]
    exact ⟨fun hout => absurd hout (he.ne_outcome final), fun hs => absurd hs.1 hplain⟩

end Runs

/-- **A change of the user** is decided by the backend alone if and only if no answer of the client
starts like an ERR packet (and the backend's own ERR packet can be read): then all packets are relayed and
the backend's last packet is the outcome. With other answers the outcome is the same if and only if these
do not start like an ERR packet either. -/
theorem changeUser_decided_iff (R : Respond) (mc : MysqlCommon) (h : HandshakeResponse) (rs : List Round)
    (final : Message) (c : Conn World) (hex : Exchange R rs final c.net) (hw : c.net.writesLeft = none)
    (rounds : ℕ) (hr : rs.length < rounds) :
    ((∃ c', (changeUserForward (net R) mc rounds h).run c = (outcome final, c') ∧
        Exchanged rs final c c') ↔ PlainAnswers rs ∧ Readable mc h.clientFlag final) ∧
      (PlainAnswers rs ∧ Readable mc h.clientFlag final →
        ∀ (R' : Respond) (rs' : List Round) (d : Conn World), Exchange R' rs' final d.net →
          d.net.writesLeft = none → rs'.length < rounds →
          (((changeUserForward (net R) mc rounds h).run c).1 =
            ((changeUserForward (net R') mc rounds h).run d).1 ↔ PlainAnswers rs')) := by
  have hiff := changeUserForward_outcome_iff mc h hex hw hr
  refine ⟨⟨fun ⟨c', hrun, _⟩ => hiff.mp (by rw [hrun]), fun hs => ?_⟩, fun hs R' rs' d hex' hw' hr' => ?_⟩
  · refine ⟨relayOne (exchanged R rs c) final, ?_, exchanged_relayOne R rs final c⟩
    rw [Prod.ext_iff]
    exact ⟨hiff.mpr hs, by rw [run_exchange mc h rs rounds c hex hw hs.1 hr]⟩
  · rw [hiff.mpr hs, eq_comm, changeUserForward_outcome_iff mc h hex' hw' hr']
    exact ⟨fun hs' => hs'.1, fun hs' => ⟨hs', hs.2⟩⟩

/-- A backend that asks once more and then agrees. -/
def asksTwice : Respond
  | [_] => ⟨[(4, [0xfe, 0x61, 0])], false⟩
  | _ => ⟨[(6, [0, 0, 0, 2, 0, 0, 0])], false⟩

/-- The client of the exchange, with two answers. -/
def answering (a b : Message) : Conn World :=
  ⟨0, 0, ⟨[a, b], none, none, [(2, [0xfe, 0x62, 0])], .auth, 0, [], []⟩⟩

theorem changeUser_decided_twice :
    (∃ c', (changeUserForward (net asksTwice) .plain 3 (.bare .clientProtocol41)).run
        (answering (3, [1, 2]) (5, [7])) = (.ok (some [0, 0, 0, 2, 0, 0, 0]), c') ∧
      Exchanged [((2, [0xfe, 0x62, 0]), (3, [1, 2])), ((4, [0xfe, 0x61, 0]), (5, [7]))]
        (6, [0, 0, 0, 2, 0, 0, 0]) (answering (3, [1, 2]) (5, [7])) c') ∧
      ((changeUserForward (net asksTwice) .plain 3 (.bare .clientProtocol41)).run
        (answering (3, [1, 2]) (5, [7]))).1 =
      ((changeUserForward (net asksTwice) .plain 3 (.bare .clientProtocol41)).run
        (answering (3, [0]) (5, [0xfe]))).1 := by
  have hboth := changeUser_decided_iff asksTwice .plain (.bare .clientProtocol41)
    [((2, [0xfe, 0x62, 0]), (3, [1, 2])), ((4, [0xfe, 0x61, 0]), (5, [7]))] (6, [0, 0, 0, 2, 0, 0, 0])
    (answering (3, [1, 2]) (5, [7]))
    ⟨rfl, ⟨rfl, rfl⟩, rfl, by decide, rfl, ⟨rfl, rfl⟩, rfl, by decide, rfl, .inl rfl⟩ rfl 3 (by decide)
  have hgood : PlainAnswers [((2, [0xfe, 0x62, 0]), (3, [1, 2])), ((4, [0xfe, 0x61, 0]), (5, [7]))] ∧
      Readable .plain .clientProtocol41 (6, [0, 0, 0, 2, 0, 0, 0]) :=
    ⟨by decide, fun herr => absurd herr (by decide)⟩
  refine ⟨hboth.1.mpr hgood, ?_⟩
  exact (hboth.2 hgood asksTwice
    [((2, [0xfe, 0x62, 0]), (3, [0])), ((4, [0xfe, 0x61, 0]), (5, [0xfe]))] (answering (3, [0]) (5, [0xfe]))
    ⟨rfl, ⟨rfl, rfl⟩, rfl, by decide, rfl, ⟨rfl, rfl⟩, rfl, by decide, rfl, .inl rfl⟩ rfl (by decide)).mpr
    (by decide)

/-- A hash that starts with `0xff` is refused in the backend's place. -/
theorem changeUser_refused_hash :
    Exchange asksTwice [((2, [0xfe, 0x62, 0]), (3, 0xff :: List.replicate 19 1)),
        ((4, [0xfe, 0x61, 0]), (5, [7]))] (6, [0, 0, 0, 2, 0, 0, 0])
      (answering (3, 0xff :: List.replicate 19 1) (5, [7])).net ∧
    ¬ ∃ c', (changeUserForward (net asksTwice) .plain 3 (.bare .clientProtocol41)).run
        (answering (3, 0xff :: List.replicate 19 1) (5, [7])) =
      (outcome (6, [0, 0, 0, 2, 0, 0, 0]), c') := by
  have hex : Exchange asksTwice [((2, [0xfe, 0x62, 0]), (3, 0xff :: List.replicate 19 1)),
        ((4, [0xfe, 0x61, 0]), (5, [7]))] (6, [0, 0, 0, 2, 0, 0, 0])
      (answering (3, 0xff :: List.replicate 19 1) (5, [7])).net :=
    ⟨rfl, ⟨rfl, rfl⟩, rfl, by decide, rfl, ⟨rfl, rfl⟩, rfl, by decide, rfl, .inl rfl⟩
  refine ⟨hex, fun ⟨c', hrun⟩ => ?_⟩
  have hiff := changeUserForward_outcome_iff .plain (.bare .clientProtocol41) hex rfl
    (show 2 < 3 by decide)
  have hplain := (hiff.mp (by rw [hrun])).1
  exact absurd hplain (by decide)

end Haentgl.Server.ChangeUser
