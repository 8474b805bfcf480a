import Haentgl.Cp.ActiveUsers
import Haentgl.Lib.Batches

/-! # The stream of active users

For every request of the control plane the service freezes the window and sends what it has got: one
response without users if there were none, and otherwise a response for every `DEFAULT_CHUNK_SIZE` of
them, with their whole number in its header. The responses of all requests go one behind the other into
one stream.

The numbers in the headers are enough to put the groups of the requests together again
(`serve_reassembled`), also for a receiver that has gone away in the middle; the service does not notice
that at once and goes on to freeze groups that nobody gets (`serve_gone`). Together with the window:
what users do is in a map, was replaced by something newer of the same user, or reaches the control
plane (`stream_kept`). -/

namespace Haentgl.Cp.Target

open Haentgl.Lib.Runs Haentgl.Lib.Batches Haentgl.Cp.ActiveUsers

def defaultChunkSize : ℕ := 15

/-- `PacketType::ActiveUser`. -/
def packetTypeActiveUser : ℕ := 1

structure PacketHeader where
  packetType : ℕ
  packageCount : ℕ
  sizePrePackage : ℕ
  size : ℕ
  deriving DecidableEq, Repr

structure ControlPlaneResponse where
  header : Option PacketHeader
  packetData : Option (List UserCom)
  deriving DecidableEq, Repr

/-- The stream: what has been sent, and how many sends will still succeed, `none` for a receiver that
stays. A send succeeds as long as the receiver is there, whether or not it has taken what was sent before:
the channel buffers fifteen responses, and the sender waits for room. -/
structure Channel where
  sent : List ControlPlaneResponse
  room : Option ℕ
  deriving DecidableEq, Repr

/-- `tx.send`: whether the receiver is there, and the stream behind it. -/
def Channel.send (ch : Channel) (r : ControlPlaneResponse) : Bool × Channel :=
  if ch.room = some 0 then (false, ch) else (true, ⟨ch.sent ++ [r], ch.room.map (· - 1)⟩)

def noneActiveUsers : ControlPlaneResponse := ⟨some ⟨packetTypeActiveUser, 0, 0, 0⟩, none⟩

/-- The response for a batch. -/
def batchResponse (header : PacketHeader) (batch : List UserCom) : ControlPlaneResponse :=
  ⟨some { header with size := batch.length % 2 ^ 32 }, some batch⟩

/-- The inner loop; it is left at the first response that cannot be sent. -/
def sendBatches (header : PacketHeader) : List (List UserCom) → Channel → Channel
  | [], ch => ch
  | batch :: rest, ch =>
    match ch.send (batchResponse header batch) with
    | (true, ch) => sendBatches header rest ch
    | (false, ch) => ch

def groupHeader (totalSize : ℕ) : PacketHeader :=
  ⟨packetTypeActiveUser, totalSize % 2 ^ 32, defaultChunkSize, 0⟩

/-- `active_users`, for the results of the freezes that the requests would make: how many it makes, and
the stream. -/
def serve : List (List UserCom) → Channel → ℕ × Channel
  | [], ch => (0, ch)
  | activeUsers :: requests, ch =>
    if activeUsers = [] then
      match ch.send noneActiveUsers with
      | (true, ch) => ((serve requests ch).1 + 1, (serve requests ch).2)
      | (false, ch) => (1, ch)
    else
      let ch := sendBatches (groupHeader activeUsers.length) (batches defaultChunkSize activeUsers) ch
      ((serve requests ch).1 + 1, (serve requests ch).2)

/-! ### The responses -/

/-- The responses for one group. -/
def responses (g : List UserCom) : List ControlPlaneResponse :=
  if g = [] then [noneActiveUsers]
  else (batches defaultChunkSize g).map (batchResponse (groupHeader g.length))

/-- What a receiver goes by: the number of users in the header, and the users. -/
def partOf (r : ControlPlaneResponse) : Portion UserCom :=
  (((r.header.map PacketHeader.packageCount).getD 0), r.packetData.getD [])

section Serve
variable {ch : Channel} {gs : List (List UserCom)}

/-- What the receiver takes of `rs`. -/
def Channel.push (ch : Channel) (rs : List ControlPlaneResponse) : Channel :=
  match ch.room with
  | none => ⟨ch.sent ++ rs, none⟩
  | some n => ⟨ch.sent ++ rs.take n, some (n - rs.length)⟩

theorem push_nil (ch : Channel) : ch.push [] = ch := by
  rcases ch with ⟨sent, _ | n⟩ <;> simp [Channel.push]

theorem push_push (ch : Channel) (rs qs : List ControlPlaneResponse) :
    (ch.push rs).push qs = ch.push (rs ++ qs) := by
  rcases ch with ⟨sent, _ | n⟩
  · simp [Channel.push]
  · simp only [Channel.push, List.take_append, List.append_assoc, List.length_append]
    congr 2
    omega

theorem send_eq (ch : Channel) (r : ControlPlaneResponse) :
    (ch.send r).2 = ch.push [r] ∧ ((ch.send r).1 = false ↔ ch.room = some 0) := by
  rcases ch with ⟨sent, _ | _ | n⟩ <;> simp [Channel.send, Channel.push]

theorem push_of_gone (h : ch.room = some 0) (rs : List ControlPlaneResponse) : ch.push rs = ch := by
  rcases ch with ⟨sent, room⟩
  subst h
  simp [Channel.push]

theorem sendBatches_eq (header : PacketHeader) : ∀ (bs : List (List UserCom)) (ch : Channel),
    sendBatches header bs ch = ch.push (bs.map (batchResponse header))
  | [], ch => (push_nil ch).symm
  | b :: bs, ch => by
    obtain ⟨hpush, hgone⟩ := send_eq ch (batchResponse header b)
    rw [sendBatches]
    rcases hs : ch.send (batchResponse header b) with ⟨_ | _, ch'⟩
    · rw [hs] at hpush hgone
      have h0 := hgone.mp rfl
      rw [push_of_gone h0] at hpush ⊢
      exact hpush
    · rw [hs] at hpush
      rw [List.map_cons, ← List.singleton_append, ← push_push, ← hpush]
      exact sendBatches_eq header bs ch'

/-- **The stream.** The receiver takes the responses of the groups, one behind the other, as long as it is
there. -/
theorem serve_channel : ∀ (gs : List (List UserCom)) (ch : Channel),
    (serve gs ch).2 = ch.push (gs.flatMap responses)
  | [], ch => (push_nil ch).symm
  | g :: gs, ch => by
    rw [serve, List.flatMap_cons]
    by_cases hg : g = []
    · have hresponses : responses g = [noneActiveUsers] := if_pos hg
      rw [if_pos hg, hresponses]
      obtain ⟨hpush, hgone⟩ := send_eq ch noneActiveUsers
      rcases hs : ch.send noneActiveUsers with ⟨_ | _, ch'⟩
      · rw [hs] at hpush hgone
        have h0 := hgone.mp rfl
        rw [push_of_gone h0] at hpush ⊢
        exact hpush
      · rw [hs] at hpush
        rw [← push_push, ← hpush]
        exact serve_channel gs ch'
    · have hresponses : responses g =
          (batches defaultChunkSize g).map (batchResponse (groupHeader g.length)) := if_neg hg
      rw [if_neg hg, hresponses, ← push_push, ← sendBatches_eq]
      exact serve_channel gs _

theorem map_partOf {g : List UserCom} (h : g.length < 2 ^ 32) :
    (responses g).map partOf = parts defaultChunkSize g := by
  rw [responses, parts]
  split_ifs
  · rfl
  · rw [List.map_map]
    refine List.map_congr_left fun b _ => ?_
    simpa [partOf, batchResponse, groupHeader] using h

theorem map_partOf_flatMap (h : ∀ g ∈ gs, g.length < 2 ^ 32) :
    (gs.flatMap responses).map partOf = gs.flatMap (parts defaultChunkSize) := by
  rw [List.map_flatMap]
  exact List.flatMap_congr fun g hg => map_partOf (h g hg)

theorem reassemble_responses (h : ∀ g ∈ gs, g.length < 2 ^ 32) :
    reassemble [] ((gs.flatMap responses).map partOf) = gs := by
  rw [map_partOf_flatMap h]
  exact reassemble_parts (by decide) gs

theorem reassembled (room : Option ℕ) (h : ∀ g ∈ gs, g.length < 2 ^ 32) (hroom : room = none) :
    reassemble [] ((serve gs ⟨[], room⟩).2.sent.map partOf) = gs := by
  subst hroom
  rw [serve_channel]
  exact reassemble_responses h

/-- **The groups are put together again** from the responses that a receiver has taken: all of them if it
stays, and otherwise the first ones. -/
theorem serve_reassembled (room : Option ℕ) (h : ∀ g ∈ gs, g.length < 2 ^ 32) :
    reassemble [] ((serve gs ⟨[], room⟩).2.sent.map partOf) <+: gs ∧
      (room = none → reassemble [] ((serve gs ⟨[], room⟩).2.sent.map partOf) = gs) := by
  refine ⟨?_, reassembled room h⟩
  rcases room with _ | n
  · rw [reassembled none h rfl]
  · have hpre := reassemble_leading (((gs.flatMap responses).take n).map partOf)
      (((gs.flatMap responses).drop n).map partOf) []
    rw [← List.map_append, List.take_append_drop, reassemble_responses h] at hpre
    rwa [serve_channel]

theorem serve_empty (gs : List (List UserCom)) (ch : Channel) : (serve ([] :: gs) ch).1 =
    if ch.room = some 0 then 1 else (serve gs (ch.push (responses []))).1 + 1 := by
  obtain ⟨hpush, hgone⟩ := send_eq ch noneActiveUsers
  rw [serve, if_pos rfl]
  rcases hs : ch.send noneActiveUsers with ⟨_ | _, ch'⟩
  · rw [hs] at hgone
    rw [if_pos (hgone.mp rfl)]
  · rw [hs] at hpush hgone
    rw [if_neg fun h0 => absurd (hgone.mpr h0) (by simp)]
    simp only [responses, if_true, ← hpush]

theorem serve_group {g : List UserCom} (hg : g ≠ []) (gs : List (List UserCom)) (ch : Channel) :
    (serve (g :: gs) ch).1 = (serve gs (ch.push (responses g))).1 + 1 := by
  have hresponses : responses g =
      (batches defaultChunkSize g).map (batchResponse (groupHeader g.length)) := if_neg hg
  rw [serve, if_neg hg, hresponses, ← sendBatches_eq]

/-- Seventeen users, nobody, and one. -/
def sampleGroups : List (List UserCom) := [List.replicate 17 (sampleCom 1), [], [sampleCom 2]]

theorem serve_reassembled_sample : (serve sampleGroups ⟨[], none⟩).2.sent.length = 4 ∧
    reassemble [] ((serve sampleGroups ⟨[], none⟩).2.sent.map partOf) = sampleGroups :=
  ⟨by decide, (@serve_reassembled sampleGroups none (by decide)).2 rfl⟩

/-- The service has noticed at the request `j` that the receiver, who takes `n` responses, has gone. -/
def Noticed (n : ℕ) (gs : List (List UserCom)) (j : ℕ) : Prop :=
  gs[j]? = some [] ∧ n ≤ ((gs.take j).flatMap responses).length

instance (n : ℕ) (gs : List (List UserCom)) (j : ℕ) : Decidable (Noticed n gs j) :=
  inferInstanceAs (Decidable (_ ∧ _))

theorem noticed_succ {n j : ℕ} {g : List UserCom} :
    Noticed n (g :: gs) (j + 1) ↔ Noticed (n - (responses g).length) gs j := by
  simp only [Noticed, List.getElem?_cons_succ, List.take_succ_cons, List.flatMap_cons, List.length_append]
  exact and_congr_right fun _ => by omega

theorem serve_count : ∀ (gs : List (List UserCom)) (sent : List ControlPlaneResponse) (n : ℕ),
    ((∃ j, (serve gs ⟨sent, some n⟩).1 = j + 1 ∧ Noticed n gs j) ∨
      (serve gs ⟨sent, some n⟩).1 = gs.length) ∧ ∀ j, Noticed n gs j → (serve gs ⟨sent, some n⟩).1 ≤ j + 1
  | [], _, _ => ⟨Or.inr rfl, fun j hj => Nat.zero_le _⟩
  | g :: gs, sent, n => by
    by_cases hend : g = [] ∧ n = 0
    · obtain ⟨rfl, rfl⟩ := hend
      rw [serve_empty, if_pos rfl]
      exact ⟨Or.inl ⟨0, rfl, rfl, Nat.zero_le _⟩, fun j _ => by omega⟩
    have hcount : (serve (g :: gs) ⟨sent, some n⟩).1 =
        (serve gs ⟨sent ++ (responses g).take n, some (n - (responses g).length)⟩).1 + 1 := by
      by_cases hg : g = []
      · subst hg
        rw [serve_empty, if_neg fun h => hend ⟨rfl, Option.some.inj h⟩]
        rfl
      · exact serve_group hg gs _
    obtain ⟨hstop, hleast⟩ := serve_count gs (sent ++ (responses g).take n) (n - (responses g).length)
    rw [hcount]
    refine ⟨?_, fun j hj => ?_⟩
    · rcases hstop with ⟨j, hj, hnoticed⟩ | hall
      · exact Or.inl ⟨j + 1, by rw [hj], noticed_succ.mpr hnoticed⟩
      · exact Or.inr (by rw [hall, List.length_cons])
    · rcases j with _ | j
      · obtain ⟨hget, hle⟩ := hj
        exact absurd ⟨Option.some.inj hget, Nat.le_zero.mp hle⟩ hend
      · have := hleast j (noticed_succ.mp hj)
        omega

/-- **A receiver that goes away** after `n` responses has these and no more. The service makes a freeze
for every request up to the first one at which it finds no users and nobody to tell so, and ends there;
if there is no such request it serves them all. -/
theorem serve_gone (gs : List (List UserCom)) (n : ℕ) :
    (serve gs ⟨[], some n⟩).2.sent = (gs.flatMap responses).take n ∧
      (∀ j, Noticed n gs j → (∀ i < j, ¬ Noticed n gs i) → (serve gs ⟨[], some n⟩).1 = j + 1) ∧
      ((∀ j, ¬ Noticed n gs j) → (serve gs ⟨[], some n⟩).1 = gs.length) := by
  obtain ⟨hstop, hleast⟩ := serve_count gs [] n
  refine ⟨by rw [serve_channel]; rfl, fun j hj hfirst => ?_, fun hnone => ?_⟩
  · have hle := hleast j hj
    rcases hstop with ⟨i, hi, hnoticed⟩ | hall
    · rcases Nat.lt_or_ge i j with hij | hij
      · exact absurd hnoticed (hfirst i hij)
      · omega
    · have hlt : j < gs.length := (List.getElem?_eq_some_iff.mp hj.1).1
      omega
  · rcases hstop with ⟨i, -, hnoticed⟩ | hall
    · exact absurd hnoticed (hnone i)
    · exact hall

end Serve

/-- A receiver that goes away after the first response: the service learns it at the second request. -/
theorem serve_gone_sample : (serve sampleGroups ⟨[], some 1⟩).1 = 2 := by
  refine (serve_gone sampleGroups 1).2.1 1 (by decide) fun i hi => ?_
  obtain rfl : i = 0 := by omega
  decide

/-! ### The window and its streams -/

/-- The window, and for every stream the results of its freezes. -/
structure State (T : Type) where
  window : ActiveUsers.State T
  polls : T → List (List Record)

section System
variable {T : Type} [DecidableEq T] (userComHash : UserCom → UInt64)

/-- The freeze that has its result with a step of the window: its snapshot, or nothing if another freeze
was faster. -/
def polled (s : ActiveUsers.State T) : Act T → Option (T × List Record)
  | .snapshot t =>
    match s.freeze t with
    | .switched curr => some (t, records (s.table curr))
    | _ => none
  | .compareExchange t =>
    match s.freeze t with
    | .loaded curr => if s.activeIdx = curr then none else some (t, [])
    | _ => none
  | _ => none

def step (s : State T) (a : Act T) : Option (State T) :=
  (ActiveUsers.step userComHash s.window a).map fun w =>
    ⟨w, match polled s.window a with
      | some (t, g) => Function.update s.polls t (s.polls t ++ [g])
      | none => s.polls⟩

def system : System (State T) (Act T) := ⟨⟨ActiveUsers.init, fun _ => []⟩, step userComHash⟩

variable {userComHash} {s s' : State T} {a : Act T} {as : List (Act T)}

theorem step_eq_some (h : step userComHash s a = some s') :
    ActiveUsers.step userComHash s.window a = some s'.window ∧
      s'.polls = match polled s.window a with
        | some (t, g) => Function.update s.polls t (s.polls t ++ [g])
        | none => s.polls := by
  obtain ⟨w, hw, rfl⟩ := Option.map_eq_some_iff.mp h
  exact ⟨hw, rfl⟩

/-- A snapshot is the result of a freeze. -/
theorem returned_of_step {w w' : ActiveUsers.State T} (h : ActiveUsers.step userComHash w a = some w') :
    w'.returned = w.returned ∨ ∃ t g, polled w a = some (t, g) ∧ w'.returned = w.returned ++ [g] := by
  cases a with
  | snapshot t =>
    rcases hf : w.freeze t with _ | c | c | c | ⟨c, i⟩ <;> simp only [ActiveUsers.step, hf, reduceCtorEq] at h
    obtain rfl := Option.some.inj h
    exact Or.inr ⟨t, _, by simp only [polled, hf], rfl⟩
  | _ =>
    refine Or.inl ?_
    simp only [ActiveUsers.step] at h
    split at h
    all_goals try split_ifs at h
    all_goals first
      | (obtain rfl := Option.some.inj h; rfl)
      | cases h

/-- Every snapshot is in the results of some stream. -/
def Streamed (s : State T) : Prop := ∀ f ∈ s.window.returned, ∃ t, f ∈ s.polls t

theorem streamed_step (hs : Streamed s) (h : step userComHash s a = some s') : Streamed s' := by
  obtain ⟨hw, hpolls⟩ := step_eq_some h
  have hold : ∀ f, (∃ t, f ∈ s.polls t) → ∃ t, f ∈ s'.polls t := by
    rintro f ⟨t, hf⟩
    refine ⟨t, ?_⟩
    rw [hpolls]
    rcases polled s.window a with _ | ⟨u, g⟩
    · exact hf
    · by_cases htu : t = u
      · subst htu
        simp [hf]
      · simpa [Function.update_of_ne htu] using hf
  intro f hf
  rcases returned_of_step hw with hret | ⟨t, g, hpolled, hret⟩
  · exact hold f (hs f (hret ▸ hf))
  · rw [hret] at hf
    rcases List.mem_append.mp hf with hf | hf
    · exact hold f (hs f hf)
    · obtain rfl := List.mem_singleton.mp hf
      refine ⟨t, ?_⟩
      rw [hpolls, hpolled]
      simp

/-- A run of the window and its streams is a run of the window. -/
theorem run_window (h : (system userComHash).run as = some s) :
    (ActiveUsers.system userComHash).run as = some s.window := by
  refine System.induction (motive := fun as s =>
    (ActiveUsers.system userComHash).run as = some (State.window s)) rfl ?_ h
  intro as s a s' _ ih hstep
  exact System.run_snoc_eq_some.mpr ⟨_, ih, (step_eq_some hstep).1⟩

/-- The users of the results of a stream, as its receiver puts them together. -/
def heard (polls : List (List Record)) : List (List UserCom) :=
  reassemble [] ((serve (polls.map (List.map Record.userCom)) ⟨[], none⟩).2.sent.map partOf)

/-- **From the window to the control plane.** In a run whose freezes stay apart and whose records do not
go into a map that is being drained, with any number of streams whose receivers stay, every record that
has been put is still in one of the maps, has been replaced by a newer one, or is in a group that a
receiver puts together. -/
theorem stream_kept (hap : (ActiveUsers.system userComHash).Every Apart as)
    (h : (system userComHash).run as = some s) (hlen : ∀ t, ∀ g ∈ s.polls t, g.length < 2 ^ 32) :
    ∀ r ∈ s.window.puts, (∃ i, r ∈ records (s.window.table i)) ∨ r ∈ s.window.overwritten ∨
      ∃ t, ∃ g ∈ heard (s.polls t), r.userCom ∈ g := by
  have hkept : Kept s.window := by
    have hinv := System.invariant_of_every inv_init (fun _ _ _ => inv_step) hap (run_window h)
    exact hinv.kept_state
  have hstreamed : Streamed s := by
    refine System.invariant (I := Streamed) ?_ (fun _ _ _ => streamed_step) h
    intro f hf
    cases hf
  intro r hr
  rcases hkept.kept r hr with hmap | ⟨f, hf, hrf⟩ | hover
  · exact Or.inl hmap
  · obtain ⟨t, ht⟩ := hstreamed f hf
    refine Or.inr (Or.inr ⟨t, f.map Record.userCom, ?_, List.mem_map_of_mem hrf⟩)
    have hlen' : ∀ g ∈ (s.polls t).map (List.map Record.userCom), g.length < 2 ^ 32 := by
      intro g hg
      obtain ⟨f', hf', rfl⟩ := List.mem_map.mp hg
      rw [List.length_map]
      exact hlen t f' hf'
    rw [heard, reassembled none hlen' rfl]
    exact List.mem_map_of_mem ht
  · exact Or.inr (Or.inl hover)

end System

/-- Two streams; the records of the first freeze reach the first of them. -/
theorem stream_kept_apart : ∃ s, (system sampleHash).run apartRun = some s ∧
    s.window.puts = [⟨0, sampleCom 1⟩, ⟨1, sampleCom 2⟩] ∧
    heard (s.polls false) = [[sampleCom 1]] ∧
    ∀ r ∈ s.window.puts, (∃ i, r ∈ records (s.window.table i)) ∨ r ∈ s.window.overwritten ∨
      ∃ t, ∃ g ∈ heard (s.polls t), r.userCom ∈ g := by
  have hap : (ActiveUsers.system sampleHash).Every Apart apartRun := System.every_of_everyFrom (by decide)
  exact ⟨_, rfl, by decide, by decide, stream_kept hap rfl (by decide)⟩

end Haentgl.Cp.Target
