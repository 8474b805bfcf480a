import Haentgl.Server.Auth
import Haentgl.Server.Tenants

/-! # From a client's first packet to a pool

What a client that is not authenticated can do to its session. Its packet goes through the parser of the
handshake response, the split of the user's name, the conversion of the tenant to a text, the decoder of
the key and the router; each of them panics on what it does not expect. A packet is `Acceptable` if it
has one of the shapes of a response and the user in it names a tenant about which the router decides, and
`login_iff` says that these are exactly the packets that do not panic. -/

namespace Haentgl.Server.Opening

open Haentgl.Lib.Parse Haentgl.Lib.Text Haentgl.Lib.Program Haentgl.Protocol.Constants
open Haentgl.Protocol.Io Haentgl.Protocol.Packets Haentgl.Protocol.Basic Haentgl.Protocol.Handshake
open Haentgl.Backend.Keys Haentgl.Backend.Manager Haentgl.Server.Links Haentgl.Server.Forwarders
open Haentgl.Server.Proxy Haentgl.Server.Parties Haentgl.Server.Auth Haentgl.Server.Tenants

/-! ### Results, names and decisions -/

/-- A result, or an error of the kind that is reported. -/
def Ends {α : Type} (r : Except Stop α) : Prop := (∃ a, r = .ok a) ∨ ∃ e, r = .error (.io e)

/-- The tenant of a user: what stands in front of the last dot of the name must be the text of a key. -/
def Names (S : Setup) (user : Option Bytes) (k : TenantKey) : Prop :=
  if S.isNotStatic ∧ ∃ n ∈ user, 0x2e ∈ n then
    ∃ text u, user = some (utf8 text ++ 0x2e :: u) ∧ 0x2e ∉ u ∧ KeyText S.profile text k
  else k = testTenantKey

/-- The router comes to a decision: there is a static backend, or the tenant has at most one backend
or is balanced at random. -/
def Selectable (lb : BackendLoadBalancerType) (k : TenantKey) : Router → Prop
  | .static backendAddrs => backendAddrs ≠ []
  | .sync tenants => ∀ l ∈ tenants.lookup k, 2 ≤ l.length → lb = .random

section Ends
variable {α β : Type}

theorem ends_ok (a : α) : Ends (.ok a : Except Stop α) := .inl ⟨a, rfl⟩

theorem ends_io (e : IoError) : Ends (.error (.io e) : Except Stop α) := .inr ⟨e, rfl⟩

theorem not_ends_panic : ¬ Ends (.error .panic : Except Stop α) := by
  rintro (⟨_, h⟩ | ⟨_, h⟩)
  · cases h
  · cases h

theorem ends_bind {r : Except Stop α} {f : α → Except Stop β} (hf : ∀ a, Ends (f a)) :
    Ends (r >>= f) ↔ Ends r := by
  rcases r with e | a
  · cases e with
    | io e => exact ⟨fun _ => ends_io e, fun _ => ends_io e⟩
    | _ =>
      constructor
      all_goals
        rintro (⟨_, h⟩ | ⟨_, h⟩)
        · cases h
        · cases h
  · exact ⟨fun _ => ends_ok a, fun _ => hf a⟩

end Ends

theorem ends_balance {draw : ℕ} {l : List BackendInstance} :
    Ends (balance draw l.length >>= fun i => orStop l[i]?) ↔ l ≠ [] := by
  constructor
  · rintro h rfl
    exact not_ends_panic h
  · intro h
    have hlen := List.length_pos_iff.mpr h
    have hlt : draw % l.length < l.length := Nat.mod_lt _ hlen
    rw [balance, if_neg (by omega)]
    show Ends (orStop l[draw % l.length]?)
    rw [List.getElem?_eq_getElem hlt]
    exact ends_ok _

/-- The routers that decide. -/
theorem ends_selector (router : Router) (lb : BackendLoadBalancerType) (draw : ℕ) (k : TenantKey) :
    Ends (router.selector draw k lb) ↔ Selectable lb k router := by
  cases router with
  | static l => exact ends_balance
  | sync tenants =>
    simp only [Router.selector, syncSelector, Selectable]
    generalize tenants.lookup k = o
    rcases o with _ | (_ | ⟨be, _ | ⟨be', l⟩⟩)
    · exact ⟨fun _ => by simp, fun _ => ends_io _⟩
    · exact ⟨fun _ => by simp, fun _ => ends_io _⟩
    · exact ⟨fun _ => by simp, fun _ => ends_ok _⟩
    · cases lb with
      | random => exact ⟨fun _ => by simp, fun _ => ends_balance.mpr (by simp)⟩
      | p2c => exact ⟨fun h => absurd h not_ends_panic, fun h => by simp at h⟩

theorem ends_poolOf (m : BackendMgr) (router : Router) (lb : BackendLoadBalancerType) (draw : ℕ)
    (k : TenantKey) : Ends (poolOf m router lb draw k) ↔ Selectable lb k router := by
  rw [← ends_selector router lb draw k, poolOf]
  refine ends_bind fun be => ?_
  cases m.beConnPool.lookup be with
  | none => exact ends_io _
  | some pool => exact ends_ok pool

theorem orStop_eq_ok {α : Type} {o : Option α} {a : α} : orStop o = .ok a ↔ o = some a := by
  cases o <;> simp [orStop]

theorem orStop_eq_error {α : Type} {o : Option α} {e : Stop} (h : orStop o = .error e) : e = .panic := by
  cases o with
  | none => exact (Except.error.inj h).symm
  | some a => cases h

/-- A tenant that is named is found: its bytes are the text of a key. -/
theorem tenantOf_some {b : Profile} {h : HandshakeResponse} {t : Bytes} (ht : h.tenantKey = some t)
    (k : TenantKey) : tenantOf b h = .ok k ↔ ∃ text, t = utf8 text ∧ KeyText b text k := by
  rw [tenantOf, ht]
  constructor
  · intro hk
    obtain ⟨text, htext, hk₁⟩ := bind_eq_ok.mp hk
    have hutf := fromUTF8_eq_some.mp (orStop_eq_ok.mp htext)
    exact ⟨text.toList, hutf, decodeTenantKey_eq_some.mp (orStop_eq_ok.mp hk₁)⟩
  · rintro ⟨text, rfl, hkey⟩
    have htext : fromUtf8 (utf8 text) = some (String.ofList text) :=
      fromUTF8_eq_some.mpr (by rw [String.toList_ofList])
    have hk : decodeTenantKey b (String.ofList text) = some k :=
      decodeTenantKey_eq_some.mpr (by rw [String.toList_ofList]; exact hkey)
    exact bind_eq_ok.mpr ⟨_, orStop_eq_ok.mpr htext, orStop_eq_ok.mpr hk⟩

/-- The tenant of a parsed response is the one its user names. -/
theorem tenantOf_iff {S : Setup} {h : HandshakeResponse} (ht : h.tenantKey = none) (k : TenantKey) :
    tenantOf S.profile (h.changeTenantIfNeed S.isNotStatic) = .ok k ↔ Names S h.username k := by
  unfold Names
  split_ifs with hc
  · obtain ⟨hsync, n, hn, hmem⟩ := hc
    obtain ⟨t, u, rfl, hu⟩ := exists_last_dot hmem
    have hdot := changeTenantIfNeed_dot hn hu
    rw [hsync, hdot, tenantOf_some rfl, hn]
    constructor
    · rintro ⟨text, rfl, hkey⟩
      exact ⟨text, u, rfl, hu, hkey⟩
    · rintro ⟨text, u', he, hu', hkey⟩
      -- the last dot of the name is where it was split
      have hdot' := changeTenantIfNeed_dot (h := { h with username := some (utf8 text ++ 0x2e :: u') })
        rfl hu'
      rw [← he, ← hn] at hdot'
      have hkeys := congrArg HandshakeResponse.tenantKey (hdot.symm.trans hdot')
      exact ⟨text, Option.some.inj hkeys, hkey⟩
  · have hsame : h.changeTenantIfNeed S.isNotStatic = h := by
      cases hsync : S.isNotStatic with
      | false => rfl
      | true =>
        refine changeTenantIfNeed_of_notMem true fun n hn hmem => hc ⟨hsync, n, hn, hmem⟩
    rw [hsame, tenantOf, ht]
    exact ⟨fun he => (Except.ok.inj he).symm, fun he => by rw [he]⟩

theorem tenantOf_error {b : Profile} {h : HandshakeResponse} {e : Stop} (he : tenantOf b h = .error e) :
    e = .panic := by
  unfold tenantOf at he
  split at he
  · rename_i t _
    rcases ht : orStop (fromUtf8 t) with e' | text
    · rw [ht] at he
      cases he
      exact orStop_eq_error ht
    · rw [ht] at he
      exact orStop_eq_error he
  · cases he

/-- A pool is found, or an error reported, if the user names a tenant for which the router decides. -/
theorem ends_connectToBackend {S : Setup} {h : HandshakeResponse} (ht : h.tenantKey = none)
    (m : BackendMgr) (router : Router) (lb : BackendLoadBalancerType) (draw : ℕ) :
    Ends (connectToBackend S.profile m router lb draw (h.changeTenantIfNeed S.isNotStatic)) ↔
      ∃ k, Names S h.username k ∧ Selectable lb k router := by
  rw [connectToBackend_eq]
  constructor
  · intro hE
    rcases htenant : tenantOf S.profile (h.changeTenantIfNeed S.isNotStatic) with e | k
    · rw [htenant, tenantOf_error htenant] at hE
      exact absurd hE not_ends_panic
    · rw [htenant] at hE
      exact ⟨k, (tenantOf_iff ht k).mp htenant, (ends_poolOf m router lb draw k).mp hE⟩
  · rintro ⟨k, hN, hS⟩
    rw [(tenantOf_iff ht k).mpr hN]
    exact (ends_poolOf m router lb draw k).mpr hS

/-! ### The login -/

/-- From the greeting of a client to the pool of its tenant's backend. -/
def login {σ : Type} (N : Net σ) (S : Setup) (m : BackendMgr) (router : Router)
    (lb : BackendLoadBalancerType) (draw : ℕ) : Proc Stop (Conn σ) ℕ := do
  resetSeq .client
  let (_, h, _) ← initialHandshake N S
  Proc.lift (connectToBackend S.profile m router lb draw h)

/-- A client's packet that a session can take: a shape whose user names a tenant that is decided. -/
def Acceptable (S : Setup) (router : Router) (lb : BackendLoadBalancerType) (pkt : Packet) : Prop :=
  ∃ user k, Response S.mc.known pkt user ∧ Names S user k ∧ Selectable lb k router

section Login
variable {R : Respond} {S : Setup} {m : BackendMgr} {router : Router} {lb : BackendLoadBalancerType}
  {draw : ℕ} {c : Conn World}

theorem run_resetSeq (side : Side) (c : Conn World) :
    (resetSeq side).run c = (.ok (), c.setSeq side 0) := rfl

/-- A client that is gone is told so, and that is the end. -/
theorem run_afterGreeting_silent (h : c.net.toCome = []) :
    ∃ e c', (afterGreeting R S).run c = (.error (.io e), c') := by
  have hnext : (onNet ((net R).next .client)).run c = _ := run_onNet (run_readClient_nil h)
  unfold afterGreeting
  rcases hend : c.net.clientEnd with _ | e
  · rw [hend] at hnext
    rw [Proc.run_bind_ok hnext]
    simp only
    by_cases hw : c.net.writesLeft = some 0
    · have hsend : ((net R).send .client c.clientSeq peerTerminated).run c.net =
          (.error brokenPipe, c.net) := run_writeClient_broken hw _
      exact ⟨_, _, Proc.run_bind_error (run_endPacket_send (m := (c.clientSeq, peerTerminated)) hsend) _⟩
    · have hsend : ((net R).send .client c.clientSeq peerTerminated).run c.net =
          (.ok (), c.net.deliver (c.clientSeq, peerTerminated)) := run_writeClient hw _
      exact ⟨_, _, Proc.run_bind_ok (run_endPacket_send (m := (c.clientSeq, peerTerminated)) hsend) _⟩
  · rw [hend] at hnext
    exact ⟨e, _, Proc.run_bind_error hnext _⟩

/-- Without a packet the session reports an error. -/
theorem ends_login_silent (h : c.net.writesLeft = some 0 ∨ c.net.toCome = []) :
    Ends ((login (net R) S m router lb draw).run c).1 := by
  have herror : ∀ {e c'}, (initialHandshake (net R) S).run (c.setSeq .client 0) = (.error (.io e), c') →
      Ends ((login (net R) S m router lb draw).run c).1 := by
    intro e c' h
    rw [login, Proc.run_bind_ok (run_resetSeq .client c), Proc.run_bind_error h]
    exact ends_io e
  by_cases hw : c.net.writesLeft = some 0
  · obtain ⟨c', hrun, -⟩ := run_initialHandshake_broken (R := R) (S := S) hw
    exact herror hrun
  · obtain ⟨e, c', hrun⟩ := run_afterGreeting_silent (R := R) (S := S)
      (c := wrote c .client (0, initialHandshakePacket S)
        (c.net.deliver (0, initialHandshakePacket S))) (h.resolve_left hw)
    rw [← run_initialHandshake hw] at hrun
    exact herror hrun

/-- What becomes of a client's packet. -/
theorem run_login {msg : Message} (hw : c.net.writesLeft ≠ some 0)
    (hmsg : c.net.toCome.head? = some msg) :
    ((login (net R) S m router lb draw).run c).1 =
      match clientHandshakeResponse S.mc.known msg.2 false with
      | .ok (_, h) => connectToBackend S.profile m router lb draw (h.changeTenantIfNeed S.isNotStatic)
      | .error _ => .error .panic := by
  obtain ⟨ms, htc⟩ := List.head?_eq_some_iff.mp hmsg
  have hgreet := run_initialHandshake (R := R) (S := S) hw
  have hnext : (onNet ((net R).next .client)).run (wrote c .client (0, initialHandshakePacket S)
      (c.net.deliver (0, initialHandshakePacket S))) = (.ok (some msg), _) :=
    run_onNet (run_readClient_cons htc)
  rw [afterGreeting, Proc.run_bind_ok hnext] at hgreet
  rw [login, Proc.run_bind_ok (run_resetSeq .client c)]
  rcases hp : clientHandshakeResponse S.mc.known msg.2 false with e | ⟨r, h⟩
  · simp only [hp, unwrapResult] at hgreet
    rw [Proc.run_bind_error hgreet]
  · simp only [hp, unwrapResult, pure_bind] at hgreet
    rw [Proc.run_bind_ok hgreet]
    simp only
    cases connectToBackend S.profile m router lb draw (h.changeTenantIfNeed S.isNotStatic) <;> rfl

/-- **The way of a client's packet.** A session that is opened ends in a pool or an error if and only if
the packet is acceptable; the loop over the attributes always ends. -/
theorem login_iff (R : Respond) (S : Setup) (m : BackendMgr) (router : Router)
    (lb : BackendLoadBalancerType) (draw : ℕ) (c : Conn World) :
    (Ends ((login (net R) S m router lb draw).run c).1 ↔
      c.net.writesLeft = some 0 ∨ ∀ msg ∈ c.net.toCome.head?, Acceptable S router lb msg.2) ∧
    ∀ n data acc, data.length ≤ n → attributes n data acc = attributes data.length data acc := by
  refine ⟨?_, fun n data acc h => attributes_rounds n _ data acc h le_rfl⟩
  by_cases hw : c.net.writesLeft = some 0
  · exact ⟨fun _ => .inl hw, fun _ => ends_login_silent (.inl hw)⟩
  rcases htc : c.net.toCome with _ | ⟨msg, ms⟩
  · exact ⟨fun _ => .inr (by simp), fun _ => ends_login_silent (.inr htc)⟩
  have hmsg : c.net.toCome.head? = some msg := by rw [htc]; rfl
  rw [run_login hw hmsg, List.head?_cons, or_iff_right hw]
  simp only [Option.mem_some_iff, forall_eq']
  unfold Acceptable
  constructor
  · intro hE
    rcases hp : clientHandshakeResponse S.mc.known msg.2 false with e | ⟨r, h⟩
    · rw [hp] at hE
      exact absurd hE not_ends_panic
    · rw [hp] at hE
      have ht := clientHandshakeResponse_tenantKey hp
      obtain ⟨k, hN, hS⟩ := (ends_connectToBackend ht m router lb draw).mp hE
      exact ⟨h.username, k, (clientHandshakeResponse_iff _ _ _).mp ⟨r, h, hp, rfl, ht⟩, hN, hS⟩
  · rintro ⟨user, k, hR, hN, hS⟩
    obtain ⟨r, h, hp, rfl, ht⟩ := (clientHandshakeResponse_iff _ _ _).mpr hR
    rw [hp]
    exact (ends_connectToBackend ht m router lb draw).mpr ⟨k, hN, hS⟩

end Login

/-- A client that answers the greeting with an empty packet. -/
def emptyResponse : Conn World := ⟨0, 0, ⟨[(1, [])], none, none, [], .handshake, 0, [], []⟩⟩

/-- It panics its session, whose only backend could be selected. -/
theorem emptyResponse_panics : ¬ Ends ((login (net silent) Setup.plain .new (.static
    [⟨⟨"r", "z", "n", ""⟩, "10.0.0.1:4000", .ready, ⟨"n", "c"⟩⟩]) .random 0).run emptyResponse).1 := by
  have hw : emptyResponse.net.writesLeft ≠ some 0 := by decide
  have hmsg : emptyResponse.net.toCome.head? = some (1, []) := rfl
  rw [run_login hw hmsg]
  exact not_ends_panic

end Haentgl.Server.Opening
