import IocpProxy.Host.Traffic
import IocpProxy.Proxy.Relay

/-!
# The proxy between the applications and their servers

Here the two halves come together: the connections of a host, some of which the driver redirects,
and a process that runs the proxy. Connections that arrive at its port are accepted one by one; the
call of `AcceptConnection` that has accepted a connection makes one to its original destination,
and links the two sockets. So what an application sends goes where the application wanted it to
go, and what comes back is what was sent there.

## Main definitions

* `IocpProxy.Web`, `IocpProxy.web` : the system.
* `IocpProxy.WebReady` : the condition on the steps.
* `IocpProxy.Web.Tied` : the invariant.

## Main results

* `IocpProxy.Web.reachable_traffic`, `IocpProxy.Web.reachable_proxy` : its two halves.
* `IocpProxy.transparent_proxy`.
-/

namespace IocpProxy

open State

variable {n : ℕ}

/-! ### The system -/

/-- `PROXY_SERVER_PORT`. -/
def proxyServerPort : ℕ := 1598

/-- The connections of a host and a process that runs the proxy. The last two fields record, by the
number of the call of `AcceptConnection`, the connection it has accepted and the one it has made. -/
structure Web (n : ℕ) where
  traffic : Traffic
  proxy : State n
  accepted : ℕ → Option FlowId
  made : ℕ → Option FlowId

/-- What happens to the two. -/
inductive WebAction (n : ℕ)
  /-- Something else happens on the host. -/
  | traffic (a : TrafficAction)
  /-- `WSAAccept` returns a socket with the number `v` for the connection `f`. -/
  | accept (f : FlowId) (v : ℕ)
  /-- `InitRemoteConnection`, with the request that its `WSAConnect` makes. -/
  | initRemote (q : InitCalls) (r : ConnectRequest)
  /-- Another step of the proxy. -/
  | proxy (a : Action n)

/-- The step is one of the other two kinds. -/
def Action.Connects : Action n → Prop
  | .accept (.socket _) | .accept (.remote _) => True
  | _ => False

instance : DecidablePred (Action.Connects (n := n))
  | .accept (.socket _) | .accept (.remote _) => instDecidableTrue
  | .accept .ok | .accept .fail | .accept (.slot _) | .main _ | .worker _ _ | .net _ =>
    instDecidableFalse

namespace Web

/-- The connection arrives at the port of the proxy, and was not accepted yet. -/
def Arrives (s : Web n) (f : FlowId) : Prop :=
  f < s.traffic.next ∧
    (s.traffic.flow f).connection.latest.remoteAddressAndPort.port = proxyServerPort ∧
    ∀ k ≤ s.proxy.calls, s.accepted k ≠ some f

instance (s : Web n) (f : FlowId) : Decidable (s.Arrives f) :=
  inferInstanceAs (Decidable (_ ∧ _ ∧ ∀ k ≤ s.proxy.calls, _))

/-- A connection is accepted. -/
def accept (s : Web n) (f : FlowId) (t : State n) : Web n :=
  { s with proxy := t, accepted := Function.update s.accepted t.calls (some f) }

/-- `InitRemoteConnection` returns; the connection it made is the newest one. -/
def initRemote (s : Web n) (q : InitCalls) (t : State n) (u : Traffic) : Web n :=
  { s with
    traffic := u
    proxy := t
    made := if (initRemoteConnection s.proxy.handles q).remote = none then s.made
      else Function.update s.made s.proxy.calls (some s.traffic.next) }

end Web

variable (platform : Platform) (filterId : UInt64) (processId : UInt32)

/-- A step of the two; `processId` is the id of the process. -/
def webStep (s : Web n) : WebAction n → Option (Web n)
  | .traffic a => (trafficStep platform filterId s.traffic a).map fun u => { s with traffic := u }
  | .accept f v =>
    if s.Arrives f then (step s.proxy (.accept (.socket v))).map fun t => s.accept f t else none
  | .initRemote q r =>
    (s.accepted s.proxy.calls).bind fun f =>
      (step s.proxy (.accept (.remote q))).bind fun t =>
        (trafficStep platform filterId s.traffic
          (.relay f processId s.proxy.handles q r)).map fun u => s.initRemote q t u
  | .proxy a =>
    if a.Connects then none else (step s.proxy a).map fun t => { s with proxy := t }

/-- A host without connections, on which the proxy is started. -/
def web (n : ℕ) : TransitionSystem (Web n) (WebAction n) where
  init := ⟨(traffic platform filterId).init, initial n, fun _ => none, fun _ => none⟩
  step := webStep platform filterId processId

/-- The platform keeps its promise, and the proxy meets the condition of the relay. -/
def WebReady (s : Web n) : WebAction n → Prop
  | .traffic a => RecordsKnown s.traffic a
  | .proxy a => RelayReady s.proxy a
  | .accept _ _ | .initRemote _ _ => True

variable {platform filterId processId}

/-! ### The two halves -/

/-- What is seen of the connections is a run of theirs. -/
theorem Web.reachable_traffic {s : Web n}
    (hs : (web platform filterId processId n).Reachable WebReady s) :
    (IocpProxy.traffic platform filterId).Reachable RecordsKnown s.traffic := by
  refine hs.simulate (f := Web.traffic) rfl fun s a s' hG hstep => ?_
  change webStep platform filterId processId s a = some s' at hstep
  cases a with
  | traffic b =>
    obtain ⟨u, hu, rfl⟩ := Option.map_eq_some_iff.mp hstep
    exact .inr ⟨b, hG, hu⟩
  | accept f v =>
    obtain ⟨-, hstep⟩ := Option.ite_none_right_eq_some.mp hstep
    obtain ⟨t, -, rfl⟩ := Option.map_eq_some_iff.mp hstep
    exact .inl rfl
  | initRemote q r =>
    obtain ⟨f, -, hstep⟩ := Option.bind_eq_some_iff.mp hstep
    obtain ⟨t, -, hstep⟩ := Option.bind_eq_some_iff.mp hstep
    obtain ⟨u, hu, rfl⟩ := Option.map_eq_some_iff.mp hstep
    exact .inr ⟨.relay f processId s.proxy.handles q r, trivial, hu⟩
  | proxy b =>
    obtain ⟨-, hstep⟩ := Option.ite_none_left_eq_some.mp hstep
    obtain ⟨t, -, rfl⟩ := Option.map_eq_some_iff.mp hstep
    exact .inl rfl

/-- The steps that make a connection disturb nothing. -/
theorem Action.Connects.relayReady {s s' : State n} {a : Action n} (ha : a.Connects)
    (h : step s a = some s') : RelayReady s a := by
  obtain ⟨-, -, hm⟩ := step_move h
  obtain hm | hm | hm | hm := hm
  · cases ha
  · rename_i o
    have hsurv : Survives s (.accept o) := by
      cases hm with
      | accepted hpc | remoteFailed hpc | remoteMade hpc => simp [Survives, hpc]
      | _ => cases ha
    exact ⟨trivial, fun w o j e => (by cases e), hsurv, trivial⟩
  · cases ha
  · cases ha

/-- What is seen of the proxy is a run of the proxy. -/
theorem Web.reachable_proxy {s : Web n}
    (hs : (web platform filterId processId n).Reachable WebReady s) :
    (IocpProxy.proxy n).Reachable RelayReady s.proxy := by
  refine hs.simulate (f := Web.proxy) rfl fun s a s' hG hstep => ?_
  change webStep platform filterId processId s a = some s' at hstep
  cases a with
  | traffic b =>
    obtain ⟨u, -, rfl⟩ := Option.map_eq_some_iff.mp hstep
    exact .inl rfl
  | accept f v =>
    obtain ⟨-, hstep⟩ := Option.ite_none_right_eq_some.mp hstep
    obtain ⟨t, ht, rfl⟩ := Option.map_eq_some_iff.mp hstep
    have hc : (Action.accept (.socket v) : Action n).Connects := trivial
    exact .inr ⟨_, hc.relayReady ht, ht⟩
  | initRemote q r =>
    obtain ⟨f, -, hstep⟩ := Option.bind_eq_some_iff.mp hstep
    obtain ⟨t, ht, hstep⟩ := Option.bind_eq_some_iff.mp hstep
    obtain ⟨u, -, rfl⟩ := Option.map_eq_some_iff.mp hstep
    have hc : (Action.accept (.remote q) : Action n).Connects := trivial
    exact .inr ⟨_, hc.relayReady ht, ht⟩
  | proxy b =>
    obtain ⟨-, hstep⟩ := Option.ite_none_left_eq_some.mp hstep
    obtain ⟨t, ht, rfl⟩ := Option.map_eq_some_iff.mp hstep
    exact .inr ⟨b, hG, ht⟩

/-! ### What the steps leave alone -/

namespace Traffic

variable {s s' : Traffic}

/-- Connections stay, with the records set on their sockets. -/
def Extends (s s' : Traffic) : Prop :=
  s.next ≤ s'.next ∧ ∀ g < s.next, (s'.flow g).records = (s.flow g).records

theorem extends_refl (s : Traffic) : s.Extends s := ⟨le_rfl, fun _ _ => rfl⟩

theorem extends_add (s : Traffic) (f : Flow) : s.Extends (s.add f) := by
  refine ⟨Nat.le_succ _, fun g hg => ?_⟩
  have hflow : (s.add f).flow g = s.flow g := Function.update_of_ne hg.ne _ _
  rw [hflow]

theorem extends_setConnection (s : Traffic) (f : FlowId) (c : Connection) :
    s.Extends (s.setConnection f c) := by
  refine ⟨le_rfl, fun g _ => ?_⟩
  by_cases hg : g = f
  · subst hg
    simp [setConnection]
  · simp [setConnection, hg]

theorem extends_of_step {a : TrafficAction} (h : trafficStep platform filterId s a = some s') :
    s.Extends s' := by
  cases a with
  | register p =>
    obtain rfl := Option.some.inj h
    exact ⟨le_rfl, fun _ _ => rfl⟩
  | connect protocol p r =>
    obtain ⟨-, ⟨⟩⟩ := Option.ite_none_right_eq_some.mp h
    exact s.extends_add _
  | classify f k =>
    obtain ⟨-, h⟩ := Option.ite_none_right_eq_some.mp h
    obtain ⟨c, -, rfl⟩ := Option.map_eq_some_iff.mp h
    exact s.extends_setConnection f c
  | modify f v =>
    obtain ⟨-, h⟩ := Option.ite_none_right_eq_some.mp h
    obtain ⟨c, -, rfl⟩ := Option.map_eq_some_iff.mp h
    exact s.extends_setConnection f c
  | relay f p T q r =>
    obtain ⟨-, h⟩ := Option.ite_none_right_eq_some.mp h
    split at h
    · obtain rfl := Option.some.inj h
      exact s.extends_refl
    · obtain ⟨-, ⟨⟩⟩ := Option.ite_none_right_eq_some.mp h
      exact s.extends_add _

/-- When `InitRemoteConnection` returns a context, a connection was made for it. -/
theorem relay_added {f : FlowId} {p : UInt32} {T : HandleTable} {q : InitCalls}
    {r : ConnectRequest} {h : Handle}
    (hstep : trafficStep platform filterId s (.relay f p T q r) = some s')
    (hr : (initRemoteConnection T q).remote = some h) :
    s'.next = s.next + 1 ∧ (s'.flow s.next).records = some f := by
  obtain ⟨v, bs, -, -, -, -, hcon⟩ := initRemoteConnection_remote hr
  obtain ⟨-, hstep⟩ := Option.ite_none_right_eq_some.mp hstep
  simp only [hcon] at hstep
  obtain ⟨-, ⟨⟩⟩ := Option.ite_none_right_eq_some.mp hstep
  exact ⟨rfl, by simp [Traffic.add]⟩

end Traffic

/-- No context is made, and none is changed in what it was made with. -/
def State.SameMade (s s' : State n) : Prop :=
  s'.next = s.next ∧ s.calls ≤ s'.calls ∧ ∀ x, (s'.ctx x).conn = (s.ctx x).conn ∧
    (s'.ctx x).proxySocket = (s.ctx x).proxySocket

theorem State.SameLinks.sameMade {s s' : State n} (h : s.SameLinks s') (hc : s'.calls = s.calls) :
    s.SameMade s' :=
  ⟨h.2, hc.ge, fun x => ⟨(h.1 x).2.1, (h.1 x).2.2.1⟩⟩

/-- Only the steps that make a connection make contexts. -/
theorem Move.sameMade {s s' : State n} {a : Action n} (hm : Move s a s') (ha : ¬ a.Connects) :
    s.SameMade s' := by
  rcases hm with hm | hm | hm | hm
  · exact (SameLinks.of_ctx hm.frame.1 hm.frame.2.1).sameMade hm.frame.2.2.1
  · cases hm with
    | accepted | remoteFailed | remoteMade => exact absurd trivial ha
    | @linked c r =>
      have hf := s.linked_fields c r
      have hfr := s.linked_frame c r
      exact ⟨hfr.1, hfr.2.2.1.ge, fun x => ⟨(hf x).1, (hf x).2.1⟩⟩
    | @posted d x | @notPosted d x =>
      have hsame : s.SameLinks (s.resetRecv x) := .resetRecv x
      exact ⟨rfl, le_rfl, fun z => ⟨(hsame.1 z).2.1, (hsame.1 z).2.2.1⟩⟩
    | failed => exact ⟨rfl, Nat.le_succ _, fun _ => ⟨rfl, rfl⟩⟩
    | exitClosed | exitRemoved | exitNulled | returned =>
      refine ⟨?_, ?_, fun x => ?_⟩ <;>
        simp [State.acceptAt, State.exitNulled, State.acceptReturned]
    | _ => exact ⟨rfl, le_rfl, fun _ => ⟨rfl, rfl⟩⟩
  · exact hm.sameLinks.sameMade hm.frame.2.1
  · exact hm.sameLinks.sameMade hm.frame.2.1

/-! ### Which connections belong together -/

namespace Web

variable {s s' : Web n}

/-- Each connection was accepted by one call at most. The context of the other side was made by a
call that has accepted a connection, and its socket is the one of the connection made for that. -/
structure Tied (s : Web n) : Prop where
  accepted_le : ∀ k f, s.accepted k = some f → k ≤ s.proxy.calls
  accepted_inj : ∀ k k' f, s.accepted k = some f → s.accepted k' = some f → k = k'
  remote : ∀ y < s.proxy.next, (s.proxy.ctx y).proxySocket = true →
    ∃ f g, s.accepted (s.proxy.ctx y).conn = some f ∧ s.made (s.proxy.ctx y).conn = some g ∧
      g < s.traffic.next ∧ (s.traffic.flow g).records = some f

/-- No connection is accepted and none is made by the proxy. -/
theorem Tied.congr (h : s.Tied) {t : State n} {u : Traffic} (ht : s.proxy.SameMade t)
    (hu : s.traffic.Extends u) : Tied { s with proxy := t, traffic := u } := by
  obtain ⟨hnext, hcalls, hctx⟩ := ht
  refine ⟨fun k f hk => (h.accepted_le k f hk).trans hcalls, h.accepted_inj, fun y hy hp => ?_⟩
  rw [(hctx y).2] at hp
  obtain ⟨f, g, hf, hg, hlt, hrec⟩ := h.remote y (hnext ▸ hy) hp
  refine ⟨f, g, ?_, ?_, hlt.trans_le hu.1, (hu.2 g hlt).trans hrec⟩
  · exact (congrArg s.accepted (hctx y).1).trans hf
  · exact (congrArg s.made (hctx y).1).trans hg

theorem Tied.accept (h : s.Tied) (hs : s.proxy.Sound) {f : FlowId} (harr : s.Arrives f) {v : ℕ}
    {t : State n} (hm : Move s.proxy (.accept (.socket v)) t) : (s.accept f t).Tied := by
  obtain hm | hm | hm | hm := hm
  cases hm with
  | accepted hpc hv =>
    have new : (s.accept f (s.proxy.accepted v)).accepted (s.proxy.calls + 1) = some f :=
      Function.update_self _ _ _
    have old : ∀ {k}, k ≠ s.proxy.calls + 1 →
        (s.accept f (s.proxy.accepted v)).accepted k = s.accepted k := fun hk =>
      Function.update_of_ne hk _ _
    refine ⟨fun k g hk => ?_, fun k k' g hk hk' => ?_, fun y hy hp => ?_⟩
    · by_cases hnew : k = s.proxy.calls + 1
      · exact hnew.le
      · exact (h.accepted_le k g (old hnew ▸ hk)).trans (Nat.le_succ _)
    · by_cases hnew : k = s.proxy.calls + 1 <;> by_cases hnew' : k' = s.proxy.calls + 1
      · exact hnew.trans hnew'.symm
      · rw [hnew, new] at hk
        rw [old hnew', ← hk] at hk'
        exact absurd hk' (harr.2.2 k' (h.accepted_le k' f hk'))
      · rw [hnew', new] at hk'
        rw [old hnew, ← hk'] at hk
        exact absurd hk (harr.2.2 k (h.accepted_le k f hk))
      · rw [old hnew] at hk
        rw [old hnew'] at hk'
        exact h.accepted_inj k k' g hk hk'
    · -- the new context is on the side of the client
      have hne : y ≠ s.proxy.next := by
        rintro rfl
        simp [Web.accept, State.accepted, State.make, SocketContext.new] at hp
      have hlt : y < s.proxy.next := lt_of_le_of_ne (Nat.le_of_lt_succ hy) hne
      have hctx : (s.accept f (s.proxy.accepted v)).proxy.ctx y = s.proxy.ctx y :=
        Function.update_of_ne hne _ _
      have hconn : (s.proxy.ctx y).conn ≠ s.proxy.calls + 1 :=
        (Nat.lt_succ_of_le (hs.conn_le y hlt)).ne
      rw [hctx] at hp ⊢
      rw [old hconn]
      exact h.remote y hlt hp

theorem Tied.initRemote (h : s.Tied) (hs : s.proxy.Sound) {f : FlowId}
    (hf : s.accepted s.proxy.calls = some f) {q : InitCalls} {r : ConnectRequest} {t : State n}
    (hm : Move s.proxy (.accept (.remote q)) t) {u : Traffic}
    (hu : trafficStep platform filterId s.traffic (.relay f processId s.proxy.handles q r) =
      some u) : (s.initRemote q t u).Tied := by
  have hext := Traffic.extends_of_step hu
  obtain hm | hm | hm | hm := hm
  cases hm with
  | remoteFailed hpc hv hr =>
    rw [Web.initRemote, if_pos hr]
    exact h.congr ⟨rfl, le_rfl, fun _ => ⟨rfl, rfl⟩⟩ hext
  | @remoteMade _ v hpc hv hr =>
    obtain ⟨hunext, hurec⟩ := Traffic.relay_added hu hr
    have hok := hs.acceptOk
    simp only [AcceptOk, hpc] at hok
    obtain ⟨c, -, -, -, -, hside⟩ := hok
    rw [Web.initRemote, if_neg (by simp [hr])]
    refine ⟨h.accepted_le, h.accepted_inj, fun y hy hp => ?_⟩
    by_cases hy' : y = s.proxy.next
    · subst hy'
      have hconn : ((s.proxy.remoteMade (s.proxy.handles.open v) (s.proxy.handles.fresh v)).ctx
          s.proxy.next).conn = s.proxy.calls := by
        simp [State.remoteMade, State.make]
      refine ⟨f, s.traffic.next, ?_, ?_, hunext ▸ Nat.lt_succ_self _, hurec⟩
      · exact (congrArg s.accepted hconn).trans hf
      · exact (congrArg _ hconn).trans (Function.update_self _ _ _)
    · have hlt : y < s.proxy.next := lt_of_le_of_ne (Nat.le_of_lt_succ hy) hy'
      have hctx : (s.proxy.remoteMade (s.proxy.handles.open v) (s.proxy.handles.fresh v)).ctx y =
          s.proxy.ctx y := Function.update_of_ne hy' _ _
      dsimp only at hp ⊢
      rw [hctx] at hp ⊢
      -- the call makes its first context of this side
      have hconn : (s.proxy.ctx y).conn ≠ s.proxy.calls := fun e => by
        simp [hside y hlt e] at hp
      obtain ⟨f', g, hf', hg, hglt, hrec⟩ := h.remote y hlt hp
      exact ⟨f', g, hf', (Function.update_of_ne hconn _ _).trans hg, hglt.trans_le hext.1,
        (hext.2 g hglt).trans hrec⟩

theorem Tied.step {a : WebAction n} (h : s.Tied) (hs : s.proxy.Sound)
    (hstep : (web platform filterId processId n).step s a = some s') : s'.Tied := by
  change webStep platform filterId processId s a = some s' at hstep
  cases a with
  | traffic b =>
    obtain ⟨u, hu, rfl⟩ := Option.map_eq_some_iff.mp hstep
    exact h.congr ⟨rfl, le_rfl, fun _ => ⟨rfl, rfl⟩⟩ (Traffic.extends_of_step hu)
  | accept f v =>
    obtain ⟨harr, hstep⟩ := Option.ite_none_right_eq_some.mp hstep
    obtain ⟨t, ht, rfl⟩ := Option.map_eq_some_iff.mp hstep
    exact h.accept hs harr (step_move (a := .accept (.socket v)) ht).2.2
  | initRemote q r =>
    obtain ⟨f, hf, hstep⟩ := Option.bind_eq_some_iff.mp hstep
    obtain ⟨t, ht, hstep⟩ := Option.bind_eq_some_iff.mp hstep
    obtain ⟨u, hu, rfl⟩ := Option.map_eq_some_iff.mp hstep
    exact h.initRemote hs hf (step_move (a := .accept (.remote q)) ht).2.2 hu
  | proxy b =>
    obtain ⟨hb, hstep⟩ := Option.ite_none_left_eq_some.mp hstep
    obtain ⟨t, ht, rfl⟩ := Option.map_eq_some_iff.mp hstep
    exact h.congr ((step_move ht).2.2.sameMade hb) s.traffic.extends_refl

theorem tied_of_reachable (hs : (web platform filterId processId n).Reachable WebReady s) :
    s.Tied := by
  refine hs.invariant_step (I := Tied) ?_ fun s a s' hr h _ hstep => ?_
  · exact ⟨nofun, nofun, fun y hy => absurd hy (Nat.not_lt_zero _)⟩
  · exact h.step (relayed_of_reachable (reachable_proxy hr)).1.sound hstep

end Web

/-- However the connections of a host, the driver, the proxy's threads, the peers and the network
interleave: two linked contexts of the proxy serve one connection of an application, which no other
contexts serve. The driver has redirected it, at port 80, and the other socket was connected to the
address it had then. On each of the two sockets, what was transmitted is the beginning of what was
received on the other one. -/
theorem transparent_proxy {s : Web n}
    (hs : (web platform filterId processId n).Reachable WebReady s) {x y : CtxId}
    (hp : s.proxy.strongOf x = some y) :
    ∃ f g, s.accepted (s.proxy.ctx x).conn = some f ∧ s.made (s.proxy.ctx x).conn = some g ∧
      (∀ x' y', s.proxy.strongOf x' = some y' → s.accepted (s.proxy.ctx x').conn = some f →
        x' = x ∧ y' = y) ∧
      (s.traffic.flow f).records = none ∧ (s.traffic.flow g).records = some f ∧
      (∃ v u, (s.traffic.flow f).connection.Replaced filterId v u ∧
        (s.traffic.flow g).connection.original.remoteAddressAndPort.SameEnd
          u.remoteAddressAndPort ∧
        u.remoteAddressAndPort.sinPort = (0, 80)) ∧
      s.proxy.sent y <+: s.proxy.received x ∧ s.proxy.sent x <+: s.proxy.received y := by
  have htied := Web.tied_of_reachable hs
  have hrouted := Traffic.routed_of_reachable (Web.reachable_traffic hs)
  obtain ⟨ho, -, -, hrelayed⟩ := relayed_of_reachable (Web.reachable_proxy hs)
  have hpaired := ho.sound.paired
  have hback := hpaired.partner_symm (.inl hp)
  obtain ⟨hconn, hx, hy⟩ := hpaired.conn hp
  obtain ⟨f, g, hf, hg, hlt, hrec⟩ := htied.remote y (hpaired.partner_lt hback) hy
  rw [← hconn] at hf hg
  obtain ⟨-, -, hnone, v, u, hvu, hend, hport⟩ := hrouted.proxied hlt hrec
  refine ⟨f, g, hf, hg, fun x' y' hp' hf' => ?_, hnone, hrec, ⟨v, u, hvu, hend, hport⟩,
    (hrelayed.flow x y (.inl hp)).1, (hrelayed.flow y x hback).1⟩
  have hcall := htied.accepted_inj _ _ f hf' hf
  obtain ⟨-, hx', -⟩ := hpaired.conn hp'
  have hxx : x' = x := ho.sound.conn_inj x' (hpaired.partner_lt (.inl hp')) x
    (hpaired.partner_lt (.inl hp)) hcall (hx'.trans hx.symm)
  subst hxx
  exact ⟨rfl, Option.some.inj (hp'.symm.trans hp)⟩

/-- A condition that can be checked and implies `WebReady`. -/
def WebKeyed (s : Web n) : WebAction n → Prop
  | .traffic a => RecordsKnown s.traffic a
  | .proxy a => KeyedAtomic s.proxy a ∧ Survives s.proxy a ∧ Undisturbed s.proxy a
  | .accept _ _ | .initRemote _ _ => True

instance (s : Web n) : DecidablePred (WebKeyed s)
  | .traffic a => inferInstanceAs (Decidable (RecordsKnown s.traffic a))
  | .proxy a => inferInstanceAs
      (Decidable (KeyedAtomic s.proxy a ∧ Survives s.proxy a ∧ Undisturbed s.proxy a))
  | .accept _ _ | .initRemote _ _ => instDecidableTrue

theorem WebKeyed.ready {s : Web n} {a : WebAction n} (h : WebKeyed s a) : WebReady s a := by
  cases a with
  | proxy b => exact ⟨h.1.1, h.1.2.typeSafe, h.2⟩
  | _ => exact h

set_option maxRecDepth 10000 in
/-- A request to the web server, and its reply. -/
theorem transparent_proxy_web : ∃ s : Web 2, s.proxy.sent 1 = [71, 69, 84] ∧
    s.proxy.sent 0 = [79, 75] ∧ s.proxy.sent 1 <+: s.proxy.received 0 ∧
    ∃ f g v u, s.accepted 1 = some f ∧ s.made 1 = some g ∧
      (s.traffic.flow f).connection.Replaced 7 v u ∧
      (s.traffic.flow g).connection.original.remoteAddressAndPort.SameEnd
        u.remoteAddressAndPort := by
  let context : List UInt8 := (List.ofFn webServer).take 16
  let bytes : List (Action 2) := relay 0 0 [71, 69, 84] ++ sendDone 1 1 3 ++
    relay 1 1 [79, 75] ++ sendDone 0 0 2
  obtain ⟨s, hs, hp, hconn, hsent, hreply⟩ : ∃ s : Web 2,
      (web .x64 7 42 2).Reachable WebKeyed s ∧ (s.proxy.ctx 0).buddy.strong = some 1 ∧
        (s.proxy.ctx 0).conn = 1 ∧ s.proxy.sent 1 = [71, 69, 84] ∧
          s.proxy.sent 0 = [79, 75] :=
    TransitionSystem.exists_reachable_of_runChecked
      (startUp.map .proxy ++
        [.traffic (.register 42), .traffic (.connect ipprotoTcp 43 webRequest),
          .traffic (.classify 0
            ⟨42, kernelOk, ⟨50000, 43⟩, 0, ⟨0, fwpsRightActionWrite⟩, 1⟩),
          .accept 0 11, .initRemote ⟨true, some context, some 12, true, true⟩ webRequest] ++
        ((connection 11 12).drop 2).map .proxy ++ bytes.map .proxy) (by decide +kernel)
  have hready := hs.mono fun _ _ h => WebKeyed.ready h
  obtain ⟨f, g, hf, hg, -, -, -, ⟨v, u, hvu, hend, -⟩, hpre, -⟩ := transparent_proxy hready hp
  rw [hconn] at hf hg
  exact ⟨s, hsent, hreply, hpre, f, g, v, u, hf, hg, hvu, hend⟩

end IocpProxy
