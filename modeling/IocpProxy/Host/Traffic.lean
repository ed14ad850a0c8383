import IocpProxy.Driver.Destination
import IocpProxy.Driver.Versions

/-!
# The connections of a host

Applications make connections, the driver redirects some of them to the proxy, and the proxy makes
a connection of its own for each that it accepts. The latter come to the driver's filter as well.
Here all connections of a host are followed together, over any interleaving of requests, calls of
the callout, changes by other filters, calls of `InitRemoteConnection` and changes of the process
id the driver takes for the proxy's; several processes may run the proxy.

The filter engine calls the callout when all conditions of `WfpAddFilter` hold of the newest
version of a request. The redirect context of an accepted connection is the one of the version that
the driver's filter made, and asking for it fails when there is none. The proxy sets the redirect
records of the connection it has accepted on the socket of its own; that the platform then reports
the connection as redirected by the callout is its documented behaviour, and a condition here.

## Main definitions

* `IocpProxy.filterConditions`, `IocpProxy.Flow.Matches` : when the callout is called.
* `IocpProxy.Flow`, `IocpProxy.Traffic`, `IocpProxy.traffic` : the system.
* `IocpProxy.RecordsKnown` : what the platform promises.
* `IocpProxy.Connection.Replaced`, `IocpProxy.Traffic.Routed` : the invariant.

## Main results

* `IocpProxy.proxied_once`.
-/

namespace IocpProxy

/-! ### The conditions of the filter -/

/-- `IPPROTO_TCP`. -/
def ipprotoTcp : UInt8 := 6

/-- The values the conditions are about. -/
inductive ConditionField
  /-- `FWPM_CONDITION_IP_PROTOCOL`. -/
  | ipProtocol
  /-- `FWPM_CONDITION_IP_REMOTE_PORT`. -/
  | ipRemotePort
  deriving DecidableEq

/-- `FWPM_FILTER_CONDITION` with the match type `FWP_MATCH_EQUAL`. -/
structure FilterCondition where
  fieldKey : ConditionField
  conditionValue : ℕ
  deriving DecidableEq

/-- The conditions of `WfpAddFilter`. -/
def filterConditions : List FilterCondition :=
  [⟨.ipProtocol, ipprotoTcp.toNat⟩, ⟨.ipRemotePort, 80⟩]

/-- The port of an address, in host order. -/
def SockAddrStorage.port (a : SockAddrStorage) : ℕ := a.sinPort.1.toNat * 256 + a.sinPort.2.toNat

/-- The family, port and address of two addresses agree. -/
def SockAddrStorage.SameEnd (a b : SockAddrStorage) : Prop :=
  a.sinFamily = b.sinFamily ∧ a.sinPort = b.sinPort ∧ a.sinAddr = b.sinAddr

instance (a b : SockAddrStorage) : Decidable (a.SameEnd b) :=
  inferInstanceAs (Decidable (_ ∧ _ ∧ _))

/-! ### The system -/

/-- The number of a connection. -/
abbrev FlowId := ℕ

/-- A connection as the filter engine sees it. -/
structure Flow where
  protocol : UInt8
  processId : UInt64
  connection : Connection
  /-- The connection whose redirect records are set on its socket. -/
  records : Option FlowId
  deriving DecidableEq

/-- The value of a field for a connection. -/
def Flow.value (f : Flow) : ConditionField → ℕ
  | .ipProtocol => f.protocol.toNat
  | .ipRemotePort => f.connection.latest.remoteAddressAndPort.port

/-- The callout is called for a connection. -/
def Flow.Matches (f : Flow) : Prop := ∀ c ∈ filterConditions, f.value c.fieldKey = c.conditionValue

instance (f : Flow) : Decidable f.Matches := inferInstanceAs (Decidable (∀ c ∈ filterConditions, _))

/-- The version that a filter made, the newest if there are several. -/
def Connection.versionOf (c : Connection) (filterId : UInt64) : Option ConnectRequest :=
  c.versions.find? fun v => v.modifierFilterId = filterId

/-- The connections of a host, and the process id the driver has stored. Numbers from `next` on are
not yet used. -/
structure Traffic where
  proxyAppProcessID : Int32
  flow : FlowId → Flow
  next : FlowId

/-- What happens on the host. -/
inductive TrafficAction
  /-- A process registers with the driver. -/
  | register (processId : Int32)
  /-- An application asks for a connection. -/
  | connect (protocol : UInt8) (processId : UInt64) (r : ConnectRequest)
  /-- The callout is called. -/
  | classify (f : FlowId) (k : ClassifyCall)
  /-- Another filter applies a version. -/
  | modify (f : FlowId) (v : ConnectRequest)
  /-- A process calls `InitRemoteConnection` for a connection it has accepted; `r` is the request
  its `WSAConnect` makes. -/
  | relay (f : FlowId) (processId : UInt32) (T : HandleTable) (q : InitCalls) (r : ConnectRequest)

namespace Traffic

/-- A new connection. -/
def add (s : Traffic) (f : Flow) : Traffic :=
  { s with flow := Function.update s.flow s.next f, next := s.next + 1 }

/-- The versions of a connection change. -/
def setConnection (s : Traffic) (f : FlowId) (c : Connection) : Traffic :=
  { s with flow := Function.update s.flow f { s.flow f with connection := c } }

end Traffic

variable (platform : Platform) (filterId : UInt64)

/-- A step of a connection is one of its own system. -/
def Traffic.versionStep (s : Traffic) (f : FlowId) (a : ConnectAction) : Option Traffic :=
  ((classification platform filterId (s.flow f).connection.original).step
    (s.flow f).connection a).map (s.setConnection f)

/-- A step of the host, on which the driver's filter has the id `filterId`. -/
def trafficStep (s : Traffic) : TrafficAction → Option Traffic
  | .register processId => some { s with proxyAppProcessID := processId }
  | .connect protocol processId r =>
    if r.modifierFilterId ≠ filterId then some (s.add ⟨protocol, processId, ⟨r, []⟩, none⟩)
    else none
  | .classify f k =>
    if f < s.next ∧ (s.flow f).Matches ∧ k.proxyAppProcessID = s.proxyAppProcessID ∧
        k.input.processId = (s.flow f).processId then
      s.versionStep platform filterId f (.classify k)
    else none
  | .modify f v => if f < s.next then s.versionStep platform filterId f (.modify v) else none
  | .relay f processId T q r =>
    if f < s.next ∧ r.modifierFilterId ≠ filterId ∧ ∀ bs ∈ q.queryContext,
        ((s.flow f).connection.versionOf filterId).map (·.publishedContext) = some bs then
      match (initRemoteConnection T q).connected with
      | none => some s
      | some a =>
        if r.remoteAddressAndPort.SameEnd a then
          some (s.add ⟨ipprotoTcp, processId.toUInt64, ⟨r, []⟩, some f⟩)
        else none
    else none

/-- A host without connections. -/
def traffic : TransitionSystem Traffic TrafficAction where
  init := ⟨0, fun _ => ⟨0, 0, ⟨webRequest, []⟩, none⟩, 0⟩
  step := trafficStep platform filterId

/-- A connection on whose socket the redirect records of a redirected one are set is reported as
redirected by the callout. -/
def RecordsKnown (s : Traffic) : TrafficAction → Prop
  | .classify f k => (s.flow f).records ≠ none → k.kernel.redirectState = .redirectedBySelf
  | _ => True

instance (s : Traffic) : DecidablePred (RecordsKnown s)
  | .classify f k => inferInstanceAs (Decidable
      ((s.flow f).records ≠ none → k.kernel.redirectState = .redirectedBySelf))
  | .register _ | .connect _ _ _ | .modify _ _ | .relay _ _ _ _ _ => instDecidableTrue

/-! ### Where the connections of the proxy come from -/

variable {platform filterId}

/-- A filter has replaced the version `u` of a connection by the version `v`. -/
def Connection.Replaced (c : Connection) (filterId : UInt64) (v u : ConnectRequest) : Prop :=
  v.modifierFilterId = filterId ∧ ∃ newer older, c.history = newer ++ v :: u :: older

/-- A version that is applied later replaces nothing in between. -/
theorem Connection.Replaced.push {c : Connection} {v u : ConnectRequest}
    (h : c.Replaced filterId v u) (w : ConnectRequest) : (c.push w).Replaced filterId v u := by
  obtain ⟨hv, newer, older, hist⟩ := h
  exact ⟨hv, w :: newer, older, by rw [history_push, hist, List.cons_append]⟩

/-- A version of the filter replaced one, unless the application made it. -/
theorem Connection.exists_replaced {c : Connection} {v : ConnectRequest} (hv : v ∈ c.versions)
    (he : v.modifierFilterId = filterId) : ∃ u, c.Replaced filterId v u := by
  obtain ⟨newer, older, hsplit⟩ := List.append_of_mem hv
  have hist : c.history = newer ++ v :: (older ++ [c.original]) := by
    rw [history, hsplit, List.append_assoc, List.cons_append]
  cases older with
  | nil => exact ⟨c.original, he, newer, [], hist⟩
  | cons u older => exact ⟨u, he, newer, older ++ [c.original], hist⟩

/-- What a filter has replaced before another version is applied, and what that version replaces. -/
theorem Connection.Replaced.of_push {c : Connection} {w v u : ConnectRequest}
    (h : (c.push w).Replaced filterId v u) :
    v = w ∧ w.modifierFilterId = filterId ∧ u = c.latest ∨ c.Replaced filterId v u := by
  obtain ⟨hv, newer, older, hist⟩ := h
  rw [history_push] at hist
  cases newer with
  | nil =>
    obtain ⟨rfl, htail⟩ := List.cons.inj hist
    refine .inl ⟨rfl, hv, ?_⟩
    have hhead : c.history.head? = some u := by rw [htail]; rfl
    rw [history] at hhead
    cases hc : c.versions with
    | nil => simpa [latest, hc] using hhead.symm
    | cons x xs => simpa [latest, hc] using hhead.symm
  | cons x newer => exact .inr ⟨hv, newer, older, (List.cons.inj hist).2⟩

/-- The versions of a filter among those of a connection. -/
theorem Connection.redirections_push (c : Connection) (w : ConnectRequest) :
    (c.push w).redirections filterId =
      c.redirections filterId + if w.modifierFilterId = filterId then 1 else 0 := by
  simp [redirections, List.countP_cons]

namespace SockAddrStorage

variable {a b d : SockAddrStorage}

theorem SameEnd.trans (h : a.SameEnd b) (h' : b.SameEnd d) : a.SameEnd d :=
  ⟨h.1.trans h'.1, h.2.1.trans h'.2.1, h.2.2.trans h'.2.2⟩

/-- Port 80 in network order. -/
theorem sinPort_of_port (h : a.port = 80) : a.sinPort = (0, 80) := by
  have hlo := a.sinPort.2.toNat_lt
  have hport : a.sinPort.1.toNat * 256 + a.sinPort.2.toNat = 80 := h
  refine Prod.ext (UInt8.toNat_inj.mp ?_) (UInt8.toNat_inj.mp ?_)
  · change _ = 0
    omega
  · change _ = 80
    omega

end SockAddrStorage

/-- What the callout applies to a connection of which its conditions hold: its context leads to the
address it replaces, which has port 80. -/
theorem Flow.Matches.applied {f : Flow} (hf : f.Matches) {k : ClassifyCall} {r : ClassifyResult}
    (hr : k.run platform filterId f.connection = some r) {v : ConnectRequest}
    (hv : r.applied = some v) :
    v.modifierFilterId = filterId ∧ (∀ u ∈ f.connection.history, u.modifierFilterId ≠ filterId) ∧
      k.kernel.redirectState ≠ .redirectedBySelf ∧
      (RedirectContext.ofBytes v.publishedContext).remote.SameEnd
        f.connection.latest.remoteAddressAndPort ∧
      f.connection.latest.remoteAddressAndPort.sinPort = (0, 80) := by
  obtain ⟨hred, h, -, b, rfl⟩ := classifyCallback_applied hr hv
  refine ⟨rfl, hred.history, hred.state, ?_, ?_⟩
  · rw [ConnectRequest.publishedContext_redirectTo]
    refine SockAddrStorage.sockaddrIn_eq fun i hi => ?_
    exact publishedContext_decoded _ b (hi.trans_le platform.sockaddrIn_le)
  · exact SockAddrStorage.sinPort_of_port (hf ⟨.ipRemotePort, 80⟩ (by simp [filterConditions]))

namespace Traffic

variable {s s' : Traffic}

/-- Each connection was redirected at most once, with a context that leads to where it went, at
port 80; and those of the proxy go there and were not redirected. -/
structure Routed (filterId : UInt64) (s : Traffic) : Prop where
  once : ∀ f < s.next, (s.flow f).connection.redirections filterId ≤ 1
  context : ∀ f < s.next, ∀ v u, (s.flow f).connection.Replaced filterId v u →
    (RedirectContext.ofBytes v.publishedContext).remote.SameEnd u.remoteAddressAndPort ∧
      u.remoteAddressAndPort.sinPort = (0, 80)
  relayed : ∀ f < s.next, ∀ m, (s.flow f).records = some m →
    (s.flow f).connection.redirections filterId = 0 ∧ m < f ∧
      ∃ v u, (s.flow m).connection.Replaced filterId v u ∧
        (s.flow f).connection.original.remoteAddressAndPort.SameEnd u.remoteAddressAndPort

/-- A call of the callout that applies nothing. -/
theorem setConnection_self (s : Traffic) (f : FlowId) :
    s.setConnection f (s.flow f).connection = s := by
  have hflow : Function.update s.flow f (s.flow f) = s.flow := Function.update_eq_self _ _
  exact congrArg (fun g => { s with flow := g }) hflow

/-- A version is applied to a connection. -/
theorem Routed.push (h : s.Routed filterId) {f : FlowId} (hf : f < s.next) {w : ConnectRequest}
    (hw : w.modifierFilterId = filterId →
      (s.flow f).connection.redirections filterId = 0 ∧ (s.flow f).records = none ∧
      (RedirectContext.ofBytes w.publishedContext).remote.SameEnd
        (s.flow f).connection.latest.remoteAddressAndPort ∧
      (s.flow f).connection.latest.remoteAddressAndPort.sinPort = (0, 80)) :
    (s.setConnection f ((s.flow f).connection.push w)).Routed filterId := by
  have other : ∀ g ≠ f, (s.setConnection f ((s.flow f).connection.push w)).flow g = s.flow g :=
    fun g hg => Function.update_of_ne hg _ _
  have self : (s.setConnection f ((s.flow f).connection.push w)).flow f =
      { s.flow f with connection := (s.flow f).connection.push w } := Function.update_self _ _ _
  have replaced : ∀ g v u, (s.flow g).connection.Replaced filterId v u →
      ((s.setConnection f ((s.flow f).connection.push w)).flow g).connection.Replaced filterId
        v u := by
    intro g v u hg
    by_cases hgf : g = f
    · subst hgf
      rw [self]
      exact hg.push w
    · rwa [other g hgf]
  refine ⟨fun g hg => ?_, fun g hg v u hvu => ?_, fun g hg m hm => ?_⟩
  · by_cases hgf : g = f
    · subst hgf
      rw [self, Connection.redirections_push]
      have honce := h.once g hf
      split_ifs with hid
      · have hzero := (hw hid).1
        omega
      · exact honce
    · rw [other g hgf]
      exact h.once g hg
  · by_cases hgf : g = f
    · subst hgf
      rw [self] at hvu
      rcases hvu.of_push with ⟨rfl, hid, rfl⟩ | hold
      · exact (hw hid).2.2
      · exact h.context g hf v u hold
    · rw [other g hgf] at hvu
      exact h.context g hg v u hvu
  · by_cases hgf : g = f
    · subst hgf
      rw [self] at hm ⊢
      obtain ⟨hzero, hlt, v, u, hvu, hend⟩ := h.relayed g hf m hm
      have hid : w.modifierFilterId ≠ filterId := fun hid => by
        simp [(hw hid).2.1] at hm
      refine ⟨?_, hlt, v, u, replaced m v u hvu, hend⟩
      rw [Connection.redirections_push, hzero, if_neg hid]
    · rw [other g hgf] at hm ⊢
      obtain ⟨hzero, hlt, v, u, hvu, hend⟩ := h.relayed g hg m hm
      exact ⟨hzero, hlt, v, u, replaced m v u hvu, hend⟩

/-- A connection is added. -/
theorem Routed.add (h : s.Routed filterId) {f : Flow} {r : ConnectRequest}
    (hr : f.connection = ⟨r, []⟩) (hid : r.modifierFilterId ≠ filterId)
    (hrec : ∀ m, f.records = some m → m < s.next ∧
      ∃ v u, (s.flow m).connection.Replaced filterId v u ∧
        r.remoteAddressAndPort.SameEnd u.remoteAddressAndPort) :
    (s.add f).Routed filterId := by
  have old : ∀ g < s.next, (s.add f).flow g = s.flow g := fun g hg =>
    Function.update_of_ne hg.ne _ _
  have new : (s.add f).flow s.next = f := Function.update_self _ _ _
  have cases : ∀ g < (s.add f).next, g < s.next ∨ g = s.next := fun g hg =>
    Nat.lt_succ_iff_lt_or_eq.mp hg
  have hzero : f.connection.redirections filterId = 0 := by
    simp [hr, Connection.redirections, Connection.history, hid]
  refine ⟨fun g hg => ?_, fun g hg v u hvu => ?_, fun g hg m hm => ?_⟩
  · rcases cases g hg with hlt | rfl
    · rw [old g hlt]
      exact h.once g hlt
    · rw [new, hzero]
      exact Nat.zero_le _
  · rcases cases g hg with hlt | rfl
    · rw [old g hlt] at hvu
      exact h.context g hlt v u hvu
    · rw [new, hr] at hvu
      obtain ⟨-, newer, older, hist⟩ := hvu
      have hlen := congrArg List.length hist
      simp only [Connection.history, List.nil_append, List.length_append, List.length_cons,
        List.length_nil] at hlen
      omega
  · rcases cases g hg with hlt | rfl
    · rw [old g hlt] at hm ⊢
      obtain ⟨hz, hmg, v, u, hvu, hend⟩ := h.relayed g hlt m hm
      exact ⟨hz, hmg, v, u, by rwa [old m (hmg.trans hlt)], hend⟩
    · rw [new] at hm ⊢
      obtain ⟨hlt, v, u, hvu, hend⟩ := hrec m hm
      exact ⟨hzero, hlt, v, u, by rwa [old m hlt], by rwa [hr]⟩

theorem Routed.step {a : TrafficAction} (h : s.Routed filterId) (hG : RecordsKnown s a)
    (hstep : (traffic platform filterId).step s a = some s') : s'.Routed filterId := by
  change trafficStep platform filterId s a = some s' at hstep
  cases a with
  | register p =>
    obtain rfl := Option.some.inj hstep
    exact ⟨h.once, h.context, h.relayed⟩
  | connect protocol processId r =>
    obtain ⟨hid, ⟨⟩⟩ := Option.ite_none_right_eq_some.mp hstep
    exact h.add rfl hid nofun
  | classify f k =>
    obtain ⟨⟨hf, hmatch, -⟩, hstep⟩ := Option.ite_none_right_eq_some.mp hstep
    obtain ⟨c, hc, rfl⟩ := Option.map_eq_some_iff.mp hstep
    obtain ⟨r, hr, rfl⟩ := Option.map_eq_some_iff.mp hc
    cases hv : r.applied with
    | none =>
      change (s.setConnection f (s.flow f).connection).Routed filterId
      rwa [setConnection_self]
    | some v =>
      obtain ⟨-, hown, hstate, hctx, hport⟩ := hmatch.applied hr hv
      refine h.push hf fun _ => ⟨?_, ?_, hctx, hport⟩
      · simpa [Connection.redirections, List.countP_eq_zero] using hown
      · by_contra hrec
        exact hstate (hG hrec)
  | modify f v =>
    obtain ⟨hf, hstep⟩ := Option.ite_none_right_eq_some.mp hstep
    obtain ⟨c, hc, rfl⟩ := Option.map_eq_some_iff.mp hstep
    obtain ⟨hid, ⟨⟩⟩ := Option.ite_none_right_eq_some.mp hc
    exact h.push hf fun hv => absurd hv hid
  | relay f p T q r =>
    obtain ⟨⟨hf, hid, hctx⟩, hstep⟩ := Option.ite_none_right_eq_some.mp hstep
    split at hstep
    · obtain rfl := Option.some.inj hstep
      exact h
    next a ha =>
      obtain ⟨hend, ⟨⟩⟩ := Option.ite_none_right_eq_some.mp hstep
      refine h.add rfl hid fun m hm => ?_
      obtain rfl := Option.some.inj hm
      refine ⟨hf, ?_⟩
      cases hq : q.queryContext with
      | none => simp [initRemoteConnection, hq] at ha
      | some bs =>
        obtain ⟨v, hv, hbs⟩ := Option.map_eq_some_iff.mp (hctx bs hq)
        have hmem := List.mem_of_find?_eq_some hv
        have hvid : v.modifierFilterId = filterId := by simpa using List.find?_some hv
        obtain ⟨u, hvu⟩ := Connection.exists_replaced hmem hvid
        refine ⟨v, u, hvu, hend.trans ?_⟩
        have hto := (h.context f hf v u hvu).1
        rw [initRemoteConnection_connected hq] at ha
        obtain ⟨-, ha⟩ := Option.ite_none_right_eq_some.mp ha
        rwa [← Option.some.inj ha, ← hbs]

theorem routed_of_reachable (hs : (traffic platform filterId).Reachable RecordsKnown s) :
    s.Routed filterId :=
  hs.invariant ⟨nofun, nofun, nofun⟩ fun _ _ _ h hG hstep => h.step hG hstep

/-- A connection of the proxy belongs to one of an application. -/
theorem Routed.proxied (h : s.Routed filterId) {f m : FlowId} (hf : f < s.next)
    (hm : (s.flow f).records = some m) :
    (s.flow f).connection.redirections filterId = 0 ∧ m < f ∧ (s.flow m).records = none ∧
      ∃ v u, (s.flow m).connection.Replaced filterId v u ∧
        (s.flow f).connection.original.remoteAddressAndPort.SameEnd u.remoteAddressAndPort ∧
        u.remoteAddressAndPort.sinPort = (0, 80) := by
  obtain ⟨hzero, hlt, v, u, hvu, hend⟩ := h.relayed f hf m hm
  have hmn : m < s.next := hlt.trans hf
  refine ⟨hzero, hlt, ?_, v, u, hvu, hend, (h.context m hmn v u hvu).2⟩
  by_contra hrec
  obtain ⟨m', hm'⟩ := Option.ne_none_iff_exists'.mp hrec
  have hnone := (h.relayed m hmn m' hm').1
  obtain ⟨hv, newer, older, hist⟩ := hvu
  rw [Connection.redirections, List.countP_eq_zero] at hnone
  exact hnone v (by simp [hist]) (by simpa using hv)

end Traffic

/-- However the connections of a host, the calls of the callout and of `InitRemoteConnection`, the
changes by other filters and the registrations interleave, if the platform knows the redirect
records: the driver redirects each connection at most once. A connection of the proxy belongs to an
older one that an application made and the driver redirected; it goes to the address that one had
when it was redirected, at port 80; and it is not redirected itself. -/
theorem proxied_once {s : Traffic} (hs : (traffic platform filterId).Reachable RecordsKnown s)
    {f : FlowId} (hf : f < s.next) :
    (s.flow f).connection.redirections filterId ≤ 1 ∧
    ∀ m, (s.flow f).records = some m →
      (s.flow f).connection.redirections filterId = 0 ∧ m < f ∧ (s.flow m).records = none ∧
      ∃ v u, (s.flow m).connection.Replaced filterId v u ∧
        (s.flow f).connection.original.remoteAddressAndPort.SameEnd u.remoteAddressAndPort ∧
        u.remoteAddressAndPort.sinPort = (0, 80) := by
  have h := Traffic.routed_of_reachable hs
  exact ⟨h.once f hf, fun m hm => h.proxied hf hm⟩

/-- The request to the web server is redirected and relayed by the proxy with the process id 42,
while the driver has the id of another process; the callout is called for the new connection as
well. -/
theorem proxied_once_web : ∃ s : Traffic, (s.flow 1).records = some 0 ∧
    (s.flow 1).connection.redirections 7 = 0 ∧
    ∃ v u, (s.flow 0).connection.Replaced 7 v u ∧
      (s.flow 1).connection.original.remoteAddressAndPort.SameEnd u.remoteAddressAndPort := by
  let call (p : UInt64) (k : KernelOutcomes) : ClassifyCall :=
    ⟨99, k, ⟨50000, p⟩, 0, ⟨0, fwpsRightActionWrite⟩, 1⟩
  let context : List UInt8 := (List.ofFn webServer).take 16
  obtain ⟨s, hs, hn, hrec⟩ : ∃ s, (traffic .x64 7).Reachable RecordsKnown s ∧ s.next = 2 ∧
      (s.flow 1).records = some 0 :=
    TransitionSystem.exists_reachable_of_runChecked
      [.register 99, .connect ipprotoTcp 43 webRequest, .classify 0 (call 43 kernelOk),
        .relay 0 42 .empty ⟨true, some context, some 12, true, true⟩ webRequest,
        .classify 1 (call 42 { kernelOk with redirectState := .redirectedBySelf })]
      (by decide +kernel)
  obtain ⟨hzero, -, -, v, u, hvu, hend, -⟩ :=
    (proxied_once (f := 1) hs (by rw [hn]; decide)).2 0 hrec
  exact ⟨s, hrec, hzero, v, u, hvu, hend⟩

end IocpProxy
