import IocpProxy.Driver.Exits
import IocpProxy.Proxy.InitRemoteConnection

/-!
# The original destination

The driver publishes as many bytes of the redirect context as two pointers have, which is not the
array of two addresses but covers the address of an IPv4 destination on every platform. So the
proxy, which asks for the whole array and connects to its first element, connects to where the
application wanted to, whatever else is in the two addresses. The two addresses themselves arrive
only if what is cut off is zero.

## Main results

* `IocpProxy.publishedContext_decoded` : the proxy reads the start of the original remote address.
* `IocpProxy.destination_preserved`.
* `IocpProxy.redirectContext_eq_iff`, `IocpProxy.redirectContext_cut`.
-/

namespace IocpProxy

variable {platform : Platform} {proxyAppProcessID : Int32} {k : KernelOutcomes} {i : ClassifyInput}
  {filter : Filter} {out : ClassifyOut} {c : Connection} {fuel : ℕ}

/-- Two pointers are at least as long as the address of an IPv4 destination. -/
theorem Platform.sockaddrIn_le (p : Platform) : 8 ≤ p.sizeofPtr * 2 := by
  cases p <;> decide

namespace ConnectRequest

/-- Of the stored array, the first bytes are published. -/
theorem publishedContext_storeContext (r : ConnectRequest) (b : Block) :
    (r.storeContext platform b).publishedContext =
      ((RedirectContext.ofBytes b.bytes).store r.remoteAddressAndPort
        r.localAddressAndPort).bytes.take (platform.sizeofPtr * 2) := rfl

/-- Overwriting the remote address does not touch the redirect context. -/
theorem publishedContext_redirectTo (r : ConnectRequest) (h : ℕ) (p : Int32) :
    (r.redirectTo h p).publishedContext = r.publishedContext := rfl

/-- Afterwards the remote address is the proxy's; the port 1598 is `0x063E` in network order. -/
theorem remote_redirectTo (r : ConnectRequest) (h : ℕ) (p : Int32) :
    (r.redirectTo h p).remoteAddressAndPort.sinAddr = (127, 0, 0, 1) ∧
      (r.redirectTo h p).remoteAddressAndPort.sinPort = (0x06, 0x3E) :=
  ⟨by simp [redirectTo, redirectIp], by rw [redirectTo, SockAddrStorage.sinPort_setPort]; decide⟩

end ConnectRequest

/-- What the proxy reads from the published bytes starts with the original remote address. -/
theorem publishedContext_decoded (r : ConnectRequest) (b : Block)
    {i : Fin sizeofSockAddrStorage} (hi : (i : ℕ) < platform.sizeofPtr * 2) :
    (RedirectContext.ofBytes (r.storeContext platform b).publishedContext).remote i =
      r.remoteAddressAndPort i := by
  rw [r.publishedContext_storeContext, RedirectContext.remote_ofBytes_take, if_pos hi,
    RedirectContext.remote_store]

/-- When `ClassifyCallback` applies a version, its remote address is 127.0.0.1:1598, and the proxy
that gets the published bytes of the version's redirect context connects, if the calls before
succeed, to an address with the family, port and IPv4 address the remote address had before. -/
theorem destination_preserved {r : ClassifyResult}
    (hr : classifyCallback platform proxyAppProcessID k i filter out c fuel = some r)
    {v : ConnectRequest} (hv : r.applied = some v) {T : HandleTable} {q : InitCalls}
    (hq : q.queryContext = some v.publishedContext) :
    (v.remoteAddressAndPort.sinAddr = (127, 0, 0, 1) ∧
        v.remoteAddressAndPort.sinPort = (0x06, 0x3E)) ∧
      ∃ a : SockAddrStorage,
        (initRemoteConnection T q).connected =
          (if q.queryRecords = true ∧ q.socket ≠ none ∧ q.setRecords = true then some a
            else none) ∧
        a.sinFamily = c.latest.remoteAddressAndPort.sinFamily ∧
        a.sinPort = c.latest.remoteAddressAndPort.sinPort ∧
        a.sinAddr = c.latest.remoteAddressAndPort.sinAddr := by
  obtain ⟨-, h, -, b, rfl⟩ := classifyCallback_applied hr hv
  rw [ConnectRequest.publishedContext_redirectTo] at hq
  refine ⟨ConnectRequest.remote_redirectTo _ _ _, _, initRemoteConnection_connected hq,
    SockAddrStorage.sockaddrIn_eq fun i hi => ?_⟩
  exact publishedContext_decoded _ b (hi.trans_le platform.sockaddrIn_le)

/-- The request is redirected, and the proxy connects to the web server. -/
theorem destination_preserved_web :
    ∃ r v a, classifyCallback .x64 42 kernelOk ⟨50000, 43⟩ ⟨7, 0⟩ ⟨0, fwpsRightActionWrite⟩
        ⟨webRequest, []⟩ 1 = some r ∧ r.applied = some v ∧
      (initRemoteConnection .empty ⟨true, some v.publishedContext, some 12, true, true⟩).connected =
        some a ∧ a.sinPort = (0, 80) ∧ a.sinAddr = (93, 184, 216, 34) := by
  obtain ⟨r, v, hr, hv⟩ : ∃ r v, classifyCallback .x64 42 kernelOk ⟨50000, 43⟩ ⟨7, 0⟩
      ⟨0, fwpsRightActionWrite⟩ ⟨webRequest, []⟩ 1 = some r ∧ r.applied = some v :=
    ⟨_, _, rfl, rfl⟩
  obtain ⟨-, a, ha, -, hport, haddr⟩ := destination_preserved hr hv (T := .empty)
    (q := ⟨true, some v.publishedContext, some 12, true, true⟩) rfl
  exact ⟨r, v, a, hr, hv, by simpa using ha, hport, haddr⟩

/-! ### The whole array -/

/-- The pair of addresses that the driver stores. -/
def Connection.addresses (c : Connection) : RedirectContext :=
  ![c.latest.remoteAddressAndPort, c.latest.localAddressAndPort]

theorem RedirectContext.store_eq (d : RedirectContext) (a b : SockAddrStorage) :
    d.store a b = ![a, b] := by
  ext e : 1
  obtain rfl | rfl : e = 0 ∨ e = 1 := by omega
  · simp [store]
  · simp [store]

theorem Platform.sizeofPtr_le (p : Platform) : p.sizeofPtr * 2 ≤ sizeofSockAddrStorage := by
  cases p <;> decide

/-- When `ClassifyCallback` applies a version, what a process decodes from the published bytes is
the pair that was stored exactly if the bytes of the remote address that two pointers do not cover
are zero, and all bytes of the local address. -/
theorem redirectContext_eq_iff {r : ClassifyResult}
    (hr : classifyCallback platform proxyAppProcessID k i filter out c fuel = some r)
    {v : ConnectRequest} (hv : r.applied = some v) :
    RedirectContext.ofBytes v.publishedContext = c.addresses ↔
      (∀ j : Fin sizeofSockAddrStorage, platform.sizeofPtr * 2 ≤ (j : ℕ) →
        c.latest.remoteAddressAndPort j = 0) ∧ ∀ j, c.latest.localAddressAndPort j = 0 := by
  obtain ⟨-, h, -, b, rfl⟩ := classifyCallback_applied hr hv
  rw [ConnectRequest.publishedContext_redirectTo, ConnectRequest.publishedContext_storeContext,
    RedirectContext.store_eq]
  exact c.addresses.ofBytes_take_eq_iff platform.sizeofPtr_le

/-- The request to the web server leaves the local address to the system. -/
theorem redirectContext_eq_iff_web :
    ∃ r v, classifyCallback .x64 42 kernelOk ⟨50000, 43⟩ ⟨7, 0⟩ ⟨0, fwpsRightActionWrite⟩
        ⟨webRequest, []⟩ 1 = some r ∧ r.applied = some v ∧
      RedirectContext.ofBytes v.publishedContext = ![webServer, fun _ => 0] := by
  obtain ⟨r, v, hr, hv⟩ : ∃ r v, classifyCallback .x64 42 kernelOk ⟨50000, 43⟩ ⟨7, 0⟩
      ⟨0, fwpsRightActionWrite⟩ ⟨webRequest, []⟩ 1 = some r ∧ r.applied = some v :=
    ⟨_, _, rfl, rfl⟩
  refine ⟨r, v, hr, hv, (redirectContext_eq_iff hr hv).mpr ⟨fun j hj => ?_, fun j => rfl⟩⟩
  have hj' : 16 ≤ (j : ℕ) := hj
  exact List.getD_eq_default _ _ (by simp only [List.length_cons, List.length_nil]; omega)

/-- The address 10.0.0.5:50000. -/
def localEnd : SockAddrStorage := fun i => [2, 0, 0xC3, 0x50, 10, 0, 0, 5].getD i 0

/-- A request from this address: the local address does not arrive. -/
theorem redirectContext_cut :
    ∃ r v, classifyCallback .x64 42 kernelOk ⟨50000, 43⟩ ⟨7, 0⟩ ⟨0, fwpsRightActionWrite⟩
        ⟨{ webRequest with localAddressAndPort := localEnd }, []⟩ 1 = some r ∧
      r.applied = some v ∧
      RedirectContext.ofBytes v.publishedContext 1 4 = 0 ∧
      RedirectContext.ofBytes v.publishedContext ≠ ![webServer, localEnd] := by
  obtain ⟨r, v, hr, hv, hbyte⟩ : ∃ r v, classifyCallback .x64 42 kernelOk ⟨50000, 43⟩ ⟨7, 0⟩
      ⟨0, fwpsRightActionWrite⟩ ⟨{ webRequest with localAddressAndPort := localEnd }, []⟩ 1 =
        some r ∧
      r.applied = some v ∧ RedirectContext.ofBytes v.publishedContext 1 4 = 0 :=
    ⟨_, _, rfl, rfl, by decide +kernel⟩
  refine ⟨r, v, hr, hv, hbyte, fun h => ?_⟩
  rw [h] at hbyte
  exact absurd hbyte (by decide)

end IocpProxy
