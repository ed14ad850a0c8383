import IocpProxy.Library.HandleTable
import IocpProxy.SockAddr

/-!
# Connecting to the original destination

`InitRemoteConnection` asks the filtering platform for the redirect records and the redirect
context of the accepted socket, opens a socket for the other side, and connects it to the address
in the context. Every call may fail, and all failures meet at one label that closes the new socket
if the local variable for it is not null.

## Main definitions

* `IocpProxy.InitCalls` : the outcomes of the calls.
* `IocpProxy.initRemoteConnection` : the handles afterwards, the socket of the context returned,
  and the address given to `WSAConnect`.

## Main results

* `IocpProxy.initRemoteConnection_remote` : when the function succeeds, and what it opens.
-/

namespace IocpProxy

/-- The outcomes of the calls of `InitRemoteConnection`, in order. -/
structure InitCalls where
  /-- `SIO_QUERY_WFP_CONNECTION_REDIRECT_RECORDS` succeeds. -/
  queryRecords : Bool
  /-- The bytes `SIO_QUERY_WFP_CONNECTION_REDIRECT_CONTEXT` stores in the zeroed
  `pRedirectContext`, if it succeeds. -/
  queryContext : Option (List UInt8)
  /-- The number of the socket `WSASocket` returns; missing when `INVALID_SOCKET`. -/
  socket : Option ℕ
  /-- `SIO_SET_WFP_CONNECTION_REDIRECT_RECORDS` succeeds. -/
  setRecords : Bool
  /-- `WSAConnect` succeeds. -/
  connect : Bool
  deriving DecidableEq

/-- Every call succeeds. -/
def InitCalls.Succeed (k : InitCalls) : Prop :=
  k.queryRecords = true ∧ k.queryContext.isSome = true ∧ k.socket.isSome = true ∧
    k.setRecords = true ∧ k.connect = true

instance (k : InitCalls) : Decidable k.Succeed := inferInstanceAs (Decidable (_ ∧ _))

/-- What `InitRemoteConnection` leaves behind. -/
structure InitResult where
  handles : HandleTable
  /-- `m_Socket` of the context returned; missing when the function returns `nullptr`. -/
  remote : Option Handle
  /-- The address passed to `WSAConnect`, if the call is reached. -/
  connected : Option SockAddrStorage

/-- `InitRemoteConnection`, from the handles of the process. -/
def initRemoteConnection (T : HandleTable) (k : InitCalls) : InitResult :=
  if k.queryRecords = false then
    ⟨T, none, none⟩
  else match k.queryContext with
    | none => ⟨T, none, none⟩
    | some bs =>
      -- the first element of `pRedirectContext` is copied out
      let pRemoteSockAddrStorage := (RedirectContext.ofBytes bs).remote
      match k.socket with
      | none => ⟨T.close none, none, none⟩
      | some v =>
        let T' := T.open v
        if k.setRecords = false then
          ⟨T'.close (some (T.fresh v)), none, none⟩
        else if k.connect = false then
          ⟨T'.close (some (T.fresh v)), none, some pRemoteSockAddrStorage⟩
        else
          ⟨T', some (T.fresh v), some pRemoteSockAddrStorage⟩

/-- The function returns a context exactly when every call succeeds; it then has opened one
socket, owned by that context, and connected it to the first address of the redirect context. -/
theorem initRemoteConnection_remote {T : HandleTable} {k : InitCalls} {h : Handle}
    (hr : (initRemoteConnection T k).remote = some h) :
    ∃ v bs, k.socket = some v ∧ k.queryContext = some bs ∧ h = T.fresh v ∧
      (initRemoteConnection T k).handles = T.open v ∧
      (initRemoteConnection T k).connected = some (RedirectContext.ofBytes bs).remote := by
  unfold initRemoteConnection at hr ⊢
  by_cases h1 : k.queryRecords = false
  · simp [h1] at hr
  cases hq : k.queryContext with
  | none => simp [h1, hq] at hr
  | some bs =>
    cases hv : k.socket with
    | none => simp [h1, hq, hv] at hr
    | some v =>
      by_cases h2 : k.setRecords = false
      · simp [h1, hq, hv, h2] at hr
      by_cases h3 : k.connect = false
      · simp [h1, hq, hv, h2, h3] at hr
      · simp only [h1, hq, hv, h2, h3] at hr ⊢
        exact ⟨v, bs, rfl, rfl, (Option.some.inj hr).symm, rfl, rfl⟩

/-- What the function does to the handles of the process: a failed `WSASocket` ends in a close of
the invalid handle, a later failure in a close of the new one. -/
theorem initRemoteConnection_handles (T : HandleTable) (k : InitCalls) :
    ((initRemoteConnection T k).handles = T ∧ (initRemoteConnection T k).remote = none) ∨
      ((initRemoteConnection T k).handles = T.close none ∧
        (initRemoteConnection T k).remote = none) ∨
      ∃ v ∈ k.socket,
        ((initRemoteConnection T k).handles = (T.open v).close (some (T.fresh v)) ∧
          (initRemoteConnection T k).remote = none) ∨
        ((initRemoteConnection T k).handles = T.open v ∧
          (initRemoteConnection T k).remote = some (T.fresh v)) := by
  unfold initRemoteConnection
  by_cases h1 : k.queryRecords = false
  · simp [h1]
  cases hq : k.queryContext with
  | none => simp [h1]
  | some bs =>
    cases hv : k.socket with
    | none => simp [h1]
    | some v =>
      refine .inr (.inr ⟨v, rfl, ?_⟩)
      by_cases h2 : k.setRecords = false
      · simp [h1, h2]
      by_cases h3 : k.connect = false
      · simp [h1, h2, h3]
      · simp [h1, h2, h3]

/-- `WSAConnect` is called when the calls before it succeed, with the first address of the redirect
context. -/
theorem initRemoteConnection_connected {T : HandleTable} {k : InitCalls} {bs : List UInt8}
    (hq : k.queryContext = some bs) :
    (initRemoteConnection T k).connected =
      if k.queryRecords = true ∧ k.socket ≠ none ∧ k.setRecords = true then
        some (RedirectContext.ofBytes bs).remote
      else none := by
  unfold initRemoteConnection
  cases hv : k.socket with
  | none => by_cases h1 : k.queryRecords = false <;> simp [h1, hq]
  | some v =>
    by_cases h1 : k.queryRecords = false
    · simp [h1]
    by_cases h2 : k.setRecords = false
    · simp [h1, hq, h2]
    · by_cases h3 : k.connect = false <;> simp [h1, hq, h2, h3]

/-- When every call succeeds, a context is returned. -/
theorem initRemoteConnection_ne_none {T : HandleTable} {k : InitCalls} (hk : k.Succeed) :
    (initRemoteConnection T k).remote ≠ none := by
  obtain ⟨hrec, hctx, hsock, hset, hcon⟩ := hk
  obtain ⟨bs, hbs⟩ := Option.isSome_iff_exists.mp hctx
  obtain ⟨v, hv⟩ := Option.isSome_iff_exists.mp hsock
  simp [initRemoteConnection, hrec, hbs, hv, hset, hcon]

/-- Whatever fails, no handle of the process is opened again. -/
theorem initRemoteConnection_later {T : HandleTable} {k : InitCalls} (hT : T.Numbered)
    (hk : ∀ v ∈ k.socket, T.owner v = none) : T.Later (initRemoteConnection T k).handles := by
  rcases initRemoteConnection_handles T k with ⟨e, -⟩ | ⟨e, -⟩ | ⟨v, hv, ⟨e, -⟩ | ⟨e, -⟩⟩ <;> rw [e]
  · exact .refl hT
  · exact .close hT _
  · have hopen : T.Later (T.open v) := .open hT (hk v hv)
    exact hopen.trans (.close hopen.1 _)
  · exact .open hT (hk v hv)

end IocpProxy
