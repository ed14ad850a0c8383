import IocpProxy.Driver.ConnectRequest

/-!
# The callout of the driver

`ClassifyCallback` decides for a connect request whether it is redirected to the proxy. If it is,
the original addresses are stored in a block of memory that becomes the redirect context, the
remote address is overwritten with the proxy's, and the change is applied as a new version. Every
kernel call whose status the function tests may fail, and all paths meet at the label `Exit`, which
releases the handles.

## Main definitions

* `IocpProxy.KernelOutcomes`, `IocpProxy.KernelCall` : the outcomes of the kernel calls, and the
  calls with an effect that outlives them.
* `IocpProxy.hlprNewArray` : `HLPR_NEW_ARRAY`.
* `IocpProxy.redirectedBefore` : the walk over the previous versions.
* `IocpProxy.classifyCallback`.

## Main results

* `IocpProxy.redirectedBefore_iff` : the walk finds the versions of the filter at any depth.
* `IocpProxy.ClassifyLocals.applied_exit` : nothing is applied after the label `Exit`.
-/

namespace IocpProxy

/-! ### Inputs -/

/-- The platforms the driver is built for. -/
inductive Platform
  | win32
  | x64
  | arm
  | arm64
  deriving DecidableEq

/-- `sizeof` of a pointer. -/
def Platform.sizeofPtr : Platform → ℕ
  | .win32 | .arm => 4
  | .x64 | .arm64 => 8

/-- `REDIRECT_PORT`. -/
def redirectPort : UInt16 := 1598

/-- `REDIRECT_IP`, in network order. -/
def redirectIp : UInt8 × UInt8 × UInt8 × UInt8 := (127, 0, 0, 1)

/-- `FWPS_RIGHT_ACTION_WRITE`. -/
def fwpsRightActionWrite : UInt32 := 0x1

/-- `FWP_ACTION_PERMIT`. -/
def fwpActionPermit : UInt32 := 0x1002

/-- `FWPS_FILTER_FLAG_CLEAR_ACTION_RIGHT`. -/
def fwpsFilterFlagClearActionRight : UInt32 := 0x1

/-- `FWPS_CLASSIFY_OUT0`. -/
structure ClassifyOut where
  actionType : UInt32
  rights : UInt32
  deriving DecidableEq

/-- `FWPS_FILTER1`. -/
structure Filter where
  filterId : UInt64
  flags : UInt32
  deriving DecidableEq

/-- The values and metadata of the request that the decision depends on. -/
structure ClassifyInput where
  /-- `FWPS_FIELD_ALE_CONNECT_REDIRECT_V4_IP_LOCAL_PORT`. -/
  sourcePort : UInt16
  processId : UInt64
  deriving DecidableEq

/-- `FWPS_CONNECTION_REDIRECT_STATE`. -/
inductive RedirectState
  | notRedirected
  | redirectedBySelf
  | redirectedByOther
  | previouslyRedirectedBySelf
  deriving DecidableEq

/-- The outcomes of the kernel calls; a missing handle is a failed call. -/
structure KernelOutcomes where
  /-- `FwpsRedirectHandleCreate0`. -/
  redirectHandle : Option ℕ
  /-- `FwpsQueryConnectionRedirectState0`. -/
  redirectState : RedirectState
  /-- `FwpsAcquireClassifyHandle0`. -/
  classifyHandle : Option ℕ
  /-- `FwpsAcquireWritableLayerDataPointer0` succeeds. -/
  writable : Bool
  /-- What that call leaves in `classifyOut`. -/
  acquiredOut : ClassifyOut
  /-- The addresses `ExAllocatePoolWithTag` returns in turn. -/
  pool : ℕ → Option ℕ
  /-- `RtlIpv4StringToAddressW` succeeds. -/
  stringToAddress : Bool

/-- A kernel call that creates, hands over or gives back something. -/
inductive KernelCall
  | redirectHandleCreate (h : ℕ)
  | redirectHandleDestroy (h : ℕ)
  | acquireClassifyHandle (h : ℕ)
  | releaseClassifyHandle (h : ℕ)
  | allocatePool (a : ℕ)
  | freePool (a : ℕ)
  | applyModifiedLayerData (r : ConnectRequest)
  deriving DecidableEq

/-- The version a call applies. -/
def KernelCall.applied? : KernelCall → Option ConnectRequest
  | .applyModifiedLayerData r => some r
  | _ => none

/-- What one call of the function did. -/
structure ClassifyResult where
  classifyOut : ClassifyOut
  calls : List KernelCall
  deriving DecidableEq

/-- The version that was applied, if any. -/
def ClassifyResult.applied (r : ClassifyResult) : Option ConnectRequest :=
  r.calls.findSome? KernelCall.applied?

/-- Every kernel call succeeds. -/
def kernelOk : KernelOutcomes where
  redirectHandle := some 1
  redirectState := .notRedirected
  classifyHandle := some 2
  writable := true
  acquiredOut := ⟨fwpActionPermit, fwpsRightActionWrite⟩
  pool := fun _ => some 0x1000
  stringToAddress := true

/-! ### Helpers -/

/-- `HLPR_NEW_ARRAY` for `count` objects of `size` bytes, where `size_t` has `bits` bits, from the
`i`-th allocation on: `none` when the loop still runs after `fuel` rounds, and `some none` when the
pointer stays null. -/
def hlprNewArray (bits size count : ℕ) (pool : ℕ → Option ℕ) : ℕ → ℕ → Option (Option Block)
  | 0, _ => none
  | fuel + 1, i =>
    -- `SAFE_SIZE` is the product, which `RtlSizeTMult` checks to fit
    if count ≠ 0 ∧ size * count < 2 ^ bits then
      match pool i with
      | some a => some (some ⟨a, List.replicate (size * count) 0⟩)
      | none => hlprNewArray bits size count pool fuel (i + 1)
    else some none

/-- `HLPR_DELETE_ARRAY`: the calls it makes. -/
def hlprDeleteArray : Option Block → List KernelCall
  | none => []
  | some b => [.freePool b.addr]

/-- The walk over the previous versions, with the counter `timesRedirected`. -/
def redirectedBefore (filterId : UInt64) : List ConnectRequest → UInt32 → Bool
  | [], _ => false
  | pConnectRequest :: previous, timesRedirected =>
    let timesRedirected :=
      if pConnectRequest.modifierFilterId = filterId then timesRedirected + 1 else timesRedirected
    if 0 < timesRedirected then true else redirectedBefore filterId previous timesRedirected

/-- `RtlUshortByteSwap`. -/
def rtlUshortByteSwap (x : UInt16) : UInt16 := x <<< 8 ||| x >>> 8

/-- A `UINT16` in memory. -/
def uint16Bytes (x : UInt16) : UInt8 × UInt8 := (x.toUInt8, (x >>> 8).toUInt8)

namespace ConnectRequest

/-- Store the two addresses in the new array and make it the redirect context, with the size the
driver computes from that of a pointer. -/
def storeContext (r : ConnectRequest) (platform : Platform) (b : Block) : ConnectRequest :=
  let pSockAddrStorage : RedirectContext :=
    (RedirectContext.ofBytes b.bytes).store r.remoteAddressAndPort r.localAddressAndPort
  { r with
    localRedirectContext := some ⟨b.addr, pSockAddrStorage.bytes⟩
    localRedirectContextSize := platform.sizeofPtr * 2 }

/-- Put the proxy's address in the place of the remote one. -/
def redirectTo (r : ConnectRequest) (redirectHandle : ℕ) (proxyAppProcessID : Int32) :
    ConnectRequest :=
  { r with
    remoteAddressAndPort := (r.remoteAddressAndPort.setAddr redirectIp).setPort
      (uint16Bytes (rtlUshortByteSwap redirectPort))
    localRedirectHandle := redirectHandle
    localRedirectTargetPID := proxyAppProcessID.toUInt32 }

end ConnectRequest

/-! ### The function -/

/-- The locals at the label `Exit`, zero when not set, and the calls made so far. -/
structure ClassifyLocals where
  classifyOut : ClassifyOut
  redirectHandle : ℕ
  classifyHandle : ℕ
  calls : List KernelCall
  deriving DecidableEq

namespace ClassifyLocals

/-- Set `actionType` to `FWP_ACTION_PERMIT`. -/
def permit (t : ClassifyLocals) : ClassifyLocals :=
  { t with classifyOut := { t.classifyOut with actionType := fwpActionPermit } }

/-- Log a call. -/
def call (t : ClassifyLocals) (k : KernelCall) : ClassifyLocals :=
  { t with calls := t.calls ++ [k] }

/-- `FwpsRedirectHandleCreate0` succeeds. -/
def created (t : ClassifyLocals) (h : ℕ) : ClassifyLocals :=
  { t.call (.redirectHandleCreate h) with redirectHandle := h }

/-- `FwpsAcquireClassifyHandle0` succeeds. -/
def acquired (t : ClassifyLocals) (h : ℕ) : ClassifyLocals :=
  { t.call (.acquireClassifyHandle h) with classifyHandle := h }

/-- What `FwpsAcquireWritableLayerDataPointer0` leaves in `classifyOut`. -/
def setOut (t : ClassifyLocals) (out : ClassifyOut) : ClassifyLocals :=
  { t with classifyOut := out }

/-- From the label `Exit` on. -/
def exit (t : ClassifyLocals) (filter : Filter) : ClassifyResult where
  classifyOut :=
    if filter.flags &&& fwpsFilterFlagClearActionRight ≠ 0 then
      { t.classifyOut with rights := t.classifyOut.rights &&& ~~~fwpsRightActionWrite }
    else t.classifyOut
  calls := t.calls ++
    (if t.classifyHandle ≠ 0 then [.releaseClassifyHandle t.classifyHandle] else []) ++
    (if t.redirectHandle ≠ 0 then [.redirectHandleDestroy t.redirectHandle] else [])

end ClassifyLocals

/-- `ClassifyCallback` from the walk over the previous versions to the label `Exit`. The allocation
loop runs for `fuel` rounds at most. -/
def modifyLayer (platform : Platform) (proxyAppProcessID : Int32) (k : KernelOutcomes)
    (filter : Filter) (c : Connection) (fuel redirectHandle : ℕ) (t : ClassifyLocals) :
    Option ClassifyLocals :=
  let pModifiedLayer := c.writableLayer filter.filterId
  if redirectedBefore filter.filterId c.history 0 = true then some t.permit
  else match hlprNewArray (8 * platform.sizeofPtr) sizeofSockAddrStorage 2 k.pool fuel 0 with
  | none => none
  | some none => some { t.permit with calls := t.calls ++ hlprDeleteArray none }
  | some (some b) =>
    let t := t.call (.allocatePool b.addr)
    let pModifiedLayer := pModifiedLayer.storeContext platform b
    if k.stringToAddress = false then some t
    else
      some (t.call (.applyModifiedLayerData
        (pModifiedLayer.redirectTo redirectHandle proxyAppProcessID)))

/-- `ClassifyCallback` from the check of the rights to the label `Exit`. -/
def classifyToExit (platform : Platform) (proxyAppProcessID : Int32) (k : KernelOutcomes)
    (i : ClassifyInput) (filter : Filter) (out : ClassifyOut) (c : Connection) (fuel : ℕ) :
    Option ClassifyLocals :=
  let t : ClassifyLocals := ⟨out, 0, 0, []⟩
  if redirectPort = i.sourcePort then some t.permit
  else if proxyAppProcessID = i.processId.toUInt32.toInt32 then some t.permit
  else match k.redirectHandle with
  | none => some t
  | some redirectHandle =>
    let t := t.created redirectHandle
    if k.redirectState = .redirectedBySelf then some t.permit
    else match k.classifyHandle with
    | none => some t
    | some classifyHandle =>
      let t := (t.acquired classifyHandle).setOut k.acquiredOut
      if k.writable = false then some t
      else modifyLayer platform proxyAppProcessID k filter c fuel redirectHandle t

/-- `ClassifyCallback` on a connect request; `none` when the allocation loop still runs after `fuel`
rounds. -/
def classifyCallback (platform : Platform) (proxyAppProcessID : Int32) (k : KernelOutcomes)
    (i : ClassifyInput) (filter : Filter) (out : ClassifyOut) (c : Connection) (fuel : ℕ) :
    Option ClassifyResult :=
  if out.rights &&& fwpsRightActionWrite = 0 then some ⟨out, []⟩
  else (classifyToExit platform proxyAppProcessID k i filter out c fuel).map fun t => t.exit filter

/-! ### What was applied -/

/-- The walk ends with a positive answer exactly when the filter made one of the versions, however
many others lie above it. -/
theorem redirectedBefore_iff {filterId : UInt64} {history : List ConnectRequest} :
    redirectedBefore filterId history 0 = true ↔ ∃ v ∈ history, v.modifierFilterId = filterId := by
  induction history with
  | nil => simp [redirectedBefore]
  | cons v previous ih =>
    rw [List.exists_mem_cons_iff, ← ih]
    by_cases hv : v.modifierFilterId = filterId <;> simp [redirectedBefore, hv]

namespace ClassifyLocals

/-- The version that was applied so far. -/
def applied (t : ClassifyLocals) : Option ConnectRequest := t.calls.findSome? KernelCall.applied?

/-- After the label `Exit`, nothing is applied. -/
@[simp] theorem applied_exit (t : ClassifyLocals) (filter : Filter) :
    (t.exit filter).applied = t.applied := by
  rw [ClassifyResult.applied, exit, List.findSome?_append, List.findSome?_append]
  split_ifs <;> simp [applied, KernelCall.applied?]

end ClassifyLocals

end IocpProxy
