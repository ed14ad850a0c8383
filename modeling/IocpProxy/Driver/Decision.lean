import IocpProxy.Driver.Destination
import IocpProxy.Driver.DeviceContext

/-!
# The decision of the callout

The callout redirects a request exactly when all its checks pass and all its calls succeed. The
process id it compares with was a `DWORD` in the proxy, went to the driver as a `LONG`, and is
compared with the low half of the id of the request. Of the layer data, the callout changes the
IPv4 address and the port of the remote address and the fields of the redirection.

Its filter is terminating, but not all exits set the action: when a call fails, and when the
request is redirected, the action stays what it was on entry or what the acquisition of the layer
data left there.

## Main definitions

* `IocpProxy.getUserAppProcessId`, `IocpProxy.updateKernelWithUserAppProcessId`.
* `IocpProxy.ToRedirect`, `IocpProxy.Redirected` : when a request is redirected, and to what.
* `IocpProxy.Permitted` : when the action is set.

## Main results

* `IocpProxy.redirect_iff`.
* `IocpProxy.permits_iff`, `IocpProxy.permits_fails`.
-/

namespace IocpProxy

/-! ### The process id of the proxy -/

/-- `GetUserAppProcessId`. -/
def getUserAppProcessId (s : DeviceState) : Int32 := s.userModeAppProcessId

/-- The request that `UpdateKernelWithUserAppProcessId` sends from the process `processId`. -/
def updateKernelWithUserAppProcessId (processId : UInt32) : Request where
  ioControlCode := ioctlWfpSetDeviceContextData
  inputBufferLength := sizeofInBuf
  outputBufferLength := 0
  input := ⟨0, 0, processId.toInt32⟩

/-! ### When a version is applied -/

variable {platform : Platform} {proxyAppProcessID : Int32} {p : UInt32} {k : KernelOutcomes}
  {i : ClassifyInput} {filter : Filter} {out : ClassifyOut} {c : Connection} {fuel : ℕ}
  {t : ClassifyLocals} {v : ConnectRequest}

/-- What has to hold for a request to be redirected to the process `p`. -/
structure ToRedirect (p : UInt32) (k : KernelOutcomes) (i : ClassifyInput) (filter : Filter)
    (out : ClassifyOut) (c : Connection) : Prop where
  rights : out.rights &&& fwpsRightActionWrite ≠ 0
  port : i.sourcePort ≠ 1598
  process : i.processId.toUInt32 ≠ p
  redirectHandle : k.redirectHandle ≠ none
  state : k.redirectState ≠ .redirectedBySelf
  classifyHandle : k.classifyHandle ≠ none
  writable : k.writable = true
  history : ∀ u ∈ c.history, u.modifierFilterId ≠ filter.filterId
  allocated : ∃ m, k.pool m ≠ none
  address : k.stringToAddress = true

/-- The layer data `v` differs from the acquired data `a` only in the IPv4 address and the port of
the remote address and in the four fields of the redirection. -/
structure Redirected (a v : ConnectRequest) : Prop where
  fields : v = { a with
    remoteAddressAndPort := v.remoteAddressAndPort
    localRedirectHandle := v.localRedirectHandle
    localRedirectTargetPID := v.localRedirectTargetPID
    localRedirectContext := v.localRedirectContext
    localRedirectContextSize := v.localRedirectContextSize }
  address : v.remoteAddressAndPort.sinAddr = (127, 0, 0, 1)
  port : v.remoteAddressAndPort.sinPort = (0x06, 0x3E)
  remote : ∀ j : Fin sizeofSockAddrStorage, (j : ℕ) < 2 ∨ 8 ≤ (j : ℕ) →
    v.remoteAddressAndPort j = a.remoteAddressAndPort j

/-- The conversions on both sides lose nothing of the 32 bits that are compared. -/
theorem processId_eq_iff {x : UInt64} : p.toInt32 = x.toUInt32.toInt32 ↔ x.toUInt32 = p := by
  constructor
  · intro h
    exact (congrArg Int32.toUInt32 h).symm
  · rintro rfl
    rfl

theorem proceeds_iff : Proceeds p.toInt32 k i filter out c ↔
    out.rights &&& fwpsRightActionWrite ≠ 0 ∧ i.sourcePort ≠ 1598 ∧ i.processId.toUInt32 ≠ p ∧
      k.redirectHandle ≠ none ∧ k.redirectState ≠ .redirectedBySelf ∧ k.classifyHandle ≠ none ∧
      k.writable = true ∧ ∀ u ∈ c.history, u.modifierFilterId ≠ filter.filterId := by
  constructor
  · rintro ⟨hrights, ⟨h, ch, ha⟩, hw, hhist⟩
    refine ⟨hrights, fun hport => ha.port hport.symm, ?_, ?_, ha.state, ?_, hw, hhist⟩
    · exact fun hpid => ha.process (processId_eq_iff.mpr hpid)
    · simp [ha.redirectHandle]
    · simp [ha.classifyHandle]
  · rintro ⟨hrights, hport, hpid, hh, hstate, hch, hw, hhist⟩
    obtain ⟨h, hh⟩ := Option.ne_none_iff_exists'.mp hh
    obtain ⟨ch, hch⟩ := Option.ne_none_iff_exists'.mp hch
    refine ⟨hrights, ⟨h, ch, ⟨?_, ?_, hh⟩, hstate, hch⟩, hw, hhist⟩
    · exact fun he => hport he.symm
    · exact fun he => hpid (processId_eq_iff.mp he)

theorem toRedirect_iff : ToRedirect p k i filter out c ↔
    Proceeds p.toInt32 k i filter out c ∧ (∃ m, k.pool m ≠ none) ∧ k.stringToAddress = true := by
  rw [proceeds_iff]
  constructor
  · rintro ⟨h₁, h₂, h₃, h₄, h₅, h₆, h₇, h₈, h₉, h₁₀⟩
    exact ⟨⟨h₁, h₂, h₃, h₄, h₅, h₆, h₇, h₈⟩, h₉, h₁₀⟩
  · rintro ⟨⟨h₁, h₂, h₃, h₄, h₅, h₆, h₇, h₈⟩, h₉, h₁₀⟩
    exact ⟨h₁, h₂, h₃, h₄, h₅, h₆, h₇, h₈, h₉, h₁₀⟩

namespace ClassifyLocals

/-- After the label, nothing is applied. -/
@[simp] theorem mem_calls_exit :
    KernelCall.applyModifiedLayerData v ∈ (t.exit filter).calls ↔
      KernelCall.applyModifiedLayerData v ∈ t.calls := by
  rw [exit, List.mem_append, List.mem_append]
  split_ifs <;> simp

end ClassifyLocals

/-- The version that is made keeps all but what the redirection is about. -/
theorem Redirected.redirectTo (a : ConnectRequest) (b : Block) (h : ℕ) :
    Redirected a ((a.storeContext platform b).redirectTo h proxyAppProcessID) where
  fields := rfl
  address := (ConnectRequest.remote_redirectTo _ _ _).1
  port := (ConnectRequest.remote_redirectTo _ _ _).2
  remote := by
    intro j hj
    have hne : ∀ m : Fin sizeofSockAddrStorage, 2 ≤ (m : ℕ) → (m : ℕ) < 8 → j ≠ m := by
      rintro m h2 h8 rfl
      omega
    simp only [ConnectRequest.redirectTo, ConnectRequest.storeContext, SockAddrStorage.setPort,
      SockAddrStorage.setAddr]
    rw [if_neg (hne 2 (by decide) (by decide)), if_neg (hne 3 (by decide) (by decide)),
      if_neg (hne 4 (by decide) (by decide)), if_neg (hne 5 (by decide) (by decide)),
      if_neg (hne 6 (by decide) (by decide)), if_neg (hne 7 (by decide) (by decide))]

/-- Only the last exit applies something. -/
theorem ClassifyExit.applies (ht : ClassifyExit platform proxyAppProcessID k i filter out c t)
    (hrights : out.rights &&& fwpsRightActionWrite ≠ 0)
    (hv : KernelCall.applyModifiedLayerData v ∈ t.calls) :
    Proceeds proxyAppProcessID k i filter out c ∧ (∃ m, k.pool m ≠ none) ∧
      k.stringToAddress = true ∧ Redirected (c.writableLayer filter.filterId) v := by
  cases ht with
  | port | process | notCreated | bySelf | notAcquired | notWritable | ownVersion | notParsed =>
    simp at hv
  | @applied h ch m b ha hw hown hb hp =>
    obtain rfl : v = _ := by simpa using hv
    exact ⟨⟨hrights, ⟨h, ch, ha⟩, hw, hown⟩, ⟨m, by simp [hb]⟩, hp, .redirectTo _ b h⟩

/-- With the process id of the proxy stored, a call that returns has applied a version exactly when
all checks passed and all calls succeeded, and the version changes only what it has to. The call
does return then. -/
theorem redirect_iff {s : DeviceState}
    (hp : getUserAppProcessId s = (updateKernelWithUserAppProcessId p).input.userModeAppProcessId)
    (platform : Platform) (k : KernelOutcomes) (i : ClassifyInput) (filter : Filter)
    (out : ClassifyOut) (c : Connection) :
    (∀ fuel r, classifyCallback platform (getUserAppProcessId s) k i filter out c fuel = some r →
      ((∃ v, KernelCall.applyModifiedLayerData v ∈ r.calls) ↔ ToRedirect p k i filter out c) ∧
        ∀ v, KernelCall.applyModifiedLayerData v ∈ r.calls →
          Redirected (c.writableLayer filter.filterId) v) ∧
    (ToRedirect p k i filter out c →
      ∃ fuel r, classifyCallback platform (getUserAppProcessId s) k i filter out c fuel =
        some r) := by
  have hid : getUserAppProcessId s = p.toInt32 := hp
  rw [hid]
  refine ⟨fun fuel r hr => ?_, fun hto => classifyCallback_returns_iff.mpr ?_⟩
  · rcases classifyCallback_exit hr with ⟨hrights, rfl⟩ | ⟨hrights, t, ht, rfl⟩
    · refine ⟨⟨?_, fun hto => absurd hrights hto.rights⟩, ?_⟩
      · rintro ⟨v, hv⟩
        cases hv
      · intro v hv
        cases hv
    · refine ⟨⟨?_, fun hto => ?_⟩, fun v hv => ?_⟩
      · rintro ⟨v, hv⟩
        obtain ⟨hproceeds, hpool, hstr, -⟩ :=
          ht.applies hrights (ClassifyLocals.mem_calls_exit.mp hv)
        exact toRedirect_iff.mpr ⟨hproceeds, hpool, hstr⟩
      · obtain ⟨hproceeds, -, hstr⟩ := toRedirect_iff.mp hto
        obtain ⟨h, ch, m, b, -, -, hlast⟩ := hproceeds.exit ht
        obtain ⟨-, rfl⟩ := hlast.resolve_left fun hnot => by simp [hstr] at hnot
        exact ⟨_, ClassifyLocals.mem_calls_exit.mpr (by simp; rfl)⟩
      · exact (ht.applies hrights (ClassifyLocals.mem_calls_exit.mp hv)).2.2.2
  · exact .inr (toRedirect_iff.mp hto).2.1

/-- The proxy, with the process id 42, has sent its request; a request of process 43 is redirected,
and one of process 42, whose id fills more than 32 bits, is not. -/
theorem redirect_iff_web :
    ∃ s, device.Reachable (fun _ _ => True) s ∧
      s.request 0 = updateKernelWithUserAppProcessId 42 ∧
      (∃ fuel r v, classifyCallback .x64 (getUserAppProcessId s) kernelOk ⟨50000, 43⟩ ⟨7, 0⟩
          ⟨0, fwpsRightActionWrite⟩ ⟨webRequest, []⟩ fuel = some r ∧
        KernelCall.applyModifiedLayerData v ∈ r.calls ∧
        Redirected { webRequest with modifierFilterId := 7 } v) ∧
      ∀ fuel r, classifyCallback .x64 (getUserAppProcessId s) kernelOk ⟨50000, 0x10000002A⟩ ⟨7, 0⟩
          ⟨0, fwpsRightActionWrite⟩ ⟨webRequest, []⟩ fuel = some r →
        ∀ v, KernelCall.applyModifiedLayerData v ∉ r.calls := by
  obtain ⟨s, hs, hreq, hid⟩ : ∃ s, device.Reachable (fun _ _ => True) s ∧
      s.request 0 = updateKernelWithUserAppProcessId 42 ∧
      getUserAppProcessId s =
        (updateKernelWithUserAppProcessId 42).input.userModeAppProcessId :=
    TransitionSystem.exists_reachable_of_runChecked (setContext statusSuccess) (by decide +kernel)
  have hto : ToRedirect 42 kernelOk ⟨50000, 43⟩ ⟨7, 0⟩ ⟨0, fwpsRightActionWrite⟩
      ⟨webRequest, []⟩ :=
    ⟨by decide, by decide, by decide, nofun, by decide, nofun, rfl, by decide, ⟨0, nofun⟩, rfl⟩
  obtain ⟨hall, hreturns⟩ := redirect_iff hid .x64 kernelOk ⟨50000, 43⟩ ⟨7, 0⟩
    ⟨0, fwpsRightActionWrite⟩ ⟨webRequest, []⟩
  obtain ⟨fuel, r, hr⟩ := hreturns hto
  obtain ⟨v, hv⟩ := (hall fuel r hr).1.mpr hto
  refine ⟨s, hs, hreq, ⟨fuel, r, v, hr, hv, (hall fuel r hr).2 v hv⟩, fun fuel r hr v hv => ?_⟩
  have hpid := (((redirect_iff hid .x64 kernelOk ⟨50000, 0x10000002A⟩ ⟨7, 0⟩
    ⟨0, fwpsRightActionWrite⟩ ⟨webRequest, []⟩).1 fuel r hr).1.mp ⟨v, hv⟩).process
  exact hpid (by decide)

/-! ### When the action is set -/

/-- The layer data is acquired, and the filter made a version before or no memory is ever found. -/
structure PermittedLate (k : KernelOutcomes) (filter : Filter) (c : Connection) : Prop where
  classifyHandle : k.classifyHandle ≠ none
  writable : k.writable = true
  history : (∃ u ∈ c.history, u.modifierFilterId = filter.filterId) ∨ ∀ m, k.pool m = none

/-- The request is let through by one of the checks, or the call never returns. -/
def Permitted (proxyAppProcessID : Int32) (k : KernelOutcomes) (i : ClassifyInput)
    (filter : Filter) (c : Connection) : Prop :=
  redirectPort = i.sourcePort ∨ proxyAppProcessID = i.processId.toUInt32.toInt32 ∨
    k.redirectHandle ≠ none ∧
      (k.redirectState = .redirectedBySelf ∨ PermittedLate k filter c)

/-- What is left in `classifyOut` does not matter. -/
theorem permitted_acquiredOut (o : ClassifyOut) :
    Permitted proxyAppProcessID { k with acquiredOut := o } i filter c ↔
      Permitted proxyAppProcessID k i filter c := by
  have hlate : PermittedLate { k with acquiredOut := o } filter c ↔ PermittedLate k filter c :=
    ⟨fun h => ⟨h.classifyHandle, h.writable, h.history⟩,
      fun h => ⟨h.classifyHandle, h.writable, h.history⟩⟩
  rw [Permitted, Permitted, hlate]

theorem ClassifyLocals.actionType_exit :
    (t.exit filter).classifyOut.actionType = t.classifyOut.actionType := by
  rw [exit]
  split_ifs <;> rfl

/-- The exits at which the action is `FWP_ACTION_PERMIT`, if it was neither before nor written by
the acquisition of the layer data. -/
theorem ClassifyExit.permitted (ht : ClassifyExit platform proxyAppProcessID k i filter out c t)
    (hout : out.actionType ≠ fwpActionPermit) (hk : k.acquiredOut.actionType ≠ fwpActionPermit)
    (hpermit : t.classifyOut.actionType = fwpActionPermit) :
    Permitted proxyAppProcessID k i filter c := by
  cases ht with
  | port hport => exact .inl hport
  | process hpid => exact .inr (.inl hpid)
  | bySelf hc hstate => exact .inr (.inr ⟨by simp [hc.redirectHandle], .inl hstate⟩)
  | ownVersion ha hw hown =>
    exact .inr (.inr ⟨by simp [ha.redirectHandle], .inr ⟨by simp [ha.classifyHandle], hw,
      .inl hown⟩⟩)
  | notCreated | notAcquired => exact absurd hpermit hout
  | notWritable | notParsed | applied => exact absurd hpermit hk

theorem Permitted.late {h ch : ℕ} (hp : Permitted proxyAppProcessID k i filter c)
    (ha : Acquired proxyAppProcessID k i h ch) : PermittedLate k filter c := by
  rcases hp with hport | hpid | ⟨-, hstate | hlate⟩
  · exact absurd hport ha.port
  · exact absurd hpid ha.process
  · exact absurd hstate ha.state
  · exact hlate

/-- Where a check lets the request through, the action is set. -/
theorem Permitted.actionType_eq (hp : Permitted proxyAppProcessID k i filter c)
    (ht : ClassifyExit platform proxyAppProcessID k i filter out c t) :
    t.classifyOut.actionType = fwpActionPermit := by
  cases ht with
  | port | process | bySelf | ownVersion => rfl
  | notCreated hport hpid hh =>
    rcases hp with hport' | hpid' | ⟨hh', -⟩
    · exact absurd hport' hport
    · exact absurd hpid' hpid
    · exact absurd hh hh'
  | notAcquired hc hstate hh =>
    rcases hp with hport | hpid | ⟨-, hstate' | hlate⟩
    · exact absurd hport hc.port
    · exact absurd hpid hc.process
    · exact absurd hstate' hstate
    · exact absurd hh hlate.classifyHandle
  | notWritable ha hw => cases hw.symm.trans (hp.late ha).writable
  | notParsed ha _ hown hb | applied ha _ hown hb =>
    -- the allocation succeeded, and the walk found nothing
    rcases (hp.late ha).history with ⟨u, hu, he⟩ | hpool
    · exact absurd he (hown u hu)
    · cases hb.symm.trans (hpool _)

/-- A call with the right to decide sets the action to `FWP_ACTION_PERMIT`, whatever it was on
entry, exactly when one of the checks lets the request through; `acquire` is what the acquisition of
the layer data makes of `classifyOut`. -/
theorem permits_iff {acquire : ClassifyOut → ClassifyOut} {rights : UInt32}
    (hacquire : ∀ o, (acquire o).actionType = fwpActionPermit → o.actionType = fwpActionPermit)
    (hrights : rights &&& fwpsRightActionWrite ≠ 0) (platform : Platform)
    (proxyAppProcessID : Int32) (k : KernelOutcomes) (i : ClassifyInput) (filter : Filter)
    (c : Connection) :
    (∀ actionType fuel r,
      classifyCallback platform proxyAppProcessID
          { k with acquiredOut := acquire ⟨actionType, rights⟩ } i filter ⟨actionType, rights⟩ c
          fuel = some r →
        r.classifyOut.actionType = fwpActionPermit) ↔
      Permitted proxyAppProcessID k i filter c := by
  constructor
  · intro hall
    have hzero : (0 : UInt32) ≠ fwpActionPermit := by decide
    let k' : KernelOutcomes := { k with acquiredOut := acquire ⟨0, rights⟩ }
    by_cases hreturns : ∃ fuel r,
        classifyCallback platform proxyAppProcessID k' i filter ⟨0, rights⟩ c fuel = some r
    · obtain ⟨fuel, r, hr⟩ := hreturns
      obtain ⟨-, t, ht, rfl⟩ := (classifyCallback_exit hr).resolve_left fun he => hrights he.1
      have hpermit := hall 0 fuel _ hr
      rw [ClassifyLocals.actionType_exit] at hpermit
      exact (permitted_acquiredOut _).mp
        (ht.permitted hzero (fun he => hzero (hacquire _ he)) hpermit)
    · -- the loop never ends, so the call got to it and nothing is ever allocated
      obtain ⟨hproceeds, hpool⟩ := not_or.mp (mt classifyCallback_returns_iff.mpr hreturns)
      obtain ⟨-, ⟨h, ch, ha⟩, hw, -⟩ := not_not.mp hproceeds
      refine .inr (.inr ⟨?_, .inr ⟨?_, hw, .inr fun m => ?_⟩⟩)
      · simpa [k'] using Option.ne_none_iff_exists'.mpr ⟨h, ha.redirectHandle⟩
      · simpa [k'] using Option.ne_none_iff_exists'.mpr ⟨ch, ha.classifyHandle⟩
      · by_contra hm
        exact hpool ⟨m, hm⟩
  · intro hp actionType fuel r hr
    obtain ⟨-, t, ht, rfl⟩ := (classifyCallback_exit hr).resolve_left fun he => hrights he.1
    rw [ClassifyLocals.actionType_exit]
    exact ((permitted_acquiredOut _).mpr hp).actionType_eq ht

/-- The driver has redirected the request before; the action on entry was 0. -/
theorem permits_iff_bySelf :
    ∃ r, classifyCallback .x64 42 { kernelOk with
        redirectState := .redirectedBySelf, acquiredOut := ⟨0, fwpsRightActionWrite⟩ }
        ⟨50000, 43⟩ ⟨7, 0⟩ ⟨0, fwpsRightActionWrite⟩ ⟨webRequest, []⟩ 1 = some r ∧
      r.classifyOut.actionType = fwpActionPermit := by
  have hrights : fwpsRightActionWrite &&& fwpsRightActionWrite ≠ 0 := by decide
  have hall := (permits_iff (fun o (ho : (id o).actionType = fwpActionPermit) => ho) hrights
    .x64 42 { kernelOk with redirectState := .redirectedBySelf } ⟨50000, 43⟩ ⟨7, 0⟩
    ⟨webRequest, []⟩).mpr (.inr (.inr ⟨nofun, .inl rfl⟩))
  exact ⟨_, rfl, hall 0 1 _ rfl⟩

/-- The request is redirected, or the redirect handle is not created: the action stays 0. -/
theorem permits_fails :
    (∃ r, classifyCallback .x64 42 { kernelOk with acquiredOut := ⟨0, fwpsRightActionWrite⟩ }
        ⟨50000, 43⟩ ⟨7, 0⟩ ⟨0, fwpsRightActionWrite⟩ ⟨webRequest, []⟩ 1 = some r ∧
      r.applied.isSome ∧ r.classifyOut.actionType ≠ fwpActionPermit) ∧
    ∃ r, classifyCallback .x64 42 { kernelOk with
        redirectHandle := none, acquiredOut := ⟨0, fwpsRightActionWrite⟩ }
        ⟨50000, 43⟩ ⟨7, 0⟩ ⟨0, fwpsRightActionWrite⟩ ⟨webRequest, []⟩ 1 = some r ∧
      r.classifyOut.actionType ≠ fwpActionPermit :=
  ⟨⟨_, rfl, rfl, by decide⟩, _, rfl, by decide⟩

end IocpProxy
