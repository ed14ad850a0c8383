import IocpProxy.Driver.DeviceContext
import IocpProxy.Driver.InitializeWfp

/-!
# The driver from load to unload

`DriverEntry` creates the driver object, then a control device with a symbolic link and two queues,
then the objects in the filter engine. Each call may fail, and a failure ends `DriverEntry`.

The framework hands requests to the device once `WdfControlFinishInitializing` has been called. The
driver is unloaded when no request is left, and so is the device deleted that a failed
`DriverEntry` leaves behind. The engine calls the callout while a filter refers to it. The driver
may be loaded again any number of times, and other components may change the engine at any time.

The fields `record`, `allocated` and `released` record history the driver does not store.

## Main definitions

* `IocpProxy.ControlDevice`, `IocpProxy.DriverPc`, `IocpProxy.Driver`.
* `IocpProxy.Driver.entryStep` : `InitDriverObjects` and `InitializeQueue`.
* `IocpProxy.driver` : the system.
* `IocpProxy.KeepsOff` : what the other components promise.
* `IocpProxy.Driver.Kept`, `IocpProxy.Driver.Built` : the invariants.

## Main results

* `IocpProxy.driver_cycles` : what is in the filter engine, and when the callout is called.
* `IocpProxy.device_cycles` : what becomes of the device and its requests.
-/

namespace IocpProxy

open Wfp

/-! ### The system -/

/-- A control device with its context and the requests delivered to it. -/
structure ControlDevice where
  context : DeviceState
  /-- What each call of `EvtIoDeviceControl` has done so far. -/
  record : ReqId → CallRecord
  symbolicLink : Bool
  defaultQueue : Bool
  notificationQueue : Bool
  /-- `WdfControlFinishInitializing` has been called. -/
  finished : Bool

namespace ControlDevice

/-- The device after `WdfDeviceCreate`, with its context zeroed. -/
def created : ControlDevice :=
  ⟨{ DeviceState.initializeQueue with sequence := 0 }, fun _ => .empty, false, false, false, false⟩

/-- The device context with the records. -/
def audit (d : ControlDevice) : Audit := ⟨d.context, d.record⟩

/-- The device after the step of a request, which leads to the context `c`. -/
def after (d : ControlDevice) (a : DeviceAction) (c : DeviceState) : ControlDevice :=
  { d with context := c, record := d.audit.after a }

/-- Everything is there that `EvtIoDeviceControl` and the callout use. -/
def Ready (d : ControlDevice) : Prop :=
  d.symbolicLink = true ∧ d.defaultQueue = true ∧ d.notificationQueue = true ∧ d.finished = true

/-- No call of `EvtIoDeviceControl` is left, and no request is queued. -/
def Quiet (d : ControlDevice) : Prop :=
  d.context.notificationQueue = [] ∧ ∀ r < d.context.next, (d.context.handler r).pc = .returned

instance : DecidablePred Quiet := fun _ => inferInstanceAs (Decidable (_ ∧ _))

end ControlDevice

/-- Where `DriverEntry` is, or what has become of the driver. -/
inductive DriverPc
  | unloaded
  | driverCreate
  | deviceInitAllocate
  | assignName
  | deviceCreate
  | createSymbolicLink
  | createDefaultQueue
  | createNotificationQueue
  | finishInitializing
  | initializeWfp
  | loaded
  /-- `DriverEntry` has failed, or `DriverUnload` has returned. -/
  | leaving
  deriving DecidableEq

/-- The driver and the filter engine. -/
structure Driver where
  pc : DriverPc
  /-- `pDeviceInit`, the number of a structure. -/
  pDeviceInit : Option ℕ
  /-- `g_Device`. -/
  device : Option ControlDevice
  wfp : Wfp
  /-- How many structures `WdfControlDeviceInitAllocate` has returned. -/
  allocated : ℕ
  /-- The structures that were freed or taken over by a device, in order. -/
  released : List ℕ

namespace Driver

/-- Go on at another label. -/
def enter (s : Driver) (pc : DriverPc) : Driver := { s with pc := pc }

/-- `WdfControlDeviceInitAllocate`. -/
def allocateInit (s : Driver) : Driver :=
  { s with pDeviceInit := some s.allocated, allocated := s.allocated + 1 }

/-- `WdfDeviceInitFree(pDeviceInit)`. -/
def freeInit (s : Driver) : Driver := { s with released := s.released ++ s.pDeviceInit.toList }

/-- `WdfDeviceCreate(&pDeviceInit, ...)`, which takes the structure over. -/
def createDevice (s : Driver) : Driver :=
  { s.freeInit with pDeviceInit := none, device := some .created }

/-- Change the device. -/
def setDevice (s : Driver) (d : ControlDevice) : Driver := { s with device := some d }

/-- No request is left. -/
def Quiet (s : Driver) : Prop := ∀ d ∈ s.device, d.Quiet

instance : DecidablePred Quiet := fun s => inferInstanceAs (Decidable (∀ d ∈ s.device, d.Quiet))

/-- The framework delivers no request to a driver that leaves. -/
def Accepts (s : Driver) : DeviceAction → Prop
  | .deliver _ => s.pc ≠ .leaving
  | .handler _ _ | .cancel _ => True

instance (s : Driver) : DecidablePred s.Accepts
  | .deliver _ => inferInstanceAs (Decidable (s.pc ≠ .leaving))
  | .handler _ _ | .cancel _ => instDecidableTrue

/-- A call of `InitDriverObjects`, or of `InitializeQueue` within it, succeeds or fails. -/
def entryStep (s : Driver) (ok : Bool) : Option Driver :=
  match s.pc, s.device with
  | .driverCreate, _ => some (s.enter (if ok then .deviceInitAllocate else .leaving))
  | .deviceInitAllocate, _ =>
    some (if ok then s.allocateInit.enter .assignName else s.enter .leaving)
  | .assignName, _ => some (if ok then s.enter .deviceCreate else s.freeInit.enter .leaving)
  | .deviceCreate, _ =>
    some (if ok then s.createDevice.enter .createSymbolicLink else s.freeInit.enter .leaving)
  | .createSymbolicLink, some d =>
    -- `InitializeQueue` stores in the device context first
    some ((s.setDevice { d with context := .initializeQueue, symbolicLink := ok }).enter
      (if ok then .createDefaultQueue else .leaving))
  | .createDefaultQueue, some d =>
    some ((s.setDevice { d with defaultQueue := ok }).enter
      (if ok then .createNotificationQueue else .leaving))
  | .createNotificationQueue, some d =>
    some ((s.setDevice { d with notificationQueue := ok }).enter
      (if ok then .finishInitializing else .leaving))
  | .finishInitializing, some d =>
    if ok then some ((s.setDevice { d with finished := true }).enter .initializeWfp) else none
  | _, _ => none

end Driver

/-- What happens to the driver. -/
inductive DriverAction
  | load
  | entry (ok : Bool)
  | initializeWfp (k : WfpCalls)
  /-- `DriverUnload`. -/
  | unload
  /-- The framework deletes the objects of the driver. -/
  | remove
  | device (a : DeviceAction)
  /-- Other components change the objects in the filter engine. -/
  | engine (e : FilterObjects)
  deriving DecidableEq

/-- A step of the driver. -/
def driverStep (s : Driver) : DriverAction → Option Driver
  | .load =>
    if s.pc = .unloaded then some { s with pc := .driverCreate, wfp := .atLoad s.wfp.engine }
    else none
  | .entry ok => s.entryStep ok
  | .initializeWfp k =>
    if s.pc = .initializeWfp then
      let r := s.wfp.initializeWfp k
      some { s with wfp := r.2, pc := if r.1 then .loaded else .leaving }
    else none
  | .unload =>
    if s.pc = .loaded ∧ s.Quiet then
      some { s with wfp := { s.wfp with engine := s.wfp.unInitializeWfp.engine }, pc := .leaving }
    else none
  | .remove =>
    if s.pc = .leaving ∧ s.Quiet then
      some { s with pDeviceInit := none, device := none, pc := .unloaded }
    else none
  | .device a =>
    s.device.bind fun d =>
      if d.finished = true ∧ s.Accepts a then
        (deviceStep d.context a).map fun c => s.setDevice (d.after a c)
      else none
  | .engine e => some { s with wfp := { s.wfp with engine := e } }

/-- The driver, not yet loaded, next to the filter engine. -/
def driver (e : FilterEngine) : TransitionSystem Driver DriverAction where
  init := ⟨.unloaded, none, none, .atLoad e.toFilterObjects, 0, []⟩
  step := driverStep

/-! ### What a step can do -/

/-- The moves of `InitDriverObjects`. -/
inductive Driver.EntryMove (s : Driver) : Driver → Prop
  | failed (hpc : s.pc = .driverCreate ∨ s.pc = .deviceInitAllocate) :
      EntryMove s (s.enter .leaving)
  | driverCreated (hpc : s.pc = .driverCreate) : EntryMove s (s.enter .deviceInitAllocate)
  | initAllocated (hpc : s.pc = .deviceInitAllocate) :
      EntryMove s (s.allocateInit.enter .assignName)
  | initFreed (hpc : s.pc = .assignName ∨ s.pc = .deviceCreate) :
      EntryMove s (s.freeInit.enter .leaving)
  | nameAssigned (hpc : s.pc = .assignName) : EntryMove s (s.enter .deviceCreate)
  | deviceCreated (hpc : s.pc = .deviceCreate) :
      EntryMove s (s.createDevice.enter .createSymbolicLink)
  | symbolicLink {d : ControlDevice} (ok : Bool) (hpc : s.pc = .createSymbolicLink)
      (hd : s.device = some d) :
      EntryMove s ((s.setDevice { d with context := .initializeQueue, symbolicLink := ok }).enter
        (if ok then .createDefaultQueue else .leaving))
  | defaultQueue {d : ControlDevice} (ok : Bool) (hpc : s.pc = .createDefaultQueue)
      (hd : s.device = some d) :
      EntryMove s ((s.setDevice { d with defaultQueue := ok }).enter
        (if ok then .createNotificationQueue else .leaving))
  | notificationQueue {d : ControlDevice} (ok : Bool) (hpc : s.pc = .createNotificationQueue)
      (hd : s.device = some d) :
      EntryMove s ((s.setDevice { d with notificationQueue := ok }).enter
        (if ok then .finishInitializing else .leaving))
  | finished {d : ControlDevice} (hpc : s.pc = .finishInitializing) (hd : s.device = some d) :
      EntryMove s ((s.setDevice { d with finished := true }).enter .initializeWfp)

/-- The moves of the driver. -/
inductive Driver.Moves (s : Driver) : DriverAction → Driver → Prop
  | load (hpc : s.pc = .unloaded) :
      Moves s .load { s with pc := .driverCreate, wfp := .atLoad s.wfp.engine }
  | entry {ok : Bool} {s' : Driver} (hm : s.EntryMove s') : Moves s (.entry ok) s'
  | initializeWfp {k : WfpCalls} (hpc : s.pc = .initializeWfp) :
      Moves s (.initializeWfp k) { s with
        wfp := (s.wfp.initializeWfp k).2
        pc := if (s.wfp.initializeWfp k).1 then .loaded else .leaving }
  | unload (hpc : s.pc = .loaded) (hq : s.Quiet) :
      Moves s .unload
        { s with wfp := { s.wfp with engine := s.wfp.unInitializeWfp.engine }, pc := .leaving }
  | remove (hpc : s.pc = .leaving) (hq : s.Quiet) :
      Moves s .remove { s with pDeviceInit := none, device := none, pc := .unloaded }
  | device {d : ControlDevice} {b : DeviceAction} {c : DeviceState} (hd : s.device = some d)
      (hf : d.finished = true) (hb : deviceStep d.context b = some c) :
      Moves s (.device b) (s.setDevice (d.after b c))
  | engine (e : FilterObjects) :
      Moves s (.engine e) { s with wfp := { s.wfp with engine := e } }

theorem Driver.entryStep_move {s s' : Driver} {ok : Bool} (h : s.entryStep ok = some s') :
    s.EntryMove s' := by
  cases hpc : s.pc with
  | unloaded | initializeWfp | loaded | leaving => simp [entryStep, hpc] at h
  | driverCreate =>
    simp only [entryStep, hpc, Option.some.injEq] at h
    subst h
    cases ok
    · exact .failed (.inl hpc)
    · exact .driverCreated hpc
  | deviceInitAllocate =>
    simp only [entryStep, hpc, Option.some.injEq] at h
    subst h
    cases ok
    · exact .failed (.inr hpc)
    · exact .initAllocated hpc
  | assignName =>
    simp only [entryStep, hpc, Option.some.injEq] at h
    subst h
    cases ok
    · exact .initFreed (.inl hpc)
    · exact .nameAssigned hpc
  | deviceCreate =>
    simp only [entryStep, hpc, Option.some.injEq] at h
    subst h
    cases ok
    · exact .initFreed (.inr hpc)
    · exact .deviceCreated hpc
  | createSymbolicLink =>
    cases hd : s.device with
    | none => simp [entryStep, hpc, hd] at h
    | some d =>
      simp only [entryStep, hpc, hd, Option.some.injEq] at h
      subst h
      exact .symbolicLink ok hpc hd
  | createDefaultQueue =>
    cases hd : s.device with
    | none => simp [entryStep, hpc, hd] at h
    | some d =>
      simp only [entryStep, hpc, hd, Option.some.injEq] at h
      subst h
      exact .defaultQueue ok hpc hd
  | createNotificationQueue =>
    cases hd : s.device with
    | none => simp [entryStep, hpc, hd] at h
    | some d =>
      simp only [entryStep, hpc, hd, Option.some.injEq] at h
      subst h
      exact .notificationQueue ok hpc hd
  | finishInitializing =>
    cases hd : s.device with
    | none => simp [entryStep, hpc, hd] at h
    | some d =>
      simp only [entryStep, hpc, hd] at h
      obtain ⟨-, ⟨⟩⟩ := Option.ite_none_right_eq_some.mp h
      exact .finished hpc hd

/-- Every step is a move. -/
theorem driverStep_move {s s' : Driver} {a : DriverAction} (h : driverStep s a = some s') :
    s.Moves a s' := by
  cases a with
  | load =>
    obtain ⟨hpc, ⟨⟩⟩ := Option.ite_none_right_eq_some.mp h
    exact .load hpc
  | entry ok => exact .entry (Driver.entryStep_move h)
  | initializeWfp k =>
    obtain ⟨hpc, ⟨⟩⟩ := Option.ite_none_right_eq_some.mp h
    exact .initializeWfp hpc
  | unload =>
    obtain ⟨⟨hpc, hq⟩, ⟨⟩⟩ := Option.ite_none_right_eq_some.mp h
    exact .unload hpc hq
  | remove =>
    obtain ⟨⟨hpc, hq⟩, ⟨⟩⟩ := Option.ite_none_right_eq_some.mp h
    exact .remove hpc hq
  | device b =>
    obtain ⟨d, hd, h⟩ := Option.bind_eq_some_iff.mp h
    obtain ⟨⟨hf, -⟩, h⟩ := Option.ite_none_right_eq_some.mp h
    obtain ⟨c, hc, rfl⟩ := Option.map_eq_some_iff.mp h
    exact .device hd hf hc
  | engine e =>
    cases h
    exact .engine e

/-! ### The objects of the driver in the filter engine -/

/-- No object has a key of the driver. -/
structure FilterObjects.Clear (e : FilterObjects) : Prop where
  registered : ∀ c ∈ e.registered, c.key ≠ wfpAleRedirectCalloutV4
  callout : ∀ c ∈ e.callouts, c.key ≠ wfpAleRedirectCalloutV4
  sublayer : wfpSampleSublayerGuid ∉ e.sublayers

/-- The engine calls the callout of the driver. -/
def FilterObjects.CallsOut (e : FilterObjects) : Prop :=
  ∃ f ∈ e.filters, f.calloutKey = some wfpAleRedirectCalloutV4

/-- Where no object has a key of the driver, no filter refers to one. -/
theorem FilterObjects.Clear.filter {e : FilterObjects} (he : e.Clear) (href : e.Referenced)
    {f : FwpmFilter} (hf : f ∈ e.filters) :
    f.subLayerKey ≠ wfpSampleSublayerGuid ∧ f.calloutKey ≠ some wfpAleRedirectCalloutV4 := by
  refine ⟨fun hk => he.sublayer (hk ▸ href.subLayer f hf), fun hk => ?_⟩
  obtain ⟨c, hc, hkey⟩ := href.callout f hf _ hk
  exact he.callout c hc hkey

namespace Wfp

variable {s s' : Wfp} {e : FilterObjects} {k : WfpCalls}

/-- The calls that a successful `InitializeWfp` has made. -/
theorem calls_of_initializeWfp (h : s.initializeWfp k = (true, s')) :
    ∃ s₁ s₂ s₃ s₄, s.engineOpen k.engineOpen = some s₁ ∧
      s₁.wfpRegisterCallout k.calloutRegister = some s₂ ∧
      s₂.wfpAddCallout k.calloutAdd = some s₃ ∧ s₃.wfpAddSublayer k.subLayerAdd = some s₄ ∧
      s₄.wfpAddFilter k.filterAdd = some s' := by
  have hfail : ∀ t : Wfp, t.failed ≠ (true, s') := fun t ht => by simp [failed] at ht
  unfold initializeWfp at h
  split at h
  · exact absurd h (hfail _)
  next s₁ h₁ =>
    split at h
    · exact absurd h (hfail _)
    next s₂ h₂ =>
      split at h
      · exact absurd h (hfail _)
      next s₃ h₃ =>
        split at h
        · exact absurd h (hfail _)
        next s₄ h₄ =>
          split at h
          · exact absurd h (hfail _)
          next s₅ h₅ =>
            obtain rfl : s₅ = s' := congrArg Prod.snd h
            exact ⟨s₁, s₂, s₃, s₄, h₁, h₂, h₃, h₄, h₅⟩

/-- After a successful `InitializeWfp` the objects of the driver are there, and only its own filter
refers to them. -/
theorem leftAlone_of_initializeWfp (he : e.Referenced) (hc : e.Clear)
    (h : (atLoad e).initializeWfp k = (true, s')) : s'.LeftAlone s'.engine := by
  obtain ⟨s₁, s₂, s₃, s₄, h₁, h₂, h₃, h₄, h₅⟩ := calls_of_initializeWfp h
  obtain ⟨e₁, hd, -, ho₁, rfl⟩ := engineOpen_eq_some h₁
  obtain ⟨-, ⟨⟩⟩ := Option.ite_none_right_eq_some.mp ho₁
  obtain ⟨e₂, reg, -, ho₂, rfl⟩ := wfpRegisterCallout_eq_some h₂
  obtain ⟨-, ⟨⟩⟩ := Option.ite_none_right_eq_some.mp ho₂
  obtain ⟨e₃, id, -, ho₃, rfl⟩ := wfpAddCallout_eq_some h₃
  obtain ⟨⟨-, -, hid⟩, ⟨⟩⟩ := Option.ite_none_right_eq_some.mp ho₃
  obtain ⟨e₄, ho₄, rfl⟩ := wfpAddSublayer_eq_some h₄
  obtain ⟨-, ⟨⟩⟩ := Option.ite_none_right_eq_some.mp ho₄
  obtain ⟨e₅, f, -, ho₅, rfl⟩ := wfpAddFilter_eq_some h₅
  obtain ⟨-, ⟨⟩⟩ := Option.ite_none_right_eq_some.mp ho₅
  refine ⟨Finset.mem_insert_self _ _, ⟨_, Finset.mem_insert_self _ _, rfl⟩,
    ⟨_, Finset.mem_insert_self _ _, rfl⟩, fun c hm hcid => ?_, Finset.mem_insert_self _ _,
    ⟨_, Finset.mem_insert_self _ _, rfl⟩, fun g hg hk => ?_⟩
  · rcases Finset.mem_insert.mp hm with rfl | hm
    · rfl
    · exact absurd hcid (hid c hm).2
  · rcases Finset.mem_insert.mp hg with rfl | hg
    · rfl
    · obtain ⟨hsub, hcall⟩ := hc.filter he hg
      exact (hk.elim hsub hcall).elim

/-- What a successful `InitializeWfp` leaves to the others is what was there before. -/
theorem loaded_of_initializeWfp (he : e.Referenced) (hc : e.Clear)
    (h : (atLoad e).initializeWfp k = (true, s')) :
    s'.Loaded ∧ s'.engine.Referenced ∧ s'.withoutOwn s'.engine = e := by
  have halone := leftAlone_of_initializeWfp he hc h
  obtain ⟨s₁, s₂, s₃, s₄, h₁, h₂, h₃, h₄, h₅⟩ := calls_of_initializeWfp h
  have hloaded := loaded_of_calls h₁ h₂ h₃ h₄ h₅
  obtain ⟨hu₁, hreg, hadd⟩ := underway_engineOpen he h₁
  obtain ⟨hu₂, hadd⟩ := hu₁.wfpRegisterCallout hreg hadd h₂
  have hu₃ := hu₂.wfpAddCallout hadd h₃
  refine ⟨hloaded, ?_, ?_⟩
  · obtain ⟨e₄, ho₄, rfl⟩ := wfpAddSublayer_eq_some h₄
    obtain ⟨e₅, f, -, ho₅, rfl⟩ := wfpAddFilter_eq_some h₅
    exact (hu₃.referenced.subLayerAdd ho₄).filterAdd ho₅
  · have hclean : s'.unInitializeWfp = ⟨e, 0⟩ := hu₃.cleanup_of_filter h₄ h₅
    exact congrArg Cleanup.engine ((hloaded.cleanup halone).symm.trans hclean)

/-- A failed `InitializeWfp` restores an engine without objects under the keys of the driver. -/
theorem engine_of_not_initializeWfp (he : e.Referenced) (hc : e.Clear)
    (h : ((atLoad e).initializeWfp k).1 = false) : ((atLoad e).initializeWfp k).2.engine = e := by
  rcases initializeWfp_cases he k with
    ⟨-, hk⟩ | ⟨s₁, -, t, ht, hk | ⟨t', ht', hk | ⟨t'', -, -, hk⟩⟩⟩
  · rw [hk]
    rfl
  · rw [hk]
    exact ht.cleanup_iff.mpr (.inl hc.sublayer)
  · rw [hk, failed, (ht.cleanup_of_subLayer ht').1]
  · simp [hk] at h

/-- The calls of `InitializeWfp` are answered, with a handle and identifiers that are new. -/
structure Answered (k : WfpCalls) (e : FilterObjects) : Prop where
  engineOpen : ∃ h ∈ k.engineOpen, h ≠ 0 ∧ h ∉ e.sessions
  calloutRegister : ∃ id ∈ k.calloutRegister, id ≠ 0 ∧ ∀ c ∈ e.registered, c.id ≠ id
  calloutAdd : ∃ id ∈ k.calloutAdd, id ≠ 0 ∧ ∀ c ∈ e.callouts, c.id ≠ id
  subLayerAdd : k.subLayerAdd = true
  filterAdd : ∃ id ∈ k.filterAdd, id ≠ 0 ∧ ∀ f ∈ e.filters, f.filterId ≠ id

/-- Nothing under a key of the driver is in the way of a load. -/
theorem initializeWfp_of_answered (hc : e.Clear) (hk : Answered k e) :
    ((atLoad e).initializeWfp k).1 = true := by
  obtain ⟨h, hh, hne, hnew⟩ := hk.engineOpen
  obtain ⟨reg, hreg, hreg₀, hregnew⟩ := hk.calloutRegister
  obtain ⟨id, hid, hid₀, hidnew⟩ := hk.calloutAdd
  obtain ⟨f, hf, hf₀, hfnew⟩ := hk.filterAdd
  let s₁ : Wfp := { atLoad e with
    filterEngineHandle := h, engine := { e with sessions := insert h e.sessions } }
  let s₂ : Wfp := { s₁ with
    regCalloutId := reg
    engine := { s₁.engine with registered := insert ⟨wfpAleRedirectCalloutV4, reg⟩ e.registered } }
  let s₃ : Wfp := { s₂ with
    addCalloutId := id
    engine := { s₂.engine with callouts := insert ⟨wfpAleRedirectCalloutV4, id⟩ e.callouts } }
  let s₄ : Wfp := { s₃ with
    engine := { s₃.engine with sublayers := insert wfpSampleSublayerGuid e.sublayers } }
  have hopen : (atLoad e).engineOpen k.engineOpen = some s₁ := by
    rw [Option.mem_def.mp hh]
    simp [Wfp.engineOpen, FilterObjects.engineOpen, s₁, atLoad, hne, hnew]
  have hregister : s₁.wfpRegisterCallout k.calloutRegister = some s₂ := by
    rw [Option.mem_def.mp hreg]
    simpa [wfpRegisterCallout, FilterObjects.calloutRegister, s₁, s₂, atLoad, hreg₀] using
      fun c hcm => ⟨hc.registered c hcm, hregnew c hcm⟩
  have hadd : s₂.wfpAddCallout k.calloutAdd = some s₃ := by
    rw [Option.mem_def.mp hid]
    simpa [wfpAddCallout, FilterObjects.calloutAdd, s₁, s₂, s₃, atLoad, hid₀] using
      fun c hcm => ⟨hc.callout c hcm, hidnew c hcm⟩
  have hsub : s₃.wfpAddSublayer k.subLayerAdd = some s₄ := by
    rw [hk.subLayerAdd]
    simp [wfpAddSublayer, FilterObjects.subLayerAdd, s₁, s₂, s₃, s₄, atLoad, hc.sublayer]
  have hfilter : (s₄.wfpAddFilter k.filterAdd).isSome = true := by
    rw [Option.mem_def.mp hf]
    simpa [wfpAddFilter, FilterObjects.filterAdd, s₁, s₂, s₃, s₄, atLoad, hf₀] using hfnew
  obtain ⟨s₅, hs₅⟩ := Option.isSome_iff_exists.mp hfilter
  rw [initializeWfp, hopen]
  simp only [hregister, hadd, hsub, hs₅]

theorem Loaded.of_engine (h : s.Loaded) (e : FilterObjects) :
    ({ s with engine := e } : Wfp).Loaded :=
  ⟨h.handle, h.regCalloutId, h.addCalloutId, h.filterId⟩

theorem LeftAlone.of_engine (h : s.LeftAlone e) (e' : FilterObjects) :
    ({ s with engine := e' } : Wfp).LeftAlone e :=
  ⟨h.session, h.registered, h.callout, h.callout_key, h.sublayer, h.filter, h.refers⟩

/-- What is left after unloading refers to nothing that was deleted. -/
theorem LeftAlone.referenced_withoutOwn (ha : s.LeftAlone e) (he : e.Referenced) :
    (s.withoutOwn e).Referenced where
  subLayer f hf := by
    obtain ⟨hm, hne⟩ := Finset.mem_filter.mp hf
    exact Finset.mem_erase.mpr ⟨fun hk => hne (ha.refers f hm (.inl hk)), he.subLayer f hm⟩
  callout f hf key hk := by
    obtain ⟨hm, hne⟩ := Finset.mem_filter.mp hf
    obtain ⟨c, hcm, rfl⟩ := he.callout f hm key hk
    refine ⟨c, Finset.mem_filter.mpr ⟨hcm, fun hid => hne (ha.refers f hm (.inr ?_))⟩, rfl⟩
    rw [hk, ha.callout_key c hcm hid]

end Wfp

/-! ### What is in the filter engine -/

namespace Driver

/-- The objects in the filter engine that are not the driver's. -/
def others (s : Driver) : FilterObjects :=
  if s.pc = .loaded then s.wfp.withoutOwn s.wfp.engine else s.wfp.engine

/-- In `DriverEntry`. -/
def InEntry (s : Driver) : Prop := s.pc ≠ .unloaded ∧ s.pc ≠ .loaded ∧ s.pc ≠ .leaving

theorem others_of_ne {s : Driver} (h : s.pc ≠ .loaded) : s.others = s.wfp.engine := if_neg h

theorem others_of_loaded {s : Driver} (h : s.pc = .loaded) :
    s.others = s.wfp.withoutOwn s.wfp.engine := if_pos h

/-- The objects of a loaded driver are in the engine, and else none has a key of the driver. -/
structure Kept (s : Driver) : Prop where
  referenced : s.wfp.engine.Referenced
  clear : s.others.Clear
  loaded : s.pc = .loaded → s.wfp.Loaded ∧ s.wfp.LeftAlone s.wfp.engine
  entry : s.InEntry → s.wfp = .atLoad s.wfp.engine

end Driver

/-- Other components add no object under a key of the driver and no filter that refers to one, and
they delete none of the driver's objects. -/
def KeepsOff (s : Driver) : DriverAction → Prop
  | .engine e => e.Referenced ∧ (s.pc = .loaded → s.wfp.LeftAlone e) ∧
      ({ s with wfp := { s.wfp with engine := e } } : Driver).others.Clear
  | _ => True

namespace Driver

variable {s s' : Driver} {a : DriverAction}

/-- `InitDriverObjects` does not touch the filter engine. -/
theorem EntryMove.frame (hm : s.EntryMove s') :
    s'.wfp = s.wfp ∧ s.InEntry ∧ s'.pc ≠ .loaded := by
  cases hm with
  | failed hpc | initFreed hpc =>
    rcases hpc with hpc | hpc <;> exact ⟨rfl, by simp [InEntry, hpc], by simp [enter]⟩
  | driverCreated hpc | initAllocated hpc | nameAssigned hpc | deviceCreated hpc | finished hpc =>
    exact ⟨rfl, by simp [InEntry, hpc], by simp [enter]⟩
  | symbolicLink ok hpc | defaultQueue ok hpc | notificationQueue ok hpc =>
    exact ⟨rfl, by simp [InEntry, hpc], by cases ok <;> simp [enter]⟩

/-- A step that changes neither the engine nor whether the driver is loaded. -/
theorem Kept.congr (h : s.Kept) (hw : s'.wfp = s.wfp) (hl : s'.pc = .loaded ↔ s.pc = .loaded)
    (he : s'.InEntry → s.InEntry) {p : Prop} : s'.Kept ∧ (p → s'.others = s.others) := by
  have hothers : s'.others = s.others := by simp only [others, hw, hl]
  refine ⟨⟨?_, ?_, ?_, ?_⟩, fun _ => hothers⟩
  · rw [hw]
    exact h.referenced
  · rw [hothers]
    exact h.clear
  · rw [hw, hl]
    exact h.loaded
  · rw [hw]
    exact fun hs => h.entry (he hs)

/-- `InitializeWfp` adds the driver's objects, or leaves the engine as it was. -/
theorem Kept.initializeWfp (h : s.Kept) (hpc : s.pc = .initializeWfp) {k : WfpCalls}
    (hm : s.Moves (.initializeWfp k) s') : s'.Kept ∧ s'.others = s.others := by
  have hzero : s.wfp = .atLoad s.wfp.engine := h.entry (by simp [InEntry, hpc])
  have hothers : s.others = s.wfp.engine := others_of_ne (by simp [hpc])
  have hclear : s.wfp.engine.Clear := hothers ▸ h.clear
  have hk : s.wfp.initializeWfp k = (atLoad s.wfp.engine).initializeWfp k := by rw [← hzero]
  cases hm with
  | initializeWfp =>
    cases hok : (s.wfp.initializeWfp k).1 with
    | true =>
      have hcall : (atLoad s.wfp.engine).initializeWfp k =
          (true, (s.wfp.initializeWfp k).2) := by rw [← hk, ← hok]
      obtain ⟨hloaded, href, hwithout⟩ := loaded_of_initializeWfp h.referenced hclear hcall
      have halone := leftAlone_of_initializeWfp h.referenced hclear hcall
      have hothers' := hothers.trans hwithout.symm
      refine ⟨⟨href, ?_, fun _ => ⟨hloaded, halone⟩, fun he => ?_⟩, ?_⟩
      · rw [others_of_loaded (by simp), ← hothers']
        exact h.clear
      · simp [InEntry] at he
      · rw [others_of_loaded (by simp)]
        exact hothers'.symm
    | false =>
      have hengine : (s.wfp.initializeWfp k).2.engine = s.wfp.engine := by
        rw [hk] at hok ⊢
        exact engine_of_not_initializeWfp h.referenced hclear hok
      refine ⟨⟨hengine ▸ h.referenced, ?_, fun hl => ?_, fun he => ?_⟩, ?_⟩
      · rw [others_of_ne (by simp)]
        exact hengine ▸ hclear
      · simp at hl
      · simp [InEntry] at he
      · rw [others_of_ne (by simp), hothers]
        exact hengine

/-- `DriverUnload` deletes the objects of the driver and nothing else. -/
theorem Kept.unload (h : s.Kept) (hpc : s.pc = .loaded) (hm : s.Moves .unload s') :
    s'.Kept ∧ s'.others = s.others := by
  obtain ⟨hloaded, halone⟩ := h.loaded hpc
  have hengine : s.wfp.unInitializeWfp.engine = s.wfp.withoutOwn s.wfp.engine :=
    congrArg Cleanup.engine (hloaded.cleanup halone)
  have hothers := others_of_loaded hpc
  cases hm with
  | unload =>
    refine ⟨⟨?_, ?_, fun hl => ?_, fun he => ?_⟩, ?_⟩
    · exact hengine ▸ halone.referenced_withoutOwn h.referenced
    · rw [others_of_ne (by simp)]
      exact hengine ▸ hothers ▸ h.clear
    · simp at hl
    · simp [InEntry] at he
    · rw [others_of_ne (by simp), hothers]
      exact hengine

/-- A step keeps the invariant, and leaves alone what is not the driver's. -/
theorem Kept.step (h : s.Kept) (hG : KeepsOff s a) (hm : s.Moves a s') :
    s'.Kept ∧ ((∀ e, a ≠ .engine e) → s'.others = s.others) := by
  cases hm with
  | load hpc =>
    have hothers : s.others = s.wfp.engine := others_of_ne (by simp [hpc])
    exact ⟨⟨h.referenced, hothers ▸ h.clear, fun hl => by simp at hl, fun _ => rfl⟩,
      fun _ => hothers.symm⟩
  | entry hm =>
    obtain ⟨hw, hin, hl⟩ := hm.frame
    exact h.congr hw (iff_of_false hl hin.2.1) fun _ => hin
  | initializeWfp hpc =>
    obtain ⟨hkept, hothers⟩ := h.initializeWfp hpc (.initializeWfp hpc)
    exact ⟨hkept, fun _ => hothers⟩
  | unload hpc hq =>
    obtain ⟨hkept, hothers⟩ := h.unload hpc (.unload hpc hq)
    exact ⟨hkept, fun _ => hothers⟩
  | remove hpc =>
    refine h.congr ?_ ?_ ?_
    · rfl
    · simp [hpc]
    · exact fun hin => absurd rfl hin.1
  | device =>
    refine h.congr ?_ ?_ ?_
    · rfl
    · exact Iff.rfl
    · exact id
  | engine e =>
    obtain ⟨href, halone, hclear⟩ := hG
    refine ⟨⟨href, hclear, fun hl => ?_, fun hin => ?_⟩, fun hne => absurd rfl (hne e)⟩
    · exact ⟨(h.loaded hl).1.of_engine e, (halone hl).of_engine e⟩
    · change ({ s.wfp with engine := e } : Wfp) = atLoad e
      rw [h.entry hin]
      rfl

end Driver

/-! ### The device -/

/-- The device is in use, and has come from `InitializeQueue` to where it is by requests alone. -/
def ControlDevice.Running (d : ControlDevice) : Prop :=
  d.Ready ∧ audited.Reachable (fun _ _ => True) d.audit

theorem ControlDevice.Running.placed {d : ControlDevice} (h : d.Running) : d.context.Placed :=
  DeviceState.placed_of_reachable (Audit.reachable_device h.2)

theorem ControlDevice.Running.after {d : ControlDevice} (h : d.Running) {a : DeviceAction}
    {c : DeviceState} (hc : deviceStep d.context a = some c) : (d.after a c).Running :=
  ⟨h.1, .step h.2 trivial (Option.map_eq_some_iff.mpr ⟨c, hc, rfl⟩)⟩

/-- No request has come to the device. -/
def ControlDevice.Unused (d : ControlDevice) : Prop :=
  d.finished = false ∧ d.context.next = 0 ∧ d.context.completions = []

/-- What there is of the device at a label. -/
def DriverPc.Built : DriverPc → Option ControlDevice → Prop
  | .unloaded, d | .driverCreate, d | .deviceInitAllocate, d | .assignName, d
  | .deviceCreate, d => d = none
  | .createSymbolicLink, d => d = some .created
  | .createDefaultQueue, d =>
    d = some ⟨.initializeQueue, fun _ => .empty, true, false, false, false⟩
  | .createNotificationQueue, d =>
    d = some ⟨.initializeQueue, fun _ => .empty, true, true, false, false⟩
  | .finishInitializing, d =>
    d = some ⟨.initializeQueue, fun _ => .empty, true, true, true, false⟩
  | .initializeWfp, d | .loaded, d => ∃ d' ∈ d, d'.Running
  | .leaving, d => ∀ d' ∈ d, d'.Running ∨ d'.Unused

/-- A structure that `WdfControlDeviceInitAllocate` has returned is in `pDeviceInit`, or was freed
or taken over by a device. -/
def DriverPc.Released (allocated : ℕ) (released : List ℕ) : DriverPc → Option ℕ → Prop
  | .assignName, i | .deviceCreate, i =>
    ∃ m, released = List.range m ∧ allocated = m + 1 ∧ i = some m
  | _, _ => released = List.range allocated

namespace Driver

variable {s s' : Driver} {a : DriverAction}

/-- The driver has what its label says. -/
structure Built (s : Driver) : Prop where
  device : s.pc.Built s.device
  inits : s.pc.Released s.allocated s.released s.pDeviceInit

/-- A device that handles requests is in use. -/
theorem Built.running (h : s.Built) {d : ControlDevice} (hd : s.device = some d) :
    d.Running ∨ d.Unused := by
  have hdev := h.device
  rw [hd] at hdev
  cases hpc : s.pc with
  | unloaded | driverCreate | deviceInitAllocate | assignName | deviceCreate =>
    rw [hpc] at hdev
    cases hdev
  | createSymbolicLink | createDefaultQueue | createNotificationQueue | finishInitializing =>
    rw [hpc] at hdev
    cases hdev
    exact .inr ⟨rfl, rfl, rfl⟩
  | initializeWfp | loaded =>
    rw [hpc] at hdev
    obtain ⟨d', hd', hrun⟩ := hdev
    exact .inl (Option.some.inj hd' ▸ hrun)
  | leaving =>
    rw [hpc] at hdev
    exact hdev d rfl

/-- The structures that are not in `pDeviceInit` were freed or taken over, one after the other. -/
theorem Built.released_eq (h : s.Built) : ∃ m ≤ s.allocated, s.released = List.range m ∧
    (s.pc ≠ .assignName → s.pc ≠ .deviceCreate → m = s.allocated) := by
  have hinit := h.inits
  cases hpc : s.pc with
  | assignName | deviceCreate =>
    rw [hpc] at hinit
    obtain ⟨m, hr, ha, -⟩ := hinit
    exact ⟨m, ha ▸ Nat.le_succ m, hr, by simp⟩
  | _ =>
    rw [hpc] at hinit
    exact ⟨s.allocated, le_rfl, hinit, fun _ _ => rfl⟩

theorem Built.device_step (h : s.Built) {d : ControlDevice} (hd : s.device = some d)
    (hf : d.finished = true) {b : DeviceAction} {c : DeviceState}
    (hb : deviceStep d.context b = some c) : (s.setDevice (d.after b c)).Built := by
  have hrun := (h.running hd).resolve_right fun hnot => by simp [hnot.1] at hf
  have hrun' := hrun.after hb
  refine ⟨?_, h.inits⟩
  have hdev := h.device
  rw [hd] at hdev
  change s.pc.Built (some (d.after b c))
  cases hpc : s.pc with
  | unloaded | driverCreate | deviceInitAllocate | assignName | deviceCreate =>
    rw [hpc] at hdev
    cases hdev
  | createSymbolicLink | createDefaultQueue | createNotificationQueue | finishInitializing =>
    rw [hpc] at hdev
    cases hdev
    cases hf
  | initializeWfp | loaded => exact ⟨_, rfl, hrun'⟩
  | leaving =>
    rintro d' ⟨⟩
    exact .inl hrun'

theorem EntryMove.built (hm : s.EntryMove s') (h : s.Built) : s'.Built := by
  obtain ⟨hdev, hinit⟩ := h
  cases hm with
  | failed hpc =>
    rcases hpc with hpc | hpc
    all_goals
      rw [hpc] at hdev hinit
      have hnone : s.device = none := hdev
      exact ⟨fun d hd => by simp [enter, hnone] at hd, hinit⟩
  | driverCreated hpc | nameAssigned hpc =>
    rw [hpc] at hdev hinit
    exact ⟨hdev, hinit⟩
  | initAllocated hpc =>
    rw [hpc] at hdev hinit
    exact ⟨hdev, s.allocated, hinit, rfl, rfl⟩
  | initFreed hpc =>
    rcases hpc with hpc | hpc
    all_goals
      rw [hpc] at hdev hinit
      have hnone : s.device = none := hdev
      obtain ⟨m, hr, ha, hp⟩ := hinit
      refine ⟨fun d hd => by simp [enter, freeInit, hnone] at hd, ?_⟩
      change s.released ++ s.pDeviceInit.toList = List.range s.allocated
      rw [hr, ha, hp, List.range_succ]
      rfl
  | deviceCreated hpc =>
    rw [hpc] at hinit
    obtain ⟨m, hr, ha, hp⟩ := hinit
    refine ⟨rfl, ?_⟩
    change s.released ++ s.pDeviceInit.toList = List.range s.allocated
    rw [hr, ha, hp, List.range_succ]
    rfl
  | symbolicLink ok hpc hd | defaultQueue ok hpc hd | notificationQueue ok hpc hd =>
    rw [hpc] at hdev hinit
    obtain rfl := Option.some.inj (hd.symm.trans hdev)
    cases ok
    · refine ⟨?_, hinit⟩
      rintro d ⟨⟩
      exact .inr ⟨rfl, rfl, rfl⟩
    · exact ⟨rfl, hinit⟩
  | finished hpc hd =>
    rw [hpc] at hdev hinit
    obtain rfl := Option.some.inj (hd.symm.trans hdev)
    exact ⟨⟨_, rfl, ⟨rfl, rfl, rfl, rfl⟩, .init⟩, hinit⟩

theorem Built.step (h : s.Built) (hm : s.Moves a s') : s'.Built := by
  cases hm with
  | load hpc =>
    obtain ⟨hdev, hinit⟩ := h
    rw [hpc] at hdev hinit
    exact ⟨hdev, hinit⟩
  | entry hm => exact hm.built h
  | @initializeWfp k hpc =>
    obtain ⟨hdev, hinit⟩ := h
    rw [hpc] at hdev hinit
    obtain ⟨d, hd, hrun⟩ := hdev
    cases hok : (s.wfp.initializeWfp k).1 with
    | true => exact ⟨⟨d, hd, hrun⟩, hinit⟩
    | false =>
      refine ⟨fun d' hd' => .inl ?_, hinit⟩
      exact Option.some.inj (hd.symm.trans hd') ▸ hrun
  | unload hpc =>
    obtain ⟨hdev, hinit⟩ := h
    rw [hpc] at hdev hinit
    obtain ⟨d, hd, hrun⟩ := hdev
    refine ⟨fun d' hd' => .inl ?_, hinit⟩
    exact Option.some.inj (hd.symm.trans hd') ▸ hrun
  | remove hpc =>
    have hinit := h.inits
    rw [hpc] at hinit
    exact ⟨rfl, hinit⟩
  | device hd hf hb => exact h.device_step hd hf hb
  | engine => exact ⟨h.device, h.inits⟩

theorem built_of_reachable {e : FilterEngine} {G : Driver → DriverAction → Prop}
    (hs : (driver e).Reachable G s) : s.Built :=
  hs.invariant ⟨rfl, rfl⟩ fun _ _ _ h _ hstep => h.step (driverStep_move hstep)

end Driver

/-! ### The requests of a device -/

/-- When no call of `EvtIoDeviceControl` is left and no request is queued, every request that was
delivered has been completed once. -/
theorem ControlDevice.Quiet.completed {d : ControlDevice} (h : d.Quiet)
    (hp : d.context.Placed) : d.context.completed.Perm (List.range d.context.next) := by
  refine (List.perm_ext_iff_of_nodup hp.nodup_completed List.nodup_range).mpr fun r => ?_
  rw [List.mem_range]
  refine ⟨fun hr => ?_, fun hlt => ?_⟩
  · by_contra hge
    exact ((hp.each r).fresh (not_lt.mp hge)).2.2 hr
  · have hover := ((hp.each r).finished hlt).mp (.inr (h.2 r hlt))
    refine hover.elim (fun hf => ?_) id
    rcases (hp.each r).forwarded hf with hq | ⟨k, hk⟩ | hc
    · simp [h.1] at hq
    · -- all calls of `WfpNotify` have returned too
      have hk' : (d.context.handler k).pc.dequeued = some r := hk
      by_cases hlt' : k < d.context.next
      · simp [h.2 k hlt', HandlerPc.dequeued] at hk'
      · simp [((hp.each k).fresh (not_lt.mp hlt')).1, HandlerPc.dequeued] at hk'
    · exact hc

open Driver

variable {e : FilterEngine} {s : Driver}

theorem Driver.kept_of_reachable (hclear : e.toFilterObjects.Clear)
    (hs : (driver e).Reachable KeepsOff s) : s.Kept :=
  hs.invariant ⟨e.referenced, hclear, nofun, fun _ => rfl⟩
    fun _ _ _ h hG hstep => (h.step hG (driverStep_move hstep)).1

/-! ### Any number of loads -/

/-- The step is not one of other components. -/
def Unaided (_ : Driver) : DriverAction → Prop
  | .engine _ => False
  | _ => True

instance (s : Driver) : DecidablePred (Unaided s)
  | .engine _ => instDecidableFalse
  | .load | .entry _ | .initializeWfp _ | .unload | .remove | .device _ => instDecidableTrue

/-- The engine holds the sublayer of another driver. -/
def otherDriver : FilterEngine := ⟨onlySublayer otherKey, referenced_onlySublayer otherKey⟩

/-- The first load fails at the notification queue, the second one succeeds, and a request sets the
process id. -/
def twoLoads : List DriverAction :=
  .load :: List.replicate 6 (.entry true) ++ [.entry false, .remove, .load] ++
    List.replicate 8 (.entry true) ++ [.initializeWfp allAnswered,
      .device (.deliver ⟨ioctlWfpSetDeviceContextData, sizeofInBuf, 0, ⟨0, 0, 42⟩⟩),
      .device (.handler 0 .ok), .device (.handler 0 (.status statusSuccess)),
      .device (.handler 0 (.found ⟨0, 0, 0⟩)), .device (.handler 0 .ok),
      .device (.handler 0 .ok), .device (.handler 0 .ok)]

/-- Through any number of loads, whatever calls fail, and unloads: while the driver is not loaded
the filter engine has no object of it and does not call its callout; whenever the engine calls it,
there is a device with its link and queues, whose context holds what `InitializeQueue` and the
requests have stored since; no step of the driver changes what is not the driver's; and
nothing that an earlier load has left is in the way of a later one. -/
theorem driver_cycles (hclear : e.toFilterObjects.Clear) (hs : (driver e).Reachable KeepsOff s) :
    (s.pc ≠ .loaded → s.wfp.engine.Clear ∧ ¬ s.wfp.engine.CallsOut) ∧
    (s.wfp.engine.CallsOut → s.pc = .loaded ∧ ∃ d ∈ s.device, d.Running) ∧
    (∀ a s', (driver e).step s a = some s' → (∀ e', a ≠ .engine e') → s'.others = s.others) ∧
    (s.pc = .initializeWfp → ∀ k, Answered k s.wfp.engine →
      ∃ s', (driver e).step s (.initializeWfp k) = some s' ∧ s'.pc = .loaded) := by
  have hk := kept_of_reachable hclear hs
  have hb := built_of_reachable hs
  have hout : s.pc ≠ .loaded → s.wfp.engine.Clear ∧ ¬ s.wfp.engine.CallsOut := by
    intro hpc
    have hc : s.wfp.engine.Clear := others_of_ne hpc ▸ hk.clear
    exact ⟨hc, fun ⟨f, hf, hcall⟩ => (hc.filter hk.referenced hf).2 hcall⟩
  refine ⟨hout, fun hcall => ?_, fun a s' hstep hne => ?_, fun hpc k hans => ?_⟩
  · have hpc : s.pc = .loaded := by
      by_contra hpc
      exact (hout hpc).2 hcall
    have hdev := hb.device
    rw [hpc] at hdev
    obtain ⟨d, hd, hrun⟩ := hdev
    exact ⟨hpc, d, hd, hrun⟩
  · have hG : KeepsOff s a := by
      cases a with
      | engine e' => exact absurd rfl (hne e')
      | _ => trivial
    exact (hk.step hG (driverStep_move hstep)).2 hne
  · have hc : s.wfp.engine.Clear := (hout (by simp [hpc])).1
    have hzero : s.wfp = .atLoad s.wfp.engine := hk.entry (by simp [InEntry, hpc])
    have hok : (s.wfp.initializeWfp k).1 = true := by
      rw [hzero]
      exact initializeWfp_of_answered hc hans
    exact ⟨_, if_pos hpc, if_pos hok⟩

theorem driver_cycles_run : ∃ s, s.wfp.engine.CallsOut ∧ s.others = onlySublayer otherKey ∧
    (∃ d ∈ s.device, d.Running) ∧ ∀ s', (driver otherDriver).step s .unload = some s' →
      s'.others = onlySublayer otherKey := by
  obtain ⟨s, hs, hcall, hothers⟩ : ∃ s, (driver otherDriver).Reachable Unaided s ∧
      (∃ f ∈ s.wfp.engine.filters, f.calloutKey = some wfpAleRedirectCalloutV4) ∧
        s.others = onlySublayer otherKey :=
    TransitionSystem.exists_reachable_of_runChecked twoLoads (by decide +kernel)
  have hclear : otherDriver.toFilterObjects.Clear := by constructor <;> decide +kernel
  have hkeeps : (driver otherDriver).Reachable KeepsOff s := hs.mono fun s a ha => by
    cases a with
    | engine => exact ha.elim
    | _ => trivial
  obtain ⟨-, hrunning, hsame, -⟩ := driver_cycles hclear hkeeps
  refine ⟨s, hcall, hothers, (hrunning hcall).2, fun s' hstep => ?_⟩
  exact (hsame .unload s' hstep (by simp)).trans hothers

/-- Through any number of loads, whatever calls fail, and unloads: every structure that
`WdfControlDeviceInitAllocate` returns is freed or taken over by a device once, and before
`InitDriverObjects` returns; requests come only to a device that is ready; the process id that the
callout asks for is 0, or the call for a request to this device has stored it, a request to set the
id that was long enough; a driver that is not loaded has no device; and when a device is deleted,
each of its requests has been completed once. -/
theorem device_cycles {G : Driver → DriverAction → Prop} (hs : (driver e).Reachable G s) :
    (s.released.Nodup ∧ (∀ i ∈ s.released, i < s.allocated) ∧
      (s.pc ≠ .assignName → s.pc ≠ .deviceCreate → ∀ i < s.allocated, i ∈ s.released)) ∧
    (∀ d ∈ s.device, 0 < d.context.next → d.Ready) ∧
    (∀ d ∈ s.device, d.Ready → d.context.userModeAppProcessId ≠ 0 → ∃ r < d.context.next,
      (d.context.request r).Stores (d.record r) d.context.userModeAppProcessId) ∧
    (s.pc = .unloaded → s.device = none) ∧
    ∀ s', (driver e).step s .remove = some s' → ∀ d ∈ s.device,
      d.context.completed.Perm (List.range d.context.next) := by
  have hb := built_of_reachable hs
  refine ⟨?_, fun d hd hpos => ?_, fun d hd hready hid => ?_, fun hpc => ?_,
    fun s' hstep d hd => ?_⟩
  · obtain ⟨m, hle, hr, hall⟩ := hb.released_eq
    rw [hr]
    refine ⟨List.nodup_range, fun i hi => ?_, fun h₁ h₂ i hi => ?_⟩
    · exact (List.mem_range.mp hi).trans_le hle
    · rw [hall h₁ h₂]
      exact List.mem_range.mpr hi
  · rcases hb.running hd with hrun | ⟨-, hnone, -⟩
    · exact hrun.1
    · exact absurd (hnone ▸ hpos) (lt_irrefl 0)
  · have hfin := hready.2.2.2
    have hrun := (hb.running hd).resolve_right fun hnot => by simp [hnot.1] at hfin
    exact Audit.stores_of_reachable hrun.2 hid
  · have hdev := hb.device
    rwa [hpc] at hdev
  · have hm : s.Moves .remove s' := driverStep_move hstep
    cases hm with
    | remove hpc hq =>
      rcases hb.running hd with hrun | ⟨-, hnone, hcomp⟩
      · exact (hq d hd).completed hrun.placed
      · simp [DeviceState.completed, hnone, hcomp]

theorem device_cycles_run : ∃ s, s.released = [0, 1] ∧ ∃ s' d,
    (driver otherDriver).step s .remove = some s' ∧ d ∈ s.device ∧
      (∃ r < 1, (d.context.request r).Stores (d.record r) 42) ∧ d.context.completed.Perm [0] := by
  obtain ⟨s, hs, hreleased, hsome, hdev, hdevice⟩ : ∃ s,
      (driver otherDriver).Reachable (fun _ _ => True) s ∧ s.released = [0, 1] ∧
        ((driver otherDriver).step s .remove).isSome = true ∧
          (∀ d ∈ s.device, d.context.next = 1 ∧ d.context.userModeAppProcessId = 42) ∧
            s.device.isSome = true :=
    TransitionSystem.exists_reachable_of_runChecked (twoLoads ++ [.unload]) (by decide +kernel)
  obtain ⟨s', hs'⟩ := Option.isSome_iff_exists.mp hsome
  obtain ⟨d, hd⟩ := Option.isSome_iff_exists.mp hdevice
  obtain ⟨hnext, hid⟩ := hdev d hd
  obtain ⟨-, hready, hset, -, hcompleted⟩ := device_cycles hs
  have hstored := hset d hd (hready d hd (by simp [hnext])) (by simp [hid])
  have hperm := hcompleted s' hs' d hd
  rw [hnext, hid] at hstored
  rw [hnext] at hperm
  exact ⟨s, hreleased, s', d, hs', hd, hstored, hperm⟩

end IocpProxy
