import IocpProxy.Driver.Exits
import IocpProxy.Library.TransitionSystem

/-!
# The versions of a connect request

The filtering platform shows the callout a request again when another filter has changed it. Here
the versions of one request are followed over any sequence of calls of `ClassifyCallback` and
changes by other filters. Nothing is assumed about the kernel calls, nor about the answers of
`FwpsQueryConnectionRedirectState0`: that the filter redirects a connection only once is due to
the walk over the previous versions.

## Main definitions

* `IocpProxy.ConnectAction`, `IocpProxy.classification` : the system.

## Main results

* `IocpProxy.redirected_once`.
-/

namespace IocpProxy

/-- A call of `ClassifyCallback`, without the request. -/
structure ClassifyCall where
  proxyAppProcessID : Int32
  kernel : KernelOutcomes
  input : ClassifyInput
  flags : UInt32
  classifyOut : ClassifyOut
  /-- The rounds of the allocation loop. -/
  fuel : ℕ

/-- The call on a connect request, for the filter with the given id. -/
def ClassifyCall.run (k : ClassifyCall) (platform : Platform) (filterId : UInt64) (c : Connection) :
    Option ClassifyResult :=
  classifyCallback platform k.proxyAppProcessID k.kernel k.input ⟨filterId, k.flags⟩ k.classifyOut c
    k.fuel

/-- What happens to a connect request. -/
inductive ConnectAction
  /-- The platform calls the callout. -/
  | classify (k : ClassifyCall)
  /-- Another filter applies a version. -/
  | modify (v : ConnectRequest)

/-- A connect request is classified and modified; `filterId` is the id of this driver's filter. -/
def classification (platform : Platform) (filterId : UInt64) (original : ConnectRequest) :
    TransitionSystem Connection ConnectAction where
  init := ⟨original, []⟩
  step c
    | .classify k => (k.run platform filterId c).map fun r => r.applied.elim c c.push
    | .modify v => if v.modifierFilterId ≠ filterId then some (c.push v) else none

/-- The number of versions this driver's filter made. -/
def Connection.redirections (c : Connection) (filterId : UInt64) : ℕ :=
  c.history.countP fun v => v.modifierFilterId = filterId

variable {platform : Platform} {filterId : UInt64} {original : ConnectRequest} {c c' : Connection}

/-- The versions of a request after a step. -/
theorem classification_step {a : ConnectAction}
    (h : (classification platform filterId original).step c a = some c') :
    c' = c ∨ ∃ v, c' = c.push v ∧
      (v.modifierFilterId ≠ filterId ∨ ∀ u ∈ c.history, u.modifierFilterId ≠ filterId) := by
  cases a with
  | classify k =>
    obtain ⟨r, hr, rfl⟩ := Option.map_eq_some_iff.mp h
    cases hv : r.applied with
    | none => exact .inl rfl
    | some v => exact .inr ⟨v, rfl, .inr (classifyCallback_applied hr hv).1.history⟩
  | modify v =>
    simp only [classification] at h
    split_ifs at h with hv
    cases h
    exact .inr ⟨v, rfl, .inl hv⟩

/-- A step adds a version of the filter only when there is none. -/
theorem redirections_step {a : ConnectAction} (hc : c.redirections filterId ≤ 1)
    (h : (classification platform filterId original).step c a = some c') :
    c'.redirections filterId ≤ 1 := by
  obtain rfl | ⟨v, rfl, hv⟩ := classification_step h
  · exact hc
  · rw [Connection.redirections, Connection.history_push, List.countP_cons]
    rcases hv with hv | hv
    · simpa [Connection.redirections, hv] using hc
    · have hzero : c.history.countP (fun v => v.modifierFilterId = filterId) = 0 := by
        simpa [List.countP_eq_zero] using hv
      rw [hzero]
      split_ifs <;> omega

/-- In every state of a run, at most one version was made by this driver's filter, and as soon as
there is one, no further call of `ClassifyCallback` applies another. -/
theorem redirected_once
    (hc : (classification platform filterId original).Reachable (fun _ _ => True) c) :
    c.redirections filterId ≤ 1 ∧ ∀ (k : ClassifyCall) (r : ClassifyResult),
      (∃ v ∈ c.history, v.modifierFilterId = filterId) → k.run platform filterId c = some r →
        r.applied = none := by
  refine ⟨hc.invariant ?_ fun _ _ _ hI _ h => redirections_step hI h, fun k r hv hr => ?_⟩
  · exact (List.countP_le_length (l := [original])).trans_eq rfl
  · obtain ⟨v, hmem, he⟩ := hv
    by_contra hne
    obtain ⟨u, hu⟩ := Option.ne_none_iff_exists'.mp hne
    exact (classifyCallback_applied hr hu).1.history v hmem he

/-- The request to the web server is redirected, changed by another filter, classified again,
changed twice and classified again. -/
theorem redirected_once_web :
    ∃ c : Connection, (c.history.map fun v => v.modifierFilterId) = [9, 8, 9, 7, 0] ∧
      c.redirections 7 ≤ 1 := by
  let again : ConnectAction :=
    .classify ⟨42, kernelOk, ⟨50000, 43⟩, 0, ⟨0, fwpsRightActionWrite⟩, 1⟩
  let change (id : UInt64) : ConnectAction := .modify { webRequest with modifierFilterId := id }
  obtain ⟨c, hc, hids⟩ : ∃ c, (classification .x64 7 webRequest).Reachable (fun _ _ => True) c ∧
      (c.history.map fun v => v.modifierFilterId) = [9, 8, 9, 7, 0] :=
    TransitionSystem.exists_reachable_of_runChecked
      [again, change 9, again, change 8, change 9, again] (by decide +kernel)
  exact ⟨c, hids, (redirected_once hc).1⟩

end IocpProxy
