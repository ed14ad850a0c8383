import IocpProxy.Driver.Requests

/-!
# The numbers of the notifications

`WfpNotify` takes a number from `Sequence` for each request it dequeues, unless the output buffer
cannot be retrieved, and hands it back in the output buffer. Between the two steps other calls may
take numbers and complete their requests, so the numbers arrive out of order; but each number is
taken for one request, and that request is completed with it.

## Main definitions

* `IocpProxy.OutputRetrieved` : the assumption on `WdfRequestRetrieveOutputBuffer`.
* `IocpProxy.DeviceState.Roomy`, `IocpProxy.DeviceState.Numbered` : the invariants.

## Main results

* `IocpProxy.sequence_gap_free`.
-/

namespace IocpProxy

variable {s s' : DeviceState}

/-- The request whose output buffer a handler is about to retrieve. -/
def HandlerPc.retrieving : HandlerPc → Option ReqId
  | .notify (.retrieveOutput r) => some r
  | _ => none

/-- `WdfRequestRetrieveOutputBuffer` succeeds when the output buffer is large enough. -/
def OutputRetrieved (s : DeviceState) : DeviceAction → Prop
  | .handler h (.status st) =>
    ∀ r ∈ (s.handler h).pc.retrieving,
      sizeofLong ≤ (s.request r).outputBufferLength → NtSuccess st
  | _ => True

instance (s : DeviceState) : DecidablePred (OutputRetrieved s)
  | .handler h (.status st) =>
    inferInstanceAs (Decidable (∀ r ∈ (s.handler h).pc.retrieving,
      sizeofLong ≤ (s.request r).outputBufferLength → NtSuccess st))
  | .handler _ .ok | .handler _ (.retrieved _) | .handler _ (.found _) | .deliver _ | .cancel _ =>
    instDecidableTrue

/-- The call of `WfpNotify` in a handler has taken a number. -/
def HandlerPc.Late : HandlerPc → Prop
  | .notify (.store _ _) | .notify (.complete _ _) => True
  | _ => False

/-- A number is only taken for a dequeued request. -/
theorem HandlerPc.not_late {pc : HandlerPc} (hd : pc.dequeued = none) : ¬ pc.Late := by
  intro hl
  cases pc with
  | notify p =>
    cases p with
    | store | complete => cases hd
    | _ => exact hl
  | _ => exact hl

namespace DeviceState

/-- The completions by `WfpNotify`. -/
def notified (s : DeviceState) : List Completion :=
  s.completions.filter (·.completer = .wfpNotify)

/-! ### Output buffers -/

/-- Requests are forwarded only with room for a number. -/
structure Roomy (s : DeviceState) : Prop where
  forward : ∀ r, (s.handler r).pc = .forward → sizeofLong ≤ (s.request r).outputBufferLength
  forwarded : ∀ r ∈ s.forwarded, sizeofLong ≤ (s.request r).outputBufferLength

theorem dispatch_eq_forward {req : Request} (h : req.dispatch = .forward) :
    sizeofLong ≤ req.outputBufferLength := by
  unfold Request.dispatch at h
  split_ifs at h with h₁ h₂ h₃
  exact not_lt.mp h₃

theorem Roomy.update (h : s.Roomy) {k : ReqId} {v : Handler}
    (hk : s'.handler = Function.update s.handler k v) (hreq : s'.request = s.request)
    (hf : s'.forwarded = s.forwarded)
    (hv : v.pc = .forward → sizeofLong ≤ (s.request k).outputBufferLength) : s'.Roomy where
  forward r hr := by
    rw [hreq]
    by_cases hrk : r = k
    · subst hrk
      rw [hk, Function.update_self] at hr
      exact hv hr
    · rw [hk, Function.update_of_ne hrk] at hr
      exact h.forward r hr
  forwarded := by simpa only [hreq, hf] using h.forwarded

theorem Roomy.step {a : DeviceAction} (h : s.Roomy) (hp : s.Placed)
    (hstep : device.step s a = some s') : s'.Roomy := by
  cases a with
  | deliver req =>
    obtain rfl := Option.some.inj hstep
    refine ⟨fun r hr => ?_, fun r hr => ?_⟩
    · by_cases hrn : r = s.next
      · simp [DeviceState.deliver, hrn] at hr
      · simp only [DeviceState.deliver, Function.update_of_ne hrn] at hr ⊢
        exact h.forward r hr
    · have hrn : r ≠ s.next := ((hp.each r).of_forwarded hr).1.ne
      simp only [DeviceState.deliver, Function.update_of_ne hrn] at hr ⊢
      exact h.forwarded r hr
  | handler k o =>
    cases handlerStep_move hstep with
    | dispatched => exact h.update rfl rfl rfl dispatch_eq_forward
    | @inputUsed buffer data =>
      refine h.update rfl rfl rfl fun e => absurd e ?_
      unfold Request.use
      split_ifs <;> simp
    | forwarded hpc =>
      refine ⟨fun r hr => ?_, fun r hr => ?_⟩
      · by_cases hrk : r = k
        · simp [hrk] at hr
        · rw [setHandler_of_ne _ hrk] at hr
          exact h.forward r hr
      · rcases Finset.mem_insert.mp hr with rfl | hr
        · exact h.forward r hpc
        · exact h.forwarded r hr
    | _ => exact h.update rfl rfl rfl (by simp)
  | cancel r =>
    simp only [device, deviceStep] at hstep
    split_ifs at hstep
    obtain rfl := Option.some.inj hstep
    exact ⟨h.forward, h.forwarded⟩

theorem roomy_of_reachable {G : DeviceState → DeviceAction → Prop} (hs : device.Reachable G s) :
    s.Roomy := by
  refine hs.invariant_step ⟨?_, ?_⟩ fun _ _ _ hr h _ hstep =>
    h.step (placed_of_reachable hr) hstep
  · simp [device, initializeQueue]
  · simp [device, initializeQueue]

theorem Roomy.of_dequeued (h : s.Roomy) (hp : s.Placed) {k r : ReqId} (hd : s.Dequeued k r) :
    sizeofLong ≤ (s.request r).outputBufferLength :=
  h.forwarded r ((hp.each r).dequeued k hd).1

/-! ### Numbers -/

/-- The numbers are taken in order, each for one request. Until the request is completed, the call
of `WfpNotify` that dequeued it has the number; then the completion has it. -/
structure Numbered (s : DeviceState) : Prop where
  sequence : s.sequence = Int32.ofNat (s.issued.length + 1)
  numbers : s.issued.map Prod.snd =
    (List.range s.issued.length).map fun k => Int32.ofNat (k + 1)
  nodup : (s.issued.map Prod.fst).Nodup
  taken : ∀ h r v, (s.handler h).pc = .notify (.store r v) → (r, v) ∈ s.issued
  stored : ∀ h r b, (s.handler h).pc = .notify (.complete r b) →
    b = sizeofLong ∧ ∃ v, (r, v) ∈ s.issued ∧ s.output r = some v
  done : ∀ c ∈ s.notified, c.status = statusSuccess ∧ c.information = sizeofLong ∧
    ∃ v, c.value = some v ∧ (c.request, v) ∈ s.issued
  back : ∀ p ∈ s.issued,
    (∃ h, s.Dequeued h p.1 ∧ (s.handler h).pc.Late) ∨ ∃ c ∈ s.notified, c.request = p.1

/-- A handler that a step leaves alone keeps its number. -/
theorem late_of_handler_eq {k r : ReqId} (hk : s'.handler k = s.handler k) (hd : s.Dequeued k r)
    (hl : (s.handler k).pc.Late) : s'.Dequeued k r ∧ (s'.handler k).pc.Late := by
  refine ⟨?_, ?_⟩
  · rwa [Dequeued, hk]
  · rwa [hk]

theorem mem_completed_of_notified {c : Completion} (hc : c ∈ s.notified) :
    c.request ∈ s.completed :=
  List.mem_map_of_mem (List.mem_of_mem_filter hc)

namespace Numbered

/-- A step outside the steps of `WfpNotify` that deal with a number. -/
theorem quiet (h : s.Numbered) {k : ReqId} {v : Handler}
    (hk : s'.handler = Function.update s.handler k v) (hl : ¬ (s.handler k).pc.Late)
    (hl' : ¬ v.pc.Late) (hseq : s'.sequence = s.sequence) (hi : s'.issued = s.issued)
    (ho : s'.output = s.output) (hn : s'.notified = s.notified) : s'.Numbered where
  sequence := by rw [hseq, hi, h.sequence]
  numbers := by rw [hi, h.numbers]
  nodup := by rw [hi]; exact h.nodup
  taken a r w hpc := by
    by_cases ha : a = k
    · rw [hk, ha, Function.update_self] at hpc
      exact absurd (by simp [hpc, HandlerPc.Late]) hl'
    · rw [hk, Function.update_of_ne ha] at hpc
      exact hi ▸ h.taken a r w hpc
  stored a r b hpc := by
    by_cases ha : a = k
    · rw [hk, ha, Function.update_self] at hpc
      exact absurd (by simp [hpc, HandlerPc.Late]) hl'
    · rw [hk, Function.update_of_ne ha] at hpc
      rw [hi, ho]
      exact h.stored a r b hpc
  done := by simpa only [hn, hi] using h.done
  back p hp := by
    rw [hi] at hp
    rcases h.back p hp with ⟨a, hd, ha⟩ | hc
    · have hak : a ≠ k := fun e => hl (e ▸ ha)
      have hsame : s'.handler a = s.handler a := by rw [hk, Function.update_of_ne hak]
      exact .inl ⟨a, late_of_handler_eq hsame hd ha⟩
    · exact .inr (hn ▸ hc)

/-- A request for which a number is about to be taken has none yet. -/
theorem not_issued (h : s.Numbered) (hp : s.Placed) {k r : ReqId}
    (hpc : (s.handler k).pc = .notify (.exchangeAdd r)) : r ∉ s.issued.map Prod.fst := by
  have hd : s.Dequeued k r := by rw [Dequeued, hpc]; rfl
  obtain ⟨-, hc, huniq⟩ := (hp.each r).dequeued k hd
  intro hm
  obtain ⟨p, hpi, rfl⟩ := List.mem_map.mp hm
  rcases h.back p hpi with ⟨a, hda, ha⟩ | ⟨c, hcn, hcr⟩
  · rw [huniq a hda, hpc] at ha
    exact ha
  · exact hc (hcr ▸ mem_completed_of_notified hcn)

/-- A number is taken. -/
theorem exchangeAdd (h : s.Numbered) (hp : s.Placed) {k r : ReqId}
    (hpc : (s.handler k).pc = .notify (.exchangeAdd r)) :
    ((s.exchangeAdd r).handlerAt k (.notify (.store r s.sequence))).Numbered := by
  have hnot := h.not_issued hp hpc
  have hother : ∀ a, a ≠ k →
      ((s.exchangeAdd r).handlerAt k (.notify (.store r s.sequence))).handler a = s.handler a :=
    fun a ha => setHandler_of_ne _ ha _
  have hself : (((s.exchangeAdd r).handlerAt k (.notify (.store r s.sequence))).handler k).pc =
      .notify (.store r s.sequence) := by rw [handlerAt, setHandler_self]
  have hissued : ((s.exchangeAdd r).handlerAt k (.notify (.store r s.sequence))).issued =
      s.issued ++ [(r, s.sequence)] := rfl
  refine ⟨?_, ?_, ?_, fun a q v hq => ?_, fun a q b hq => ?_, fun c hc => ?_, fun p hpi => ?_⟩
  · rw [hissued, List.length_append, List.length_singleton, Int32.ofNat_add (s.issued.length + 1),
      ← h.sequence]
    rfl
  · rw [hissued, List.map_append, h.numbers, List.length_append, List.length_singleton,
      List.range_succ, List.map_append, List.map_singleton, List.map_singleton, h.sequence]
  · rw [hissued, List.map_append, List.map_singleton, ← List.concat_eq_append]
    exact h.nodup.concat hnot
  · by_cases ha : a = k
    · rw [ha, hself, HandlerPc.notify.injEq, NotifyPc.store.injEq] at hq
      obtain ⟨rfl, rfl⟩ := hq
      exact List.mem_append_right _ (List.mem_singleton_self _)
    · rw [hother a ha] at hq
      exact List.mem_append_left _ (h.taken a q v hq)
  · have ha : a ≠ k := fun e => by simp [e, hself] at hq
    rw [hother a ha] at hq
    obtain ⟨hb, v, hv, hout⟩ := h.stored a q b hq
    exact ⟨hb, v, List.mem_append_left _ hv, hout⟩
  · obtain ⟨hst, hinfo, v, hv, hm⟩ := h.done c hc
    exact ⟨hst, hinfo, v, hv, List.mem_append_left _ hm⟩
  · rcases List.mem_append.mp hpi with hm | hm
    · rcases h.back p hm with ⟨a, hda, ha⟩ | hc
      · have hak : a ≠ k := by
          rintro rfl
          simp [hpc, HandlerPc.Late] at ha
        exact .inl ⟨a, late_of_handler_eq (hother a hak) hda ha⟩
      · exact .inr hc
    · obtain rfl := List.mem_singleton.mp hm
      refine .inl ⟨k, ?_, ?_⟩
      · rw [Dequeued, hself]
        rfl
      · rw [hself]
        trivial

/-- A number is stored in the output buffer. -/
theorem store (h : s.Numbered) (hp : s.Placed) {k r : ReqId} {v : Int32}
    (hpc : (s.handler k).pc = .notify (.store r v)) :
    (({ s with output := Function.update s.output r (some v) } : DeviceState).handlerAt k
      (.notify (.complete r sizeofLong))).Numbered := by
  have hd : s.Dequeued k r := by rw [Dequeued, hpc]; rfl
  have huniq := ((hp.each r).dequeued k hd).2.2
  generalize hs' : ({ s with output := Function.update s.output r (some v) } :
    DeviceState).handlerAt k (.notify (.complete r sizeofLong)) = s'
  have hother : ∀ a, a ≠ k → s'.handler a = s.handler a := fun a ha => by
    rw [← hs', handlerAt, setHandler_of_ne _ ha]
  have hself : (s'.handler k).pc = .notify (.complete r sizeofLong) := by
    rw [← hs', handlerAt, setHandler_self]
  have hout : s'.output = Function.update s.output r (some v) := hs' ▸ rfl
  have hi : s'.issued = s.issued := hs' ▸ rfl
  have hn : s'.notified = s.notified := hs' ▸ rfl
  refine ⟨?_, by rw [hi, h.numbers], hi ▸ h.nodup, fun a q w hq => ?_, fun a q b hq => ?_, ?_,
    fun p hpi => ?_⟩
  · rw [hi, ← h.sequence, ← hs']
    rfl
  · have ha : a ≠ k := fun e => by simp [e, hself] at hq
    rw [hother a ha] at hq
    exact hi ▸ h.taken a q w hq
  · rw [hi, hout]
    by_cases ha : a = k
    · rw [ha, hself, HandlerPc.notify.injEq, NotifyPc.complete.injEq] at hq
      obtain ⟨rfl, rfl⟩ := hq
      exact ⟨rfl, v, h.taken k r v hpc, Function.update_self _ _ _⟩
    · rw [hother a ha] at hq
      -- the buffer of another request is not written
      have hne : q ≠ r := by
        rintro rfl
        exact ha (huniq a (by rw [Dequeued, hq]; rfl))
      rw [Function.update_of_ne hne]
      exact h.stored a q b hq
  · simpa only [hn, hi] using h.done
  · rcases h.back p (hi ▸ hpi) with ⟨a, hda, hl⟩ | hc
    · by_cases ha : a = k
      · subst ha
        refine .inl ⟨a, ?_, by rw [hself]; trivial⟩
        rw [Dequeued, hpc] at hda
        rw [Dequeued, hself]
        exact hda
      · exact .inl ⟨a, late_of_handler_eq (hother a ha) hda hl⟩
    · exact .inr (hn ▸ hc)

/-- A request is completed with its number. -/
theorem notify (h : s.Numbered) {k r : ReqId} {b : ℕ}
    (hpc : (s.handler k).pc = .notify (.complete r b)) :
    ((s.complete r statusSuccess b .wfpNotify).setHandler k
      ⟨.complete, statusSuccess⟩).Numbered := by
  obtain ⟨rfl, v, hv, hout⟩ := h.stored k r b hpc
  generalize hs' : (s.complete r statusSuccess sizeofLong .wfpNotify).setHandler k
    ⟨.complete, statusSuccess⟩ = s'
  have hother : ∀ a, a ≠ k → s'.handler a = s.handler a := fun a ha => by
    rw [← hs', setHandler_of_ne _ ha]
    rfl
  have hself : (s'.handler k).pc = .complete := by rw [← hs', setHandler_self]
  have hi : s'.issued = s.issued := hs' ▸ rfl
  have hn : s'.notified =
      s.notified ++ [⟨r, statusSuccess, sizeofLong, some v, .wfpNotify⟩] := by
    rw [← hs', notified, setHandler, DeviceState.complete, if_pos rfl, hout, List.filter_append]
    rfl
  refine ⟨?_, by rw [hi, h.numbers], hi ▸ h.nodup, fun a q w hq => ?_, fun a q b hq => ?_,
    fun c hc => ?_, fun p hpi => ?_⟩
  · rw [hi, ← h.sequence, ← hs']
    rfl
  · have ha : a ≠ k := fun e => by simp [e, hself] at hq
    rw [hother a ha] at hq
    exact hi ▸ h.taken a q w hq
  · have ha : a ≠ k := fun e => by simp [e, hself] at hq
    rw [hother a ha] at hq
    rw [hi, ← hs']
    exact h.stored a q b hq
  · rw [hi]
    rcases List.mem_append.mp (hn ▸ hc) with hc | hc
    · exact h.done c hc
    · obtain rfl := List.mem_singleton.mp hc
      exact ⟨rfl, rfl, v, rfl, hv⟩
  · rw [hn]
    rcases h.back p (hi ▸ hpi) with ⟨a, hda, hl⟩ | ⟨c, hc, hcr⟩
    · by_cases ha : a = k
      · rw [Dequeued, ha, hpc] at hda
        exact .inr ⟨_, List.mem_append_right _ (List.mem_singleton_self _), Option.some.inj hda⟩
      · exact .inl ⟨a, late_of_handler_eq (hother a ha) hda hl⟩
    · exact .inr ⟨c, List.mem_append_left _ hc, hcr⟩

theorem congr (h : s.Numbered) (hh : s'.handler = s.handler) (hseq : s'.sequence = s.sequence)
    (hi : s'.issued = s.issued) (ho : s'.output = s.output) (hn : s'.notified = s.notified) :
    s'.Numbered where
  sequence := by rw [hseq, hi, h.sequence]
  numbers := by rw [hi, h.numbers]
  nodup := by rw [hi]; exact h.nodup
  taken := by simpa only [hh, hi] using h.taken
  stored := by simpa only [hh, hi, ho] using h.stored
  done := by simpa only [hn, hi] using h.done
  back := by simpa only [hi, hn, Dequeued, hh] using h.back

theorem step {a : DeviceAction} (h : s.Numbered) (hp : s.Placed) (hr : s.Roomy)
    (hG : OutputRetrieved s a) (hstep : device.step s a = some s') : s'.Numbered := by
  cases a with
  | deliver req =>
    obtain rfl := Option.some.inj hstep
    have hpc := ((hp.each s.next).fresh le_rfl).1
    exact h.quiet rfl (by simp [hpc, HandlerPc.Late]) (by simp [HandlerPc.Late]) rfl rfl rfl rfl
  | handler k o =>
    cases handlerStep_move hstep with
    | dispatched hpc =>
      exact h.quiet rfl (by simp [hpc, HandlerPc.Late]) (HandlerPc.not_late (dispatch_dequeued _).1)
        rfl rfl rfl rfl
    | inputUsed hpc =>
      exact h.quiet rfl (by simp [hpc, HandlerPc.Late]) (HandlerPc.not_late (use_dequeued _ _).1)
        rfl rfl rfl rfl
    | @noOutput r st hpc hst =>
      have hroom := hr.of_dequeued hp (k := k) (r := r) (by rw [Dequeued, hpc]; rfl)
      exact absurd (hG r (by rw [hpc]; rfl) hroom) hst
    | numbered hpc => exact h.exchangeAdd hp hpc
    | stored hpc => exact h.store hp hpc
    | notified hpc => exact h.notify hpc
    | completed hpc =>
      refine h.quiet rfl (by simp [hpc, HandlerPc.Late]) (by simp [HandlerPc.Late]) rfl rfl rfl ?_
      simp [DeviceState.notified, handlerAt, setHandler, DeviceState.complete]
    | inputRetrieved hpc | exchanged hpc | forwarded hpc | notForwarded hpc | noneRetrieved hpc
    | retrieved hpc | outputRetrieved hpc | returned hpc =>
      exact h.quiet rfl (by simp [hpc, HandlerPc.Late]) (by simp [HandlerPc.Late]) rfl rfl rfl rfl
  | cancel r =>
    simp only [device, deviceStep] at hstep
    split_ifs at hstep
    obtain rfl := Option.some.inj hstep
    refine h.congr rfl rfl rfl rfl ?_
    simp [DeviceState.notified, DeviceState.dequeue, DeviceState.complete]

end Numbered

theorem numbered_of_reachable (hs : device.Reachable OutputRetrieved s) : s.Numbered := by
  refine hs.invariant_step ⟨rfl, rfl, List.nodup_nil, ?_, ?_, ?_, ?_⟩ fun _ _ _ hr h hG hstep =>
    h.step (placed_of_reachable hr) (roomy_of_reachable hr) hG hstep
  all_goals simp [device, initializeQueue, notified]

/-- When no call of `WfpNotify` is under way, the requests that were notified are the requests for
which a number was taken, each with its number. -/
theorem Numbered.perm_issued (h : s.Numbered) (hp : s.Placed)
    (hidle : ∀ k p, (s.handler k).pc ≠ .notify p) :
    (s.notified.map fun c => (c.request, c.value)).Perm
      (s.issued.map fun p => (p.1, some p.2)) := by
  have hsub : (s.notified.map Completion.request).Sublist s.completed :=
    List.filter_sublist.map _
  have hleft : (s.notified.map fun c => (c.request, c.value)).Nodup := by
    refine List.Nodup.of_map Prod.fst ?_
    rw [List.map_map]
    exact hp.nodup_completed.sublist hsub
  have hright : (s.issued.map fun p => (p.1, some p.2)).Nodup := by
    refine List.Nodup.of_map Prod.fst ?_
    rw [List.map_map]
    exact h.nodup
  refine (List.perm_ext_iff_of_nodup hleft hright).mpr fun q => ?_
  rw [List.mem_map, List.mem_map]
  constructor
  · rintro ⟨c, hc, rfl⟩
    obtain ⟨-, -, v, hv, hm⟩ := h.done c hc
    exact ⟨_, hm, by rw [hv]⟩
  · rintro ⟨p, hpi, rfl⟩
    rcases h.back p hpi with ⟨a, -, ha⟩ | ⟨c, hc, hcr⟩
    · cases hpc : (s.handler a).pc with
      | notify p => exact absurd hpc (hidle a p)
      | _ => simp [hpc, HandlerPc.Late] at ha
    · obtain ⟨-, -, v, hv, hm⟩ := h.done c hc
      -- the number in the completion is the one taken, as only one was taken for the request
      have hpv : (c.request, v) = p := List.inj_on_of_nodup_map h.nodup hm hpi hcr
      exact ⟨c, hc, by rw [hv, ← hpv]⟩

end DeviceState

/-- Every queued request has room for a number. If output buffers that are large enough can be
retrieved, every request that `WfpNotify` completes gets a number; whenever no call of `WfpNotify`
is under way and `n` requests were completed, they got the numbers 1 to `n`, each once, and
`Sequence` is `n + 1`; and an event that finds no request takes no number. -/
theorem sequence_gap_free :
    (∀ s, device.Reachable (fun _ _ => True) s →
      ∀ r ∈ s.notificationQueue, sizeofLong ≤ (s.request r).outputBufferLength) ∧
    ∀ s, device.Reachable OutputRetrieved s →
      (∀ c ∈ s.notified, c.status = statusSuccess ∧ c.information = sizeofLong) ∧
      ((∀ k p, (s.handler k).pc ≠ .notify p) →
        (s.notified.map Completion.value : Multiset (Option Int32)) =
          (Multiset.range s.notified.length).map (fun k => some (Int32.ofNat (k + 1))) ∧
        s.sequence = Int32.ofNat (s.notified.length + 1)) ∧
      ∀ k st s', (s.handler k).pc = .notify .retrieveNext →
        device.step s (.handler k (.status st)) = some s' →
          s'.sequence = s.sequence ∧ s'.notified = s.notified := by
  refine ⟨fun s hs r hr => ?_, fun s hs => ⟨fun c hc => ?_, fun hidle => ?_,
    fun k st s' hpc hstep => ?_⟩⟩
  · have hplaced := DeviceState.placed_of_reachable hs
    exact (DeviceState.roomy_of_reachable hs).forwarded r ((hplaced.each r).queued hr).1
  · obtain ⟨hst, hinfo, -⟩ := (DeviceState.numbered_of_reachable hs).done c hc
    exact ⟨hst, hinfo⟩
  · have hnum := DeviceState.numbered_of_reachable hs
    have hperm := hnum.perm_issued (DeviceState.placed_of_reachable hs) hidle
    have hlen : s.notified.length = s.issued.length := by simpa using hperm.length_eq
    refine ⟨?_, hlen ▸ hnum.sequence⟩
    have hvals : (s.notified.map Completion.value).Perm (s.issued.map fun p => some p.2) := by
      have hsnd := hperm.map Prod.snd
      rw [List.map_map, List.map_map] at hsnd
      exact hsnd
    have hnumbers : (s.issued.map fun p => some p.2) =
        (List.range s.notified.length).map fun k => some (Int32.ofNat (k + 1)) := by
      have hsome := congrArg (List.map some) hnum.numbers
      rw [List.map_map, List.map_map] at hsome
      rw [hlen]
      exact hsome
    exact Multiset.coe_eq_coe.mpr (hnumbers ▸ hvals)
  · have hm := handlerStep_move (h := k) hstep
    cases hm with
    | noneRetrieved => exact ⟨rfl, rfl⟩
    | _ hpc' => simp [hpc] at hpc'

/-- Two requests wait; two events take the numbers 1 and 2 in this order, but complete their
requests in the other one. -/
theorem sequence_gap_free_run :
    ∃ s : DeviceState, s.notified.map Completion.value = [some 2, some 1] ∧ s.sequence = 3 ∧
      (s.notified.map Completion.value : Multiset (Option Int32)) =
        (Multiset.range s.notified.length).map (fun k => some (Int32.ofNat (k + 1))) := by
  obtain ⟨s, hs, hvals, hseq, hnext, hpc⟩ : ∃ s : DeviceState,
      device.Reachable OutputRetrieved s ∧
        s.notified.map Completion.value = [some 2, some 1] ∧ s.sequence = 3 ∧ s.next = 4 ∧
        ∀ k < 4, (s.handler k).pc.dequeued = none ∧ (s.handler k).pc ≠ .notify .retrieveNext :=
    TransitionSystem.exists_reachable_of_runChecked
      (waitForNotification 0 ++ waitForNotification 1 ++ (simulateEvent 2 0).take 5 ++
        simulateEvent 3 1 ++ List.replicate 4 (.handler 2 .ok)) (by decide +kernel)
  have hidle : ∀ k p, (s.handler k).pc ≠ .notify p := by
    intro k p hk
    by_cases hlt : k < 4
    · obtain ⟨hd, hne⟩ := hpc k hlt
      cases p with
      | retrieveNext => exact hne hk
      | _ => simp [hk, HandlerPc.dequeued, NotifyPc.dequeued] at hd
    · have hfresh := ((DeviceState.placed_of_reachable hs).each k).fresh
        (hnext ▸ not_lt.mp hlt)
      simp [hk] at hfresh
  exact ⟨s, hvals, hseq, ((sequence_gap_free.2 s hs).2.1 hidle).1⟩

end IocpProxy
