import IocpProxy.Proxy.Lifetime

/-!
# `Forward`

`Forward` asks for the buddy twice: once to see whether there is one, once to call `Send` on it.
The client owns its remote, so for the client both answers are the same. The remote only has a
weak reference: when the client is destroyed in between, the second answer is null.

`Send` then copies the received bytes as a zero-terminated string. Only a full buffer without a
zero makes the copy leave the buffers.

## Main definitions

* `IocpProxy.State.lookedUp`, `IocpProxy.KeepsLookedUp` : the condition on the steps.
* `IocpProxy.SocketContext.send` : the memory of the destination after the copy.

## Main results

* `IocpProxy.forward_buddy`, `IocpProxy.forward_buddy_fails`.
* `IocpProxy.forward_copy_iff`, `IocpProxy.forward_copy_fails`.
-/

namespace IocpProxy

open State

variable {n : ℕ} {s s' : State n}

/-! ### The two look-ups -/

namespace State

/-- Between the two look-ups of a worker that forwards for a remote, its client. -/
def lookedUp (s : State n) (w : Fin n) : Option CtxId :=
  match s.worker w with
  | .busy j .forwardSend => s.weakOf j.ctx
  | _ => none

end State

/-- The step does not destroy the client of a remote for which a worker is between the two
look-ups of `Forward`. -/
def KeepsLookedUp (s : State n) (a : Action n) : Prop :=
  ∀ s' ∈ step s a, ∀ w, ∀ c ∈ s.lookedUp w, c ∈ s.live → c ∈ s'.live

instance (s : State n) : DecidablePred (KeepsLookedUp s) := fun a =>
  inferInstanceAs (Decidable (∀ s' ∈ step s a, ∀ w, ∀ c ∈ s.lookedUp w, c ∈ s.live → c ∈ s'.live))

namespace State

/-- A context between the look-ups of `Forward` has a buddy, and `Send` is called on the buddy. -/
structure Found (s : State n) : Prop where
  second : ∀ w j, s.worker w = .busy j .forwardSend → s.getBuddySocketContext j.ctx ≠ none
  target : ∀ w j b, s.worker w = .busy j (.send b) ∨ s.worker w = .busy j (.fill b) →
    s.Partner j.ctx b

/-- A buddy that was found is found again, unless it is a client that was destroyed. -/
theorem getBuddy_ne_none {a : Action n} (hs : s.Sound) (hm : Move s a s') {x : CtxId}
    (hb : s.getBuddySocketContext x ≠ none)
    (hc : ∀ c ∈ s.weakOf x, c ∈ s.live → c ∈ s'.live) : s'.getBuddySocketContext x ≠ none := by
  obtain ⟨y, hy⟩ := Option.ne_none_iff_exists'.mp hb
  have hbuddy := hm.buddy_eq hs (Paired.partner_of_getBuddy hy)
  rw [getBuddySocketContext, BuddySocketContextPtr.get, hbuddy]
  rw [getBuddySocketContext, BuddySocketContextPtr.get] at hy
  cases hstrong : (s.ctx x).buddy.strong with
  | some z => simp
  | none =>
    simp only [hstrong, Option.filter_eq_some_iff, decide_eq_true_eq] at hy
    simp [Option.filter_eq_none_iff, hy.1, hc y hy.1 hy.2]

theorem Found.step {a : Action n} (h : s.Found) (hs : s.Sound) (hG : KeepsLookedUp s a)
    (hstep : IocpProxy.step s a = some s') : s'.Found := by
  have hm := (step_move hstep).2.2
  have send : ∀ {w j b st}, s'.worker w = .busy j st → (st = .send b ∨ st = .fill b) →
      s.Partner j.ctx b := fun hw hst => (hm.target hw hst).elim id (h.target _ _ _)
  refine ⟨fun w j hw => ?_, fun w j b hw => hm.partner_mono hs ?_⟩
  · have stay : s.getBuddySocketContext j.ctx ≠ none →
        (∀ c ∈ s.weakOf j.ctx, c ∈ s.live → c ∈ s'.live) → s'.getBuddySocketContext j.ctx ≠ none :=
      getBuddy_ne_none hs hm
    generalize hst : Stage.forwardSend = st at hw
    rcases hm.busy hw with hold | ⟨op, c, ok, bytes, -, -, -, rfl, -⟩ | ⟨o, st₀, rfl, hold, hn⟩
    · subst hst
      have hlook : s.lookedUp w = s.weakOf j.ctx := by simp only [lookedUp, hold]
      exact stay (h.second w j hold) fun c hc => hG s' hstep w c (hlook ▸ hc)
    · cases hst
    · cases hn with
      | buddy hb =>
        -- this worker's own step destroys nothing
        have hlive : s'.live = s.live := by
          rcases hm with - | - | hm | -
          cases hm <;> simp_all [setWorker]
        exact stay hb fun c _ hc => hlive ▸ hc
      | dispatch =>
        unfold State.dispatch at hst
        split_ifs at hst
      | _ => cases hst
  · rcases hw with hw | hw
    · exact send hw (.inl rfl)
    · exact send hw (.inr rfl)

theorem found_of_reachable (hs : (proxy n).Reachable KeepsLookedUp s) : s.Found := by
  refine hs.invariant_step ⟨?_, ?_⟩ fun s a s' hr h hG hstep =>
    h.step (sound_of_reachable hr) hG hstep
  · simp [proxy, initial]
  · simp [proxy, initial]

/-- The look-up finds a null pointer only when the run ends there. -/
theorem Found.fault_ne (h : s.Found) {a : Action n} (hm : Move s a s') (hf : s.fault = none) :
    s'.fault ≠ some .nullBuddy := by
  have keep : s'.fault = s.fault → s'.fault ≠ some .nullBuddy := fun e => by simp [e, hf]
  rcases hm with hm | hm | hm | hm
  · cases hm with
    | sweep => exact keep s.cleanClientList_frame.2.2.2.2.2.2.2.2.2.2.1
    | _ => exact keep rfl
  · cases hm with
    | linked => exact keep (by simp [State.linked, setBuddySocketContext, acceptAt, setCtx])
    | exitClosed | exitRemoved | exitNulled | returned =>
      exact keep (by simp [acceptAt, State.exitNulled, acceptReturned])
    | _ => exact keep rfl
  · cases hm with
    | nullBuddy hw hb => exact absurd hb (h.second _ _ hw)
    | dead | overrun => simp [State.fail]
    | _ => exact keep rfl
  · cases hm <;> exact keep rfl

/-- The step meets the condition exactly when every worker between the look-ups still finds the
buddy after it. -/
theorem keepsLookedUp_iff {a : Action n} (hs : (proxy n).Reachable KeepsLookedUp s)
    (hstep : step s a = some s') :
    KeepsLookedUp s a ↔
      ∀ w j, s'.worker w = .busy j .forwardSend → s'.getBuddySocketContext j.ctx ≠ none := by
  have hsound := sound_of_reachable hs
  have hfound := found_of_reachable hs
  refine ⟨fun hG => (hfound.step hsound hG hstep).second, fun h t ht w c hc hlive => ?_⟩
  obtain rfl : t = s' := Option.some.inj (ht.symm.trans hstep)
  have hm := (step_move hstep).2.2
  unfold lookedUp at hc
  split at hc
  case h_1 j hw =>
    by_cases hw' : t.worker w = .busy j .forwardSend
    · have hbuddy := hm.buddy_eq hsound (.inr hc)
      have hback := hsound.paired.back hc
      have hstrong : s.strongOf j.ctx = none := (hsound.paired.own hback).2.1
      have hget := h w j hw'
      rw [getBuddySocketContext, BuddySocketContextPtr.get, hbuddy] at hget
      simp only [strongOf, weakOf, Option.mem_def] at hstrong hc
      by_contra hdead
      simp [hstrong, hc, hdead, Option.filter] at hget
    · -- only the worker itself goes on from here, and that destroys nothing
      have hsame : t.live = s.live := by
        rcases hm.worker_eq_or w with hv | ⟨o, rfl, hmw⟩
        · exact absurd (hv.trans hw) hw'
        · cases hmw <;> simp_all [setWorker, State.fail]
      exact hsame ▸ hlive
  case h_2 => cases hc

end State

/-- In every run whose steps do not destroy the client of a remote that a worker is forwarding for
between the two look-ups, `Send` is called on the live buddy that the first look-up found, and
without a buddy `Forward` fails. -/
theorem forward_buddy (hs : (proxy n).Reachable KeepsLookedUp s) :
    s.fault ≠ some .nullBuddy ∧
    (∀ w j, s.worker w = .busy j .forwardSend →
      ∃ b ∈ s.live, s.Partner j.ctx b ∧ s.getBuddySocketContext j.ctx = some b) ∧
    (∀ w j b, s.worker w = .busy j (.send b) ∨ s.worker w = .busy j (.fill b) →
      b ∈ s.live ∧ s.Partner j.ctx b) ∧
    (∀ w j o s', s.worker w = .busy j .forward → step s (.worker w o) = some s' →
      s'.worker w = .busy j
        (if s.getBuddySocketContext j.ctx = none then .failed else .forwardSend)) ∧
    ∀ a s', step s a = some s' → (KeepsLookedUp s a ↔
      ∀ w j, s'.worker w = .busy j .forwardSend → s'.getBuddySocketContext j.ctx ≠ none) := by
  have hfound := found_of_reachable hs
  have halive := (sound_of_reachable hs).alive
  have hlive : ∀ w j st, s.worker w = .busy j st → j.ctx ∈ s.live := fun w j st hw =>
    halive.live_of_holds (w := w) (hw ▸ Worker.holds_ctx j st)
  refine ⟨?_, fun w j hw => ?_, fun w j b hw => ⟨?_, hfound.target w j b hw⟩,
    fun w j o s' hw hstep => ?_, fun a s' => keepsLookedUp_iff hs⟩
  · cases hs with
    | init => simp [proxy, initial]
    | step hr _ hstep =>
      obtain ⟨hf, -, hm⟩ := step_move hstep
      exact (found_of_reachable hr).fault_ne hm hf
  · obtain ⟨b, hb⟩ := Option.ne_none_iff_exists'.mp (hfound.second w j hw)
    exact ⟨b, halive.live_of_getBuddy (hlive w j _ hw) hb, Paired.partner_of_getBuddy hb, hb⟩
  · refine halive.live_of_holds (w := w) ?_
    rcases hw with hw | hw <;> rw [hw] <;> exact .inr rfl
  · have hm := (step_move (a := .worker w o) hstep).2.2
    rcases hm with - | - | hm | -
    cases hm <;> simp_all [setWorker]

/-- The remote side receives a byte, and the worker `w` is between the look-ups of `Forward`. -/
def lookedUpOnce (w : Fin 2) : List (Action 2) :=
  [.net (.receive (.posted 1 .recv 2048) [65]),
    .worker w (.dequeue { Op.posted 1 .recv 2048 with status := .done true 1 } 1),
    .worker w .ok, .worker w .ok]

set_option maxRecDepth 10000 in
/-- The client does not close: the second look-up finds it. -/
theorem forward_buddy_run :
    ∃ s : State 2, s.weakOf 1 = some 0 ∧ ∃ b ∈ s.live, s.getBuddySocketContext 1 = some b := by
  obtain ⟨s, hs, hw, hweak⟩ : ∃ s : State 2, (proxy 2).Reachable KeepsLookedUp s ∧
      s.worker 0 = .busy ⟨1, 1, .recv, true, 1, 0⟩ .forwardSend ∧ s.weakOf 1 = some 0 :=
    TransitionSystem.exists_reachable_of_runChecked
      (startUp ++ connection 11 12 ++ lookedUpOnce 0) (by decide +kernel)
  obtain ⟨b, hb, -, hget⟩ := (forward_buddy hs).2.1 0 _ hw
  exact ⟨s, hweak, b, hb, hget⟩

set_option maxRecDepth 10000 in
/-- The client closes, and is destroyed between the two look-ups: `Send` is called on null. -/
theorem forward_buddy_fails :
    ∃ s : State 2, (proxy 2).Reachable KeyedAtomic s ∧ s.fault = some .nullBuddy :=
  TransitionSystem.exists_reachable_of_runChecked
    (startUp ++ connection 11 12 ++ lookedUpOnce 0 ++ closed 1 0 ++ [.worker 0 .ok])
    (by decide +kernel)

/-! ### The copy -/

/-- The memory of `Send`: the record is zeroed and filled. -/
def SocketContext.send (sc : SocketContext) (szBuffer : Buffer) (length : UInt16) :
    Option SocketContext :=
  (IoOperationData.zero.fill szBuffer length).map fun io => { sc with ioSend := io }

/-- What the record held before decides nothing about leaving the buffers. -/
theorem IoOperationData.fill_eq_none_congr (io io' : IoOperationData) {szBuffer : Buffer}
    {length : UInt16} : io.fill szBuffer length = none ↔ io'.fill szBuffer length = none := by
  rw [fill_eq_none_iff, fill_eq_none_iff]

/-- The copy leaves the buffers exactly when the string has no terminating zero. -/
theorem SocketContext.send_eq_none_iff {sc : SocketContext} {szBuffer : Buffer} {length : UInt16} :
    sc.send szBuffer length = none ↔ ∀ i, szBuffer i ≠ 0 := by
  rw [send, Option.map_eq_none_iff, IoOperationData.fill_eq_none_iff]

/-- The step of a worker that copies faults exactly when the memory of `Send` is not defined. -/
theorem overrun_iff_send {w : Fin n} {j : Job} {b : CtxId} (hw : s.worker w = .busy j (.fill b))
    (hf : s.fault = none) (hm : s.main ≠ .exited) :
    (∃ o s', step s (.worker w o) = some s' ∧ s'.fault = some .overrun) ↔
      (s.ctx b).send (s.ctx j.ctx).ioRecv.buffer (UInt16.ofNat j.bytes) = none := by
  rw [SocketContext.send, Option.map_eq_none_iff,
    IoOperationData.fill_eq_none_congr _ (s.ctx b).ioSend]
  constructor
  · rintro ⟨o, s', hstep, hover⟩
    have hm := (step_move (a := .worker w o) hstep).2.2
    rcases hm with - | - | hm | -
    cases hm <;> simp_all [State.fail, postSend, storeSend, setCtx, setWorker]
  · intro hnone
    refine ⟨.ok, s.fail .overrun, ?_, rfl⟩
    simp [step, hf, hm, workerStep, hw, hnone]

/-- A zero is left in the buffer of a receive when the received bytes do not fill it, or hold a
zero. -/
theorem exists_zero_receive_iff {bs : List UInt8} (h : bs.length ≤ maxBufferLen) :
    (∃ i, IoOperationData.forRecv.buffer.receive bs i = 0) ↔
      bs.length < maxBufferLen ∨ 0 ∈ bs := by
  have hzero : ∀ i, IoOperationData.forRecv.buffer i = 0 := fun _ => rfl
  constructor
  · rintro ⟨i, hi⟩
    rw [Buffer.receive, hzero] at hi
    by_cases hlt : bs.length < maxBufferLen
    · exact .inl hlt
    · have hib : (i : ℕ) < bs.length := by omega
      rw [List.getD_eq_getElem _ _ hib] at hi
      exact .inr (hi ▸ List.getElem_mem hib)
  · rintro (hlt | hmem)
    · exact ⟨⟨bs.length, hlt⟩, by simp [Buffer.receive, hzero]⟩
    · obtain ⟨i, hib, hi⟩ := List.getElem_of_mem hmem
      exact ⟨⟨i, hib.trans_le h⟩, by simp [Buffer.receive, hib, hi]⟩

/-- The copy of `Forward` stays inside its buffers, and changes nothing but the record for sends,
exactly when the received bytes do not fill the buffer or hold a zero. -/
theorem forward_copy_iff {bs : List UInt8} (h : bs.length ≤ maxBufferLen) (sc : SocketContext) :
    (∃ sc', sc.send (IoOperationData.forRecv.buffer.receive bs) (UInt16.ofNat bs.length) =
        some sc' ∧ { sc' with ioSend := sc.ioSend } = sc) ↔
      bs.length < maxBufferLen ∨ 0 ∈ bs := by
  rw [← exists_zero_receive_iff h]
  constructor
  · rintro ⟨sc', hsend, -⟩
    by_contra hno
    rw [SocketContext.send_eq_none_iff.mpr fun i hi => hno ⟨i, hi⟩] at hsend
    cases hsend
  · rintro ⟨i, hi⟩
    have hne : sc.send (IoOperationData.forRecv.buffer.receive bs) (UInt16.ofNat bs.length) ≠
        none := fun hnone => SocketContext.send_eq_none_iff.mp hnone i hi
    obtain ⟨sc', hsc'⟩ := Option.ne_none_iff_exists'.mp hne
    refine ⟨sc', hsc', ?_⟩
    obtain ⟨io, -, rfl⟩ := Option.map_eq_some_iff.mp hsc'
    rfl

/-- Two bytes leave room. -/
theorem forward_copy_two : [65, 66].length ≤ maxBufferLen ∧
    ∃ sc', SocketContext.new.send (IoOperationData.forRecv.buffer.receive [65, 66]) 2 = some sc' ∧
      { sc' with ioSend := SocketContext.new.ioSend } = SocketContext.new :=
  ⟨by decide, (forward_copy_iff (by decide) _).mpr (.inl (by decide))⟩

/-- A full buffer without a zero is copied past its end. -/
theorem forward_copy_fails : (List.replicate maxBufferLen (65 : UInt8)).length = 2048 ∧
    SocketContext.new.send
      (IoOperationData.forRecv.buffer.receive (List.replicate maxBufferLen 65)) 2048 = none := by
  refine ⟨List.length_replicate, SocketContext.send_eq_none_iff.mpr fun i => ?_⟩
  have hi : (i : ℕ) < (List.replicate maxBufferLen (65 : UInt8)).length := by simp
  simp [Buffer.receive]

end IocpProxy
