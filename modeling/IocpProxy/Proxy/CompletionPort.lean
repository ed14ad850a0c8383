import IocpProxy.Proxy.Isolation

/-!
# The completion port at shutdown

A worker tests the event, then waits in `GetQueuedCompletionStatus`. It leaves that wait with a
completion, or with a packet whose key is null, and with the latter it returns. `CleanUp` posts one
such packet for each worker before it waits for them. `service n` adds the test, the packets and
the posting loop to `proxy n`, which lets a worker return whenever the event is set.

## Main definitions

* `IocpProxy.Service`, `IocpProxy.serviceStep`, `IocpProxy.service` : the refined system.
* `IocpProxy.Service.Counted` : the invariant that counts the packets.

## Main results

* `IocpProxy.Service.reachable_proxy` : every run of `service n` is one of `proxy n`.
* `IocpProxy.wakeups_suffice`.
-/

namespace IocpProxy

open State

variable {n : ℕ}

/-! ### Threads at shutdown -/

/-- `CleanUp` comes to its end from the wait for the workers, when they have all returned or are
too many to wait for. -/
theorem MainMove.of_closeListen {s s' : State n} {o : MainOutcome} (hm : MainMove s o s')
    (h : s'.main = .closeListen) :
    s.main = .waitWorkers ∧ (maximumWaitObjects < n ∨ ∀ w, s.worker w = .exited) := by
  cases hm with
  | sweep hmain hw => exact ⟨hmain, hw⟩
  | quiet hq =>
    change _ = MainPc.closeListen at h
    subst h
    simp [mainQuiet] at hq
  | _ => cases h

/-- A worker that has returned does not come back. -/
theorem Move.worker_exited {s s' : State n} {a : Action n} (hm : Move s a s') {w : Fin n}
    (hw : s.worker w = .exited) : s'.worker w = .exited := by
  rcases hm.worker_eq_or w with hsame | ⟨o, rfl, hmw⟩
  · exact hsame.trans hw
  · cases hmw <;> simp_all

/-- Nobody resets the event. -/
theorem Move.shutdown_mono {s s' : State n} {a : Action n} (hm : Move s a s')
    (h : s.shutdown = true) : s'.shutdown = true := by
  rcases hm with hm | hm | hm | hm
  · cases hm with
    | stop => rfl
    | sweep => exact s.cleanClientList_frame.2.2.2.2.2.2.2.2.1.trans h
    | _ => exact h
  · cases hm with
    | linked => simpa [State.linked, setBuddySocketContext, acceptAt, setCtx] using h
    | exitClosed =>
      unfold State.exitClosed
      split <;> exact h
    | exitRemoved => simpa [acceptAt] using h
    | exitNulled => simpa [State.exitNulled] using h
    | returned => simpa [acceptReturned] using h
    | _ => exact h
  · cases hm <;> exact h
  · cases hm <;> exact h

/-- The main thread is in `CleanUp`. -/
def State.InCleanUp (s : State n) : Prop :=
  s.main = .waitAccept ∨ s.main = .waitWorkers ∨ s.main = .closeListen

/-- The event is set in `CleanUp`. -/
theorem State.shutdown_of_reachable {G : State n → Action n → Prop} {s : State n}
    (hs : (proxy n).Reachable G s) : s.InCleanUp → s.shutdown = true := by
  refine hs.invariant (I := fun s => s.InCleanUp → s.shutdown = true) ?_
    fun s a s' ih _ hstep hs' => ?_
  · rintro (h | h | h) <;> cases h
  · have hm := (step_move hstep).2.2
    have keep : s.InCleanUp → s'.shutdown = true := fun h => hm.shutdown_mono (ih h)
    rcases hm.main_eq_or with hsame | ⟨o, rfl, hmm⟩
    · exact keep (by rwa [InCleanUp, hsame] at hs')
    · cases hmm with
      | quiet hq =>
        obtain rfl | rfl | rfl := hs' <;> simp [mainQuiet] at hq
      | stop => rfl
      | acceptDone h => exact keep (.inl h)
      | sweep h => exact keep (.inr (.inl h))
      | _ => obtain h | h | h := hs' <;> cases h

/-! ### The refined system -/

/-- Where a worker is that handles no completion. -/
inductive Position
  /-- At the test of the event. -/
  | head
  /-- In `GetQueuedCompletionStatus`. -/
  | get
  /-- After the `break`, with a packet whose key is null. -/
  | leaving
  deriving DecidableEq

/-- The proxy service with the packets that `CleanUp` posts. -/
structure Service (n : ℕ) where
  proxy : State n
  /-- The packets with a null key in the queue. -/
  nulls : ℕ
  /-- The counter of the posting loop. -/
  posted : ℕ
  position : Fin n → Position
  /-- The packets with a null key that each worker has dequeued. -/
  consumed : Fin n → ℕ

/-- An action of the refined system. -/
inductive ServiceAction (n : ℕ)
  /-- `PostQueuedCompletionStatus` in the loop of `CleanUp`. -/
  | post
  /-- A worker finds that the event is not set. -/
  | enter (w : Fin n)
  /-- `GetQueuedCompletionStatus` returns a packet with a null key. -/
  | wake (w : Fin n)
  | proxy (a : Action n)
  deriving DecidableEq

namespace Service

/-- The process still runs. -/
def Running (s : Service n) : Prop := s.proxy.fault = none ∧ s.proxy.main ≠ .exited

instance (s : Service n) : Decidable s.Running := inferInstanceAs (Decidable (_ ∧ _))

/-- The worker is blocked in `GetQueuedCompletionStatus`, or about to be. -/
def Waits (s : Service n) (w : Fin n) : Prop :=
  s.proxy.worker w = .waiting ∧ s.position w = .get

instance (s : Service n) (w : Fin n) : Decidable (s.Waits w) := inferInstanceAs (Decidable (_ ∧ _))

/-- A packet with a null key is dequeued by a worker. -/
def woken (s : Service n) (w : Fin n) : Service n :=
  { s with
    nulls := s.nulls - 1
    position := Function.update s.position w .leaving
    consumed := Function.update s.consumed w (s.consumed w + 1) }

/-- Nothing is in the queue of the completion port. -/
def QueueEmpty (s : Service n) : Prop :=
  s.nulls = 0 ∧ ∀ o ∈ s.proxy.ops, o.status = .pending

/-- `CleanUp` is past its posting loop. -/
def PastPosts (s : Service n) : Prop :=
  s.proxy.main = .waitWorkers ∧ s.posted = n ∨ s.proxy.main = .closeListen

instance (s : Service n) : Decidable s.PastPosts :=
  inferInstanceAs (Decidable (s.proxy.main = .waitWorkers ∧ s.posted = n ∨
    s.proxy.main = .closeListen))

/-- The steps of `proxy n` that agree with the place of the worker and of `CleanUp`: completions
are dequeued in `GetQueuedCompletionStatus`, no worker returns from inside it, and the wait for the
workers comes after the posting loop. -/
def Allows (s : Service n) : Action n → Prop
  | .worker w (.dequeue _ _) => s.position w = .get
  | .worker w .ok => ¬ s.Waits w
  | .main _ => s.proxy.main = .waitWorkers → s.posted = n
  | _ => True

instance (s : Service n) : DecidablePred s.Allows
  | .worker w (.dequeue _ _) => inferInstanceAs (Decidable (s.position w = .get))
  | .worker w .ok => inferInstanceAs (Decidable (¬ s.Waits w))
  | .worker _ .fail | .accept _ | .net _ => instDecidableTrue
  | .main _ => inferInstanceAs (Decidable (s.proxy.main = .waitWorkers → s.posted = n))

/-- The state after a step of `proxy n`: a worker that has dequeued a completion comes back to the
test of the event. -/
def after (s : Service n) (a : Action n) (t : State n) : Service n :=
  { s with
    proxy := t
    position := match a with
      | .worker w (.dequeue _ _) => Function.update s.position w .head
      | _ => s.position }

end Service

/-- A step of the refined system. -/
def serviceStep (s : Service n) : ServiceAction n → Option (Service n)
  | .post =>
    if s.Running ∧ s.proxy.main = .waitWorkers ∧ s.posted < n then
      some { s with nulls := s.nulls + 1, posted := s.posted + 1 }
    else none
  | .enter w =>
    if s.Running ∧ s.proxy.worker w = .waiting ∧ s.position w = .head ∧
        s.proxy.shutdown = false then
      some { s with position := Function.update s.position w .get }
    else none
  | .wake w =>
    if s.Running ∧ s.Waits w ∧ 0 < s.nulls then some (s.woken w) else none
  | .proxy a => if s.Allows a then (step s.proxy a).map (s.after a) else none

/-- The proxy service with `n` workers and its completion port. -/
def service (n : ℕ) : TransitionSystem (Service n) (ServiceAction n) where
  init := ⟨.initial n, 0, 0, fun _ => .head, fun _ => 0⟩
  step := serviceStep

/-- The moves of the refined system. -/
inductive ServiceMove (s : Service n) : ServiceAction n → Service n → Prop
  | posted (h : s.proxy.main = .waitWorkers) (hlt : s.posted < n) :
      ServiceMove s .post { s with nulls := s.nulls + 1, posted := s.posted + 1 }
  | entered {w : Fin n} (hw : s.proxy.worker w = .waiting) (hp : s.position w = .head) :
      ServiceMove s (.enter w) { s with position := Function.update s.position w .get }
  | woken {w : Fin n} (hw : s.Waits w) (hn : 0 < s.nulls) : ServiceMove s (.wake w) (s.woken w)
  | stepped {a : Action n} {t : State n} (ha : s.Allows a) (h : step s.proxy a = some t) :
      ServiceMove s (.proxy a) (s.after a t)

theorem serviceStep_move {s s' : Service n} {a : ServiceAction n}
    (h : (service n).step s a = some s') : ServiceMove s a s' := by
  change serviceStep s a = some s' at h
  cases a with
  | post =>
    obtain ⟨⟨-, hm, hlt⟩, ⟨⟩⟩ := Option.ite_none_right_eq_some.mp h
    exact .posted hm hlt
  | enter w =>
    obtain ⟨⟨-, hw, hp, -⟩, ⟨⟩⟩ := Option.ite_none_right_eq_some.mp h
    exact .entered hw hp
  | wake w =>
    obtain ⟨⟨-, hw, hn⟩, ⟨⟩⟩ := Option.ite_none_right_eq_some.mp h
    exact .woken hw hn
  | proxy a =>
    obtain ⟨ha, h⟩ := Option.ite_none_right_eq_some.mp h
    obtain ⟨t, ht, rfl⟩ := Option.map_eq_some_iff.mp h
    exact .stepped ha ht

namespace Service

variable {s s' : Service n}

/-- The refined system simulates `proxy n`: its own steps do not show there. -/
theorem reachable_proxy {G : Service n → ServiceAction n → Prop} {H : State n → Action n → Prop}
    (hs : (service n).Reachable G s) (hG : ∀ s a, G s (.proxy a) → H s.proxy a) :
    (IocpProxy.proxy n).Reachable H s.proxy := by
  refine hs.simulate (f := Service.proxy) rfl fun s a s' hg h => ?_
  cases serviceStep_move h with
  | posted | entered | woken => exact .inl rfl
  | stepped _ ht => exact .inr ⟨_, hG _ _ hg, ht⟩

/-! ### Counting the packets -/

/-- One more of a count makes one more of the sum. -/
theorem sum_update_succ (f : Fin n → ℕ) (w : Fin n) :
    ∑ v, Function.update f w (f w + 1) v = ∑ v, f v + 1 := by
  rw [Finset.sum_update_of_mem (Finset.mem_univ w), ← Finset.add_sum_erase _ f (Finset.mem_univ w),
    Finset.sdiff_singleton_eq_erase]
  omega

/-- The packets posted are in the queue or were dequeued, one by each worker that got one; such a
worker only returns. -/
structure Counted (s : Service n) : Prop where
  balance : s.nulls + ∑ w, s.consumed w = s.posted
  posted_le : s.posted ≤ n
  consumed_le : ∀ w, s.consumed w ≤ 1
  leaves : ∀ w, s.consumed w ≠ 0 →
    s.proxy.worker w = .exited ∨ s.proxy.worker w = .waiting ∧ s.position w = .leaving
  past : s.PastPosts → s.posted = n

/-- A worker that waits has not dequeued such a packet. -/
theorem Counted.consumed_of_waits (h : s.Counted) {w : Fin n} (hw : s.Waits w) :
    s.consumed w = 0 := by
  obtain ⟨hwait, hget⟩ := hw
  by_contra hc
  rcases h.leaves w hc with hex | ⟨-, hpos⟩
  · simp [hwait] at hex
  · simp [hget] at hpos

/-- A worker outside `GetQueuedCompletionStatus` stays where it is. -/
theorem position_after {a : Action n} {t : State n} (ha : s.Allows a) {w : Fin n}
    (hw : s.position w ≠ .get) : (s.after a t).position w = s.position w := by
  cases a with
  | worker v o =>
    cases o with
    | dequeue op c =>
      have hne : w ≠ v := by
        rintro rfl
        exact hw ha
      exact Function.update_of_ne hne _ _
    | _ => rfl
  | _ => rfl

theorem leaving_of_after {a : Action n} {t : State n} {w : Fin n}
    (h : (s.after a t).position w = .leaving) : s.position w = .leaving := by
  cases a with
  | worker v o =>
    cases o with
    | dequeue op c =>
      have hne : w ≠ v := by
        rintro rfl
        have hhead : (s.after (.worker w (.dequeue op c)) t).position w = .head :=
          Function.update_self _ _ _
        simp [hhead] at h
      exact (Function.update_of_ne hne _ _).symm.trans h
    | _ => exact h
  | _ => exact h

/-- A worker that got a packet with a null key does nothing but return. -/
theorem leaves_after {a : Action n} {t : State n} (ha : s.Allows a)
    (hstep : step s.proxy a = some t) {w : Fin n}
    (hw : s.proxy.worker w = .exited ∨ s.proxy.worker w = .waiting ∧ s.position w = .leaving) :
    t.worker w = .exited ∨ t.worker w = .waiting ∧ (s.after a t).position w = .leaving := by
  have hm := (step_move hstep).2.2
  rcases hw with hex | ⟨hwait, hpos⟩
  · exact .inl (hm.worker_exited hex)
  · have hpos' := position_after (t := t) ha (w := w) (by simp [hpos])
    rcases hm.worker_eq_or w with hsame | ⟨o, rfl, hmw⟩
    · exact .inr ⟨hsame.trans hwait, hpos'.trans hpos⟩
    · cases hmw with
      | exit => exact .inl (Function.update_self _ _ _)
      | dequeued | dead =>
        have hget : s.position w = .get := ha
        simp [hpos] at hget
      | _ => simp_all

theorem Counted.step {a : ServiceAction n} (h : s.Counted) (hm : ServiceMove s a s') :
    s'.Counted := by
  cases hm with
  | posted hmain hlt =>
    refine ⟨?_, hlt, h.consumed_le, h.leaves, ?_⟩
    · have hbal := h.balance
      change s.nulls + 1 + ∑ w, s.consumed w = s.posted + 1
      omega
    · rintro (⟨-, hp⟩ | hcl)
      · exact hp
      · simp [hmain] at hcl
  | @entered w hw hp =>
    refine ⟨h.balance, h.posted_le, h.consumed_le, fun v hv => ?_, h.past⟩
    refine (h.leaves v hv).imp_right fun ⟨hwait, hpos⟩ => ⟨hwait, ?_⟩
    have hne : v ≠ w := by
      rintro rfl
      simp [hp] at hpos
    exact (Function.update_of_ne hne _ _).trans hpos
  | @woken w hw hn =>
    have hzero := h.consumed_of_waits hw
    refine ⟨?_, h.posted_le, fun v => ?_, fun v hv => ?_, h.past⟩
    · have hbal := h.balance
      change s.nulls - 1 + ∑ v, Function.update s.consumed w (s.consumed w + 1) v = s.posted
      rw [sum_update_succ]
      omega
    · by_cases hvw : v = w
      · subst hvw
        simp [woken, hzero]
      · simpa [woken, hvw] using h.consumed_le v
    · by_cases hvw : v = w
      · subst hvw
        exact .inr ⟨hw.1, Function.update_self _ _ _⟩
      · have hv' : s.consumed v ≠ 0 := fun h0 => hv ((Function.update_of_ne hvw _ _).trans h0)
        exact (h.leaves v hv').imp_right fun ⟨hwait, hpos⟩ =>
          ⟨hwait, (Function.update_of_ne hvw _ _).trans hpos⟩
  | @stepped a t ha hstep =>
    refine ⟨h.balance, h.posted_le, h.consumed_le,
      fun v hv => leaves_after ha hstep (h.leaves v hv), fun hpast => ?_⟩
    rcases hpast with ⟨-, hp⟩ | hcl
    · exact hp
    · rcases (step_move hstep).2.2.main_eq_or with hsame | ⟨o, rfl, hmm⟩
      · exact h.past (.inr (hsame ▸ hcl))
      · exact ha (hmm.of_closeListen hcl).1

theorem counted_of_reachable {G : Service n → ServiceAction n → Prop}
    (hs : (service n).Reachable G s) : s.Counted := by
  refine hs.invariant ?_ fun s a s' h _ hstep => h.step (serviceStep_move hstep)
  refine ⟨by simp [service], Nat.zero_le _, fun _ => Nat.zero_le _, fun _ hw => absurd rfl hw, ?_⟩
  rintro (⟨hmain, -⟩ | hmain) <;> cases hmain

/-- The event is set before the first packet with a null key is posted. -/
theorem shutdown_of_reachable {G : Service n → ServiceAction n → Prop}
    (hs : (service n).Reachable G s) :
    (0 < s.nulls ∨ ∃ w, s.position w = .leaving) → s.proxy.shutdown = true := by
  refine hs.invariant_step
    (I := fun s => (0 < s.nulls ∨ ∃ w, s.position w = .leaving) → s.proxy.shutdown = true) ?_
    fun s a s' hr ih _ hstep hs' => ?_
  · rintro (h | ⟨w, h⟩) <;> cases h
  · cases serviceStep_move hstep with
    | posted hmain =>
      have hbase := reachable_proxy (H := fun _ _ => True) hr fun _ _ _ => trivial
      exact State.shutdown_of_reachable hbase (.inr (.inl hmain))
    | @entered w hw hp =>
      refine ih (hs'.imp_right fun ⟨v, hv⟩ => ⟨v, ?_⟩)
      have hne : v ≠ w := by
        rintro rfl
        simp at hv
      exact (Function.update_of_ne hne _ _).symm.trans hv
    | woken hw hn => exact ih (.inl hn)
    | @stepped b t ha ht =>
      exact (step_move ht).2.2.shutdown_mono
        (ih (hs'.imp_right fun ⟨v, hv⟩ => ⟨v, leaving_of_after hv⟩))

/-- A worker that got a packet with a null key can return. -/
theorem leaving_returns {G : Service n → ServiceAction n → Prop}
    (hs : (service n).Reachable G s) (hrun : s.Running) {w : Fin n}
    (hw : s.proxy.worker w = .waiting) (hpos : s.position w = .leaving) :
    ∃ s', (service n).step s (.proxy (.worker w .ok)) = some s' ∧
      s'.proxy.worker w = .exited := by
  have hset := shutdown_of_reachable hs (.inr ⟨w, hpos⟩)
  have hallow : s.Allows (.worker w .ok) := fun hwait => by simp [Waits, hpos] at hwait
  have hstep : step s.proxy (.worker w .ok) = some (s.proxy.setWorker w .exited) := by
    simp [step, hrun.1, hrun.2, workerStep, hw, hset]
  refine ⟨s.after (.worker w .ok) (s.proxy.setWorker w .exited), ?_, Function.update_self _ _ _⟩
  change serviceStep s (.proxy (.worker w .ok)) = _
  rw [serviceStep, if_pos hallow, hstep]
  rfl

/-- The packets in the queue and those still to be posted are one for each worker that has not
got one. -/
theorem Counted.card_eq (h : s.Counted) :
    (Finset.univ.filter fun w => s.consumed w = 0).card = s.nulls + (n - s.posted) := by
  have hone : ∀ w, (if s.consumed w = 0 then 1 else 0) + s.consumed w = 1 := fun w => by
    have hle := h.consumed_le w
    split_ifs <;> omega
  have hsum : ∑ w, ((if s.consumed w = 0 then 1 else 0) + s.consumed w) = n := by
    simp [hone]
  rw [Finset.sum_add_distrib, ← Finset.card_filter] at hsum
  have hbal := h.balance
  have hle := h.posted_le
  omega

end Service

/-- In every reachable state each worker has dequeued at most one packet with a null key; those in
the queue and still to be posted are enough for the workers that have neither got one nor
returned; and past the posting loop no worker waits at an empty queue. -/
theorem wakeups_suffice {s : Service n} (hs : (service n).Reachable (fun _ _ => True) s) :
    (∀ w, s.consumed w ≤ 1) ∧
    (Finset.univ.filter fun w => s.consumed w = 0 ∧ s.proxy.worker w ≠ .exited).card ≤
      s.nulls + (n - s.posted) ∧
    ¬ (s.PastPosts ∧ s.QueueEmpty ∧ ∃ w, s.Waits w) := by
  have hcount := Service.counted_of_reachable hs
  refine ⟨hcount.consumed_le, ?_, ?_⟩
  · rw [← hcount.card_eq]
    exact Finset.card_le_card (Finset.monotone_filter_right _ fun w _ hw => hw.1)
  · rintro ⟨hpast, ⟨hnulls, -⟩, w, hw⟩
    have hmem : w ∈ Finset.univ.filter fun w => s.consumed w = 0 :=
      Finset.mem_filter.mpr ⟨Finset.mem_univ w, hcount.consumed_of_waits hw⟩
    have hpos := Finset.card_pos.mpr ⟨w, hmem⟩
    rw [hcount.card_eq, hcount.past hpast, hnulls] at hpos
    omega

set_option maxRecDepth 10000 in
/-- Two workers wait when the event is set, with a completion queued. Both packets are posted, and
one worker gets one: the queue is not empty for the other. -/
theorem wakeups_suffice_run : ∃ s : Service 2, s.consumed 0 = 1 ∧ s.Waits 1 ∧ ¬ s.QueueEmpty := by
  obtain ⟨s, hs, hpast, hc, hw⟩ : ∃ s : Service 2, (service 2).Reachable (fun _ _ => True) s ∧
      s.PastPosts ∧ s.consumed 0 = 1 ∧ s.Waits 1 :=
    TransitionSystem.exists_reachable_of_runChecked
      ((startUp ++ connection 11 12).map .proxy ++ [.enter 0, .enter 1] ++
        ([.net (.receive (.posted 1 .recv 2048) []), .main .ok, .accept .ok,
          .main .ok] : List (Action 2)).map .proxy ++ [.post, .post, .wake 0]) (by decide +kernel)
  exact ⟨s, hc, hw, fun hq => (wakeups_suffice hs).2.2 ⟨hpast, hq, 1, hw⟩⟩

end IocpProxy
