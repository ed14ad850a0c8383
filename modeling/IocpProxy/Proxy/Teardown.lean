import IocpProxy.Proxy.ClientList
import IocpProxy.Proxy.Lifetime
import IocpProxy.Proxy.Sockets

/-!
# Taking a connection down

A worker that handles a failed or empty completion takes its context off the list, and only that
one. The other context of the connection goes when `RemoveFromClientListAndCleanUpMemory` is called
for it as well, by a worker that handles a failed completion of its own or on the exit path of
`AcceptConnection`, or when the list is cleaned at the end. What was taken off the list does not get
back on it.

## Main definitions

* `IocpProxy.State.CallReturned` : the call of `AcceptConnection` that made a context has returned.
* `IocpProxy.Listing.TakenOff` : a call was made that takes a context off the list.
* `IocpProxy.TeardownReady` : the condition on the steps.
* `IocpProxy.Listing.Past`, `IocpProxy.Listing.TornDown` : the invariants.

## Main results

* `IocpProxy.Listing.not_mem_of_takenOff`.
* `IocpProxy.pairwise_teardown`.
* `IocpProxy.pairwise_teardown_fails`.
-/

namespace IocpProxy

open State

variable {n : ℕ} {s s' : State n}

/-! ### The calls of `AcceptConnection` -/

/-- The main thread waits for the workers only when the accept thread has returned or was never
started. -/
theorem State.idle_of_waitWorkers {G : State n → Action n → Prop} (hs : (proxy n).Reachable G s) :
    s.main = .waitWorkers → s.accept.pc = .done ∨ s.accept.pc = .notStarted := by
  refine hs.invariant (I := fun s => s.main = .waitWorkers →
    s.accept.pc = .done ∨ s.accept.pc = .notStarted) (fun h => by cases h)
    fun s a s' ih _ hstep hs' => ?_
  have hm := (step_move hstep).2.2
  rcases hm with hm | hm | hm | hm
  · cases hm with
    | quiet hq =>
      obtain rfl := hs'
      simp [mainQuiet] at hq
    | acceptDone _ hd => exact hd
    | _ => simp [mainAt, closeListen] at hs'
  · exact absurd (ih (hm.frame.2.1 ▸ hs')) (not_or.mpr ⟨hm.pc_ne_done, hm.pc_ne⟩)
  · rw [hm.frame.1]
    exact ih (hm.frame.2.2.2.2.1 ▸ hs')
  · rw [hm.frame.1]
    exact ih (hm.frame.2.2.2.2.1 ▸ hs')

/-- `AcceptConnection` is called at the loop head, unless the accept thread ends. -/
theorem AcceptMove.calls_cases {o : AcceptOutcome} (hm : AcceptMove s o s') :
    s.next ≤ s'.next ∧ s.calls ≤ s'.calls ∧
      (s.accept.pc = .loop → s'.calls = s.calls + 1 ∨ s'.accept.pc = .done) := by
  cases hm with
  | stop hpc => exact ⟨le_rfl, le_rfl, fun _ => .inr rfl⟩
  | failed => exact ⟨le_rfl, Nat.le_succ _, fun _ => .inl rfl⟩
  | accepted => exact ⟨Nat.le_succ _, Nat.le_succ _, fun _ => .inl rfl⟩
  | remoteMade hpc => exact ⟨Nat.le_succ _, le_rfl, fun h => by simp [hpc] at h⟩
  | linked hpc =>
    obtain ⟨hnext, -, hcalls, -⟩ := s.linked_frame _ _
    exact ⟨hnext.ge, hcalls.ge, fun h => by simp [hpc] at h⟩
  | exitClosed hpc | exitRemoved hpc | exitNulled hpc | returned hpc =>
    refine ⟨?_, ?_, fun h => by simp [hpc] at h⟩ <;>
      simp [State.acceptAt, State.exitNulled, State.acceptReturned]
  | remoteFailed hpc | enter hpc | associated hpc | associateFailed hpc | added hpc | posted hpc
  | notPosted hpc =>
    exact ⟨le_rfl, le_rfl, fun h => by simp [hpc] at h⟩

theorem Move.calls_le {a : Action n} (hm : Move s a s') : s.calls ≤ s'.calls := by
  cases hm with
  | main hm => exact hm.frame.2.2.1.ge
  | accept hm => exact hm.calls_cases.2.1
  | worker hm => exact hm.frame.2.1.ge
  | net hm => exact hm.frame.2.1.ge

/-- The accept thread does not go on after its end. -/
theorem Move.accept_done {a : Action n} (hm : Move s a s') (hs : s.Sound)
    (hpc : s.accept.pc = .done) : s'.accept.pc = .done := by
  cases hm with
  | main hm =>
    cases hm with
    | started h => simp [hs.boot (by simp [h])] at hpc
    | sweep => exact (congrArg AcceptThread.pc s.cleanClientList_frame.2.2.2.1).trans hpc
    | _ => exact hpc
  | accept hm => exact absurd hpc hm.pc_ne_done
  | worker hm => rw [hm.frame.1, hpc]
  | net hm => rw [hm.frame.1, hpc]

theorem Move.next_le {a : Action n} (hm : Move s a s') : s.next ≤ s'.next := by
  cases hm with
  | main hm => exact hm.frame.2.1.ge
  | accept hm => exact hm.calls_cases.1
  | worker hm => exact hm.sameLinks.2.ge
  | net hm => exact hm.sameLinks.2.ge

/-- The call that made a context does not change. -/
theorem Move.conn_eq {a : Action n} (hm : Move s a s') {x : CtxId} (hx : x < s.next) :
    (s'.ctx x).conn = (s.ctx x).conn := by
  cases hm with
  | main hm => rw [hm.frame.1]
  | accept hm =>
    cases hm with
    | accepted | remoteMade => exact congrArg _ (Function.update_of_ne hx.ne _ _)
    | linked => exact (s.linked_fields _ _ x).1
    | posted | notPosted => exact ((SameLinks.resetRecv _).1 x).2.1
    | exitClosed | exitRemoved | exitNulled | returned =>
      simp [State.acceptAt, State.exitNulled, State.acceptReturned]
    | _ => rfl
  | worker hm => exact (hm.sameLinks.1 x).2.1
  | net hm => exact (hm.sameLinks.1 x).2.1

/-- The accept thread comes to refer to the contexts it makes only. -/
theorem Move.accept_holds_or {a : Action n} (hm : Move s a s') {x : CtxId}
    (hh : s'.accept.Holds x) :
    s.accept.Holds x ∨ x = s.next ∧ x < s'.next ∧ (s'.ctx x).conn = s'.calls := by
  have made : s.next = x → s'.next = s.next + 1 → (s'.ctx s.next).conn = s'.calls →
      x = s.next ∧ x < s'.next ∧ (s'.ctx x).conn = s'.calls := by
    rintro rfl hn hc
    exact ⟨rfl, hn ▸ Nat.lt_succ_self _, hc⟩
  cases hm with
  | main hm =>
    cases hm with
    | sweep =>
      have hacc := s.cleanClientList_frame.2.2.2.1
      change s.cleanClientList.accept.Holds x at hh
      rw [hacc] at hh
      exact .inl hh
    | _ => exact .inl hh
  | accept hm =>
    cases hm with
    | accepted =>
      exact hh.symm.imp .inr fun e => made (Option.some.inj e) rfl (by simp [State.accepted, make])
    | remoteMade =>
      exact hh.imp .inl fun e => made (Option.some.inj e) rfl (by simp [State.remoteMade, make])
    | linked =>
      left
      simpa [State.linked, acceptAt, setBuddySocketContext, setCtx, AcceptThread.Holds] using hh
    | exitClosed =>
      obtain ⟨pc, -, hacc⟩ := s.exitClosed_accept
      rw [hacc] at hh
      exact .inl hh
    | @exitRemoved d =>
      left
      cases hy : s.accept.side d <;> simpa [acceptAt, hy, AcceptThread.Holds] using hh
    | @exitNulled d =>
      simp only [State.exitNulled, releaseOpt_frame] at hh
      exact .inl (AcceptThread.holds_clear.1 hh)
    | returned => simp [acceptReturned, AcceptThread.Holds] at hh
    | _ => exact .inl hh
  | worker hm => exact .inl (by rwa [hm.frame.1] at hh)
  | net hm => exact .inl (by rwa [hm.frame.1] at hh)

theorem Move.accept_holds {a : Action n} (hm : Move s a s') {x : CtxId} (hx : x < s.next)
    (hh : s'.accept.Holds x) : s.accept.Holds x :=
  (hm.accept_holds_or hh).resolve_right fun h => hx.ne h.1

/-- While the accept thread holds a context, no other call is begun. -/
theorem Move.calls_eq_of_holds {a : Action n} (hm : Move s a s') (hs : s.Sound) {x : CtxId}
    (hh : s.accept.Holds x) : s'.calls = s.calls := by
  cases hm with
  | main hm => exact hm.frame.2.2.1
  | accept hm =>
    cases hm with
    | failed hpc | accepted hpc =>
      obtain ⟨hc, hr⟩ := hs.acceptOk.locals_eq_none hpc
      simp [AcceptThread.Holds, hc, hr] at hh
    | linked => exact (s.linked_frame _ _).2.2.1
    | exitClosed | exitRemoved | exitNulled | returned =>
      simp [State.acceptAt, State.exitNulled, State.acceptReturned]
    | _ => rfl
  | worker hm => exact hm.frame.2.1
  | net hm => exact hm.frame.2.1

namespace State

/-- The accept thread refers to the contexts of the call it is in only. -/
theorem current_of_reachable {G : State n → Action n → Prop} (hs : (proxy n).Reachable G s) :
    ∀ x, s.accept.Holds x → x < s.next ∧ (s.ctx x).conn = s.calls := by
  refine hs.invariant_step
    (I := fun s => ∀ x, s.accept.Holds x → x < s.next ∧ (s.ctx x).conn = s.calls)
    (by simp [proxy, initial, AcceptThread.Holds]) fun s a s' hr ih _ hstep x hh => ?_
  have hm := (step_move hstep).2.2
  rcases hm.accept_holds_or hh with hold | ⟨-, hlt, hc⟩
  · obtain ⟨hlt, hc⟩ := ih x hold
    refine ⟨hlt.trans_le hm.next_le, ?_⟩
    rw [hm.conn_eq hlt, hc, hm.calls_eq_of_holds (sound_of_reachable hr) hold]
  · exact ⟨hlt, hc⟩

/-- The call of `AcceptConnection` that made `x` has returned. -/
def CallReturned (s : State n) (x : CtxId) : Prop :=
  (s.ctx x).conn < s.calls ∨ s.accept.pc = .loop ∨ s.accept.pc = .done

instance (s : State n) (x : CtxId) : Decidable (s.CallReturned x) :=
  inferInstanceAs (Decidable (_ ∨ _ ∨ _))

theorem CallReturned.step {a : Action n} {x : CtxId} (h : s.CallReturned x) (hs : s.Sound)
    (hm : Move s a s') (hx : x < s.next) : s'.CallReturned x := by
  rcases h with h | h | h
  · left
    rw [hm.conn_eq hx]
    exact h.trans_le hm.calls_le
  · have same : s'.accept = s.accept → s'.CallReturned x := fun e =>
      .inr (.inl ((congrArg AcceptThread.pc e).trans h))
    cases hm with
    | main hm =>
      cases hm with
      | started hmain => simp [hs.boot (by simp [hmain])] at h
      | sweep => exact same s.cleanClientList_frame.2.2.2.1
      | _ => exact same rfl
    | accept hm =>
      rcases hm.calls_cases.2.2 h with hcalls | hdone
      · left
        rw [(Move.accept hm).conn_eq hx, hcalls]
        exact Nat.lt_succ_of_le (hs.conn_le x hx)
      · exact .inr (.inr hdone)
    | worker hm => exact same hm.frame.1
    | net hm => exact same hm.frame.1
  · exact .inr (.inr (hm.accept_done hs h))

theorem CallReturned.not_holds {x : CtxId} (h : s.CallReturned x) (hs : s.Sound)
    (hcur : s.accept.Holds x → (s.ctx x).conn = s.calls) : ¬ s.accept.Holds x := by
  intro hh
  rcases h with h | h | h
  · exact h.ne (hcur hh)
  · obtain ⟨hc, hr⟩ := hs.acceptOk.locals_eq_none h
    simp [AcceptThread.Holds, hc, hr] at hh
  · have hok := hs.acceptOk
    simp only [AcceptOk, h] at hok
    simp [AcceptThread.Holds, hok] at hh

end State

/-! ### Off the list for good -/

/-- A label of the exit path. -/
def AcceptPc.Leaving : AcceptPc → Prop
  | .exitClose | .exitRemove _ | .exitNull _ | .ret => True
  | _ => False

/-- `AcceptConnection` does not leave its exit path before it gives up its contexts. -/
theorem Move.leaving {a : Action n} (hm : Move s a s') (hs : s.Sound) {x : CtxId}
    (h : s.accept.pc.Leaving) (hh : s'.accept.Holds x) : s'.accept.pc.Leaving := by
  have same : s'.accept = s.accept → s'.accept.pc.Leaving := fun e => e ▸ h
  cases hm with
  | main hm =>
    cases hm with
    | started hmain =>
      rw [hs.boot (by simp [hmain])] at h
      exact h.elim
    | sweep => exact same s.cleanClientList_frame.2.2.2.1
    | _ => exact same rfl
  | accept hm =>
    cases hm with
    | exitClosed =>
      obtain ⟨pc, hpc, hacc⟩ := s.exitClosed_accept
      rw [hacc]
      rcases hpc with rfl | rfl <;> trivial
    | @exitNulled d => cases d <;> simp [State.exitNulled, afterNull, AcceptPc.Leaving]
    | returned => simp [acceptReturned, AcceptThread.Holds] at hh
    | exitRemoved | notPosted | associateFailed | remoteFailed | failed => trivial
    | stop hpc | accepted hpc | remoteMade hpc | linked hpc | enter hpc | associated hpc
    | added hpc | posted hpc =>
      rw [hpc] at h
      exact h.elim
  | worker hm => exact same hm.frame.1
  | net hm => exact same hm.frame.1

/-- The call takes `x` off the list: it removes `x`, or it cleans the list. -/
def ListCall.TakesOff (x : CtxId) : ListCall n → Prop
  | .add _ => False
  | .remove _ p => p = some x
  | .clean => True

instance (x : CtxId) : DecidablePred (ListCall.TakesOff (n := n) x)
  | .add _ => instDecidableFalse
  | .remove _ p => inferInstanceAs (Decidable (p = some x))
  | .clean => instDecidableTrue

/-- After a call that takes it off, a context is not on the list. -/
theorem Move.not_mem_of_takesOff {a : Action n} (hm : Move s a s') (hl : s.Listed)
    {call : ListCall n} (hcall : s.listCall a = some call) {x : CtxId} (hx : call.TakesOff x) :
    x ∉ s'.clientContext := by
  intro hmem
  have hlist := hm.clientContext_eq
  rw [hcall, Option.elim_some] at hlist
  have hmem' : some x ∈ s'.clientContext.map some := List.mem_map_of_mem hmem
  rw [hlist] at hmem'
  cases call with
  | add p => exact hx
  | remove w p =>
    obtain rfl : p = some x := hx
    rw [ListCall.apply, ClientVector.removeFromClientList_eq_erase] at hmem'
    exact (hl.nodup.map (Option.some_injective _)).not_mem_erase hmem'
  | clean => cases hmem'

namespace Listing

variable {s : Listing n} {a : Action n} {t : State n}

/-- A call that takes `x` off the list has been made. -/
def TakenOff (s : Listing n) (x : CtxId) : Prop := ∃ call ∈ s.log, call.TakesOff x

instance (s : Listing n) (x : CtxId) : Decidable (s.TakenOff x) :=
  inferInstanceAs (Decidable (∃ call ∈ s.log, call.TakesOff x))

theorem mem_log_after {call : ListCall n} :
    call ∈ (s.after a t).log ↔ call ∈ s.log ∨ s.proxy.listCall a = some call := by
  simp [after, Option.mem_toList]

theorem TakenOff.after {x : CtxId} (h : s.TakenOff x) : (s.after a t).TakenOff x :=
  let ⟨call, hmem, hx⟩ := h
  ⟨call, mem_log_after.mpr (.inl hmem), hx⟩

/-- What the calls of the past mean for the list: a context that was removed had been put on the
list before, or will not be, and after the list was cleaned nobody is there to put anything on
it. -/
structure Past (s : Listing n) : Prop where
  removed : ∀ w x, .remove w (some x) ∈ s.log → x < s.proxy.next ∧
    (x ∈ s.proxy.added ∨ (s.proxy.accept.Holds x → s.proxy.accept.pc.Leaving))
  cleaned : .clean ∈ s.log →
    (s.proxy.accept.pc = .done ∨ s.proxy.accept.pc = .notStarted) ∧
      (s.proxy.main = .closeListen ∨ s.proxy.main = .exited)
  list : ∀ x ∈ s.proxy.clientContext, ¬ s.TakenOff x

/-- The removal a step makes. -/
theorem removal_cases (hs : s.proxy.Sound) (hv : s.proxy.Served) (hm : Move s.proxy a t)
    {w : Option (Fin n)} {x : CtxId} (hcall : s.proxy.listCall a = some (.remove w (some x))) :
    s.proxy.accept.Holds x ∧ t.accept.pc.Leaving ∨ x ∈ s.proxy.added := by
  rcases listCall_cases hcall with ⟨o, rfl⟩ | ⟨v, j, rfl, hw, hc⟩ | ⟨-, -, hc⟩
  · left
    obtain hm | hm | hm | hm := hm
    obtain ⟨d, ⟨-, hc⟩ | ⟨hpc, hc⟩ | ⟨hpc, hc⟩⟩ := listCall_accept hcall
    · cases hc
    · obtain ⟨-, hx⟩ := ListCall.remove.inj hc
      refine ⟨AcceptThread.holds_side hx.symm, ?_⟩
      cases hm with
      | exitRemoved => trivial
      | _ => simp_all
    · obtain ⟨-, hx⟩ := ListCall.remove.inj hc
      have hok := hs.acceptOk
      simp only [AcceptOk, hpc] at hok
      obtain ⟨-, b, y, hp, hy⟩ := hok
      obtain rfl : x = y := by simpa [hp] using hx
      refine ⟨AcceptThread.holds_side hy, ?_⟩
      cases hm with
      | associateFailed => trivial
      | associated => simp [listCall, hpc] at hcall
      | _ => simp_all
  · obtain ⟨-, hx⟩ := ListCall.remove.inj hc
    obtain rfl := Option.some.inj hx
    exact .inr (hv.jobs v j _ hw).2.1
  · cases hc

theorem Past.removed_step (h : s.Past) (hs : s.proxy.Sound) (hv : s.proxy.Served)
    (hcur : ∀ x, s.proxy.accept.Holds x → x < s.proxy.next) (hm : Move s.proxy a t)
    {w : Option (Fin n)} {x : CtxId} (hmem : .remove w (some x) ∈ (s.after a t).log) :
    x < t.next ∧ (x ∈ t.added ∨ (t.accept.Holds x → t.accept.pc.Leaving)) := by
  rcases mem_log_after.mp hmem with hold | hnew
  · obtain ⟨hlt, hx⟩ := h.removed w x hold
    exact ⟨hlt.trans_le hm.next_le, hx.imp (hm.added_subset ·) fun hx hh =>
      hm.leaving hs (hx (hm.accept_holds hlt hh)) hh⟩
  · rcases removal_cases hs hv hm hnew with ⟨hh, hleave⟩ | hadd
    · exact ⟨(hcur x hh).trans_le hm.next_le, .inr fun _ => hleave⟩
    · exact ⟨(hs.added_lt x hadd).trans_le hm.next_le, .inl (hm.added_subset hadd)⟩

theorem Past.cleaned_step (h : s.Past) (hidle : s.proxy.main = .waitWorkers →
      s.proxy.accept.pc = .done ∨ s.proxy.accept.pc = .notStarted)
    (hrun : s.proxy.main ≠ .exited) (hm : Move s.proxy a t) (hmem : .clean ∈ (s.after a t).log) :
    (t.accept.pc = .done ∨ t.accept.pc = .notStarted) ∧
      (t.main = .closeListen ∨ t.main = .exited) := by
  rcases mem_log_after.mp hmem with hold | hnew
  · obtain ⟨hacc, hmain⟩ := h.cleaned hold
    have hclose := hmain.resolve_right hrun
    cases hm with
    | main hm =>
      cases hm with
      | closed => exact ⟨hacc, .inr rfl⟩
      | quiet hq => simp [mainQuiet, hclose] at hq
      | _ => simp_all
    | accept hm => exact absurd hacc (not_or.mpr ⟨hm.pc_ne_done, hm.pc_ne⟩)
    | worker hm => exact ⟨hm.frame.1.symm ▸ hacc, hm.frame.2.2.2.2.1.symm ▸ hmain⟩
    | net hm => exact ⟨hm.frame.1.symm ▸ hacc, hm.frame.2.2.2.2.1.symm ▸ hmain⟩
  · rcases listCall_cases hnew with ⟨o, rfl⟩ | ⟨v, j, -, -, hc⟩ | ⟨rfl, hwait, -⟩
    · obtain ⟨d, ⟨-, hc⟩ | ⟨-, hc⟩ | ⟨-, hc⟩⟩ := listCall_accept hnew <;> cases hc
    · cases hc
    · obtain hm | hm | hm | hm := hm
      cases hm with
      | sweep =>
        refine ⟨?_, .inl rfl⟩
        have hacc := s.proxy.cleanClientList_frame.2.2.2.1
        exact hacc.symm ▸ hidle hwait
      | quiet hq => simp [mainQuiet, hwait] at hq
      | _ => simp_all

theorem Past.list_step (h : s.Past) (hs : s.proxy.Sound) (hl : s.proxy.Listed)
    (hm : Move s.proxy a t) {x : CtxId} (hx : x ∈ t.clientContext) :
    ¬ (s.after a t).TakenOff x := by
  rintro ⟨call, hmem, hoff⟩
  rcases mem_log_after.mp hmem with hold | hnew
  · rcases hm.list_cases with ⟨hsub, -⟩ | ⟨d, y, hpc, hy, hlist, -⟩
    · exact h.list x (hsub.subset hx) ⟨call, hold, hoff⟩
    · rw [hlist, List.mem_append, List.mem_singleton] at hx
      rcases hx with hx | rfl
      · exact h.list x hx ⟨call, hold, hoff⟩
      · -- the accept thread puts no context on the list that was removed before
        cases call with
        | add p => exact hoff
        | remove w p =>
          obtain rfl : p = some x := hoff
          rcases (h.removed w x hold).2 with hadd | hleave
          · exact (hs.acceptOk.not_added hpc hy).1 hadd
          · have hleaving := hleave (AcceptThread.holds_side hy)
            rw [hpc] at hleaving
            exact hleaving
        | clean =>
          have hacc := (h.cleaned hold).1
          simp [hpc] at hacc
  · exact hm.not_mem_of_takesOff hl hnew hoff hx

theorem Past.step (h : s.Past) (hs : s.proxy.Sound) (hl : s.proxy.Listed) (hv : s.proxy.Served)
    (hcur : ∀ x, s.proxy.accept.Holds x → x < s.proxy.next)
    (hidle : s.proxy.main = .waitWorkers →
      s.proxy.accept.pc = .done ∨ s.proxy.accept.pc = .notStarted)
    (hrun : s.proxy.main ≠ .exited) (hm : Move s.proxy a t) : (s.after a t).Past where
  removed _ _ hmem := h.removed_step hs hv hcur hm hmem
  cleaned hmem := h.cleaned_step hidle hrun hm hmem
  list _ hx := h.list_step hs hl hm hx

theorem past_of_reachable {G : Listing n → Action n → Prop}
    (hG : ∀ s a, G s a → IdealKeys s.proxy a) (hs : (listing n).Reachable G s) : s.Past := by
  refine hs.invariant_step (by constructor <;> simp [listing, initial])
    fun s a s' hr h _ hstep => ?_
  obtain ⟨t, ht, rfl⟩ := listing_step hstep
  have hp := reachable_proxy_of hG hr
  obtain ⟨-, hrun, hm⟩ := step_move ht
  exact h.step (sound_of_reachable hp) (listed_of_reachable hp) (served_of_reachable hp)
    (fun x hh => (current_of_reachable hp x hh).1) (idle_of_waitWorkers hp) hrun hm

/-- A context that was taken off the list is not on it. -/
theorem not_mem_of_takenOff {G : Listing n → Action n → Prop}
    (hG : ∀ s a, G s a → IdealKeys s.proxy a) (hs : (listing n).Reachable G s) {x : CtxId}
    (hx : s.TakenOff x) : x ∉ s.proxy.clientContext :=
  fun hmem => (past_of_reachable hG hs).list x hmem hx

end Listing

/-! ### The condition on the steps -/

/-- The completion keys are right, and when a worker comes to the end of a failed or empty
completion, the call of `AcceptConnection` that made its context has returned, and
`RemoveFromClientListAndCleanUpMemory` was called for the buddy as well, or `CleanClientList`. -/
def TeardownReady (s : Listing n) (a : Action n) : Prop :=
  IdealKeys s.proxy a ∧ match a with
    | .worker w .ok =>
      match s.proxy.worker w with
      | .busy j .finish => j.Gone → s.proxy.CallReturned j.ctx ∧
          (∀ y ∈ s.proxy.strongOf j.ctx, s.TakenOff y) ∧ ∀ y ∈ s.proxy.weakOf j.ctx, s.TakenOff y
      | _ => True
    | _ => True

instance (s : Listing n) (a : Action n) : Decidable (TeardownReady s a) :=
  @instDecidableAnd _ _ inferInstance <| match a with
    | .worker w .ok => by
      dsimp only
      exact match s.proxy.worker w with
      | .busy j .finish => inferInstanceAs (Decidable (j.Gone → s.proxy.CallReturned j.ctx ∧
          (∀ y ∈ s.proxy.strongOf j.ctx, s.TakenOff y) ∧
            ∀ y ∈ s.proxy.weakOf j.ctx, s.TakenOff y))
      | .busy _ .dispatch | .busy _ .forward | .busy _ .forwardSend | .busy _ (.send _)
      | .busy _ (.fill _) | .busy _ .recv | .busy _ .failed | .waiting | .exited =>
        instDecidableTrue
    | .worker _ .fail | .worker _ (.dequeue _ _) | .main _ | .accept _ | .net _ =>
      instDecidableTrue

/-! ### Connections that are gone -/

/-- A worker marks a connection as gone when it finishes. -/
theorem Move.torn_cases {a : Action n} (hm : Move s a s') {x : CtxId} (hx : x ∈ s'.torn) :
    x ∈ s.torn ∨ ∃ w j, a = .worker w .ok ∧ s.worker w = .busy j .finish ∧ j.Gone ∧ x = j.ctx := by
  cases hm with
  | main hm => exact .inl (hm.frame.2.2.2.2.2.2.2.2.2.2 ▸ hx)
  | accept hm => exact .inl (hm.frame.2.2.2.2.2.2.2 ▸ hx)
  | net hm => exact .inl (hm.frame.2.2.2.2.2.2.2.2.2.2.2.2 ▸ hx)
  | worker hm =>
    cases hm with
    | @finished j hw =>
      simp only [State.finished, release_frame, setWorker] at hx
      split_ifs at hx with hg
      · rcases Finset.mem_insert.mp hx with rfl | hx
        · exact .inr ⟨_, j, rfl, hw, hg, rfl⟩
        · exact .inl hx
      · exact .inl hx
    | _ => exact .inl hx

namespace Listing

variable {s : Listing n} {a : Action n} {t : State n}

/-- A worker at the end of a failed or empty completion has called for its context to be taken off
the list; and of a connection that is gone both contexts were taken off. -/
structure TornDown (s : Listing n) : Prop where
  gone : ∀ w j st, s.proxy.worker w = .busy j st → st.Forwarding → ¬ j.Gone
  called : ∀ w j, s.proxy.worker w = .busy j .finish → j.Gone → s.TakenOff j.ctx
  torn : ∀ x ∈ s.proxy.torn, s.proxy.Settled x ∧ s.proxy.CallReturned x ∧ s.TakenOff x ∧
    ∀ y, s.proxy.Partner x y → s.TakenOff y

theorem TornDown.step (h : s.TornDown) (hs : s.proxy.Sound) (hv : s.proxy.Served)
    (hG : TeardownReady s a) (hm : Move s.proxy a t) : (s.after a t).TornDown := by
  have keep : ∀ {x}, s.proxy.Settled x → s.proxy.CallReturned x → s.TakenOff x →
      (∀ y, s.proxy.Partner x y → s.TakenOff y) →
      t.Settled x ∧ t.CallReturned x ∧ (s.after a t).TakenOff x ∧
        ∀ y, t.Partner x y → (s.after a t).TakenOff y := by
    intro x hset hret hx hy
    obtain ⟨-, z, hz, -⟩ := id hset
    refine ⟨hset.step hs hm, hret.step hs hm (hs.paired.partner_lt hz), hx.after, fun y hp => ?_⟩
    rw [Partner, strongOf, weakOf, hm.buddy_eq hs hz] at hp
    exact (hy y hp).after
  refine ⟨fun w j st hj hst => ?_, fun w j hj hg => ?_, fun x hx => ?_⟩
  · rcases hm.busy hj with hw | ⟨op, c, ok, bytes, -, -, -, rfl, -⟩ | ⟨o, st₀, -, hw, hn⟩
    · exact h.gone w j st hw hst
    · exact hst.elim
    · rcases hn.forwarding hst with ⟨rfl, rfl⟩ | hst₀
      · intro hg
        rw [State.dispatch, if_pos hg] at hst
        exact hst
      · exact h.gone w j st₀ hw hst₀
  · generalize hst : Stage.finish = st at hj
    rcases hm.busy hj with hw | ⟨op, c, ok, bytes, -, -, -, rfl, -⟩ | ⟨o, st₀, rfl, hw, hn⟩
    · subst hst
      exact (h.called w j hw hg).after
    · cases hst
    · -- a failed or empty completion gets here from the exit path only
      cases hn with
      | dispatch => rw [State.dispatch, if_pos hg] at hst; cases hst
      | received => exact absurd hg (h.gone w j .recv hw trivial)
      | removed =>
        refine ⟨.remove (some w) (some j.ctx), mem_log_after.mpr (.inr ?_), rfl⟩
        rcases hm with - | - | hm | -
        cases hm with
        | removed => simp [listCall, hw]
        | _ => simp_all
      | _ => cases hst
  · rcases hm.torn_cases hx with hx | ⟨w, j, rfl, hw, hg, rfl⟩
    · obtain ⟨hset, hret, hoff, hy⟩ := h.torn x hx
      exact keep hset hret hoff hy
    · have hready := hG.2
      simp only [hw] at hready
      obtain ⟨hret, hstrong, hweak⟩ := hready hg
      exact keep (hv.jobs w j _ hw).2 hret (h.called w j hw hg) fun y hp =>
        hp.elim (hstrong y) (hweak y)

theorem tornDown_of_reachable (hs : (listing n).Reachable TeardownReady s) : s.TornDown := by
  refine hs.invariant_step (by constructor <;> simp [listing, initial])
    fun s a s' hr h hG hstep => ?_
  obtain ⟨t, ht, rfl⟩ := listing_step hstep
  have hp := reachable_proxy_of (fun _ _ h => h.1) hr
  exact h.step (sound_of_reachable hp) (served_of_reachable hp) hG (step_move ht).2.2

end Listing

namespace State

/-- The list and the accept thread do not refer to `x` any more. -/
def Dropped (s : State n) (x : CtxId) : Prop := x ∉ s.clientContext ∧ ¬ s.accept.Holds x

/-- Two contexts of a pair to which neither the list nor a thread refers are destroyed: of the two,
only the client owns the other one. -/
theorem not_live_of_dropped (hs : s.Sound) {x y : CtxId} (hp : s.Partner x y) (hx : s.Dropped x)
    (hy : s.Dropped y) (hw : ∀ w, ¬ (s.worker w).Holds x ∧ ¬ (s.worker w).Holds y) :
    x ∉ s.live ∧ y ∉ s.live := by
  have root : ∀ {z}, s.Dropped z → (∀ w, ¬ (s.worker w).Holds z) → ¬ s.Root z := by
    rintro z hz hw (hl | ha | ⟨w, hh⟩)
    · exact hz.1 hl
    · exact hz.2 ha
    · exact hw w hh
  have owner : ∀ {u v}, s.Partner u v → ¬ s.Root v → v ∈ s.live →
      u ∈ s.live ∧ s.strongOf u = some v := by
    intro u v huv hv hl
    rcases hs.alive.owned_of_live v hl with hr | ⟨c, hc, hcv⟩
    · exact absurd hr hv
    · obtain rfl := hs.paired.partner_unique (hs.paired.partner_symm huv)
        (hs.paired.partner_symm (.inl hcv))
      exact ⟨hc, hcv⟩
  have hrx := root hx fun w => (hw w).1
  have hry := root hy fun w => (hw w).2
  have both : ∀ {u v}, s.Partner u v → ¬ s.Root u → ¬ s.Root v → v ∉ s.live := by
    intro u v huv hu hv hl
    obtain ⟨hul, huv'⟩ := owner huv hv hl
    obtain ⟨-, hvu⟩ := owner (hs.paired.partner_symm huv) hu hul
    rw [(hs.paired.own huv').2.1] at hvu
    cases hvu
  exact ⟨both (hs.paired.partner_symm hp) hry hrx, both hp hrx hry⟩

end State

/-- In every state of a run in which a worker comes to the end of a failed or empty completion only
after the buddy was removed from the list as well, or the list cleaned, and the call of
`AcceptConnection` returned, neither context of the connection is on the list afterwards, and both
sockets are closed once no worker refers to the two. -/
theorem pairwise_teardown {s : Listing n} (hs : (listing n).Reachable TeardownReady s)
    {x y : CtxId} (hx : x ∈ s.proxy.torn) (hp : s.proxy.Partner x y) :
    x ∉ s.proxy.clientContext ∧ y ∉ s.proxy.clientContext ∧
      ((∀ w, ¬ (s.proxy.worker w).Holds x ∧ ¬ (s.proxy.worker w).Holds y) →
        ∀ z, z = x ∨ z = y → z ∉ s.proxy.live ∧
          ∀ h ∈ (s.proxy.ctx z).socket, ¬ s.proxy.handles.IsOpen h) := by
  have hproxy : (proxy n).Reachable IdealKeys s.proxy :=
    Listing.reachable_proxy_of (fun _ _ h => h.1) hs
  have hsound := sound_of_reachable hproxy
  have hcur := current_of_reachable hproxy
  obtain ⟨-, hret, hoffx, hoffy⟩ := (Listing.tornDown_of_reachable hs).torn x hx
  have off : ∀ {z}, s.TakenOff z → z ∉ s.proxy.clientContext :=
    Listing.not_mem_of_takenOff (fun _ _ h => h.1) hs
  have hrety : s.proxy.CallReturned y := by
    rwa [CallReturned, hsound.paired.conn_eq (hsound.paired.partner_symm hp)]
  have hdx : s.proxy.Dropped x := ⟨off hoffx, hret.not_holds hsound fun h => (hcur x h).2⟩
  have hdy : s.proxy.Dropped y := ⟨off (hoffy y hp), hrety.not_holds hsound fun h => (hcur y h).2⟩
  refine ⟨hdx.1, hdy.1, fun hw z hz => ?_⟩
  obtain ⟨hlx, hly⟩ := not_live_of_dropped hsound hp hdx hdy hw
  have hsock := socketed_of_reachable hproxy
  rcases hz with rfl | rfl
  · exact ⟨hlx, hsock.dead z (hsound.paired.partner_lt hp) hlx⟩
  · exact ⟨hly, hsock.dead z (hsound.paired.partner_lt (hsound.paired.partner_symm hp)) hly⟩

/-- Both peers close, and two workers handle the two ends at the same time. -/
def closedBoth (v w : Fin 2) : List (Action 2) :=
  [.net (.receive (.posted 0 .recv 2048) []), .net (.receive (.posted 1 .recv 2048) []),
    .worker v (.dequeue { Op.posted 0 .recv 2048 with status := .done true 0 } 0),
    .worker w (.dequeue { Op.posted 1 .recv 2048 with status := .done true 0 } 1),
    .worker v .ok, .worker w .ok, .worker v .ok, .worker w .ok, .worker v .ok, .worker w .ok]

set_option maxRecDepth 10000 in
/-- The two ends are handled at the same time: the whole connection is taken down. -/
theorem pairwise_teardown_run :
    ∃ s : Listing 2, s.proxy.torn = {0, 1} ∧ 0 ∉ s.proxy.clientContext ∧
      1 ∉ s.proxy.clientContext ∧ 0 ∉ s.proxy.live ∧ 1 ∉ s.proxy.live := by
  obtain ⟨s, hs, htorn, hp, hw⟩ : ∃ s : Listing 2, (listing 2).Reachable TeardownReady s ∧
      s.proxy.torn = {0, 1} ∧ (s.proxy.ctx 0).buddy.strong = some 1 ∧
        ∀ w, ¬ (s.proxy.worker w).Holds 0 ∧ ¬ (s.proxy.worker w).Holds 1 :=
    TransitionSystem.exists_reachable_of_runChecked
      (startUp ++ connection 11 12 ++ closedBoth 0 1) (by decide +kernel)
  obtain ⟨h₀, h₁, hdown⟩ := pairwise_teardown hs (x := 0) (y := 1) (by simp [htorn]) (.inl hp)
  exact ⟨s, htorn, h₀, h₁, (hdown hw 0 (.inl rfl)).1, (hdown hw 1 (.inr rfl)).1⟩

set_option maxRecDepth 10000 in
/-- The client closes: the remote side stays on the list, and its socket stays open. -/
theorem pairwise_teardown_fails :
    ∃ s : State 2, (proxy 2).Reachable KeyedAtomic s ∧ s.fault = none ∧ 0 ∈ s.torn ∧
      s.strongOf 0 = some 1 ∧ (∀ w, ¬ (s.worker w).Holds 0 ∧ ¬ (s.worker w).Holds 1) ∧
      s.clientContext = [1] ∧ ∃ h ∈ (s.ctx 1).socket, s.handles.IsOpen h :=
  TransitionSystem.exists_reachable_of_runChecked
    (startUp ++ connection 11 12 ++ closed 1 0) (by decide +kernel)

end IocpProxy
