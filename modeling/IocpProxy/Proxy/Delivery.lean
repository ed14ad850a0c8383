import IocpProxy.Proxy.Attendance
import IocpProxy.Proxy.Relay

/-!
# Everything that was received is delivered

`Relay` shows that nothing wrong comes out of the relay: what was transmitted is the beginning of
what was received. Here is what comes out in the end. While reads go on, the relay holds back at
most one chunk in the receive record of the source and one in the send record of its buddy; when
the threads are idle and nothing is on its way, it holds back nothing.

## Main definitions

* `IocpProxy.State.Short` : no operation is longer than a buffer.
* `IocpProxy.State.Still` : the threads are idle, and nothing is on its way between two contexts.

## Main results

* `IocpProxy.relay_complete`.
-/

namespace IocpProxy

open State

variable {n : ℕ} {s s' : State n}

namespace State

/-! ### How much the records hold -/

/-- No operation is posted for more bytes than the buffer has. -/
def Short (s : State n) : Prop := ∀ o ∈ s.ops, o.len ≤ maxBufferLen

theorem Short.kept (h : s.Short) (hk : s.Kept s') : s'.Short :=
  hk.forall_ops (fun o ho => (Op.len_abort o).trans_le ho) h

theorem Short.cons (h : s.Short) {o : Op} (ho : o.len ≤ maxBufferLen)
    (hops : s'.ops = o :: s.ops) : s'.Short := by
  intro p hp
  rw [hops] at hp
  rcases List.mem_cons.mp hp with rfl | hp
  · exact ho
  · exact h p hp

theorem Short.erase (h : s.Short) {o : Op} (hops : s'.ops = s.ops.erase o) : s'.Short :=
  fun p hp => h p (List.mem_of_mem_erase (hops ▸ hp))

theorem Short.replace (h : s.Short) {o o' : Op} (ho : o ∈ s.ops)
    (hops : s'.ops = o' :: s.ops.erase o) (hlen : o'.len = o.len) : s'.Short := by
  intro p hp
  rw [hops] at hp
  rcases List.mem_cons.mp hp with rfl | hp
  · exact hlen.trans_le (h o ho)
  · exact h p (List.mem_of_mem_erase hp)

theorem Short.step {a : Action n} (h : s.Short) (ho : s.Orderly) (hm : Move s a s') :
    s'.Short := by
  rcases hm with hm | hm | hm | hm
  · exact h.kept hm.kept
  · rcases hm.ops_eq with ⟨hk, -⟩ | ⟨x, -, -, hops⟩
    · exact h.kept hk
    · exact h.cons le_rfl hops
  · rcases hm.ops_eq with hk | ⟨op, c, -, -, -, -, hops⟩ | ⟨j, -, -, -, hops⟩ |
      ⟨j, b, io, hw, -, hf, hk⟩
    · exact h.kept hk
    · exact h.erase hops
    · exact h.cons le_rfl hops
    · -- a send is as long as the read that is forwarded
      have hkind := (ho.typed.stage _ j _ hw trivial).1
      have hlen : io.dataBufLen ≤ maxBufferLen :=
        (ho.sized.dataBufLen_eq hw hkind hf).trans_le (ho.sized.job _ j _ hw hkind)
      exact (h.cons (o := .posted b .send io.dataBufLen) hlen rfl).kept hk
  · cases hm with
    | arrived hmem | transmitted hmem | completed hmem | failed hmem =>
      exact h.replace hmem rfl rfl

theorem InFlight.length_le (hs : s.Short) {y : CtxId} {l : List UInt8} (h : s.InFlight y l) :
    l.length ≤ maxBufferLen := by
  by_cases hno : ∀ o ∈ s.ops, ¬ o.Unsent y
  · rw [h.2 hno]
    exact Nat.zero_le _
  · obtain ⟨o, ho, hu⟩ : ∃ o ∈ s.ops, o.Unsent y := by simpa using hno
    rw [h.1 o ho hu, Buffer.length_slice]
    exact (Nat.sub_le _ _).trans (hs o ho)

theorem Sized.delivered_le (h : s.Sized) {o : Op} (ho : o ∈ s.ops) (hk : o.kind = .recv) :
    o.delivered ≤ maxBufferLen := by
  unfold Op.delivered
  split <;> rename_i hst
  · exact (h.ops o ho hk).2 true _ hst
  · exact Nat.zero_le _

theorem Waiting.length_le (hs : s.Sized) {x : CtxId} {c : List UInt8} (h : s.Waiting x c) :
    c.length ≤ maxBufferLen := by
  by_cases hout : s.outstanding .recv x = 0
  · by_cases hcar : ∀ w, (s.worker w).carries x = none
    · rw [h.2.2 ⟨hout, hcar⟩]
      exact Nat.zero_le _
    · obtain ⟨w, hw⟩ := not_forall.mp hcar
      obtain ⟨j, hj⟩ := Option.ne_none_iff_exists'.mp hw
      obtain ⟨st, hst, -, hk, -⟩ := Worker.carries_eq_some hj
      rw [h.2.1 w j hj, Buffer.length_slice]
      exact hs.job w j st hst hk
  · obtain ⟨o, ho, hx, hk⟩ := outstanding_pos_iff.mp (Nat.pos_of_ne_zero hout)
    rw [h.1 o ho hx hk, Buffer.length_slice]
    exact hs.delivered_le ho hk

/-! ### Nothing is on its way -/

/-- The threads are idle, no receive of `x` has completed, and nothing is being transmitted
on `y`. -/
def Still (s : State n) (x y : CtxId) : Prop :=
  s.Idle ∧ (∀ o ∈ s.ops, o.ctx = x → o.kind = .recv → o.status = .pending) ∧ s.unsent y = 0

instance (s : State n) (x y : CtxId) : Decidable (s.Still x y) :=
  inferInstanceAs (Decidable (_ ∧ (∀ o ∈ s.ops, _ → _ → _) ∧ _))

/-- What is in the records of a relay that is still. -/
theorem Still.eq_nil {x y : CtxId} (h : s.Still x y) {l c : List UInt8} (hl : s.InFlight y l)
    (hc : s.Waiting x c) (hout : 0 < s.outstanding .recv x) : l = [] ∧ c = [] := by
  refine ⟨hl.2 (unsent_eq_zero_iff.mp h.2.2), ?_⟩
  obtain ⟨o, ho, hx, hk⟩ := outstanding_pos_iff.mp hout
  have hdel : o.delivered = 0 := by simp [Op.delivered, h.2.1 o ho hx hk]
  rw [hc.1 o ho hx hk, hdel]
  rfl

theorem short_of_reachable (hs : (proxy n).Reachable RelayReady s) : s.Short :=
  hs.invariant_step (by simp [Short, proxy, initial]) fun s _ _ hr h _ hstep =>
    h.step (relayed_of_reachable hr).1 (step_move hstep).2.2

/-- A relay that is still has delivered everything. -/
theorem Relayed.sent_eq (h : s.Relayed) (hs : (proxy n).Reachable RelayReady s) {x y : CtxId}
    (hp : s.Partner x y) (hb : s.broken y = false) (hx : x ∈ s.clientContext)
    (hstill : s.Still x y) : s.sent y = s.received x := by
  obtain ⟨l, hl, -, hact⟩ := (h.flow x y hp).2 hb
  have hkeys : (proxy n).Reachable IdealKeys s := hs.mono fun _ _ hG => hG.1
  have hout : 0 < s.outstanding .recv x :=
    ((attended_of_reachable hkeys).2 x hx).outstanding_pos hstill.1
  obtain ⟨c, hc, heq⟩ := hact (.inr (Nat.add_pos_left hout _))
  obtain ⟨rfl, rfl⟩ := hstill.eq_nil hl hc hout
  simpa using heq

end State

/-- As long as the socket of `y` transmits and reads of its buddy `x` go on, what `x` received is
what was transmitted on `y`, then the bytes in the send record of `y` that are still to be
transmitted, then the bytes in the receive record of `x` that are still to be forwarded, at most a
buffer of each. Whenever nothing is on its way while `x` is on the client list, everything that `x`
received was transmitted. -/
theorem relay_complete (hs : (proxy n).Reachable RelayReady s) {x y : CtxId} (hp : s.Partner x y)
    (hb : s.broken y = false) :
    (0 < s.load x → ∃ l c, s.InFlight y l ∧ s.Waiting x c ∧ s.received x = s.sent y ++ l ++ c ∧
      l.length ≤ maxBufferLen ∧ c.length ≤ maxBufferLen) ∧
    (x ∈ s.clientContext → s.Still x y → s.sent y = s.received x) := by
  obtain ⟨ho, -, -, h⟩ := relayed_of_reachable hs
  obtain ⟨l, hl, -, hact⟩ := (h.flow x y hp).2 hb
  refine ⟨fun hload => ?_, fun hx hstill => ?_⟩
  · obtain ⟨c, hc, heq⟩ := hact (.inr hload)
    exact ⟨l, c, hl, hc, heq.symm, hl.length_le (short_of_reachable hs), hc.length_le ho.sized⟩
  · exact h.sent_eq hs hp hb hx hstill

set_option maxRecDepth 10000 in
/-- Two chunks of the client come out whole at the remote side. -/
theorem relay_complete_run :
    ∃ s : State 2, s.received 0 = [65, 66, 67, 68] ∧ s.sent 1 = s.received 0 := by
  obtain ⟨s, hs, hrec, hp, hb, hmem, hstill⟩ : ∃ s : State 2,
      (proxy 2).Reachable (fun s a => KeyedAtomic s a ∧ Survives s a ∧ Undisturbed s a) s ∧
        s.received 0 = [65, 66, 67, 68] ∧ (s.ctx 0).buddy.strong = some 1 ∧
          s.broken 1 = false ∧ 0 ∈ s.clientContext ∧ s.Still 0 1 :=
    TransitionSystem.exists_reachable_of_runChecked (startUp ++ connection 11 12 ++
      relay 0 0 [65, 66] ++ sendDone 1 1 2 ++ relay 1 0 [67, 68] ++ sendDone 0 1 2)
      (by decide +kernel)
  have hready : (proxy 2).Reachable RelayReady s :=
    hs.mono fun s a ⟨hkey, hrest⟩ => ⟨hkey.1, hkey.2.typeSafe, hrest⟩
  exact ⟨s, hrec, (relay_complete hready (.inl hp) hb).2 hmem hstill⟩

end IocpProxy
