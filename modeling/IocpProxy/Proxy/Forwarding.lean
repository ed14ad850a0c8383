import IocpProxy.Proxy.Receives

/-!
# Ordered forwarding

A worker forwards the bytes of a read before it posts the next receive, so the sends on a context
carry the reads of its buddy one by one and in order.

## Main definitions

* `IocpProxy.State.Forwarded` : the sends on a context are the first reads of its buddy.
* `IocpProxy.State.Orderly` : this and what it rests on.
* `IocpProxy.AtomicSend` : nothing happens between the two halves of `Send`.

## Main results

* `IocpProxy.State.Orderly.step`.
* `IocpProxy.ordered_forwarding`.
-/

namespace IocpProxy

open State

variable {n : ℕ} {s s' : State n}

namespace State

/-! ### Consequences of a single receive -/

theorem Single.reading_unique (h : s.Single) {x : CtxId} {w w' : Fin n}
    (hw : (s.worker w).Reading x) (hw' : (s.worker w').Reading x) : w = w' := by
  have hle := h.load_le x
  unfold load at hle
  exact eq_of_workers_le_one (by omega) hw hw'

theorem Single.outstanding_of_reading (h : s.Single) {x : CtxId} {w : Fin n}
    (hw : (s.worker w).Reading x) : s.outstanding .recv x = 0 := by
  have hle := h.load_le x
  have hpos := workers_pos_iff.mpr ⟨w, hw⟩
  unfold load at hle
  omega

theorem Single.not_reading (h : s.Single) {x : CtxId} (ho : 0 < s.outstanding .recv x)
    (w : Fin n) : ¬ (s.worker w).Reading x := fun hw => by
  have hzero := h.outstanding_of_reading hw
  omega

theorem load_pos_of_reading {x : CtxId} {w : Fin n} (hw : (s.worker w).Reading x) :
    0 < s.load x :=
  Nat.add_pos_right _ (workers_pos_iff.mpr ⟨w, hw⟩)

/-- Once the worker that handled a read of `x` has given up, nothing is under way on `x`. -/
theorem Single.load_of_gaveUp (h : s.Single) {x : CtxId} {w : Fin n} {o : WorkerOutcome}
    (hm : WorkerMove s w o s') (hr : (s.worker w).Reading x) (hr' : ¬ (s'.worker w).Reading x)
    (hout : s'.outstanding .recv x = s.outstanding .recv x) : s'.load x = 0 := by
  have hcount := hm.workers (P := Worker.Reading x)
  have hle := h.load_le x
  rw [if_pos hr, if_neg hr'] at hcount
  unfold load at hle ⊢
  omega

/-! ### The sends follow the reads -/

/-- The sends posted on a context are the first reads of its partner, in order, with their byte
counts: all of them while a receive is under way, all but the one a worker still carries. -/
structure Forwarded (s : State n) : Prop where
  start : ∀ x, ¬ s.Settled x → s.reads x = [] ∧ s.sends x = []
  sent : ∀ x y, s.Partner x y → ∀ i (r : SendRecord), (s.sends y)[i]? = some r →
    r.src = x ∧ r.seq = i ∧ (s.reads x)[i]? = some r.len
  level : ∀ x y, s.Partner x y → s.First x ∨ 0 < s.load x →
    (∀ w, (s.worker w).carries x = none) → (s.sends y).length = (s.reads x).length
  carried : ∀ x y, s.Partner x y → ∀ w j, (s.worker w).carries x = some j →
    (s.sends y).length = j.seq ∧ j.seq + 1 = (s.reads x).length ∧
      (s.reads x)[j.seq]? = some j.bytes

/-- The byte count of a read survives the conversion to `UINT16` and the way into the send. -/
theorem Sized.dataBufLen_eq (h : s.Sized) {w : Fin n} {j : Job} {st : Stage}
    (hw : s.worker w = .busy j st) (hk : j.kind = .recv) {io io' : IoOperationData} {b : Buffer}
    (hf : io.fill b (UInt16.ofNat j.bytes) = some io') : io'.dataBufLen = j.bytes := by
  have hle := h.job w j st hw hk
  rw [(IoOperationData.fill_eq_some hf).2.2.2, UInt16.toNat_ofNat']
  exact Nat.mod_eq_of_lt (hle.trans_lt (by decide))

end State

theorem WorkerMove.carries_of_ne {w w' : Fin n} {o : WorkerOutcome} (hm : WorkerMove s w o s')
    (hw : w' ≠ w) (x : CtxId) : (s'.worker w').carries x = (s.worker w').carries x := by
  rw [hm.worker_of_ne hw]

/-- A context that is not yet listed together with a partner keeps an empty history. -/
theorem WorkerMove.forwarded_start {w : Fin n} {o : WorkerOutcome} (hm : WorkerMove s w o s')
    (h : s.Forwarded) (hs : s.Sound) (hv : s.Served) {x : CtxId} (hx : ¬ s.Settled x) :
    s'.reads x = [] ∧ s'.sends x = [] := by
  obtain ⟨hr, hsd⟩ := h.start x hx
  constructor
  · rcases hm.reads_eq x with e | ⟨op, c, bytes, -, ho, rfl, -⟩
    · exact e.trans hr
    · exact absurd (hv.ops _ _ (outstanding_pos ho)) hx
  · rcases hm.sends_eq x with e | ⟨j, io, hw, -⟩
    · exact e.trans hsd
    · exact absurd ((hv.jobs w j _ hw).2.partner hs (hv.targets w j x (.inr hw))) hx

/-- The next send is that of the next read, with its byte count. -/
theorem WorkerMove.forwarded_sent {w : Fin n} {o : WorkerOutcome} (hm : WorkerMove s w o s')
    (h : s.Forwarded) (hs : s.Sound) (hv : s.Served) (ht : s.Typed) (hz : s.Sized) {x y : CtxId}
    (hp : s.Partner x y) {i : ℕ} {r : SendRecord} (hi : (s'.sends y)[i]? = some r) :
    r.src = x ∧ r.seq = i ∧ (s'.reads x)[i]? = some r.len := by
  have hold := h.sent x y hp
  rcases hm.turn hs hv ht hp with ⟨-, -, hr, hsd, -⟩ | ⟨j, -, -, -, hr, hsd, -⟩ |
    ⟨-, -, -, hr, hsd, -⟩ | ⟨j, io, hc, hw, -, hf, hr, hsd, -⟩ | ⟨-, -, -, hr, hsd, -⟩ |
    ⟨-, -, hr, hsd, -⟩ <;> rw [hsd] at hi <;> rw [hr]
  · exact hold i r hi
  · obtain ⟨hsrc, hseq, hlen⟩ := hold i r hi
    refine ⟨hsrc, hseq, ?_⟩
    rw [List.getElem?_append_left (List.getElem?_eq_some_iff.mp hlen).1]
    exact hlen
  · exact hold i r hi
  · obtain ⟨hlen, -, hbytes⟩ := h.carried x y hp w j hc
    have hk := (Worker.carries_eq_some hc).choose_spec.2.2.1
    rcases lt_or_ge i (s.sends y).length with hlt | hge
    · rw [List.getElem?_append_left hlt] at hi
      exact hold i r hi
    · rw [List.getElem?_append_right hge, List.getElem?_singleton] at hi
      split_ifs at hi with hzero
      obtain rfl := Option.some.inj hi
      have hi' : i = j.seq := by omega
      refine ⟨rfl, hi'.symm, ?_⟩
      rw [hi', hz.dataBufLen_eq hw hk hf]
      exact hbytes
  · exact hold i r hi
  · exact hold i r hi

/-- While a receive is under way and no read waits, all reads are forwarded. -/
theorem WorkerMove.forwarded_level {w : Fin n} {o : WorkerOutcome} (hm : WorkerMove s w o s')
    (h : s.Forwarded) (hs : s.Sound) (hv : s.Served) (ht : s.Typed) (h₁ : s.Single) {x y : CtxId}
    (hp : s.Partner x y) (hload : s.First x ∨ 0 < s'.load x)
    (hnone : ∀ w, (s'.worker w).carries x = none) :
    (s'.sends y).length = (s'.reads x).length := by
  -- the worker that had the read has nothing to carry any more
  have none_of : (s.worker w).carries x = none → ∀ w', (s.worker w').carries x = none := by
    intro hw w'
    by_cases he : w' = w
    · exact he ▸ hw
    · exact (hm.carries_of_ne he x).symm.trans (hnone w')
  rcases hm.turn hs hv ht hp with ⟨hc, hr, hreads, hsd, hout⟩ | ⟨j, hc, -⟩ |
    ⟨hc, -, hw, hreads, hsd, hout⟩ | ⟨j, io, hc, -, -, -, hreads, hsd, -⟩ |
    ⟨hc, hr, -, hreads, hsd, -⟩ | ⟨hr, hr', -, -, hout⟩
  · have hcount := hm.workers (P := Worker.Reading x)
    simp only [hr] at hcount
    have hload' : s'.load x = s.load x := by
      rw [load, load, hout]
      omega
    rw [hload'] at hload
    rw [hreads, hsd]
    exact h.level x y hp hload (none_of (hc ▸ hnone w))
  · rw [hnone w] at hc
    cases hc
  · have hpos : 0 < s.load x := by
      unfold load
      omega
    rw [hreads, hsd]
    exact h.level x y hp (.inr hpos) (none_of (by simp [hw, Worker.carries]))
  · obtain ⟨hlen, hseq, -⟩ := h.carried x y hp w j hc
    rw [hreads, hsd, List.length_append, List.length_singleton]
    omega
  · rw [hreads, hsd]
    exact h.level x y hp (.inr (load_pos_of_reading hr)) (none_of hc)
  · have hzero := h₁.load_of_gaveUp hm hr hr' hout
    rcases hload with hf | hpos
    · exact absurd (h₁.first x hf) (load_pos_of_reading hr).ne'
    · omega

/-- The read that a worker has just dequeued is the next one to be forwarded. -/
theorem WorkerMove.forwarded_carried {w : Fin n} {o : WorkerOutcome} (hm : WorkerMove s w o s')
    (h : s.Forwarded) (hs : s.Sound) (hv : s.Served) (ht : s.Typed) (h₁ : s.Single) {x y : CtxId}
    (hp : s.Partner x y) {j : Job} (hj : (s'.worker w).carries x = some j) :
    (s'.sends y).length = j.seq ∧ j.seq + 1 = (s'.reads x).length ∧
      (s'.reads x)[j.seq]? = some j.bytes := by
  rcases hm.turn hs hv ht hp with ⟨hc, -, hreads, hsd, -⟩ |
    ⟨j', hc, hw, hseq, hreads, hsd, hout⟩ | ⟨hc, -⟩ | ⟨j', io, -, -, hw', -⟩ |
    ⟨-, -, hr', -⟩ | ⟨-, hr', -⟩
  · rw [hreads, hsd]
    exact h.carried x y hp w j (hc.symm.trans hj)
  · obtain rfl := Option.some.inj (hj.symm.trans hc)
    have hpos : 0 < s.outstanding .recv x := by omega
    have hnone : ∀ v, (s.worker v).carries x = none := fun v => by
      by_contra hv'
      obtain ⟨j', hj'⟩ := Option.ne_none_iff_exists'.mp hv'
      exact h₁.not_reading hpos v (Worker.reading_of_carries hj')
    have hlen := h.level x y hp (.inr (Nat.add_pos_left hpos _)) hnone
    rw [hreads, hsd]
    exact ⟨hlen.trans hseq.symm, by simp [hseq], by simp [hseq]⟩
  · rw [hc] at hj
    cases hj
  · simp [hw', Worker.carries, Stage.Carrying] at hj
  · exact absurd (Worker.reading_of_carries hj) hr'
  · exact absurd (Worker.reading_of_carries hj) hr'

/-- While one worker carries a read of `x`, the others leave the histories of the pair alone. -/
theorem WorkerMove.history_of_carries {w w' : Fin n} {o : WorkerOutcome}
    (hm : WorkerMove s w o s') (hs : s.Sound) (hv : s.Served) (ht : s.Typed) (h₁ : s.Single)
    {x y : CtxId} (hp : s.Partner x y) {j : Job} (hw : w' ≠ w)
    (hj : (s.worker w').carries x = some j) : s'.reads x = s.reads x ∧ s'.sends y = s.sends y := by
  have hread := Worker.reading_of_carries hj
  have hno : ¬ (s.worker w).Reading x := fun hr => hw (h₁.reading_unique hread hr)
  have hout := h₁.outstanding_of_reading hread
  rcases hm.turn hs hv ht hp with ⟨-, -, hreads, hsd, -⟩ | ⟨-, -, -, -, -, -, ho⟩ |
    ⟨-, -, -, -, -, ho⟩ | ⟨j', io, hc, -⟩ | ⟨-, hr, -⟩ | ⟨hr, -⟩
  · exact ⟨hreads, hsd⟩
  · omega
  · omega
  · exact absurd (Worker.reading_of_carries hc) hno
  · exact absurd hr hno
  · exact absurd hr hno

theorem WorkerMove.forwarded {w : Fin n} {o : WorkerOutcome} (hm : WorkerMove s w o s')
    (h : s.Forwarded) (hs : s.Sound) (hv : s.Served) (ht : s.Typed) (hz : s.Sized)
    (h₁ : s.Single) : s'.Forwarded := by
  have hpart : ∀ {x y}, s'.Partner x y ↔ s.Partner x y := hm.sameLinks.partner_iff
  refine ⟨fun x hx => ?_, fun x y hp i r hi => ?_, fun x y hp hload hnone => ?_,
    fun x y hp w' j hj => ?_⟩
  · exact hm.forwarded_start h hs hv fun hset => hx (hset.step hs (.worker hm))
  · exact hm.forwarded_sent h hs hv ht hz (hpart.mp hp) hi
  · rw [First, hm.frame.1, ← First] at hload
    exact hm.forwarded_level h hs hv ht h₁ (hpart.mp hp) hload hnone
  · rw [hpart] at hp
    by_cases hw : w' = w
    · subst hw
      exact hm.forwarded_carried h hs hv ht h₁ hp hj
    · rw [hm.carries_of_ne hw] at hj
      obtain ⟨hreads, hsd⟩ := hm.history_of_carries hs hv ht h₁ hp hw hj
      rw [hreads, hsd]
      exact h.carried x y hp w' j hj

namespace State

/-- The workers and the history stay, and links and receives only come to contexts that have no
history. -/
theorem Forwarded.of_quiet (h : s.Forwarded) (hs : s.Sound) (hv : s.Served)
    (hw : s'.worker = s.worker) (hreads : s'.reads = s.reads) (hsends : s'.sends = s.sends)
    (hset : ∀ x, s.Settled x → s'.Settled x)
    (hpart : ∀ {x y}, s'.Partner x y → s.Partner x y ∨ ¬ s.Settled x ∧ ¬ s.Settled y)
    (hload : ∀ {x}, s'.First x ∨ 0 < s'.load x → (s.First x ∨ 0 < s.load x) ∨ ¬ s.Settled x) :
    s'.Forwarded := by
  have idle : ∀ {x}, ¬ s.Settled x → ∀ w, (s.worker w).carries x = none := by
    intro x hx w
    by_contra hc
    obtain ⟨j, hj⟩ := Option.ne_none_iff_exists'.mp hc
    exact absurd (hv.load_eq_zero hx) (load_pos_of_reading (Worker.reading_of_carries hj)).ne'
  refine ⟨fun x hx => ?_, fun x y hp => ?_, fun x y hp hl hnone => ?_, fun x y hp w j hj => ?_⟩
  · rw [hreads, hsends]
    exact h.start x fun hx' => hx (hset x hx')
  · rw [hreads, hsends]
    rcases hpart hp with hp | ⟨-, hy⟩
    · exact h.sent x y hp
    · simp [(h.start y hy).2]
  · rw [hreads, hsends]
    rw [hw] at hnone
    rcases hpart hp with hp | ⟨hx, hy⟩
    · rcases hload hl with hl | hx
      · exact h.level x y hp hl hnone
      · have hy : ¬ s.Settled y := fun hy => hx (hy.partner hs (hs.paired.partner_symm hp))
        rw [(h.start x hx).1, (h.start y hy).2]
        rfl
    · rw [(h.start x hx).1, (h.start y hy).2]
      rfl
  · rw [hreads, hsends]
    rw [hw] at hj
    rcases hpart hp with hp | ⟨hx, -⟩
    · exact h.carried x y hp w j hj
    · rw [idle hx w] at hj
      cases hj

theorem Forwarded.step {a : Action n} (h : s.Forwarded) (hs : s.Sound) (hv : s.Served)
    (ht : s.Typed) (hz : s.Sized) (h₁ : s.Single) (hm : Move s a s') : s'.Forwarded := by
  have hset : ∀ x, s.Settled x → s'.Settled x := fun x hx => hx.step hs hm
  rcases hm with hm | hm | hm | hm
  · obtain ⟨hctx, hnext, -, -, -, hw, -, -, hreads, hsends, -⟩ := hm.frame
    refine h.of_quiet hs hv hw hreads hsends hset (fun hp => .inl ?_) (fun hl => .inl ?_)
    · exact (SameLinks.of_ctx hctx hnext).partner_iff.mp hp
    · rw [hm.load_eq] at hl
      exact hl.imp_left hm.first
  · obtain ⟨hw, -, -, -, -, hreads, hsends, -⟩ := hm.frame
    refine h.of_quiet hs hv hw hreads hsends hset (fun hp => ?_) (fun {x} hl => ?_)
    · exact (hm.partner_cases hs hp).imp_right fun hn =>
        ⟨fun hx => hn.1 hx.1, fun hy => hn.2 hy.1⟩
    · rcases hl with hf | hl
      · exact (hm.first_cases hs hf).1.imp_left .inl
      · rw [hm.load_eq] at hl
        split_ifs at hl with hp
        · rcases posts_eq_some hp with ⟨d, -, hpc, hx, -⟩ | ⟨w, j, -, ha, -⟩ | ⟨w, j, ha, -⟩
          · exact .inl (.inl (.of_side hpc hx))
          · cases ha
          · cases ha
        · exact .inl (.inr hl)
  · exact hm.forwarded h hs hv ht hz h₁
  · obtain ⟨hacc, -, -, -, -, -, hw, -, -, -, hreads, hsends, -⟩ := hm.frame
    refine h.of_quiet hs hv hw hreads hsends hset (fun hp => .inl ?_) (fun {x} hl => .inl ?_)
    · exact hm.sameLinks.partner_iff.mp hp
    · rwa [hm.load_eq, First, hacc, ← First] at hl

/-! ### All of it -/

/-- What keeps the relay in order. -/
structure Orderly (s : State n) : Prop where
  sound : s.Sound
  served : s.Served
  typed : s.Typed
  sized : s.Sized
  single : s.Single
  forwarded : s.Forwarded

theorem orderly_initial : (initial n).Orderly := by
  have hload : ∀ x, (initial n).load x = 0 := fun x =>
    served_initial.load_eq_zero fun hx => by simp [Settled, initial] at hx
  exact {
    sound := sound_initial
    served := served_initial
    typed := ⟨fun _ => rfl, fun _ => .inl rfl, by simp [initial]⟩
    sized := ⟨by simp [initial], by simp [initial]⟩
    single := ⟨fun x => (hload x).le.trans zero_le_one, fun x _ => hload x⟩
    forwarded := by constructor <;> simp [initial, Worker.carries] }

/-- Every step keeps the relay in order when the completion keys are right and no type of a send
record is looked at while it is cleared. -/
theorem Orderly.step {a : Action n} (h : s.Orderly) (hk : IdealKeys s a) (ht : TypeSafe s a)
    (hm : Move s a s') : s'.Orderly where
  sound := h.sound.step hm
  served := h.served.step h.sound hk hm
  typed := h.typed.step ht hm
  sized := h.sized.step hm
  single := h.single.step h.sound h.served h.typed hm
  forwarded := h.forwarded.step h.sound h.served h.typed h.sized h.single hm

/-- A worker in `Send` carries a read of the partner. -/
theorem Orderly.carries_of_send (h : s.Orderly) {w : Fin n} {j : Job} {b : CtxId}
    (hw : s.worker w = .busy j (.send b) ∨ s.worker w = .busy j (.fill b)) :
    (s.worker w).carries j.ctx = some j ∧ s.Partner j.ctx b := by
  refine ⟨?_, h.served.targets w j b hw⟩
  have carries : ∀ {st : Stage}, s.worker w = .busy j st → st.Forwarding → st.Carrying →
      (s.worker w).carries j.ctx = some j := by
    intro st hst hf hc
    obtain ⟨hk, hg⟩ := h.typed.stage w j st hst hf
    rw [hst]
    exact if_pos ⟨(h.served.jobs w j st hst).1, hk, hg, hc⟩
  rcases hw with hw | hw
  · exact carries hw trivial trivial
  · exact carries hw trivial trivial

/-- A worker before `Recv` handles a read. -/
theorem Orderly.reading_of_recv (h : s.Orderly) {w : Fin n} {j : Job}
    (hw : s.worker w = .busy j .recv) : (s.worker w).Reading j.ctx := by
  rw [hw]
  exact ⟨(h.served.jobs w j _ hw).1, (h.typed.stage w j _ hw trivial).1, (by simp), (by simp)⟩

/-- Only the worker that carries a read of `x` is in `Send` on its partner. -/
theorem Orderly.sender_unique (h : s.Orderly) {x y : CtxId} (hp : s.Partner x y) {w w' : Fin n}
    {j j' : Job} (hj : (s.worker w).carries x = some j)
    (hw : s.worker w' = .busy j' (.send y) ∨ s.worker w' = .busy j' (.fill y)) :
    w' = w ∧ j'.ctx = x := by
  obtain ⟨hc, hp'⟩ := h.carries_of_send hw
  have hx : j'.ctx = x := h.sound.paired.partner_unique (h.sound.paired.partner_symm hp')
    (h.sound.paired.partner_symm hp)
  exact ⟨h.single.reading_unique (hx ▸ Worker.reading_of_carries hc)
    (Worker.reading_of_carries hj), hx⟩

/-! ### A chunk is safe until it is forwarded -/

/-- A read completion of `x` brought bytes that are not yet forwarded. -/
def Unforwarded (s : State n) (x : CtxId) : Prop :=
  (∃ o ∈ s.ops, o.ctx = x ∧ o.kind = .recv ∧ ∃ bytes, o.status = .done true bytes ∧ 0 < bytes) ∨
    ∃ w j, (s.worker w).carries x = some j

theorem Unforwarded.load_pos {x : CtxId} (hu : s.Unforwarded x) : 0 < s.load x := by
  rcases hu with ⟨o, ho, rfl, hk, -⟩ | ⟨w, j, hj⟩
  · exact Nat.add_pos_left (hk ▸ outstanding_pos ho) _
  · exact load_pos_of_reading (Worker.reading_of_carries hj)

/-- While a chunk waits to be forwarded, nobody is about to call `Recv` on its context. -/
theorem Orderly.not_recv (h : s.Orderly) {x : CtxId} (hu : s.Unforwarded x) :
    ¬ s.First x ∧ ∀ w j, s.worker w = .busy j .recv → j.ctx ≠ x := by
  refine ⟨fun hf => ?_, fun w j hw hx => ?_⟩
  · exact absurd (h.single.first x hf) hu.load_pos.ne'
  · have hread : (s.worker w).Reading x := by
      rw [hw]
      exact ⟨(h.served.jobs w j _ hw).1.trans hx, (h.typed.stage w j _ hw trivial).1, (by simp),
        (by simp)⟩
    rcases hu with ⟨o, ho, hc, hk, -⟩ | ⟨w', j', hj⟩
    · have hpos : 0 < s.outstanding .recv x := outstanding_pos_iff.mpr ⟨o, ho, hc, hk⟩
      exact h.single.not_reading hpos w hread
    · obtain rfl := h.single.reading_unique hread (Worker.reading_of_carries hj)
      simp [hw, Worker.carries, Stage.Carrying] at hj

/-- While a chunk waits to be forwarded, no receive is pending on its context. -/
theorem Orderly.not_pending (h : s.Orderly) {x : CtxId} (hu : s.Unforwarded x) {o : Op}
    (ho : o ∈ s.ops) (hc : o.ctx = x) (hk : o.kind = .recv) : o.status ≠ .pending := by
  intro hst
  have hpos : 0 < s.outstanding .recv x := outstanding_pos_iff.mpr ⟨o, ho, hc, hk⟩
  rcases hu with ⟨o', ho', hc', hk', bytes, hst', -⟩ | ⟨w, j, hj⟩
  · have hle : s.outstanding o.kind o.ctx ≤ 1 := by
      rw [hk, hc]
      exact (Nat.le_add_right _ _).trans (h.single.load_le x)
    have heq := eq_of_outstanding_le_one hle ho ho' (hc'.trans hc.symm) (hk'.trans hk.symm)
    rw [heq, hst] at hst'
    cases hst'
  · exact h.single.not_reading hpos w (Worker.reading_of_carries hj)

/-- No step touches the bytes of a chunk before it is forwarded, or posts a receive over them. -/
theorem Orderly.unforwarded_step {a : Action n} (h : s.Orderly) (hm : Move s a s') {x : CtxId}
    (hu : s.Unforwarded x) :
    (s'.ctx x).ioRecv = (s.ctx x).ioRecv ∧ s'.outstanding .recv x ≤ s.outstanding .recv x := by
  obtain ⟨hfirst, hrecv⟩ := h.not_recv hu
  have hposts : s.posts a ≠ some (.recv, x) := fun hp => by
    rcases posts_eq_some hp with ⟨d, -, hpc, hx, -⟩ | ⟨w, j, -, -, -, hk, -⟩ | ⟨w, j, -, hw, rfl, -⟩
    · exact hfirst (.of_side hpc hx)
    · cases hk
    · exact hrecv w j hw rfl
  have hnext : x ≠ s.next := by
    have hset : s.Settled x := by
      by_contra hx
      exact hu.load_pos.ne' (h.served.load_eq_zero hx)
    exact (h.sound.added_lt x hset.1).ne
  rcases hm with hm | hm | hm | hm
  · rw [hm.frame.1, hm.outstanding]
    exact ⟨rfl, le_rfl⟩
  · rw [hm.outstanding, if_neg hposts]
    refine ⟨?_, le_rfl⟩
    rcases (hm.records_eq x).2 with e | ⟨hx, -⟩ | ⟨d, hpc, hx, -⟩
    · exact e
    · exact absurd hx hnext
    · exact absurd (.of_side hpc hx) hfirst
  · have hout := hm.outstanding .recv x
    rw [if_neg hposts] at hout
    refine ⟨?_, hout⟩
    rcases hm.ioRecv_eq x with e | ⟨j, hw, hx, -⟩
    · exact e
    · exact absurd hx (hrecv _ j hw)
  · rw [hm.outstanding]
    refine ⟨?_, le_rfl⟩
    rcases (hm.records_eq x).2 with e | ⟨o, bs, -, ho, hx, hk, hst, -⟩
    · exact e
    · exact absurd hst (h.not_pending hu ho hx hk)

end State

/-! ### `Send` as one step -/

/-- The worker is between the two halves of `Send`. -/
def Worker.Filling : Worker → Prop
  | .busy _ (.fill _) => True
  | _ => False

instance : DecidablePred Worker.Filling
  | .busy _ (.fill _) => instDecidableTrue
  | .busy _ .dispatch | .busy _ .forward | .busy _ .forwardSend | .busy _ (.send _)
  | .busy _ .recv | .busy _ .failed | .busy _ .finish | .waiting | .exited =>
    instDecidableFalse

/-- While a worker is between the two halves of `Send`, only this worker acts. -/
def AtomicSend (s : State n) (a : Action n) : Prop :=
  ∀ w, (s.worker w).Filling → match a with
    | .worker w' _ => w' = w
    | _ => False

instance (s : State n) : DecidablePred (AtomicSend s)
  | .worker w' _ => inferInstanceAs (Decidable (∀ w, (s.worker w).Filling → w' = w))
  | .main _ | .accept _ | .net _ =>
    inferInstanceAs (Decidable (∀ w, (s.worker w).Filling → False))

theorem AtomicSend.typeSafe {a : Action n} (h : AtomicSend s a) : TypeSafe s a := by
  rintro w o j rfl hw - w' j' hw'
  obtain rfl : w = w' := h w' (by rw [hw']; trivial)
  rw [hw] at hw'
  cases hw'

/-- The completion keys are right, and `Send` is one step. -/
def KeyedAtomic (s : State n) (a : Action n) : Prop := IdealKeys s a ∧ AtomicSend s a

instance (s : State n) (a : Action n) : Decidable (KeyedAtomic s a) :=
  inferInstanceAs (Decidable (_ ∧ _))

theorem State.orderly_of_reachable (hs : (proxy n).Reachable KeyedAtomic s) : s.Orderly :=
  hs.invariant orderly_initial fun _ _ _ h hG hstep =>
    h.step hG.1 hG.2.typeSafe (step_move hstep).2.2

/-- A context has one receive outstanding or one worker handling a read of it, the sends on a
context are the reads of its partner one by one with their byte counts, and a chunk is left alone
until it is forwarded. -/
theorem ordered_forwarding (hs : (proxy n).Reachable KeyedAtomic s) :
    (∀ x, s.outstanding .recv x + s.workers (Worker.Reading x) ≤ 1) ∧
    (∀ y i (r : SendRecord), (s.sends y)[i]? = some r →
      s.Partner r.src y ∧ r.seq = i ∧ (s.reads r.src)[i]? = some r.len) ∧
    ∀ x a s', (proxy n).step s a = some s' → s.Unforwarded x →
      (s'.ctx x).ioRecv = (s.ctx x).ioRecv ∧
        s'.outstanding .recv x ≤ s.outstanding .recv x := by
  have h := orderly_of_reachable hs
  refine ⟨h.single.load_le, fun y i r hr => ?_, fun x a s' hstep hu => ?_⟩
  · have hset : s.Settled y := by
      by_contra hy
      simp [(h.forwarded.start y hy).2] at hr
    obtain ⟨-, x, hp, -⟩ := hset
    have hp' := h.sound.paired.partner_symm hp
    obtain ⟨rfl, hseq, hlen⟩ := h.forwarded.sent x y hp' i r hr
    exact ⟨hp', hseq, hlen⟩
  · exact h.unforwarded_step (step_move hstep).2.2 hu

/-- The bytes `bs` arrive on `x`, and the worker `w` forwards them. -/
def relay (w : Fin 2) (x : CtxId) (bs : List UInt8) : List (Action 2) :=
  [.net (.receive (.posted x .recv 2048) bs),
    .worker w (.dequeue { Op.posted x .recv 2048 with status := .done true bs.length } x)] ++
    List.replicate 7 (.worker w .ok)

set_option maxRecDepth 10000 in
/-- Two workers forward two chunks of the client, and a third chunk arrives. -/
theorem ordered_forwarding_run :
    ∃ s : State 2, s.sends 1 = [⟨0, 0, 2⟩, ⟨0, 1, 1⟩] ∧
      (∀ i (r : SendRecord), (s.sends 1)[i]? = some r →
        s.Partner r.src 1 ∧ r.seq = i ∧ (s.reads r.src)[i]? = some r.len) ∧
      s.outstanding .recv 0 = 1 ∧ s.outstanding .recv 0 + s.workers (Worker.Reading 0) ≤ 1 := by
  obtain ⟨s, hs, hsends, hout⟩ : ∃ s : State 2, (proxy 2).Reachable KeyedAtomic s ∧
      s.sends 1 = [⟨0, 0, 2⟩, ⟨0, 1, 1⟩] ∧ s.outstanding .recv 0 = 1 :=
    TransitionSystem.exists_reachable_of_runChecked (startUp ++ connection 11 12 ++
      relay 0 0 [65, 66] ++ relay 1 0 [67] ++ [.net (.receive (.posted 0 .recv 2048) [68])])
      (by decide +kernel)
  obtain ⟨hsingle, hsent, -⟩ := ordered_forwarding hs
  exact ⟨s, hsends, hsent 1, hout, hsingle 0⟩

end IocpProxy
