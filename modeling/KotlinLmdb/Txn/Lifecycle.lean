import KotlinLmdb.Env
import KotlinLmdb.Machine

/-!
# The life cycle of one transaction

A top-level transaction and LMDB, under any sequence of the operations of its life
cycle (`Txn.lifecycle`), over any library: whatever LMDB answers.

The handle is to be ended once, and left alone afterwards (`Txn.EndedOnce`). It
is, but for `reset`: a closed transaction lets itself be reset, which calls LMDB on
the freed handle. So the handle is ended once exactly in the runs without a
`reset` after a `close` (`Txn.endedOnce_iff`).
-/

namespace KotlinLmdb

namespace Txn

variable {N : Type} (lib : Library N) (p : Platform)

/-- A transaction and LMDB, as a machine taking operations. -/
def lifecycle : Machine (Txn × N) Lifecycle (Seen Unit) where
  step s op := (op.perform lib p).observe s.1 s.2

/-- The calls made by a sequence of operations. -/
def callsOf (s : Txn × N) (ops : List Lifecycle) : List Call :=
  ((lifecycle lib p).trace s ops).flatMap fun seen => seen.calls.map Prod.fst

/-- The transaction is ended at most once, and not used after that. -/
structure EndedOnce (ptr : Ptr) (calls : List Call) : Prop where
  once : calls.countP (Ends ptr ·) ≤ 1
  unused : calls.Pairwise fun c c' => Ends ptr c → c'.txn ≠ some ptr

/-- `reset` does not come after `close`. -/
def NoResetAfterClose (ops : List Lifecycle) : Prop :=
  ops.Pairwise fun op op' => op = .close → op' ≠ .reset

instance (ops : List Lifecycle) : Decidable (NoResetAfterClose ops) :=
  inferInstanceAs (Decidable (List.Pairwise _ ops))

variable {lib p} {t : Txn} {n : N} {op : Lifecycle} {ops : List Lifecycle} {ptr : Ptr}

/-- The output of an operation. -/
theorem out_lifecycle (op : Lifecycle) :
    (lifecycle lib p).out (t, n) op = match op.call p t with
      | none => ⟨op.result lib t 0, []⟩
      | some c => ⟨op.result lib t (lib.reply c n).rc, [(c, lib.reply c n)]⟩ := by
  simp only [lifecycle, Machine.out, Eff.observe, op.exec_perform lib p t ⟨n, []⟩]
  cases op.call p t <;> rfl

/-- The state after an operation. -/
theorem next_lifecycle (op : Lifecycle) :
    (lifecycle lib p).next (t, n) op = match op.call p t with
      | none => (op.after p t 0, n)
      | some c => (op.after p t (lib.reply c n).rc, lib.next c n) := by
  simp only [lifecycle, Machine.next, Eff.observe, op.exec_perform lib p t ⟨n, []⟩]
  cases op.call p t <;> rfl

@[simp]
theorem callsOf_nil (s : Txn × N) : callsOf lib p s [] = [] := rfl

/-- The calls of a sequence, one operation at a time. -/
theorem callsOf_cons :
    callsOf lib p (t, n) (op :: ops) = match op.call p t with
      | none => callsOf lib p (op.after p t 0, n) ops
      | some c => c :: callsOf lib p (op.after p t (lib.reply c n).rc, lib.next c n) ops := by
  have h := op.exec_perform lib p t ⟨n, []⟩
  simp only [callsOf, Machine.trace_cons, Machine.out, Machine.next, lifecycle, Eff.observe,
    List.flatMap_cons]
  rw [h]
  cases op.call p t <;> rfl

/-! ## After the transaction has ended -/

/-- No call is made on the handle. -/
def Unused (ptr : Ptr) (calls : List Call) : Prop := ∀ c ∈ calls, c.txn ≠ some ptr

/-- A closed transaction is not used as long as it is not reset. -/
theorem unused_released (ht : t.state = .released) :
    Unused t.ptr (callsOf lib p (t, n) ops) ↔ .reset ∉ ops := by
  induction ops generalizing t n with
  | nil => simp [Unused]
  | cons op ops ih =>
    rw [callsOf_cons]
    cases op
    case reset => simp [Lifecycle.call, ht, Unused, Call.txn]
    case close =>
      have hc : Lifecycle.close.call p t = none := by simp [Lifecycle.call, ht]
      have ha : (Lifecycle.close.after p t 0).state = .released := by
        simp only [Lifecycle.after]
        split
        · exact ht
        · rfl
      rw [hc]
      simpa using ih ha
    all_goals simpa [Lifecycle.call, Lifecycle.after, ht] using ih ht

theorem noResetAfterClose_close : NoResetAfterClose (.close :: ops) ↔ .reset ∉ ops := by
  rw [NoResetAfterClose, List.pairwise_cons]
  constructor
  · intro h hr
    exact h.1 _ hr rfl rfl
  · intro h
    have hne : ∀ op ∈ ops, op ≠ Lifecycle.reset := fun op hop he => h (he ▸ hop)
    exact ⟨fun op hop _ => hne op hop,
      List.pairwise_of_forall_mem_list fun _ _ op' hop' _ => hne op' hop'⟩

theorem noResetAfterClose_cons (hop : op ≠ .close) :
    NoResetAfterClose (op :: ops) ↔ NoResetAfterClose ops := by
  simp [NoResetAfterClose, hop]

/-- A committed or aborted transaction is not used as long as it is not reset
    after it is closed. -/
theorem unused_done (ht : t.state = .done) (hc : ¬t.isClosed) :
    Unused t.ptr (callsOf lib p (t, n) ops) ↔ NoResetAfterClose ops := by
  induction ops generalizing t n with
  | nil => simp [Unused, NoResetAfterClose]
  | cons op ops ih =>
    rw [callsOf_cons]
    cases op
    case close =>
      have hn : Lifecycle.close.call p t = none := by simp [Lifecycle.call, ht]
      have ha : (Lifecycle.close.after p t 0).state = .released := by simp [Lifecycle.after, hc]
      rw [hn, noResetAfterClose_close]
      simpa using unused_released ha
    all_goals
      rw [noResetAfterClose_cons (by decide)]
      simpa [Lifecycle.call, Lifecycle.after, ht] using ih ht hc

/-! ## From the beginning -/

/-- When a call has ended the transaction, no other may follow. -/
theorem endedOnce_cons {c : Call} {calls : List Call} (hc : Ends ptr c) :
    EndedOnce ptr (c :: calls) ↔ Unused ptr calls := by
  constructor
  · intro h c' hc'
    exact List.rel_of_pairwise_cons h.unused hc' hc
  · intro h
    have hne : ∀ c' ∈ calls, ¬Ends ptr c' := by
      rintro c' hc' (rfl | rfl) <;> exact h _ hc' rfl
    refine ⟨?_, List.pairwise_cons.2 ⟨fun c' hc' _ => h c' hc', ?_⟩⟩
    · have hz : calls.countP (Ends ptr ·) = 0 :=
        List.countP_eq_zero.2 fun c' hc' => by simpa using hne c' hc'
      rw [List.countP_cons, hz]
      split <;> decide
    · exact List.pairwise_of_forall_mem_list fun _ _ c' hc' _ => h c' hc'

/-- A ready transaction is ended once unless it is closed, and reset later. -/
theorem endedOnce_ready (ht : t.state = .ready) (hc : ¬t.isClosed) :
    EndedOnce t.ptr (callsOf lib p (t, n) ops) ↔ NoResetAfterClose ops := by
  induction ops generalizing t n with
  | nil =>
    simp only [callsOf_nil, NoResetAfterClose, List.Pairwise.nil, iff_true]
    exact ⟨Nat.zero_le _, .nil⟩
  | cons op ops ih =>
    rw [callsOf_cons]
    cases op
    case commit =>
      rw [noResetAfterClose_cons (by decide)]
      simp only [Lifecycle.call, ht, if_true]
      rw [endedOnce_cons (.inl rfl)]
      simpa [Lifecycle.after, ht] using unused_done (t := { t with state := .done }) rfl hc
    case abort =>
      rw [noResetAfterClose_cons (by decide)]
      simp only [Lifecycle.call, ht, if_true]
      rw [endedOnce_cons (.inr rfl)]
      simpa [Lifecycle.after, ht] using unused_done (t := { t with state := .done }) rfl hc
    case close =>
      have ha : ∀ rc, (Lifecycle.close.after p t rc).state = .released := by
        simp [Lifecycle.after, hc]
      have hcall : Lifecycle.close.call p t = some (.mdbTxnAbort t.ptr) := by
        simp [Lifecycle.call, ht, hc]
      rw [hcall, noResetAfterClose_close, endedOnce_cons (.inr rfl)]
      simpa using unused_released (ha _)
    case reset | renew =>
      rw [noResetAfterClose_cons (by decide)]
      simpa [Lifecycle.call, Lifecycle.after, ht] using ih ht hc

/-- A transaction as it is begun. -/
theorem ready_of_beginTxn {e : Env} {options : List TxnOption}
    (h : ((Env.beginTxn lib options).observe e n).1.outcome = .ok t) :
    t.state = .ready ∧ ¬t.isClosed := by
  simp only [Eff.observe, Env.exec_beginTxn] at h
  split at h
  · obtain ⟨-, rfl⟩ := (beginResult_eq_ok lib).1 h
    exact ⟨rfl, by simp⟩
  · cases h

/-- The handle of a top-level transaction is ended once, in whatever way its
    operations are called, exactly if `reset` does not come after `close`. -/
theorem endedOnce_iff {e : Env} {options : List TxnOption}
    (h : ((Env.beginTxn lib options).observe e n).1.outcome = .ok t) (ops : List Lifecycle) :
    EndedOnce t.ptr (callsOf lib p (t, ((Env.beginTxn lib options).observe e n).2.2) ops) ↔
      NoResetAfterClose ops := by
  obtain ⟨ht, hc⟩ := ready_of_beginTxn h
  exact endedOnce_ready ht hc

/-- A transaction that is begun, aborted and closed. -/
theorem endedOnce_abort_close :
    EndedOnce 7 (callsOf (.granting { ptr := 7 }) .jvm ({ ptr := 7 }, ()) [.abort, .close]) := by
  let e : Env := { ptr := 1, mapSize := 0, isOpened := true }
  have h : ((Env.beginTxn (.granting { ptr := 7 }) []).observe e ()).1.outcome =
    .ok { ptr := 7 } := rfl
  exact (endedOnce_iff h [.abort, .close]).2 (by decide)

/-- Closing a transaction and resetting it calls LMDB on the handle after it was
    ended, on both platforms. -/
theorem not_endedOnce_close_reset :
    ¬EndedOnce 7 (callsOf (.granting { ptr := 7 }) .jvm ({ ptr := 7 }, ()) [.close, .reset]) ∧
      ¬EndedOnce 7 (callsOf (.granting { ptr := 7 }) .native ({ ptr := 7 }, ()) [.close, .reset]) :=
  ⟨fun h => absurd h.unused (by decide), fun h => absurd h.unused (by decide)⟩

end Txn

end KotlinLmdb
