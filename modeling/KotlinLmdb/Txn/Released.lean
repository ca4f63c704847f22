import KotlinLmdb.Lmdb.Handles
import KotlinLmdb.Txn.Lifecycle

/-!
# Releasing a transaction

A top-level transaction that is not ready holds nothing of LMDB's: its handle has
been passed to `mdb_txn_commit` or `mdb_txn_abort`, whatever operations were called
and whatever LMDB answered. `commit`, `abort` and `close` are the only operations to
make a ready transaction anything else, and each of them passes the handle
(`Txn.passed_of_over`).

Over LMDB with its handles, that is the end of the native transaction: it holds
neither the write lock nor a slot in the reader table, and does not get them back
(`Txn.ended_of_over`).
-/

namespace KotlinLmdb

namespace Txn

variable {N : Type} {lib : Library N} {p : Platform} {t : Txn} {n : N} {ops : List Lifecycle}

/-- The handle was passed to `mdb_txn_commit` or `mdb_txn_abort`. -/
def Passed (ptr : Ptr) (calls : List Call) : Prop := ∃ c ∈ calls, Ends ptr c

/-- The transaction is over after these operations: not ready, or closed at some time. -/
def Over (t : Txn) (ops : List Lifecycle) : Prop := t.state ≠ .ready ∨ .close ∈ ops

/-! ## The first operation to end it -/

/-- What an operation comes to in a ready transaction: it passes the handle, or does
    nothing. -/
theorem call_ready (ht : t.state = .ready) (hc : ¬t.isClosed) (op : Lifecycle) :
    (∃ c, op.call p t = some c ∧ Ends t.ptr c) ∨
      op ≠ .close ∧ op.call p t = none ∧ op.after p t 0 = t := by
  cases op
  case commit => exact .inl ⟨_, if_pos ht, .inl rfl⟩
  case abort => exact .inl ⟨_, if_pos ht, .inr rfl⟩
  case close => exact .inl ⟨_, if_pos ⟨ht, fun h => hc h.2⟩, .inr rfl⟩
  case reset | renew =>
    exact .inr ⟨by simp, by simp [Lifecycle.call, ht], by simp [Lifecycle.after, ht]⟩

/-- A ready transaction that gets over is passed on the way. -/
theorem passed_ready (ht : t.state = .ready) (hc : ¬t.isClosed)
    (h : Over ((lifecycle lib p).run (t, n) ops).1 ops) :
    Passed t.ptr (callsOf lib p (t, n) ops) := by
  induction ops with
  | nil => exact absurd ht (h.resolve_right List.not_mem_nil)
  | cons op ops ih =>
    rw [callsOf_cons]
    rcases call_ready (p := p) ht hc op with ⟨c, hcall, hends⟩ | ⟨hop, hcall, hafter⟩
    · rw [hcall]
      exact ⟨c, List.mem_cons_self, hends⟩
    · -- nothing has happened yet
      have hnext : (lifecycle lib p).next (t, n) op = (t, n) := by
        simp only [lifecycle, Machine.next, Eff.observe, op.exec_perform lib p t ⟨n, []⟩, hcall,
          hafter]
      rw [Machine.run_cons, hnext] at h
      rw [hcall, hafter]
      refine ih (h.imp_right fun hmem => ?_)
      exact (List.mem_cons.1 hmem).resolve_left hop.symm

/-! ## Over LMDB with its handles -/

/-- The operations only call for what may be done with a transaction that has ended. -/
theorem concludes_of_call {op : Lifecycle} {c : Call} (hc : op.call p t = some c) :
    Handles.Concludes t.ptr c := by
  cases op <;> obtain ⟨-, ⟨⟩⟩ := Option.ite_none_right_eq_some.1 hc
  case commit => exact .inl (.inl rfl)
  case abort | close => exact .inl (.inr rfl)
  case reset => exact .inr (.inl rfl)
  case renew => exact .inr (.inr rfl)

/-- The native transaction has ended. -/
def Ended (s : Txn × Handles) : Prop := (s.2.status s.1.ptr).ended

/-- Once it has, it stays so. -/
theorem Ended.next {s : Txn × Handles} (hs : Ended s) (op : Lifecycle) :
    Ended ((lifecycle Handles.library p).next s op) := by
  obtain ⟨t, n⟩ := s
  rw [next_lifecycle]
  cases hcall : op.call p t with
  | none => simpa only [Ended, Lifecycle.ptr_after] using hs
  | some c =>
    have hsame := Handles.sameTxns_concludes hs (concludes_of_call hcall)
    simp only [Ended, Lifecycle.ptr_after, Handles.next_library, hsame.status]
    exact hs

/-- A ready transaction that gets over has ended. -/
theorem ended_ready {n : Handles} (hn : n.Sound) (ht : t.state = .ready) (hc : ¬t.isClosed)
    (h : Over ((lifecycle Handles.library p).run (t, n) ops).1 ops) :
    Ended ((lifecycle Handles.library p).run (t, n) ops) := by
  induction ops with
  | nil => exact absurd ht (h.resolve_right List.not_mem_nil)
  | cons op ops ih =>
    have hnext := @next_lifecycle _ Handles.library p t n op
    rcases call_ready (p := p) ht hc op with ⟨c, hcall, hends⟩ | ⟨hop, hcall, hafter⟩
    · -- this operation ends it
      have hended : Ended ((lifecycle Handles.library p).next (t, n) op) := by
        rw [hnext, hcall]
        simp only [Ended, Lifecycle.ptr_after, Handles.next_library]
        exact hn.ended_answer hends
      rw [Machine.run_cons]
      exact Machine.run_of_inv (Q := fun _ _ => True) (fun s op hs _ => hs.next op) hended
        (Machine.along_of_forall (fun _ _ => trivial) ops)
    · rw [hcall, hafter] at hnext
      rw [Machine.run_cons, hnext] at h ⊢
      refine ih (h.imp_right fun hmem => ?_)
      exact (List.mem_cons.1 hmem).resolve_left hop.symm

/-! ## From the beginning -/

/-- However a top-level transaction is used: when it is not ready, or was closed, its
    handle has been passed to `mdb_txn_commit` or `mdb_txn_abort`, and it holds neither the
    write lock nor a reader slot. -/
theorem released_of_over (p : Platform) (e : Env) (options : List TxnOption)
    (ops : List Lifecycle) :
    (∀ {N : Type} (lib : Library N) (n : N) (t : Txn),
      ((Env.beginTxn lib options).observe e n).1.outcome = .ok t →
      let s := (t, ((Env.beginTxn lib options).observe e n).2.2)
      Over ((lifecycle lib p).run s ops).1 ops → Passed t.ptr (callsOf lib p s ops)) ∧
    ∀ (results : ℕ → Reply) (calls : List Call) (t : Txn),
      let b := (Env.beginTxn Handles.library options).observe e (.after { results } calls)
      b.1.outcome = .ok t →
      Over ((lifecycle Handles.library p).run (t, b.2.2) ops).1 ops →
        Ended ((lifecycle Handles.library p).run (t, b.2.2) ops) := by
  constructor
  · intro N lib n t h s hover
    obtain ⟨ht, hc⟩ := ready_of_beginTxn h
    exact passed_ready ht hc hover
  · intro results calls t b h hover
    obtain ⟨ht, hc⟩ := ready_of_beginTxn h
    have hsound : b.2.2.Sound := by
      have hs := Handles.sound_after results calls
      simp only [b, Eff.observe, Env.exec_beginTxn]
      split
      · exact hs.answer _
      · exact hs
    exact ended_ready hsound ht hc hover

/-- A write transaction that LMDB fails to commit, and is closed. -/
theorem released_failed_commit :
    let e : Env := { ptr := 1, mapSize := 0, isOpened := true }
    let results : ℕ → Reply := fun i => { rc := if i = 0 then 0 else 5 }
    let b := (Env.beginTxn Handles.library []).observe e (.after { results } [])
    let s := (({ ptr := 0 } : Txn), b.2.2)
    Passed 0 (callsOf Handles.library .jvm s [.commit, .close]) ∧
      Ended ((lifecycle Handles.library .jvm).run s [.commit, .close]) := by
  intro e results b s
  have h : b.1.outcome = .ok { ptr := 0 } := rfl
  have hover :
      Over ((lifecycle Handles.library .jvm).run s [.commit, .close]).1 [.commit, .close] :=
    .inr (by decide)
  exact ⟨(released_of_over .jvm e [] _).1 Handles.library _ _ h hover,
    (released_of_over .jvm e [] _).2 results [] _ h hover⟩

end Txn

end KotlinLmdb
