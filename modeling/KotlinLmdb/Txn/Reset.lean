import KotlinLmdb.Txn.Lifecycle

/-!
# Resetting and renewing

A transaction is to be parked by `reset` and taken up again by `renew`, any number of
times (`Txn.ResetContract`). The code has the states crossed: `reset` throws for a
ready transaction, and calls LMDB for a closed one, whose handle is freed; and when
`renew` fails the state is `Done`, so that `close` does not release the handle. The
runs as they are to be are those with neither (`Txn.resetContract_iff`).
-/

namespace KotlinLmdb

namespace Txn

variable {N : Type} (lib : Library N) (p : Platform)

/-- What `reset` and `renew` are to do in the state before a step. -/
structure ResetContract (s : Txn × N) (op : Lifecycle) : Prop where
  /-- A ready transaction is reset. -/
  reset_ready : op = .reset → s.1.state = .ready →
    ((lifecycle lib p).out s op).outcome = .ok () ∧ ((lifecycle lib p).next s op).1.state = .reset
  /-- A committed, aborted or closed one is not, and LMDB not called. -/
  reset_ended : op = .reset → s.1.state = .done ∨ s.1.state = .released →
    (∃ message, ((lifecycle lib p).out s op).outcome = .error (.lmdbException message)) ∧
      ((lifecycle lib p).out s op).calls = []
  /-- A reset transaction that LMDB renews is ready. -/
  renew_ok : op = .renew → s.1.state = .reset → (lib.reply (.mdbTxnRenew s.1.ptr) s.2).rc = 0 →
    ((lifecycle lib p).out s op).outcome = .ok () ∧
      ((lifecycle lib p).out s op).calls.map Prod.fst = [.mdbTxnRenew s.1.ptr] ∧
      ((lifecycle lib p).next s op).1.state = .ready
  /-- One that LMDB does not renew is released by `close`. -/
  renew_fails : op = .renew → s.1.state = .reset →
    (lib.reply (.mdbTxnRenew s.1.ptr) s.2).rc ≠ 0 →
    (∃ message, ((lifecycle lib p).out s op).outcome = .error (.lmdbException message)) ∧
      .mdbTxnAbort s.1.ptr ∈
        ((lifecycle lib p).out ((lifecycle lib p).next s op) .close).calls.map Prod.fst

/-- `reset` is called neither on a ready transaction nor on a closed one, and LMDB does not
    fail to renew. -/
def ResetAllowed (s : Txn × N) : Lifecycle → Prop
  | .reset => s.1.state ≠ .ready ∧ s.1.state ≠ .released
  | .renew => s.1.state = .reset → (lib.reply (.mdbTxnRenew s.1.ptr) s.2).rc = 0
  | _ => True

variable {lib p} {t : Txn} {n : N}

/-- `reset` does as it is to do if the transaction has been ended, but not by `close`. -/
theorem resetContract_reset :
    ResetContract lib p (t, n) .reset ↔ ResetAllowed lib (t, n) .reset := by
  constructor
  · intro h
    refine ⟨fun ht => ?_, fun ht => ?_⟩
    · have hout := (h.reset_ready rfl ht).1
      simp [out_lifecycle, Lifecycle.call, Lifecycle.result, show t.state = .ready from ht] at hout
    · have hcalls := (h.reset_ended rfl (.inr ht)).2
      simp [out_lifecycle, Lifecycle.call, show t.state = .released from ht] at hcalls
  · rintro ⟨hready, hreleased⟩
    refine ⟨fun _ ht => absurd ht hready, fun _ ht => ?_, by simp, by simp⟩
    have hdone : t.state = .done := ht.resolve_right hreleased
    simp [out_lifecycle, Lifecycle.call, Lifecycle.result, hdone]

/-- `renew` does as it is to do unless LMDB fails: the state is `Done` then, and `close`
    has nothing to abort. -/
theorem resetContract_renew :
    ResetContract lib p (t, n) .renew ↔ ResetAllowed lib (t, n) .renew := by
  constructor
  · intro h ht
    by_contra hrc
    have hclose := (h.renew_fails rfl ht hrc).2
    have hreset : t.state = .reset := ht
    simp [out_lifecycle, next_lifecycle, Lifecycle.call, Lifecycle.after, hreset, hrc] at hclose
  · intro h
    refine ⟨by simp, by simp, fun _ ht hrc => ?_, fun _ ht hrc => absurd (h ht) hrc⟩
    have hreset : t.state = .reset := ht
    simp [out_lifecycle, next_lifecycle, Lifecycle.call, Lifecycle.after, Lifecycle.result, hreset,
      show (lib.reply (.mdbTxnRenew t.ptr) n).rc = 0 from hrc]

/-- In whatever way the operations of a transaction are called, `reset` and `renew` do as
    they are to do exactly if they are called as allowed. -/
theorem resetContract_iff (lib : Library N) (p : Platform) (s : Txn × N) (ops : List Lifecycle) :
    (lifecycle lib p).Along (ResetContract lib p) s ops ↔
      (lifecycle lib p).Along (ResetAllowed lib) s ops := by
  refine Machine.along_iff_of_inv (I := fun _ => True) (fun s op _ => ?_) (fun _ _ _ _ => trivial)
    ops trivial
  cases op with
  | reset => exact resetContract_reset
  | renew => exact resetContract_renew
  | commit | abort | close => exact iff_of_true ⟨nofun, nofun, nofun, nofun⟩ trivial

/-- Resetting a read-only transaction just begun throws, on both platforms. -/
theorem not_resetContract_begin :
    let e : Env := { ptr := 1, mapSize := 0, isOpened := true }
    let r := (Env.beginTxn (.granting { ptr := 7 }) [.readOnly]).observe e ()
    r.1.outcome = .ok { ptr := 7 } ∧
      ¬(lifecycle (.granting { ptr := 7 }) .jvm).Along (ResetContract (.granting { ptr := 7 }) .jvm)
        ({ ptr := 7 }, r.2.2) [.reset] ∧
      ¬(lifecycle (.granting { ptr := 7 }) .native).Along
        (ResetContract (.granting { ptr := 7 }) .native) ({ ptr := 7 }, r.2.2) [.reset] := by
  refine ⟨rfl, fun h => ?_, fun h => ?_⟩
  all_goals
    have hout := (h.1.reset_ready rfl rfl).1
    cases hout

end Txn

end KotlinLmdb
