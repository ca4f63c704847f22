import KotlinLmdb.Cursor
import KotlinLmdb.Dbi

/-!
# Transactions

The methods of `Txn`. The two implementations differ in the order of the steps of
`abort`, and in a second flag which `close` sets and tests on native.

Only `id`, `commit` and `abort` test that the transaction is ready. The life
cycle (`Txn.Lifecycle`) is a machine on the states of a `Txn`, given by one lemma
an operation; the methods on the contents make one call on the handle each,
whatever the state (`Txn.Access.exec_perform`).
-/

namespace KotlinLmdb

open Eff

namespace Txn

variable {N σ : Type} (lib : Library N) (p : Platform)

def checkReady : Kt N Txn Unit := do
  if (← self).state ≠ .ready then
    throw (.lmdbException "Transaction is in an invalid state to perform operation")

def id : Kt N Txn UInt64 := do
  checkReady
  return (← call lib (.mdbTxnId (← self).ptr)).num

/-- The constructor. -/
def init (env : Env) (parent : Option Txn) (options : List TxnOption) : Kt N σ Txn := do
  if ¬env.isOpened then
    throw (.lmdbException "Env is not open")
  let parentTx := parent.map (·.ptr)
  let txnPtr ← call lib (.mdbTxnBegin env.ptr parentTx (TxnOption.toFlags options))
  let _ ← check lib txnPtr.rc
  return { ptr := txnPtr.ptr, parentTx := parentTx, state := .ready }

/-- Beginning a nested transaction. The options are not passed on. -/
def begin (env : Env) (_options : List TxnOption) : Kt N Txn Txn := do
  init lib env (some (← self)) []

def abort : Kt N Txn Unit := do
  checkReady
  match p with
  | .jvm =>
    let _ ← call lib (.mdbTxnAbort (← self).ptr)
    assign fun t => { t with state := .done }
  | .native =>
    assign fun t => { t with state := .done }
    let _ ← call lib (.mdbTxnAbort (← self).ptr)

def reset : Kt N Txn Unit := do
  match (← self).state with
  | .ready | .done =>
    throw (.lmdbException "Transaction is in an invalid state for reset.")
  | .reset | .released => assign fun t => { t with state := .reset }
  let _ ← call lib (.mdbTxnReset (← self).ptr)

def renew : Kt N Txn Unit := do
  if (← self).state ≠ .reset then
    throw (.lmdbException
      "Transaction is in an invalid state for renew, must be reset.")
  assign fun t => { t with state := .done }
  let result ← call lib (.mdbTxnRenew (← self).ptr)
  let _ ← check lib result.rc
  assign fun t => { t with state := .ready }

def commit : Kt N Txn Unit := do
  checkReady
  assign fun t => { t with state := .done }
  let result ← call lib (.mdbTxnCommit (← self).ptr)
  let _ ← check lib result.rc

def dbiOpen (name : Option DbName) (options : List DbiOption) : Kt N Txn Dbi := do
  Dbi.init lib name (← self) options

def get (dbi : Dbi) (key : Val) : Kt N Txn (Int × Val × Val) := do
  let result ← call lib (.mdbGet (← self).ptr dbi.ptr key)
  buildReadResult lib result.rc result.key result.data

def put (dbi : Dbi) (key data : Val) (options : List PutOption) : Kt N Txn Unit := do
  let result ← call lib (.mdbPut (← self).ptr dbi.ptr key data (PutOption.toFlags options))
  let _ ← check lib result.rc

def openCursor (dbi : Dbi) : Kt N Txn Cursor := do
  Cursor.init lib (← self) dbi

def close : Kt N Txn Unit := do
  match p with
  | .jvm =>
    if (← self).state = .released then
      return
    if (← self).state = .ready then
      let _ ← call lib (.mdbTxnAbort (← self).ptr)
    assign fun t => { t with state := .released }
  | .native =>
    if (← self).isClosed then
      return
    assign fun t => { t with isClosed := true }
    if (← self).state = .released then
      return
    if (← self).state = .ready then
      let _ ← call lib (.mdbTxnAbort (← self).ptr)
    assign fun t => { t with state := .released }

def drop (dbi : Dbi) : Kt N Txn Unit := do
  let result ← call lib (.mdbDrop (← self).ptr dbi.ptr true)
  let _ ← check lib result.rc

def empty (dbi : Dbi) : Kt N Txn Unit := do
  let result ← call lib (.mdbDrop (← self).ptr dbi.ptr false)
  let _ ← check lib result.rc

def delete (dbi : Dbi) (key : Val) : Kt N Txn Unit := do
  let result ← call lib (.mdbDel (← self).ptr dbi.ptr key none)
  let _ ← check lib result.rc

/-- `delete` of a key and a data item. -/
def deleteData (dbi : Dbi) (key data : Val) : Kt N Txn Unit := do
  let result ← call lib (.mdbDel (← self).ptr dbi.ptr key (some data))
  let _ ← check lib result.rc

/-! ## The life cycle -/

/-- The operations of the life cycle. -/
inductive Lifecycle
  | commit
  | abort
  | reset
  | renew
  | close
  deriving DecidableEq

/-- Calling an operation. -/
def Lifecycle.perform : Lifecycle → Kt N Txn Unit
  | commit => Txn.commit lib
  | abort => Txn.abort lib p
  | reset => Txn.reset lib
  | renew => Txn.renew lib
  | close => Txn.close lib p

variable (t : Txn) (s : Session Call Reply N)

theorem exec_checkReady :
    (checkReady : Kt N Txn Unit).exec (t, s) =
      (if t.state = .ready then .ok ()
        else .error (.lmdbException "Transaction is in an invalid state to perform operation"),
        (t, s)) := by
  by_cases h : t.state = .ready <;> simp [checkReady, h]

theorem exec_id :
    (id lib).exec (t, s) =
      if t.state = .ready then
        (.ok (lib.reply (.mdbTxnId t.ptr) s.native).num,
          (t, s.after lib.toHandler (.mdbTxnId t.ptr)))
      else
        (.error (.lmdbException "Transaction is in an invalid state to perform operation"),
          (t, s)) := by
  by_cases h : t.state = .ready <;> simp [id, exec_checkReady, h]

/-- `commit` is done whatever LMDB answers. -/
theorem exec_commit :
    (commit lib).exec (t, s) =
      if t.state = .ready then
        (if (lib.reply (.mdbTxnCommit t.ptr) s.native).rc = 0 then .ok ()
          else .error (getException lib (lib.reply (.mdbTxnCommit t.ptr) s.native).rc),
          ({ t with state := .done }, s.after lib.toHandler (.mdbTxnCommit t.ptr)))
      else ((checkReady : Kt N Txn Unit).exec (t, s)) := by
  by_cases h : t.state = .ready <;> simp [commit, exec_checkReady, h]

/-- The order of the steps of `abort` does not show. -/
theorem exec_abort :
    (abort lib p).exec (t, s) =
      if t.state = .ready then
        (.ok (), ({ t with state := .done }, s.after lib.toHandler (.mdbTxnAbort t.ptr)))
      else ((checkReady : Kt N Txn Unit).exec (t, s)) := by
  by_cases h : t.state = .ready
  · cases p <;> simp [abort, exec_checkReady, h]
  · simp [abort, exec_checkReady, h]

/-- `reset` is for a closed transaction, or one reset before. -/
theorem exec_reset :
    (reset lib).exec (t, s) =
      if t.state = .reset ∨ t.state = .released then
        (.ok (), ({ t with state := .reset }, s.after lib.toHandler (.mdbTxnReset t.ptr)))
      else
        (.error (.lmdbException "Transaction is in an invalid state for reset."), (t, s)) := by
  cases h : t.state <;> simp [reset, h]

/-- `renew` makes a reset transaction ready, or done if LMDB refuses. -/
theorem exec_renew :
    (renew lib).exec (t, s) =
      if t.state = .reset then
        if (lib.reply (.mdbTxnRenew t.ptr) s.native).rc = 0 then
          (.ok (), ({ t with state := .ready }, s.after lib.toHandler (.mdbTxnRenew t.ptr)))
        else
          (.error (getException lib (lib.reply (.mdbTxnRenew t.ptr) s.native).rc),
            ({ t with state := .done }, s.after lib.toHandler (.mdbTxnRenew t.ptr)))
      else
        (.error (.lmdbException
          "Transaction is in an invalid state for renew, must be reset."), (t, s)) := by
  by_cases h : t.state = .reset <;> simp [renew, h]

/-- `close` aborts a ready transaction. On native it does nothing the second
    time, even if the transaction was renewed in between. -/
theorem exec_close :
    (close lib p).exec (t, s) =
      if p = .native ∧ t.isClosed then (.ok (), (t, s))
      else
        (.ok (), ({ t with state := .released, isClosed := t.isClosed || p = .native },
          if t.state = .ready then s.after lib.toHandler (.mdbTxnAbort t.ptr) else s)) := by
  obtain ⟨ptr, parentTx, state, isClosed⟩ := t
  cases p
  · cases state <;> simp [close]
  · cases isClosed
    · cases state <;> simp [close]
    · simp [close]

namespace Lifecycle

/-- The call an operation makes. -/
def call : Lifecycle → Txn → Option Call
  | commit, t => if t.state = .ready then some (.mdbTxnCommit t.ptr) else none
  | abort, t => if t.state = .ready then some (.mdbTxnAbort t.ptr) else none
  | reset, t =>
    if t.state = .reset ∨ t.state = .released then some (.mdbTxnReset t.ptr) else none
  | renew, t => if t.state = .reset then some (.mdbTxnRenew t.ptr) else none
  | close, t =>
    if t.state = .ready ∧ ¬(p = .native ∧ t.isClosed) then some (.mdbTxnAbort t.ptr) else none

/-- The transaction after an operation, given the result code of its call. -/
def after : Lifecycle → Txn → Int → Txn
  | commit, t, _ | abort, t, _ => if t.state = .ready then { t with state := .done } else t
  | reset, t, _ =>
    if t.state = .reset ∨ t.state = .released then { t with state := .reset } else t
  | renew, t, rc =>
    if t.state = .reset then { t with state := if rc = 0 then .ready else .done } else t
  | close, t, _ =>
    if p = .native ∧ t.isClosed then t
    else { t with state := .released, isClosed := t.isClosed || p = .native }

/-- The outcome of an operation, given the result code of its call. -/
def result : Lifecycle → Txn → Int → Except Exn Unit
  | commit, t, rc =>
    if t.state = .ready then if rc = 0 then .ok () else .error (getException lib rc)
    else .error (.lmdbException "Transaction is in an invalid state to perform operation")
  | abort, t, _ =>
    if t.state = .ready then .ok ()
    else .error (.lmdbException "Transaction is in an invalid state to perform operation")
  | reset, t, _ =>
    if t.state = .reset ∨ t.state = .released then .ok ()
    else .error (.lmdbException "Transaction is in an invalid state for reset.")
  | renew, t, rc =>
    if t.state = .reset then if rc = 0 then .ok () else .error (getException lib rc)
    else .error (.lmdbException "Transaction is in an invalid state for renew, must be reset.")
  | close, _, _ => .ok ()

/-- An operation makes at most one call. -/
theorem exec_perform (op : Lifecycle) :
    (op.perform lib p).exec (t, s) = match op.call p t with
      | none => (op.result lib t 0, (op.after p t 0, s))
      | some c =>
        let rc := (lib.reply c s.native).rc
        (op.result lib t rc, (op.after p t rc, s.after lib.toHandler c)) := by
  cases op
  case commit => by_cases h : t.state = .ready <;>
    simp [perform, exec_commit, exec_checkReady, call, result, after, h]
  case abort => by_cases h : t.state = .ready <;>
    simp [perform, exec_abort, exec_checkReady, call, result, after, h]
  case reset => by_cases h : t.state = .reset ∨ t.state = .released <;>
    simp [perform, exec_reset, call, result, after, h]
  case renew =>
    by_cases h : t.state = .reset
    · by_cases hr : (lib.reply (.mdbTxnRenew t.ptr) s.native).rc = 0 <;>
        simp [perform, exec_renew, call, result, after, h, hr]
    · simp [perform, exec_renew, call, result, after, h]
  case close =>
    by_cases hc : p = .native ∧ t.isClosed
    · simp [perform, exec_close, call, result, after, hc]
    · by_cases h : t.state = .ready <;> simp [perform, exec_close, call, result, after, hc, h]

/-- The handle stays. -/
@[simp]
theorem ptr_after (op : Lifecycle) (rc : Int) : (op.after p t rc).ptr = t.ptr := by
  cases op <;> simp only [after] <;> split <;> rfl

/-- The operations that end a transaction, so that it does not get ready again. -/
def IsEnd : Lifecycle → Prop
  | commit | abort | close => True
  | reset | renew => False

variable {p} {t}

theorem ready_of_after {op : Lifecycle} (hop : op.IsEnd) {rc : Int}
    (h : (op.after p t rc).state = .ready) : t.state = .ready := by
  cases op
  case reset | renew => exact hop.elim
  all_goals
    simp only [after] at h
    split at h
    · assumption
    · first | exact h | exact nomatch h

/-- An ending operation calls LMDB in ready transactions only, and ends them. -/
theorem ends_of_call {op : Lifecycle} (hop : op.IsEnd) {c : Call} (hc : op.call p t = some c) :
    t.state = .ready ∧ Ends t.ptr c ∧ ∀ rc, (op.after p t rc).state ≠ .ready := by
  cases op
  case reset | renew => exact hop.elim
  case commit =>
    obtain ⟨ht, ⟨⟩⟩ := Option.ite_none_right_eq_some.1 hc
    exact ⟨ht, .inl rfl, fun _ => by simp [after, ht]⟩
  case abort =>
    obtain ⟨ht, ⟨⟩⟩ := Option.ite_none_right_eq_some.1 hc
    exact ⟨ht, .inr rfl, fun _ => by simp [after, ht]⟩
  case close =>
    obtain ⟨⟨ht, hn⟩, ⟨⟩⟩ := Option.ite_none_right_eq_some.1 hc
    exact ⟨ht, .inr rfl, fun _ => by simp [after, hn]⟩

end Lifecycle

/-! ## Access to the contents -/

/-- The methods on a database, by their other arguments. -/
inductive Access
  | get (key : Val)
  | put (key data : Val) (options : List PutOption)
  | delete (key : Val)
  | deleteData (key data : Val)
  | drop
  | empty
  | openCursor

namespace Access

/-- Calling a method. -/
def perform (dbi : Dbi) : Access → Kt N Txn Value
  | get key => Value.ofTriple <$> Txn.get lib dbi key
  | put key data options => Value.ofUnit <$> Txn.put lib dbi key data options
  | delete key => Value.ofUnit <$> Txn.delete lib dbi key
  | deleteData key data => Value.ofUnit <$> Txn.deleteData lib dbi key data
  | drop => Value.ofUnit <$> Txn.drop lib dbi
  | empty => Value.ofUnit <$> Txn.empty lib dbi
  | openCursor => Value.cursor <$> Txn.openCursor lib dbi

/-- The call a method makes on the handles of the transaction and the database. -/
def call : Access → Ptr → Ptr → Call
  | get key, txn, dbi => .mdbGet txn dbi key
  | put key data options, txn, dbi => .mdbPut txn dbi key data (PutOption.toFlags options)
  | delete key, txn, dbi => .mdbDel txn dbi key none
  | deleteData key data, txn, dbi => .mdbDel txn dbi key (some data)
  | drop, txn, dbi => .mdbDrop txn dbi true
  | empty, txn, dbi => .mdbDrop txn dbi false
  | openCursor, txn, dbi => .mdbCursorOpen txn dbi

/-- The method is one that LMDB refuses in read-only transactions. -/
def writes : Access → Bool
  | put .. | delete _ | deleteData .. | drop | empty => true
  | get _ | openCursor => false

/-- The outcome of a method, given the answer to its call. -/
def result : Access → Reply → Except Exn Value
  | get _, r =>
    if r.rc = 0 ∨ r.rc = mdbNotfound then .ok (.triple r.rc r.key r.data)
    else .error (getException lib r.rc)
  | openCursor, r =>
    if r.rc = 0 then .ok (.cursor { ptr := r.ptr }) else .error (getException lib r.rc)
  | _, r => if r.rc = 0 then .ok .unit else .error (getException lib r.rc)

/-- A method makes its call, once, in whatever state the transaction is, and
    leaves it as it is. -/
theorem exec_perform (m : Access) (dbi : Dbi) :
    (m.perform lib dbi).exec (t, s) =
      (m.result lib (lib.reply (m.call t.ptr dbi.ptr) s.native),
        (t, s.after lib.toHandler (m.call t.ptr dbi.ptr))) := by
  cases m <;>
    simp [perform, result, call, Txn.get, Txn.put, Txn.delete, Txn.deleteData, Txn.drop, Txn.empty,
      Txn.openCursor, Cursor.init] <;>
    rfl

end Access

/-- The outcome of beginning a transaction, given the answer to its call. -/
def beginResult (parentTx : Option Ptr) (r : Reply) : Except Exn Txn :=
  if r.rc = 0 then .ok { ptr := r.ptr, parentTx } else .error (getException lib r.rc)

theorem beginResult_eq_ok {parentTx : Option Ptr} {r : Reply} {t : Txn} :
    beginResult lib parentTx r = .ok t ↔ r.rc = 0 ∧ t = { ptr := r.ptr, parentTx } := by
  rw [beginResult]
  split
  · simp [*, eq_comm]
  · simp [*]

/-- Beginning a transaction makes a call if the environment is open. -/
theorem exec_init (env : Env) (parent : Option Txn) (options : List TxnOption)
    (s : σ × Session Call Reply N) :
    (init lib env parent options).exec s =
      if env.isOpened then
        let c := .mdbTxnBegin env.ptr (parent.map (·.ptr)) (TxnOption.toFlags options)
        (beginResult lib (parent.map (·.ptr)) (lib.reply c s.2.native),
          (s.1, s.2.after lib.toHandler c))
      else (.error (.lmdbException "Env is not open"), s) := by
  cases h : env.isOpened <;> simp [init, h, beginResult]

/-- The outcome of opening a database, given the answer to its call. -/
def openResult (r : Reply) : Except Exn Dbi :=
  if r.rc = 0 then .ok { ptr := r.ptr } else .error (getException lib r.rc)

/-- Opening a database makes one call too. -/
theorem exec_dbiOpen (name : Option DbName) (options : List DbiOption) :
    (dbiOpen lib name options).exec (t, s) =
      (openResult lib
        (lib.reply (.mdbDbiOpen t.ptr name (DbiOption.toFlags options)) s.native),
        (t, s.after lib.toHandler (.mdbDbiOpen t.ptr name (DbiOption.toFlags options)))) := by
  simp [dbiOpen, Dbi.init, openResult]

end Txn

end KotlinLmdb
