import KotlinLmdb.Objects

/-!
# Database handles

The methods of `Dbi`, on both platforms the same but for `Dbi.stat`. A `Dbi` keeps the
slot LMDB gave it and closes it at most once (`Dbi.exec_close`).
-/

namespace KotlinLmdb

open Eff

namespace Dbi

variable {N σ : Type} (lib : Library N) (p : Platform)

/-- The constructor. -/
def init (name : Option DbName) (tx : Txn) (options : List DbiOption) : Kt N σ Dbi := do
  let dbiPtr ← call lib (.mdbDbiOpen tx.ptr name (DbiOption.toFlags options))
  let _ ← check lib dbiPtr.rc
  return { ptr := dbiPtr.ptr }

/-- The statistic that is read. On native it is a `CValue`, which is copied each time it is
    passed: LMDB writes to one copy, and another one is read. -/
def pointed : Platform → Reply → Stat
  | .jvm, mdbStat => mdbStat.stat
  | .native, mdbStat => mdbStat.unwritten

def stat (tx : Txn) : Kt N Dbi Stat := do
  let mdbStat ← call lib (.mdbStat tx.ptr (← self).ptr)
  let _ ← check lib mdbStat.rc
  return pointed p mdbStat

def compare (tx : Txn) (a b : Val) : Kt N Dbi Int := do
  return (← call lib (.mdbCmp tx.ptr (← self).ptr a b)).rc

def dupCompare (tx : Txn) (a b : Val) : Kt N Dbi Int := do
  return (← call lib (.mdbDcmp tx.ptr (← self).ptr a b)).rc

def flags (tx : Txn) : Kt N Dbi (KSet DbiOption) := do
  let flagsRef ← call lib (.mdbDbiFlags tx.ptr (← self).ptr)
  let _ ← check lib flagsRef.rc
  return DbiOption.ofFlags flagsRef.num.toUInt32

def close (env : Env) : Kt N Dbi Unit := do
  if ¬(← self).closed then
    assign fun d => { d with closed := true }
    let _ ← call lib (.mdbDbiClose env.ptr (← self).ptr)

/-- The methods reading through a transaction, by their other arguments. -/
inductive Method
  | stat
  | compare (a b : Val)
  | dupCompare (a b : Val)
  | flags

namespace Method

/-- Calling a method. -/
def perform (tx : Txn) : Method → Kt N Dbi Value
  | stat => Value.stat <$> Dbi.stat lib p tx
  | compare a b => Value.int <$> Dbi.compare lib tx a b
  | dupCompare a b => Value.int <$> Dbi.dupCompare lib tx a b
  | flags => Value.dbiFlags <$> Dbi.flags lib tx

/-- The call a method makes on the slot, through a transaction. -/
def call : Method → Ptr → Ptr → Call
  | stat, txn, ptr => .mdbStat txn ptr
  | compare a b, txn, ptr => .mdbCmp txn ptr a b
  | dupCompare a b, txn, ptr => .mdbDcmp txn ptr a b
  | flags, txn, ptr => .mdbDbiFlags txn ptr

/-- The outcome of a method, given the answer to its call. -/
def result : Method → Reply → Except Exn Value
  | stat, r =>
    if r.rc = 0 then .ok (.stat (pointed p r)) else .error (getException lib r.rc)
  | compare _ _, r | dupCompare _ _, r => .ok (.int r.rc)
  | flags, r =>
    if r.rc = 0 then .ok (.dbiFlags (DbiOption.ofFlags r.num.toUInt32))
    else .error (getException lib r.rc)

/-- A method makes its call, once, and leaves the handle as it is. -/
theorem exec_perform (m : Method) (tx : Txn) (d : Dbi) (s : Session Call Reply N) :
    (m.perform lib p tx).exec (d, s) =
      (m.result lib p (lib.reply (m.call tx.ptr d.ptr) s.native),
        (d, s.after lib.toHandler (m.call tx.ptr d.ptr))) := by
  cases m <;>
    simp [perform, result, call, Dbi.stat, Dbi.compare, Dbi.dupCompare, Dbi.flags] <;> rfl

end Method

/-- Only the first `close` frees the slot. -/
theorem exec_close (env : Env) (d : Dbi) (s : Session Call Reply N) :
    (close lib env).exec (d, s) =
      if d.closed then (.ok (), (d, s))
      else (.ok (), ({ d with closed := true },
        s.after lib.toHandler (.mdbDbiClose env.ptr d.ptr))) := by
  cases h : d.closed <;> simp [close, h]

end Dbi

end KotlinLmdb
