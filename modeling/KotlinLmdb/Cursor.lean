import KotlinLmdb.Objects

/-!
# Cursors

The methods of `Cursor`. The two implementations are the same but for `put`,
which lets `MDB_NOTFOUND` through on native, and `close`, which only the JVM
guards against being called again.

All methods are one call on the cursor's handle each (`Cursor.Method.exec_perform`),
but for the guard of `close` (`Cursor.exec_close`).
-/

namespace KotlinLmdb

open Eff

namespace Cursor

variable {N σ : Type} (lib : Library N) (p : Platform)

/-- The constructor. -/
def init (txn : Txn) (dbi : Dbi) : Kt N σ Cursor := do
  let csrPtr ← call lib (.mdbCursorOpen txn.ptr dbi.ptr)
  let _ ← check lib csrPtr.rc
  return { ptr := csrPtr.ptr }

/-- Native only: the C constant for a cursor option. -/
def getMdbCursorOp : CursorOption → MdbCursorOp
  | .first => .mdbFirst
  | .firstDup => .mdbFirstDup
  | .getBoth => .mdbGetBoth
  | .getBothRange => .mdbGetBothRange
  | .getCurrent => .mdbGetCurrent
  | .getMultiple => .mdbGetMultiple
  | .last => .mdbLast
  | .lastDup => .mdbLastDup
  | .next => .mdbNext
  | .nextDup => .mdbNextDup
  | .nextMultiple => .mdbNextMultiple
  | .nextNodup => .mdbNextNodup
  | .prev => .mdbPrev
  | .prevDup => .mdbPrevDup
  | .prevNodup => .mdbPrevNodup
  | .set => .mdbSet
  | .setKey => .mdbSetKey
  | .setRange => .mdbSetRange

/-- The number handed to LMDB for a cursor option. -/
def cursorOp : Platform → CursorOption → UInt32
  | .jvm, option => option.option
  | .native, option => (getMdbCursorOp option).value

/-- The options are numbered as the C constants are. -/
@[simp]
theorem cursorOp_eq (option : CursorOption) : cursorOp p option = option.option := by
  cases p
  · rfl
  · cases option <;> rfl

def get (option : CursorOption) : Kt N Cursor (Int × Val × Val) := do
  let result ← call lib (.mdbCursorGet (← self).ptr .output .output (cursorOp p option))
  buildReadResult lib result.rc result.key result.data

/-- `get` at a key. -/
def getKey (key : Val) (option : CursorOption) : Kt N Cursor (Int × Val × Val) := do
  let result ← call lib (.mdbCursorGet (← self).ptr key .output (cursorOp p option))
  buildReadResult lib result.rc result.key result.data

/-- `get` at a key and a data item. -/
def getKeyData (key data : Val) (option : CursorOption) : Kt N Cursor (Int × Val × Val) := do
  let result ← call lib (.mdbCursorGet (← self).ptr key data (cursorOp p option))
  buildReadResult lib result.rc result.key result.data

def delete : Kt N Cursor Unit := do
  let result ← call lib (.mdbCursorDel (← self).ptr CursorDeleteOption.none.option)
  let _ ← check lib result.rc

def deleteDuplicateData : Kt N Cursor Unit := do
  let result ← call lib (.mdbCursorDel (← self).ptr CursorDeleteOption.noDupData.option)
  let _ ← check lib result.rc

def countDuplicates : Kt N Cursor UInt64 := do
  let countPtr ← call lib (.mdbCursorCount (← self).ptr)
  let _ ← check lib countPtr.rc
  return countPtr.num

def renew (txn : Txn) : Kt N Cursor Unit := do
  let result ← call lib (.mdbCursorRenew txn.ptr (← self).ptr)
  let _ ← check lib result.rc

def put (key data : Val) (option : CursorPutOption) : Kt N Cursor (Int × Val × Val) := do
  let result ← call lib (.mdbCursorPut (← self).ptr key data option.option)
  match p with
  | .jvm => buildResult lib result.rc result.key result.data
  | .native => buildReadResult lib result.rc result.key result.data

def close : Kt N Cursor Unit := do
  match p with
  | .jvm =>
    if (← self).closed then
      return
    let _ ← call lib (.mdbCursorClose (← self).ptr)
    assign fun c => { c with closed := true }
  | .native =>
    let _ ← call lib (.mdbCursorClose (← self).ptr)

/-- The methods on the entries, by their arguments. -/
inductive Method
  | get (option : CursorOption)
  | getKey (key : Val) (option : CursorOption)
  | getKeyData (key data : Val) (option : CursorOption)
  | delete
  | deleteDuplicateData
  | countDuplicates
  | put (key data : Val) (option : CursorPutOption)

namespace Method

/-- Calling a method. -/
def perform : Method → Kt N Cursor Value
  | get option => Value.ofTriple <$> Cursor.get lib p option
  | getKey key option => Value.ofTriple <$> Cursor.getKey lib p key option
  | getKeyData key data option => Value.ofTriple <$> Cursor.getKeyData lib p key data option
  | delete => Value.ofUnit <$> Cursor.delete lib
  | deleteDuplicateData => Value.ofUnit <$> Cursor.deleteDuplicateData lib
  | countDuplicates => Value.number <$> Cursor.countDuplicates lib
  | put key data option => Value.ofTriple <$> Cursor.put lib p key data option

/-- The call a method makes on the cursor's handle. -/
def call : Method → Ptr → Call
  | get option, ptr => .mdbCursorGet ptr .output .output option.option
  | getKey key option, ptr => .mdbCursorGet ptr key .output option.option
  | getKeyData key data option, ptr => .mdbCursorGet ptr key data option.option
  | delete, ptr => .mdbCursorDel ptr CursorDeleteOption.none.option
  | deleteDuplicateData, ptr => .mdbCursorDel ptr CursorDeleteOption.noDupData.option
  | countDuplicates, ptr => .mdbCursorCount ptr
  | put key data option, ptr => .mdbCursorPut ptr key data option.option

/-- The method is one that LMDB refuses in read-only transactions. -/
def writes : Method → Bool
  | delete | deleteDuplicateData | put .. => true
  | get _ | getKey .. | getKeyData .. | countDuplicates => false

/-- The outcome of a method, given the answer to its call. The platforms differ in
    what they take for a result of `put`. -/
def result : Method → Reply → Except Exn Value
  | get _, r | getKey _ _, r | getKeyData _ _ _, r =>
    if r.rc = 0 ∨ r.rc = mdbNotfound then .ok (.triple r.rc r.key r.data)
    else .error (getException lib r.rc)
  | delete, r | deleteDuplicateData, r =>
    if r.rc = 0 then .ok .unit else .error (getException lib r.rc)
  | countDuplicates, r =>
    if r.rc = 0 then .ok (.number r.num) else .error (getException lib r.rc)
  | put _ _ _, r =>
    if r.rc = 0 ∨ p = .native ∧ r.rc = mdbNotfound then .ok (.triple r.rc r.key r.data)
    else .error (getException lib r.rc)

/-- A method makes its call, once, and leaves the cursor as it is. -/
theorem exec_perform (m : Method) (c : Cursor) (s : Session Call Reply N) :
    (m.perform lib p).exec (c, s) =
      (m.result lib p (lib.reply (m.call c.ptr) s.native),
        (c, s.after lib.toHandler (m.call c.ptr))) := by
  cases m
  case put => cases p <;> simp [perform, result, call, Cursor.put]
  all_goals
    simp [perform, result, call, Cursor.get, Cursor.getKey, Cursor.getKeyData, Cursor.delete,
      Cursor.deleteDuplicateData, Cursor.countDuplicates]
    rfl

end Method

/-- The outcome of `renew`, given the answer to its call. -/
def renewResult (r : Reply) : Except Exn Unit :=
  if r.rc = 0 then .ok () else .error (getException lib r.rc)

/-- `renew` makes its call, once, and leaves the cursor as it is. -/
theorem exec_renew (txn : Txn) (c : Cursor) (s : Session Call Reply N) :
    (renew lib txn).exec (c, s) =
      (renewResult lib (lib.reply (.mdbCursorRenew txn.ptr c.ptr) s.native),
        (c, s.after lib.toHandler (.mdbCursorRenew txn.ptr c.ptr))) := by
  simp [renew, renewResult]

/-- `close` frees the handle, except of a closed cursor on the JVM. -/
theorem exec_close (c : Cursor) (s : Session Call Reply N) :
    (close lib p).exec (c, s) =
      if p = .jvm ∧ c.closed then (.ok (), (c, s))
      else (.ok (), ({ c with closed := c.closed || p = .jvm },
        s.after lib.toHandler (.mdbCursorClose c.ptr))) := by
  cases p
  · cases h : c.closed <;> simp [close, h]
  · simp [close]

end Cursor

end KotlinLmdb
