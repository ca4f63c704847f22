import KotlinLmdb.Lmdb.Handles
import Mathlib.Logic.Function.Basic

/-!
# Contents and transactions

LMDB with its handles and the contents of its databases. Every live transaction sees
contents of its own: those committed when it was begun or, if it is nested, those its
parent saw then, and what it has written since. Committing it passes them on to its
parent, or publishes them.

Writes are refused in read-only transactions, also through their cursors. What a
request makes of the contents, if it is carried out, is left open.
-/

namespace KotlinLmdb

/-- An environment: handles and contents. -/
structure Contents (D : Type) where
  handles : Handles
  committed : D
  /-- What the live transactions see. -/
  seen : Ptr → D
  /-- The transactions cursors go through. -/
  owner : Ptr → Ptr

namespace Contents

variable {D : Type} (effect : Call → D → D) (s : Contents D)

/-- An environment without live transactions. -/
def init (results : ℕ → Reply) (d : D) : Contents D where
  handles := { results }
  committed := d
  seen _ := d
  owner _ := meTxn0

/-- What a transaction begun with this parent sees. -/
def inherited : Option Ptr → D
  | none => s.committed
  | some h => s.seen h

/-- `mdb_txn_begin`. -/
def txnBegin (parent : Option Ptr) (flags : UInt32) : Reply × Contents D :=
  let r := s.handles.txnBegin parent flags
  (r.1, { s with
    handles := r.2
    seen := if r.1.rc = 0 then Function.update s.seen r.1.ptr (s.inherited parent) else s.seen })

/-- The contents of a transaction go to its parent, or are committed. -/
def pass (d : D) : Option Ptr → Contents D
  | none => { s with committed := d }
  | some h => { s with seen := Function.update s.seen h d }

/-- `mdb_txn_commit`: the children of a write transaction are committed before. -/
def txnCommit (h : Ptr) : Reply × Contents D :=
  let r := s.handles.txnCommit h
  let s' := { s with handles := r.2 }
  match s.handles.writers.getLast? with
  | some last =>
    if h ∈ s.handles.writers ∧ r.1.rc = 0 then
      (r.1, s'.pass (s.seen last) (s.handles.writers.takeWhile (· ≠ h)).getLast?)
    else (r.1, s')
  | none => (r.1, s')

/-- A request that changes what a transaction sees, if it is a write transaction. -/
def change (h : Ptr) (call : Call) (r : Reply × Handles) : Reply × Contents D :=
  (r.1, { s with
    handles := r.2
    seen := if s.handles.status h = .active ∧ r.1.rc = 0 then
      Function.update s.seen h (effect call (s.seen h)) else s.seen })

/-- A cursor is to go through a transaction from now on. -/
def own (r : Reply × Handles) (c h : Ptr) : Reply × Contents D :=
  (r.1, { s with
    handles := r.2
    owner := if r.1.rc = 0 then Function.update s.owner c h else s.owner })

/-- How LMDB answers a call. -/
def answer (call : Call) (s : Contents D) : Reply × Contents D :=
  match call with
  | .mdbTxnBegin _ parent flags => s.txnBegin parent flags
  | .mdbTxnCommit h => s.txnCommit h
  | .mdbDbiOpen h .. => s.change effect h call (s.handles.dbiOpen h)
  | .mdbPut h .. | .mdbDel h .. | .mdbDrop h .. => s.change effect h call (s.handles.write h)
  | .mdbCursorPut c .. | .mdbCursorDel c .. =>
    s.change effect (s.owner c) call (s.handles.write (s.owner c))
  | .mdbCursorOpen h _ =>
    let r := s.handles.cursorOpen h
    s.own r r.1.ptr h
  | .mdbCursorRenew h c => s.own s.handles.request c h
  | _ =>
    let r := Handles.answer call s.handles
    (r.1, { s with handles := r.2 })

/-- LMDB with its contents. -/
def library : Library (Contents D) where
  answer := answer effect
  mdbStrerror rc := s!"Error {rc}"

/-- LMDB after some calls, whoever made them. -/
def after (s : Contents D) (calls : List Call) : Contents D :=
  calls.foldl (fun s call => (answer effect call s).2) s

/-- LMDB coming to these results from now on. -/
def answering (results : ℕ → Reply) : Contents D :=
  { s with handles := { s.handles with results } }

@[simp]
theorem handles_pass (d : D) (parent : Option Ptr) : (s.pass d parent).handles = s.handles := by
  cases parent <;> rfl

@[simp]
theorem handles_txnCommit (h : Ptr) : (s.txnCommit h).2.handles = (s.handles.txnCommit h).2 := by
  simp only [txnCommit]
  split
  · split
    · exact handles_pass ..
    · rfl
  · rfl

variable {s}

@[simp]
theorem reply_library (call : Call) :
    (library effect).reply call s = (answer effect call s).1 := rfl

@[simp]
theorem next_library (call : Call) : (library effect).next call s = (answer effect call s).2 := rfl

/-- The handles are sound whatever is called. -/
theorem sound_answer (hs : s.handles.Sound) (call : Call) :
    (answer effect call s).2.handles.Sound := by
  cases call
  case mdbTxnBegin _ parent flags => exact hs.txnBegin parent flags
  case mdbTxnCommit h => exact s.handles_txnCommit h ▸ hs.txnCommit
  case mdbDbiOpen h _ _ => exact hs.same (s.handles.sameTxns_dbiOpen h)
  case mdbPut h _ _ _ _ | mdbDel h _ _ _ | mdbDrop h _ _ =>
    exact hs.same (s.handles.sameTxns_write h)
  case mdbCursorPut c _ _ _ | mdbCursorDel c _ =>
    exact hs.same (s.handles.sameTxns_write (s.owner c))
  case mdbCursorOpen h _ => exact hs.same (s.handles.sameTxns_cursorOpen h)
  case mdbCursorRenew h c => exact hs.same s.handles.sameTxns_request
  all_goals exact hs.answer _

/-- So they are whatever has been called since the environment was opened. -/
theorem sound_after (results : ℕ → Reply) (d : D) (calls : List Call) :
    ((init results d).after effect calls).handles.Sound := by
  have h : ∀ s : Contents D, s.handles.Sound → (s.after effect calls).handles.Sound := by
    induction calls with
    | nil => exact fun _ hs => hs
    | cons call calls ih => exact fun s hs => ih _ (sound_answer effect hs call)
  refine h _ ⟨.nil, Nat.one_pos, ?_, ?_, ?_⟩ <;> exact fun h hh => absurd hh List.not_mem_nil

end Contents

end KotlinLmdb
