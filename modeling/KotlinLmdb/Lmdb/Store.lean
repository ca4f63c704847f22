import KotlinLmdb.Native

/-!
# Committed contents

LMDB, as far as the contents of its databases go, for one transaction at a time.
A transaction works on a copy; committing it publishes the copy if it succeeds, and
discards it if not, as aborting does.

What requests mean on contents is left open (`Semantics`), and so is which of them
fail (`Store.results`).
-/

namespace KotlinLmdb

/-- The requests that change contents. -/
def Call.Writes : Call → Bool
  | .mdbPut .. | .mdbDel .. | .mdbDrop .. => true
  | _ => false

/-- What requests mean on contents: what they come to if they are carried out, and
    what those that write and succeed make of the contents. -/
structure Semantics (D : Type) where
  reply : Call → D → Reply
  effect : Call → D → D

/-- The contents of an environment. -/
structure Store (D : Type) where
  committed : D
  /-- The live transaction, and the contents as it sees them. -/
  live : Option (Ptr × D) := none
  /-- What requests come to: with a result code of `0`, they are carried out. -/
  results : ℕ → Reply
  /-- The requests made so far. -/
  served : ℕ := 0

namespace Store

variable {D : Type} (sem : Semantics D) (s : Store D) (h : Ptr)

/-- What the next request comes to. -/
def result : Reply := s.results s.served

/-- A request that does nothing to contents. -/
def request : Reply × Store D := (s.result, { s with served := s.served + 1 })

/-- `mdb_txn_begin`. -/
def txnBegin : Reply × Store D :=
  if s.live.isNone ∧ s.result.rc = 0 then
    (s.result, { s.request.2 with live := some (s.result.ptr, s.committed) })
  else s.request

/-- The contents as the transaction sees them, if it is live. -/
def contents : Option D := s.live.bind fun l => if l.1 = h then some l.2 else none

/-- `mdb_txn_commit`. -/
def txnCommit : Reply × Store D :=
  match s.contents h with
  | none => s.request
  | some d => (s.result, { s.request.2 with
      live := none
      committed := if s.result.rc = 0 then d else s.committed })

/-- `mdb_txn_abort`. -/
def txnAbort : Reply × Store D :=
  match s.contents h with
  | none => s.request
  | some _ => ({}, { s with live := none })

/-- What a request in a transaction makes of its contents. -/
def written (c : Call) (d : D) : D :=
  if c.Writes ∧ (sem.reply c d).rc = 0 then sem.effect c d else d

/-- A request in a transaction. -/
def data (c : Call) : Reply × Store D :=
  match s.contents h with
  | none => s.request
  | some d =>
    if s.result.rc = 0 then
      (sem.reply c d, { s.request.2 with live := some (h, written sem c d) })
    else s.request

/-- How LMDB answers a call. -/
def answer (call : Call) (s : Store D) : Reply × Store D :=
  match call with
  | .mdbTxnBegin .. => s.txnBegin
  | .mdbTxnCommit h => s.txnCommit h
  | .mdbTxnAbort h => s.txnAbort h
  | c => match c.txn with
    | none => s.request
    | some h => s.data sem h c

/-- LMDB with its contents. -/
def library : Library (Store D) where
  answer := answer sem
  mdbStrerror rc := s!"Error {rc}"

variable {s h}

@[simp]
theorem reply_library (call : Call) : (library sem).reply call s = (answer sem call s).1 := rfl

@[simp]
theorem next_library (call : Call) : (library sem).next call s = (answer sem call s).2 := rfl

theorem contents_of_live {d : D} (hs : s.live = some (h, d)) : s.contents h = some d := by
  simp [contents, hs]

/-- Committing publishes the contents of the transaction, or discards them. -/
theorem txnCommit_of_live {d : D} (hs : s.live = some (h, d)) :
    (s.txnCommit h).2.live = none ∧
      (s.txnCommit h).2.committed = if (s.txnCommit h).1.rc = 0 then d else s.committed := by
  simp [txnCommit, contents_of_live hs]

/-- Aborting discards them. -/
theorem txnAbort_of_live {d : D} (hs : s.live = some (h, d)) :
    (s.txnAbort h).2.live = none ∧ (s.txnAbort h).2.committed = s.committed := by
  simp [txnAbort, contents_of_live hs]

/-- Other requests change the contents of the transaction at most, if they write and
    succeed. -/
theorem data_of_live {d : D} (hs : s.live = some (h, d)) (c : Call) :
    (s.data sem h c).2.committed = s.committed ∧
      (s.data sem h c).2.live =
        some (h, if c.Writes ∧ (s.data sem h c).1.rc = 0 then sem.effect c d else d) := by
  by_cases hrc : s.result.rc = 0
  · simp [data, contents_of_live hs, hrc, written, request]
  · simp [data, contents_of_live hs, hrc, request, hs]

end Store

end KotlinLmdb
