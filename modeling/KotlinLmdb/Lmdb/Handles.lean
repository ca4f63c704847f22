import KotlinLmdb.Native
import Mathlib.Data.List.TakeWhile

/-!
# Native handles

LMDB, as far as its handles go: which transactions and cursors are allocated, and
what a call on a handle of each kind comes to. How its requests turn out
otherwise (`Handles.results`) is left open, as is what a call on freed memory
answers.

All top-level write transactions of an environment share one preallocated
structure, `me_txn0`, so that a handle of one that has ended stays valid memory
and comes to life again with the next. All other transactions are allocated and
freed.

There is one top-level write transaction at a time, as LMDB's callers have to see to. While
one is live, another is refused here: what LMDB does then depends on the threads (the call
waits for the mutex, or fails if the thread holds it), and with `MDB_NOLOCK` it is not
checked at all.
-/

namespace KotlinLmdb

/-- An allocated cursor, with the write transaction tracking it. Cursors of
    read-only transactions are not tracked. -/
structure NativeCursor where
  ptr : Ptr
  tracker : Option Ptr
  deriving DecidableEq

/-- The handles of an environment. -/
structure Handles where
  /-- The live write transaction and its children, outermost first. -/
  writers : List Ptr := []
  /-- The live read-only transactions. -/
  readers : List Ptr := []
  /-- The read-only transactions that were reset. -/
  parked : List Ptr := []
  /-- The allocated cursors. -/
  cursors : List NativeCursor := []
  /-- The cursors freed so far. -/
  freed : List Ptr := []
  /-- The address the next allocation gets. -/
  fresh : Ptr := 1
  /-- The environment was closed. -/
  closed : Bool := false
  /-- What requests come to, one after the other. -/
  results : ℕ → Reply
  /-- The requests carried out so far. -/
  served : ℕ := 0

/-- What a transaction handle stands for. -/
inductive TxnStatus
  /-- A write transaction without a child. -/
  | active
  /-- A write transaction with a child. -/
  | blocked
  | reader
  | parked
  /-- `me_txn0` while no write transaction is live. -/
  | idle
  /-- Freed memory. -/
  | dangling
  deriving DecidableEq

/-- What LMDB does not do for a handle: it carries no request out in a transaction
    that has ended or has a child, and none to write in a read-only one. -/
def TxnStatus.refuses (writes : Bool) : TxnStatus → Bool
  | active | dangling => false
  | reader => writes
  | blocked | parked | idle => true

/-- The transaction has ended, and but for `me_txn0` its structure is freed. -/
def TxnStatus.ended : TxnStatus → Bool
  | idle | dangling => true
  | active | blocked | reader | parked => false

/-- The handle of every top-level write transaction. -/
abbrev meTxn0 : Ptr := 0

namespace Handles

variable (s : Handles) (h : Ptr) (c : Ptr)

def status : TxnStatus :=
  if s.closed then .dangling
  else if s.writers.getLast? = some h then .active
  else if h ∈ s.writers then .blocked
  else if h ∈ s.readers then .reader
  else if h ∈ s.parked then .parked
  else if h = meTxn0 then .idle
  else .dangling

/-- What the next request comes to. -/
def result : Reply := s.results s.served

/-- A request that is carried out, and comes to whatever it comes to. -/
def request : Reply × Handles := (s.result, { s with served := s.served + 1 })

/-- A request refused for the handle it is made on. -/
def refuse (rc : Int) : Reply × Handles := ({ rc }, s)

/-- A call without a result. -/
def done : Reply × Handles := ({}, s)

/-- A request for something new, with the address it gets. -/
def allocate (ptr : Ptr) (register : Handles → Handles) : Reply × Handles :=
  if s.result.rc = 0 then ({ s.result with ptr }, register s.request.2) else s.request

/-- It is granted or not. -/
theorem allocate_cases (ptr : Ptr) (register : Handles → Handles) :
    s.result.rc = 0 ∧ s.allocate ptr register = ({ s.result with ptr }, register s.request.2) ∨
      s.result.rc ≠ 0 ∧ s.allocate ptr register = s.request := by
  by_cases h : s.result.rc = 0
  · exact .inl ⟨h, if_pos h⟩
  · exact .inr ⟨h, if_neg h⟩

/-! ## Transactions -/

def beginReader : Reply × Handles :=
  s.allocate s.fresh fun s => { s with readers := s.readers ++ [s.fresh], fresh := s.fresh + 1 }

/-- Write transactions exclude each other: a second one is not begun while one is live. -/
def beginWriter : Reply × Handles :=
  if s.writers = [] then s.allocate meTxn0 fun s => { s with writers := [meTxn0] }
  else s.refuse edeadlk

def beginChild : Reply × Handles :=
  s.allocate s.fresh fun s => { s with writers := s.writers ++ [s.fresh], fresh := s.fresh + 1 }

/-- `mdb_txn_begin`. -/
def txnBegin (parent : Option Ptr) (flags : UInt32) : Reply × Handles :=
  match parent with
  | none =>
    if s.closed then s.request
    else if flags &&& mdbRdonly ≠ 0 then s.beginReader
    else s.beginWriter
  | some h => match s.status h with
    | .active => if flags &&& mdbRdonly ≠ 0 then s.refuse mdbBadTxn else s.beginChild
    | .blocked | .idle => s.refuse mdbBadTxn
    | .reader | .parked => s.refuse einval
    | .dangling => s.request

/-- The write transactions that end with one of them: itself and its children. -/
def ending : List Ptr := s.writers.dropWhile (· ≠ h)

/-- Ending a write transaction ends its children, and frees the cursors they
    track. -/
def endWriter : Handles :=
  let freed := s.cursors.filter fun c => c.tracker.any (· ∈ s.ending h)
  { s with
    writers := s.writers.takeWhile (· ≠ h)
    cursors := s.cursors.filter fun c => !c.tracker.any (· ∈ s.ending h)
    freed := s.freed ++ freed.map (·.ptr) }

/-- Ending a read-only transaction. -/
def endReader : Handles :=
  { s with readers := s.readers.filter (· ≠ h), parked := s.parked.filter (· ≠ h) }

/-- Ending a transaction, with its children. -/
def endTxn : Handles :=
  match s.status h with
  | .active | .blocked => s.endWriter h
  | .reader | .parked => s.endReader h
  | .idle | .dangling => s

/-- `mdb_txn_abort`. -/
def txnAbort : Reply × Handles := (s.endTxn h).done

/-- `mdb_txn_commit`, which ends the transaction even if it fails. -/
def txnCommit : Reply × Handles :=
  match s.status h with
  | .active | .blocked => (s.result, { s.endTxn h with served := s.served + 1 })
  | .reader | .parked => (s.endTxn h).done
  | .idle => s.refuse mdbBadTxn
  | .dangling => s.request

/-- `mdb_txn_reset`, of read-only transactions. -/
def txnReset : Reply × Handles :=
  match s.status h with
  | .reader => done { s with readers := s.readers.filter (· ≠ h), parked := s.parked ++ [h] }
  | _ => s.done

/-- `mdb_txn_renew`, of read-only transactions that were reset. -/
def txnRenew : Reply × Handles :=
  match s.status h with
  | .parked =>
    if s.result.rc = 0 then
      (s.result, { s.request.2 with
        readers := s.readers ++ [h], parked := s.parked.filter (· ≠ h) })
    else s.request
  | .dangling => s.request
  | _ => s.refuse einval

/-- Reading in a transaction. -/
def read : Reply × Handles :=
  match s.status h with
  | .active | .reader | .dangling => s.request
  | .blocked => s.refuse mdbBadTxn
  | .parked | .idle => s.refuse einval

/-- Writing in a transaction. -/
def write : Reply × Handles :=
  match s.status h with
  | .active | .dangling => s.request
  | .blocked => s.refuse mdbBadTxn
  | .reader => s.refuse eacces
  | .parked | .idle => s.refuse einval

/-- `mdb_dbi_open`. -/
def dbiOpen : Reply × Handles :=
  match s.status h with
  | .active | .reader | .dangling => s.request
  | .blocked | .parked | .idle => s.refuse mdbBadTxn

/-! ## Cursors -/

def track (tracker : Option Ptr) : Reply × Handles :=
  s.allocate s.fresh fun s =>
    { s with cursors := s.cursors ++ [⟨s.fresh, tracker⟩], fresh := s.fresh + 1 }

/-- `mdb_cursor_open`: the cursors of write transactions are tracked. -/
def cursorOpen : Reply × Handles :=
  match s.status h with
  | .active => s.track (some h)
  | .reader => s.track none
  | .blocked => s.refuse mdbBadTxn
  | .parked | .idle => s.refuse einval
  | .dangling => s.request

/-- The cursor belongs to a write transaction with a child, which uses it in the
    meantime. -/
def Shadowed : Prop :=
  ∃ b ∈ s.cursors, b.ptr = c ∧ b.tracker.any fun h => h ∈ s.writers ∧ s.status h = .blocked

instance : Decidable (s.Shadowed c) :=
  inferInstanceAs (Decidable (∃ b ∈ s.cursors, _))

/-- `mdb_cursor_close` frees what it is given, but for shadowed cursors. -/
def cursorClose : Reply × Handles :=
  if s.Shadowed c then s.done
  else done { s with
    cursors := s.cursors.filter (·.ptr ≠ c)
    freed := s.freed ++ [c] }

/-! ## All calls -/

/-- How LMDB answers a call. -/
def answer (call : Call) (s : Handles) : Reply × Handles :=
  match call with
  | .mdbTxnBegin _ parent flags => s.txnBegin parent flags
  | .mdbTxnCommit h => s.txnCommit h
  | .mdbTxnAbort h => s.txnAbort h
  | .mdbTxnReset h => s.txnReset h
  | .mdbTxnRenew h => s.txnRenew h
  | .mdbDbiOpen h _ _ => s.dbiOpen h
  | .mdbGet h _ _ | .mdbStat h _ => s.read h
  | .mdbPut h _ _ _ _ | .mdbDel h _ _ _ | .mdbDrop h _ _ => s.write h
  | .mdbCursorOpen h _ => s.cursorOpen h
  | .mdbCursorClose c => s.cursorClose c
  | .mdbEnvClose _ => done { s with closed := true }
  | _ => s.request

/-! ## Requests carried out and refused -/

/-- The answer refuses the request: nothing is done. -/
def Declines (r : Reply × Handles) : Prop := ∃ rc, rc ≠ 0 ∧ rc ≠ mdbNotfound ∧ r = s.refuse rc

/-- The answer is that of a request carried out. -/
def Serves (r : Reply × Handles) : Prop := r.2.served = s.served + 1

theorem serves_allocate (ptr : Ptr) {register : Handles → Handles}
    (h : ∀ s, (register s).served = s.served) : s.Serves (s.allocate ptr register) := by
  rw [allocate]
  split
  · exact h _
  · rfl

variable {s} in
/-- A request carried out leaves its mark. -/
theorem Serves.ne {r : Reply × Handles} (hr : s.Serves r) : r.2 ≠ s := by
  intro he
  have := congrArg served he
  exact absurd (hr.symm.trans this) (Nat.succ_ne_self _)

theorem read_spec : if (s.status h).refuses false then s.Declines (s.read h) else
    s.Serves (s.read h) := by
  rw [read]
  cases s.status h
  case active | reader | dangling => rfl
  case blocked => exact ⟨mdbBadTxn, by decide, by decide, rfl⟩
  case parked | idle => exact ⟨einval, by decide, by decide, rfl⟩

theorem write_spec : if (s.status h).refuses true then s.Declines (s.write h) else
    s.Serves (s.write h) := by
  rw [write]
  cases s.status h
  case active | dangling => rfl
  case blocked => exact ⟨mdbBadTxn, by decide, by decide, rfl⟩
  case reader => exact ⟨eacces, by decide, by decide, rfl⟩
  case parked | idle => exact ⟨einval, by decide, by decide, rfl⟩

theorem dbiOpen_spec : if (s.status h).refuses false then s.Declines (s.dbiOpen h) else
    s.Serves (s.dbiOpen h) := by
  rw [dbiOpen]
  cases s.status h
  case active | reader | dangling => rfl
  case blocked | parked | idle => exact ⟨mdbBadTxn, by decide, by decide, rfl⟩

theorem cursorOpen_spec : if (s.status h).refuses false then s.Declines (s.cursorOpen h) else
    s.Serves (s.cursorOpen h) := by
  rw [cursorOpen]
  cases s.status h
  case active | reader => exact s.serves_allocate _ fun _ => rfl
  case dangling => rfl
  case blocked => exact ⟨mdbBadTxn, by decide, by decide, rfl⟩
  case parked | idle => exact ⟨einval, by decide, by decide, rfl⟩

theorem txnBegin_spec : if (s.status h).refuses true then s.Declines (s.txnBegin (some h) 0) else
    s.Serves (s.txnBegin (some h) 0) := by
  have hflags : ¬(0 : UInt32) &&& mdbRdonly ≠ 0 := by decide
  simp only [txnBegin, if_neg hflags]
  cases s.status h
  case active => exact s.serves_allocate _ fun _ => rfl
  case dangling => rfl
  case blocked | idle => exact ⟨mdbBadTxn, by decide, by decide, rfl⟩
  case reader | parked => exact ⟨einval, by decide, by decide, rfl⟩

/-! ## Which transactions are live -/

/-- The same transactions are live. -/
structure SameTxns (s s' : Handles) : Prop where
  closed : s'.closed = s.closed
  fresh : s.fresh ≤ s'.fresh
  writers : s'.writers = s.writers
  readers : s'.readers = s.readers
  parked : s'.parked = s.parked

theorem SameTxns.refl : SameTxns s s := ⟨rfl, Nat.le_refl _, rfl, rfl, rfl⟩

variable {s} in
/-- So each handle stands for what it stood for. -/
theorem SameTxns.status {s' : Handles} (hs : SameTxns s s') (h : Ptr) :
    s'.status h = s.status h := by
  simp only [Handles.status, hs.closed, hs.writers, hs.readers, hs.parked]

theorem sameTxns_request : SameTxns s s.request.2 := ⟨rfl, Nat.le_refl _, rfl, rfl, rfl⟩

theorem sameTxns_read : SameTxns s (s.read h).2 := by
  rw [read]
  split <;> first | exact s.sameTxns_request | exact .refl s

theorem sameTxns_write : SameTxns s (s.write h).2 := by
  rw [write]
  split <;> first | exact s.sameTxns_request | exact .refl s

theorem sameTxns_dbiOpen : SameTxns s (s.dbiOpen h).2 := by
  rw [dbiOpen]
  split <;> first | exact s.sameTxns_request | exact .refl s

theorem sameTxns_track (tracker : Option Ptr) : SameTxns s (s.track tracker).2 := by
  rw [track, allocate]
  split
  · exact ⟨rfl, Nat.le_succ _, rfl, rfl, rfl⟩
  · exact s.sameTxns_request

theorem sameTxns_cursorOpen : SameTxns s (s.cursorOpen h).2 := by
  rw [cursorOpen]
  split <;> first | exact s.sameTxns_track _ | exact s.sameTxns_request | exact .refl s

theorem sameTxns_cursorClose : SameTxns s (s.cursorClose c).2 := by
  rw [cursorClose]
  split
  · exact .refl s
  · exact ⟨rfl, Nat.le_refl _, rfl, rfl, rfl⟩

/-- All calls leave the same transactions live but those of their life. -/
theorem sameTxns_answer {call : Call} (hcall : ¬call.IsLife) : SameTxns s (answer call s).2 := by
  cases call
  case mdbTxnBegin | mdbTxnCommit | mdbTxnAbort | mdbTxnReset | mdbTxnRenew | mdbEnvClose =>
    exact absurd trivial hcall
  case mdbDbiOpen h _ _ => exact s.sameTxns_dbiOpen h
  case mdbGet h _ _ | mdbStat h _ => exact s.sameTxns_read h
  case mdbPut h _ _ _ _ | mdbDel h _ _ _ | mdbDrop h _ _ => exact s.sameTxns_write h
  case mdbCursorOpen h _ => exact s.sameTxns_cursorOpen h
  case mdbCursorClose c => exact s.sameTxns_cursorClose c
  all_goals exact s.sameTxns_request

/-- A transaction begun with `readOnly` is, by its flags. -/
theorem toFlags_and_mdbRdonly (options : List TxnOption) :
    TxnOption.toFlags options &&& mdbRdonly ≠ 0 ↔ .readOnly ∈ options := by
  rw [TxnOption.toFlags, Ne, orFlags_and_eq_zero]
  constructor
  · intro h
    by_contra hn
    refine h fun o ho => ?_
    cases o
    case readOnly => exact absurd ho hn
    all_goals decide
  · exact fun h hn => absurd (hn _ h) (by decide)

/-- A transaction has ended, with its children if it was a write transaction. -/
structure EndedAt (s s' : Handles) : Prop where
  closed : s'.closed = s.closed
  fresh : s'.fresh = s.fresh
  writers : s'.writers = s.writers.takeWhile (· ≠ h)
  readers : s'.readers = s.readers.filter (· ≠ h)

variable {s h}

/-- What the status of a handle tells. -/
theorem status_spec (s : Handles) (h : Ptr) : match s.status h with
    | .active | .blocked => h ∈ s.writers
    | .reader => h ∉ s.writers ∧ h ∈ s.readers
    | .parked => h ∉ s.writers ∧ h ∈ s.parked
    | .idle | .dangling => s.closed = false → h ∉ s.writers ∧ h ∉ s.readers := by
  rw [status]
  by_cases hc : s.closed
  · simp [hc]
  rw [if_neg hc]
  by_cases hlast : s.writers.getLast? = some h
  · rw [if_pos hlast]
    exact List.mem_of_getLast? hlast
  rw [if_neg hlast]
  by_cases hw : h ∈ s.writers
  · rwa [if_pos hw]
  rw [if_neg hw]
  by_cases hr : h ∈ s.readers
  · rw [if_pos hr]
    exact ⟨hw, hr⟩
  rw [if_neg hr]
  by_cases hp : h ∈ s.parked
  · rw [if_pos hp]
    exact ⟨hw, hp⟩
  rw [if_neg hp]
  by_cases h0 : h = meTxn0
  · rw [if_pos h0]
    exact fun _ => ⟨hw, hr⟩
  · rw [if_neg h0]
    exact fun _ => ⟨hw, hr⟩

theorem getLast?_of_status (hs : s.status h = .active) : s.writers.getLast? = some h := by
  by_contra hlast
  rw [status] at hs
  rw [if_neg hlast] at hs
  split_ifs at hs

theorem takeWhile_ne_self (hw : h ∉ s.writers) : s.writers = s.writers.takeWhile (· ≠ h) :=
  (List.takeWhile_eq_self_iff.2 fun _ ha => by simpa using ne_of_mem_of_not_mem ha hw).symm

theorem filter_ne_self (hr : h ∉ s.readers) : s.readers = s.readers.filter (· ≠ h) :=
  (List.filter_eq_self.2 fun _ ha => by simpa using ne_of_mem_of_not_mem ha hr).symm

/-! ## Sound handles -/

/-- Handles of live transactions are told apart, and from those to be allocated. -/
structure Sound (s : Handles) : Prop where
  nodup : s.writers.Nodup
  pos : 0 < s.fresh
  writers_lt : ∀ h ∈ s.writers, h < s.fresh
  readers_lt : ∀ h ∈ s.readers ++ s.parked, h < s.fresh
  disjoint : ∀ h ∈ s.readers ++ s.parked, h ≠ meTxn0 ∧ h ∉ s.writers

section Sound

variable {s' : Handles} (hs : Sound s)

include hs

theorem Sound.lt_of_mem_readers (hh : h ∈ s.readers) : h < s.fresh :=
  hs.readers_lt h (List.mem_append_left _ hh)

theorem Sound.of_mem_readers (hh : h ∈ s.readers) : h ≠ meTxn0 ∧ h ∉ s.writers :=
  hs.disjoint h (List.mem_append_left _ hh)

/-- Ending transactions is sound. -/
theorem Sound.shrink (hfresh : s.fresh ≤ s'.fresh) (hwriters : s'.writers.Sublist s.writers)
    (hreaders : s'.readers ++ s'.parked ⊆ s.readers ++ s.parked) : Sound s' where
  nodup := hs.nodup.sublist hwriters
  pos := Nat.lt_of_lt_of_le hs.pos hfresh
  writers_lt h hh := Nat.lt_of_lt_of_le (hs.writers_lt h (hwriters.subset hh)) hfresh
  readers_lt h hh := Nat.lt_of_lt_of_le (hs.readers_lt h (hreaders hh)) hfresh
  disjoint h hh :=
    ⟨(hs.disjoint h (hreaders hh)).1,
      fun hmem => (hs.disjoint h (hreaders hh)).2 (hwriters.subset hmem)⟩

theorem Sound.same (hn : SameTxns s s') : Sound s' := by
  refine hs.shrink hn.fresh ?_ ?_
  · rw [hn.writers]
  · rw [hn.readers, hn.parked]
    exact List.Subset.refl _

/-- So is a new read-only transaction. -/
theorem Sound.reader (hfresh : s'.fresh = s.fresh + 1) (hwriters : s'.writers = s.writers)
    (hreaders : s'.readers ++ s'.parked ⊆ s.fresh :: (s.readers ++ s.parked)) : Sound s' where
  nodup := hwriters ▸ hs.nodup
  pos := hfresh ▸ Nat.succ_pos _
  writers_lt h hh := hfresh ▸ Nat.lt_succ_of_lt (hs.writers_lt h (hwriters ▸ hh))
  readers_lt h hh := by
    rw [hfresh]
    rcases List.mem_cons.1 (hreaders hh) with rfl | hh
    · exact Nat.lt_succ_self _
    · exact Nat.lt_succ_of_lt (hs.readers_lt h hh)
  disjoint h hh := by
    rw [hwriters]
    rcases List.mem_cons.1 (hreaders hh) with rfl | hh
    · exact ⟨hs.pos.ne', fun hmem => (hs.writers_lt _ hmem).ne rfl⟩
    · exact hs.disjoint h hh

/-- So is a new write transaction, when there is none. -/
theorem Sound.writer (hfresh : s'.fresh = s.fresh) (hwriters : s'.writers = [meTxn0])
    (hreaders : s'.readers ++ s'.parked = s.readers ++ s.parked) : Sound s' where
  nodup := hwriters ▸ List.nodup_singleton _
  pos := hfresh ▸ hs.pos
  writers_lt h hh := by
    rw [hwriters] at hh
    rw [hfresh, List.mem_singleton.1 hh]
    exact hs.pos
  readers_lt h hh := hfresh ▸ hs.readers_lt h (hreaders ▸ hh)
  disjoint h hh := by
    have hne := (hs.disjoint h (hreaders ▸ hh)).1
    exact ⟨hne, fun hmem => hne (List.mem_singleton.1 (hwriters ▸ hmem))⟩

/-- So is a new child. -/
theorem Sound.child (hfresh : s'.fresh = s.fresh + 1)
    (hwriters : s'.writers = s.writers ++ [s.fresh])
    (hreaders : s'.readers ++ s'.parked = s.readers ++ s.parked) : Sound s' where
  nodup := by
    rw [hwriters]
    refine List.nodup_append.2 ⟨hs.nodup, List.nodup_singleton _, fun a ha b hb => ?_⟩
    rw [List.mem_singleton.1 hb]
    exact (hs.writers_lt a ha).ne
  pos := hfresh ▸ Nat.succ_pos _
  writers_lt h hh := by
    rw [hwriters] at hh
    rw [hfresh]
    rcases List.mem_append.1 hh with hh | hh
    · exact Nat.lt_succ_of_lt (hs.writers_lt h hh)
    · exact Nat.lt_succ_of_le (List.mem_singleton.1 hh).le
  readers_lt h hh := hfresh ▸ Nat.lt_succ_of_lt (hs.readers_lt h (hreaders ▸ hh))
  disjoint h hh := by
    rw [hreaders] at hh
    refine ⟨(hs.disjoint h hh).1, fun hmem => ?_⟩
    rw [hwriters] at hmem
    rcases List.mem_append.1 hmem with hmem | hmem
    · exact (hs.disjoint h hh).2 hmem
    · exact (hs.readers_lt h hh).ne (List.mem_singleton.1 hmem)

theorem Sound.beginReader : Sound s.beginReader.2 := by
  rw [Handles.beginReader, allocate]
  split
  · refine hs.reader rfl rfl fun h hh => ?_
    simp only [List.mem_append, List.mem_cons, List.not_mem_nil] at hh ⊢
    tauto
  · exact hs.same s.sameTxns_request

theorem Sound.beginWriter : Sound s.beginWriter.2 := by
  rw [Handles.beginWriter, allocate]
  split
  · split
    · exact hs.writer rfl rfl rfl
    · exact hs.same s.sameTxns_request
  · exact hs

theorem Sound.beginChild : Sound s.beginChild.2 := by
  rw [Handles.beginChild, allocate]
  split
  · exact hs.child rfl rfl rfl
  · exact hs.same s.sameTxns_request

theorem Sound.txnBegin (parent : Option Ptr) (flags : UInt32) :
    Sound (s.txnBegin parent flags).2 := by
  cases parent with
  | none =>
    simp only [Handles.txnBegin]
    split_ifs
    · exact hs.same s.sameTxns_request
    · exact hs.beginReader
    · exact hs.beginWriter
  | some h =>
    simp only [Handles.txnBegin]
    cases s.status h
    case active =>
      by_cases hflags : flags &&& mdbRdonly ≠ 0
      · rw [if_pos hflags]
        exact hs
      · rw [if_neg hflags]
        exact hs.beginChild
    case dangling => exact hs.same s.sameTxns_request
    all_goals exact hs

theorem Sound.endTxn : Sound (s.endTxn h) := by
  rw [Handles.endTxn]
  cases s.status h
  case active | blocked =>
    exact hs.shrink (Nat.le_refl _) (List.takeWhile_sublist _) (List.Subset.refl _)
  case reader | parked =>
    refine hs.shrink (Nat.le_refl _) (List.Sublist.refl _) ?_
    exact (List.filter_sublist.append List.filter_sublist).subset
  case idle | dangling => exact hs

theorem Sound.txnReset : Sound (s.txnReset h).2 := by
  rw [Handles.txnReset]
  split
  case h_1 hstatus =>
    -- the handle was a reader's
    have hmem := s.status_spec h
    rw [hstatus] at hmem
    refine hs.shrink (Nat.le_refl _) (List.Sublist.refl _) fun h' hh => ?_
    simp only [done, List.mem_append, List.mem_filter, List.mem_singleton] at hh ⊢
    rcases hh with hh | hh | rfl
    · exact .inl hh.1
    · exact .inr hh
    · exact .inl hmem.2
  · exact hs

theorem Sound.txnRenew : Sound (s.txnRenew h).2 := by
  rw [Handles.txnRenew]
  split
  case h_1 hstatus =>
    have hmem := s.status_spec h
    rw [hstatus] at hmem
    split
    · refine hs.shrink (Nat.le_refl _) (List.Sublist.refl _) fun h' hh => ?_
      simp only [List.mem_append, List.mem_filter, List.mem_singleton] at hh ⊢
      rcases hh with (hh | rfl) | hh
      · exact .inl hh
      · exact .inr hmem.2
      · exact .inr hh.1
    · exact hs.same s.sameTxns_request
  · exact hs.same s.sameTxns_request
  · exact hs

theorem Sound.txnCommit : Sound (s.txnCommit h).2 := by
  rw [Handles.txnCommit]
  cases s.status h
  case idle => exact hs
  case dangling => exact hs.same s.sameTxns_request
  all_goals exact (hs.endTxn (h := h)).same ⟨rfl, Nat.le_refl _, rfl, rfl, rfl⟩

/-- No call makes handles unsound. -/
theorem Sound.answer (call : Call) : Sound (answer call s).2 := by
  by_cases hcall : call.IsLife
  · cases call
    case mdbTxnBegin _ parent flags => exact hs.txnBegin parent flags
    case mdbTxnCommit => exact hs.txnCommit
    case mdbTxnAbort => exact hs.endTxn
    case mdbTxnReset => exact hs.txnReset
    case mdbTxnRenew => exact hs.txnRenew
    case mdbEnvClose => exact hs.shrink (Nat.le_refl _) (List.Sublist.refl _) (List.Subset.refl _)
    all_goals exact hcall.elim
  · exact hs.same (s.sameTxns_answer hcall)

/-- Ending a transaction ends its children, and no other one. -/
theorem Sound.endedAt_endTxn (hc : s.closed = false) : EndedAt h s (s.endTxn h) := by
  have hspec := s.status_spec h
  rw [Handles.endTxn]
  cases hstatus : s.status h <;> rw [hstatus] at hspec
  case active | blocked =>
    exact ⟨rfl, rfl, rfl, filter_ne_self fun hr => (hs.of_mem_readers hr).2 hspec⟩
  case reader | parked => exact ⟨rfl, rfl, takeWhile_ne_self hspec.1, rfl⟩
  case idle | dangling =>
    obtain ⟨hw, hr⟩ := hspec hc
    exact ⟨rfl, rfl, takeWhile_ne_self hw, filter_ne_self hr⟩

/-- Aborting and committing end one transaction, with its children. -/
theorem Sound.endedAt_answer (hc : s.closed = false) {call : Call} (hcall : Txn.Ends h call) :
    EndedAt h s (Handles.answer call s).2 := by
  have hend := hs.endedAt_endTxn hc (h := h)
  rcases hcall with rfl | rfl
  · simp only [Handles.answer, Handles.txnCommit]
    rw [Handles.endTxn] at hend ⊢
    cases hstatus : s.status h <;> rw [hstatus] at hend <;>
      exact ⟨hend.closed, hend.fresh, hend.writers, hend.readers⟩
  · exact hend

end Sound

/-! ## Transactions that have ended -/

/-- A handle of no transaction, live or parked, is of one that has ended. -/
theorem ended_status (hw : h ∉ s.writers) (hr : h ∉ s.readers) (hp : h ∉ s.parked) :
    (s.status h).ended := by
  have hlast : s.writers.getLast? ≠ some h := fun hlast => hw (List.mem_of_getLast? hlast)
  rw [status, if_neg hlast, if_neg hw, if_neg hr, if_neg hp]
  split_ifs <;> rfl

/-- The calls that may be made on a transaction that has ended: of its life. -/
def Concludes (h : Ptr) (call : Call) : Prop :=
  Txn.Ends h call ∨ call = .mdbTxnReset h ∨ call = .mdbTxnRenew h

/-- A transaction that has ended is not brought back to life. -/
theorem sameTxns_concludes (hended : (s.status h).ended) {call : Call} (hcall : Concludes h call) :
    SameTxns s (answer call s).2 := by
  have hcases : s.status h = .idle ∨ s.status h = .dangling := by
    cases hstatus : s.status h <;> simp_all [TxnStatus.ended]
  rcases hcall with (rfl | rfl) | rfl | rfl <;>
    simp only [answer, txnCommit, txnAbort, endTxn, txnReset, txnRenew] <;>
    rcases hcases with hstatus | hstatus <;> rw [hstatus]
  all_goals first | exact .refl s | exact s.sameTxns_request

/-- Aborting and committing end the transaction, whatever it was. -/
theorem Sound.ended_answer (hs : Sound s) {call : Call} (hcall : Txn.Ends h call) :
    ((Handles.answer call s).2.status h).ended := by
  by_cases hended : (s.status h).ended
  · rw [(sameTxns_concludes hended (.inl hcall)).status]
    exact hended
  -- the request of a commit does not matter to the status
  have hend : ((s.endTxn h).status h).ended := by
    have hspec := s.status_spec h
    have hother : ∀ h' ∈ s.writers, h' ∉ s.readers ∧ h' ∉ s.parked := fun h' hw =>
      ⟨fun hr => (hs.of_mem_readers hr).2 hw,
        fun hp => (hs.disjoint h' (List.mem_append_right _ hp)).2 hw⟩
    rw [Handles.endTxn]
    cases hstatus : s.status h <;> rw [hstatus] at hspec hended
    case active | blocked =>
      refine ended_status (fun hw => ?_) (hother h hspec).1 (hother h hspec).2
      simpa using List.mem_takeWhile_imp hw
    case reader | parked =>
      refine ended_status hspec.1 (fun hr => ?_) (fun hp => ?_)
      · simpa using (List.mem_filter.1 hr).2
      · simpa using (List.mem_filter.1 hp).2
    case idle | dangling => exact absurd rfl hended
  rcases hcall with rfl | rfl
  · rw [Handles.answer, Handles.txnCommit]
    cases hstatus : s.status h <;> rw [hstatus] at hended
    case active | blocked | reader | parked => exact hend
    case idle | dangling => exact absurd rfl hended
  · exact hend

/-- LMDB after some calls, whoever made them. -/
def after (s : Handles) (calls : List Call) : Handles :=
  calls.foldl (fun s call => (answer call s).2) s

/-- The handles of an environment are sound. -/
theorem sound_after (results : ℕ → Reply) (calls : List Call) :
    (after { results } calls).Sound := by
  have h : ∀ s : Handles, s.Sound → (s.after calls).Sound := by
    induction calls with
    | nil => exact fun _ hs => hs
    | cons call calls ih => exact fun s hs => ih _ (hs.answer call)
  refine h _ ⟨.nil, Nat.one_pos, ?_, ?_, ?_⟩ <;> exact fun h hh => absurd hh List.not_mem_nil

/-- LMDB with its handles. -/
def library : Library Handles where
  answer := answer
  mdbStrerror rc := s!"Error {rc}"

@[simp]
theorem reply_library (call : Call) : library.reply call s = (answer call s).1 := rfl

@[simp]
theorem next_library (call : Call) : library.next call s = (answer call s).2 := rfl

end Handles

end KotlinLmdb
