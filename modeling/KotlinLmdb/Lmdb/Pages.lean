import KotlinLmdb.Lmdb.Midl.Sort
import KotlinLmdb.Lmdb.PageLists
import KotlinLmdb.Native

/-!
# The pages of a write transaction

A write transaction never writes to a page in the file that others may read: it writes to a
copy of it in memory, under another number (`pageTouch`), which it keeps in its dirty list.
If there are too many of them, it writes some to the file ahead of time (`pageSpill`), and
fetches them back when it has to write to them again (`pageUnspill`). Pages it needs no more
are reused if they are its own (`pageLoose`).

A nested transaction has lists of its own, over those of its parents: a page is looked up in
all of them, the innermost first, then in the file (`pageGet`). When it commits, its lists are
merged into those of its parent; when it aborts, they are forgotten.

The pages here are single ones, the file is not mapped for writing, and no write to it fails.
Where memory has to be allocated, there may be none. Failed assertions have no result (`none`).
-/

namespace KotlinLmdb

/-- `ENOMEM`. -/
abbrev enomem : Int := 12

/-- `MDB_TXN_FULL`. -/
abbrev mdbTxnFull : Int := -30788

/-- `MDB_MAP_FULL`. -/
abbrev mdbMapFull : Int := -30792

/-- `MDB_PAGE_NOTFOUND`. -/
abbrev mdbPageNotfound : Int := -30797

/-- A page. -/
structure Page (D : Type) where
  pgno : ℕ
  /-- `P_DIRTY`. -/
  dirty : Bool
  /-- `P_LOOSE`. -/
  loose : Bool
  data : D

/-- What a write transaction knows of its pages. -/
structure PageTxn (D : Type) where
  dirtyList : Id2l (Page D)
  dirtyRoom : ℕ
  spillPgs : Option Midl
  freePgs : Midl
  /-- The numbers of the loose pages, as they are linked. -/
  loosePgs : List ℕ
  looseCount : ℤ
  nextPgno : ℕ
  /-- `MDB_TXN_SPILLS`. -/
  spills : Bool
  /-- `MDB_TXN_ERROR`. -/
  error : Bool

/-- A write transaction, innermost of its parents, and the file. -/
structure PageTxns (D : Type) where
  map : ℕ → Page D
  maxpg : ℕ
  /-- `mm_last_pg + 1`, of what has been committed. -/
  metaNextPgno : ℕ
  txn : PageTxn D
  parents : List (PageTxn D)

variable {D : Type}

open Id2l (count setCount mdbMid2lSearch mdbMid2lInsert)
open Midl (mdbMidlSearch)

namespace PageTxn

/-- Where a page is in the spill list. -/
def spillAt (t : PageTxn D) (pgno : ℕ) : Option ℕ := do
  let sl ← t.spillPgs
  let pn := 2 * pgno
  let x := mdbMidlSearch sl.cells pn
  if x ≤ sl.count ∧ sl.cells x = pn then some x else none

/-- Where a page is in the dirty list. -/
def dirtyAt (t : PageTxn D) (pgno : ℕ) : Option ℕ :=
  if count t.dirtyList = 0 then none
  else
    let x := mdbMid2lSearch t.dirtyList pgno
    if x ≤ count t.dirtyList ∧ (t.dirtyList x).mid = pgno then some x else none

/-- Writes to a page in memory. -/
def setPage (t : PageTxn D) (np : Page D) : PageTxn D :=
  { t with
    dirtyList := Cells.write t.dirtyList (mdbMid2lSearch t.dirtyList np.pgno) ⟨np.pgno, np⟩ }

/-- `mdb_page_dirty`, which asserts that the page is added. -/
def pageDirty (t : PageTxn D) (np : Page D) : Option (PageTxn D) :=
  let (rc, dl) := mdbMid2lInsert t.dirtyList ⟨np.pgno, np⟩
  if rc = 0 then some { t with dirtyList := dl, dirtyRoom := t.dirtyRoom - 1 } else none

/-- A transaction that starts with some pages in the file. -/
def fresh (nextPgno : ℕ) (free : Midl) (room : ℕ) (dl : Id2l (Page D)) (spills : Bool) :
    PageTxn D where
  dirtyList := setCount dl 0
  dirtyRoom := room
  spillPgs := none
  freePgs := { free with cells := free.cells.write 0 0 }
  loosePgs := []
  looseCount := 0
  nextPgno := nextPgno
  spills := spills
  error := false

end PageTxn

open PageTxn

namespace PageTxns

/-- Sets `MDB_TXN_ERROR`. -/
def fail (s : PageTxns D) : PageTxns D := { s with txn := { s.txn with error := true } }

/-! ## Reading -/

/-- The loop of `mdb_page_get`: the page as the first transaction has it that does, and its
    level. -/
def getDirty (map : ℕ → Page D) (pgno : ℕ) : List (PageTxn D) → ℕ → Option (Page D × ℕ)
  | [], _ => none
  | tx2 :: txns, level =>
    if (tx2.spillAt pgno).isSome then some (map pgno, level)
    else match tx2.dirtyAt pgno with
      | some x => some ((tx2.dirtyList x).mptr, level)
      | none => getDirty map pgno txns (level + 1)

/-- `mdb_page_get`: no result is `MDB_PAGE_NOTFOUND`. -/
def pageGet (s : PageTxns D) (pgno : ℕ) : Option (Page D × ℕ) :=
  match getDirty s.map pgno (s.txn :: s.parents) 1 with
  | some r => some r
  | none => if pgno < s.txn.nextPgno then some (s.map pgno, 0) else none

/-! ## Writing -/

/-- `mdb_page_alloc` of a single page, one from the free list if it has any (`reuse`), which the
    caller fills. The result is the return code and the number of the page. -/
def pageAlloc (s : PageTxns D) (reuse : Option ℕ) (mem : Bool) (fill : ℕ → Page D) :
    Option ((Int × ℕ) × PageTxns D) :=
  match s.txn.loosePgs with
  | pgno :: loose =>
    let txn := { s.txn with loosePgs := loose, looseCount := s.txn.looseCount - 1 }
    some ((0, pgno), { s with txn := txn.setPage (fill pgno) })
  | [] =>
    if s.txn.dirtyRoom = 0 then some ((mdbTxnFull, 0), s.fail)
    else match reuse with
      | some pgno =>
        if mem then do
          let txn ← s.txn.pageDirty (fill pgno)
          return ((0, pgno), { s with txn })
        else some ((enomem, 0), s.fail)
      | none =>
        let pgno := s.txn.nextPgno
        if pgno + 1 ≥ s.maxpg then some ((mdbMapFull, 0), s.fail)
        else if mem then do
          let txn ← { s.txn with nextPgno := pgno + 1 }.pageDirty (fill pgno)
          return ((0, pgno), { s with txn })
        else some ((enomem, 0), s.fail)

/-- Brings a spilled page back into memory, where `txn` is the transaction after it has been taken
    out of the spill list. -/
def fetch (s : PageTxns D) (txn : PageTxn D) (mp : Page D) (mem : Bool) :
    Option ((Int × Option ℕ) × PageTxns D) :=
  if s.txn.dirtyRoom = 0 then some ((mdbTxnFull, none), s)
  else if mem then do
    let txn ← txn.pageDirty { mp with dirty := true }
    return ((0, some mp.pgno), { s with txn })
  else some ((enomem, none), s)

/-- `mdb_page_unspill`: the page to write to, if it has been spilled. -/
def pageUnspill (s : PageTxns D) (mp : Page D) (mem : Bool) :
    Option ((Int × Option ℕ) × PageTxns D) :=
  match s.txn.spillPgs, s.txn.spillAt mp.pgno with
  | some sl, some x =>
    -- the last one is taken off the list, any other marked as deleted
    let ids := if x = sl.count then sl.cells.write 0 (sl.count - 1)
      else sl.cells.write x (sl.cells x ||| 1)
    s.fetch { s.txn with spillPgs := some { sl with cells := ids } } mp mem
  | _, _ =>
    -- it remains in the list of a parent
    if s.parents.any fun tx2 => (tx2.spillAt mp.pgno).isSome then s.fetch s.txn mp mem
    else some ((0, none), s)

/-- Copies a page to a new one, and frees it. -/
def copyOnWrite (s : PageTxns D) (mp : Page D) (reuse : Option ℕ) (mem : Bool × Bool) :
    Option ((Int × ℕ) × PageTxns D) :=
  match s.txn.freePgs.mdbMidlNeed 1 mem.1 with
  | none => some ((enomem, 0), s.fail)
  | some freePgs => do
    let s := { s with txn := { s.txn with freePgs } }
    let ((rc, pgno), s) ← s.pageAlloc reuse mem.2 fun pgno => { mp with pgno, dirty := true }
    if rc ≠ 0 then return ((rc, 0), s)
    -- `mdb_cassert(mc, mp->mp_pgno != pgno)`
    if pgno = mp.pgno then none
    let freePgs := s.txn.freePgs.mdbMidlXappend mp.pgno
    return ((0, pgno), { s with txn := { s.txn with freePgs } })

/-- `mdb_page_touch` of a page: the return code, and the number of the page to write to. -/
def pageTouch (s : PageTxns D) (mp : Page D) (reuse : Option ℕ) (mem : Bool × Bool) :
    Option ((Int × ℕ) × PageTxns D) :=
  if !mp.dirty then
    if s.txn.spills then do
      let ((rc, np), s) ← s.pageUnspill mp mem.2
      if rc ≠ 0 then return ((rc, 0), s.fail)
      match np with
      | some pgno => return ((0, pgno), s)
      | none => s.copyOnWrite mp reuse mem
    else s.copyOnWrite mp reuse mem
  else if s.parents ≠ [] then
    match s.txn.dirtyAt mp.pgno with
    | some _ => some ((0, mp.pgno), s)
    | none =>
      -- it is a parent's, which keeps its own
      if count s.txn.dirtyList < idlUmMax then
        if mem.2 then
          let (rc, dl) := mdbMid2lInsert s.txn.dirtyList ⟨mp.pgno, { mp with dirty := true }⟩
          if rc = 0 then some ((0, mp.pgno), { s with txn := { s.txn with dirtyList := dl } })
          else none
        else some ((enomem, 0), s)
      else none
  else some ((0, mp.pgno), s)

/-- `mdb_page_loose` of a page. -/
def pageLoose (s : PageTxns D) (mp : Page D) (freeDbi mem : Bool) : Int × PageTxns D :=
  if mp.dirty ∧ ¬freeDbi ∧ (s.parents ≠ [] → (s.txn.dirtyAt mp.pgno).isSome) then
    let txn := { s.txn with
      loosePgs := mp.pgno :: s.txn.loosePgs, looseCount := s.txn.looseCount + 1 }
    (0, { s with txn := txn.setPage { mp with loose := true } })
  else match s.txn.freePgs.mdbMidlAppend mp.pgno mem with
    | some free => (0, { s with txn := { s.txn with freePgs := free } })
    | none => (enomem, s)

/-! ## Spilling -/

/-- Purges the deleted slots of a spill list. -/
def purge (sl : Midl) : Midl :=
  let (ids, j) := sl.cells.squeeze (· % 2 = 0) id 0 0 sl.count
  { sl with cells := ids.write 0 j }

/-- What saving the numbers of the pages to be spilled ends with: how many entries of the dirty
    list are not looked at, the spill list, and the pages kept in memory (`P_KEEP`). -/
structure Saved where
  rc : Int
  i : ℕ
  sl : Midl
  keep : ℕ → Bool

/-- Saves the numbers of up to `need` of the first `i` dirty pages, from the last one on. A page
    that was spilled in a parent must not be spilled again. -/
def saveIds (parents : List (PageTxn D)) (dl : Id2l (Page D)) (mem : Bool) :
    ℕ → ℕ → Midl → (ℕ → Bool) → Saved
  | 0, _, sl, keep => ⟨0, 0, sl, keep⟩
  | i + 1, 0, sl, keep => ⟨0, i + 1, sl, keep⟩
  | i + 1, need + 1, sl, keep =>
    let dp := (dl (i + 1)).mptr
    if dp.loose || keep dp.pgno then saveIds parents dl mem i (need + 1) sl keep
    else if parents.any fun tx2 => (tx2.spillAt (dl (i + 1)).mid).isSome then
      saveIds parents dl mem i (need + 1) sl (Function.update keep dp.pgno true)
    else match sl.mdbMidlAppend (2 * (dl (i + 1)).mid) mem with
      | none => ⟨enomem, i + 1, sl, keep⟩
      | some sl => saveIds parents dl mem i need sl keep

/-- Writes `n` dirty pages from the entry `i` on to the file. Those kept are marked by the number
    0 in the list. -/
def writePages (keep : ℕ → Bool) : ℕ → ℕ → Id2l (Page D) → (ℕ → Page D) →
    Id2l (Page D) × (ℕ → Page D)
  | 0, _, dl, map => (dl, map)
  | n + 1, i, dl, map =>
    let dp := (dl i).mptr
    if dp.loose || keep dp.pgno then
      writePages keep n (i + 1) (Cells.write dl i { dl i with mid := 0 }) map
    else writePages keep n (i + 1) dl (Function.update map (dl i).mid { dp with dirty := false })

/-- `mdb_page_flush`: writes the dirty pages to the file, but for the first `i`, and those that
    are loose or kept, which stay in the list. -/
def pageFlush (s : PageTxns D) (i : ℕ) (keep : ℕ → Bool) : PageTxns D :=
  let pagecount := count s.txn.dirtyList
  let (dl, map) := writePages keep (pagecount - i) (i + 1) s.txn.dirtyList s.map
  let (dl, j) := Cells.squeeze (·.mid = 0) (fun e => { e with mid := e.mptr.pgno }) dl i i
    (pagecount - i)
  { s with
    map
    txn := { s.txn with
      dirtyList := setCount dl j, dirtyRoom := s.txn.dirtyRoom + (pagecount - j) } }

/-- The list of spilled pages to add to: the one there is, purged, or a new one. -/
def spillList (t : PageTxn D) (mem : Bool) : Option Midl :=
  match t.spillPgs with
  | some sl => some (purge sl)
  | none => if mem then some ⟨idlUmMax, fun _ => 0⟩ else none

/-- `mdb_page_spill`, before an operation that needs `need` pages at most, while cursors keep
    some pages in memory. -/
def pageSpill (s : PageTxns D) (need : ℕ) (keep : ℕ → Bool) (mem : Bool × Bool) :
    Option (Int × PageTxns D) :=
  if s.txn.dirtyRoom > need then some (0, s)
  else
    match spillList s.txn mem.1 with
    | none => some (enomem, s)
    | some sl =>
      let need := if need < idlUmMax / 8 then idlUmMax / 8 else need
      let saved := saveIds s.parents s.txn.dirtyList mem.2 (count s.txn.dirtyList) need sl keep
      if saved.rc ≠ 0 then
        some (saved.rc, { s with txn := { s.txn with spillPgs := some saved.sl } }.fail)
      else do
        let sl ← saved.sl.mdbMidlSort (2 * saved.sl.count + 2)
        let s := { s with txn := { s.txn with spillPgs := some sl } }
        let s := s.pageFlush saved.i saved.keep
        return (0, { s with txn := { s.txn with spills := true } })

/-! ## Nesting -/

/-- `mdb_txn_begin` of a nested transaction. -/
def txnBegin (s : PageTxns D) (mem : Bool) : Int × PageTxns D :=
  if s.txn.error then (mdbBadTxn, s)
  else if mem then
    (0, { s with
      txn := .fresh s.txn.nextPgno ⟨idlUmMax, fun _ => 0⟩ s.txn.dirtyRoom s.txn.dirtyList
        s.txn.spills
      parents := s.txn :: s.parents })
  else (enomem, s)

/-- `mdb_txn_begin` of an outermost transaction, after another one. -/
def txnRenew (s : PageTxns D) : PageTxns D :=
  { s with
    txn := .fresh s.metaNextPgno s.txn.freePgs idlUmMax s.txn.dirtyList false, parents := [] }

/-- `mdb_txn_abort`. After the outermost transaction, the next one begins. -/
def txnAbort (s : PageTxns D) : PageTxns D :=
  match s.parents with
  | [] => s.txnRenew
  | parent :: parents => { s with txn := parent, parents }

/-- The spill list of the parent, without anything in our dirty list. -/
def parentSpill (txn parent : PageTxn D) : Option (Option Midl) :=
  match parent.spillPgs with
  | some pspill =>
    if pspill.count ≠ 0 then (cleanSpill pspill txn.dirtyList).map some else some (some pspill)
  | none => some none

/-- The dirty list of the parent, without anything in our spill list. -/
def parentDirty (txn parent : PageTxn D) : Id2l (Page D) :=
  match txn.spillPgs with
  | some sl => dropSpilled sl.cells sl.count 1 parent.dirtyList
  | none => parent.dirtyList

/-- Appends our spill list to that of the parent. -/
def appendSpill (txn : PageTxn D) (pspill : Option Midl) (mem : Bool) :
    Option (Int × Option Midl) :=
  match txn.spillPgs, pspill with
  | none, pspill => some (0, pspill)
  | some sl, none => some (0, some sl)
  | some sl, some pspill =>
    let (rc, pspill) := match pspill.mdbMidlAppendList sl mem with
      | some pspill => (0, pspill)
      | none => (enomem, pspill)
    (pspill.mdbMidlSort (2 * pspill.count + 2)).map fun pspill => (rc, some pspill)

/-- Merges the lists of a nested transaction into those of its parent, which has no parent if it
    is the outermost one. -/
def mergeInto (txn parent : PageTxn D) (outermost : Bool) (freePgs : Midl) (mem : Bool) :
    Option (Int × PageTxn D) := do
  let pspill ← parentSpill txn parent
  let dirtyList ← mergeDirty (parentDirty txn parent) txn.dirtyList
    (if outermost then some (idlUmMax - txn.dirtyRoom) else none)
  let (rc, spillPgs) ← appendSpill txn pspill mem
  return (rc, { txn with
    freePgs
    dirtyList
    spillPgs
    error := rc ≠ 0
    loosePgs := parent.loosePgs ++ txn.loosePgs
    looseCount := parent.looseCount + txn.looseCount })

/-- `mdb_txn_commit`. The outermost transaction writes its pages to the file, after which the
    next one begins. -/
def txnCommit (s : PageTxns D) (mem : Bool × Bool) : Option (Int × PageTxns D) :=
  match s.parents with
  | [] =>
    if s.txn.error then some (mdbBadTxn, s.txnAbort)
    else
      let s := s.pageFlush 0 fun _ => false
      some (0, { s with metaNextPgno := s.txn.nextPgno }.txnRenew)
  | parent :: parents =>
    if s.txn.error then
      some (mdbBadTxn, { s with parents := { parent with error := true } :: parents }.txnAbort)
    else match parent.freePgs.mdbMidlAppendList s.txn.freePgs mem.1 with
      | none => some (enomem, s.txnAbort)
      | some free => do
        let (rc, txn) ← mergeInto s.txn parent parents.isEmpty free mem.2
        return (rc, { s with txn, parents })

/-! ## Calls -/

/-- What is done with the pages of a transaction. There may be no memory for what a call has to
    allocate. -/
inductive Call (D : Type)
  /-- A new page. -/
  | new (data : D) (reuse : Option ℕ) (mem : Bool)
  /-- A page is written to. -/
  | write (pgno : ℕ) (data : D) (reuse : Option ℕ) (mem : Bool × Bool)
  /-- A page is not needed any more. -/
  | loose (pgno : ℕ) (freeDbi mem : Bool)
  | spill (need : ℕ) (keep : ℕ → Bool) (mem : Bool × Bool)
  | begin (mem : Bool)
  | commit (mem : Bool × Bool)
  | abort

/-- A call: the return code, and the number of the page written to. -/
def call (s : PageTxns D) : Call D → Option ((Int × ℕ) × PageTxns D)
  | .new data reuse mem =>
    if s.txn.error then some ((mdbBadTxn, 0), s)
    else s.pageAlloc reuse mem fun pgno => ⟨pgno, true, false, data⟩
  | .write pgno data reuse mem =>
    if s.txn.error then some ((mdbBadTxn, 0), s)
    else match s.pageGet pgno with
      | none => some ((mdbPageNotfound, 0), s.fail)
      | some (mp, _) => do
        let ((rc, pgno), s) ← s.pageTouch mp reuse mem
        if rc ≠ 0 then return ((rc, 0), s)
        return ((0, pgno), { s with txn := s.txn.setPage ⟨pgno, true, false, data⟩ })
  | .loose pgno freeDbi mem =>
    if s.txn.error then some ((mdbBadTxn, 0), s)
    else match s.pageGet pgno with
      | none => some ((mdbPageNotfound, 0), s.fail)
      | some (mp, _) =>
        let (rc, s) := s.pageLoose mp freeDbi mem
        some ((rc, pgno), s)
  | .spill need keep mem =>
    if s.txn.error then some ((mdbBadTxn, 0), s)
    else do
      let (rc, s) ← s.pageSpill need keep mem
      return ((rc, 0), s)
  | .begin mem =>
    let (rc, s) := s.txnBegin mem
    some ((rc, 0), s)
  | .commit mem => do
    let (rc, s) ← s.txnCommit mem
    return ((rc, 0), s)
  | .abort => some ((0, 0), s.txnAbort)

end PageTxns

end KotlinLmdb
