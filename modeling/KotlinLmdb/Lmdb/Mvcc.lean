import KotlinLmdb.Machine
import Mathlib.Algebra.GroupWithZero.Nat
import Mathlib.Data.List.Sort
import Mathlib.Order.Interval.Finset.Nat

/-!
# Readers, the writer, and the pages they share

A file is read and written by transactions in any number of threads and processes. There is one
writer at a time, and it writes to pages that no reader needs: to new ones, and to ones that were
freed by transactions older than any snapshot in use. What is free is kept in the free list: for
each transaction, the pages it has freed.

What a reader uses it says in its slot of the reader table, without a lock: it takes the number
of the last transaction, puts it into the slot, and looks whether it still is the last one. The
writer looks through the table, again without a lock, for the oldest number there. In between
anything may happen. The steps here are single accesses to what is shared.

A commit saves the free list, which may itself allocate and free pages on the way, writes the pages
of the transaction, then one of the two meta pages, and then publishes its number. Writing may
fail, and processes may die at any time. If the file is mapped for writing, what is written to a
page is in the file at once (a page is written to, and then spilled), and so is each field of the
meta page; otherwise a meta page is written with one call.

What is in a page is not looked at: the free list stands next to the pages. Environments without
a reader table (`MDB_NOLOCK`) are left out, and read-only ones, whose readers take the number from
the meta page while there has been no writer.
-/

namespace KotlinLmdb

/-! ## What there is -/

/-- What a transaction has committed: what its roots lead to, its free list, and where the pages
    start that have never been used. -/
structure Snap (D : Type) where
  pages : ℕ → Option D
  /-- The pages freed, by the numbers of transactions, in ascending order. -/
  free : List (ℕ × List ℕ)
  nextPgno : ℕ

/-- A meta page. -/
structure MetaPage (D : Type) where
  txnid : ℕ
  snap : Snap D

/-- Stores a field of a meta page: one of the two roots, the last page, and last the number. -/
def MetaPage.store {D : Type} (m new : MetaPage D) : ℕ → MetaPage D
  | 0 => { m with snap := { m.snap with free := new.snap.free } }
  | 1 => { m with snap := { m.snap with pages := new.snap.pages } }
  | 2 => { m with snap := { m.snap with nextPgno := new.snap.nextPgno } }
  | _ => { m with txnid := new.txnid }

/-- A meta page some fields of which have been stored. There are four. -/
def MetaPage.stored {D : Type} (m new : MetaPage D) : ℕ → MetaPage D
  | 0 => m
  | n + 1 => (m.stored new n).store new n

/-- A slot of the reader table. -/
structure ReaderSlot where
  /-- `mr_pid`, 0 if the slot is not used. -/
  pid : ℕ
  /-- `mr_txnid`, none if it is `-1`. -/
  txnid : Option ℕ

/-- Where a reader is. -/
inductive Reader (D : Type)
  | idle
  /-- It looks for a slot, from `i` on, with the lock of the table. -/
  | search (i : ℕ)
  /-- It resets the slot it has found, first its process. -/
  | found (i : ℕ)
  /-- It resets the number in it. -/
  | emptied (i : ℕ)
  /-- It makes the slot part of the table. -/
  | reset (i : ℕ)
  /-- It puts its process there. -/
  | published (i : ℕ)
  /-- It gives back the lock. -/
  | claimed (i : ℕ)
  /-- It has a slot, and no transaction. -/
  | owner (i : ℕ)
  /-- It has read `mti_txnid`. -/
  | saw (i txnid : ℕ)
  /-- It has put it into its slot. -/
  | wrote (i txnid : ℕ)
  /-- It has found it still to be the last one. -/
  | checked (i txnid : ℕ)
  /-- It has copied the roots of the meta page. -/
  | copied (i txnid : ℕ) (snap : Snap D)
  /-- It reads pages, up to `nextPgno`. -/
  | reading (i txnid : ℕ) (snap : Snap D) (nextPgno : ℕ)

/-- The variables of `mdb_freelist_save`, and what it has done to the free list. -/
structure Save where
  pglast : ℕ
  headId : ℕ
  freecnt : ℕ
  headRoom : ℤ
  totalRoom : ℤ
  more : ℤ
  /-- It has put a record for the pages freed, and has not filled it yet. -/
  filling : Bool
  /-- What is in that record, if there is one. -/
  own : Option (List ℕ)
  /-- The records reserved for `me_pghead`, in ascending order, with the room in them. -/
  reserved : List (ℕ × ℕ)
  /-- The last of the records there were that it has deleted. -/
  deleted : ℕ

/-- The pages a reader reads. -/
def Reader.pages {D : Type} : Reader D → ℕ → Option D
  | .reading _ _ snap _ => snap.pages
  | _ => fun _ => none

/-- Where they end, as it has read from its meta page. -/
def Reader.nextPgno {D : Type} : Reader D → ℕ
  | .reading _ _ _ nextPgno => nextPgno
  | _ => 0

/-- The write transaction. -/
structure Writer (D : Type) where
  pid : ℕ
  txnid : ℕ
  /-- What it has started from. -/
  snap : Snap D
  nextPgno : ℕ
  /-- `me_pghead`: pages to be used again, in descending order. -/
  pghead : Option (List ℕ)
  /-- `me_pglast`: the last record of the free list that has been used. -/
  pglast : ℕ
  /-- The pages it has allocated. -/
  own : Finset ℕ
  /-- The pages as it has them. -/
  pages : ℕ → Option D
  loosePgs : List ℕ
  freePgs : List ℕ
  error : Bool
  /-- The free list is being saved. -/
  saving : Option Save

/-- The variables of `mdb_page_alloc`. -/
structure Alloc (D : Type) where
  num : ℕ
  retry : ℤ
  /-- The first iteration. -/
  first : Bool
  last : ℕ
  oldest : ℕ
  foundOld : Bool
  /-- What is going to be written to the pages. -/
  data : ℕ → D

/-- Where the writer is. -/
inductive Phase (D : Type)
  | work
  /-- It looks for pages to be used again. -/
  | search (a : Alloc D)
  /-- `mdb_find_oldest`, from the slot before `i` on, whose `mr_pid` it has read or not. The record
      to be used may have been read. -/
  | scan (a : Alloc D) (idl : Option (List ℕ)) (i : ℕ) (pid : Bool) (oldest : ℕ)
  | fetch (a : Alloc D)
  | load (a : Alloc D) (idl : List ℕ)
  /-- It writes the pages that are left to be written. -/
  | flush (snap : Snap D) (todo : List ℕ)
  /-- It stores the meta page in the map, `n` fields of it so far. -/
  | store (snap : Snap D) (n : ℕ)
  | sync
  /-- It writes the meta page to the file. -/
  | pwrite (snap : Snap D)
  /-- Writing has failed: it writes the last page and the number that were there back. -/
  | writeBack (m : MetaPage D)
  | publish

/-- The state of the file, the reader table, and all processes. -/
structure Mvcc (D : Type) where
  map : ℕ → Option D
  metas : ℕ → MetaPage D
  maxpg : ℕ
  /-- `me_maxfree_1pg`: the pages a record has room for that is on a single page. -/
  maxfree1pg : ℕ
  /-- `mti_txnid`. -/
  txnid : ℕ
  slots : ℕ → ReaderSlot
  numreaders : ℕ
  maxreaders : ℕ
  /-- The reader with the lock of the table. -/
  rmutex : Option ℕ
  readers : ℕ → Reader D
  /-- The process of each reader. -/
  pids : ℕ → ℕ
  /-- `me_pgoldest`, of each process. -/
  pgoldest : ℕ → ℕ
  /-- `MDB_WRITEMAP`, of each process. -/
  writemap : ℕ → Bool
  /-- `MDB_FATAL_ERROR`, of each process. -/
  fatal : ℕ → Bool
  /-- The processes that have died. -/
  dead : ℕ → Bool
  /-- The writer, none if it has died with its lock. -/
  writer : Option (Option (Writer D × Phase D))

variable {D : Type}

namespace Mvcc

/-- `mdb_env_pick_meta`. -/
def pickMeta (s : Mvcc D) : MetaPage D :=
  if (s.metas 0).txnid < (s.metas 1).txnid then s.metas 1 else s.metas 0

/-! ## Readers -/

/-- Where a reader goes on. -/
def setReader (s : Mvcc D) (r : ℕ) (reader : Reader D) : Mvcc D :=
  { s with readers := Function.update s.readers r reader }

/-- Writes to a slot. -/
def setSlot (s : Mvcc D) (i : ℕ) (slot : ReaderSlot) : Mvcc D :=
  { s with slots := Function.update s.slots i slot }

/-- The end of a read transaction. -/
def endReader (s : Mvcc D) (r i : ℕ) : Mvcc D :=
  (s.setSlot i { s.slots i with txnid := none }).setReader r (.owner i)

/-- The next step of a reader. While it has no transaction, it may give up its slot. -/
def readerStep (s : Mvcc D) (r : ℕ) (keepSlot : Bool) : Option (Mvcc D) :=
  match s.readers r with
  | .idle =>
    if s.rmutex = none then some ({ s with rmutex := some r }.setReader r (.search 0)) else none
  | .search i =>
    if i < s.numreaders then
      some (s.setReader r (if (s.slots i).pid = 0 then .found i else .search (i + 1)))
    else if i = s.maxreaders then some ({ s with rmutex := none }.setReader r .idle)
    else some (s.setReader r (.found i))
  | .found i => some ((s.setSlot i { s.slots i with pid := 0 }).setReader r (.emptied i))
  | .emptied i => some ((s.setSlot i { s.slots i with txnid := none }).setReader r (.reset i))
  | .reset i =>
    let numreaders := if i = s.numreaders then s.numreaders + 1 else s.numreaders
    some ({ s with numreaders }.setReader r (.published i))
  | .published i =>
    some ((s.setSlot i { s.slots i with pid := s.pids r }).setReader r (.claimed i))
  | .claimed i => some ({ s with rmutex := none }.setReader r (.owner i))
  | .owner i =>
    if keepSlot then some (s.setReader r (.saw i s.txnid))
    else some ((s.setSlot i { s.slots i with pid := 0 }).setReader r .idle)
  | .saw i txnid =>
    some ((s.setSlot i { s.slots i with txnid := some txnid }).setReader r (.wrote i txnid))
  | .wrote i txnid =>
    some (s.setReader r (if txnid ≠ s.txnid then .owner i else .checked i txnid))
  | .checked i txnid => some (s.setReader r (.copied i txnid (s.metas (txnid % 2)).snap))
  | .copied i txnid snap =>
    if s.fatal (s.pids r) then some (s.endReader r i)
    else some (s.setReader r (.reading i txnid snap (s.metas (txnid % 2)).snap.nextPgno))
  | .reading i _ _ _ => some (s.endReader r i)

/-! ## The writer -/

/-- The search for a range of pages in a list: the place of the last one. -/
def findRange (mop : List ℕ) (n2 : ℕ) : ℕ → Option ℕ
  | 0 => none
  | i + 1 =>
    if i + 1 > n2 then
      if mop[i - n2]? = mop[i]?.map (· + n2) then some (i + 1) else findRange mop n2 i
    else none

/-- The record of the free list after a transaction. -/
def nextRecord (free : List (ℕ × List ℕ)) (last : ℕ) : Option (ℕ × List ℕ) :=
  free.find? fun record => last < record.1

/-- The records of the free list it may find, of those there were and its own. -/
def freeDb (w : Writer D) : List (ℕ × List ℕ) :=
  w.snap.free ++ ((w.saving.bind Save.own).map fun pgs => (w.txnid, pgs)).toList

/-- Two lists in descending order, merged (`mdb_midl_xmerge`). -/
def xmerge (mop idl : List ℕ) : List ℕ := mop.foldr (List.orderedInsert (· ≥ ·)) idl

/-- Pages are given to the transaction. -/
def give (w : Writer D) (pgno num : ℕ) (data : ℕ → D) : Writer D :=
  { w with
    own := w.own ∪ Finset.Ico pgno (pgno + num)
    pages := fun p => if pgno ≤ p ∧ p < pgno + num then some (data p) else w.pages p }

/-- Where the writer goes on. -/
def setWriter (s : Mvcc D) (w : Writer D) (phase : Phase D) : Mvcc D :=
  { s with writer := some (some (w, phase)) }

/-- Uses new pages, when nothing suitable is free. -/
def allocNew (s : Mvcc D) (w : Writer D) (a : Alloc D) (mem : Bool) : Mvcc D :=
  if w.nextPgno + a.num ≥ s.maxpg ∨ ¬mem then s.setWriter { w with error := true } .work
  else s.setWriter (give { w with nextPgno := w.nextPgno + a.num } w.nextPgno a.num a.data) .work

/-- Goes on with a record of the free list, or to read it, unless it is too recent. -/
def checkOldest (s : Mvcc D) (w : Writer D) (a : Alloc D) (idl : Option (List ℕ)) (mem : Bool) :
    Mvcc D :=
  if a.oldest ≤ a.last then
    if a.foundOld then s.allocNew w a mem
    else s.setWriter w (.scan a idl s.numreaders false (w.txnid - 1))
  else match idl with
    | some idl => s.setWriter w (.load a idl)
    | none => s.setWriter w (.fetch a)

/-- Prepares to fetch another record. -/
def prepare (s : Mvcc D) (w : Writer D) (a : Alloc D) (mem : Bool) : Mvcc D :=
  let a := if a.first then { a with last := w.pglast, oldest := s.pgoldest w.pid } else a
  s.checkOldest w { a with first := false, last := a.last + 1 } none mem

/-- The next step of `mdb_page_alloc`. There may be no memory for what it has to allocate. -/
def allocStep (s : Mvcc D) (w : Writer D) (mem : Bool) : Phase D → Option (Mvcc D)
  | .search a =>
    let mop := w.pghead.getD []
    let n2 := a.num - 1
    if mop.length > n2 then
      match findRange mop n2 mop.length with
      | some i =>
        if mem then
          let rest := mop.take (i - a.num) ++ mop.drop i
          some (s.setWriter (give { w with pghead := some rest } (mop.getD (i - 1) 0) a.num a.data)
            .work)
        else some (s.setWriter { w with error := true } .work)
      | none =>
        if a.retry - 1 < 0 then some (s.allocNew w a mem)
        else some (s.prepare w { a with retry := a.retry - 1 } mem)
    else some (s.prepare w a mem)
  | .scan a idl (i + 1) false oldest =>
    some (s.setWriter w (if (s.slots i).pid = 0 then .scan a idl i false oldest
      else .scan a idl (i + 1) true oldest))
  | .scan a idl (i + 1) true oldest =>
    -- `(txnid_t)-1` is not less than any number
    let oldest := match (s.slots i).txnid with
      | some mr => if oldest > mr then mr else oldest
      | none => oldest
    some (s.setWriter w (.scan a idl i false oldest))
  | .scan a idl 0 _ oldest =>
    let s := { s with pgoldest := Function.update s.pgoldest w.pid oldest }
    some (s.checkOldest w { a with oldest, foundOld := true } idl mem)
  | .fetch a =>
    match nextRecord (freeDb w) w.pglast with
    | none => some (s.allocNew w a mem)
    | some (last, idl) => some (s.checkOldest w { a with last } (some idl) mem)
  | .load a idl =>
    if mem then
      let mop := xmerge (w.pghead.getD []) idl
      some (s.setWriter { w with pghead := some mop, pglast := a.last } (.search a))
    else some (s.setWriter { w with error := true } .work)
  | _ => none

/-! ## Saving the free list -/

end Mvcc

namespace Save

/-- Before anything is saved. -/
def init : Save := ⟨0, 0, 0, 0, 0, 1, false, none, [], 0⟩

/-- Deletes the first record of the free list. -/
def delete (v : Save) (free : List (ℕ × List ℕ)) : Option Save :=
  match v.reserved, Mvcc.nextRecord free v.deleted with
  | (id, _) :: reserved, _ =>
    some { v with reserved, pglast := id, headId := id, headRoom := 0, totalRoom := 0 }
  | [], some (id, _) =>
    some { v with deleted := id, pglast := id, headId := id, headRoom := 0, totalRoom := 0 }
  | [], none => none

/-- The room for pages in the record `headId`: for all that is left of `mopLen` pages, or for some,
    if it would take more than a page. -/
def room (v : Save) (maxfree1pg : ℕ) (mopLen : ℤ) : ℤ :=
  let headRoom := mopLen - (v.totalRoom - v.headRoom)
  if headRoom > maxfree1pg ∧ v.headId > 1 then
    headRoom / v.headId + (maxfree1pg - headRoom / v.headId % (maxfree1pg + 1))
  else if headRoom < 0 then 0
  else headRoom

/-- Reserves the record `headId`, or reserves it again. -/
def reserve (v : Save) (maxfree1pg : ℕ) (mopLen : ℤ) : Save :=
  let headRoom := v.room maxfree1pg mopLen
  { v with
    headRoom
    totalRoom := v.totalRoom - v.headRoom + headRoom
    reserved := (v.headId, headRoom.toNat) :: v.reserved.filter (v.headId < ·.1) }

/-- A full record is kept, and another one is going to be reserved. -/
def another (v : Save) (maxfree1pg : ℕ) : Save :=
  if v.headRoom ≥ maxfree1pg ∧ v.headId > 1 then { v with headId := v.headId - 1, headRoom := 0 }
  else v

end Save

namespace Mvcc

/-- Fills the records reserved for pages with them, the last ones first. -/
def fillRecords : List (ℕ × ℕ) → List ℕ → List (ℕ × List ℕ)
  | [], _ => []
  | (id, len) :: records, mop =>
    let n := min len mop.length
    (id, mop.drop (mop.length - n)) :: fillRecords records (mop.take (mop.length - n))

/-- The pages to be used again, as they are saved: with the loose ones. -/
def savedMop (w : Writer D) : List ℕ :=
  xmerge (w.pghead.getD []) (w.loosePgs.insertionSort (· ≥ ·))

/-- The free list when it has been saved. -/
def freelistSave (w : Writer D) (v : Save) : List (ℕ × List ℕ) :=
  fillRecords v.reserved (savedMop w) ++ w.snap.free.filter (v.deleted < ·.1) ++
    (v.own.map fun pgs => (w.txnid, pgs)).toList

/-- Starts to save the free list. Loose pages are freed if they cannot be put into `me_pghead`. -/
def startSave (w : Writer D) : Writer D :=
  if w.pghead.isNone then
    { w with freePgs := w.freePgs ++ w.loosePgs, loosePgs := [], saving := some .init }
  else { w with saving := some .init }

/-- The pages of the transaction are written. -/
def startFlush (s : Mvcc D) (w : Writer D) (v : Save) : Mvcc D :=
  s.setWriter w (.flush ⟨w.pages, freelistSave w v, w.nextPgno⟩
    ((List.range w.nextPgno).filter fun p => p ∈ w.own ∧ (w.pages p).isSome))

/-- The next step of the loop of `mdb_freelist_save`. After each, before the call it makes returns,
    pages may be allocated and freed. A failed assertion has no result. -/
def saveStep (s : Mvcc D) (w : Writer D) (v : Save) : Option (Mvcc D) :=
  let save (v : Save) := s.setWriter { w with saving := some v } .work
  if v.filling then
    if v.freecnt < w.freePgs.length then
      -- more have been freed by putting the record
      some (save { v with freecnt := w.freePgs.length, own := some [] })
    else
      let freePgs := w.freePgs.insertionSort (· ≥ ·)
      some (s.setWriter { w with
        freePgs, saving := some { v with filling := false, own := some freePgs } } .work)
  else if v.pglast < w.pglast then
    (v.delete w.snap.free).bind fun v => if v.pglast ≤ w.pglast then some (save v) else none
  else if v.freecnt < w.freePgs.length then
    some (save { v with freecnt := w.freePgs.length, filling := true })
  else
    let mopLen : ℤ := (w.pghead.getD []).length + w.loosePgs.length
    if v.totalRoom < mopLen then
      some (save ((v.another s.maxfree1pg).reserve s.maxfree1pg mopLen))
    else if v.totalRoom = mopLen ∨ v.more - 1 < 0 then some (s.startFlush w v)
    else some (save ({ v with more := v.more - 1 }.reserve s.maxfree1pg mopLen))

/-! ## The work of a transaction -/

/-- What the writer does between allocations. -/
inductive Act (D : Type)
  | alloc (num : ℕ) (data : ℕ → D)
  | write (pgno : ℕ) (data : D)
  /-- A page is written to the file. -/
  | spill (pgno : ℕ)
  /-- A page is not needed any more. Its own pages may be made loose. -/
  | free (pgno : ℕ) (loose : Bool)
  /-- A page of its own is put back among those to be used again (`mdb_ovpage_free`). -/
  | giveBack (pgno : ℕ)
  /-- Fails, for one of many reasons. -/
  | fail
  /-- Something may have been changed (`MDB_TXN_DIRTY`) without pages that are left. -/
  | commit (dirty : Bool)
  /-- Goes on to save the free list. -/
  | save
  | abort

/-- What the writer does between allocations, unless it has failed. -/
def act (s : Mvcc D) (w : Writer D) : Act D → Option (Mvcc D)
  | .alloc num data =>
    match num, w.loosePgs with
    | 0, _ => none
    | 1, pgno :: loosePgs =>
      some (s.setWriter (give { w with loosePgs } pgno 1 data) .work)
    | num + 1, _ =>
      some (s.setWriter w (.search ⟨num + 1, (num + 1) * 60, true, 0, 0, false, data⟩))
  | .write pgno data =>
    if pgno ∈ w.own ∧ (w.pages pgno).isSome then
      some (s.setWriter { w with pages := Function.update w.pages pgno (some data) } .work)
    else none
  | .spill pgno =>
    if pgno ∈ w.own ∧ (w.pages pgno).isSome then
      some ({ s with map := Function.update s.map pgno (w.pages pgno) }.setWriter w .work)
    else none
  | .free pgno loose =>
    if (w.pages pgno).isSome then
      let pages := Function.update w.pages pgno none
      if pgno ∈ w.own ∧ loose ∧ w.saving.isNone then
        some (s.setWriter { w with pages, loosePgs := pgno :: w.loosePgs } .work)
      else some (s.setWriter { w with pages, freePgs := w.freePgs ++ [pgno] } .work)
    else none
  | .giveBack pgno =>
    match w.pghead with
    | some mop =>
      if pgno ∈ w.own ∧ (w.pages pgno).isSome then
        some (s.setWriter { w with
          pages := Function.update w.pages pgno none
          own := w.own.erase pgno
          pghead := some (mop.orderedInsert (· ≥ ·) pgno) } .work)
      else none
    | none => none
  | .fail => some (s.setWriter { w with error := true } .work)
  | .commit dirty =>
    if w.saving.isSome then none
    else if w.own = ∅ ∧ ¬dirty then some { s with writer := some none }
    else some (s.setWriter (startSave w) .work)
  | .save => w.saving.bind (s.saveStep w)
  | .abort => none

/-! ## Commits -/

/-- Writes the meta page of a transaction. -/
def setMeta (s : Mvcc D) (w : Writer D) (m : MetaPage D) : Mvcc D :=
  { s with metas := Function.update s.metas (w.txnid % 2) m }

/-- The meta page could not be written. -/
def failMeta (s : Mvcc D) (w : Writer D) : Mvcc D :=
  { s with fatal := Function.update s.fatal w.pid true, writer := some none }

/-- The rest of a commit: `mdb_page_flush`, and `mdb_env_write_meta`. What is written may fail, or
    what is synced; then `stored` fields of the meta page may have been written nevertheless. -/
def commitStep (s : Mvcc D) (w : Writer D) (ok : Bool) (stored : ℕ) : Phase D → Option (Mvcc D)
  | .flush snap (pgno :: todo) =>
    if ok then
      some ({ s with map := Function.update s.map pgno (w.pages pgno) }.setWriter w
        (.flush snap todo))
    else some { s with writer := some none }
  | .flush snap [] =>
    if ok then some (s.setWriter w (if s.writemap w.pid then .store snap 0 else .pwrite snap))
    else some { s with writer := some none }
  | .store snap n =>
    some ((s.setMeta w ((s.metas (w.txnid % 2)).store ⟨w.txnid, snap⟩ n)).setWriter w
      (if n < 3 then .store snap (n + 1) else .sync))
  | .sync => if ok then some (s.setWriter w .publish) else some (s.failMeta w)
  | .pwrite snap =>
    let old := s.metas (w.txnid % 2)
    if ok then some ((s.setMeta w ⟨w.txnid, snap⟩).setWriter w .publish)
    else
      some ((s.setMeta w (old.stored ⟨w.txnid, snap⟩ stored)).setWriter w
        (.writeBack ⟨old.txnid, { snap with nextPgno := old.snap.nextPgno }⟩))
  -- whether this fails, too, is not looked at
  | .writeBack m =>
    some ((s.setMeta w ((s.metas (w.txnid % 2)).stored m stored)).failMeta w)
  | .publish => some { s with txnid := w.txnid, writer := some none }
  | _ => none

/-! ## Steps -/

/-- What happens next. -/
inductive Event (D : Type)
  | reader (r : ℕ) (keepSlot : Bool)
  | begin (pid : ℕ)
  | act (a : Act D)
  | alloc (mem : Bool)
  | commit (ok : Bool) (stored : ℕ)
  /-- A process dies. -/
  | die (pid : ℕ)
  /-- The slot of a process that has died is cleared (`mdb_reader_check`). -/
  | clear (i : ℕ)
  /-- The lock of a writer that has died is taken over (`mdb_mutex_failed`). -/
  | recover
  /-- So is the lock of the reader table. -/
  | recoverTable

/-- A step, unless it cannot be made. -/
def step (s : Mvcc D) : Event D → Option (Mvcc D)
  | .reader r keepSlot => if s.dead (s.pids r) then none else s.readerStep r keepSlot
  | .begin pid =>
    match s.writer with
    | some none =>
      if s.dead pid ∨ s.fatal pid then none
      else
        let snap := (s.metas (s.txnid % 2)).snap
        some (s.setWriter ⟨pid, s.txnid + 1, snap, snap.nextPgno, none, 0, ∅, snap.pages, [], [],
          false, none⟩ .work)
    | _ => none
  | .act a =>
    match s.writer, a with
    | some (some (_, .work)), .abort => some { s with writer := some none }
    | some (some (w, .work)), a => if w.error then none else s.act w a
    | _, _ => none
  | .alloc mem =>
    match s.writer with
    | some (some (w, phase)) => s.allocStep w mem phase
    | _ => none
  | .commit ok stored =>
    match s.writer with
    | some (some (w, phase)) => s.commitStep w ok stored phase
    | _ => none
  | .die pid =>
    let s := { s with dead := Function.update s.dead pid true }
    match s.writer with
    | some (some (w, _)) => if w.pid = pid then some { s with writer := none } else some s
    | _ => some s
  | .clear i =>
    if s.rmutex = none ∧ s.dead (s.slots i).pid then
      some (s.setSlot i { s.slots i with pid := 0 })
    else none
  | .recover =>
    match s.writer with
    | none => some { s with txnid := s.pickMeta.txnid, writer := some none }
    | _ => none
  | .recoverTable =>
    match s.rmutex with
    | some r => if s.dead (s.pids r) then some { s with rmutex := none } else none
    | none => none

/-- All readers, the writer, and what befalls them, in any order. -/
def machine (D : Type) : Machine (Mvcc D) (Event D) Bool where
  step s e :=
    match s.step e with
    | some s' => (true, s')
    | none => (false, s)

/-- A new file, with no pages but the two meta pages. -/
def init (map : ℕ → Option D) (maxpg maxfree1pg maxreaders : ℕ) (pids : ℕ → ℕ)
    (writemap : ℕ → Bool) : Mvcc D where
  map
  metas _ := ⟨0, fun _ => none, [], 2⟩
  maxpg
  maxfree1pg
  txnid := 0
  slots _ := ⟨0, none⟩
  numreaders := 0
  maxreaders
  rmutex := none
  readers _ := .idle
  pids
  pgoldest _ := 0
  writemap
  fatal _ := false
  dead _ := false
  writer := some none

end Mvcc

end KotlinLmdb
