import KotlinLmdb.Lmdb.Handles
import Mathlib.Logic.Function.Basic

/-!
# Database slots

LMDB with its transactions and its database handles, which are slots of a table of
the environment. A slot holds the name of a database and the comparers in effect for
it, and all transactions share the table.

A transaction has its own view of it (`View`): how many slots there are, which of them
it may use, and the records it has loaded, one for each database. When it ends, the
slots it assigned are exported to the environment if it was committed, and closed if
it was not (`mdb_dbis_update`).

Opening a named database gives the slot of that name, or assigns it the first free
one; opening the unnamed one gives `mainDbi`, and resets its comparers each time.
-/

namespace KotlinLmdb

/-- A comparison function LMDB calls: one of its own or one it was given. -/
inductive CmpFunc
  | memn
  | memnr
  | cint
  | int
  | callback (cb : Callback Ptr)
  deriving DecidableEq

/-- The comparers of a database with these flags: `mdb_default_cmp`. -/
def defaultCmp (flags : UInt32) : CmpFunc :=
  if flags &&& 0x02 ≠ 0 then .memnr
  else if flags &&& 0x08 ≠ 0 then .cint
  else .memn

def defaultDcmp (flags : UInt32) : Option CmpFunc :=
  if flags &&& 0x04 = 0 then none
  else if flags &&& 0x20 ≠ 0 then some (if flags &&& 0x10 ≠ 0 then .int else .cint)
  else some (if flags &&& 0x40 ≠ 0 then .memnr else .memn)

/-- A default comparer is none of the wrapper's. -/
theorem defaultCmp_ne_callback (flags : UInt32) (cb : Callback Ptr) :
    defaultCmp flags ≠ .callback cb := by
  rw [defaultCmp]
  split
  · nofun
  · split <;> nofun

/-- Two names. -/
def DbName.a : DbName := ⟨"a", by decide⟩

@[inherit_doc DbName.a]
def DbName.b : DbName := ⟨"b", by decide⟩

/-- A slot of the environment. It keeps its comparers when it is closed. -/
structure DbSlot where
  name : Option DbName := none
  cmp : Option CmpFunc := none
  dcmp : Option CmpFunc := none
  /-- The slot was exported. -/
  valid : Bool := false
  /-- It is counted up whenever the slot is assigned or closed. -/
  seq : ℕ := 0
  deriving DecidableEq

namespace DbSlot

variable (x : DbSlot)

/-- Closing a slot, unless it is closed already. -/
def close : DbSlot :=
  if x.name.isSome then { x with name := none, valid := false, seq := x.seq + 1 } else x

/-- Setting the default comparers. -/
def reset (flags : UInt32) : DbSlot :=
  { x with cmp := some (defaultCmp flags), dcmp := defaultDcmp flags }

/-- Assigning a slot to the database of a name. -/
def assign (name : DbName) (flags : UInt32) : DbSlot :=
  { x.reset flags with name := some name, seq := x.seq + 1 }

@[simp]
theorem name_close : x.close.name = none := by
  cases h : x.name <;> simp [close, h]

end DbSlot

/-- What a transaction has of a slot. -/
inductive Known
  /-- It may not use the slot. -/
  | invalid
  /-- It may use the slot, and has not loaded the record. -/
  | stale
  /-- It has loaded the record of this name. -/
  | loaded (name : DbName)
  deriving DecidableEq

/-- The records of the named databases: their flags. -/
abbrev Catalog := DbName → Option UInt32

/-- A transaction's view of the slots. One that has ended has none. -/
structure View where
  numdbs : ℕ := 0
  known : Ptr → Known := fun _ => .invalid
  /-- The slots it assigned. -/
  isNew : Ptr → Bool := fun _ => false
  catalog : Catalog := fun _ => none
  /-- The flags of the unnamed database. -/
  mainFlags : UInt32 := 0

namespace View

variable (v : View) (i : Ptr)

/-- Having something else of a slot. -/
def know (k : Known) : View := { v with known := Function.update v.known i k }

/-- The view after assigning a slot to a database with these flags. -/
def assign (name : DbName) (flags : UInt32) : View :=
  { v.know i (.loaded name) with
    numdbs := max v.numdbs (i + 1)
    isNew := Function.update v.isNew i true
    catalog := Function.update v.catalog name (some flags) }

/-- The view after deleting the database of a slot. -/
def delete (name : Option DbName) : View :=
  { v.know i .invalid with
    isNew := Function.update v.isNew i false
    catalog := name.elim v.catalog fun name => Function.update v.catalog name none }

/-- The view of a child begun now. -/
def child : View := { v with isNew := fun _ => false }

/-- The view after a child was committed. -/
def absorb (child : View) : View := { child with isNew := fun i => child.isNew i || v.isNew i }

variable {v i}

/-- What is known of a slot, after changing that of one. -/
theorem known_know {k : Known} {j : Ptr} :
    (v.know i k).known j = if j = i then k else v.known j := Function.update_apply ..

end View

/-- The slot of the unnamed database. -/
abbrev mainDbi : Ptr := 1

/-- The number of slots that are not for named databases. -/
abbrev coreDbs : ℕ := 2

abbrev mdbDbsFull : Int := -30791

abbrev mdbBadDbi : Int := -30780

/-- `MDB_CREATE`. -/
abbrev mdbCreate : UInt32 := 0x40000

/-- The flags of a database that are stored with it. -/
abbrev persistentFlags : UInt32 := 0x7fff

/-- The flags a database may be opened with. -/
abbrev validFlags : UInt32 := 0x4007e

/-- An environment: transactions and slots. -/
structure Dbis where
  handles : Handles
  slots : Ptr → DbSlot := fun _ => {}
  numdbs : ℕ := coreDbs
  maxdbs : ℕ
  /-- What was committed. -/
  catalog : Catalog := fun _ => none
  mainFlags : UInt32 := 0
  views : Ptr → View := fun _ => {}
  /-- The sequence numbers the write transactions go by. -/
  seqs : Ptr → ℕ := fun _ => 0
  /-- The transactions and slots cursors go through. -/
  owner : Ptr → Ptr × Ptr := fun _ => (0, 0)
  /-- The records written back when the unnamed database was emptied: those of the
      databases written to. -/
  rewritten : DbName → Bool := fun _ => false

namespace Dbis

variable (s : Dbis) (h i : Ptr)

/-- A request that only involves handles. -/
def handled (r : Reply × Handles) : Reply × Dbis := (r.1, { s with handles := r.2 })

/-- A request refused for the slot it is made on. -/
def refuse (rc : Int) : Reply × Dbis := ({ rc }, s)

def setSlot (x : DbSlot) : Dbis := { s with slots := Function.update s.slots i x }

def setView (v : View) : Dbis := { s with views := Function.update s.views h v }

/-! ## Transactions -/

/-- The view of a transaction begun now that has no parent. -/
def topView : View where
  numdbs := s.numdbs
  known i := if coreDbs ≤ i ∧ i < s.numdbs ∧ (s.slots i).valid then .stale else .invalid
  catalog := s.catalog
  mainFlags := s.mainFlags

/-- `mdb_txn_begin`. -/
def txnBegin (parent : Option Ptr) (flags : UInt32) : Reply × Dbis :=
  let r := s.handles.txnBegin parent flags
  let s' := (s.handled r).2
  if r.1.rc ≠ 0 then (r.1, s')
  else match parent with
    | none =>
      if s.handles.closed then (r.1, s')
      else if flags &&& mdbRdonly ≠ 0 then (r.1, s'.setView r.1.ptr s.topView)
      else (r.1, { s'.setView r.1.ptr s.topView with seqs := fun i => (s.slots i).seq })
    | some h =>
      if s.handles.status h = .active then (r.1, s'.setView r.1.ptr (s.views h).child)
      else (r.1, s')

/-- A transaction among these assigned the slot. -/
def NewIn (hs : List Ptr) (i : Ptr) : Prop :=
  coreDbs ≤ i ∧ ∃ h ∈ hs, i < (s.views h).numdbs ∧ (s.views h).isNew i

instance (hs : List Ptr) (i : Ptr) : Decidable (s.NewIn hs i) :=
  inferInstanceAs (Decidable (_ ∧ _))

/-- Transactions end. -/
def forget (hs : List Ptr) : Dbis :=
  { s with views := fun h => if h ∈ hs then {} else s.views h }

/-- Transactions end that are not committed. -/
def discard (hs : List Ptr) : Dbis :=
  { s.forget hs with slots := fun i => if s.NewIn hs i then (s.slots i).close else s.slots i }

/-- The slots a committed transaction assigned are exported. -/
def exportSlots (v : View) : Dbis :=
  { s with
    slots := fun i =>
      if coreDbs ≤ i ∧ i < v.numdbs ∧ v.isNew i then { s.slots i with valid := true }
      else s.slots i
    numdbs := max s.numdbs v.numdbs }

/-- The view of a transaction after its children, given from it on, were committed. -/
def merged : List Ptr → View
  | [] => {}
  | [h] => s.views h
  | h :: hs => (s.views h).absorb (merged hs)

/-- A write transaction is committed with its children: to its parent, or for good. -/
def publish (ending : List Ptr) : Option Ptr → Dbis
  | none =>
    let v := s.merged ending
    { (s.exportSlots v).forget ending with catalog := v.catalog, mainFlags := v.mainFlags }
  | some parent => (s.forget ending).setView parent ((s.views parent).absorb (s.merged ending))

/-- `mdb_txn_commit`. -/
def txnCommit : Reply × Dbis :=
  let r := s.handles.txnCommit h
  let s' := (s.handled r).2
  match s.handles.status h with
  | .active | .blocked =>
    let ending := s.handles.ending h
    if r.1.rc = 0 then
      (r.1, s'.publish ending (s.handles.writers.takeWhile (· ≠ h)).getLast?)
    else (r.1, s'.discard ending)
  | .reader | .parked => (r.1, (s'.exportSlots (s.views h)).forget [h])
  | .idle | .dangling => (r.1, s')

/-- `mdb_txn_abort`. -/
def txnAbort : Reply × Dbis :=
  let r := s.handles.txnAbort h
  let s' := (s.handled r).2
  match s.handles.status h with
  | .active | .blocked => (r.1, s'.discard (s.handles.ending h))
  | .reader | .parked => (r.1, s'.discard [h])
  | .idle | .dangling => (r.1, s')

/-- `mdb_txn_reset`. -/
def txnReset : Reply × Dbis :=
  let r := s.handles.txnReset h
  let s' := (s.handled r).2
  match s.handles.status h with
  | .reader => (r.1, s'.discard [h])
  | _ => (r.1, s')

/-- `mdb_txn_renew`. -/
def txnRenew : Reply × Dbis :=
  let r := s.handles.txnRenew h
  let s' := (s.handled r).2
  match s.handles.status h with
  | .parked => if r.1.rc = 0 then (r.1, s'.setView h s.topView) else (r.1, s')
  | _ => (r.1, s')

/-! ## Opening and closing databases -/

/-- The slots for named databases a transaction sees. -/
def named : List Ptr := List.range' coreDbs ((s.views h).numdbs - coreDbs)

/-- The slot a database is already open in. -/
def find? (name : DbName) : Option Ptr :=
  (s.named h).find? fun i => (s.slots i).name = some name

/-- The first free slot. -/
def unused? : Option Ptr := (s.named h).find? fun i => (s.slots i).name = none

/-- The slot assigned next. -/
def slotFor : Ptr := (s.unused? h).getD (s.views h).numdbs

/-- Opening the unnamed database. -/
def openMain (flags : UInt32) : Reply × Dbis :=
  let f := (s.views h).mainFlags ||| flags &&& persistentFlags
  ({ ptr := mainDbi }, (s.setView h { s.views h with mainFlags := f }).setSlot mainDbi
    ((s.slots mainDbi).reset f))

/-- Assigning a slot to a database with these flags. -/
def assign (name : DbName) (flags : UInt32) : Reply × Dbis :=
  let i := s.slotFor h
  let s' :=
    (s.setSlot i ((s.slots i).assign name flags)).setView h ((s.views h).assign i name flags)
  ({ ptr := i }, { s' with
    seqs := if h ∈ s.handles.writers then Function.update s.seqs i ((s.slots i).seq + 1)
      else s.seqs })

/-- The unnamed database has comparers from the first opening on. -/
def initMain : Dbis :=
  if (s.slots mainDbi).cmp.isSome then s
  else s.setSlot mainDbi ((s.slots mainDbi).reset (s.views h).mainFlags)

/-- Opening a named database that is not open yet. Reading its record may fail, as may
    writing one. -/
def openNew (name : DbName) (flags : UInt32) : Reply × Dbis :=
  if s.unused? h = none ∧ s.maxdbs ≤ (s.views h).numdbs then s.refuse mdbDbsFull
  else if (s.views h).mainFlags &&& 0x0c ≠ 0 then
    s.refuse (if flags &&& mdbCreate ≠ 0 then mdbIncompatible else mdbNotfound)
  else if name.toString = "" then s.refuse mdbBadValsize
  else if s.handles.result.rc ≠ 0 then s.handled s.handles.request
  else
    let s' := (s.handled s.handles.request).2
    match (s.views h).catalog name with
    | some f => s'.assign h name f
    | none =>
      if flags &&& mdbCreate = 0 then s'.refuse mdbNotfound
      else if s.handles.status h = .reader then s'.refuse eacces
      else s'.assign h name (flags &&& persistentFlags)

/-- Opening a named database. -/
def openNamed (name : DbName) (flags : UInt32) : Reply × Dbis :=
  let s' := s.initMain h
  match s.find? h name with
  | some i => ({ ptr := i }, s')
  | none => s'.openNew h name flags

/-- `mdb_dbi_open`. -/
def dbiOpen (name : Option DbName) (flags : UInt32) : Reply × Dbis :=
  if flags &&& ~~~validFlags ≠ 0 then s.refuse einval
  else match s.handles.status h with
    | .active | .reader =>
      -- nothing is opened in a transaction that has failed
      if s.handles.result.rc ≠ 0 then s.handled s.handles.request
      else
        let s' := (s.handled s.handles.request).2
        match name with
        | none => s'.openMain h flags
        | some name => s'.openNamed h name flags
    | .blocked | .parked | .idle | .dangling => s.handled (s.handles.dbiOpen h)

/-- `mdb_dbi_close`. -/
def dbiClose : Reply × Dbis :=
  ({}, if coreDbs ≤ i ∧ i < s.maxdbs then s.setSlot i (s.slots i).close else s)

/-! ## Using slots -/

/-- The transaction may use the slot. -/
def sees : Bool := i < (s.views h).numdbs ∧ (i = mainDbi ∨ (s.views h).known i ≠ .invalid)

/-- A write transaction notices that the slot was assigned or closed by others. -/
def changed : Bool := h ∈ s.handles.writers ∧ s.seqs i ≠ (s.slots i).seq

/-- Setting a comparer, which any live transaction may do. -/
def install (f : DbSlot → DbSlot) : Reply × Dbis :=
  if s.handles.status h = .dangling then s.handled s.handles.request
  else if s.sees h i then ({}, s.setSlot i (f (s.slots i)))
  else s.refuse einval

/-- `mdb_set_compare`. -/
def setCompare (cmp : Callback Ptr) : Reply × Dbis :=
  s.install h i fun x => { x with cmp := some (.callback cmp) }

/-- `mdb_set_dupsort`. -/
def setDupsort (cmp : Callback Ptr) : Reply × Dbis :=
  s.install h i fun x => { x with dcmp := some (.callback cmp) }

/-- Loading the record of a slot, under the name the slot has now. -/
def load : Int × Dbis :=
  match (s.views h).known i with
  | .invalid | .loaded _ => (0, s)
  | .stale =>
    if s.changed h i then (mdbBadDbi, s)
    else match (s.slots i).name with
      | none => (mdbBadDbi, s)
      | some name =>
        let s' := (s.handled s.handles.request).2
        if s.handles.result.rc ≠ 0 then (s.handles.result.rc, s')
        else (0, s'.setView h ((s.views h).know i (.loaded name)))

/-- The database a request on a slot is about: none if it is refused. -/
def target : Option (Option DbName) :=
  if !s.sees h i || (s.handles.status h).refuses false then none
  else if i = mainDbi then some none
  else match (s.views h).known i with
    | .invalid => none
    | .loaded name => some (some name)
    | .stale => if s.changed h i then none else (s.slots i).name.map some

/-- A request on a slot. Some go on if the record cannot be loaded. -/
def data (writes lenient : Bool) (request : Handles → Reply × Handles) : Reply × Dbis :=
  if s.handles.status h = .dangling then s.handled (request s.handles)
  else if !s.sees h i then s.refuse einval
  else if (s.handles.status h).refuses writes then s.handled (request s.handles)
  else if (s.load h i).1 = 0 ∨ lenient then
    (s.load h i).2.handled (request (s.load h i).2.handles)
  else (s.load h i).2.refuse (s.load h i).1

/-- A database is deleted, and its slot closed. -/
def delete : Dbis :=
  (s.setView h ((s.views h).delete i (s.slots i).name)).setSlot i (s.slots i).close

/-- The unnamed database is emptied, so that the records of the named ones are gone. -/
def emptyMain : Dbis :=
  s.setView h { s.views h with
    catalog := fun name => if s.rewritten name then (s.views h).catalog name else none }

/-- `mdb_drop`. -/
def drop (del : Bool) : Reply × Dbis :=
  if s.handles.status h ≠ .dangling ∧ s.sees h i ∧ s.changed h i then s.refuse mdbBadDbi
  else
    let r := s.data h i true false (·.write h)
    if r.1.rc = 0 ∧ s.handles.status h = .active then
      if i = mainDbi then (r.1, r.2.emptyMain h)
      else if del then (r.1, r.2.delete h i)
      else r
    else r

/-- Loading the record of a slot, where that can be done. -/
def tryLoad : Dbis :=
  if s.handles.status h ≠ .dangling ∧ s.sees h i ∧ !(s.handles.status h).refuses false then
    (s.load h i).2
  else s

/-- A request on a cursor, which loads the record if that is still to be done. -/
def cursorOp (c : Ptr) (call : Call) : Reply × Dbis :=
  let s' := s.tryLoad (s.owner c).1 (s.owner c).2
  s'.handled (s'.handles.answer call)

/-- A cursor goes through a transaction and a slot from now on. -/
def own (c : Ptr) (r : Reply × Dbis) : Reply × Dbis :=
  (r.1, if r.1.rc = 0 then { r.2 with owner := Function.update r.2.owner c (h, i) } else r.2)

/-! ## All calls -/

/-- How LMDB answers a call. -/
def answer (call : Call) (s : Dbis) : Reply × Dbis :=
  match call with
  | .mdbTxnBegin _ parent flags => s.txnBegin parent flags
  | .mdbTxnCommit h => s.txnCommit h
  | .mdbTxnAbort h => s.txnAbort h
  | .mdbTxnReset h => s.txnReset h
  | .mdbTxnRenew h => s.txnRenew h
  | .mdbDbiOpen h name flags => s.dbiOpen h name flags
  | .mdbSetCompare h i cmp => s.setCompare h i cmp
  | .mdbSetDupsort h i cmp => s.setDupsort h i cmp
  | .mdbDbiClose _ i => s.dbiClose i
  | .mdbDrop h i del => s.drop h i del
  | .mdbGet h i _ => s.data h i false false (·.read h)
  | .mdbPut h i _ _ _ | .mdbDel h i _ _ => s.data h i true false (·.write h)
  | .mdbStat h i => s.data h i false true (·.read h)
  | .mdbCursorOpen h i =>
    let r := s.data h i false true (·.cursorOpen h)
    own h i r.1.ptr r
  | .mdbCursorGet c _ _ _ | .mdbCursorPut c _ _ _ | .mdbCursorDel c _ => s.cursorOp c call
  | .mdbCursorRenew h c => own h (s.owner c).2 c (s.cursorOp c call)
  | _ => s.handled (s.handles.answer call)

/-- An environment that was just opened. -/
def init (results : ℕ → Reply) (maxdbs : ℕ) (catalog : Catalog) (mainFlags : UInt32)
    (rewritten : DbName → Bool) : Dbis :=
  { handles := { results }, maxdbs, catalog, mainFlags, rewritten }

/-- LMDB after some calls, whoever made them. -/
def after (s : Dbis) (calls : List Call) : Dbis := calls.foldl (fun s call => (answer call s).2) s

/-- LMDB with its slots. -/
def library : Library Dbis where
  answer := answer
  mdbStrerror rc := s!"Error {rc}"

variable {s}

@[simp]
theorem reply_library (call : Call) : library.reply call s = (answer call s).1 := rfl

@[simp]
theorem next_library (call : Call) : library.next call s = (answer call s).2 := rfl

end Dbis

end KotlinLmdb
