import KotlinLmdb.FlagWord

/-!
# Options

The option enums, each a named bit (or, for cursor positions, a number) LMDB is
handed. A list of options becomes a flag word by or-ing their bits (`toFlags`).
-/

namespace KotlinLmdb

/-- A Kotlin `Set`: distinct elements, in the order of iteration. -/
structure KSet (α : Type) where
  toList : List α
  nodup : toList.Nodup
  deriving DecidableEq

namespace KSet

variable {α : Type}

/-- The empty set. -/
def empty : KSet α := ⟨[], .nil⟩

/-- The elements of the first set which are not in the second. -/
def minus [DecidableEq α] (s t : KSet α) : KSet α :=
  ⟨s.toList.filter (· ∉ t.toList), s.nodup.filter _⟩

end KSet

/-- Options of an environment. -/
inductive EnvOption
  | fixedMap
  | noSubDir
  | noSync
  | readOnly
  | noMetaSync
  | writeMap
  | mapAsync
  | noTLS
  | noLock
  | noReadAhead
  | noMemInit
  deriving DecidableEq

namespace EnvOption

def option : EnvOption → UInt32
  | fixedMap => 0x01
  | noSubDir => 0x4000
  | noSync => 0x10000
  | readOnly => 0x20000
  | noMetaSync => 0x40000
  | writeMap => 0x80000
  | mapAsync => 0x100000
  | noTLS => 0x200000
  | noLock => 0x400000
  | noReadAhead => 0x800000
  | noMemInit => 0x1000000

/-- `EnvOption.values()`, in the order of declaration. -/
def values : List EnvOption :=
  [fixedMap, noSubDir, noSync, readOnly, noMetaSync, writeMap, mapAsync, noTLS, noLock,
    noReadAhead, noMemInit]

theorem nodup_values : values.Nodup := by decide

/-- The options whose bits are set in a flag word. -/
def ofFlags (flagsValue : UInt32) : KSet EnvOption :=
  ⟨values.filter fun it => flagsValue &&& it.option = it.option, nodup_values.filter _⟩

def toFlags : List EnvOption → UInt32 := orFlags option

end EnvOption

/-- Options of a transaction. -/
inductive TxnOption
  | noSync
  | readOnly
  | noMetaSync
  deriving DecidableEq

namespace TxnOption

def option : TxnOption → UInt32
  | noSync => 0x10000
  | readOnly => 0x20000
  | noMetaSync => 0x40000

def toFlags : List TxnOption → UInt32 := orFlags option

@[simp]
theorem toFlags_nil : toFlags [] = 0 := rfl

end TxnOption

/-- Options of a database. -/
inductive DbiOption
  | reverseKey
  | dupSort
  | integerKey
  | dupFixed
  | integerDup
  | reverseDup
  | create
  deriving DecidableEq

namespace DbiOption

def option : DbiOption → UInt32
  | reverseKey => 0x02
  | dupSort => 0x04
  | integerKey => 0x08
  | dupFixed => 0x10
  | integerDup => 0x20
  | reverseDup => 0x40
  | create => 0x40000

/-- `DbiOption.values()`, in the order of declaration. -/
def values : List DbiOption :=
  [reverseKey, dupSort, integerKey, dupFixed, integerDup, reverseDup, create]

theorem nodup_values : values.Nodup := by decide

/-- The options whose bits are set in a flag word. -/
def ofFlags (flagsInt : UInt32) : KSet DbiOption :=
  ⟨values.filter fun it => flagsInt &&& it.option ≠ 0, nodup_values.filter _⟩

def toFlags : List DbiOption → UInt32 := orFlags option

end DbiOption

/-- Options of a put. -/
inductive PutOption
  | noDupData
  | noOverwrite
  | reserve
  | append
  | appendDup
  deriving DecidableEq

namespace PutOption

def option : PutOption → UInt32
  | noDupData => 0x20
  | noOverwrite => 0x10
  | reserve => 0x10000
  | append => 0x20000
  | appendDup => 0x40000

def toFlags : List PutOption → UInt32 := orFlags option

end PutOption

/-- Where a cursor is to go. -/
inductive CursorOption
  | first
  | firstDup
  | getBoth
  | getBothRange
  | getCurrent
  | getMultiple
  | last
  | lastDup
  | next
  | nextDup
  | nextMultiple
  | nextNodup
  | prev
  | prevDup
  | prevNodup
  | set
  | setKey
  | setRange
  deriving DecidableEq

def CursorOption.option : CursorOption → UInt32
  | first => 0
  | firstDup => 1
  | getBoth => 2
  | getBothRange => 3
  | getCurrent => 4
  | getMultiple => 5
  | last => 6
  | lastDup => 7
  | next => 8
  | nextDup => 9
  | nextMultiple => 10
  | nextNodup => 11
  | prev => 12
  | prevDup => 13
  | prevNodup => 14
  | set => 15
  | setKey => 16
  | setRange => 17

/-- `MDB_cursor_op`, the C enum of `lmdb.h`, in its order. -/
inductive MdbCursorOp
  | mdbFirst
  | mdbFirstDup
  | mdbGetBoth
  | mdbGetBothRange
  | mdbGetCurrent
  | mdbGetMultiple
  | mdbLast
  | mdbLastDup
  | mdbNext
  | mdbNextDup
  | mdbNextMultiple
  | mdbNextNodup
  | mdbPrev
  | mdbPrevDup
  | mdbPrevNodup
  | mdbSet
  | mdbSetKey
  | mdbSetRange
  | mdbPrevMultiple
  deriving DecidableEq

/-- The number a C enum constant stands for. -/
def MdbCursorOp.value (op : MdbCursorOp) : UInt32 := .ofNat op.ctorIdx

/-- What a cursor deletion is to delete. -/
inductive CursorDeleteOption
  | none
  | noDupData
  deriving DecidableEq

def CursorDeleteOption.option : CursorDeleteOption → UInt32
  | none => 0
  | noDupData => 0x20

/-- How a cursor is to put. -/
inductive CursorPutOption
  | none
  | nodupdata
  | current
  | nooverwrite
  | reserve
  | append
  | appenddup
  | multiple
  deriving DecidableEq

def CursorPutOption.option : CursorPutOption → UInt32
  | none => 0
  | nodupdata => 0x20
  | current => 0x40
  | nooverwrite => 0x10
  | reserve => 0x10000
  | append => 0x20000
  | appenddup => 0x40000
  | multiple => 0x80000

end KotlinLmdb
