import KotlinLmdb.Native

/-!
# The objects of the wrapper

The fields of the wrapper's classes. Each class has two implementations, one for
the JVM and one for native targets, written apart over the same LMDB; a field
only one of them has is marked as such, and left at its default by the other.
-/

namespace KotlinLmdb

/-- The platforms the wrapper is implemented on. -/
inductive Platform
  | jvm
  | native
  deriving DecidableEq

/-- An `Env`. The properties are the values last assigned, not LMDB's. -/
structure Env where
  ptr : Ptr
  isOpened : Bool := false
  isClosed : Bool := false
  maxDatabases : UInt32 := 0
  mapSize : UInt64
  maxReaders : UInt32 := 0
  flags : KSet EnvOption := .empty
  deriving DecidableEq

/-- The state of a `Txn`. -/
inductive TxnState
  | ready
  | done
  | reset
  | released
  deriving DecidableEq

/-- A `Txn`. -/
structure Txn where
  ptr : Ptr
  parentTx : Option Ptr := none
  state : TxnState := .ready
  /-- Native only. -/
  isClosed : Bool := false
  deriving DecidableEq

/-- A `Dbi`: `ptr` is its database slot. -/
structure Dbi where
  ptr : Ptr
  closed : Bool := false
  deriving DecidableEq

/-- A `Cursor`. -/
structure Cursor where
  ptr : Ptr
  /-- JVM only. -/
  closed : Bool := false
  deriving DecidableEq

/-- What a method returns. -/
inductive Value
  | unit
  | int (i : Int)
  | number (n : UInt64)
  | triple (status : Int) (key data : Val)
  | stat (s : Stat)
  | info (i : EnvInfo)
  | envFlags (fs : KSet EnvOption)
  | dbiFlags (fs : KSet DbiOption)
  | txn (t : Txn)
  | dbi (d : Dbi)
  | cursor (c : Cursor)
  deriving DecidableEq

/-- The `Triple` of a status, a key and a data item. -/
def Value.ofTriple (r : Int × Val × Val) : Value := .triple r.1 r.2.1 r.2.2

@[simp]
theorem Value.ofTriple_mk (status : Int) (key data : Val) :
    ofTriple (status, key, data) = triple status key data := rfl

/-- No value. -/
def Value.ofUnit (_ : Unit) : Value := .unit

@[simp]
theorem Value.ofUnit_eq (u : Unit) : ofUnit u = unit := rfl

end KotlinLmdb
