import KotlinLmdb.Effect
import KotlinLmdb.Options
import KotlinLmdb.ValComparers

/-!
# The native interface

The LMDB functions the wrapper calls (`Call`), what they give back (`Reply`), and
how the wrapper turns their result codes into exceptions (`check`,
`buildResult`, `buildReadResult`).

The wrapper's code is written over an arbitrary `Library`, with any state and any
answers: LMDB as in `mdb.c` is one, with as much of its state as a result is
about.
-/

namespace KotlinLmdb

/-- A native handle: a pointer to a structure of LMDB's, or a database slot. -/
abbrev Ptr := ℕ

/-- Statistics of a database. -/
structure Stat where
  branchPages : UInt64 := 0
  depth : UInt32 := 0
  entries : UInt64 := 0
  leafPages : UInt64 := 0
  overflowPages : UInt64 := 0
  pSize : UInt32 := 0
  deriving DecidableEq

/-- Information about an environment. -/
structure EnvInfo where
  lastPgno : UInt64 := 0
  lastTxnId : UInt64 := 0
  mapAddr : UInt64 := 0
  mapSize : UInt64 := 0
  maxReaders : UInt32 := 0
  numReaders : UInt32 := 0
  deriving DecidableEq

/-- The name of a database, as a C function reads it: a Kotlin string up to the first NUL. -/
structure DbName where
  toString : String
  noNul : Char.ofNat 0 ∉ toString.toList
  deriving DecidableEq

/-- A call to LMDB. -/
inductive Call
  | mdbEnvCreate
  | mdbEnvSetMaxdbs (env : Ptr) (dbs : UInt32)
  | mdbEnvSetMapsize (env : Ptr) (size : UInt64)
  | mdbEnvGetMaxreaders (env : Ptr)
  | mdbEnvSetMaxreaders (env : Ptr) (readers : UInt32)
  | mdbEnvGetMaxkeysize (env : Ptr)
  | mdbReaderCheck (env : Ptr)
  | mdbEnvGetFlags (env : Ptr)
  | mdbEnvSetFlags (env : Ptr) (flags : UInt32) (onoff : Bool)
  | mdbEnvStat (env : Ptr)
  | mdbEnvInfo (env : Ptr)
  | mdbEnvOpen (env : Ptr) (path : String) (flags : UInt32) (mode : Int)
  | mdbEnvCopy2 (env : Ptr) (path : String) (flags : UInt32)
  | mdbEnvCopy (env : Ptr) (path : String)
  | mdbEnvSync (env : Ptr) (force : Bool)
  | mdbEnvClose (env : Ptr)
  | mdbTxnBegin (env : Ptr) (parent : Option Ptr) (flags : UInt32)
  | mdbTxnId (txn : Ptr)
  | mdbTxnAbort (txn : Ptr)
  | mdbTxnReset (txn : Ptr)
  | mdbTxnRenew (txn : Ptr)
  | mdbTxnCommit (txn : Ptr)
  | mdbDbiOpen (txn : Ptr) (name : Option DbName) (flags : UInt32)
  | mdbSetCompare (txn dbi : Ptr) (cmp : Callback Ptr)
  | mdbSetDupsort (txn dbi : Ptr) (cmp : Callback Ptr)
  | mdbStat (txn dbi : Ptr)
  | mdbCmp (txn dbi : Ptr) (a b : Val)
  | mdbDcmp (txn dbi : Ptr) (a b : Val)
  | mdbDbiFlags (txn dbi : Ptr)
  | mdbDbiClose (env dbi : Ptr)
  | mdbGet (txn dbi : Ptr) (key : Val)
  | mdbPut (txn dbi : Ptr) (key data : Val) (flags : UInt32)
  | mdbDel (txn dbi : Ptr) (key : Val) (data : Option Val)
  | mdbDrop (txn dbi : Ptr) (del : Bool)
  | mdbCursorOpen (txn dbi : Ptr)
  | mdbCursorGet (cursor : Ptr) (key data : Val) (op : UInt32)
  | mdbCursorPut (cursor : Ptr) (key data : Val) (flags : UInt32)
  | mdbCursorDel (cursor : Ptr) (flags : UInt32)
  | mdbCursorCount (cursor : Ptr)
  | mdbCursorRenew (txn cursor : Ptr)
  | mdbCursorClose (cursor : Ptr)
  deriving DecidableEq

namespace Call

/-- The environment a call is made on. -/
def env : Call → Option Ptr
  | mdbEnvSetMaxdbs e _ | mdbEnvSetMapsize e _ | mdbEnvGetMaxreaders e
  | mdbEnvSetMaxreaders e _ | mdbEnvGetMaxkeysize e | mdbReaderCheck e | mdbEnvGetFlags e
  | mdbEnvSetFlags e _ _ | mdbEnvStat e | mdbEnvInfo e | mdbEnvOpen e _ _ _
  | mdbEnvCopy2 e _ _ | mdbEnvCopy e _ | mdbEnvSync e _ | mdbEnvClose e
  | mdbTxnBegin e _ _ | mdbDbiClose e _ => some e
  | _ => none

/-- The transaction a call is made on: for `mdb_txn_begin`, the parent. -/
def txn : Call → Option Ptr
  | mdbTxnBegin _ p _ => p
  | mdbTxnId t | mdbTxnAbort t | mdbTxnReset t | mdbTxnRenew t | mdbTxnCommit t
  | mdbDbiOpen t _ _ | mdbSetCompare t _ _ | mdbSetDupsort t _ _ | mdbStat t _
  | mdbCmp t _ _ _ | mdbDcmp t _ _ _ | mdbDbiFlags t _
  | mdbGet t _ _ | mdbPut t _ _ _ _ | mdbDel t _ _ _ | mdbDrop t _ _ | mdbCursorOpen t _
  | mdbCursorRenew t _ => some t
  | _ => none

/-- The cursor a call is made on. -/
def cursor : Call → Option Ptr
  | mdbCursorGet c _ _ _ | mdbCursorPut c _ _ _ | mdbCursorDel c _ | mdbCursorCount c
  | mdbCursorRenew _ c | mdbCursorClose c => some c
  | _ => none

/-- The calls that may change which transactions are live. -/
def IsLife : Call → Prop
  | mdbTxnBegin .. | mdbTxnCommit _ | mdbTxnAbort _ | mdbTxnReset _ | mdbTxnRenew _
  | mdbEnvClose _ => True
  | _ => False

end Call

/-- A call that ends the transaction: `mdb_txn_commit`, `mdb_txn_abort`. -/
def Txn.Ends (ptr : Ptr) (c : Call) : Prop := c = .mdbTxnCommit ptr ∨ c = .mdbTxnAbort ptr

instance (ptr : Ptr) : DecidablePred (Txn.Ends ptr) :=
  fun c => inferInstanceAs (Decidable (c = .mdbTxnCommit ptr ∨ c = .mdbTxnAbort ptr))

/-- What a call gives back: its result, and what it left where its pointer
    arguments point. A void function leaves all of it unused. -/
structure Reply where
  rc : Int := 0
  /-- The handle written out. -/
  ptr : Ptr := 0
  /-- The number written out: a flag word, a count. -/
  num : UInt64 := 0
  key : Val := .output
  data : Val := .output
  stat : Stat := {}
  /-- What a zeroed structure for a statistic holds that LMDB was not given. -/
  unwritten : Stat := {}
  info : EnvInfo := {}
  deriving DecidableEq

/-- `MDB_NOTFOUND`. -/
abbrev mdbNotfound : Int := -30798

/-- The result codes LMDB refuses a request with. -/
abbrev einval : Int := 22

abbrev eacces : Int := 13

abbrev edeadlk : Int := 35

abbrev mdbBadTxn : Int := -30782

abbrev mdbIncompatible : Int := -30784

abbrev mdbBadValsize : Int := -30781

/-- `MDB_RDONLY`. -/
abbrev mdbRdonly : UInt32 := 0x20000

/-- The exceptions of the wrapper, of the Kotlin library and of its users. -/
inductive Exn
  | lmdbException (message : String)
  | numberFormatException (input : String)
  | illegalStateException (message : String)
  | illegalArgumentException (message : String)
  | user (tag : ℕ)
  deriving DecidableEq

/-- It is an `LmdbException`. -/
def Exn.IsLmdb : Exn → Prop
  | lmdbException _ => True
  | _ => False

@[simp]
theorem Exn.isLmdb_lmdbException (message : String) : (lmdbException message).IsLmdb := trivial

/-- Both exceptions are `LmdbException`s. -/
def Exn.BothLmdb (e e' : Exn) : Prop := e.IsLmdb ∧ e'.IsLmdb

theorem Exn.isLmdb_of_alike {α : Type} {o : Except Exn α} {e : Exn}
    (h : Eff.Alike BothLmdb o (.error e)) : e.IsLmdb := by
  cases o with
  | ok a => exact h.elim
  | error e' => exact h.2

/-- LMDB with the state `N`, and the texts of its result codes. -/
structure Library (N : Type) extends Handler Call Reply N where
  mdbStrerror : Int → String

/-- LMDB granting every request, and writing out what it was told to. -/
def Library.granting (r : Reply) : Library Unit where
  answer _ n := ({ r with rc := 0 }, n)
  mdbStrerror _ := "Successful return: 0"

/-- LMDB refusing every request with the same error. -/
def Library.refusing (rc : Int) : Library Unit where
  answer _ n := ({ rc }, n)
  mdbStrerror _ := "Error"

/-- The code of a method: over the fields `σ` of its receiver and a session. -/
abbrev Kt (N σ α : Type) := Eff Exn (σ × Session Call Reply N) α

/-- What is seen of a method call. -/
abbrev Seen (α : Type) := Event Call Reply Exn α

variable {N σ α : Type} (lib : Library N)

/-- The exception for a result code. -/
def getException (result : Int) : Exn := .lmdbException (lib.mdbStrerror result)

def check (result : Int) : Kt N σ Int :=
  if result = 0 then return result else throw (getException lib result)

def buildResult (result : Int) (key data : Val) : Kt N σ (Int × Val × Val) :=
  if result = 0 then return (result, key, data) else throw (getException lib result)

def buildReadResult (result : Int) (key data : Val) : Kt N σ (Int × Val × Val) :=
  if result = 0 ∨ result = mdbNotfound then return (result, key, data)
  else throw (getException lib result)

@[simp]
theorem exec_check (result : Int) (s : σ × Session Call Reply N) :
    (check lib result).exec s =
      (if result = 0 then .ok result else .error (getException lib result), s) := by
  rw [check]
  split <;> rfl

/-- A failed check skips the rest. -/
@[simp high]
theorem exec_check_bind (result : Int) (f : Int → Kt N σ α) (s : σ × Session Call Reply N) :
    (check lib result >>= f).exec s =
      if result = 0 then (f result).exec s else (.error (getException lib result), s) := by
  rw [Eff.exec_bind, exec_check]
  by_cases h : result = 0 <;> simp only [h, if_true, if_false]

@[simp high]
theorem exec_check_map (result : Int) (f : Int → α) (s : σ × Session Call Reply N) :
    (f <$> check lib result : Kt N σ α).exec s =
      (if result = 0 then .ok (f result) else .error (getException lib result), s) := by
  rw [Eff.exec_map, exec_check]
  by_cases h : result = 0 <;> simp only [h, if_true, if_false] <;> rfl

@[simp]
theorem exec_buildResult (result : Int) (key data : Val) (s : σ × Session Call Reply N) :
    (buildResult lib result key data).exec s =
      (if result = 0 then .ok (result, key, data) else .error (getException lib result), s) := by
  rw [buildResult]
  split <;> rfl

@[simp]
theorem exec_buildReadResult (result : Int) (key data : Val) (s : σ × Session Call Reply N) :
    (buildReadResult lib result key data).exec s =
      (if result = 0 ∨ result = mdbNotfound then .ok (result, key, data)
        else .error (getException lib result), s) := by
  rw [buildReadResult]
  split <;> rfl

/-- What a result code comes to is alike to itself. -/
theorem alike_checked {b : Prop} [Decidable b] (a : α) (result : Int) :
    Eff.Alike Exn.BothLmdb (if b then .ok a else .error (getException lib result))
      (if b then .ok a else .error (getException lib result)) :=
  Eff.alike_ite rfl ⟨trivial, trivial⟩

theorem mirrors_check (R : σ × Session Call Reply N → σ × Session Call Reply N → Prop)
    (result : Int) :
    Eff.Mirrors Exn.BothLmdb R (check lib result) (check lib result) := by
  intro s s' hs
  rw [exec_check, exec_check]
  by_cases h : result = 0
  · simp only [if_pos h]
    exact ⟨rfl, hs⟩
  · simp only [if_neg h]
    exact ⟨⟨trivial, trivial⟩, hs⟩

/-- Calling LMDB. -/
abbrev call (c : Call) : Kt N σ Reply := Eff.call lib.toHandler c

end KotlinLmdb
