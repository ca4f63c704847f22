import Mathlib.Algebra.Group.Nat.Defs
import Mathlib.Data.Int.Order.Basic

/-!
# Byte arrays and values

A key or a data item is handed over as a `Val`, the wrapper of an `MDB_val`
structure. All that the library reads from one is the byte array
`Val.toByteArray` copies out of it, which may be missing: on the native platform
an `MDB_val` without data gives `null`.
-/

namespace KotlinLmdb

/-- A Kotlin `ByteArray`: signed bytes, at most `Int.MAX_VALUE` of them. -/
structure Bytes where
  toList : List Int8
  size_le : toList.length ≤ 2147483647
  deriving DecidableEq

namespace Bytes

/-- The number of bytes, as the Kotlin `Int` it is. -/
def size (a : Bytes) : Int32 := .ofNat a.toList.length

theorem length_lt (a : Bytes) : a.toList.length < 2 ^ 31 := Nat.lt_succ_of_le a.size_le

/-- The empty array. -/
def empty : Bytes := ⟨[], by decide⟩

/-- A byte array is its list of bytes. -/
theorem toList_inj {a b : Bytes} : a.toList = b.toList ↔ a = b := by
  cases a; cases b; simp

/-- `contentHashCode()`: the fold `31 * h + byte` from `1`, on wrapping integers. -/
def contentHashCode (a : Bytes) : Int32 := a.toList.foldl (fun h x => 31 * h + x.toInt32) 1

end Bytes

/-- A key or data value, by the bytes that can be read from it, if any. -/
structure Val where
  toByteArray : Option Bytes
  deriving DecidableEq

/-- `ByteArray.toVal()`. -/
def Bytes.toVal (a : Bytes) : Val := ⟨some a⟩

@[simp]
theorem Bytes.toByteArray_toVal (a : Bytes) : a.toVal.toByteArray = some a := rfl

/-- The bytes of an `MDB_val`. -/
def Val.bytes (v : Val) : Bytes := v.toByteArray.getD .empty

@[simp]
theorem Bytes.bytes_toVal (a : Bytes) : a.toVal.bytes = a := rfl

/-- `Val.output()`: a value LMDB has not written to. -/
def Val.output : Val := ⟨none⟩

end KotlinLmdb
