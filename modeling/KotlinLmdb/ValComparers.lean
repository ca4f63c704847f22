import KotlinLmdb.Val

/-!
# The built-in comparers

The comparison functions a database can be opened with (`ValComparer`), which
LMDB calls back to order its keys and duplicates. They take a missing array as
less than anything, and otherwise compare bytes as unsigned, from the first one
on; `REVERSE_x` negates `x`.
-/

namespace KotlinLmdb

/-- A function comparing two values. -/
abbrev ValCompare := Val → Val → Int32

/-- The named comparison functions. -/
inductive ValComparer
  | bitwise
  | reverseBitwise
  | lexicographicString
  | reverseLexicographicString
  | integerKey
  | reverseIntegerKey
  | length
  | reverseLength
  | lengthOnly
  | reverseLengthOnly
  | hashCode
  | reverseHashCode
  | custom1
  | custom2
  | custom3
  | custom4
  deriving DecidableEq

/-- `aBytes[i].toInt() and 0xFF`. -/
def unsigned (x : Int8) : Int32 := x.toInt32 &&& 0xFF

/-- The loop over the indices both arrays have: the first nonzero difference of
    two bytes at the same index, if any. -/
def firstDifference : List Int8 → List Int8 → Option Int32
  | x :: xs, y :: ys =>
    let diff := unsigned x - unsigned y
    if diff ≠ 0 then some diff else firstDifference xs ys
  | _, _ => none

def bitwiseCompare (a b : Val) : Int32 :=
  match a.toByteArray, b.toByteArray with
  | none, _ => -1
  | some _, none => 1
  | some aBytes, some bBytes =>
    match firstDifference aBytes.toList bBytes.toList with
    | some diff => diff
    | none => aBytes.size - bBytes.size

def reverseBitwiseCompare (a b : Val) : Int32 := -bitwiseCompare a b

def lexicographicalStringCompare (a b : Val) : Int32 :=
  match a.toByteArray, b.toByteArray with
  | none, _ => -1
  | some _, none => 1
  | some aBytes, some bBytes =>
    match firstDifference aBytes.toList bBytes.toList with
    | some diff => diff
    | none => aBytes.size - bBytes.size

def reverseLexicographicalStringCompare (a b : Val) : Int32 := -lexicographicalStringCompare a b

def integerKeyCompare (a b : Val) : Int32 :=
  match a.toByteArray, b.toByteArray with
  | none, _ => -1
  | some _, none => 1
  | some aBytes, some bBytes =>
    if aBytes.size ≠ bBytes.size then aBytes.size - bBytes.size
    else
      match firstDifference aBytes.toList bBytes.toList with
      | some diff => diff
      | none => 0

def reverseIntegerKeyCompare (a b : Val) : Int32 := -integerKeyCompare a b

def lengthCompare (a b : Val) : Int32 :=
  match a.toByteArray, b.toByteArray with
  | none, _ => -1
  | some _, none => 1
  | some aBytes, some bBytes =>
    let lengthComparison := aBytes.size - bBytes.size
    if lengthComparison ≠ 0 then lengthComparison else bitwiseCompare a b

def reverseLengthCompare (a b : Val) : Int32 := -lengthCompare a b

def lengthOnlyCompare (a b : Val) : Int32 :=
  match a.toByteArray, b.toByteArray with
  | none, _ => -1
  | some _, none => 1
  | some aBytes, some bBytes => aBytes.size - bBytes.size

def reverseLengthOnlyCompare (a b : Val) : Int32 := -lengthOnlyCompare a b

def hashCodeCompare (a b : Val) : Int32 :=
  match a.toByteArray, b.toByteArray with
  | none, _ => -1
  | some _, none => 1
  | some aBytes, some bBytes =>
    if aBytes.toList = bBytes.toList then 0
    else
      let aHash := aBytes.contentHashCode
      let bHash := bBytes.contentHashCode
      if aHash ≠ bHash then if aHash < bHash then -1 else 1
      else bitwiseCompare a b

def reverseHashCodeCompare (a b : Val) : Int32 := -hashCodeCompare a b

/-- The implementations of the built-in comparers (the custom slots have none). -/
def standardComparers : ValComparer → Option ValCompare
  | .bitwise => some bitwiseCompare
  | .reverseBitwise => some reverseBitwiseCompare
  | .lexicographicString => some lexicographicalStringCompare
  | .reverseLexicographicString => some reverseLexicographicalStringCompare
  | .integerKey => some integerKeyCompare
  | .reverseIntegerKey => some reverseIntegerKeyCompare
  | .length => some lengthCompare
  | .reverseLength => some reverseLengthCompare
  | .lengthOnly => some lengthOnlyCompare
  | .reverseLengthOnly => some reverseLengthOnlyCompare
  | .hashCode => some hashCodeCompare
  | .reverseHashCode => some reverseHashCodeCompare
  | .custom1 | .custom2 | .custom3 | .custom4 => none

/-- The comparer each `REVERSE_x` is named after. -/
def ValComparer.forward : ValComparer → Option ValComparer
  | .reverseBitwise => some .bitwise
  | .reverseLexicographicString => some .lexicographicString
  | .reverseIntegerKey => some .integerKey
  | .reverseLength => some .length
  | .reverseLengthOnly => some .lengthOnly
  | .reverseHashCode => some .hashCode
  | _ => none

/-- What LMDB is handed to call back: the code for a built-in comparer, or a function
    of the user's. -/
inductive Callback (F : Type)
  | standard (c : ValComparer) (h : (standardComparers c).isSome)
  | custom (f : F)
  deriving DecidableEq

/-- How a callback compares. -/
def Callback.compare : Callback ValCompare → ValCompare
  | standard c h => (standardComparers c).get h
  | custom f => f

/-- A comparer at work on values that do hold an array. -/
def onBytes (cmp : ValCompare) (a b : Bytes) : Int32 := cmp a.toVal b.toVal

end KotlinLmdb
