import KotlinLmdb.Order.Encoding
import KotlinLmdb.ValComparers.Order

/-!
# What the built-in comparers mean

What the bytes stand for, and how the comparers order that.

* Strings in UTF-8 are ordered by their code points
  (`lexicographicString_codePoints`).
* Numbers written most significant byte first are ordered by their values, if they
  have the same length or no leading zeros (`integerKey_bigEndian`).
* LMDB's own comparer, `mdb_cmp_memn`, orders keys as `BITWISE` and
  `LEXICOGRAPHIC_STRING` do (`mdbCmpMemn_interchangeable`).
-/

namespace KotlinLmdb

/-! ## Strings -/

/-- A string, as the sequence of its Unicode scalar values. It is short enough to be
    encoded into an array. -/
structure Text where
  toList : List Char
  size_le : (utf8 toList).length ≤ 2147483647

/-- `String.encodeToByteArray()`. -/
def Text.encodeToByteArray (s : Text) : Bytes where
  toList := (utf8 s.toList).map UInt8.toInt8
  size_le := by simpa using s.size_le

/-- The comparison of strings by their code points. -/
abbrev Text.codePointOrd (s t : Text) : Ordering :=
  compare (s.toList.map Char.toNat) (t.toList.map Char.toNat)

theorem Text.unsigned_encodeToByteArray (s : Text) :
    s.encodeToByteArray.unsigned = (utf8 s.toList).map UInt8.toNat := by
  rw [Bytes.unsigned, encodeToByteArray, List.map_map]
  rfl

theorem Text.lexOrd_encodeToByteArray (s t : Text) :
    lexOrd s.encodeToByteArray t.encodeToByteArray = s.codePointOrd t := by
  simp only [lexOrd, compareOn, unsigned_encodeToByteArray, compare_utf8]

/-- `LEXICOGRAPHIC_STRING` orders strings by their code points, and
    `REVERSE_LEXICOGRAPHIC_STRING` the other way round. -/
theorem lexicographicString_codePoints (s t : Text) :
    standardComparers .lexicographicString = some lexicographicalStringCompare ∧
      standardComparers .reverseLexicographicString =
        some reverseLexicographicalStringCompare ∧
      sgn (lexicographicalStringCompare s.encodeToByteArray.toVal t.encodeToByteArray.toVal) =
        s.codePointOrd t ∧
      sgn (reverseLexicographicalStringCompare s.encodeToByteArray.toVal
        t.encodeToByteArray.toVal) = (s.codePointOrd t).swap := by
  refine ⟨rfl, rfl, ?_, ?_⟩
  · rw [← Text.lexOrd_encodeToByteArray]
    exact lexicographicalString_realises.sgn_eq _ _
  · have hswap : lexOrd t.encodeToByteArray s.encodeToByteArray =
        (lexOrd s.encodeToByteArray t.encodeToByteArray).swap := Std.OrientedCmp.eq_swap
    rw [← Text.lexOrd_encodeToByteArray, ← hswap]
    exact lexicographicalString_realises.neg.sgn_eq _ _

/-! ## Numbers -/

/-- The number an array stands for, its most significant byte first. -/
def Bytes.bigEndian (a : Bytes) : ℕ := KotlinLmdb.bigEndian a.unsigned

theorem Bytes.unsigned_lt (a : Bytes) : ∀ x ∈ a.unsigned, x < 256 := by
  intro x hx
  obtain ⟨b, -, rfl⟩ := List.mem_map.1 hx
  exact byteValue_lt b

theorem Bytes.length_unsigned (a : Bytes) : a.unsigned.length = a.toList.length :=
  List.length_map _

theorem Bytes.head?_unsigned {a : Bytes} (h : a.toList.head? ≠ some 0) :
    a.unsigned.head? ≠ some 0 := by
  rw [Bytes.unsigned, List.head?_map]
  intro h0
  obtain ⟨x, hx, hx0⟩ := Option.map_eq_some_iff.1 h0
  obtain rfl : x = 0 := byteValue_inj.1 hx0
  exact h hx

/-- Without a leading zero, arrays of different lengths compare as their lengths do. -/
theorem compare_bigEndian_of_length_lt {a b : Bytes} (hb : b.toList.head? ≠ some 0)
    (h : a.toList.length < b.toList.length) : a.bigEndian < b.bigEndian :=
  bigEndian_lt_of_length_lt a.unsigned_lt (Bytes.head?_unsigned hb) <| by
    rwa [Bytes.length_unsigned, Bytes.length_unsigned]

/-- `INTEGER_KEY` orders numbers by their value, most significant byte first, if they
    have the same length or no leading zeros. It is `LENGTH` under another name. -/
theorem integerKey_bigEndian (a b : Bytes) :
    (a.toList.length = b.toList.length ∨
        a.toList.length ≠ b.toList.length ∧ a.toList.head? ≠ some 0 ∧ b.toList.head? ≠ some 0 →
      sgn (onBytes integerKeyCompare a b) = compare a.bigEndian b.bigEndian) ∧
    onBytes integerKeyCompare a b = onBytes lengthCompare a b ∧
    standardComparers .integerKey = standardComparers .length := by
  refine ⟨fun h => ?_, integerKeyCompare_eq_lengthCompare a b, ?_⟩
  · rw [integerKey_realises.sgn_eq]
    simp only [compareLex, compareOn]
    rcases Nat.lt_trichotomy a.toList.length b.toList.length with hlt | heq | hgt
    · obtain ⟨-, -, hb⟩ := h.resolve_left hlt.ne
      rw [Nat.compare_eq_lt.2 hlt, Ordering.lt_then,
        Nat.compare_eq_lt.2 (compare_bigEndian_of_length_lt hb hlt)]
    · rw [Nat.compare_eq_eq.2 heq, Ordering.eq_then, Bytes.bigEndian, Bytes.bigEndian,
        compare_bigEndian a.unsigned_lt b.unsigned_lt]
      rwa [Bytes.length_unsigned, Bytes.length_unsigned]
    · obtain ⟨-, ha, -⟩ := h.resolve_left hgt.ne'
      rw [Nat.compare_eq_gt.2 hgt, Ordering.gt_then,
        Nat.compare_eq_gt.2 (compare_bigEndian_of_length_lt ha hgt)]
  · -- on values without an array both answer the same
    refine congrArg some (funext₂ fun a b => ?_)
    rcases a with ⟨_ | a⟩
    · rfl
    · rcases b with ⟨_ | b⟩
      · rfl
      · exact integerKeyCompare_eq_lengthCompare a b

/-- 256 comes after 255. -/
theorem integerKey_bigEndian_256 :
    sgn (onBytes integerKeyCompare ⟨[1, 0], by decide⟩ ⟨[-1], by decide⟩) = .gt :=
  (integerKey_bigEndian ⟨[1, 0], by decide⟩ ⟨[-1], by decide⟩).1
    (.inr ⟨by decide, by decide, by decide⟩)

/-! ## LMDB's comparer -/

/-- The C function: the difference of the first two bytes that differ, taken as
    unsigned, among the first `n` bytes. -/
def memcmp : List Int8 → List Int8 → ℕ → Int32
  | x :: xs, y :: ys, n + 1 =>
    if byteValue x ≠ byteValue y then .ofNat (byteValue x) - .ofNat (byteValue y)
    else memcmp xs ys n
  | _, _, _ => 0

/-- `mdb_cmp_memn`, LMDB's comparer for keys and duplicates if it is told no other. The
    lengths are of 64 bits, `len` of 32. -/
def mdbCmpMemn (a b : Bytes) : Int32 :=
  let lenDiff : Int := a.toList.length - b.toList.length
  let len := (if lenDiff > 0 then b.toList.length else a.toList.length) % 2 ^ 32
  let lenDiff := if lenDiff > 0 then 1 else lenDiff
  let diff := memcmp a.toList b.toList len
  if diff ≠ 0 then diff else if lenDiff < 0 then -1 else .ofInt lenDiff

/-- Over the length both have, `memcmp` finds the first difference. -/
theorem memcmp_min (xs ys : List Int8) :
    memcmp xs ys (min xs.length ys.length) = (firstDifference xs ys).getD 0 := by
  fun_induction firstDifference xs ys with
  | case1 x xs y ys diff hd =>
    have hne : byteValue x ≠ byteValue y := by
      intro h
      obtain rfl := byteValue_inj.1 h
      exact hd (Int32.sub_self _)
    rw [List.length_cons, List.length_cons, Nat.add_min_add_right, memcmp, if_pos hne,
      Option.getD_some, ← unsigned_eq, ← unsigned_eq]
  | case2 x xs y ys diff hd ih =>
    have heq : byteValue x = byteValue y := by
      have hsgn := sgn_unsigned_sub x y
      rw [sgn_eq_eq.2 (not_not.1 hd)] at hsgn
      exact Nat.compare_eq_eq.1 hsgn.symm
    rw [List.length_cons, List.length_cons, Nat.add_min_add_right, memcmp,
      if_neg (not_not.2 heq), ih]
  | case3 xs ys hne =>
    cases xs <;> cases ys
    · rfl
    · rfl
    · rfl
    · exact absurd rfl (hne _ _ _ _ rfl)

theorem mdbCmpMemn_len (a b : Bytes) :
    (if (a.toList.length : Int) - b.toList.length > 0 then b.toList.length
      else a.toList.length) % 2 ^ 32 = min a.toList.length b.toList.length := by
  have ha := a.length_lt
  have hb := b.length_lt
  split <;> omega

/-- Two comparers are interchangeable: they order all keys the same, so that what is
    sorted for one is sorted for the other. -/
structure Interchangeable (cmp cmp' : Bytes → Bytes → Int32) : Prop where
  sgn_eq : ∀ a b, sgn (cmp a b) = sgn (cmp' a b)
  sorted : ∀ keys : List Bytes,
    keys.Pairwise (fun a b => (cmp a b).toInt < 0) ↔
      keys.Pairwise (fun a b => (cmp' a b).toInt < 0)

theorem Interchangeable.of_sgn_eq {cmp cmp' : Bytes → Bytes → Int32}
    (h : ∀ a b, sgn (cmp a b) = sgn (cmp' a b)) : Interchangeable cmp cmp' where
  sgn_eq := h
  sorted keys := by simp only [← sgn_eq_lt, h]

theorem firstDifference_ne_zero {xs ys : List Int8} {d : Int32}
    (h : firstDifference xs ys = some d) : d ≠ 0 := by
  fun_induction firstDifference xs ys with
  | case1 x xs y ys diff hd => exact Option.some.inj h ▸ hd
  | case2 x xs y ys diff hd ih => exact ih h
  | case3 => cases h

/-- `mdb_cmp_memn` compares the bytes, and the lengths if that does not decide. -/
theorem sgn_mdbCmpMemn (a b : Bytes) : sgn (mdbCmpMemn a b) = lexOrd a b := by
  simp only [mdbCmpMemn, mdbCmpMemn_len, memcmp_min]
  cases hd : firstDifference a.toList b.toList with
  | some diff =>
    rw [Option.getD_some, if_pos (firstDifference_ne_zero hd)]
    exact (sgn_of_firstDifference hd).1
  | none =>
    refine Eq.trans ?_ (compare_of_firstDifference_eq_none hd).symm
    rw [Option.getD_none, if_neg (not_not.2 rfl)]
    rcases Nat.lt_trichotomy a.toList.length b.toList.length with h | h | h
    · have hneg : (a.toList.length : Int) - b.toList.length < 0 := by omega
      rw [Nat.compare_eq_lt.2 h, if_neg (not_lt_of_gt hneg), if_pos hneg]
      rfl
    · rw [Nat.compare_eq_eq.2 h, h, Int.sub_self]
      rfl
    · have hpos : (a.toList.length : Int) - b.toList.length > 0 := by omega
      rw [Nat.compare_eq_gt.2 h, if_pos hpos]
      rfl

theorem mdbCmpMemn_isTotalPreorder : IsTotalPreorder mdbCmpMemn :=
  isTotalPreorder_of_sgn_eq sgn_mdbCmpMemn

/-- A database is ordered by `BITWISE` and by `LEXICOGRAPHIC_STRING` as it is by LMDB
    without a comparer. -/
theorem mdbCmpMemn_interchangeable :
    standardComparers .bitwise = some bitwiseCompare ∧
      Interchangeable (onBytes bitwiseCompare) mdbCmpMemn ∧
      standardComparers .lexicographicString = some lexicographicalStringCompare ∧
      Interchangeable (onBytes lexicographicalStringCompare) mdbCmpMemn := by
  refine ⟨rfl, .of_sgn_eq fun a b => ?_, rfl, .of_sgn_eq fun a b => ?_⟩
  · rw [bitwise_realises.sgn_eq, sgn_mdbCmpMemn]
  · rw [lexicographicalString_realises.sgn_eq, sgn_mdbCmpMemn]

end KotlinLmdb
