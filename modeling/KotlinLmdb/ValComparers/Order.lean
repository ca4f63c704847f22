import Mathlib.Data.List.Basic
import KotlinLmdb.Order.ThreeWay
import KotlinLmdb.ValComparers

/-!
# The built-in comparers are total preorders

Each comparer realises the comparison its name promises (`bitwise_realises`,
`length_realises`, `lengthOnly_realises`, `hashCode_realises`), so that all
twelve are total preorders (`standardComparers_isTotalPreorder`): the wrapping
differences never overflow, as sizes stay below `2^31` and bytes below `2^8`.
-/

namespace KotlinLmdb

/-! ## Bytes -/

/-- The unsigned value of a byte. -/
def byteValue (x : Int8) : ℕ := x.toBitVec.toNat

theorem byteValue_lt (x : Int8) : byteValue x < 2 ^ 8 := x.toBitVec.isLt

theorem byteValue_inj {x y : Int8} : byteValue x = byteValue y ↔ x = y := by
  rw [byteValue, byteValue, ← BitVec.toNat_eq, Int8.toBitVec_inj]

/-- Masking the sign extension of a byte gives its unsigned value. -/
theorem unsigned_eq (x : Int8) : unsigned x = .ofNat (byteValue x) := by
  have mask : ∀ v : BitVec 8, v.signExtend 32 &&& 255#32 = v.zeroExtend 32 := by decide +kernel
  rw [← Int32.toBitVec_inj, unsigned, Int32.toBitVec_and, Int8.toBitVec_toInt32]
  exact (mask _).trans (BitVec.ofNat_toNat ..).symm

/-- The unsigned bytes of an array, which the comparers order arrays by. -/
def Bytes.unsigned (a : Bytes) : List ℕ := a.toList.map byteValue

theorem Bytes.unsigned_inj {a b : Bytes} : a.unsigned = b.unsigned ↔ a = b := by
  rw [← Bytes.toList_inj]
  exact List.map_inj_right fun _ _ => byteValue_inj.1

/-- The difference of two bytes is their comparison. -/
theorem sgn_unsigned_sub (x y : Int8) :
    sgn (KotlinLmdb.unsigned x - KotlinLmdb.unsigned y) = compare (byteValue x) (byteValue y) := by
  have hx := byteValue_lt x
  have hy := byteValue_lt y
  rw [unsigned_eq, unsigned_eq, sgn_sub_ofNat (by omega) (by omega)]

/-- The difference of two bytes is far from `-2^31`. -/
theorem neg_lt_unsigned_sub (x y : Int8) :
    -2 ^ 31 < (KotlinLmdb.unsigned x - KotlinLmdb.unsigned y).toInt := by
  have hx := byteValue_lt x
  have hy := byteValue_lt y
  rw [unsigned_eq, unsigned_eq, toInt_sub_ofNat (by omega) (by omega)]
  omega

/-! ## The first difference -/

/-- A first difference decides the lexicographic comparison, whichever way the
    arrays go on. -/
theorem sgn_of_firstDifference {xs ys : List Int8} {d : Int32}
    (h : firstDifference xs ys = some d) :
    sgn d = compare (xs.map byteValue) (ys.map byteValue) ∧ -2 ^ 31 < d.toInt := by
  fun_induction firstDifference xs ys with
  | case1 x xs y ys diff hd =>
    obtain rfl := Option.some.inj h
    rw [List.map_cons, List.map_cons, List.compare_cons_cons, ← sgn_unsigned_sub]
    refine ⟨?_, neg_lt_unsigned_sub x y⟩
    rcases hs : sgn diff with _ | _ | _
    · rfl
    · exact absurd (sgn_eq_eq.1 hs) hd
    · rfl
  | case2 x xs y ys diff hd ih =>
    rw [List.map_cons, List.map_cons, List.compare_cons_cons, ← sgn_unsigned_sub,
      sgn_eq_eq.2 (not_not.1 hd)]
    exact ih h
  | case3 => contradiction

/-- Without a first difference, the shorter array is a prefix of the other, and
    their sizes decide the lexicographic comparison. -/
theorem compare_of_firstDifference_eq_none {xs ys : List Int8}
    (h : firstDifference xs ys = none) :
    compare (xs.map byteValue) (ys.map byteValue) = compare xs.length ys.length := by
  fun_induction firstDifference xs ys with
  | case1 x xs y ys diff hd => contradiction
  | case2 x xs y ys diff hd ih =>
    rw [List.map_cons, List.map_cons, List.compare_cons_cons, ← sgn_unsigned_sub,
      sgn_eq_eq.2 (not_not.1 hd), Ordering.eq_then, ih h]
    simp [Nat.compare_eq_ite_lt]
  | case3 xs ys hne =>
    cases xs <;> cases ys
    · rfl
    · rfl
    · rfl
    · exact absurd rfl (hne _ _ _ _ rfl)

/-! ## What the comparers realise -/

/-- The comparison of arrays by their size. -/
abbrev sizeOrd : Bytes → Bytes → Ordering := compareOn fun a => a.toList.length

/-- The lexicographic comparison of arrays by their unsigned bytes. -/
abbrev lexOrd : Bytes → Bytes → Ordering := compareOn Bytes.unsigned

/-- The comparison of arrays by their signed hash code. -/
abbrev hashOrd : Bytes → Bytes → Ordering := compareOn fun a => a.contentHashCode.toInt

theorem size_realises : Realises (fun a b : Bytes => a.size - b.size) sizeOrd :=
  .sub_ofNat Bytes.length_lt

theorem lengthOnly_realises : Realises (onBytes lengthOnlyCompare) sizeOrd := size_realises

theorem bitwise_realises : Realises (onBytes bitwiseCompare) lexOrd where
  sgn_eq a b := by
    simp only [onBytes, bitwiseCompare, Bytes.toByteArray_toVal]
    split
    · next d hd => exact (sgn_of_firstDifference hd).1
    · next hd =>
      exact (size_realises.sgn_eq a b).trans (compare_of_firstDifference_eq_none hd).symm
  neg_lt a b := by
    simp only [onBytes, bitwiseCompare, Bytes.toByteArray_toVal]
    split
    · next d hd => exact (sgn_of_firstDifference hd).2
    · exact size_realises.neg_lt a b

theorem lexicographicalString_realises : Realises (onBytes lexicographicalStringCompare) lexOrd :=
  bitwise_realises

/-- Sizes first, then bytes. -/
theorem length_realises : Realises (onBytes lengthCompare) (compareLex sizeOrd lexOrd) :=
  size_realises.orElse bitwise_realises

/-- On arrays of different sizes the sizes decide; on arrays of one size, the
    loop over all of it is the one of the bitwise comparison. -/
theorem integerKeyCompare_eq_lengthCompare (a b : Bytes) :
    onBytes integerKeyCompare a b = onBytes lengthCompare a b := by
  simp only [onBytes, integerKeyCompare, lengthCompare, Bytes.toByteArray_toVal]
  by_cases hs : a.size = b.size
  · have hsub : b.size - b.size = 0 := Int32.sub_self b.size
    simp only [hs, hsub, bitwiseCompare, Bytes.toByteArray_toVal, ne_eq, not_true_eq_false,
      if_false]
  · have hsub : a.size - b.size ≠ 0 := fun h => hs <| by
      rwa [Int32.sub_eq_iff_eq_add, Int32.zero_add] at h
    rw [if_pos hs, if_pos hsub]

theorem integerKey_realises : Realises (onBytes integerKeyCompare) (compareLex sizeOrd lexOrd) :=
  funext₂ integerKeyCompare_eq_lengthCompare ▸ length_realises

/-- Hash codes first, then bytes: answering at once on equal arrays makes no
    difference, as their hash codes and their bytes are equal. -/
theorem hashCode_realises : Realises (onBytes hashCodeCompare) (compareLex hashOrd lexOrd) := by
  have h := (Realises.signTest Bytes.contentHashCode).orElse bitwise_realises
  convert h using 1
  funext a b
  simp only [onBytes, hashCodeCompare, Bytes.toByteArray_toVal]
  by_cases hc : a.toList = b.toList
  · obtain rfl := Bytes.toList_inj.1 hc
    have h0 : onBytes bitwiseCompare a a = 0 :=
      bitwise_realises.eq_zero_iff.2 Std.ReflCmp.compare_self
    simpa [onBytes] using h0.symm
  · by_cases hh : a.contentHashCode = b.contentHashCode
    · simp [hc, hh]
    · by_cases hlt : a.contentHashCode < b.contentHashCode <;> simp [hc, hh, hlt]

/-- The comparison a built-in comparer realises. -/
def ValComparer.ord : ValComparer → Bytes → Bytes → Ordering
  | .bitwise | .lexicographicString => lexOrd
  | .integerKey | .length => compareLex sizeOrd lexOrd
  | .lengthOnly => sizeOrd
  | .hashCode => compareLex hashOrd lexOrd
  | .reverseBitwise | .reverseLexicographicString => fun a b => lexOrd b a
  | .reverseIntegerKey | .reverseLength => fun a b => compareLex sizeOrd lexOrd b a
  | .reverseLengthOnly => fun a b => sizeOrd b a
  | .reverseHashCode => fun a b => compareLex hashOrd lexOrd b a
  | .custom1 | .custom2 | .custom3 | .custom4 => fun _ _ => .eq

theorem realises_ord {c : ValComparer} {cmp : ValCompare} (h : standardComparers c = some cmp) :
    Realises (onBytes cmp) c.ord := by
  cases c <;> simp only [standardComparers, Option.some.injEq, reduceCtorEq] at h <;> subst h
  · exact bitwise_realises
  · exact bitwise_realises.neg
  · exact lexicographicalString_realises
  · exact lexicographicalString_realises.neg
  · exact integerKey_realises
  · exact integerKey_realises.neg
  · exact length_realises
  · exact length_realises.neg
  · exact lengthOnly_realises
  · exact lengthOnly_realises.neg
  · exact hashCode_realises
  · exact hashCode_realises.neg

instance (c : ValComparer) : Std.TransCmp c.ord := by
  cases c <;> rw [ValComparer.ord]
  case custom1 | custom2 | custom3 | custom4 =>
    exact { eq_swap := rfl, isLE_trans := fun _ _ => rfl }
  all_goals infer_instance

/-- What `REVERSE_x` realises is the mirror of what `x` does. -/
theorem ord_forward {c x : ValComparer} (h : c.forward = some x) (a b : Bytes) :
    c.ord a b = x.ord b a := by
  cases c <;> simp only [ValComparer.forward, Option.some.injEq, reduceCtorEq] at h <;>
    subst h <;> rfl

theorem lexOrd_eq {a b : Bytes} : lexOrd a b = .eq ↔ a = b := by
  have h : compare a.unsigned b.unsigned = .eq ↔ a.unsigned = b.unsigned :=
    Std.LawfulEqOrd.compare_eq_iff_eq
  exact h.trans Bytes.unsigned_inj

/-- Breaking ties by bytes, only equal arrays compare as equal. -/
theorem compareLex_lexOrd_eq {ord : Bytes → Bytes → Ordering} [Std.ReflCmp ord] {a b : Bytes} :
    compareLex ord lexOrd a b = .eq ↔ a = b := by
  rw [compareLex_eq_eq, lexOrd_eq, and_iff_right_iff_imp]
  rintro rfl
  exact Std.ReflCmp.compare_self

theorem sizeOrd_eq {a b : Bytes} : sizeOrd a b = .eq ↔ a.toList.length = b.toList.length :=
  Nat.compare_eq_eq

/-- Every built-in comparer is a total preorder on arrays, takes two arrays as
    equal exactly if they are (the length-only ones, if their sizes are), and
    each `REVERSE_x` mirrors `x`. -/
theorem standardComparers_isTotalPreorder {c : ValComparer} {cmp : ValCompare}
    (h : standardComparers c = some cmp) :
    IsTotalPreorder (onBytes cmp) ∧
      (∀ a b, onBytes cmp a b = 0 ↔
        if c = .lengthOnly ∨ c = .reverseLengthOnly then a.toList.length = b.toList.length
        else a = b) ∧
      ∀ x cmp', c.forward = some x → standardComparers x = some cmp' →
        ∀ a b, (onBytes cmp a b).toInt.sign = (onBytes cmp' b a).toInt.sign := by
  refine ⟨(realises_ord h).isTotalPreorder, fun a b => ?_, fun x cmp' hx h' a b => ?_⟩
  · rw [(realises_ord h).eq_zero_iff]
    cases c
    case lengthOnly => exact sizeOrd_eq
    case reverseLengthOnly => exact sizeOrd_eq.trans eq_comm
    case bitwise | lexicographicString => exact lexOrd_eq
    case reverseBitwise | reverseLexicographicString => exact lexOrd_eq.trans eq_comm
    case integerKey | length | hashCode => exact compareLex_lexOrd_eq
    case reverseIntegerKey | reverseLength | reverseHashCode =>
      exact compareLex_lexOrd_eq.trans eq_comm
    all_goals exact absurd h nofun
  · refine sign_eq_of_sgn_eq ?_
    rw [(realises_ord h).sgn_eq, (realises_ord h').sgn_eq, ord_forward hx]

theorem reverseHashCode_isTotalPreorder :
    IsTotalPreorder (onBytes reverseHashCodeCompare) ∧
      (∀ a b, onBytes reverseHashCodeCompare a b = 0 ↔ a = b) ∧
      ∀ a b, (onBytes reverseHashCodeCompare a b).toInt.sign =
        (onBytes hashCodeCompare b a).toInt.sign :=
  have h := standardComparers_isTotalPreorder (c := .reverseHashCode) rfl
  ⟨h.1, h.2.1, h.2.2 .hashCode _ rfl rfl⟩

end KotlinLmdb
