import Mathlib.Data.Int.Order.Basic
import Mathlib.Data.Int.Lemmas

/-!
# Three-way comparers

A *three-way comparer* on `α` answers a comparison with a 32-bit integer, of
which only the sign counts: negative for less, zero for equal, positive for
greater. It *realises* an ordering function if its signs are that function's
answers (`Realises`); a comparer realising a transitive comparison is a total
preorder (`Realises.isTotalPreorder`).

The integers wrap around, so that the two usual ways to build a comparer need
care: the difference of two numbers has the right sign only if it does not
overflow (`sgn_sub_ofNat`), and negation mirrors a comparer only if it never
answers `-2^31` (`Realises.neg`), which `Realises` therefore rules out.
-/

namespace KotlinLmdb

variable {α β : Type*}

/-- The sign of a 32-bit integer, as the outcome of a comparison. -/
def sgn (x : Int32) : Ordering := compare x.toInt 0

theorem sgn_eq_lt {x : Int32} : sgn x = .lt ↔ x.toInt < 0 := Int.compare_eq_lt

theorem sgn_eq_gt {x : Int32} : sgn x = .gt ↔ 0 < x.toInt := Int.compare_eq_gt

theorem sgn_eq_eq {x : Int32} : sgn x = .eq ↔ x = 0 := by
  rw [sgn, Int.compare_eq_eq, ← Int32.toInt_inj]
  rfl

theorem sgn_isLE {x : Int32} : (sgn x).isLE ↔ x.toInt ≤ 0 := by
  rw [Ordering.isLE_iff_eq_lt_or_eq_eq, sgn_eq_lt, sgn_eq_eq, ← Int32.toInt_inj]
  exact Int.le_iff_lt_or_eq.symm

/-- Away from `-2^31`, negation does not wrap around. -/
theorem toInt_neg_of_lt {x : Int32} (hx : -2 ^ 31 < x.toInt) : (-x).toInt = -x.toInt := by
  have := x.toInt_lt
  rw [Int32.toInt_neg, Int.bmod_eq_of_le] <;> omega

/-- Away from `-2^31`, negation swaps the outcome of a comparison. -/
theorem sgn_neg {x : Int32} (hx : -2 ^ 31 < x.toInt) : sgn (-x) = (sgn x).swap := by
  rw [sgn, toInt_neg_of_lt hx, sgn]
  rcases lt_trichotomy x.toInt 0 with h | h | h
  · rw [Int.compare_eq_gt.2 (by omega), Int.compare_eq_lt.2 h]; rfl
  · rw [h]; rfl
  · rw [Int.compare_eq_lt.2 (by omega), Int.compare_eq_gt.2 h]; rfl

/-- The difference of two numbers below `2^31` does not wrap around. -/
theorem toInt_sub_ofNat {m n : ℕ} (hm : m < 2 ^ 31) (hn : n < 2 ^ 31) :
    (Int32.ofNat m - Int32.ofNat n).toInt = m - n := by
  rw [Int32.toInt_sub, Int32.toInt_ofNat_of_lt hm, Int32.toInt_ofNat_of_lt hn,
    Int.bmod_eq_of_le] <;> omega

/-- The difference of two numbers below `2^31` has the sign of their comparison. -/
theorem sgn_sub_ofNat {m n : ℕ} (hm : m < 2 ^ 31) (hn : n < 2 ^ 31) :
    sgn (Int32.ofNat m - Int32.ofNat n) = compare m n := by
  rw [sgn, toInt_sub_ofNat hm hn]
  rcases lt_trichotomy m n with h | h | h
  · rw [Int.compare_eq_lt.2 (by omega), Nat.compare_eq_lt.2 h]
  · rw [Int.compare_eq_eq.2 (by omega), Nat.compare_eq_eq.2 h]
  · rw [Int.compare_eq_gt.2 (by omega), Nat.compare_eq_gt.2 h]

/-- The comparer `cmp` answers as `ord` does, and never with `-2^31`. -/
structure Realises (cmp : α → α → Int32) (ord : α → α → Ordering) : Prop where
  sgn_eq : ∀ a b, sgn (cmp a b) = ord a b
  neg_lt : ∀ a b, -2 ^ 31 < (cmp a b).toInt

/-- The comparer `cmp` is a total preorder, "less or equal" being a nonpositive
    answer: swapping its arguments flips the sign of its answer, and it is
    transitive. -/
structure IsTotalPreorder (cmp : α → α → Int32) : Prop where
  sign_swap : ∀ a b, (cmp b a).toInt.sign = -(cmp a b).toInt.sign
  trans : ∀ a b c, (cmp a b).toInt ≤ 0 → (cmp b c).toInt ≤ 0 → (cmp a c).toInt ≤ 0

/-- Comparers answer with the same sign when they have the same outcome. -/
theorem sign_eq_of_sgn_eq {x y : Int32} (h : sgn x = sgn y) : x.toInt.sign = y.toInt.sign := by
  rcases hx : sgn x with _ | _ | _ <;> rw [hx] at h
  · rw [Int.sign_eq_neg_one_of_neg (sgn_eq_lt.1 hx),
      Int.sign_eq_neg_one_of_neg (sgn_eq_lt.1 h.symm)]
  · rw [sgn_eq_eq.1 hx, sgn_eq_eq.1 h.symm]
  · rw [Int.sign_eq_one_of_pos (sgn_eq_gt.1 hx), Int.sign_eq_one_of_pos (sgn_eq_gt.1 h.symm)]

/-- Comparers answer with opposite signs when they have opposite outcomes. -/
theorem sign_eq_neg_of_sgn_eq_swap {x y : Int32} (h : sgn x = (sgn y).swap) :
    x.toInt.sign = -y.toInt.sign := by
  rcases hy : sgn y with _ | _ | _ <;> rw [hy] at h
  · rw [Int.sign_eq_neg_one_of_neg (sgn_eq_lt.1 hy), Int.sign_eq_one_of_pos (sgn_eq_gt.1 h)]; rfl
  · rw [sgn_eq_eq.1 hy, sgn_eq_eq.1 h]; rfl
  · rw [Int.sign_eq_one_of_pos (sgn_eq_gt.1 hy), Int.sign_eq_neg_one_of_neg (sgn_eq_lt.1 h)]

/-- A comparer with the outcomes of a transitive comparison is a total preorder. -/
theorem isTotalPreorder_of_sgn_eq {cmp : α → α → Int32} {ord : α → α → Ordering}
    [Std.TransCmp ord] (h : ∀ a b, sgn (cmp a b) = ord a b) : IsTotalPreorder cmp where
  sign_swap a b := sign_eq_neg_of_sgn_eq_swap <| by
    have swap : ord b a = (ord a b).swap := Std.OrientedCmp.eq_swap
    rw [h, h, swap]
  trans a b c hab hbc := by
    rw [← sgn_isLE, h] at hab hbc ⊢
    exact Std.TransCmp.isLE_trans hab hbc

namespace Realises

variable {cmp : α → α → Int32} {ord : α → α → Ordering}

/-- A comparer realising a transitive comparison is a total preorder. -/
theorem isTotalPreorder [Std.TransCmp ord] (h : Realises cmp ord) : IsTotalPreorder cmp :=
  isTotalPreorder_of_sgn_eq h.sgn_eq

/-- A comparer answers zero exactly on what its ordering function takes as equal. -/
theorem eq_zero_iff (h : Realises cmp ord) {a b : α} : cmp a b = 0 ↔ ord a b = .eq := by
  rw [← sgn_eq_eq, h.sgn_eq]

/-- The negation of a comparer realises the mirrored comparison. -/
theorem neg [Std.OrientedCmp ord] (h : Realises cmp ord) :
    Realises (fun a b => -cmp a b) (fun a b => ord b a) where
  sgn_eq a b := by
    have swap : ord b a = (ord a b).swap := Std.OrientedCmp.eq_swap
    rw [sgn_neg (h.neg_lt a b), h.sgn_eq, swap]
  neg_lt a b := by
    have := (cmp a b).toInt_lt
    rw [toInt_neg_of_lt (h.neg_lt a b)]
    omega

/-- The difference of two measures below `2^31` realises their comparison. -/
theorem sub_ofNat {f : α → ℕ} (hf : ∀ a, f a < 2 ^ 31) :
    Realises (fun a b => Int32.ofNat (f a) - Int32.ofNat (f b)) (compareOn f) where
  sgn_eq a b := sgn_sub_ofNat (hf a) (hf b)
  neg_lt a b := by
    have := hf b
    rw [toInt_sub_ofNat (hf a) (hf b)]
    omega

/-- Testing the sign of a comparison of 32-bit measures realises it, whatever
    their difference. -/
theorem signTest (f : α → Int32) :
    Realises (fun a b => if f a ≠ f b then if f a < f b then -1 else 1 else 0)
      (compareOn fun a => (f a).toInt) where
  sgn_eq a b := by
    simp only [compareOn]
    split_ifs with hne hlt
    · rw [Int.compare_eq_lt.2 (Int32.lt_iff_toInt_lt.1 hlt)]; rfl
    · have : (f b).toInt < (f a).toInt := by
        have := mt Int32.toInt_inj.1 hne
        have := mt Int32.lt_iff_toInt_lt.2 hlt
        omega
      rw [Int.compare_eq_gt.2 this]; rfl
    · rw [not_not.1 hne, Int.compare_eq_eq.2 rfl]; rfl
  neg_lt a b := by
    split_ifs <;> decide

/-- A comparer asking a second one about what the first takes as equal realises
    the lexicographic combination. -/
theorem orElse {cmp' : α → α → Int32} {ord' : α → α → Ordering} (h : Realises cmp ord)
    (h' : Realises cmp' ord') :
    Realises (fun a b => if cmp a b ≠ 0 then cmp a b else cmp' a b) (compareLex ord ord') where
  sgn_eq a b := by
    by_cases h0 : cmp a b = 0
    · rw [ite_not, if_pos h0, compareLex, h.eq_zero_iff.1 h0]
      exact h'.sgn_eq a b
    · rw [if_pos h0, compareLex, ← h.sgn_eq]
      rcases hs : sgn (cmp a b) with _ | _ | _
      · rfl
      · exact absurd (sgn_eq_eq.1 hs) h0
      · rfl
  neg_lt a b := by
    split
    · exact h.neg_lt a b
    · exact h'.neg_lt a b

end Realises

end KotlinLmdb
