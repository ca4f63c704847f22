import Mathlib.Data.Nat.Basic

/-!
# Binary search

The search of a sorted array for a value (`bisect`), as it is written where the cells are
numbered from 1 on. It only looks at how the value compares to the cells: `cmp i` is how it
compares to the cell `i` in the order of the array, whichever that is.

In a strictly sorted array (`Sorts`), it finds the cell the value is in, or has to be
inserted at: the value comes after all cells before, and before all cells after (`Seeks`).
-/

namespace KotlinLmdb

variable {cmp : ℕ → Ordering} {base n cursor x y : ℕ} {val : Ordering}

/-- Searches the `n` cells after `base`. The last cell looked at was `cursor`, to which the
    value compared as `val`. -/
def bisect (cmp : ℕ → Ordering) (base n cursor : ℕ) (val : Ordering) : ℕ :=
  if 0 < n then
    let pivot := n / 2
    let cursor := base + pivot + 1
    match cmp cursor with
    | .lt => bisect cmp base pivot cursor .lt
    | .gt => bisect cmp cursor (n - (pivot + 1)) cursor .gt
    | .eq => cursor
  else if val = .gt then cursor + 1
  else cursor
termination_by n

/-- The cells `1..n` are strictly sorted, as far as the value tells them apart: it comes
    before all cells after one it does not come after. -/
def Sorts (cmp : ℕ → Ordering) (n : ℕ) : Prop :=
  ∀ i j, 0 < i → i < j → j ≤ n → cmp i ≠ .gt → cmp j = .lt

/-- The value comes after the cells before `x`, and before those after. -/
structure Seeks (cmp : ℕ → Ordering) (n x : ℕ) : Prop where
  pos : 0 < x
  le : x ≤ n + 1
  gt : ∀ i, 0 < i → i < x → cmp i = .gt
  lt : ∀ i, x < i → i ≤ n → cmp i = .lt
  ne_gt : x ≤ n → cmp x ≠ .gt

/-- The value is found if it is there. -/
theorem Seeks.of_eq (hseeks : Seeks cmp n x) (hy : 0 < y ∧ y ≤ n) (heq : cmp y = .eq) : x = y := by
  by_contra hne
  rcases lt_or_gt_of_ne hne with hlt | hgt
  · simpa [heq] using hseeks.lt y hlt hy.2
  · simpa [heq] using hseeks.gt y hy.1 hgt

/-- Only one cell is the one sought. -/
theorem Seeks.unique (hx : Seeks cmp n x) (hy : Seeks cmp n y) : x = y := by
  by_contra hne
  rcases lt_or_gt_of_ne hne with hlt | hgt
  · exact hx.ne_gt (by have := hy.le; omega) (hy.gt x hx.pos hlt)
  · exact hy.ne_gt (by have := hx.le; omega) (hx.gt y hy.pos hgt)

/-- The search with `m` cells, of which it has already ruled out those up to `base`, and those
    from `base + n + 1` on. -/
theorem bisect_spec {m : ℕ} (hsorts : Sorts cmp m) (hle : base + n ≤ m)
    (hgt : ∀ i, 0 < i → i ≤ base → cmp i = .gt) (hlt : ∀ i, base + n < i → i ≤ m → cmp i = .lt)
    (hval : cursor + (if val = .gt then 1 else 0) = base + 1 ∨ 0 < n ∨
      val = .lt ∧ cursor = base + n + 1) :
    Seeks cmp m (bisect cmp base n cursor val) := by
  induction base, n, cursor, val using bisect.induct cmp with
  | case1 base n cursor val hn pivot c hc ih =>
    -- the cells from the cursor on are ruled out
    have hpivot : pivot < n := Nat.div_lt_self hn (by decide)
    have hres : bisect cmp base n cursor val = bisect cmp base pivot c .lt := by
      rw [bisect, if_pos hn]
      simp only [show cmp (base + n / 2 + 1) = .lt from hc, pivot, c]
    rw [hres]
    refine ih (by omega) hgt (fun i hi him => ?_) (.inr (.inr ⟨rfl, rfl⟩))
    rcases Nat.lt_or_ge c i with hci | hci
    · exact hsorts c i (by omega) hci him (by simp [hc])
    · rwa [show i = c by omega]
  | case2 base n cursor val hn pivot c hc ih =>
    -- the cells up to the cursor are ruled out
    have hpivot : pivot < n := Nat.div_lt_self hn (by decide)
    have hres : bisect cmp base n cursor val = bisect cmp c (n - (pivot + 1)) c .gt := by
      rw [bisect, if_pos hn]
      simp only [show cmp (base + n / 2 + 1) = .gt from hc, pivot, c]
    rw [hres]
    refine ih (by omega) (fun i hi hic => ?_) (fun i hi him => hlt i (by omega) him) (.inl rfl)
    by_contra hne
    rcases Nat.lt_or_ge i c with hci | hci
    · simpa [hc] using hsorts i c hi hci (by omega) hne
    · exact hne (by rwa [show i = c by omega])
  | case3 base n cursor val hn pivot c hc =>
    have hpivot : pivot < n := Nat.div_lt_self hn (by decide)
    have hres : bisect cmp base n cursor val = c := by
      rw [bisect, if_pos hn]
      simp only [show cmp (base + n / 2 + 1) = .eq from hc, pivot, c]
    rw [hres]
    refine ⟨Nat.succ_pos _, by omega, fun i hi hic => ?_, fun i hi him => ?_, fun _ => by simp [hc]⟩
    · by_contra hne
      simpa [hc] using hsorts i c hi hic (by omega) hne
    · exact hsorts c i (by omega) hi him (by simp [hc])
  | case4 base n cursor hn =>
    have hres : bisect cmp base n cursor .gt = base + 1 := by
      rw [bisect, if_neg hn, if_pos rfl]
      simp only [if_pos, reduceCtorEq, false_and, or_false] at hval
      omega
    rw [hres]
    exact ⟨by omega, by omega, fun i hi hic => hgt i hi (by omega),
      fun i hi him => hlt i (by omega) him, fun him => by simp [hlt (base + 1) (by omega) him]⟩
  | case5 base n cursor val hn hne =>
    have hres : bisect cmp base n cursor val = base + 1 := by
      rw [bisect, if_neg hn, if_neg hne]
      rw [if_neg hne] at hval
      omega
    rw [hres]
    exact ⟨by omega, by omega, fun i hi hic => hgt i hi (by omega),
      fun i hi him => hlt i (by omega) him, fun him => by simp [hlt (base + 1) (by omega) him]⟩

/-- The search of a strictly sorted array finds the cell sought. -/
theorem seeks_bisect (hsorts : Sorts cmp n) : Seeks cmp n (bisect cmp 0 n 1 .eq) :=
  bisect_spec hsorts (by omega) (fun _ hi hi' => by omega) (fun _ hi hi' => by omega)
    (.inl rfl)

end KotlinLmdb
