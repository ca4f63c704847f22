import Mathlib.Algebra.Group.End
import Mathlib.Data.List.Nodup
import Mathlib.Data.List.Perm.Basic
import Mathlib.Data.List.Pairwise
import Mathlib.Logic.Equiv.Basic
import Mathlib.Order.Defs.LinearOrder

/-!
# Arrays in memory

An array in memory as a program sees it: cells, read and written by their index (`Cells`).
Algorithms that work in place move the values of some range of cells around (`Moved`),
which keeps what holds of all values of the range (`Moved.forall_iff`), and leaves the
cells outside alone.
-/

namespace KotlinLmdb

variable {α : Type*}

/-- The cells of an array. -/
abbrev Cells (α : Type*) := ℕ → α

namespace Cells

variable {f g h : Cells α} {l r i j k : ℕ} {x : α}

/-- Writes a cell. -/
def write (f : Cells α) (i : ℕ) (x : α) : Cells α := fun k => if k = i then x else f k

@[simp]
theorem write_self (f : Cells α) (i : ℕ) (x : α) : f.write i x i = x := if_pos rfl

theorem write_of_ne (f : Cells α) (x : α) (h : k ≠ i) : f.write i x k = f k := if_neg h

@[simp]
theorem write_same (f : Cells α) (i : ℕ) : f.write i (f i) = f := by
  funext k
  by_cases hk : k = i
  · rw [hk, write_self]
  · exact f.write_of_ne _ hk

/-- Exchanges two cells. -/
def swap (f : Cells α) (i j : ℕ) : Cells α := (f.write i (f j)).write j (f i)

theorem swap_eq (f : Cells α) (i j : ℕ) : f.swap i j = f ∘ Equiv.swap i j := by
  funext k
  by_cases hj : k = j
  · rw [hj, swap, write_self, Function.comp, Equiv.swap_apply_right]
  by_cases hi : k = i
  · rw [swap, write_of_ne _ _ hj, hi, write_self, Function.comp, Equiv.swap_apply_left]
  · rw [swap, write_of_ne _ _ hj, write_of_ne _ _ hi, Function.comp,
      Equiv.swap_apply_of_ne_of_ne hi hj]

@[simp]
theorem swap_left (f : Cells α) (i j : ℕ) : f.swap i j i = f j := by
  rw [swap_eq, Function.comp, Equiv.swap_apply_left]

@[simp]
theorem swap_right (f : Cells α) (i j : ℕ) : f.swap i j j = f i := by
  rw [swap_eq, Function.comp, Equiv.swap_apply_right]

theorem swap_of_ne (f : Cells α) (hi : k ≠ i) (hj : k ≠ j) : f.swap i j k = f k := by
  rw [swap_eq, Function.comp, Equiv.swap_apply_of_ne_of_ne hi hj]

/-- The values of `n` cells from `i` on. -/
def slice (f : Cells α) (i n : ℕ) : List α := (List.range' i n).map f

@[simp]
theorem length_slice (f : Cells α) (i n : ℕ) : (f.slice i n).length = n := by simp [slice]

theorem mem_slice {n : ℕ} : x ∈ f.slice i n ↔ ∃ k, i ≤ k ∧ k < i + n ∧ f k = x := by
  simp [slice, List.mem_range'_1, and_assoc]

theorem slice_succ (f : Cells α) (i n : ℕ) : f.slice i (n + 1) = f.slice i n ++ [f (i + n)] := by
  simp [slice, List.range'_concat]

theorem slice_cons (f : Cells α) (i n : ℕ) : f.slice i (n + 1) = f i :: f.slice (i + 1) n := by
  simp [slice, List.range'_succ]

theorem slice_append (f : Cells α) (i m n : ℕ) :
    f.slice i (m + n) = f.slice i m ++ f.slice (i + m) n := by
  rw [slice, slice, slice, ← List.map_append, ← List.range'_append_1]

theorem slice_congr {n : ℕ} (hfg : ∀ k, i ≤ k → k < i + n → f k = g k) :
    f.slice i n = g.slice i n :=
  List.map_congr_left fun k hk => hfg k (List.mem_range'_1.1 hk).1 (List.mem_range'_1.1 hk).2

/-- The values have been moved up by one cell. -/
theorem slice_shift {n : ℕ} (hfg : ∀ k, i ≤ k → k < i + n → f (k + 1) = g k) :
    f.slice (i + 1) n = g.slice i n := by
  induction n with
  | zero => rfl
  | succ n ih =>
    rw [slice_succ, slice_succ, ih fun k hk hkn => hfg k hk (by omega), Nat.add_right_comm,
      hfg (i + n) (by omega) (by omega)]

theorem slice_eq_append_cons (f : Cells α) {n : ℕ} (hk : i ≤ k ∧ k < i + n) :
    f.slice i n = f.slice i (k - i) ++ f k :: f.slice (k + 1) (n - (k - i) - 1) := by
  rw [← slice_cons, show n = k - i + (n - (k - i) - 1 + 1) by omega, slice_append]
  congr 2 <;> omega

/-- The values are in an order if and only if the cells are. -/
theorem pairwise_slice_iff {R : α → α → Prop} {n : ℕ} :
    (f.slice i n).Pairwise R ↔ ∀ j k, i ≤ j → j < k → k < i + n → R (f j) (f k) := by
  induction n with
  | zero => exact ⟨fun _ j k hj hjk hk => by omega, fun _ => List.Pairwise.nil⟩
  | succ n ih =>
    rw [slice_succ, List.pairwise_append, ih]
    constructor
    · rintro ⟨hf, -, hlast⟩ j k hj hjk hk
      rcases Nat.lt_or_ge k (i + n) with hlt | hge
      · exact hf j k hj hjk hlt
      · obtain rfl : k = i + n := by omega
        exact hlast _ (mem_slice.2 ⟨j, hj, hjk, rfl⟩) _ (List.mem_singleton_self _)
    · refine fun hf => ⟨fun j k hj hjk hk => hf j k hj hjk (by omega), List.pairwise_singleton _ _,
        fun x hx y hy => ?_⟩
      obtain ⟨j, hj, hjn, rfl⟩ := mem_slice.1 hx
      rw [List.mem_singleton.1 hy]
      exact hf j _ hj hjn (by omega)

/-- The values of the cells `1..n`, the last one first. -/
def descend (f : Cells α) : ℕ → List α
  | 0 => []
  | n + 1 => f (n + 1) :: descend f n

theorem descend_eq (f : Cells α) (n : ℕ) : f.descend n = (f.slice 1 n).reverse := by
  induction n with
  | zero => rfl
  | succ n ih => rw [descend, slice_succ, List.reverse_append, ih, Nat.add_comm]; rfl

theorem descend_congr {n : ℕ} (hfg : ∀ k, 0 < k → k ≤ n → f k = g k) :
    f.descend n = g.descend n := by
  rw [descend_eq, descend_eq, slice_congr fun k hk hkn => hfg k hk (by omega)]

/-! ## Squeezing cells out -/

/-- Moves those of the `n` cells after `i` that are kept down to the cells after `j`, changing
    them on the way. What comes out is the cells, and the last one moved to. -/
def squeeze (keep : α → Bool) (change : α → α) (f : Cells α) (i j : ℕ) : ℕ → Cells α × ℕ
  | 0 => (f, j)
  | n + 1 =>
    if keep (f (i + 1)) then
      squeeze keep change (f.write (j + 1) (change (f (i + 1)))) (i + 1) (j + 1) n
    else squeeze keep change f (i + 1) j n

/-- Squeezing cells out filters the values. -/
theorem squeeze_spec (keep : α → Bool) (change : α → α) (f : Cells α) {i j : ℕ} (hji : j ≤ i)
    (n : ℕ) :
    let res := f.squeeze keep change i j n
    (j ≤ res.2 ∧ res.2 ≤ j + n) ∧ (∀ k, k ≤ j ∨ i + n < k → res.1 k = f k) ∧
      res.1.slice (j + 1) (res.2 - j) = ((f.slice (i + 1) n).filter keep).map change := by
  induction n generalizing f i j with
  | zero => simp [squeeze, slice]
  | succ n ih =>
    rw [squeeze]
    by_cases hkeep : keep (f (i + 1))
    · -- no cell still to be looked at is written
      have hwrite : ∀ k, k ≠ j + 1 → f.write (j + 1) (change (f (i + 1))) k = f k :=
        fun k => f.write_of_ne _
      obtain ⟨hle, hframe, hslice⟩ :=
        ih (f.write (j + 1) (change (f (i + 1)))) (show j + 1 ≤ i + 1 by omega)
      rw [if_pos hkeep]
      refine ⟨by omega, fun k hk => ?_, ?_⟩
      · rw [hframe k (by omega), hwrite k (by omega)]
      · rw [show (squeeze keep change (f.write (j + 1) (change (f (i + 1)))) (i + 1) (j + 1) n).2 -
            j = (squeeze keep change (f.write (j + 1) (change (f (i + 1)))) (i + 1) (j + 1) n).2 -
              (j + 1) + 1 by omega, slice_cons, hslice, hframe (j + 1) (by omega), write_self,
          slice_cons, List.filter_cons_of_pos hkeep, List.map_cons,
          slice_congr fun k hk _ => hwrite k (by omega)]
    · obtain ⟨hle, hframe, hslice⟩ := ih f (show j ≤ i + 1 by omega)
      rw [if_neg hkeep]
      refine ⟨by omega, fun k hk => hframe k (by omega), ?_⟩
      rw [hslice, slice_cons, List.filter_cons_of_neg hkeep]

/-! ## Moving values around -/

/-- The values of the cells from `l` to `r` have been moved around among them. -/
def Moved (l r : ℕ) (f g : Cells α) : Prop :=
  ∃ e : Equiv.Perm ℕ, (∀ k, k < l ∨ r < k → e k = k) ∧ g = f ∘ e

theorem Moved.refl (l r : ℕ) (f : Cells α) : Moved l r f f := ⟨1, fun _ _ => rfl, rfl⟩

theorem Moved.trans (hfg : Moved l r f g) (hgh : Moved l r g h) : Moved l r f h := by
  obtain ⟨e, he, rfl⟩ := hfg
  obtain ⟨e', he', rfl⟩ := hgh
  refine ⟨e * e', fun k hk => ?_, rfl⟩
  rw [Equiv.Perm.mul_apply, he' k hk, he k hk]

theorem Moved.mono {l' r' : ℕ} (hfg : Moved l r f g) (hl : l' ≤ l) (hr : r ≤ r') :
    Moved l' r' f g := by
  obtain ⟨e, he, rfl⟩ := hfg
  exact ⟨e, fun k hk => he k (by omega), rfl⟩

theorem moved_swap (f : Cells α) (hi : l ≤ i ∧ i ≤ r) (hj : l ≤ j ∧ j ≤ r) :
    Moved l r f (f.swap i j) := by
  refine ⟨Equiv.swap i j, fun k hk => ?_, swap_eq f i j⟩
  rw [Equiv.swap_apply_of_ne_of_ne] <;> omega

/-- Cells outside are left alone. -/
theorem Moved.eq_outside (hfg : Moved l r f g) (hk : k < l ∨ r < k) : g k = f k := by
  obtain ⟨e, he, rfl⟩ := hfg
  rw [Function.comp, he k hk]

/-- Where the value of a cell comes from. -/
theorem Moved.source (hfg : Moved l r f g) (k : ℕ) :
    ∃ j, g k = f j ∧
      ((k < l ∨ r < k) ∧ j = k ∨ (l ≤ k ∧ k ≤ r) ∧ l ≤ j ∧ j ≤ r) := by
  obtain ⟨e, he, rfl⟩ := hfg
  refine ⟨e k, rfl, ?_⟩
  by_cases hk : l ≤ k ∧ k ≤ r
  · refine .inr ⟨hk, ?_⟩
    by_contra hout
    have heq : e (e k) = e k := he (e k) (by omega)
    rw [e.injective heq] at hout
    exact hout hk
  · exact .inl ⟨by omega, he k (by omega)⟩

/-- What holds of all values goes on to. -/
theorem Moved.forall (hfg : Moved l r f g) {P : α → Prop} (hf : ∀ k, l ≤ k → k ≤ r → P (f k)) :
    ∀ k, l ≤ k → k ≤ r → P (g k) := by
  intro k hl hr
  obtain ⟨j, heq, ⟨hout, -⟩ | ⟨-, hj⟩⟩ := hfg.source k
  · omega
  · exact heq ▸ hf j hj.1 hj.2

/-- The values are the same ones, in some other order. -/
theorem Moved.perm {n : ℕ} (hfg : Moved i (i + n - 1) f g) : (g.slice i n).Perm (f.slice i n) := by
  obtain ⟨e, he, rfl⟩ := hfg
  rw [slice, slice, ← List.map_map]
  refine List.Perm.map f ((List.perm_ext_iff_of_nodup ?_ (List.nodup_range' 1)).2 fun k => ?_)
  · exact (List.nodup_range' 1).map e.injective
  · -- a cell comes from within if and only if it is within
    have hmem : e.symm k ∈ List.range' i n ↔ k ∈ List.range' i n := by
      rw [List.mem_range'_1, List.mem_range'_1]
      constructor <;> intro hk <;> by_contra hout
      · have heq : e.symm k = k := (Equiv.symm_apply_eq e).2 (he k (by omega)).symm
        exact hout (heq ▸ hk)
      · have heq := he (e.symm k) (by omega)
        rw [Equiv.apply_symm_apply] at heq
        rw [← heq] at hout
        exact hout hk
    rw [← hmem, List.mem_map]
    exact ⟨fun ⟨j, hj, heq⟩ => by rwa [← heq, Equiv.symm_apply_apply],
      fun hk => ⟨_, hk, e.apply_symm_apply k⟩⟩

end Cells

end KotlinLmdb
