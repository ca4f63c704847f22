import KotlinLmdb.Lmdb.Midl
import KotlinLmdb.Loop

/-!
# Sorting ID lists

`mdb_midl_sort` is a quicksort that leaves small segments to insertion sort. The segments
it has yet to sort are on a stack of limited size: of the two parts of a segment, it puts
aside the larger one and goes on with the smaller one.

The insertion sort of a segment looks down to the first cell of the list, and the scans of
the partitioning look for a cell without any bound; the cells around what they move are
what stops them.

The sort of up to 2^30 IDs always ends, never needs more of the stack than there is, and
sorts the IDs (`mdbMidlSort_spec`); with more, the center of a segment would overflow. What it
keeps (`Sorting`) is that IDs are out of order only within a segment on the stack.
-/

namespace KotlinLmdb

namespace Midl

variable {f f' g : Cells ℕ} {a fuel h i i' j j' l n p q r t : ℕ}

/-! ## The sort -/

/-- How many segments fit into `istack`, which takes `sizeof(int)*CHAR_BIT * 2` integers, of
    which the first is not used. -/
def istackSize : ℕ := 31

/-- `SMALL`. -/
def small : ℕ := 8

/-- The inner loop of the insertion sort: moves the cells from `i` down whose IDs are less
    than `a` up by one. -/
def insertInner (a : ℕ) (ids : Cells ℕ) : ℕ → Cells ℕ × ℕ
  | 0 => (ids, 0)
  | i + 1 => if ids (i + 1) ≥ a then (ids, i + 1)
    else insertInner a (ids.write (i + 2) (ids (i + 1))) i

/-- Inserts the ID of a cell into those before. -/
def insertCell (ids : Cells ℕ) (j : ℕ) : Cells ℕ :=
  let a := ids j
  let (ids, i) := insertInner a ids (j - 1)
  ids.write (i + 1) a

/-- The insertion sort: inserts the IDs of `n` cells, from `j` on. -/
def insertCells (ids : Cells ℕ) (j : ℕ) : ℕ → Cells ℕ
  | 0 => ids
  | n + 1 => insertCells (insertCell ids j) (j + 1) n

/-- Puts the median of the left, center and right ID next to the left one, between the
    others. -/
def medianOfThree (ids : Cells ℕ) (l ir : ℕ) : Cells ℕ :=
  let k := (l + ir) / 2
  let ids := ids.swap k (l + 1)
  let ids := if ids l < ids ir then ids.swap l ir else ids
  let ids := if ids (l + 1) < ids ir then ids.swap (l + 1) ir else ids
  if ids l < ids (l + 1) then ids.swap l (l + 1) else ids

/-- `do i++; while(ids[i] > a)`. -/
def scanUp (ids : Cells ℕ) (a fuel i : ℕ) : Option ℕ :=
  loop (fun i => some (if ids (i + 1) > a then .inl (i + 1) else .inr (i + 1))) fuel i

/-- `do j--; while(ids[j] < a)`. -/
def scanDown (ids : Cells ℕ) (a fuel j : ℕ) : Option ℕ :=
  loop (fun j => some (if ids (j - 1) < a then .inl (j - 1) else .inr (j - 1))) fuel j

/-- The body of the loop that partitions a segment. -/
def partitionBody (a fuel : ℕ) :
    Cells ℕ × ℕ × ℕ → Option (Cells ℕ × ℕ × ℕ ⊕ Cells ℕ × ℕ × ℕ)
  | (ids, i, j) => do
    let i ← scanUp ids a fuel i
    let j ← scanDown ids a fuel j
    return if j < i then .inr (ids, i, j) else .inl (ids.swap i j, i, j)

/-- The body of the main loop, on a segment and the stack of those put aside. -/
def sortBody (fuel : ℕ) : Cells ℕ × (ℕ × ℕ) × List (ℕ × ℕ) →
    Option (Cells ℕ × (ℕ × ℕ) × List (ℕ × ℕ) ⊕ Cells ℕ)
  | (ids, (l, ir), istack) =>
    if ir - l < small then
      let ids := insertCells ids (l + 1) (ir - l)
      match istack with
      | [] => some (.inr ids)
      | seg :: istack => some (.inl (ids, seg, istack))
    -- `l + ir` overflows
    else if l + ir ≥ 2 ^ 31 then none
    else do
      let ids := medianOfThree ids l ir
      let a := ids (l + 1)
      let (ids, i, j) ← loop (partitionBody a fuel) fuel (ids, l + 1, ir)
      let ids := (ids.write (l + 1) (ids j)).write j a
      -- the stack overflows
      if istack.length ≥ istackSize then none
      else if (ir : ℤ) - i + 1 ≥ j - l then
        return .inl (ids, (l, j - 1), (i, ir) :: istack)
      else
        return .inl (ids, (i, ir), (l, j - 1) :: istack)

/-- `mdb_midl_sort`. -/
def mdbMidlSort (m : Midl) (fuel : ℕ) : Option Midl := do
  let ids ← loop (sortBody fuel) fuel (m.cells, (1, m.count), [])
  return { m with cells := ids }

/-! ## The insertion sort -/

/-- The cells from `l` to `r` are in descending order, but maybe for the cell `h` and those
    before it. -/
def DescendingBut (f : Cells ℕ) (l r h : ℕ) : Prop :=
  ∀ p q, l ≤ p → p < q → q ≤ r → q ≠ h → f q ≤ f p

/-- The cells from `l` to `r` are in descending order. -/
def Descending (f : Cells ℕ) (l r : ℕ) : Prop := ∀ p q, l ≤ p → p < q → q ≤ r → f q ≤ f p

/-- Moving an ID up into the cell before which the cells may be out of order. -/
theorem DescendingBut.swap (hf : DescendingBut f l r (i + 2)) (hl : l ≤ i + 1) (hr : i + 2 ≤ r)
    (hlt : f (i + 1) < f (i + 2)) : DescendingBut (f.swap (i + 1) (i + 2)) l r (i + 1) := by
  have hother : ∀ k, k ≠ i + 1 → k ≠ i + 2 → f.swap (i + 1) (i + 2) k = f k :=
    fun k => f.swap_of_ne
  intro p q hp hpq hq hqi
  by_cases hq2 : q = i + 2
  · subst hq2
    rw [Cells.swap_right]
    by_cases hp1 : p = i + 1
    · rw [hp1, Cells.swap_left]
      exact hlt.le
    · rw [hother p hp1 (by omega)]
      exact hf p (i + 1) hp (by omega) (by omega) (by omega)
  · rw [hother q hqi hq2]
    by_cases hp1 : p = i + 1
    · rw [hp1, Cells.swap_left]
      exact hf (i + 2) q (by omega) (by omega) hq hq2
    by_cases hp2 : p = i + 2
    · rw [hp2, Cells.swap_right]
      exact hf (i + 1) q hl (by omega) hq hq2
    · rw [hother p hp1 hp2]
      exact hf p q hp hpq hq hq2

/-- Filling the cell left free by the loop gives the cells in order. -/
theorem insertInner_spec (hl : 0 < l) (hi : l ≤ i + 1) (hir : i < r)
    (hf : DescendingBut (f.write (i + 1) a) l r (i + 1))
    (hleft : ∀ p, 0 < p → p < l → a ≤ f p) :
    Cells.Moved l r (f.write (i + 1) a)
        ((insertInner a f i).1.write ((insertInner a f i).2 + 1) a) ∧
      Descending ((insertInner a f i).1.write ((insertInner a f i).2 + 1) a) l r := by
  induction i generalizing f with
  | zero => exact ⟨.refl _ _ _, fun p q hp hpq hq => hf p q hp hpq hq (by omega)⟩
  | succ i ih =>
    have hother : ∀ k, k ≠ i + 2 → f.write (i + 2) a k = f k := fun k => f.write_of_ne a
    by_cases hge : f (i + 1) ≥ a
    · rw [insertInner, if_pos hge]
      refine ⟨.refl _ _ _, fun p q hp hpq hq => ?_⟩
      by_cases hqi : q = i + 2
      · -- the cells before are not less than the one the loop stopped at
        subst hqi
        rw [Cells.write_self]
        refine hge.trans ?_
        rw [← hother (i + 1) (by omega)]
        rcases (Nat.lt_succ_iff.1 hpq).lt_or_eq with hlt | rfl
        · exact hf p (i + 1) hp hlt (by omega) (by omega)
        · exact le_rfl
      · exact hf p q hp hpq hq hqi
    · -- the cell is in the segment, as those before are not less
      have hli : l ≤ i + 1 := by
        by_contra hout
        exact hge (hleft (i + 1) (Nat.succ_pos i) (by omega))
      have heq : (f.write (i + 2) (f (i + 1))).write (i + 1) a =
          (f.write (i + 2) a).swap (i + 1) (i + 2) := by
        funext k
        by_cases hk : k = i + 1
        · rw [hk, Cells.write_self, Cells.swap_left, Cells.write_self]
        by_cases hk2 : k = i + 2
        · rw [hk2, Cells.swap_right, Cells.write_of_ne _ _ (by omega), Cells.write_self,
            hother (i + 1) (by omega)]
        · rw [Cells.swap_of_ne _ hk hk2, Cells.write_of_ne _ _ hk, Cells.write_of_ne _ _ hk2,
            hother k hk2]
      have hlt : f.write (i + 2) a (i + 1) < f.write (i + 2) a (i + 2) := by
        rw [Cells.write_self, hother (i + 1) (by omega)]
        omega
      obtain ⟨hmoved, hdesc⟩ := ih (f := f.write (i + 2) (f (i + 1))) hli (by omega)
        (heq ▸ hf.swap hli hir hlt)
        (fun p hp hpl => by rw [Cells.write_of_ne _ _ (by omega)]; exact hleft p hp hpl)
      rw [insertInner, if_neg hge]
      exact ⟨(heq ▸ Cells.moved_swap _ ⟨hli, by omega⟩ ⟨by omega, hir⟩).trans hmoved, hdesc⟩

/-- Inserting an ID into those before, in order, if no ID before the segment is less. -/
theorem insertCell_spec (hl : 0 < l) (hj : l < j) (hf : Descending f l (j - 1))
    (hleft : ∀ p, 0 < p → p < l → f j ≤ f p) :
    Cells.Moved l j f (insertCell f j) ∧ Descending (insertCell f j) l j := by
  have hwrite : f.write (j - 1 + 1) (f j) = f := by
    rw [Nat.sub_add_cancel (by omega)]
    exact f.write_same j
  have hspec := insertInner_spec (f := f) (i := j - 1) (a := f j) hl (by omega)
    (show j - 1 < j by omega)
    (by rw [hwrite]; exact fun p q hp hpq hq hqj => hf p q hp hpq (by omega)) hleft
  rw [hwrite] at hspec
  exact hspec

/-- The insertion sort of a segment, if no ID before is less. -/
theorem insertCells_spec (hl : 0 < l) (hj : l < j) (hr : 0 < n → j + n ≤ r + 1)
    (hf : Descending f l (j - 1)) (hleft : ∀ p q, 0 < p → p < l → l ≤ q → q ≤ r → f q ≤ f p) :
    Cells.Moved l r f (insertCells f j n) ∧ Descending (insertCells f j n) l (j + n - 1) := by
  induction n generalizing f j with
  | zero => exact ⟨.refl _ _ _, hf⟩
  | succ n ih =>
    have hr := hr (Nat.succ_pos n)
    obtain ⟨hmoved, hdesc⟩ :=
      insertCell_spec hl hj hf fun p hp hpl => hleft p j hp hpl hj.le (by omega)
    have hmoved' : Cells.Moved l r f (insertCell f j) := hmoved.mono le_rfl (by omega)
    obtain ⟨hmoved'', hdesc'⟩ := ih (f := insertCell f j) (j := j + 1) (by omega) (by omega) hdesc
      fun p q hp hpl hq hqr => by
        rw [hmoved'.eq_outside (.inl hpl)]
        exact hmoved'.forall (P := (· ≤ f p)) (fun k hk hkr => hleft p k hp hpl hk hkr) q hq hqr
    refine ⟨hmoved'.trans hmoved'', ?_⟩
    rwa [show j + (n + 1) - 1 = j + 1 + n - 1 by omega]

/-! ## Partitioning -/

/-- The three cells come out in order. -/
theorem medianOfThree_spec (hlr : l + 2 < r) :
    Cells.Moved l r f (medianOfThree f l r) ∧
      medianOfThree f l r r ≤ medianOfThree f l r (l + 1) ∧
      medianOfThree f l r (l + 1) ≤ medianOfThree f l r l := by
  have hswap : ∀ (g : Cells ℕ) i j, l ≤ i ∧ i ≤ r → l ≤ j ∧ j ≤ r →
      Cells.Moved l r g (g.swap i j) := fun g i j => Cells.moved_swap g
  have hk := hswap f ((l + r) / 2) (l + 1) (by omega) (by omega)
  generalize hf₁ : f.swap ((l + r) / 2) (l + 1) = f₁ at hk
  have h₁ : Cells.Moved l r f₁ (if f₁ l < f₁ r then f₁.swap l r else f₁) ∧
      (if f₁ l < f₁ r then f₁.swap l r else f₁) r ≤
        (if f₁ l < f₁ r then f₁.swap l r else f₁) l := by
    split
    · next hlt => exact ⟨hswap _ _ _ (by omega) (by omega), by simpa using hlt.le⟩
    · next hge => exact ⟨.refl _ _ _, by omega⟩
  generalize hf₂ : (if f₁ l < f₁ r then f₁.swap l r else f₁) = f₂ at h₁
  have h₂ : Cells.Moved l r f₂ (if f₂ (l + 1) < f₂ r then f₂.swap (l + 1) r else f₂) ∧
      (if f₂ (l + 1) < f₂ r then f₂.swap (l + 1) r else f₂) r ≤
        (if f₂ (l + 1) < f₂ r then f₂.swap (l + 1) r else f₂) (l + 1) ∧
      (if f₂ (l + 1) < f₂ r then f₂.swap (l + 1) r else f₂) r ≤
        (if f₂ (l + 1) < f₂ r then f₂.swap (l + 1) r else f₂) l := by
    split
    · next hlt =>
      rw [Cells.swap_left, Cells.swap_right, Cells.swap_of_ne _ (by omega) (by omega)]
      exact ⟨hswap _ _ _ (by omega) (by omega), hlt.le, hlt.le.trans h₁.2⟩
    · next hge => exact ⟨.refl _ _ _, by omega, h₁.2⟩
  generalize hf₃ : (if f₂ (l + 1) < f₂ r then f₂.swap (l + 1) r else f₂) = f₃ at h₂
  have h₃ : medianOfThree f l r = if f₃ l < f₃ (l + 1) then f₃.swap l (l + 1) else f₃ := by
    rw [← hf₃, ← hf₂, ← hf₁]
    rfl
  have hmoved := hk.trans (h₁.1.trans h₂.1)
  rw [h₃]
  split
  · next hlt =>
    rw [Cells.swap_left, Cells.swap_right, Cells.swap_of_ne _ (by omega) (by omega)]
    exact ⟨hmoved.trans (hswap _ _ _ (by omega) (by omega)), h₂.2.2, hlt.le⟩
  · next hge => exact ⟨hmoved, h₂.2.1, by omega⟩

/-- A scan stops at a cell that is not greater, if there is one. -/
theorem scanUp_spec (fuel : ℕ) (hit : i < t) (ht : f t ≤ a) (hfuel : t < fuel) :
    ∃ i', scanUp f a fuel i = some i' ∧ i < i' ∧ i' ≤ t ∧ f i' ≤ a ∧
      ∀ p, i < p → p < i' → a < f p := by
  refine loop_spec (I := fun k => i ≤ k ∧ k < t ∧ ∀ p, i < p → p ≤ k → a < f p) (μ := (t - ·))
    (fun k ⟨hik, hkt, hgt⟩ => ?_) ⟨le_rfl, hit, fun p hp hpi => by omega⟩ (by omega)
  by_cases hk : f (k + 1) > a
  · have hne : k + 1 ≠ t := fun heq => by rw [heq] at hk; omega
    rw [if_pos hk]
    refine ⟨⟨by omega, by omega, fun p hp hpk => ?_⟩, Nat.sub_lt_sub_left hkt (Nat.lt_succ_self k)⟩
    rcases hpk.lt_or_eq with hlt | rfl
    · exact hgt p hp (by omega)
    · exact hk
  · rw [if_neg hk]
    exact ⟨by omega, hkt, by omega, fun p hp hpk => hgt p hp (by omega)⟩

/-- A scan stops at a cell that is not less, if there is one. -/
theorem scanDown_spec (fuel : ℕ) (htj : t < j) (ht : a ≤ f t) (hfuel : j < fuel) :
    ∃ j', scanDown f a fuel j = some j' ∧ t ≤ j' ∧ j' < j ∧ a ≤ f j' ∧
      ∀ p, j' < p → p < j → f p < a := by
  refine loop_spec (I := fun k => t < k ∧ k ≤ j ∧ ∀ p, k ≤ p → p < j → f p < a) (μ := (· - t))
    (fun k ⟨htk, hkj, hlt⟩ => ?_) ⟨htj, le_rfl, fun p hp hpj => by omega⟩ (by omega)
  by_cases hk : f (k - 1) < a
  · have hne : k - 1 ≠ t := fun heq => by rw [heq] at hk; omega
    have hlt' : k - 1 - t < k - t := by omega
    rw [if_pos hk]
    refine ⟨⟨by omega, by omega, fun p hp hpj => ?_⟩, hlt'⟩
    rcases hp.lt_or_eq with hkp | rfl
    · exact hlt p (by omega) hpj
    · exact hk
  · rw [if_neg hk]
    exact ⟨by omega, by omega, by omega, fun p hp hpj => hlt p (by omega) hpj⟩

/-- The cells scanned so far are on the right side of the median, which is in the second
    cell of the segment. -/
structure Partitioning (f₀ : Cells ℕ) (a l r : ℕ) (f : Cells ℕ) (i j : ℕ) : Prop where
  bounds : l + 1 ≤ i ∧ i ≤ j ∧ i < r ∧ l + 2 ≤ j ∧ j ≤ r
  moved : Cells.Moved l r f₀ f
  mid : f (l + 1) = a
  ge : ∀ p, l ≤ p → p ≤ i → a ≤ f p
  le : ∀ p, j ≤ p → p ≤ r → f p ≤ a

/-- A segment has been partitioned, but for the median. -/
structure Partitioned (f₀ : Cells ℕ) (a l r : ℕ) (f : Cells ℕ) (i j : ℕ) : Prop where
  moved : Cells.Moved l r f₀ f
  mid : f (l + 1) = a
  lt : l < j ∧ j < i ∧ i ≤ r
  ge_j : a ≤ f j
  ge : ∀ p, l ≤ p → p < i → a ≤ f p
  le : ∀ p, j < p → p ≤ r → f p ≤ a

variable {f₀ : Cells ℕ}

/-- One pass of the partitioning. -/
theorem partitionBody_spec (hf : Partitioning f₀ a l r f i j) (hfuel : r < fuel) :
    Goes (fun s => Partitioning f₀ a l r s.1 s.2.1 s.2.2) (fun s => s.2.2 + 1 - s.2.1)
      (fun s => Partitioned f₀ a l r s.1 s.2.1 s.2.2) (f, i, j)
      (partitionBody a fuel (f, i, j)) := by
  have hbounds := hf.bounds
  -- the cells that stop the scans, whether they have met or not
  have hup : f (max j (i + 1)) ≤ a := hf.le _ (by omega) (by omega)
  have hdown : a ≤ f (max (l + 1) (min i (j - 1))) := by
    by_cases hli : l + 1 ≤ min i (j - 1)
    · rw [Nat.max_eq_right hli]
      exact hf.ge _ (by omega) (by omega)
    · rw [Nat.max_eq_left (by omega), hf.mid]
  obtain ⟨i', hi', hii', hi't, hfi', hbetween⟩ :=
    scanUp_spec fuel (show i < max j (i + 1) by omega) hup (by omega)
  obtain ⟨j', hj', hj't, hjj', hfj', hbetween'⟩ :=
    scanDown_spec fuel (show max (l + 1) (min i (j - 1)) < j by omega) hdown (by omega)
  have hge : ∀ p, l ≤ p → p < i' → a ≤ f p := fun p hp hpi => by
    rcases Nat.lt_or_ge i p with hip | hip
    · exact (hbetween p hip hpi).le
    · exact hf.ge p hp hip
  have hle : ∀ p, j' < p → p ≤ r → f p ≤ a := fun p hp hpr => by
    rcases Nat.lt_or_ge p j with hpj | hpj
    · exact (hbetween' p hp hpj).le
    · exact hf.le p hpj hpr
  have hbody : partitionBody a fuel (f, i, j) =
      some (if j' < i' then .inr (f, i', j') else .inl (f.swap i' j', i', j')) := by
    rw [partitionBody, hi', Option.bind_eq_bind, Option.bind_some, hj']
    rfl
  rw [hbody]
  by_cases hlt : j' < i'
  · have hdone : Partitioned f₀ a l r f i' j' :=
      ⟨hf.moved, hf.mid, ⟨by omega, hlt, by omega⟩, hfj', hge, hle⟩
    rw [if_pos hlt]
    exact hdone
  · have hother : ∀ p, p ≠ i' → p ≠ j' → f.swap i' j' p = f p := fun p => f.swap_of_ne
    have hnext : Partitioning f₀ a l r (f.swap i' j') i' j' := by
      refine ⟨by omega, hf.moved.trans (Cells.moved_swap _ (by omega) (by omega)), ?_,
        fun p hp hpi => ?_, fun p hp hpr => ?_⟩
      · rw [hother _ (by omega) (by omega), hf.mid]
      · rcases hpi.lt_or_eq with hpi | rfl
        · rw [hother p (by omega) (by omega)]
          exact hge p hp hpi
        · rwa [Cells.swap_left]
      · rcases hp.lt_or_eq with hp | rfl
        · rw [hother p (by omega) (by omega)]
          exact hle p hp hpr
        · rwa [Cells.swap_right]
    have hmeasure : j' + 1 - i' < j + 1 - i := by omega
    rw [if_neg hlt]
    exact ⟨hnext, hmeasure⟩

/-- What partitioning makes of a segment. -/
theorem partition_spec (f : ℕ → ℕ) (fuel : ℕ) (hlr : l + 2 < r) (hfuel : r < fuel) :
    ∃ g i j, loop (partitionBody (medianOfThree f l r (l + 1)) fuel) fuel
        (medianOfThree f l r, l + 1, r) = some (g, i, j) ∧
      Partitioned f (medianOfThree f l r (l + 1)) l r g i j := by
  obtain ⟨hmoved, hle, hge⟩ := medianOfThree_spec (f := f) hlr
  have hhead : Partitioning f (medianOfThree f l r (l + 1)) l r (medianOfThree f l r) (l + 1)
      r := by
    refine ⟨by omega, hmoved, rfl, fun p hp hpi => ?_, fun p hp hpr => ?_⟩
    · rcases hpi.lt_or_eq with hpi | rfl
      · rwa [show p = l by omega]
      · exact le_rfl
    · rwa [show p = r by omega]
  have hmeasure : r + 1 - (l + 1) < fuel := by omega
  obtain ⟨⟨g, i, j⟩, hloop, hpart⟩ := loop_spec (s := (medianOfThree f l r, l + 1, r))
    (fun s hs => partitionBody_spec hs hfuel) hhead hmeasure
  exact ⟨g, i, j, hloop, hpart⟩

/-- The median goes between the two parts. -/
theorem Partitioned.place (hf : Partitioned f₀ a l r f i j) :
    Cells.Moved l r f₀ ((f.write (l + 1) (f j)).write j a) ∧
      (∀ p, l ≤ p → p < i → a ≤ (f.write (l + 1) (f j)).write j a p) ∧
      (∀ p, j ≤ p → p ≤ r → (f.write (l + 1) (f j)).write j a p ≤ a) := by
  have hlt := hf.lt
  have heq : (f.write (l + 1) (f j)).write j a = f.swap (l + 1) j := by rw [Cells.swap, hf.mid]
  rw [heq]
  refine ⟨hf.moved.trans (Cells.moved_swap _ (by omega) (by omega)), fun p hp hpi => ?_,
    fun p hp hpr => ?_⟩
  · by_cases hpl : p = l + 1
    · rw [hpl, Cells.swap_left]
      exact hf.ge_j
    by_cases hpj : p = j
    · rw [hpj, Cells.swap_right, hf.mid]
    · rw [Cells.swap_of_ne _ hpl hpj]
      exact hf.ge p hp hpi
  · by_cases hpj : p = j
    · rw [hpj, Cells.swap_right, hf.mid]
    · rw [Cells.swap_of_ne _ (by omega) hpj]
      exact hf.le p (by omega) hpr

/-! ## The stack -/

/-- The number of cells of a segment. -/
def size (s : ℕ × ℕ) : ℕ := s.2 + 1 - s.1

/-- A segment ends before the other starts. -/
def Apart (s t : ℕ × ℕ) : Prop := s.2 < t.1 ∨ t.2 < s.1

/-- The cells `1..n` are in descending order, but maybe within a segment. -/
def Ordered (n : ℕ) (f : Cells ℕ) (segs : List (ℕ × ℕ)) : Prop :=
  ∀ p q, 0 < p → p < q → q ≤ n → f q ≤ f p ∨ ∃ s ∈ segs, s.1 ≤ p ∧ q ≤ s.2

/-- A segment with `k` segments below it on the stack has at most `n / 2 ^ k` cells. -/
def Shrinks (n : ℕ) : List (ℕ × ℕ) → Prop
  | [] => True
  | s :: segs => size s * 2 ^ segs.length ≤ n ∧ Shrinks n segs

/-- What the sort keeps, of the segment it is at and those on the stack. -/
structure Sorting (n : ℕ) (f₀ f : Cells ℕ) (segs : List (ℕ × ℕ)) : Prop where
  moved : Cells.Moved 1 n f₀ f
  bounds : ∀ s ∈ segs, 0 < s.1 ∧ s.1 ≤ s.2 + 1 ∧ s.2 ≤ n
  apart : segs.Pairwise Apart
  ordered : Ordered n f segs
  shrinks : Shrinks n segs

/-- What the sort has to do yet. -/
def work (segs : List (ℕ × ℕ)) : ℕ := (segs.map fun s => 2 * size s + 1).sum

variable {s : ℕ × ℕ} {segs segs' : List (ℕ × ℕ)}

/-- Moving IDs within a segment. -/
theorem Ordered.moved (hf : Ordered n f (s :: segs)) (hapart : (s :: segs).Pairwise Apart)
    (hs : 0 < s.1 ∧ s.2 ≤ n) (hmoved : Cells.Moved s.1 s.2 f g) : Ordered n g (s :: segs) := by
  intro p q hp hpq hq
  by_cases hin : ∃ t ∈ s :: segs, t.1 ≤ p ∧ q ≤ t.2
  · exact .inr hin
  · -- the IDs come from cells that are not in one segment either
    obtain ⟨p', hgp, hp'⟩ := hmoved.source p
    obtain ⟨q', hgq, hq'⟩ := hmoved.source q
    have hpqs : ¬(s.1 ≤ p ∧ q ≤ s.2) := fun h => hin ⟨s, List.mem_cons_self, h⟩
    rw [hgp, hgq]
    refine .inl ((hf p' q' (by omega) (by omega) (by omega)).resolve_right ?_)
    rintro ⟨t, ht, htp, htq⟩
    rcases List.mem_cons.1 ht with rfl | htmem
    · omega
    · refine hin ⟨t, ht, ?_⟩
      have := (List.pairwise_cons.1 hapart).1 t htmem
      rw [Apart] at this
      omega

/-- No ID before the segment the sort is at is less. -/
theorem Sorting.left (hs : Sorting n f₀ f ((l, r) :: segs)) :
    ∀ p q, 0 < p → p < l → l ≤ q → q ≤ r → f q ≤ f p := by
  intro p q hp hpl hlq hqr
  have hbounds := hs.bounds (l, r) List.mem_cons_self
  refine (hs.ordered p q hp (by omega) (by simp only at hbounds; omega)).resolve_right ?_
  rintro ⟨t, ht, htp, htq⟩
  rcases List.mem_cons.1 ht with rfl | htmem
  · simp only at htp
    omega
  · have hapart : r < t.1 ∨ t.2 < l := (List.pairwise_cons.1 hs.apart).1 t htmem
    omega

/-- The segment the sort is at has been sorted. -/
theorem Sorting.pop (hs : Sorting n f₀ f ((l, r) :: segs)) (hmoved : Cells.Moved l r f g)
    (hg : Descending g l r) : Sorting n f₀ g segs where
  moved := by
    have hbounds := hs.bounds (l, r) List.mem_cons_self
    exact hs.moved.trans (hmoved.mono hbounds.1 hbounds.2.2)
  bounds s hmem := hs.bounds s (List.mem_cons_of_mem _ hmem)
  apart := (List.pairwise_cons.1 hs.apart).2
  ordered p q hp hpq hq := by
    have hbounds := hs.bounds (l, r) List.mem_cons_self
    have hord := hs.ordered.moved hs.apart ⟨hbounds.1, hbounds.2.2⟩ hmoved p q hp hpq hq
    rw [List.exists_mem_cons_iff] at hord
    rcases hord with hle | hin | hout
    · exact .inl hle
    · exact .inl (hg p q hin.1 hpq hin.2)
    · exact .inr hout
  shrinks := hs.shrinks.2

/-- The segment the sort is at has been partitioned. The larger part goes on the stack. -/
theorem Sorting.split (hs : Sorting n f₀ f ((l, r) :: segs)) (hmoved : Cells.Moved l r f g)
    (hlt : l < j ∧ j < i ∧ i ≤ r) (hge : ∀ p, l ≤ p → p < i → a ≤ g p)
    (hle : ∀ p, j ≤ p → p ≤ r → g p ≤ a) {s t : ℕ × ℕ}
    (hst : s = (l, j - 1) ∧ t = (i, r) ∨ s = (i, r) ∧ t = (l, j - 1)) (hsize : size s ≤ size t) :
    Sorting n f₀ g (s :: t :: segs) := by
  have hbounds := hs.bounds (l, r) List.mem_cons_self
  simp only at hbounds
  -- both are within the segment, and apart
  have hs' : l ≤ s.1 ∧ s.1 ≤ s.2 ∧ s.2 ≤ r := by rcases hst with ⟨rfl, -⟩ | ⟨rfl, -⟩ <;> omega
  have ht' : l ≤ t.1 ∧ t.1 ≤ t.2 ∧ t.2 ≤ r := by rcases hst with ⟨-, rfl⟩ | ⟨-, rfl⟩ <;> omega
  have hst' : s.2 < t.1 ∨ t.2 < s.1 := by
    rcases hst with ⟨rfl, rfl⟩ | ⟨rfl, rfl⟩ <;> simp only <;> omega
  obtain ⟨hsegs, hapart⟩ := List.pairwise_cons.1 hs.apart
  have hwithin : ∀ u : ℕ × ℕ, l ≤ u.1 ∧ u.1 ≤ u.2 ∧ u.2 ≤ r → ∀ v ∈ segs, Apart u v := by
    intro u hu v hv
    have := hsegs v hv
    simp only [Apart] at this ⊢
    omega
  refine ⟨hs.moved.trans (hmoved.mono hbounds.1 hbounds.2.2), ?_, ?_, ?_, ?_⟩
  · simp only [List.forall_mem_cons]
    exact ⟨by omega, by omega, fun u hu => hs.bounds u (List.mem_cons_of_mem _ hu)⟩
  · simp only [List.pairwise_cons, List.forall_mem_cons]
    exact ⟨⟨hst', hwithin s hs'⟩, hwithin t ht', hapart⟩
  · intro p q hp hpq hq
    have hord := hs.ordered.moved hs.apart ⟨hbounds.1, hbounds.2.2⟩ hmoved p q hp hpq hq
    simp only [List.exists_mem_cons_iff] at hord ⊢
    rcases hord with hdesc | hin | hout
    · exact .inl hdesc
    · -- either both are in one part, or they are on different sides of the median
      by_cases hparts : q < j ∨ i ≤ p
      · refine .inr ?_
        rcases hst with ⟨rfl, rfl⟩ | ⟨rfl, rfl⟩ <;> simp only <;> omega
      · exact .inl ((hle q (by omega) hin.2).trans (hge p hin.1 (by omega)))
    · exact .inr (.inr (.inr hout))
  · obtain ⟨hsize₀, hshrinks⟩ := hs.shrinks
    have htwo : size s * 2 ≤ size (l, r) ∧ size t ≤ size (l, r) := by
      simp only [size] at hsize ⊢
      omega
    refine ⟨?_, ?_, hshrinks⟩
    · rw [List.length_cons, Nat.pow_succ', ← Nat.mul_assoc]
      exact (Nat.mul_le_mul_right _ htwo.1).trans hsize₀
    · exact (Nat.mul_le_mul_right _ htwo.2).trans hsize₀

/-- The stack does not overflow. -/
theorem Sorting.length_lt (hs : Sorting n f₀ f ((l, r) :: segs)) (hlr : small ≤ r - l)
    (hn : n < 2 ^ 31) : segs.length < istackSize := by
  by_contra hge
  have hpow : 2 ^ istackSize ≤ 2 ^ segs.length :=
    Nat.pow_le_pow_right Nat.two_pos (Nat.le_of_not_lt hge)
  have hsize : 1 ≤ size (l, r) := by simp only [size]; rw [small] at hlr; omega
  have := (Nat.mul_le_mul hsize hpow).trans hs.shrinks.1
  rw [istackSize] at this
  omega

/-! ## The main loop -/

/-- One pass of the main loop. -/
theorem sortBody_spec (hs : Sorting n f₀ f ((l, r) :: segs)) (hn : n ≤ 2 ^ 30) (hfuel : n < fuel) :
    Goes (fun s => Sorting n f₀ s.1 (s.2.1 :: s.2.2)) (fun s => work (s.2.1 :: s.2.2))
      (fun g => Sorting n f₀ g []) (f, (l, r), segs) (sortBody fuel (f, (l, r), segs)) := by
  have hbounds := hs.bounds (l, r) List.mem_cons_self
  simp only at hbounds
  rw [sortBody]
  by_cases hsmall : r - l < small
  · obtain ⟨hmoved, hdesc⟩ := insertCells_spec (f := f) (j := l + 1) (n := r - l) (r := r) hbounds.1
      (Nat.lt_succ_self l) (by omega) (fun p q hp hpq hq => by omega) hs.left
    have hpop : Sorting n f₀ (insertCells f (l + 1) (r - l)) segs :=
      hs.pop hmoved fun p q hp hpq hq => hdesc p q hp hpq (by omega)
    rw [if_pos hsmall]
    cases segs with
    | nil => exact hpop
    | cons t segs =>
      refine ⟨hpop, ?_⟩
      simp only [work, List.map_cons, List.sum_cons]
      omega
  · have hlr : l + 2 < r := by rw [small] at hsmall; omega
    obtain ⟨g, i, j, hloop, hpart⟩ := partition_spec f fuel hlr (by omega)
    obtain ⟨hmoved, hge, hle⟩ := hpart.place
    have hlt := hpart.lt
    have hlength := hs.length_lt (Nat.le_of_not_lt hsmall) (hn.trans_lt (by decide))
    rw [if_neg hsmall, if_neg (by omega)]
    simp only [hloop, Option.bind_eq_bind, Option.bind_some]
    rw [if_neg (Nat.not_le_of_lt hlength)]
    split
    · next hright =>
      refine ⟨hs.split hmoved hlt hge hle (.inl ⟨rfl, rfl⟩) ?_, ?_⟩
      · simp only [size]
        omega
      · simp only [work, size, List.map_cons, List.sum_cons]
        omega
    · next hright =>
      refine ⟨hs.split hmoved hlt hge hle (.inr ⟨rfl, rfl⟩) ?_, ?_⟩
      · simp only [size]
        omega
      · simp only [work, size, List.map_cons, List.sum_cons]
        omega

/-- The sort ends, and sorts the IDs in descending order, touching no other cell. -/
theorem mdbMidlSort_spec (m : Midl) (fuel : ℕ) (hm : m.count ≤ 2 ^ 30)
    (hfuel : 2 * m.count + 1 < fuel) :
    ∃ m', m.mdbMidlSort fuel = some m' ∧ m'.alloclen = m.alloclen ∧
      m'.ids.Perm m.ids ∧ m'.ids.Pairwise (· ≥ ·) ∧
      ∀ k, k = 0 ∨ m.count < k → m'.cells k = m.cells k := by
  have hinit : Sorting m.count m.cells m.cells [(1, m.count)] := by
    refine ⟨.refl _ _ _, ?_, List.pairwise_singleton _ _, fun p q hp hpq hq => ?_, ?_, trivial⟩
    · simp
    · exact .inr ⟨_, List.mem_cons_self, hp, hq⟩
    · simp [size]
  have hwork : work [(1, m.count)] < fuel := by simpa [work, size] using hfuel
  have hbody : ∀ s : Cells ℕ × (ℕ × ℕ) × List (ℕ × ℕ),
      Sorting m.count m.cells s.1 (s.2.1 :: s.2.2) →
      Goes (fun s => Sorting m.count m.cells s.1 (s.2.1 :: s.2.2)) (fun s => work (s.2.1 :: s.2.2))
        (fun g => Sorting m.count m.cells g []) s (sortBody fuel s) :=
    fun s hs => sortBody_spec hs hm (by omega)
  obtain ⟨g, hloop, hg⟩ := loop_spec (s := (m.cells, (1, m.count), [])) hbody hinit hwork
  have hcount : g 0 = m.count := hg.moved.eq_outside (.inl Nat.one_pos)
  have hcount' : Midl.count ⟨m.alloclen, g⟩ = m.count := hcount
  refine ⟨⟨m.alloclen, g⟩, ?_, rfl, ?_, ?_, fun k hk => ?_⟩
  · rw [mdbMidlSort, hloop]
    rfl
  · rw [ids, ids, hcount']
    exact Cells.Moved.perm (by rw [Nat.add_sub_cancel_left]; exact hg.moved)
  · rw [ids, hcount']
    refine Cells.pairwise_slice_iff.2 fun j k hj hjk hk => ?_
    exact (hg.ordered j k hj hjk (by omega)).resolve_right (by simp)
  · exact hg.moved.eq_outside (by omega)

/-- The sort always ends, without ever needing more of the stack than there is. It keeps the IDs,
    touches no cell but theirs, and leaves them in such an order that a search finds just the IDs
    that are there. -/
theorem mdbMidlSort_mdbMidlSearch (m : Midl) (hm : m.count ≤ 2 ^ 30) (hnodup : m.ids.Nodup)
    (hfuel : 2 * m.count + 1 < fuel) :
    ∃ m', m.mdbMidlSort fuel = some m' ∧ m'.ids.Perm m.ids ∧ m'.ids.Pairwise (· > ·) ∧
      (∀ k, k = 0 ∨ m.count < k → m'.cells k = m.cells k) ∧
      ∀ id, id ∈ m.ids ↔ mdbMidlSearch m'.cells id ≤ m'.count ∧
        m'.cells (mdbMidlSearch m'.cells id) = id := by
  obtain ⟨m', hsort, -, hperm, hsorted, hframe⟩ := mdbMidlSort_spec m fuel hm hfuel
  have hcount : m'.count = m.count := hframe 0 (.inl rfl)
  have hdesc : m'.ids.Pairwise (· > ·) := by
    have hne : m'.ids.Pairwise (· ≠ ·) := hperm.nodup_iff.2 hnodup
    exact (hsorted.and hne).imp fun h => lt_of_le_of_ne h.1 h.2.symm
  refine ⟨m', hsort, hperm, hdesc, hframe, fun id => ?_⟩
  have hseeks := seeks_mdbMidlSearch hdesc (by omega) id
  rw [← hperm.mem_iff]
  constructor
  · intro hmem
    obtain ⟨k, hk, hkn, heq⟩ := Cells.mem_slice.1 hmem
    rw [hseeks.of_eq ⟨hk, by omega⟩ (Nat.compare_eq_eq.2 heq)]
    exact ⟨by omega, heq⟩
  · rintro ⟨hle, heq⟩
    exact Cells.mem_slice.2 ⟨_, hseeks.pos, by omega, heq⟩

/-- A list long enough to be partitioned. -/
theorem mdbMidlSort_mdbMidlSearch_ten :
    let m : Midl := ⟨10, fun k => [10, 5, 9, 7, 2, 8, 1, 10, 3, 6, 4].getD k 0⟩
    ∃ m', m.mdbMidlSort 22 = some m' ∧ m'.ids.Perm m.ids ∧ m'.ids.Pairwise (· > ·) ∧
      (∀ k, k = 0 ∨ m.count < k → m'.cells k = m.cells k) ∧
      ∀ id, id ∈ m.ids ↔ mdbMidlSearch m'.cells id ≤ m'.count ∧
        m'.cells (mdbMidlSearch m'.cells id) = id :=
  mdbMidlSort_mdbMidlSearch ⟨10, fun k => [10, 5, 9, 7, 2, 8, 1, 10, 3, 6, 4].getD k 0⟩ (by decide)
    (by decide) (by decide)

end Midl

end KotlinLmdb
