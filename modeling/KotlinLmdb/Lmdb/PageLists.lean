import KotlinLmdb.Lmdb.Midl.Id2l
import Mathlib.Data.Finset.Card
import Mathlib.Data.Finset.Lattice.Basic

/-!
# Merging the page lists of a nested transaction

A transaction has the pages it has written in memory in its dirty list, in ascending order of
their numbers, and the numbers of those it has written to the file ahead of time, shifted left,
in its spill list, in descending order; the lowest bit marks an entry as deleted.

When a nested transaction commits, its lists are merged into those of its parent, in place:

* its dirty pages are taken out of the spill list of the parent (`cleanSpill`);
* its spilled pages are taken out of the dirty list of the parent (`dropSpilled`);
* its dirty pages replace those of the parent (`mergeDirty`). How long the list becomes
  (`mergedLen`) is computed first, as the merge starts at its end.

The loops have cells 0 for their delimiters, and run out of cells if these do not stop them.
-/

namespace KotlinLmdb

variable {P : Type}

open Id2l (count entries setCount)

/-! ## The spill list -/

/-- `while (pn > pspill[x]) x--`. -/
def skipLess (pspill : Cells ℕ) (pn : ℕ) : ℕ → Option ℕ
  | 0 => if pn > pspill 0 then none else some 0
  | x + 1 => if pn > pspill (x + 1) then skipLess pspill pn x else some (x + 1)

/-- Marks the pages of `n` entries from `i` on as deleted: the list, and the cells `x` and `y`
    before the last one looked at, and before the last one marked. -/
def markSpilled (src : Id2l P) : ℕ → ℕ → Cells ℕ → ℕ → ℕ → Option (Cells ℕ × ℕ)
  | 0, _, pspill, _, y => some (pspill, y)
  | n + 1, i, pspill, x, y => do
    let pn := 2 * (src i).mid
    let x ← skipLess pspill pn x
    if pn = pspill x then markSpilled src n (i + 1) (pspill.write x 1) (x - 1) (x - 1)
    else markSpilled src n (i + 1) pspill x y

/-- Removes anything in a dirty list from a spill list. -/
def cleanSpill (pspill : Midl) (src : Id2l P) : Option Midl := do
  let psLen := pspill.count
  let (ids, y) ← markSpilled src (count src) 1 (pspill.cells.write 0 idMax) psLen psLen
  -- squash the deleted ones
  let (ids, y) := ids.squeeze (· % 2 = 0) id y y (psLen - y)
  return { pspill with cells := ids.write 0 y }

/-! ## The dirty list -/

/-- Moves the `n` entries after the cell `y` down by one. -/
def shiftDown (dst : Id2l P) (y : ℕ) : ℕ → Id2l P
  | 0 => dst
  | n + 1 => shiftDown (Cells.write dst y (dst (y + 1))) (y + 1) n

/-- Removes the pages of the `n` entries from `i` on of a spill list from a dirty list. -/
def dropSpilled (spill : Cells ℕ) : ℕ → ℕ → Id2l P → Id2l P
  | 0, _, dst => dst
  | n + 1, i, dst =>
    let pn := spill i
    if pn % 2 = 1 then dropSpilled spill n (i + 1) dst
    else
      let pn := pn / 2
      let y := Id2l.mdbMid2lSearch dst pn
      if y ≤ count dst ∧ (dst y).mid = pn then
        dropSpilled spill n (i + 1) (setCount (shiftDown dst y (count dst - y)) (count dst - 1))
      else dropSpilled spill n (i + 1) dst

/-! ## The merge -/

/-- `while (yp < dst[i].mid) i--`. -/
def skipGreater (dst : Id2l P) (yp : ℕ) : ℕ → Option ℕ
  | 0 => if yp < (dst 0).mid then none else some 0
  | i + 1 => if yp < (dst (i + 1)).mid then skipGreater dst yp i else some (i + 1)

/-- The loop of `mergedLen`, at the entries `y` and `i`. -/
def lenLoop (dst src : Id2l P) : ℕ → ℕ → ℕ → Option ℕ
  | 0, _, len => some len
  | y + 1, i, len =>
    if i = 0 then some len
    else do
      let yp := (src (y + 1)).mid
      let i ← skipGreater dst yp i
      if yp = (dst i).mid then lenLoop dst src y (i - 1) (len - 1) else lenLoop dst src y i len

/-- The length of the merge of `src` with the `x` entries of `dst`. -/
def mergedLen (dst src : Id2l P) (x : ℕ) : Option ℕ :=
  lenLoop dst src (Id2l.mdbMid2lSearch src ((dst x).mid + 1) - 1) x (x + count src)

/-- `while (yp < dst[x].mid) dst[i--] = dst[x--]`. -/
def moveGreater (yp : ℕ) (dst : Id2l P) (i : ℕ) : ℕ → Option (Id2l P × ℕ × ℕ)
  | 0 => if yp < (dst 0).mid then none else some (dst, i, 0)
  | x + 1 =>
    if yp < (dst (x + 1)).mid then moveGreater yp (Cells.write dst i (dst (x + 1))) (i - 1) x
    else some (dst, i, x + 1)

/-- The merge, with `y` entries left to be merged into the first `x`. -/
def mergeLoop (src : Id2l P) : ℕ → Id2l P → ℕ → ℕ → Option (Id2l P)
  | 0, dst, i, x => if i = x then some dst else none
  | y + 1, dst, i, x => do
    let yp := (src (y + 1)).mid
    let (dst, i, x) ← moveGreater yp dst i x
    let x := if yp = (dst x).mid then x - 1 else x
    mergeLoop src y (Cells.write dst i (src (y + 1))) (i - 1) x

/-- Merges a dirty list with the parent's, which gets the length `len` if there is one. Else it
    is computed. -/
def mergeDirty (dst src : Id2l P) (len : Option ℕ) : Option (Id2l P) := do
  let x := count dst
  let dst := setCount dst 0
  let len ← len <|> mergedLen dst src x
  let dst ← mergeLoop src (count src) dst len x
  return setCount dst len

/-! ## What is left of the spill list -/

section Spill

variable {f g : Cells ℕ} {n pn x y k : ℕ} {src : Id2l P}

/-- The scan stops at the first ID not less. -/
theorem skipLess_spec (h0 : pn ≤ f 0) (x : ℕ) :
    ∃ x', skipLess f pn x = some x' ∧ x' ≤ x ∧ pn ≤ f x' ∧ ∀ k, x' < k → k ≤ x → f k < pn := by
  induction x with
  | zero => exact ⟨0, if_neg (by omega), le_rfl, h0, fun k hk hk' => by omega⟩
  | succ x ih =>
    rw [skipLess]
    by_cases hlt : pn > f (x + 1)
    · obtain ⟨x', hskip, hle, hge, hbetween⟩ := ih
      rw [if_pos hlt]
      refine ⟨x', hskip, by omega, hge, fun k hk hkx => ?_⟩
      rcases hkx.lt_or_eq with hkx | rfl
      · exact hbetween k hk (by omega)
      · exact hlt
    · exact ⟨x + 1, if_neg hlt, le_rfl, by omega, fun k hk hk' => by omega⟩

/-- The numbers of some pages, shifted. -/
def shifted (l : List (Id2 P)) : List ℕ := l.map (2 * ·.mid)

/-- A spill list is in descending order. Only entries marked as deleted may be there twice. -/
def SpillOrder (a b : ℕ) : Prop := b < a ∨ b = a ∧ a % 2 = 1

/-- What marking keeps, with the pages of `done` marked: their cells hold 1, and are after `y`.
    The cells after `x` are less than the pages to come. -/
structure Marking (f₀ : Cells ℕ) (n : ℕ) (done todo : List (Id2 P)) (f : Cells ℕ) (x y : ℕ) :
    Prop where
  le : x ≤ y ∧ y ≤ n
  zero : f 0 = idMax
  cells : ∀ k, 0 < k → k ≤ n → f k = if f₀ k ∈ shifted done then 1 else f₀ k
  after : ∀ k, 0 < k → k ≤ n → f₀ k ∈ shifted done → y < k
  less : ∀ k, x < k → k ≤ n → ∀ e ∈ todo, f₀ k < 2 * e.mid

theorem mem_shifted_append_singleton {l : List (Id2 P)} {e : Id2 P} {a : ℕ} :
    a ∈ shifted (l ++ [e]) ↔ a ∈ shifted l ∨ a = 2 * e.mid := by
  simp [shifted]

/-- Looking for one page, which is marked if it is there. -/
theorem Marking.step {f₀ : Cells ℕ} (hf₀ : (Cells.slice f₀ 1 n).Pairwise SpillOrder)
    {done todo : List (Id2 P)} {e : Id2 P} (hasc : ∀ e' ∈ todo, e.mid < e'.mid)
    (hmax : 2 * e.mid < idMax) (hf : Marking f₀ n done (e :: todo) f x y) :
    ∃ x', skipLess f (2 * e.mid) x = some x' ∧
      if 2 * e.mid = f x' then
        Marking f₀ n (done ++ [e]) todo (f.write x' 1) (x' - 1) (x' - 1)
      else Marking f₀ n (done ++ [e]) todo f x' y := by
  have hle := hf.le
  obtain ⟨x', hskip, hx', hge, hbetween⟩ := skipLess_spec (f := f) (hmax.le.trans hf.zero.ge) x
  -- the cells not passed yet are not marked, and those passed are less
  have hsame : ∀ k, 0 < k → k ≤ x → f k = f₀ k := fun k hk hkx => by
    rw [hf.cells k hk (by omega), if_neg]
    exact fun hmem => absurd (hf.after k hk (by omega) hmem) (by omega)
  have hless : ∀ k, x' < k → k ≤ n → f₀ k < 2 * e.mid := fun k hk hkn => by
    rcases Nat.lt_or_ge x k with hxk | hkx
    · exact hf.less k hxk hkn e List.mem_cons_self
    · rw [← hsame k (by omega) hkx]
      exact hbetween k hk hkx
  have hgreater : ∀ k, 0 < k → k < x' → 2 * e.mid < f₀ k := fun k hk hkx => by
    have hord : SpillOrder (f₀ k) (f₀ x') :=
      Cells.pairwise_slice_iff.1 hf₀ k x' hk hkx (by omega)
    rw [SpillOrder] at hord
    rw [hsame x' (by omega) hx'] at hge
    omega
  refine ⟨x', hskip, ?_⟩
  by_cases heq : 2 * e.mid = f x'
  · have hpos : 0 < x' := Nat.pos_of_ne_zero fun h0 => by rw [h0, hf.zero] at heq; omega
    have hat : f₀ x' = 2 * e.mid := (hsame x' hpos hx').symm.trans heq.symm
    rw [if_pos heq]
    refine ⟨by omega, ?_, fun k hk hkn => ?_, fun k hk hkn hmem => ?_, fun k hk hkn e' he' => ?_⟩
    · rw [Cells.write_of_ne _ _ (by omega), hf.zero]
    · by_cases hkx : k = x'
      · rw [hkx, Cells.write_self, if_pos (mem_shifted_append_singleton.2 (.inr hat))]
      · have hne : f₀ k ≠ 2 * e.mid := by
          rcases lt_or_gt_of_ne hkx with hlt | hgt
          · exact (hgreater k hk hlt).ne'
          · exact (hless k hgt hkn).ne
        rw [Cells.write_of_ne _ _ hkx, hf.cells k hk hkn]
        simp only [mem_shifted_append_singleton, hne, or_false]
    · rcases mem_shifted_append_singleton.1 hmem with hmem | hmem
      · have := hf.after k hk hkn hmem
        omega
      · by_contra hlt
        exact absurd (hgreater k hk (by omega)) (by omega)
    · have hlt := hasc e' he'
      rcases Nat.lt_or_ge x' k with hxk | hkx
      · have := hless k hxk hkn
        omega
      · rw [show k = x' by omega, hat]
        omega
  · have hnone : ∀ k, 0 < k → k ≤ n → f₀ k ≠ 2 * e.mid := fun k hk hkn => by
      rcases lt_trichotomy k x' with hlt | rfl | hgt
      · exact (hgreater k hk hlt).ne'
      · rw [← hsame k hk hx']
        exact Ne.symm heq
      · exact (hless k hgt hkn).ne
    rw [if_neg heq]
    refine ⟨by omega, hf.zero, fun k hk hkn => ?_, fun k hk hkn hmem => ?_,
      fun k hk hkn e' he' => ?_⟩
    · rw [hf.cells k hk hkn]
      simp only [mem_shifted_append_singleton, hnone k hk hkn, or_false]
    · exact hf.after k hk hkn
        ((mem_shifted_append_singleton.1 hmem).resolve_right (hnone k hk hkn))
    · have := hless k hk hkn
      have := hasc e' he'
      omega

theorem markSpilled_spec {f₀ : Cells ℕ} (hf₀ : (Cells.slice f₀ 1 n).Pairwise SpillOrder)
    {done todo : List (Id2 P)} {i : ℕ} (htodo : Cells.slice src i todo.length = todo)
    (hasc : todo.Pairwise (·.mid < ·.mid)) (hmax : ∀ e ∈ todo, 2 * e.mid < idMax)
    (hf : Marking f₀ n done todo f x y) :
    ∃ g x' y', markSpilled src todo.length i f x y = some (g, y') ∧
      Marking f₀ n (done ++ todo) [] g x' y' := by
  induction todo generalizing done f x y i with
  | nil => exact ⟨f, x, y, rfl, by rwa [List.append_nil]⟩
  | cons e todo ih =>
    rw [List.length_cons, Cells.slice_cons] at htodo
    obtain ⟨he, htail⟩ := List.cons.inj htodo
    obtain ⟨hlt, hasc⟩ := List.pairwise_cons.1 hasc
    obtain ⟨hle, hmax⟩ := List.forall_mem_cons.1 hmax
    obtain ⟨x', hskip, hstep⟩ := hf.step hf₀ hlt hle
    rw [List.length_cons, markSpilled, he, hskip, List.append_cons]
    by_cases heq : 2 * e.mid = f x'
    · rw [if_pos heq] at hstep
      obtain ⟨g, x'', y'', hmark, hg⟩ := ih htail hasc hmax hstep
      exact ⟨g, x'', y'', by simpa [heq] using hmark, hg⟩
    · rw [if_neg heq] at hstep
      obtain ⟨g, x'', y'', hmark, hg⟩ := ih htail hasc hmax hstep
      exact ⟨g, x'', y'', by simpa [heq] using hmark, hg⟩

/-- Squashing a marked list leaves the entries neither marked now nor before. -/
theorem filter_map_mark (done : List (Id2 P)) (l : List ℕ) :
    (l.map fun v => if v ∈ shifted done then 1 else v).filter (· % 2 = 0) =
      l.filter fun v => v % 2 = 0 ∧ v ∉ shifted done := by
  induction l with
  | nil => rfl
  | cons v l ih =>
    rw [List.map_cons, List.filter_cons, ih, List.filter_cons]
    by_cases hmem : v ∈ shifted done <;> simp [hmem]

/-- The pages of the dirty list are taken out of the spill list, and no others. -/
theorem cleanSpill_spec {m : Midl} (hm : m.ids.Pairwise SpillOrder) (hsrc : Id2l.Ascends src)
    (hmax : ∀ e ∈ entries src, 2 * e.mid < idMax) :
    ∃ m', cleanSpill m src = some m' ∧ m'.ids.Sublist m.ids ∧ m'.count ≤ m.count ∧
      m'.alloclen = m.alloclen ∧
      ∀ p, 2 * p ∈ m'.ids ↔ 2 * p ∈ m.ids ∧ ∀ e ∈ entries src, e.mid ≠ p := by
  have hinit : Marking m.cells m.count [] (entries src) (m.cells.write 0 idMax) m.count m.count :=
    ⟨⟨le_rfl, le_rfl⟩, Cells.write_self _ _ _,
      fun k hk _ => (Cells.write_of_ne _ _ (by omega)).trans (if_neg List.not_mem_nil).symm,
      fun k _ _ hmem => absurd hmem List.not_mem_nil, fun k hk hkn => by omega⟩
  have hlength : (entries src).length = count src := Cells.length_slice _ _ _
  obtain ⟨g, x, y, hmark, hg⟩ := markSpilled_spec (i := 1) hm
    (by rw [hlength]; rfl) hsrc.pairwise hmax hinit
  rw [hlength] at hmark
  rw [List.nil_append] at hg
  have hyn := hg.le.2
  have hsqueeze := Cells.squeeze_spec (· % 2 = 0) id g (le_refl y) (m.count - y)
  generalize hres : g.squeeze (· % 2 = 0) id y y (m.count - y) = res at hsqueeze
  obtain ⟨⟨hyz, hzn⟩, hframe, hslice⟩ := hsqueeze
  -- the entries up to `y` are not marked, and stay
  have hbefore : Cells.slice res.1 1 y = Cells.slice m.cells 1 y :=
    Cells.slice_congr fun k hk hky => by
      rw [hframe k (by omega), hg.cells k hk (by omega), if_neg]
      exact fun hmem => absurd (hg.after k hk (by omega) hmem) (by omega)
  have hafter : Cells.slice res.1 (y + 1) (res.2 - y) =
      (Cells.slice m.cells (y + 1) (m.count - y)).filter
        fun v => v % 2 = 0 ∧ v ∉ shifted (entries src) := by
    rw [hslice, List.map_id, ← filter_map_mark, Cells.slice, Cells.slice, List.map_map]
    congr 1
    refine List.map_congr_left fun k hk => ?_
    rw [List.mem_range'_1] at hk
    exact hg.cells k (by omega) (by omega)
  have hids : Midl.ids ⟨m.alloclen, res.1.write 0 res.2⟩ = Cells.slice m.cells 1 y ++
      (Cells.slice m.cells (y + 1) (m.count - y)).filter
        fun v => v % 2 = 0 ∧ v ∉ shifted (entries src) := by
    have hcount : Midl.count ⟨m.alloclen, res.1.write 0 res.2⟩ = res.2 := res.1.write_self 0 _
    have hwrite : Cells.slice (res.1.write 0 res.2) 1 res.2 = Cells.slice res.1 1 res.2 :=
      Cells.slice_congr fun k hk _ => res.1.write_of_ne _ (by omega)
    rw [Midl.ids, hcount, hwrite, show res.2 = y + (res.2 - y) by omega, Cells.slice_append,
      Nat.add_comm 1 y, hbefore, hafter]
  have hm' : m.ids = Cells.slice m.cells 1 y ++ Cells.slice m.cells (y + 1) (m.count - y) := by
    rw [Midl.ids, show m.count = y + (m.count - y) by omega, Cells.slice_append, Nat.add_comm 1 y,
      Nat.add_sub_cancel_left]
  have hsub : (Midl.ids ⟨m.alloclen, res.1.write 0 res.2⟩).Sublist m.ids := by
    rw [hids, hm']
    exact (List.Sublist.refl _).append List.filter_sublist
  refine ⟨⟨m.alloclen, res.1.write 0 res.2⟩, ?_, hsub, ?_, rfl, fun p => ?_⟩
  · rw [cleanSpill]
    simp only [hmark, Option.bind_eq_bind, Option.bind_some, hres]
    rfl
  · rw [← Midl.length_ids, ← Midl.length_ids]
    exact hsub.length_le
  · have hdirty : (∀ e ∈ entries src, e.mid ≠ p) ↔ 2 * p ∉ shifted (entries src) := by
      simp only [shifted, List.mem_map, not_exists, not_and]
      exact forall₂_congr fun e _ => by omega
    rw [hids, hm', hdirty, List.mem_append, List.mem_append, List.mem_filter, or_and_right]
    refine or_congr ⟨fun hmem => ⟨hmem, ?_⟩, And.left⟩ (and_congr_right fun _ => by simp)
    obtain ⟨k, hk, hky, heq⟩ := Cells.mem_slice.1 hmem
    exact fun hmem => absurd (hg.after k hk (by omega) (heq ▸ hmem)) (by omega)

end Spill

/-! ## What is left of the dirty list -/

section Dirty

variable {dst src : Id2l P} {i k n x y : ℕ}

theorem shiftDown_apply (f : Id2l P) (y n k : ℕ) :
    shiftDown f y n k = if y ≤ k ∧ k < y + n then f (k + 1) else f k := by
  induction n generalizing f y with
  | zero => exact (if_neg (by omega)).symm
  | succ n ih =>
    rw [shiftDown, ih]
    by_cases hk : k = y
    · rw [if_neg (by omega), if_pos (by omega), hk, Cells.write_self]
    by_cases hky : y + 1 ≤ k ∧ k < y + 1 + n
    · rw [if_pos hky, if_pos (by omega), Cells.write_of_ne _ _ (by omega)]
    · rw [if_neg hky, if_neg (by omega), Cells.write_of_ne _ _ hk]

/-- The search finds an entry of a list in ascending order by its number. -/
theorem mdbMid2lSearch_eq (hdst : Id2l.Ascends dst) (hk : 0 < k ∧ k ≤ count dst) :
    Id2l.mdbMid2lSearch dst (dst k).mid = k :=
  (Id2l.seeks_mdbMid2lSearch hdst (dst k).mid).of_eq hk (Nat.compare_eq_eq.2 rfl)

/-- Taking out an entry. -/
theorem entries_remove (hdst : Id2l.Ascends dst) (hy : 0 < y ∧ y ≤ count dst) :
    entries (setCount (shiftDown dst y (count dst - y)) (count dst - 1)) =
        (entries dst).filter (·.mid ≠ (dst y).mid) ∧
      count (setCount (shiftDown dst y (count dst - y)) (count dst - 1)) = count dst - 1 := by
  have hcount : count (setCount (shiftDown dst y (count dst - y)) (count dst - 1)) =
      count dst - 1 := Id2l.count_setCount _ _
  have hcells : ∀ k, 0 < k → setCount (shiftDown dst y (count dst - y)) (count dst - 1) k =
      if y ≤ k ∧ k < count dst then dst (k + 1) else dst k := fun k hk => by
    rw [Id2l.setCount_of_ne _ _ (by omega), shiftDown_apply,
      show y + (count dst - y) = count dst by omega]
  generalize setCount (shiftDown dst y (count dst - y)) (count dst - 1) = g at hcount hcells
  have hpair := Cells.pairwise_slice_iff.1 hdst.pairwise
  have hbefore : ∀ e ∈ Cells.slice dst 1 (y - 1), e.mid ≠ (dst y).mid := fun e he => by
    obtain ⟨k, hk, hky, rfl⟩ := Cells.mem_slice.1 he
    exact (hpair k y hk (by omega) (by omega)).ne
  have hafter : ∀ e ∈ Cells.slice dst (y + 1) (count dst - y), e.mid ≠ (dst y).mid :=
    fun e he => by
      obtain ⟨k, hk, hky, rfl⟩ := Cells.mem_slice.1 he
      exact (hpair y k hy.1 (by omega) (by omega)).ne'
  have hstay : Cells.slice g 1 (y - 1) = Cells.slice dst 1 (y - 1) :=
    Cells.slice_congr fun k hk hky => (hcells k hk).trans (if_neg (by omega))
  have hmove : Cells.slice g y (count dst - y) = Cells.slice dst (y + 1) (count dst - y) :=
    (Cells.slice_shift fun k hk hky =>
      ((hcells k (by omega)).trans (if_pos (by omega))).symm).symm
  refine ⟨?_, hcount⟩
  calc entries g
    _ = Cells.slice g 1 (y - 1) ++ Cells.slice g y (count dst - y) := by
      rw [entries, hcount, show count dst - 1 = y - 1 + (count dst - y) by omega,
        Cells.slice_append, show 1 + (y - 1) = y by omega]
    _ = Cells.slice dst 1 (y - 1) ++ Cells.slice dst (y + 1) (count dst - y) := by
      rw [hstay, hmove]
    _ = (entries dst).filter (·.mid ≠ (dst y).mid) := by
      rw [entries, Cells.slice_eq_append_cons (k := y) (n := count dst) dst (by omega),
        List.filter_append, List.filter_cons_of_neg (by simp),
        List.filter_eq_self.2 fun e he => by simpa using hbefore e he,
        show count dst - (y - 1) - 1 = count dst - y by omega,
        List.filter_eq_self.2 fun e he => by simpa using hafter e he]

theorem Id2l.Ascends.nodup (hdst : Id2l.Ascends dst) : ((entries dst).map Id2.mid).Nodup :=
  List.pairwise_map.2 (hdst.pairwise.imp fun h => h.ne)

/-- Taking out the page of an entry of a spill list. -/
theorem Ascends.filter_entries {dst' : Id2l P} (hdst : Id2l.Ascends dst) {p : Id2 P → Bool}
    (hentries : entries dst' = (entries dst).filter p) : Id2l.Ascends dst' where
  pairwise := hentries ▸ hdst.pairwise.filter _
  le := by
    have hlength : (entries dst').length ≤ (entries dst).length :=
      hentries ▸ List.length_filter_le _ _
    rw [entries, entries, Cells.length_slice, Cells.length_slice] at hlength
    exact hlength.trans hdst.le

/-- The spilled pages are taken out of the dirty list, and no others. -/
theorem dropSpilled_spec (spill : Cells ℕ) (n i : ℕ) (hdst : Id2l.Ascends dst) :
    entries (dropSpilled spill n i dst) =
        (entries dst).filter (2 * ·.mid ∉ Cells.slice spill i n) ∧
      Id2l.Ascends (dropSpilled spill n i dst) := by
  induction n generalizing dst i with
  | zero => exact ⟨(List.filter_eq_self.2 fun e _ => by simp [Cells.slice]).symm, hdst⟩
  | succ n ih =>
    rw [dropSpilled]
    have hcons : ∀ p : ℕ, p ∉ Cells.slice spill i (n + 1) ↔
        p ≠ spill i ∧ p ∉ Cells.slice spill (i + 1) n := fun p => by
      rw [Cells.slice_cons, List.mem_cons, not_or]
    by_cases hodd : spill i % 2 = 1
    · -- an entry marked as deleted
      obtain ⟨hentries, hasc⟩ := ih (i + 1) hdst
      rw [if_pos hodd]
      refine ⟨hentries.trans (List.filter_congr fun e _ => ?_), hasc⟩
      have hne : 2 * e.mid ≠ spill i := by omega
      simp [hcons, hne]
    rw [if_neg hodd]
    have hx := Id2l.seeks_mdbMid2lSearch hdst (spill i / 2)
    have hpos := hx.pos
    simp only
    split
    · next hfound =>
      obtain ⟨hremove, -⟩ := entries_remove hdst ⟨hpos, hfound.1⟩
      obtain ⟨hentries, hasc⟩ := ih (i + 1) (Ascends.filter_entries hdst hremove)
      refine ⟨?_, hasc⟩
      rw [hentries, hremove, List.filter_filter]
      refine List.filter_congr fun e _ => ?_
      have hiff : 2 * e.mid ≠ spill i ↔ e.mid ≠ spill i / 2 := by omega
      simp [hcons, hiff, hfound.2, Bool.and_comm]
    · next hfound =>
      obtain ⟨hentries, hasc⟩ := ih (i + 1) hdst
      refine ⟨hentries.trans (List.filter_congr fun e he => ?_), hasc⟩
      have hne : 2 * e.mid ≠ spill i := fun heq => by
        obtain ⟨k, hk, hkn, rfl⟩ := Cells.mem_slice.1 he
        have hsearch := mdbMid2lSearch_eq hdst (k := k) ⟨hk, by omega⟩
        rw [show (dst k).mid = spill i / 2 by omega] at hsearch
        exact hfound ⟨by rw [hsearch]; omega, by rw [hsearch]; omega⟩
      simp [hcons, hne]

end Dirty

/-! ## The merged dirty list -/

section Merge

variable {dst src f g : Id2l P} {as bs : List (Id2 P)} {b e : Id2 P} {i j k n x y : ℕ}

/-- Entries in descending order. -/
def Falls (l : List (Id2 P)) : Prop := l.Pairwise (·.mid > ·.mid)

/-- The entries not greater than a number, but for one of this number. -/
def dropMid (m : ℕ) (as : List (Id2 P)) : List (Id2 P) :=
  match as.dropWhile (m < ·.mid) with
  | [] => []
  | a :: as => if m = a.mid then as else a :: as

/-- Merges entries into others, all in descending order. They replace those of the same
    number. -/
def mergeDown : List (Id2 P) → List (Id2 P) → List (Id2 P)
  | [], as => as
  | b :: bs, as => as.takeWhile (b.mid < ·.mid) ++ b :: mergeDown bs (dropMid b.mid as)

theorem takeWhile_eq_filter (has : Falls as) (m : ℕ) :
    as.takeWhile (m < ·.mid) = as.filter (m < ·.mid) := by
  induction as with
  | nil => rfl
  | cons a as ih =>
    obtain ⟨hgt, has⟩ := List.pairwise_cons.1 has
    rw [List.takeWhile_cons, List.filter_cons]
    by_cases hlt : m < a.mid
    · rw [if_pos (decide_eq_true hlt), if_pos (decide_eq_true hlt), ih has]
    · have hnil : as.filter (m < ·.mid) = [] := List.filter_eq_nil_iff.2 fun e he => by
        have := hgt e he
        simp only [decide_eq_true_eq]
        omega
      rw [if_neg (by simpa using hlt), if_neg (by simpa using hlt), hnil]

theorem dropMid_eq_filter (has : Falls as) (m : ℕ) : dropMid m as = as.filter (·.mid < m) := by
  induction as with
  | nil => rfl
  | cons a as ih =>
    obtain ⟨hgt, has⟩ := List.pairwise_cons.1 has
    rw [dropMid, List.dropWhile_cons]
    by_cases hlt : m < a.mid
    · rw [if_pos (decide_eq_true hlt), List.filter_cons_of_neg (by simp; omega), ← ih has, dropMid]
    · have hall : as.filter (·.mid < m) = as :=
        List.filter_eq_self.2 fun e he => decide_eq_true (by have := hgt e he; omega)
      rw [if_neg (by simpa using hlt)]
      change (if m = a.mid then as else a :: as) = _
      by_cases heq : m = a.mid
      · rw [if_pos heq, List.filter_cons_of_neg (by simp [heq]), hall]
      · have hgt : a.mid < m := by omega
        rw [if_neg heq, List.filter_cons_of_pos (by simpa using hgt), hall]

theorem mergeDown_cons (has : Falls as) :
    mergeDown (b :: bs) as =
      as.filter (b.mid < ·.mid) ++ b :: mergeDown bs (as.filter (·.mid < b.mid)) := by
  rw [mergeDown, takeWhile_eq_filter has, dropMid_eq_filter has]

theorem mem_mergeDown (hbs : Falls bs) (has : Falls as) :
    e ∈ mergeDown bs as ↔ e ∈ bs ∨ e ∈ as ∧ ∀ b ∈ bs, b.mid ≠ e.mid := by
  induction bs generalizing as with
  | nil => simp [mergeDown]
  | cons b bs ih =>
    obtain ⟨hgt, hbs⟩ := List.pairwise_cons.1 hbs
    rw [mergeDown_cons has, List.mem_append, List.mem_cons, ih hbs (has.filter _), List.mem_cons,
      List.mem_filter, List.mem_filter, List.forall_mem_cons, decide_eq_true_eq, decide_eq_true_eq]
    have hbelow : b.mid < e.mid → ∀ b' ∈ bs, b'.mid ≠ e.mid := fun hlt b' hb' => by
      have := hgt b' hb'
      omega
    constructor
    · rintro (⟨he, hlt⟩ | rfl | hmem | ⟨⟨he, hlt⟩, hne⟩)
      · exact .inr ⟨he, hlt.ne, hbelow hlt⟩
      · exact .inl (.inl rfl)
      · exact .inl (.inr hmem)
      · exact .inr ⟨he, hlt.ne', hne⟩
    · rintro ((rfl | hmem) | ⟨he, hne, hne'⟩)
      · exact .inr (.inl rfl)
      · exact .inr (.inr (.inl hmem))
      · rcases lt_or_gt_of_ne hne with hlt | hgt
        · exact .inl ⟨he, hlt⟩
        · exact .inr (.inr (.inr ⟨⟨he, hgt⟩, hne'⟩))

theorem falls_mergeDown (hbs : Falls bs) (has : Falls as) : Falls (mergeDown bs as) := by
  induction bs generalizing as with
  | nil => exact has
  | cons b bs ih =>
    obtain ⟨hgt, hbs⟩ := List.pairwise_cons.1 hbs
    have hrest : ∀ e ∈ mergeDown bs (as.filter (·.mid < b.mid)), b.mid > e.mid := fun e he => by
      rcases (mem_mergeDown hbs (has.filter _)).1 he with he | ⟨he, -⟩
      · exact hgt e he
      · exact of_decide_eq_true (List.mem_filter.1 he).2
    rw [mergeDown_cons has]
    refine List.pairwise_append.2
      ⟨has.filter _, List.pairwise_cons.2 ⟨hrest, ih hbs (has.filter _)⟩, fun a ha e he => ?_⟩
    have hlt : b.mid < a.mid := of_decide_eq_true (List.mem_filter.1 ha).2
    rcases List.mem_cons.1 he with rfl | he
    · exact hlt
    · have := hrest e he
      omega

/-- The numbers of some entries. -/
def mids (l : List (Id2 P)) : Finset ℕ := (l.map Id2.mid).toFinset

theorem mem_mids {l : List (Id2 P)} {m : ℕ} : m ∈ mids l ↔ ∃ e ∈ l, e.mid = m := by
  simp [mids]

theorem mids_mergeDown (hbs : Falls bs) (has : Falls as) :
    mids (mergeDown bs as) = mids as ∪ mids bs := by
  ext m
  simp only [Finset.mem_union, mem_mids, mem_mergeDown hbs has]
  constructor
  · rintro ⟨e, he | ⟨he, -⟩, rfl⟩
    · exact .inr ⟨e, he, rfl⟩
    · exact .inl ⟨e, he, rfl⟩
  · rintro (⟨e, he, rfl⟩ | ⟨e, he, rfl⟩)
    · by_cases hb : ∃ b ∈ bs, b.mid = e.mid
      · obtain ⟨b, hb, heq⟩ := hb
        exact ⟨b, .inl hb, heq⟩
      · exact ⟨e, .inr ⟨he, fun b hb' heq => hb ⟨b, hb', heq⟩⟩, rfl⟩
    · exact ⟨e, .inl he, rfl⟩

theorem card_mids {l : List (Id2 P)} (hl : (l.map Id2.mid).Nodup) : (mids l).card = l.length := by
  rw [mids, List.toFinset_card_of_nodup hl, List.length_map]

/-- The entries that are not of some of the numbers. -/
theorem length_filter_add_card {l : List (Id2 P)} (hl : (l.map Id2.mid).Nodup) {F : Finset ℕ}
    (hF : F ⊆ mids l) : (l.filter (·.mid ∉ F)).length + F.card = l.length := by
  have hmids : mids (l.filter (·.mid ∈ F)) = F := by
    ext m
    rw [mem_mids]
    constructor
    · rintro ⟨e, he, rfl⟩
      exact of_decide_eq_true (List.mem_filter.1 he).2
    · intro hm
      obtain ⟨e, he, rfl⟩ := mem_mids.1 (hF hm)
      exact ⟨e, List.mem_filter.2 ⟨he, decide_eq_true hm⟩, rfl⟩
  have hnodup : ((l.filter (·.mid ∈ F)).map Id2.mid).Nodup := hl.sublist (List.filter_sublist.map _)
  have hsplit := List.length_eq_length_filter_add (l := l) (·.mid ∈ F)
  rw [hsplit, ← card_mids hnodup, hmids, Nat.add_comm]
  congr 2
  exact List.filter_congr fun e _ => decide_not

theorem Falls.nodup (has : Falls as) : (as.map Id2.mid).Nodup :=
  List.pairwise_map.2 (has.imp fun h => h.ne')

/-- The length of the merge. -/
theorem length_mergeDown (hbs : Falls bs) (has : Falls as) :
    (mergeDown bs as).length = (mids as ∪ mids bs).card := by
  rw [← mids_mergeDown hbs has, card_mids (falls_mergeDown hbs has).nodup]

/-! ### The loops -/

/-- The inner loop moves the greater entries to their places. -/
theorem moveGreater_spec {m : ℕ} (h0 : (f 0).mid = 0) (hxi : x ≤ i) (hin : i ≤ n) :
    ∃ g x', moveGreater m f i x = some (g, x' + (i - x), x') ∧ x' ≤ x ∧
      (∀ k, k ≤ x' ∨ n < k → g k = f k) ∧
      Cells.descend f x' = (Cells.descend f x).dropWhile (m < ·.mid) ∧
      Cells.slice g (x' + (i - x) + 1) (n - (x' + (i - x))) =
        ((Cells.descend f x).takeWhile (m < ·.mid)).reverse ++ Cells.slice f (i + 1) (n - i) := by
  induction x generalizing f i with
  | zero =>
    refine ⟨f, 0, ?_, le_rfl, fun _ _ => rfl, rfl, ?_⟩
    · rw [moveGreater, if_neg (by omega), Nat.sub_zero, Nat.zero_add]
    · rw [Nat.sub_zero, Nat.zero_add]
      rfl
  | succ x ih =>
    rw [Cells.descend, List.dropWhile_cons, List.takeWhile_cons, moveGreater]
    by_cases hlt : m < (f (x + 1)).mid
    · have hwrite : ∀ k, k ≠ i → Cells.write f i (f (x + 1)) k = f k := fun k => f.write_of_ne _
      obtain ⟨g, x', hmove, hx', hframe, hdrop, htake⟩ :=
        ih (f := Cells.write f i (f (x + 1))) (i := i - 1) (by rw [hwrite 0 (by omega), h0])
          (by omega) (by omega)
      have hsub : i - 1 - x = i - (x + 1) := by omega
      have hsame : ∀ z, z ≤ x → Cells.descend (Cells.write f i (f (x + 1))) z = Cells.descend f z :=
        fun z hz => Cells.descend_congr fun k _ hkz => hwrite k (by omega)
      rw [hsub] at hmove htake
      rw [hsame x le_rfl] at hdrop htake
      rw [hsame x' hx'] at hdrop
      rw [if_pos hlt, if_pos (decide_eq_true hlt), if_pos (decide_eq_true hlt)]
      refine ⟨g, x', hmove, by omega, fun k hk => ?_, hdrop, ?_⟩
      · rw [hframe k hk, hwrite k (by omega)]
      · rw [htake, show i - 1 + 1 = i by omega, show n - (i - 1) = n - i + 1 by omega,
          Cells.slice_cons, Cells.write_self, Cells.slice_congr fun k hk _ => hwrite k (by omega),
          List.reverse_cons, List.append_assoc, List.singleton_append]
    · rw [if_neg hlt, if_neg (by simpa using hlt), if_neg (by simpa using hlt)]
      refine ⟨f, x + 1, ?_, le_rfl, fun _ _ => rfl, rfl, ?_⟩
      · rw [show x + 1 + (i - (x + 1)) = i by omega]
      · rw [show x + 1 + (i - (x + 1)) = i by omega]
        rfl

theorem length_le_takeWhile_add (m : ℕ) (as : List (Id2 P)) :
    as.length ≤ (as.takeWhile (m < ·.mid)).length + 1 + (dropMid m as).length := by
  have happend := congrArg List.length
    (List.takeWhile_append_dropWhile (p := (m < Id2.mid ·)) (l := as))
  rw [List.length_append] at happend
  have hdrop : (as.dropWhile (m < Id2.mid ·)).length ≤ 1 + (dropMid m as).length := by
    rw [dropMid]
    split
    · next h => simp [h]
    · next a as' h =>
      rw [h, List.length_cons]
      split
      · omega
      · rw [List.length_cons]
        omega
  omega

theorem length_le_mergeDown (bs as : List (Id2 P)) : as.length ≤ (mergeDown bs as).length := by
  induction bs generalizing as with
  | nil => exact le_rfl
  | cons b bs ih =>
    have := length_le_takeWhile_add b.mid as
    have := ih (dropMid b.mid as)
    rw [mergeDown, List.length_append, List.length_cons]
    omega

/-- Dropping the entry the loop has stopped at, if it is of the number looked for. -/
theorem dropMid_descend {m : ℕ} (hm : 0 < m) (h0 : (g 0).mid = 0)
    (hdrop : as.dropWhile (m < ·.mid) = Cells.descend g x) :
    dropMid m as = Cells.descend g (if m = (g x).mid then x - 1 else x) ∧
      (if m = (g x).mid then x - 1 else x) ≤ x := by
  rw [dropMid, hdrop]
  cases x with
  | zero =>
    rw [if_neg (by omega)]
    exact ⟨rfl, le_rfl⟩
  | succ x =>
    change (if m = (g (x + 1)).mid then _ else _) = _ ∧ _
    split
    · exact ⟨rfl, by omega⟩
    · exact ⟨rfl, le_rfl⟩

@[simp]
theorem length_descend (f : Id2l P) (x : ℕ) : (Cells.descend f x).length = x := by
  rw [Cells.descend_eq, List.length_reverse, Cells.length_slice]

/-- Merging in place is merging, starting from the greatest numbers. -/
theorem mergeLoop_spec (h0 : (f 0).mid = 0) (hpos : ∀ k, 0 < k → k ≤ y → 0 < (src k).mid)
    (hi : i = (mergeDown (Cells.descend src y) (Cells.descend f x)).length) (hin : i ≤ n) :
    ∃ g, mergeLoop src y f i x = some g ∧ (∀ k, n < k → g k = f k) ∧
      Cells.slice g 1 n = (mergeDown (Cells.descend src y) (Cells.descend f x)).reverse ++
        Cells.slice f (i + 1) (n - i) := by
  induction y generalizing f i x with
  | zero =>
    rw [Cells.descend, mergeDown, length_descend] at hi
    refine ⟨f, if_pos hi, fun _ _ => rfl, ?_⟩
    rw [Cells.descend, mergeDown, Cells.descend_eq, List.reverse_reverse, hi, Nat.add_comm x 1,
      ← Cells.slice_append, show x + (n - x) = n by omega]
  | succ y ih =>
    have hxi : x ≤ i := by
      have := length_le_mergeDown (Cells.descend src (y + 1)) (Cells.descend f x)
      rw [length_descend] at this
      omega
    have hm := hpos (y + 1) (Nat.succ_pos y) le_rfl
    obtain ⟨g, x', hmove, hx', hframe, hdrop, htake⟩ :=
      moveGreater_spec (m := (src (y + 1)).mid) h0 hxi hin
    have hsame : Cells.descend g x' = Cells.descend f x' :=
      Cells.descend_congr fun k _ hk => hframe k (.inl hk)
    have hg0 : (g 0).mid = 0 := by rw [hframe 0 (by omega), h0]
    obtain ⟨hdropMid, hle⟩ := dropMid_descend hm hg0 (hdrop.symm.trans hsame.symm)
    have htakeLength := congrArg List.length
      (List.takeWhile_append_dropWhile (p := ((src (y + 1)).mid < Id2.mid ·))
        (l := Cells.descend f x))
    rw [List.length_append, ← hdrop, length_descend, length_descend] at htakeLength
    rw [mergeLoop, hmove]
    simp only [Option.bind_eq_bind, Option.bind_some]
    rw [Cells.descend, mergeDown] at hi ⊢
    rw [hdropMid] at hi ⊢
    generalize (if (src (y + 1)).mid = (g x').mid then x' - 1 else x') = z at hle hi
    have hlength := length_le_mergeDown (Cells.descend src y) (Cells.descend g z)
    rw [length_descend] at hlength
    rw [List.length_append, List.length_cons] at hi
    -- the place for the entry is above all those left
    generalize hp : x' + (i - x) = p at htake
    have hwrite : ∀ k, k ≠ p → Cells.write g p (src (y + 1)) k = g k := fun k => g.write_of_ne _
    have hleft : Cells.descend (Cells.write g p (src (y + 1))) z = Cells.descend g z :=
      Cells.descend_congr fun k _ hk => hwrite k (by omega)
    obtain ⟨h, hloop, hframe', hslice⟩ :=
      ih (f := Cells.write g p (src (y + 1))) (i := p - 1) (x := z)
        (by rw [hwrite 0 (by omega), hg0])
        (fun k hk hky => hpos k hk (by omega)) (by rw [hleft]; omega) (by omega)
    refine ⟨h, hloop, fun k hk => ?_, ?_⟩
    · rw [hframe' k hk, hwrite k (by omega), hframe k (.inr hk)]
    · rw [hslice, hleft, show p - 1 + 1 = p by omega, show n - (p - 1) = n - p + 1 by omega,
        Cells.slice_cons, Cells.write_self, Cells.slice_congr fun k hk _ => hwrite k (by omega),
        htake, List.reverse_append, List.reverse_cons, List.append_assoc, List.append_assoc,
        List.singleton_append]

theorem skipGreater_spec {m : ℕ} (h0 : (f 0).mid = 0) (x : ℕ) :
    ∃ x', skipGreater f m x = some x' ∧ x' ≤ x ∧
      Cells.descend f x' = (Cells.descend f x).dropWhile (m < ·.mid) := by
  induction x with
  | zero => exact ⟨0, if_neg (by omega), le_rfl, rfl⟩
  | succ x ih =>
    rw [skipGreater, Cells.descend, List.dropWhile_cons]
    by_cases hlt : m < (f (x + 1)).mid
    · obtain ⟨x', hskip, hx', hdrop⟩ := ih
      rw [if_pos hlt, if_pos (decide_eq_true hlt)]
      exact ⟨x', hskip, by omega, hdrop⟩
    · rw [if_neg hlt, if_neg (by simpa using hlt)]
      exact ⟨x + 1, rfl, le_rfl, rfl⟩

theorem mergeDown_nil (bs : List (Id2 P)) : mergeDown bs [] = bs := by
  induction bs with
  | nil => rfl
  | cons b bs ih =>
    rw [mergeDown]
    exact congrArg (b :: ·) ih

/-- The loop takes one off for each number that is in both lists. -/
theorem lenLoop_spec {len : ℕ} (h0 : (dst 0).mid = 0)
    (hpos : ∀ k, 0 < k → k ≤ y → 0 < (src k).mid) (hlen : x + y ≤ len) :
    ∃ len', lenLoop dst src y x len = some len' ∧
      len' + (x + y) =
        len + (mergeDown (Cells.descend src y) (Cells.descend dst x)).length := by
  induction y generalizing x len with
  | zero =>
    refine ⟨len, rfl, ?_⟩
    rw [Cells.descend, mergeDown, length_descend, Nat.add_zero]
  | succ y ih =>
    rw [lenLoop]
    by_cases hx : x = 0
    · rw [if_pos hx]
      refine ⟨len, rfl, ?_⟩
      rw [hx, Cells.descend_eq dst]
      change _ = _ + (mergeDown _ []).length
      rw [mergeDown_nil, length_descend, Nat.zero_add]
    · obtain ⟨x', hskip, hx', hdrop⟩ := skipGreater_spec (m := (src (y + 1)).mid) h0 x
      obtain ⟨hdropMid, hle⟩ := dropMid_descend (hpos (y + 1) (Nat.succ_pos y) le_rfl) h0 hdrop.symm
      have htakeLength := congrArg List.length
        (List.takeWhile_append_dropWhile (p := ((src (y + 1)).mid < Id2.mid ·))
          (l := Cells.descend dst x))
      rw [List.length_append, ← hdrop, length_descend, length_descend] at htakeLength
      rw [if_neg hx, Cells.descend, mergeDown, hdropMid, List.length_append, List.length_cons]
      simp only [hskip, Option.bind_eq_bind, Option.bind_some]
      by_cases heq : (src (y + 1)).mid = (dst x').mid
      · have hx'0 : x' ≠ 0 := fun h => by
          have := hpos (y + 1) (Nat.succ_pos y) le_rfl
          rw [h, h0] at heq
          omega
        rw [if_pos heq, if_pos heq]
        obtain ⟨len', hloop, hlen'⟩ := ih (fun k hk hky => hpos k hk (by omega))
          (show x' - 1 + y ≤ len - 1 by omega)
        exact ⟨len', hloop, by omega⟩
      · rw [if_neg heq, if_neg heq]
        obtain ⟨len', hloop, hlen'⟩ := ih (fun k hk hky => hpos k hk (by omega))
          (show x' + y ≤ len by omega)
        exact ⟨len', hloop, by omega⟩

/-- Entries greater than all others are not looked at. -/
theorem mergeDown_append (bs₁ bs₂ : List (Id2 P)) (has : Falls as)
    (hgt : ∀ b ∈ bs₁, ∀ a ∈ as, a.mid < b.mid) :
    mergeDown (bs₁ ++ bs₂) as = bs₁ ++ mergeDown bs₂ as := by
  induction bs₁ with
  | nil => rfl
  | cons b bs₁ ih =>
    obtain ⟨hb, hbs⟩ := List.forall_mem_cons.1 hgt
    have hnil : as.filter (b.mid < ·.mid) = [] := List.filter_eq_nil_iff.2 fun a ha => by
      have := hb a ha
      simp only [decide_eq_true_eq]
      omega
    have hall : as.filter (·.mid < b.mid) = as :=
      List.filter_eq_self.2 fun a ha => decide_eq_true (hb a ha)
    rw [List.cons_append, mergeDown_cons has, hnil, hall, ih hbs]
    rfl

theorem descend_append (f : Id2l P) (m n : ℕ) :
    Cells.descend f (m + n) = (Cells.slice f (m + 1) n).reverse ++ Cells.descend f m := by
  rw [Cells.descend_eq, Cells.slice_append, List.reverse_append, Nat.add_comm 1 m, Cells.descend_eq]

/-- The length computed is that of the merge. -/
theorem mergedLen_spec (hfalls : Falls (Cells.descend dst x)) (hsrc : Id2l.Ascends src)
    (h0 : (dst 0).mid = 0) (hpos : ∀ k, 0 < k → k ≤ count src → 0 < (src k).mid) :
    mergedLen dst src x =
      some (mergeDown (Cells.descend src (count src)) (Cells.descend dst x)).length := by
  have hseeks := Id2l.seeks_mdbMid2lSearch hsrc ((dst x).mid + 1)
  rw [mergedLen]
  generalize Id2l.mdbMid2lSearch src ((dst x).mid + 1) = s at hseeks
  have hs := hseeks.pos
  have hsn := hseeks.le
  -- the entries from `s` on are greater than all of the other list
  have hgt : ∀ b ∈ (Cells.slice src (s - 1 + 1) (count src - (s - 1))).reverse,
      ∀ a ∈ Cells.descend dst x, a.mid < b.mid := fun b hb a ha => by
    obtain ⟨k, hk, hkn, rfl⟩ := Cells.mem_slice.1 (List.mem_reverse.1 hb)
    have hle : (dst x).mid + 1 ≤ (src k).mid := by
      rcases hk.lt_or_eq with hlt | heq
      · exact (Nat.compare_eq_lt.1 (hseeks.lt k (by omega) (by omega))).le
      · rw [show k = s by omega]
        exact Nat.le_of_not_lt fun h => hseeks.ne_gt (by omega) (Nat.compare_eq_gt.2 h)
    cases x with
    | zero => exact absurd ha List.not_mem_nil
    | succ x =>
      rcases List.mem_cons.1 ha with rfl | ha
      · omega
      · have := (List.pairwise_cons.1 hfalls).1 a ha
        omega
  obtain ⟨len, hloop, hlen⟩ := lenLoop_spec h0 (fun k hk hks => hpos k hk (by omega))
    (show x + (s - 1) ≤ x + count src by omega)
  have happend := descend_append src (s - 1) (count src - (s - 1))
  rw [show s - 1 + (count src - (s - 1)) = count src by omega] at happend
  rw [hloop, happend, mergeDown_append _ _ hfalls hgt, List.length_append, List.length_reverse,
    Cells.length_slice]
  congr 1
  omega

/-- The dirty pages replace those of the parent, and the rest stays. -/
theorem mergeDirty_spec (len : Option ℕ) (hdst : Id2l.Ascends dst) (hsrc : Id2l.Ascends src)
    (hpos : ∀ e ∈ entries src, 0 < e.mid)
    (hlen : ∀ l ∈ len, l = (mids (entries dst) ∪ mids (entries src)).card)
    (hroom : (mids (entries dst) ∪ mids (entries src)).card ≤ idlUmMax) :
    ∃ g, mergeDirty dst src len = some g ∧ Id2l.Ascends g ∧
      ∀ e, e ∈ entries g ↔
        e ∈ entries src ∨ e ∈ entries dst ∧ ∀ b ∈ entries src, b.mid ≠ e.mid := by
  have h0 : (setCount dst 0 0).mid = 0 := Id2l.count_setCount dst 0
  have has : Cells.descend (setCount dst 0) (count dst) = (entries dst).reverse := by
    rw [Cells.descend_congr fun k hk _ => Id2l.setCount_of_ne dst 0 (by omega), Cells.descend_eq]
    rfl
  have hbs : Cells.descend src (count src) = (entries src).reverse := Cells.descend_eq _ _
  have hfallsDst : Falls (entries dst).reverse := List.pairwise_reverse.2 hdst.pairwise
  have hfallsSrc : Falls (entries src).reverse := List.pairwise_reverse.2 hsrc.pairwise
  have hpos' : ∀ k, 0 < k → k ≤ count src → 0 < (src k).mid := fun k hk hkn =>
    hpos _ (Cells.mem_slice.2 ⟨k, hk, by omega, rfl⟩)
  have hmids : ∀ l : List (Id2 P), mids l.reverse = mids l := fun l => by ext m; simp [mem_mids]
  have hlength : (mergeDown (entries src).reverse (entries dst).reverse).length =
      (mids (entries dst) ∪ mids (entries src)).card := by
    rw [length_mergeDown hfallsSrc hfallsDst, hmids, hmids]
  -- however the length is come by, it is that of the merge
  have hlen' : (len <|> mergedLen (setCount dst 0) src (count dst)) =
      some (mergeDown (entries src).reverse (entries dst).reverse).length := by
    cases len with
    | none =>
      have hmerged := mergedLen_spec (x := count dst) (has ▸ hfallsDst) hsrc h0 hpos'
      rwa [has, hbs] at hmerged
    | some l => rw [hlength, ← hlen l rfl]; rfl
  obtain ⟨g, hloop, -, hslice⟩ := mergeLoop_spec (y := count src) (x := count dst)
    (f := setCount dst 0) h0 hpos' rfl le_rfl
  rw [has, hbs] at hloop hslice
  rw [Nat.sub_self] at hslice
  have hentries : entries
      (setCount g (mergeDown (entries src).reverse (entries dst).reverse).length) =
        (mergeDown (entries src).reverse (entries dst).reverse).reverse := by
    rw [Id2l.entries_setCount, hslice]
    exact List.append_nil _
  refine ⟨setCount g (mergeDown (entries src).reverse (entries dst).reverse).length, ?_, ⟨?_, ?_⟩,
    fun e => ?_⟩
  · rw [mergeDirty]
    simp only [hlen', hloop, Option.bind_eq_bind, Option.bind_some]
    rfl
  · rw [hentries]
    exact List.pairwise_reverse.2 (falls_mergeDown hfallsSrc hfallsDst)
  · rw [← hlength] at hroom
    exact (Id2l.count_setCount g _).trans_le hroom
  · rw [hentries, List.mem_reverse, mem_mergeDown hfallsSrc hfallsDst, List.mem_reverse,
      List.mem_reverse]
    simp only [List.mem_reverse]

end Merge

end KotlinLmdb
