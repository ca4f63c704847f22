import KotlinLmdb.Lmdb.Pages

/-!
# What the page lists stand for

The dirty list of a transaction stands for a map from page numbers to pages
(`PageTxn.dirty`), its spill list for a set of page numbers (`PageTxn.spillSet`). As long as
the lists are in order (`PageTxn.Lists`), the searches answer by these, and the operations on
the lists do to them what they are for.

A page is read from the innermost transaction that has it in its dirty list, unless one further
in has spilled it, and otherwise from the file (`look`).
-/

namespace KotlinLmdb

variable {D : Type}

open Id2l (count entries setCount mdbMid2lSearch mdbMid2lInsert)
open Midl (mdbMidlSearch)

namespace PageTxn

variable {t t' : PageTxn D} {p q : ℕ} {pg np : Page D}

/-- The dirty page of a number. -/
def dirty (t : PageTxn D) (p : ℕ) : Option (Page D) :=
  (t.dirtyAt p).map fun x => (t.dirtyList x).mptr

/-- The numbers of the spilled pages. -/
def spillSet (t : PageTxn D) : Finset ℕ :=
  match t.spillPgs with
  | none => ∅
  | some sl => ((sl.ids.filter (· % 2 = 0)).map (· / 2)).toFinset

/-- The lists are in order. -/
structure Lists (t : PageTxn D) : Prop where
  asc : Id2l.Ascends t.dirtyList
  spill : ∀ sl ∈ t.spillPgs, sl.ids.Pairwise SpillOrder ∧ sl.count < 2 ^ 32
  fits : ∀ sl ∈ t.spillPgs, sl.Fits

theorem mem_spillSet : p ∈ t.spillSet ↔ ∃ sl ∈ t.spillPgs, 2 * p ∈ sl.ids := by
  rw [spillSet]
  cases t.spillPgs with
  | none => simp
  | some sl =>
    simp only [List.mem_toFinset, List.mem_map, List.mem_filter, decide_eq_true_eq, Option.mem_def,
      Option.some.injEq, exists_eq_left']
    constructor
    · rintro ⟨a, ⟨ha, heven⟩, rfl⟩
      rwa [show 2 * (a / 2) = a by omega]
    · exact fun h => ⟨2 * p, ⟨h, by omega⟩, by omega⟩

theorem dirtyAt_eq_some_iff (ht : Lists t) {x : ℕ} :
    t.dirtyAt p = some x ↔ 0 < x ∧ x ≤ count t.dirtyList ∧ (t.dirtyList x).mid = p := by
  have hseeks := Id2l.seeks_mdbMid2lSearch ht.asc p
  have hpos := hseeks.pos
  rw [dirtyAt]
  constructor
  · intro h
    split at h
    · simp at h
    · simp only [Option.ite_none_right_eq_some, Option.some.injEq] at h
      obtain ⟨hfound, rfl⟩ := h
      exact ⟨hpos, hfound⟩
  · rintro ⟨hx, hxn, rfl⟩
    have hsearch : mdbMid2lSearch t.dirtyList (t.dirtyList x).mid = x :=
      mdbMid2lSearch_eq ht.asc ⟨hx, hxn⟩
    rw [if_neg (by omega), hsearch]
    exact if_pos ⟨hxn, rfl⟩

theorem dirty_eq_some_iff (ht : Lists t) :
    t.dirty p = some pg ↔ ⟨p, pg⟩ ∈ entries t.dirtyList := by
  rw [dirty, Option.map_eq_some_iff, entries, Cells.mem_slice]
  constructor
  · rintro ⟨x, hx, rfl⟩
    obtain ⟨hpos, hle, rfl⟩ := (dirtyAt_eq_some_iff ht).1 hx
    exact ⟨x, hpos, by omega, rfl⟩
  · rintro ⟨x, hx, hxn, heq⟩
    refine ⟨x, (dirtyAt_eq_some_iff ht).2 ⟨hx, by omega, by rw [heq]⟩, by rw [heq]⟩

theorem isSome_dirtyAt : (t.dirtyAt p).isSome = (t.dirty p).isSome := by
  rw [dirty, Option.isSome_map]

theorem mem_mids_iff (ht : Lists t) :
    p ∈ mids (entries t.dirtyList) ↔ (t.dirty p).isSome := by
  rw [mem_mids, Option.isSome_iff_exists]
  constructor
  · rintro ⟨e, he, rfl⟩
    exact ⟨e.mptr, (dirty_eq_some_iff ht).2 he⟩
  · rintro ⟨pg, hpg⟩
    exact ⟨_, (dirty_eq_some_iff ht).1 hpg, rfl⟩

theorem seeks_spill {sl : Midl} (hsl : sl.ids.Pairwise SpillOrder) (hlen : sl.count < 2 ^ 32)
    (p : ℕ) :
    Seeks (fun i => compare (sl.cells i) (2 * p)) sl.count (mdbMidlSearch sl.cells (2 * p)) := by
  have hcount : sl.cells 0 % 2 ^ 32 = sl.count := Nat.mod_eq_of_lt hlen
  rw [mdbMidlSearch, hcount]
  refine seeks_bisect fun i j hi hij hj hne => Nat.compare_eq_lt.2 ?_
  have hle : sl.cells i ≤ 2 * p := Nat.le_of_not_lt fun hlt => hne (Nat.compare_eq_gt.2 hlt)
  have hord : SpillOrder (sl.cells i) (sl.cells j) :=
    Cells.pairwise_slice_iff.1 hsl i j hi hij (by omega)
  rw [SpillOrder] at hord
  omega

theorem spillAt_spec (ht : Lists t) :
    (∀ x, t.spillAt p = some x →
      ∃ sl ∈ t.spillPgs, 0 < x ∧ x ≤ sl.count ∧ sl.cells x = 2 * p) ∧
      ((t.spillAt p).isSome ↔ p ∈ t.spillSet) := by
  rw [mem_spillSet, spillAt]
  cases hsl : t.spillPgs with
  | none => simp
  | some sl =>
    obtain ⟨hord, hlen⟩ := ht.spill sl hsl
    have hseeks := seeks_spill hord hlen p
    simp only [Option.bind_eq_bind, Option.bind_some, Option.mem_def, Option.some.injEq,
      exists_eq_left', Option.ite_none_right_eq_some]
    refine ⟨?_, ?_⟩
    · rintro x ⟨hfound, rfl⟩
      exact ⟨hseeks.pos, hfound⟩
    · rw [Option.isSome_iff_exists]
      simp only [Option.ite_none_right_eq_some, Option.some.injEq]
      constructor
      · rintro ⟨x, hfound, rfl⟩
        exact Cells.mem_slice.2 ⟨_, hseeks.pos, by omega, hfound.2⟩
      · intro hmem
        obtain ⟨k, hk, hkn, heq⟩ := Cells.mem_slice.1 hmem
        have hxk := hseeks.of_eq (y := k) ⟨hk, by omega⟩ (Nat.compare_eq_eq.2 heq)
        exact ⟨k, ⟨by omega, by rw [hxk]; exact heq⟩, hxk⟩

theorem isSome_spillAt (ht : Lists t) : (t.spillAt p).isSome ↔ p ∈ t.spillSet :=
  (spillAt_spec ht).2

/-! ## Writing to pages -/

/-- Writing to a dirty page. -/
theorem setPage_spec (np : Page D) (ht : Lists t) (hp : (t.dirty np.pgno).isSome) :
    Lists (t.setPage np) ∧ (t.setPage np).dirty = Function.update t.dirty np.pgno (some np) := by
  rw [← isSome_dirtyAt, Option.isSome_iff_exists] at hp
  obtain ⟨x, hx⟩ := hp
  obtain ⟨hpos, hle, hmid⟩ := (dirtyAt_eq_some_iff ht).1 hx
  have hsearch : mdbMid2lSearch t.dirtyList np.pgno = x := by
    rw [← hmid]
    exact mdbMid2lSearch_eq ht.asc ⟨hpos, hle⟩
  have hset : (t.setPage np).dirtyList = Cells.write t.dirtyList x ⟨np.pgno, np⟩ := by
    rw [setPage, hsearch]
  -- the numbers stay where they are
  have hmids : ∀ k, ((t.setPage np).dirtyList k).mid = (t.dirtyList k).mid := fun k => by
    rw [hset]
    by_cases hk : k = x
    · rw [hk, Cells.write_self, hmid]
    · rw [Cells.write_of_ne _ _ hk]
  have hcount : count (t.setPage np).dirtyList = count t.dirtyList := hmids 0
  have hlists : Lists (t.setPage np) := by
    refine ⟨⟨?_, hcount.trans_le ht.asc.le⟩, ht.spill, ht.fits⟩
    refine Cells.pairwise_slice_iff.2 fun j k hj hjk hk => ?_
    rw [hmids, hmids]
    exact Cells.pairwise_slice_iff.1 ht.asc.pairwise j k hj hjk (by omega)
  refine ⟨hlists, ?_⟩
  funext q
  have hat : (t.setPage np).dirtyAt q = t.dirtyAt q := by
    ext y
    rw [dirtyAt_eq_some_iff hlists, dirtyAt_eq_some_iff ht, hmids, hcount]
  rw [dirty, hat]
  by_cases hq : q = np.pgno
  · rw [hq, hx, Function.update_self, Option.map_some, hset, Cells.write_self]
  · rw [Function.update_of_ne hq, dirty]
    refine Option.map_congr fun y hy => ?_
    have hyx : y ≠ x := fun h => hq (by rw [← ((dirtyAt_eq_some_iff ht).1 hy).2.2, h, hmid])
    rw [hset, Cells.write_of_ne _ _ hyx]

/-- Adding a page to the dirty list. -/
theorem insert_spec (np : Page D) (ht : Lists t) (hp : t.dirty np.pgno = none)
    (hroom : count t.dirtyList < idlUmMax) :
    ∃ dl, mdbMid2lInsert t.dirtyList ⟨np.pgno, np⟩ = (0, dl) ∧ Id2l.Ascends dl ∧
      { t with dirtyList := dl }.dirty = Function.update t.dirty np.pgno (some np) := by
  have hnew : ¬∃ e ∈ entries t.dirtyList, e.mid = np.pgno := fun h => by
    have hmem := (mem_mids_iff ht).1 (mem_mids.2 h)
    rw [hp] at hmem
    simp at hmem
  have hlength : (entries t.dirtyList).length = count t.dirtyList := Cells.length_slice _ _ _
  obtain ⟨heq, hasc⟩ := Id2l.mdbMid2lInsert_spec ht.asc ⟨np.pgno, np⟩
  rw [Id2l.insertEntry, if_neg hnew, if_neg (by omega)] at heq
  obtain ⟨hrc, hentries⟩ := Prod.mk.inj heq
  refine ⟨_, Prod.ext hrc.symm rfl, hasc, ?_⟩
  funext q
  have ht' : Lists { t with dirtyList := (mdbMid2lInsert t.dirtyList ⟨np.pgno, np⟩).2 } :=
    ⟨hasc, ht.spill, ht.fits⟩
  ext pg
  rw [dirty_eq_some_iff ht']
  simp only [← hentries, List.mem_append, List.mem_cons, List.mem_filter, decide_eq_true_eq]
  by_cases hq : q = np.pgno
  · rw [hq, Function.update_self]
    simp [eq_comm]
  · rw [Function.update_of_ne hq, dirty_eq_some_iff ht]
    constructor
    · rintro (⟨hmem, -⟩ | heq | ⟨hmem, -⟩)
      · exact hmem
      · exact absurd (Id2.mk.inj heq).1 hq
      · exact hmem
    · intro hmem
      rcases lt_or_gt_of_ne hq with hlt | hgt
      · exact .inl ⟨hmem, hlt⟩
      · exact .inr (.inr ⟨hmem, hgt⟩)

theorem pageDirty_spec (np : Page D) (ht : Lists t) (hp : t.dirty np.pgno = none)
    (hroom : count t.dirtyList < idlUmMax) :
    ∃ dl, t.pageDirty np = some { t with dirtyList := dl, dirtyRoom := t.dirtyRoom - 1 } ∧
      Id2l.Ascends dl ∧
      { t with dirtyList := dl }.dirty = Function.update t.dirty np.pgno (some np) := by
  obtain ⟨dl, hinsert, hasc, hdirty⟩ := insert_spec np ht hp hroom
  refine ⟨dl, ?_, hasc, hdirty⟩
  rw [pageDirty, hinsert]
  rfl

theorem two_mul_or_one (p : ℕ) : 2 * p ||| 1 = 2 * p + 1 := by
  have h := Nat.two_pow_add_eq_or_of_lt (i := 1) (b := 1) (by decide) p
  exact h.symm

/-- Marking a spilled page as deleted, or taking it off the end of the list. -/
theorem unspill_spec (ht : Lists t) {sl : Midl} (hsl : sl ∈ t.spillPgs) {x : ℕ}
    (hx : t.spillAt p = some x) :
    let ids := if x = sl.count then sl.cells.write 0 (sl.count - 1)
      else sl.cells.write x (sl.cells x ||| 1)
    Lists { t with spillPgs := some { sl with cells := ids } } ∧
      { t with spillPgs := some { sl with cells := ids } }.spillSet = t.spillSet.erase p := by
  obtain ⟨sl', hsl', hpos, hle, hat⟩ := (spillAt_spec ht).1 x hx
  obtain rfl : sl' = sl := Option.some.inj (hsl'.symm.trans hsl)
  obtain ⟨hord, hlen⟩ := ht.spill sl' hsl
  have hpair := Cells.pairwise_slice_iff.1 hord
  -- no other entry is the page's
  have hne : ∀ k, 0 < k → k ≤ sl'.count → k ≠ x → sl'.cells k ≠ 2 * p := fun k hk hkn hkx heq => by
    rcases lt_or_gt_of_ne hkx with hlt | hgt
    · have := hpair k x hk hlt (by omega)
      rw [SpillOrder] at this
      omega
    · have := hpair x k hpos hgt (by omega)
      rw [SpillOrder] at this
      omega
  intro ids
  suffices h : ∃ n, Midl.count { sl' with cells := ids } = n ∧ n ≤ sl'.count ∧
      (Cells.slice ids 1 n).Pairwise SpillOrder ∧
      ∀ q, 2 * q ∈ Cells.slice ids 1 n ↔ 2 * q ∈ sl'.ids ∧ q ≠ p by
    obtain ⟨n, hn, hnle, hord', hmem⟩ := h
    have hids : Midl.ids { sl' with cells := ids } = Cells.slice ids 1 n := by rw [Midl.ids, hn]
    refine ⟨⟨ht.asc, fun sl'' hsl'' => ?_, fun sl'' hsl'' => ?_⟩, ?_⟩
    · obtain rfl := Option.some.inj hsl''
      rw [hids, hn]
      exact ⟨hord', by omega⟩
    · obtain rfl := Option.some.inj hsl''
      exact hn.trans_le (hnle.trans (ht.fits _ hsl))
    · ext q
      rw [Finset.mem_erase, mem_spillSet, mem_spillSet]
      simp only [Option.mem_def, Option.some.injEq, exists_eq_left', hids, hmem]
      rw [Option.mem_def.1 hsl]
      simp [and_comm]
  by_cases hlast : x = sl'.count
  · have hids : ids = sl'.cells.write 0 (sl'.count - 1) := if_pos hlast
    have hsame : ∀ k, 0 < k → ids k = sl'.cells k := fun k hk => by
      rw [hids, Cells.write_of_ne _ _ (by omega)]
    refine ⟨sl'.count - 1, by rw [hids]; exact sl'.cells.write_self 0 _, by omega, ?_, fun q => ?_⟩
    · refine Cells.pairwise_slice_iff.2 fun j k hj hjk hk => ?_
      rw [hsame j hj, hsame k (by omega)]
      exact hpair j k hj hjk (by omega)
    · rw [Cells.mem_slice, Midl.ids, Cells.mem_slice]
      constructor
      · rintro ⟨k, hk, hkn, heq⟩
        rw [hsame k hk] at heq
        refine ⟨⟨k, hk, by omega, heq⟩, fun hqp => ?_⟩
        exact hne k hk (by omega) (by omega) (by rw [heq, hqp])
      · rintro ⟨⟨k, hk, hkn, heq⟩, hqp⟩
        have hkx : k ≠ x := fun h => by rw [h, hat] at heq; omega
        exact ⟨k, hk, by omega, by rw [hsame k hk, heq]⟩
  · have hids : ids = sl'.cells.write x (2 * p + 1) := by
      rw [← two_mul_or_one, ← hat]
      exact if_neg hlast
    have hsame : ∀ k, k ≠ x → ids k = sl'.cells k := fun k hk => by
      rw [hids, Cells.write_of_ne _ _ hk]
    have hat' : ids x = 2 * p + 1 := by rw [hids, Cells.write_self]
    refine ⟨sl'.count, hsame 0 (by omega), le_rfl, ?_, fun q => ?_⟩
    · refine Cells.pairwise_slice_iff.2 fun j k hj hjk hk => ?_
      have hjk' := hpair j k hj hjk hk
      by_cases hjx : j = x
      · rw [hjx, hat', hsame k (by omega)]
        rw [hjx, hat] at hjk'
        rw [SpillOrder] at hjk' ⊢
        omega
      by_cases hkx : k = x
      · rw [hkx, hat', hsame j hjx]
        rw [hkx, hat] at hjk'
        rw [SpillOrder] at hjk' ⊢
        omega
      · rwa [hsame j hjx, hsame k hkx]
    · rw [Cells.mem_slice, Midl.ids, Cells.mem_slice]
      constructor
      · rintro ⟨k, hk, hkn, heq⟩
        have hkx : k ≠ x := fun h => by rw [h, hat'] at heq; omega
        rw [hsame k hkx] at heq
        refine ⟨⟨k, hk, by omega, heq⟩, fun hqp => ?_⟩
        exact hne k hk (by omega) hkx (by rw [heq, hqp])
      · rintro ⟨⟨k, hk, hkn, heq⟩, hqp⟩
        have hkx : k ≠ x := fun h => by rw [h, hat] at heq; omega
        exact ⟨k, hk, by omega, by rw [hsame k hkx, heq]⟩

end PageTxn

open PageTxn

/-! ## Spilling -/

namespace PageTxns

variable {s : PageTxns D} {dl dl' : Id2l (Page D)} {map map' : ℕ → Page D} {keep : ℕ → Bool}
  {i k n p need : ℕ} {sl sl' : Midl} {parents : List (PageTxn D)} {mem : Bool}

theorem purge_spec (sl : Midl) :
    (purge sl).ids = sl.ids.filter (· % 2 = 0) ∧ (purge sl).count ≤ sl.count ∧
      (purge sl).alloclen = sl.alloclen := by
  obtain ⟨⟨-, hle⟩, -, hslice⟩ := Cells.squeeze_spec (· % 2 = 0) id sl.cells (le_refl 0) sl.count
  rw [purge]
  generalize sl.cells.squeeze (· % 2 = 0) id 0 0 sl.count = res at hle hslice
  have hcount : Midl.count ⟨sl.alloclen, res.1.write 0 res.2⟩ = res.2 := res.1.write_self 0 _
  refine ⟨?_, by rw [hcount]; omega, rfl⟩
  have hwrite : Cells.slice (res.1.write 0 res.2) 1 res.2 = Cells.slice res.1 1 res.2 :=
    Cells.slice_congr fun k hk _ => res.1.write_of_ne _ (by omega)
  rw [Midl.ids, hcount, hwrite]
  rw [Nat.sub_zero, List.map_id] at hslice
  exact hslice

/-- A page that is not written to the file. -/
def Kept (keep : ℕ → Bool) (pg : Page D) : Prop := pg.loose = true ∨ keep pg.pgno = true

instance (keep : ℕ → Bool) (pg : Page D) : Decidable (Kept keep pg) :=
  inferInstanceAs (Decidable (_ ∨ _))

theorem kept_iff {pg : Page D} : (pg.loose || keep pg.pgno) = true ↔ Kept keep pg := by
  rw [Bool.or_eq_true]
  rfl

/-- The numbers in a dirty list are those of the pages. -/
structure Numbered (dl : Id2l (Page D)) : Prop where
  asc : Id2l.Ascends dl
  pgno : ∀ k, 0 < k → k ≤ count dl → (dl k).mptr.pgno = (dl k).mid
  pos : ∀ k, 0 < k → k ≤ count dl → 0 < (dl k).mid

theorem Numbered.mid_inj (hdl : Numbered dl) {j k : ℕ} (hj : 0 < j ∧ j ≤ count dl)
    (hk : 0 < k ∧ k ≤ count dl) (heq : (dl j).mid = (dl k).mid) : j = k := by
  have hpair := Cells.pairwise_slice_iff.1 hdl.asc.pairwise
  by_contra hne
  rcases lt_or_gt_of_ne hne with hlt | hgt
  · have := hpair j k hj.1 hlt (by omega)
    omega
  · have := hpair k j hk.1 hgt (by omega)
    omega

/-- The numbers saved are those of the pages that are not kept, of the entries looked at. -/
structure Saves (parents : List (PageTxn D)) (dl : Id2l (Page D)) (i : ℕ) (sl : Midl)
    (keep : ℕ → Bool) (r : Saved) (l : List (Id2 (Page D))) : Prop where
  le : r.i ≤ i
  kept : ∀ p, keep p = true → r.keep p = true
  marked : ∀ p, r.keep p = true → keep p = true ∨ ∃ k, r.i < k ∧ k ≤ i ∧ (dl k).mid = p
  fits : r.sl.Fits
  ids : r.sl.ids = sl.ids ++ shifted l
  falls : Falls l
  mem : ∀ e, e ∈ l ↔ ∃ k, r.i < k ∧ k ≤ i ∧ dl k = e ∧ ¬Kept r.keep e.mptr
  once : ∀ e ∈ l, ∀ t ∈ parents, t.spillAt e.mid = none

/-- An entry is not saved if its page is kept. -/
theorem Saves.skip {r : Saved} {l : List (Id2 (Page D))} (h : Saves parents dl i sl keep r l)
    (hkept : Kept r.keep (dl (i + 1)).mptr) : Saves parents dl (i + 1) sl keep r l where
  le := h.le.trans (Nat.le_succ i)
  kept := h.kept
  marked p hp := (h.marked p hp).imp_right fun ⟨k, hk, hki, heq⟩ => ⟨k, hk, by omega, heq⟩
  fits := h.fits
  ids := h.ids
  falls := h.falls
  mem e := by
    rw [h.mem]
    constructor
    · rintro ⟨k, hk, hki, heq⟩
      exact ⟨k, hk, by omega, heq⟩
    · rintro ⟨k, hk, hki, rfl, hnot⟩
      have hne : k ≠ i + 1 := fun h => hnot (h ▸ hkept)
      exact ⟨k, hk, by omega, rfl, hnot⟩
  once := h.once

/-- Nor if it is marked to be kept. -/
theorem Saves.mark {r : Saved} {l : List (Id2 (Page D))}
    (h : Saves parents dl i sl (Function.update keep (dl (i + 1)).mptr.pgno true) r l)
    (hpgno : (dl (i + 1)).mptr.pgno = (dl (i + 1)).mid) :
    Saves parents dl (i + 1) sl keep r l where
  __ := h.skip (.inr (h.kept _ (Function.update_self (dl (i + 1)).mptr.pgno true keep)))
  kept p hp := h.kept p (by
    by_cases heq : p = (dl (i + 1)).mptr.pgno
    · rw [heq, Function.update_self]
    · rwa [Function.update_of_ne heq])
  marked p hp := by
    have hle := h.le
    rcases h.marked p hp with hp | ⟨k, hk, hki, heq⟩
    · by_cases heq : p = (dl (i + 1)).mptr.pgno
      · exact .inr ⟨i + 1, by omega, le_rfl, by rw [heq, hpgno]⟩
      · rw [Function.update_of_ne heq] at hp
        exact .inl hp
    · exact .inr ⟨k, hk, by omega, heq⟩

/-- The number of a page that is not kept is saved. -/
theorem Saves.cons {r : Saved} {l : List (Id2 (Page D))} (hdl : Numbered dl)
    (hi : i + 1 ≤ count dl) (h : Saves parents dl i sl' keep r l)
    (hids : sl'.ids = sl.ids ++ [2 * (dl (i + 1)).mid])
    (hkept : ¬Kept keep (dl (i + 1)).mptr)
    (honce : ∀ t ∈ parents, t.spillAt (dl (i + 1)).mid = none) :
    Saves parents dl (i + 1) sl keep r (dl (i + 1) :: l) where
  le := h.le.trans (Nat.le_succ i)
  kept := h.kept
  marked p hp := (h.marked p hp).imp_right fun ⟨k, hk, hki, heq⟩ => ⟨k, hk, by omega, heq⟩
  fits := h.fits
  ids := by rw [h.ids, hids, List.append_assoc]; rfl
  falls := by
    refine List.pairwise_cons.2 ⟨fun e he => ?_, h.falls⟩
    obtain ⟨k, hk, hki, rfl, -⟩ := (h.mem e).1 he
    exact Cells.pairwise_slice_iff.1 hdl.asc.pairwise k (i + 1) (by omega) (by omega) (by omega)
  mem e := by
    have hle := h.le
    -- the entries below do not have its number
    have hnot : ¬Kept r.keep (dl (i + 1)).mptr := by
      rintro (hloose | hkeep)
      · exact hkept (.inl hloose)
      · rcases h.marked _ hkeep with hkeep | ⟨k, hk, hki, heq⟩
        · exact hkept (.inr hkeep)
        · rw [hdl.pgno (i + 1) (by omega) hi] at heq
          have := hdl.mid_inj ⟨by omega, by omega⟩ ⟨Nat.succ_pos i, hi⟩ heq
          omega
    rw [List.mem_cons, h.mem]
    constructor
    · rintro (rfl | ⟨k, hk, hki, heq⟩)
      · exact ⟨i + 1, by omega, le_rfl, rfl, hnot⟩
      · exact ⟨k, hk, by omega, heq⟩
    · rintro ⟨k, hk, hki, rfl, hnot⟩
      rcases hki.lt_or_eq with hlt | rfl
      · exact .inr ⟨k, hk, by omega, rfl, hnot⟩
      · exact .inl rfl
  once := List.forall_mem_cons.2 ⟨honce, h.once⟩

theorem saveIds_spec (hdl : Numbered dl) (hi : i ≤ count dl) (hsl : sl.Fits)
    (hrc : (saveIds parents dl mem i need sl keep).rc = 0) :
    ∃ l, Saves parents dl i sl keep (saveIds parents dl mem i need sl keep) l := by
  induction i generalizing need sl keep with
  | zero =>
    exact ⟨[], le_rfl, fun _ h => h, fun _ h => .inl h, hsl, (List.append_nil _).symm,
      List.Pairwise.nil, fun e => by simp, fun e he => absurd he List.not_mem_nil⟩
  | succ i ih =>
    cases need with
    | zero =>
      exact ⟨[], le_rfl, fun _ h => h, fun _ h => .inl h, hsl, (List.append_nil _).symm,
        List.Pairwise.nil, fun e => by simp [saveIds]; omega,
        fun e he => absurd he List.not_mem_nil⟩
    | succ need =>
      have hpgno := hdl.pgno (i + 1) (Nat.succ_pos i) hi
      rw [saveIds] at hrc ⊢
      by_cases hkept : Kept keep (dl (i + 1)).mptr
      · -- the page is loose, or a cursor keeps it
        simp only [kept_iff.2 hkept, if_true] at hrc ⊢
        obtain ⟨l, hl⟩ := ih (by omega) hsl hrc
        exact ⟨l, hl.skip (hkept.imp_right (hl.kept _))⟩
      rw [if_neg (kept_iff.not.2 hkept)] at hrc ⊢
      by_cases hany : (parents.any fun tx2 => (tx2.spillAt (dl (i + 1)).mid).isSome) = true
      · -- the page was spilled in a parent
        simp only [hany, if_true] at hrc ⊢
        obtain ⟨l, hl⟩ := ih (by omega) hsl hrc
        exact ⟨l, hl.mark hpgno⟩
      · have honce : ∀ t ∈ parents, t.spillAt (dl (i + 1)).mid = none := fun t ht => by
          by_contra hne
          exact hany (List.any_eq_true.2 ⟨t, ht, Option.isSome_iff_ne_none.2 hne⟩)
        rw [if_neg hany] at hrc ⊢
        cases happend : sl.mdbMidlAppend (2 * (dl (i + 1)).mid) mem with
        | none =>
          simp only [happend] at hrc
          exact absurd hrc (by decide)
        | some sl₂ =>
          have hgrown := Midl.grown_append hsl happend
          simp only [happend] at hrc ⊢
          obtain ⟨l, hl⟩ := ih (by omega) hgrown.fits hrc
          exact ⟨_, hl.cons hdl hi hgrown.ids hkept honce⟩

/-! ## Flushing -/

/-- The numbers of the pages that are written to the file, of the entries after `i`. -/
def flushed (dl : Id2l (Page D)) (i : ℕ) (keep : ℕ → Bool) : Finset ℕ :=
  mids ((Cells.slice dl (i + 1) (count dl - i)).filter fun e => ¬Kept keep e.mptr)

theorem mem_flushed :
    p ∈ flushed dl i keep ↔
      ∃ k, i < k ∧ k ≤ count dl ∧ (dl k).mid = p ∧ ¬Kept keep (dl k).mptr := by
  rw [flushed, mem_mids]
  constructor
  · rintro ⟨e, he, rfl⟩
    obtain ⟨hmem, hkept⟩ := List.mem_filter.1 he
    obtain ⟨k, hk, hkn, rfl⟩ := Cells.mem_slice.1 hmem
    exact ⟨k, hk, by omega, rfl, of_decide_eq_true hkept⟩
  · rintro ⟨k, hk, hkn, rfl, hkept⟩
    exact ⟨dl k, List.mem_filter.2 ⟨Cells.mem_slice.2 ⟨k, hk, by omega, rfl⟩,
      decide_eq_true hkept⟩, rfl⟩

theorem writePages_spec (keep : ℕ → Bool) (n i : ℕ) (dl : Id2l (Page D))
    (hinj : ∀ j k, i ≤ j → j < i + n → i ≤ k → k < i + n → (dl j).mid = (dl k).mid → j = k)
    (map : ℕ → Page D) :
    (∀ k, (writePages keep n i dl map).1 k =
        if (i ≤ k ∧ k < i + n) ∧ Kept keep (dl k).mptr then { dl k with mid := 0 } else dl k) ∧
      (∀ k, i ≤ k → k < i + n → ¬Kept keep (dl k).mptr →
        (writePages keep n i dl map).2 (dl k).mid = { (dl k).mptr with dirty := false }) ∧
      ∀ p, (∀ k, i ≤ k → k < i + n → ¬Kept keep (dl k).mptr → (dl k).mid ≠ p) →
        (writePages keep n i dl map).2 p = map p := by
  induction n generalizing i dl map with
  | zero =>
    refine ⟨fun k => (if_neg fun h => ?_).symm, fun k hk hkn => ?_, fun p _ => rfl⟩
    · omega
    · omega
  | succ n ih =>
    rw [writePages]
    by_cases hkept : Kept keep (dl i).mptr
    · rw [if_pos (kept_iff.2 hkept)]
      have hwrite : ∀ k, k ≠ i → Cells.write dl i { dl i with mid := 0 } k = dl k :=
        fun k hk => Cells.write_of_ne _ _ hk
      have hself : Cells.write dl i { dl i with mid := 0 } i = { dl i with mid := 0 } :=
        Cells.write_self _ _ _
      obtain ⟨hdl, hmap, hframe⟩ := ih (i + 1)
        (Cells.write dl i { dl i with mid := 0 }) (fun j k hj hjn hk hkn heq => by
          rw [hwrite j (by omega), hwrite k (by omega)] at heq
          exact hinj j k (by omega) (by omega) (by omega) (by omega) heq) map
      refine ⟨fun k => ?_, fun k hk hkn hnot => ?_, fun p hp => ?_⟩
      · rw [hdl]
        by_cases hki : k = i
        · rw [hki, hself, if_neg (by omega), if_pos ⟨by omega, hkept⟩]
        · rw [hwrite k hki]
          exact if_congr (and_congr_left fun _ => by omega) rfl rfl
      · have hki : k ≠ i := fun h => hnot (h ▸ hkept)
        have hres := hmap k (by omega) (by omega)
        rw [hwrite k hki] at hres
        exact hres hnot
      · refine hframe p fun k hk hkn => ?_
        rw [hwrite k (by omega)]
        exact hp k (by omega) (by omega)
    · rw [if_neg (kept_iff.not.2 hkept)]
      obtain ⟨hdl, hmap, hframe⟩ := ih (i + 1) dl
        (fun j k hj hjn hk hkn => hinj j k (by omega) (by omega) (by omega) (by omega))
        (Function.update map (dl i).mid { (dl i).mptr with dirty := false })
      refine ⟨fun k => ?_, fun k hk hkn hnot => ?_, fun p hp => ?_⟩
      · rw [hdl]
        by_cases hki : k = i
        · rw [hki, if_neg (by omega), if_neg fun h => hkept h.2]
        · exact if_congr (and_congr_left fun _ => by omega) rfl rfl
      · by_cases hki : k = i
        · rw [hki, hframe _ fun j hj hjn _ heq => ?_, Function.update_self]
          have := hinj j i (by omega) (by omega) le_rfl (by omega) heq
          omega
        · exact hmap k (by omega) (by omega) hnot
      · rw [hframe p fun k hk hkn => hp k (by omega) (by omega)]
        exact Function.update_of_ne (hp i le_rfl (by omega) hkept).symm _ _

theorem mid_mem_flushed (hdl : Numbered dl) (hk : 0 < k ∧ k ≤ count dl) :
    (dl k).mid ∈ flushed dl i keep ↔ i < k ∧ ¬Kept keep (dl k).mptr := by
  rw [mem_flushed]
  constructor
  · rintro ⟨j, hj, hjn, heq, hnot⟩
    obtain rfl := hdl.mid_inj ⟨by omega, hjn⟩ hk heq
    exact ⟨hj, hnot⟩
  · rintro ⟨hik, hnot⟩
    exact ⟨k, hik, hk.2, rfl, hnot⟩

theorem flushed_subset : flushed dl i keep ⊆ mids (entries dl) := fun p hp => by
  obtain ⟨k, hk, hkn, rfl, -⟩ := mem_flushed.1 hp
  exact mem_mids.2 ⟨dl k, Cells.mem_slice.2 ⟨k, by omega, by omega, rfl⟩, rfl⟩

/-- The entries that are marked by the number 0 are those not flushed. -/
theorem map_filter_marked (hdl : Numbered dl) (hdl' : ∀ k, dl' k =
      if (i + 1 ≤ k ∧ k < i + 1 + (count dl - i)) ∧ Kept keep (dl k).mptr then
        { dl k with mid := 0 } else dl k) :
    ((Cells.slice dl' (i + 1) (count dl - i)).filter (·.mid = 0)).map
        (fun e => { e with mid := e.mptr.pgno }) =
      (Cells.slice dl (i + 1) (count dl - i)).filter (·.mid ∉ flushed dl i keep) := by
  have hiff : ∀ k ∈ List.range' (i + 1) (count dl - i),
      ((dl' k).mid = 0 ↔ (dl k).mid ∉ flushed dl i keep) ∧ ((dl k).mid ∉ flushed dl i keep →
        { dl' k with mid := (dl' k).mptr.pgno } = dl k) := fun k hk => by
    obtain ⟨hik, hkn⟩ := List.mem_range'_1.1 hk
    have hpos := hdl.pos k (by omega) (by omega)
    rw [mid_mem_flushed hdl (by omega), hdl']
    by_cases hkept : Kept keep (dl k).mptr
    · rw [if_pos ⟨⟨hik, hkn⟩, hkept⟩]
      refine ⟨iff_of_true rfl fun h => h.2 hkept, fun _ => ?_⟩
      rw [hdl.pgno k (by omega) (by omega)]
    · rw [if_neg fun h => hkept h.2]
      exact ⟨iff_of_false (by omega) fun h => h ⟨by omega, hkept⟩,
        fun h => absurd ⟨by omega, hkept⟩ h⟩
  rw [Cells.slice, Cells.slice, List.filter_map, List.filter_map, List.map_map,
    List.filter_congr (q := (decide <| ·.mid ∉ flushed dl i keep) ∘ dl) fun k hk => by
      simp only [Function.comp_apply, (hiff k hk).1]]
  refine List.map_congr_left fun k hk => ?_
  obtain ⟨hmem, hnot⟩ := List.mem_filter.1 hk
  exact (hiff k hmem).2 (of_decide_eq_true hnot)

theorem slice_one_split (f : Id2l (Page D)) (hin : i ≤ n) :
    Cells.slice f 1 n = Cells.slice f 1 i ++ Cells.slice f (i + 1) (n - i) := by
  rw [← Nat.add_comm 1 i, ← Cells.slice_append, Nat.add_sub_cancel' hin]

/-- What flushing does: the pages flushed are in the file, and no longer in the dirty list. -/
theorem pageFlush_spec {s : PageTxns D} (hdl : Numbered s.txn.dirtyList)
    (hi : i ≤ count s.txn.dirtyList) (keep : ℕ → Bool) :
    let F := flushed s.txn.dirtyList i keep
    let s' := s.pageFlush i keep
    entries s'.txn.dirtyList = (entries s.txn.dirtyList).filter (·.mid ∉ F) ∧
      (∀ e ∈ entries s.txn.dirtyList, e.mid ∈ F → s'.map e.mid = { e.mptr with dirty := false }) ∧
      (∀ p, p ∉ F → s'.map p = s.map p) ∧ s'.txn.dirtyRoom = s.txn.dirtyRoom + F.card := by
  intro F s'
  set dl := s.txn.dirtyList
  obtain ⟨hdl', hmap, hframe⟩ := writePages_spec keep (count dl - i) (i + 1) dl
    (fun j k hj hjn hk hkn => hdl.mid_inj (by omega) (by omega)) s.map
  set res := writePages keep (count dl - i) (i + 1) dl s.map
  obtain ⟨⟨hij, hjn⟩, hsame, hslice⟩ := Cells.squeeze_spec (·.mid = 0)
    (fun e => { e with mid := e.mptr.pgno }) res.1 (le_refl i) (count dl - i)
  set squeezed := Cells.squeeze (·.mid = 0) (fun e : Id2 (Page D) => { e with mid := e.mptr.pgno })
    res.1 i i (count dl - i)
  have hlist : s'.txn.dirtyList = setCount squeezed.1 squeezed.2 := rfl
  have hentries : entries s'.txn.dirtyList = (entries dl).filter (·.mid ∉ F) := by
    have hfirst : (Cells.slice dl 1 i).filter (·.mid ∉ F) = Cells.slice squeezed.1 1 i := by
      rw [List.filter_eq_self.2 fun e he => ?_]
      · refine Cells.slice_congr fun k hk hki => ?_
        rw [hsame k (by omega), hdl', if_neg (by omega)]
      · obtain ⟨k, hk, hki, rfl⟩ := Cells.mem_slice.1 he
        refine decide_eq_true fun hmem => ?_
        have := (mid_mem_flushed hdl ⟨by omega, by omega⟩).1 hmem
        omega
    rw [hlist, Id2l.entries_setCount, slice_one_split _ hij, hslice,
      map_filter_marked hdl hdl', entries, slice_one_split _ hi, List.filter_append, hfirst]
  refine ⟨hentries, fun e he hmem => ?_, fun p hp => ?_, ?_⟩
  · obtain ⟨k, hk, hkn, rfl⟩ := Cells.mem_slice.1 he
    obtain ⟨hik, hnot⟩ := (mid_mem_flushed hdl ⟨by omega, by omega⟩).1 hmem
    exact hmap k (by omega) (by omega) hnot
  · refine hframe p fun k hk hkn hnot heq => hp (mem_flushed.2 ?_)
    exact ⟨k, hk, show k ≤ count dl by omega, heq, hnot⟩
  · have hcard := length_filter_add_card (F := F) hdl.asc.nodup flushed_subset
    rw [← hentries, hlist, Id2l.entries_setCount, entries, Cells.length_slice,
      Cells.length_slice] at hcard
    have hroom : s'.txn.dirtyRoom = s.txn.dirtyRoom + (count dl - squeezed.2) := rfl
    omega

theorem dirty_filter {t t' : PageTxn D} (ht : Lists t) (ht' : Lists t') {F : Finset ℕ}
    (h : entries t'.dirtyList = (entries t.dirtyList).filter (·.mid ∉ F)) (p : ℕ) :
    t'.dirty p = if p ∈ F then none else t.dirty p := by
  ext pg
  rw [dirty_eq_some_iff ht', h, List.mem_filter, decide_eq_true_iff]
  by_cases hp : p ∈ F
  · simp [hp]
  · rw [if_neg hp, dirty_eq_some_iff ht, and_iff_left hp]

theorem spillOrder_of_falls {l : List (Id2 (Page D))} (hl : Falls l) :
    (shifted l).Pairwise SpillOrder :=
  List.pairwise_map.2 (hl.imp fun h => .inl (by omega))

/-- Two spill lists that share no pages, sorted into one. -/
theorem spillOrder_of_perm {l a b : List ℕ} (ha : a.Pairwise SpillOrder)
    (hb : b.Pairwise SpillOrder) (hab : ∀ p, 2 * p ∈ a → 2 * p ∉ b) (hl : l.Perm (a ++ b))
    (hsorted : l.Pairwise (· ≥ ·)) : l.Pairwise SpillOrder := by
  have hodd : ∀ {x y : ℕ}, SpillOrder x y → (x = y → x % 2 = 1) := fun h heq => by
    rw [SpillOrder] at h
    omega
  have hpair : (a ++ b).Pairwise fun x y => x = y → x % 2 = 1 := by
    refine List.pairwise_append.2 ⟨ha.imp hodd, hb.imp hodd, ?_⟩
    rintro x hx y hy rfl
    by_contra heven
    rw [show x = 2 * (x / 2) by omega] at hx hy
    exact hab _ hx hy
  have hpair' := (hl.pairwise_iff fun {x y} h heq => by rw [heq]; exact h heq.symm).2 hpair
  refine (hsorted.and hpair').imp fun {x y} h => ?_
  rw [SpillOrder]
  obtain ⟨hge, hodd⟩ := h
  omega

/-- The pages of `F` have been spilled. -/
structure Spilled (s s' : PageTxns D) (F : Finset ℕ) : Prop where
  lists : Lists s'.txn
  dirty : ∀ p, s'.txn.dirty p = if p ∈ F then none else s.txn.dirty p
  spillSet : s'.txn.spillSet = s.txn.spillSet ∪ F
  mapped : ∀ p ∈ F, ∃ pg, s.txn.dirty p = some pg ∧ pg.loose = false ∧
    s'.map p = { pg with dirty := false }
  frame : ∀ p, p ∉ F → s'.map p = s.map p
  dirtyRoom : s'.txn.dirtyRoom = s.txn.dirtyRoom + F.card
  once : ∀ p ∈ F, ∀ t ∈ s.parents, p ∉ t.spillSet
  parents : s'.parents = s.parents
  maxpg : s'.maxpg = s.maxpg
  metaNextPgno : s'.metaNextPgno = s.metaNextPgno
  nextPgno : s'.txn.nextPgno = s.txn.nextPgno
  loosePgs : s'.txn.loosePgs = s.txn.loosePgs
  spills : s'.txn.spills = true

/-- Sorting the numbers saved, and flushing their pages. -/
theorem spilled_of_saveIds {s : PageTxns D} (ht : Lists s.txn) (hdl : Numbered s.txn.dirtyList)
    (hparents : ∀ t ∈ s.parents, Lists t) (hdisj : ∀ p ∈ s.txn.spillSet, s.txn.dirty p = none)
    (hfits : sl.Fits) (hlong : sl.count < 2 ^ 29) (hord : sl.ids.Pairwise SpillOrder)
    (hmem : ∀ p, 2 * p ∈ sl.ids ↔ p ∈ s.txn.spillSet) {saved : Saved}
    (hsaved : saved = saveIds s.parents s.txn.dirtyList mem (count s.txn.dirtyList) need sl keep)
    (hrc : saved.rc = 0) :
    ∃ sl', saved.sl.mdbMidlSort (2 * saved.sl.count + 2) = some sl' ∧
      let s₁ := { s with txn := { s.txn with spillPgs := some sl' } }.pageFlush saved.i saved.keep
      Spilled s { s₁ with txn := { s₁.txn with spills := true } }
        (flushed s.txn.dirtyList saved.i saved.keep) := by
  obtain ⟨l, hl⟩ := saveIds_spec hdl le_rfl hfits (hsaved ▸ hrc)
  rw [← hsaved] at hl
  set F := flushed s.txn.dirtyList saved.i saved.keep with hFdef
  have hF : ∀ p, p ∈ F ↔ p ∈ mids l := fun p => by
    rw [hFdef, mem_flushed, mem_mids]
    constructor
    · rintro ⟨k, hk, hkn, rfl, hnot⟩
      exact ⟨_, (hl.mem _).2 ⟨k, hk, hkn, rfl, hnot⟩, rfl⟩
    · rintro ⟨e, he, rfl⟩
      obtain ⟨k, hk, hkn, rfl, hnot⟩ := (hl.mem e).1 he
      exact ⟨k, hk, hkn, rfl, hnot⟩
  have hentry : ∀ p ∈ F, ∃ pg, s.txn.dirty p = some pg ∧ ¬Kept saved.keep pg := fun p hp => by
    obtain ⟨k, hk, hkn, rfl, hnot⟩ := mem_flushed.1 hp
    exact ⟨_, (dirty_eq_some_iff ht).2 (Cells.mem_slice.2 ⟨k, by omega, by omega, rfl⟩), hnot⟩
  have hshifted : ∀ p, 2 * p ∈ shifted l ↔ p ∈ F := fun p => by
    rw [hF, mem_mids, shifted, List.mem_map]
    simp
  -- the numbers saved are new
  have hnew : ∀ p, 2 * p ∈ sl.ids → 2 * p ∉ shifted l := fun p hp hpl => by
    obtain ⟨pg, hpg, -⟩ := hentry p ((hshifted p).1 hpl)
    rw [hdisj p ((hmem p).1 hp)] at hpg
    simp at hpg
  have hcount : saved.sl.count ≤ 2 ^ 30 := by
    have hlen : saved.sl.count = sl.count + l.length := by
      rw [← Midl.length_ids, hl.ids, List.length_append, Midl.length_ids, shifted, List.length_map]
    have hle : l.length ≤ count s.txn.dirtyList := by
      calc l.length
        _ = (mids l).card := (card_mids hl.falls.nodup).symm
        _ ≤ (mids (entries s.txn.dirtyList)).card :=
          Finset.card_le_card fun p hp => flushed_subset ((hF p).2 hp)
        _ = count s.txn.dirtyList := (card_mids hdl.asc.nodup).trans (Cells.length_slice _ _ _)
    have := hdl.asc.le
    rw [idlUmMax] at this
    omega
  obtain ⟨sl', hsort, halloc, hperm, hsorted, hcells⟩ :=
    Midl.mdbMidlSort_spec saved.sl (2 * saved.sl.count + 2) hcount (by omega)
  rw [hl.ids] at hperm
  have hcount' : sl'.count = saved.sl.count := hcells 0 (.inl rfl)
  refine ⟨sl', hsort, ?_⟩
  intro s₁
  obtain ⟨hentries, hmap, hframe, hroom⟩ :=
    pageFlush_spec (s := { s with txn := { s.txn with spillPgs := some sl' } }) hdl hl.le saved.keep
  have hlists : Lists { s₁.txn with spills := true } :=
    ⟨Ascends.filter_entries hdl.asc hentries, fun sl'' hsl'' => by
      obtain rfl := Option.some.inj hsl''
      exact ⟨spillOrder_of_perm hord (spillOrder_of_falls hl.falls) hnew hperm hsorted,
        by rw [hcount']; omega⟩, fun sl'' hsl'' => by
      obtain rfl := Option.some.inj hsl''
      exact hcount'.trans_le (hl.fits.trans_eq halloc.symm)⟩
  refine ⟨hlists, dirty_filter ht hlists hentries, ?_, fun p hp => ?_, hframe, hroom,
    fun p hp t' ht' => ?_, rfl, rfl, rfl, rfl, rfl, rfl⟩
  · ext p
    rw [mem_spillSet, Finset.mem_union, ← hmem, ← hshifted, ← List.mem_append]
    constructor
    · rintro ⟨sl'', hsl'', hp⟩
      obtain rfl := Option.some.inj hsl''
      exact hperm.mem_iff.1 hp
    · exact fun hp => ⟨sl', rfl, hperm.mem_iff.2 hp⟩
  · obtain ⟨pg, hpg, hnot⟩ := hentry p hp
    exact ⟨pg, hpg, Bool.eq_false_iff.2 fun h => hnot (.inl h),
      hmap ⟨p, pg⟩ ((dirty_eq_some_iff ht).1 hpg) hp⟩
  · obtain ⟨e, he, rfl⟩ := mem_mids.1 ((hF p).1 hp)
    rw [← isSome_spillAt (hparents t' ht'), hl.once e he t' ht']
    simp

/-- What spilling ends with. -/
theorem pageSpill_spec {s : PageTxns D} (ht : Lists s.txn) (hdl : Numbered s.txn.dirtyList)
    (hparents : ∀ t ∈ s.parents, Lists t) (hdisj : ∀ p ∈ s.txn.spillSet, s.txn.dirty p = none)
    (hlong : ∀ sl ∈ s.txn.spillPgs, sl.count < 2 ^ 29) (need : ℕ) (keep : ℕ → Bool)
    (mem : Bool × Bool) :
    ∃ rc s', s.pageSpill need keep mem = some (rc, s') ∧
      (s' = s ∨ (∃ txn, s' = { s with txn } ∧ txn.error = true) ∨ ∃ F, Spilled s s' F) := by
  rw [pageSpill]
  by_cases hroom : s.txn.dirtyRoom > need
  · exact ⟨0, s, if_pos hroom, .inl rfl⟩
  rw [if_neg hroom]
  -- the list to add to, with the entries marked as deleted purged
  have hstart : ∀ sl, spillList s.txn mem.1 = some sl →
      sl.Fits ∧ sl.count < 2 ^ 29 ∧ sl.ids.Pairwise SpillOrder ∧
        ∀ p, 2 * p ∈ sl.ids ↔ p ∈ s.txn.spillSet := fun sl hsl => by
    rw [spillList] at hsl
    cases hsp : s.txn.spillPgs with
    | none =>
      rw [hsp] at hsl
      simp only [Option.ite_none_right_eq_some, Option.some.injEq] at hsl
      obtain ⟨-, rfl⟩ := hsl
      refine ⟨Nat.zero_le _, by decide, List.Pairwise.nil, fun p => ?_⟩
      rw [mem_spillSet, hsp]
      exact iff_of_false List.not_mem_nil (by simp)
    | some sl₀ =>
      rw [hsp] at hsl
      obtain rfl := Option.some.inj hsl
      obtain ⟨hids, hle, halloc⟩ := purge_spec sl₀
      have hfits := ht.fits sl₀ hsp
      refine ⟨?_, hle.trans_lt (hlong sl₀ hsp), hids ▸ (ht.spill sl₀ hsp).1.filter _, fun p => ?_⟩
      · exact hle.trans (hfits.trans_eq halloc.symm)
      · rw [mem_spillSet, hsp, hids, List.mem_filter]
        simp
  dsimp only
  split
  · exact ⟨enomem, s, rfl, .inl rfl⟩
  · rename_i sl hsl
    obtain ⟨hfits, hlong', hord, hmem⟩ := hstart sl hsl
    generalize hsaved : saveIds s.parents s.txn.dirtyList mem.2 (count s.txn.dirtyList)
      (if need < idlUmMax / 8 then idlUmMax / 8 else need) sl keep = saved
    by_cases hrc : saved.rc = 0
    · obtain ⟨sl', hsort, hspilled⟩ :=
        spilled_of_saveIds ht hdl hparents hdisj hfits hlong' hord hmem hsaved.symm hrc
      rw [if_neg (not_not.2 hrc), hsort]
      exact ⟨0, _, rfl, .inr (.inr ⟨_, hspilled⟩)⟩
    · rw [if_pos hrc]
      exact ⟨saved.rc, _, rfl, .inr (.inl ⟨_, rfl, rfl⟩)⟩

/-! ## Merging -/

section Merge

variable {t parent : PageTxn D} {free : Midl}

/-- A spill list is in order, and of the pages of a set. -/
def Spills (ps : Option Midl) (S : ℕ → Prop) : Prop :=
  (∀ sl ∈ ps, sl.Fits ∧ sl.count < 2 ^ 29 ∧ sl.ids.Pairwise SpillOrder) ∧
    ∀ p, (∃ sl ∈ ps, 2 * p ∈ sl.ids) ↔ S p

/-- The spill list of the parent, without the dirty pages. -/
theorem parentSpill_spec (ht : Lists t) (hparent : Lists parent)
    (hmax : ∀ p pg, t.dirty p = some pg → 2 * p < idMax)
    (hlong : ∀ sl ∈ parent.spillPgs, sl.count < 2 ^ 29) :
    ∃ ps, parentSpill t parent = some ps ∧
      Spills ps fun p => p ∈ parent.spillSet ∧ t.dirty p = none := by
  rw [parentSpill]
  cases hsp : parent.spillPgs with
  | none =>
    refine ⟨none, rfl, fun sl hsl => by simp at hsl, fun p => ?_⟩
    simp [mem_spillSet, hsp]
  | some sl =>
    obtain ⟨hord, -⟩ := hparent.spill sl hsp
    have hmem : ∀ p, p ∈ parent.spillSet ↔ 2 * p ∈ sl.ids := fun p => by
      rw [mem_spillSet, hsp]
      simp
    by_cases hcount : sl.count = 0
    · have hnil : sl.ids = [] := List.length_eq_zero_iff.1 (sl.length_ids.trans hcount)
      refine ⟨some sl, if_neg (not_not.2 hcount), fun sl' hsl' => ?_, fun p => ?_⟩
      · obtain rfl := Option.some.inj hsl'
        exact ⟨hparent.fits sl hsp, hlong sl hsp, hord⟩
      · simp [hmem, hnil]
    · obtain ⟨sl', hclean, hsub, hle, halloc, hids⟩ := cleanSpill_spec hord ht.asc fun e he =>
        hmax e.mid e.mptr ((dirty_eq_some_iff ht).2 he)
      refine ⟨some sl', ?_, fun sl'' hsl'' => ?_, fun p => ?_⟩
      · dsimp only
        rw [if_pos hcount, hclean]
        rfl
      · obtain rfl := Option.some.inj hsl''
        exact ⟨hle.trans ((hparent.fits sl hsp).trans_eq halloc.symm),
          hle.trans_lt (hlong sl hsp), hord.sublist hsub⟩
      · simp only [Option.mem_def, Option.some.injEq, exists_eq_left', hids, hmem]
        refine and_congr_right fun _ => ?_
        rw [← Option.not_isSome_iff_eq_none, ← mem_mids_iff ht, mem_mids]
        simp

/-- The dirty list of the parent, without the spilled pages. -/
theorem parentDirty_spec (hparent : Lists parent) (t : PageTxn D) :
    Id2l.Ascends (parentDirty t parent) ∧
      entries (parentDirty t parent) =
        (entries parent.dirtyList).filter (·.mid ∉ t.spillSet) := by
  rw [parentDirty]
  cases hsp : t.spillPgs with
  | none =>
    have hempty : t.spillSet = ∅ := by rw [spillSet, hsp]
    rw [hempty]
    exact ⟨hparent.asc, (List.filter_eq_self.2 fun e _ => by simp).symm⟩
  | some sl =>
    obtain ⟨hentries, hasc⟩ := dropSpilled_spec sl.cells sl.count 1 hparent.asc
    refine ⟨hasc, hentries.trans (List.filter_congr fun e _ => decide_eq_decide.2 ?_)⟩
    rw [mem_spillSet, hsp]
    simp [Midl.ids]

/-- The spill list of the parent, with the spilled pages. -/
theorem appendSpill_spec (ht : Lists t) (hlong : ∀ sl ∈ t.spillPgs, sl.count < 2 ^ 29)
    {ps : Option Midl} {S : ℕ → Prop} (hps : Spills ps S) (hnew : ∀ p, S p → p ∉ t.spillSet)
    (mem : Bool) :
    ∃ rc ps', appendSpill t ps mem = some (rc, ps') ∧
      (rc = 0 → (∀ sl ∈ ps', sl.ids.Pairwise SpillOrder ∧ sl.count < 2 ^ 32) ∧
        (∀ sl ∈ ps', sl.Fits) ∧
        ∀ p, (∃ sl ∈ ps', 2 * p ∈ sl.ids) ↔ S p ∨ p ∈ t.spillSet) := by
  obtain ⟨hps, hmem⟩ := hps
  unfold appendSpill
  cases hsp : t.spillPgs with
  | none =>
    refine ⟨0, ps, rfl, fun _ => ⟨fun sl hsl => ?_, fun sl hsl => (hps sl hsl).1, fun p => ?_⟩⟩
    · obtain ⟨-, hlt, hord⟩ := hps sl hsl
      exact ⟨hord, by omega⟩
    · rw [hmem]
      simp [mem_spillSet, hsp]
  | some sl =>
    have hmemt : ∀ p, p ∈ t.spillSet ↔ 2 * p ∈ sl.ids := fun p => by simp [mem_spillSet, hsp]
    cases ps with
    | none =>
      refine ⟨0, some sl, rfl, fun _ => ⟨fun sl' hsl' => ht.spill sl' (hsp.trans hsl'),
        fun sl' hsl' => ht.fits sl' (hsp.trans hsl'), fun p => ?_⟩⟩
      have hnot : ¬S p := by simp [← hmem]
      simp [hmemt, hnot]
    | some psl =>
      obtain ⟨hfits, hlt, hord⟩ := hps psl rfl
      have hmemS : ∀ p, S p ↔ 2 * p ∈ psl.ids := fun p => by simp [← hmem]
      cases happend : psl.mdbMidlAppendList sl mem with
      | none =>
        obtain ⟨sl', hsort, -⟩ := Midl.mdbMidlSort_spec psl (2 * psl.count + 2)
          (by omega) (by omega)
        refine ⟨enomem, some sl', ?_, fun hrc => absurd hrc (by decide)⟩
        simp only [happend, hsort]
        rfl
      | some sl₁ =>
        have hgrown := Midl.grown_appendList hfits ((hlong sl hsp).trans (by decide)) happend
        have hcount : sl₁.count = psl.count + sl.count := by
          rw [← Midl.length_ids, hgrown.ids, List.length_append, Midl.length_ids, Midl.length_ids]
        have hlt' := hlong sl hsp
        obtain ⟨sl', hsort, halloc, hperm, hsorted, hcells⟩ :=
          Midl.mdbMidlSort_spec sl₁ (2 * sl₁.count + 2) (by omega) (by omega)
        rw [hgrown.ids] at hperm
        have hcount' : sl'.count = sl₁.count := hcells 0 (.inl rfl)
        refine ⟨0, some sl', ?_, fun _ => ⟨fun sl'' hsl'' => ?_, fun sl'' hsl'' => ?_, fun p => ?_⟩⟩
        · simp only [happend, hsort]
          rfl
        · obtain rfl := Option.some.inj hsl''
          refine ⟨spillOrder_of_perm hord (ht.spill sl hsp).1 (fun p hp hp' => ?_) hperm hsorted,
            by omega⟩
          exact hnew p ((hmemS p).2 hp) ((hmemt p).2 hp')
        · obtain rfl := Option.some.inj hsl''
          exact hcount'.trans_le (hgrown.fits.trans_eq halloc.symm)
        · simp [hmemt, hmemS, hperm.mem_iff]

/-- The numbers of the pages dirty after the merge. -/
def mergedPages (t parent : PageTxn D) : Finset ℕ :=
  mids (entries parent.dirtyList) \ t.spillSet ∪ mids (entries t.dirtyList)

/-- What merging does: the parent has the pages as the nested transaction has them. -/
structure Merged (t parent t' : PageTxn D) : Prop where
  lists : Lists t'
  dirty : ∀ p, t'.dirty p =
    ((t.dirty p) <|> if p ∈ t.spillSet then none else parent.dirty p)
  spillSet : ∀ p, p ∈ t'.spillSet ↔
    (p ∈ parent.spillSet ∧ t.dirty p = none) ∨ p ∈ t.spillSet
  nextPgno : t'.nextPgno = t.nextPgno
  spills : t'.spills = t.spills
  dirtyRoom : t'.dirtyRoom = t.dirtyRoom
  loosePgs : t'.loosePgs = parent.loosePgs ++ t.loosePgs

theorem mergeInto_spec (outermost : Bool) (ht : Lists t) (hparent : Lists parent)
    (hrange : ∀ p pg, t.dirty p = some pg → 0 < p ∧ 2 * p < idMax)
    (hlong : ∀ sl ∈ t.spillPgs, sl.count < 2 ^ 29)
    (hlong' : ∀ sl ∈ parent.spillPgs, sl.count < 2 ^ 29)
    (honce : ∀ p ∈ t.spillSet, p ∉ parent.spillSet)
    (hlen : outermost = true → idlUmMax - t.dirtyRoom = (mergedPages t parent).card)
    (hcard : (mergedPages t parent).card ≤ idlUmMax) (free : Midl) (mem : Bool) :
    ∃ rc t', mergeInto t parent outermost free mem = some (rc, t') ∧
      (rc ≠ 0 ∧ t'.error = true ∨ rc = 0 ∧ Merged t parent t') := by
  obtain ⟨ps, hps, hspills⟩ :=
    parentSpill_spec ht hparent (fun p pg h => (hrange p pg h).2) hlong'
  obtain ⟨hasc, hentries⟩ := parentDirty_spec hparent t
  have hmids : mids (entries (parentDirty t parent)) =
      mids (entries parent.dirtyList) \ t.spillSet := by
    ext p
    rw [hentries, Finset.mem_sdiff, mem_mids, mem_mids]
    constructor
    · rintro ⟨e, he, rfl⟩
      obtain ⟨hmem, hnot⟩ := List.mem_filter.1 he
      exact ⟨⟨e, hmem, rfl⟩, of_decide_eq_true hnot⟩
    · rintro ⟨⟨e, he, rfl⟩, hnot⟩
      exact ⟨e, List.mem_filter.2 ⟨he, decide_eq_true hnot⟩, rfl⟩
  obtain ⟨dl, hmerge, hdl, hdlmem⟩ := mergeDirty_spec
    (if outermost then some (idlUmMax - t.dirtyRoom) else none) hasc ht.asc
    (fun e he => (hrange e.mid e.mptr ((dirty_eq_some_iff ht).2 he)).1)
    (fun l hl => by
      obtain ⟨houter, hl⟩ := Option.ite_none_right_eq_some.1 hl
      rw [hmids, ← Option.some.inj hl]
      exact hlen houter)
    (by rw [hmids]; exact hcard)
  obtain ⟨rc, ps', happend, hres⟩ :=
    appendSpill_spec ht hlong hspills (fun p hp hpt => honce p hpt hp.1) mem
  have hmergeInto : mergeInto t parent outermost free mem = some (rc, { t with
      freePgs := free
      dirtyList := dl
      spillPgs := ps'
      error := rc ≠ 0
      loosePgs := parent.loosePgs ++ t.loosePgs
      looseCount := parent.looseCount + t.looseCount }) := by
    rw [mergeInto, hps]
    simp only [Option.bind_eq_bind, Option.bind_some, hmerge, happend]
    rfl
  refine ⟨rc, _, hmergeInto, ?_⟩
  by_cases hrc : rc = 0
  · obtain ⟨hspill, hfits, hmem⟩ := hres hrc
    refine .inr ⟨hrc, ⟨hdl, hspill, hfits⟩, fun p => ?_, fun p => mem_spillSet.trans (hmem p),
      rfl, rfl, rfl, rfl⟩
    ext pg
    rw [dirty_eq_some_iff ⟨hdl, hspill, hfits⟩, hdlmem, ← dirty_eq_some_iff ht, hentries,
      List.mem_filter, ← dirty_eq_some_iff hparent, decide_eq_true_iff]
    have hnone : (∀ b ∈ entries t.dirtyList, b.mid ≠ p) ↔ t.dirty p = none := by
      rw [← Option.not_isSome_iff_eq_none, ← mem_mids_iff ht, mem_mids]
      simp
    rw [hnone]
    cases t.dirty p with
    | some pg' => simp
    | none =>
      by_cases hp : p ∈ t.spillSet
      · simp [hp]
      · simp [hp]
  · exact .inl ⟨hrc, decide_eq_true hrc⟩

end Merge

end PageTxns

end KotlinLmdb
