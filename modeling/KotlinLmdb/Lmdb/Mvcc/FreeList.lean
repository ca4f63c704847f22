import KotlinLmdb.Lmdb.Mvcc

/-!
# No page is lost, and none used twice

Of the pages of a file, each is used by the last transaction, or it is in the free list once
(`Snap.Valid`). A write transaction keeps track of them (`Writer.Valid`): those it has are
used, those that may be used again are in `me_pghead`, in the records of the free list it has not
read yet, among the loose ones, or those it has freed itself. Allocating and freeing only move pages
between these, also while the free list is being saved (`Save.Valid`).
-/

namespace KotlinLmdb

variable {D : Type}

open Mvcc (findRange nextRecord xmerge)

/-- The pages in the free list. -/
def Snap.freePages (snap : Snap D) : List ℕ := snap.free.flatMap Prod.snd

/-- What a transaction `k` has committed is in order. -/
structure Snap.Valid (snap : Snap D) (k : ℕ) : Prop where
  two_le : 2 ≤ snap.nextPgno
  ids : (snap.free.map Prod.fst).Pairwise (· < ·)
  id_range : ∀ r ∈ snap.free, 0 < r.1 ∧ r.1 ≤ k
  sorted : ∀ r ∈ snap.free, r.2.Pairwise (· > ·)
  nodup : snap.freePages.Nodup
  range : ∀ p ∈ snap.freePages, 2 ≤ p ∧ p < snap.nextPgno
  unused : ∀ p ∈ snap.freePages, snap.pages p = none
  used_range : ∀ p, (snap.pages p).isSome → 2 ≤ p ∧ p < snap.nextPgno
  cover : ∀ p, 2 ≤ p → p < snap.nextPgno → (snap.pages p).isSome ∨ p ∈ snap.freePages

namespace Writer

/-- The pages that may be used again. -/
def pool (w : Writer D) : List ℕ := w.pghead.getD []

/-- The pages in the records of the free list that have not been read. -/
def unread (w : Writer D) : List ℕ := (w.snap.free.filter (w.pglast < ·.1)).flatMap Prod.snd

/-- The pages that are not used. -/
def unused (w : Writer D) : List ℕ := w.pool ++ w.unread ++ w.freePgs ++ w.loosePgs

end Writer

namespace Save

/-- The variables agree with what has been reserved, when all records used are deleted. -/
structure Rooms (v : Save) : Prop where
  total : v.totalRoom = (v.reserved.map Prod.snd).sum
  rest : v.totalRoom - v.headRoom = ((v.reserved.filter (v.headId < ·.1)).map Prod.snd).sum
  least : ∀ r ∈ v.reserved, v.headId ≤ r.1
  head_le : v.headId ≤ v.deleted
  head_pos : 0 < v.deleted → 0 < v.headId

/-- What has been saved so far is in order: the pages freed until it was put are in the record of
    the transaction, and there are only such records for `me_pghead` as have been deleted before. -/
structure Valid (v : Save) (w : Writer D) : Prop where
  loose : w.pghead = none → w.loosePgs = []
  freecnt : v.freecnt ≤ w.freePgs.length
  own : v.filling = false → v.own.getD [] = w.freePgs.take v.freecnt
  sorted : (v.own.getD []).Pairwise (· ≥ ·)
  ids : (v.reserved.map Prod.fst).Pairwise (· < ·)
  id_range : ∀ r ∈ v.reserved, 0 < r.1 ∧ r.1 ≤ v.deleted
  behind : v.pglast ≠ w.pglast → v.pglast < w.pglast ∧ v.deleted < w.pglast
  rooms : v.pglast = w.pglast → v.deleted = w.pglast ∧ v.Rooms

theorem Valid.le {v : Save} {w : Writer D} (h : v.Valid w) :
    v.pglast ≤ w.pglast ∧ v.deleted ≤ w.pglast := by
  by_cases heq : v.pglast = w.pglast
  · exact ⟨heq.le, (h.rooms heq).1.le⟩
  · exact ⟨(h.behind heq).1.le, (h.behind heq).2.le⟩

end Save

namespace Writer

/-- What a transaction knows of the pages is in order. -/
structure Valid (w : Writer D) : Prop where
  snap : w.snap.Valid (w.txnid - 1)
  txnid : 0 < w.txnid
  pglast : w.pglast < w.txnid
  pglast_mem : w.pglast = 0 ∨ ∃ r ∈ w.snap.free, r.1 = w.pglast
  pglast_pos : w.pghead ≠ none → 0 < w.pglast
  next : w.snap.nextPgno ≤ w.nextPgno
  sorted : w.pool.Pairwise (· > ·)
  nodup : w.unused.Nodup
  range : ∀ p ∈ w.unused, 2 ≤ p ∧ p < w.nextPgno
  gone : ∀ p ∈ w.unused, w.pages p = none
  used_range : ∀ p, (w.pages p).isSome → 2 ≤ p ∧ p < w.nextPgno
  cover : ∀ p, 2 ≤ p → p < w.nextPgno → (w.pages p).isSome ∨ p ∈ w.unused
  own : ∀ p ∈ w.own, (2 ≤ p ∧ p < w.nextPgno) ∧ p ∉ w.pool ∧ p ∉ w.unread
  loose : ∀ p ∈ w.loosePgs, p ∈ w.own
  old : ∀ p c, p ∉ w.own → w.pages p = some c → w.snap.pages p = some c
  saving : ∀ v ∈ w.saving, v.Valid w

/-- A transaction goes on with its work, and does not get in the way of the free list being
    saved: it frees more pages, and makes none loose. -/
structure Follows (w w' : Writer D) : Prop where
  snap : w'.snap = w.snap
  txnid : w'.txnid = w.txnid
  pglast : w'.pglast = w.pglast
  pghead : w'.pghead = none ↔ w.pghead = none
  saving : w'.saving = w.saving
  freePgs : w.freePgs <+: w'.freePgs
  loosePgs : w.saving ≠ none → w'.loosePgs.Sublist w.loosePgs

end Writer

/-- Reading records and freeing pages does not get in the way of the free list being saved. -/
theorem Save.Valid.mono {v : Save} {w w' : Writer D} (h : v.Valid w)
    (hpghead : w'.pghead = none → w.pghead = none) (hloose : w'.loosePgs.Sublist w.loosePgs)
    (hfree : w.freePgs <+: w'.freePgs) (hpglast : w.pglast ≤ w'.pglast) : v.Valid w' := by
  have hle := h.le
  refine { h with loose := fun hnone => ?_, freecnt := h.freecnt.trans hfree.length_le,
                  own := fun hfilling => ?_, behind := fun hne => ?_, rooms := fun heq => ?_ }
  · have hnil := h.loose (hpghead hnone)
    rw [hnil] at hloose
    exact List.sublist_nil.1 hloose
  · rw [h.own hfilling]
    obtain ⟨pgs, hpgs⟩ := hfree
    rw [← hpgs, List.take_append_of_le_length h.freecnt]
  · by_cases heq : v.pglast = w.pglast
    · omega
    · have := h.behind heq
      omega
  · have hsame : w'.pglast = w.pglast := by omega
    rw [hsame] at heq ⊢
    exact h.rooms heq

/-! ## Looking for a range -/

section Range

variable {mop : List ℕ} {n2 n i : ℕ}

theorem findRange_spec (h : findRange mop n2 n = some i) :
    n2 < i ∧ i ≤ n ∧ mop[i - 1 - n2]? = mop[i - 1]?.map (· + n2) := by
  induction n with
  | zero => simp [findRange] at h
  | succ n ih =>
    rw [findRange] at h
    split at h
    · split at h
      · rename_i hlt heq
        obtain rfl := Option.some.inj h
        exact ⟨hlt, le_rfl, heq⟩
      · obtain ⟨hlt, hle, heq⟩ := ih h
        exact ⟨hlt, by omega, heq⟩
    · simp at h

theorem add_le_of_sorted {x a : ℕ} {l : List ℕ} (hl : (x :: l).Pairwise (· > ·))
    (hlast : (x :: l)[n]? = some a) : a + n ≤ x := by
  induction n generalizing x l with
  | zero =>
    obtain rfl : x = a := by simpa using hlast
    exact le_rfl
  | succ n ih =>
    cases l with
    | nil => simp at hlast
    | cons y l =>
      obtain ⟨hx, hl⟩ := List.pairwise_cons.1 hl
      have hle := ih hl (by simpa using hlast)
      have hlt := hx y List.mem_cons_self
      omega

/-- A list in descending order that spans a range has all of it. -/
theorem eq_range_of_sorted {x a : ℕ} {l : List ℕ} (hl : (x :: l).Pairwise (· > ·))
    (hlen : l.length = n) (hlast : (x :: l)[n]? = some a) (hfirst : x = a + n) :
    x :: l = (List.range' a (n + 1)).reverse := by
  induction n generalizing x l with
  | zero =>
    obtain rfl := List.length_eq_zero_iff.1 hlen
    rw [hfirst]
    rfl
  | succ n ih =>
    cases l with
    | nil => simp at hlen
    | cons y l =>
      obtain ⟨hx, hl⟩ := List.pairwise_cons.1 hl
      have hlast : (y :: l)[n]? = some a := by simpa using hlast
      have hlt := hx y List.mem_cons_self
      have hle := add_le_of_sorted hl hlast
      have hconcat : List.range' a (n + 1 + 1) = List.range' a (n + 1) ++ [a + (n + 1)] := by
        rw [List.range'_concat, Nat.one_mul]
      rw [ih hl (by simpa using hlen) hlast (by omega), hfirst, hconcat, List.reverse_append]
      rfl

/-- The list without the range that has been found. -/
theorem perm_of_findRange (hmop : mop.Pairwise (· > ·)) {num : ℕ} (hnum : 0 < num)
    (h : findRange mop (num - 1) mop.length = some i) :
    mop.Perm ((mop.take (i - num) ++ mop.drop i) ++
      List.range' (mop.getD (i - 1) 0) num) := by
  obtain ⟨hlt, hle, heq⟩ := findRange_spec h
  have hsplit : mop = mop.take (i - num) ++ ((mop.drop (i - num)).take num ++ mop.drop i) := by
    conv_lhs => rw [← List.take_append_drop (i - num) mop,
      ← List.take_append_drop num (mop.drop (i - num)), List.drop_drop,
      show i - num + num = i by omega]
  have hlen : ((mop.drop (i - num)).take num).length = num := by
    rw [List.length_take, List.length_drop]
    omega
  have hget : ∀ k, k < num → ((mop.drop (i - num)).take num)[k]? = mop[i - num + k]? :=
    fun k hk => by rw [List.getElem?_take_of_lt hk, List.getElem?_drop]
  have hpair : ((mop.drop (i - num)).take num).Pairwise (· > ·) :=
    (hmop.sublist (List.drop_sublist _ _)).sublist (List.take_sublist _ _)
  have hmid : (mop.drop (i - num)).take num = (List.range' (mop.getD (i - 1) 0) num).reverse := by
    generalize (mop.drop (i - num)).take num = l at hlen hget hpair
    cases l with
    | nil =>
      simp only [List.length_nil] at hlen
      omega
    | cons x l =>
      have hlast := hget (num - 1) (by omega)
      have hfirst := hget 0 hnum
      have hi : mop[i - 1]? = some (mop.getD (i - 1) 0) := by
        rw [List.getD_eq_getElem?_getD, List.getElem?_eq_getElem (by omega)]
        rfl
      rw [show i - num + (num - 1) = i - 1 by omega, hi] at hlast
      rw [show i - num + 0 = i - 1 - (num - 1) by omega, heq, hi] at hfirst
      have hx : x = mop.getD (i - 1) 0 + (num - 1) := by simpa using hfirst
      have hrange := eq_range_of_sorted hpair (n := num - 1)
        (by simp only [List.length_cons] at hlen; omega) hlast hx
      rwa [show num - 1 + 1 = num by omega] at hrange
  conv_lhs => rw [hsplit, hmid]
  rw [List.append_assoc]
  refine List.Perm.append_left _ ((List.perm_append_comm).trans ?_)
  exact List.Perm.append_left _ (List.reverse_perm _)

end Range

/-! ## Sorted lists -/

theorem pairwise_gt_of_ge {l : List ℕ} (hl : l.Pairwise (· ≥ ·)) (hnodup : l.Nodup) :
    l.Pairwise (· > ·) :=
  (hl.and hnodup).imp fun h => lt_of_le_of_ne h.1 h.2.symm

theorem pairwise_ge_of_gt {l : List ℕ} (hl : l.Pairwise (· > ·)) : l.Pairwise (· ≥ ·) :=
  hl.imp fun h => le_of_lt h

theorem xmerge_perm (mop idl : List ℕ) : (xmerge mop idl).Perm (mop ++ idl) := by
  induction mop with
  | nil => exact List.Perm.refl _
  | cons id mop ih => exact (List.perm_orderedInsert _ _ _).trans (ih.cons id)

theorem pairwise_xmerge (mop : List ℕ) {idl : List ℕ} (hidl : idl.Pairwise (· ≥ ·)) :
    (xmerge mop idl).Pairwise (· ≥ ·) := by
  induction mop with
  | nil => exact hidl
  | cons id mop ih => exact ih.orderedInsert _ _

/-- What is left to be read after a record has been. -/
theorem nextRecord_spec {free : List (ℕ × List ℕ)} (hids : (free.map Prod.fst).Pairwise (· < ·))
    {last : ℕ} {r : ℕ × List ℕ} (h : nextRecord free last = some r) :
    r ∈ free ∧ last < r.1 ∧ free.filter (last < ·.1) = r :: free.filter (r.1 < ·.1) := by
  rw [nextRecord] at h
  induction free with
  | nil => simp at h
  | cons a free ih =>
    obtain ⟨ha, hids⟩ := List.pairwise_cons.1 hids
    rw [List.find?_cons] at h
    split at h
    · rename_i hlt
      obtain rfl := Option.some.inj h
      have hlt : last < a.1 := of_decide_eq_true hlt
      refine ⟨List.mem_cons_self, hlt, ?_⟩
      rw [List.filter_cons_of_pos (by simpa using hlt), List.filter_cons_of_neg (by simp)]
      congr 1
      refine List.filter_congr fun b hb => decide_eq_decide.2 ?_
      have := ha b.1 (List.mem_map_of_mem hb)
      omega
    · rename_i hnot
      obtain ⟨hmem, hlt, hfilter⟩ := ih hids h
      have hnot : ¬last < a.1 := of_decide_eq_false hnot
      refine ⟨List.mem_cons_of_mem _ hmem, hlt, ?_⟩
      have hlt' := ha r.1 (List.mem_map_of_mem hmem)
      rw [List.filter_cons_of_neg (by simpa using hnot), hfilter,
        List.filter_cons_of_neg (by simpa using hlt'.le)]

/-! ## A write transaction -/

namespace Writer

variable {w w' : Writer D} {pgno num p : ℕ} {data : ℕ → D}

/-- A transaction that has just begun. -/
theorem valid_begin {snap : Snap D} {k : ℕ} (h : snap.Valid k) (pid : ℕ) :
    Valid ⟨pid, k + 1, snap, snap.nextPgno, none, 0, ∅, snap.pages, [], [], false, none⟩ := by
  have hunread : (snap.free.filter (0 < ·.1)).flatMap Prod.snd = snap.freePages := by
    rw [List.filter_eq_self.2 fun r hr => decide_eq_true (h.id_range r hr).1]
    rfl
  have hunused : unused ⟨pid, k + 1, snap, snap.nextPgno, none, 0, ∅, snap.pages, [], [], false,
      none⟩ = snap.freePages := by
    rw [unused, pool, unread]
    simpa using hunread
  exact ⟨h, Nat.succ_pos k, Nat.succ_pos k, .inl rfl, fun hne => absurd rfl hne, le_rfl,
    List.Pairwise.nil, hunused ▸ h.nodup, hunused ▸ h.range, hunused ▸ h.unused, h.used_range,
    hunused ▸ h.cover, fun p hp => absurd hp (Finset.notMem_empty p),
    fun p hp => absurd hp List.not_mem_nil, fun p c _ hp => hp, fun v hv => by simp at hv⟩

/-- What is known of the free list stays in order. -/
theorem Valid.follow (h : w.Valid) (hgo : w.Follows w') :
    (w'.snap.Valid (w'.txnid - 1) ∧ 0 < w'.txnid ∧ w'.pglast < w'.txnid) ∧
      (w'.pglast = 0 ∨ ∃ r ∈ w'.snap.free, r.1 = w'.pglast) ∧
      (w'.pghead ≠ none → 0 < w'.pglast) ∧ w'.unread = w.unread ∧
      ∀ v ∈ w'.saving, v.Valid w' := by
  rw [hgo.snap, hgo.txnid, hgo.pglast, ne_eq, hgo.pghead, hgo.saving, unread, unread, hgo.snap,
    hgo.pglast]
  refine ⟨⟨h.snap, h.txnid, h.pglast⟩, h.pglast_mem, h.pglast_pos, rfl, fun v hv => ?_⟩
  have hsome : w.saving ≠ none := fun hnone => by simp [hnone] at hv
  exact (h.saving v hv).mono hgo.pghead.1 (hgo.loosePgs hsome) hgo.freePgs hgo.pglast.ge

/-- Allocating pages, new ones or ones that were not used. -/
theorem Valid.give (h : w.Valid) (hgo : w.Follows w') (hown : w'.own = w.own)
    (hpages : w'.pages = w.pages) (hnext : w.nextPgno ≤ w'.nextPgno)
    (hpool : w'.pool.Sublist w.pool) (hloose : w'.loosePgs.Sublist w.loosePgs)
    (hperm : (w'.unused ++ List.range' pgno num).Perm
      (w.unused ++ List.range' w.nextPgno (w'.nextPgno - w.nextPgno))) :
    (Mvcc.give w' pgno num data).Valid := by
  obtain ⟨⟨hsnap, htxnid, hpglast⟩, hmem_free, hpos, hunread, hsaving⟩ := h.follow hgo
  have htwo := h.snap.two_le.trans h.next
  have hnew : ∀ p, p ∈ List.range' w.nextPgno (w'.nextPgno - w.nextPgno) ↔
      w.nextPgno ≤ p ∧ p < w'.nextPgno := fun p => by
    rw [List.mem_range'_1]
    omega
  have hgiven : ∀ p, p ∈ List.range' pgno num ↔ pgno ≤ p ∧ p < pgno + num := fun p =>
    List.mem_range'_1
  have hnodup : (w'.unused ++ List.range' pgno num).Nodup := by
    refine hperm.nodup_iff.2 (List.nodup_append.2 ⟨h.nodup, List.nodup_range', ?_⟩)
    rintro p hp q hq rfl
    have := (h.range p hp).2
    have := (hnew p).1 hq
    omega
  obtain ⟨hnodup', -, hdisj⟩ := List.nodup_append.1 hnodup
  have hmem : ∀ p, p ∈ w'.unused ∨ p ∈ List.range' pgno num ↔
      p ∈ w.unused ∨ w.nextPgno ≤ p ∧ p < w'.nextPgno := fun p => by
    rw [← hnew, ← List.mem_append, ← List.mem_append, hperm.mem_iff]
  have hrange : ∀ p, p ∈ w'.unused ∨ p ∈ List.range' pgno num → 2 ≤ p ∧ p < w'.nextPgno :=
    fun p hp => by
      rcases (hmem p).1 hp with hp | hp
      · obtain ⟨hle, hlt⟩ := h.range p hp
        exact ⟨hle, by omega⟩
      · exact ⟨by omega, hp.2⟩
  have hnone : ∀ p, p ∈ w'.unused ∨ p ∈ List.range' pgno num → w.pages p = none := fun p hp => by
    rcases (hmem p).1 hp with hp | hp
    · exact h.gone p hp
    · refine Option.not_isSome_iff_eq_none.1 fun hsome => ?_
      have := (h.used_range p hsome).2
      omega
  have hpages' : ∀ p, p ∉ List.range' pgno num → (Mvcc.give w' pgno num data).pages p = w.pages p :=
    fun p hp => (if_neg (mt (hgiven p).2 hp)).trans (congrFun hpages p)
  have hpagesSome : ∀ p, p ∈ List.range' pgno num →
      (Mvcc.give w' pgno num data).pages p = some (data p) := fun p hp => if_pos ((hgiven p).1 hp)
  have hown' : ∀ p, p ∈ (Mvcc.give w' pgno num data).own ↔ p ∈ w.own ∨ p ∈ List.range' pgno num :=
    fun p => by
      rw [hgiven, Mvcc.give, Finset.mem_union, hown, Finset.mem_Ico]
  refine ⟨hsnap, htxnid, hpglast, hmem_free, hpos, hgo.snap ▸ h.next.trans hnext,
    h.sorted.sublist hpool, hnodup', fun p hp => hrange p (.inl hp), fun p hp => ?_,
    fun p hp => ?_, fun p hle hlt => ?_, fun p hp => ?_,
    fun p hp => (hown' p).2 (.inl (h.loose p (hloose.subset hp))), fun p c hp hc => ?_,
    fun v hv => ?_⟩
  · rw [hpages' p fun hp' => hdisj p hp p hp' rfl]
    exact hnone p (.inl hp)
  · by_cases hp' : p ∈ List.range' pgno num
    · exact hrange p (.inr hp')
    · rw [hpages' p hp'] at hp
      obtain ⟨hle, hlt⟩ := h.used_range p hp
      exact ⟨hle, hlt.trans_le hnext⟩
  · by_cases hp' : p ∈ List.range' pgno num
    · exact .inl (by rw [hpagesSome p hp']; rfl)
    · rw [hpages' p hp']
      by_cases hlt' : p < w.nextPgno
      · rcases h.cover p hle hlt' with hp | hp
        · exact .inl hp
        · exact .inr (((hmem p).2 (.inl hp)).resolve_right hp')
      · exact .inr (((hmem p).2 (.inr ⟨by omega, hlt⟩)).resolve_right hp')
  · rcases (hown' p).1 hp with hp | hp
    · obtain ⟨⟨hle, hlt⟩, hpool', hunread'⟩ := h.own p hp
      exact ⟨⟨hle, hlt.trans_le hnext⟩, fun hmem => hpool' (hpool.subset hmem),
        fun hmem => hunread' (hunread ▸ hmem)⟩
    · have hnot : p ∉ w'.unused := fun hmem => hdisj p hmem p hp rfl
      simp only [unused, List.mem_append, not_or] at hnot
      exact ⟨hrange p (.inr hp), hnot.1.1.1, hnot.1.1.2⟩
  · rw [hown', not_or] at hp
    rw [hpages' p hp.2] at hc
    show w'.snap.pages p = some c
    rw [hgo.snap]
    exact h.old p c hp.1 hc
  · exact (hsaving v hv).mono id (List.Sublist.refl _) (List.prefix_refl _) le_rfl

/-- Writing to a page one has. -/
theorem Valid.write (h : w.Valid) (hown : p ∈ w.own) (hp : (w.pages p).isSome) (c : D) :
    Valid { w with pages := Function.update w.pages p (some c) } := by
  have hsome : ∀ q, (Function.update w.pages p (some c) q).isSome = (w.pages q).isSome := by
    intro q
    by_cases hq : q = p
    · rw [hq, Function.update_self, hp]
      rfl
    · rw [Function.update_of_ne hq]
  refine { h with gone := fun q hq => ?_, used_range := fun q hq => ?_,
                  cover := fun q hle hlt => ?_, old := fun q c' hq hc => ?_,
                  saving := fun v hv => (h.saving v hv).mono id (List.Sublist.refl _)
                    (List.prefix_refl _) le_rfl }
  · have hnone := h.gone q hq
    rwa [← Option.not_isSome_iff_eq_none, hsome, Option.not_isSome_iff_eq_none]
  · exact h.used_range q (hsome q ▸ hq)
  · rw [hsome]
    exact h.cover q hle hlt
  · have hqp : q ≠ p := fun heq => hq (heq ▸ hown)
    have hc : Function.update w.pages p (some c) q = some c' := hc
    rw [Function.update_of_ne hqp] at hc
    exact h.old q c' hq hc

/-- Giving up a page, which is kept track of among those that are not used. -/
theorem Valid.drop (h : w.Valid) (hp : (w.pages p).isSome) (hgo : w.Follows w')
    (hnext : w'.nextPgno = w.nextPgno) (hpages : w'.pages = Function.update w.pages p none)
    (hperm : w'.unused.Perm (p :: w.unused)) (hsorted : w'.pool.Pairwise (· > ·))
    (hown : ∀ q, q ∈ w'.own → q ∈ w.own ∧ q ∉ w'.pool) (hold : ∀ q ∈ w.own, q ∈ w'.own ∨ q = p)
    (hloose : ∀ q ∈ w'.loosePgs, q ∈ w'.own) : w'.Valid := by
  obtain ⟨⟨hsnap, htxnid, hpglast⟩, hmem_free, hpos, hunread, hsaving⟩ := h.follow hgo
  have hnot : p ∉ w.unused := fun hmem => by simp [h.gone p hmem] at hp
  have hmem : ∀ q, q ∈ w'.unused ↔ q = p ∨ q ∈ w.unused := fun q => by
    rw [hperm.mem_iff, List.mem_cons]
  have hother : ∀ q, q ≠ p → w'.pages q = w.pages q := fun q hq => by
    rw [hpages, Function.update_of_ne hq]
  have hself : w'.pages p = none := by rw [hpages, Function.update_self]
  refine ⟨hsnap, htxnid, hpglast, hmem_free, hpos, hnext ▸ hgo.snap ▸ h.next, hsorted,
    hperm.nodup_iff.2 (List.nodup_cons.2 ⟨hnot, h.nodup⟩), fun q hq => ?_, fun q hq => ?_,
    fun q hq => ?_, fun q hle hlt => ?_, fun q hq => ?_, hloose, fun q c hq hc => ?_, hsaving⟩
  · rw [hnext]
    rcases (hmem q).1 hq with rfl | hq
    · exact h.used_range q hp
    · exact h.range q hq
  · rcases (hmem q).1 hq with rfl | hq
    · exact hself
    · rw [hother q fun heq => hnot (heq ▸ hq)]
      exact h.gone q hq
  · have hqp : q ≠ p := fun heq => by simp [heq, hself] at hq
    rw [hother q hqp] at hq
    rw [hnext]
    exact h.used_range q hq
  · by_cases hqp : q = p
    · exact .inr ((hmem q).2 (.inl hqp))
    · rw [hother q hqp]
      exact (h.cover q hle (hnext ▸ hlt)).imp_right fun hq => (hmem q).2 (.inr hq)
  · obtain ⟨hq, hpool⟩ := hown q hq
    obtain ⟨hrange, -, hunread'⟩ := h.own q hq
    exact ⟨hnext ▸ hrange, hpool, hunread ▸ hunread'⟩
  · have hqp : q ≠ p := fun heq => by simp [heq, hself] at hc
    rw [hother q hqp] at hc
    rw [hgo.snap]
    exact h.old q c (fun hmem => hq ((hold q hmem).resolve_right hqp)) hc

theorem Valid.free (h : w.Valid) (hp : (w.pages p).isSome) :
    Valid { w with pages := Function.update w.pages p none, freePgs := w.freePgs ++ [p] } := by
  refine h.drop hp ⟨rfl, rfl, rfl, Iff.rfl, rfl, List.prefix_append _ _,
    fun _ => List.Sublist.refl _⟩ rfl rfl ?_ h.sorted (fun q hq => ⟨hq, (h.own q hq).2.1⟩)
    (fun q hq => .inl hq) h.loose
  simp only [unused, pool, unread]
  rw [← List.append_assoc, List.append_assoc _ [p], List.singleton_append]
  exact List.perm_middle

theorem Valid.loosen (h : w.Valid) (hp : (w.pages p).isSome) (hown : p ∈ w.own)
    (hsaving : w.saving = none) :
    Valid { w with pages := Function.update w.pages p none, loosePgs := p :: w.loosePgs } := by
  refine h.drop hp ⟨rfl, rfl, rfl, Iff.rfl, rfl, List.prefix_refl _,
    fun hne => absurd hsaving hne⟩ rfl rfl ?_ h.sorted (fun q hq => ⟨hq, (h.own q hq).2.1⟩)
    (fun q hq => .inl hq) fun q hq => ?_
  · simp only [unused, pool, unread]
    exact List.perm_middle
  · rcases List.mem_cons.1 hq with rfl | hq
    · exact hown
    · exact h.loose q hq

theorem Valid.giveBack (h : w.Valid) (hp : (w.pages p).isSome) {mop : List ℕ}
    (hmop : w.pghead = some mop) :
    Valid { w with
      pages := Function.update w.pages p none
      own := w.own.erase p
      pghead := some (mop.orderedInsert (· ≥ ·) p) } := by
  have hpool : w.pool = mop := by rw [pool, hmop]; rfl
  have hnot : p ∉ w.unused := fun hmem => by simp [h.gone p hmem] at hp
  simp only [unused, List.mem_append, not_or, hpool] at hnot
  have hperm : (mop.orderedInsert (· ≥ ·) p).Perm (p :: mop) := List.perm_orderedInsert _ _ _
  have hmopNodup : mop.Nodup := by
    have hnodup := h.nodup
    simp only [unused, hpool, List.append_assoc] at hnodup
    exact (List.nodup_append.1 hnodup).1
  refine h.drop hp ⟨rfl, rfl, rfl, by simp [hmop], rfl, List.prefix_refl _,
    fun _ => List.Sublist.refl _⟩ rfl rfl ?_ ?_ (fun q hq => ?_) (fun q hq => ?_) fun q hq => ?_
  · simp only [unused, pool, unread, hmop, Option.getD_some]
    exact ((hperm.append_right _).append_right _).append_right _
  · refine pairwise_gt_of_ge ?_ (hperm.nodup_iff.2 (List.nodup_cons.2 ⟨hnot.1.1.1, hmopNodup⟩))
    exact (pairwise_ge_of_gt (hpool ▸ h.sorted)).orderedInsert _ _
  · obtain ⟨hqp, hq⟩ := Finset.mem_erase.1 hq
    refine ⟨hq, fun hmem => ?_⟩
    rcases List.mem_cons.1 (hperm.mem_iff.1 hmem) with rfl | hmem
    · exact hqp rfl
    · exact (h.own q hq).2.1 (hpool ▸ hmem)
  · by_cases hqp : q = p
    · exact .inr hqp
    · exact .inl (Finset.mem_erase.2 ⟨hqp, hq⟩)
  · exact Finset.mem_erase.2 ⟨fun heq => hnot.2 (heq ▸ hq), h.loose q hq⟩

/-- Reading a record of the free list. -/
theorem Valid.read (h : w.Valid) {last : ℕ} {idl : List ℕ}
    (hnext : nextRecord w.snap.free w.pglast = some (last, idl)) :
    Valid { w with pghead := some (xmerge w.pool idl), pglast := last } := by
  obtain ⟨hmem, hlt, hfilter⟩ := nextRecord_spec h.snap.ids hnext
  have hunread : w.unread = idl ++ (w.snap.free.filter (last < ·.1)).flatMap Prod.snd := by
    rw [unread, hfilter, List.flatMap_cons]
  have hmerge : (xmerge w.pool idl).Perm (w.pool ++ idl) := xmerge_perm _ _
  have hperm : (unused { w with pghead := some (xmerge w.pool idl), pglast := last }).Perm
      w.unused := by
    rw [unused, unused, hunread, ← List.append_assoc w.pool]
    exact ((hmerge.append_right _).append_right _).append_right _
  have hnodup : (w.pool ++ idl).Nodup := by
    have hnodup := h.nodup
    simp only [unused, hunread, List.append_assoc] at hnodup
    rw [← List.append_assoc] at hnodup
    exact (List.nodup_append.1 hnodup).1
  refine { h with pglast := ?_, pglast_mem := .inr ⟨_, hmem, rfl⟩,
                  pglast_pos := fun _ => (Nat.zero_le _).trans_lt hlt,
                  sorted := ?_, nodup := hperm.nodup_iff.2 h.nodup, range := ?_,
                  gone := ?_, cover := ?_, own := ?_, saving := fun v hv => ?_ }
  · have := (h.snap.id_range _ hmem).2
    have := h.txnid
    show last < w.txnid
    omega
  · exact pairwise_gt_of_ge (pairwise_xmerge _ (pairwise_ge_of_gt (h.snap.sorted _ hmem)))
      (hmerge.nodup_iff.2 hnodup)
  · exact fun p hp => h.range p (hperm.mem_iff.1 hp)
  · exact fun p hp => h.gone p (hperm.mem_iff.1 hp)
  · exact fun p hle hlt => (h.cover p hle hlt).imp_right hperm.mem_iff.2
  · intro p hp
    obtain ⟨hrange, hpool, hread⟩ := h.own p hp
    rw [hunread, List.mem_append, not_or] at hread
    refine ⟨hrange, fun hmem => ?_, hread.2⟩
    exact (List.mem_append.1 (hmerge.mem_iff.1 hmem)).elim hpool hread.1
  · exact (h.saving v hv).mono (fun hnone => by simp at hnone) (List.Sublist.refl _)
      (List.prefix_refl _) hlt.le

end Writer

end KotlinLmdb
