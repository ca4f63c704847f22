import KotlinLmdb.Lmdb.Pages.Levels

/-!
# The views of nested transactions

What a transaction sees is a view: the contents of pages. Those of its parents, and what has
been committed, are kept under it. That the page lists and the file hold the views is an
invariant of each transaction over its parents (`Level`), and of all of them (`Stack`).

A page is had from the innermost transaction that lists it, otherwise from the file (`near`).
So a page may be written to where only views that are given up with the transaction see it:
it may be listed in a parent, which then has its own, or no view under it has it
(`Level.own`). And a page may only be spilled if no parent has spilled it (`Level.once`),
since there is only one place for it in the file.
-/

namespace KotlinLmdb

variable {D : Type}

open Id2l (count entries)
open PageTxn PageTxns

/-- What is seen of the pages. -/
abbrev PageView (D : Type) := ℕ → Option D

/-- Where a page is had from, among some transactions: spilled, or dirty. -/
def near : List (PageTxn D) → ℕ → Option (Option (Page D))
  | [], _ => none
  | t :: ts, p =>
    if p ∈ t.spillSet then some none
    else match t.dirty p with
      | some pg => some (some pg)
      | none => near ts p

/-- A page is in one of the lists of a transaction. -/
def Listed (t : PageTxn D) (p : ℕ) : Prop := (t.dirty p).isSome ∨ p ∈ t.spillSet

/-- The numbers of the pages had from memory, for which there must be room. -/
def inMemory : List (PageTxn D) → Finset ℕ
  | [] => ∅
  | t :: ts => inMemory ts \ t.spillSet ∪ mids (entries t.dirtyList)

/-- The contents of a page, as it is had. -/
def Shows (map : ℕ → Page D) (ts : List (PageTxn D)) (p : ℕ) (c : D) : Prop :=
  match near ts p with
  | some (some pg) => pg.data = c ∧ pg.loose = false
  | _ => map p = ⟨p, false, false, c⟩

/-- The invariant of a transaction over its parents, the first of which starts new pages at
    `next`. -/
structure Level (maxpg : ℕ) (map : ℕ → Page D) (next : ℕ) (t : PageTxn D)
    (ts : List (PageTxn D)) (v : PageView D) (vs : List (PageView D)) : Prop where
  lists : Lists t
  page : ∀ p pg, t.dirty p = some pg → pg.pgno = p ∧ pg.dirty = true
  range : ∀ p, Listed t p → 0 < p ∧ p < t.nextPgno
  next_le : next ≤ t.nextPgno
  le_max : t.nextPgno ≤ maxpg
  disjoint : ∀ p ∈ t.spillSet, t.dirty p = none
  once : ∀ p ∈ t.spillSet, ∀ t' ∈ ts, p ∉ t'.spillSet
  spills : (∃ t' ∈ t :: ts, t'.spillSet.Nonempty) → t.spills = true
  own : ∀ p, Listed t p → (∃ t' ∈ ts, Listed t' p) ∨ ∀ v' ∈ vs, v' p = none
  room : t.dirtyRoom + (inMemory (t :: ts)).card = idlUmMax
  view : ∀ p c, v p = some c → p < t.nextPgno ∧ Shows map (t :: ts) p c
  loose : ∀ p, p ∈ t.loosePgs ↔ ∃ pg, t.dirty p = some pg ∧ pg.loose = true
  nodup : t.loosePgs.Nodup
  unseen : ∀ t' ∈ t :: ts, ∀ p ∈ t'.loosePgs, v p = none
  apart : ∀ t' ∈ ts, ∀ p ∈ t'.loosePgs, ¬Listed t p

/-- Where the pages of a transaction over some parents start, if those of the outermost do at
    `metaNext`. -/
def nextOf (metaNext : ℕ) : List (PageTxn D) → ℕ
  | [] => metaNext
  | t :: _ => t.nextPgno

/-- The invariant of nested transactions, over what has been committed. -/
inductive Stack (maxpg metaNext : ℕ) (map : ℕ → Page D) :
    List (PageTxn D) → List (PageView D) → Prop
  | base {v : PageView D} (hpos : 0 < metaNext) (hmax : metaNext ≤ maxpg)
      (hv : ∀ p c, v p = some c → p < metaNext ∧ map p = ⟨p, false, false, c⟩) :
      Stack maxpg metaNext map [] [v]
  | level {t : PageTxn D} {ts : List (PageTxn D)} {v : PageView D} {vs : List (PageView D)}
      (hlevel : Level maxpg map (nextOf metaNext ts) t ts v vs)
      (hstack : Stack maxpg metaNext map ts vs) : Stack maxpg metaNext map (t :: ts) (v :: vs)

theorem Stack.head {maxpg metaNext : ℕ} {map : ℕ → Page D} {t : PageTxn D} {ts : List (PageTxn D)}
    {v : PageView D} {vs : List (PageView D)} (h : Stack maxpg metaNext map (t :: ts) (v :: vs)) :
    Level maxpg map (nextOf metaNext ts) t ts v vs := by
  cases h with
  | level hlevel _ => exact hlevel

theorem Stack.tail {maxpg metaNext : ℕ} {map : ℕ → Page D} {t : PageTxn D} {ts : List (PageTxn D)}
    {v : PageView D} {vs : List (PageView D)} (h : Stack maxpg metaNext map (t :: ts) (v :: vs)) :
    Stack maxpg metaNext map ts vs := by
  cases h with
  | level _ hstack => exact hstack

variable {maxpg metaNext next p q : ℕ} {map map' : ℕ → Page D} {t t' : PageTxn D}
  {ts : List (PageTxn D)} {v v' : PageView D} {vs : List (PageView D)} {c : D} {pg np : Page D}

/-! ## Pages listed -/

/-- Having a page in memory does not matter for the others. -/
theorem listed_iff_of_put (hdirty : t'.dirty = Function.update t.dirty p (some np))
    (hspill : t'.spillSet = t.spillSet.erase p) (hq : q ≠ p) : Listed t' q ↔ Listed t q := by
  rw [Listed, Listed, hdirty, Function.update_of_ne hq, hspill, Finset.mem_erase, and_iff_right hq]

/-- Nothing else is listed when a page is written to. -/
theorem listed_iff_of_set (hdirty : t'.dirty = Function.update t.dirty p (some np))
    (hspill : t'.spillSet = t.spillSet) (hp : (t.dirty p).isSome) : Listed t' q ↔ Listed t q := by
  rw [Listed, Listed, hspill, hdirty]
  by_cases hq : q = p
  · rw [hq, Function.update_self]
    simp [hp]
  · rw [Function.update_of_ne hq]

/-- Nor when pages are spilled. -/
theorem PageTxns.Spilled.listed_iff {s s' : PageTxns D} {F : Finset ℕ} (hF : Spilled s s' F) :
    Listed s'.txn q ↔ Listed s.txn q := by
  rw [Listed, Listed, hF.spillSet, Finset.mem_union, hF.dirty]
  by_cases hq : q ∈ F
  · obtain ⟨pg, hpg, -⟩ := hF.mapped q hq
    simp [hq, hpg]
  · simp [hq]

/-- What is listed in a nested transaction is listed in its parent afterwards. -/
theorem PageTxns.Merged.listed_iff {parent : PageTxn D} (hm : Merged t parent t') :
    Listed t' p ↔ Listed t p ∨ Listed parent p := by
  simp only [Listed, hm.dirty, hm.spillSet]
  cases hd : t.dirty p with
  | some pg => simp
  | none =>
    by_cases hp : p ∈ t.spillSet
    · simp [hp]
    · simp [hp]

/-! ## Having pages -/

theorem near_eq_none_iff : near ts p = none ↔ ∀ t ∈ ts, ¬Listed t p := by
  induction ts with
  | nil => simp [near]
  | cons t ts ih =>
    rw [near, List.forall_mem_cons, ← ih, Listed]
    by_cases hp : p ∈ t.spillSet
    · simp [hp]
    · cases hd : t.dirty p <;> simp [hp]

/-- A page that is listed, and not spilled, is had from memory. -/
theorem exists_near (hp : ∃ t ∈ ts, Listed t p) (hspill : ∀ t ∈ ts, p ∉ t.spillSet) :
    ∃ pg, near ts p = some (some pg) := by
  induction ts with
  | nil => simp at hp
  | cons t ts ih =>
    obtain ⟨hnot, hspill⟩ := List.forall_mem_cons.1 hspill
    rw [near, if_neg hnot]
    cases hd : t.dirty p with
    | some pg => exact ⟨pg, rfl⟩
    | none =>
      obtain ⟨t', ht', hp⟩ := hp
      rcases List.mem_cons.1 ht' with rfl | ht'
      · simp [Listed, hd, hnot] at hp
      · exact ih ⟨t', ht', hp⟩ hspill

theorem getDirty_spec (map : ℕ → Page D) (p : ℕ) (hts : ∀ t ∈ ts, Lists t) (level : ℕ) :
    (getDirty map p ts level).map (·.1) = (near ts p).map (·.getD (map p)) := by
  induction ts generalizing level with
  | nil => rfl
  | cons t ts ih =>
    obtain ⟨ht, hts⟩ := List.forall_mem_cons.1 hts
    rw [getDirty, near]
    by_cases hp : p ∈ t.spillSet
    · rw [if_pos ((isSome_spillAt ht).2 hp), if_pos hp]
      rfl
    · rw [if_neg (mt (isSome_spillAt ht).1 hp), if_neg hp, dirty]
      cases t.dirtyAt p with
      | some x => rfl
      | none => exact ih hts (level + 1)

theorem Stack.lists (h : Stack maxpg metaNext map ts vs) : ∀ t ∈ ts, Lists t := by
  induction h with
  | base => simp
  | level hlevel _ ih => exact List.forall_mem_cons.2 ⟨hlevel.lists, ih⟩

theorem Stack.mem_inMemory (h : Stack maxpg metaNext map ts vs) :
    p ∈ inMemory ts ↔ ∃ pg, near ts p = some (some pg) := by
  induction h with
  | base => simp [inMemory, near]
  | @level t ts v vs hlevel _ ih =>
    rw [inMemory, near, Finset.mem_union, Finset.mem_sdiff, ih, mem_mids_iff hlevel.lists]
    by_cases hp : p ∈ t.spillSet
    · simp [hp, hlevel.disjoint p hp]
    · cases hd : t.dirty p <;> simp [hp]

theorem Stack.listed_of_loose (h : Stack maxpg metaNext map ts vs) (ht : t ∈ ts)
    (hp : p ∈ t.loosePgs) : Listed t p := by
  induction h with
  | base => exact absurd ht List.not_mem_nil
  | level hlevel _ ih =>
    rcases List.mem_cons.1 ht with rfl | ht
    · obtain ⟨pg, hpg, -⟩ := (hlevel.loose p).1 hp
      exact .inl (by rw [hpg]; rfl)
    · exact ih ht

theorem Stack.next_pos (h : Stack maxpg metaNext map ts vs) : 0 < nextOf metaNext ts := by
  induction h with
  | base hpos => exact hpos
  | level hlevel _ ih => exact ih.trans_le hlevel.next_le

theorem Stack.range (h : Stack maxpg metaNext map ts vs) (ht : t ∈ ts) (hp : Listed t p) :
    0 < p ∧ p < nextOf metaNext ts := by
  induction h with
  | base => exact absurd ht List.not_mem_nil
  | level hlevel _ ih =>
    rcases List.mem_cons.1 ht with rfl | ht
    · exact hlevel.range p hp
    · obtain ⟨hpos, hlt⟩ := ih ht
      exact ⟨hpos, hlt.trans_le hlevel.next_le⟩

/-- Nobody lists or sees the pages that have never been used. -/
theorem Stack.new_of_le (h : Stack maxpg metaNext map ts vs) (hp : nextOf metaNext ts ≤ p) :
    (∀ t ∈ ts, ¬Listed t p) ∧ ∀ v ∈ vs, v p = none := by
  induction h with
  | base _ _ hv =>
    refine ⟨by simp, fun v' hv' => ?_⟩
    rw [List.mem_singleton.1 hv']
    refine Option.eq_none_iff_forall_ne_some.2 fun c hc => ?_
    have : p < metaNext := (hv p c hc).1
    exact absurd this (Nat.not_lt.2 hp)
  | @level t ts v vs hlevel _ ih =>
    have hp : t.nextPgno ≤ p := hp
    obtain ⟨hnot, hnone⟩ := ih (hlevel.next_le.trans hp)
    refine ⟨List.forall_mem_cons.2 ⟨fun hlisted => ?_, hnot⟩,
      List.forall_mem_cons.2 ⟨?_, hnone⟩⟩
    · exact absurd (hlevel.range p hlisted).2 (Nat.not_lt.2 hp)
    · refine Option.eq_none_iff_forall_ne_some.2 fun c hc => ?_
      exact absurd (hlevel.view p c hc).1 (Nat.not_lt.2 hp)

/-- The pages had have their numbers, and are dirty if they are in memory. -/
theorem Stack.page_of_near (h : Stack maxpg metaNext map ts vs) (hp : near ts p = some (some pg)) :
    pg.pgno = p ∧ pg.dirty = true := by
  induction h with
  | base => simp [near] at hp
  | @level t ts v vs hlevel _ ih =>
    rw [near] at hp
    split at hp
    · simp at hp
    · split at hp
      · rename_i pg' hd
        obtain rfl := Option.some.inj (Option.some.inj hp)
        exact hlevel.page p pg' hd
      · exact ih hp

theorem Level.numbered (h : Level maxpg map next t ts v vs) : Numbered t.dirtyList where
  asc := h.lists.asc
  pgno k hk hkn := (h.page _ _ ((dirty_eq_some_iff h.lists).2
    (Cells.mem_slice.2 ⟨k, hk, by omega, rfl⟩))).1
  pos k hk hkn := (h.range _ (.inl (Option.isSome_iff_exists.2 ⟨_,
    (dirty_eq_some_iff h.lists).2 (Cells.mem_slice.2 ⟨k, hk, by omega, rfl⟩)⟩))).1

/-- The dirty list has room for all pages had from memory. -/
theorem Level.count_le (h : Level maxpg map next t ts v vs) :
    count t.dirtyList ≤ (inMemory (t :: ts)).card := by
  calc count t.dirtyList
    _ = (mids (entries t.dirtyList)).card := by
      rw [card_mids h.lists.asc.nodup, entries, Cells.length_slice]
    _ ≤ (inMemory (t :: ts)).card := Finset.card_le_card Finset.subset_union_right

theorem Level.not_mem_loosePgs (h : Level maxpg map next t ts v vs) (hp : v p ≠ none) :
    ∀ t' ∈ t :: ts, p ∉ t'.loosePgs := fun t' ht' hmem => hp (h.unseen t' ht' p hmem)

/-- Less may be seen. -/
theorem Level.forget (h : Level maxpg map next t ts v vs)
    (hv : ∀ p c, v' p = some c → v p = some c) (freePgs : Midl) :
    Level maxpg map next { t with freePgs } ts v' vs where
  lists := ⟨h.lists.asc, h.lists.spill, h.lists.fits⟩
  page := h.page
  range := h.range
  next_le := h.next_le
  le_max := h.le_max
  disjoint := h.disjoint
  once := h.once
  spills hS := h.spills (by
    obtain ⟨t', ht', hS⟩ := hS
    rcases List.mem_cons.1 ht' with rfl | ht'
    · exact ⟨t, List.mem_cons_self, hS⟩
    · exact ⟨t', List.mem_cons_of_mem _ ht', hS⟩)
  own := h.own
  room := h.room
  view p c hp := h.view p c (hv p c hp)
  loose := h.loose
  nodup := h.nodup
  unseen t' ht' p hp := by
    have hnone : v p = none := by
      rcases List.mem_cons.1 ht' with rfl | ht'
      · exact h.unseen t List.mem_cons_self p hp
      · exact h.unseen t' (List.mem_cons_of_mem _ ht') p hp
    exact Option.eq_none_iff_forall_ne_some.2 fun c hc => by simp [hv p c hc] at hnone
  apart := h.apart

theorem Stack.forget (h : Stack maxpg metaNext map (t :: ts) (v :: vs))
    (hv : ∀ p c, v' p = some c → v p = some c) (freePgs : Midl) :
    Stack maxpg metaNext map ({ t with freePgs } :: ts) (v' :: vs) :=
  .level (h.head.forget hv freePgs) h.tail

/-- What has been committed is in the file. -/
theorem Stack.getLast (h : Stack maxpg metaNext map ts vs) (hv : v ∈ vs.getLast?)
    (hp : v p = some c) :
    p < metaNext ∧ map p = ⟨p, false, false, c⟩ := by
  induction h with
  | base _ _ hbase =>
    obtain rfl := Option.some.inj hv
    exact hbase p c hp
  | @level t ts v' vs hlevel hstack ih =>
    cases hstack with
    | base => exact ih hv
    | level => exact ih hv

/-! ## Writing -/

/-- Having a page of one's own in memory, to write to. -/
theorem Level.put (h : Level maxpg map next t ts v vs) (t' : PageTxn D) (np : Page D)
    (hlists : Lists t')
    (hdirty : t'.dirty = Function.update t.dirty np.pgno (some np))
    (hspill : t'.spillSet = t.spillSet.erase np.pgno)
    (hflags : np.dirty = true ∧ np.loose = false)
    (hrange : 0 < np.pgno ∧ np.pgno < t'.nextPgno)
    (hnext : t.nextPgno ≤ t'.nextPgno ∧ t'.nextPgno ≤ maxpg) (hspills : t'.spills = t.spills)
    (hown : (∃ t' ∈ t :: ts, Listed t' np.pgno) ∨ ∀ v' ∈ vs, v' np.pgno = none)
    (hroom : t'.dirtyRoom + (insert np.pgno (inMemory (t :: ts))).card = idlUmMax)
    (hloose : t'.loosePgs = t.loosePgs.erase np.pgno)
    (hapart : ∀ t' ∈ ts, np.pgno ∉ t'.loosePgs) :
    Level maxpg map next t' ts (Function.update v np.pgno (some np.data)) vs := by
  have hself : t'.dirty np.pgno = some np := by rw [hdirty, Function.update_self]
  have hother : ∀ q, q ≠ np.pgno → t'.dirty q = t.dirty q := fun q hq => by
    rw [hdirty, Function.update_of_ne hq]
  have hmem : ∀ q, q ∈ t'.spillSet ↔ q ≠ np.pgno ∧ q ∈ t.spillSet := fun q => by
    rw [hspill, Finset.mem_erase]
  have hlisted : ∀ q, q ≠ np.pgno → (Listed t' q ↔ Listed t q) := fun q hq =>
    listed_iff_of_put hdirty hspill hq
  have hmids : mids (entries t'.dirtyList) = insert np.pgno (mids (entries t.dirtyList)) := by
    ext q
    rw [Finset.mem_insert, mem_mids_iff hlists, mem_mids_iff h.lists]
    by_cases hq : q = np.pgno
    · simp [hq, hself]
    · simp [hq, hother]
  refine ⟨hlists, fun q pg hq => ?_, fun q hq => ?_, h.next_le.trans hnext.1, hnext.2,
    fun q hq => ?_, fun q hq => h.once q ((hmem q).1 hq).2, fun hS => ?_, fun q hq => ?_, ?_,
    fun q c hq => ?_, fun q => ?_, hloose ▸ h.nodup.erase _, fun t'' ht'' q hq => ?_,
    fun t'' ht'' q hq => ?_⟩
  · by_cases hqp : q = np.pgno
    · rw [hqp, hself] at hq
      obtain rfl := Option.some.inj hq
      exact ⟨hqp.symm, hflags.1⟩
    · exact h.page q pg (hother q hqp ▸ hq)
  · by_cases hqp : q = np.pgno
    · exact hqp ▸ hrange
    · obtain ⟨hpos, hlt⟩ := h.range q ((hlisted q hqp).1 hq)
      exact ⟨hpos, hlt.trans_le hnext.1⟩
  · obtain ⟨hqp, hq⟩ := (hmem q).1 hq
    rw [hother q hqp]
    exact h.disjoint q hq
  · rw [hspills]
    refine h.spills ?_
    obtain ⟨t'', ht'', q, hq⟩ := hS
    rcases List.mem_cons.1 ht'' with rfl | ht''
    · exact ⟨t, List.mem_cons_self, q, ((hmem q).1 hq).2⟩
    · exact ⟨t'', List.mem_cons_of_mem _ ht'', q, hq⟩
  · by_cases hqp : q = np.pgno
    · rw [hqp]
      rcases hown with ⟨t'', ht'', hp⟩ | hnone
      · rcases List.mem_cons.1 ht'' with rfl | ht''
        · exact h.own _ hp
        · exact .inl ⟨t'', ht'', hp⟩
      · exact .inr hnone
    · exact h.own q ((hlisted q hqp).1 hq)
  · rw [← hroom]
    congr 2
    ext q
    rw [inMemory, inMemory, hmids]
    simp only [Finset.mem_union, Finset.mem_sdiff, Finset.mem_insert, hmem]
    tauto
  · by_cases hqp : q = np.pgno
    · rw [hqp, Function.update_self] at hq
      obtain rfl := Option.some.inj hq
      refine ⟨hqp ▸ hrange.2, ?_⟩
      have hnot : np.pgno ∉ t'.spillSet := fun hp => ((hmem _).1 hp).1 rfl
      rw [Shows, hqp, near, if_neg hnot, hself]
      exact ⟨rfl, hflags.2⟩
    · rw [Function.update_of_ne hqp] at hq
      obtain ⟨hlt, hshows⟩ := h.view q c hq
      refine ⟨hlt.trans_le hnext.1, ?_⟩
      rw [Shows, near] at hshows ⊢
      simpa only [hmem, hother q hqp, ne_eq, hqp, not_false_eq_true, true_and] using hshows
  · rw [hloose, h.nodup.mem_erase_iff, h.loose]
    by_cases hqp : q = np.pgno
    · simp [hqp, hself, hflags.2]
    · simp [hqp, hother]
  · rcases List.mem_cons.1 ht'' with rfl | ht''
    · rw [hloose, h.nodup.mem_erase_iff] at hq
      rw [Function.update_of_ne hq.1]
      exact h.unseen t List.mem_cons_self q hq.2
    · have hqp : q ≠ np.pgno := fun heq => hapart t'' ht'' (heq ▸ hq)
      rw [Function.update_of_ne hqp]
      exact h.unseen t'' (List.mem_cons_of_mem _ ht'') q hq
  · have hqp : q ≠ np.pgno := fun heq => hapart t'' ht'' (heq ▸ hq)
    rw [hlisted q hqp]
    exact h.apart t'' ht'' q hq

/-- Giving up a page of one's own. -/
theorem Level.loosen (h : Level maxpg map next t ts v vs) (hlists : Lists t')
    (hpg : t.dirty p = some pg) (hloose : pg.loose = false)
    (hdirty : t'.dirty = Function.update t.dirty p (some { pg with loose := true }))
    (hspillPgs : t'.spillPgs = t.spillPgs) (hnext : t'.nextPgno = t.nextPgno)
    (hspills : t'.spills = t.spills) (hroom : t'.dirtyRoom = t.dirtyRoom)
    (hloosePgs : t'.loosePgs = p :: t.loosePgs) :
    Level maxpg map next t' ts (Function.update v p none) vs := by
  have hspill : t'.spillSet = t.spillSet := by rw [spillSet, spillSet, hspillPgs]
  have hother : ∀ q, q ≠ p → t'.dirty q = t.dirty q := fun q hq => by
    rw [hdirty, Function.update_of_ne hq]
  have hself : t'.dirty p = some { pg with loose := true } := by
    rw [hdirty, Function.update_self]
  have hsome : ∀ q, (t'.dirty q).isSome = (t.dirty q).isSome := fun q => by
    by_cases hq : q = p
    · rw [hq, hself, hpg]
      rfl
    · rw [hother q hq]
  have hlisted : ∀ q, Listed t' q ↔ Listed t q := fun q =>
    listed_iff_of_set hdirty hspill (by rw [hpg]; rfl)
  have hmids : mids (entries t'.dirtyList) = mids (entries t.dirtyList) := by
    ext q
    rw [mem_mids_iff hlists, mem_mids_iff h.lists, hsome]
  have hnew : p ∉ t.loosePgs := fun hp => by
    obtain ⟨pg', hpg', hloose'⟩ := (h.loose p).1 hp
    rw [hpg] at hpg'
    rw [← Option.some.inj hpg', hloose] at hloose'
    simp at hloose'
  refine ⟨hlists, fun q pg' hq => ?_, fun q hq => ?_, hnext ▸ h.next_le, hnext ▸ h.le_max,
    fun q hq => ?_, fun q hq => h.once q (hspill ▸ hq), fun hS => ?_, fun q hq => ?_, ?_,
    fun q c hq => ?_, fun q => ?_, ?_, fun t'' ht'' q hq => ?_, fun t'' ht'' q hq => ?_⟩
  · by_cases hqp : q = p
    · rw [hqp, hself] at hq
      rw [hqp, ← Option.some.inj hq]
      exact h.page p pg hpg
    · exact h.page q pg' (hother q hqp ▸ hq)
  · rw [hnext]
    exact h.range q ((hlisted q).1 hq)
  · have hnone := h.disjoint q (hspill ▸ hq)
    rwa [← Option.not_isSome_iff_eq_none, hsome, Option.not_isSome_iff_eq_none]
  · rw [hspills]
    obtain ⟨t'', ht'', hS⟩ := hS
    rcases List.mem_cons.1 ht'' with rfl | ht''
    · exact h.spills ⟨t, List.mem_cons_self, hspill ▸ hS⟩
    · exact h.spills ⟨t'', List.mem_cons_of_mem _ ht'', hS⟩
  · exact h.own q ((hlisted q).1 hq)
  · rw [hroom, inMemory, hspill, hmids]
    exact h.room
  · have hqp : q ≠ p := fun heq => by
      rw [heq, Function.update_self] at hq
      simp at hq
    rw [Function.update_of_ne hqp] at hq
    rw [Shows, near, hspill, hother q hqp, hnext]
    exact h.view q c hq
  · rw [hloosePgs, List.mem_cons, h.loose]
    by_cases hqp : q = p
    · simp [hqp, hself]
    · simp [hqp, hother]
  · rw [hloosePgs]
    exact List.nodup_cons.2 ⟨hnew, h.nodup⟩
  · by_cases hqp : q = p
    · rw [hqp, Function.update_self]
    rw [Function.update_of_ne hqp]
    rcases List.mem_cons.1 ht'' with rfl | ht''
    · rw [hloosePgs] at hq
      exact h.unseen t List.mem_cons_self q ((List.mem_cons.1 hq).resolve_left hqp)
    · exact h.unseen t'' (List.mem_cons_of_mem _ ht'') q hq
  · rw [hlisted]
    exact h.apart t'' ht'' q hq

/-! ## Spilling -/

/-- Spilling keeps what is seen. -/
theorem Level.spilled {s s' : PageTxns D} {F : Finset ℕ}
    (h : Level maxpg s.map next s.txn s.parents v vs) (hF : Spilled s s' F) :
    Level maxpg s'.map next s'.txn s'.parents v vs := by
  rw [hF.parents]
  have hsome : ∀ q ∈ F, (s.txn.dirty q).isSome := fun q hq => by
    obtain ⟨pg, hpg, -⟩ := hF.mapped q hq
    rw [hpg]
    rfl
  have hmem : ∀ q, q ∈ s'.txn.spillSet ↔ q ∈ s.txn.spillSet ∨ q ∈ F := fun q => by
    rw [hF.spillSet, Finset.mem_union]
  have hother : ∀ q, q ∉ F → s'.txn.dirty q = s.txn.dirty q := fun q hq => by
    rw [hF.dirty, if_neg hq]
  have hnone : ∀ q ∈ F, s'.txn.dirty q = none := fun q hq => by rw [hF.dirty, if_pos hq]
  have hlisted : ∀ q, Listed s'.txn q ↔ Listed s.txn q := fun q => hF.listed_iff
  have hsub : ∀ q pg, s'.txn.dirty q = some pg → s.txn.dirty q = some pg := fun q pg hq => by
    have hqF : q ∉ F := fun hqF => by simp [hnone q hqF] at hq
    rwa [← hother q hqF]
  refine ⟨hF.lists, fun q pg hq => h.page q pg (hsub q pg hq), fun q hq => ?_,
    hF.nextPgno ▸ h.next_le, hF.nextPgno ▸ h.le_max, fun q hq => ?_, fun q hq => ?_,
    fun _ => hF.spills, fun q hq => h.own q ((hlisted q).1 hq), ?_, fun q c hq => ?_,
    fun q => ?_, hF.loosePgs ▸ h.nodup, fun t' ht' q hq => ?_, fun t' ht' q hq => ?_⟩
  · rw [hF.nextPgno]
    exact h.range q ((hlisted q).1 hq)
  · by_cases hqF : q ∈ F
    · exact hnone q hqF
    · rw [hother q hqF]
      exact h.disjoint q (((hmem q).1 hq).resolve_right hqF)
  · rcases (hmem q).1 hq with hq | hq
    · exact h.once q hq
    · exact hF.once q hq
  · -- the pages spilled leave the memory
    have hFin : F ⊆ inMemory (s.txn :: s.parents) := fun q hq =>
      Finset.mem_union_right _ ((mem_mids_iff h.lists).2 (hsome q hq))
    have heq : inMemory (s'.txn :: s.parents) = inMemory (s.txn :: s.parents) \ F := by
      ext q
      rw [inMemory, inMemory, Finset.mem_sdiff, Finset.mem_union, Finset.mem_union,
        Finset.mem_sdiff, Finset.mem_sdiff, mem_mids_iff hF.lists, mem_mids_iff h.lists, hmem]
      by_cases hq : q ∈ F
      · simp [hq, hnone]
      · simp [hq, hother]
    have hcard := Finset.card_le_card hFin
    have hroom := h.room
    rw [hF.dirtyRoom, heq, Finset.card_sdiff_of_subset hFin]
    omega
  · obtain ⟨hlt, hshows⟩ := h.view q c hq
    refine ⟨hF.nextPgno.symm ▸ hlt, ?_⟩
    rw [Shows, near] at hshows ⊢
    by_cases hqF : q ∈ F
    · obtain ⟨pg, hpg, hloose, hmap⟩ := hF.mapped q hqF
      have hnot : q ∉ s.txn.spillSet := fun hS => by simp [h.disjoint q hS] at hpg
      rw [if_neg hnot, hpg] at hshows
      rw [if_pos ((hmem q).2 (.inr hqF)), hmap]
      obtain ⟨rfl, -⟩ := hshows
      rw [← (h.page q pg hpg).1, hloose]
    · simpa only [hmem, hqF, or_false, hother q hqF, hF.frame q hqF] using hshows
  · rw [hF.loosePgs, h.loose]
    constructor
    · rintro ⟨pg, hpg, hloose⟩
      refine ⟨pg, ?_, hloose⟩
      rw [hother q fun hqF => ?_, hpg]
      obtain ⟨pg', hpg', hloose', -⟩ := hF.mapped q hqF
      rw [hpg] at hpg'
      rw [← Option.some.inj hpg', hloose] at hloose'
      simp at hloose'
    · rintro ⟨pg, hpg, hloose⟩
      exact ⟨pg, hsub q pg hpg, hloose⟩
  · rcases List.mem_cons.1 ht' with rfl | ht'
    · exact h.unseen s.txn List.mem_cons_self q (hF.loosePgs ▸ hq)
    · exact h.unseen t' (List.mem_cons_of_mem _ ht') q hq
  · rw [hlisted]
    exact h.apart t' ht' q hq

/-- Writing to the file does not matter to those who have not spilled the pages and either list
    them or do not see them. -/
theorem Stack.map_congr (h : Stack maxpg metaNext map ts vs)
    (hmap : ∀ p, map' p ≠ map p → (∀ t ∈ ts, p ∉ t.spillSet) ∧
      ((∃ t ∈ ts, Listed t p) ∨ ∀ v ∈ vs, v p = none)) :
    Stack maxpg metaNext map' ts vs := by
  induction h with
  | @base v hpos hmax hv =>
    refine .base hpos hmax fun p c hp => ⟨(hv p c hp).1, ?_⟩
    rw [← (hv p c hp).2]
    by_contra hne
    rcases (hmap p hne).2 with ⟨t, ht, -⟩ | hnone
    · exact absurd ht List.not_mem_nil
    · simp [hnone v List.mem_cons_self] at hp
  | @level t ts v vs hlevel hstack ih =>
    have hrest : ∀ p, map' p ≠ map p → (∀ t ∈ ts, p ∉ t.spillSet) ∧
        ((∃ t ∈ ts, Listed t p) ∨ ∀ v ∈ vs, v p = none) := fun p hne => by
      obtain ⟨hspill, hlisted⟩ := hmap p hne
      refine ⟨fun t ht => hspill t (List.mem_cons_of_mem _ ht), ?_⟩
      rcases hlisted with ⟨t', ht', hp⟩ | hnone
      · rcases List.mem_cons.1 ht' with rfl | ht'
        · exact hlevel.own p hp
        · exact .inl ⟨t', ht', hp⟩
      · exact .inr fun v' hv' => hnone v' (List.mem_cons_of_mem _ hv')
    refine .level { hlevel with view := fun p c hp => ⟨(hlevel.view p c hp).1, ?_⟩ } (ih hrest)
    have hshows := (hlevel.view p c hp).2
    by_cases heq : map' p = map p
    · rwa [Shows, heq]
    obtain ⟨hspill, hlisted⟩ := hmap p heq
    have hseen : ∃ t' ∈ t :: ts, Listed t' p := hlisted.resolve_right fun hnone => by
      simp [hnone v List.mem_cons_self] at hp
    obtain ⟨pg, hpg⟩ := exists_near hseen hspill
    rw [Shows, hpg] at hshows ⊢
    exact hshows

/-- Spilling keeps what all transactions see. -/
theorem Stack.spilled {s s' : PageTxns D} {F : Finset ℕ}
    (h : Stack maxpg metaNext s.map (s.txn :: s.parents) (v :: vs)) (hF : Spilled s s' F) :
    Stack maxpg metaNext s'.map (s'.txn :: s'.parents) (v :: vs) := by
  refine .level ?_ ?_
  · have hspilled := h.head.spilled hF
    rwa [hF.parents] at hspilled ⊢
  · rw [hF.parents]
    refine h.tail.map_congr fun p hne => ?_
    have hp : p ∈ F := by
      by_contra hp
      exact hne (hF.frame p hp)
    obtain ⟨pg, hpg, -⟩ := hF.mapped p hp
    exact ⟨hF.once p hp, h.head.own p (.inl (by rw [hpg]; rfl))⟩

/-! ## Nesting -/

theorem dirty_fresh (next : ℕ) (free : Midl) (room : ℕ) (dl : Id2l (Page D)) (spills : Bool) :
    Lists (.fresh next free room dl spills) ∧
      ∀ p, (PageTxn.fresh next free room dl spills).dirty p = none := by
  have hnil : entries (PageTxn.fresh next free room dl spills).dirtyList = [] :=
    Id2l.entries_setCount dl 0
  have hlists : Lists (.fresh next free room dl spills) :=
    ⟨⟨hnil ▸ List.Pairwise.nil, (Id2l.count_setCount dl 0).trans_le (Nat.zero_le _)⟩,
      fun sl hsl => by simp [PageTxn.fresh] at hsl, fun sl hsl => by simp [PageTxn.fresh] at hsl⟩
  refine ⟨hlists, fun p => Option.eq_none_iff_forall_ne_some.2 fun pg hpg => ?_⟩
  rw [dirty_eq_some_iff hlists, hnil] at hpg
  exact List.not_mem_nil hpg

theorem not_listed_fresh {free : Midl} {room : ℕ} {dl : Id2l (Page D)} {spills : Bool} :
    ¬Listed (.fresh next free room dl spills) p := by
  rintro (hp | hp)
  · rw [(dirty_fresh next free room dl spills).2] at hp
    exact absurd hp Bool.false_ne_true
  · exact absurd hp (Finset.notMem_empty p)

/-- A transaction sees what its parent does at first. -/
theorem Stack.fresh (h : Stack maxpg metaNext map ts (v :: vs)) (free : Midl) {room : ℕ}
    (hnext : next = nextOf metaNext ts) (hmax : next ≤ maxpg)
    (hroom : room + (inMemory ts).card = idlUmMax) (dl : Id2l (Page D)) {spills : Bool}
    (hspills : (∃ t ∈ ts, t.spillSet.Nonempty) → spills = true) :
    Stack maxpg metaNext map (.fresh next free room dl spills :: ts) (v :: v :: vs) := by
  obtain ⟨hlists, hnone⟩ := dirty_fresh next free room dl spills
  have hempty : (PageTxn.fresh next free room dl spills).spillSet = ∅ := rfl
  have hlisted : ∀ p, ¬Listed (.fresh next free room dl spills) p := fun p => not_listed_fresh
  have hmids : mids (entries (PageTxn.fresh next free room dl spills).dirtyList) = ∅ := by
    ext q
    rw [mem_mids_iff hlists, hnone]
    simp
  refine .level ⟨hlists, fun p pg hp => by simp [hnone] at hp, fun p hp => absurd hp (hlisted p),
    hnext.ge, hmax, fun p hp => by simp [hempty] at hp, fun p hp => by simp [hempty] at hp,
    fun hS => hspills ?_, fun p hp => absurd hp (hlisted p), ?_, fun p c hp => ?_, fun p => ?_,
    List.nodup_nil, fun t' ht' p hp => ?_, fun t' ht' p hp => hlisted p⟩ h
  · obtain ⟨t', ht', hS⟩ := hS
    rcases List.mem_cons.1 ht' with rfl | ht'
    · simp [hempty] at hS
    · exact ⟨t', ht', hS⟩
  · rw [inMemory, hempty, hmids, Finset.sdiff_empty, Finset.union_empty]
    exact hroom
  · rw [Shows, near, hempty, if_neg (Finset.notMem_empty p), hnone]
    rw [hnext]
    cases h with
    | base _ _ hv => exact hv p c hp
    | level hlevel _ => exact hlevel.view p c hp
  · refine iff_of_false List.not_mem_nil ?_
    rintro ⟨pg, hpg, -⟩
    simp [hnone] at hpg
  · rcases List.mem_cons.1 ht' with rfl | ht'
    · simp [PageTxn.fresh] at hp
    · cases h with
      | base => exact absurd ht' List.not_mem_nil
      | level hlevel _ => exact hlevel.unseen t' ht' p hp

section Merge

variable {parent : PageTxn D} {vp : PageView D}

theorem inMemory_eq (t parent : PageTxn D) (ts : List (PageTxn D)) :
    inMemory (t :: parent :: ts) =
      (inMemory ts \ parent.spillSet) \ t.spillSet ∪ mergedPages t parent := by
  ext p
  simp only [inMemory, mergedPages, Finset.mem_union, Finset.mem_sdiff]
  tauto

/-- The parent has the pages as the nested transaction had them. -/
theorem near_merged (hm : Merged t parent t') (p : ℕ) :
    near (t' :: ts) p = near (t :: parent :: ts) p := by
  simp only [near, hm.spillSet, hm.dirty]
  by_cases hp : p ∈ t.spillSet
  · simp [hp]
  · cases hd : t.dirty p with
    | some pg => simp [hp]
    | none =>
      by_cases hp' : p ∈ parent.spillSet
      · simp [hp, hp']
      · simp [hp, hp']

theorem Stack.merged (h : Stack maxpg metaNext map (t :: parent :: ts) (v :: vp :: vs))
    (hm : Merged t parent t') : Stack maxpg metaNext map (t' :: ts) (v :: vs) := by
  have hlevel := h.head
  have hparent := h.tail.head
  have hdirty : ∀ p pg, t'.dirty p = some pg ↔ t.dirty p = some pg ∨
      t.dirty p = none ∧ p ∉ t.spillSet ∧ parent.dirty p = some pg := fun p pg => by
    rw [hm.dirty]
    cases t.dirty p with
    | some pg' => simp
    | none =>
      by_cases hp : p ∈ t.spillSet
      · simp [hp]
      · simp [hp]
  have hlisted : ∀ p, Listed t' p ↔ Listed t p ∨ Listed parent p := fun p => hm.listed_iff
  have hle : parent.nextPgno ≤ t'.nextPgno := hm.nextPgno.symm ▸ hlevel.next_le
  have hmids : inMemory (t' :: ts) = inMemory (t :: parent :: ts) := by
    ext p
    simp only [inMemory, Finset.mem_union, Finset.mem_sdiff, hm.spillSet, mem_mids_iff hm.lists,
      mem_mids_iff hlevel.lists, mem_mids_iff hparent.lists, hm.dirty]
    cases hd : t.dirty p with
    | some pg => simp
    | none =>
      by_cases hp : p ∈ t.spillSet
      · simp [hp]
      · simp [hp]
  refine .level ⟨hm.lists, fun p pg hp => ?_, fun p hp => ?_, hparent.next_le.trans hle,
    hm.nextPgno ▸ hlevel.le_max, fun p hp => ?_, fun p hp => ?_, fun hS => ?_, fun p hp => ?_, ?_,
    fun p c hp => ?_, fun p => ?_, ?_, fun t'' ht'' p hp => ?_, fun t'' ht'' p hp => ?_⟩
    h.tail.tail
  · rcases (hdirty p pg).1 hp with hp | ⟨-, -, hp⟩
    · exact hlevel.page p pg hp
    · exact hparent.page p pg hp
  · rw [hm.nextPgno]
    rcases (hlisted p).1 hp with hp | hp
    · exact hlevel.range p hp
    · obtain ⟨hpos, hlt⟩ := hparent.range p hp
      exact ⟨hpos, hlt.trans_le hlevel.next_le⟩
  · rw [Option.eq_none_iff_forall_ne_some]
    intro pg hpg
    rcases (hm.spillSet p).1 hp with ⟨hp, hnone⟩ | hp
    · rcases (hdirty p pg).1 hpg with hpg | ⟨-, -, hpg⟩
      · simp [hnone] at hpg
      · simp [hparent.disjoint p hp] at hpg
    · rcases (hdirty p pg).1 hpg with hpg | ⟨-, hnot, -⟩
      · simp [hlevel.disjoint p hp] at hpg
      · exact hnot hp
  · rcases (hm.spillSet p).1 hp with ⟨hp, -⟩ | hp
    · exact hparent.once p hp
    · exact fun t'' ht'' => hlevel.once p hp t'' (List.mem_cons_of_mem _ ht'')
  · rw [hm.spills]
    refine hlevel.spills ?_
    obtain ⟨t'', ht'', p, hp⟩ := hS
    rcases List.mem_cons.1 ht'' with rfl | ht''
    · rcases (hm.spillSet p).1 hp with ⟨hp, -⟩ | hp
      · exact ⟨parent, List.mem_cons_of_mem _ List.mem_cons_self, p, hp⟩
      · exact ⟨t, List.mem_cons_self, p, hp⟩
    · exact ⟨t'', List.mem_cons_of_mem _ (List.mem_cons_of_mem _ ht''), p, hp⟩
  · rcases (hlisted p).1 hp with hp | hp
    · rcases hlevel.own p hp with ⟨t'', ht'', hp⟩ | hnone
      · rcases List.mem_cons.1 ht'' with rfl | ht''
        · exact hparent.own p hp
        · exact .inl ⟨t'', ht'', hp⟩
      · exact .inr fun v' hv' => hnone v' (List.mem_cons_of_mem _ hv')
    · exact hparent.own p hp
  · rw [hm.dirtyRoom, hmids]
    exact hlevel.room
  · rw [Shows, near_merged hm, hm.nextPgno]
    exact hlevel.view p c hp
  · rw [hm.loosePgs, List.mem_append, hparent.loose, hlevel.loose]
    constructor
    · rintro (⟨pg, hpg, hloose⟩ | ⟨pg, hpg, hloose⟩)
      · -- a loose page of the parent is not the nested transaction's
        have hnot := hlevel.apart parent List.mem_cons_self p
          ((hparent.loose p).2 ⟨pg, hpg, hloose⟩)
        rw [Listed, not_or, Option.not_isSome_iff_eq_none] at hnot
        exact ⟨pg, (hdirty p pg).2 (.inr ⟨hnot.1, hnot.2, hpg⟩), hloose⟩
      · exact ⟨pg, (hdirty p pg).2 (.inl hpg), hloose⟩
    · rintro ⟨pg, hpg, hloose⟩
      rcases (hdirty p pg).1 hpg with hpg | ⟨-, -, hpg⟩
      · exact .inr ⟨pg, hpg, hloose⟩
      · exact .inl ⟨pg, hpg, hloose⟩
  · rw [hm.loosePgs]
    refine List.nodup_append.2 ⟨hparent.nodup, hlevel.nodup, fun p hp q hq hpq => ?_⟩
    obtain ⟨pg, hpg, -⟩ := (hlevel.loose q).1 hq
    exact hlevel.apart parent List.mem_cons_self p hp (.inl (by rw [hpq, hpg]; rfl))
  · rcases List.mem_cons.1 ht'' with rfl | ht''
    · rw [hm.loosePgs, List.mem_append] at hp
      rcases hp with hp | hp
      · exact hlevel.unseen parent (List.mem_cons_of_mem _ List.mem_cons_self) p hp
      · exact hlevel.unseen t List.mem_cons_self p hp
    · exact hlevel.unseen t'' (List.mem_cons_of_mem _ (List.mem_cons_of_mem _ ht'')) p hp
  · rw [hlisted, not_or]
    exact ⟨hlevel.apart t'' (List.mem_cons_of_mem _ ht'') p hp, hparent.apart t'' ht'' p hp⟩

end Merge

end KotlinLmdb
