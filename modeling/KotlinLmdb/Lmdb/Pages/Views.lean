import KotlinLmdb.Lmdb.Pages.Stack
import KotlinLmdb.Machine

/-!
# What nested transactions see of their pages

What a transaction is to see is a view of the pages. A write changes it, a nested transaction begins
with a copy of it, and a commit gives it to the parent (`Views.after`). The transactions hold what
they are to see (`Holds`): each call keeps to it (`call_holds`), wherever the page was before, in
the dirty list of the innermost transaction, in that of a parent, spilled to the file, or committed.
-/

namespace KotlinLmdb

variable {D : Type}

open Id2l (count entries)
open PageTxn PageTxns

namespace PageTxns

variable {s : PageTxns D} {next p r : ℕ} {v : PageView D} {vs : List (PageView D)} {c : D}
  {np mp : Page D} {own own' : Finset ℕ}

/-! ## Reading -/

/-- A page that is seen is read, and is dirty iff it is had from memory. -/
theorem pageGet_spec (h : Stack s.maxpg s.metaNextPgno s.map (s.txn :: s.parents) (v :: vs))
    (hp : v p = some c) :
    ∃ mp level, s.pageGet p = some (mp, level) ∧ mp.pgno = p ∧ mp.data = c ∧ mp.loose = false ∧
      (mp.dirty = true ∧ near (s.txn :: s.parents) p = some (some mp) ∨
        mp.dirty = false ∧ ∀ pg, near (s.txn :: s.parents) p ≠ some (some pg)) := by
  obtain ⟨hlt, hshows⟩ := h.head.view p c hp
  have hget := getDirty_spec s.map p h.lists 1
  rw [Shows] at hshows
  rw [pageGet]
  cases hnear : near (s.txn :: s.parents) p with
  | none =>
    rw [hnear] at hget hshows
    rw [Option.map_none, Option.map_eq_none_iff] at hget
    refine ⟨s.map p, 0, ?_, ?_⟩
    · rw [hget]
      exact if_pos hlt
    · rw [hshows]
      simp
  | some x =>
    rw [hnear] at hget hshows
    rw [Option.map_some, Option.map_eq_some_iff] at hget
    obtain ⟨⟨mp, level⟩, hget, hmp⟩ := hget
    refine ⟨mp, level, by rw [hget], ?_⟩
    cases x with
    | none =>
      obtain rfl : mp = s.map p := hmp
      rw [hshows]
      simp
    | some pg =>
      obtain rfl : mp = pg := hmp
      obtain ⟨hdata, hloose⟩ := hshows
      obtain ⟨hpgno, hdirty⟩ := h.page_of_near hnear
      exact ⟨hpgno, hdata, hloose, .inl ⟨hdirty, rfl⟩⟩

/-! ## Writing -/

/-- After a page has been made one's own, it is dirty, and nothing else is listed. -/
structure Has (t t' : PageTxn D) (p : ℕ) : Prop where
  dirty : (t'.dirty p).isSome
  frame : ∀ q, Listed t' q → q = p ∨ Listed t q

theorem Has.of_put {t t' : PageTxn D} (hdirty : t'.dirty = Function.update t.dirty p (some np))
    (hspill : t'.spillSet = t.spillSet.erase p) : Has t t' p where
  dirty := by rw [hdirty, Function.update_self]; rfl
  frame q hq := by
    by_cases hqp : q = p
    · exact .inl hqp
    · exact .inr ((listed_iff_of_put hdirty hspill hqp).1 hq)

theorem Has.refl {t : PageTxn D} (hp : (t.dirty p).isSome) : Has t t p := ⟨hp, fun _ => .inr⟩

/-- A page that is not in memory is added to the dirty list. -/
theorem pageDirty_level {maxpg : ℕ} {map : ℕ → Page D} {t : PageTxn D} {ts : List (PageTxn D)}
    (t₁ : PageTxn D) (np : Page D) (h : Level maxpg map next t ts v vs) (hlists : Lists t₁)
    (hdl : t₁.dirtyList = t.dirtyList)
    (hspill : t₁.spillSet = t.spillSet.erase np.pgno)
    (hflags : np.dirty = true ∧ np.loose = false)
    (hrange : 0 < np.pgno ∧ np.pgno < t₁.nextPgno)
    (hnext : t.nextPgno ≤ t₁.nextPgno ∧ t₁.nextPgno ≤ maxpg) (hspills : t₁.spills = t.spills)
    (hown : (∃ t' ∈ t :: ts, Listed t' np.pgno) ∨ ∀ v' ∈ vs, v' np.pgno = none)
    (hroom₁ : t₁.dirtyRoom = t.dirtyRoom) (hroom : t.dirtyRoom ≠ 0)
    (hnot : np.pgno ∉ inMemory (t :: ts)) (hloose : t₁.loosePgs = t.loosePgs)
    (hapart : ∀ t' ∈ ts, np.pgno ∉ t'.loosePgs) :
    ∃ t', t₁.pageDirty np = some t' ∧ Has t t' np.pgno ∧
      Level maxpg map next t' ts (Function.update v np.pgno (some np.data)) vs := by
  have hcount := h.count_le
  have hcard := h.room
  have hdirty₁ : t₁.dirty = t.dirty := by
    funext q
    rw [dirty, dirty, dirtyAt, dirtyAt, hdl]
  have hnone : t.dirty np.pgno = none := by
    rw [← Option.not_isSome_iff_eq_none, ← mem_mids_iff h.lists]
    exact fun hmem => hnot (Finset.mem_union_right _ hmem)
  obtain ⟨dl, hpageDirty, hasc, hdirty⟩ := pageDirty_spec np hlists (hdirty₁ ▸ hnone)
    (by rw [hdl]; omega)
  have hdirty' : { t₁ with dirtyList := dl, dirtyRoom := t₁.dirtyRoom - 1 }.dirty =
      Function.update t.dirty np.pgno (some np) := by
    rw [← hdirty₁]
    exact hdirty
  refine ⟨_, hpageDirty, .of_put hdirty' hspill, ?_⟩
  refine h.put _ np ⟨hasc, hlists.spill, hlists.fits⟩ hdirty' hspill hflags hrange hnext hspills
    hown ?_ ?_ hapart
  · rw [Finset.card_insert_of_notMem hnot]
    show t₁.dirtyRoom - 1 + _ = _
    omega
  · rw [hloose, List.erase_of_not_mem fun hmem => ?_]
    obtain ⟨pg, hpg, -⟩ := (h.loose _).1 hmem
    simp [hnone] at hpg

/-- A page that may be used again: no transaction sees or lists it. -/
structure Unused (s : PageTxns D) (v : PageView D) (vs : List (PageView D)) (r : ℕ) : Prop where
  range : 0 < r ∧ r < s.txn.nextPgno
  unlisted : ∀ t ∈ s.txn :: s.parents, ¬Listed t r
  unseen : ∀ v' ∈ v :: vs, v' r = none

/-- A page allocated is one's own, and new. -/
theorem pageAlloc_spec (h : Stack s.maxpg s.metaNextPgno s.map (s.txn :: s.parents) (v :: vs))
    (reuse : Option ℕ) (hreuse : ∀ r ∈ reuse, Unused s v vs r) (mem : Bool) (fill : ℕ → Page D)
    (hfill : ∀ r, (fill r).pgno = r ∧ ((fill r).dirty = true ∧ (fill r).loose = false) ∧
      (fill r).data = c) :
    ∃ rc r txn, s.pageAlloc reuse mem fill = some ((rc, r), { s with txn }) ∧
      (rc = 0 ∧ v r = none ∧ Has s.txn txn r ∧
        Stack s.maxpg s.metaNextPgno s.map (txn :: s.parents)
          (Function.update v r (some c) :: vs) ∨
        rc ≠ 0 ∧ txn.error = true) := by
  have hlevel := h.head
  unfold pageAlloc
  cases hloose : s.txn.loosePgs with
  | cons r loose =>
    obtain ⟨pg, hpg, -⟩ := (hlevel.loose r).1 (hloose ▸ List.mem_cons_self)
    have hr : Listed s.txn r := .inl (by rw [hpg]; rfl)
    obtain ⟨hpgno, hflags, hdata⟩ := hfill r
    have hpg' : (s.txn.dirty (fill r).pgno).isSome := by rw [hpgno, hpg]; rfl
    obtain ⟨hlists, hdirty⟩ := setPage_spec (fill r) hlevel.lists hpg'
    have hnot : r ∉ s.txn.spillSet := fun hS => by simp [hlevel.disjoint r hS] at hpg
    have hput := hlevel.put ({ s.txn with
      loosePgs := loose, looseCount := s.txn.looseCount - 1 }.setPage (fill r)) (fill r)
      ⟨hlists.asc, hlists.spill, hlists.fits⟩ hdirty
      (by rw [hpgno, Finset.erase_eq_of_notMem hnot]; rfl)
      hflags (by rw [hpgno]; exact hlevel.range r hr) ⟨le_rfl, hlevel.le_max⟩ rfl
      (.inl ⟨s.txn, List.mem_cons_self, hpgno.symm ▸ hr⟩)
      (by
        rw [Finset.insert_eq_of_mem]
        · exact hlevel.room
        · exact Finset.mem_union_right _ ((mem_mids_iff hlevel.lists).2 hpg'))
      (by rw [hpgno, hloose, List.erase_cons_head]; rfl)
      (fun t' ht' hmem => hlevel.apart t' ht' _ hmem (hpgno.symm ▸ hr))
    rw [hpgno, hdata] at hput
    rw [hpgno] at hdirty
    refine ⟨0, r, _, rfl, .inl ⟨rfl, ?_, ?_, .level hput h.tail⟩⟩
    · exact hlevel.unseen s.txn List.mem_cons_self r (hloose ▸ List.mem_cons_self)
    · exact .of_put hdirty (Finset.erase_eq_of_notMem hnot).symm
  | nil =>
    by_cases hroom : s.txn.dirtyRoom = 0
    · exact ⟨mdbTxnFull, 0, _, if_pos hroom, .inr ⟨by decide, rfl⟩⟩
    -- a page that is in no list may be added
    have hadd : ∀ r n, 0 < r → r < n → s.txn.nextPgno ≤ n → n ≤ s.maxpg →
        (∀ t ∈ s.txn :: s.parents, ¬Listed t r) → (∀ v' ∈ v :: vs, v' r = none) →
        ∃ t', { s.txn with nextPgno := n }.pageDirty (fill r) = some t' ∧ Has s.txn t' r ∧
          Stack s.maxpg s.metaNextPgno s.map (t' :: s.parents)
            (Function.update v r (some c) :: vs) := fun r n hpos hlt hle hmax hnot hnone => by
      obtain ⟨hpgno, hflags, hdata⟩ := hfill r
      have hnear : near (s.txn :: s.parents) r = none := near_eq_none_iff.2 hnot
      have hnotS : r ∉ s.txn.spillSet := fun hS => hnot s.txn List.mem_cons_self (.inr hS)
      have hapart : ∀ t ∈ s.parents, (fill r).pgno ∉ t.loosePgs := fun t ht hmem => by
        rw [hpgno] at hmem
        exact hnot t (List.mem_cons_of_mem _ ht) (h.tail.listed_of_loose ht hmem)
      obtain ⟨t', hdirty, hhas, hput⟩ := pageDirty_level
        { s.txn with nextPgno := n } (fill r) hlevel
        ⟨hlevel.lists.asc, hlevel.lists.spill, hlevel.lists.fits⟩ rfl
        (by rw [hpgno, Finset.erase_eq_of_notMem hnotS]; rfl) hflags
        (by rw [hpgno]; exact ⟨hpos, hlt⟩) ⟨hle, hmax⟩ rfl
        (.inr (by rw [hpgno]; exact (List.forall_mem_cons.1 hnone).2)) rfl hroom
        (by rw [hpgno, h.mem_inMemory, hnear]; simp) rfl hapart
      rw [hpgno] at hhas
      rw [hpgno, hdata] at hput
      exact ⟨t', hdirty, hhas, .level hput h.tail⟩
    rw [if_neg hroom]
    cases reuse with
    | some r =>
      cases mem with
      | false => exact ⟨enomem, 0, _, rfl, .inr ⟨by decide, rfl⟩⟩
      | true =>
        have hunused := hreuse r rfl
        obtain ⟨t', hdirty, hhas, hstack⟩ := hadd r s.txn.nextPgno hunused.range.1 hunused.range.2
          le_rfl hlevel.le_max hunused.unlisted hunused.unseen
        have hdirty : s.txn.pageDirty (fill r) = some t' := hdirty
        refine ⟨0, r, t', ?_, .inl ⟨rfl, hunused.unseen v List.mem_cons_self, hhas, hstack⟩⟩
        simp only [if_true, hdirty]
        rfl
    | none =>
      by_cases hmax : s.txn.nextPgno + 1 ≥ s.maxpg
      · exact ⟨mdbMapFull, 0, _, if_pos hmax, .inr ⟨by decide, rfl⟩⟩
      cases mem with
      | false => exact ⟨enomem, 0, _, if_neg hmax, .inr ⟨by decide, rfl⟩⟩
      | true =>
        obtain ⟨hnot, hnone⟩ := h.new_of_le (p := s.txn.nextPgno) le_rfl
        obtain ⟨t', hdirty, hhas, hstack⟩ := hadd s.txn.nextPgno (s.txn.nextPgno + 1) h.next_pos
          (Nat.lt_succ_self _) (Nat.le_succ _) (by omega) hnot hnone
        refine ⟨0, s.txn.nextPgno, t', ?_, .inl ⟨rfl, hnone v List.mem_cons_self, hhas, hstack⟩⟩
        simp only [if_neg hmax, if_true, hdirty]
        rfl

section Touch

variable (h : Stack s.maxpg s.metaNextPgno s.map (s.txn :: s.parents) (v :: vs))
  (hp : v mp.pgno = some mp.data) (hloose : mp.loose = false)

include h hp hloose

/-- A page that is not in memory is fetched, if a transaction lists it. -/
theorem fetch_spec {t₁ : PageTxn D} (hlists : Lists t₁)
    (ht₁ : t₁ = { s.txn with spillPgs := t₁.spillPgs })
    (hspill : t₁.spillSet = s.txn.spillSet.erase mp.pgno)
    (hnear : ∀ pg, near (s.txn :: s.parents) mp.pgno ≠ some (some pg))
    (hlisted : ∃ t ∈ s.txn :: s.parents, Listed t mp.pgno) (mem : Bool) :
    ∃ rc np txn, s.fetch t₁ mp mem = some ((rc, np), { s with txn }) ∧
      (rc = 0 → np = some mp.pgno ∧ Has s.txn txn mp.pgno ∧
        Stack s.maxpg s.metaNextPgno s.map (txn :: s.parents) (v :: vs)) := by
  have hlevel := h.head
  rw [fetch]
  by_cases hroom : s.txn.dirtyRoom = 0
  · exact ⟨mdbTxnFull, none, s.txn, if_pos hroom, fun hrc => absurd hrc (by decide)⟩
  rw [if_neg hroom]
  cases mem with
  | false => exact ⟨enomem, none, s.txn, rfl, fun hrc => absurd hrc (by decide)⟩
  | true =>
    obtain ⟨t, ht, hlt⟩ := hlisted
    obtain ⟨t', hdirty, hhas, hput⟩ := pageDirty_level _ { mp with dirty := true } hlevel
      hlists (by rw [ht₁]) hspill ⟨rfl, hloose⟩ (by rw [ht₁]; exact h.range ht hlt)
      (by rw [ht₁]; exact ⟨le_rfl, hlevel.le_max⟩) (by rw [ht₁]) (.inl ⟨t, ht, hlt⟩)
      (by rw [ht₁]) hroom
      (fun hmem => by
        obtain ⟨pg, hpg⟩ := h.mem_inMemory.1 hmem
        exact hnear pg hpg)
      (by rw [ht₁]) fun t ht => hlevel.not_mem_loosePgs (by rw [hp]; simp) t
        (List.mem_cons_of_mem _ ht)
    have heq : Function.update v mp.pgno (some mp.data) = v := by
      rw [← hp, Function.update_eq_self]
    rw [heq] at hput
    refine ⟨0, some mp.pgno, t', ?_, fun _ => ⟨rfl, hhas, .level hput h.tail⟩⟩
    rw [if_pos rfl, hdirty]
    rfl

/-- A page that is not in memory is fetched if it has been spilled. -/
theorem pageUnspill_spec
    (hnear : ∀ pg, near (s.txn :: s.parents) mp.pgno ≠ some (some pg)) (mem : Bool) :
    ∃ rc np txn, s.pageUnspill mp mem = some ((rc, np), { s with txn }) ∧
      (rc = 0 → np = none ∧ txn = s.txn ∨ np = some mp.pgno ∧ Has s.txn txn mp.pgno ∧
        Stack s.maxpg s.metaNextPgno s.map (txn :: s.parents) (v :: vs)) := by
  unfold pageUnspill
  split
  · rename_i sl x hsl hx
    obtain ⟨hlists, hspill⟩ := unspill_spec h.head.lists hsl hx
    have hmem : mp.pgno ∈ s.txn.spillSet :=
      (isSome_spillAt h.head.lists).1 (Option.isSome_iff_exists.2 ⟨x, hx⟩)
    obtain ⟨rc, np, txn, hfetch, hres⟩ := fetch_spec h hp hloose hlists rfl hspill hnear
      ⟨s.txn, List.mem_cons_self, .inr hmem⟩ mem
    exact ⟨rc, np, txn, hfetch, fun hrc => .inr (hres hrc)⟩
  · rename_i hnone
    split
    · rename_i hany
      obtain ⟨t, ht, hx⟩ := List.any_eq_true.1 hany
      have hmem : mp.pgno ∈ t.spillSet := (isSome_spillAt (h.tail.lists t ht)).1 hx
      have hnot : mp.pgno ∉ s.txn.spillSet := fun hmem' => h.head.once _ hmem' t ht hmem
      obtain ⟨rc, np, txn, hfetch, hres⟩ := fetch_spec h hp hloose h.head.lists rfl
        (Finset.erase_eq_of_notMem hnot).symm hnear
        ⟨t, List.mem_cons_of_mem _ ht, .inr hmem⟩ mem
      exact ⟨rc, np, txn, hfetch, fun hrc => .inr (hres hrc)⟩
    · exact ⟨0, none, s.txn, rfl, fun _ => .inl ⟨rfl, rfl⟩⟩

/-- A page is copied to one's own. -/
theorem copyOnWrite_spec (reuse : Option ℕ) (hreuse : ∀ r ∈ reuse, Unused s v vs r)
    (mem : Bool × Bool) :
    ∃ rc r txn, s.copyOnWrite mp reuse mem = some ((rc, r), { s with txn }) ∧
      (rc = 0 ∧ Has s.txn txn r ∧ Stack s.maxpg s.metaNextPgno s.map (txn :: s.parents)
        (Function.update v r (some mp.data) :: vs) ∨ rc ≠ 0 ∧ txn.error = true) := by
  rw [copyOnWrite]
  cases hneed : s.txn.freePgs.mdbMidlNeed 1 mem.1 with
  | none => exact ⟨enomem, 0, _, rfl, .inr ⟨by decide, rfl⟩⟩
  | some free =>
    obtain ⟨rc, r, txn, halloc, hres⟩ := pageAlloc_spec (c := mp.data)
      (s := { s with txn := { s.txn with freePgs := free } }) (v := v)
      (h.forget (fun _ _ hc => hc) free) reuse
      (fun r hr => by
        obtain ⟨hrange, hlisted, hseen⟩ := hreuse r hr
        exact ⟨hrange, fun t ht => by
          rcases List.mem_cons.1 ht with rfl | ht
          · exact hlisted s.txn List.mem_cons_self
          · exact hlisted t (List.mem_cons_of_mem _ ht), hseen⟩)
      mem.2 (fun pgno => { mp with pgno, dirty := true }) fun r => ⟨rfl, ⟨rfl, hloose⟩, rfl⟩
    simp only [halloc, Option.bind_eq_bind, Option.bind_some]
    rcases hres with ⟨rfl, hr, hhas, hstack⟩ | ⟨hrc, herror⟩
    · have hne : r ≠ mp.pgno := fun heq => by simp [heq, hp] at hr
      have hstack' := hstack.forget (fun _ _ hc => hc) (txn.freePgs.mdbMidlXappend mp.pgno)
      refine ⟨0, r, { txn with freePgs := txn.freePgs.mdbMidlXappend mp.pgno }, ?_,
        .inl ⟨rfl, ⟨hhas.dirty, hhas.frame⟩, hstack'⟩⟩
      rw [if_neg (by simp), if_neg hne]
      rfl
    · refine ⟨rc, 0, txn, ?_, .inr ⟨hrc, herror⟩⟩
      rw [if_pos hrc]
      rfl

/-- A page of a parent is copied, under its number. -/
theorem insert_level (hnear : near (s.txn :: s.parents) mp.pgno = some (some mp))
    (hat : s.txn.dirtyAt mp.pgno = none) :
    ∃ dl, count s.txn.dirtyList < idlUmMax ∧
      Id2l.mdbMid2lInsert s.txn.dirtyList ⟨mp.pgno, { mp with dirty := true }⟩ = (0, dl) ∧
      Has s.txn { s.txn with dirtyList := dl } mp.pgno ∧
      Stack s.maxpg s.metaNextPgno s.map ({ s.txn with dirtyList := dl } :: s.parents)
        (v :: vs) := by
  have hlevel := h.head
  have hnone : s.txn.dirty mp.pgno = none := by rw [dirty, hat, Option.map_none]
  have hmem : mp.pgno ∈ inMemory (s.txn :: s.parents) := h.mem_inMemory.2 ⟨mp, hnear⟩
  have hnot : mp.pgno ∉ s.txn.spillSet := fun hS => by
    rw [near, if_pos hS] at hnear
    simp at hnear
  have hlisted : ∃ t ∈ s.txn :: s.parents, Listed t mp.pgno := by
    by_contra hall
    push Not at hall
    rw [near_eq_none_iff.2 hall] at hnear
    simp at hnear
  obtain ⟨t, ht, hlt⟩ := hlisted
  -- there is room, as the page is in memory but not in the list
  have hcount : count s.txn.dirtyList < idlUmMax := by
    have hroom := hlevel.room
    calc count s.txn.dirtyList
      _ = (mids (entries s.txn.dirtyList)).card := by
        rw [card_mids hlevel.lists.asc.nodup, entries, Cells.length_slice]
      _ < (inMemory (s.txn :: s.parents)).card := by
        refine Finset.card_lt_card ⟨Finset.subset_union_right, fun hsub => ?_⟩
        have hd := (mem_mids_iff hlevel.lists).1 (hsub hmem)
        simp [hnone] at hd
      _ ≤ idlUmMax := by omega
  obtain ⟨dl, hinsert, hasc, hdirty⟩ :=
    insert_spec { mp with dirty := true } hlevel.lists hnone hcount
  have hput := hlevel.put { s.txn with dirtyList := dl } { mp with dirty := true }
    ⟨hasc, hlevel.lists.spill, hlevel.lists.fits⟩ hdirty
    (by rw [Finset.erase_eq_of_notMem hnot]; rfl) ⟨rfl, hloose⟩ (h.range ht hlt)
    ⟨le_rfl, hlevel.le_max⟩ rfl (.inl ⟨t, ht, hlt⟩)
    (by rw [Finset.insert_eq_of_mem hmem]; exact hlevel.room)
    (List.erase_of_not_mem (hlevel.not_mem_loosePgs (by rw [hp]; simp) _ List.mem_cons_self)).symm
    fun t ht => hlevel.not_mem_loosePgs (by rw [hp]; simp) t (List.mem_cons_of_mem _ ht)
  have heq : Function.update v mp.pgno (some mp.data) = v := by
    rw [← hp, Function.update_eq_self]
  rw [heq] at hput
  exact ⟨dl, hcount, hinsert, .of_put hdirty (Finset.erase_eq_of_notMem hnot).symm,
    .level hput h.tail⟩

/-- Touching a page that is seen makes it one's own, with what is seen. -/
theorem pageTouch_spec {reuse : Option ℕ} (hreuse : ∀ r ∈ reuse, Unused s v vs r)
    (hnear : mp.dirty = true ∧ near (s.txn :: s.parents) mp.pgno = some (some mp) ∨
      mp.dirty = false ∧ ∀ pg, near (s.txn :: s.parents) mp.pgno ≠ some (some pg))
    (mem : Bool × Bool) :
    ∃ rc r txn, s.pageTouch mp reuse mem = some ((rc, r), { s with txn }) ∧
      (rc = 0 ∧ Has s.txn txn r ∧ Stack s.maxpg s.metaNextPgno s.map (txn :: s.parents)
        (Function.update v r (some mp.data) :: vs) ∨
        rc ≠ 0 ∧ (txn = s.txn ∨ txn.error = true)) := by
  have hcopy := copyOnWrite_spec h hp hloose _ hreuse mem
  have heq : Function.update v mp.pgno (some mp.data) = v := by
    rw [← hp, Function.update_eq_self]
  rw [pageTouch]
  rcases hnear with ⟨hdirty, hnear⟩ | ⟨hdirty, hnear⟩
  · rw [if_neg (by simp [hdirty])]
    by_cases hparents : s.parents = []
    · rw [if_neg (not_not.2 hparents)]
      refine ⟨0, mp.pgno, s.txn, rfl, .inl ⟨rfl, .refl ?_, by rwa [heq]⟩⟩
      rw [hparents, near] at hnear
      split at hnear
      · simp at hnear
      · split at hnear
        · rename_i hd
          rw [hd]
          rfl
        · simp [near] at hnear
    · rw [if_pos hparents]
      cases hat : s.txn.dirtyAt mp.pgno with
      | some x =>
        refine ⟨0, mp.pgno, s.txn, rfl, .inl ⟨rfl, .refl ?_, by rwa [heq]⟩⟩
        rw [← isSome_dirtyAt, hat]
        rfl
      | none =>
        obtain ⟨dl, hcount, hinsert, hhas, hstack⟩ := insert_level h hp hloose hnear hat
        rw [if_pos hcount]
        cases mem.2 with
        | false => exact ⟨enomem, 0, s.txn, rfl, .inr ⟨by decide, .inl rfl⟩⟩
        | true =>
          refine ⟨0, mp.pgno, _, ?_, .inl ⟨rfl, hhas, by rwa [heq]⟩⟩
          simp only [hinsert, if_true]
  · rw [if_pos (by simp [hdirty])]
    by_cases hspills : s.txn.spills = true
    · rw [if_pos hspills]
      obtain ⟨rc, np, txn, hunspill, hres⟩ := pageUnspill_spec h hp hloose hnear mem.2
      simp only [hunspill, Option.bind_eq_bind, Option.bind_some]
      by_cases hrc : rc = 0
      · rw [if_neg (not_not.2 hrc)]
        rcases hres hrc with ⟨rfl, rfl⟩ | ⟨rfl, hhas, hstack⟩
        · obtain ⟨rc', r, txn, hcopy, hres⟩ := hcopy
          exact ⟨rc', r, txn, hcopy, hres.imp_right fun h => ⟨h.1, .inr h.2⟩⟩
        · exact ⟨0, mp.pgno, txn, rfl, .inl ⟨rfl, hhas, by rwa [heq]⟩⟩
      · rw [if_pos hrc]
        exact ⟨rc, 0, _, rfl, .inr ⟨hrc, .inr rfl⟩⟩
    · rw [if_neg hspills]
      obtain ⟨rc', r, txn, hcopy, hres⟩ := hcopy
      exact ⟨rc', r, txn, hcopy, hres.imp_right fun h => ⟨h.1, .inr h.2⟩⟩

omit hp in
/-- A page given up is not seen any more. -/
theorem pageLoose_spec
    (hnear : mp.dirty = true → near (s.txn :: s.parents) mp.pgno = some (some mp))
    (freeDbi mem : Bool) :
    ∃ rc txn, s.pageLoose mp freeDbi mem = (rc, { s with txn }) ∧
      (rc = 0 ∧ (∀ q, Listed txn q → Listed s.txn q) ∧
        Stack s.maxpg s.metaNextPgno s.map (txn :: s.parents)
          (Function.update v mp.pgno none :: vs) ∨ rc ≠ 0 ∧ txn = s.txn) := by
  rw [pageLoose]
  split
  · rename_i hcond
    obtain ⟨hdirty, -, hours⟩ := hcond
    -- the page is dirty in the transaction itself
    have hown : s.txn.dirty mp.pgno = some mp := by
      have hnear := hnear hdirty
      rw [near] at hnear
      split at hnear
      · simp at hnear
      · split at hnear
        · rename_i pg hd
          rw [hd, Option.some.inj hnear]
        · rename_i hd
          by_cases hparents : s.parents = []
          · simp [hparents, near] at hnear
          · have hsome := hours hparents
            rw [isSome_dirtyAt, hd] at hsome
            simp at hsome
    obtain ⟨hlists, hset⟩ := setPage_spec { mp with loose := true } h.head.lists
      (by rw [hown]; rfl)
    refine ⟨0, _, rfl, .inl ⟨rfl, fun q => (listed_iff_of_set hset rfl (by rw [hown]; rfl)).1,
      .level (h.head.loosen ⟨hlists.asc, hlists.spill, hlists.fits⟩ hown hloose hset rfl rfl rfl
        rfl rfl) h.tail⟩⟩
  · cases happend : s.txn.freePgs.mdbMidlAppend mp.pgno mem with
    | none => exact ⟨enomem, s.txn, rfl, .inr ⟨by decide, rfl⟩⟩
    | some free =>
      refine ⟨0, _, rfl, .inl ⟨rfl, fun _ hq => hq, h.forget (fun q c hq => ?_) free⟩⟩
      by_cases heq : q = mp.pgno
      · rw [heq, Function.update_self] at hq
        simp at hq
      · rwa [Function.update_of_ne heq] at hq

end Touch

/-- Writing to a page of one's own. -/
theorem setPage_level {t : PageTxn D} {ts : List (PageTxn D)} {maxpg metaNext : ℕ}
    {map : ℕ → Page D} (h : Stack maxpg metaNext map (t :: ts) (Function.update v r (some c) :: vs))
    (hr : (t.dirty r).isSome) (data : D) :
    (∀ q, Listed (t.setPage ⟨r, true, false, data⟩) q → Listed t q) ∧
      Stack maxpg metaNext map (t.setPage ⟨r, true, false, data⟩ :: ts)
        (Function.update v r (some data) :: vs) := by
  have hlisted : Listed t r := .inl hr
  have hseen : Function.update v r (some c) r ≠ none := by rw [Function.update_self]; simp
  have hnot : r ∉ t.spillSet := fun hS => by simp [h.head.disjoint r hS] at hr
  obtain ⟨hlists, hdirty⟩ := setPage_spec ⟨r, true, false, data⟩ h.head.lists hr
  have hput := h.head.put _ ⟨r, true, false, data⟩ hlists hdirty
    (Finset.erase_eq_of_notMem hnot).symm ⟨rfl, rfl⟩ (h.head.range r hlisted)
    ⟨le_rfl, h.head.le_max⟩ rfl (.inl ⟨t, List.mem_cons_self, hlisted⟩)
    (by
      rw [Finset.insert_eq_of_mem]
      · exact h.head.room
      · exact Finset.mem_union_right _ ((mem_mids_iff h.head.lists).2 hr))
    (List.erase_of_not_mem (h.head.not_mem_loosePgs hseen t List.mem_cons_self)).symm
    fun t' ht' => h.head.not_mem_loosePgs hseen t' (List.mem_cons_of_mem _ ht')
  rw [Function.update_idem] at hput
  exact ⟨fun q => (listed_iff_of_set hdirty rfl hr).1, .level hput h.tail⟩

/-! ## Calls -/

/-- What a transaction sees, and what is seen under it: by its parents, and last of what has been
    committed. -/
structure Views (D : Type) where
  now : PageView D
  under : List (PageView D)

/-- The views when a transaction is given up. -/
def Views.back (w : Views D) : Views D :=
  match w.under with
  | [base] => ⟨base, [base]⟩
  | v :: under => ⟨v, under⟩
  | [] => w

/-- The views after a call, given its result. -/
def Views.after (w : Views D) : Call D → Int × ℕ → Views D
  | .new data _ _, (rc, pgno) | .write _ data _ _, (rc, pgno) =>
    if rc = 0 then { w with now := Function.update w.now pgno (some data) } else w
  | .loose pgno _ _, (rc, _) =>
    if rc = 0 then { w with now := Function.update w.now pgno none } else w
  | .spill _ _ _, _ => w
  | .begin _, (rc, _) => if rc = 0 then ⟨w.now, w.now :: w.under⟩ else w
  | .commit _, (rc, _) =>
    if rc = 0 then
      match w.under with
      | [_] => ⟨w.now, [w.now]⟩
      | _ :: under => ⟨w.now, under⟩
      | [] => w
    else w.back
  | .abort, _ => w.back

/-- What calls may be made: pages that are used again are unused, others written to are seen. No
    spill list gets 2^29 entries. -/
def Allowed (s : PageTxns D) (w : Views D) (c : Call D) : Prop :=
  (∀ t ∈ s.txn :: s.parents, ∀ sl ∈ t.spillPgs, sl.count < 2 ^ 29) ∧
    match c with
    | .new _ reuse _ => ∀ r ∈ reuse, Unused s w.now w.under r
    | .write p _ reuse _ => w.now p ≠ none ∧ ∀ r ∈ reuse, Unused s w.now w.under r
    | .loose p _ _ => w.now p ≠ none
    | _ => True

/-- The pages that have been had to write to, after a call, given its result. -/
def given (own : Finset ℕ) : Call D → Int × ℕ → Finset ℕ
  | .new _ _ _, (rc, pgno) | .write _ _ _ _, (rc, pgno) =>
    if rc = 0 then insert pgno own else own
  | _, _ => own

/-- The pages hold the views, but for that of a transaction that has failed. No others are listed
    than have been had to write to. -/
structure Holds (s : PageTxns D) (w : Views D) (own : Finset ℕ) : Prop where
  max : s.maxpg < 2 ^ 63
  parents : Stack s.maxpg s.metaNextPgno s.map s.parents w.under
  listed : ∀ t ∈ s.parents, ∀ p, Listed t p → p ∈ own
  txn : s.txn.error = false →
    Stack s.maxpg s.metaNextPgno s.map (s.txn :: s.parents) (w.now :: w.under)
  own : s.txn.error = false → ∀ p, Listed s.txn p → p ∈ own

theorem Holds.of_stack (hmax : s.maxpg < 2 ^ 63)
    (hlisted : ∀ t ∈ s.txn :: s.parents, ∀ p, Listed t p → p ∈ own)
    (h : Stack s.maxpg s.metaNextPgno s.map (s.txn :: s.parents) (v :: vs)) :
    Holds s ⟨v, vs⟩ own :=
  ⟨hmax, h.tail, (List.forall_mem_cons.1 hlisted).2, fun _ => h,
    fun _ => (List.forall_mem_cons.1 hlisted).1⟩

theorem Holds.mono {w : Views D} (h : Holds s w own) (hown : own ⊆ own') : Holds s w own' :=
  ⟨h.max, h.parents, fun t ht p hp => hown (h.listed t ht p hp), h.txn,
    fun herror p hp => hown (h.own herror p hp)⟩

/-- After another one, the outermost transaction sees what has been committed. -/
theorem txnRenew_holds (hmax : s.maxpg < 2 ^ 63)
    (h : Stack s.maxpg s.metaNextPgno s.map [] [v]) : Holds s.txnRenew ⟨v, [v]⟩ own := by
  have hle : s.metaNextPgno ≤ s.maxpg := by
    cases h with
    | base _ hmax _ => exact hmax
  refine .of_stack hmax (fun t ht p hp => absurd hp ?_)
    (h.fresh s.txn.freePgs rfl hle rfl s.txn.dirtyList (by simp))
  rw [List.mem_singleton.1 ht]
  exact not_listed_fresh

theorem txnAbort_holds {w : Views D} (h : Holds s w own) : Holds s.txnAbort w.back own := by
  obtain ⟨now, under⟩ := w
  have hparents := h.parents
  have hlisted := h.listed
  rw [txnAbort]
  generalize s.parents = ts at hparents hlisted
  cases hparents with
  | base hpos hle hv => exact txnRenew_holds h.max (.base hpos hle hv)
  | @level t ts v vs hlevel hstack =>
    have hstack' := Stack.level hlevel hstack
    cases hstack with
    | base => exact .of_stack h.max hlisted hstack'
    | level => exact .of_stack h.max hlisted hstack'

/-- The pages of the outermost transaction are in the file after they have been flushed. -/
theorem pageFlush_shows (h : Stack s.maxpg s.metaNextPgno s.map [s.txn] (v :: vs))
    (hp : v p = some c) :
    p < s.txn.nextPgno ∧ (s.pageFlush 0 fun _ => false).map p = ⟨p, false, false, c⟩ := by
  obtain ⟨hlt, hshows⟩ := h.head.view p c hp
  refine ⟨hlt, ?_⟩
  obtain ⟨-, hmap, hframe, -⟩ :=
    pageFlush_spec h.head.numbered (Nat.zero_le _) fun _ => false
  have hclean : s.txn.dirty p = none →
      (s.pageFlush 0 fun _ => false).map p = s.map p := fun hnone => by
    refine hframe p fun hF => ?_
    have hsome := (mem_mids_iff h.head.lists).1 (flushed_subset hF)
    simp [hnone] at hsome
  rw [Shows, near] at hshows
  split at hshows
  · rename_i pg hnear
    by_cases hS : p ∈ s.txn.spillSet
    · simp [hS] at hnear
    rw [if_neg hS] at hnear
    cases hd : s.txn.dirty p with
    | none => simp [hd, near] at hnear
    | some pg' =>
      rw [hd] at hnear
      obtain rfl : pg' = pg := Option.some.inj (Option.some.inj hnear)
      obtain ⟨rfl, hloose⟩ := hshows
      have hmem := (dirty_eq_some_iff h.head.lists).1 hd
      obtain ⟨k, hk, hkn, heq⟩ := Cells.mem_slice.1 hmem
      have hF : p ∈ flushed s.txn.dirtyList 0 fun _ => false := by
        refine mem_flushed.2 ⟨k, hk, by omega, by rw [heq], ?_⟩
        rw [heq, Kept]
        simp [hloose]
      have hpgno := (h.head.page p pg' hd).1
      rw [hmap ⟨p, pg'⟩ hmem hF]
      dsimp only
      rw [hpgno, hloose]
  · rename_i hnear
    rw [hclean, hshows]
    cases hd : s.txn.dirty p with
    | none => rfl
    | some pg =>
      by_cases hS : p ∈ s.txn.spillSet
      · simp [h.head.disjoint p hS] at hd
      · exact absurd (by rw [if_neg hS, hd]) (hnear pg)

theorem txnCommit_holds {w : Views D} (h : Holds s w own)
    (hlong : ∀ t ∈ s.txn :: s.parents, ∀ sl ∈ t.spillPgs, sl.count < 2 ^ 29) (mem : Bool × Bool) :
    ∃ rc s', s.txnCommit mem = some (rc, s') ∧ Holds s' (w.after (.commit mem) (rc, 0)) own := by
  obtain ⟨now, under⟩ := w
  have habort := txnAbort_holds h
  rw [txnCommit]
  cases hts : s.parents with
  | nil =>
    dsimp only
    by_cases herror : s.txn.error = true
    · rw [if_pos herror]
      exact ⟨mdbBadTxn, _, rfl, habort⟩
    rw [if_neg herror]
    have hstack := h.txn (Bool.eq_false_iff.2 herror)
    rw [hts] at hstack
    refine ⟨0, _, rfl, ?_⟩
    have hbase : Stack s.maxpg s.txn.nextPgno (s.pageFlush 0 fun _ => false).map [] [now] :=
      .base hstack.next_pos hstack.head.le_max fun p c hp => pageFlush_shows hstack hp
    have hunder := hstack.tail
    cases hunder with
    | base => exact txnRenew_holds h.max hbase
  | cons parent ts =>
    have hparents := h.parents
    have hlisted := h.listed
    rw [hts] at hparents hlisted
    obtain ⟨v, vs, rfl⟩ : ∃ v vs, under = v :: vs := by
      cases hparents with
      | level => exact ⟨_, _, rfl⟩
    have hafter : ∀ rc, Views.after ⟨now, v :: vs⟩ (.commit mem : Call D) (rc, 0) =
        if rc = 0 then ⟨now, vs⟩ else ⟨v, vs⟩ := fun rc => by
      have hrest := hparents.tail
      cases hrest with
      | base => rfl
      | level => rfl
    have hfail : ∀ {s' : PageTxns D}, s'.maxpg = s.maxpg → s'.metaNextPgno = s.metaNextPgno →
        s'.map = s.map → s'.parents = ts → s'.txn.error = true → Holds s' ⟨v, vs⟩ own :=
      fun hmax hmeta hmap hparents' herror => by
        refine ⟨hmax ▸ h.max, ?_, fun t ht => hlisted t (List.mem_cons_of_mem _ (hparents' ▸ ht)),
          fun hfalse => by simp [herror] at hfalse, fun hfalse => by simp [herror] at hfalse⟩
        rw [hmax, hmeta, hmap, hparents']
        exact hparents.tail
    dsimp only
    by_cases herror : s.txn.error = true
    · rw [if_pos herror]
      refine ⟨mdbBadTxn, _, rfl, ?_⟩
      rw [hafter, if_neg (by decide)]
      exact hfail rfl rfl rfl rfl rfl
    rw [if_neg herror]
    cases happend : parent.freePgs.mdbMidlAppendList s.txn.freePgs mem.1 with
    | none =>
      refine ⟨enomem, _, rfl, ?_⟩
      rw [hafter, if_neg (by decide), txnAbort, hts]
      exact .of_stack h.max hlisted hparents
    | some free =>
      have hstack := h.txn (Bool.eq_false_iff.2 herror)
      have hown := h.own (Bool.eq_false_iff.2 herror)
      rw [hts] at hstack
      have hlevel := hstack.head
      have hsub : mergedPages s.txn parent ⊆ inMemory (s.txn :: parent :: ts) := by
        rw [inMemory_eq]
        exact Finset.subset_union_right
      have hcard := Finset.card_le_card hsub
      have hroom := hlevel.room
      obtain ⟨rc, txn, hmerge, hres⟩ := mergeInto_spec ts.isEmpty hlevel.lists
        hparents.head.lists
        (fun p pg hp => by
          obtain ⟨hpos, hlt⟩ := hlevel.range p (.inl (by rw [hp]; rfl))
          have hle := hlevel.le_max
          have hmax := h.max
          exact ⟨hpos, by rw [idMax]; omega⟩)
        (hlong s.txn List.mem_cons_self)
        (hlong parent (List.mem_cons_of_mem _ (hts ▸ List.mem_cons_self)))
        (fun p hp => hlevel.once p hp parent List.mem_cons_self)
        (fun hempty => by
          rw [List.isEmpty_iff.1 hempty, inMemory_eq] at hroom
          simp only [inMemory, Finset.empty_sdiff, Finset.empty_union] at hroom
          omega)
        (by omega) free mem.2
      simp only [hmerge, Option.bind_eq_bind, Option.bind_some]
      refine ⟨rc, _, rfl, ?_⟩
      rcases hres with ⟨hrc, herror⟩ | ⟨rfl, hmerged⟩
      · rw [hafter, if_neg hrc]
        exact hfail rfl rfl rfl rfl herror
      · rw [hafter, if_pos rfl]
        refine .of_stack h.max (List.forall_mem_cons.2 ⟨fun p hp => ?_,
          (List.forall_mem_cons.1 hlisted).2⟩) (hstack.merged hmerged)
        rcases hmerged.listed_iff.1 hp with hp | hp
        · exact hown p hp
        · exact hlisted parent List.mem_cons_self p hp

/-- A call keeps the pages in accordance with the views, and no assertion fails. -/
theorem call_holds {w : Views D} (h : Holds s w own) (c : Call D) (hc : Allowed s w c) :
    ∃ out s', s.call c = some (out, s') ∧ Holds s' (w.after c out) (given own c out) := by
  obtain ⟨now, under⟩ := w
  obtain ⟨hlong, hc⟩ := hc
  -- a transaction that has failed stays as it is
  have hfailed : ∀ {s' : PageTxns D} {w' : PageView D}, s'.maxpg = s.maxpg →
      s'.metaNextPgno = s.metaNextPgno → s'.map = s.map → s'.parents = s.parents →
      s'.txn.error = true → Holds s' ⟨w', under⟩ own :=
    fun hmax hmeta hmap hparents herror => by
      refine ⟨hmax ▸ h.max, ?_, fun t ht => h.listed t (hparents ▸ ht),
        fun hfalse => by simp [herror] at hfalse, fun hfalse => by simp [herror] at hfalse⟩
      rw [hmax, hmeta, hmap, hparents]
      exact h.parents
  -- the innermost one may have got a page
  have hgot : ∀ {txn : PageTxn D} {r : ℕ}, s.txn.error = false →
      (∀ q, Listed txn q → q = r ∨ Listed s.txn q) →
      ∀ t ∈ txn :: s.parents, ∀ q, Listed t q → q ∈ insert r own := fun herror hframe => by
    refine List.forall_mem_cons.2 ⟨fun q hq => Finset.mem_insert.2 ?_,
      fun t ht q hq => Finset.mem_insert_of_mem (h.listed t ht q hq)⟩
    exact (hframe q hq).imp_right (h.own herror q)
  have hkept : ∀ {txn : PageTxn D}, s.txn.error = false →
      (∀ q, Listed txn q → Listed s.txn q) →
      ∀ t ∈ txn :: s.parents, ∀ q, Listed t q → q ∈ own := fun herror hframe =>
    List.forall_mem_cons.2 ⟨fun q hq => h.own herror q (hframe q hq), h.listed⟩
  cases c with
  | new data reuse mem =>
    by_cases herror : s.txn.error = true
    · exact ⟨(mdbBadTxn, 0), s, if_pos herror, hfailed rfl rfl rfl rfl herror⟩
    obtain ⟨rc, r, txn, halloc, hres⟩ := pageAlloc_spec (h.txn (Bool.eq_false_iff.2 herror)) _ hc
      mem (fun pgno => ⟨pgno, true, false, data⟩) fun r => ⟨rfl, ⟨rfl, rfl⟩, rfl⟩
    refine ⟨(rc, r), _, (if_neg herror).trans halloc, ?_⟩
    rcases hres with ⟨rfl, -, hhas, hstack⟩ | ⟨hrc, herror⟩
    · exact .of_stack h.max (hgot (Bool.eq_false_iff.2 herror) hhas.frame) hstack
    · rw [Views.after, given, if_neg hrc, if_neg hrc]
      exact hfailed rfl rfl rfl rfl herror
  | write p data reuse mem =>
    by_cases herror : s.txn.error = true
    · exact ⟨(mdbBadTxn, 0), s, if_pos herror, hfailed rfl rfl rfl rfl herror⟩
    have hstack := h.txn (Bool.eq_false_iff.2 herror)
    obtain ⟨c, hp⟩ := Option.ne_none_iff_exists'.1 hc.1
    obtain ⟨mp, level, hget, rfl, rfl, hloose, hnear⟩ := pageGet_spec hstack hp
    obtain ⟨rc, r, txn, htouch, hres⟩ := pageTouch_spec hstack hp hloose hc.2 hnear mem
    rcases hres with ⟨rfl, hhas, hstack⟩ | ⟨hrc, hres⟩
    · obtain ⟨hframe, hstack⟩ := setPage_level hstack hhas.dirty data
      refine ⟨(0, r), { s with txn := txn.setPage ⟨r, true, false, data⟩ }, ?_, .of_stack h.max
        (hgot (Bool.eq_false_iff.2 herror) fun q hq => hhas.frame q (hframe q hq)) hstack⟩
      simp only [call, if_neg herror, hget, htouch, Option.bind_eq_bind, Option.bind_some]
      rfl
    · refine ⟨(rc, 0), { s with txn }, ?_, ?_⟩
      · simp only [call, if_neg herror, hget, htouch, Option.bind_eq_bind, Option.bind_some]
        rw [if_pos hrc]
        rfl
      · rw [Views.after, given, if_neg hrc, if_neg hrc]
        rcases hres with rfl | herror
        · exact h
        · exact hfailed rfl rfl rfl rfl herror
  | loose p freeDbi mem =>
    by_cases herror : s.txn.error = true
    · exact ⟨(mdbBadTxn, 0), s, if_pos herror, hfailed rfl rfl rfl rfl herror⟩
    have hstack := h.txn (Bool.eq_false_iff.2 herror)
    obtain ⟨c, hp⟩ := Option.ne_none_iff_exists'.1 hc
    obtain ⟨mp, level, hget, rfl, rfl, hloose, hnear⟩ := pageGet_spec hstack hp
    have hnear' : mp.dirty = true → near (s.txn :: s.parents) mp.pgno = some (some mp) :=
      fun hdirty => (hnear.resolve_right fun h => by simp [hdirty] at h).2
    obtain ⟨rc, txn, hpageLoose, hres⟩ := pageLoose_spec hstack hloose hnear' freeDbi mem
    refine ⟨(rc, mp.pgno), { s with txn }, ?_, ?_⟩
    · simp only [call, if_neg herror, hget, hpageLoose]
    · rcases hres with ⟨rfl, hframe, hstack⟩ | ⟨hrc, rfl⟩
      · exact .of_stack h.max (hkept (Bool.eq_false_iff.2 herror) hframe) hstack
      · rw [Views.after, if_neg hrc]
        exact h
  | spill need keep mem =>
    by_cases herror : s.txn.error = true
    · exact ⟨(mdbBadTxn, 0), s, if_pos herror, hfailed rfl rfl rfl rfl herror⟩
    have hstack := h.txn (Bool.eq_false_iff.2 herror)
    obtain ⟨rc, s', hspill, hres⟩ := pageSpill_spec hstack.head.lists hstack.head.numbered
      hstack.tail.lists hstack.head.disjoint (hlong s.txn List.mem_cons_self) need keep mem
    refine ⟨(rc, 0), s', ?_, ?_⟩
    · simp only [call, if_neg herror, hspill, Option.bind_eq_bind, Option.bind_some]
      rfl
    · rcases hres with rfl | ⟨txn, rfl, herror⟩ | ⟨F, hF⟩
      · exact h
      · exact hfailed rfl rfl rfl rfl herror
      · have hspilled := hstack.spilled hF
        rw [← hF.maxpg, ← hF.metaNextPgno] at hspilled
        refine .of_stack (hF.maxpg.symm ▸ h.max) ?_ hspilled
        rw [hF.parents]
        exact hkept (Bool.eq_false_iff.2 herror) fun q => hF.listed_iff.1
  | begin mem =>
    refine ⟨((s.txnBegin mem).1, 0), (s.txnBegin mem).2, rfl, ?_⟩
    rw [txnBegin]
    by_cases herror : s.txn.error = true
    · rw [if_pos herror]
      exact hfailed rfl rfl rfl rfl herror
    rw [if_neg herror]
    cases mem with
    | false => exact h
    | true =>
      have hstack := h.txn (Bool.eq_false_iff.2 herror)
      refine .of_stack h.max (List.forall_mem_cons.2 ⟨fun p hp => absurd hp not_listed_fresh, ?_⟩)
        (hstack.fresh ⟨idlUmMax, fun _ => 0⟩ rfl hstack.head.le_max hstack.head.room
          s.txn.dirtyList hstack.head.spills)
      exact hkept (Bool.eq_false_iff.2 herror) fun q hq => hq
  | commit mem =>
    obtain ⟨rc, s', hcommit, hres⟩ := txnCommit_holds h hlong mem
    refine ⟨(rc, 0), s', ?_, hres⟩
    simp only [call, hcommit, Option.bind_eq_bind, Option.bind_some]
    rfl
  | abort => exact ⟨(0, 0), s.txnAbort, rfl, txnAbort_holds h⟩

/-! ## Runs -/

/-- Transactions run side by side with what they see. After a failed assertion there are no
    transactions. -/
def viewMachine (D : Type) :
    Machine (Option (PageTxns D) × Views D) (Call D) (Option (Int × ℕ)) where
  step x c :=
    match x.1.bind (·.call c) with
    | some (out, s) => (some out, some s, x.2.after c out)
    | none => (none, none, x.2)

/-- The next transaction on a file, and what has been committed there. -/
structure Committed (s : PageTxns D) (base : PageView D) : Prop where
  max : s.maxpg < 2 ^ 63
  next : 0 < s.metaNextPgno ∧ s.metaNextPgno ≤ s.maxpg
  base : ∀ p c, base p = some c → p < s.metaNextPgno ∧ s.map p = ⟨p, false, false, c⟩

/-- The calls of a run are allowed. -/
def AllowedRun (s : PageTxns D) (base : PageView D) (cs : List (Call D)) : Prop :=
  (viewMachine D).Along (fun x c => ∀ s ∈ x.1, Allowed s x.2 c)
    (some s.txnRenew, ⟨base, [base]⟩) cs

theorem run_holds {base : PageView D} (hs : Committed s base) {cs : List (Call D)}
    (hcs : AllowedRun s base cs) :
    ∃ s' w, (viewMachine D).run (some s.txnRenew, ⟨base, [base]⟩) cs = (some s', w) ∧
      ∃ own, Holds s' w own := by
  refine Machine.run_of_inv (I := fun x => ∃ s' w, x = (some s', w) ∧ ∃ own, Holds s' w own) ?_
    ⟨_, _, rfl, ∅, txnRenew_holds hs.max (.base hs.next.1 hs.next.2 hs.base)⟩ hcs
  rintro _ c ⟨s, w, rfl, own, hholds⟩ hc
  obtain ⟨out, s', hcall, hholds'⟩ := call_holds hholds c (hc s rfl)
  refine ⟨s', w.after c out, ?_, given own c out, hholds'⟩
  simp only [Machine.next, viewMachine, Option.bind_some, hcall]

/-- A file of three pages. -/
def threePages : PageTxns ℕ where
  map p := ⟨p, false, false, p⟩
  maxpg := 100
  metaNextPgno := 3
  txn := .fresh 3 ⟨idlUmMax, fun _ => 0⟩ idlUmMax (fun _ => ⟨0, ⟨0, false, false, 0⟩⟩) false
  parents := []

theorem committed_threePages : Committed threePages fun p => if p < 3 then some p else none where
  max := by decide
  next := by decide
  base p c hp := by
    obtain ⟨hlt, hp⟩ := Option.ite_none_right_eq_some.1 hp
    exact ⟨hlt, by rw [← Option.some.inj hp]; rfl⟩

/-- A page is written to, and spilled. A nested transaction fetches it back, writes to it and
    commits, before the outermost one does. In the end, two transactions are given up. -/
def threePagesCalls : List (Call ℕ) :=
  [.write 2 7 none (true, true), .spill idlUmMax (fun _ => false) (true, true), .begin true,
    .write 3 8 none (true, true), .commit (true, true), .commit (true, true),
    .new 9 none true, .begin true, .loose 4 false true, .abort, .abort]

theorem allowedRun_threePages :
    AllowedRun threePages (fun p => if p < 3 then some p else none) threePagesCalls := by
  refine ⟨fun s hs => ⟨?_, by decide, by simp⟩, fun s hs => ⟨?_, trivial⟩,
    fun s hs => ⟨?_, trivial⟩, fun s hs => ⟨?_, by decide +kernel, by simp⟩,
    fun s hs => ⟨?_, trivial⟩, fun s hs => ⟨?_, trivial⟩, fun s hs => ⟨?_, by simp⟩,
    fun s hs => ⟨?_, trivial⟩,
    fun s hs => ⟨?_, Option.isSome_iff_ne_none.1 (by decide +kernel)⟩, fun s hs => ⟨?_, trivial⟩,
    fun s hs => ⟨?_, trivial⟩, trivial⟩
  -- the spill lists stay small
  all_goals
    revert s
    decide +kernel

/-- In every run of nested transactions no assertion fails, and unless the innermost one has failed,
    it reads what it sees of the pages: what it has written, over what its parents had when it
    began, over what has been committed, whatever has been spilled and merged on the way. -/
theorem run_pageGet (s : PageTxns D) (base : PageView D) (hs : Committed s base)
    (cs : List (Call D)) (hcs : AllowedRun s base cs) :
    ∃ s' w, (viewMachine D).run (some s.txnRenew, ⟨base, [base]⟩) cs = (some s', w) ∧
      (s'.txn.error = false → ∀ p c, w.now p = some c →
        ∃ mp level, s'.pageGet p = some (mp, level) ∧ mp.pgno = p ∧ mp.data = c) := by
  obtain ⟨s', w, hrun, own, hholds⟩ := run_holds hs hcs
  refine ⟨s', w, hrun, fun herror p c hp => ?_⟩
  obtain ⟨mp, level, hget, hpgno, hdata, -⟩ := pageGet_spec (hholds.txn herror) hp
  exact ⟨mp, level, hget, hpgno, hdata⟩

theorem run_pageGet_threePages :
    ∃ s' w, (viewMachine ℕ).run (some threePages.txnRenew, ⟨fun p => if p < 3 then some p else none,
        [fun p => if p < 3 then some p else none]⟩) threePagesCalls = (some s', w) ∧
      (s'.txn.error = false → ∀ p c, w.now p = some c →
        ∃ mp level, s'.pageGet p = some (mp, level) ∧ mp.pgno = p ∧ mp.data = c) :=
  run_pageGet threePages _ committed_threePages _ allowedRun_threePages

/-- In every run of nested transactions, the file holds what has been committed, however the pages
    are written to, spilled and given up: the next transaction, or another process that opens the
    file, finds the last commit there. -/
theorem run_map (s : PageTxns D) (base : PageView D) (hs : Committed s base)
    (cs : List (Call D)) (hcs : AllowedRun s base cs) :
    ∃ s' w, (viewMachine D).run (some s.txnRenew, ⟨base, [base]⟩) cs = (some s', w) ∧
      ∀ v ∈ w.under.getLast?, ∀ p c, v p = some c →
        p < s'.metaNextPgno ∧ s'.map p = ⟨p, false, false, c⟩ := by
  obtain ⟨s', w, hrun, own, hholds⟩ := run_holds hs hcs
  exact ⟨s', w, hrun, fun v hv p c hp => hholds.parents.getLast hv hp⟩

theorem run_map_threePages :
    ∃ s' w, (viewMachine ℕ).run (some threePages.txnRenew, ⟨fun p => if p < 3 then some p else none,
        [fun p => if p < 3 then some p else none]⟩) threePagesCalls = (some s', w) ∧
      ∀ v ∈ w.under.getLast?, ∀ p c, v p = some c →
        p < s'.metaNextPgno ∧ s'.map p = ⟨p, false, false, c⟩ :=
  run_map threePages _ committed_threePages _ allowedRun_threePages

end PageTxns

end KotlinLmdb
