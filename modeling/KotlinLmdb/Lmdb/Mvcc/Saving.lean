import KotlinLmdb.Lmdb.Mvcc.FreeList

/-!
# The free list is saved

Saving the free list changes it: putting and deleting its records uses pages and frees others. The
loop of `mdb_freelist_save` comes back to what it has saved already, until nothing has changed.
Between its steps anything may have been allocated or freed. Each step keeps what has been saved
in order (`Save.Valid`), none of its assertions fails (`Valid.delete`), and when it is done, there
is room for all pages in the records it has reserved, whose numbers are those of records it has
deleted (`Saved`). So the free list that is written has each page once that is not used
(`Valid.commit`).
-/

namespace KotlinLmdb

variable {D : Type}

open Mvcc (nextRecord fillRecords savedMop freelistSave startSave)

/-! ## Steps of the loop -/

namespace Save

variable {v v' : Save} {w : Writer D} {m : ℕ} {mopLen : ℤ}

theorem valid_init (hloose : w.pghead = none → w.loosePgs = []) : init.Valid w where
  loose := hloose
  freecnt := Nat.zero_le _
  own _ := rfl
  sorted := List.Pairwise.nil
  ids := List.Pairwise.nil
  id_range _ hr := absurd hr List.not_mem_nil
  behind hne := ⟨Nat.pos_of_ne_zero hne.symm, Nat.pos_of_ne_zero hne.symm⟩
  rooms heq := ⟨heq, rfl, rfl, fun _ hr => absurd hr List.not_mem_nil, le_rfl, fun h => h⟩

/-- There is a first record, which is one of those used. -/
theorem Valid.delete (h : v.Valid w) (hids : (w.snap.free.map Prod.fst).Pairwise (· < ·))
    (hmem : w.pglast = 0 ∨ ∃ r ∈ w.snap.free, r.1 = w.pglast) (hlt : v.pglast < w.pglast) :
    ∃ v', v.delete w.snap.free = some v' ∧ v'.pglast ≤ w.pglast ∧ v'.Valid w := by
  obtain ⟨-, hdeleted⟩ := h.behind hlt.ne
  unfold Save.delete
  cases hreserved : v.reserved with
  | cons r reserved =>
    -- one that has been reserved
    obtain ⟨id, len⟩ := r
    have hids' := h.ids
    have hrange := h.id_range
    rw [hreserved] at hids' hrange
    have hid := hrange _ List.mem_cons_self
    refine ⟨_, rfl, hid.2.trans hdeleted.le, { h with
      ids := hids'.tail
      id_range := fun r hr => hrange r (List.mem_cons_of_mem _ hr)
      behind := fun _ => ⟨hid.2.trans_lt hdeleted, hdeleted⟩
      rooms := fun heq => ?_ }⟩
    exact absurd (heq ▸ hid.2) hdeleted.not_ge
  | nil =>
    -- one there was: the last one used is still there
    obtain ⟨r, hr, hrlast⟩ := hmem.resolve_left (by omega)
    have hfound : (nextRecord w.snap.free v.deleted).isSome := by
      rw [nextRecord, List.find?_isSome]
      exact ⟨r, hr, decide_eq_true (hrlast ▸ hdeleted)⟩
    obtain ⟨⟨id, pgs⟩, hnext⟩ := Option.isSome_iff_exists.1 hfound
    obtain ⟨-, hgt, hfilter⟩ := nextRecord_spec hids hnext
    have hle : id ≤ w.pglast := by
      have hmem : r ∈ w.snap.free.filter (v.deleted < ·.1) :=
        List.mem_filter.2 ⟨hr, decide_eq_true (hrlast ▸ hdeleted)⟩
      rw [hfilter] at hmem
      rcases List.mem_cons.1 hmem with rfl | hmem
      · exact hrlast.le
      · rw [← hrlast]
        exact (of_decide_eq_true (List.mem_filter.1 hmem).2 : id < r.1).le
    rw [hnext]
    refine ⟨_, rfl, hle, { h with
      ids := List.Pairwise.nil
      id_range := fun r hr => absurd hr List.not_mem_nil
      behind := fun hne => ⟨lt_of_le_of_ne hle hne, lt_of_le_of_ne hle hne⟩
      rooms := fun heq => ⟨heq, rfl, rfl, fun r hr => absurd hr List.not_mem_nil, le_rfl,
        fun hpos => hpos⟩ }⟩

theorem room_nonneg : 0 ≤ v.room m mopLen := by
  rw [room]
  split
  · rename_i hfull
    generalize mopLen - (v.totalRoom - v.headRoom) = headRoom at hfull
    have hdiv : 0 ≤ headRoom / v.headId := Int.ediv_nonneg (by omega) (Int.natCast_nonneg _)
    have hmod : headRoom / v.headId % (m + 1) < m + 1 := Int.emod_lt_of_pos _ (by omega)
    omega
  · split <;> omega

theorem Rooms.another (h : v.Rooms) : (v.another m).Rooms := by
  rw [Save.another]
  split
  · rename_i hfull
    refine { h with rest := ?_, least := fun r hr => ?_, head_le := ?_, head_pos := fun _ => ?_ }
    · have hall : v.reserved.filter (v.headId - 1 < ·.1) = v.reserved :=
        List.filter_eq_self.2 fun r hr => decide_eq_true (by
          have := h.least r hr
          omega)
      show v.totalRoom - 0 = ((v.reserved.filter (v.headId - 1 < ·.1)).map Prod.snd).sum
      rw [hall, sub_zero, h.total]
    · exact (Nat.sub_le _ _).trans (h.least r hr)
    · exact (Nat.sub_le _ _).trans h.head_le
    · show 0 < v.headId - 1
      omega
  · exact h

theorem Rooms.reserve (h : v.Rooms) : (v.reserve m mopLen).Rooms := by
  have hroom : ((v.room m mopLen).toNat : ℤ) = v.room m mopLen := Int.toNat_of_nonneg room_nonneg
  refine { h with total := ?_, rest := ?_, least := fun r hr => ?_ }
  · rw [Save.reserve, List.map_cons, List.sum_cons, Int.natCast_add, hroom, ← h.rest]
    exact Int.add_comm _ _
  · rw [Save.reserve, List.filter_cons_of_neg (by simp), List.filter_filter]
    simp only [Bool.and_self, ← h.rest]
    exact Int.add_sub_cancel _ _
  · rcases List.mem_cons.1 hr with rfl | hr
    · exact le_rfl
    · exact h.least r (List.mem_of_mem_filter hr)

/-- A record is reserved, one of those that have been deleted. -/
theorem Valid.reserve (h : v.Valid w) (hrooms : v.Rooms) (hpos : 0 < v.headId) :
    (v.reserve m mopLen).Valid w := by
  refine { h with ids := ?_, id_range := fun r hr => ?_, rooms := fun heq => ?_ }
  · rw [Save.reserve, List.map_cons]
    refine List.pairwise_cons.2 ⟨fun id hid => ?_, ?_⟩
    · obtain ⟨r, hr, rfl⟩ := List.mem_map.1 hid
      exact of_decide_eq_true (List.mem_filter.1 hr).2
    · exact h.ids.sublist (List.filter_sublist.map _)
  · rw [Save.reserve] at hr
    rcases List.mem_cons.1 hr with rfl | hr
    · exact ⟨hpos, hrooms.head_le⟩
    · exact h.id_range r (List.mem_of_mem_filter hr)
  · exact ⟨(h.rooms heq).1, hrooms.reserve⟩

theorem Valid.another (h : v.Valid w) : (v.another m).Valid w := by
  have hrooms : v.Rooms → (v.another m).Rooms := Rooms.another
  rw [Save.another] at hrooms ⊢
  split
  · rename_i hfull
    rw [if_pos hfull] at hrooms
    exact { h with rooms := fun heq => (h.rooms heq).imp_right hrooms }
  · exact h

/-- The record of the transaction is put, or filled. -/
theorem Valid.put {w' : Writer D} (h : v.Valid w) (hloose : w'.pghead = none → w'.loosePgs = [])
    (hpglast : w'.pglast = w.pglast) {freecnt : ℕ} {filling : Bool} {own : Option (List ℕ)}
    (hcnt : freecnt ≤ w'.freePgs.length)
    (hown : filling = false → own.getD [] = w'.freePgs.take freecnt)
    (hsorted : (own.getD []).Pairwise (· ≥ ·)) (more : ℤ) :
    Valid { v with freecnt, filling, own, more } w' where
  loose := hloose
  freecnt := hcnt
  own := hown
  sorted := hsorted
  ids := h.ids
  id_range := h.id_range
  behind hne := hpglast ▸ h.behind fun heq => hne (heq.trans hpglast.symm)
  rooms heq := by
    obtain ⟨hdeleted, hrooms⟩ := h.rooms (heq.trans hpglast)
    exact ⟨hdeleted.trans hpglast.symm, { hrooms with }⟩

end Save

/-! ## The writer in the loop -/

namespace Writer

variable {w : Writer D} {v : Save} {p : ℕ}

/-- Pages freed and loose ones change places. -/
theorem Valid.rearrange (h : w.Valid) {freePgs loosePgs : List ℕ} {saving : Option Save}
    (hperm : (freePgs ++ loosePgs).Perm (w.freePgs ++ w.loosePgs)) (hloose : loosePgs ⊆ w.loosePgs)
    (hsaving : ∀ v ∈ saving, v.Valid { w with freePgs, loosePgs, saving }) :
    Valid { w with freePgs, loosePgs, saving } := by
  have hunused : (unused { w with freePgs, loosePgs, saving }).Perm w.unused := by
    rw [unused, unused, List.append_assoc, List.append_assoc _ w.freePgs]
    exact hperm.append_left (w.pool ++ w.unread)
  exact { h with
    nodup := hunused.nodup_iff.2 h.nodup
    range := fun p hp => h.range p (hunused.mem_iff.1 hp)
    gone := fun p hp => h.gone p (hunused.mem_iff.1 hp)
    cover := fun p hle hlt => (h.cover p hle hlt).imp_right hunused.mem_iff.2
    loose := fun p hp => h.loose p (hloose hp)
    saving := hsaving }

theorem Valid.startSave (h : w.Valid) : (startSave w).Valid := by
  rw [Mvcc.startSave]
  split
  · refine h.rearrange (List.Perm.of_eq (List.append_nil _)) (List.nil_subset _) fun v hv => ?_
    obtain rfl := Option.some.inj hv
    exact Save.valid_init fun _ => rfl
  · rename_i hsome
    refine h.rearrange (List.Perm.refl _) (List.Subset.refl _) fun v hv => ?_
    obtain rfl := Option.some.inj hv
    exact Save.valid_init fun hnone => absurd (Option.isNone_iff_eq_none.2 hnone) hsome

/-- What has been saved when the loop ends. -/
structure Saved (w : Writer D) (v : Save) : Prop where
  own : v.own.getD [] = w.freePgs
  sorted : (v.own.getD []).Pairwise (· ≥ ·)
  ids : (v.reserved.map Prod.fst).Pairwise (· < ·)
  id_range : ∀ r ∈ v.reserved, 0 < r.1 ∧ r.1 ≤ w.pglast
  deleted : v.deleted = w.pglast
  room : (savedMop w).length ≤ (v.reserved.map Prod.snd).sum

theorem savedMop_perm (w : Writer D) : (savedMop w).Perm (w.pool ++ w.loosePgs) :=
  (xmerge_perm _ _).trans ((List.perm_insertionSort _ _).append_left _)

theorem length_savedMop (w : Writer D) :
    (savedMop w).length = w.pool.length + w.loosePgs.length := by
  rw [(savedMop_perm w).length_eq, List.length_append]

/-- There are only pages to be saved if records have been used. -/
theorem Valid.pglast_pos_of_savedMop (h : w.Valid) (hv : v.Valid w)
    (hpos : 0 < (savedMop w).length) : 0 < w.pglast := by
  refine h.pglast_pos fun hnone => ?_
  rw [length_savedMop, pool, hnone, hv.loose hnone] at hpos
  exact absurd hpos (lt_irrefl 0)

/-- The writer goes on saving. -/
def Saves (s : Mvcc D) (w : Writer D) (s' : Option (Mvcc D)) : Prop :=
  ∃ freePgs v, s' = some (s.setWriter { w with freePgs, saving := some v } .work) ∧
    Valid { w with freePgs, saving := some v }

theorem Valid.saves (h : w.Valid) (s : Mvcc D) {v' : Save} (hv' : v'.Valid w) :
    Saves s w (some (s.setWriter { w with saving := some v' } .work)) := by
  refine ⟨w.freePgs, v', rfl, h.rearrange (List.Perm.refl _) (List.Subset.refl _) ?_⟩
  intro v'' hv''
  obtain rfl := Option.some.inj hv''
  exact hv'.mono (fun hnone => hnone) (List.Sublist.refl _) (List.prefix_refl _) le_rfl

/-- The record of the transaction has been put. It is put again if it is too small now. -/
theorem Valid.saveStep_of_filling (h : w.Valid) (hv : v.Valid w) (hfilling : v.filling = true)
    (s : Mvcc D) : Saves s w (s.saveStep w v) := by
  rw [Mvcc.saveStep, if_pos hfilling]
  by_cases hmore : v.freecnt < w.freePgs.length
  · rw [if_pos hmore]
    refine h.saves s (hv.put hv.loose rfl le_rfl (fun hnot => ?_) List.Pairwise.nil v.more)
    simp [hfilling] at hnot
  · -- the record is filled
    rw [if_neg hmore]
    have hsort := List.perm_insertionSort (· ≥ ·) w.freePgs
    have hcnt : v.freecnt = w.freePgs.length := le_antisymm hv.freecnt (not_lt.1 hmore)
    refine ⟨_, _, rfl, h.rearrange (hsort.append_right _) (List.Subset.refl _) fun v' hv' => ?_⟩
    obtain rfl := Option.some.inj hv'
    refine hv.put ?_ ?_ ?_ (fun _ => ?_) ?_ v.more
    · exact hv.loose
    · rfl
    · exact hcnt.le.trans hsort.length_eq.ge
    · exact (List.take_of_length_le (hsort.length_eq.le.trans hcnt.ge)).symm
    · exact List.pairwise_insertionSort _ _

/-- There is no room for all of `me_pghead` yet: a record is reserved. -/
theorem Valid.saves_reserve (h : w.Valid) (hv : v.Valid w) (hrooms : v.Rooms)
    (hdeleted : v.deleted = w.pglast) (s : Mvcc D) (hroom : v.totalRoom < (savedMop w).length) :
    Saves s w (some (s.setWriter { w with
      saving := some ((v.another s.maxfree1pg).reserve s.maxfree1pg (savedMop w).length) }
      .work)) := by
  have htotal := hrooms.total
  have hpos : 0 < v.deleted := by
    rw [hdeleted]
    exact h.pglast_pos_of_savedMop hv (by omega)
  have hrooms' := hrooms.another (m := s.maxfree1pg)
  refine h.saves s (hv.another.reserve hrooms' (hrooms'.head_pos ?_))
  rw [Save.another]
  split <;> exact hpos

/-- There is more room than that: the last record is reserved again, with less. -/
theorem Valid.saves_shrink (h : w.Valid) (hv : v.Valid w) (hrooms : v.Rooms) (s : Mvcc D)
    (hroom : (savedMop w).length < v.totalRoom) :
    Saves s w (some (s.setWriter { w with
      saving := some ({ v with more := v.more - 1 }.reserve s.maxfree1pg (savedMop w).length) }
      .work)) := by
  have htotal := hrooms.total
  have hv' : Save.Valid { v with more := v.more - 1 } w :=
    hv.put hv.loose rfl hv.freecnt hv.own hv.sorted (v.more - 1)
  refine h.saves s (hv'.reserve { hrooms with } (hrooms.head_pos ?_))
  -- there is a record, so one has been deleted
  have hsome : v.reserved ≠ [] := fun hnil => by
    rw [hnil] at htotal
    have hzero : v.totalRoom = 0 := htotal
    omega
  obtain ⟨r, hr⟩ := List.exists_mem_of_ne_nil _ hsome
  obtain ⟨hpos, hle⟩ := hv.id_range r hr
  exact hpos.trans_le hle

/-- A step of the loop goes on saving, or ends. -/
theorem Valid.saveStep (h : w.Valid) (hsaving : w.saving = some v) (s : Mvcc D) :
    Saves s w (s.saveStep w v) ∨ s.saveStep w v = some (s.startFlush w v) ∧ Saved w v := by
  have hv := h.saving v hsaving
  by_cases hfilling : v.filling = true
  · exact .inl (h.saveStep_of_filling hv hfilling s)
  rw [Mvcc.saveStep, if_neg hfilling]
  by_cases hbehind : v.pglast < w.pglast
  · rw [if_pos hbehind]
    obtain ⟨v', hdelete, hle, hv'⟩ := hv.delete h.snap.ids h.pglast_mem hbehind
    rw [hdelete, Option.bind_some, if_pos hle]
    exact .inl (h.saves s hv')
  rw [if_neg hbehind]
  by_cases hmore : v.freecnt < w.freePgs.length
  · rw [if_pos hmore]
    exact .inl (h.saves s (hv.put hv.loose rfl le_rfl (fun hnot => by simp at hnot) hv.sorted
      v.more))
  rw [if_neg hmore]
  -- all records used have been deleted, and all pages freed are in their record
  obtain ⟨hdeleted, hrooms⟩ := hv.rooms (le_antisymm hv.le.1 (not_lt.1 hbehind))
  have htotal := hrooms.total
  have hlen : ((w.pghead.getD []).length + w.loosePgs.length : ℤ) = (savedMop w).length := by
    rw [length_savedMop]
    rfl
  simp only [hlen]
  by_cases hroom : v.totalRoom < (savedMop w).length
  · rw [if_pos hroom]
    exact .inl (h.saves_reserve hv hrooms hdeleted s hroom)
  rw [if_neg hroom]
  by_cases hdone : v.totalRoom = (savedMop w).length ∨ v.more - 1 < 0
  · rw [if_pos hdone]
    refine .inr ⟨rfl, ?_, hv.sorted, hv.ids, hdeleted ▸ hv.id_range, hdeleted, ?_⟩
    · rw [hv.own (Bool.eq_false_of_not_eq_true hfilling)]
      exact List.take_of_length_le (not_lt.1 hmore)
    · omega
  · rw [if_neg hdone]
    exact .inl (h.saves_shrink hv hrooms s (by omega))

/-! ## What has been saved -/

theorem map_fst_fillRecords (records : List (ℕ × ℕ)) (mop : List ℕ) :
    (fillRecords records mop).map Prod.fst = records.map Prod.fst := by
  induction records generalizing mop with
  | nil => rfl
  | cons r records ih => simp only [fillRecords, List.map_cons, ih]

theorem sublist_of_mem_fillRecords {records : List (ℕ × ℕ)} {mop : List ℕ} {r : ℕ × List ℕ}
    (hr : r ∈ fillRecords records mop) : r.2.Sublist mop := by
  induction records generalizing mop with
  | nil => simp [fillRecords] at hr
  | cons a records ih =>
    rcases List.mem_cons.1 hr with rfl | hr
    · exact List.drop_sublist _ _
    · exact (ih hr).trans (List.take_sublist _ _)

/-- All pages go into the records, if there is room. -/
theorem fillRecords_perm {records : List (ℕ × ℕ)} {mop : List ℕ}
    (h : mop.length ≤ (records.map Prod.snd).sum) :
    ((fillRecords records mop).flatMap Prod.snd).Perm mop := by
  induction records generalizing mop with
  | nil =>
    obtain rfl := List.length_eq_zero_iff.1 (Nat.le_zero.1 h)
    rfl
  | cons r records ih =>
    rw [List.map_cons, List.sum_cons] at h
    have hlen : (mop.take (mop.length - min r.2 mop.length)).length ≤
        (records.map Prod.snd).sum := by
      rw [List.length_take]
      omega
    have hrest := ih hlen
    rw [fillRecords, List.flatMap_cons]
    refine (hrest.append_left _).trans ?_
    refine List.perm_append_comm.trans (List.Perm.of_eq ?_)
    exact List.take_append_drop _ _

/-- The free list that is saved has the pages that are not used. -/
theorem Saved.perm (hs : Saved w v) : ((freelistSave w v).flatMap Prod.snd).Perm w.unused := by
  have hown : ((v.own.map fun pgs => (w.txnid, pgs)).toList.flatMap Prod.snd) = w.freePgs := by
    rw [← hs.own]
    cases v.own with
    | none => rfl
    | some pgs => exact List.append_nil pgs
  rw [freelistSave, List.flatMap_append, List.flatMap_append, hown, hs.deleted]
  refine (((fillRecords_perm hs.room).append_right _).append_right _).trans ?_
  refine (((savedMop_perm w).append_right _).append_right _).trans ?_
  rw [unused, List.append_assoc, List.append_assoc, List.append_assoc, List.append_assoc]
  refine List.Perm.append_left _ (List.perm_append_comm.trans (List.Perm.of_eq ?_))
  exact List.append_assoc _ _ _

/-- Where the records of the free list that is saved are from. -/
theorem mem_freelistSave {r : ℕ × List ℕ} (hr : r ∈ freelistSave w v) :
    r ∈ fillRecords v.reserved (savedMop w) ∨ r ∈ w.snap.free ∧ v.deleted < r.1 ∨
      r = (w.txnid, v.own.getD []) := by
  rcases List.mem_append.1 hr with hr | hr
  · rcases List.mem_append.1 hr with hr | hr
    · exact .inl hr
    · obtain ⟨hmem, hlt⟩ := List.mem_filter.1 hr
      exact .inr (.inl ⟨hmem, of_decide_eq_true hlt⟩)
  · obtain ⟨pgs, hown, rfl⟩ := Option.map_eq_some_iff.1 (Option.mem_toList.1 hr)
    rw [hown]
    exact .inr (.inr rfl)

theorem Valid.sorted_savedMop (h : w.Valid) : (savedMop w).Pairwise (· > ·) := by
  have hnodup : (savedMop w).Nodup := by
    refine (savedMop_perm w).nodup_iff.2 (h.nodup.sublist ?_)
    rw [unused, List.append_assoc, List.append_assoc]
    exact (List.sublist_append_right _ _).trans (List.sublist_append_right _ _) |>.append_left _
  exact pairwise_gt_of_ge (pairwise_xmerge _ (List.pairwise_insertionSort _ _)) hnodup

theorem Valid.ids_freelistSave (h : w.Valid) (hs : Saved w v) :
    ((freelistSave w v).map Prod.fst).Pairwise (· < ·) := by
  have hpglast := h.pglast
  have htxnid := h.txnid
  rw [freelistSave, List.map_append, List.map_append, map_fst_fillRecords, hs.deleted]
  refine List.pairwise_append.2 ⟨List.pairwise_append.2 ⟨hs.ids, ?_, ?_⟩, ?_, ?_⟩
  · exact h.snap.ids.sublist (List.filter_sublist.map _)
  · intro a ha b hb
    obtain ⟨r, hr, rfl⟩ := List.mem_map.1 ha
    obtain ⟨r', hr', rfl⟩ := List.mem_map.1 hb
    exact (hs.id_range r hr).2.trans_lt (of_decide_eq_true (List.mem_filter.1 hr').2)
  · cases v.own with
    | none => exact List.Pairwise.nil
    | some pgs => exact List.pairwise_singleton _ _
  · intro a ha b hb
    obtain rfl : b = w.txnid := by
      obtain ⟨r, hr, rfl⟩ := List.mem_map.1 hb
      obtain ⟨pgs, -, rfl⟩ := Option.map_eq_some_iff.1 (Option.mem_toList.1 hr)
      rfl
    rcases List.mem_append.1 ha with ha | ha
    · obtain ⟨r, hr, rfl⟩ := List.mem_map.1 ha
      exact (hs.id_range r hr).2.trans_lt hpglast
    · obtain ⟨r, hr, rfl⟩ := List.mem_map.1 ha
      have := (h.snap.id_range r (List.mem_filter.1 hr).1).2
      omega

/-- What is committed is in order. -/
theorem Valid.commit (h : w.Valid) (hs : Saved w v) :
    Snap.Valid ⟨w.pages, freelistSave w v, w.nextPgno⟩ w.txnid := by
  have hperm := hs.perm
  have htxnid := h.txnid
  have hpglast := h.pglast
  refine ⟨h.snap.two_le.trans h.next, h.ids_freelistSave hs, fun r hr => ?_, fun r hr => ?_,
    hperm.nodup_iff.2 h.nodup, fun p hp => h.range p (hperm.mem_iff.1 hp),
    fun p hp => h.gone p (hperm.mem_iff.1 hp), h.used_range,
    fun p hle hlt => (h.cover p hle hlt).imp_right hperm.mem_iff.2⟩
  · rcases mem_freelistSave hr with hr | hr | rfl
    · have hr := List.mem_map_of_mem (f := Prod.fst) hr
      rw [map_fst_fillRecords] at hr
      obtain ⟨r', hr', hfst⟩ := List.mem_map.1 hr
      have := hs.id_range r' hr'
      omega
    · have := h.snap.id_range r hr.1
      omega
    · exact ⟨htxnid, le_rfl⟩
  · rcases mem_freelistSave hr with hr | hr | rfl
    · exact h.sorted_savedMop.sublist (sublist_of_mem_fillRecords hr)
    · exact h.snap.sorted r hr.1
    · refine pairwise_gt_of_ge hs.sorted ?_
      rw [hs.own]
      refine h.nodup.sublist ?_
      rw [unused, List.append_assoc]
      exact (List.sublist_append_left _ _).trans (List.sublist_append_right _ _)

end Writer

end KotlinLmdb
