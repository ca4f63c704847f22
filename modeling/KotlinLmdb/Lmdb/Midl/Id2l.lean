import KotlinLmdb.Lmdb.Midl

/-!
# Lists of IDs and pointers

LMDB keeps the pages a transaction has written in a list of page numbers and pointers, in
ascending order of the numbers (`Id2l`), with room for a fixed number of them.

Inserting keeps the order, and refuses an ID that is already there (`run_entries`).
-/

namespace KotlinLmdb

/-- An `MDB_ID2`: an ID and a pointer. -/
structure Id2 (P : Type*) where
  mid : ℕ
  mptr : P

/-- An `MDB_ID2L`: the cells from `ids[0]` on, whose `mid` is the number of entries. -/
abbrev Id2l (P : Type*) := Cells (Id2 P)

namespace Id2l

variable {P : Type*} {ids f : Id2l P} {id : Id2 P} {i k n x : ℕ}

/-- The number of entries. -/
def count (ids : Id2l P) : ℕ := (ids 0).mid

/-- The entries of a list. -/
def entries (ids : Id2l P) : List (Id2 P) := Cells.slice ids 1 (count ids)

/-- `ids[0].mid = n`. -/
def setCount (ids : Id2l P) (n : ℕ) : Id2l P := Cells.write ids 0 { ids 0 with mid := n }

@[simp]
theorem count_setCount (ids : Id2l P) (n : ℕ) : count (setCount ids n) = n :=
  congrArg Id2.mid (Cells.write_self ids 0 _)

theorem setCount_of_ne (ids : Id2l P) (n : ℕ) (hk : k ≠ 0) : setCount ids n k = ids k :=
  Cells.write_of_ne _ _ hk

theorem entries_setCount (ids : Id2l P) (n : ℕ) :
    entries (setCount ids n) = Cells.slice ids 1 n := by
  rw [entries, count_setCount, Cells.slice_congr fun k hk _ => setCount_of_ne ids n (by omega)]

/-- `mdb_mid2l_search`. -/
def mdbMid2lSearch (ids : Id2l P) (id : ℕ) : ℕ :=
  bisect (fun i => compare id (ids i).mid) 0 (count ids % 2 ^ 32) 1 .eq

/-- Moves the entries from the cell `x` up to the one before `i` up by one. -/
def shiftUp (x : ℕ) (ids : Id2l P) : ℕ → Id2l P
  | 0 => ids
  | i + 1 => if i + 1 > x then shiftUp x (Cells.write ids (i + 1) (ids i)) i else ids

/-- `mdb_mid2l_insert`: the result, and the list. -/
def mdbMid2lInsert (ids : Id2l P) (id : Id2 P) : ℤ × Id2l P :=
  let x := mdbMid2lSearch ids id.mid
  if x < 1 then (-2, ids)
  else if x ≤ count ids ∧ (ids x).mid = id.mid then (-1, ids)
  else if count ids ≥ idlUmMax then (-2, ids)
  else
    let ids := setCount ids (count ids + 1)
    (0, Cells.write (shiftUp x ids (count ids)) x id)

/-! ## Inserting -/

/-- What inserting means for the entries: they are in ascending order, one for an ID. -/
def insertEntry (l : List (Id2 P)) (id : Id2 P) : ℤ × List (Id2 P) :=
  if ∃ e ∈ l, e.mid = id.mid then (-1, l)
  else if l.length ≥ idlUmMax then (-2, l)
  else (0, l.filter (·.mid < id.mid) ++ id :: l.filter (id.mid < ·.mid))

/-- The entries are in ascending order of their IDs, and there is room for them. -/
structure Ascends (ids : Id2l P) : Prop where
  pairwise : (entries ids).Pairwise (·.mid < ·.mid)
  le : count ids ≤ idlUmMax

theorem shiftUp_apply (x : ℕ) (f : Id2l P) (i k : ℕ) :
    shiftUp x f i k = if x < k ∧ k ≤ i then f (k - 1) else f k := by
  induction i generalizing f with
  | zero => exact (if_neg (by omega)).symm
  | succ i ih =>
    rw [shiftUp]
    by_cases hi : i + 1 > x
    · rw [if_pos hi, ih]
      by_cases hk : k = i + 1
      · rw [if_neg (by omega), hk, Cells.write_self, if_pos (by omega), Nat.add_sub_cancel]
      by_cases hki : x < k ∧ k ≤ i
      · rw [if_pos hki, if_pos (by omega), Cells.write_of_ne _ _ (by omega)]
      · rw [if_neg hki, if_neg (by omega), Cells.write_of_ne _ _ hk]
    · rw [if_neg hi, if_neg (by omega)]

theorem seeks_mdbMid2lSearch (hids : Ascends ids) (id : ℕ) :
    Seeks (fun i => compare id (ids i).mid) (count ids) (mdbMid2lSearch ids id) := by
  have hcount : count ids % 2 ^ 32 = count ids :=
    Nat.mod_eq_of_lt (by have := hids.le; rw [idlUmMax] at this; omega)
  rw [mdbMid2lSearch, hcount]
  refine seeks_bisect fun i j hi hij hj hne => Nat.compare_eq_lt.2 ?_
  have hle : id ≤ (ids i).mid := Nat.le_of_not_lt fun hlt => hne (Nat.compare_eq_gt.2 hlt)
  have hgt : (ids i).mid < (ids j).mid :=
    Cells.pairwise_slice_iff.1 hids.pairwise i j hi hij (by omega)
  omega

section Insert

variable (hx : Seeks (fun i => compare id.mid (ids i).mid) (count ids) x)

include hx

/-- The search finds the ID if it is there. -/
theorem exists_mid_eq_iff :
    (∃ e ∈ entries ids, e.mid = id.mid) ↔ x ≤ count ids ∧ (ids x).mid = id.mid := by
  constructor
  · rintro ⟨e, he, heq⟩
    obtain ⟨k, hk, hkn, rfl⟩ := Cells.mem_slice.1 he
    have hxk : x = k := hx.of_eq ⟨hk, by omega⟩ (Nat.compare_eq_eq.2 heq.symm)
    rw [hxk]
    exact ⟨by omega, heq⟩
  · exact fun hmem => ⟨ids x, Cells.mem_slice.2 ⟨x, hx.pos, by omega, rfl⟩, hmem.2⟩

/-- It divides the entries into those of lesser IDs and the others. -/
theorem entries_eq_append :
    entries ids = Cells.slice ids 1 (x - 1) ++ Cells.slice ids x (count ids + 1 - x) := by
  have hpos := hx.pos
  have hle := hx.le
  rw [entries, show count ids = x - 1 + (count ids + 1 - x) by omega, Cells.slice_append]
  congr 2 <;> omega

theorem mid_lt_of_mem_left : ∀ e ∈ Cells.slice ids 1 (x - 1), e.mid < id.mid := fun e he => by
  obtain ⟨k, hk, hkx, rfl⟩ := Cells.mem_slice.1 he
  exact Nat.compare_eq_gt.1 (hx.gt k hk (by omega))

theorem lt_mid_of_mem_right (hnew : ¬∃ e ∈ entries ids, e.mid = id.mid) :
    ∀ e ∈ Cells.slice ids x (count ids + 1 - x), id.mid < e.mid := fun e he => by
  have hmem : e ∈ entries ids := by
    rw [entries_eq_append hx]
    exact List.mem_append_right _ he
  obtain ⟨k, hk, hkx, rfl⟩ := Cells.mem_slice.1 he
  have hne : (ids k).mid ≠ id.mid := fun heq => hnew ⟨_, hmem, heq⟩
  rcases hk.lt_or_eq with hlt | rfl
  · exact Nat.compare_eq_lt.1 (hx.lt k hlt (by omega))
  · have := Nat.le_of_not_lt fun h => hx.ne_gt (by omega) (Nat.compare_eq_gt.2 h)
    omega

theorem count_insert :
    count (Cells.write (shiftUp x (setCount ids (count ids + 1)) (count ids + 1)) x id) =
      count ids + 1 := by
  have hpos := hx.pos
  rw [count, Cells.write_of_ne _ _ (by omega), shiftUp_apply, if_neg (by omega), setCount,
    Cells.write_self]

/-- The entries after the place has been made and the new one been put there. -/
theorem entries_insert (hnew : ¬∃ e ∈ entries ids, e.mid = id.mid) :
    entries (Cells.write (shiftUp x (setCount ids (count ids + 1)) (count ids + 1)) x id) =
      (entries ids).filter (·.mid < id.mid) ++ id :: (entries ids).filter (id.mid < ·.mid) := by
  have hpos := hx.pos
  have hle := hx.le
  have hlt := mid_lt_of_mem_left hx
  have hgt := lt_mid_of_mem_right hx hnew
  have hcount := count_insert hx
  generalize hg :
    Cells.write (shiftUp x (setCount ids (count ids + 1)) (count ids + 1)) x id = g at hcount ⊢
  have hcells : ∀ k, k ≠ x → g k =
      if x < k ∧ k ≤ count ids + 1 then setCount ids (count ids + 1) (k - 1)
      else setCount ids (count ids + 1) k := fun k hk => by
    rw [← hg, Cells.write_of_ne _ _ hk, shiftUp_apply]
  have hset : ∀ k, 0 < k → setCount ids (count ids + 1) k = ids k :=
    fun k hk => Cells.write_of_ne _ _ (by omega)
  have hat : g x = id := by rw [← hg, Cells.write_self]
  -- the entries before stay, the others have moved up
  have hbefore : Cells.slice g 1 (x - 1) = Cells.slice ids 1 (x - 1) :=
    Cells.slice_congr fun k hk hkx => by
      rw [hcells k (by omega), if_neg (by omega), hset k (by omega)]
  have hafter : Cells.slice g (x + 1) (count ids + 1 - x) =
      Cells.slice ids x (count ids + 1 - x) :=
    Cells.slice_shift fun k hk hkx => by
      rw [hcells (k + 1) (by omega), if_pos (by omega), Nat.add_sub_cancel, hset k (by omega)]
  rw [entries, hcount, Cells.slice_eq_append_cons (k := x) g (by omega), hat, hbefore,
    show count ids + 1 - (x - 1) - 1 = count ids + 1 - x by omega, hafter, entries_eq_append hx,
    List.filter_append, List.filter_append,
    List.filter_eq_self.2 fun e he => decide_eq_true (hlt e he),
    List.filter_eq_nil_iff.2 fun e he => by simpa using (hgt e he).le,
    List.filter_eq_nil_iff.2 fun e he => by simpa using (hlt e he).le,
    List.filter_eq_self.2 fun e he => decide_eq_true (hgt e he), List.append_nil, List.nil_append]

end Insert

/-- Inserting does to the list what it means for the entries. -/
theorem mdbMid2lInsert_spec (hids : Ascends ids) (id : Id2 P) :
    insertEntry (entries ids) id =
        ((mdbMid2lInsert ids id).1, entries (mdbMid2lInsert ids id).2) ∧
      Ascends (mdbMid2lInsert ids id).2 := by
  have hx := seeks_mdbMid2lSearch hids id.mid
  rw [mdbMid2lInsert]
  generalize mdbMid2lSearch ids id.mid = x at hx
  have hcount : count (setCount ids (count ids + 1)) = count ids + 1 :=
    congrArg Id2.mid (Cells.write_self ids 0 _)
  have hlength : (entries ids).length = count ids := Cells.length_slice _ _ _
  simp only [insertEntry, exists_mid_eq_iff hx, hcount, hlength, if_neg (Nat.not_lt.2 hx.pos)]
  by_cases hdup : x ≤ count ids ∧ (ids x).mid = id.mid
  · simp only [if_pos hdup]
    exact ⟨trivial, hids⟩
  by_cases hfull : count ids ≥ idlUmMax
  · simp only [if_neg hdup, if_pos hfull]
    exact ⟨trivial, hids⟩
  have hnew := mt (exists_mid_eq_iff hx).1 hdup
  have hentries := entries_insert hx hnew
  simp only [if_neg hdup, if_neg hfull]
  refine ⟨Prod.ext rfl hentries.symm, ?_, ?_⟩
  · rw [hentries]
    refine List.pairwise_append.2 ⟨hids.pairwise.filter _, List.pairwise_cons.2
      ⟨fun e he => of_decide_eq_true (List.mem_filter.1 he).2, hids.pairwise.filter _⟩,
      fun e he e' he' => ?_⟩
    have hlt : e.mid < id.mid := of_decide_eq_true (List.mem_filter.1 he).2
    rcases List.mem_cons.1 he' with rfl | he'
    · exact hlt
    · exact hlt.trans (of_decide_eq_true (List.mem_filter.1 he').2)
  · rw [count_insert hx]
    omega

/-- A list into which entries are inserted. -/
def machine (P : Type*) : Machine (Id2l P) (Id2 P) ℤ where
  step ids id := mdbMid2lInsert ids id

/-- What it means for the entries. -/
def entryMachine (P : Type*) : Machine (List (Id2 P)) (Id2 P) ℤ where
  step l id := insertEntry l id

/-- Inserting any entries, one after the other, keeps the list in ascending order, with the
    entries there have to be, and the results they have to give. -/
theorem run_entries (ids : Id2l P) (hids : Ascends ids) (is : List (Id2 P)) :
    Ascends ((machine P).run ids is) ∧
      entries ((machine P).run ids is) = (entryMachine P).run (entries ids) is ∧
      (machine P).trace ids is = (entryMachine P).trace (entries ids) is := by
  induction is generalizing ids with
  | nil => exact ⟨hids, rfl, rfl⟩
  | cons i is ih =>
    obtain ⟨heq, hnext⟩ := mdbMid2lInsert_spec hids i
    obtain ⟨hrun, hentries, htrace⟩ := ih _ hnext
    refine ⟨hrun, hentries.trans ?_, ?_⟩
    · exact congrArg (fun r : ℤ × List (Id2 P) => (entryMachine P).run r.2 is) heq.symm
    · rw [Machine.trace_cons, Machine.trace_cons]
      exact congrArg₂ List.cons (congrArg Prod.fst heq).symm (htrace.trans
        (congrArg (fun r : ℤ × List (Id2 P) => (entryMachine P).trace r.2 is) heq.symm))

theorem run_entries_two :
    Ascends ((machine Bool).run (fun _ => ⟨0, false⟩) [⟨5, true⟩, ⟨3, false⟩]) ∧
      entries ((machine Bool).run (fun _ => ⟨0, false⟩) [⟨5, true⟩, ⟨3, false⟩]) =
        (entryMachine Bool).run [] [⟨5, true⟩, ⟨3, false⟩] ∧
      (machine Bool).trace (fun _ => ⟨0, false⟩) [⟨5, true⟩, ⟨3, false⟩] =
        (entryMachine Bool).trace [] [⟨5, true⟩, ⟨3, false⟩] :=
  run_entries (fun _ => ⟨0, false⟩) ⟨List.Pairwise.nil, Nat.zero_le _⟩ _

end Id2l

end KotlinLmdb
