import KotlinLmdb.Lmdb.Handles

/-!
# The ledger of cursors

Every address LMDB allocates for a cursor is allocated once: it is among the
allocated cursors or those freed, and not twice (`Handles.Ledger`). All calls keep
the ledger but `mdb_cursor_close` on what is not allocated (`Handles.Ledger.answer`).

A cursor stays allocated until it is closed or the transaction tracking it ends
(`Handles.Sound.mem_cursors_answer`).
-/

namespace KotlinLmdb

namespace Handles

variable {s s' : Handles} {h c : Ptr}

/-- The cursors there have been. -/
def addresses (s : Handles) : List Ptr := s.freed ++ s.cursors.map (·.ptr)

/-- No cursor was freed twice, nor is one allocated that was freed. -/
structure Ledger (s : Handles) : Prop where
  nodup : s.addresses.Nodup
  lt : ∀ c ∈ s.addresses, c < s.fresh

theorem Ledger.freed_nodup (hs : Ledger s) : s.freed.Nodup := (List.nodup_append.1 hs.nodup).1

/-- An allocated cursor was not freed. -/
theorem Ledger.not_mem_freed (hs : Ledger s) {b : NativeCursor} (hb : b ∈ s.cursors) :
    b.ptr ∉ s.freed := by
  intro hf
  have hd := (List.nodup_append.1 hs.nodup).2.2
  exact hd _ hf _ (List.mem_map_of_mem hb) rfl

/-- Moving addresses between the columns keeps the ledger. -/
theorem Ledger.perm (hs : Ledger s) (hfresh : s.fresh ≤ s'.fresh)
    (hperm : s'.addresses.Perm s.addresses) : Ledger s' where
  nodup := hperm.nodup_iff.2 hs.nodup
  lt c hc := Nat.lt_of_lt_of_le (hs.lt c (hperm.mem_iff.1 hc)) hfresh

/-- So does allocating a cursor. -/
theorem Ledger.push (hs : Ledger s) (hfresh : s'.fresh = s.fresh + 1)
    (haddresses : s'.addresses = s.addresses ++ [s.fresh]) : Ledger s' where
  nodup := by
    rw [haddresses]
    refine List.nodup_append.2 ⟨hs.nodup, List.nodup_singleton _, fun a ha b hb => ?_⟩
    rw [List.mem_singleton.1 hb]
    exact (hs.lt a ha).ne
  lt c hc := by
    rw [haddresses] at hc
    rw [hfresh]
    rcases List.mem_append.1 hc with hc | hc
    · exact Nat.lt_succ_of_lt (hs.lt c hc)
    · exact Nat.lt_succ_of_le (List.mem_singleton.1 hc).le

/-- Freeing the cursors that meet a condition moves them. -/
theorem perm_free (l : List NativeCursor) (freed : List Ptr) (f : NativeCursor → Bool) :
    (freed ++ (l.filter f).map (·.ptr) ++ (l.filter fun b => !f b).map (·.ptr)).Perm
      (freed ++ l.map (·.ptr)) := by
  rw [List.append_assoc, ← List.map_append]
  exact ((List.filter_append_perm f l).map _).append_left _

/-- The same cursors are allocated, and no others were freed. -/
structure SameCursors (s s' : Handles) : Prop where
  cursors : s'.cursors = s.cursors
  freed : s'.freed = s.freed
  fresh : s.fresh ≤ s'.fresh

theorem SameCursors.refl (s : Handles) : SameCursors s s := ⟨rfl, rfl, Nat.le_refl _⟩

theorem sameCursors_request (s : Handles) : SameCursors s s.request.2 := ⟨rfl, rfl, Nat.le_refl _⟩

theorem Ledger.same (hs : Ledger s) (hn : SameCursors s s') : Ledger s' :=
  hs.perm hn.fresh (by rw [addresses, addresses, hn.cursors, hn.freed])

/-- What a call does to cursors. -/
inductive Turn (s : Handles) (call : Call) (s' : Handles) : Prop
  | same (hn : SameCursors s s')
  | opened (tracker : Option Ptr) (hfresh : s'.fresh = s.fresh + 1) (hfreed : s'.freed = s.freed)
    (hcursors : s'.cursors = s.cursors ++ [⟨s.fresh, tracker⟩])
  | closed (c : Ptr) (hcall : call = .mdbCursorClose c) (hfresh : s'.fresh = s.fresh)
    (hfreed : s'.freed = s.freed ++ [c]) (hcursors : s'.cursors = s.cursors.filter (·.ptr ≠ c))
  | ended (h : Ptr) (hfresh : s'.fresh = s.fresh)
    (hwriters : s'.writers = s.writers.takeWhile (· ≠ h))
    (hfreed : s'.freed = s.freed ++
      (s.cursors.filter fun c => c.tracker.any (· ∈ s.ending h)).map (·.ptr))
    (hcursors : s'.cursors = s.cursors.filter fun c => !c.tracker.any (· ∈ s.ending h))

/-- A cursor is allocated if the request for one is granted. -/
theorem track_cases (s : Handles) (tracker : Option Ptr) :
    (s.track tracker).1.rc = 0 ∧ (s.track tracker).1.ptr = s.fresh ∧
        (s.track tracker).2 = { s.request.2 with
          cursors := s.cursors ++ [⟨s.fresh, tracker⟩], fresh := s.fresh + 1 } ∨
      (s.track tracker).1.rc ≠ 0 ∧ (s.track tracker).2 = s.request.2 := by
  rw [track]
  rcases s.allocate_cases s.fresh _ with ⟨hrc, hr⟩ | ⟨hrc, hr⟩ <;> rw [hr]
  · exact .inl ⟨hrc, rfl, rfl⟩
  · exact .inr ⟨hrc, rfl⟩

section Turn

variable (call : Call) (s : Handles) (h c : Ptr)

theorem turn_request : Turn s call s.request.2 := .same (sameCursors_request s)

theorem turn_refl : Turn s call s := .same (.refl s)

theorem turn_allocate (ptr : Ptr) {register : Handles → Handles}
    (h : SameCursors s (register s.request.2)) : Turn s call (s.allocate ptr register).2 := by
  rcases s.allocate_cases ptr register with ⟨-, hr⟩ | ⟨-, hr⟩ <;> rw [hr]
  · exact .same h
  · exact turn_request call s

theorem turn_track (tracker : Option Ptr) : Turn s call (s.track tracker).2 := by
  rcases track_cases s tracker with ⟨-, -, hr⟩ | ⟨-, hr⟩ <;> rw [hr]
  · exact .opened tracker rfl rfl rfl
  · exact turn_request call s

theorem turn_read : Turn s call (s.read h).2 := by
  rw [read]
  cases s.status h <;> first | exact turn_request call s | exact turn_refl call s

theorem turn_write : Turn s call (s.write h).2 := by
  rw [write]
  cases s.status h <;> first | exact turn_request call s | exact turn_refl call s

theorem turn_dbiOpen : Turn s call (s.dbiOpen h).2 := by
  rw [dbiOpen]
  cases s.status h <;> first | exact turn_request call s | exact turn_refl call s

theorem turn_cursorOpen : Turn s call (s.cursorOpen h).2 := by
  rw [cursorOpen]
  cases s.status h
  case active | reader => exact turn_track call s _
  case dangling => exact turn_request call s
  all_goals exact turn_refl call s

theorem turn_cursorClose : Turn s (.mdbCursorClose c) (s.cursorClose c).2 := by
  rw [cursorClose]
  split
  · exact turn_refl _ s
  · exact .closed c rfl rfl rfl rfl

theorem turn_endTxn : Turn s call (s.endTxn h) := by
  rw [endTxn]
  cases s.status h
  case active | blocked => exact .ended h rfl rfl rfl rfl
  all_goals exact .same ⟨rfl, rfl, Nat.le_refl _⟩

theorem turn_txnCommit : Turn s call (s.txnCommit h).2 := by
  have hend := turn_endTxn call s h
  rw [txnCommit, endTxn] at *
  cases hs : s.status h <;> rw [hs] at hend
  case active | blocked => exact .ended h rfl rfl rfl rfl
  case dangling => exact turn_request call s
  all_goals exact hend

theorem turn_txnBegin (parent : Option Ptr) (flags : UInt32) :
    Turn s call (s.txnBegin parent flags).2 := by
  cases parent with
  | none =>
    simp only [txnBegin]
    split_ifs
    · exact turn_request call s
    · exact turn_allocate call s _ ⟨rfl, rfl, Nat.le_succ _⟩
    · rw [beginWriter]
      split_ifs
      · exact turn_allocate call s _ ⟨rfl, rfl, Nat.le_refl _⟩
      · exact turn_refl call s
  | some h =>
    simp only [txnBegin]
    cases s.status h
    case active =>
      by_cases hflags : flags &&& mdbRdonly ≠ 0
      · rw [if_pos hflags]
        exact turn_refl call s
      · rw [if_neg hflags]
        exact turn_allocate call s _ ⟨rfl, rfl, Nat.le_succ _⟩
    case dangling => exact turn_request call s
    all_goals exact turn_refl call s

theorem turn_txnReset : Turn s call (s.txnReset h).2 := by
  rw [txnReset]
  cases s.status h <;> exact .same ⟨rfl, rfl, Nat.le_refl _⟩

theorem turn_txnRenew : Turn s call (s.txnRenew h).2 := by
  rw [txnRenew]
  cases s.status h
  case parked =>
    simp only
    split_ifs <;> exact .same ⟨rfl, rfl, Nat.le_refl _⟩
  all_goals exact .same ⟨rfl, rfl, Nat.le_refl _⟩

/-- All that calls do to cursors is to open one, to close one, and to free those of
    the transactions they end. -/
theorem turn_answer : Turn s call (answer call s).2 := by
  cases call
  case mdbTxnBegin _ parent flags => exact turn_txnBegin _ s parent flags
  case mdbTxnCommit h => exact turn_txnCommit _ s h
  case mdbTxnAbort h => exact turn_endTxn _ s h
  case mdbTxnReset h => exact turn_txnReset _ s h
  case mdbTxnRenew h => exact turn_txnRenew _ s h
  case mdbDbiOpen h _ _ => exact turn_dbiOpen _ s h
  case mdbGet h _ _ | mdbStat h _ => exact turn_read _ s h
  case mdbPut h _ _ _ _ | mdbDel h _ _ _ | mdbDrop h _ _ => exact turn_write _ s h
  case mdbCursorOpen h _ => exact turn_cursorOpen _ s h
  case mdbCursorClose c => exact turn_cursorClose s c
  case mdbEnvClose => exact .same ⟨rfl, rfl, Nat.le_refl _⟩
  all_goals exact turn_request _ s

end Turn

theorem fresh_le_answer (call : Call) (s : Handles) : s.fresh ≤ (answer call s).2.fresh := by
  rcases turn_answer call s with hn | ⟨-, hfresh, -, -⟩ | ⟨-, -, hfresh, -, -⟩ |
    ⟨-, hfresh, -, -, -⟩
  · exact hn.fresh
  · exact hfresh ▸ Nat.le_succ _
  · exact hfresh.ge
  · exact hfresh.ge

/-- Freeing the cursor of an address moves that address. -/
theorem map_filter_ptr {l : List NativeCursor} (hl : (l.map (·.ptr)).Nodup)
    (hc : ∃ b ∈ l, b.ptr = c) : (l.filter (·.ptr = c)).map (·.ptr) = [c] := by
  have hfilter : (l.filter (·.ptr = c)).map (·.ptr) = (l.map (·.ptr)).filter (· = c) := by
    rw [List.filter_map]
    rfl
  rw [hfilter, List.filter_eq, hl.count, if_pos (List.mem_map.2 hc)]
  rfl

/-- The ledger is kept by all calls, if what is closed is allocated. -/
theorem Ledger.answer (hs : Ledger s) {call : Call}
    (hclose : ∀ c, call = .mdbCursorClose c → ∃ b ∈ s.cursors, b.ptr = c) :
    Ledger (Handles.answer call s).2 := by
  rcases turn_answer call s with hn | ⟨tracker, hfresh, hfreed, hcursors⟩ |
    ⟨c, hcall, hfresh, hfreed, hcursors⟩ | ⟨h, hfresh, -, hfreed, hcursors⟩
  · exact hs.same hn
  · refine hs.push hfresh ?_
    rw [addresses, hfreed, hcursors, List.map_append, ← List.append_assoc]
    rfl
  · refine hs.perm hfresh.ge ?_
    have hperm := perm_free s.cursors s.freed (·.ptr = c)
    rw [map_filter_ptr (List.nodup_append.1 hs.nodup).2.1 (hclose c hcall)] at hperm
    rw [addresses, addresses, hfreed, hcursors]
    simpa using hperm
  · refine hs.perm hfresh.ge ?_
    rw [addresses, hfreed, hcursors]
    exact perm_free s.cursors s.freed _

/-- A cursor stays allocated but it is closed, or the transaction tracking it
    ends. -/
theorem Sound.mem_cursors_answer (hs : Sound s) {call : Call} {b : NativeCursor}
    (hb : b ∈ s.cursors) (hclose : call ≠ .mdbCursorClose b.ptr)
    (htracker : ∀ h ∈ b.tracker, h ∈ (Handles.answer call s).2.writers) :
    b ∈ (Handles.answer call s).2.cursors := by
  rcases turn_answer call s with hn | ⟨tracker, -, -, hcursors⟩ | ⟨c, hcall, -, -, hcursors⟩ |
    ⟨h, -, hwriters, -, hcursors⟩
  · exact hn.cursors ▸ hb
  · exact hcursors ▸ List.mem_append_left _ hb
  · rw [hcursors]
    refine List.mem_filter.2 ⟨hb, decide_eq_true fun he => hclose ?_⟩
    exact he ▸ hcall
  · rw [hcursors]
    refine List.mem_filter.2 ⟨hb, ?_⟩
    -- what is left of the chain is not in the part that ends
    have hnodup := hs.nodup
    rw [← List.takeWhile_append_dropWhile (p := (· ≠ h)) (l := s.writers)] at hnodup
    have hdisjoint := (List.nodup_append.1 hnodup).2.2
    rw [hwriters] at htracker
    cases ht : b.tracker with
    | none => rfl
    | some h' =>
      have hmem : h' ∉ s.ending h := fun hmem => hdisjoint h' (htracker h' ht) h' hmem rfl
      simpa using hmem

end Handles

end KotlinLmdb
