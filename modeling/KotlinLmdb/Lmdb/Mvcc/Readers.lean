import KotlinLmdb.Lmdb.Mvcc

/-!
# The slots of readers

A slot is taken by a reader from when it is found, under the lock of the table, until the process
of the reader is removed from it (`Reader.taken`). No two readers that are alive take the same one
(`Readers.Valid`), so that the number of a reader stays in its slot, and the writer finds it.

The writer looks through the table without a lock. The bound it keeps is not above the number of any
reader in a slot it has been at (`Below`): one that has found its number to be the last one since
then has a number that is not less.
-/

namespace KotlinLmdb

variable {D : Type}

/-! ## Where readers are -/

namespace Reader

/-- The slot a reader takes. -/
@[simp]
def taken : Reader D → Option ℕ
  | idle | search _ => none
  | found i | emptied i | reset i | published i | claimed i | owner i | saw i _ | wrote i _
  | checked i _ | copied i _ _ | reading i _ _ _ => some i

/-- The slot and the number of a reader that has found it to be the last one. -/
@[simp]
def claim : Reader D → Option (ℕ × ℕ)
  | checked i txnid | copied i txnid _ | reading i txnid _ _ => some (i, txnid)
  | _ => none

end Reader

namespace Mvcc

variable {s s' : Mvcc D} {r r' i j k : ℕ} {x : Reader D}

/-- The process of a reader has not died. -/
def Alive (s : Mvcc D) (r : ℕ) : Prop := s.dead (s.pids r) = false

instance (s : Mvcc D) (r : ℕ) : Decidable (s.Alive r) := inferInstanceAs (Decidable (_ = _))

/-- What a reader may rely on. -/
def Fits (s : Mvcc D) (r : ℕ) : Reader D → Prop
  | .idle => True
  | .search i | .found i | .emptied i | .reset i => s.rmutex = some r ∧ i ≤ s.numreaders
  | .published i => s.rmutex = some r ∧ i < s.numreaders
  | .claimed i => s.rmutex = some r ∧ i < s.numreaders ∧ (s.slots i).pid = s.pids r
  | .owner i | .saw i _ => i < s.numreaders ∧ (s.slots i).pid = s.pids r
  | .wrote i txnid | .checked i txnid | .copied i txnid _ | .reading i txnid _ _ =>
    i < s.numreaders ∧ (s.slots i).pid = s.pids r ∧ (s.slots i).txnid = some txnid

/-- The reader table is in order. -/
structure ReadersValid (s : Mvcc D) : Prop where
  pids : ∀ r, 0 < s.pids r
  fits : ∀ r, s.Alive r → s.Fits r (s.readers r)
  distinct : ∀ r r' i, s.Alive r → s.Alive r' → (s.readers r).taken = some i →
    (s.readers r').taken = some i → r = r'

/-- Nothing has been done to the reader table. -/
structure SameTable (s s' : Mvcc D) : Prop where
  slots : s'.slots = s.slots
  numreaders : s'.numreaders = s.numreaders
  rmutex : s'.rmutex = s.rmutex
  readers : s'.readers = s.readers
  pids : s'.pids = s.pids
  dead : s'.dead = s.dead

/-- A slot whose process is not there is taken by a reader with the lock. -/
theorem Fits.rmutex (h : s.Fits r x) (hi : x.taken = some i)
    (hpid : i < s.numreaders → (s.slots i).pid ≠ s.pids r) : s.rmutex = some r := by
  cases x <;> simp only [Reader.taken, reduceCtorEq, Option.some.injEq] at hi <;> subst hi
  case found | emptied | reset | published | claimed => exact h.1
  case owner | saw => exact absurd h.2 (hpid h.1)
  case wrote | checked | copied | reading => exact absurd h.2.1 (hpid h.1)

/-- What the others do does not matter to a reader, as long as they keep off its slot, and do
    nothing to the table while it has the lock. -/
theorem Fits.frame (h : s.Fits r x) (hpids : s'.pids = s.pids)
    (hslots : ∀ i, x.taken = some i → s'.slots i = s.slots i)
    (hnum : s.numreaders ≤ s'.numreaders)
    (hmutex : s.rmutex = some r → s'.rmutex = some r ∧ s'.numreaders = s.numreaders) :
    s'.Fits r x := by
  cases x <;> simp only [Fits, Reader.taken, Option.some.injEq, forall_eq'] at h hslots ⊢
  case search | found | emptied | reset | published =>
    obtain ⟨hmutex', hnum'⟩ := hmutex h.1
    exact ⟨hmutex', hnum' ▸ h.2⟩
  case claimed => exact ⟨(hmutex h.1).1, h.2.1.trans_le hnum, hslots ▸ hpids ▸ h.2.2⟩
  case owner | saw => exact ⟨h.1.trans_le hnum, hslots ▸ hpids ▸ h.2⟩
  case wrote | checked | copied | reading =>
    exact ⟨h.1.trans_le hnum, hslots ▸ hpids ▸ h.2⟩

namespace ReadersValid

/-- A step of one reader. -/
theorem set (h : s.ReadersValid) (hr : s.Alive r) (hdead : s'.dead = s.dead)
    (hpids : s'.pids = s.pids) (hreaders : s'.readers = Function.update s.readers r x)
    (hslots : ∀ i, (s.readers r).taken ≠ some i → s'.slots i = s.slots i)
    (hnum : s.numreaders ≤ s'.numreaders)
    (hlock : s'.numreaders ≠ s.numreaders → s.rmutex = some r)
    (hmutex : s'.rmutex = s.rmutex ∨ s.rmutex = none ∨ s.rmutex = some r)
    (htaken : ∀ i, x.taken = some i → (s.readers r).taken = some i ∨
      ∀ r', r' ≠ r → s.Alive r' → (s.readers r').taken ≠ some i)
    (hx : s'.Fits r x) : s'.ReadersValid := by
  have halive : ∀ r', s'.Alive r' ↔ s.Alive r' := fun r' => by rw [Alive, Alive, hdead, hpids]
  have hself : s'.readers r = x := by rw [hreaders, Function.update_self]
  have hother : ∀ r', r' ≠ r → s'.readers r' = s.readers r' := fun r' hne => by
    rw [hreaders, Function.update_of_ne hne]
  have hnew : ∀ r' i, r' ≠ r → s.Alive r' → x.taken = some i → (s.readers r').taken ≠ some i :=
    fun r' i hne hr' hi hi' => by
      rcases htaken i hi with hold | hfree
      · exact hne (h.distinct r' r i hr' hr hi' hold)
      · exact hfree r' hne hr' hi'
  refine ⟨hpids ▸ h.pids, fun r' hr' => ?_, fun r₁ r₂ i h₁ h₂ ht₁ ht₂ => ?_⟩
  · rw [halive] at hr'
    by_cases hne : r' = r
    · rw [hne, hself]
      exact hx
    · rw [hother r' hne]
      refine (h.fits r' hr').frame hpids (fun i hi => ?_) hnum fun hlocked => ?_
      · exact hslots i fun hi' => hne (h.distinct r' r i hr' hr hi hi')
      · have hnot : s.rmutex ≠ some r := fun heq => hne (Option.some.inj (hlocked ▸ heq))
        rcases hmutex with hmutex | hmutex | hmutex
        · exact ⟨hmutex.trans hlocked, not_not.1 fun hne' => hnot (hlock hne')⟩
        · simp [hmutex] at hlocked
        · exact absurd hmutex hnot
  · rw [halive] at h₁ h₂
    by_cases hne₁ : r₁ = r <;> by_cases hne₂ : r₂ = r
    · rw [hne₁, hne₂]
    · rw [hne₁, hself] at ht₁
      rw [hother r₂ hne₂] at ht₂
      exact absurd ht₂ (hnew r₂ i hne₂ h₂ ht₁)
    · rw [hne₂, hself] at ht₂
      rw [hother r₁ hne₁] at ht₁
      exact absurd ht₁ (hnew r₁ i hne₁ h₁ ht₂)
    · rw [hother r₁ hne₁] at ht₁
      rw [hother r₂ hne₂] at ht₂
      exact h.distinct r₁ r₂ i h₁ h₂ ht₁ ht₂

/-- A slot found without a process is not taken by anyone else. -/
theorem not_taken (h : s.ReadersValid) (hlock : s.rmutex = some r)
    (hi : i < s.numreaders → (s.slots i).pid = 0) (hne : r' ≠ r) (hr' : s.Alive r') :
    (s.readers r').taken ≠ some i := by
  intro htaken
  have hmutex := (h.fits r' hr').rmutex htaken fun hlt heq => by
    have := h.pids r'
    rw [← heq, hi hlt] at this
    exact absurd this (lt_irrefl 0)
  exact hne (Option.some.inj (hmutex.symm.trans hlock))

/-- A reader goes on. -/
theorem move (h : s.ReadersValid) (hr : s.Alive r)
    (htaken : ∀ i, x.taken = some i → (s.readers r).taken = some i ∨
      ∀ r', r' ≠ r → s.Alive r' → (s.readers r').taken ≠ some i)
    (hx : s.Fits r x) : (s.setReader r x).ReadersValid :=
  h.set hr rfl rfl rfl (fun _ _ => rfl) le_rfl (fun hne => absurd rfl hne) (.inl rfl) htaken hx

/-- A reader writes to its slot. -/
theorem write (h : s.ReadersValid) (hr : s.Alive r) {slot : ReaderSlot}
    (hi : (s.readers r).taken = some i) (htaken : ∀ j, x.taken = some j → j = i)
    (hx : (s.setSlot i slot).Fits r x) : ((s.setSlot i slot).setReader r x).ReadersValid := by
  refine h.set hr rfl rfl rfl (fun j hj => ?_) le_rfl (fun hne => absurd rfl hne) (.inl rfl)
    (fun j hj => .inl (htaken j hj ▸ hi)) hx
  have hji : j ≠ i := fun heq => hj (heq ▸ hi)
  exact Function.update_of_ne hji _ _

theorem endReader (h : s.ReadersValid) (hr : s.Alive r) (hi : (s.readers r).taken = some i)
    (hlt : i < s.numreaders) (hpid : (s.slots i).pid = s.pids r) :
    (s.endReader r i).ReadersValid := by
  refine h.write hr hi (fun j hj => (Option.some.inj hj).symm) ⟨hlt, ?_⟩
  show (Function.update s.slots i _ i).pid = s.pids r
  rw [Function.update_self]
  exact hpid

/-- The readers take their steps. -/
theorem readerStep (h : s.ReadersValid) (hr : s.Alive r) {keepSlot : Bool}
    (hstep : s.readerStep r keepSlot = some s') : s'.ReadersValid := by
  have hfits := h.fits r hr
  unfold Mvcc.readerStep at hstep
  cases hx : s.readers r with
  | idle =>
    simp only [hx] at hstep hfits
    split at hstep
    · rename_i hnone
      obtain rfl := Option.some.inj hstep
      exact h.set hr rfl rfl rfl (fun _ _ => rfl) le_rfl (fun hne => absurd rfl hne)
        (.inr (.inl hnone)) (fun i hi => by simp at hi) ⟨rfl, Nat.zero_le _⟩
    · simp at hstep
  | search i =>
    simp only [hx] at hstep hfits
    obtain ⟨hlock, hle⟩ := hfits
    have hfound : (i < s.numreaders → (s.slots i).pid = 0) →
        (s.setReader r (.found i)).ReadersValid := fun hpid => by
      refine h.move hr (fun j hj => .inr fun r' hne hr' => ?_) ⟨hlock, hle⟩
      obtain rfl : i = j := by simpa using hj
      exact h.not_taken hlock hpid hne hr'
    split at hstep
    · rename_i hlt
      obtain rfl := Option.some.inj hstep
      split
      · rename_i hpid
        exact hfound fun _ => hpid
      · exact h.move hr (fun j hj => by simp at hj) ⟨hlock, hlt⟩
    · rename_i hnot
      split at hstep
      · obtain rfl := Option.some.inj hstep
        exact h.set hr rfl rfl rfl (fun _ _ => rfl) le_rfl (fun hne => absurd rfl hne)
          (.inr (.inr hlock)) (fun j hj => by simp at hj) trivial
      · obtain rfl := Option.some.inj hstep
        exact hfound fun hlt => absurd hlt hnot
  | found i | emptied i =>
    simp only [hx, Option.some.injEq] at hstep hfits
    subst hstep
    exact h.write hr (by rw [hx]; rfl) (fun j hj => (Option.some.inj hj).symm) hfits
  | reset i =>
    simp only [hx, Option.some.injEq] at hstep hfits
    subst hstep
    refine h.set hr rfl rfl rfl (fun _ _ => rfl) ?_ (fun _ => hfits.1) (.inl rfl)
      (fun j hj => .inl (hx ▸ hj)) ⟨hfits.1, ?_⟩
    · simp only [setReader]
      split <;> omega
    · have := hfits.2
      simp only [setReader]
      split <;> omega
  | published i =>
    simp only [hx, Option.some.injEq] at hstep hfits
    subst hstep
    refine h.write hr (by rw [hx]; rfl) (fun j hj => (Option.some.inj hj).symm)
      ⟨hfits.1, hfits.2, ?_⟩
    show (Function.update s.slots i _ i).pid = s.pids r
    rw [Function.update_self]
  | claimed i =>
    simp only [hx, Option.some.injEq] at hstep hfits
    subst hstep
    exact h.set hr rfl rfl rfl (fun _ _ => rfl) le_rfl (fun hne => absurd rfl hne)
      (.inr (.inr hfits.1)) (fun j hj => .inl (hx ▸ hj)) hfits.2
  | owner i =>
    simp only [hx] at hstep hfits
    split at hstep
    · obtain rfl := Option.some.inj hstep
      exact h.move hr (fun j hj => .inl (hx ▸ hj)) hfits
    · obtain rfl := Option.some.inj hstep
      exact h.write hr (by rw [hx]; rfl) (fun j hj => by simp at hj) trivial
  | saw i txnid =>
    simp only [hx, Option.some.injEq] at hstep hfits
    subst hstep
    refine h.write hr (by rw [hx]; rfl) (fun j hj => (Option.some.inj hj).symm) ⟨hfits.1, ?_⟩
    simpa [setSlot] using hfits.2
  | wrote i txnid =>
    simp only [hx, Option.some.injEq] at hstep hfits
    subst hstep
    refine h.move hr (fun j hj => .inl ?_) ?_
    · rw [hx, ← hj]
      split <;> rfl
    · split
      · exact ⟨hfits.1, hfits.2.1⟩
      · exact hfits
  | checked i txnid =>
    simp only [hx, Option.some.injEq] at hstep hfits
    subst hstep
    exact h.move hr (fun j hj => .inl (hx ▸ hj)) hfits
  | copied i txnid snap =>
    simp only [hx] at hstep hfits
    split at hstep
    · obtain rfl := Option.some.inj hstep
      exact h.endReader hr (by rw [hx]; rfl) hfits.1 hfits.2.1
    · obtain rfl := Option.some.inj hstep
      exact h.move hr (fun j hj => .inl (hx ▸ hj)) hfits
  | reading i txnid snap nextPgno =>
    simp only [hx, Option.some.injEq] at hstep hfits
    subst hstep
    exact h.endReader hr (by rw [hx]; rfl) hfits.1 hfits.2.1

/-- What does not touch the table. -/
theorem same (h : s.ReadersValid) (hs : s.SameTable s') : s'.ReadersValid := by
  have halive : ∀ r, s'.Alive r ↔ s.Alive r := fun r => by rw [Alive, Alive, hs.dead, hs.pids]
  refine ⟨hs.pids ▸ h.pids, fun r hr => ?_, fun r r' i hr hr' => ?_⟩
  · rw [hs.readers]
    exact (h.fits r ((halive r).1 hr)).frame hs.pids (fun i _ => congrFun hs.slots i)
      hs.numreaders.ge fun hlock => ⟨hs.rmutex.trans hlock, hs.numreaders⟩
  · rw [hs.readers]
    exact h.distinct r r' i ((halive r).1 hr) ((halive r').1 hr')

/-- A process may die. -/
theorem die (h : s.ReadersValid) (pid : ℕ) :
    ReadersValid { s with dead := Function.update s.dead pid true } := by
  have halive : ∀ r, Alive { s with dead := Function.update s.dead pid true } r → s.Alive r :=
    fun r hr => by
      by_cases hpid : s.pids r = pid
      · simp [Alive, hpid] at hr
      · simpa [Alive, Function.update_of_ne hpid] using hr
  refine ⟨h.pids, fun r hr => ?_, fun r r' i hr hr' => h.distinct r r' i (halive r hr)
    (halive r' hr')⟩
  exact (h.fits r (halive r hr)).frame rfl (fun _ _ => rfl) le_rfl fun hlock => ⟨hlock, rfl⟩

/-- No one alive has the lock of a process that has died. -/
theorem recoverTable (h : s.ReadersValid) (hlock : s.rmutex = some r) (hdead : s.dead (s.pids r)) :
    ReadersValid { s with rmutex := none } := by
  refine ⟨h.pids, fun r' hr' => ?_, h.distinct⟩
  refine (h.fits r' hr').frame rfl (fun _ _ => rfl) le_rfl fun hlock' => ?_
  rw [hlock] at hlock'
  rw [Option.some.inj hlock', show s.dead (s.pids r') = false from hr'] at hdead
  exact absurd hdead Bool.false_ne_true

/-- The slot of a process that has died is not taken. -/
theorem clear (h : s.ReadersValid) (hlock : s.rmutex = none) (hdead : s.dead (s.slots i).pid) :
    ReadersValid (s.setSlot i { s.slots i with pid := 0 }) := by
  refine ⟨h.pids, fun r hr => ?_, h.distinct⟩
  refine (h.fits r hr).frame rfl (fun j hj => ?_) le_rfl fun hlock' => ⟨hlock', rfl⟩
  have hji : j ≠ i := fun heq => by
    subst heq
    have hmutex := (h.fits r hr).rmutex hj fun _ hpid => by
      rw [hpid, show s.dead (s.pids r) = false from hr] at hdead
      exact absurd hdead Bool.false_ne_true
    simp [hlock] at hmutex
  exact Function.update_of_ne hji _ _

end ReadersValid

/-! ## All steps -/

section Steps

variable {w : Writer D} {a : Alloc D} {phase : Phase D} {mem : Bool}

theorem SameTable.trans {s'' : Mvcc D} (h : s.SameTable s') (h' : s'.SameTable s'') :
    s.SameTable s'' where
  slots := h'.slots.trans h.slots
  numreaders := h'.numreaders.trans h.numreaders
  rmutex := h'.rmutex.trans h.rmutex
  readers := h'.readers.trans h.readers
  pids := h'.pids.trans h.pids
  dead := h'.dead.trans h.dead

theorem sameTable_setWriter : s.SameTable (s.setWriter w phase) := ⟨rfl, rfl, rfl, rfl, rfl, rfl⟩

theorem sameTable_allocNew : s.SameTable (s.allocNew w a mem) := by
  rw [allocNew]
  split <;> exact sameTable_setWriter

theorem sameTable_checkOldest {idl : Option (List ℕ)} :
    s.SameTable (s.checkOldest w a idl mem) := by
  unfold checkOldest
  split
  · split
    · exact sameTable_allocNew
    · exact sameTable_setWriter
  · cases idl <;> exact sameTable_setWriter

theorem sameTable_allocStep (hstep : s.allocStep w mem phase = some s') : s.SameTable s' := by
  unfold allocStep at hstep
  split at hstep
  · simp only at hstep
    split at hstep
    · split at hstep
      · split at hstep <;> obtain rfl := Option.some.inj hstep <;> exact sameTable_setWriter
      · split at hstep <;> obtain rfl := Option.some.inj hstep
        · exact sameTable_allocNew
        · exact sameTable_checkOldest
    · obtain rfl := Option.some.inj hstep
      exact sameTable_checkOldest
  · obtain rfl := Option.some.inj hstep
    exact sameTable_setWriter
  · obtain rfl := Option.some.inj hstep
    exact sameTable_setWriter
  · rename_i a idl pid oldest
    obtain rfl := Option.some.inj hstep
    have hpgoldest : s.SameTable { s with
        pgoldest := Function.update s.pgoldest w.pid oldest } := ⟨rfl, rfl, rfl, rfl, rfl, rfl⟩
    exact hpgoldest.trans sameTable_checkOldest
  · split at hstep <;> obtain rfl := Option.some.inj hstep
    · exact sameTable_allocNew
    · exact sameTable_checkOldest
  · split at hstep <;> obtain rfl := Option.some.inj hstep <;> exact sameTable_setWriter
  · cases hstep

theorem sameTable_saveStep {v : Save} (hstep : s.saveStep w v = some s') : s.SameTable s' := by
  rw [saveStep] at hstep
  split at hstep
  · split at hstep <;> obtain rfl := Option.some.inj hstep <;> exact sameTable_setWriter
  · split at hstep
    · obtain ⟨v', -, hstep⟩ := Option.bind_eq_some_iff.1 hstep
      obtain ⟨-, hstep⟩ := Option.ite_none_right_eq_some.1 hstep
      obtain rfl := Option.some.inj hstep
      exact sameTable_setWriter
    · split at hstep
      · obtain rfl := Option.some.inj hstep
        exact sameTable_setWriter
      · simp only at hstep
        split at hstep
        · obtain rfl := Option.some.inj hstep
          exact sameTable_setWriter
        · split at hstep <;> obtain rfl := Option.some.inj hstep <;> exact sameTable_setWriter

theorem sameTable_act {x : Act D} (hstep : s.act w x = some s') : s.SameTable s' := by
  cases x with
  | alloc num data =>
    simp only [act] at hstep
    split at hstep
    · cases hstep
    · obtain rfl := Option.some.inj hstep
      exact sameTable_setWriter
    · obtain rfl := Option.some.inj hstep
      exact sameTable_setWriter
  | write pgno data | spill pgno =>
    obtain ⟨-, hstep⟩ := Option.ite_none_right_eq_some.1 hstep
    obtain rfl := Option.some.inj hstep
    exact ⟨rfl, rfl, rfl, rfl, rfl, rfl⟩
  | free pgno loose =>
    obtain ⟨-, hstep⟩ := Option.ite_none_right_eq_some.1 hstep
    split at hstep <;> obtain rfl := Option.some.inj hstep <;> exact sameTable_setWriter
  | giveBack pgno =>
    simp only [act] at hstep
    split at hstep
    · obtain ⟨-, hstep⟩ := Option.ite_none_right_eq_some.1 hstep
      obtain rfl := Option.some.inj hstep
      exact sameTable_setWriter
    · cases hstep
  | fail =>
    obtain rfl := Option.some.inj hstep
    exact sameTable_setWriter
  | commit =>
    obtain ⟨-, hstep⟩ := Option.ite_none_left_eq_some.1 hstep
    split at hstep <;> obtain rfl := Option.some.inj hstep <;> exact ⟨rfl, rfl, rfl, rfl, rfl, rfl⟩
  | save =>
    obtain ⟨v, -, hstep⟩ := Option.bind_eq_some_iff.1 hstep
    exact sameTable_saveStep hstep
  | abort => cases hstep

theorem sameTable_commitStep {ok : Bool} {stored : ℕ}
    (hstep : s.commitStep w ok stored phase = some s') : s.SameTable s' := by
  unfold commitStep at hstep
  split at hstep
  case h_8 => cases hstep
  case h_1 | h_2 | h_4 | h_5 =>
    split at hstep <;> obtain rfl := Option.some.inj hstep <;> exact ⟨rfl, rfl, rfl, rfl, rfl, rfl⟩
  all_goals
    obtain rfl := Option.some.inj hstep
    exact ⟨rfl, rfl, rfl, rfl, rfl, rfl⟩

/-- The table stays in order, whatever happens. -/
theorem ReadersValid.step (h : s.ReadersValid) {e : Event D} (hstep : s.step e = some s') :
    s'.ReadersValid := by
  cases e with
  | reader r keepSlot =>
    obtain ⟨hdead, hstep⟩ := Option.ite_none_left_eq_some.1 hstep
    exact h.readerStep (Bool.eq_false_of_not_eq_true hdead) hstep
  | begin pid =>
    simp only [Mvcc.step] at hstep
    split at hstep
    · obtain ⟨-, hstep⟩ := Option.ite_none_left_eq_some.1 hstep
      obtain rfl := Option.some.inj hstep
      exact h.same sameTable_setWriter
    · cases hstep
  | act x =>
    simp only [Mvcc.step] at hstep
    split at hstep
    · obtain rfl := Option.some.inj hstep
      exact h.same ⟨rfl, rfl, rfl, rfl, rfl, rfl⟩
    · obtain ⟨-, hstep⟩ := Option.ite_none_left_eq_some.1 hstep
      exact h.same (sameTable_act hstep)
    · cases hstep
  | alloc mem =>
    simp only [Mvcc.step] at hstep
    split at hstep
    · exact h.same (sameTable_allocStep hstep)
    · cases hstep
  | commit ok stored =>
    simp only [Mvcc.step] at hstep
    split at hstep
    · exact h.same (sameTable_commitStep hstep)
    · cases hstep
  | die pid =>
    simp only [Mvcc.step] at hstep
    split at hstep
    · split at hstep <;> obtain rfl := Option.some.inj hstep
      · exact (h.die pid).same ⟨rfl, rfl, rfl, rfl, rfl, rfl⟩
      · exact h.die pid
    · obtain rfl := Option.some.inj hstep
      exact h.die pid
  | clear i =>
    obtain ⟨⟨hlock, hdead⟩, hstep⟩ := Option.ite_none_right_eq_some.1 hstep
    obtain rfl := Option.some.inj hstep
    exact h.clear hlock hdead
  | recover =>
    simp only [Mvcc.step] at hstep
    split at hstep
    · obtain rfl := Option.some.inj hstep
      exact h.same ⟨rfl, rfl, rfl, rfl, rfl, rfl⟩
    · cases hstep
  | recoverTable =>
    simp only [Mvcc.step] at hstep
    split at hstep
    · rename_i r hlock
      obtain ⟨hdead, hstep⟩ := Option.ite_none_right_eq_some.1 hstep
      obtain rfl := Option.some.inj hstep
      exact h.recoverTable hlock hdead
    · cases hstep

end Steps

/-! ## The numbers of readers -/

/-- The number of a reader is in its slot, where the writer finds it. -/
theorem ReadersValid.lt_numreaders (h : s.ReadersValid) {txnid : ℕ} (hr : s.Alive r)
    (hi : (s.readers r).claim = some (i, txnid)) :
    i < s.numreaders ∧ (s.slots i).pid = s.pids r ∧ (s.slots i).txnid = some txnid := by
  have hfits := h.fits r hr
  cases hx : s.readers r <;>
    simp only [hx, Reader.claim, reduceCtorEq, Option.some.injEq, Prod.mk.injEq] at hi
  all_goals
    rw [hx, hi.1, hi.2] at hfits
    exact hfits

/-- `oldest` is not above the number of any reader in a slot from `j` on. -/
def Below (s : Mvcc D) (j oldest : ℕ) : Prop :=
  oldest ≤ s.txnid ∧ ∀ r i txnid, s.Alive r → (s.readers r).claim = some (i, txnid) → j ≤ i →
    oldest ≤ txnid

/-- Numbers of readers stay, or are the last one when they are new. -/
theorem Below.mono {oldest : ℕ} (h : s.Below j oldest) (htxnid : s.txnid ≤ s'.txnid)
    (hclaim : ∀ r i txnid, s'.Alive r → (s'.readers r).claim = some (i, txnid) →
      s.Alive r ∧ (s.readers r).claim = some (i, txnid) ∨ txnid = s'.txnid) :
    s'.Below j oldest := by
  refine ⟨h.1.trans htxnid, fun r i txnid hr hi hji => ?_⟩
  rcases hclaim r i txnid hr hi with ⟨hr, hi⟩ | rfl
  · exact h.2 r i txnid hr hi hji
  · exact h.1.trans htxnid

/-- How a reader comes to have a number, and what it reads. -/
def Goes (s : Mvcc D) (x : Reader D) : Reader D → Prop
  | .checked i txnid => x = .wrote i txnid ∧ txnid = s.txnid
  | .copied i txnid snap => x = .checked i txnid ∧ snap = (s.metas (txnid % 2)).snap
  | .reading i txnid snap nextPgno =>
    x = .copied i txnid snap ∧ nextPgno = (s.metas (txnid % 2)).snap.nextPgno
  | _ => True

theorem Goes.claim {y : Reader D} (h : s.Goes x y) {txnid : ℕ}
    (hy : y.claim = some (i, txnid)) : x.claim = some (i, txnid) ∨ txnid = s.txnid := by
  cases y <;> simp only [Reader.claim, reduceCtorEq, Option.some.injEq, Prod.mk.injEq] at hy
  case checked => exact .inr (hy.2 ▸ h.2)
  case copied | reading =>
    rw [h.1, ← hy.1, ← hy.2]
    exact .inl rfl

/-- A reader only writes to the table. -/
theorem readerStep_cases {keepSlot : Bool} (hstep : s.readerStep r keepSlot = some s') :
    ∃ x slots numreaders rmutex,
      s' = { s with readers := Function.update s.readers r x, slots, numreaders, rmutex } ∧
        s.Goes (s.readers r) x := by
  unfold readerStep at hstep
  cases hx : s.readers r with
  | idle =>
    simp only [hx] at hstep
    split at hstep
    · exact ⟨_, _, _, _, (Option.some.inj hstep).symm, trivial⟩
    · simp at hstep
  | search i =>
    simp only [hx] at hstep
    split at hstep
    · refine ⟨_, _, _, _, (Option.some.inj hstep).symm, ?_⟩
      split <;> trivial
    · split at hstep <;> exact ⟨_, _, _, _, (Option.some.inj hstep).symm, trivial⟩
  | wrote i txnid =>
    simp only [hx] at hstep
    refine ⟨_, _, _, _, (Option.some.inj hstep).symm, ?_⟩
    split
    · trivial
    · rename_i heq
      exact ⟨rfl, not_not.1 heq⟩
  | checked =>
    simp only [hx] at hstep
    exact ⟨_, _, _, _, (Option.some.inj hstep).symm, rfl, rfl⟩
  | copied =>
    simp only [hx] at hstep
    split at hstep
    · exact ⟨_, _, _, _, (Option.some.inj hstep).symm, trivial⟩
    · exact ⟨_, _, _, _, (Option.some.inj hstep).symm, rfl, rfl⟩
  | owner =>
    simp only [hx] at hstep
    split at hstep <;> exact ⟨_, _, _, _, (Option.some.inj hstep).symm, trivial⟩
  | _ =>
    simp only [hx] at hstep
    exact ⟨_, _, _, _, (Option.some.inj hstep).symm, trivial⟩

end Mvcc

end KotlinLmdb
