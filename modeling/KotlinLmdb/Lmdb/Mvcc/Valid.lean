import KotlinLmdb.Lmdb.Mvcc.Readers
import KotlinLmdb.Lmdb.Mvcc.Saving

/-!
# What is kept for those who need it

One meta page has the snapshot that has been published last. The other one is either behind, or,
when a transaction has been committed but not published yet, ahead of it (`Behind`, `Ahead`).

A snapshot is held by the meta page it has been published in, and by the readers that have copied
it, or have found that they may (`Held`). What is held for a transaction is kept (`Keeps`): its
pages are in the file as they were, and no record of the free list that the writer may use by then
has any of them. The writer has none of them either, neither among its own pages nor among those it
is going to use again (`Working`).

All this is for the readers in a set `G` that copy their meta page in time: before it is written
again, by the transaction after the next one.
-/

namespace KotlinLmdb

variable {D : Type}

namespace Reader

/-- What a reader has copied, or is going to copy, with its number. -/
@[simp]
def view (metas : ℕ → MetaPage D) : Reader D → Option (ℕ × Snap D)
  | checked _ txnid => some (txnid, (metas (txnid % 2)).snap)
  | copied _ txnid snap | reading _ txnid snap _ => some (txnid, snap)
  | _ => none

/-- The number of a reader that has not yet copied all it needs from its meta page. -/
def copying : Reader D → Option ℕ
  | checked _ txnid | copied _ txnid _ => some txnid
  | _ => none

theorem exists_claim {x : Reader D} {metas : ℕ → MetaPage D} {txnid : ℕ} {snap : Snap D}
    (h : x.view metas = some (txnid, snap)) : ∃ i, x.claim = some (i, txnid) := by
  cases x <;> simp only [view, reduceCtorEq, Option.some.injEq, Prod.mk.injEq] at h
  all_goals exact ⟨_, by rw [← h.1]; rfl⟩

end Reader

namespace Mvcc

variable {G : Finset ℕ} {s s' : Mvcc D} {w w' : Writer D} {phase : Phase D} {txnid : ℕ}
  {snap : Snap D} {p : ℕ}

/-- The meta page of the last transaction that has been published. -/
def published (s : Mvcc D) : MetaPage D := s.metas (s.txnid % 2)

/-- The other meta page. -/
def unpublished (s : Mvcc D) : MetaPage D := s.metas ((s.txnid + 1) % 2)

/-- A snapshot that is needed, with the number it is needed for. -/
def Held (G : Finset ℕ) (s : Mvcc D) (txnid : ℕ) (snap : Snap D) : Prop :=
  (txnid = s.txnid ∧ snap = s.published.snap) ∨
    ∃ r ∈ G, s.Alive r ∧ (s.readers r).view s.metas = some (txnid, snap)

/-- A snapshot is as it was, and its pages will be used again only by transactions that are later,
    if they start from a meta page. -/
structure Keeps (s : Mvcc D) (m : MetaPage D) (txnid : ℕ) (snap : Snap D) : Prop where
  shown : ∀ p c, snap.pages p = some c → s.map p = some c
  range : ∀ p, (snap.pages p).isSome → p < m.snap.nextPgno
  free : ∀ record ∈ m.snap.free, record.1 ≤ txnid → ∀ p ∈ record.2, snap.pages p = none

/-- The other meta page is older. -/
def Behind (s : Mvcc D) : Prop := s.unpublished.txnid ≤ s.txnid - 1

/-- The other meta page is that of the next transaction. -/
structure Ahead (G : Finset ℕ) (s : Mvcc D) : Prop where
  txnid : s.unpublished.txnid = s.txnid + 1
  valid : s.unpublished.snap.Valid (s.txnid + 1)
  shown : ∀ p c, s.unpublished.snap.pages p = some c → s.map p = some c
  held : ∀ txnid snap, s.Held G txnid snap → s.Keeps s.unpublished txnid snap

/-- A write transaction whose pages are its own. -/
structure Working (G : Finset ℕ) (s : Mvcc D) (w : Writer D) : Prop where
  valid : w.Valid
  txnid : w.txnid = s.txnid + 1
  behind : s.Behind
  snap : w.snap = s.published.snap
  clear : ∀ txnid snap, s.Held G txnid snap → ∀ p, p ∈ w.pool ∨ p ∈ w.own → snap.pages p = none

/-- What a transaction is going to commit. -/
def Commits (w : Writer D) (snap : Snap D) : Prop :=
  ∃ v, w.Saved v ∧ snap = ⟨w.pages, freelistSave w v, w.nextPgno⟩

/-- What the writer relies on until its number is in its meta page. -/
def PhaseValid (s : Mvcc D) (w : Writer D) : Phase D → Prop
  | .work => True
  | .search a => 0 < a.num ∧ (a.first = false → s.Below 0 a.oldest)
  | .scan a idl i _ oldest => 0 < a.num ∧ s.Below i oldest ∧
    ∀ pages ∈ idl, nextRecord (freeDb w) w.pglast = some (a.last, pages)
  | .fetch a => 0 < a.num ∧ s.Below 0 a.oldest
  | .load a idl => 0 < a.num ∧ s.Below 0 a.oldest ∧ a.last < a.oldest ∧
    nextRecord (freeDb w) w.pglast = some (a.last, idl)
  | .flush snap todo => Commits w snap ∧ (∀ p ∈ todo, p ∈ w.own) ∧
    ∀ p c, w.pages p = some c → p ∈ todo ∨ s.map p = some c
  | .store snap n => Commits w snap ∧ (∀ p c, w.pages p = some c → s.map p = some c) ∧ n ≤ 3 ∧
    ∃ m : MetaPage D, s.unpublished = m.stored ⟨w.txnid, snap⟩ n
  | .pwrite snap => Commits w snap ∧ ∀ p c, w.pages p = some c → s.map p = some c
  | .writeBack m => m.txnid ≤ s.txnid - 1
  | .sync | .publish => False

/-- What it relies on from then on. -/
def LateValid (s : Mvcc D) : Phase D → Prop
  | .writeBack m => m.txnid ≤ s.txnid - 1
  | .sync | .publish => True
  | _ => False

/-- The state of the writer is in order. -/
def WriterValid (G : Finset ℕ) (s : Mvcc D) : Option (Option (Writer D × Phase D)) → Prop
  | none => s.Behind ∨ s.Ahead G
  | some none => s.Behind
  | some (some (w, phase)) => s.Working G w ∧ s.PhaseValid w phase ∨
    w.txnid = s.txnid + 1 ∧ s.Ahead G ∧ s.LateValid phase

/-- What a reader copies is within what it takes to be the file. -/
def Within (s : Mvcc D) : Reader D → Prop
  | .checked _ txnid => ∀ p, ((s.metas (txnid % 2)).snap.pages p).isSome →
    p < (s.metas (txnid % 2)).snap.nextPgno
  | .copied _ txnid snap => ∀ p, (snap.pages p).isSome → p < (s.metas (txnid % 2)).snap.nextPgno
  | .reading _ _ snap nextPgno => ∀ p, (snap.pages p).isSome → p < nextPgno
  | _ => True

/-- The state is in order. -/
structure Valid (G : Finset ℕ) (s : Mvcc D) : Prop where
  readers : s.ReadersValid
  claims : ∀ r i txnid, s.Alive r → (s.readers r).claim = some (i, txnid) → txnid ≤ s.txnid
  pgoldest : ∀ pid, s.Below 0 (s.pgoldest pid)
  number : s.published.txnid = s.txnid
  last : s.published.snap.Valid s.txnid
  within : ∀ r ∈ G, s.Alive r → s.Within (s.readers r)
  held : ∀ txnid snap, s.Held G txnid snap → s.Keeps s.published txnid snap
  writer : s.WriterValid G s.writer

/-! ## The meta pages -/

theorem pickMeta_of_behind (hnumber : s.published.txnid = s.txnid) (h : s.Behind) :
    s.pickMeta = s.published := by
  have hle : s.unpublished.txnid ≤ s.txnid - 1 := h
  rw [published] at hnumber ⊢
  rw [unpublished] at hle
  rw [pickMeta]
  rcases Nat.mod_two_eq_zero_or_one s.txnid with hk | hk
  · rw [hk] at hnumber ⊢
    rw [show (s.txnid + 1) % 2 = 1 by omega] at hle
    exact if_neg (by omega)
  · rw [hk] at hnumber ⊢
    rw [show (s.txnid + 1) % 2 = 0 by omega] at hle
    exact if_pos (by omega)

theorem pickMeta_of_ahead (hnumber : s.published.txnid = s.txnid) (h : s.Ahead G) :
    s.pickMeta = s.unpublished := by
  have heq := h.txnid
  rw [published] at hnumber
  rw [unpublished] at heq ⊢
  rw [pickMeta]
  rcases Nat.mod_two_eq_zero_or_one s.txnid with hk | hk
  · rw [hk] at hnumber
    rw [show (s.txnid + 1) % 2 = 1 by omega] at heq ⊢
    exact if_pos (by omega)
  · rw [hk] at hnumber
    rw [show (s.txnid + 1) % 2 = 0 by omega] at heq ⊢
    exact if_neg (by omega)

/-! ## What is held -/

/-- Records that are older than all readers are not needed for what is held. -/
theorem Held.le_of_below {oldest last : ℕ} (h : s.Held G txnid snap) (hbelow : s.Below 0 oldest)
    (hlt : last < oldest) : last ≤ txnid := by
  rcases h with ⟨rfl, -⟩ | ⟨r, -, hr, hview⟩
  · exact hlt.le.trans hbelow.1
  · obtain ⟨i, hi⟩ := Reader.exists_claim hview
    exact hlt.le.trans (hbelow.2 r i txnid hr hi (Nat.zero_le i))

theorem Keeps.same (h : s.Keeps s.published txnid snap) (hmetas : s'.metas = s.metas)
    (htxnid : s'.txnid = s.txnid) (hmap : s'.map = s.map) : s'.Keeps s'.published txnid snap := by
  have hpublished : s'.published = s.published := by rw [published, published, hmetas, htxnid]
  rw [hpublished]
  exact ⟨hmap ▸ h.shown, h.range, h.free⟩

theorem Ahead.mono (h : s.Ahead G) (hmetas : s'.metas = s.metas) (htxnid : s'.txnid = s.txnid)
    (hmap : s'.map = s.map) (hheld : ∀ txnid snap, s'.Held G txnid snap → s.Held G txnid snap) :
    s'.Ahead G := by
  have hunpublished : s'.unpublished = s.unpublished := by
    rw [unpublished, unpublished, hmetas, htxnid]
  refine ⟨?_, ?_, ?_, fun txnid snap hs => ?_⟩
  · rw [hunpublished, htxnid]
    exact h.txnid
  · rw [hunpublished, htxnid]
    exact h.valid
  · rw [hunpublished, hmap]
    exact h.shown
  · have hkeeps := h.held txnid snap (hheld txnid snap hs)
    rw [hunpublished]
    exact ⟨hmap ▸ hkeeps.shown, hkeeps.range, hkeeps.free⟩

/-- What readers do, apart from giving up what they hold, is nothing to the writer. -/
theorem WriterValid.mono {x : Option (Option (Writer D × Phase D))} (h : s.WriterValid G x)
    (hmetas : s'.metas = s.metas) (htxnid : s'.txnid = s.txnid) (hmap : s'.map = s.map)
    (hheld : ∀ txnid snap, s'.Held G txnid snap → s.Held G txnid snap)
    (hbelow : ∀ j oldest, s.Below j oldest → s'.Below j oldest) : s'.WriterValid G x := by
  have hpublished : s'.published = s.published := by rw [published, published, hmetas, htxnid]
  have hunpublished : s'.unpublished = s.unpublished := by
    rw [unpublished, unpublished, hmetas, htxnid]
  have hbehind : s.Behind → s'.Behind := fun hb => by
    rw [Behind, hunpublished, htxnid]
    exact hb
  have hahead : s.Ahead G → s'.Ahead G := fun ha => ha.mono hmetas htxnid hmap hheld
  cases x with
  | none => exact h.imp hbehind hahead
  | some x =>
    cases x with
    | none => exact hbehind h
    | some x =>
      obtain ⟨w, phase⟩ := x
      refine h.imp (fun ⟨hw, hphase⟩ => ⟨⟨hw.valid, htxnid ▸ hw.txnid, hbehind hw.behind,
        hpublished ▸ hw.snap, fun txnid snap hs => hw.clear txnid snap (hheld txnid snap hs)⟩, ?_⟩)
        fun ⟨hw, ha, hphase⟩ => ⟨htxnid ▸ hw, hahead ha, ?_⟩
      · cases phase with
        | work => trivial
        | search a => exact ⟨hphase.1, fun hfirst => hbelow _ _ (hphase.2 hfirst)⟩
        | scan => exact ⟨hphase.1, hbelow _ _ hphase.2.1, hphase.2.2⟩
        | fetch => exact ⟨hphase.1, hbelow _ _ hphase.2⟩
        | load => exact ⟨hphase.1, hbelow _ _ hphase.2.1, hphase.2.2⟩
        | flush => exact ⟨hphase.1, hphase.2.1, hmap ▸ hphase.2.2⟩
        | store =>
          obtain ⟨hcommits, hshown, hn, m, hm⟩ := hphase
          exact ⟨hcommits, hmap ▸ hshown, hn, m, hunpublished ▸ hm⟩
        | pwrite => exact ⟨hphase.1, hmap ▸ hphase.2⟩
        | writeBack =>
          rw [PhaseValid, htxnid]
          exact hphase
        | sync | publish => exact hphase
      · cases phase with
        | writeBack =>
          rw [LateValid, htxnid]
          exact hphase
        | _ => exact hphase

namespace Valid

/-- The last snapshot is held. -/
theorem held_last (s : Mvcc D) : s.Held G s.txnid s.published.snap := .inl ⟨rfl, rfl⟩

theorem working (h : s.Valid G) (hw : s.writer = some (some (w, phase)))
    (hphase : ¬s.LateValid phase) : s.Working G w ∧ s.PhaseValid w phase := by
  have hwriter := h.writer
  rw [hw] at hwriter
  exact hwriter.resolve_right fun hlate => hphase hlate.2.2

/-- The writer goes on, or others do whom it does not see. -/
theorem withWriter (h : s.Valid G) {x : Option (Option (Writer D × Phase D))}
    (hx : s.WriterValid G x) : Valid G { s with writer := x } :=
  ⟨h.readers.same ⟨rfl, rfl, rfl, rfl, rfl, rfl⟩, h.claims, h.pgoldest, h.number, h.last, h.within,
    fun txnid snap hheld => (h.held txnid snap hheld).same rfl rfl rfl,
    hx.mono rfl rfl rfl (fun _ _ hheld => hheld) fun _ _ hbelow => hbelow⟩

theorem setWriter (h : s.Valid G) (hw : s.Working G w) (hvalid : s.PhaseValid w phase) :
    (s.setWriter w phase).Valid G :=
  h.withWriter (.inl ⟨hw, hvalid⟩)

end Valid

/-! ## Allocating -/

section Alloc

variable {a : Alloc D} {pgno num : ℕ} {data : ℕ → D} {mem : Bool}

/-- The writer goes on with pages it had. -/
theorem Working.go (hw : s.Working G w) (hvalid : w'.Valid) (htxnid : w'.txnid = w.txnid)
    (hsnap : w'.snap = w.snap) (hown : ∀ q, q ∈ w'.pool ∨ q ∈ w'.own → q ∈ w.pool ∨ q ∈ w.own) :
    s.Working G w' :=
  ⟨hvalid, htxnid.trans hw.txnid, hw.behind, hsnap.trans hw.snap,
    fun txnid snap hheld q hq => hw.clear txnid snap hheld q (hown q hq)⟩

theorem Working.fail (hw : s.Working G w) : s.Working G { w with error := true } :=
  hw.go { hw.valid with
    saving := fun v hv => (hw.valid.saving v hv).mono (fun hnone => hnone) (List.Sublist.refl _)
      (List.prefix_refl _) le_rfl } rfl rfl fun _ hq => hq

/-- The writer is given pages that no snapshot has. -/
theorem Working.give (h : s.Valid G) (hw : s.Working G w) (hgo : w.Follows w')
    (hown : w'.own = w.own)
    (hpages : w'.pages = w.pages) (hnext : w.nextPgno ≤ w'.nextPgno)
    (hpool : w'.pool.Sublist w.pool) (hloose : w'.loosePgs.Sublist w.loosePgs)
    (hperm : (w'.unused ++ List.range' pgno num).Perm
      (w.unused ++ List.range' w.nextPgno (w'.nextPgno - w.nextPgno)))
    (hrange : ∀ p, p ∈ List.range' pgno num → (p ∈ w.pool ∨ p ∈ w.own) ∨ w.nextPgno ≤ p) :
    s.Working G (Mvcc.give w' pgno num data) := by
  refine ⟨hw.valid.give hgo hown hpages hnext hpool hloose hperm, hgo.txnid.trans hw.txnid,
    hw.behind,
    hgo.snap.trans hw.snap, fun txnid snap hheld p hp => ?_⟩
  have hclear := hw.clear txnid snap hheld p
  rcases hp with hp | hp
  · exact hclear (.inl (hpool.subset hp))
  · rw [Mvcc.give, Finset.mem_union, hown, Finset.mem_Ico, ← List.mem_range'_1] at hp
    rcases hp with hp | hp
    · exact hclear (.inr hp)
    · rcases hrange p hp with hold | hle
      · exact hclear hold
      · refine Option.not_isSome_iff_eq_none.1 fun hsome => ?_
        have hlt := (h.held txnid snap hheld).range p hsome
        have hle' := hw.valid.next
        rw [hw.snap] at hle'
        omega

theorem Valid.allocNew (h : s.Valid G) (hw : s.Working G w) : (s.allocNew w a mem).Valid G := by
  rw [Mvcc.allocNew]
  split
  · exact h.setWriter hw.fail trivial
  · refine h.setWriter (hw.give h ⟨rfl, rfl, rfl, Iff.rfl, rfl, List.prefix_refl _,
      fun _ => List.Sublist.refl _⟩ rfl rfl (Nat.le_add_right _ _) (List.Sublist.refl _)
      (List.Sublist.refl _) ?_ fun p hp => .inr (List.mem_range'_1.1 hp).1) trivial
    rw [Nat.add_sub_cancel_left]
    rfl

theorem Valid.checkOldest (h : s.Valid G) (hw : s.Working G w) {idl : Option (List ℕ)}
    (hnum : 0 < a.num) (hbelow : s.Below 0 a.oldest)
    (hidl : ∀ pages ∈ idl, nextRecord (freeDb w) w.pglast = some (a.last, pages)) :
    (s.checkOldest w a idl mem).Valid G := by
  unfold Mvcc.checkOldest
  split
  · split
    · exact h.allocNew hw
    · refine h.setWriter hw ⟨hnum, ⟨?_, fun r i txnid hr hi hle => ?_⟩, hidl⟩
      · rw [hw.txnid]
        exact le_rfl
      · exact absurd (h.readers.lt_numreaders hr hi).1 hle.not_gt
  · rename_i hlt
    cases idl with
    | none => exact h.setWriter hw ⟨hnum, hbelow⟩
    | some pages => exact h.setWriter hw ⟨hnum, hbelow, not_le.1 hlt, hidl pages rfl⟩

theorem Valid.prepare (h : s.Valid G) (hw : s.Working G w) (hnum : 0 < a.num)
    (hbelow : a.first = false → s.Below 0 a.oldest) : (s.prepare w a mem).Valid G := by
  rw [Mvcc.prepare]
  by_cases hfirst : a.first
  · simp only [hfirst, if_true]
    exact h.checkOldest hw hnum (h.pgoldest w.pid) fun pages hpages => by simp at hpages
  · simp only [hfirst]
    exact h.checkOldest hw hnum (hbelow (by simpa using hfirst)) fun pages hpages => by
      simp at hpages

/-- The bound found in the reader table is kept for later. -/
theorem Valid.setPgoldest (h : s.Valid G) (pid : ℕ) {oldest : ℕ} (hbelow : s.Below 0 oldest) :
    Valid G { s with pgoldest := Function.update s.pgoldest pid oldest } := by
  have hpgoldest : ∀ pid', s.Below 0 (Function.update s.pgoldest pid oldest pid') := fun pid' => by
    by_cases hpid : pid' = pid
    · rw [hpid, Function.update_self]
      exact hbelow
    · rw [Function.update_of_ne hpid]
      exact h.pgoldest pid'
  exact ⟨h.readers.same ⟨rfl, rfl, rfl, rfl, rfl, rfl⟩, h.claims, hpgoldest, h.number, h.last,
    h.within, fun txnid snap hheld => (h.held txnid snap hheld).same rfl rfl rfl,
    h.writer.mono rfl rfl rfl (fun _ _ hheld => hheld) fun _ _ hbelow => hbelow⟩

/-- A record that is old is not the transaction's own. -/
theorem Working.nextRecord_snap (hw : s.Working G w) {last : ℕ} {idl : List ℕ}
    (hle : last ≤ s.txnid) (hnext : nextRecord (freeDb w) w.pglast = some (last, idl)) :
    nextRecord w.snap.free w.pglast = some (last, idl) := by
  rw [nextRecord, freeDb, List.find?_append] at hnext
  rcases Option.or_eq_some_iff.1 hnext with hfound | ⟨-, hown⟩
  · exact hfound
  · have hmem := List.mem_of_find?_eq_some hown
    obtain ⟨pgs, -, heq⟩ := Option.map_eq_some_iff.1 (Option.mem_toList.1 hmem)
    have hlast : w.txnid = last := congrArg Prod.fst heq
    have := hw.txnid
    omega

/-- The pages of a record that no snapshot in use is older than. -/
theorem Working.read (h : s.Valid G) (hw : s.Working G w) {last oldest : ℕ} {idl : List ℕ}
    (hbelow : s.Below 0 oldest) (hlt : last < oldest)
    (hnext : nextRecord (freeDb w) w.pglast = some (last, idl)) :
    s.Working G { w with pghead := some (xmerge w.pool idl), pglast := last } := by
  have hnext := hw.nextRecord_snap (hlt.le.trans hbelow.1) hnext
  refine ⟨hw.valid.read hnext, hw.txnid, hw.behind, hw.snap, fun txnid snap hheld p hp => ?_⟩
  have hclear := hw.clear txnid snap hheld p
  rcases hp with hp | hp
  · rcases List.mem_append.1 ((xmerge_perm _ _).mem_iff.1 hp) with hp | hp
    · exact hclear (.inl hp)
    · obtain ⟨hmem, -, -⟩ := nextRecord_spec hw.valid.snap.ids hnext
      rw [hw.snap] at hmem
      exact (h.held txnid snap hheld).free _ hmem (hheld.le_of_below hbelow hlt) p hp
  · exact hclear (.inr hp)

/-- A slot without a process has no number in use. -/
theorem Valid.below_of_pid (h : s.Valid G) {i oldest : ℕ} (hbelow : s.Below (i + 1) oldest)
    (hpid : (s.slots i).pid = 0) : s.Below i oldest := by
  refine ⟨hbelow.1, fun r j txnid hr hj hle => ?_⟩
  rcases Nat.eq_or_lt_of_le hle with rfl | hlt
  · have hpids := h.readers.pids r
    have hfits := (h.readers.lt_numreaders hr hj).2.1
    omega
  · exact hbelow.2 r j txnid hr hj hlt

theorem Valid.below_of_txnid (h : s.Valid G) {i oldest : ℕ} (hbelow : s.Below (i + 1) oldest) :
    s.Below i (match (s.slots i).txnid with
      | some mr => if oldest > mr then mr else oldest
      | none => oldest) := by
  have hle : (match (s.slots i).txnid with
      | some mr => if oldest > mr then mr else oldest
      | none => oldest) ≤ oldest := by
    split
    · split <;> omega
    · exact le_rfl
  refine ⟨hle.trans hbelow.1, fun r j txnid hr hj hij => ?_⟩
  rcases Nat.eq_or_lt_of_le hij with rfl | hlt
  · rw [(h.readers.lt_numreaders hr hj).2.2]
    simp only
    split <;> omega
  · exact hle.trans (hbelow.2 r j txnid hr hj hlt)

/-- The pages of a range are taken from those to be used again. -/
theorem Working.take (h : s.Valid G) (hw : s.Working G w) {num i : ℕ} (hnum : 0 < num)
    (hhead : w.pghead ≠ none) (hfind : findRange w.pool (num - 1) w.pool.length = some i) :
    s.Working G (Mvcc.give { w with pghead := some (w.pool.take (i - num) ++ w.pool.drop i) }
      (w.pool.getD (i - 1) 0) num data) := by
  have hperm := perm_of_findRange hw.valid.sorted hnum hfind
  have hsub : (w.pool.take (i - num) ++ w.pool.drop i).Sublist w.pool := by
    conv_rhs => rw [← List.take_append_drop (i - num) w.pool]
    exact (List.Sublist.refl _).append (List.drop_sublist_drop_left _ (Nat.sub_le _ _))
  refine hw.give h ⟨rfl, rfl, rfl, by simp [hhead], rfl, List.prefix_refl _,
    fun _ => List.Sublist.refl _⟩ rfl rfl le_rfl hsub (List.Sublist.refl _) ?_ fun p hp =>
    .inl (.inl (hperm.mem_iff.2 (List.mem_append_right _ hp)))
  have hrest : (w.unread ++ w.freePgs ++ w.loosePgs ++ List.range' (w.pool.getD (i - 1) 0) num).Perm
      (List.range' (w.pool.getD (i - 1) 0) num ++ (w.unread ++ w.freePgs ++ w.loosePgs)) :=
    List.perm_append_comm
  have hpool := hperm.symm.append_right (w.unread ++ w.freePgs ++ w.loosePgs)
  have hall := (hrest.append_left (w.pool.take (i - num) ++ w.pool.drop i)).trans
    ((List.Perm.of_eq (List.append_assoc _ _ _).symm).trans hpool)
  rw [Nat.sub_self, List.range'_zero, List.append_nil]
  show (w.pool.take (i - num) ++ w.pool.drop i ++ w.unread ++ w.freePgs ++ w.loosePgs ++
    List.range' _ num).Perm (w.pool ++ w.unread ++ w.freePgs ++ w.loosePgs)
  simpa only [List.append_assoc] using hall

theorem Valid.allocStep (h : s.Valid G) (hw : s.writer = some (some (w, phase)))
    (hstep : s.allocStep w mem phase = some s') : s'.Valid G := by
  unfold Mvcc.allocStep at hstep
  split at hstep
  · rename_i a
    obtain ⟨hworking, hnum, hbelow⟩ := h.working hw fun hlate => hlate
    simp only at hstep
    split at hstep
    · rename_i hlen
      split at hstep
      · rename_i i hfind
        have hhead : w.pghead ≠ none := fun hnone => by
          rw [hnone] at hlen
          exact absurd hlen (Nat.not_lt_zero _)
        split at hstep
        · obtain rfl := Option.some.inj hstep
          exact h.setWriter (hworking.take h hnum hhead hfind) trivial
        · obtain rfl := Option.some.inj hstep
          exact h.setWriter hworking.fail trivial
      · split at hstep
        · obtain rfl := Option.some.inj hstep
          exact h.allocNew hworking
        · obtain rfl := Option.some.inj hstep
          exact h.prepare hworking hnum hbelow
    · obtain rfl := Option.some.inj hstep
      exact h.prepare hworking hnum hbelow
  · rename_i a idl i oldest
    obtain ⟨hworking, hnum, hbelow, hidl⟩ := h.working hw fun hlate => hlate
    obtain rfl := Option.some.inj hstep
    split
    · rename_i hpid
      exact h.setWriter hworking ⟨hnum, h.below_of_pid hbelow hpid, hidl⟩
    · exact h.setWriter hworking ⟨hnum, hbelow, hidl⟩
  · rename_i a idl i oldest
    obtain ⟨hworking, hnum, hbelow, hidl⟩ := h.working hw fun hlate => hlate
    obtain rfl := Option.some.inj hstep
    exact h.setWriter hworking ⟨hnum, h.below_of_txnid hbelow, hidl⟩
  · rename_i a idl pid oldest
    obtain ⟨-, hnum, hbelow, hidl⟩ := h.working hw fun hlate => hlate
    obtain rfl := Option.some.inj hstep
    have h' := h.setPgoldest w.pid hbelow
    exact h'.checkOldest (h'.working hw fun hlate => hlate).1 hnum hbelow hidl
  · rename_i a
    obtain ⟨hworking, hnum, hbelow⟩ := h.working hw fun hlate => hlate
    split at hstep
    · obtain rfl := Option.some.inj hstep
      exact h.allocNew hworking
    · rename_i last idl hnext
      obtain rfl := Option.some.inj hstep
      refine h.checkOldest hworking hnum hbelow fun pages hpages => ?_
      obtain rfl : idl = pages := by simpa using hpages
      exact hnext
  · rename_i a idl
    obtain ⟨hworking, hnum, hbelow, hlt, hnext⟩ := h.working hw fun hlate => hlate
    split at hstep
    · obtain rfl := Option.some.inj hstep
      exact h.setWriter (hworking.read h hbelow hlt hnext) ⟨hnum, fun _ => hbelow⟩
    · obtain rfl := Option.some.inj hstep
      exact h.setWriter hworking.fail trivial
  · simp at hstep

end Alloc

end Mvcc

end KotlinLmdb
