import KotlinLmdb.Lmdb.Mvcc.Valid

/-!
# Snapshots stay as they are

Each step keeps the state in order, in whatever order the readers and the writer take theirs, and
whoever dies. So what a reader has copied stays in the file until it is done (`reading_run`), and
what the last meta page leads to stays there at all times (`pickMeta_run`), while the writer only
has pages that none of them needs (`own_run`). No page is ever lost (`freePages_run`), and readers
keep to their own slots (`claim_run`).

Two things are assumed of a run (`Allows`). If a meta page cannot be written, no number is left in
it that is not published: the next writer would use the pages of that transaction again, while the
meta page is the newer one. And each reader in `G` has copied what it needs of a meta page when it
is written again, two transactions later. If there are none in `G`, nothing is assumed of readers.
-/

namespace KotlinLmdb

variable {D : Type}

/-- The next step of a commit writes to the meta page. -/
def Phase.writesMeta : Phase D → Bool
  | .store _ _ | .pwrite _ | .writeBack _ => true
  | _ => false

namespace MetaPage

variable {m new : MetaPage D} {n : ℕ}

theorem txnid_stored (h : n ≤ 3) : (m.stored new n).txnid = m.txnid := by
  match n, h with
  | 0, _ | 1, _ | 2, _ | 3, _ => rfl

theorem stored_of_le (h : 4 ≤ n) : m.stored new n = new := by
  induction n, h using Nat.le_induction with
  | base => rfl
  | succ n hn ih =>
    obtain ⟨k, rfl⟩ := Nat.exists_eq_add_of_le hn
    rw [stored, ih, Nat.add_comm]
    rfl

end MetaPage

namespace Mvcc

variable {G : Finset ℕ} {s s' : Mvcc D} {w : Writer D} {phase : Phase D} {txnid p r i : ℕ}
  {snap : Snap D} {m : MetaPage D}

/-! ## What is assumed -/

/-- No failure leaves the number of a transaction that is not published in its meta page: the page
    is synced, or what has been written of it is written back. -/
def Restores (s : Mvcc D) : Event D → Bool
  | .commit ok stored =>
    match s.writer with
    | some (some (_, .sync)) => ok
    | some (some (w, .writeBack _)) => 4 ≤ stored ∨ (s.metas (w.txnid % 2)).txnid ≠ w.txnid
    | _ => true
  | _ => true

/-- The readers in `G` have copied what they need of the meta page of a transaction. -/
def Copied (G : Finset ℕ) (s : Mvcc D) (w : Writer D) : Prop :=
  ∀ r ∈ G, s.Alive r → ∀ txnid ∈ (s.readers r).copying, txnid % 2 ≠ w.txnid % 2

instance (w : Writer D) : Decidable (s.Copied G w) :=
  inferInstanceAs (Decidable (∀ r ∈ G, s.Alive r → ∀ txnid ∈ _, txnid % 2 ≠ _))

/-- They have when it is written again. -/
def Timely (G : Finset ℕ) (s : Mvcc D) : Event D → Bool
  | .commit _ _ =>
    match s.writer with
    | some (some (w, phase)) => phase.writesMeta → s.Copied G w
    | _ => true
  | _ => true

/-- What is assumed of a step. -/
def Allows (G : Finset ℕ) (s : Mvcc D) (e : Event D) : Prop := s.Restores e ∧ s.Timely G e

instance (e : Event D) : Decidable (s.Allows G e) := inferInstanceAs (Decidable (_ ∧ _))

/-! ## The work of a transaction -/

/-- A page of its own is written to the file. -/
theorem Valid.setMap (h : s.Valid G) (hw : s.Working G w) (hp : p ∈ w.own) {c : Option D}
    (hvalid : PhaseValid { s with map := Function.update s.map p c } w phase) :
    ({ s with map := Function.update s.map p c }.setWriter w phase).Valid G := by
  have hmap : ∀ txnid snap, s.Held G txnid snap → ∀ q c', snap.pages q = some c' →
      Function.update s.map p c q = some c' := fun txnid snap hheld q c' hq => by
    have hqp : q ≠ p := fun heq => by
      rw [heq, hw.clear txnid snap hheld p (.inr hp)] at hq
      simp at hq
    rw [Function.update_of_ne hqp]
    exact (h.held txnid snap hheld).shown q c' hq
  refine ⟨h.readers.same ⟨rfl, rfl, rfl, rfl, rfl, rfl⟩, h.claims, h.pgoldest, h.number, h.last,
    h.within, fun txnid snap hheld => ?_,
    .inl ⟨⟨hw.valid, hw.txnid, hw.behind, hw.snap, hw.clear⟩, hvalid⟩⟩
  have hkeeps := h.held txnid snap hheld
  exact ⟨hmap txnid snap hheld, hkeeps.range, hkeeps.free⟩

/-- The lock is given back. -/
theorem Valid.release (h : s.Valid G) (hbehind : s.Behind) :
    Valid G { s with writer := some none } :=
  h.withWriter (show s.WriterValid G (some none) from hbehind)

/-- All pages that have been used are going to be written, or are in the file as they were. -/
theorem Valid.startFlush (h : s.Valid G) (hw : s.Working G w) {v : Save} (hsaved : w.Saved v) :
    (s.startFlush w v).Valid G := by
  refine h.setWriter hw ⟨⟨v, hsaved, rfl⟩, fun q hq => ?_, fun q c hq => ?_⟩
  · exact (of_decide_eq_true (List.mem_filter.1 hq).2).1
  · by_cases hown : q ∈ w.own
    · exact .inl (List.mem_filter.2 ⟨List.mem_range.2 (hw.valid.own q hown).1.2,
        decide_eq_true ⟨hown, by rw [hq]; rfl⟩⟩)
    · refine .inr ((h.held _ _ (Valid.held_last s)).shown q c ?_)
      rw [← hw.snap]
      exact hw.valid.old q c hown hq

theorem Valid.act (h : s.Valid G) (hw : s.writer = some (some (w, .work))) {a : Act D}
    (hstep : s.act w a = some s') : s'.Valid G := by
  obtain ⟨hworking, -⟩ := h.working hw fun hlate => hlate
  have hvalid := hworking.valid
  have hgo : ∀ w' : Writer D, w'.Valid → w'.txnid = w.txnid → w'.snap = w.snap →
      (∀ q, q ∈ w'.pool ∨ q ∈ w'.own → q ∈ w.pool ∨ q ∈ w.own) → (s.setWriter w' .work).Valid G :=
    fun w' hvalid' htxnid hsnap hown =>
      h.setWriter (hworking.go hvalid' htxnid hsnap hown) trivial
  cases a with
  | alloc num data =>
    simp only [Mvcc.act] at hstep
    split at hstep
    · simp at hstep
    · rename_i pgno loosePgs hloose
      obtain rfl := Option.some.inj hstep
      have hmem : pgno ∈ w.own := hvalid.loose pgno (hloose ▸ List.mem_cons_self)
      have hsub : loosePgs.Sublist w.loosePgs := hloose ▸ List.sublist_cons_self _ _
      refine h.setWriter (hworking.give h ⟨rfl, rfl, rfl, Iff.rfl, rfl, List.prefix_refl _,
        fun _ => hsub⟩ rfl rfl le_rfl (List.Sublist.refl _) hsub ?_ fun q hq => ?_) trivial
      · rw [Nat.sub_self, List.range'_zero, List.append_nil]
        show (w.pool ++ w.unread ++ w.freePgs ++ loosePgs ++ [pgno]).Perm
          (w.pool ++ w.unread ++ w.freePgs ++ w.loosePgs)
        rw [hloose, List.append_assoc]
        exact (List.perm_append_singleton pgno loosePgs).append_left _
      · obtain rfl : q = pgno := by simpa using hq
        exact .inl (.inr hmem)
    · obtain rfl := Option.some.inj hstep
      exact h.setWriter hworking ⟨Nat.succ_pos _, by simp⟩
  | write pgno data =>
    obtain ⟨hmem, hstep⟩ := Option.ite_none_right_eq_some.1 hstep
    obtain rfl := Option.some.inj hstep
    exact hgo _ (hvalid.write hmem.1 hmem.2 data) rfl rfl fun q hq => hq
  | spill pgno =>
    obtain ⟨hmem, hstep⟩ := Option.ite_none_right_eq_some.1 hstep
    obtain rfl := Option.some.inj hstep
    exact h.setMap hworking hmem.1 trivial
  | free pgno loose =>
    obtain ⟨hsome, hstep⟩ := Option.ite_none_right_eq_some.1 hstep
    split at hstep
    · rename_i hmem
      obtain rfl := Option.some.inj hstep
      exact hgo _ (hvalid.loosen hsome hmem.1 (Option.isNone_iff_eq_none.1 hmem.2.2)) rfl rfl
        fun q hq => hq
    · obtain rfl := Option.some.inj hstep
      exact hgo _ (hvalid.free hsome) rfl rfl fun q hq => hq
  | giveBack pgno =>
    simp only [Mvcc.act] at hstep
    split at hstep
    · rename_i mop hmop
      obtain ⟨hmem, hstep⟩ := Option.ite_none_right_eq_some.1 hstep
      obtain rfl := Option.some.inj hstep
      refine hgo _ (hvalid.giveBack hmem.2 hmop) rfl rfl fun q hq => ?_
      have hpool : w.pool = mop := by rw [Writer.pool, hmop]; rfl
      rcases hq with hq | hq
      · rcases (List.mem_orderedInsert _).1 hq with rfl | hq
        · exact .inr hmem.1
        · exact .inl (hpool ▸ hq)
      · exact .inr (Finset.mem_of_mem_erase hq)
    · simp at hstep
  | fail =>
    obtain rfl := Option.some.inj hstep
    exact h.setWriter hworking.fail trivial
  | commit dirty =>
    obtain ⟨-, hstep⟩ := Option.ite_none_left_eq_some.1 hstep
    split at hstep
    · obtain rfl := Option.some.inj hstep
      exact h.release hworking.behind
    · obtain rfl := Option.some.inj hstep
      have hsame : (startSave w).txnid = w.txnid ∧ (startSave w).snap = w.snap ∧
          (startSave w).pool = w.pool ∧ (startSave w).own = w.own := by
        rw [startSave]
        split <;> exact ⟨rfl, rfl, rfl, rfl⟩
      obtain ⟨htxnid, hsnap, hpool, hown⟩ := hsame
      exact hgo _ hvalid.startSave htxnid hsnap fun q hq => hpool ▸ hown ▸ hq
  | save =>
    obtain ⟨v, hsaving, hstep⟩ := Option.bind_eq_some_iff.1 hstep
    rcases hvalid.saveStep hsaving s with ⟨freePgs, v', heq, hvalid'⟩ | ⟨heq, hsaved⟩
    · obtain rfl := Option.some.inj (heq.symm.trans hstep)
      exact hgo _ hvalid' rfl rfl fun q hq => hq
    · obtain rfl := Option.some.inj (heq.symm.trans hstep)
      exact h.startFlush hworking hsaved
  | abort => simp [Mvcc.act] at hstep

/-! ## Commits -/

section Meta

theorem metas_setMeta_of_ne (h : i ≠ w.txnid % 2) : (s.setMeta w m).metas i = s.metas i :=
  Function.update_of_ne h _ _

theorem published_setMeta (htxnid : w.txnid = s.txnid + 1) :
    (s.setMeta w m).published = s.published :=
  metas_setMeta_of_ne (show s.txnid % 2 ≠ w.txnid % 2 by omega)

theorem unpublished_setMeta (htxnid : w.txnid = s.txnid + 1) : (s.setMeta w m).unpublished = m := by
  have hself : Function.update s.metas (w.txnid % 2) m (w.txnid % 2) = m :=
    Function.update_self _ _ _
  rw [htxnid] at hself
  rw [unpublished, setMeta, htxnid]
  exact hself

theorem metas_eq_unpublished (htxnid : w.txnid = s.txnid + 1) :
    s.metas (w.txnid % 2) = s.unpublished := by
  rw [htxnid]
  rfl

theorem Copied.view (h : s.Copied G w) (hr : r ∈ G) (halive : s.Alive r) :
    (s.readers r).view (s.setMeta w m).metas = (s.readers r).view s.metas := by
  have hcopying := h r hr halive
  cases hx : s.readers r with
  | checked i txnid =>
    rw [hx] at hcopying
    rw [Reader.view, Reader.view, metas_setMeta_of_ne (hcopying txnid rfl)]
  | _ => rfl

theorem Copied.held (h : s.Copied G w) (htxnid : w.txnid = s.txnid + 1)
    (hheld : (s.setMeta w m).Held G txnid snap) : s.Held G txnid snap := by
  rcases hheld with ⟨heq, hsnap⟩ | ⟨r, hr, halive, hview⟩
  · exact .inl ⟨heq, hsnap.trans (congrArg MetaPage.snap (published_setMeta htxnid))⟩
  · exact .inr ⟨r, hr, halive, (h.view hr halive).symm.trans hview⟩

theorem Copied.within (h : s.Copied G w) (hr : r ∈ G) (halive : s.Alive r)
    (hwithin : s.Within (s.readers r)) : (s.setMeta w m).Within (s.readers r) := by
  have hcopying := h r hr halive
  cases hx : s.readers r with
  | checked i txnid | copied i txnid snap =>
    rw [hx] at hcopying hwithin
    rw [Within, metas_setMeta_of_ne (hcopying txnid rfl)]
    exact hwithin
  | reading =>
    rw [hx] at hwithin
    exact hwithin
  | _ => trivial

/-- The meta page of a transaction is written. -/
theorem Valid.setMeta (h : s.Valid G) (htxnid : w.txnid = s.txnid + 1) (hcopied : s.Copied G w)
    {fatal : ℕ → Bool} {x : Option (Option (Writer D × Phase D))}
    (hx : (s.setMeta w m).WriterValid G x) :
    Valid G { s.setMeta w m with fatal, writer := x } := by
  have hpublished := published_setMeta (m := m) htxnid
  refine ⟨h.readers.same ⟨rfl, rfl, rfl, rfl, rfl, rfl⟩, h.claims, h.pgoldest,
    (congrArg MetaPage.txnid hpublished).trans h.number, ?_,
    fun r hr halive => hcopied.within hr halive (h.within r hr halive),
    fun txnid snap hheld => ?_,
    hx.mono rfl rfl rfl (fun _ _ hheld => hheld) fun _ _ hbelow => hbelow⟩
  · show (s.setMeta w m).published.snap.Valid s.txnid
    rw [hpublished]
    exact h.last
  · have hkeeps := h.held txnid snap (hcopied.held htxnid hheld)
    rw [← hpublished] at hkeeps
    exact ⟨hkeeps.shown, hkeeps.range, hkeeps.free⟩

/-- The transaction goes on with its work if the number has not been written. -/
theorem Working.setMeta (hw : s.Working G w) (hcopied : s.Copied G w) (hm : m.txnid ≤ s.txnid - 1) :
    (s.setMeta w m).Working G w := by
  refine ⟨hw.valid, hw.txnid, ?_, ?_, fun txnid snap hheld =>
    hw.clear txnid snap (hcopied.held hw.txnid hheld)⟩
  · rw [Behind, unpublished_setMeta hw.txnid]
    exact hm
  · rw [published_setMeta hw.txnid]
    exact hw.snap

theorem Valid.le_of_held (h : s.Valid G) (hheld : s.Held G txnid snap) : txnid ≤ s.txnid := by
  rcases hheld with ⟨rfl, -⟩ | ⟨r, -, halive, hview⟩
  · exact le_rfl
  · obtain ⟨i, hi⟩ := Reader.exists_claim hview
    exact h.claims r i txnid halive hi

/-- What the new free list has is not needed. -/
theorem Working.free_commit (h : s.Valid G) (hw : s.Working G w) {v : Save} {record : ℕ × List ℕ}
    (hheld : s.Held G txnid snap) (hrecord : record ∈ freelistSave w v) (hid : record.1 ≤ txnid)
    (hp : p ∈ record.2) : snap.pages p = none := by
  have hclear := hw.clear txnid snap hheld p
  rcases Writer.mem_freelistSave hrecord with hfill | ⟨hold, -⟩ | rfl
  · have hmop := (Writer.sublist_of_mem_fillRecords hfill).subset hp
    have hmem := List.mem_append.1 ((Writer.savedMop_perm w).mem_iff.1 hmop)
    exact hclear (hmem.imp_right (hw.valid.loose p))
  · rw [hw.snap] at hold
    exact (h.held txnid snap hheld).free record hold hid p hp
  · have hle := h.le_of_held hheld
    have hlt := hw.txnid
    have hid : w.txnid ≤ txnid := hid
    omega

/-- The transaction is committed when its meta page has all fields. -/
theorem Working.ahead (h : s.Valid G) (hw : s.Working G w) (hcopied : s.Copied G w)
    (hcommits : Commits w snap) (hshown : ∀ p c, w.pages p = some c → s.map p = some c) :
    (s.setMeta w ⟨w.txnid, snap⟩).Ahead G := by
  have hunpublished := unpublished_setMeta (m := ⟨w.txnid, snap⟩) hw.txnid
  obtain ⟨v, hsaved, rfl⟩ := hcommits
  have hnext := hw.valid.next
  rw [hw.snap] at hnext
  refine ⟨?_, ?_, ?_, fun txnid old hheld => ?_⟩
  · rw [hunpublished]
    exact hw.txnid
  · rw [hunpublished]
    show Snap.Valid _ (s.txnid + 1)
    rw [← hw.txnid]
    exact hw.valid.commit hsaved
  · rw [hunpublished]
    exact hshown
  · have hold := hcopied.held hw.txnid hheld
    have hkeeps := h.held txnid old hold
    rw [hunpublished]
    exact ⟨hkeeps.shown, fun p hp => (hkeeps.range p hp).trans_le hnext,
      fun record hrecord hid p hp => hw.free_commit h hold hrecord hid hp⟩

/-- Until the last field of its meta page has been written, the transaction is at work. -/
theorem Working.stored (h : s.Valid G) (hw : s.Working G w) (hcopied : s.Copied G w)
    (hcommits : Commits w snap) (hshown : ∀ p c, w.pages p = some c → s.map p = some c)
    (hm : m.txnid ≤ s.txnid - 1) (n : ℕ) :
    n ≤ 3 ∧ (s.setMeta w (m.stored ⟨w.txnid, snap⟩ n)).Working G w ∨
      3 < n ∧ (s.setMeta w (m.stored ⟨w.txnid, snap⟩ n)).Ahead G := by
  by_cases hle : n ≤ 3
  · refine .inl ⟨hle, hw.setMeta hcopied ?_⟩
    rw [MetaPage.txnid_stored hle]
    exact hm
  · rw [MetaPage.stored_of_le (Nat.lt_of_not_le hle)]
    exact .inr ⟨Nat.lt_of_not_le hle, hw.ahead h hcopied hcommits hshown⟩

end Meta

/-! ### The steps of a commit -/

/-- A page is written. -/
theorem Valid.flush (h : s.Valid G) (hw : s.Working G w) {todo : List ℕ}
    (hphase : s.PhaseValid w (.flush snap (p :: todo))) :
    ({ s with map := Function.update s.map p (w.pages p) }.setWriter w
      (.flush snap todo)).Valid G := by
  obtain ⟨hcommits, htodo, hshown⟩ := hphase
  refine h.setMap hw (htodo p List.mem_cons_self)
    ⟨hcommits, fun q hq => htodo q (List.mem_cons_of_mem _ hq), fun q c hq => ?_⟩
  by_cases hqp : q = p
  · right
    show Function.update s.map p (w.pages p) q = some c
    rw [hqp, Function.update_self, ← hqp, hq]
  · rcases hshown q c hq with hmem | hmap
    · exact .inl ((List.mem_cons.1 hmem).resolve_left hqp)
    · exact .inr ((Function.update_of_ne hqp _ _).trans hmap)

/-- All pages have been written: the meta page is next, in either way. -/
theorem Valid.flushed (h : s.Valid G) (hw : s.Working G w)
    (hphase : s.PhaseValid w (.flush snap [])) (writemap : Bool) :
    (s.setWriter w (if writemap then .store snap 0 else .pwrite snap)).Valid G := by
  obtain ⟨hcommits, -, hshown⟩ := hphase
  have hshown : ∀ p c, w.pages p = some c → s.map p = some c := fun p c hp =>
    (hshown p c hp).resolve_left List.not_mem_nil
  split
  · exact h.setWriter hw ⟨hcommits, hshown, Nat.zero_le _, _, rfl⟩
  · exact h.setWriter hw ⟨hcommits, hshown⟩

/-- A field of the meta page is stored. -/
theorem Valid.store (h : s.Valid G) (hw : s.Working G w) {n : ℕ}
    (hphase : s.PhaseValid w (.store snap n)) (hcopied : s.Copied G w) :
    ((s.setMeta w ((s.metas (w.txnid % 2)).store ⟨w.txnid, snap⟩ n)).setWriter w
      (if n < 3 then .store snap (n + 1) else .sync)).Valid G := by
  obtain ⟨hcommits, hshown, hn, m, hm⟩ := hphase
  have hbehind := hw.behind
  rw [Behind, hm, MetaPage.txnid_stored hn] at hbehind
  rw [metas_eq_unpublished hw.txnid, hm]
  refine h.setMeta hw.txnid hcopied ?_
  rcases hw.stored h hcopied hcommits hshown hbehind (n + 1) with ⟨hle, hworking⟩ | ⟨hlt, hahead⟩
  · rw [if_pos (Nat.lt_of_succ_le hle)]
    exact .inl ⟨hworking, hcommits, hshown, hle, m, unpublished_setMeta hw.txnid⟩
  · rw [if_neg (by omega)]
    exact .inr ⟨hw.txnid, hahead, trivial⟩

/-- The meta page is written to the file. -/
theorem Valid.pwrite (h : s.Valid G) (hw : s.Working G w) (hphase : s.PhaseValid w (.pwrite snap))
    (hcopied : s.Copied G w) :
    ((s.setMeta w ⟨w.txnid, snap⟩).setWriter w .publish).Valid G :=
  h.setMeta hw.txnid hcopied
    (.inr ⟨hw.txnid, hw.ahead h hcopied hphase.1 hphase.2, trivial⟩)

/-- That fails, and leaves some fields written. -/
theorem Valid.pwrite_fail (h : s.Valid G) (hw : s.Working G w)
    (hphase : s.PhaseValid w (.pwrite snap)) (hcopied : s.Copied G w) (stored : ℕ) {m : MetaPage D}
    (hm : m.txnid = s.unpublished.txnid) :
    ((s.setMeta w (s.unpublished.stored ⟨w.txnid, snap⟩ stored)).setWriter w
      (.writeBack m)).Valid G := by
  have hbehind : m.txnid ≤ s.txnid - 1 := hm.trans_le hw.behind
  refine h.setMeta hw.txnid hcopied ?_
  rcases hw.stored h hcopied hphase.1 hphase.2 hw.behind stored with ⟨-, hworking⟩ | ⟨-, hahead⟩
  · exact .inl ⟨hworking, hbehind⟩
  · exact .inr ⟨hw.txnid, hahead, hbehind⟩

/-- What was there is written back, if the number has been written. -/
theorem Valid.writeBack (h : s.Valid G) (hw : s.writer = some (some (w, .writeBack m)))
    (hcopied : s.Copied G w) {stored : ℕ}
    (hrestores : 4 ≤ stored ∨ (s.metas (w.txnid % 2)).txnid ≠ w.txnid) :
    ((s.setMeta w ((s.metas (w.txnid % 2)).stored m stored)).failMeta w).Valid G := by
  have hwriter := h.writer
  rw [hw] at hwriter
  obtain ⟨htxnid, hm, hnumber⟩ : w.txnid = s.txnid + 1 ∧ m.txnid ≤ s.txnid - 1 ∧
      (s.unpublished.txnid ≤ s.txnid - 1 ∨ s.unpublished.txnid = w.txnid) := by
    rcases hwriter with ⟨hworking, hm⟩ | ⟨htxnid, hahead, hm⟩
    · exact ⟨hworking.txnid, hm, .inl hworking.behind⟩
    · exact ⟨htxnid, hm, .inr (hahead.txnid.trans htxnid.symm)⟩
  rw [metas_eq_unpublished htxnid] at hrestores ⊢
  refine h.setMeta htxnid hcopied ?_
  show (s.setMeta w _).unpublished.txnid ≤ s.txnid - 1
  rw [unpublished_setMeta htxnid]
  by_cases hle : stored ≤ 3
  · rw [MetaPage.txnid_stored hle]
    exact hnumber.resolve_right (hrestores.resolve_left (by omega))
  · rw [MetaPage.stored_of_le (by omega)]
    exact hm

/-- The number of the last transaction is made known, by the writer, or by who finds that it has
    died. -/
theorem Valid.publish (h : s.Valid G) (ha : s.Ahead G) :
    Valid G { s with txnid := s.txnid + 1, writer := some none } := by
  refine ⟨h.readers.same ⟨rfl, rfl, rfl, rfl, rfl, rfl⟩,
    fun r i txnid hr hi => (h.claims r i txnid hr hi).trans (Nat.le_succ _),
    fun pid => (h.pgoldest pid).mono (Nat.le_succ _) fun r i txnid hr hi => .inl ⟨hr, hi⟩,
    ha.txnid, ha.valid, h.within, fun txnid snap hheld => ?_, ?_⟩
  · rcases hheld with ⟨-, rfl⟩ | hheld
    · exact ⟨ha.shown, fun p hp => (ha.valid.used_range p hp).2, fun record hrecord _ p hp =>
        ha.valid.unused p (List.mem_flatMap.2 ⟨record, hrecord, hp⟩)⟩
    · have hkeeps := ha.held txnid snap (.inr hheld)
      exact ⟨hkeeps.shown, hkeeps.range, hkeeps.free⟩
  · -- the meta page that was published is behind now
    show (s.metas ((s.txnid + 1 + 1) % 2)).txnid ≤ s.txnid
    rw [show (s.txnid + 1 + 1) % 2 = s.txnid % 2 by omega]
    exact h.number.le

/-- The meta page has been written in full, in the phases after that. -/
theorem Valid.ahead (h : s.Valid G) (hw : s.writer = some (some (w, phase)))
    (hlate : ¬s.PhaseValid w phase) : w.txnid = s.txnid + 1 ∧ s.Ahead G := by
  have hwriter := h.writer
  rw [hw] at hwriter
  obtain ⟨htxnid, hahead, -⟩ := hwriter.resolve_left fun hearly => hlate hearly.2
  exact ⟨htxnid, hahead⟩

theorem Valid.commitStep (h : s.Valid G) (hw : s.writer = some (some (w, phase))) {ok : Bool}
    {stored : ℕ} (hallows : s.Allows G (.commit ok stored))
    (hstep : s.commitStep w ok stored phase = some s') : s'.Valid G := by
  obtain ⟨hrestores, htimely⟩ := hallows
  simp only [Restores, Timely, hw] at hrestores htimely
  replace htimely : phase.writesMeta → s.Copied G w := of_decide_eq_true htimely
  unfold Mvcc.commitStep at hstep
  split at hstep
  · obtain ⟨hworking, hphase⟩ := h.working hw fun hlate => hlate
    split at hstep <;> obtain rfl := Option.some.inj hstep
    · exact h.flush hworking hphase
    · exact h.release hworking.behind
  · obtain ⟨hworking, hphase⟩ := h.working hw fun hlate => hlate
    split at hstep <;> obtain rfl := Option.some.inj hstep
    · exact h.flushed hworking hphase (s.writemap w.pid)
    · exact h.release hworking.behind
  · obtain ⟨hworking, hphase⟩ := h.working hw fun hlate => hlate
    obtain rfl := Option.some.inj hstep
    exact h.store hworking hphase (htimely rfl)
  · obtain ⟨htxnid, hahead⟩ := h.ahead hw fun hearly => hearly
    rw [if_pos hrestores] at hstep
    obtain rfl := Option.some.inj hstep
    exact h.withWriter (.inr ⟨htxnid, hahead, trivial⟩)
  · obtain ⟨hworking, hphase⟩ := h.working hw fun hlate => hlate
    simp only [metas_eq_unpublished hworking.txnid] at hstep
    split at hstep <;> obtain rfl := Option.some.inj hstep
    · exact h.pwrite hworking hphase (htimely rfl)
    · exact h.pwrite_fail hworking hphase (htimely rfl) stored rfl
  · obtain rfl := Option.some.inj hstep
    exact h.writeBack hw (htimely rfl) (of_decide_eq_true hrestores)
  · obtain ⟨htxnid, hahead⟩ := h.ahead hw fun hearly => hearly
    obtain rfl := Option.some.inj hstep
    rw [htxnid]
    exact h.publish hahead
  · simp at hstep

/-! ## Other steps -/

theorem Valid.begin (h : s.Valid G) (hw : s.writer = some none) (pid : ℕ) :
    (s.setWriter ⟨pid, s.txnid + 1, (s.metas (s.txnid % 2)).snap,
      (s.metas (s.txnid % 2)).snap.nextPgno, none, 0, ∅, (s.metas (s.txnid % 2)).snap.pages, [], [],
      false, none⟩ .work).Valid G := by
  have hbehind := h.writer
  rw [hw] at hbehind
  refine h.setWriter ⟨Writer.valid_begin h.last pid, rfl, hbehind, rfl, fun txnid snap _ p hp => ?_⟩
    trivial
  rcases hp with hp | hp
  · exact absurd hp List.not_mem_nil
  · exact absurd hp (Finset.notMem_empty p)

/-- Whoever dies, nothing is asked of the writer that it has not done. -/
theorem WriterValid.died {x : Option (Option (Writer D × Phase D))} (h : s.WriterValid G x) :
    s.WriterValid G none := by
  cases x with
  | none => exact h
  | some x =>
    cases x with
    | none => exact .inl h
    | some x => exact h.imp (fun hearly => hearly.1.behind) fun hlate => hlate.2.1

theorem Valid.die (h : s.Valid G) (pid : ℕ) :
    Valid G { s with dead := Function.update s.dead pid true } := by
  have halive : ∀ r, Alive { s with dead := Function.update s.dead pid true } r → s.Alive r :=
    fun r hr => by
      by_cases hpid : s.pids r = pid
      · simp [Alive, hpid] at hr
      · simpa [Alive, Function.update_of_ne hpid] using hr
  have hheld : ∀ txnid snap, Held G { s with dead := Function.update s.dead pid true } txnid snap →
      s.Held G txnid snap := by
    rintro txnid snap (hs | ⟨r, hr, hr', hview⟩)
    · exact .inl hs
    · exact .inr ⟨r, hr, halive r hr', hview⟩
  have hbelow : ∀ j oldest, s.Below j oldest →
      Below { s with dead := Function.update s.dead pid true } j oldest := fun j oldest hb =>
    hb.mono le_rfl fun r i txnid hr hi => .inl ⟨halive r hr, hi⟩
  exact ⟨h.readers.die pid, fun r i txnid hr hi => h.claims r i txnid (halive r hr) hi,
    fun pid' => hbelow _ _ (h.pgoldest pid'), h.number, h.last,
    fun r hr hr' => h.within r hr (halive r hr'),
    fun txnid snap hs => (h.held txnid snap (hheld txnid snap hs)).same rfl rfl rfl,
    h.writer.mono rfl rfl rfl hheld hbelow⟩

/-- What happens to the reader table while the readers stay where they are. -/
theorem Valid.setTable (h : s.Valid G) {slots : ℕ → ReaderSlot} {rmutex : Option ℕ}
    (hreaders : ReadersValid { s with slots, rmutex }) : Valid G { s with slots, rmutex } :=
  ⟨hreaders, h.claims, h.pgoldest, h.number, h.last, h.within,
    fun txnid snap hs => (h.held txnid snap hs).same rfl rfl rfl,
    h.writer.mono rfl rfl rfl (fun _ _ hs => hs) fun _ _ hbelow => hbelow⟩

theorem Valid.readerStep (h : s.Valid G) (hr : s.Alive r) {keepSlot : Bool}
    (hstep : s.readerStep r keepSlot = some s') : s'.Valid G := by
  have hreaders := h.readers.readerStep hr hstep
  obtain ⟨x, slots, numreaders, rmutex, rfl, hgoes⟩ := readerStep_cases hstep
  have hother : ∀ r', r' ≠ r → Function.update s.readers r x r' = s.readers r' := fun r' hne =>
    Function.update_of_ne hne _ _
  have hclaim : ∀ r' i txnid, s.Alive r' →
      (Function.update s.readers r x r').claim = some (i, txnid) →
      s.Alive r' ∧ (s.readers r').claim = some (i, txnid) ∨ txnid = s.txnid :=
    fun r' i txnid hr' hi => by
      by_cases hne : r' = r
      · subst hne
        rw [Function.update_self] at hi
        exact (hgoes.claim hi).imp_left fun hi => ⟨hr', hi⟩
      · exact .inl ⟨hr', hother r' hne ▸ hi⟩
  have hheld : ∀ txnid snap, Held G { s with
      readers := Function.update s.readers r x, slots, numreaders, rmutex } txnid snap →
      s.Held G txnid snap := by
    rintro txnid snap (hmeta | ⟨r', hmem, hr', hview⟩)
    · exact .inl hmeta
    · have hview : (Function.update s.readers r x r').view s.metas = some (txnid, snap) := hview
      by_cases hne : r' = r
      · subst hne
        rw [Function.update_self] at hview
        cases x <;>
          simp only [Reader.view, reduceCtorEq, Option.some.injEq, Prod.mk.injEq] at hview
        · -- what has been published last
          obtain ⟨-, rfl⟩ := hgoes
          rw [← hview.1, ← hview.2]
          exact .inl ⟨rfl, rfl⟩
        · obtain ⟨hx, rfl⟩ := hgoes
          rw [← hview.1, ← hview.2]
          exact .inr ⟨r', hmem, hr', by rw [hx]; rfl⟩
        · obtain ⟨hx, -⟩ := hgoes
          rw [← hview.1, ← hview.2]
          exact .inr ⟨r', hmem, hr', by rw [hx]; rfl⟩
      · rw [hother r' hne] at hview
        exact .inr ⟨r', hmem, hr', hview⟩
  have hbelow : ∀ j oldest, s.Below j oldest → Below { s with
      readers := Function.update s.readers r x, slots, numreaders, rmutex } j oldest :=
    fun j oldest hb => hb.mono le_rfl hclaim
  refine ⟨hreaders, fun r' i txnid hr' hi => ?_, fun pid => hbelow _ _ (h.pgoldest pid), h.number,
    h.last, fun r' hmem hr' => ?_,
    fun txnid snap hs => (h.held txnid snap (hheld txnid snap hs)).same rfl rfl rfl,
    h.writer.mono rfl rfl rfl hheld hbelow⟩
  · rcases hclaim r' i txnid hr' hi with ⟨hr', hi⟩ | heq
    · exact h.claims r' i txnid hr' hi
    · exact heq.le
  · show Within _ (Function.update s.readers r x r')
    by_cases hne : r' = r
    · subst hne
      rw [Function.update_self]
      have hwithin := h.within r' hmem hr'
      cases x with
      | checked i txnid =>
        obtain ⟨-, rfl⟩ := hgoes
        exact fun p hp => (h.last.used_range p hp).2
      | copied i txnid snap =>
        obtain ⟨hx, rfl⟩ := hgoes
        rw [hx] at hwithin
        exact hwithin
      | reading i txnid snap nextPgno =>
        obtain ⟨hx, rfl⟩ := hgoes
        rw [hx] at hwithin
        exact hwithin
      | _ => trivial
    · rw [hother r' hne]
      exact h.within r' hmem hr'

/-- A step of anyone. -/
theorem Valid.step (h : s.Valid G) {e : Event D} (hallows : s.Allows G e)
    (hstep : s.step e = some s') : s'.Valid G := by
  cases e with
  | reader r keepSlot =>
    obtain ⟨hdead, hstep⟩ := Option.ite_none_left_eq_some.1 hstep
    exact h.readerStep (Bool.eq_false_of_not_eq_true hdead) hstep
  | begin pid =>
    simp only [Mvcc.step] at hstep
    split at hstep
    · rename_i hw
      obtain ⟨-, hstep⟩ := Option.ite_none_left_eq_some.1 hstep
      obtain rfl := Option.some.inj hstep
      exact h.begin hw pid
    · simp at hstep
  | act a =>
    simp only [Mvcc.step] at hstep
    split at hstep
    · rename_i w hw
      obtain rfl := Option.some.inj hstep
      exact h.release (h.working hw fun hlate => hlate).1.behind
    · rename_i w a hw _
      obtain ⟨-, hstep⟩ := Option.ite_none_left_eq_some.1 hstep
      exact h.act hw hstep
    · simp at hstep
  | alloc mem =>
    simp only [Mvcc.step] at hstep
    split at hstep
    · rename_i w phase hw
      exact h.allocStep hw hstep
    · simp at hstep
  | commit ok stored =>
    simp only [Mvcc.step] at hstep
    split at hstep
    · rename_i w phase hw
      exact h.commitStep hw hallows hstep
    · simp at hstep
  | die pid =>
    simp only [Mvcc.step] at hstep
    have hdie := h.die pid
    split at hstep
    · split at hstep <;> obtain rfl := Option.some.inj hstep
      · exact hdie.withWriter hdie.writer.died
      · exact hdie
    · obtain rfl := Option.some.inj hstep
      exact hdie
  | clear i =>
    obtain ⟨⟨hlock, hdead⟩, hstep⟩ := Option.ite_none_right_eq_some.1 hstep
    obtain rfl := Option.some.inj hstep
    exact h.setTable (h.readers.clear hlock hdead)
  | recover =>
    simp only [Mvcc.step] at hstep
    split at hstep
    · rename_i hw
      obtain rfl := Option.some.inj hstep
      have hwriter := h.writer
      rw [hw] at hwriter
      rcases hwriter with hbehind | hahead
      · rw [pickMeta_of_behind h.number hbehind, h.number]
        exact h.release hbehind
      · rw [pickMeta_of_ahead h.number hahead, hahead.txnid]
        exact h.publish hahead
    · simp at hstep
  | recoverTable =>
    simp only [Mvcc.step] at hstep
    split at hstep
    · rename_i r hlock
      obtain ⟨hdead, hstep⟩ := Option.ite_none_right_eq_some.1 hstep
      obtain rfl := Option.some.inj hstep
      exact h.setTable (h.readers.recoverTable hlock hdead)
    · simp at hstep

/-! ## Runs -/

theorem valid_init (map : ℕ → Option D) (maxpg maxfree1pg maxreaders : ℕ) {pids : ℕ → ℕ}
    (writemap : ℕ → Bool) (hpids : ∀ r, 0 < pids r) :
    (init map maxpg maxfree1pg maxreaders pids writemap).Valid G := by
  have hheld : ∀ txnid (snap : Snap D),
      (init map maxpg maxfree1pg maxreaders pids writemap).Held G txnid snap →
        snap = ⟨fun _ => none, [], 2⟩ := by
    rintro txnid snap (⟨-, rfl⟩ | ⟨r, -, -, hview⟩)
    · rfl
    · simp [init] at hview
  refine ⟨⟨hpids, fun r _ => trivial, fun r r' i _ _ hi => ?_⟩, fun r i txnid _ hi => ?_,
    fun pid => ⟨le_rfl, fun r i txnid _ _ _ => Nat.zero_le _⟩, rfl, ?_, fun r _ _ => trivial,
    fun txnid snap hs => ?_, Nat.le_refl 0⟩
  · simp [init] at hi
  · simp [init] at hi
  · refine ⟨le_rfl, List.Pairwise.nil, fun r hr => absurd hr List.not_mem_nil,
      fun r hr => absurd hr List.not_mem_nil, List.nodup_nil,
      fun p hp => absurd hp List.not_mem_nil, fun p hp => absurd hp List.not_mem_nil,
      fun p hp => ?_, fun p hle hlt => absurd hlt hle.not_gt⟩
    simp [init, published] at hp
  · rw [hheld txnid snap hs]
    exact ⟨fun p c hp => by simp at hp, fun p hp => by simp at hp,
      fun record hrecord => absurd hrecord List.not_mem_nil⟩

/-- A state that is reached from a new file, by a run that meets a condition. -/
def Reached (P : Mvcc D → Event D → Prop) (s : Mvcc D) : Prop :=
  ∃ map maxpg maxfree1pg maxreaders pids writemap events, (∀ r, 0 < pids r) ∧
    (machine D).Along P (init map maxpg maxfree1pg maxreaders pids writemap) events ∧
    s = (machine D).run (init map maxpg maxfree1pg maxreaders pids writemap) events

theorem Reached.next {P : Mvcc D → Event D → Prop} (hs : s.Reached P) {e : Event D} (he : P s e) :
    ((machine D).next s e).Reached P := by
  obtain ⟨map, maxpg, maxfree1pg, maxreaders, pids, writemap, events, hpids, halong, rfl⟩ := hs
  refine ⟨map, maxpg, maxfree1pg, maxreaders, pids, writemap, events ++ [e], hpids,
    Machine.along_append.2 ⟨halong, he, trivial⟩, ?_⟩
  rw [Machine.run_append]
  rfl

/-- The reader table is in order after every run. -/
theorem Reached.readersValid {P : Mvcc D → Event D → Prop} (hs : s.Reached P) :
    s.ReadersValid := by
  obtain ⟨map, maxpg, maxfree1pg, maxreaders, pids, writemap, events, hpids, halong, rfl⟩ := hs
  refine Machine.run_of_inv (fun s e hs _ => ?_)
    (valid_init (G := ∅) map maxpg maxfree1pg maxreaders writemap hpids).readers halong
  simp only [Machine.next, machine]
  split
  · rename_i hstep
    exact hs.step hstep
  · exact hs

/-- The state is in order after every run of what is assumed. -/
theorem Reached.valid (hs : s.Reached (Allows G)) : s.Valid G := by
  obtain ⟨map, maxpg, maxfree1pg, maxreaders, pids, writemap, events, hpids, halong, rfl⟩ := hs
  refine Machine.run_of_inv (fun s e hs he => ?_)
    (valid_init map maxpg maxfree1pg maxreaders writemap hpids) halong
  simp only [Machine.next, machine]
  split
  · rename_i hstep
    exact hs.step he hstep
  · exact hs

/-- Until its number is in its meta page, the writer is at work. -/
theorem Reached.working (hs : s.Reached (Allows G)) (hw : s.writer = some (some (w, phase)))
    (hmeta : s.pickMeta.txnid = s.txnid) : s.Working G w := by
  have hwriter := hs.valid.writer
  rw [hw] at hwriter
  rcases hwriter with ⟨hworking, -⟩ | ⟨-, hahead, -⟩
  · exact hworking
  · have htxnid := hahead.txnid
    rw [pickMeta_of_ahead hs.valid.number hahead] at hmeta
    omega

/-- Three transactions copy a page, a reader starts to read, and two more copy the page again. The
    pages freed first are used again by then, one each. -/
def rewriting : List (Event ℕ) :=
  let alloc (num c k : ℕ) : List (Event ℕ) :=
    [.begin 1, .act (.alloc num fun _ => c)] ++ List.replicate k (.alloc true)
  let commit (k l : ℕ) : List (Event ℕ) :=
    .act (.commit true) :: List.replicate k (.act .save) ++ List.replicate l (.commit true 4)
  alloc 2 5 2 ++ commit 1 5 ++
    alloc 1 6 2 ++ [.act (.free 2 false), .act (.free 3 false)] ++ commit 3 4 ++
    alloc 1 7 3 ++ [.act (.free 4 false)] ++ commit 3 4 ++
    List.replicate 12 (.reader 0 true) ++
    alloc 1 8 7 ++ [.act (.spill 2), .act (.free 5 false)] ++ commit 5 4 ++
    alloc 1 9 4

/-- The state after that. -/
def rewritten : Mvcc ℕ :=
  (machine ℕ).run (init (fun _ => none) 10 121 1 (fun _ => 1) fun _ => false) rewriting

theorem reached_rewritten : rewritten.Reached (Allows {0}) :=
  ⟨_, _, _, _, _, _, rewriting, fun _ => Nat.one_pos, by decide +kernel, rfl⟩

/-- What a reader reads is as it was committed, as long as it reads it. -/
theorem reading_run (hs : s.Reached (Allows G)) (hG : r ∈ G) (hr : s.Alive r) {c : D}
    (hp : (s.readers r).pages p = some c) : p < (s.readers r).nextPgno ∧ s.map p = some c := by
  have hwithin := hs.valid.within r hG hr
  have hheld : ∀ txnid snap, (s.readers r).view s.metas = some (txnid, snap) →
      s.Keeps s.published txnid snap := fun txnid snap hview =>
    hs.valid.held txnid snap (.inr ⟨r, hG, hr, hview⟩)
  cases hx : s.readers r <;> rw [hx] at hp hwithin hheld <;>
    simp only [Reader.pages, reduceCtorEq] at hp
  rename_i i txnid snap nextPgno
  exact ⟨hwithin p (by rw [hp]; rfl), (hheld txnid snap rfl).shown p c hp⟩

theorem reading_run_rewritten : 5 < (rewritten.readers 0).nextPgno ∧ rewritten.map 5 = some 7 :=
  reading_run reached_rewritten (by decide) (by decide +kernel) (by decide +kernel)

/-- Until its number is in its meta page, the pages the writer may write to are in no snapshot that
    is needed. -/
theorem own_run (hs : s.Reached (Allows G)) (hw : s.writer = some (some (w, phase)))
    (hmeta : s.pickMeta.txnid = s.txnid) (hp : p ∈ w.pool ∨ p ∈ w.own) :
    s.pickMeta.snap.pages p = none ∧
      ∀ r ∈ G, s.Alive r → (s.readers r).pages p = none := by
  have hworking := hs.working hw hmeta
  rw [pickMeta_of_behind hs.valid.number hworking.behind]
  refine ⟨hworking.clear _ _ (Valid.held_last s) p hp, fun r hr halive => ?_⟩
  have hclear : ∀ txnid snap, (s.readers r).view s.metas = some (txnid, snap) →
      snap.pages p = none := fun txnid snap hview =>
    hworking.clear txnid snap (.inr ⟨r, hr, halive, hview⟩) p hp
  cases hx : s.readers r <;> rw [hx] at hclear
  case reading => exact hclear _ _ rfl
  all_goals rfl

theorem own_run_rewritten : rewritten.pickMeta.snap.pages 3 = none ∧
    ∀ r ∈ ({0} : Finset ℕ), rewritten.Alive r → (rewritten.readers r).pages 3 = none := by
  have hsome : (rewritten.writer.bind id).isSome := by decide +kernel
  have hown : ∀ x ∈ rewritten.writer.bind id, 3 ∈ x.1.own := by decide +kernel
  obtain ⟨⟨w, phase⟩, hw⟩ := Option.isSome_iff_exists.1 hsome
  obtain ⟨x, hx, hxw⟩ := Option.bind_eq_some_iff.1 hw
  exact own_run reached_rewritten (hx.trans (congrArg some hxw)) (by decide +kernel)
    (.inr (hown _ hw))

/-- Whenever the writer dies, the pages of the last meta page are in the file. Its transaction is
    the last one that readers know of, or the next one. -/
theorem pickMeta_run (hs : s.Reached (Allows G)) :
    (s.pickMeta.txnid = s.txnid ∨ s.pickMeta.txnid = s.txnid + 1) ∧
      ∀ p c, s.pickMeta.snap.pages p = some c →
        (2 ≤ p ∧ p < s.pickMeta.snap.nextPgno) ∧ s.map p = some c := by
  have hvalid := hs.valid
  have hnumber : s.Behind ∨ s.Ahead G := hvalid.writer.died
  rcases hnumber with hbehind | hahead
  · rw [pickMeta_of_behind hvalid.number hbehind]
    exact ⟨.inl hvalid.number, fun p c hp => ⟨hvalid.last.used_range p (by rw [hp]; rfl),
      (hvalid.held _ _ (Valid.held_last s)).shown p c hp⟩⟩
  · rw [pickMeta_of_ahead hvalid.number hahead]
    exact ⟨.inr hahead.txnid, fun p c hp => ⟨hahead.valid.used_range p (by rw [hp]; rfl),
      hahead.shown p c hp⟩⟩

/-- The meta page is written, but the call fails, and the writer dies before it writes it back. -/
theorem pickMeta_run_died :
    ((machine ℕ).run (init (fun _ => none) 10 121 1 (fun _ => 1) fun _ => false)
      [.begin 1, .act (.alloc 1 fun _ => 5), .alloc true, .alloc true, .act (.commit true),
        .act .save, .commit true 4, .commit true 4, .commit false 4, .die 1]).map 2 = some 5 :=
  And.right (And.right (pickMeta_run (G := ∅) ⟨_, _, _, _, _, _, _, fun _ => Nat.one_pos,
    by decide +kernel, rfl⟩) 2 5 rfl)

/-- Each page is used, or it is in the free list once. -/
theorem freePages_run (hs : s.Reached (Allows G)) (hle : 2 ≤ p)
    (hlt : p < s.pickMeta.snap.nextPgno) :
    s.pickMeta.snap.freePages.count p + (if (s.pickMeta.snap.pages p).isSome then 1 else 0) =
      1 := by
  have hvalid := hs.valid
  have hlast : ∃ k, s.pickMeta.snap.Valid k := by
    have hnumber : s.Behind ∨ s.Ahead G := hvalid.writer.died
    rcases hnumber with hbehind | hahead
    · rw [pickMeta_of_behind hvalid.number hbehind]
      exact ⟨_, hvalid.last⟩
    · rw [pickMeta_of_ahead hvalid.number hahead]
      exact ⟨_, hahead.valid⟩
  obtain ⟨k, hlast⟩ := hlast
  split
  · rename_i hsome
    rw [List.count_eq_zero_of_not_mem fun hp => ?_]
    rw [hlast.unused p hp] at hsome
    exact absurd hsome Bool.false_ne_true
  · rename_i hnone
    exact List.count_eq_one_of_mem hlast.nodup ((hlast.cover p hle hlt).resolve_left hnone)

theorem freePages_run_rewritten :
    rewritten.pickMeta.snap.freePages.count 3 +
      (if (rewritten.pickMeta.snap.pages 3).isSome then 1 else 0) = 1 :=
  freePages_run reached_rewritten (by decide) (by decide +kernel)

/-- No two readers have the same slot, and the numbers of the readers are in their slots. -/
theorem claim_run {P : Mvcc D → Event D → Prop} (hs : s.Reached P) (hr : s.Alive r)
    (hi : (s.readers r).claim = some (i, txnid)) :
    (i < s.numreaders ∧ (s.slots i).pid = s.pids r ∧ (s.slots i).txnid = some txnid) ∧
      ∀ r' ≠ r, s.Alive r' → (s.readers r').taken ≠ some i := by
  refine ⟨hs.readersValid.lt_numreaders hr hi, fun r' hne hr' htaken => ?_⟩
  refine hne (hs.readersValid.distinct r' r i hr' hr htaken ?_)
  cases hx : s.readers r <;>
    simp only [hx, Reader.claim, reduceCtorEq, Option.some.injEq, Prod.mk.injEq] at hi
  all_goals exact congrArg some hi.1

theorem claim_run_two :
    ((machine ℕ).run (init (fun _ => none) 10 121 2 (fun _ => 1) fun _ => false)
      (List.replicate 10 (.reader 0 true) ++ List.replicate 11 (.reader 1 true))).numreaders > 1 :=
  And.left (And.left (claim_run (r := 1) (P := fun _ _ => True)
    ⟨_, _, _, _, _, _, _, fun _ => Nat.one_pos, Machine.along_of_forall (fun _ _ => trivial) _, rfl⟩
    rfl rfl))

end Mvcc

end KotlinLmdb
