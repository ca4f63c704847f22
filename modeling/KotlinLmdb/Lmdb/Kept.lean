import KotlinLmdb.Lmdb.Lives

/-!
# Slots that stay open

What becomes of a slot a database was opened in with a comparer (`Dbis.OpenAs`).
Transactions that count the slot find the database there, and assign the slot to no other
one. Until it is closed the slot keeps its name, and its comparer, unless a transaction that
does not count it assigns it, or it is the unnamed database's and that is opened again
(`Dbis.OpenAs.opening`).

A transaction that opened the database counts the slot, and so do its children
(`Dbis.Pinned`). Once it was committed with all it is nested in, every transaction begun
from then on does (`Dbis.Kept`).
-/

namespace KotlinLmdb

/-- The call closes the slot, or sets its comparer. -/
def Call.Touches (i : Ptr) : Call → Prop
  | mdbSetCompare _ j _ | mdbDbiClose _ j => j = i
  | mdbDrop _ j del => del ∧ j = i
  | _ => False

namespace Dbis

/-- A database (the unnamed one, if without a name) is open in the slot, and ordered by a
    callback. A named one is in no slot before. -/
structure OpenAs (name : Option DbName) (i : Ptr) (cb : Callback Ptr) (s : Dbis) : Prop where
  cmp : (s.slots i).cmp = some (.callback cb)
  place : match name with
    | none => i = mainDbi
    | some name => coreDbs ≤ i ∧ (s.slots i).name = some name ∧
      ∀ j, coreDbs ≤ j → j < i → (s.slots j).name ≠ some name

/-- The transaction, if it is live, and its children count the slot. -/
structure Tracks (s : Dbis) (i y : Ptr) : Prop where
  reader : y ∈ s.handles.readers → i < (s.views y).numdbs
  writer : ∀ x ∈ s.handles.ending y, i < (s.views x).numdbs

/-- The transactions a transaction is nested in, outermost first, and the transaction. -/
def nest (s : Dbis) (h : Ptr) : List Ptr :=
  if h ∈ s.handles.writers then s.handles.writers.takeWhile (· ≠ h) ++ [h] else [h]

/-- The slot was opened in transactions nested in one another, and the innermost of those that
    are still live counts it. -/
structure Pinned (chain : List Ptr) (a i : Ptr) (s : Dbis) : Prop where
  sound : s.Sound
  closed : s.handles.closed = false
  live : a ∈ s.handles.writers ∨ a ∈ s.handles.readers
  nest : s.nest a <+: chain
  tracks : s.Tracks i a

/-- The slot was exported, and some transactions count it. -/
structure Kept (L : Ptr → Prop) (i : Ptr) (s : Dbis) : Prop where
  sound : s.Sound
  closed : s.handles.closed = false
  numdbs : i < s.numdbs
  fresh : ∀ y, L y → y < s.handles.fresh
  tracks : ∀ y, L y → s.Tracks i y

variable {name : Option DbName} {i j h x y : Ptr} {cb : Callback Ptr} {s s' : Dbis}
  {L : Ptr → Prop} {call : Call} {r : Reply × Dbis} {chain : List Ptr} {a p : Ptr}

/-! ## What is open -/

/-- Closing other slots, and assigning them to other databases, does not matter. -/
theorem OpenAs.of_slots (ho : OpenAs name i cb s) (hcmp : (s'.slots i).cmp = (s.slots i).cmp)
    (hname : (s'.slots i).name = (s.slots i).name)
    (hothers : ∀ n, name = some n → ∀ j, j ≠ i → (s'.slots j).name = some n →
      (s.slots j).name = some n) : OpenAs name i cb s' where
  cmp := hcmp.trans ho.cmp
  place := by
    have hplace := ho.place
    cases name with
    | none => exact hplace
    | some n =>
      obtain ⟨hcore, hn, hfirst⟩ := hplace
      refine ⟨hcore, hname.trans hn, fun j hj hji hj' => ?_⟩
      exact hfirst j hj hji (hothers n rfl j hji.ne hj')

theorem OpenAs.of_eq (ho : OpenAs name i cb s) (hslots : s'.slots = s.slots) :
    OpenAs name i cb s' :=
  ho.of_slots (by rw [hslots]) (by rw [hslots]) fun _ _ _ _ hj => hslots ▸ hj

theorem OpenAs.setSlot (ho : OpenAs name i cb s) {x : DbSlot} (hj : j ≠ i)
    (hx : ∀ n, name = some n → x.name = some n → (s.slots j).name = some n) :
    OpenAs name i cb (s.setSlot j x) := by
  refine ho.of_slots ?_ ?_ fun n hn k hk hk' => ?_
  · rw [slots_setSlot_of_ne hj.symm]
  · rw [slots_setSlot_of_ne hj.symm]
  · by_cases hkj : k = j
    · rw [hkj, slots_setSlot_self] at hk'
      exact hkj ▸ hx n hn hk'
    · rwa [slots_setSlot_of_ne hkj] at hk'

theorem OpenAs.close (ho : OpenAs name i cb s) (hj : j ≠ i) :
    OpenAs name i cb (s.setSlot j (s.slots j).close) :=
  ho.setSlot hj fun n _ hx => by simp at hx

/-- A transaction that counts the slot finds the database there. -/
theorem OpenAs.find? {n : DbName} (ho : OpenAs (some n) i cb s) (hi : i < (s.views h).numdbs) :
    s.find? h n = some i := by
  obtain ⟨hcore, hn, hfirst⟩ := ho.place
  refine List.find?_range'_eq_some.2 ⟨by simpa using hn, ?_, fun j hj hji => ?_⟩
  · rw [List.mem_range'_1, Nat.add_sub_cancel' (hcore.trans hi.le)]
    exact ⟨hcore, hi⟩
  · simpa using hfirst j hj hji

/-- Nor does it assign the slot to another one. -/
theorem OpenAs.slotFor_ne (ho : OpenAs name i cb s) (hcore : coreDbs ≤ (s.views h).numdbs)
    (hi : i < (s.views h).numdbs) : s.slotFor h ≠ i := by
  intro heq
  rcases s.slotFor_cases h with hfree | hlast
  · have hplace := ho.place
    cases name with
    | none =>
      have hslot := s.coreDbs_le_slotFor h hcore
      rw [heq, hplace] at hslot
      exact absurd hslot (by decide)
    | some n =>
      rw [heq, hplace.2.1] at hfree
      cases hfree
  · exact hi.ne (heq ▸ hlast)

theorem OpenAs.initMain (ho : OpenAs name i cb s) (hd : Handles) :
    OpenAs name i cb { s.initMain h with handles := hd } := by
  refine ho.of_slots ?_ (name_initMain h i) fun n _ j _ hj => (name_initMain h j).symm.trans hj
  exact congrArg DbSlot.cmp (slots_initMain h i fun _ => Option.isSome_of_eq_some ho.cmp)

/-- It stays where it is when another database is opened in another slot. -/
theorem OpenAs.opening {name' : Option DbName} {flags : UInt32} {r : Reply × Dbis}
    (ho : OpenAs name i cb s) (hr : Opening s h flags name' r)
    (hassign : ∀ n, name' = some n → s.Live h → r.1.rc = 0 → s.find? h n = none →
      name ≠ some n ∧ s.slotFor h ≠ i)
    (hmain : name' = none → s.Live h → r.1.rc = 0 → i ≠ mainDbi) : OpenAs name i cb r.2 := by
  cases hr with
  | refused _ _ hr =>
    rcases hr with hr | hr <;> rw [hr]
    · exact ho.of_eq rfl
    · exact ho.initMain _
  | freed _ _ hr =>
    rw [hr]
    exact ho.of_eq rfl
  | main _ hh =>
    have hne := hmain rfl hh rfl
    show OpenAs name i cb (openMain _ h flags).2
    refine ho.of_slots ?_ ?_ fun n _ j _ hj => ?_
    · rw [slots_openMain_of_ne h hne]
    · rw [slots_openMain_of_ne h hne]
    · by_cases hj' : j = mainDbi
      · rw [hj', slots_openMain_self] at hj
        exact hj' ▸ hj
      · rwa [slots_openMain_of_ne h hj'] at hj
  | found => exact ho.initMain _
  | @assigned name' f hd _ hh hfind =>
    obtain ⟨hname, hne⟩ := hassign name' rfl hh rfl hfind
    rw [← slotFor_initMain (s := s) h hd] at hne
    refine ((ho.initMain hd).setSlot hne fun n hn hx => ?_).of_eq rfl
    exact absurd (hn.trans hx.symm) hname

/-- Opening the database again gives the slot. -/
theorem OpenAs.ptr_opening {flags : UInt32} {r : Reply × Dbis} (ho : OpenAs name i cb s)
    (hr : Opening s h flags name r) (hh : s.handles.status h ≠ .dangling) (hrc : r.1.rc = 0)
    (hi : s.Live h → i < (s.views h).numdbs) : r.1.ptr = i := by
  cases hr with
  | refused _ hrc' _ => exact absurd hrc hrc'
  | freed _ hh' _ => exact absurd hh' hh
  | main => exact ho.place.symm
  | found _ hlive hfind => exact Option.some.inj (hfind.symm.trans (ho.find? (hi hlive)))
  | assigned _ hlive hfind => exact nomatch hfind.symm.trans (ho.find? (hi hlive))

/-- Opening the unnamed database gives it default comparers. -/
theorem cmp_opening {flags : UInt32} {r : Reply × Dbis} (hr : Opening s h flags none r)
    (hh : s.handles.status h ≠ .dangling) (hrc : r.1.rc = 0) (cb : Callback Ptr) :
    (r.2.slots mainDbi).cmp ≠ some (.callback cb) := by
  cases hr with
  | refused _ hrc' _ => exact absurd hrc hrc'
  | freed _ hh' _ => exact absurd hh' hh
  | main =>
    rw [slots_openMain_self]
    exact fun h => defaultCmp_ne_callback _ cb (Option.some.inj h)

/-- A transaction that does not count the slot opens the database somewhere else, and gives the
    slot default comparers if it assigns it. -/
theorem older_opening {n : DbName} {flags : UInt32} {r : Reply × Dbis}
    (hr : Opening s h flags (some n) r) (hh : s.Live h) (hrc : r.1.rc = 0)
    (hle : (s.views h).numdbs ≤ i) (hptr : name = some n → r.1.ptr = i)
    (hcmp : (r.2.slots i).cmp = some (.callback cb)) :
    name ≠ some n ∧ (s.find? h n = none → s.slotFor h ≠ i) := by
  cases hr with
  | refused _ hrc' => exact absurd hrc hrc'
  | freed _ hh' => rcases hh with hh | hh <;> exact absurd (hh.symm.trans hh') (by simp)
  | found _ _ hfind =>
    obtain ⟨-, hlt, -⟩ := of_find?_eq_some h hfind
    refine ⟨fun heq => ?_, fun hnone => ?_⟩
    · exact absurd (hptr heq) (hlt.trans_le hle).ne
    · cases hfind.symm.trans hnone
  | @assigned _ f hd _ _ hfind =>
    have hslot := slotFor_initMain (s := s) h hd
    have hne : s.slotFor h ≠ i := fun heq => by
      rw [← heq, ← hslot, slots_assign_self] at hcmp
      exact defaultCmp_ne_callback _ cb (Option.some.inj hcmp)
    exact ⟨fun heq => hne (hslot.symm.trans (hptr heq)), fun _ => hne⟩

/-- No transaction that does not count the slot opens its database, or assigns the slot. -/
def Spares (s : Dbis) (name : Option DbName) (i : Ptr) (call : Call) : Prop :=
  ∀ h n flags, call = .mdbDbiOpen h (some n) flags → s.Live h → (Dbis.answer call s).1.rc = 0 →
    (s.views h).numdbs ≤ i → name ≠ some n ∧ (s.find? h n = none → s.slotFor h ≠ i)

/-- A live transaction counts the slots that are not for named databases. -/
theorem Sound.coreDbs_le (hs : s.Sound) (hh : s.Live h) : coreDbs ≤ (s.views h).numdbs :=
  (of_decide_eq_true (hs.sees_mainDbi h hh)).1

/-- Other calls that do not touch its slot leave it where it is. -/
theorem OpenAs.answer (ho : OpenAs name i cb s) (hs : s.Sound) (hcall : ¬call.IsLife)
    (htouch : ¬call.Touches i) (hspares : s.Spares name i call)
    (hmain : ∀ h flags, call = .mdbDbiOpen h none flags → s.Live h →
      (Dbis.answer call s).1.rc = 0 → i ≠ mainDbi) :
    OpenAs name i cb (Dbis.answer call s).2 := by
  -- Only calls about slots change any. What would give this one another comparer, close it or
  -- open it for another name is excluded; its comparer for duplicates may be set.
  by_cases hslot : call.IsSlot
  · cases call
    case mdbDbiOpen h name' flags =>
      refine ho.opening (dbiOpen_opening h name' flags) (fun n heq hh hrc hfind => ?_)
        fun heq => ?_
      · subst heq
        by_cases hi : i < (s.views h).numdbs
        · refine ⟨fun heq => ?_, ho.slotFor_ne (hs.coreDbs_le hh) hi⟩
          subst heq
          cases hfind.symm.trans (ho.find? hi)
        · obtain ⟨hname, hslot⟩ := hspares h n flags rfl hh hrc (Nat.not_lt.1 hi)
          exact ⟨hname, hslot hfind⟩
      · subst heq
        exact hmain h flags rfl
    case mdbSetCompare h' j c =>
      simp only [Dbis.answer, setCompare, install]
      split_ifs
      · exact ho.of_eq rfl
      · exact ho.setSlot htouch fun _ _ hx => hx
      · exact ho
    case mdbSetDupsort h' j c =>
      simp only [Dbis.answer, setDupsort, install]
      split_ifs
      · exact ho.of_eq rfl
      · by_cases hj : j = i
        · subst hj
          refine ho.of_slots ?_ ?_ fun n _ k hk hk' => ?_
          · rw [slots_setSlot_self]
          · rw [slots_setSlot_self]
          · rwa [slots_setSlot_of_ne hk] at hk'
        · exact ho.setSlot hj fun _ _ hx => hx
      · exact ho
    case mdbDbiClose e j =>
      simp only [Dbis.answer, dbiClose]
      split
      · exact ho.close htouch
      · exact ho
    case mdbDrop h' j del =>
      have hdata : Loads s (s.data h' j true false (·.write h')).2 :=
        loads_data h' j fun hd => hd.sameTxns_write h'
      have ho' := ho.of_eq hdata.slots
      simp only [Dbis.answer, drop]
      split_ifs with _ _ _ hdel
      · exact ho
      · exact ho'.of_eq rfl
      · exact (ho'.close fun hj => htouch ⟨hdel, hj⟩).of_eq rfl
      · exact ho'
      · exact ho'
    all_goals exact hslot.elim
  · exact ho.of_eq (loads_answer hcall hslot).slots

/-- Nor does the end of transactions that have not assigned the slot. -/
theorem OpenAs.living (ho : OpenAs name i cb s) (hr : Living s call r)
    (hnew : ∀ h, call.Abandons h r.1 → ∀ x ∈ s.handles.ends h, (s.views x).isNew i = false) :
    OpenAs name i cb r.2 := by
  have hslot : ∃ valid, r.2.slots i = { s.slots i with valid } := by
    rcases hr.slots i with hsame | ⟨h, hcall, ⟨-, x, hx, -, hxi⟩, -⟩
    · exact hsame
    · rw [hnew h hcall x hx] at hxi
      cases hxi
  obtain ⟨valid, hslot⟩ := hslot
  refine ho.of_slots (by rw [hslot]) (by rw [hslot]) fun n _ j _ hj => ?_
  rcases hr.slots j with ⟨_, heq⟩ | ⟨_, -, -, heq⟩
  · rwa [heq] at hj
  · rw [heq, DbSlot.name_close] at hj
    cases hj

/-! ## Which transactions count the slot -/

theorem Tracks.of_eq (ht : Tracks s i y) (hreaders : s'.handles.readers = s.handles.readers)
    (hwriters : s'.handles.writers = s.handles.writers)
    (hviews : ∀ h, h ∈ s.handles.writers ∨ h ∈ s.handles.readers →
      (s.views h).numdbs ≤ (s'.views h).numdbs) : Tracks s' i y where
  reader hy := by
    rw [hreaders] at hy
    exact (ht.reader hy).trans_le (hviews y (.inr hy))
  writer x hx := by
    rw [Handles.ending, hwriters] at hx
    exact (ht.writer x hx).trans_le (hviews x (.inl (mem_writers_of_mem_ending hx)))

/-- So it does if it has got a view that counts the slot, and is as before if not. -/
theorem Tracks.of_setView (ht : Tracks s i y) {v : View} (hviews : s'.views = (s.setView h v).views)
    (hreader : y ∈ s'.handles.readers → y ∈ s.handles.readers ∧ y ≠ h ∨ y = h ∧ i < v.numdbs)
    (hwriter : ∀ x ∈ s'.handles.ending y, x ∈ s.handles.ending y ∧ x ≠ h ∨
      x = h ∧ i < v.numdbs) : Tracks s' i y where
  reader hy := by
    rw [hviews]
    rcases hreader hy with ⟨hy, hne⟩ | ⟨rfl, hv⟩
    · rw [views_setView_of_ne hne]
      exact ht.reader hy
    · rw [views_setView_self]
      exact hv
  writer x hx := by
    rw [hviews]
    rcases hwriter x hx with ⟨hx, hne⟩ | ⟨rfl, hv⟩
    · rw [views_setView_of_ne hne]
      exact ht.writer x hx
    · rw [views_setView_self]
      exact hv

/-- The transactions left when one has ended, and its children, did not end with it. -/
theorem mem_ending_of_takeWhile (hs : s.Sound)
    (hwriters : s'.handles.writers = s.handles.writers.takeWhile (· ≠ h)) {x : Ptr}
    (hx : x ∈ s'.handles.ending y) :
    x ∈ s.handles.ending y ∧ x ∉ s.handles.ends h ∧ s.handles.ending h ⊆ s.handles.ending y := by
  have hx' := mem_writers_of_mem_ending hx
  rw [hwriters] at hx'
  have hy : y ∈ s.handles.writers.takeWhile (· ≠ h) := by
    by_contra hy
    rw [Handles.ending, hwriters, dropWhile_ne_eq_nil hy] at hx
    cases hx
  have hending := ending_eq_append hy
  refine ⟨?_, ?_, ?_⟩
  · rw [hending]
    rw [Handles.ending, hwriters] at hx
    exact List.mem_append_left _ hx
  · exact not_mem_ends hs.handles hx'
  · rw [hending]
    exact List.subset_append_right _ _

/-- Those count what they did, or what the transaction that has ended did. -/
theorem Tracks.of_ended (ht : Tracks s i y) (hs : s.Sound)
    (hreader : y ∈ s'.handles.readers → y ∈ s.handles.readers ∧ y ∉ s.handles.ends h)
    (hwriters : s'.handles.writers = s.handles.writers.takeWhile (· ≠ h))
    (hviews : ∀ x, x ∉ s.handles.ends h → (s'.views x).numdbs = (s.views x).numdbs ∨
      x ∈ s.handles.writers ∧ ∃ z ∈ s.handles.ending h, (s'.views x).numdbs = (s.views z).numdbs) :
    Tracks s' i y where
  reader hy := by
    obtain ⟨hy, hne⟩ := hreader hy
    rcases hviews y hne with heq | ⟨hyw, -⟩
    · exact heq ▸ ht.reader hy
    · exact absurd hyw (hs.handles.of_mem_readers hy).2
  writer x hx := by
    obtain ⟨hx, hne, hsub⟩ := mem_ending_of_takeWhile hs hwriters hx
    rcases hviews x hne with heq | ⟨-, z, hz, heq⟩
    · exact heq ▸ ht.writer x hx
    · exact heq ▸ ht.writer z (hsub hz)

theorem Tracks.living (ht : Tracks s i y) (hs : s.Sound) (hr : Living s call r)
    (hy : y < s.handles.fresh)
    (hi : i < s.numdbs ∨ y ∈ s.handles.writers ∨ y ∈ s.handles.readers) : Tracks r.2 i y := by
  -- A call gives at most one handle a new view; the rest is how the transactions that end
  -- with `y` change.
  have hreader {x : Ptr} (hx : x ∈ s.handles.readers) := hs.handles.of_mem_readers hx
  have hlt {x : Ptr} (hx : x ∈ s.handles.ending y) : x ≠ s.handles.fresh :=
    (hs.handles.writers_lt x (mem_writers_of_mem_ending hx)).ne
  cases hr with
  | same hhd _ _ hr =>
    exact ht.of_eq hhd.readers hhd.writers fun _ _ => (congrArg (fun s => (views s _).numdbs) hr).ge
  | reader hhd _ _ hr =>
    refine ht.of_setView (h := s.handles.fresh) (v := s.topView) (by rw [hr])
      (fun hy' => .inl ⟨?_, hy.ne⟩) fun x hx => .inl ?_
    · rw [hhd.readers] at hy'
      simpa [hy.ne] using hy'
    · rw [Handles.ending, hhd.writers] at hx
      exact ⟨hx, hlt hx⟩
  | writer hnil hhd _ hr =>
    refine ht.of_setView (h := meTxn0) (v := s.topView) (by rw [hr]) (fun hy' => ?_) fun x hx => ?_
    · rw [hhd.readers] at hy'
      exact .inl ⟨hy', (hreader hy').1⟩
    · rw [Handles.ending, hhd.writers] at hx
      by_cases hy0 : y = meTxn0
      · refine .inr ⟨List.mem_singleton.1 ((List.dropWhile_sublist _).subset hx), ?_⟩
        rcases hi with hi | hyw | hyr
        · exact hi
        · rw [hnil] at hyw
          cases hyw
        · exact absurd hy0 (hreader hyr).1
      · rw [dropWhile_ne_eq_nil (by simpa using hy0)] at hx
        cases hx
  | @child _ p _ _ hlast hhd _ _ hr =>
    refine ht.of_setView (h := s.handles.fresh) (v := (s.views p).child) (by rw [hr])
      (fun hy' => ?_) fun x hx => ?_
    · rw [hhd.readers] at hy'
      exact .inl ⟨hy', hy.ne⟩
    · rw [Handles.ending, hhd.writers] at hx
      by_cases hyw : y ∈ s.handles.writers
      · rw [List.dropWhile_append, if_neg (by simpa using hyw), List.mem_append] at hx
        rcases hx with hx | hx
        · exact .inl ⟨hx, hlt hx⟩
        · -- the parent is among those that end with the transaction
          have hp := List.mem_of_getLast? ((getLast?_ending hyw).trans hlast)
          exact .inr ⟨List.mem_singleton.1 hx, ht.writer p hp⟩
      · rw [dropWhile_ne_eq_nil (by simp [hyw, hy.ne])] at hx
        cases hx
  | @committed h _ hh hhd hr =>
    have hends : s.handles.ends h = s.handles.ending h := if_pos hh
    refine ht.of_ended hs (fun hy' => ?_) hhd.writers fun x hx => ?_
    · rw [hhd.readers] at hy'
      exact ⟨hy', hends ▸ fun hmem => (hreader hy').2 (mem_writers_of_mem_ending hmem)⟩
    · rw [hends] at hx
      generalize hparent : (s.handles.writers.takeWhile (· ≠ h)).getLast? = parent at hr
      rw [hr]
      cases parent with
      | none => exact .inl (congrArg View.numdbs (views_forget hx))
      | some p =>
        by_cases hxp : x = p
        · -- the parent takes over the view of the innermost transaction that ends
          obtain ⟨z, hz⟩ := Option.ne_none_iff_exists'.1
            (mt List.getLast?_eq_none_iff.1 (ending_ne_nil hh))
          obtain ⟨isNew, hmerged⟩ := exists_merged (s := { s with handles := r.2.handles }) hz
          refine .inr ⟨?_, z, List.mem_of_getLast? hz, ?_⟩
          · exact (List.takeWhile_sublist _).subset (hxp ▸ List.mem_of_getLast? hparent)
          · rw [hxp, publish, views_setView_self, hmerged]
            rfl
        · rw [publish, views_setView_of_ne hxp]
          exact .inl (congrArg View.numdbs (views_forget hx))
  | @exported h _ hh hhd hr =>
    have hends : s.handles.ends h = [h] := if_neg hh
    refine ht.of_ended hs (h := h) (fun hy' => ?_)
      (hhd.writers.trans (Handles.takeWhile_ne_self hh)) fun x hx => ?_
    · rw [hhd.readers, List.mem_filter] at hy'
      exact ⟨hy'.1, by simpa [hends] using hy'.2⟩
    · rw [hr]
      exact .inl (congrArg View.numdbs (views_forget (hends ▸ hx)))
  | @ended h _ _ _ hhd hr =>
    refine ht.of_ended hs (fun hy' => ?_) hhd.writers fun x hx => ?_
    · rw [hhd.readers, List.mem_filter] at hy'
      refine ⟨hy'.1, ?_⟩
      rw [Handles.ends]
      split
      · exact fun hmem => (hreader hy'.1).2 (mem_writers_of_mem_ending hmem)
      · simpa using hy'.2
    · rw [hr]
      exact .inl (congrArg View.numdbs (views_forget hx))
  | @renewed h _ hh hh' hhd hr =>
    -- were `y` the handle renewed, it would not have been live, so every transaction has the slot
    refine ht.of_setView (h := h) (v := s.topView) (by rw [hr]) (fun hy' => ?_) fun x hx => .inl ?_
    · rw [hhd.readers, List.mem_append, List.mem_singleton] at hy'
      rcases hy' with hy' | rfl
      · exact .inl ⟨hy', ne_of_mem_of_not_mem hy' hh'⟩
      · exact .inr ⟨rfl, hi.resolve_right (not_or.2 ⟨hh, hh'⟩)⟩
    · rw [Handles.ending, hhd.writers] at hx
      exact ⟨hx, ne_of_mem_of_not_mem (mem_writers_of_mem_ending hx) hh⟩

/-! ## Until the transaction is committed -/

/-- The innermost transaction ends alone. -/
theorem ending_getLast? {s : Handles} (hs : s.Sound) (hp : s.writers.getLast? = some p) :
    s.ending p = [p] := by
  obtain ⟨l, hl⟩ := List.getLast?_eq_some_iff.1 hp
  have hnodup := hs.nodup
  rw [hl] at hnodup
  have hne : p ∉ l := fun hmem => (List.nodup_append.1 hnodup).2.2 p hmem p (by simp) rfl
  rw [Handles.ending, hl,
    List.dropWhile_append_of_pos fun x hx => decide_eq_true (ne_of_mem_of_not_mem hx hne)]
  simp

/-- More children, or fewer, do not matter to what a transaction is nested in. -/
theorem nest_eq_of_append {l : List Ptr} (ha : a ∈ s.handles.writers)
    (hwriters : s'.handles.writers = s.handles.writers ++ l) : s'.nest a = s.nest a := by
  rw [nest, nest, hwriters, if_pos ha, if_pos (List.mem_append_left _ ha), takeWhile_ne_append ha]

theorem nest_eq_of_notMem (ha : a ∉ s.handles.writers) : s.nest a = [a] := if_neg ha

theorem mem_nest (s : Dbis) (a : Ptr) : a ∈ s.nest a := by
  rw [nest]
  split
  · exact List.mem_append_right _ (List.mem_singleton_self a)
  · exact List.mem_singleton_self a

/-- Where a child is nested in. -/
theorem nest_eq_of_mem_ending (hs : s.Sound) (hh : h ∈ s.handles.writers)
    (ha : a ∈ s.handles.ending h) :
    s.nest a = s.handles.writers.takeWhile (· ≠ h) ++
      ((s.handles.ending h).takeWhile (· ≠ a) ++ [a]) := by
  have hne : a ∉ s.handles.writers.takeWhile (· ≠ h) := fun hmem =>
    not_mem_ends hs.handles hmem (by rwa [Handles.ends, if_pos hh])
  rw [nest, if_pos (mem_writers_of_mem_ending ha), ← List.append_assoc]
  conv_lhs => rw [← List.takeWhile_append_dropWhile (p := (· ≠ h)) (l := s.handles.writers)]
  rw [List.takeWhile_append_of_pos fun x hx => decide_eq_true (ne_of_mem_of_not_mem hx hne)]
  rfl

/-- A transaction ends with those it is nested in. -/
theorem mem_nest_of_mem_ending (hs : s.Sound) (ha : a ∈ s.handles.ending h) : h ∈ s.nest a := by
  by_cases hah : a = h
  · exact hah ▸ s.mem_nest a
  have hh : h ∈ s.handles.writers := by
    by_contra hh
    rw [Handles.ending, dropWhile_ne_eq_nil hh] at ha
    cases ha
  obtain ⟨l, hl⟩ := ending_eq_cons hh
  rw [nest_eq_of_mem_ending hs hh ha, hl, List.takeWhile_cons_of_pos (by simpa using Ne.symm hah)]
  simp

/-- What is left when a transaction has ended is what it was nested in. -/
theorem nest_getLast? (hs : s'.Sound) (hp : s'.handles.writers.getLast? = some p) :
    s'.nest p = s'.handles.writers := by
  have hsplit := List.takeWhile_append_dropWhile (p := (· ≠ p)) (l := s'.handles.writers)
  rw [nest, if_pos (List.mem_of_getLast? hp), ← ending_getLast? hs.handles hp]
  exact hsplit

theorem Pinned.steady (hp : Pinned chain a i s) (hs : Steady s s') : Pinned chain a i s' := by
  have hnest : s'.nest a = s.nest a := by rw [Dbis.nest, Dbis.nest, hs.handles.writers]
  exact {
    sound := hp.sound.steady hs
    closed := hs.handles.closed.trans hp.closed
    live := by
      rw [hs.handles.writers, hs.handles.readers]
      exact hp.live
    nest := hnest ▸ hp.nest
    tracks := hp.tracks.of_eq hs.handles.readers hs.handles.writers fun x _ => hs.views x }

theorem Pinned.lt_fresh (hp : Pinned chain a i s) : a < s.handles.fresh :=
  hp.live.elim (hp.sound.handles.writers_lt a) hp.sound.handles.lt_of_mem_readers

/-- The innermost transaction stays live unless it is ended. -/
theorem Pinned.of_live (hp : Pinned chain a i s) (hr : Living s call r) (hsound : r.2.Sound)
    (hlive : a ∈ r.2.handles.writers ∨ a ∈ r.2.handles.readers) (hnest : r.2.nest a = s.nest a) :
    Pinned chain a i r.2 where
  sound := hsound
  closed := hr.closed.trans hp.closed
  live := hlive
  nest := hnest ▸ hp.nest
  tracks := hp.tracks.living hp.sound hr hp.lt_fresh (.inr hp.live)

/-- If it is committed, the one it was nested in is the innermost. -/
theorem Pinned.of_committed (hp : Pinned chain a i s) (hr : Living s (.mdbTxnCommit h) r)
    (hsound : r.2.Sound) (hh : h ∈ s.handles.writers)
    (hhd : s.handles.Becomes r.2.handles (s.handles.writers.takeWhile (· ≠ h)) s.handles.readers)
    (hstate : r.2 = { s with handles := r.2.handles }.publish (s.handles.ending h)
      (s.handles.writers.takeWhile (· ≠ h)).getLast?)
    (ha : a ∈ s.handles.ending h) (hhead : chain.head? ≠ some h) : ∃ a', Pinned chain a' i r.2 := by
  have hnest := nest_eq_of_mem_ending hp.sound hh ha
  -- Were there no parent, `h` would head the nest of `a`, and so the chain.
  obtain ⟨p, hparent⟩ : ∃ p, (s.handles.writers.takeWhile (· ≠ h)).getLast? = some p := by
    refine Option.ne_none_iff_exists'.1 fun hnone => hhead ?_
    obtain ⟨l, hl⟩ := ending_eq_cons hh
    obtain ⟨l', hl'⟩ := hp.nest
    rw [← hl', hnest, List.getLast?_eq_none_iff.1 hnone, hl]
    by_cases hah : h = a
    · simp [hah]
    · simp [hah]
  have hmem : p ∈ r.2.handles.writers := hhd.writers ▸ List.mem_of_getLast? hparent
  have hp' := nest_getLast? hsound (hhd.writers ▸ hparent)
  refine ⟨p, hsound, hr.closed.trans hp.closed, .inl hmem, ?_, ⟨?_, fun x hx => ?_⟩⟩
  · rw [hp', hhd.writers]
    exact (hnest ▸ List.prefix_append _ _ : _ <+: s.nest a).trans hp.nest
  · exact fun hreader => absurd hmem (hsound.handles.of_mem_readers hreader).2
  · -- it has the view of the innermost of those that have ended
    obtain rfl : x = p := by
      rw [ending_getLast? hsound.handles (hhd.writers ▸ hparent)] at hx
      exact List.mem_singleton.1 hx
    obtain ⟨z, hz⟩ := Option.ne_none_iff_exists'.1
      (mt List.getLast?_eq_none_iff.1 (ending_ne_nil hh))
    have hza : z ∈ s.handles.ending a := by
      rw [getLast?_ending hh, ← getLast?_ending (mem_writers_of_mem_ending ha)] at hz
      exact List.mem_of_getLast? hz
    obtain ⟨isNew, hmerged⟩ := exists_merged (s := { s with handles := r.2.handles }) hz
    rw [hstate, hparent, publish, views_setView_self, hmerged]
    exact hp.tracks.writer z hza

/-- It stays live when a transaction it is not nested in ends. -/
theorem Pinned.of_ended (hp : Pinned chain a i s) (hr : Living s call r) (hsound : r.2.Sound)
    (hwriters : r.2.handles.writers = s.handles.writers.takeWhile (· ≠ h))
    (hreaders : a ∈ s.handles.readers → a ∈ r.2.handles.readers)
    (ha : a ∉ s.handles.ending h) : Pinned chain a i r.2 := by
  have hsplit := List.takeWhile_append_dropWhile (p := (· ≠ h)) (l := s.handles.writers)
  rcases hp.live with haw | har
  · have haw' : a ∈ r.2.handles.writers := by
      rw [← hsplit] at haw
      exact hwriters ▸ (List.mem_append.1 haw).resolve_right ha
    exact hp.of_live hr hsound (.inl haw')
      (nest_eq_of_append haw' (hwriters ▸ hsplit.symm)).symm
  · have hne := (hp.sound.handles.of_mem_readers har).2
    have hne' := (hsound.handles.of_mem_readers (hreaders har)).2
    exact hp.of_live hr hsound (.inr (hreaders har))
      ((nest_eq_of_notMem hne').trans (nest_eq_of_notMem hne).symm)

/-- Nothing but committing it, and those it is nested in, ends the innermost one. -/
theorem Pinned.living (hp : Pinned chain a i s) (hr : Living s call r) (hsound : r.2.Sound)
    (habandon : ∀ h ∈ chain, ¬call.Abandons h r.1)
    (hcommit : ∀ h, call = .mdbTxnCommit h → chain.head? ≠ some h) :
    ∃ a', Pinned chain a' i r.2 := by
  -- The call either leaves `a` live, with the same transactions around it, or commits a
  -- transaction `a` is nested in; then the parent of that one takes its place.
  have hr' := hr
  have hchain {h : Ptr} (ha : a ∈ s.handles.ending h) : h ∈ chain :=
    hp.nest.subset (mem_nest_of_mem_ending hp.sound ha)
  cases hr with
  | same hhd =>
    refine ⟨a, hp.of_live hr' hsound ?_ ?_⟩
    · rw [hhd.writers, hhd.readers]
      exact hp.live
    · rw [Dbis.nest, Dbis.nest, hhd.writers]
  | reader hhd =>
    refine ⟨a, hp.of_live hr' hsound ?_ ?_⟩
    · rw [hhd.writers, hhd.readers]
      exact hp.live.imp_right (List.mem_append_left _)
    · rw [Dbis.nest, Dbis.nest, hhd.writers]
  | writer hnil hhd =>
    have ha : a ∈ s.handles.readers := hp.live.resolve_left (hnil ▸ List.not_mem_nil)
    have hne : a ∉ r.2.handles.writers := by
      rw [hhd.writers]
      simpa using (hp.sound.handles.of_mem_readers ha).1
    refine ⟨a, hp.of_live hr' hsound (.inr (hhd.readers ▸ ha)) ?_⟩
    rw [nest_eq_of_notMem hne, nest_eq_of_notMem (hnil ▸ List.not_mem_nil)]
  | child _ hhd =>
    refine ⟨a, hp.of_live hr' hsound ?_ ?_⟩
    · rw [hhd.writers, hhd.readers]
      exact hp.live.imp_left (List.mem_append_left _)
    · rcases hp.live with ha | ha
      · exact nest_eq_of_append ha hhd.writers
      · have hne := (hp.sound.handles.of_mem_readers ha).2
        rw [nest_eq_of_notMem hne, nest_eq_of_notMem]
        rw [hhd.writers]
        simpa using ⟨hne, hp.lt_fresh.ne⟩
  | @committed h _ hh hhd hr =>
    by_cases ha : a ∈ s.handles.ending h
    · exact hp.of_committed hr' hsound hh hhd hr ha (hcommit h rfl)
    · exact ⟨a, hp.of_ended hr' hsound hhd.writers (fun har => hhd.readers ▸ har) ha⟩
  | @exported h _ hh hhd =>
    have hne : a ≠ h := fun hah => hcommit h rfl <| by
      obtain ⟨l, hl⟩ := hp.nest
      rw [← hl, nest_eq_of_notMem (hah ▸ hh), hah]
      rfl
    refine ⟨a, hp.of_ended hr' hsound (hhd.writers.trans (Handles.takeWhile_ne_self hh))
      (fun har => ?_) ?_⟩
    · rw [hhd.readers]
      exact List.mem_filter.2 ⟨har, decide_eq_true hne⟩
    · rw [Handles.ending, dropWhile_ne_eq_nil hh]
      exact List.not_mem_nil
  | @ended h _ _ hcall hhd =>
    have hne : a ≠ h := fun hah =>
      habandon h (hp.nest.subset (hah ▸ s.mem_nest a)) hcall
    refine ⟨a, hp.of_ended hr' hsound hhd.writers (fun har => ?_)
      fun ha => habandon h (hchain ha) hcall⟩
    rw [hhd.readers]
    exact List.mem_filter.2 ⟨har, decide_eq_true hne⟩
  | renewed hh _ hhd =>
    refine ⟨a, hp.of_live hr' hsound ?_ ?_⟩
    · rw [hhd.writers, hhd.readers]
      exact hp.live.imp_right (List.mem_append_left _)
    · rw [Dbis.nest, Dbis.nest, hhd.writers]

theorem Pinned.head?_nest (hp : Pinned chain a i s) : (s.nest a).head? = chain.head? := by
  obtain ⟨l, hl⟩ := hp.nest
  cases hnest : s.nest a with
  | nil => exact absurd (s.mem_nest a) (hnest ▸ List.not_mem_nil)
  | cons x l' => rw [← hl, hnest, List.cons_append, List.head?_cons, List.head?_cons]

theorem nest_prefix_writers (ha : a ∈ s.handles.writers) : s.nest a <+: s.handles.writers := by
  obtain ⟨l, hl⟩ := ending_eq_cons ha
  refine ⟨l, ?_⟩
  conv_rhs => rw [← List.takeWhile_append_dropWhile (p := (· ≠ a)) (l := s.handles.writers)]
  rw [show s.handles.writers.dropWhile (· ≠ a) = a :: l from hl, nest, if_pos ha]
  simp

/-- The outermost one being committed, the slot is exported. -/
theorem Pinned.kept (hp : Pinned chain a i s) (hr : Living s (.mdbTxnCommit h) r)
    (hsound : r.2.Sound) (hrc : r.1.rc = 0) (hhead : chain.head? = some h) :
    Kept (fun _ => False) i r.2 := by
  have hnest : (s.nest a).head? = some h := hp.head?_nest.trans hhead
  have hclosed := hr.closed.trans hp.closed
  rcases hp.live with ha | ha
  · -- it was the outermost write transaction
    obtain ⟨l, hl⟩ : ∃ l, s.handles.writers = h :: l := by
      obtain ⟨l, hl⟩ := nest_prefix_writers ha
      cases hnil : s.nest a with
      | nil => exact absurd (s.mem_nest a) (hnil ▸ List.not_mem_nil)
      | cons x l' =>
        rw [hnil] at hnest
        obtain rfl := Option.some.inj hnest
        exact ⟨l' ++ l, by rw [← hl, hnil]; rfl⟩
    have hh : h ∈ s.handles.writers := hl ▸ List.mem_cons_self
    have hnil : s.handles.writers.takeWhile (· ≠ h) = [] := by simp [hl]
    have hending : s.handles.ending h = s.handles.writers := by simp [Handles.ending, hl]
    cases hr with
    | same _ _ hc => exact absurd hh (hc h rfl).1
    | exported hh' => exact absurd hh hh'
    | ended hcall =>
      rcases hcall with ⟨heq, hne⟩ | heq | heq <;> cases heq
      exact absurd hrc hne
    | committed _ _ hr =>
      refine ⟨hsound, hclosed, ?_, by simp, by simp⟩
      obtain ⟨z, hz⟩ := Option.ne_none_iff_exists'.1
        (mt List.getLast?_eq_none_iff.1 (ending_ne_nil hh))
      have hza := (getLast?_ending ha).trans ((getLast?_ending hh).symm.trans hz)
      obtain ⟨isNew, hmerged⟩ := exists_merged (s := { s with handles := r.2.handles }) hz
      rw [hr, hnil]
      refine Nat.lt_of_lt_of_le (hp.tracks.writer z (List.mem_of_getLast? hza)) ?_
      refine Nat.le_trans (Nat.le_of_eq ?_) (Nat.le_max_right _ _)
      rw [hmerged]
  · -- it was the read-only transaction
    rw [nest_eq_of_notMem (hp.sound.handles.of_mem_readers ha).2] at hnest
    obtain rfl : a = h := Option.some.inj hnest
    have hne := (hp.sound.handles.of_mem_readers ha).2
    cases hr with
    | same _ _ hc => exact absurd ha (hc a rfl).2
    | committed hh => exact absurd hh hne
    | ended hcall =>
      rcases hcall with ⟨heq, hne⟩ | heq | heq <;> cases heq
      exact absurd hrc hne
    | exported _ _ hr =>
      refine ⟨hsound, hclosed, ?_, by simp, by simp⟩
      rw [hr]
      exact Nat.lt_of_lt_of_le (hp.tracks.reader ha) (Nat.le_max_right _ _)

/-- What is found is in no slot before. -/
theorem openAs_found {n : DbName} (hi : s.find? h n = some i)
    (hcmp : (s'.slots i).cmp = some (.callback cb))
    (hnames : ∀ j, (s'.slots j).name = (s.slots j).name) :
    OpenAs (some n) i cb s' := by
  obtain ⟨hcore, -, hname⟩ := of_find?_eq_some h hi
  refine ⟨hcmp, hcore, (hnames i).trans hname, fun j hj hji hj' => ?_⟩
  have hfirst := (List.find?_range'_eq_some.1 hi).2.2 j hj hji
  rw [hnames] at hj'
  simp [hj'] at hfirst

/-- Nor is what is assigned. -/
theorem openAs_assigned {n : DbName} (hcore : coreDbs ≤ (s.views h).numdbs)
    (hi : s.find? h n = none) (hcmp : (s'.slots (s.slotFor h)).cmp = some (.callback cb))
    (hname : (s'.slots (s.slotFor h)).name = some n)
    (hnames : ∀ j, j ≠ s.slotFor h → (s'.slots j).name = (s.slots j).name) :
    OpenAs (some n) (s.slotFor h) cb s' := by
  refine ⟨hcmp, s.coreDbs_le_slotFor h hcore, hname, fun j hj hji hj' => ?_⟩
  rw [hnames j hji.ne] at hj'
  have hlt : j < (s.views h).numdbs := hji.trans_le (s.slotFor_le h hcore)
  have hmem : j ∈ s.named h := List.mem_range'_1.2 ⟨hj, by rwa [Nat.add_sub_cancel' hcore]⟩
  have hnone := List.find?_eq_none.1 hi j hmem
  simp [hj'] at hnone

/-- So a database is open in a slot once that has been given a comparer. -/
theorem openAs_opening {flags : UInt32} (hs : s.Sound) (hr : Opening s h flags name r)
    (hh : s.handles.status h ≠ .dangling) (hrc : r.1.rc = 0) {x : DbSlot}
    (hcmp : x.cmp = some (.callback cb)) (hname : x.name = (r.2.slots r.1.ptr).name) :
    OpenAs name r.1.ptr cb (r.2.setSlot r.1.ptr x) := by
  have hcmp' {s' : Dbis} {i : Ptr} : ((s'.setSlot i x).slots i).cmp = some (.callback cb) := by
    rw [slots_setSlot_self, hcmp]
  -- A refused call and one through a freed handle return an error or are excluded; the others
  -- say which slot it is.
  cases hr with
  | refused _ hrc' => exact absurd hrc hrc'
  | freed _ hh' => exact absurd hh' hh
  | main => exact ⟨hcmp', rfl⟩
  | @found n i _ _ _ hi =>
    refine openAs_found hi hcmp' fun j => ?_
    by_cases hj : j = i
    · rw [hj, slots_setSlot_self, hname, name_initMain]
    · rw [slots_setSlot_of_ne hj, name_initMain]
  | @assigned n f hd _ hh hi =>
    have hslot := slotFor_initMain (s := s) h hd
    rw [reply_assign, hslot] at hname ⊢
    refine openAs_assigned (hs.coreDbs_le hh) hi hcmp' ?_ fun j hj => ?_
    · rw [slots_setSlot_self, hname, ← hslot, slots_assign_self]
      rfl
    · rw [slots_setSlot_of_ne hj, slots_assign_of_ne h (hslot ▸ hj)]
      exact name_initMain h j

/-- The slot is with the transactions the one that opened it is nested in, and with that. -/
theorem pinned_opening {flags : UInt32} (hs : s.Sound)
    (hr : Opening s h flags name r) (hh : s.handles.status h ≠ .dangling) (hrc : r.1.rc = 0)
    (hi : i < (r.2.views h).numdbs) : Pinned (s.nest h) h i r.2 := by
  have hsteady := steady_opening h hr
  have hlive := hr.live h hh hrc
  have hnest : r.2.nest h = s.nest h := by rw [nest, nest, hsteady.handles.writers]
  have hspec := s.handles.status_spec h
  have hclosed : s.handles.closed = false := by
    by_contra hc
    rw [Handles.status, if_pos (by simpa using hc)] at hh
    exact hh rfl
  refine ⟨hs.steady hsteady, hsteady.handles.closed.trans hclosed, ?_, hnest ▸ List.prefix_rfl,
    ⟨fun _ => hi, fun x hx => ?_⟩⟩
  · rw [hsteady.handles.writers, hsteady.handles.readers]
    rcases hlive with hh | hh <;> rw [hh] at hspec
    · exact .inl hspec
    · exact .inr hspec.2
  · -- a live handle is the innermost write transaction, or a reader
    have hending : r.2.handles.ending h = s.handles.ending h := by
      rw [Handles.ending, Handles.ending, hsteady.handles.writers]
    rw [hending] at hx
    rcases hlive with hh | hh
    · rw [ending_getLast? hs.handles (Handles.getLast?_of_status hh)] at hx
      exact List.mem_singleton.1 hx ▸ hi
    · rw [hh] at hspec
      rw [Handles.ending, dropWhile_ne_eq_nil hspec.1] at hx
      cases hx

/-! ## From then on -/

theorem Kept.mono {L' : Ptr → Prop} (hk : Kept L i s) (hL : ∀ y, L' y → L y) : Kept L' i s :=
  { hk with
    fresh := fun y hy => hk.fresh y (hL y hy)
    tracks := fun y hy => hk.tracks y (hL y hy) }

theorem Kept.steady (hk : Kept L i s) (hs : Steady s s') : Kept L i s' where
  sound := hk.sound.steady hs
  closed := hs.handles.closed.trans hk.closed
  numdbs := hs.numdbs ▸ hk.numdbs
  fresh y hy := (hk.fresh y hy).trans_le hs.handles.fresh
  tracks y hy := (hk.tracks y hy).of_eq hs.handles.readers hs.handles.writers fun x _ => hs.views x

/-- No transaction that begins or ends closes the slot, and those that count it go on to. -/
theorem Kept.living (hk : Kept L i s) (hr : Living s call r) (hsound : r.2.Sound) :
    Kept L i r.2 where
  sound := hsound
  closed := hr.closed.trans hk.closed
  numdbs := hk.numdbs.trans_le hr.numdbs_le
  fresh y hy := (hk.fresh y hy).trans_le hr.fresh_le
  tracks y hy := (hk.tracks y hy).living hk.sound hr (hk.fresh y hy) (.inl hk.numdbs)

/-- So does one that begins now, unless it is nested in one that does not. -/
theorem Kept.begun {e : Ptr} {parent : Option Ptr} {flags : UInt32} (hk : Kept L i s)
    (hr : Living s (.mdbTxnBegin e parent flags) r) (hsound : r.2.Sound) (hrc : r.1.rc = 0)
    (hparent : ∀ p ∈ parent, L p ∧ s.handles.status p ≠ .dangling) :
    Kept (fun y => L y ∨ y = r.1.ptr) i r.2 := by
  have hk' := hk.living hr hsound
  -- What held of the older transactions is `Kept.living`; only the new handle is left.
  suffices hnew : r.1.ptr < r.2.handles.fresh ∧ r.2.Tracks i r.1.ptr by
    refine { hk' with fresh := ?_, tracks := ?_ }
    · rintro y (hy | rfl)
      · exact hk'.fresh y hy
      · exact hnew.1
    · rintro y (hy | rfl)
      · exact hk'.tracks y hy
      · exact hnew.2
  have hfresh {x : Ptr} (hx : x ∈ s.handles.writers ∨ x ∈ s.handles.readers) :
      x ≠ s.handles.fresh :=
    (hx.elim (hk.sound.handles.writers_lt x) hk.sound.handles.lt_of_mem_readers).ne
  cases hr with
  | same _ hbegin =>
    obtain ⟨p, hp, hstatus⟩ := hbegin e parent flags rfl hrc
    exact absurd hstatus (hparent p hp).2
  | reader hhd hlt hptr hr =>
    rw [hptr]
    refine ⟨hlt ▸ Nat.lt_succ_self _, fun _ => ?_, fun x hx => ?_⟩
    · rw [hr, views_setView_self]
      exact hk.numdbs
    · rw [Handles.ending, hhd.writers] at hx
      rw [dropWhile_ne_eq_nil fun hmem => hfresh (.inl hmem) rfl] at hx
      cases hx
  | writer _ hhd hptr hr =>
    rw [hptr]
    refine ⟨hsound.handles.pos, fun hy => ?_, fun x hx => ?_⟩
    · exact absurd rfl (hsound.handles.of_mem_readers hy).1
    · have hx' := mem_writers_of_mem_ending hx
      rw [hhd.writers] at hx'
      rw [List.mem_singleton.1 hx', hr]
      show i < ((s.setView meTxn0 s.topView).views meTxn0).numdbs
      rw [views_setView_self]
      exact hk.numdbs
  | @child _ p _ _ hlast hhd hlt hptr hr =>
    rw [hptr]
    refine ⟨hlt ▸ Nat.lt_succ_self _, fun hy => ?_, fun x hx => ?_⟩
    · rw [hhd.readers] at hy
      exact absurd rfl (hfresh (.inr hy))
    · have hne : s.handles.fresh ∉ s.handles.writers := fun hmem => hfresh (.inl hmem) rfl
      rw [Handles.ending, hhd.writers, List.dropWhile_append_of_pos
        fun y hy => decide_eq_true (ne_of_mem_of_not_mem hy hne)] at hx
      rw [List.mem_singleton.1 ((List.dropWhile_sublist _).subset hx), hr]
      show i < ((s.setView s.handles.fresh (s.views p).child).views s.handles.fresh).numdbs
      rw [views_setView_self]
      -- a child starts with the count of its parent, which is one of `L`
      have hp := List.mem_of_getLast? hlast
      obtain ⟨l, hl⟩ := ending_eq_cons hp
      exact (hk.tracks p (hparent p rfl).1).writer p (hl ▸ List.mem_cons_self)
  | ended hcall => rcases hcall with ⟨heq, -⟩ | heq | heq <;> cases heq

/-- A live transaction among them counts the slot. -/
theorem Kept.lt_numdbs (hk : Kept L i s) (hy : L y) (hh : s.Live y) : i < (s.views y).numdbs := by
  have hspec := s.handles.status_spec y
  rcases hh with hh | hh <;> rw [hh] at hspec
  · obtain ⟨l, hl⟩ := ending_eq_cons hspec
    exact (hk.tracks y hy).writer y (hl ▸ List.mem_cons_self)
  · exact (hk.tracks y hy).reader hspec.2

end Dbis

end KotlinLmdb
