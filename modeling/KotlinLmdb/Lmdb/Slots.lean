import KotlinLmdb.Lmdb.Dbis

/-!
# What calls do to slots

One lemma for each kind of call on what it does to the slots and to what transactions
know of them. Requests on a slot change no slot, and have its record loaded at most
(`Dbis.Loads`); opening a database goes one of five ways (`Dbis.Opening`). In the
states reached from an opened environment every live transaction sees the slots that
are not for named databases (`Dbis.Sound`).
-/

namespace KotlinLmdb

/-- The calls that open and close databases, and set their comparers. -/
def Call.IsSlot : Call → Prop
  | mdbDbiOpen .. | mdbSetCompare .. | mdbSetDupsort .. | mdbDbiClose .. | mdbDrop .. => True
  | _ => False

namespace Dbis

variable (s : Dbis) (h i : Ptr)

variable {s h} in
@[simp]
theorem views_setView_self {v : View} : (s.setView h v).views h = v := Function.update_self ..

variable {s h} in
theorem views_setView_of_ne {v : View} {h' : Ptr} (hne : h' ≠ h) :
    (s.setView h v).views h' = s.views h' := Function.update_of_ne hne ..

variable {s h} in
/-- What is the same in the new view of a transaction is the same in all. -/
theorem setView_congr {α : Type} (f : View → α) {v : View} (hv : f v = f (s.views h)) (h' : Ptr) :
    f ((s.setView h v).views h') = f (s.views h') := by
  by_cases hne : h' = h
  · rw [hne, views_setView_self, hv]
  · rw [views_setView_of_ne hne]

variable {s i} in
@[simp]
theorem slots_setSlot_self {x : DbSlot} : (s.setSlot i x).slots i = x := Function.update_self ..

variable {s i} in
@[simp]
theorem setSlot_setSlot {x y : DbSlot} : (s.setSlot i x).setSlot i y = s.setSlot i y := by
  simp [setSlot]

variable {s i} in
theorem slots_setSlot_of_ne {x : DbSlot} {j : Ptr} (hne : j ≠ i) :
    (s.setSlot i x).slots j = s.slots j := Function.update_of_ne hne ..

/-! ## Calls that leave the transactions live -/

/-- The same transactions are live, and none of them sees fewer slots. -/
structure Steady (s s' : Dbis) : Prop where
  handles : s.handles.SameTxns s'.handles
  numdbs : s'.numdbs = s.numdbs
  views : ∀ h, (s.views h).numdbs ≤ (s'.views h).numdbs

/-- No slot is changed, and no record loaded but under the name its slot has. -/
structure Loads (s s' : Dbis) : Prop extends Steady s s' where
  slots : s'.slots = s.slots
  seen : ∀ h, (s'.views h).numdbs = (s.views h).numdbs
  isNew : ∀ h, (s'.views h).isNew = (s.views h).isNew
  known : ∀ h i name, (s'.views h).known i = .loaded name →
    (s.views h).known i = .loaded name ∨ (s.slots i).name = some name

variable {s}

theorem Steady.trans {s' s'' : Dbis} (hs : Steady s s') (hs' : Steady s' s'') : Steady s s'' where
  handles := {
    closed := hs'.handles.closed.trans hs.handles.closed
    fresh := hs.handles.fresh.trans hs'.handles.fresh
    writers := hs'.handles.writers.trans hs.handles.writers
    readers := hs'.handles.readers.trans hs.handles.readers
    parked := hs'.handles.parked.trans hs.handles.parked }
  numdbs := hs'.numdbs.trans hs.numdbs
  views h := (hs.views h).trans (hs'.views h)

theorem Loads.trans {s' s'' : Dbis} (hs : Loads s s') (hs' : Loads s' s'') : Loads s s'' where
  toSteady := hs.toSteady.trans hs'.toSteady
  slots := hs'.slots.trans hs.slots
  seen h := (hs'.seen h).trans (hs.seen h)
  isNew h := (hs'.isNew h).trans (hs.isNew h)
  known h i name hk := by
    rcases hs'.known h i name hk with hk | hname
    · exact hs.known h i name hk
    · exact .inr (hs.slots ▸ hname)

/-- Requests that involve handles only load nothing. -/
theorem loads_handled {r : Reply × Handles} (hr : s.handles.SameTxns r.2) :
    Loads s (s.handled r).2 :=
  ⟨⟨hr, rfl, fun _ => Nat.le_refl _⟩, rfl, fun _ => rfl, fun _ => rfl, fun _ _ _ hk => .inl hk⟩

theorem loads_refl : Loads s s := s.loads_handled (r := ({}, _)) (.refl _)

/-- A transaction loads a record. -/
theorem loads_setView {v : View} (hnumdbs : v.numdbs = (s.views h).numdbs)
    (hisNew : v.isNew = (s.views h).isNew)
    (hknown : ∀ i name, v.known i = .loaded name →
      (s.views h).known i = .loaded name ∨ (s.slots i).name = some name) :
    Loads s (s.setView h v) := by
  refine ⟨⟨.refl _, rfl, fun h' => (setView_congr View.numdbs hnumdbs h').ge⟩, rfl,
    fun h' => setView_congr View.numdbs hnumdbs h', fun h' => setView_congr View.isNew hisNew h',
    fun h' i name hk => ?_⟩
  by_cases hh : h' = h
  · rw [hh, views_setView_self] at hk
    exact hh ▸ hknown i name hk
  · rw [views_setView_of_ne hh] at hk
    exact .inl hk

theorem loads_load : Loads s (s.load h i).2 := by
  have hreq : Loads s (s.handled s.handles.request).2 := loads_handled s.handles.sameTxns_request
  rw [load]
  split
  · exact loads_refl
  · exact loads_refl
  split
  · exact loads_refl
  split
  · exact loads_refl
  rename_i name hname
  split
  · exact hreq
  · refine hreq.trans (loads_setView h rfl rfl fun j n hk => ?_)
    rw [View.known_know] at hk
    split at hk
    · rename_i hj
      exact .inr (hj ▸ Known.loaded.inj hk ▸ hname)
    · exact .inl hk

theorem loads_data {writes lenient : Bool} {request : Handles → Reply × Handles}
    (hr : ∀ hd : Handles, hd.SameTxns (request hd).2) :
    Loads s (s.data h i writes lenient request).2 := by
  have hload := loads_load (s := s) h i
  rw [data]
  split_ifs
  · exact loads_handled (hr _)
  · exact loads_refl
  · exact loads_handled (hr _)
  · exact hload.trans (loads_handled (hr _))
  · exact hload

theorem loads_tryLoad : Loads s (s.tryLoad h i) := by
  rw [tryLoad]
  split
  · exact loads_load h i
  · exact loads_refl

theorem loads_cursorOp (c : Ptr) {call : Call} (hcall : ¬call.IsLife) :
    Loads s (s.cursorOp c call).2 :=
  (loads_tryLoad _ _).trans (loads_handled (Handles.sameTxns_answer _ hcall))

theorem loads_own (c : Ptr) {r : Reply × Dbis} (hr : Loads s r.2) : Loads s (own h i c r).2 := by
  rw [own]
  split
  · exact ⟨⟨hr.handles, hr.numdbs, hr.views⟩, hr.slots, hr.seen, hr.isNew, hr.known⟩
  · exact hr

/-- All calls load records at most but those on slots, and on the life of transactions. -/
theorem loads_answer {call : Call} (hlife : ¬call.IsLife) (hslot : ¬call.IsSlot) :
    Loads s (answer call s).2 := by
  cases call
  case mdbTxnBegin | mdbTxnCommit | mdbTxnAbort | mdbTxnReset | mdbTxnRenew | mdbEnvClose =>
    exact absurd trivial hlife
  case mdbDbiOpen | mdbSetCompare | mdbSetDupsort | mdbDbiClose | mdbDrop =>
    exact absurd trivial hslot
  case mdbGet h i _ | mdbStat h i => exact loads_data h i fun hd => hd.sameTxns_read h
  case mdbPut h i _ _ _ | mdbDel h i _ _ => exact loads_data h i fun hd => hd.sameTxns_write h
  case mdbCursorOpen h i =>
    exact loads_own h i _ (loads_data h i fun hd => hd.sameTxns_cursorOpen h)
  case mdbCursorGet | mdbCursorPut | mdbCursorDel => exact loads_cursorOp _ hlife
  case mdbCursorRenew => exact loads_own _ _ _ (loads_cursorOp _ hlife)
  all_goals exact loads_handled (Handles.sameTxns_answer _ hlife)

/-! ## Opening a database -/

/-- A transaction that databases are opened in. -/
def Live (s : Dbis) (h : Ptr) : Prop := s.handles.status h = .active ∨ s.handles.status h = .reader

/-- The ways opening a database goes, up to how many requests were made. -/
inductive Opening (s : Dbis) (h : Ptr) (flags : UInt32) : Option DbName → Reply × Dbis → Prop
  | refused {name : Option DbName} {r : Reply × Dbis} {hd : Handles}
      (hsame : s.handles.SameTxns hd) (hrc : r.1.rc ≠ 0)
      (hr : r.2 = { s with handles := hd } ∨ r.2 = { s.initMain h with handles := hd }) :
      Opening s h flags name r
  /-- The handle is freed memory, and anything may be answered. -/
  | freed {name : Option DbName} {r : Reply × Dbis} {hd : Handles}
      (hsame : s.handles.SameTxns hd) (hh : s.handles.status h = .dangling)
      (hr : r.2 = { s with handles := hd }) : Opening s h flags name r
  | main {hd : Handles} (hsame : s.handles.SameTxns hd) (hh : s.Live h) :
      Opening s h flags none ({ s with handles := hd }.openMain h flags)
  /-- It is open already. -/
  | found {name : DbName} {i : Ptr} {hd : Handles} (hsame : s.handles.SameTxns hd)
      (hh : s.Live h) (hi : s.find? h name = some i) :
      Opening s h flags (some name) ({ ptr := i }, { s.initMain h with handles := hd })
  | assigned {name : DbName} {f : UInt32} {hd : Handles} (hsame : s.handles.SameTxns hd)
      (hh : s.Live h) (hi : s.find? h name = none) :
      Opening s h flags (some name) ({ s.initMain h with handles := hd }.assign h name f)

@[simp]
theorem handles_initMain : (s.initMain h).handles = s.handles := by
  rw [initMain]
  split <;> rfl

@[simp]
theorem views_initMain : (s.initMain h).views = s.views := by
  rw [initMain]
  split <;> rfl

/-- Only the comparers of the unnamed database are set, if it has none. -/
theorem slots_initMain (hi : i = mainDbi → (s.slots i).cmp.isSome) :
    (s.initMain h).slots i = s.slots i := by
  rw [initMain]
  split
  · rfl
  · rename_i hcmp
    exact slots_setSlot_of_ne fun hmain => hcmp (hmain ▸ hi hmain)

@[simp]
theorem name_initMain : ((s.initMain h).slots i).name = (s.slots i).name := by
  rw [initMain]
  split
  · rfl
  · by_cases hi : i = mainDbi
    · rw [hi, slots_setSlot_self]
      rfl
    · rw [slots_setSlot_of_ne hi]

theorem initMain_withHandles (hd : Handles) :
    { s with handles := hd }.initMain h = { s.initMain h with handles := hd } := by
  simp only [initMain]
  split <;> rfl

theorem slotFor_initMain (hd : Handles) :
    slotFor { s.initMain h with handles := hd } h = s.slotFor h := by
  have hfree : (fun i => decide (((s.initMain h).slots i).name = none)) =
      fun i => decide ((s.slots i).name = none) := by
    funext i
    rw [name_initMain]
  simp only [slotFor, unused?, named, views_initMain, hfree]

theorem openNew_opening {name : DbName} {flags : UInt32} (hh : s.Live h)
    (hi : s.find? h name = none) {s' : Dbis} {hd : Handles}
    (hsame : s.handles.SameTxns hd) (hs' : s' = { s.initMain h with handles := hd }) :
    Opening s h flags (some name) (s'.openNew h name flags) := by
  have hsame' : s.handles.SameTxns hd.request.2 :=
    ⟨hsame.closed, hsame.fresh, hsame.writers, hsame.readers, hsame.parked⟩
  rw [openNew]
  subst hs'
  split
  · exact .refused hsame (show mdbDbsFull ≠ 0 by decide) (.inr rfl)
  split
  · split
    · exact .refused hsame (show mdbIncompatible ≠ 0 by decide) (.inr rfl)
    · exact .refused hsame (show mdbNotfound ≠ 0 by decide) (.inr rfl)
  split
  · exact .refused hsame (show mdbBadValsize ≠ 0 by decide) (.inr rfl)
  split
  · rename_i hrc
    exact .refused hsame' hrc (.inr rfl)
  split
  · exact .assigned hsame' hh hi
  split
  · exact .refused hsame' (show mdbNotfound ≠ 0 by decide) (.inr rfl)
  split
  · exact .refused hsame' (show eacces ≠ 0 by decide) (.inr rfl)
  · exact .assigned hsame' hh hi

theorem dbiOpen_opening (name : Option DbName) (flags : UInt32) :
    Opening s h flags name (s.dbiOpen h name flags) := by
  have hreq := s.handles.sameTxns_request
  rw [dbiOpen]
  split
  · exact .refused (.refl _) (show einval ≠ 0 by decide) (.inl rfl)
  cases hstatus : s.handles.status h
  case blocked | parked | idle =>
    refine .refused (s.handles.sameTxns_dbiOpen h) ?_ (.inl rfl)
    simp only [handled, Handles.dbiOpen, hstatus]
    exact show mdbBadTxn ≠ 0 by decide
  case dangling => exact .freed (s.handles.sameTxns_dbiOpen h) hstatus rfl
  case active | reader =>
    have hh : s.Live h := by simp [Live, hstatus]
    dsimp only
    split
    · rename_i hrc
      exact .refused hreq hrc (.inl rfl)
    cases name with
    | none => exact .main hreq hh
    | some name =>
      have hinit := initMain_withHandles (s := s) h s.handles.request.2
      show Opening s h flags (some name) (openNamed _ h name flags)
      rw [openNamed]
      cases hi : s.find? h name with
      | some i =>
        have hi' : (s.handled s.handles.request).2.find? h name = some i := hi
        simp only [hi']
        exact hinit ▸ .found hreq hh hi
      | none =>
        have hi' : (s.handled s.handles.request).2.find? h name = none := hi
        simp only [hi']
        exact openNew_opening h hh hi hreq hinit

/-- A database that is open is found in a slot of its name. -/
theorem of_find?_eq_some {name : DbName} {i : Ptr} (hi : s.find? h name = some i) :
    coreDbs ≤ i ∧ i < (s.views h).numdbs ∧ (s.slots i).name = some name := by
  have hmem := List.mem_range'_1.1 (List.mem_of_find?_eq_some hi)
  refine ⟨hmem.1, ?_, by simpa using List.find?_some hi⟩
  rcases Nat.le_total coreDbs (s.views h).numdbs with hn | hn
  · exact Nat.add_sub_cancel' hn ▸ hmem.2
  · have hlt := hmem.2
    rw [Nat.sub_eq_zero_of_le hn] at hlt
    exact absurd hmem.1 (Nat.not_le.2 hlt)

/-- The slot assigned next is free, or not counted yet. -/
theorem slotFor_cases : (s.slots (s.slotFor h)).name = none ∨ s.slotFor h = (s.views h).numdbs := by
  rw [slotFor]
  cases hu : s.unused? h with
  | some i => exact .inl (by simpa using List.find?_some hu)
  | none => exact .inr rfl

/-- It is for named databases. -/
theorem coreDbs_le_slotFor (hs : coreDbs ≤ (s.views h).numdbs) : coreDbs ≤ s.slotFor h := by
  rw [slotFor]
  cases hu : s.unused? h with
  | some i => exact (List.mem_range'_1.1 (List.mem_of_find?_eq_some hu)).1
  | none => exact hs

theorem slotFor_le (hs : coreDbs ≤ (s.views h).numdbs) : s.slotFor h ≤ (s.views h).numdbs := by
  rw [slotFor]
  cases hu : s.unused? h with
  | some i =>
    have hmem := List.mem_range'_1.1 (List.mem_of_find?_eq_some hu)
    exact (Nat.add_sub_cancel' hs ▸ hmem.2).le
  | none => exact Nat.le_refl _

/-- LMDB only opens databases in live transactions. -/
theorem Opening.live {name : Option DbName} {flags : UInt32} {r : Reply × Dbis}
    (hr : Opening s h flags name r) (hh : s.handles.status h ≠ .dangling) (hrc : r.1.rc = 0) :
    s.Live h := by
  cases hr with
  | refused _ hrc' => exact absurd hrc hrc'
  | freed _ hh' => exact absurd hh' hh
  | main _ hh | found _ hh | assigned _ hh => exact hh

@[simp]
theorem views_setSlot {x : DbSlot} : (s.setSlot i x).views = s.views := rfl

@[simp]
theorem slots_setView {v : View} : (s.setView h v).slots = s.slots := rfl

@[simp]
theorem reply_openMain (flags : UInt32) : (s.openMain h flags).1 = { ptr := mainDbi } := rfl

@[simp]
theorem views_openMain_self (flags : UInt32) : (s.openMain h flags).2.views h =
    { s.views h with mainFlags := (s.views h).mainFlags ||| flags &&& persistentFlags } :=
  views_setView_self

@[simp]
theorem slots_openMain_self (flags : UInt32) : (s.openMain h flags).2.slots mainDbi =
    (s.slots mainDbi).reset ((s.views h).mainFlags ||| flags &&& persistentFlags) :=
  slots_setSlot_self

theorem slots_openMain_of_ne {i : Ptr} (hi : i ≠ mainDbi) (flags : UInt32) :
    (s.openMain h flags).2.slots i = s.slots i := slots_setSlot_of_ne hi

@[simp]
theorem reply_assign {name : DbName} {f : UInt32} :
    (s.assign h name f).1 = { ptr := s.slotFor h } := rfl

@[simp]
theorem views_assign_self {name : DbName} {f : UInt32} :
    (s.assign h name f).2.views h = (s.views h).assign (s.slotFor h) name f := views_setView_self

@[simp]
theorem slots_assign_self {name : DbName} {f : UInt32} :
    (s.assign h name f).2.slots (s.slotFor h) = (s.slots (s.slotFor h)).assign name f :=
  slots_setSlot_self

theorem slots_assign_of_ne {name : DbName} {f : UInt32} {i : Ptr} (hi : i ≠ s.slotFor h) :
    (s.assign h name f).2.slots i = s.slots i := slots_setSlot_of_ne hi

/-- Opening the unnamed database changes nothing of what a transaction may use. -/
theorem sees_openMain (flags : UInt32) : (s.openMain h flags).2.sees h i = s.sees h i := by
  simp only [sees, views_openMain_self]

/-- A transaction may use the slots it assigns. -/
theorem sees_assign {name : DbName} {f : UInt32} :
    (s.assign h name f).2.sees h (s.slotFor h) := by
  have hlt : s.slotFor h < max (s.views h).numdbs (s.slotFor h + 1) :=
    Nat.lt_of_lt_of_le (Nat.lt_succ_self _) (Nat.le_max_right _ _)
  simp [sees, View.assign, View.know, hlt]

/-! ## Calls that leave the transactions live -/

theorem steady_withHandles {hd : Handles} (hsame : s.handles.SameTxns hd) :
    Steady s { s with handles := hd } := ⟨hsame, rfl, fun _ => Nat.le_refl _⟩

theorem steady_setSlot {x : DbSlot} : Steady s (s.setSlot i x) :=
  ⟨.refl _, rfl, fun _ => Nat.le_refl _⟩

theorem steady_setView {v : View} (hv : (s.views h).numdbs ≤ v.numdbs) :
    Steady s (s.setView h v) := by
  refine ⟨.refl _, rfl, fun h' => ?_⟩
  by_cases hne : h' = h
  · rw [hne, views_setView_self]
    exact hv
  · rw [views_setView_of_ne hne]

theorem steady_initMain {hd : Handles} (hsame : s.handles.SameTxns hd) :
    Steady s { s.initMain h with handles := hd } := by
  refine ⟨hsame, ?_, fun _ => ?_⟩
  · simp only [initMain]
    split <;> rfl
  · rw [views_initMain]

theorem steady_assign {name : DbName} {f : UInt32} : Steady s (s.assign h name f).2 :=
  ⟨.refl _, rfl, (steady_setView (s := s) h (v := (s.views h).assign (s.slotFor h) name f)
    (Nat.le_max_left _ _)).views⟩

theorem steady_openMain (flags : UInt32) : Steady s (s.openMain h flags).2 :=
  have hview := steady_setView (s := s) h
    (v := { s.views h with mainFlags := (s.views h).mainFlags ||| flags &&& persistentFlags })
    (Nat.le_refl _)
  hview.trans (steady_setSlot mainDbi)

theorem steady_delete : Steady s (s.delete h i) :=
  have hview := steady_setView (s := s) h (v := (s.views h).delete i (s.slots i).name)
    (Nat.le_refl _)
  hview.trans (steady_setSlot i)

theorem steady_opening {name : Option DbName} {flags : UInt32} {r : Reply × Dbis}
    (hr : Opening s h flags name r) : Steady s r.2 := by
  cases hr with
  | refused hsame _ hr =>
    rcases hr with hr | hr <;> rw [hr]
    · exact steady_withHandles hsame
    · exact steady_initMain h hsame
  | freed hsame _ hr =>
    rw [hr]
    exact steady_withHandles hsame
  | main hsame _ => exact (steady_withHandles hsame).trans (steady_openMain h flags)
  | found hsame _ _ => exact steady_initMain h hsame
  | assigned hsame _ _ => exact (steady_initMain h hsame).trans (steady_assign h)

theorem steady_install (f : DbSlot → DbSlot) : Steady s (s.install h i f).2 := by
  rw [install]
  split
  · exact (loads_handled s.handles.sameTxns_request).toSteady
  split
  · exact steady_setSlot i
  · exact loads_refl.toSteady

theorem steady_dbiClose : Steady s (s.dbiClose i).2 := by
  simp only [dbiClose]
  split
  · exact steady_setSlot i
  · exact loads_refl.toSteady

theorem steady_drop (del : Bool) : Steady s (s.drop h i del).2 := by
  have hdata : Steady s (s.data h i true false (·.write h)).2 :=
    (loads_data h i fun hd => hd.sameTxns_write h).toSteady
  simp only [drop]
  split_ifs
  · exact loads_refl.toSteady
  · exact hdata.trans (steady_setView h (Nat.le_refl _))
  · exact hdata.trans (steady_delete h i)
  · exact hdata
  · exact hdata

/-- All calls leave the same transactions live but those of their life. -/
theorem steady_answer {call : Call} (hcall : ¬call.IsLife) : Steady s (answer call s).2 := by
  by_cases hslot : call.IsSlot
  · cases call
    case mdbDbiOpen h name flags => exact steady_opening h (dbiOpen_opening h name flags)
    case mdbSetCompare h i _ | mdbSetDupsort h i _ => exact steady_install h i _
    case mdbDbiClose _ i => exact steady_dbiClose i
    case mdbDrop h i del => exact steady_drop h i del
    all_goals exact hslot.elim
  · exact (loads_answer hcall hslot).toSteady

/-! ## Sound states -/

/-- Handles are sound, and live transactions see the slots that are not for named
    databases. -/
structure Sound (s : Dbis) : Prop where
  handles : s.handles.Sound
  numdbs : coreDbs ≤ s.numdbs
  views : ∀ h, h ∈ s.handles.writers ∨ h ∈ s.handles.readers → coreDbs ≤ (s.views h).numdbs

theorem Sound.steady {s' : Dbis} (hs : Sound s) (hs' : Steady s s') : Sound s' where
  handles := hs.handles.same hs'.handles
  numdbs := hs'.numdbs ▸ hs.numdbs
  views h hh := by
    rw [hs'.handles.writers, hs'.handles.readers] at hh
    exact (hs.views h hh).trans (hs'.views h)

/-- Beginning a transaction adds it to the live ones, or changes none. -/
theorem live_txnBegin (s : Handles) (parent : Option Ptr) (flags : UInt32) :
    let r := s.txnBegin parent flags
    r.2.writers = s.writers ∧ r.2.readers = s.readers ∨
      (r.1.rc = 0 ∧ (match parent with
          | none => s.closed = false
          | some h => s.status h = .active) ∧
        ∀ h, h ∈ r.2.writers ∨ h ∈ r.2.readers →
          h = r.1.ptr ∨ h ∈ s.writers ∨ h ∈ s.readers) := by
  cases parent with
  | none =>
    simp only [Handles.txnBegin]
    split_ifs with hc hf
    · exact .inl ⟨rfl, rfl⟩
    · rcases s.allocate_cases s.fresh _ with ⟨hrc, hr⟩ | ⟨-, hr⟩ <;> rw [Handles.beginReader, hr]
      · refine .inr ⟨hrc, by simpa using hc, fun h hh => ?_⟩
        simp only [Handles.request, List.mem_append, List.mem_singleton] at hh
        tauto
      · exact .inl ⟨rfl, rfl⟩
    · rw [Handles.beginWriter]
      split
      · rcases s.allocate_cases meTxn0 _ with ⟨hrc, hr⟩ | ⟨-, hr⟩ <;> rw [hr]
        · refine .inr ⟨hrc, by simpa using hc, fun h hh => ?_⟩
          simp only [Handles.request, List.mem_singleton] at hh
          tauto
        · exact .inl ⟨rfl, rfl⟩
      · exact .inl ⟨rfl, rfl⟩
  | some h =>
    simp only [Handles.txnBegin]
    cases hstatus : s.status h
    case active =>
      dsimp only
      split
      · exact .inl ⟨rfl, rfl⟩
      · rcases s.allocate_cases s.fresh _ with ⟨hrc, hr⟩ | ⟨-, hr⟩ <;> rw [Handles.beginChild, hr]
        · refine .inr ⟨hrc, rfl, fun h hh => ?_⟩
          simp only [Handles.request, List.mem_append, List.mem_singleton] at hh
          tauto
        · exact .inl ⟨rfl, rfl⟩
    -- LMDB refuses a parent that is not active
    all_goals exact .inl ⟨rfl, rfl⟩

/-- What holds of the views of a transaction and its children, and is kept when a child
    is committed, holds of the view it ends with. -/
theorem merged_of {P : View → Prop} (habsorb : ∀ v child, P v → P child → P (v.absorb child)) :
    ∀ {hs : List Ptr}, hs ≠ [] → (∀ h ∈ hs, P (s.views h)) → P (s.merged hs)
  | [h], _, hP => hP h List.mem_cons_self
  | h :: h' :: hs, _, hP =>
    habsorb _ _ (hP h List.mem_cons_self)
      (merged_of habsorb (List.cons_ne_nil h' hs) fun _ hh => hP _ (List.mem_cons_of_mem _ hh))

theorem ending_ne_nil {s : Handles} {h : Ptr} (hh : h ∈ s.writers) : s.ending h ≠ [] := by
  intro hnil
  have hall := List.dropWhile_eq_nil_iff.1 hnil h hh
  exact of_decide_eq_true hall rfl

/-- The transactions live after a read-only one ends are others. -/
theorem live_endReader (hh : h ∉ s.handles.writers) :
    ∀ h', h' ∈ (s.handles.endReader h).writers ∨ h' ∈ (s.handles.endReader h).readers →
      h' ∉ [h] ∧ (h' ∈ s.handles.writers ∨ h' ∈ s.handles.readers) := by
  rintro h' (hw | hr)
  · exact ⟨fun hmem => hh (List.mem_singleton.1 hmem ▸ hw), .inl hw⟩
  · have hr := List.mem_filter.1 hr
    exact ⟨fun hmem => of_decide_eq_true hr.2 (List.mem_singleton.1 hmem), .inr hr.1⟩

section Sound

variable (hs : Sound s)

include hs

theorem Sound.of_mem (hh : h ∈ s.handles.writers) : coreDbs ≤ (s.views h).numdbs :=
  hs.views h (.inl hh)

/-- A transaction that gets a view is sound if the view is. -/
theorem Sound.setView {s' : Dbis} {v : View} (hhandles : s'.handles.Sound)
    (hnumdbs : coreDbs ≤ s'.numdbs) (hviews : s'.views = s.views) (hv : coreDbs ≤ v.numdbs)
    (hlive : ∀ h', h' ∈ s'.handles.writers ∨ h' ∈ s'.handles.readers →
      h' = h ∨ h' ∈ s.handles.writers ∨ h' ∈ s.handles.readers) : Sound (s'.setView h v) where
  handles := hhandles
  numdbs := hnumdbs
  views h' hh' := by
    by_cases hne : h' = h
    · rw [hne, views_setView_self]
      exact hv
    · rw [views_setView_of_ne hne, hviews]
      exact hs.views h' ((hlive h' hh').resolve_left hne)

theorem Sound.txnBegin (parent : Option Ptr) (flags : UInt32) :
    Sound (s.txnBegin parent flags).2 := by
  have hhandles := hs.handles.txnBegin parent flags
  have hcases := live_txnBegin s.handles parent flags
  -- no transaction is begun, or one that gets a view
  have hsame (h : (s.handles.txnBegin parent flags).2.writers = s.handles.writers ∧
      (s.handles.txnBegin parent flags).2.readers = s.handles.readers) :
      Sound (s.handled (s.handles.txnBegin parent flags)).2 :=
    ⟨hhandles, hs.numdbs, fun h' hh => hs.views h' (h.1 ▸ h.2 ▸ hh)⟩
  have hnew {v : View} (hv : coreDbs ≤ v.numdbs) : Sound
      ((s.handled (s.handles.txnBegin parent flags)).2.setView
        (s.handles.txnBegin parent flags).1.ptr v) := by
    refine hs.setView _ hhandles hs.numdbs rfl hv fun h' hh => ?_
    rcases hcases with ⟨hw, hr⟩ | ⟨-, -, hlive⟩
    · exact .inr (hw ▸ hr ▸ hh)
    · exact hlive h' hh
  simp only [Dbis.txnBegin]
  split
  · rename_i hrc
    exact hsame (hcases.resolve_right fun h => hrc h.1)
  cases parent with
  | none =>
    simp only
    split_ifs with hc hf
    · exact hsame (hcases.resolve_right fun h => by simp [hc] at h)
    · exact hnew hs.numdbs
    · exact ⟨(hnew (v := s.topView) hs.numdbs).handles, hs.numdbs,
        (hnew (v := s.topView) hs.numdbs).views⟩
  | some h =>
    simp only
    split_ifs with hactive
    · refine hnew (hs.of_mem h ?_)
      have hspec := s.handles.status_spec h
      rwa [hactive] at hspec
    · exact hsame (hcases.resolve_right fun h => hactive h.2.1)

/-- Transactions that end are forgotten. -/
theorem Sound.forget {s' : Dbis} {hs' : List Ptr} (hhandles : s'.handles.Sound)
    (hnumdbs : coreDbs ≤ s'.numdbs)
    (hviews : ∀ h, h ∉ hs' → (s'.views h).numdbs = (s.views h).numdbs)
    (hlive : ∀ h, h ∈ s'.handles.writers ∨ h ∈ s'.handles.readers →
      h ∉ hs' ∧ (h ∈ s.handles.writers ∨ h ∈ s.handles.readers)) : Sound s' where
  handles := hhandles
  numdbs := hnumdbs
  views h hh := hviews h (hlive h hh).1 ▸ hs.views h (hlive h hh).2

/-- The transactions live after a write transaction ends are others. -/
theorem Sound.live_endWriter :
    ∀ h', h' ∈ (s.handles.endWriter h).writers ∨ h' ∈ (s.handles.endWriter h).readers →
      h' ∉ s.handles.ending h ∧ (h' ∈ s.handles.writers ∨ h' ∈ s.handles.readers) := by
  have hnodup := hs.handles.nodup
  rw [← List.takeWhile_append_dropWhile (p := (· ≠ h)) (l := s.handles.writers)] at hnodup
  rintro h' (hw | hr)
  · exact ⟨fun hd => (List.nodup_append.1 hnodup).2.2 h' hw h' hd rfl,
      .inl ((List.takeWhile_sublist _).subset hw)⟩
  · exact ⟨fun hd => (hs.handles.of_mem_readers hr).2 ((List.dropWhile_sublist _).subset hd),
      .inr hr⟩

theorem Sound.txnCommit : Sound (s.txnCommit h).2 := by
  have hhandles := hs.handles.txnCommit (h := h)
  have hspec := s.handles.status_spec h
  simp only [Dbis.txnCommit]
  cases hstatus : s.handles.status h <;> rw [hstatus] at hspec
  case idle | dangling =>
    refine ⟨hhandles, hs.numdbs, fun h' hh => hs.views h' ?_⟩
    simp only [handled, Handles.txnCommit, hstatus] at hh
    exact hh
  case reader | parked =>
    refine hs.forget hhandles (hs.numdbs.trans (Nat.le_max_left _ _)) (fun h' hh => ?_)
      fun h' hh => live_endReader h hspec.1 h' ?_
    · simp only [Dbis.forget, if_neg hh, exportSlots, handled]
    · simpa only [Dbis.forget, exportSlots, handled, Handles.txnCommit, Handles.endTxn, hstatus,
        Handles.done] using hh
  case active | blocked =>
    have hlive := hs.live_endWriter h
    have hend : Sound ((s.handled (s.handles.txnCommit h)).2.forget (s.handles.ending h)) := by
      refine hs.forget hhandles hs.numdbs
        (fun h' hh => by simp only [Dbis.forget, if_neg hh, handled])
        fun h' hh => hlive h' ?_
      simpa only [Dbis.forget, handled, Handles.txnCommit, Handles.endTxn, hstatus] using hh
    simp only
    split
    · cases (s.handles.writers.takeWhile (· ≠ h)).getLast? with
      | none => exact ⟨hend.handles, hend.numdbs.trans (Nat.le_max_left _ _), hend.views⟩
      | some parent =>
        refine hend.setView _ hend.handles hend.numdbs rfl ?_ fun _ hh => .inr hh
        exact merged_of (P := fun v => coreDbs ≤ v.numdbs) (fun _ _ _ hv => hv)
          (ending_ne_nil hspec) fun h' hh => hs.of_mem h' ((List.dropWhile_sublist _).subset hh)
    · exact ⟨hend.handles, hend.numdbs, hend.views⟩

theorem Sound.txnAbort : Sound (s.txnAbort h).2 := by
  have hhandles := hs.handles.endTxn (h := h)
  have hspec := s.handles.status_spec h
  simp only [Dbis.txnAbort, Handles.txnAbort, Handles.done]
  cases hstatus : s.handles.status h <;> rw [hstatus] at hspec
  case idle | dangling =>
    refine ⟨hhandles, hs.numdbs, fun h' hh => hs.views h' ?_⟩
    simp only [handled, Handles.endTxn, hstatus] at hh
    exact hh
  case reader | parked =>
    refine hs.forget hhandles hs.numdbs (fun h' hh => ?_)
      fun h' hh => live_endReader h hspec.1 h' ?_
    · simp only [discard, Dbis.forget, if_neg hh, handled]
    · simpa only [discard, Dbis.forget, handled, Handles.endTxn, hstatus] using hh
  case active | blocked =>
    refine hs.forget hhandles hs.numdbs (fun h' hh => ?_) fun h' hh => hs.live_endWriter h h' ?_
    · simp only [discard, Dbis.forget, if_neg hh, handled]
    · simpa only [discard, Dbis.forget, handled, Handles.endTxn, hstatus] using hh

theorem Sound.txnReset : Sound (s.txnReset h).2 := by
  have hhandles := hs.handles.txnReset (h := h)
  have hspec := s.handles.status_spec h
  simp only [Dbis.txnReset]
  cases hstatus : s.handles.status h <;> rw [hstatus] at hspec
  case reader =>
    refine hs.forget hhandles hs.numdbs (fun h' hh => ?_)
      fun h' hh => live_endReader h hspec.1 h' ?_
    · simp only [discard, Dbis.forget, if_neg hh, handled]
    · simp only [discard, Dbis.forget, handled, Handles.txnReset, hstatus] at hh
      exact hh
  all_goals
    refine ⟨hhandles, hs.numdbs, fun h' hh => hs.views h' ?_⟩
    simp only [handled, Handles.txnReset, hstatus] at hh
    exact hh

theorem Sound.txnRenew : Sound (s.txnRenew h).2 := by
  have hhandles := hs.handles.txnRenew (h := h)
  simp only [Dbis.txnRenew]
  cases hstatus : s.handles.status h
  case parked =>
    by_cases hrc : s.handles.result.rc = 0
    · have hrenew : s.handles.txnRenew h = (s.handles.result, { s.handles.request.2 with
          readers := s.handles.readers ++ [h], parked := s.handles.parked.filter (· ≠ h) }) := by
        simp only [Handles.txnRenew, hstatus, if_pos hrc]
      simp only [hrenew] at hhandles ⊢
      rw [if_pos hrc]
      refine hs.setView _ hhandles hs.numdbs rfl hs.numdbs fun h' hh => ?_
      simp only [handled, Handles.request, List.mem_append, List.mem_singleton] at hh
      tauto
    · have hrenew : s.handles.txnRenew h = s.handles.request := by
        simp only [Handles.txnRenew, hstatus, if_neg hrc]
      simp only [hrenew] at hhandles ⊢
      rw [if_neg (show ¬s.handles.request.1.rc = 0 from hrc)]
      exact ⟨hhandles, hs.numdbs, hs.views⟩
  all_goals
    refine ⟨hhandles, hs.numdbs, fun h' hh => hs.views h' ?_⟩
    simp only [handled, Handles.txnRenew, hstatus] at hh
    exact hh

/-- No call makes a state unsound. -/
theorem Sound.answer (call : Call) : Sound (answer call s).2 := by
  by_cases hcall : call.IsLife
  · cases call
    case mdbTxnBegin _ parent flags => exact hs.txnBegin parent flags
    case mdbTxnCommit h => exact hs.txnCommit h
    case mdbTxnAbort h => exact hs.txnAbort h
    case mdbTxnReset h => exact hs.txnReset h
    case mdbTxnRenew h => exact hs.txnRenew h
    case mdbEnvClose e => exact ⟨hs.handles.answer (.mdbEnvClose e), hs.numdbs, hs.views⟩
    all_goals exact hcall.elim
  · exact hs.steady (steady_answer hcall)

end Sound

/-- A live transaction may use the slot of the unnamed database. -/
theorem Sound.sees_mainDbi (hs : Sound s) (hh : s.Live h) : s.sees h mainDbi := by
  have hspec := s.handles.status_spec h
  have hnumdbs : coreDbs ≤ (s.views h).numdbs := by
    rcases hh with hh | hh <;> rw [hh] at hspec
    · exact hs.views h (.inl hspec)
    · exact hs.views h (.inr hspec.2)
  exact decide_eq_true ⟨hnumdbs, .inl rfl⟩

/-- An environment is sound whatever has been called since it was opened. -/
theorem sound_after (results : ℕ → Reply) (maxdbs : ℕ) (catalog : Catalog) (mainFlags : UInt32)
    (rewritten : DbName → Bool) (calls : List Call) :
    Sound ((init results maxdbs catalog mainFlags rewritten).after calls) := by
  have hinit : Sound (init results maxdbs catalog mainFlags rewritten) := by
    refine ⟨⟨.nil, Nat.one_pos, ?_, ?_, ?_⟩, Nat.le_refl _, ?_⟩
    · exact fun h hh => absurd hh List.not_mem_nil
    · exact fun h hh => absurd hh List.not_mem_nil
    · exact fun h hh => absurd hh List.not_mem_nil
    · exact fun h hh => absurd hh (not_or.2 ⟨List.not_mem_nil, List.not_mem_nil⟩)
  generalize init results maxdbs catalog mainFlags rewritten = s at hinit
  induction calls generalizing s with
  | nil => exact hinit
  | cons call calls ih => exact ih _ (hinit.answer call)

end Dbis

end KotlinLmdb
