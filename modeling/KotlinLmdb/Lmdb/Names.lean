import KotlinLmdb.Lmdb.Lives

/-!
# Names of slots

A slot has the name of the database it is assigned to, and that of each record a
transaction has loaded in it (`Dbis.Names`). The two differ once the slot was closed and
assigned to another database. Only assigning a slot gives it a name it does not have
(`Dbis.Names.answer`, `Dbis.Names.opening`).
-/

namespace KotlinLmdb

namespace Dbis

variable (s : Dbis) (h : Ptr)

/-- The database a slot is assigned to. -/
def slotOf (i : Ptr) : Option (Option DbName) :=
  if i = mainDbi then some none else (s.slots i).name.map some

/-- The databases a call is about. A request goes to the one whose record the transaction
    has, and keys are compared as the slot tells. Deleting a database is also about the
    record of the name of the slot. -/
def databases : Call → List (Option DbName)
  | .mdbGet h i _ | .mdbPut h i _ _ _ | .mdbDel h i _ _ | .mdbStat h i | .mdbCursorOpen h i
  | .mdbDbiFlags h i => (s.target h i).toList
  | .mdbCmp _ i _ _ | .mdbDcmp _ i _ _ => (s.slotOf i).toList
  | .mdbDrop h i del => match s.target h i with
    | none => []
    | some name => name :: if del then (s.slotOf i).toList else []
  | _ => []

/-- The slot is assigned to the database of a name, or its record was loaded in it. -/
inductive Names (s : Dbis) (i : Ptr) (n : DbName) : Prop
  | slot (hslot : (s.slots i).name = some n)
  | loaded {x : Ptr} (hx : (s.views x).known i = .loaded n)

variable {s h} {s' : Dbis} {i : Ptr} {n : DbName}

/-- The slot of the unnamed database is for that only, and the others are for the
    databases they have the names of. -/
def About (s : Dbis) (i : Ptr) (name : Option DbName) : Prop :=
  if i = mainDbi then name = none else ∃ n, name = some n ∧ s.Names i n

theorem about_of_slotOf {name : Option DbName} (hname : name ∈ s.slotOf i) : s.About i name := by
  by_cases hi : i = mainDbi
  · rw [slotOf, if_pos hi] at hname
    rw [About, if_pos hi]
    exact (Option.some.inj hname).symm
  · rw [slotOf, if_neg hi] at hname
    rw [About, if_neg hi]
    obtain ⟨n, hn, rfl⟩ := Option.map_eq_some_iff.1 hname
    exact ⟨n, rfl, .slot hn⟩

theorem about_of_target {name : Option DbName} (hname : name ∈ s.target h i) : s.About i name := by
  obtain ⟨-, hname⟩ := Option.ite_none_left_eq_some.1 hname
  by_cases hi : i = mainDbi
  · rw [if_pos hi] at hname
    rw [About, if_pos hi]
    exact (Option.some.inj hname).symm
  · rw [if_neg hi] at hname
    rw [About, if_neg hi]
    cases hknown : (s.views h).known i with
    | invalid =>
      rw [hknown] at hname
      cases hname
    | loaded n =>
      rw [hknown] at hname
      exact ⟨n, (Option.some.inj hname).symm, .loaded hknown⟩
    | stale =>
      rw [hknown] at hname
      obtain ⟨-, hname⟩ := Option.ite_none_left_eq_some.1 hname
      obtain ⟨n, hn, rfl⟩ := Option.map_eq_some_iff.1 hname
      exact ⟨n, rfl, .slot hn⟩

theorem about_of_drop {del : Bool} {name : Option DbName}
    (hname : name ∈ s.databases (.mdbDrop h i del)) : s.About i name := by
  rw [databases] at hname
  cases htarget : s.target h i with
  | none =>
    rw [htarget] at hname
    cases hname
  | some name' =>
    rw [htarget] at hname
    rcases List.mem_cons.1 hname with rfl | hname
    · exact about_of_target htarget
    · split_ifs at hname
      · exact about_of_slotOf (Option.mem_toList.1 hname)
      · cases hname

/-! ## Calls that assign no slot -/

theorem known_of_know {v : View} {k : Known} {j : Ptr}
    (hv : (v.know j k).known i = .loaded n) (hk : k ≠ .loaded n) : v.known i = .loaded n := by
  rw [View.known_know] at hv
  split_ifs at hv
  · exact absurd hv hk
  · exact hv

/-- Slots keep their names, or are closed, and what is loaded has been named before. -/
theorem Names.of_le (hn : s'.Names i n)
    (hslot : (s'.slots i).name = some n → (s.slots i).name = some n)
    (hviews : ∀ x, (s'.views x).known i = .loaded n → s.Names i n) : s.Names i n := by
  cases hn with
  | slot hn => exact .slot (hslot hn)
  | loaded hx => exact hviews _ hx

theorem Names.of_eq (hn : s'.Names i n) (hslots : s'.slots = s.slots)
    (hviews : s'.views = s.views) : s.Names i n :=
  hn.of_le (hslots ▸ id) fun _ hx => .loaded (hviews ▸ hx)

/-- A transaction that gets a view that knows less. -/
theorem Names.of_setView {v : View} (hn : (s.setView h v).Names i n)
    (hv : v.known i = .loaded n → s.Names i n) : s.Names i n := by
  refine hn.of_le id fun x hx => ?_
  by_cases hxh : x = h
  · rw [hxh, views_setView_self] at hx
    exact hv hx
  · rw [views_setView_of_ne hxh] at hx
    exact .loaded hx

theorem Names.of_setSlot {j : Ptr} {x : DbSlot} (hn : (s.setSlot j x).Names i n)
    (hx : x.name = some n → (s.slots j).name = some n) : s.Names i n := by
  refine hn.of_le (fun hname => ?_) fun _ hx => .loaded hx
  by_cases hij : i = j
  · rw [hij, slots_setSlot_self] at hname
    exact hij ▸ hx hname
  · rwa [slots_setSlot_of_ne hij] at hname

theorem Names.of_close {j : Ptr} (hn : (s.setSlot j (s.slots j).close).Names i n) :
    s.Names i n :=
  hn.of_setSlot fun hname => nomatch DbSlot.name_close _ ▸ hname

theorem Names.of_forget {hs : List Ptr} (hn : s'.Names i n)
    (hslot : (s'.slots i).name = some n → (s.slots i).name = some n)
    (hviews : s'.views = (s.forget hs).views) : s.Names i n := by
  refine hn.of_le hslot fun x hx => ?_
  rw [hviews] at hx
  by_cases hxh : x ∈ hs
  · rw [views_forget_of_mem hxh] at hx
    cases hx
  · rw [views_forget hxh] at hx
    exact .loaded hx

theorem Names.of_loads (hn : s'.Names i n) (hl : Loads s s') : s.Names i n :=
  hn.of_le (hl.slots ▸ id) fun x hx => (hl.known x i n hx).elim .loaded .slot

/-- A transaction begun for good loads its records anew. -/
theorem known_topView_ne : s.topView.known i ≠ .loaded n := by
  simp only [topView]
  split <;> nofun

theorem Names.living {call : Call} {r : Reply × Dbis} (hn : r.2.Names i n)
    (hr : Living s call r) : s.Names i n := by
  have hslot (hname : (r.2.slots i).name = some n) : (s.slots i).name = some n := by
    rcases hr.slots i with ⟨_, heq⟩ | ⟨_, -, -, heq⟩
    · rwa [heq] at hname
    · rw [heq, DbSlot.name_close] at hname
      cases hname
  -- A new view has loaded no names but those its parent has.
  cases hr with
  | same _ _ _ hr =>
    rw [hr] at hn
    exact hn.of_eq rfl rfl
  | reader _ _ _ hr | writer _ _ _ hr | renewed _ _ _ hr =>
    rw [hr] at hn
    have hn' : (s.setView _ s.topView).Names i n := hn.of_eq rfl rfl
    exact hn'.of_setView fun hv => absurd hv known_topView_ne
  | @child _ h _ _ _ _ _ _ hr =>
    rw [hr] at hn
    have hn' : (s.setView _ (s.views h).child).Names i n := hn.of_eq rfl rfl
    exact hn'.of_setView fun hv => .loaded hv
  | ended _ _ hr | exported _ _ hr => exact hn.of_forget hslot (by rw [hr]; rfl)
  | @committed h _ hh _ hr =>
    generalize (s.handles.writers.takeWhile (· ≠ h)).getLast? = parent at hr
    cases parent with
    | none => exact hn.of_forget hslot (by rw [hr]; rfl)
    | some p =>
      refine hn.of_le hslot fun x hx => ?_
      rw [hr] at hx
      by_cases hxp : x = p
      · -- the parent has loaded what the innermost of its children had
        rw [hxp, publish, views_setView_self] at hx
        obtain ⟨isNew, hmerged⟩ := exists_merged (s := { s with handles := r.2.handles })
          (List.getLast?_eq_some_getLast (ending_ne_nil hh))
        rw [hmerged] at hx
        exact .loaded hx
      · rw [publish, views_setView_of_ne hxp] at hx
        by_cases hmem : x ∈ s.handles.ending h
        · rw [views_forget_of_mem hmem] at hx
          cases hx
        · rw [views_forget hmem] at hx
          exact .loaded hx

theorem Names.drop {del : Bool} {j : Ptr} (hn : (s.drop h j del).2.Names i n) :
    s.Names i n := by
  have hdata : Loads s (s.data h j true false (·.write h)).2 :=
    loads_data h j fun hd => hd.sameTxns_write h
  simp only [Dbis.drop] at hn
  split_ifs at hn
  · exact hn
  · exact (hn.of_setView fun hv => .loaded hv).of_loads hdata
  · refine Names.of_loads (hn.of_close.of_setView fun hv => .loaded (x := h) ?_) hdata
    exact known_of_know (k := .invalid) hv (by simp)
  · exact hn.of_loads hdata
  · exact hn.of_loads hdata

/-- All calls but opening a database leave slots without the names they do not have. -/
theorem Names.answer {call : Call} (hn : (Dbis.answer call s).2.Names i n) (hs : s.Sound)
    (hc : s.handles.closed = false) (hclose : ∀ e, call ≠ .mdbEnvClose e)
    (hopen : ∀ h name flags, call ≠ .mdbDbiOpen h name flags) : s.Names i n := by
  by_cases hlife : call.IsLife
  · exact hn.living (hs.living hc hlife hclose)
  by_cases hslot : call.IsSlot
  · cases call
    case mdbDbiOpen h name flags => exact absurd rfl (hopen h name flags)
    case mdbSetCompare | mdbSetDupsort =>
      simp only [Dbis.answer, setCompare, setDupsort, install] at hn
      split_ifs at hn
      · exact hn.of_eq rfl rfl
      · exact hn.of_setSlot id
      · exact hn
    case mdbDbiClose =>
      simp only [Dbis.answer, dbiClose] at hn
      split_ifs at hn
      · exact hn.of_close
      · exact hn
    case mdbDrop => exact hn.drop
    all_goals exact hslot.elim
  · exact hn.of_loads (loads_answer hlife hslot)

/-! ## Opening a database -/

theorem Names.initMain {hd : Handles} (hn : Names { s.initMain h with handles := hd } i n) :
    s.Names i n :=
  hn.of_le (fun hname => (name_initMain h i).symm.trans hname) fun _ hx =>
    .loaded (views_initMain (s := s) h ▸ hx)

theorem Names.openMain {flags : UInt32} (hn : (s.openMain h flags).2.Names i n) : s.Names i n :=
  (hn.of_setSlot id).of_setView fun hv => .loaded hv

theorem known_assign_self {v : View} {name : DbName} {f : UInt32} :
    (v.assign i name f).known i = .loaded name := Function.update_self ..

theorem known_assign_of_ne {v : View} {j : Ptr} {name : DbName} {f : UInt32} (hi : i ≠ j) :
    (v.assign j name f).known i = v.known i := Function.update_of_ne hi ..

theorem views_assign_of_ne {name : DbName} {f : UInt32} {x : Ptr} (hx : x ≠ h) :
    (s.assign h name f).2.views x = s.views x := views_setView_of_ne hx

/-- The slot assigned has the new name, and those of the records others have loaded. -/
theorem Names.assign {name : DbName} {f : UInt32} (hn : (s.assign h name f).2.Names i n) :
    (i ≠ s.slotFor h ∧ s.Names i n) ∨ i = s.slotFor h ∧
      (n = name ∨ ∃ x ≠ h, (s.views x).known i = .loaded n) := by
  by_cases hi : i = s.slotFor h
  · refine .inr ⟨hi, ?_⟩
    cases hn with
    | slot hname =>
      rw [hi, slots_assign_self] at hname
      exact .inl (Option.some.inj hname).symm
    | @loaded x hx =>
      by_cases hxh : x = h
      · rw [hxh, views_assign_self, hi] at hx
        exact .inl (Known.loaded.inj (known_assign_self.symm.trans hx)).symm
      · exact .inr ⟨x, hxh, views_assign_of_ne hxh ▸ hx⟩
  · refine .inl ⟨hi, hn.of_le (fun hname => ?_) fun x hx => ?_⟩
    · rwa [slots_assign_of_ne h hi] at hname
    · by_cases hxh : x = h
      · rw [hxh, views_assign_self] at hx
        exact .loaded (known_assign_of_ne hi ▸ hx)
      · exact .loaded (views_assign_of_ne hxh ▸ hx)

/-- Opening a database gives no slot a name it does not have, and the database the slot that
    is for it. -/
structure Finds (s : Dbis) (h : Ptr) (name : Option DbName) (r : Reply × Dbis) : Prop where
  names : ∀ i n, r.2.Names i n → s.Names i n
  main : name = none → r.1.rc = 0 → r.1.ptr = mainDbi
  named : ∀ n, name = some n → r.1.rc = 0 → s.find? h n = some r.1.ptr

/-- It assigns the slot, so that it has the name of the database. -/
structure Assigns (s : Dbis) (h : Ptr) (n : DbName) (r : Reply × Dbis) : Prop where
  unopened : s.find? h n = none
  rc : r.1.rc = 0
  ptr : r.1.ptr = s.slotFor h
  maxdbs : r.2.maxdbs = s.maxdbs
  name : (r.2.slots (s.slotFor h)).name = some n
  place : coreDbs ≤ s.slotFor h
  others : ∀ i ≠ s.slotFor h, ∀ m, r.2.Names i m → s.Names i m
  slot : ∀ m, r.2.Names (s.slotFor h) m →
    m = n ∨ ∃ x ≠ h, (s.views x).known (s.slotFor h) = .loaded m
  views : ∀ x ≠ h, r.2.views x = s.views x

theorem maxdbs_initMain : (s.initMain h).maxdbs = s.maxdbs := by
  rw [Dbis.initMain]
  split <;> rfl

theorem Opening.finds_or_assigns {name : Option DbName} {flags : UInt32} {r : Reply × Dbis}
    (hr : Opening s h flags name r) (hs : s.Sound) (hh : s.handles.status h ≠ .dangling) :
    s.Finds h name r ∨ ∃ n, name = some n ∧ s.Assigns h n r := by
  cases hr with
  | refused _ hrc hr =>
    refine .inl ⟨fun i n hn => ?_, fun _ h => absurd h hrc, fun _ _ h => absurd h hrc⟩
    rcases hr with hr | hr <;> rw [hr] at hn
    · exact hn.of_eq rfl rfl
    · exact hn.initMain
  | freed _ hh' => exact absurd hh' hh
  | main => exact .inl ⟨fun i n hn => hn.openMain.of_eq rfl rfl, fun _ _ => rfl, fun _ => nofun⟩
  | found _ _ hi =>
    exact .inl ⟨fun i n hn => hn.initMain, nofun, fun n heq _ => Option.some.inj heq ▸ hi⟩
  | @assigned n f hd _ hlive hi =>
    have hslot := slotFor_initMain (s := s) h hd
    refine .inr ⟨n, rfl, hi, rfl, hslot, maxdbs_initMain, ?_, coreDbs_le_slotFor h ?_,
      fun i hne m hm => ?_, fun m hm => ?_, fun x hx => ?_⟩
    · rw [← hslot, slots_assign_self]
      rfl
    · exact (of_decide_eq_true (hs.sees_mainDbi h hlive)).1
    · rcases hm.assign with ⟨-, hm⟩ | ⟨heq, -⟩
      · exact hm.initMain
      · exact absurd (heq.trans hslot) hne
    · rcases hm.assign with ⟨hne, -⟩ | ⟨-, hm⟩
      · exact absurd hslot.symm hne
      · refine hm.imp_right fun ⟨x, hx, hm⟩ => ⟨x, hx, ?_⟩
        rwa [views_initMain] at hm
    · exact (views_assign_of_ne hx).trans (congrFun (views_initMain h) x)

end Dbis

end KotlinLmdb
