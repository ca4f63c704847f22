import KotlinLmdb.DbiConfig
import KotlinLmdb.Lmdb.Slots

/-!
# Opening databases with comparers

`dbiOpen` with a configuration first has LMDB open or create the database, and looks
for the comparers afterwards. If it throws then, what was done before stays done: the
database is created, its slot assigned, and comparers set. The environment is as it was
before, whenever `dbiOpen` throws, exactly if all comparers are found, or the database
is not opened, or is open already and its comparers not changed by then
(`Txn.opensAtomically_iff`).
-/

namespace KotlinLmdb

/-- Two slots have the same comparers. -/
def DbSlot.SameComparers (x y : DbSlot) : Prop := x.cmp = y.cmp ∧ x.dcmp = y.dcmp

/-- A database is open in the slot: the unnamed one from when it has comparers. -/
def Dbis.IsOpen (s : Dbis) (i : Ptr) : Prop :=
  if i = mainDbi then (s.slots i).cmp.isSome else (s.slots i).name.isSome

/-- The environment is as before a database was opened in a transaction: none was
    created, no slot assigned, and no comparer of an open database changed. -/
structure Dbis.Spared (h : Ptr) (s s' : Dbis) : Prop where
  catalog : (s'.views h).catalog = (s.views h).catalog
  numdbs : (s'.views h).numdbs = (s.views h).numdbs
  names : ∀ i, (s'.slots i).name = (s.slots i).name
  comparers : ∀ i, s.IsOpen i → (s'.slots i).SameComparers (s.slots i)

namespace Txn

variable (p : Platform) (r : Registry Ptr) (s : Dbis) (t : Txn) (name : Option DbName)
  (config : DbiConfig) (options : List DbiOption)

/-- If `dbiOpen` throws, the environment is as it was before. -/
def OpensAtomically : Prop :=
  let o := (dbiOpenWith Dbis.library p r name config options).observe t s
  ∀ e, o.1.outcome = .error e → s.Spared t.ptr o.2.2

/-- All comparers of the configuration are found. -/
def Resolves : Prop :=
  (∃ cb, callback p r config.keyComparer = .ok cb) ∧ ∃ cb, callback p r config.dupComparer = .ok cb

/-- A slot with the key comparer of the configuration, if there is one and it is found. -/
def keySet (x : DbSlot) : DbSlot :=
  match callback p r config.keyComparer with
  | .ok (some cb) => { x with cmp := some (.callback cb) }
  | _ => x

/-- All comparers are found, or LMDB does not open the database, or it is open already and
    what is set before the failure are the comparers it has: the key comparer and, if it
    is the unnamed database, the default ones. -/
def OpensSafely : Prop :=
  Resolves p r config ∨
    (s.dbiOpen t.ptr name (DbiOption.toFlags options)).1.rc ≠ 0 ∨
    match name with
    | none => s.IsOpen mainDbi →
      (keySet p r config ((s.slots mainDbi).reset ((s.views t.ptr).mainFlags |||
        DbiOption.toFlags options &&& persistentFlags))).SameComparers (s.slots mainDbi)
    | some name => ∃ i, s.find? t.ptr name = some i ∧
      (s.sees t.ptr i → (keySet p r config (s.slots i)).SameComparers (s.slots i))

variable {p r s t name config options}

/-! ## Setting the comparers -/

section Configure

variable {σ : Session Call Reply Dbis} {dbi : Dbi}

variable (p r config dbi) in
/-- If the transaction may use the slot, setting the comparers only fails where they are
    not found. -/
theorem configure_of_sees (hh : σ.native.handles.status t.ptr ≠ .dangling)
    (hsees : σ.native.sees t.ptr dbi.ptr) :
    let x := (configure Dbis.library p r dbi config).exec (t, σ)
    (¬Resolves p r config → ∃ e, x.1 = .error e) ∧
      ∀ e, x.1 = .error e → ¬Resolves p r config ∧
        x.2.2.native =
          σ.native.setSlot dbi.ptr (keySet p r config (σ.native.slots dbi.ptr)) := by
  have hself : σ.native.setSlot dbi.ptr (σ.native.slots dbi.ptr) = σ.native := by
    simp [Dbis.setSlot]
  simp only [configure, Eff.exec_bind, Eff.exec_self, exec_setComparer]
  cases hkey : callback p r config.keyComparer with
  | error e =>
    simp [Resolves, keySet, hkey, hself]
  | ok key =>
    cases hdup : callback p r config.dupComparer with
    | error e =>
      cases key with
      | none => simp [exec_setComparer, Resolves, keySet, hkey, hdup, hself]
      | some cb =>
        simp [exec_setComparer, Resolves, keySet, hkey, hdup, Dbis.answer, Dbis.setCompare,
          Dbis.install, hh, hsees]
    | ok dup =>
      have hsees' : ∀ x, (σ.native.setSlot dbi.ptr x).sees t.ptr dbi.ptr := fun _ => hsees
      have hh' : ∀ x, (σ.native.setSlot dbi.ptr x).handles.status t.ptr ≠ .dangling := fun _ => hh
      cases key <;> cases dup <;>
        simp [exec_setComparer, Resolves, keySet, hkey, hdup, Dbis.answer, Dbis.setCompare,
          Dbis.setDupsort, Dbis.install, hh, hsees, hh', hsees']

/-- If it may not, each of them is refused, or asked for through freed memory. -/
theorem setComparer_of_not_sees (set : Callback Ptr → Call) (f : Callback Ptr → DbSlot → DbSlot)
    (hset : ∀ cb, Dbis.answer (set cb) σ.native = σ.native.install t.ptr dbi.ptr (f cb))
    (hsees : σ.native.handles.status t.ptr = .dangling ∨ ¬σ.native.sees t.ptr dbi.ptr)
    (comparer : Option ValComparer) :
    ∃ o σ', (setComparer Dbis.library p r set comparer).exec (t, σ) = (o, (t, σ')) ∧
      ∃ hd, σ.native.handles.SameTxns hd ∧ σ'.native = { σ.native with handles := hd } := by
  rw [exec_setComparer]
  rcases callback p r comparer with e | _ | cb
  · exact ⟨_, σ, rfl, _, .refl _, rfl⟩
  · exact ⟨_, σ, rfl, _, .refl _, rfl⟩
  · refine ⟨_, _, rfl, ?_⟩
    rw [Session.native_after, Dbis.next_library, hset, Dbis.install]
    split
    · exact ⟨_, Handles.sameTxns_request _, rfl⟩
    · rename_i hh
      rw [if_neg (hsees.resolve_left hh)]
      exact ⟨_, .refl _, rfl⟩

variable (p r config dbi) in
theorem configure_of_not_sees
    (hsees : σ.native.handles.status t.ptr = .dangling ∨ ¬σ.native.sees t.ptr dbi.ptr) :
    let x := (configure Dbis.library p r dbi config).exec (t, σ)
    x.2.2.native.slots = σ.native.slots ∧ x.2.2.native.views = σ.native.views := by
  obtain ⟨o, σ', hkey, hd, hsame, hnative⟩ := setComparer_of_not_sees (p := p) (r := r)
    (.mdbSetCompare t.ptr dbi.ptr) (fun cb x => { x with cmp := some (.callback cb) })
    (fun _ => rfl) hsees config.keyComparer
  simp only [configure, Eff.exec_bind, Eff.exec_self, hkey]
  cases o with
  | error e => simp only [hnative, and_self]
  | ok u =>
    have hsees' : σ'.native.handles.status t.ptr = .dangling ∨ ¬σ'.native.sees t.ptr dbi.ptr := by
      rw [hnative]
      exact hsame.status t.ptr ▸ hsees
    obtain ⟨o', σ'', hdup, hd', -, hnative'⟩ := setComparer_of_not_sees (p := p) (r := r)
      (.mdbSetDupsort t.ptr dbi.ptr) (fun cb x => { x with dcmp := some (.callback cb) })
      (fun _ => rfl) hsees' config.dupComparer
    simp only [hdup, hnative', hnative, and_self]

end Configure

/-! ## When opening is atomic -/

variable (p r s t name config options) in
/-- `dbiOpen` opens the database, and sets the comparers if that succeeds. -/
theorem observe_dbiOpenWith :
    let o := (dbiOpenWith Dbis.library p r name config options).observe t s
    let a := s.dbiOpen t.ptr name (DbiOption.toFlags options)
    (a.1.rc ≠ 0 → o.2.2 = a.2) ∧ (a.1.rc = 0 → ∃ σ : Session Call Reply Dbis, σ.native = a.2 ∧
      let x := (configure Dbis.library p r { ptr := a.1.ptr } config).exec (t, σ)
      (∀ e, o.1.outcome = .error e ↔ x.1 = .error e) ∧ o.2.2 = x.2.2.native) := by
  constructor
  · intro hrc
    simp [Eff.observe, dbiOpenWith, Dbi.init, Dbis.answer, hrc]
  · intro hrc
    refine ⟨(⟨s, []⟩ : Session Call Reply Dbis).after Dbis.library.toHandler
      (.mdbDbiOpen t.ptr name (DbiOption.toFlags options)), rfl, ?_⟩
    simp only [Eff.observe, dbiOpenWith, Dbi.init, Eff.exec_bind, Eff.exec_self, Eff.exec_call,
      exec_check, Dbis.reply_library, Dbis.answer, hrc, if_true, Eff.exec_pure]
    rcases (configure Dbis.library p r _ config).exec _ with ⟨e | u, s'⟩
    · simp
    · simp

/-- If LMDB opens the database, the comparers decide. -/
theorem opensAtomically_of_sees {a : Reply × Dbis}
    (ha : s.dbiOpen t.ptr name (DbiOption.toFlags options) = a) (hrc : a.1.rc = 0)
    (hh : a.2.handles.status t.ptr ≠ .dangling) (hsees : a.2.sees t.ptr a.1.ptr) :
    OpensAtomically p r s t name config options ↔ Resolves p r config ∨
      s.Spared t.ptr (a.2.setSlot a.1.ptr (keySet p r config (a.2.slots a.1.ptr))) := by
  subst ha
  obtain ⟨σ, hσ, hout, hnative⟩ :=
    (observe_dbiOpenWith p r s t name config options).2 hrc
  rw [← hσ] at hh hsees ⊢
  obtain ⟨hfails, hstate⟩ := configure_of_sees p r config { ptr := _ } hh hsees
  constructor
  · intro hatomic
    by_cases hres : Resolves p r config
    · exact .inl hres
    · obtain ⟨e, he⟩ := hfails hres
      have hspared := hatomic e ((hout e).2 he)
      rw [hnative, (hstate e he).2] at hspared
      exact .inr hspared
  · rintro h e he
    have hx := hstate e ((hout e).1 he)
    rw [hnative, hx.2]
    exact h.resolve_left hx.1

/-- If it does not, or the slot is none of the transaction's, nothing is changed. -/
theorem opensAtomically_of_not_sees {s₁ : Dbis}
    (ha : (s.dbiOpen t.ptr name (DbiOption.toFlags options)).2 = s₁)
    (hsees : (s.dbiOpen t.ptr name (DbiOption.toFlags options)).1.rc = 0 →
      s₁.handles.status t.ptr = .dangling ∨
        ¬s₁.sees t.ptr (s.dbiOpen t.ptr name (DbiOption.toFlags options)).1.ptr)
    (hspared : ∀ s' : Dbis, s'.slots = s₁.slots → s'.views = s₁.views → s.Spared t.ptr s') :
    OpensAtomically p r s t name config options := by
  intro e he
  obtain ⟨hrefused, hopened⟩ := observe_dbiOpenWith p r s t name config options
  by_cases hrc : (s.dbiOpen t.ptr name (DbiOption.toFlags options)).1.rc = 0
  · obtain ⟨σ, hσ, -, hnative⟩ := hopened hrc
    rw [ha] at hσ
    obtain ⟨hslots, hviews⟩ := configure_of_not_sees (σ := σ) (t := t) p r config { ptr := _ }
      (hσ ▸ hsees hrc)
    exact hspared _ ((congrArg Dbis.slots hnative).trans (hslots.trans (hσ ▸ rfl)))
      ((congrArg Dbis.views hnative).trans (hviews.trans (hσ ▸ rfl)))
  · have hnative := (hrefused hrc).trans ha
    exact hspared _ (congrArg Dbis.slots hnative) (congrArg Dbis.views hnative)

/-- Opening the database spares the environment if it only gives the unnamed database
    comparers it lacks. -/
theorem spared_initMain {s' : Dbis} (hslots : s'.slots = (s.initMain t.ptr).slots)
    (hviews : s'.views = s.views) : s.Spared t.ptr s' where
  catalog := by rw [hviews]
  numdbs := by rw [hviews]
  names i := by rw [hslots, Dbis.name_initMain]
  comparers i hi := by
    rw [hslots, Dbis.slots_initMain]
    · exact ⟨rfl, rfl⟩
    · intro hmain
      rwa [Dbis.IsOpen, if_pos hmain] at hi

/-- Nothing having changed spares it. -/
theorem spared_of_eq {s' : Dbis} (hslots : s'.slots = s.slots) (hviews : s'.views = s.views) :
    s.Spared t.ptr s' where
  catalog := by rw [hviews]
  numdbs := by rw [hviews]
  names i := by rw [hslots]
  comparers i _ := by
    rw [hslots]
    exact ⟨rfl, rfl⟩

@[simp]
theorem name_keySet (x : DbSlot) : (keySet p r config x).name = x.name := by
  rw [keySet]
  split <;> rfl

/-- Setting the comparers of an open database spares the environment if it has them. -/
theorem spared_setSlot {s' : Dbis} {i : Ptr} {x : DbSlot} (hname : x.name = (s.slots i).name)
    (hslots : ∀ j, j ≠ i → s.IsOpen j → (s'.slots j).SameComparers (s.slots j))
    (hnames : ∀ j, j ≠ i → (s'.slots j).name = (s.slots j).name)
    (hcatalog : (s'.views t.ptr).catalog = (s.views t.ptr).catalog)
    (hnumdbs : (s'.views t.ptr).numdbs = (s.views t.ptr).numdbs) :
    s.Spared t.ptr (s'.setSlot i x) ↔ (s.IsOpen i → x.SameComparers (s.slots i)) := by
  constructor
  · intro h hi
    have hx := h.comparers i hi
    rwa [Dbis.slots_setSlot_self] at hx
  · refine fun h => ⟨hcatalog, hnumdbs, fun j => ?_, fun j hj => ?_⟩
    · by_cases hji : j = i
      · rw [hji, Dbis.slots_setSlot_self, hname]
      · rw [Dbis.slots_setSlot_of_ne hji, hnames j hji]
    · by_cases hji : j = i
      · rw [hji] at hj
        rw [hji, Dbis.slots_setSlot_self]
        exact h hj
      · rw [Dbis.slots_setSlot_of_ne hji]
        exact hslots j hji hj

/-- Assigning a slot never spares the environment. -/
theorem not_spared_assign {s₀ : Dbis} {n : DbName} {f : UInt32} {x : DbSlot}
    (hslots : ∀ i, (s₀.slots i).name = (s.slots i).name) (hviews : s₀.views = s.views)
    (hx : x.name = some n) :
    ¬s.Spared t.ptr ((s₀.assign t.ptr n f).2.setSlot (s₀.slotFor t.ptr) x) := by
  intro h
  rcases s₀.slotFor_cases t.ptr with hfree | hlast
  · -- the slot was free
    have hname := h.names (s₀.slotFor t.ptr)
    rw [Dbis.slots_setSlot_self, hx, ← hslots, hfree] at hname
    cases hname
  · -- it was not counted
    have hnumdbs := h.numdbs
    simp [Dbis.assign, Dbis.setView, View.assign, hlast, hviews] at hnumdbs

theorem opensAtomically_iff_of_sound (hs : s.Sound)
    (hfreed : s.handles.status t.ptr ≠ .dangling) :
    OpensAtomically p r s t name config options ↔ OpensSafely p r s t name config options := by
  -- One case for each thing `mdb_dbi_open` may do. Where it finds the database, all that is to
  -- be spared are the comparers of the slot; a slot it assigns is never given back.
  have ho := s.dbiOpen_opening t.ptr name (DbiOption.toFlags options)
  simp only [OpensSafely]
  generalize ha : s.dbiOpen t.ptr name (DbiOption.toFlags options) = a at ho
  cases ho with
  | refused hsame hrc hr =>
    refine iff_of_true (opensAtomically_of_not_sees (congrArg Prod.snd ha)
      (fun h => absurd (ha ▸ h) hrc) fun s' hslots hviews => ?_) (.inr (.inl hrc))
    rcases hr with hr | hr <;> rw [hr] at hslots hviews
    · exact spared_of_eq hslots hviews
    · exact spared_initMain hslots (hviews.trans (Dbis.views_initMain _))
  | freed _ hh => exact absurd hh hfreed
  | main hsame hh =>
    have hsees := (Dbis.sees_openMain t.ptr mainDbi (DbiOption.toFlags options)).trans
      (hs.sees_mainDbi _ hh)
    rw [opensAtomically_of_sees ha rfl ((hsame.status t.ptr).trans_ne hfreed) hsees,
      spared_setSlot]
    · simp
    · simp [DbSlot.reset]
    · exact fun j hj _ => by
        rw [Dbis.slots_openMain_of_ne t.ptr hj]
        exact ⟨rfl, rfl⟩
    · exact fun j hj => congrArg DbSlot.name (Dbis.slots_openMain_of_ne t.ptr hj _)
    · simp
    · simp
  | @found name i hd hsame hh hi =>
    obtain ⟨hcore, -, hname⟩ := Dbis.of_find?_eq_some t.ptr hi
    have hne : i ≠ mainDbi := fun h => absurd hcore (h ▸ by decide)
    have hspared : s.Spared t.ptr { s.initMain t.ptr with handles := hd } :=
      spared_initMain rfl (Dbis.views_initMain _)
    by_cases hsees : s.sees t.ptr i
    · have hsees' : ({ s.initMain t.ptr with handles := hd } : Dbis).sees t.ptr i := by
        simpa [Dbis.sees] using hsees
      rw [opensAtomically_of_sees ha rfl ((hsame.status t.ptr).trans_ne hfreed) hsees',
        spared_setSlot]
      · have hopen : s.IsOpen i := by simp [Dbis.IsOpen, hne, hname]
        simp [hi, hsees, hopen, Dbis.slots_initMain t.ptr i (fun h => absurd h hne)]
      · simp
      · exact fun j _ hj => hspared.comparers j hj
      · exact fun j _ => hspared.names j
      · exact hspared.catalog
      · exact hspared.numdbs
    · refine iff_of_true (opensAtomically_of_not_sees (congrArg Prod.snd ha) (fun _ => .inr ?_)
        fun s' hslots hviews => ?_) (.inr (.inr ⟨i, hi, fun h => absurd h hsees⟩))
      · rw [ha]
        simpa [Dbis.sees] using hsees
      · exact spared_initMain hslots (hviews.trans (Dbis.views_initMain _))
  | @assigned name f hd hsame hh hi =>
    rw [opensAtomically_of_sees ha rfl ((hsame.status t.ptr).trans_ne hfreed)
      (Dbis.sees_assign t.ptr)]
    refine (or_iff_left ?_).trans (or_iff_left ?_).symm
    · refine not_spared_assign (n := name) (fun i => ?_) (Dbis.views_initMain _) ?_
      · exact Dbis.name_initMain (s := s) t.ptr i
      · rw [name_keySet, Dbis.reply_assign, Dbis.slots_assign_self]
        rfl
    · rintro (hrc | ⟨i, hi', -⟩)
      · exact hrc rfl
      · cases hi.symm.trans hi'

/-- For every transaction of an environment that anything may have been done to, if it is not
    freed memory, and every registry, name, configuration and options. -/
theorem opensAtomically_iff (p : Platform) (r : Registry Ptr) (results : ℕ → Reply) (maxdbs : ℕ)
    (catalog : Catalog) (mainFlags : UInt32) (rewritten : DbName → Bool) (calls : List Call)
    (t : Txn) (name : Option DbName) (config : DbiConfig) (options : List DbiOption) :
    let s := (Dbis.init results maxdbs catalog mainFlags rewritten).after calls
    s.handles.status t.ptr ≠ .dangling →
      (OpensAtomically p r s t name config options ↔ OpensSafely p r s t name config options) :=
  opensAtomically_iff_of_sound (Dbis.sound_after results maxdbs catalog mainFlags rewritten calls)

/-- Opening a new database without comparers. -/
theorem opensAtomically_plain :
    let s := (Dbis.init (fun _ => {}) 12 (fun _ => none) 0 fun _ => false).after
      [.mdbTxnBegin 1 none 0]
    OpensAtomically .jvm {} s { ptr := meTxn0 } (some .a) {} [.create] :=
  (opensAtomically_iff .jvm {} (fun _ => {}) 12 (fun _ => none) 0 (fun _ => false)
    [.mdbTxnBegin 1 none 0] { ptr := meTxn0 } (some .a) {} [.create] (by decide)).2
    (.inl ⟨⟨none, rfl⟩, none, rfl⟩)

/-- Opening a new database with a comparer that is not registered throws, and creates it. -/
theorem not_opensAtomically_custom1 :
    let s := (Dbis.init (fun _ => {}) 12 (fun _ => none) 0 fun _ => false).after
      [.mdbTxnBegin 1 none 0]
    ¬OpensAtomically .jvm {} s { ptr := meTxn0 } (some .a) { keyComparer := some .custom1 }
        [.create] ∧
      ¬OpensAtomically .native {} s { ptr := meTxn0 } (some .a) { keyComparer := some .custom1 }
        [.create] := by
  refine ⟨fun h => ?_, fun h => ?_⟩
  all_goals
    have hcatalog := congrFun (h _ rfl).catalog .a
    cases hcatalog

end Txn

end KotlinLmdb
