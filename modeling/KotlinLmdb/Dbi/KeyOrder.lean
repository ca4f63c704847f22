import KotlinLmdb.DbiConfig
import KotlinLmdb.Lmdb.Kept
import KotlinLmdb.Txn.Tree

/-!
# The key order of a database

A database opened with a comparer, in a transaction that is committed with all it is
nested in, and opened again without one by later transactions. LMDB has the comparer in
the slot. Opening a named database finds the slot and leaves it as it is, unless the
transaction was begun before there was one; opening the unnamed one resets its comparers
each time. The order stays exactly if the database is named, and no such transaction takes
its slot or opens it, or if it is the unnamed one and is not opened again
(`Dbi.keepsOrder_iff`).
-/

namespace KotlinLmdb

/-- What `mdb_cmp` and every search order the keys of a slot's database by. -/
def Dbis.keyOrder (s : Dbis) (i : Ptr) : Option CmpFunc := (s.slots i).cmp

/-- `dbiOpen` with a configuration, as a step. -/
def World.dbiOpenWith {N : Type} (lib : Library N) (p : Platform) (reg : Registry Ptr) (w : World N)
    (t : ℕ) (name : Option DbName) (config : DbiConfig) (options : List DbiOption) :
    Seen Value × World N :=
  match w.txns[t]? with
  | none => w.skip
  | some k =>
    let r := (Value.dbi <$> Txn.dbiOpenWith lib p reg name config options).observe k.obj w.native
    (r.1, { w with
      txns := w.txns.set t { k with obj := r.2.1 }
      dbis := w.dbis ++ World.opened name t r.1.outcome
      native := r.2.2 })

namespace Dbi

open World

variable (p : Platform) (name : Option DbName) (i : Ptr)

/-- A step that does not close the slot nor set its comparer, and does not use freed
    transactions. Transactions close the slots they have assigned if they are not committed. -/
structure Unclosed (w : World Dbis) (op : Op) : Prop where
  once : Op.CallsOnce op
  spared : ∀ c ∈ callOf p w op, ¬c.Touches i
  closes : ∀ c ∈ callOf p w op, ∀ h, c.Abandons h (Dbis.answer c w.native).1 →
    ∀ x ∈ w.native.handles.ends h, (w.native.views x).isNew i = false
  opens : ∀ t name' options k, op = .dbiOpen t name' options → w.txns[t]? = some k →
    w.native.handles.status k.obj.ptr ≠ .dangling
  begins : ∀ t options k, op = .begin t options → w.txns[t]? = some k →
    w.native.handles.status k.obj.ptr ≠ .dangling

/-- A step from when a database was opened until its transaction is committed, for good.
    The transactions nested in one another are only ended by committing them, and the
    outermost one is not yet. -/
structure Pending (chain : List Ptr) (w : World Dbis) (op : Op) : Prop
    extends Unclosed p i w op where
  ends : ∀ c ∈ callOf p w op, ∀ h ∈ chain, ¬c.Abandons h (Dbis.answer c w.native).1
  commits : ∀ c ∈ callOf p w op, ∀ h, c = .mdbTxnCommit h → chain.head? ≠ some h

/-- The order stays what the database was configured with, and it is in the slot that it
    is found again. -/
structure KeepsOrder (cb : Callback Ptr) (w : World Dbis) (op : Op) : Prop where
  order : (w.perform Dbis.library p op).2.native.keyOrder i = some (.callback cb)
  slot : ∀ t options d, op = .dbiOpen t name options →
    (w.perform Dbis.library p op).1.outcome = .ok (.dbi d) → d.ptr = i

/-- The step does not have LMDB open the unnamed database, if that is the database. Nor does a
    transaction whose count of slots does not include the slot open the database, or another
    one that is not open to it while the slot is the first one free to it. -/
structure NoReset (w : World Dbis) (op : Op) : Prop where
  main : name = none → ∀ t options k, op = .dbiOpen t none options → w.txns[t]? = some k →
    ¬(w.native.Live k.obj.ptr ∧ w.native.handles.result.rc = 0)
  older : ∀ t n options k, op = .dbiOpen t (some n) options → w.txns[t]? = some k →
    w.native.Live k.obj.ptr →
    (Dbis.answer (.mdbDbiOpen k.obj.ptr (some n) (DbiOption.toFlags options)) w.native).1.rc = 0 →
    (w.native.views k.obj.ptr).numdbs ≤ i →
    name ≠ some n ∧ (w.native.find? k.obj.ptr n = none → w.native.slotFor k.obj.ptr ≠ i)

/-- The transactions that databases are opened in have begun since there were `k₀`. -/
def OpensSince (k₀ : ℕ) (w : World Dbis) (op : Op) : Prop :=
  ∀ t name' options, op = .dbiOpen t name' options → ∀ a ∈ Txn.path w t, k₀ ≤ a

end Dbi

namespace Txn

variable {p : Platform} {reg : Registry Ptr} {s : Dbis} {t : Txn} {name : Option DbName}
  {config : DbiConfig} {options : List DbiOption} {cb : Callback Ptr} {dbi : Dbi}

/-- Setting the comparers succeeds if the transaction may use the slot, which has the key
    comparer then. -/
theorem configure_of_ok {σ : Session Call Reply Dbis}
    (hkey : callback p reg config.keyComparer = .ok (some cb))
    (hh : σ.native.handles.status t.ptr ≠ .dangling)
    (hok : ((configure Dbis.library p reg dbi config).exec (t, σ)).1 = .ok ()) :
    σ.native.sees t.ptr dbi.ptr ∧ ∃ x : DbSlot, x.cmp = some (.callback cb) ∧
      x.name = (σ.native.slots dbi.ptr).name ∧ ∃ σ',
        (configure Dbis.library p reg dbi config).exec (t, σ) = (.ok (), t, σ') ∧
          σ'.native = σ.native.setSlot dbi.ptr x := by
  simp only [configure, Eff.exec_bind, Eff.exec_self, exec_setComparer, hkey] at hok ⊢
  by_cases hsees : σ.native.sees t.ptr dbi.ptr
  · refine ⟨hsees, ?_⟩
    have hself : ∀ x, (σ.native.setSlot dbi.ptr x).sees t.ptr dbi.ptr := fun _ => hsees
    have hh' : ∀ x, (σ.native.setSlot dbi.ptr x).handles.status t.ptr ≠ .dangling := fun _ => hh
    cases hdup : callback p reg config.dupComparer with
    | error e =>
      simp [exec_setComparer, hdup, Dbis.answer, Dbis.setCompare, Dbis.install, hh, hsees] at hok
    | ok dup =>
      cases dup with
      | none =>
        refine ⟨{ σ.native.slots dbi.ptr with cmp := some (.callback cb) }, rfl, rfl, ?_⟩
        simp [exec_setComparer, hdup, Dbis.answer, Dbis.setCompare, Dbis.install, hh, hsees]
      | some cb' =>
        refine ⟨{ σ.native.slots dbi.ptr with
          cmp := some (.callback cb), dcmp := some (.callback cb') }, rfl, rfl, ?_⟩
        simp [exec_setComparer, hdup, Dbis.answer, Dbis.setCompare, Dbis.setDupsort, Dbis.install,
          hh, hsees, hself, hh']
  · simp [Dbis.answer, Dbis.setCompare, Dbis.install, Dbis.refuse, hh, hsees] at hok

/-- The database is open in a slot of the transaction's, with the comparer. -/
theorem observe_dbiOpenWith_of_ok (hkey : callback p reg config.keyComparer = .ok (some cb))
    (hh : (s.dbiOpen t.ptr name (DbiOption.toFlags options)).2.handles.status t.ptr ≠ .dangling)
    (hok : ((dbiOpenWith Dbis.library p reg name config options).observe t s).1.outcome = .ok dbi) :
    let a := s.dbiOpen t.ptr name (DbiOption.toFlags options)
    a.1.rc = 0 ∧ dbi.ptr = a.1.ptr ∧ a.2.sees t.ptr a.1.ptr ∧
      ∃ x : DbSlot, x.cmp = some (.callback cb) ∧ x.name = (a.2.slots a.1.ptr).name ∧
        ((dbiOpenWith Dbis.library p reg name config options).observe t s).2 =
          (t, a.2.setSlot a.1.ptr x) := by
  by_cases hrc : (s.dbiOpen t.ptr name (DbiOption.toFlags options)).1.rc = 0
  · simp only [Eff.observe, dbiOpenWith, Dbi.init, Eff.exec_bind, Eff.exec_self, Eff.exec_call,
      exec_check, Dbis.reply_library, Dbis.answer, hrc, if_true, Eff.exec_pure] at hok ⊢
    generalize hσ : (⟨s, []⟩ : Session Call Reply Dbis).after Dbis.library.toHandler
      (.mdbDbiOpen t.ptr name (DbiOption.toFlags options)) = σ at hok ⊢
    have hnative : σ.native = (s.dbiOpen t.ptr name (DbiOption.toFlags options)).2 := hσ ▸ rfl
    rw [← hnative] at hh ⊢
    -- `configure` sets the comparer, or throws
    cases hx : (configure Dbis.library p reg { ptr := _ } config).exec (t, σ) with
    | mk o s' =>
      rw [hx] at hok
      cases o with
      | error e => cases hok
      | ok u =>
        cases hok
        have hdone := configure_of_ok hkey hh (congrArg Prod.fst hx)
        obtain ⟨hsees, x, hcmp, hname, σ', hexec, hslot⟩ := hdone
        obtain rfl := (Prod.mk.inj (hx.symm.trans hexec)).2
        exact ⟨trivial, rfl, hsees, x, hcmp, hname, congrArg (Prod.mk t) hslot⟩
  · simp [Eff.observe, dbiOpenWith, Dbi.init, Dbis.answer, hrc] at hok

end Txn

namespace Dbi

open World

variable {p : Platform} {reg : Registry Ptr} {w w' : World Dbis} {op : Op} {name : Option DbName}
  {i h : Ptr} {cb : Callback Ptr} {chain : List Ptr} {k₀ : ℕ}

/-! ## The calls of a step -/

/-- No method but those of the environment closes it. -/
theorem ne_close_of_callOf {c : Call} (hc : c ∈ callOf p w op) (e : Ptr) : c ≠ .mdbEnvClose e := by
  intro hclose
  cases made_of_callOf hc
  case life op _ _ hc =>
    subst hclose
    cases op <;> obtain ⟨-, ⟨⟩⟩ := Option.ite_none_right_eq_some.1 hc
  case access m _ _ _ _ | dbi m _ _ _ _ | cursor m _ _ => cases m <;> cases hclose
  all_goals cases hclose

/-- LMDB opens the unnamed database if the transaction is live, and nothing fails. -/
theorem rc_dbiOpen_none (s : Dbis) (options : List DbiOption)
    (hh : s.handles.status h ≠ .dangling) :
    (s.dbiOpen h none (DbiOption.toFlags options)).1.rc = 0 ↔
      s.Live h ∧ s.handles.result.rc = 0 := by
  have hvalid : ¬DbiOption.toFlags options &&& ~~~validFlags ≠ 0 := by
    rw [DbiOption.toFlags, ne_eq, not_not, orFlags_and_eq_zero]
    intro o _
    cases o <;> decide
  rw [Dbis.dbiOpen, if_neg hvalid, Dbis.Live]
  cases hstatus : s.handles.status h
  case dangling => exact absurd hstatus hh
  case active | reader =>
    by_cases hrc : s.handles.result.rc = 0
    · simp [hrc]
    · simp [hrc, Dbis.handled, Handles.request]
  case blocked | parked | idle => simp [Dbis.handled, Handles.dbiOpen, hstatus, Handles.refuse]

/-! ## Until the transaction is committed -/

/-- The database is open in the slot, and the transactions it was opened in are live. -/
def Held (name : Option DbName) (i : Ptr) (cb : Callback Ptr) (chain : List Ptr) (s : Dbis) :
    Prop :=
  Dbis.OpenAs name i cb s ∧ ∃ a, Dbis.Pinned chain a i s

/-- What a step does to LMDB. -/
theorem native_perform (hop : Op.CallsOnce op) :
    (w.perform Dbis.library p op).2.native =
      (callOf p w op).elim w.native fun c => (Dbis.answer c w.native).2 := by
  have hcalls : Calls Dbis.library w (callOf p w op) (w.perform Dbis.library p op) :=
    calls_perform hop
  exact hcalls.2

/-- The methods that open databases are `dbiOpen`. -/
theorem exists_dbiOpen_of_callOf {flags : UInt32}
    (hc : .mdbDbiOpen h name flags ∈ callOf p w op) : ∃ t options k,
      op = .dbiOpen t name options ∧ w.txns[t]? = some k ∧ k.obj.ptr = h ∧
        DbiOption.toFlags options = flags := by
  generalize heq : Call.mdbDbiOpen h name flags = c at hc
  cases made_of_callOf hc
  case dbiOpen t _ options k hk =>
    cases heq
    exact ⟨t, options, k, rfl, hk, rfl, rfl⟩
  case life op _ _ hc =>
    subst heq
    cases op <;> obtain ⟨-, ⟨⟩⟩ := Option.ite_none_right_eq_some.1 hc
  case access m _ _ _ _ | dbi m _ _ _ _ | cursor m _ _ => cases m <;> cases heq
  all_goals cases heq

/-- Neither calls nor the begin and end of transactions take the database out of the slot. -/
theorem openAs_perform (ho : Dbis.OpenAs name i cb w.native) (hs : w.native.Sound)
    (hclosed : w.native.handles.closed = false) (hop : Unclosed p i w op)
    (hreset : NoReset name i w op) :
    Dbis.OpenAs name i cb (w.perform Dbis.library p op).2.native := by
  rw [native_perform hop.once]
  cases hc : callOf p w op with
  | none => exact ho
  | some c =>
    by_cases hlife : c.IsLife
    · exact ho.living (hs.living hclosed hlife (ne_close_of_callOf hc)) (hop.closes c hc)
    · refine ho.answer hs hlife (hop.spared c hc) ?_ ?_
      · rintro h n flags rfl hh hrc hle
        obtain ⟨t, options, k, rfl, hk, rfl, rfl⟩ := exists_dbiOpen_of_callOf hc
        exact hreset.older t n options k rfl hk hh hrc hle
      · rintro h flags rfl hh hrc
        obtain ⟨t, options, k, rfl, hk, rfl, rfl⟩ := exists_dbiOpen_of_callOf hc
        have hplace := ho.place
        cases name with
        | none =>
          have hstatus := hop.opens t none options k rfl hk
          exact absurd ((rc_dbiOpen_none w.native options hstatus).1 hrc)
            (hreset.main rfl t options k rfl hk)
        | some n =>
          rintro rfl
          exact absurd hplace.1 (by decide)

/-- A step keeps the order exactly if it does not reset it, nor goes to another slot. -/
theorem keepsOrder_iff_of_openAs (ho : Dbis.OpenAs name i cb w.native) (hs : w.native.Sound)
    (hclosed : w.native.handles.closed = false) (hop : Unclosed p i w op) :
    KeepsOrder p name i cb w op ↔ NoReset name i w op := by
  have hcall {t : ℕ} {name' : Option DbName} {options : List DbiOption} {k : TxnEntry}
      (hk : w.txns[t]? = some k) : callOf p w (.dbiOpen t name' options) =
        some (.mdbDbiOpen k.obj.ptr name' (DbiOption.toFlags options)) := by
    rw [callOf, hk, Option.map_some]
  constructor
  · refine fun h => ⟨?_, ?_⟩
    · rintro rfl t options k rfl hk hopen
      have hstatus := hop.opens t none options k rfl hk
      have hrc := (rc_dbiOpen_none w.native options hstatus).2 hopen
      have horder := h.order
      have hplace : i = mainDbi := ho.place
      rw [native_perform hop.once, hcall hk, Option.elim_some, Dbis.keyOrder, hplace] at horder
      exact Dbis.cmp_opening (Dbis.dbiOpen_opening _ none _) hstatus hrc cb horder
    · rintro t n options k rfl hk hh hrc hle
      have horder := h.order
      rw [native_perform hop.once, hcall hk, Option.elim_some] at horder
      refine Dbis.older_opening (Dbis.dbiOpen_opening _ (some n) _) hh hrc hle ?_ horder
      rintro rfl
      refine h.slot t options { ptr := _ } rfl ?_
      have hrc' : (w.native.dbiOpen k.obj.ptr (some n) (DbiOption.toFlags options)).1.rc = 0 := hrc
      simp only [perform_dbiOpen _ _ hk, Txn.openResult, Dbis.reply_library, Dbis.answer, hrc',
        if_true, Eff.map_ok]
  · intro hreset
    refine ⟨(openAs_perform ho hs hclosed hop hreset).cmp, ?_⟩
    rintro t options d rfl hok
    cases hk : w.txns[t]? with
    | none => simp [perform, hk, skip] at hok
    | some k =>
      have hstatus := hop.opens t name options k rfl hk
      have hopening :=
        Dbis.dbiOpen_opening (s := w.native) k.obj.ptr name (DbiOption.toFlags options)
      simp only [perform_dbiOpen _ _ hk, Txn.openResult, Dbis.reply_library, Dbis.answer] at hok
      by_cases hrc : (w.native.dbiOpen k.obj.ptr name (DbiOption.toFlags options)).1.rc = 0
      · simp only [hrc, if_true, Eff.map_ok] at hok
        cases hok
        refine ho.ptr_opening hopening hstatus hrc fun hh => ?_
        by_contra hle
        have hle := Nat.not_lt.1 hle
        cases name with
        | none =>
          have hcore := hs.coreDbs_le hh
          rw [show i = mainDbi from ho.place] at hle
          exact absurd (hcore.trans hle) (by decide)
        | some n => exact (hreset.older t n options k rfl hk hh hrc hle).1 rfl
      · simp only [hrc, if_false, Eff.map_error] at hok
        cases hok

theorem Held.keeps_iff (hw : Held name i cb chain w.native) (hop : Unclosed p i w op) :
    KeepsOrder p name i cb w op ↔ NoReset name i w op := by
  obtain ⟨ho, a, hp⟩ := hw
  exact keepsOrder_iff_of_openAs ho hp.sound hp.closed hop

theorem Held.next (hw : Held name i cb chain w.native) (hop : Pending p i chain w op)
    (hreset : NoReset name i w op) :
    Held name i cb chain (w.perform Dbis.library p op).2.native := by
  obtain ⟨ho, a, hp⟩ := hw
  refine ⟨openAs_perform ho hp.sound hp.closed hop.toUnclosed hreset, ?_⟩
  rw [native_perform hop.once]
  cases hc : callOf p w op with
  | none => exact ⟨a, hp⟩
  | some c =>
    by_cases hlife : c.IsLife
    · exact hp.living (hp.sound.living hp.closed hlife (ne_close_of_callOf hc))
        (hp.sound.answer c) (hop.ends c hc) (hop.commits c hc)
    · exact ⟨a, hp.steady (Dbis.steady_answer hlife)⟩

/-! ## From then on -/

/-- The handle is that of a transaction begun since, and so are those it is nested in. -/
def Since (k₀ : ℕ) (w : World Dbis) (y : Ptr) : Prop :=
  ∃ t lineage, w.origins[t]? = some (lineage, y) ∧ ∀ a ∈ lineage ++ [t], k₀ ≤ a

/-- The database is open in the slot, and all transactions begun since count it. -/
structure Settled (name : Option DbName) (i : Ptr) (cb : Callback Ptr) (k₀ : ℕ) (w : World Dbis) :
    Prop where
  openAs : Dbis.OpenAs name i cb w.native
  kept : Dbis.Kept (Since k₀ w) i w.native
  length : k₀ ≤ w.txns.length

variable {t : ℕ} {k : TxnEntry}

theorem since_of_path (hk : w.txns[t]? = some k) (hpath : ∀ a ∈ Txn.path w t, k₀ ≤ a) :
    Since k₀ w k.obj.ptr := by
  refine ⟨t, k.lineage, getElem?_origins hk, fun a ha => hpath a ?_⟩
  rwa [Txn.path, hk, Option.elim_some]

/-- A transaction that begins is the only new one. -/
theorem since_append {o : List ℕ × Ptr} (horigins : w'.origins = w.origins ++ [o]) {y : Ptr}
    (hy : Since k₀ w' y) : Since k₀ w y ∨ y = o.2 ∧ ∀ a ∈ o.1, k₀ ≤ a := by
  obtain ⟨t, lineage, ht, hpath⟩ := hy
  rw [horigins] at ht
  by_cases hlt : t < w.origins.length
  · rw [List.getElem?_append_left hlt] at ht
    exact .inl ⟨t, lineage, ht, hpath⟩
  · rw [List.getElem?_append_right (Nat.not_lt.1 hlt)] at ht
    obtain rfl := List.mem_singleton.1 (List.mem_of_getElem? ht)
    exact .inr ⟨rfl, fun a ha => hpath a (List.mem_append_left _ ha)⟩

/-- The transactions begun since count the slot after a step, and those it begins. -/
theorem Settled.kept_perform (hw : Settled name i cb k₀ w) (hop : Unclosed p i w op) :
    Dbis.Kept (Since k₀ (w.perform Dbis.library p op).2) i
      (w.perform Dbis.library p op).2.native := by
  have hk := hw.kept
  have hkept : Dbis.Kept (Since k₀ w) i (w.perform Dbis.library p op).2.native := by
    rw [native_perform hop.once]
    cases hc : callOf p w op with
    | none => exact hk
    | some c =>
      by_cases hlife : c.IsLife
      · exact hk.living (hk.sound.living hk.closed hlife (ne_close_of_callOf hc))
          (hk.sound.answer c)
      · exact hk.steady (Dbis.steady_answer hlife)
  rcases origins_perform Dbis.library p w hop.once with
    hsame | ⟨o, hbegins, happend⟩
  · exact hkept.mono fun y ⟨t, lineage, ht, hpath⟩ => ⟨t, lineage, hsame ▸ ht, hpath⟩
  -- a transaction begins
  have hnew {e : Ptr} {parent : Option Ptr} {flags : UInt32}
      (hc : callOf p w op = some (.mdbTxnBegin e parent flags))
      (hrc : (Dbis.answer (.mdbTxnBegin e parent flags) w.native).1.rc = 0)
      (hparent : ∀ y ∈ parent, Since k₀ w y ∧ w.native.handles.status y ≠ .dangling) :
      Dbis.Kept (fun y => Since k₀ w y ∨
          y = (Dbis.answer (.mdbTxnBegin e parent flags) w.native).1.ptr) i
        (w.perform Dbis.library p op).2.native := by
    rw [native_perform hop.once, hc]
    exact hk.begun (Dbis.txnBegin_living hk.closed e parent flags)
      (hk.sound.answer (.mdbTxnBegin e parent flags)) hrc hparent
  cases hbegins with
  | beginTxn hc hrc =>
    cases made_of_callOf hc
    exact (hnew hc hrc nofun).mono fun y hy => (since_append happend hy).imp_right And.left
  | @begin t options k _ hk' hc hrc =>
    have hpath : Txn.path w t = k.lineage ++ [t] := by rw [Txn.path, hk', Option.elim_some]
    cases made_of_callOf hc
    rename_i k' hk''
    obtain rfl := Option.some.inj (hk'.symm.trans hk'')
    by_cases hsince : ∀ a ∈ Txn.path w t, k₀ ≤ a
    · refine (hnew hc hrc fun y hy => ?_).mono fun y hy =>
        (since_append happend hy).imp_right And.left
      obtain rfl := Option.some.inj hy
      exact ⟨since_of_path hk' hsince, hop.begins t options k rfl hk'⟩
    · exact hkept.mono fun y hy =>
        (since_append happend hy).resolve_right fun h => hsince (hpath ▸ h.2)

theorem Settled.next (hw : Settled name i cb k₀ w) (hop : Unclosed p i w op)
    (hreset : NoReset name i w op) : Settled name i cb k₀ (w.perform Dbis.library p op).2 := by
  refine ⟨openAs_perform hw.openAs hw.kept.sound hw.kept.closed hop hreset,
    hw.kept_perform hop, ?_⟩
  have hlength : w.origins.length ≤ (w.perform Dbis.library p op).2.origins.length := by
    rcases origins_perform Dbis.library p w hop.once with h | ⟨o, -, h⟩
    · rw [h]
    · simp [h]
  simp only [origins, List.length_map] at hlength
  exact hw.length.trans hlength

theorem Settled.keeps_iff (hw : Settled name i cb k₀ w) (hop : Unclosed p i w op) :
    KeepsOrder p name i cb w op ↔ NoReset name i w op :=
  keepsOrder_iff_of_openAs hw.openAs hw.kept.sound hw.kept.closed hop

/-- The transactions begun since leave the order of a named database as it is. -/
theorem Settled.noReset_of_since (hw : Settled name i cb k₀ w) (hname : name ≠ none)
    (hsince : OpensSince k₀ w op) : NoReset name i w op := by
  refine ⟨fun hnone => absurd hnone hname, ?_⟩
  rintro t n options k rfl hk hh - hle
  have hlt := hw.kept.lt_numdbs (since_of_path hk (hsince t (some n) options rfl)) hh
  exact absurd hle hlt.not_ge

/-! ## Over runs -/

/-- The outermost transaction being committed, the database is settled in its slot. -/
theorem settled_of_committed {T : ℕ} {o : List ℕ × Ptr} (hw : Held name i cb chain w.native)
    (hT : w.origins[T]? = some o) (hhead : chain.head? = some o.2)
    (hok : (w.perform Dbis.library p (.life T .commit)).1.outcome = .ok .unit)
    (hw' : (w.perform Dbis.library p (.life T .commit)).2 = w') :
    Settled name i cb w'.txns.length w' := by
  obtain ⟨ho, a, hp⟩ := hw
  subst hw'
  obtain ⟨K, hK, rfl⟩ : ∃ K, w.txns[T]? = some K ∧ (K.lineage, K.obj.ptr) = o := by
    rw [origins, List.getElem?_map] at hT
    exact Option.map_eq_some_iff.1 hT
  -- the transaction was ready, and LMDB committed it
  obtain ⟨hready, hrc⟩ : K.obj.state = .ready ∧
      (Dbis.answer (.mdbTxnCommit K.obj.ptr) w.native).1.rc = 0 := by
    by_cases hready : K.obj.state = .ready
    · refine ⟨hready, ?_⟩
      by_contra hrc
      simp [perform_life _ _ hK, Txn.Lifecycle.call, Txn.Lifecycle.result, hready, hrc] at hok
    · simp [perform_life _ _ hK, Txn.Lifecycle.call, Txn.Lifecycle.result, hready] at hok
  have hc : callOf p w (.life T .commit) = some (.mdbTxnCommit K.obj.ptr) := by
    simp [callOf, hK, Txn.Lifecycle.call, hready]
  have hr : Dbis.Living w.native (.mdbTxnCommit K.obj.ptr) (w.native.txnCommit K.obj.ptr) :=
    Dbis.txnCommit_living hp.sound hp.closed
  have hsound := hp.sound.answer (.mdbTxnCommit K.obj.ptr)
  have honce : Op.CallsOnce (.life T .commit) := trivial
  have hnative := native_perform (p := p) (w := w) honce
  rw [hc, Option.elim_some] at hnative
  refine ⟨?_, ?_, Nat.le_refl _⟩
  · rw [hnative]
    refine ho.living hr fun h habandon => ?_
    rcases habandon with ⟨-, hne⟩ | heq | heq
    · exact absurd hrc hne
    · cases heq
    · cases heq
  · rw [hnative]
    refine (hp.kept hr hsound hrc hhead).mono fun y hy => ?_
    -- no transaction has begun since
    obtain ⟨t, lineage, ht, hpath⟩ := hy
    have hlt := (List.getElem?_eq_some_iff.1 ht).1
    simp only [origins, List.length_map] at hlt
    exact Nat.not_le.2 hlt (hpath t (List.mem_append_right _ (List.mem_singleton_self t)))

/-- Opening a database with a comparer. -/
theorem held_of_opened {t : ℕ} {k : TxnEntry} {c : ValComparer} {config : DbiConfig}
    {options : List DbiOption} {d : Dbi} (hs : w.native.Sound) (hk : w.txns[t]? = some k)
    (hstatus : w.native.handles.status k.obj.ptr ≠ .dangling)
    (hc : config.keyComparer = some c) (hcb : reg.getComparerCallback p c = .ok cb)
    (hok : (w.dbiOpenWith Dbis.library p reg t name config options).1.outcome = .ok (.dbi d))
    (hw' : (w.dbiOpenWith Dbis.library p reg t name config options).2 = w') :
    Held name d.ptr cb (w.native.nest k.obj.ptr) w'.native ∧ w'.origins = w.origins := by
  have hkey : Txn.callback p reg config.keyComparer = .ok (some cb) := by
    rw [hc, Txn.callback, hcb]
    rfl
  have hopening := Dbis.dbiOpen_opening (s := w.native) k.obj.ptr name (DbiOption.toFlags options)
  have hsteady := Dbis.steady_opening _ hopening
  simp only [World.dbiOpenWith, hk, Eff.observe_map] at hok hw'
  obtain ⟨dbi, hdbi, heq⟩ : ∃ dbi, ((Txn.dbiOpenWith Dbis.library p reg name config
      options).observe k.obj w.native).1.outcome = .ok dbi ∧ dbi = d := by
    cases hout : ((Txn.dbiOpenWith Dbis.library p reg name config options).observe k.obj
        w.native).1.outcome with
    | error e =>
      rw [hout] at hok
      cases hok
    | ok dbi =>
      rw [hout] at hok
      cases hok
      exact ⟨_, rfl, rfl⟩
  subst heq
  -- the slot LMDB gave is given the comparer, and nothing else changes
  obtain ⟨hrc, hptr, hsees, x, hcmp, hname, hafter⟩ := Txn.observe_dbiOpenWith_of_ok hkey
    ((hsteady.handles.status k.obj.ptr).trans_ne hstatus) hdbi
  rw [hafter] at hw'
  have hlt := (of_decide_eq_true hsees).1
  subst hw'
  refine ⟨?_, ?_⟩
  · rw [hptr]
    refine ⟨Dbis.openAs_opening hs hopening hstatus hrc hcmp hname, k.obj.ptr, ?_⟩
    exact (Dbis.pinned_opening hs hopening hstatus hrc hlt).steady (Dbis.steady_setSlot _)
  · simp only [origins]
    rw [set_getElem?_self hk]

/-- For every environment that anything may have been done to, every transaction of it in
    which a database is opened with a comparer, every run until that is committed with all it
    is nested in, and every run from then on. Transactions begun after the commit keep the
    order of a named database. -/
theorem keepsOrder_iff (p : Platform) (reg : Registry Ptr) (results : ℕ → Reply) (maxdbs : ℕ)
    (catalog : Catalog) (mainFlags : UInt32) (rewritten : DbName → Bool) (calls : List Call)
    {w w₁ w₂ w₃ : World Dbis}
    (hw : w.native = (Dbis.init results maxdbs catalog mainFlags rewritten).after calls)
    {t : ℕ} {k : TxnEntry} (hk : w.txns[t]? = some k)
    (hstatus : w.native.handles.status k.obj.ptr ≠ .dangling)
    {name : Option DbName} {config : DbiConfig} {options : List DbiOption} {c : ValComparer}
    {cb : Callback Ptr} (hc : config.keyComparer = some c)
    (hcb : reg.getComparerCallback p c = .ok cb) {d : Dbi}
    (hopen : (w.dbiOpenWith Dbis.library p reg t name config options).1.outcome = .ok (.dbi d))
    (hw₁ : (w.dbiOpenWith Dbis.library p reg t name config options).2 = w₁)
    {T : ℕ} {K : TxnEntry} (hK : w.txns[T]? = some K)
    (hroot : (w.native.nest k.obj.ptr).head? = some K.obj.ptr) {meanwhile : List Op}
    (hmeanwhile : (machine Dbis.library p).Along (Pending p d.ptr (w.native.nest k.obj.ptr)) w₁
      meanwhile)
    (hw₂ : (machine Dbis.library p).run w₁ meanwhile = w₂)
    (hcommit : (w₂.perform Dbis.library p (.life T .commit)).1.outcome = .ok .unit)
    (hw₃ : (w₂.perform Dbis.library p (.life T .commit)).2 = w₃) {later : List Op}
    (hlater : (machine Dbis.library p).Along (Unclosed p d.ptr) w₃ later) :
    ((machine Dbis.library p).Along (KeepsOrder p name d.ptr cb) w₁ meanwhile ↔
        (machine Dbis.library p).Along (NoReset name d.ptr) w₁ meanwhile) ∧
      ((machine Dbis.library p).Along (NoReset name d.ptr) w₁ meanwhile →
        w₃.native.keyOrder d.ptr = some (.callback cb) ∧
          ((machine Dbis.library p).Along (KeepsOrder p name d.ptr cb) w₃ later ↔
            (machine Dbis.library p).Along (NoReset name d.ptr) w₃ later) ∧
          (name ≠ none → (machine Dbis.library p).Along (OpensSince w₃.txns.length) w₃ later →
            (machine Dbis.library p).Along (NoReset name d.ptr) w₃ later)) := by
  have hs : w.native.Sound := hw ▸ Dbis.sound_after results maxdbs catalog mainFlags rewritten calls
  obtain ⟨hheld, horigins⟩ := held_of_opened hs hk hstatus hc hcb hopen hw₁
  -- until the transaction is committed
  have hiff := Machine.along_iff_of_inv (M := machine Dbis.library p)
    (P := fun w' op => Pending p d.ptr (w.native.nest k.obj.ptr) w' op ∧
      KeepsOrder p name d.ptr cb w' op)
    (Q := fun w' op => Pending p d.ptr (w.native.nest k.obj.ptr) w' op ∧
      NoReset name d.ptr w' op)
    (I := fun w' => Held name d.ptr cb (w.native.nest k.obj.ptr) w'.native)
    (fun _ _ hw => and_congr_right fun hop => hw.keeps_iff hop.toUnclosed)
    (fun _ _ hw hq => hw.next hq.1 hq.2) meanwhile hheld
  rw [Machine.along_and, Machine.along_and] at hiff
  refine ⟨⟨fun h => (hiff.1 ⟨hmeanwhile, h⟩).2, fun h => (hiff.2 ⟨hmeanwhile, h⟩).2⟩,
    fun hreset => ?_⟩
  have hmid : Held name d.ptr cb (w.native.nest k.obj.ptr) w₂.native ∧
      w₂.origins[T]? = some (K.lineage, K.obj.ptr) := by
    subst hw₂
    refine Machine.run_of_inv (I := fun w' =>
      Held name d.ptr cb (w.native.nest k.obj.ptr) w'.native ∧
      w'.origins[T]? = some (K.lineage, K.obj.ptr))
      (fun w' op hI hop => ⟨hI.1.next hop.1 hop.2, ?_⟩)
      ⟨hheld, horigins ▸ getElem?_origins hK⟩ (Machine.along_and.2 ⟨hmeanwhile, hreset⟩)
    rw [next_machine]
    rcases origins_perform Dbis.library p w' hop.1.once with h | ⟨o, -, h⟩
    · rw [h]
      exact hI.2
    · rw [h, List.getElem?_append_left (List.getElem?_eq_some_iff.1 hI.2).1]
      exact hI.2
  have hsettled := settled_of_committed hmid.1 hmid.2 hroot hcommit hw₃
  -- from then on
  have hiff := Machine.along_iff_of_inv (M := machine Dbis.library p)
    (P := fun w op => Unclosed p d.ptr w op ∧ KeepsOrder p name d.ptr cb w op)
    (Q := fun w op => Unclosed p d.ptr w op ∧ NoReset name d.ptr w op)
    (fun _ _ hw => and_congr_right fun hop => hw.keeps_iff hop)
    (fun _ _ hw hq => hw.next hq.1 hq.2) later hsettled
  rw [Machine.along_and, Machine.along_and] at hiff
  refine ⟨hsettled.openAs.cmp, ⟨fun h => (hiff.1 ⟨hlater, h⟩).2, fun h => (hiff.2 ⟨hlater, h⟩).2⟩,
    fun hname hsince => ?_⟩
  exact Machine.along_of_inv (fun w op hw hop => hw.noReset_of_since hname hop.2)
    (fun w op hw hop => hw.next hop.1 (hw.noReset_of_since hname hop.2)) hsettled
    (Machine.along_and.2 ⟨hlater, hsince⟩)

/-- An environment with a write transaction. -/
def writing : World Dbis where
  env := { ptr := 1, mapSize := 0, isOpened := true }
  txns := [{ obj := { ptr := meTxn0 }, lineage := [], readOnly := false }]
  native := (Dbis.init (fun _ => {}) 12 (fun _ => none) 0 fun _ => false).after
    [.mdbTxnBegin 1 none 0]

/-- Opening a database with a comparer in it. -/
def opening (name : Option DbName) (options : List DbiOption) : Seen Value × World Dbis :=
  writing.dbiOpenWith Dbis.library .jvm {} 0 name { keyComparer := some .reverseBitwise } options

/-- It after that, and a commit. -/
def written (name : Option DbName) (options : List DbiOption) : World Dbis :=
  ((opening name options).2.perform Dbis.library .jvm (.life 0 .commit)).2

/-- A named database, opened again. -/
theorem keepsOrder_named :
    (machine Dbis.library .jvm).Along
      (KeepsOrder .jvm (some .a) 2 (.standard .reverseBitwise rfl)) (written (some .a) [.create])
      [.env (.beginTxn []), .dbiOpen 1 (some .a) []] := by
  have hlater : (machine Dbis.library .jvm).Along (Unclosed .jvm 2) (written (some .a) [.create])
      [.env (.beginTxn []), .dbiOpen 1 (some .a) []] := by
    refine ⟨⟨trivial, ?_, ?_, fun _ _ _ _ => nofun, fun _ _ _ => nofun⟩,
      ⟨trivial, ?_, ?_, ?_, fun _ _ _ => nofun⟩, trivial⟩
    · intro c hc
      cases made_of_callOf hc
      exact not_false
    · intro c hc
      cases made_of_callOf hc
      rintro h (⟨⟨⟩, -⟩ | ⟨⟨⟩⟩ | ⟨⟨⟩⟩)
    · intro c hc
      cases made_of_callOf hc
      exact not_false
    · intro c hc
      cases made_of_callOf hc
      rintro h (⟨⟨⟩, -⟩ | ⟨⟨⟩⟩ | ⟨⟨⟩⟩)
    · rintro t name options k ⟨⟩ hk
      have hk' : ((machine Dbis.library .jvm).next (written (some .a) [.create])
        (.env (.beginTxn []))).txns[1]? =
          some { obj := { ptr := meTxn0 }, lineage := [], readOnly := false } := rfl
      obtain rfl := Option.some.inj (hk'.symm.trans hk)
      decide
  have hk : writing.txns[0]? =
      some { obj := { ptr := meTxn0 }, lineage := [], readOnly := false } := rfl
  have hopen : (opening (some .a) [.create]).1.outcome = .ok (.dbi { ptr := 2 }) := rfl
  have hmeanwhile : (machine Dbis.library .jvm).Along
      (Pending .jvm 2 (writing.native.nest meTxn0)) (opening (some .a) [.create]).2 [] := trivial
  have hran : (machine Dbis.library .jvm).run (opening (some .a) [.create]).2 [] =
      (opening (some .a) [.create]).2 := rfl
  have hcommit : ((opening (some .a) [.create]).2.perform Dbis.library .jvm
      (.life 0 .commit)).1.outcome = .ok .unit := rfl
  have hsince : (machine Dbis.library .jvm).Along (OpensSince 1) (written (some .a) [.create])
      [.env (.beginTxn []), .dbiOpen 1 (some .a) []] := by
    refine ⟨fun _ _ _ => nofun, ?_, trivial⟩
    rintro t name options ⟨⟩
    decide
  obtain ⟨-, hiff, hnamed⟩ := (keepsOrder_iff .jvm {} (fun _ => {}) 12 (fun _ => none) 0
    (fun _ => false) [.mdbTxnBegin 1 none 0] rfl hk (by decide) rfl rfl hopen rfl hk rfl
    hmeanwhile hran hcommit rfl hlater).2 trivial
  exact hiff.2 (hnamed (by simp) hsince)

/-- The unnamed database, opened again; and a named one, opened again in a read-only transaction
    that was begun before. -/
theorem not_keepsOrder_main :
    let cb : Callback Ptr := .standard .reverseBitwise rfl
    let older : World Dbis := { writing with
      txns := writing.txns ++ [{ obj := { ptr := 1 }, lineage := [], readOnly := true }]
      native := (Dbis.init (fun _ => {}) 12 (fun _ => some 0) 0 fun _ => false).after
        [.mdbTxnBegin 1 none mdbRdonly, .mdbTxnBegin 1 none 0] }
    let config : DbiConfig := { keyComparer := some .reverseBitwise }
    let opened := (older.dbiOpenWith Dbis.library .jvm {} 0 (some .a) config []).2
    let committed := (opened.perform Dbis.library .jvm (.life 0 .commit)).2
    ((written none []).native.keyOrder mainDbi = some (.callback cb) ∧
      ¬(machine Dbis.library .jvm).Along (KeepsOrder .jvm none mainDbi cb) (written none [])
        [.env (.beginTxn []), .dbiOpen 1 none []]) ∧
      committed.native.keyOrder 2 = some (.callback cb) ∧
        ¬(machine Dbis.library .jvm).Along (KeepsOrder .jvm (some .a) 2 cb) committed
          [.dbiOpen 1 (some .a) []] := by
  refine ⟨⟨rfl, fun h => ?_⟩, rfl, fun h => ?_⟩
  · cases h.2.1.order
  · cases h.1.order

end Dbi

end KotlinLmdb
