import KotlinLmdb.Dbi.KeyOrder
import KotlinLmdb.Lmdb.Names

/-!
# Slots used again

Objects of the same database share its slot, but each knows only of its own `close`. When
LMDB closes the slot, because another object was closed, or the database was dropped, or the
transaction that opened it aborted, the object keeps the number of it. LMDB assigns the slot
to the next database opened, and from then on the object is one of that database: its
operations go there, and its `close` closes the slot (`Dbi.not_own_dropped`).

All is well as long as a slot stands for one name (`World.Stands`). That is kept by every
step but one that assigns a slot something still stands for under another name
(`Dbi.own_of_unclaimed`).
-/

namespace KotlinLmdb

namespace World

variable {N : Type} {lib : Library N} {p : Platform}

/-- The database handle a method is called on, if it is one that uses the database. -/
def Op.user : Op → Option ℕ
  | .access _ d _ | .dbi d _ _ => some d
  | _ => none

/-- The database handles there are after a step: those from before, which may be closed since,
    and one that was opened. -/
theorem mem_dbis_perform {w : World N} {op : Op} {e : DbiEntry}
    (he : e ∈ (w.perform lib p op).2.dbis) :
    (∃ e' ∈ w.dbis, e'.obj.ptr = e.obj.ptr ∧ e'.name = e.name ∧
        (e.obj.closed = false → e'.obj.closed = false)) ∨
      ∃ t options k, op = .dbiOpen t e.name options ∧ w.txns[t]? = some k ∧
        let r := lib.reply (.mdbDbiOpen k.obj.ptr e.name (DbiOption.toFlags options)) w.native
        r.rc = 0 ∧ e.obj.ptr = r.ptr := by
  -- A step leaves the list as it is, puts an entry in its own place, closed or not, or appends
  -- one that was opened.
  have hsame {l : List DbiEntry} (hl : l = w.dbis) (he : e ∈ l) :
      ∃ e' ∈ w.dbis, e'.obj.ptr = e.obj.ptr ∧ e'.name = e.name ∧
        (e.obj.closed = false → e'.obj.closed = false) := ⟨e, hl ▸ he, rfl, rfl, id⟩
  have hset {d : ℕ} {e₀ e₁ : DbiEntry} (hd : w.dbis[d]? = some e₀) (he : e ∈ w.dbis.set d e₁)
      (hptr : e₀.obj.ptr = e₁.obj.ptr) (hname : e₀.name = e₁.name)
      (hclosed : e₁.obj.closed = false → e₀.obj.closed = false) :
      ∃ e' ∈ w.dbis, e'.obj.ptr = e.obj.ptr ∧ e'.name = e.name ∧
        (e.obj.closed = false → e'.obj.closed = false) := by
    rcases List.mem_or_eq_of_mem_set he with he | rfl
    · exact hsame rfl he
    · exact ⟨e₀, List.mem_of_getElem? hd, hptr, hname, hclosed⟩
  cases op with
  | dbiOpen t name options =>
    cases hk : w.txns[t]? with
    | none =>
      refine .inl (hsame ?_ he)
      simp [perform, hk, skip]
    | some k =>
      rw [perform_dbiOpen _ _ hk] at he
      rcases List.mem_append.1 he with he | he
      · exact .inl (hsame rfl he)
      · rw [Txn.openResult] at he
        split at he
        · rename_i hrc
          obtain rfl := List.mem_singleton.1 he
          exact .inr ⟨t, options, k, rfl, hk, hrc, rfl⟩
        · cases he
  | access t d m =>
    refine .inl ?_
    cases hk : w.txns[t]? with
    | none => exact hsame (by simp [perform, hk, skip]) he
    | some k =>
      cases hd : w.dbis[d]? with
      | none => exact hsame (by simp [perform, hk, hd, skip]) he
      | some e₀ =>
        rw [perform_access _ _ hk hd] at he
        exact hset hd he rfl rfl id
  | dbi d t m =>
    refine .inl ?_
    cases hd : w.dbis[d]? with
    | none => exact hsame (by simp [perform, hd, skip]) he
    | some e₀ =>
      cases hk : w.txns[t]? with
      | none => exact hsame (by simp [perform, hk, hd, skip]) he
      | some k =>
        rw [perform_dbi _ _ hd hk] at he
        exact hsame rfl he
  | closeDbi d =>
    refine .inl ?_
    cases hd : w.dbis[d]? with
    | none => exact hsame (by simp [perform, hd, skip]) he
    | some e₀ =>
      rw [perform_closeDbi _ _ hd] at he
      split at he
      · exact hsame rfl he
      · exact hset hd he rfl rfl (by simp)
  | env => exact .inl (hsame rfl he)
  | id | begin | life | cursor | renewCursor | closeCursor =>
    refine .inl (hsame ?_ he)
    rw [perform]
    split <;> rfl

/-- A slot stands for a name: it has the name in LMDB, or an object of that name has the
    slot, and was not closed. -/
inductive Stands (w : World Dbis) (i : Ptr) (n : DbName) : Prop
  | native (hn : w.native.Names i n)
  | object {e : DbiEntry} (he : e ∈ w.dbis) (hclosed : e.obj.closed = false)
      (hptr : e.obj.ptr = i) (hname : e.name = some n)

end World

namespace Dbi

open World

/-- A slot that the step assigns to a database is unclaimed: no object of another name has
    it that was not closed, and no other transaction has loaded the record of another name
    in it. Databases are not opened in freed transactions. -/
structure Unclaimed (w : World Dbis) (op : Op) : Prop where
  once : Op.CallsOnce op
  opens : ∀ t name options k, op = .dbiOpen t name options → w.txns[t]? = some k →
    w.native.handles.status k.obj.ptr ≠ .dangling
  objects : ∀ t n options k, op = .dbiOpen t (some n) options → w.txns[t]? = some k →
    w.native.find? k.obj.ptr n = none →
    (Dbis.answer (.mdbDbiOpen k.obj.ptr (some n) (DbiOption.toFlags options)) w.native).1.rc = 0 →
    ∀ e ∈ w.dbis, e.obj.closed = false → e.obj.ptr = w.native.slotFor k.obj.ptr → e.name = some n
  records : ∀ t n options k, op = .dbiOpen t (some n) options → w.txns[t]? = some k →
    w.native.find? k.obj.ptr n = none →
    (Dbis.answer (.mdbDbiOpen k.obj.ptr (some n) (DbiOption.toFlags options)) w.native).1.rc = 0 →
    ∀ x ≠ k.obj.ptr, ∀ m, (w.native.views x).known (w.native.slotFor k.obj.ptr) = .loaded m → m = n

variable (p : Platform) in
/-- The step goes to no other database than that of the object it is called on. -/
structure Own (w : World Dbis) (op : Op) : Prop where
  uses : ∀ d e, Op.user op = some d → w.dbis[d]? = some e → e.obj.closed = false →
    e.dropped = false → (∀ k ∈ w.txns[e.opener]?, k.aborted = false) →
    ∀ c ∈ callOf p w op, ∀ name ∈ w.native.databases c, name = e.name
  closes : ∀ d e, op = .closeDbi d → w.dbis[d]? = some e → ∀ i n,
    (w.native.slots i).name = some n →
    ((w.perform Dbis.library p op).2.native.slots i).name ≠ some n → e.name = some n

/-- Every slot stands for one name at most, and the unnamed database has its own. -/
structure OneName (w : World Dbis) : Prop where
  sound : w.native.Sound
  closed : w.native.handles.closed = false
  place : ∀ e ∈ w.dbis, e.obj.closed = false → e.name.elim (e.obj.ptr = mainDbi)
    fun _ => coreDbs ≤ e.obj.ptr
  one : ∀ i m n, Stands w i m → Stands w i n → m = n

variable {p : Platform} {w : World Dbis} {op : Op} {h i : Ptr} {n : DbName}

/-- What a call is about that a method makes. -/
theorem about_of_access {m : Txn.Access} {name : Option DbName} {s : Dbis}
    (hname : name ∈ s.databases (m.call h i)) : s.About i name := by
  cases m
  case drop | empty => exact Dbis.about_of_drop hname
  all_goals exact Dbis.about_of_target (Option.mem_toList.1 hname)

theorem about_of_method {m : Dbi.Method} {name : Option DbName} {s : Dbis}
    (hname : name ∈ s.databases (m.call h i)) : s.About i name := by
  cases m
  case compare | dupCompare => exact Dbis.about_of_slotOf (Option.mem_toList.1 hname)
  all_goals exact Dbis.about_of_target (Option.mem_toList.1 hname)

/-! ## What a step does to names -/

/-- A step gives slots no names, but if it opens a database. -/
theorem names_perform (hs : w.native.Sound) (hclosed : w.native.handles.closed = false)
    (hop : Op.CallsOnce op) (hopen : ∀ t name options k, op = .dbiOpen t name options →
      w.txns[t]? ≠ some k) (hn : (w.perform Dbis.library p op).2.native.Names i n) :
    w.native.Names i n := by
  rw [native_perform hop] at hn
  cases hc : callOf p w op with
  | none =>
    rw [hc] at hn
    exact hn
  | some c =>
    rw [hc, Option.elim_some] at hn
    refine hn.answer hs hclosed (ne_close_of_callOf hc) fun h name flags heq => ?_
    obtain ⟨t, options, k, hop, hk, -⟩ := exists_dbiOpen_of_callOf (heq ▸ hc)
    exact hopen t name options k hop hk

/-- Nor does it close the environment. -/
theorem closed_perform (hs : w.native.Sound) (hclosed : w.native.handles.closed = false)
    (hop : Op.CallsOnce op) : (w.perform Dbis.library p op).2.native.Sound ∧
      (w.perform Dbis.library p op).2.native.handles.closed = false := by
  rw [native_perform hop]
  cases hc : callOf p w op with
  | none => exact ⟨hs, hclosed⟩
  | some c =>
    refine ⟨hs.answer c, ?_⟩
    by_cases hlife : c.IsLife
    · exact (hs.living hclosed hlife (ne_close_of_callOf hc)).closed.trans hclosed
    · exact (Dbis.steady_answer hlife).handles.closed.trans hclosed

/-- So slots stand for what they stood for. -/
theorem OneName.of_not_open (hw : OneName w) (hop : Op.CallsOnce op)
    (hopen : ∀ t name options k, op = .dbiOpen t name options → w.txns[t]? ≠ some k) :
    OneName (w.perform Dbis.library p op).2 := by
  have hold {e : DbiEntry} (he : e ∈ (w.perform Dbis.library p op).2.dbis) :
      ∃ e' ∈ w.dbis, e'.obj.ptr = e.obj.ptr ∧ e'.name = e.name ∧
        (e.obj.closed = false → e'.obj.closed = false) :=
    (mem_dbis_perform he).resolve_right fun ⟨t, options, k, heq, hk, _⟩ =>
      hopen t e.name options k heq hk
  have hstands {i : Ptr} {n : DbName} (h : Stands (w.perform Dbis.library p op).2 i n) :
      Stands w i n := by
    cases h with
    | native hn => exact .native (names_perform hw.sound hw.closed hop hopen hn)
    | object he hclosed hptr hname =>
      obtain ⟨e', he', hptr', hname', hclosed'⟩ := hold he
      exact .object he' (hclosed' hclosed) (hptr'.trans hptr) (hname'.trans hname)
  refine ⟨(closed_perform hw.sound hw.closed hop).1, (closed_perform hw.sound hw.closed hop).2,
    fun e he hclosed => ?_, fun i m n hm hn => hw.one i m n (hstands hm) (hstands hn)⟩
  obtain ⟨e', he', hptr, hname, hclosed'⟩ := hold he
  rw [← hptr, ← hname]
  exact hw.place e' he' (hclosed' hclosed)

/-! ## Opening a database -/

/-- A slot is assigned, and stands for the name of its database. -/
theorem OneName.of_open (hw : OneName w) (hop : Unclaimed w op) {t : ℕ} {name : Option DbName}
    {options : List DbiOption} {k : TxnEntry} (heq : op = .dbiOpen t name options)
    (hk : w.txns[t]? = some k) : OneName (w.perform Dbis.library p op).2 := by
  obtain ⟨hsound, hclosed⟩ := closed_perform (p := p) hw.sound hw.closed hop.once
  have hlive := hop.opens t name options k heq hk
  have hnative := native_perform (p := p) hop.once (w := w)
  have hc : callOf p w op = some (.mdbDbiOpen k.obj.ptr name (DbiOption.toFlags options)) := by
    simp [heq, callOf, hk]
  rw [hc, Option.elim_some] at hnative
  have hopening := Dbis.dbiOpen_opening (s := w.native) k.obj.ptr name (DbiOption.toFlags options)
  -- an object there is now was there before, or has the slot LMDB gave
  have hold {e : DbiEntry} (he : e ∈ (w.perform Dbis.library p op).2.dbis)
      (hclosed : e.obj.closed = false) :
      (∃ e' ∈ w.dbis, e'.obj.ptr = e.obj.ptr ∧ e'.name = e.name ∧ e'.obj.closed = false) ∨
        e.name = name ∧ (w.native.dbiOpen k.obj.ptr name (DbiOption.toFlags options)).1.rc = 0 ∧
          e.obj.ptr = (w.native.dbiOpen k.obj.ptr name (DbiOption.toFlags options)).1.ptr := by
    rcases mem_dbis_perform he with ⟨e', he', hptr, hname, hclosed'⟩ |
      ⟨t', options', k', heq', hk', hrc, hptr⟩
    · exact .inl ⟨e', he', hptr, hname, hclosed' hclosed⟩
    · rw [heq] at heq'
      cases heq'
      obtain rfl := Option.some.inj (hk.symm.trans hk')
      exact .inr ⟨rfl, hrc, hptr⟩
  rcases hopening.finds_or_assigns hw.sound hlive with hfinds | ⟨n, rfl, hassigns⟩
  · -- no slot is assigned: what stands for a name did so before
    have hstands {i : Ptr} {n : DbName} (h : Stands (w.perform Dbis.library p op).2 i n) :
        Stands w i n := by
      cases h with
      | native hn => exact .native (hfinds.names i n (hnative ▸ hn))
      | object he hclosed hptr hname =>
        rcases hold he hclosed with ⟨e', he', hptr', hname', hclosed'⟩ | ⟨hname', hrc, hptr'⟩
        · exact .object he' hclosed' (hptr'.trans hptr) (hname'.trans hname)
        · rw [← hptr, hptr']
          have hfind := hfinds.named n (hname'.symm.trans hname) hrc
          exact .native (.slot (Dbis.of_find?_eq_some _ hfind).2.2)
    refine ⟨hsound, hclosed, fun e he hclosed => ?_,
      fun i m n hm hn => hw.one i m n (hstands hm) (hstands hn)⟩
    rcases hold he hclosed with ⟨e', he', hptr, hname, hclosed'⟩ | ⟨hname, hrc, hptr⟩
    · rw [← hptr, ← hname]
      exact hw.place e' he' hclosed'
    · rw [hname, hptr]
      cases name with
      | none => exact hfinds.main rfl hrc
      | some n => exact (Dbis.of_find?_eq_some _ (hfinds.named n rfl hrc)).1
  · have hobjects := hop.objects t n options k heq hk hassigns.unopened hassigns.rc
    have hrecords := hop.records t n options k heq hk hassigns.unopened hassigns.rc
    -- nothing stands for another name in the slot assigned, and the others are as before
    have hslot {m : DbName}
        (h : Stands (w.perform Dbis.library p op).2 (w.native.slotFor k.obj.ptr) m) : m = n := by
      cases h with
      | native hn =>
        rcases hassigns.slot m (hnative ▸ hn) with rfl | ⟨x, hx, hm⟩
        · rfl
        · exact hrecords x hx m hm
      | object he hclosed hptr hname =>
        rcases hold he hclosed with ⟨e', he', hptr', hname', hclosed'⟩ | ⟨hname', -, -⟩
        · have hname'' := hobjects e' he' hclosed' (hptr'.trans hptr)
          exact Option.some.inj ((hname'.trans hname).symm.trans hname'')
        · exact Option.some.inj (hname.symm.trans hname')
    have hothers {i : Ptr} {m : DbName} (hi : i ≠ w.native.slotFor k.obj.ptr)
        (h : Stands (w.perform Dbis.library p op).2 i m) : Stands w i m := by
      cases h with
      | native hn => exact .native (hassigns.others i hi m (hnative ▸ hn))
      | object he hclosed hptr hname =>
        rcases hold he hclosed with ⟨e', he', hptr', hname', hclosed'⟩ | ⟨-, -, hptr'⟩
        · exact .object he' hclosed' (hptr'.trans hptr) (hname'.trans hname)
        · exact absurd (hptr.symm.trans (hptr'.trans hassigns.ptr)) hi
    refine ⟨hsound, hclosed, fun e he hclosed => ?_, fun i l m hl hm => ?_⟩
    · rcases hold he hclosed with ⟨e', he', hptr, hname, hclosed'⟩ | ⟨hname, -, hptr⟩
      · rw [← hptr, ← hname]
        exact hw.place e' he' hclosed'
      · rw [hname, hptr, hassigns.ptr]
        exact hassigns.place
    · by_cases hi : i = w.native.slotFor k.obj.ptr
      · subst hi
        exact (hslot hl).trans (hslot hm).symm
      · exact hw.one i l m (hothers hi hl) (hothers hi hm)

theorem OneName.perform (hw : OneName w) (hop : Unclaimed w op) :
    OneName (w.perform Dbis.library p op).2 := by
  by_cases hopen : ∃ t name options k, op = .dbiOpen t name options ∧ w.txns[t]? = some k
  · obtain ⟨t, name, options, k, heq, hk⟩ := hopen
    exact hw.of_open hop heq hk
  · exact hw.of_not_open hop.once fun t name options k heq hk =>
      hopen ⟨t, name, options, k, heq, hk⟩

/-! ## Steps from there -/

/-- What is about the slot of an object is about the object's database. -/
theorem OneName.name_eq (hw : OneName w) {e : DbiEntry} (he : e ∈ w.dbis)
    (hclosed : e.obj.closed = false) {name : Option DbName}
    (hname : w.native.About e.obj.ptr name) : name = e.name := by
  have hplace := hw.place e he hclosed
  rw [Dbis.About] at hname
  cases hen : e.name with
  | none =>
    rw [hen, Option.elim_none] at hplace
    rwa [if_pos hplace] at hname
  | some n =>
    rw [hen] at hplace
    have hne : e.obj.ptr ≠ mainDbi := (Nat.lt_of_succ_le hplace).ne'
    rw [if_neg hne] at hname
    obtain ⟨m, rfl, hm⟩ := hname
    exact congrArg some (hw.one _ m n (.native hm) (.object he hclosed rfl hen))

theorem OneName.own (hw : OneName w) : Own p w op where
  uses d e hd he hclosed _ _ c hc name hname := by
    have hmem := List.mem_of_getElem? he
    refine hw.name_eq hmem hclosed ?_
    cases made_of_callOf hc
    case access m _ k e' hk he' =>
      obtain rfl := Option.some.inj hd
      obtain rfl := Option.some.inj (he.symm.trans he')
      exact about_of_access hname
    case dbi m k e' hk he' =>
      obtain rfl := Option.some.inj hd
      obtain rfl := Option.some.inj (he.symm.trans he')
      exact about_of_method hname
    all_goals cases hd
  closes d e heq he i n hslot hne := by
    subst heq
    rw [perform_closeDbi _ _ he] at hne
    split at hne
    · exact absurd hslot hne
    · rename_i hclosed
      have hclosed' : e.obj.closed = false := by simpa using hclosed
      have hmem := List.mem_of_getElem? he
      simp only [Dbis.next_library, Dbis.answer, Dbis.dbiClose] at hne
      split at hne
      · rename_i hcore
        -- only the slot of the object is cleared, and that stands for its name alone
        by_cases hi : i = e.obj.ptr
        · subst hi
          have habout : w.native.About e.obj.ptr (some n) := by
            rw [Dbis.About, if_neg (Nat.lt_of_succ_le hcore.1).ne']
            exact ⟨n, rfl, .slot hslot⟩
          exact (hw.name_eq hmem hclosed' habout).symm
        · rw [Dbis.slots_setSlot_of_ne hi] at hne
          exact absurd hslot hne
      · exact absurd hslot hne

section Claimed

variable (hs : w.native.Sound) {t : ℕ} {options : List DbiOption} {k : TxnEntry}
  (hk : w.txns[t]? = some k) (hh : w.native.handles.status k.obj.ptr ≠ .dangling)
  (hfind : w.native.find? k.obj.ptr n = none)
  (hrc : (w.native.dbiOpen k.obj.ptr (some n) (DbiOption.toFlags options)).1.rc = 0)

include hs hh hfind hrc

theorem assigns_dbiOpen : w.native.Assigns k.obj.ptr n
    (w.native.dbiOpen k.obj.ptr (some n) (DbiOption.toFlags options)) := by
  have hopening := Dbis.dbiOpen_opening (s := w.native) k.obj.ptr (some n)
    (DbiOption.toFlags options)
  rcases hopening.finds_or_assigns hs hh with hfinds | ⟨n', heq, hassigns⟩
  · exact nomatch hfind.symm.trans (hfinds.named n rfl hrc)
  · rwa [← Option.some.inj heq] at hassigns

include hk

/-- An object whose slot is assigned to another database closes it. -/
theorem not_own_closeDbi {d : ℕ} {e : DbiEntry} (he : w.dbis[d]? = some e)
    (hclosed : e.obj.closed = false) (hptr : e.obj.ptr = w.native.slotFor k.obj.ptr)
    (hname : e.name ≠ some n) (hmax : e.obj.ptr < w.native.maxdbs) :
    ¬Own p (w.perform Dbis.library p (.dbiOpen t (some n) options)).2 (.closeDbi d) := by
  have hassigns := assigns_dbiOpen hs hh hfind hrc
  have he' : (w.perform Dbis.library p (.dbiOpen t (some n) options)).2.dbis[d]? = some e := by
    rw [perform_dbiOpen _ _ hk, List.getElem?_append_left (List.getElem?_eq_some_iff.1 he).1]
    exact he
  intro hown
  refine hname (hown.closes d e rfl he' e.obj.ptr n ?_ ?_)
  · rw [perform_dbiOpen _ _ hk, hptr]
    exact hassigns.name
  · rw [perform_closeDbi _ _ he', if_neg (by simp [hclosed]), perform_dbiOpen _ _ hk]
    have hmax' : coreDbs ≤ e.obj.ptr ∧ e.obj.ptr <
        (w.native.dbiOpen k.obj.ptr (some n) (DbiOption.toFlags options)).2.maxdbs :=
      ⟨hptr ▸ hassigns.place, hassigns.maxdbs ▸ hmax⟩
    simp only [Dbis.next_library, Dbis.answer, Dbis.dbiClose, if_pos hmax', Dbis.slots_setSlot_self,
      DbSlot.name_close]
    simp

/-- A transaction that has loaded the record of another database in the slot goes there,
    through the object that was opened now. -/
theorem not_own_access (habort : k.aborted = false) {t' : ℕ} {k' : TxnEntry} {m : DbName}
    (hk' : w.txns[t']? = some k') (hne : k'.obj.ptr ≠ k.obj.ptr)
    (htarget : w.native.target k'.obj.ptr (w.native.slotFor k.obj.ptr) = some (some m))
    (hknown : (w.native.views k'.obj.ptr).known (w.native.slotFor k.obj.ptr) = .loaded m)
    (hname : m ≠ n) (key : Val) :
    ¬Own p (w.perform Dbis.library p (.dbiOpen t (some n) options)).2
      (.access t' w.dbis.length (.get key)) := by
  have hassigns := assigns_dbiOpen hs hh hfind hrc
  have hsteady := Dbis.steady_opening _
    (Dbis.dbiOpen_opening (s := w.native) k.obj.ptr (some n) (DbiOption.toFlags options))
  have htarget' : (w.native.dbiOpen k.obj.ptr (some n) (DbiOption.toFlags options)).2.target
      k'.obj.ptr (w.native.slotFor k.obj.ptr) = some (some m) := by
    rw [← htarget]
    simp only [Dbis.target, Dbis.sees, hsteady.handles.status, hassigns.views _ hne, hknown]
  have hopened : opened (some n) t
      ((Txn.openResult Dbis.library (w.native.dbiOpen k.obj.ptr (some n)
      (DbiOption.toFlags options)).1).map Value.dbi) =
      [{ obj := { ptr := w.native.slotFor k.obj.ptr }, name := some n, opener := t }] := by
    rw [Txn.openResult, if_pos hrc, hassigns.ptr]
    rfl
  rw [perform_dbiOpen _ _ hk]
  simp only [Dbis.reply_library, Dbis.next_library, Dbis.answer, hopened]
  intro hown
  have hgoes := hown.uses w.dbis.length _ rfl List.getElem?_concat_length rfl rfl
    (fun o ho => Option.some.inj (hk.symm.trans ho) ▸ habort)
    (.mdbGet k'.obj.ptr (w.native.slotFor k.obj.ptr) key) ?_ (some m) ?_
  · exact hname (Option.some.inj hgoes)
  · simp [callOf, hk', Txn.Access.call]
  · simp [Dbis.databases, htarget']

end Claimed

/-! ## Runs -/

/-- An environment that was just opened. -/
def start (env : Env) (results : ℕ → Reply) (maxdbs : ℕ) (catalog : Catalog) (mainFlags : UInt32)
    (rewritten : DbName → Bool) : World Dbis where
  env := env
  native := Dbis.init results maxdbs catalog mainFlags rewritten

theorem oneName_start (env : Env) (results : ℕ → Reply) (maxdbs : ℕ) (catalog : Catalog)
    (mainFlags : UInt32) (rewritten : DbName → Bool) :
    OneName (start env results maxdbs catalog mainFlags rewritten) where
  sound := Dbis.sound_after results maxdbs catalog mainFlags rewritten []
  closed := rfl
  place _ he := absurd he List.not_mem_nil
  one i m n hm := by
    cases hm with
    | native hm => cases hm with
      | slot hm | loaded hm => cases hm
    | object he => exact absurd he List.not_mem_nil

/-- In every run whose steps assign unclaimed slots only, every step goes to the databases
    of the objects it is called on. -/
theorem own_of_unclaimed (p : Platform) (env : Env) (results : ℕ → Reply) (maxdbs : ℕ)
    (catalog : Catalog) (mainFlags : UInt32) (rewritten : DbName → Bool) (ops : List Op)
    (hops : (machine Dbis.library p).Along Unclaimed
      (start env results maxdbs catalog mainFlags rewritten) ops) :
    (machine Dbis.library p).Along (Own p)
      (start env results maxdbs catalog mainFlags rewritten) ops :=
  Machine.along_of_inv (M := machine Dbis.library p) (I := OneName) (fun _ _ hw _ => hw.own)
    (fun _ _ hw hop => hw.perform hop)
    (oneName_start env results maxdbs catalog mainFlags rewritten) hops

/-- An environment that was just opened, without databases. -/
def bare : World Dbis :=
  start { ptr := 1, mapSize := 0, isOpened := true } (fun _ => {}) 12 (fun _ => none) 0
    fun _ => false

/-- It with a write transaction, after a database was opened, and dropped. -/
def dropped : World Dbis :=
  (machine Dbis.library .jvm).run writing [.dbiOpen 0 (some .a) [.create], .access 0 0 .drop]

theorem views_writing {x : Ptr} (hx : x ≠ meTxn0) : writing.native.views x = {} :=
  Dbis.views_setView_of_ne hx

theorem views_dropped {x : Ptr} (hx : x ≠ meTxn0) : dropped.native.views x = {} := by
  have hopen : (writing.perform Dbis.library .jvm
      (.dbiOpen 0 (some .a) [.create])).2.native.views x = writing.native.views x :=
    Dbis.views_setView_of_ne hx
  have hdrop : dropped.native.views x = (writing.perform Dbis.library .jvm
      (.dbiOpen 0 (some .a) [.create])).2.native.views x := Dbis.views_setView_of_ne hx
  rw [hdrop, hopen, views_writing hx]

/-- A database is dropped, and then opened again. -/
theorem own_reopened : (machine Dbis.library .jvm).Along (Own .jvm) bare
    [.env (.beginTxn []), .dbiOpen 0 (some .a) [.create], .access 0 0 .drop,
      .dbiOpen 0 (some .a) [.create], .closeDbi 0] := by
  have hk : writing.txns[0]? =
      some { obj := { ptr := meTxn0 }, lineage := [], readOnly := false } := rfl
  have hk' : dropped.txns[0]? =
      some { obj := { ptr := meTxn0 }, lineage := [], readOnly := false } := rfl
  have hopen : Unclaimed writing (.dbiOpen 0 (some .a) [.create]) := by
    refine ⟨trivial, ?_, ?_, ?_⟩
    · rintro t name options k ⟨⟩ hk₁
      obtain rfl := Option.some.inj (hk.symm.trans hk₁)
      decide
    · rintro t n options k ⟨⟩ hk₁ _ _ e he
      cases he
    · rintro t n options k ⟨⟩ hk₁ _ _ x hx m hm
      obtain rfl := Option.some.inj (hk.symm.trans hk₁)
      rw [views_writing hx] at hm
      cases hm
  have hreopen : Unclaimed dropped (.dbiOpen 0 (some .a) [.create]) := by
    refine ⟨trivial, ?_, ?_, ?_⟩
    · rintro t name options k ⟨⟩ hk₁
      obtain rfl := Option.some.inj (hk'.symm.trans hk₁)
      decide
    · rintro t n options k ⟨⟩ hk₁ _ _ e he _ _
      obtain rfl := List.mem_singleton.1 he
      rfl
    · rintro t n options k ⟨⟩ hk₁ _ _ x hx m hm
      obtain rfl := Option.some.inj (hk'.symm.trans hk₁)
      rw [views_dropped hx] at hm
      cases hm
  exact own_of_unclaimed .jvm { ptr := 1, mapSize := 0, isOpened := true } (fun _ => {}) 12
    (fun _ => none) 0 (fun _ => false) _ ⟨⟨trivial, nofun, nofun, nofun⟩, hopen,
      ⟨trivial, nofun, nofun, nofun⟩, hreopen, ⟨trivial, nofun, nofun, nofun⟩, trivial⟩

/-- Another one is opened. -/
theorem not_own_dropped :
    let ops : List Op := [.env (.beginTxn []), .dbiOpen 0 (some .a) [.create], .access 0 0 .drop,
      .dbiOpen 0 (some .b) [.create], .closeDbi 0]
    ¬(machine Dbis.library .jvm).Along (Own .jvm) bare ops ∧
      ¬(machine Dbis.library .native).Along (Own .native) bare ops := by
  intro ops
  have hne : some DbName.a ≠ some .b := by decide
  refine ⟨fun h => ?_, fun h => ?_⟩
  · exact hne (h.2.2.2.2.1.closes 0 _ rfl rfl 2 .b rfl nofun)
  · exact hne (h.2.2.2.2.1.closes 0 _ rfl rfl 2 .b rfl nofun)

end Dbi

end KotlinLmdb
