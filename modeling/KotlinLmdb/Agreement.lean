import KotlinLmdb.World

/-!
# Do the platforms agree?

A world on the JVM and one on native, run side by side on the same method calls over
the same LMDB: whatever it answers.

In a step they agree if they make the same calls, come to the same outcome or both
throw `LmdbException`, and leave the transactions in the same states
(`World.Agrees`). They do as long as nothing touches on where the two implementations
differ (`World.Aligned`), and never otherwise (`World.agrees_iff`).
-/

namespace KotlinLmdb

open Eff

/-- A transaction without the flag only native has. -/
def Txn.common (t : Txn) : Txn := { t with isClosed := false }

def TxnEntry.common (k : TxnEntry) : TxnEntry := { k with obj := k.obj.common }

/-- A cursor without the flag only the JVM has. -/
def Cursor.common (c : Cursor) : Cursor := { c with closed := false }

def CursorEntry.common (e : CursorEntry) : CursorEntry := { e with obj := e.obj.common }

namespace World

variable {N : Type} (lib : Library N)

/-- Both worlds do the same in a step. -/
structure Agrees (s : World N × World N) (op : Op) : Prop where
  calls : ((machine lib .jvm).out s.1 op).calls = ((machine lib .native).out s.2 op).calls
  outcome : Alike Exn.BothLmdb ((machine lib .jvm).out s.1 op).outcome
    ((machine lib .native).out s.2 op).outcome
  states : ((machine lib .jvm).next s.1 op).txns.map (·.obj.state) =
    ((machine lib .native).next s.2 op).txns.map (·.obj.state)

/-- The calls on which the platforms do not differ: LMDB grants those that only native
    checks; modes are such as native can read; none is begun from an environment that
    only native takes for open; a transaction closed before is not closed in another
    state; the statistic of a database is not granted, or what native reads without LMDB;
    `put` of a cursor does not come to `MDB_NOTFOUND`; and cursors are closed once. -/
def Aligned (s : World N × World N) : Op → Prop
  | .env (.access m) => ∀ c ∈ m.unchecked s.1.env.ptr, (lib.reply c s.1.native).rc = 0
  | .env (.open _ _ mode) => (parseMode .native mode).isSome
  | .env (.beginTxn _) => s.2.env.isOpened → s.1.env.isOpened
  | .begin t _ => t < s.2.txns.length → s.2.env.isOpened → s.1.env.isOpened
  | .life t .close => ∀ k ∈ s.2.txns[t]?, k.obj.isClosed → k.obj.state = .released
  | .dbi d t .stat => ∀ e ∈ s.1.dbis[d]?, ∀ k ∈ s.1.txns[t]?,
    let r := lib.reply (.mdbStat k.obj.ptr e.obj.ptr) s.1.native
    r.rc = 0 → r.stat = r.unwritten
  | .cursor c (.put key data option) => ∀ e ∈ s.1.cursors[c]?,
    (lib.reply (.mdbCursorPut e.obj.ptr key data option.option) s.1.native).rc ≠ mdbNotfound
  | .closeCursor c => ∀ e ∈ s.1.cursors[c]?, ¬e.obj.closed
  | _ => True

/-! ## Worlds in step -/

/-- A world on the JVM, and the same on native. -/
structure Same (w w' : World N) : Prop where
  ptr : w.env.ptr = w'.env.ptr
  isClosed : w.env.isClosed = w'.env.isClosed
  /-- Only a closed environment is taken for open on native alone. -/
  isOpened : w.env.isOpened = w'.env.isOpened ∨ w.env.isClosed ∧ ¬w.env.isOpened
  txns : w.txns = w'.txns.map TxnEntry.common
  dbis : w.dbis = w'.dbis
  cursors : w'.cursors = w.cursors.map CursorEntry.common
  native : w.native = w'.native

/-- Steps that agree, and end in the same world. -/
structure InStep (r r' : Seen Value × World N) : Prop where
  calls : r.1.calls = r'.1.calls
  outcome : Alike Exn.BothLmdb r.1.outcome r'.1.outcome
  same : Same r.2 r'.2

variable {lib} {w w' : World N} {op : Op} {t d c : ℕ}

theorem InStep.agrees (h : InStep (w.perform lib .jvm op) (w'.perform lib .native op)) :
    Agrees lib (w, w') op where
  calls := h.calls
  outcome := h.outcome
  states := by
    rw [next_machine, next_machine, h.same.txns, List.map_map]
    rfl

section Same

variable (hs : Same w w')

include hs

theorem Same.getElem?_txns (t : ℕ) : w.txns[t]? = (w'.txns[t]?).map TxnEntry.common := by
  rw [hs.txns, List.getElem?_map]

theorem Same.getElem?_cursors (c : ℕ) :
    w'.cursors[c]? = (w.cursors[c]?).map CursorEntry.common := by
  rw [hs.cursors, List.getElem?_map]

/-- A step without effect. -/
theorem Same.skip : InStep w.skip w'.skip := ⟨rfl, rfl, hs⟩

/-- The same call on both platforms. -/
theorem Same.step {o o' : Except Exn Value} (c : Call) (ho : Alike Exn.BothLmdb o o')
    {v v' : World N} (hv : Same v v') :
    InStep (⟨o, [(c, lib.reply c w.native)]⟩, v) (⟨o', [(c, lib.reply c w'.native)]⟩, v') :=
  ⟨by rw [hs.native], ho, hv⟩

theorem Same.next (c : Call) :
    Same { w with native := lib.next c w.native } { w' with native := lib.next c w'.native } :=
  { hs with native := congrArg (lib.next c) hs.native }

theorem Same.set_txn {k k' : TxnEntry} (hk : k = k'.common) (t : ℕ) :
    Same { w with txns := w.txns.set t k } { w' with txns := w'.txns.set t k' } :=
  { hs with txns := by rw [hs.txns, hk, List.map_set] }

theorem Same.append_txns {l : List TxnEntry} (hl : l.map TxnEntry.common = l) :
    Same { w with txns := w.txns ++ l } { w' with txns := w'.txns ++ l } :=
  { hs with txns := by rw [hs.txns, List.map_append, hl] }

theorem Same.append_cursors {l : List CursorEntry} (hl : l.map CursorEntry.common = l) :
    Same { w with cursors := w.cursors ++ l } { w' with cursors := w'.cursors ++ l } :=
  { hs with cursors := by rw [hs.cursors, List.map_append, hl] }

end Same

/-! ## Transactions -/

/-- A new transaction has no flag set. -/
theorem common_begun (lineage : List ℕ) (readOnly : Bool) (parentTx : Option Ptr) (r : Reply) :
    (begun lineage readOnly ((Txn.beginResult lib parentTx r).map Value.txn)).map TxnEntry.common =
      begun lineage readOnly ((Txn.beginResult lib parentTx r).map Value.txn) := by
  rw [Txn.beginResult]
  split <;> rfl

/-- Where native does not take the environment for open, the JVM does not. -/
theorem Same.isOpened_eq (hs : Same w w') (ha : w'.env.isOpened → w.env.isOpened) :
    w.env.isOpened = w'.env.isOpened := by
  rcases hs.isOpened with h | ⟨-, h⟩
  · exact h
  · rw [Bool.eq_false_iff.2 h, Bool.eq_false_iff.2 fun ho => h (ha ho)]

theorem inStep_beginTxn (hs : Same w w') {options : List TxnOption}
    (ha : Aligned lib (w, w') (.env (.beginTxn options))) :
    InStep (w.perform lib .jvm (.env (.beginTxn options)))
      (w'.perform lib .native (.env (.beginTxn options))) := by
  rw [perform_beginTxn, perform_beginTxn, hs.isOpened_eq ha, hs.ptr, hs.native]
  split
  · exact ⟨rfl, alike_map _ (alike_checked lib _ _),
      { hs.append_txns (common_begun ..) with native := rfl }⟩
  · exact ⟨rfl, ⟨trivial, trivial⟩, hs⟩

theorem inStep_begin (hs : Same w w') {options : List TxnOption}
    (ha : Aligned lib (w, w') (.begin t options)) :
    InStep (w.perform lib .jvm (.begin t options)) (w'.perform lib .native (.begin t options)) := by
  have hget := hs.getElem?_txns t
  cases hk : w'.txns[t]? with
  | none =>
    rw [hk] at hget
    simpa [perform, hk, hget] using hs.skip
  | some k =>
    rw [hk] at hget
    have hlt : t < w'.txns.length := (List.getElem?_eq_some_iff.1 hk).1
    rw [perform_begin _ _ hget, perform_begin _ _ hk, hs.isOpened_eq (ha hlt), hs.ptr, hs.native]
    split
    · exact ⟨rfl, alike_map _ (alike_checked lib _ _),
        { hs.append_txns (common_begun ..) with native := rfl }⟩
    · exact ⟨rfl, ⟨trivial, trivial⟩, hs⟩

theorem inStep_id (hs : Same w w') :
    InStep (w.perform lib .jvm (.id t)) (w'.perform lib .native (.id t)) := by
  have hget := hs.getElem?_txns t
  cases hk : w'.txns[t]? with
  | none =>
    rw [hk] at hget
    simpa [perform, hk, hget] using hs.skip
  | some k =>
    rw [hk] at hget
    rw [perform_id _ _ hget, perform_id _ _ hk, hs.native]
    by_cases hready : k.obj.state = .ready
    · rw [if_pos (show k.common.obj.state = .ready from hready), if_pos hready]
      exact ⟨rfl, rfl, { hs with native := rfl }⟩
    · rw [if_neg (show ¬k.common.obj.state = .ready from hready), if_neg hready]
      exact ⟨rfl, ⟨trivial, trivial⟩, hs⟩

/-- An operation of the life cycle comes to the same on both platforms, but for
    closing a transaction closed before. -/
theorem life_common {op : Txn.Lifecycle} {t : Txn}
    (h : op = .close → t.isClosed → t.state = .released) :
    op.call .jvm t.common = op.call .native t ∧
      ∀ rc, op.after .jvm t.common rc = (op.after .native t rc).common := by
  obtain ⟨ptr, parentTx, state, isClosed⟩ := t
  cases op
  case close =>
    cases isClosed
    · exact ⟨by simp [Txn.Lifecycle.call, Txn.common], fun _ => rfl⟩
    · obtain rfl : state = .released := h rfl rfl
      exact ⟨rfl, fun _ => rfl⟩
  all_goals exact ⟨rfl, fun rc => by cases state <;> rfl⟩

theorem alike_lifeResult (op : Txn.Lifecycle) (t : Txn) (rc : Int) :
    Alike Exn.BothLmdb ((op.result lib t.common rc).map Value.ofUnit)
      ((op.result lib t rc).map Value.ofUnit) := by
  refine alike_map _ ?_
  cases op
  case commit | renew => exact alike_ite (alike_checked lib _ rc) ⟨trivial, trivial⟩
  case abort | reset => exact alike_ite rfl ⟨trivial, trivial⟩
  case close => rfl

theorem inStep_life (hs : Same w w') {op : Txn.Lifecycle}
    (ha : op = .close → ∀ k ∈ w'.txns[t]?, k.obj.isClosed → k.obj.state = .released) :
    InStep (w.perform lib .jvm (.life t op)) (w'.perform lib .native (.life t op)) := by
  have hget := hs.getElem?_txns t
  cases hk : w'.txns[t]? with
  | none =>
    rw [hk] at hget
    simpa [perform, hk, hget] using hs.skip
  | some k =>
    rw [hk] at hget ha
    obtain ⟨hcall, hafter⟩ := @life_common op k.obj fun h => ha h k rfl
    rw [perform_life _ _ hget, perform_life _ _ hk, TxnEntry.common, hcall]
    cases op.call .native k.obj with
    | none =>
      refine ⟨rfl, alike_lifeResult op k.obj 0, hs.set_txn ?_ t⟩
      rw [hafter]
      rfl
    | some c =>
      simp only [hs.native]
      refine ⟨rfl, alike_lifeResult op k.obj _, { hs.set_txn ?_ t with native := rfl }⟩
      rw [hafter]
      rfl

/-! ## Databases and cursors -/

theorem inStep_dbiOpen (hs : Same w w') {name : Option DbName} {options : List DbiOption} :
    InStep (w.perform lib .jvm (.dbiOpen t name options))
      (w'.perform lib .native (.dbiOpen t name options)) := by
  have hget := hs.getElem?_txns t
  cases hk : w'.txns[t]? with
  | none =>
    rw [hk] at hget
    simpa [perform, hk, hget] using hs.skip
  | some k =>
    rw [hk] at hget
    rw [perform_dbiOpen _ _ hget, perform_dbiOpen _ _ hk]
    refine hs.step _ (alike_map _ ?_) { hs.next _ with dbis := ?_ }
    · rw [hs.native]
      exact alike_checked lib _ _
    · simp only [hs.native, hs.dbis]
      rfl

variable (lib) in
/-- A new cursor has no flag set. -/
theorem common_positioned (t : ℕ) (m : Txn.Access) (r : Reply) :
    (positioned t (m.result lib r)).map CursorEntry.common = positioned t (m.result lib r) := by
  cases m <;> simp only [Txn.Access.result] <;> split <;> rfl

theorem inStep_access (hs : Same w w') {m : Txn.Access} :
    InStep (w.perform lib .jvm (.access t d m)) (w'.perform lib .native (.access t d m)) := by
  have hget := hs.getElem?_txns t
  cases hk : w'.txns[t]? with
  | none =>
    rw [hk] at hget
    simpa [perform, hk, hget] using hs.skip
  | some k =>
    rw [hk] at hget
    cases he : w'.dbis[d]? with
    | none => simpa [perform, hk, hget, hs.dbis, he] using hs.skip
    | some e =>
      rw [perform_access _ _ hget (hs.dbis ▸ he), perform_access _ _ hk he]
      have hcall : lib.reply (m.call k.common.obj.ptr e.obj.ptr) w.native =
          lib.reply (m.call k.obj.ptr e.obj.ptr) w'.native := by
        rw [hs.native]
        rfl
      simp only [hcall]
      refine ⟨rfl, ?_, ?_⟩
      · cases m <;> exact alike_checked lib _ _
      · have hpos := common_positioned lib t m
          (lib.reply (m.call k.obj.ptr e.obj.ptr) w'.native)
        exact { hs.append_cursors hpos with
          dbis := by rw [hs.dbis]
          native := congrArg (lib.next _) hs.native }

/-- What the platforms make of a statistic. -/
theorem alike_stat_iff {r : Reply} :
    Alike Exn.BothLmdb (Dbi.Method.result lib .jvm .stat r)
      (Dbi.Method.result lib .native .stat r) ↔ (r.rc = 0 → r.stat = r.unwritten) := by
  simp only [Dbi.Method.result, Dbi.pointed]
  by_cases hrc : r.rc = 0
  · rw [if_pos hrc, if_pos hrc]
    refine ⟨fun h _ => Value.stat.inj h, fun h => congrArg Value.stat (h hrc)⟩
  · rw [if_neg hrc, if_neg hrc]
    exact ⟨fun _ h => absurd h hrc, fun _ => ⟨trivial, trivial⟩⟩

theorem inStep_dbi (hs : Same w w') {m : Dbi.Method} (ha : Aligned lib (w, w') (.dbi d t m)) :
    InStep (w.perform lib .jvm (.dbi d t m)) (w'.perform lib .native (.dbi d t m)) := by
  have hget := hs.getElem?_txns t
  cases hk : w'.txns[t]? with
  | none =>
    rw [hk] at hget
    simpa [perform, hk, hget] using hs.skip
  | some k =>
    rw [hk] at hget
    cases he : w'.dbis[d]? with
    | none => simpa [perform, hk, hget, hs.dbis, he] using hs.skip
    | some e =>
      rw [perform_dbi _ _ (hs.dbis ▸ he) hget, perform_dbi _ _ he hk]
      refine hs.step _ ?_ (hs.next _)
      rw [hs.native]
      cases m
      case stat =>
        have hstat := ha e (hs.dbis ▸ he) k.common hget
        rw [hs.native] at hstat
        exact alike_stat_iff.2 hstat
      case flags => exact alike_checked lib _ _
      case compare | dupCompare => rfl

theorem inStep_closeDbi (hs : Same w w') :
    InStep (w.perform lib .jvm (.closeDbi d)) (w'.perform lib .native (.closeDbi d)) := by
  cases he : w'.dbis[d]? with
  | none => simpa [perform, hs.dbis, he] using hs.skip
  | some e =>
    rw [perform_closeDbi _ _ (hs.dbis ▸ he), perform_closeDbi _ _ he, hs.ptr]
    split
    · exact ⟨rfl, rfl, hs⟩
    · have halike : Alike Exn.BothLmdb (.ok .unit : Except Exn Value) (.ok .unit) := rfl
      refine hs.step _ halike { hs.next _ with dbis := ?_ }
      rw [hs.dbis]

theorem inStep_cursor (hs : Same w w') {m : Cursor.Method}
    (ha : Aligned lib (w, w') (.cursor c m)) :
    InStep (w.perform lib .jvm (.cursor c m)) (w'.perform lib .native (.cursor c m)) := by
  have hget := hs.getElem?_cursors c
  cases he : w.cursors[c]? with
  | none =>
    rw [he] at hget
    simpa [perform, he, hget] using hs.skip
  | some e =>
    rw [he] at hget
    rw [perform_cursor _ _ he, perform_cursor _ _ hget]
    refine hs.step _ ?_ (hs.next _)
    rw [← hs.native]
    cases m
    case put key data option =>
      have hrc := ha e he
      have hput : Cursor.Method.result lib .native (.put key data option)
          (lib.reply (.mdbCursorPut e.obj.ptr key data option.option) w.native) =
          Cursor.Method.result lib .jvm (.put key data option)
            (lib.reply (.mdbCursorPut e.obj.ptr key data option.option) w.native) := by
        simp [Cursor.Method.result, hrc]
      refine Eq.mpr (congrArg (Alike Exn.BothLmdb _) hput) ?_
      exact alike_checked lib _ _
    all_goals exact alike_checked lib _ _

theorem inStep_renewCursor (hs : Same w w') :
    InStep (w.perform lib .jvm (.renewCursor c t)) (w'.perform lib .native (.renewCursor c t)) := by
  have hget := hs.getElem?_txns t
  have hgete := hs.getElem?_cursors c
  cases he : w.cursors[c]? with
  | none =>
    rw [he] at hgete
    simpa [perform, he, hgete] using hs.skip
  | some e =>
    rw [he] at hgete
    cases hk : w'.txns[t]? with
    | none =>
      rw [hk] at hget
      simpa [perform, he, hgete, hk, hget] using hs.skip
    | some k =>
      rw [hk] at hget
      rw [perform_renewCursor _ _ he hget, perform_renewCursor _ _ hgete hk]
      refine hs.step _ (alike_map _ ?_) (hs.next _)
      rw [hs.native]
      exact alike_checked lib _ _

theorem inStep_closeCursor (hs : Same w w') (ha : Aligned lib (w, w') (.closeCursor c)) :
    InStep (w.perform lib .jvm (.closeCursor c)) (w'.perform lib .native (.closeCursor c)) := by
  have hget := hs.getElem?_cursors c
  cases he : w.cursors[c]? with
  | none =>
    rw [he] at hget
    simpa [perform, he, hget] using hs.skip
  | some e =>
    rw [he] at hget
    rw [perform_closeCursor _ _ he, perform_closeCursor _ _ hget,
      if_neg fun h => ha e he h.2, if_neg (by simp)]
    refine hs.step _ ?_ { hs.next _ with cursors := ?_ }
    · exact rfl
    · rw [hs.cursors, List.map_set]
      rfl

/-! ## The environment -/

theorem inStep_envAccess (hs : Same w w') {m : Env.Access}
    (ha : Aligned lib (w, w') (.env (.access m))) :
    InStep (w.perform lib .jvm (.env (.access m))) (w'.perform lib .native (.env (.access m))) := by
  rw [perform_env (m := .access m) _ _ (by simp), perform_env (m := .access m) _ _ (by simp)]
  simp only [Env.Method.perform]
  cases hc : m.unchecked w.env.ptr with
  | some c =>
    obtain ⟨v, f, hf, hexec⟩ := Env.Access.exec_unchecked lib hc
    obtain ⟨hjvm, -⟩ := hexec w.env ⟨w.native, []⟩ rfl
    obtain ⟨-, hnative⟩ := hexec w'.env ⟨w'.native, []⟩ hs.ptr.symm
    rw [← hs.native, if_pos (ha c hc)] at hnative
    rw [← hs.native, hjvm, hnative]
    obtain ⟨hptr, hopened, hclosed⟩ := hf w.env
    obtain ⟨hptr', hopened', hclosed'⟩ := hf w'.env
    refine ⟨rfl, rfl, { hs with ptr := ?_, isClosed := ?_, isOpened := ?_, native := rfl }⟩
    · exact hptr.trans (hs.ptr.trans hptr'.symm)
    · exact hclosed.trans (hs.isClosed.trans hclosed'.symm)
    · simp only [hopened, hopened', hclosed]
      exact hs.isOpened
  | none =>
    have hm : ∀ ptr, m.unchecked ptr = none := by
      intro ptr
      cases m <;> first | rfl | cases hc
    obtain ⟨hout, hptr, hsession⟩ := Env.Access.mirrors_perform lib hm
      (w.env, ⟨w.native, []⟩) (w'.env, ⟨w'.native, []⟩) ⟨hs.ptr, by rw [hs.native]⟩
    obtain ⟨-, hopened, hclosed, -⟩ := (m.leads_perform lib .jvm (w.env, ⟨w.native, []⟩)).1
    obtain ⟨-, hopened', hclosed', -⟩ :=
      (m.leads_perform lib .native (w'.env, ⟨w'.native, []⟩)).1
    refine ⟨congrArg Session.log hsession, hout, { hs with
      ptr := hptr, isClosed := ?_, isOpened := ?_, native := congrArg Session.native hsession }⟩
    · exact hclosed.trans (hs.isClosed.trans hclosed'.symm)
    · simp only [hopened, hopened', hclosed]
      exact hs.isOpened

theorem inStep_open (hs : Same w w') {path mode : String} {options : List EnvOption}
    (ha : (parseMode .native mode).isSome) :
    InStep (w.perform lib .jvm (.env (.open path options mode)))
      (w'.perform lib .native (.env (.open path options mode))) := by
  obtain ⟨n, hn⟩ := Option.isSome_iff_exists.1 ha
  rw [perform_env (m := .open path options mode) _ _ (by simp),
    perform_env (m := .open path options mode) _ _ (by simp)]
  simp only [Env.Method.perform, exec_map, Env.exec_open, parseMode_jvm_of_native hn, hn, ← hs.ptr,
    ← hs.native]
  exact ⟨rfl, alike_map _ (alike_checked lib _ _),
    { hs with ptr := rfl, isClosed := hs.isClosed, isOpened := .inl rfl, native := rfl }⟩

theorem inStep_close (hs : Same w w') :
    InStep (w.perform lib .jvm (.env .close)) (w'.perform lib .native (.env .close)) := by
  rw [perform_env (m := .close) _ _ nofun, perform_env (m := .close) _ _ nofun]
  simp only [Env.Method.perform, exec_map, Env.exec_close, ← hs.isClosed, ← hs.native]
  by_cases hclosed : w.env.isClosed
  · simp only [if_pos hclosed]
    exact ⟨rfl, rfl, { hs with native := rfl }⟩
  · have hopened : w.env.isOpened = w'.env.isOpened :=
      hs.isOpened.resolve_right fun h => hclosed h.1
    simp only [if_neg hclosed, ← hopened, ← hs.ptr]
    exact ⟨rfl, rfl, { hs with
      ptr := rfl, isClosed := rfl, isOpened := .inr ⟨rfl, by simp⟩, native := rfl }⟩

/-! ## Exactly when they agree -/

/-- Steps on which the platforms do not differ. -/
theorem inStep_of_aligned (hs : Same w w') (ha : Aligned lib (w, w') op) :
    InStep (w.perform lib .jvm op) (w'.perform lib .native op) := by
  cases op with
  | env m =>
    cases m with
    | access m => exact inStep_envAccess hs ha
    | «open» path options mode => exact inStep_open hs ha
    | beginTxn options => exact inStep_beginTxn hs ha
    | close => exact inStep_close hs
  | id t => exact inStep_id hs
  | begin t options => exact inStep_begin hs ha
  | life t op => exact inStep_life hs (by rintro rfl; exact ha)
  | dbiOpen t name options => exact inStep_dbiOpen hs
  | access t d m => exact inStep_access hs
  | dbi d t m => exact inStep_dbi hs ha
  | closeDbi d => exact inStep_closeDbi hs
  | cursor c m => exact inStep_cursor hs ha
  | renewCursor c t => exact inStep_renewCursor hs
  | closeCursor c => exact inStep_closeCursor hs ha

theorem isOpened_of_agrees {options : List TxnOption}
    (h : Agrees lib (w, w') (.env (.beginTxn options))) (ho : w'.env.isOpened) :
    w.env.isOpened := by
  have hcalls := h.calls
  rw [out_machine, out_machine, perform_beginTxn, perform_beginTxn, if_pos ho] at hcalls
  by_contra hn
  rw [if_neg hn] at hcalls
  cases hcalls

theorem isOpened_of_agrees_begin (hs : Same w w') {options : List TxnOption}
    (h : Agrees lib (w, w') (.begin t options)) (ht : t < w'.txns.length) (ho : w'.env.isOpened) :
    w.env.isOpened := by
  have hk := List.getElem?_eq_getElem ht
  have hget := hs.getElem?_txns t
  rw [hk] at hget
  have hcalls := h.calls
  rw [out_machine, out_machine, perform_begin _ _ hget, perform_begin _ _ hk, if_pos ho] at hcalls
  by_contra hn
  rw [if_neg hn] at hcalls
  cases hcalls

/-- Native keeps the state of a transaction closed before. -/
theorem released_of_agrees (hs : Same w w') (h : Agrees lib (w, w') (.life t .close)) {k : TxnEntry}
    (hk : w'.txns[t]? = some k) (hclosed : k.obj.isClosed) : k.obj.state = .released := by
  have hget := hs.getElem?_txns t
  rw [hk] at hget
  obtain ⟨hlt, -⟩ := List.getElem?_eq_some_iff.1 hk
  obtain ⟨hlt', -⟩ := List.getElem?_eq_some_iff.1 hget
  have hjvm : ((w.perform lib .jvm (.life t .close)).2.txns.map (·.obj.state))[t]? =
      some .released := by
    rw [perform_life _ _ hget]
    cases Txn.Lifecycle.call .jvm .close k.common.obj <;>
      simp [hlt', Txn.Lifecycle.after]
  have hnative : ((w'.perform lib .native (.life t .close)).2.txns.map (·.obj.state))[t]? =
      some k.obj.state := by
    have hcall : Txn.Lifecycle.call .native .close k.obj = none :=
      if_neg fun h => h.2 ⟨rfl, hclosed⟩
    have hafter : Txn.Lifecycle.after .native .close k.obj 0 = k.obj := if_pos ⟨rfl, hclosed⟩
    rw [perform_life _ _ hk, hcall]
    simp [hlt, hafter]
  have hstates := h.states
  rw [next_machine, next_machine] at hstates
  rw [hstates, hnative] at hjvm
  exact Option.some.inj hjvm

theorem aligned_of_agrees (hs : Same w w') (h : Agrees lib (w, w') op) :
    Aligned lib (w, w') op := by
  -- Where the platforms would part, the outcome or the calls of the step show it.
  have hout := h.outcome
  have hcalls := h.calls
  rw [out_machine, out_machine] at hout hcalls
  cases op with
  | env m =>
    cases m with
    | access m =>
      intro c hc
      obtain ⟨v, f, -, hexec⟩ := Env.Access.exec_unchecked lib hc
      obtain ⟨hjvm, -⟩ := hexec w.env ⟨w.native, []⟩ rfl
      obtain ⟨-, hnative⟩ := hexec w'.env ⟨w'.native, []⟩ hs.ptr.symm
      by_contra hrc
      rw [← hs.native, if_neg hrc] at hnative
      rw [perform_env (m := .access m) _ _ (by simp),
        perform_env (m := .access m) _ _ (by simp)] at hout
      simp only [Env.Method.perform, ← hs.native, hjvm, hnative] at hout
      exact hout
    | «open» path options mode =>
      rw [perform_env (m := .open path options mode) _ _ (by simp),
        perform_env (m := .open path options mode) _ _ (by simp)] at hout
      cases hn : parseMode .native mode with
      | some n => exact congrArg Option.isSome hn
      | none =>
        simp only [Env.Method.perform, exec_map, Env.exec_open, hn] at hout
        exact (Exn.isLmdb_of_alike hout).elim
    | beginTxn options => exact isOpened_of_agrees h
    | close => trivial
  | begin t options => exact isOpened_of_agrees_begin hs h
  | life t op =>
    cases op
    case close => exact fun k hk => released_of_agrees hs h hk
    all_goals trivial
  | cursor c m =>
    cases m
    case put key data option =>
      intro e he hrc
      have hget := hs.getElem?_cursors c
      rw [he] at hget
      rw [perform_cursor _ _ he, perform_cursor _ _ hget, ← hs.native] at hout
      simp [Cursor.Method.result, Cursor.Method.call, CursorEntry.common, Cursor.common, hrc,
        Alike] at hout
    all_goals trivial
  | dbi d t m =>
    cases m
    case stat =>
      intro e he k hk r hrc
      have hget := hs.getElem?_txns t
      rw [hk] at hget
      obtain ⟨k', hk', rfl⟩ := Option.map_eq_some_iff.1 hget.symm
      rw [perform_dbi _ _ he hk, perform_dbi _ _ (hs.dbis ▸ he) hk', ← hs.native] at hout
      exact alike_stat_iff.1 hout hrc
    all_goals trivial
  | closeCursor c =>
    intro e he hclosed
    have hget := hs.getElem?_cursors c
    rw [he] at hget
    rw [perform_closeCursor _ _ he, perform_closeCursor _ _ hget, if_pos ⟨rfl, hclosed⟩,
      if_neg (by simp)] at hcalls
    cases hcalls
  | id | dbiOpen | access | closeDbi | renewCursor => trivial

/-- An environment on either platform, before any call. They start with sizes of
    their own. -/
theorem same_start (ptr : Ptr) (mapSize mapSize' : UInt64) (n : N) :
    Same { env := { ptr, mapSize }, native := n }
      { env := { ptr, mapSize := mapSize' }, native := n } :=
  ⟨rfl, rfl, .inl rfl, rfl, rfl, rfl, rfl⟩

/-- The runs on which the platforms agree are those that do not touch on where they
    differ. -/
theorem agrees_iff (lib : Library N) (ptr : Ptr) (mapSize mapSize' : UInt64) (n : N)
    (ops : List Op) :
    ((machine lib .jvm).prod (machine lib .native)).Along (Agrees lib)
        ({ env := { ptr, mapSize }, native := n },
          { env := { ptr, mapSize := mapSize' }, native := n }) ops ↔
      ((machine lib .jvm).prod (machine lib .native)).Along (Aligned lib)
        ({ env := { ptr, mapSize }, native := n },
          { env := { ptr, mapSize := mapSize' }, native := n }) ops :=
  Machine.along_iff_of_inv (M := (machine lib .jvm).prod (machine lib .native))
    (I := fun s => Same s.1 s.2)
    (fun _ _ hs => ⟨aligned_of_agrees hs, fun ha => (inStep_of_aligned hs ha).agrees⟩)
    (fun _ _ hs ha => (inStep_of_aligned hs ha).same) ops (same_start ptr mapSize mapSize' n)

/-- After `close`, native begins a transaction in the closed environment where the
    JVM throws. -/
theorem not_agrees_begin_after_close :
    ¬((machine (.granting {}) .jvm).prod (machine (.granting {}) .native)).Along
        (Agrees (.granting {}))
        ({ env := { ptr := 1, mapSize := 1024 * 1024 * 100 }, native := () },
          { env := { ptr := 1, mapSize := 1024 * 1024 * 50 }, native := () })
        [.env (.open "/db" [] "0664"), .env .close, .env (.beginTxn [])] := by
  rintro ⟨-, -, h, -⟩
  exact absurd h.calls (by decide)

end World

end KotlinLmdb
