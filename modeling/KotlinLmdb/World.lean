import KotlinLmdb.Env
import KotlinLmdb.Machine

/-!
# Worlds

An environment with all transactions, database handles and cursors made from it,
and LMDB: a `World`. Users call the methods of these objects in any order, each on
objects made before (`Op`), which makes a machine of it (`World.machine`).

With an object a world keeps what its users know of it and the wrapper does not:
which transaction a cursor was opened in, for instance. No method reads that.
-/

namespace KotlinLmdb

/-- A transaction and where it comes from. -/
structure TxnEntry where
  obj : Txn
  /-- The transactions it is nested in, outermost first. -/
  lineage : List ℕ
  /-- It was begun as read-only. -/
  readOnly : Bool
  /-- It was aborted, or could not be committed. -/
  aborted : Bool := false
  deriving DecidableEq

/-- A database handle and where it comes from. -/
structure DbiEntry where
  obj : Dbi
  name : Option DbName
  /-- The transaction that opened it. -/
  opener : ℕ
  /-- Its database was dropped through it. -/
  dropped : Bool := false
  deriving DecidableEq

/-- A cursor and where it comes from. -/
structure CursorEntry where
  obj : Cursor
  /-- The transaction that opened it. -/
  owner : ℕ
  /-- `close` was called. -/
  closed : Bool := false
  deriving DecidableEq

/-- An environment, what was made from it, and LMDB. -/
structure World (N : Type) where
  env : Env
  txns : List TxnEntry := []
  dbis : List DbiEntry := []
  cursors : List CursorEntry := []
  native : N

/-- A method call, on objects given by their numbers. -/
inductive Op
  | env (m : Env.Method)
  | id (t : ℕ)
  | begin (t : ℕ) (options : List TxnOption)
  | life (t : ℕ) (op : Txn.Lifecycle)
  | dbiOpen (t : ℕ) (name : Option DbName) (options : List DbiOption)
  | access (t d : ℕ) (m : Txn.Access)
  | dbi (d t : ℕ) (m : Dbi.Method)
  | closeDbi (d : ℕ)
  | cursor (c : ℕ) (m : Cursor.Method)
  | renewCursor (c t : ℕ)
  | closeCursor (c : ℕ)

namespace World

variable {N : Type} (lib : Library N) (p : Platform) (w : World N)

/-- A call on an object that does not exist is none. -/
def skip : Seen Value × World N := (⟨.ok .unit, []⟩, w)

/-- The transaction a call returns. -/
def begun (lineage : List ℕ) (readOnly : Bool) : Except Exn Value → List TxnEntry
  | .ok (.txn obj) => [{ obj, lineage, readOnly }]
  | _ => []

/-- The database handle a call returns. -/
def opened (name : Option DbName) (opener : ℕ) : Except Exn Value → List DbiEntry
  | .ok (.dbi obj) => [{ obj, name, opener }]
  | _ => []

/-- The cursor a call returns. -/
def positioned (owner : ℕ) : Except Exn Value → List CursorEntry
  | .ok (.cursor obj) => [{ obj, owner }]
  | _ => []

/-- A transaction begun with these options is read-only. -/
def readsOnly : Env.Method → Bool
  | .beginTxn options => .readOnly ∈ options
  | _ => false

/-- The call aborts its transaction, or fails to commit it. -/
def aborts : Call × Reply → Bool
  | (.mdbTxnAbort _, _) => true
  | (.mdbTxnCommit _, r) => r.rc ≠ 0
  | _ => false

/-- The method drops its database, and succeeds. -/
def drops : Txn.Access → Except Exn Value → Bool
  | .drop, .ok _ => true
  | _, _ => false

/-- A method call. -/
def perform : Op → Seen Value × World N
  | .env m =>
    -- `Env` keeps no list of its transactions; the one it returns is appended here.
    let r := (m.perform lib p).observe w.env w.native
    (r.1, { w with
      env := r.2.1
      txns := w.txns ++ begun [] (readsOnly m) r.1.outcome
      native := r.2.2 })
  | .id t =>
    match w.txns[t]? with
    | none => w.skip
    | some k =>
      let r := (Value.number <$> Txn.id lib).observe k.obj w.native
      (r.1, { w with txns := w.txns.set t { k with obj := r.2.1 }, native := r.2.2 })
  | .begin t options =>
    match w.txns[t]? with
    | none => w.skip
    | some k =>
      -- a child is recorded with the transactions it is nested in
      let r := (Value.txn <$> Txn.begin lib w.env options).observe k.obj w.native
      (r.1, { w with
        txns := w.txns.set t { k with obj := r.2.1 } ++ begun (k.lineage ++ [t]) false r.1.outcome
        native := r.2.2 })
  | .life t op =>
    match w.txns[t]? with
    | none => w.skip
    | some k =>
      let r := (Value.ofUnit <$> op.perform lib p).observe k.obj w.native
      (r.1, { w with
        txns := w.txns.set t
          { k with obj := r.2.1, aborted := k.aborted || r.1.calls.any aborts }
        native := r.2.2 })
  | .dbiOpen t name options =>
    match w.txns[t]? with
    | none => w.skip
    | some k =>
      let r := (Value.dbi <$> Txn.dbiOpen lib name options).observe k.obj w.native
      (r.1, { w with
        txns := w.txns.set t { k with obj := r.2.1 }
        dbis := w.dbis ++ opened name t r.1.outcome
        native := r.2.2 })
  | .access t d m =>
    match w.txns[t]?, w.dbis[d]? with
    | some k, some e =>
      let r := (m.perform lib e.obj).observe k.obj w.native
      (r.1, { w with
        txns := w.txns.set t { k with obj := r.2.1 }
        dbis := w.dbis.set d { e with dropped := e.dropped || drops m r.1.outcome }
        cursors := w.cursors ++ positioned t r.1.outcome
        native := r.2.2 })
    | _, _ => w.skip
  | .dbi d t m =>
    match w.dbis[d]?, w.txns[t]? with
    | some e, some k =>
      let r := (m.perform lib p k.obj).observe e.obj w.native
      (r.1, { w with dbis := w.dbis.set d { e with obj := r.2.1 }, native := r.2.2 })
    | _, _ => w.skip
  | .closeDbi d =>
    match w.dbis[d]? with
    | none => w.skip
    | some e =>
      let r := (Value.ofUnit <$> Dbi.close lib w.env).observe e.obj w.native
      (r.1, { w with dbis := w.dbis.set d { e with obj := r.2.1 }, native := r.2.2 })
  | .cursor c m =>
    match w.cursors[c]? with
    | none => w.skip
    | some e =>
      let r := (m.perform lib p).observe e.obj w.native
      (r.1, { w with cursors := w.cursors.set c { e with obj := r.2.1 }, native := r.2.2 })
  | .renewCursor c t =>
    match w.cursors[c]?, w.txns[t]? with
    | some e, some k =>
      let r := (Value.ofUnit <$> Cursor.renew lib k.obj).observe e.obj w.native
      (r.1, { w with cursors := w.cursors.set c { e with obj := r.2.1 }, native := r.2.2 })
    | _, _ => w.skip
  | .closeCursor c =>
    match w.cursors[c]? with
    | none => w.skip
    | some e =>
      let r := (Value.ofUnit <$> Cursor.close lib p).observe e.obj w.native
      (r.1, { w with
        cursors := w.cursors.set c { e with obj := r.2.1, closed := true }
        native := r.2.2 })

/-- A world as a machine taking method calls. -/
def machine : Machine (World N) Op (Seen Value) where
  step w op := w.perform lib p op

@[simp]
theorem out_machine (op : Op) : (machine lib p).out w op = (w.perform lib p op).1 := rfl

@[simp]
theorem next_machine (op : Op) : (machine lib p).next w op = (w.perform lib p op).2 := rfl

/-! ## What the calls come to -/

variable {w} {t d c : ℕ} {k : TxnEntry} {e : DbiEntry} {e' : CursorEntry}

/-- Writing back what was read changes nothing. -/
theorem set_getElem?_self {α : Type} {l : List α} {i : ℕ} {a : α} (h : l[i]? = some a) :
    l.set i a = l := by
  obtain ⟨hi, rfl⟩ := List.getElem?_eq_some_iff.1 h
  exact List.set_getElem_self hi

/-- `id` makes a call if the transaction is ready. -/
theorem perform_id (hk : w.txns[t]? = some k) :
    w.perform lib p (.id t) =
      if k.obj.state = .ready then
        let c := .mdbTxnId k.obj.ptr
        (⟨.ok (.number (lib.reply c w.native).num), [(c, lib.reply c w.native)]⟩,
          { w with native := lib.next c w.native })
      else (⟨.error (.lmdbException "Transaction is in an invalid state to perform operation"), []⟩,
        w) := by
  simp only [perform, hk, Eff.observe, Eff.exec_map, Txn.exec_id]
  split <;> simp [set_getElem?_self hk]

/-- An operation of the life cycle makes at most one call. -/
theorem perform_life (hk : w.txns[t]? = some k) (op : Txn.Lifecycle) :
    w.perform lib p (.life t op) = match op.call p k.obj with
      | none => (⟨(op.result lib k.obj 0).map Value.ofUnit, []⟩,
          { w with txns := w.txns.set t { k with obj := op.after p k.obj 0 } })
      | some c =>
        let r := lib.reply c w.native
        (⟨(op.result lib k.obj r.rc).map Value.ofUnit, [(c, r)]⟩, { w with
          txns := w.txns.set t { k with
            obj := op.after p k.obj r.rc
            aborted := k.aborted || aborts (c, r) }
          native := lib.next c w.native }) := by
  have h := op.exec_perform lib p k.obj ⟨w.native, []⟩
  simp only [perform, hk, Eff.observe, Eff.exec_map, h]
  cases op.call p k.obj <;> simp

/-- A method on the contents makes one call. -/
theorem perform_access (hk : w.txns[t]? = some k) (he : w.dbis[d]? = some e) (m : Txn.Access) :
    let c := m.call k.obj.ptr e.obj.ptr
    let o := m.result lib (lib.reply c w.native)
    w.perform lib p (.access t d m) = (⟨o, [(c, lib.reply c w.native)]⟩, { w with
      dbis := w.dbis.set d { e with dropped := e.dropped || drops m o }
      cursors := w.cursors ++ positioned t o
      native := lib.next c w.native }) := by
  simp only [perform, hk, he, Eff.observe, Txn.Access.exec_perform, Session.log_after,
    Session.native_after, List.nil_append]
  rw [set_getElem?_self hk]

/-- So does opening a database. -/
theorem perform_dbiOpen (hk : w.txns[t]? = some k) (name : Option DbName)
    (options : List DbiOption) :
    let c := .mdbDbiOpen k.obj.ptr name (DbiOption.toFlags options)
    let o := (Txn.openResult lib (lib.reply c w.native)).map Value.dbi
    w.perform lib p (.dbiOpen t name options) = (⟨o, [(c, lib.reply c w.native)]⟩, { w with
      dbis := w.dbis ++ opened name t o
      native := lib.next c w.native }) := by
  simp only [perform, hk, Eff.observe, Eff.exec_map, Txn.exec_dbiOpen, Session.log_after,
    Session.native_after, List.nil_append]
  rw [set_getElem?_self hk]

/-- Beginning a nested transaction makes a call if the environment is open. -/
theorem perform_begin (hk : w.txns[t]? = some k) (options : List TxnOption) :
    w.perform lib p (.begin t options) =
      if w.env.isOpened then
        let c := .mdbTxnBegin w.env.ptr (some k.obj.ptr) 0
        let o := (Txn.beginResult lib (some k.obj.ptr) (lib.reply c w.native)).map Value.txn
        (⟨o, [(c, lib.reply c w.native)]⟩, { w with
          txns := w.txns ++ begun (k.lineage ++ [t]) false o
          native := lib.next c w.native })
      else (⟨.error (.lmdbException "Env is not open"), []⟩, w) := by
  simp only [perform, hk, Eff.observe, Eff.exec_map, Txn.begin, Eff.exec_bind, Eff.exec_self,
    Txn.exec_init]
  cases w.env.isOpened <;> simp [set_getElem?_self hk, begun]

/-- So does beginning a top-level one. -/
theorem perform_beginTxn (options : List TxnOption) :
    w.perform lib p (.env (.beginTxn options)) =
      if w.env.isOpened then
        let c := .mdbTxnBegin w.env.ptr none (TxnOption.toFlags options)
        let o := (Txn.beginResult lib none (lib.reply c w.native)).map Value.txn
        (⟨o, [(c, lib.reply c w.native)]⟩, { w with
          txns := w.txns ++ begun [] (.readOnly ∈ options) o
          native := lib.next c w.native })
      else (⟨.error (.lmdbException "Env is not open"), []⟩, w) := by
  simp only [perform, Eff.observe, Env.Method.perform, Eff.exec_map, Env.exec_beginTxn]
  cases w.env.isOpened <;> simp [begun, readsOnly]

/-- The other methods of the environment begin no transaction. -/
theorem perform_env {m : Env.Method} (hm : ∀ options, m ≠ .beginTxn options) :
    let r := (m.perform lib p).exec (w.env, ⟨w.native, []⟩)
    w.perform lib p (.env m) =
      (⟨r.1, r.2.2.log⟩, { w with env := r.2.1, native := r.2.2.native }) := by
  have hmap : ∀ {α : Type} (f : α → Value) (o : Except Exn α) (b : Bool),
      (∀ a t, f a ≠ .txn t) → begun [] b (o.map f) = [] := by
    intro α f o b hf
    cases o with
    | error e => rfl
    | ok a =>
      have hfa := hf a
      rw [Eff.map_ok]
      cases h : f a
      case txn t => exact absurd h (hfa t)
      all_goals rfl
  have hbegun : begun [] (readsOnly m) ((m.perform lib p).exec (w.env, ⟨w.native, []⟩)).1 = [] := by
    cases m with
    | beginTxn options => exact absurd rfl (hm options)
    | access m =>
      cases m
      all_goals
        simp only [Env.Method.perform, Env.Access.perform, Eff.exec_map]
        exact hmap _ _ _ (by simp)
    | _ =>
      simp only [Env.Method.perform, Eff.exec_map]
      exact hmap _ _ _ (by simp)
  simp only [perform, Eff.observe, hbegun, List.append_nil]

/-- The other methods of a database handle make one call. -/
theorem perform_dbi (he : w.dbis[d]? = some e) (hk : w.txns[t]? = some k) (m : Dbi.Method) :
    let c := m.call k.obj.ptr e.obj.ptr
    w.perform lib p (.dbi d t m) =
      (⟨m.result lib p (lib.reply c w.native), [(c, lib.reply c w.native)]⟩,
        { w with native := lib.next c w.native }) := by
  simp only [perform, he, hk, Eff.observe, Dbi.Method.exec_perform, Session.log_after,
    Session.native_after, List.nil_append]
  rw [set_getElem?_self he]

/-- `close` of a database handle makes a call the first time. -/
theorem perform_closeDbi (he : w.dbis[d]? = some e) :
    let c := .mdbDbiClose w.env.ptr e.obj.ptr
    w.perform lib p (.closeDbi d) =
      if e.obj.closed then (⟨.ok .unit, []⟩, w)
      else (⟨.ok .unit, [(c, lib.reply c w.native)]⟩, { w with
        dbis := w.dbis.set d { e with obj := { e.obj with closed := true } }
        native := lib.next c w.native }) := by
  simp only [perform, he, Eff.observe, Eff.exec_map, Dbi.exec_close]
  cases e.obj.closed <;> simp [set_getElem?_self he]

/-- The methods of a cursor make one call. -/
theorem perform_cursor (he : w.cursors[c]? = some e') (m : Cursor.Method) :
    let c' := m.call e'.obj.ptr
    w.perform lib p (.cursor c m) =
      (⟨m.result lib p (lib.reply c' w.native), [(c', lib.reply c' w.native)]⟩,
        { w with native := lib.next c' w.native }) := by
  simp only [perform, he, Eff.observe, Cursor.Method.exec_perform, Session.log_after,
    Session.native_after, List.nil_append]
  rw [set_getElem?_self he]

theorem perform_renewCursor (he : w.cursors[c]? = some e') (hk : w.txns[t]? = some k) :
    let c' := .mdbCursorRenew k.obj.ptr e'.obj.ptr
    w.perform lib p (.renewCursor c t) =
      (⟨(Cursor.renewResult lib (lib.reply c' w.native)).map Value.ofUnit,
          [(c', lib.reply c' w.native)]⟩,
        { w with native := lib.next c' w.native }) := by
  simp only [perform, he, hk, Eff.observe, Eff.exec_map, Cursor.exec_renew, Session.log_after,
    Session.native_after, List.nil_append]
  rw [set_getElem?_self he]

/-- `close` of a cursor makes a call, but for closed cursors on the JVM. -/
theorem perform_closeCursor (he : w.cursors[c]? = some e') :
    let c' := .mdbCursorClose e'.obj.ptr
    w.perform lib p (.closeCursor c) =
      if p = .jvm ∧ e'.obj.closed then
        (⟨.ok .unit, []⟩, { w with cursors := w.cursors.set c { e' with closed := true } })
      else (⟨.ok .unit, [(c', lib.reply c' w.native)]⟩, { w with
        cursors := w.cursors.set c { e' with
          obj := { e'.obj with closed := e'.obj.closed || p = .jvm }, closed := true }
        native := lib.next c' w.native }) := by
  simp only [perform, he, Eff.observe, Eff.exec_map, Cursor.exec_close]
  split <;> simp

/-! ## The call of a step -/

variable {lib p}

/-- The methods that call LMDB once at most: of the environment, `beginTxn`. -/
def Op.CallsOnce : Op → Prop
  | .env (.beginTxn _) => True
  | .env _ => False
  | _ => True

/-- The call such a method makes. -/
def callOf (p : Platform) (w : World N) : Op → Option Call
  | .env (.beginTxn options) =>
    if w.env.isOpened then some (.mdbTxnBegin w.env.ptr none (TxnOption.toFlags options)) else none
  | .env _ => none
  | .id t => w.txns[t]?.bind fun k =>
    if k.obj.state = .ready then some (.mdbTxnId k.obj.ptr) else none
  | .begin t _ => w.txns[t]?.bind fun k =>
    if w.env.isOpened then some (.mdbTxnBegin w.env.ptr (some k.obj.ptr) 0) else none
  | .life t op => w.txns[t]?.bind fun k => op.call p k.obj
  | .dbiOpen t name options =>
    w.txns[t]?.map fun k => .mdbDbiOpen k.obj.ptr name (DbiOption.toFlags options)
  | .access t d m => w.txns[t]?.bind fun k => w.dbis[d]?.map fun e => m.call k.obj.ptr e.obj.ptr
  | .dbi d t m => w.dbis[d]?.bind fun e => w.txns[t]?.map fun k => m.call k.obj.ptr e.obj.ptr
  | .closeDbi d => w.dbis[d]?.bind fun e =>
    if e.obj.closed then none else some (.mdbDbiClose w.env.ptr e.obj.ptr)
  | .cursor c m => w.cursors[c]?.map fun e => m.call e.obj.ptr
  | .renewCursor c t => w.cursors[c]?.bind fun e => w.txns[t]?.map fun k =>
    .mdbCursorRenew k.obj.ptr e.obj.ptr
  | .closeCursor c => w.cursors[c]?.bind fun e =>
    if p = .jvm ∧ e.obj.closed then none else some (.mdbCursorClose e.obj.ptr)

/-- A step makes the call given, if any, and no other one. -/
def Calls (lib : Library N) (w : World N) (c : Option Call) (r : Seen Value × World N) : Prop :=
  r.1.calls = c.toList.map (fun c => (c, lib.reply c w.native)) ∧
    r.2.native = c.elim w.native (lib.next · w.native)

theorem calls_skip : Calls lib w none w.skip := ⟨rfl, rfl⟩

/-- These methods make the call `callOf` tells. -/
theorem calls_perform {op : Op} (hop : Op.CallsOnce op) :
    Calls lib w (callOf p w op) (w.perform lib p op) := by
  -- A method whose object is not there makes no call; for the others `perform_*` names the
  -- reply, and a guard of the method is the guard in `callOf`.
  cases op with
  | env m =>
    cases m with
    | beginTxn options =>
      rw [perform_beginTxn, callOf]
      split <;> exact ⟨rfl, rfl⟩
    | access | «open» | close => exact hop.elim
  | id t =>
    rw [callOf]
    cases hk : w.txns[t]? with
    | none => simpa [perform, hk] using calls_skip
    | some k =>
      rw [perform_id _ _ hk, Option.bind_some]
      split <;> exact ⟨rfl, rfl⟩
  | begin t options =>
    rw [callOf]
    cases hk : w.txns[t]? with
    | none => simpa [perform, hk] using calls_skip
    | some k =>
      rw [perform_begin _ _ hk, Option.bind_some]
      split <;> exact ⟨rfl, rfl⟩
  | life t op =>
    rw [callOf]
    cases hk : w.txns[t]? with
    | none => simpa [perform, hk] using calls_skip
    | some k =>
      rw [perform_life _ _ hk, Option.bind_some]
      cases op.call p k.obj <;> exact ⟨rfl, rfl⟩
  | dbiOpen t name options =>
    rw [callOf]
    cases hk : w.txns[t]? with
    | none => simpa [perform, hk] using calls_skip
    | some k =>
      rw [perform_dbiOpen _ _ hk]
      exact ⟨rfl, rfl⟩
  | access t d m =>
    rw [callOf]
    cases hk : w.txns[t]? with
    | none => simpa [perform, hk] using calls_skip
    | some k =>
      cases he : w.dbis[d]? with
      | none => simpa [perform, hk, he] using calls_skip
      | some e =>
        rw [perform_access _ _ hk he]
        exact ⟨rfl, rfl⟩
  | dbi d t m =>
    rw [callOf]
    cases he : w.dbis[d]? with
    | none => simpa [perform, he] using calls_skip
    | some e =>
      cases hk : w.txns[t]? with
      | none => simpa [perform, hk, he] using calls_skip
      | some k =>
        rw [perform_dbi _ _ he hk]
        exact ⟨rfl, rfl⟩
  | closeDbi d =>
    rw [callOf]
    cases he : w.dbis[d]? with
    | none => simpa [perform, he] using calls_skip
    | some e =>
      rw [perform_closeDbi _ _ he, Option.bind_some]
      split <;> exact ⟨rfl, rfl⟩
  | cursor c m =>
    rw [callOf]
    cases he : w.cursors[c]? with
    | none => simpa [perform, he] using calls_skip
    | some e =>
      rw [perform_cursor _ _ he]
      exact ⟨rfl, rfl⟩
  | renewCursor c t =>
    rw [callOf]
    cases he : w.cursors[c]? with
    | none => simpa [perform, he] using calls_skip
    | some e =>
      cases hk : w.txns[t]? with
      | none => simpa [perform, hk, he] using calls_skip
      | some k =>
        rw [perform_renewCursor _ _ he hk]
        exact ⟨rfl, rfl⟩
  | closeCursor c =>
    rw [callOf]
    cases he : w.cursors[c]? with
    | none => simpa [perform, he] using calls_skip
    | some e =>
      rw [perform_closeCursor _ _ he, Option.bind_some]
      split <;> exact ⟨rfl, rfl⟩

/-- The calls the methods make, and the objects they make them on. -/
inductive Made (p : Platform) (w : World N) : Op → Call → Prop
  | beginTxn {options : List TxnOption} :
      Made p w (.env (.beginTxn options)) (.mdbTxnBegin w.env.ptr none (TxnOption.toFlags options))
  | id {t : ℕ} {k : TxnEntry} (hk : w.txns[t]? = some k) : Made p w (.id t) (.mdbTxnId k.obj.ptr)
  | begin {t : ℕ} {options : List TxnOption} {k : TxnEntry} (hk : w.txns[t]? = some k) :
      Made p w (.begin t options) (.mdbTxnBegin w.env.ptr (some k.obj.ptr) 0)
  | life {t : ℕ} {op : Txn.Lifecycle} {k : TxnEntry} {c : Call} (hk : w.txns[t]? = some k)
      (hc : op.call p k.obj = some c) : Made p w (.life t op) c
  | dbiOpen {t : ℕ} {name : Option DbName} {options : List DbiOption} {k : TxnEntry}
      (hk : w.txns[t]? = some k) :
      Made p w (.dbiOpen t name options) (.mdbDbiOpen k.obj.ptr name (DbiOption.toFlags options))
  | access {t d : ℕ} {m : Txn.Access} {k : TxnEntry} {e : DbiEntry} (hk : w.txns[t]? = some k)
      (he : w.dbis[d]? = some e) : Made p w (.access t d m) (m.call k.obj.ptr e.obj.ptr)
  | dbi {t d : ℕ} {m : Dbi.Method} {k : TxnEntry} {e : DbiEntry} (hk : w.txns[t]? = some k)
      (he : w.dbis[d]? = some e) : Made p w (.dbi d t m) (m.call k.obj.ptr e.obj.ptr)
  | closeDbi {d : ℕ} {e : DbiEntry} (he : w.dbis[d]? = some e) (hclosed : ¬e.obj.closed) :
      Made p w (.closeDbi d) (.mdbDbiClose w.env.ptr e.obj.ptr)
  | cursor {c : ℕ} {m : Cursor.Method} {e : CursorEntry} (he : w.cursors[c]? = some e) :
      Made p w (.cursor c m) (m.call e.obj.ptr)
  | renewCursor {c t : ℕ} {k : TxnEntry} {e : CursorEntry} (hk : w.txns[t]? = some k)
      (he : w.cursors[c]? = some e) :
      Made p w (.renewCursor c t) (.mdbCursorRenew k.obj.ptr e.obj.ptr)
  | closeCursor {c : ℕ} {e : CursorEntry} (he : w.cursors[c]? = some e)
      (hclosed : ¬(p = .jvm ∧ e.obj.closed)) :
      Made p w (.closeCursor c) (.mdbCursorClose e.obj.ptr)

theorem made_of_callOf {op : Op} {c : Call} (hc : c ∈ callOf p w op) : Made p w op c := by
  -- Each method makes its call when its objects are there and its guard lets it pass.
  cases op with
  | env m =>
    cases m with
    | beginTxn =>
      obtain ⟨-, ⟨⟩⟩ := Option.ite_none_right_eq_some.1 hc
      exact .beginTxn
    | access | «open» | close => cases hc
  | id t =>
    obtain ⟨k, hk, hc⟩ := Option.bind_eq_some_iff.1 hc
    obtain ⟨-, ⟨⟩⟩ := Option.ite_none_right_eq_some.1 hc
    exact .id hk
  | begin t options =>
    obtain ⟨k, hk, hc⟩ := Option.bind_eq_some_iff.1 hc
    obtain ⟨-, ⟨⟩⟩ := Option.ite_none_right_eq_some.1 hc
    exact .begin hk
  | life t op =>
    obtain ⟨k, hk, hc⟩ := Option.bind_eq_some_iff.1 hc
    exact .life hk hc
  | dbiOpen t name options =>
    obtain ⟨k, hk, rfl⟩ := Option.map_eq_some_iff.1 hc
    exact .dbiOpen hk
  | access t d m =>
    obtain ⟨k, hk, hc⟩ := Option.bind_eq_some_iff.1 hc
    obtain ⟨e, he, rfl⟩ := Option.map_eq_some_iff.1 hc
    exact .access hk he
  | dbi d t m =>
    obtain ⟨e, he, hc⟩ := Option.bind_eq_some_iff.1 hc
    obtain ⟨k, hk, rfl⟩ := Option.map_eq_some_iff.1 hc
    exact .dbi hk he
  | closeDbi d =>
    obtain ⟨e, he, hc⟩ := Option.bind_eq_some_iff.1 hc
    obtain ⟨hclosed, ⟨⟩⟩ := Option.ite_none_left_eq_some.1 hc
    exact .closeDbi he hclosed
  | cursor c m =>
    obtain ⟨e, he, rfl⟩ := Option.map_eq_some_iff.1 hc
    exact .cursor he
  | renewCursor c t =>
    obtain ⟨e, he, hc⟩ := Option.bind_eq_some_iff.1 hc
    obtain ⟨k, hk, rfl⟩ := Option.map_eq_some_iff.1 hc
    exact .renewCursor hk he
  | closeCursor c =>
    obtain ⟨e, he, hc⟩ := Option.bind_eq_some_iff.1 hc
    obtain ⟨hclosed, ⟨⟩⟩ := Option.ite_none_left_eq_some.1 hc
    exact .closeCursor he hclosed

/-! ## What they leave alone -/

/-- The life of the environment and of transactions. -/
def Op.IsLife : Op → Prop
  | .env _ | .begin _ _ | .life _ _ => True
  | _ => False

theorem Op.callsOnce_of_not_isLife {op : Op} (hop : ¬Op.IsLife op) : Op.CallsOnce op := by
  cases op
  case env | begin | life => exact absurd trivial hop
  all_goals trivial

/-- Calls on databases and cursors do not matter to transactions. -/
theorem not_isLife_callOf {op : Op} (hop : ¬Op.IsLife op) :
    ∀ c' ∈ callOf p w op, ¬c'.IsLife := by
  intro c' hc
  cases made_of_callOf hc
  case beginTxn | begin | life => exact absurd trivial hop
  case access m _ _ _ _ | dbi m _ _ _ _ | cursor m _ _ => cases m <;> exact not_false
  all_goals exact not_false

/-- Nor do they touch the transactions. -/
theorem txns_perform {op : Op} (hop : ¬Op.IsLife op) :
    (w.perform lib p op).2.env = w.env ∧ (w.perform lib p op).2.txns = w.txns := by
  cases op with
  | env | begin | life => exact absurd trivial hop
  | id t =>
    cases hk : w.txns[t]? with
    | none => simp [perform, hk, skip]
    | some k =>
      rw [perform_id _ _ hk]
      split <;> exact ⟨rfl, rfl⟩
  | dbiOpen t name options =>
    cases hk : w.txns[t]? with
    | none => simp [perform, hk, skip]
    | some k =>
      rw [perform_dbiOpen _ _ hk]
      exact ⟨rfl, rfl⟩
  | access t d m =>
    cases hk : w.txns[t]? with
    | none => simp [perform, hk, skip]
    | some k =>
      cases he : w.dbis[d]? with
      | none => simp [perform, hk, he, skip]
      | some e =>
        rw [perform_access _ _ hk he]
        exact ⟨rfl, rfl⟩
  | dbi | closeDbi | cursor | renewCursor | closeCursor =>
    rw [perform]
    split <;> exact ⟨rfl, rfl⟩

/-- Where a transaction was begun, and its handle. -/
def origins (w : World N) : List (List ℕ × Ptr) := w.txns.map fun k => (k.lineage, k.obj.ptr)

theorem getElem?_origins (hk : w.txns[t]? = some k) :
    w.origins[t]? = some (k.lineage, k.obj.ptr) := by
  simp [origins, hk]

/-- A method begins the transaction given. -/
inductive Begins (lib : Library N) (p : Platform) (w : World N) : Op → List ℕ × Ptr → Prop
  | beginTxn {options : List TxnOption} {c : Call}
      (hc : callOf p w (.env (.beginTxn options)) = some c)
      (hrc : (lib.reply c w.native).rc = 0) :
      Begins lib p w (.env (.beginTxn options)) ([], (lib.reply c w.native).ptr)
  | begin {t : ℕ} {options : List TxnOption} {k : TxnEntry} {c : Call} (hk : w.txns[t]? = some k)
      (hc : callOf p w (.begin t options) = some c) (hrc : (lib.reply c w.native).rc = 0) :
      Begins lib p w (.begin t options) (k.lineage ++ [t], (lib.reply c w.native).ptr)

theorem begun_cases {lineage : List ℕ} {readOnly : Bool} {parentTx : Option Ptr} {r : Reply} :
    (begun lineage readOnly ((Txn.beginResult lib parentTx r).map Value.txn)).map
        (fun k => (k.lineage, k.obj.ptr)) = if r.rc = 0 then [(lineage, r.ptr)] else [] := by
  rw [Txn.beginResult]
  split <;> rfl

variable (lib p w) in
/-- Transactions keep both, and a method begins at most one. -/
theorem origins_perform {op : Op} (hop : Op.CallsOnce op) :
    (w.perform lib p op).2.origins = w.origins ∨
      ∃ o, Begins lib p w op o ∧ (w.perform lib p op).2.origins = w.origins ++ [o] := by
  by_cases hlife : Op.IsLife op
  · cases op with
    | env m =>
      cases m with
      | beginTxn options =>
        by_cases hopened : w.env.isOpened
        · have hc : callOf p w (.env (.beginTxn options)) = some _ := if_pos hopened
          rw [perform_beginTxn, if_pos hopened]
          by_cases hrc : (lib.reply (.mdbTxnBegin w.env.ptr none (TxnOption.toFlags options))
              w.native).rc = 0
          · refine .inr ⟨_, .beginTxn hc hrc, ?_⟩
            simp only [origins, List.map_append, begun_cases, if_pos hrc]
          · refine .inl ?_
            simp only [origins, List.map_append, begun_cases, if_neg hrc, List.append_nil]
        · rw [perform_beginTxn, if_neg hopened]
          exact .inl rfl
      | access | «open» | close => exact hop.elim
    | begin t options =>
      cases hk : w.txns[t]? with
      | none => exact .inl (by simp [perform, hk, skip])
      | some k =>
        by_cases hopened : w.env.isOpened
        · have hc : callOf p w (.begin t options) =
              some (.mdbTxnBegin w.env.ptr (some k.obj.ptr) 0) := by
            simp [callOf, hk, hopened]
          rw [perform_begin _ _ hk, if_pos hopened]
          by_cases hrc : (lib.reply (.mdbTxnBegin w.env.ptr (some k.obj.ptr) 0) w.native).rc = 0
          · refine .inr ⟨_, .begin hk hc hrc, ?_⟩
            simp only [origins, List.map_append, begun_cases, if_pos hrc]
          · refine .inl ?_
            simp only [origins, List.map_append, begun_cases, if_neg hrc, List.append_nil]
        · rw [perform_begin _ _ hk, if_neg hopened]
          exact .inl rfl
    | life t op =>
      refine .inl ?_
      cases hk : w.txns[t]? with
      | none => simp [perform, hk, skip]
      | some k =>
        have hset {k' : TxnEntry} (hlineage : k'.lineage = k.lineage)
            (hptr : k'.obj.ptr = k.obj.ptr) :
            (w.txns.set t k').map (fun k => (k.lineage, k.obj.ptr)) = w.origins := by
          rw [List.map_set, hlineage, hptr]
          exact set_getElem?_self (getElem?_origins hk)
        rw [perform_life _ _ hk]
        cases op.call p k.obj with
        | none => exact hset rfl (op.ptr_after p k.obj 0)
        | some c => exact hset rfl (op.ptr_after p k.obj _)
    | _ => exact hlife.elim
  · exact .inl (by rw [origins, (txns_perform hlife).2, origins])

/-- The methods that open and close cursors. -/
def Op.IsCursorLife : Op → Prop
  | .access _ _ .openCursor | .closeCursor _ => True
  | _ => False

/-- All others leave them alone. -/
theorem cursors_perform {op : Op} (hop : ¬Op.IsCursorLife op) :
    (w.perform lib p op).2.cursors = w.cursors := by
  cases op with
  | access t d m =>
    cases hk : w.txns[t]? with
    | none => simp [perform, hk, skip]
    | some k =>
      cases he : w.dbis[d]? with
      | none => simp [perform, hk, he, skip]
      | some e =>
        rw [perform_access _ _ hk he]
        cases m
        case openCursor => exact absurd trivial hop
        all_goals
          simp only [Txn.Access.result]
          split <;> exact List.append_nil _
  | cursor c m =>
    cases he : w.cursors[c]? with
    | none => simp [perform, he, skip]
    | some e => rw [perform_cursor _ _ he]
  | renewCursor c t =>
    cases he : w.cursors[c]? with
    | none => simp [perform, he, skip]
    | some e =>
      cases hk : w.txns[t]? with
      | none => simp [perform, hk, he, skip]
      | some k => rw [perform_renewCursor _ _ he hk]
  | closeCursor => exact absurd trivial hop
  | env => rfl
  | id | begin | life | dbiOpen | dbi | closeDbi =>
    rw [perform]
    split <;> rfl

end World

end KotlinLmdb
