import KotlinLmdb.Lmdb.Handles
import KotlinLmdb.World

/-!
# Transactions that are not ready

What comes of calling `get`, `put`, `delete`, `drop`, `empty`, `dbiOpen`,
`openCursor` or `begin` on a transaction that is not ready, in a world over LMDB
with its handles. The call should be refused without effect (`Txn.Harmless`). The
wrapper does not look at the state but hands its stale handle to LMDB: so the call
is harmless exactly if LMDB refuses the handle at that moment (`Txn.Refused`), in
any run (`Txn.harmless_iff`).
-/

namespace KotlinLmdb

namespace Txn

open World

variable (p : Platform)

/-- The transaction a call on the contents goes through, if its objects exist. -/
def through {N : Type} (w : World N) : Op → Option Txn
  | .begin t _ | .dbiOpen t _ _ => w.txns[t]?.map (·.obj)
  | .access t d _ => if d < w.dbis.length then w.txns[t]?.map (·.obj) else none
  | _ => none

/-- The call is one that LMDB refuses in read-only transactions. -/
def writes : Op → Bool
  | .begin .. => true
  | .access _ _ m => m.writes
  | _ => false

/-- A call through a transaction that is not ready throws, and leaves the
    wrapper's objects and LMDB as they were: LMDB carries no request out. -/
def Harmless (w : World Handles) (op : Op) : Prop :=
  ∀ t, through w op = some t → t.state ≠ .ready →
    (∃ message, ((machine Handles.library p).out w op).outcome = .error (.lmdbException message)) ∧
      (machine Handles.library p).next w op = w

/-- LMDB refuses the handle of a transaction that is not ready, or is not called as
    the environment is not open. -/
def Refused (w : World Handles) (op : Op) : Prop :=
  ∀ t, through w op = some t → t.state ≠ .ready →
    (w.native.status t.ptr).refuses (writes op) ∨
      (∃ t options, op = .begin t options) ∧ ¬w.env.isOpened

variable {p} {w : World Handles} {op : Op}

/-- LMDB refuses the calls on the contents by the status of the handle. -/
theorem access_spec (s : Handles) (h dbi : Ptr) (m : Access) :
    if (s.status h).refuses m.writes then s.Declines (Handles.answer (m.call h dbi) s)
    else s.Serves (Handles.answer (m.call h dbi) s) := by
  cases m
  case get => exact s.read_spec h
  case openCursor => exact s.cursorOpen_spec h
  all_goals exact s.write_spec h

/-- A call through a transaction is harmless if LMDB refuses it, and leaves traces
    if not. -/
theorem harmless_iff_of_answer {t : Txn} (ht : through w op = some t) (hready : t.state ≠ .ready)
    {r : Reply × Handles}
    (hdeclines : w.native.Declines r →
      (∃ message,
        ((machine Handles.library p).out w op).outcome = .error (.lmdbException message)) ∧
        (machine Handles.library p).next w op = w)
    (hnative : ((machine Handles.library p).next w op).native = r.2)
    (hr : if (w.native.status t.ptr).refuses (writes op) then w.native.Declines r
      else w.native.Serves r) :
    Harmless p w op ↔ (w.native.status t.ptr).refuses (writes op) := by
  constructor
  · intro h
    by_contra hn
    rw [if_neg hn] at hr
    exact hr.ne (hnative ▸ congrArg World.native (h t ht hready).2)
  · intro h t' ht' _
    rw [if_pos h] at hr
    exact hdeclines hr

theorem refused_iff {t : Txn} (ht : through w op = some t) (hready : t.state ≠ .ready)
    (hop : w.env.isOpened ∨ ∀ t options, op ≠ .begin t options) :
    Refused w op ↔ (w.native.status t.ptr).refuses (writes op) := by
  constructor
  · intro h
    rcases h t ht hready with h | ⟨⟨t', options, hb⟩, ho⟩
    · exact h
    · rcases hop with hop | hop
      · exact absurd hop ho
      · exact absurd hb (hop t' options)
  · intro h t' ht' _
    cases ht.symm.trans ht'
    exact .inl h

theorem harmless_begin {t : ℕ} {k : TxnEntry} {options : List TxnOption}
    (hk : w.txns[t]? = some k) (hready : k.obj.state ≠ .ready) :
    Harmless p w (.begin t options) ↔ Refused w (.begin t options) := by
  have ht : through w (.begin t options) = some k.obj := by simp [through, hk]
  have hperform := perform_begin Handles.library p hk options
  by_cases ho : w.env.isOpened
  · rw [if_pos ho] at hperform
    rw [refused_iff ht hready (.inl ho)]
    refine harmless_iff_of_answer ht hready (r := w.native.txnBegin (some k.obj.ptr) 0) ?_ ?_
      (w.native.txnBegin_spec k.obj.ptr)
    · rintro ⟨rc, h0, -, hr⟩
      rw [out_machine, next_machine, hperform]
      simp [Handles.answer, hr, Handles.refuse, beginResult, h0, getException, begun]
    · rw [next_machine, hperform]
      rfl
  · -- LMDB is not called at all
    rw [if_neg ho] at hperform
    refine iff_of_true (fun t' _ _ => ?_) fun t' _ _ => .inr ⟨⟨_, _, rfl⟩, ho⟩
    rw [out_machine, next_machine, hperform]
    exact ⟨⟨_, rfl⟩, rfl⟩

theorem harmless_dbiOpen {t : ℕ} {k : TxnEntry} {name : Option DbName} {options : List DbiOption}
    (hk : w.txns[t]? = some k) (hready : k.obj.state ≠ .ready) :
    Harmless p w (.dbiOpen t name options) ↔ Refused w (.dbiOpen t name options) := by
  have ht : through w (.dbiOpen t name options) = some k.obj := by simp [through, hk]
  have hperform := perform_dbiOpen Handles.library p hk name options
  rw [refused_iff ht hready (.inr fun _ _ h => nomatch h)]
  refine harmless_iff_of_answer ht hready (r := w.native.dbiOpen k.obj.ptr) ?_ ?_
    (w.native.dbiOpen_spec k.obj.ptr)
  · rintro ⟨rc, h0, -, hr⟩
    rw [out_machine, next_machine, hperform]
    simp [Handles.answer, hr, Handles.refuse, openResult, h0, getException, opened]
  · rw [next_machine, hperform]
    rfl

theorem harmless_access {t d : ℕ} {k : TxnEntry} {e : DbiEntry} {m : Access}
    (hk : w.txns[t]? = some k) (he : w.dbis[d]? = some e) (hready : k.obj.state ≠ .ready) :
    Harmless p w (.access t d m) ↔ Refused w (.access t d m) := by
  have ht : through w (.access t d m) = some k.obj := by
    simp [through, hk, (List.getElem?_eq_some_iff.1 he).1]
  have hperform := perform_access Handles.library p hk he m
  rw [refused_iff ht hready (.inr fun _ _ h => nomatch h)]
  refine harmless_iff_of_answer ht hready
    (r := Handles.answer (m.call k.obj.ptr e.obj.ptr) w.native) ?_ ?_
    (access_spec w.native k.obj.ptr e.obj.ptr m)
  · rintro ⟨rc, h0, hn, hr⟩
    have hresult :
        ∃ message, m.result Handles.library { rc } = .error (.lmdbException message) := by
      cases m <;> simp [Access.result, h0, hn, getException]
    obtain ⟨message, hresult⟩ := hresult
    rw [out_machine, next_machine, hperform]
    simp [hr, Handles.refuse, hresult, drops, positioned, set_getElem?_self he]
  · rw [next_machine, hperform]
    rfl

/-- Of the calls through a transaction that is not ready, those are harmless that
    LMDB refuses. -/
theorem harmless_iff_refused (w : World Handles) (op : Op) : Harmless p w op ↔ Refused w op := by
  cases ht : through w op with
  | none => simp [Harmless, Refused, ht]
  | some t =>
    by_cases hready : t.state = .ready
    · simp [Harmless, Refused, ht, hready]
    · cases op with
      | begin i options =>
        obtain ⟨k, hk, rfl⟩ := Option.map_eq_some_iff.1 ht
        exact harmless_begin hk hready
      | dbiOpen i name options =>
        obtain ⟨k, hk, rfl⟩ := Option.map_eq_some_iff.1 ht
        exact harmless_dbiOpen hk hready
      | access i d m =>
        simp only [through, Option.ite_none_right_eq_some] at ht
        obtain ⟨hd, ht⟩ := ht
        obtain ⟨k, hk, rfl⟩ := Option.map_eq_some_iff.1 ht
        exact harmless_access hk (List.getElem?_eq_getElem hd) hready
      | env | id | life | dbi | closeDbi | cursor | renewCursor | closeCursor => cases ht

/-- Over any run, the calls through transactions that are not ready are all
    harmless if and only if LMDB refuses each of them. -/
theorem harmless_iff (env : Env) (native : Handles) (ops : List Op) :
    (machine Handles.library p).Along (Harmless p) { env, native } ops ↔
      (machine Handles.library p).Along Refused { env, native } ops :=
  Machine.along_iff_of_inv (I := fun _ => True) (fun w op _ => harmless_iff_refused w op)
    (fun _ _ _ _ => trivial) ops trivial

/-- A transaction opens a database and commits; while the next write transaction is
    live, a `put` through the first one succeeds, on both platforms. -/
theorem not_harmless_put_after_commit :
    let start : World Handles :=
      { env := { ptr := 1, mapSize := 0, isOpened := true }, native := { results := fun _ => {} } }
    let key : Bytes := ⟨[1], by decide⟩
    let data : Bytes := ⟨[2], by decide⟩
    let ops : List Op := [.env (.beginTxn []), .dbiOpen 0 none [], .life 0 .commit,
      .env (.beginTxn []), .access 0 0 (.put key.toVal data.toVal [])]
    ¬(machine Handles.library .jvm).Along (Harmless .jvm) start ops ∧
      ¬(machine Handles.library .native).Along (Harmless .native) start ops := by
  refine ⟨fun h => ?_, fun h => ?_⟩
  all_goals
    obtain ⟨⟨message, hmessage⟩, -⟩ := h.2.2.2.2.1 { ptr := 0, state := .done } rfl (by decide)
    cases hmessage

end Txn

end KotlinLmdb
