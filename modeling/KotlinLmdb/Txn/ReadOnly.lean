import KotlinLmdb.Lmdb.Contents
import KotlinLmdb.World

/-!
# Read-only transactions

What can be written through a transaction begun with `ReadOnly`, in a world over LMDB
with its contents: nothing (`Txn.NeverWrites`). That is so for `beginTxn`, which hands
the options on to LMDB. But `begin` does not, so that the nested transaction is a write
transaction like its parent. The options are honoured exactly if the transaction is not
nested, or LMDB does not let it begin (`Txn.neverWrites_iff`).
-/

namespace KotlinLmdb

namespace Contents

variable {D : Type} (effect : Call → D → D) {s s' : Contents D} {h c : Ptr}

/-- The contents are the same, and the live transactions. -/
structure Keeps (s s' : Contents D) : Prop where
  committed : s'.committed = s.committed
  seen : s'.seen = s.seen
  txns : s.handles.SameTxns s'.handles

theorem Keeps.refl (s : Contents D) : Keeps s s := ⟨rfl, rfl, .refl s.handles⟩

theorem keeps_change (hr : s.handles.status h = .reader) (call : Call) {r : Reply × Handles}
    (hs : s.handles.SameTxns r.2) : Keeps s (s.change effect h call r).2 where
  committed := rfl
  seen := if_neg fun h => by simp [hr] at h
  txns := hs

/-- A read-only transaction changes no contents. -/
theorem keeps_access (hr : s.handles.status h = .reader) (m : Txn.Access) (dbi : Ptr) :
    Keeps s (answer effect (m.call h dbi) s).2 := by
  cases m with
  | put | delete | deleteData | drop | empty =>
    exact keeps_change effect hr _ (s.handles.sameTxns_write h)
  | get => exact ⟨rfl, rfl, s.handles.sameTxns_read h⟩
  | openCursor => exact ⟨rfl, rfl, s.handles.sameTxns_cursorOpen h⟩

/-- Neither do its cursors. -/
theorem keeps_cursor (hr : s.handles.status (s.owner c) = .reader) (m : Cursor.Method) :
    Keeps s (answer effect (m.call c) s).2 := by
  cases m with
  | delete | deleteDuplicateData | put =>
    exact keeps_change effect hr _ (s.handles.sameTxns_write (s.owner c))
  | get | getKey | getKeyData | countDuplicates => exact ⟨rfl, rfl, s.handles.sameTxns_request⟩

/-- Writing in a read-only transaction is refused. -/
theorem refused_access (hr : s.handles.status h = .reader) {m : Txn.Access} (hm : m.writes)
    (dbi : Ptr) : (answer effect (m.call h dbi) s).1 = { rc := eacces } := by
  have hwrite : (s.handles.write h).1 = { rc := eacces } := by rw [Handles.write, hr]; rfl
  cases m with
  | put | delete | deleteData | drop | empty => exact hwrite
  | get | openCursor => cases hm

/-- So it is through its cursors. -/
theorem refused_cursor (hr : s.handles.status (s.owner c) = .reader) {m : Cursor.Method}
    (hm : m.writes) : (answer effect (m.call c) s).1 = { rc := eacces } := by
  have hwrite : (s.handles.write (s.owner c)).1 = { rc := eacces } := by
    rw [Handles.write, hr]
    rfl
  cases m with
  | delete | deleteDuplicateData | put => exact hwrite
  | get | getKey | getKeyData | countDuplicates => cases hm

/-- A method that returns a cursor has opened it. -/
theorem result_eq_cursor {N : Type} {lib : Library N} {m : Txn.Access} {r : Reply} {obj : Cursor}
    (ho : m.result lib r = .ok (.cursor obj)) : m = .openCursor ∧ r.rc = 0 ∧ obj.ptr = r.ptr := by
  cases m with
  | openCursor =>
    rw [Txn.Access.result] at ho
    split at ho
    · cases ho
      exact ⟨rfl, ‹_›, rfl⟩
    · cases ho
  | get | put | delete | deleteData | drop | empty =>
    simp only [Txn.Access.result] at ho
    split at ho <;> cases ho

/-- Cursors stay with their transactions, but for one opened. -/
theorem owner_access (m : Txn.Access) (dbi c : Ptr) :
    (answer effect (m.call h dbi) s).2.owner c = s.owner c ∨
      (answer effect (m.call h dbi) s).2.owner c = h := by
  cases m with
  | get | put | delete | deleteData | drop | empty => exact .inl rfl
  | openCursor =>
    simp only [Txn.Access.call, answer, own]
    split
    · by_cases hc : c = (s.handles.cursorOpen h).1.ptr
      · exact .inr (by rw [hc, Function.update_self])
      · exact .inl (Function.update_of_ne hc ..)
    · exact .inl rfl

theorem owner_cursor (m : Cursor.Method) :
    (answer effect (m.call c) s).2.owner = s.owner := by
  cases m <;> rfl

/-- The cursor opened goes through the transaction. -/
theorem owner_opened {m : Txn.Access} {dbi : Ptr} {obj : Cursor}
    (ho : m.result (library effect) (answer effect (m.call h dbi) s).1 = .ok (.cursor obj)) :
    (answer effect (m.call h dbi) s).2.owner obj.ptr = h := by
  obtain ⟨rfl, hrc, hptr⟩ := result_eq_cursor ho
  rw [hptr]
  simp only [Txn.Access.call, answer, own] at hrc ⊢
  rw [if_pos hrc, Function.update_self]

end Contents

namespace Txn

open World

variable {D : Type} (effect : Call → D → D) (p : Platform)

/-- The ways to a transaction with options: `beginTxn`, or `begin` on a transaction. -/
inductive Source
  | beginTxn
  | begin (t : ℕ)

/-- The call that begins it. -/
def Source.op (options : List TxnOption) : Source → Op
  | beginTxn => .env (.beginTxn options)
  | begin t => .begin t options

/-- The objects it is called on exist. -/
def Source.Exists {N : Type} (w : World N) : Source → Prop
  | beginTxn => True
  | begin t => t < w.txns.length

/-- A call on the transaction begun in this world, or on cursors opened since. -/
def Through {N : Type} (w : World N) : Op → Prop
  | .access t _ _ | .dbiOpen t _ _ => t = w.txns.length
  | .cursor c _ => w.cursors.length ≤ c
  | _ => False

/-- A call that is to write, on objects that exist. -/
def Writing {N : Type} (w : World N) : Op → Prop
  | .access _ d m => m.writes ∧ d < w.dbis.length
  | .cursor c m => m.writes ∧ c < w.cursors.length
  | _ => False

/-- A call that leaves the contents as they are, and throws if it is to write. -/
structure Withheld (w : World (Contents D)) (op : Op) : Prop where
  throws : Writing w op → ∃ message,
    ((machine (Contents.library effect) p).out w op).outcome = .error (.lmdbException message)
  committed : ((machine (Contents.library effect) p).next w op).native.committed =
    w.native.committed
  seen : ((machine (Contents.library effect) p).next w op).native.seen = w.native.seen

/-- However LMDB answers: the transaction is not begun, or what is called on it does not
    write. -/
def NeverWrites (w : World (Contents D)) (source : Source) (options : List TxnOption) : Prop :=
  ∀ results, let w' := { w with native := w.native.answering results }
    let r := w'.perform (Contents.library effect) p (source.op options)
    (∃ message, r.1.outcome = .error (.lmdbException message)) ∨
      r.2.native.committed = w.native.committed ∧
        ∀ ops, (∀ op ∈ ops, Through w op) →
          (machine (Contents.library effect) p).Along (Withheld effect p) r.2 ops

/-- Options that are honoured: of a transaction begun in an environment that was not
    closed; or of one that cannot be nested. -/
def Honoured (w : World (Contents D)) : Source → Prop
  | .beginTxn => w.env.isOpened → w.native.handles.closed = false
  | .begin t => ∀ k, w.txns[t]? = some k → w.env.isOpened →
    (w.native.handles.status k.obj.ptr).refuses true

/-- The transaction begun in the world `w` is read-only in LMDB, and so are the cursors
    opened since. -/
structure ReadsOnly (w w' : World (Contents D)) (k : TxnEntry) : Prop where
  entry : w'.txns[w.txns.length]? = some k
  reader : w'.native.handles.status k.obj.ptr = .reader
  owner : ∀ c e, w'.cursors[c]? = some e → w.cursors.length ≤ c →
    w'.native.owner e.obj.ptr = k.obj.ptr

variable {effect p} {w w' : World (Contents D)} {k : TxnEntry} {op : Op}

/-- What is called through a read-only transaction keeps the contents. -/
theorem ReadsOnly.keeps (hw : ReadsOnly w w' k) (hop : Through w op) :
    Contents.Keeps w'.native ((machine (Contents.library effect) p).next w' op).native := by
  rw [next_machine]
  cases op with
  | access t d m =>
    obtain rfl : t = w.txns.length := hop
    cases he : w'.dbis[d]? with
    | none => simpa only [perform, hw.entry, he] using .refl _
    | some e =>
      rw [perform_access _ _ hw.entry he]
      exact Contents.keeps_access effect hw.reader m e.obj.ptr
  | dbiOpen t name options =>
    obtain rfl : t = w.txns.length := hop
    rw [perform_dbiOpen _ _ hw.entry]
    exact Contents.keeps_change effect hw.reader _ (w'.native.handles.sameTxns_dbiOpen _)
  | cursor c m =>
    cases he : w'.cursors[c]? with
    | none => simpa only [perform, he] using .refl _
    | some e =>
      rw [perform_cursor _ _ he]
      refine Contents.keeps_cursor effect ?_ m
      rw [hw.owner c e he hop]
      exact hw.reader
  | env | id | begin | life | dbi | closeDbi | renewCursor | closeCursor => exact hop.elim

/-- What is to write through it throws. -/
theorem ReadsOnly.throws (hw : ReadsOnly w w' k) (hop : Through w op) (hwriting : Writing w' op) :
    ∃ message, ((machine (Contents.library effect) p).out w' op).outcome =
      .error (.lmdbException message) := by
  rw [out_machine]
  cases op with
  | access t d m =>
    obtain rfl : t = w.txns.length := hop
    obtain ⟨hm, hd⟩ := hwriting
    rw [perform_access _ _ hw.entry (List.getElem?_eq_getElem hd), Contents.reply_library,
      Contents.refused_access effect hw.reader hm]
    cases m with
    | put | delete | deleteData | drop | empty => exact ⟨_, rfl⟩
    | get | openCursor => cases hm
  | cursor c m =>
    obtain ⟨hm, hc⟩ := hwriting
    have he := List.getElem?_eq_getElem hc
    have hreader : w'.native.handles.status (w'.native.owner w'.cursors[c].obj.ptr) = .reader := by
      rw [hw.owner c _ he hop]
      exact hw.reader
    rw [perform_cursor _ _ he, Contents.reply_library, Contents.refused_cursor effect hreader hm]
    cases m with
    | delete | deleteDuplicateData => exact ⟨_, rfl⟩
    | put => cases p <;> exact ⟨_, rfl⟩
    | get | getKey | getKeyData | countDuplicates => cases hm
  | env | id | begin | life | dbiOpen | dbi | closeDbi | renewCursor | closeCursor =>
    exact hwriting.elim

theorem eq_of_mem_positioned {owner : ℕ} {o : Except Exn Value} {e : CursorEntry}
    (he : e ∈ positioned owner o) : o = .ok (.cursor e.obj) := by
  simp only [positioned] at he
  split at he
  · rw [List.mem_singleton.1 he]
  · exact absurd he List.not_mem_nil

/-- The cursors after a call through a transaction: one may be opened. -/
theorem ReadsOnly.owner_next (hw : ReadsOnly w w' k) (hop : Through w op) (c : ℕ) (e : CursorEntry)
    (he : ((machine (Contents.library effect) p).next w' op).cursors[c]? = some e)
    (hc : w.cursors.length ≤ c) :
    ((machine (Contents.library effect) p).next w' op).native.owner e.obj.ptr = k.obj.ptr := by
  rw [next_machine] at he ⊢
  cases op with
  | access t d m =>
    obtain rfl : t = w.txns.length := hop
    cases hd : w'.dbis[d]? with
    | none =>
      simp only [perform, hw.entry, hd] at he ⊢
      exact hw.owner c e he hc
    | some dbi =>
      rw [perform_access _ _ hw.entry hd] at he ⊢
      rcases Nat.lt_or_ge c w'.cursors.length with hlt | hge
      · have hold := List.getElem?_append_left hlt ▸ he
        rcases Contents.owner_access effect m dbi.obj.ptr e.obj.ptr with howner | howner
        · exact howner.trans (hw.owner c e hold hc)
        · exact howner
      · have hnew := List.getElem?_append_right hge ▸ he
        exact Contents.owner_opened effect (eq_of_mem_positioned (List.mem_of_getElem? hnew))
  | dbiOpen t name options =>
    obtain rfl : t = w.txns.length := hop
    rw [perform_dbiOpen _ _ hw.entry] at he ⊢
    exact hw.owner c e he hc
  | cursor c' m =>
    cases he' : w'.cursors[c']? with
    | none =>
      simp only [perform, he'] at he ⊢
      exact hw.owner c e he hc
    | some e' =>
      rw [perform_cursor _ _ he'] at he ⊢
      exact (congrFun (Contents.owner_cursor effect m) _).trans (hw.owner c e he hc)
  | env | id | begin | life | dbi | closeDbi | renewCursor | closeCursor => exact hop.elim

theorem ReadsOnly.next (hw : ReadsOnly w w' k) (hop : Through w op) :
    ReadsOnly w ((machine (Contents.library effect) p).next w' op) k where
  entry := by
    have hlife : ¬Op.IsLife op := by
      cases op with
      | env | begin | life => exact hop.elim
      | _ => exact not_false
    rw [next_machine, (txns_perform hlife).2, hw.entry]
  reader := by rw [(hw.keeps hop).txns.status, hw.reader]
  owner := hw.owner_next hop

theorem ReadsOnly.along (hw : ReadsOnly w w' k) {ops : List Op} (hops : ∀ op ∈ ops, Through w op) :
    (machine (Contents.library effect) p).Along (Withheld effect p) w' ops := by
  induction ops generalizing w' with
  | nil => trivial
  | cons op ops ih =>
    rw [List.forall_mem_cons] at hops
    exact ⟨⟨hw.throws hops.1, (hw.keeps hops.1).committed, (hw.keeps hops.1).seen⟩,
      ih (hw.next hops.1) hops.2⟩

/-! ## Write transactions -/

/-- Requests that LMDB does not refuse are carried out. -/
theorem write_eq_request {s : Handles} {h : Ptr} (hstatus : (s.status h).refuses true = false) :
    s.write h = s.request ∧ s.dbiOpen h = s.request := by
  rw [Handles.write, Handles.dbiOpen]
  cases hs : s.status h with
  | active | dangling => exact ⟨rfl, rfl⟩
  | reader | blocked | parked | idle => rw [hs] at hstatus; cases hstatus

/-- A database can be emptied through such a handle. -/
theorem outcome_empty {t d : ℕ} {e : DbiEntry} (hk : w.txns[t]? = some k)
    (he : w.dbis[d]? = some e) (hstatus : (w.native.handles.status k.obj.ptr).refuses true = false)
    (hrc : w.native.handles.result.rc = 0) :
    ((machine (Contents.library effect) p).out w (.access t d .empty)).outcome = .ok .unit := by
  rw [out_machine, perform_access _ _ hk he]
  refine if_pos ?_
  rw [Contents.reply_library, Access.call, Contents.answer, Contents.change,
    (write_eq_request hstatus).1]
  exact hrc

variable (effect p) in
/-- A database can be opened through it. -/
theorem exists_next_dbiOpen {t : ℕ} (hk : w.txns[t]? = some k)
    (hstatus : (w.native.handles.status k.obj.ptr).refuses true = false)
    (hrc : w.native.handles.result.rc = 0) :
    ∃ w' e, (machine (Contents.library effect) p).next w (.dbiOpen t none []) = w' ∧
      w'.txns = w.txns ∧ w'.dbis = w.dbis ++ [e] ∧
      w'.native.handles = w.native.handles.request.2 := by
  refine ⟨_, ⟨{ ptr := w.native.handles.result.ptr }, none, t, false⟩, rfl, ?_⟩
  rw [next_machine, perform_dbiOpen _ _ hk]
  refine ⟨rfl, congrArg (w.dbis ++ ·) ?_, ?_⟩
  · simp [openResult, Contents.answer, Contents.change, (write_eq_request hstatus).2,
      Handles.request, hrc, opened]
  · simp [Contents.answer, Contents.change, (write_eq_request hstatus).2]

/-- So something is written through a transaction that LMDB does not take for read-only. -/
theorem not_along_of_not_refuses (hk : w'.txns[w.txns.length]? = some k)
    (hstatus : (w'.native.handles.status k.obj.ptr).refuses true = false)
    (hresults : ∀ i, (w'.native.handles.results i).rc = 0) :
    ¬(machine (Contents.library effect) p).Along (Withheld effect p) w'
      [.dbiOpen w.txns.length none [], .access w.txns.length w'.dbis.length .empty] := by
  rintro ⟨-, h, -⟩
  obtain ⟨w'', e, hnext, htxns, hdbis, hs⟩ :=
    exists_next_dbiOpen effect p hk hstatus (hresults _)
  rw [hnext] at h
  have he : w''.dbis[w'.dbis.length]? = some e := by simp [hdbis]
  obtain ⟨message, hmessage⟩ := h.throws ⟨rfl, (List.getElem?_eq_some_iff.1 he).1⟩
  have hstatus' : (w''.native.handles.status k.obj.ptr).refuses true = false := by
    rw [hs, w'.native.handles.sameTxns_request.status, hstatus]
  have hrc : w''.native.handles.result.rc = 0 := hs ▸ hresults _
  rw [outcome_empty (htxns ▸ hk) he hstatus' hrc] at hmessage
  cases hmessage

/-! ## Both ways to a transaction -/

/-- A transaction LMDB does not begin is not begun. -/
theorem exists_message_of_rc_ne_zero {r : Reply} (hrc : r.rc ≠ 0) (parentTx : Option Ptr) :
    ∃ message, (beginResult (Contents.library effect) parentTx r).map Value.txn =
      .error (.lmdbException message) := by
  rw [beginResult, if_neg hrc]
  exact ⟨_, rfl⟩

/-- The handle of a new read-only transaction. -/
theorem status_beginReader {s : Handles} (hs : s.Sound) (hclosed : s.closed = false)
    (hrc : s.result.rc = 0) :
    s.beginReader.1 = { s.result with ptr := s.fresh } ∧
      s.beginReader.2.status s.fresh = .reader := by
  have hr : s.beginReader = ({ s.result with ptr := s.fresh },
      { s.request.2 with readers := s.readers ++ [s.fresh], fresh := s.fresh + 1 }) := if_pos hrc
  have hw : s.fresh ∉ s.writers := fun h => (hs.writers_lt _ h).ne rfl
  have hlast : s.writers.getLast? ≠ some s.fresh := fun h => hw (List.mem_of_getLast? h)
  rw [hr]
  exact ⟨rfl, by simp [Handles.status, Handles.request, hclosed, hw, hlast]⟩

variable (effect p) in
/-- LMDB begins a read-only transaction when told to by `beginTxn`, if it begins one. -/
theorem readsOnly_beginTxn {options : List TxnOption} (hro : .readOnly ∈ options)
    (hs : w.native.handles.Sound) (hclosed : w.native.handles.closed = false) :
    let r := w.perform (Contents.library effect) p (.env (.beginTxn options))
    (∃ message, r.1.outcome = .error (.lmdbException message)) ∨
      r.2.native.committed = w.native.committed ∧ ∃ k, ReadsOnly w r.2 k := by
  have hbegin : w.native.handles.txnBegin none (TxnOption.toFlags options) =
      w.native.handles.beginReader := by
    rw [Handles.txnBegin, if_neg (by simp [hclosed]),
      if_pos ((Handles.toFlags_and_mdbRdonly options).2 hro)]
  rw [perform_beginTxn]
  split
  · simp only [Contents.reply_library, Contents.next_library, Contents.answer, Contents.txnBegin,
      hbegin]
    by_cases hrc : w.native.handles.result.rc = 0
    · obtain ⟨hr, hstatus⟩ := status_beginReader hs hclosed hrc
      have hreply : beginResult (Contents.library effect) none w.native.handles.beginReader.1 =
          .ok { ptr := w.native.handles.fresh } := by
        rw [hr]
        exact if_pos hrc
      refine .inr ⟨trivial,
        ⟨{ ptr := w.native.handles.fresh }, [], decide (.readOnly ∈ options), false⟩,
        ?_, hstatus, fun c e he hc => ?_⟩
      · simp [hreply, begun]
      · rw [List.getElem?_eq_none hc] at he
        cases he
    · refine .inl (exists_message_of_rc_ne_zero ?_ none)
      rw [Handles.beginReader, Handles.allocate, if_neg hrc]
      exact hrc
  · exact .inl ⟨_, rfl⟩

/-- Beginning a nested transaction that LMDB does not refuse. -/
theorem status_txnBegin {s : Handles} {h : Ptr} (hstatus : (s.status h).refuses true = false)
    (hresults : ∀ i, s.results i = { ptr := h }) :
    let r := s.txnBegin (some h) 0
    r.1.rc = 0 ∧ (r.2.status r.1.ptr).refuses true = false ∧ r.2.results = s.results := by
  have hrc : s.result.rc = 0 := by rw [Handles.result, hresults]
  have hflags : ¬(0 : UInt32) &&& mdbRdonly ≠ 0 := by decide
  simp only [Handles.txnBegin, if_neg hflags]
  cases hs : s.status h with
  | active =>
    have hclosed : s.closed = false := by
      cases hc : s.closed with
      | false => rfl
      | true => simp [Handles.status, hc] at hs
    simp [Handles.beginChild, Handles.allocate, hrc, Handles.status, Handles.request, hclosed,
      TxnStatus.refuses]
  | dangling =>
    have hptr : s.result.ptr = h := by rw [Handles.result, hresults]
    refine ⟨hrc, ?_, rfl⟩
    change ((s.request.2).status s.result.ptr).refuses true = false
    rw [s.sameTxns_request.status, hptr, hs]
    rfl
  | blocked | reader | parked | idle => rw [hs] at hstatus; cases hstatus

/-- A transaction that was begun but is not read-only in LMDB, if requests are granted. -/
structure ReadsNotOnly (w : World (Contents D)) (r : Seen Value × World (Contents D)) : Prop where
  returns : ∃ v, r.1.outcome = .ok v
  entry : ∃ k, r.2.txns[w.txns.length]? = some k ∧
    (r.2.native.handles.status k.obj.ptr).refuses true = false
  granted : ∀ i, (r.2.native.handles.results i).rc = 0

theorem ReadsNotOnly.not_along {r : Seen Value × World (Contents D)} (hr : ReadsNotOnly w r) :
    ¬((∃ message, r.1.outcome = .error (.lmdbException message)) ∨
      r.2.native.committed = w.native.committed ∧ ∀ ops, (∀ op ∈ ops, Through w op) →
        (machine (Contents.library effect) p).Along (Withheld effect p) r.2 ops) := by
  obtain ⟨⟨v, hv⟩, ⟨k, hk, hstatus⟩, hgranted⟩ := hr
  rintro (⟨message, hm⟩ | ⟨-, h⟩)
  · exact nomatch hv.symm.trans hm
  · refine not_along_of_not_refuses hk hstatus hgranted (h _ ?_)
    simp [Through]

theorem ReadsNotOnly.of_begun {r : Seen Value × World (Contents D)} {parentTx : Option Ptr}
    {reply : Reply} {lineage : List ℕ} {readOnly : Bool}
    (houtcome : r.1.outcome = (beginResult (Contents.library effect) parentTx reply).map Value.txn)
    (htxns : r.2.txns = w.txns ++ begun lineage readOnly r.1.outcome) (hrc : reply.rc = 0)
    (hstatus : (r.2.native.handles.status reply.ptr).refuses true = false)
    (hgranted : ∀ i, (r.2.native.handles.results i).rc = 0) : ReadsNotOnly w r := by
  rw [beginResult, if_pos hrc] at houtcome
  rw [houtcome] at htxns
  refine ⟨⟨_, houtcome⟩,
    ⟨⟨{ ptr := reply.ptr, parentTx }, lineage, readOnly, false⟩, ?_, hstatus⟩, hgranted⟩
  rw [htxns]
  exact List.getElem?_concat_length ..

/-- A nested transaction is not read-only. -/
theorem readsNotOnly_begin {t : ℕ} (hk : w.txns[t]? = some k) (hopened : w.env.isOpened)
    (hstatus : (w.native.handles.status k.obj.ptr).refuses true = false)
    (hresults : ∀ i, w.native.handles.results i = { ptr := k.obj.ptr }) (options : List TxnOption) :
    ReadsNotOnly w (w.perform (Contents.library effect) p (.begin t options)) := by
  obtain ⟨hrc, hnew, hgranted⟩ := status_txnBegin hstatus hresults
  rw [perform_begin _ _ hk, if_pos hopened]
  refine .of_begun rfl rfl hrc hnew fun i => ?_
  change ((w.native.handles.txnBegin (some k.obj.ptr) 0).2.results i).rc = 0
  rw [hgranted, hresults]

/-- Nor is one begun in an environment that was closed. -/
theorem readsNotOnly_beginTxn (hopened : w.env.isOpened) (hclosed : w.native.handles.closed = true)
    (hresults : ∀ i, w.native.handles.results i = {}) (options : List TxnOption) :
    ReadsNotOnly w (w.perform (Contents.library effect) p (.env (.beginTxn options))) := by
  have hbegin : w.native.handles.txnBegin none (TxnOption.toFlags options) =
      w.native.handles.request := by rw [Handles.txnBegin, if_pos hclosed]
  rw [perform_beginTxn, if_pos hopened]
  simp only [Contents.reply_library, Contents.next_library, Contents.answer, Contents.txnBegin,
    hbegin]
  refine .of_begun rfl rfl ?_ ?_ fun i => ?_
  · exact congrArg Reply.rc (hresults _)
  · simp [Handles.status, Handles.request, hclosed, TxnStatus.refuses]
  · exact congrArg Reply.rc (hresults i)

variable (effect p) in
/-- A nested transaction LMDB refuses is not begun. -/
theorem exists_message_begin {t : ℕ} (hk : w.txns[t]? = some k)
    (hstatus : w.env.isOpened → (w.native.handles.status k.obj.ptr).refuses true)
    (options : List TxnOption) :
    ∃ message, (w.perform (Contents.library effect) p (.begin t options)).1.outcome =
      .error (.lmdbException message) := by
  rw [perform_begin _ _ hk]
  split
  · rename_i hopened
    have hspec := w.native.handles.txnBegin_spec k.obj.ptr
    rw [if_pos (hstatus hopened)] at hspec
    obtain ⟨rc, hrc, -, hr⟩ := hspec
    refine exists_message_of_rc_ne_zero ?_ _
    change (w.native.handles.txnBegin (some k.obj.ptr) 0).1.rc ≠ 0
    rw [hr]
    exact hrc
  · exact ⟨_, rfl⟩

/-- Whatever was called before: `ReadOnly` keeps the transaction from writing exactly if it
    is honoured. -/
theorem neverWrites_iff (effect : Call → D → D) (p : Platform) (w : World (Contents D))
    (results : ℕ → Reply) (d : D) (calls : List Call) (source : Source) (options : List TxnOption)
    (hro : .readOnly ∈ options) (hsource : source.Exists w)
    (hw : w.native = (Contents.init results d).after effect calls) :
    NeverWrites effect p w source options ↔ Honoured w source := by
  have hs : ∀ results, (w.native.answering results).handles.Sound := by
    have hsound : w.native.handles.Sound := hw ▸ Contents.sound_after effect results d calls
    exact fun _ => ⟨hsound.nodup, hsound.pos, hsound.writers_lt, hsound.readers_lt, hsound.disjoint⟩
  -- What `h` says holds for all further answers of LMDB, so for some that let the writing succeed.
  cases source with
  | beginTxn =>
    constructor
    · intro h hopened
      by_contra hclosed
      rw [Bool.not_eq_false] at hclosed
      exact (readsNotOnly_beginTxn (w := { w with native := w.native.answering fun _ => {} })
        hopened hclosed (fun _ => rfl) options).not_along (h fun _ => {})
    · intro h results
      cases hopened : w.env.isOpened with
      | false =>
        refine .inl ⟨"Env is not open", ?_⟩
        rw [Source.op, perform_beginTxn, if_neg (by simp [hopened])]
      | true =>
        refine (readsOnly_beginTxn effect p (w := { w with native := w.native.answering results })
          hro (hs results) (h hopened)).imp_right ?_
        rintro ⟨hcommitted, k, hk⟩
        exact ⟨hcommitted, fun ops hops => hk.along hops⟩
  | begin t =>
    have hk := List.getElem?_eq_getElem hsource
    constructor
    · intro h k' hk' hopened
      obtain rfl : w.txns[t] = k' := Option.some.inj (hk.symm.trans hk')
      by_contra hstatus
      rw [Bool.not_eq_true] at hstatus
      exact (readsNotOnly_begin
        (w := { w with native := w.native.answering fun _ => { ptr := w.txns[t].obj.ptr } })
        hk hopened hstatus (fun _ => rfl) options).not_along (h _)
    · exact fun h results => .inl (exists_message_begin effect p
        (w := { w with native := w.native.answering results }) hk (h _ hk) options)

/-- A transaction begun in a new environment is read-only. -/
theorem neverWrites_beginTxn :
    NeverWrites (fun _ n => n + 1) .jvm
      { env := { ptr := 1, mapSize := 0, isOpened := true }, native := .init (fun _ => {}) 0 }
      .beginTxn [.noSync, .readOnly] :=
  (neverWrites_iff _ _ _ (fun _ => {}) 0 [] .beginTxn _ (by decide) trivial rfl).2 fun _ => rfl

/-- Emptying a database through a transaction nested as read-only in a write transaction
    succeeds. -/
theorem not_neverWrites_begin :
    ¬NeverWrites (fun _ n => n + 1) .jvm
      ((machine (Contents.library fun _ n => n + 1) .jvm).run
        { env := { ptr := 1, mapSize := 0, isOpened := true }, native := .init (fun _ => {}) 0 }
        [.env (.beginTxn [])])
      (.begin 0) [.readOnly] := by
  intro h
  rcases h fun _ => {} with ⟨message, hm⟩ | ⟨-, h⟩
  · cases hm
  · obtain ⟨-, hempty, -⟩ := h [.dbiOpen 1 none [], .access 1 0 .empty]
      (List.forall_mem_cons.2 ⟨rfl, List.forall_mem_singleton.2 rfl⟩)
    obtain ⟨message, hm⟩ := hempty.throws ⟨rfl, by decide⟩
    cases hm

end Txn

end KotlinLmdb
