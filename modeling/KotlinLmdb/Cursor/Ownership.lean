import KotlinLmdb.Lmdb.Ledger
import KotlinLmdb.Txn.Tree

/-!
# Who frees a cursor

A cursor's memory is freed by `close`, and, if the cursor was opened in a write
transaction, by LMDB when that transaction ends. The wrapper's two objects do not
know of each other, and on native a cursor does not know that it was closed.

A cursor is not to be used after it was freed, nor freed again
(`Cursor.FreedOnce`). It is not in the runs in which each is used and closed only
while it is usable: not closed, and its write transaction live (`Cursor.Owned`,
`Cursor.freedOnce_of_owned`).
-/

namespace KotlinLmdb

namespace Cursor

open World Txn

variable {N : Type} (p : Platform)

/-- A cursor is usable until it is closed, and in a write transaction, until that
    ends. -/
def Usable (w : World N) (e : CursorEntry) : Prop :=
  ¬e.closed ∧ (readOnlyOf w e.owner ∨ Live w e.owner)

instance (w : World N) (e : CursorEntry) : Decidable (Usable w e) :=
  inferInstanceAs (Decidable (_ ∧ (_ ∨ _)))

/-- The write transaction LMDB tracks a cursor in. -/
def tracker (w : World N) (e : CursorEntry) : Option Ptr :=
  if readOnlyOf w e.owner then none else ptrOf w e.owner

/-- No call is made on a cursor that was freed, and none is freed twice. -/
structure FreedOnce (w : World Handles) (op : Op) : Prop where
  unused : ∀ c ∈ ((machine Handles.library p).out w op).calls, ∀ h ∈ c.1.cursor,
    h ∉ w.native.freed
  once : ((machine Handles.library p).next w op).native.freed.Nodup

/-- The calls in question, in an order: cursors are opened in live transactions (or
    LMDB refuses to), and used and closed while they are usable. On the JVM they may
    be closed again. -/
def Owned (w : World Handles) (op : Op) : Prop :=
  Orderly w op ∧ match op with
  | .access t _ .openCursor =>
    ∀ k ∈ w.txns[t]?, Live w t ∨ (w.native.status k.obj.ptr).refuses false
  | .cursor c _ | .renewCursor c _ => ∀ e ∈ w.cursors[c]?, Usable w e
  | .closeCursor c => ∀ e ∈ w.cursors[c]?, Usable w e ∨ p = .jvm ∧ e.obj.closed
  | _ => True

/-- All usable cursors are allocated, and tracked where they were opened. -/
structure Inv (w : World Handles) : Prop where
  txns : Txn.Inv w
  ledger : w.native.Ledger
  owner : ∀ e ∈ w.cursors, e.owner < w.txns.length
  nodup : (w.cursors.map (·.obj.ptr)).Nodup
  lt : ∀ e ∈ w.cursors, e.obj.ptr < w.native.fresh
  held : ∀ e ∈ w.cursors, Usable w e → ⟨e.obj.ptr, tracker w e⟩ ∈ w.native.cursors

variable {p} {w w' : World Handles} {op : Op} {c : Option Call}

/-- The tracker of a usable cursor is one of LMDB's write transactions. -/
theorem mem_writers_of_tracker (hw : Txn.Inv w) {e : CursorEntry} (he : Usable w e) :
    ∀ h ∈ tracker w e, h ∈ w.native.writers := by
  intro h hh
  rw [tracker] at hh
  split at hh
  · cases hh
  · rename_i hro
    have hlive : Live w e.owner := he.2.resolve_left hro
    obtain ⟨k, hk, hptr⟩ := Option.map_eq_some_iff.1 hh
    exact hptr ▸ hw.mem_writers hk hlive (by simpa [readOnlyOf, hk] using hro)

/-- A call keeps the usable cursors allocated that it does not close. -/
theorem Inv.held_next (hw : Inv w) (hw' : Txn.Inv w') (hf : Follows w w')
    (hnative : w'.native = c.elim w.native (Handles.library.next · w.native)) {e : CursorEntry}
    (he : e ∈ w.cursors) (hclose : c ≠ some (.mdbCursorClose e.obj.ptr)) (hu : Usable w' e) :
    ⟨e.obj.ptr, tracker w' e⟩ ∈ w'.native.cursors := by
  have ho := hw.owner e he
  have htracker : tracker w' e = tracker w e := by
    rw [tracker, tracker, hf.readOnly _ ho, hf.ptrOf _ ho]
  have hu₀ : Usable w e := ⟨hu.1, hu.2.imp (hf.readOnly _ ho ▸ ·) (hf.live _ ho)⟩
  have hmem := hw.held e he hu₀
  rw [htracker]
  cases c with
  | none => exact hnative ▸ hmem
  | some c =>
    have hwriters := mem_writers_of_tracker hw' hu
    rw [htracker, hnative] at hwriters
    rw [hnative]
    exact hw.txns.sound.mem_cursors_answer hmem (fun h => hclose (congrArg some h)) hwriters

/-- The calls on cursors are those of their methods, `renew` and `close`. -/
theorem exists_entry_of_callOf {c : Call} (hc : c ∈ callOf p w op) {h : Ptr} (hh : h ∈ c.cursor) :
    ∃ i e, w.cursors[i]? = some e ∧ e.obj.ptr = h ∧
      ((∃ m, op = .cursor i m) ∨ (∃ t, op = .renewCursor i t) ∨
        op = .closeCursor i ∧ ¬(p = .jvm ∧ e.obj.closed) ∧ c = .mdbCursorClose h) := by
  cases made_of_callOf hc
  case cursor i m e he =>
    refine ⟨i, e, he, ?_, .inl ⟨m, rfl⟩⟩
    cases m <;> exact Option.some.inj hh
  case renewCursor i t _ e _ he => exact ⟨i, e, he, Option.some.inj hh, .inr (.inl ⟨t, rfl⟩)⟩
  case closeCursor i e he hclosed =>
    cases Option.some.inj hh
    exact ⟨i, e, he, rfl, .inr (.inr ⟨rfl, hclosed, rfl⟩)⟩
  case life op _ _ hc =>
    cases op <;> obtain ⟨-, ⟨⟩⟩ := Option.ite_none_right_eq_some.1 hc <;> cases hh
  case access m _ _ _ _ | dbi m _ _ _ _ => cases m <;> cases hh
  all_goals cases hh

/-- In order, calls are made on allocated cursors. -/
theorem Inv.allocated (hw : Inv w) (hop : Owned p w op) {c : Call} (hc : c ∈ callOf p w op)
    {h : Ptr} (hh : h ∈ c.cursor) : ∃ b ∈ w.native.cursors, b.ptr = h := by
  obtain ⟨i, e, he, rfl, hop'⟩ := exists_entry_of_callOf hc hh
  have husable : Usable w e := by
    rcases hop' with ⟨m, rfl⟩ | ⟨t, rfl⟩ | ⟨rfl, hclosed, -⟩
    · exact hop.2 e he
    · exact hop.2 e he
    · exact (hop.2 e he).resolve_right hclosed
  exact ⟨_, hw.held e (List.mem_of_getElem? he) husable, rfl⟩

/-- The cursors opened by a step: the one `openCursor` returns. -/
theorem cursors_openCursor {t d : ℕ} {k : TxnEntry} {e : DbiEntry} (hk : w.txns[t]? = some k)
    (he : w.dbis[d]? = some e) :
    let r := w.native.cursorOpen k.obj.ptr
    let w' := (w.perform Handles.library p (.access t d .openCursor)).2
    w'.native = r.2 ∧ w'.cursors = w.cursors ++
      if r.1.rc = 0 then [{ obj := { ptr := r.1.ptr }, owner := t }] else [] := by
  rw [perform_access _ _ hk he]
  refine ⟨rfl, congrArg (w.cursors ++ ·) ?_⟩
  simp only [Access.result]
  split <;> rename_i hrc
  · exact (if_pos hrc).symm
  · exact (if_neg hrc).symm

/-- A cursor opened in a live transaction is allocated, and tracked if that is a
    write transaction. -/
theorem Inv.cursorOpen_of_live (hw : Inv w) {t : ℕ} {k : TxnEntry} (hk : w.txns[t]? = some k)
    (hlive : Live w t) (hrc : (w.native.cursorOpen k.obj.ptr).1.rc = 0) :
    (w.native.cursorOpen k.obj.ptr).1.ptr = w.native.fresh ∧
      (w.native.cursorOpen k.obj.ptr).2.fresh = w.native.fresh + 1 ∧
      ⟨w.native.fresh, if readOnlyOf w t then none else ptrOf w t⟩ ∈
        (w.native.cursorOpen k.obj.ptr).2.cursors := by
  obtain ⟨tracker, htracker, hopen⟩ : ∃ tracker,
      tracker = (if readOnlyOf w t then none else ptrOf w t) ∧
        w.native.cursorOpen k.obj.ptr = w.native.track tracker := by
    have hspec := w.native.status_spec k.obj.ptr
    have hlive' := hw.txns.status_of_live hk hlive
    have hro : readOnlyOf w t = k.readOnly := by simp [readOnlyOf, hk]
    have hptr : ptrOf w t = some k.obj.ptr := by simp [ptrOf, hk]
    rw [Handles.cursorOpen] at hrc ⊢
    cases hs : w.native.status k.obj.ptr <;> rw [hs] at hspec hlive' hrc
    case active =>
      have hwriter : ¬k.readOnly := fun h =>
        (hw.txns.sound.of_mem_readers (hw.txns.reader t k hk hlive h)).2 hspec
      exact ⟨some k.obj.ptr, by rw [hro, if_neg hwriter, hptr], rfl⟩
    case reader =>
      have hreader : k.readOnly := by
        by_contra h
        exact hspec.1 (hw.txns.mem_writers hk hlive h)
      exact ⟨none, by rw [hro, if_pos hreader], rfl⟩
    case dangling => exact absurd rfl hlive'
    -- LMDB refuses the others
    case blocked => exact absurd hrc (by decide : ¬mdbBadTxn = 0)
    case parked | idle => exact absurd hrc (by decide : ¬einval = 0)
  rw [hopen] at hrc ⊢
  rcases w.native.track_cases tracker with ⟨-, hptr, hr⟩ | ⟨hne, -⟩
  · rw [hr, ← htracker]
    exact ⟨hptr, rfl, List.mem_append_right _ (List.mem_singleton_self _)⟩
  · exact absurd hrc hne

/-- A call on cursors in order keeps the ledger. -/
theorem Inv.ledger_next (hw : Inv w) (hop : Owned p w op)
    (hnative : w'.native = (callOf p w op).elim w.native (Handles.library.next · w.native)) :
    w'.native.Ledger ∧ w.native.fresh ≤ w'.native.fresh := by
  rw [hnative]
  cases hc : callOf p w op with
  | none => exact ⟨hw.ledger, Nat.le_refl _⟩
  | some c =>
    refine ⟨hw.ledger.answer fun h hclose => ?_, Handles.fresh_le_answer c w.native⟩
    exact hw.allocated hop hc (h := h) (hclose ▸ rfl)

/-- Only `close` closes. -/
theorem eq_closeCursor_of_callOf {h : Ptr} (hc : callOf p w op = some (.mdbCursorClose h)) :
    ∃ i e, op = .closeCursor i ∧ w.cursors[i]? = some e ∧ e.obj.ptr = h := by
  obtain ⟨i, e, he, hptr, hop⟩ := exists_entry_of_callOf hc rfl
  rcases hop with ⟨m, rfl⟩ | ⟨t, rfl⟩ | ⟨rfl, -⟩
  · simp only [callOf, he, Option.map_some] at hc
    cases m <;> cases hc
  · obtain ⟨e', -, hc⟩ := Option.bind_eq_some_iff.1 hc
    obtain ⟨k, -, hc⟩ := Option.map_eq_some_iff.1 hc
    cases hc
  · exact ⟨i, e, rfl, he, hptr⟩

/-- No two cursors have the same handle. -/
theorem Inv.entry_inj (hw : Inv w) {i j : ℕ} {e e' : CursorEntry} (hi : w.cursors[i]? = some e)
    (hj : w.cursors[j]? = some e') (hptr : e.obj.ptr = e'.obj.ptr) : i = j := by
  have hlt : i < (w.cursors.map (·.obj.ptr)).length := by
    rw [List.length_map]
    exact (List.getElem?_eq_some_iff.1 hi).1
  refine (List.getElem?_inj hlt hw.nodup).1 ?_
  rw [List.getElem?_map, List.getElem?_map, hi, hj, Option.map_some, Option.map_some, hptr]

/-- What all calls in order have in common. -/
structure Step (p : Platform) (w : World Handles) (op : Op) (w' : World Handles) : Prop where
  txns : Txn.Inv w'
  follows : Follows w w'
  ledger : w'.native.Ledger
  fresh : w.native.fresh ≤ w'.native.fresh
  held : ∀ e ∈ w.cursors, callOf p w op ≠ some (.mdbCursorClose e.obj.ptr) → Usable w' e →
    ⟨e.obj.ptr, tracker w' e⟩ ∈ w'.native.cursors

theorem Inv.step (hw : Inv w) (hop : Owned p w op) :
    Step p w op (w.perform Handles.library p op).2 := by
  have htxns := hw.txns.next (p := p) hop.1
  have hf := hw.txns.follows_next (p := p) hop.1
  have hnative : (w.perform Handles.library p op).2.native = _ :=
    (calls_perform (callsOnce_of_orderly hop.1)).2
  obtain ⟨hledger, hfresh⟩ := hw.ledger_next hop hnative
  exact ⟨htxns, hf, hledger, hfresh, fun e he hclose => hw.held_next htxns hf hnative he hclose⟩

section Step

variable (hw : Inv w) (hs : Step p w op w')

include hw hs

/-- A step that leaves the cursors alone keeps the invariant. -/
theorem Inv.of_same (hcursors : w'.cursors = w.cursors) (hop : ∀ i, op ≠ .closeCursor i) :
    Inv w' where
  txns := hs.txns
  ledger := hs.ledger
  owner := hcursors ▸ fun e he => Nat.lt_of_lt_of_le (hw.owner e he) hs.follows.length
  nodup := hcursors ▸ hw.nodup
  lt := hcursors ▸ fun e he => Nat.lt_of_lt_of_le (hw.lt e he) hs.fresh
  held := hcursors ▸ fun e he => hs.held e he fun hc => by
    obtain ⟨i, -, hi, -⟩ := eq_closeCursor_of_callOf hc
    exact hop i hi

/-- So does closing a cursor. -/
theorem Inv.of_close {i : ℕ} {e : CursorEntry} {obj : Cursor} (hop : op = .closeCursor i)
    (he : w.cursors[i]? = some e) (hptr : obj.ptr = e.obj.ptr)
    (hcursors : w'.cursors = w.cursors.set i { e with obj, closed := true }) : Inv w' := by
  have hmem := List.mem_of_getElem? he
  refine ⟨hs.txns, hs.ledger, ?_, ?_, ?_, ?_⟩ <;> rw [hcursors]
  · intro e' he'
    refine Nat.lt_of_lt_of_le ?_ hs.follows.length
    rcases List.mem_or_eq_of_mem_set he' with he' | rfl
    · exact hw.owner e' he'
    · exact hw.owner e hmem
  · have hmap : (w.cursors.map (·.obj.ptr))[i]? = some e.obj.ptr := by
      rw [List.getElem?_map, he, Option.map_some]
    rw [List.map_set, hptr, set_getElem?_self hmap]
    exact hw.nodup
  · intro e' he'
    refine Nat.lt_of_lt_of_le ?_ hs.fresh
    rcases List.mem_or_eq_of_mem_set he' with he' | rfl
    · exact hw.lt e' he'
    · exact hptr ▸ hw.lt e hmem
  · intro e' he' hu
    obtain ⟨j, hj⟩ := List.mem_iff_getElem?.1 he'
    rw [List.getElem?_set] at hj
    split at hj
    · -- the closed cursor is not usable
      split at hj
      · cases hj
        exact absurd rfl hu.1
      · cases hj
    · rename_i hij
      refine hs.held e' (List.mem_of_getElem? hj) (fun hc => ?_) hu
      obtain ⟨i', e'', hi', he'', hptr'⟩ := eq_closeCursor_of_callOf hc
      cases hop.symm.trans hi'
      exact hij (hw.entry_inj he'' hj hptr')

/-- So does opening one in a live transaction. -/
theorem Inv.of_open {e : CursorEntry} (hop : ∀ i, op ≠ .closeCursor i)
    (howner : e.owner < w.txns.length) (hptr : e.obj.ptr = w.native.fresh)
    (hfresh : w'.native.fresh = w.native.fresh + 1) (hcursors : w'.cursors = w.cursors ++ [e])
    (hheld : ⟨e.obj.ptr, tracker w e⟩ ∈ w'.native.cursors) : Inv w' := by
  refine ⟨hs.txns, hs.ledger, ?_, ?_, ?_, ?_⟩ <;> rw [hcursors]
  · intro e' he'
    refine Nat.lt_of_lt_of_le ?_ hs.follows.length
    rcases List.mem_append.1 he' with he' | he'
    · exact hw.owner e' he'
    · exact List.mem_singleton.1 he' ▸ howner
  · rw [List.map_append]
    refine List.nodup_append.2 ⟨hw.nodup, List.nodup_singleton _, fun a ha b hb => ?_⟩
    obtain ⟨e', he', rfl⟩ := List.mem_map.1 ha
    rw [(List.mem_singleton.1 hb).trans hptr]
    exact (hw.lt e' he').ne
  · intro e' he'
    rcases List.mem_append.1 he' with he' | he'
    · exact Nat.lt_of_lt_of_le (hw.lt e' he') hs.fresh
    · rw [List.mem_singleton.1 he', hptr, hfresh]
      exact Nat.lt_succ_self _
  · intro e' he' hu
    rcases List.mem_append.1 he' with he' | he'
    · refine hs.held e' he' (fun hc => ?_) hu
      obtain ⟨i, -, hi, -⟩ := eq_closeCursor_of_callOf hc
      exact hop i hi
    · rw [List.mem_singleton.1 he', tracker, hs.follows.readOnly _ howner,
        hs.follows.ptrOf _ howner]
      exact hheld

end Step

/-- In order, all calls keep the invariant. -/
theorem Inv.next (hw : Inv w) (hop : Owned p w op) :
    Inv ((machine Handles.library p).next w op) := by
  have hs := hw.step hop
  rw [next_machine]
  by_cases hlife : Op.IsCursorLife op
  case neg =>
    refine hw.of_same hs (cursors_perform hlife) ?_
    rintro i rfl
    exact hlife trivial
  -- only opening and closing change what the cursors are
  cases op with
  | closeCursor i =>
    cases he : w.cursors[i]? with
    | none => simpa [perform, he, skip] using hw
    | some e =>
      have hperform := perform_closeCursor Handles.library p he
      split at hperform
      · refine hw.of_close hs rfl he ?_ (congrArg (·.2.cursors) hperform)
        rfl
      · refine hw.of_close hs rfl he ?_ (congrArg (·.2.cursors) hperform)
        rfl
  | access t d m =>
    cases m
    case openCursor =>
      cases hk : w.txns[t]? with
      | none => simpa [perform, hk, skip] using hw
      | some k =>
        cases he : w.dbis[d]? with
        | none => simpa [perform, hk, he, skip] using hw
        | some e =>
          obtain ⟨hnative, hcursors⟩ := cursors_openCursor (p := p) hk he
          split at hcursors
          · rename_i hrc
            -- a transaction that is not live has been refused the cursor
            have hlive : Live w t := by
              refine (hop.2 k hk).resolve_right fun hrefuse => ?_
              have hspec := w.native.cursorOpen_spec k.obj.ptr
              rw [if_pos hrefuse] at hspec
              obtain ⟨rc, hrc', -, hr⟩ := hspec
              rw [hr] at hrc
              exact hrc' hrc
            obtain ⟨hptr, hfresh, hheld⟩ := hw.cursorOpen_of_live hk hlive hrc
            refine hw.of_open hs (by simp) (List.getElem?_eq_some_iff.1 hk).1 hptr
              ?_ hcursors ?_
            · rw [hnative, hfresh]
            · rw [hnative, hptr]
              exact hheld
          · exact hw.of_same hs (hcursors.trans (List.append_nil _)) (by simp)
    all_goals exact hlife.elim
  | _ => exact hlife.elim

/-- In order, no cursor is used that was freed, and none is freed twice. -/
theorem Inv.freedOnce (hw : Inv w) (hop : Owned p w op) : FreedOnce p w op where
  unused c hc h hh := by
    rw [out_machine, (calls_perform (callsOnce_of_orderly hop.1)).1] at hc
    obtain ⟨c', hc', rfl⟩ := List.mem_map.1 hc
    obtain ⟨b, hb, rfl⟩ := hw.allocated hop (Option.mem_toList.1 hc') hh
    exact hw.ledger.not_mem_freed hb
  once := (hw.next hop).ledger.freed_nodup

theorem inv_start (env : Env) (results : ℕ → Reply) : Inv { env, native := { results } } where
  txns := Txn.inv_start env results
  ledger := ⟨.nil, fun _ h => nomatch h⟩
  owner _ h := nomatch h
  nodup := .nil
  lt _ h := nomatch h
  held _ h := nomatch h

/-- However cursors and transactions are opened, used and closed, as long as a cursor
    is used and closed while it is usable, none is used after it was freed, and none
    freed again. -/
theorem freedOnce_of_owned (p : Platform) (env : Env) (results : ℕ → Reply) (ops : List Op)
    (hops : (machine Handles.library p).Along (Owned p) { env, native := { results } } ops) :
    (machine Handles.library p).Along (FreedOnce p) { env, native := { results } } ops :=
  Machine.along_of_inv (fun _ _ hw hop => hw.freedOnce hop) (fun _ _ hw hop => hw.next hop)
    (inv_start env results) hops

/-- A cursor used, and closed twice, before its transaction is committed. -/
theorem freedOnce_close_commit :
    (machine Handles.library .jvm).Along (FreedOnce .jvm)
      { env := { ptr := 1, mapSize := 0, isOpened := true }, native := { results := fun _ => {} } }
      [.env (.beginTxn []), .dbiOpen 0 none [], .access 0 0 .openCursor, .cursor 0 (.get .first),
        .closeCursor 0, .closeCursor 0, .life 0 .commit] :=
  freedOnce_of_owned .jvm _ _ _ ⟨⟨trivial, trivial⟩, ⟨trivial, trivial⟩, ⟨trivial, by decide⟩,
    ⟨trivial, by decide⟩, ⟨trivial, by decide⟩, ⟨trivial, by decide⟩,
    ⟨fun _ => by decide, trivial⟩, trivial⟩

/-- A cursor closed after its write transaction was committed is freed again, on both
    platforms; and on native, so is a cursor closed twice. -/
theorem not_freedOnce_commit_close :
    let start : World Handles :=
      { env := { ptr := 1, mapSize := 0, isOpened := true }, native := { results := fun _ => {} } }
    let ops : List Op := [.env (.beginTxn []), .dbiOpen 0 none [], .access 0 0 .openCursor]
    ¬(machine Handles.library .jvm).Along (FreedOnce .jvm) start
        (ops ++ [.life 0 .commit, .closeCursor 0]) ∧
      ¬(machine Handles.library .native).Along (FreedOnce .native) start
        (ops ++ [.life 0 .commit, .closeCursor 0]) ∧
      ¬(machine Handles.library .native).Along (FreedOnce .native) start
        (ops ++ [.closeCursor 0, .closeCursor 0]) := by
  refine ⟨fun h => ?_, fun h => ?_, fun h => ?_⟩
  all_goals
    have hlast := h.2.2.2.2.1
    exact hlast.unused (.mdbCursorClose 1, {}) (by decide) 1 rfl (by decide)

end Cursor

end KotlinLmdb
