import KotlinLmdb.Lmdb.Handles
import KotlinLmdb.World

/-!
# Nested transactions

Transactions begun from one another, over LMDB with its handles. Each `Txn` has a
state of its own, but LMDB ends all children with a transaction: the wrapper's
states tell what LMDB takes for live only of those transactions all of whose
ancestors are ready too (`Txn.Live`).

A handle is not to be committed or aborted after LMDB has ended it
(`Txn.EndsLive`). It is not as long as none is committed, aborted or closed of
which an ancestor has ended (`Txn.Orderly`, `Txn.endsLive_of_orderly`). The
invariant (`Txn.Inv`) is that the handles of a live transaction and its ancestors
are a prefix of LMDB's chain of write transactions.
-/

namespace KotlinLmdb

namespace Txn

open World

variable {N : Type}

def stateOf (w : World N) (t : ℕ) : Option TxnState := w.txns[t]?.map (·.obj.state)

def ptrOf (w : World N) (t : ℕ) : Option Ptr := w.txns[t]?.map (·.obj.ptr)

def readOnlyOf (w : World N) (t : ℕ) : Bool := w.txns[t]?.any (·.readOnly)

/-- The ancestors of a transaction, outermost first, and the transaction. -/
def path (w : World N) (t : ℕ) : List ℕ := w.txns[t]?.elim [] (·.lineage) ++ [t]

/-- A transaction is live if it is ready, and all its ancestors are. -/
def Live (w : World N) (t : ℕ) : Prop := ∀ i ∈ path w t, stateOf w i = some .ready

instance (w : World N) (t : ℕ) : Decidable (Live w t) :=
  inferInstanceAs (Decidable (∀ i ∈ path w t, _))

/-- What is committed or aborted has not ended yet. -/
def EndsLive (p : Platform) (w : World Handles) (op : Op) : Prop :=
  ∀ c ∈ ((machine Handles.library p).out w op).calls, ∀ h, Ends h c.1 →
    ¬(w.native.status h).ended

/-- The calls in question: transactions are begun, worked with, and ended, but in
    an order: a transaction that is ready is ended while its ancestors are, too. -/
def Orderly (w : World N) : Op → Prop
  | .env (.beginTxn _) => True
  | .env _ => False
  | .life _ .reset | .life _ .renew => False
  | .life t _ => stateOf w t = some .ready → Live w t
  | _ => True

theorem callsOnce_of_orderly {w : World N} {op : Op} (hop : Orderly w op) : Op.CallsOnce op := by
  cases op with
  | env m =>
    cases m with
    | beginTxn => trivial
    | access | «open» | close => exact hop.elim
  | _ => trivial

theorem isEnd_of_orderly {w : World N} {t : ℕ} {op : Lifecycle} (hop : Orderly w (.life t op)) :
    op.IsEnd ∧ (stateOf w t = some .ready → Live w t) := by
  cases op
  case reset | renew => exact hop.elim
  all_goals exact ⟨trivial, hop⟩

/-! ## The invariant -/

structure Inv (w : World Handles) : Prop where
  opened : w.native.closed = false
  sound : w.native.Sound
  known : ∀ k ∈ w.txns, ∀ i ∈ k.lineage, i < w.txns.length
  path_path : ∀ t, ∀ i ∈ path w t, path w i <+: path w t
  reader : ∀ (t : ℕ) (k : TxnEntry), w.txns[t]? = some k → Live w t → k.readOnly →
    k.obj.ptr ∈ w.native.readers
  writer : ∀ (t : ℕ) (k : TxnEntry), w.txns[t]? = some k → Live w t → ¬k.readOnly →
    (path w t).map (ptrOf w) <+: w.native.writers.map some
  unique : ∀ t t', Live w t → Live w t' → ptrOf w t = ptrOf w t' → t = t'

variable {w w' : World Handles} {t : ℕ} {k : TxnEntry}

theorem mem_path (w : World N) (t : ℕ) : t ∈ path w t :=
  List.mem_append_right _ (List.mem_singleton_self t)

theorem Live.ready (h : Live w t) : stateOf w t = some .ready := h t (mem_path w t)

/-- The ancestors of a live transaction are live. -/
theorem Inv.live_of_mem_path (hw : Inv w) {i : ℕ} (h : Live w t) (hi : i ∈ path w t) : Live w i :=
  fun j hj => h j ((hw.path_path t i hi).subset hj)

/-- LMDB takes a live transaction for live. -/
theorem Inv.mem_writers (hw : Inv w) (hk : w.txns[t]? = some k) (h : Live w t)
    (hro : ¬k.readOnly) : k.obj.ptr ∈ w.native.writers := by
  have hmem : ptrOf w t ∈ (path w t).map (ptrOf w) := List.mem_map_of_mem (mem_path w t)
  have := (hw.writer t k hk h hro).subset hmem
  simpa [ptrOf, hk] using this

/-- LMDB has not ended a live transaction. -/
theorem Inv.status_of_live (hw : Inv w) (hk : w.txns[t]? = some k) (h : Live w t) :
    ¬(w.native.status k.obj.ptr).ended := by
  have hspec := w.native.status_spec k.obj.ptr
  have hmem : k.obj.ptr ∈ w.native.readers ∨ k.obj.ptr ∈ w.native.writers := by
    by_cases hro : k.readOnly
    · exact .inl (hw.reader t k hk h hro)
    · exact .inr (hw.mem_writers hk h hro)
  cases hs : w.native.status k.obj.ptr <;> rw [hs] at hspec
  case idle | dangling =>
    obtain ⟨hwriters, hreaders⟩ := hspec hw.opened
    exact absurd hmem (not_or.2 ⟨hreaders, hwriters⟩)
  all_goals decide

/-! ## Ending transactions -/

/-- No transaction has become ready, and none is new. -/
structure Shrinks (w w' : World N) : Prop where
  length : w'.txns.length = w.txns.length
  entry : ∀ (i : ℕ) (k' : TxnEntry), w'.txns[i]? = some k' → ∃ k : TxnEntry,
    w.txns[i]? = some k ∧ k'.lineage = k.lineage ∧ k'.readOnly = k.readOnly ∧
    k'.obj.ptr = k.obj.ptr ∧ (k'.obj.state = .ready → k.obj.state = .ready)

theorem Shrinks.of_txns_eq (h : w'.txns = w.txns) : Shrinks w w' :=
  ⟨congrArg _ h, fun _ k' hk' => ⟨k', h ▸ hk', rfl, rfl, rfl, fun h => h⟩⟩

theorem Shrinks.of_set {k' : TxnEntry} (hk : w.txns[t]? = some k)
    (h : w'.txns = w.txns.set t k') (hlineage : k'.lineage = k.lineage)
    (hreadOnly : k'.readOnly = k.readOnly) (hptr : k'.obj.ptr = k.obj.ptr)
    (hstate : k'.obj.state = .ready → k.obj.state = .ready) : Shrinks w w' := by
  refine ⟨by rw [h, List.length_set], fun i k₁ hk₁ => ?_⟩
  rw [h, List.getElem?_set] at hk₁
  split at hk₁
  · rename_i hi
    subst hi
    split at hk₁
    · cases hk₁
      exact ⟨k, hk, hlineage, hreadOnly, hptr, hstate⟩
    · cases hk₁
  · exact ⟨k₁, hk₁, rfl, rfl, rfl, fun h => h⟩

section Shrinks

variable (hs : Shrinks w w')

include hs

theorem Shrinks.none_iff (i : ℕ) : w'.txns[i]? = none ↔ w.txns[i]? = none := by
  rw [List.getElem?_eq_none_iff, List.getElem?_eq_none_iff, hs.length]

theorem Shrinks.path_eq (i : ℕ) : path w' i = path w i := by
  simp only [path]
  cases hk' : w'.txns[i]? with
  | none => rw [(hs.none_iff i).1 hk']
  | some k' =>
    obtain ⟨k, hk, hlineage, -⟩ := hs.entry i k' hk'
    rw [hk, Option.elim_some, Option.elim_some, hlineage]

theorem Shrinks.ptrOf_eq : ptrOf w' = ptrOf w := by
  funext i
  simp only [ptrOf]
  cases hk' : w'.txns[i]? with
  | none => rw [(hs.none_iff i).1 hk']
  | some k' =>
    obtain ⟨k, hk, -, -, hptr, -⟩ := hs.entry i k' hk'
    rw [hk, Option.map_some, Option.map_some, hptr]

theorem Shrinks.live (h : Live w' t) : Live w t := by
  intro i hi
  have hready := h i ((hs.path_eq t).symm ▸ hi)
  obtain ⟨k', hk', hstate'⟩ := Option.map_eq_some_iff.1 hready
  obtain ⟨k, hk, -, -, -, hstate⟩ := hs.entry i k' hk'
  exact Option.map_eq_some_iff.2 ⟨k, hk, hstate hstate'⟩

end Shrinks

/-- The invariant is kept when transactions end, if the live ones do not. -/
theorem Inv.shrink (hw : Inv w) (hs : Shrinks w w') (hclosed : w'.native.closed = w.native.closed)
    (hsound : w'.native.Sound)
    (hreader : ∀ t k, w.txns[t]? = some k → Live w' t → k.readOnly →
      k.obj.ptr ∈ w'.native.readers)
    (hwriter : ∀ t k, w.txns[t]? = some k → Live w' t → ¬k.readOnly →
      (path w t).map (ptrOf w) <+: w'.native.writers.map some) : Inv w' where
  opened := hclosed.trans hw.opened
  sound := hsound
  known k' hk' i hi := by
    obtain ⟨j, hj⟩ := List.mem_iff_getElem?.1 hk'
    obtain ⟨k, hk, hlineage, -⟩ := hs.entry j k' hj
    rw [hs.length]
    exact hw.known k (List.mem_of_getElem? hk) i (hlineage ▸ hi)
  path_path t i hi := by
    rw [hs.path_eq] at hi ⊢
    rw [hs.path_eq]
    exact hw.path_path t i hi
  reader t k' hk' h hro := by
    obtain ⟨k, hk, -, hreadOnly, hptr, -⟩ := hs.entry t k' hk'
    rw [hptr]
    exact hreader t k hk h (hreadOnly ▸ hro)
  writer t k' hk' h hro := by
    obtain ⟨k, hk, -, hreadOnly, -, -⟩ := hs.entry t k' hk'
    rw [hs.path_eq, hs.ptrOf_eq]
    exact hwriter t k hk h (hreadOnly ▸ hro)
  unique t t' h h' hptr := by
    rw [hs.ptrOf_eq] at hptr
    exact hw.unique t t' (hs.live h) (hs.live h') hptr

/-- The invariant is kept by calls that do not matter to transactions. -/
theorem Inv.same (hw : Inv w) (hs : Shrinks w w') (hn : Handles.SameTxns w.native w'.native) :
    Inv w' := by
  refine hw.shrink hs hn.closed (hw.sound.same hn) (fun t k hk h hro => ?_) fun t k hk h hro => ?_
  · rw [hn.readers]
    exact hw.reader t k hk (hs.live h) hro
  · rw [hn.writers]
    exact hw.writer t k hk (hs.live h) hro

/-- The invariant is kept when a live transaction ends. -/
theorem Inv.end (hw : Inv w) (hs : Shrinks w w') (hk : w.txns[t]? = some k) (hlive : Live w t)
    (hended : stateOf w' t ≠ some .ready) (hsound : w'.native.Sound)
    (hn : Handles.EndedAt k.obj.ptr w.native w'.native) : Inv w' := by
  have hptr : ptrOf w t = some k.obj.ptr := by simp [ptrOf, hk]
  -- a transaction that is still live is not the one that ended, nor in it
  have hne : ∀ i, Live w' i → ∀ j ∈ path w i, ptrOf w j ≠ some k.obj.ptr := by
    intro i hi j hj hj'
    have : j = t := hw.unique j t (hw.live_of_mem_path (hs.live hi) hj) hlive (hj'.trans hptr.symm)
    exact hended (this ▸ hi j (hs.path_eq i ▸ hj))
  refine hw.shrink hs hn.closed hsound (fun i ki hki hi hro => ?_) fun i ki hki hi hro => ?_
  · rw [hn.readers]
    refine List.mem_filter.2 ⟨hw.reader i ki hki (hs.live hi) hro, ?_⟩
    have := hne i hi i (mem_path w i)
    simpa [ptrOf, hki] using this
  · obtain ⟨rest, hrest⟩ := hw.writer i ki hki (hs.live hi) hro
    have hmem : ∀ o ∈ (path w i).map (ptrOf w), decide (o ≠ some k.obj.ptr) = true := by
      intro o ho
      obtain ⟨j, hj, rfl⟩ := List.mem_map.1 ho
      exact decide_eq_true (hne i hi j hj)
    have htake : (w.native.writers.takeWhile (· ≠ k.obj.ptr)).map some =
        (w.native.writers.map some).takeWhile (· ≠ some k.obj.ptr) := by
      rw [List.takeWhile_map]
      congr 1
      simp [Function.comp_def]
    rw [hn.writers, htake, ← hrest, List.takeWhile_append_of_pos hmem]
    exact List.prefix_append _ _

/-- Ending operations make no transaction ready. -/
theorem shrinks_life {p : Platform} {op : Lifecycle} (hop : op.IsEnd) :
    Shrinks w (w.perform Handles.library p (.life t op)).2 := by
  cases hk : w.txns[t]? with
  | none =>
    refine .of_txns_eq ?_
    simp [perform, hk, skip]
  | some k =>
    obtain ⟨k', htxns, hlineage, hreadOnly, hptr, hready⟩ : ∃ k' : TxnEntry,
        (w.perform Handles.library p (.life t op)).2.txns = w.txns.set t k' ∧
          k'.lineage = k.lineage ∧ k'.readOnly = k.readOnly ∧ k'.obj.ptr = k.obj.ptr ∧
          (k'.obj.state = .ready → k.obj.state = .ready) := by
      rw [perform_life _ _ hk]
      split
      · exact ⟨_, rfl, rfl, rfl, op.ptr_after p k.obj _, Lifecycle.ready_of_after hop⟩
      · exact ⟨_, rfl, rfl, rfl, op.ptr_after p k.obj _, Lifecycle.ready_of_after hop⟩
    exact .of_set hk htxns hlineage hreadOnly hptr hready

/-- An ending operation keeps the invariant, if it is called in order. -/
theorem Inv.life {p : Platform} (hw : Inv w) {op : Lifecycle} (hop : op.IsEnd)
    (horder : stateOf w t = some .ready → Live w t) :
    Inv ((machine Handles.library p).next w (.life t op)) := by
  have hs := shrinks_life (w := w) (t := t) (p := p) hop
  rw [next_machine]
  cases hk : w.txns[t]? with
  | none => simpa [perform, hk, skip] using hw
  | some k =>
    have hnext := congrArg Prod.snd (perform_life Handles.library p hk op)
    cases hc : op.call p k.obj with
    | none =>
      rw [hc] at hnext
      exact hw.same hs (hnext ▸ .refl _)
    | some c =>
      rw [hc] at hnext
      obtain ⟨hready, hends, hafter⟩ := Lifecycle.ends_of_call hop hc
      have hlive : Live w t := horder (by simp [stateOf, hk, hready])
      have ht : t < w.txns.length := (List.getElem?_eq_some_iff.1 hk).1
      refine hw.end hs hk hlive ?_ ?_ ?_
      · simp [hnext, stateOf, ht, hafter]
      · exact hnext ▸ hw.sound.answer c
      · exact hnext ▸ hw.sound.endedAt_answer hw.opened hends

/-! ## Beginning transactions -/

section Append

variable {k₀ : TxnEntry} (htxns : w'.txns = w.txns ++ [k₀])

include htxns

theorem getElem?_append_of_ne {i : ℕ} (hi : i ≠ w.txns.length) : w'.txns[i]? = w.txns[i]? := by
  rw [htxns]
  by_cases hlt : i < w.txns.length
  · exact List.getElem?_append_left hlt
  · rw [List.getElem?_eq_none (by simp; omega), List.getElem?_eq_none (by omega)]

theorem getElem?_append_length : w'.txns[w.txns.length]? = some k₀ := by
  rw [htxns]
  simp

theorem path_append_of_ne {i : ℕ} (hi : i ≠ w.txns.length) : path w' i = path w i := by
  rw [path, getElem?_append_of_ne htxns hi, path]

theorem path_append_length : path w' w.txns.length = k₀.lineage ++ [w.txns.length] := by
  rw [path, getElem?_append_length htxns, Option.elim_some]

theorem ptrOf_append_of_ne {i : ℕ} (hi : i ≠ w.txns.length) : ptrOf w' i = ptrOf w i := by
  rw [ptrOf, getElem?_append_of_ne htxns hi, ptrOf]

theorem stateOf_append_of_ne {i : ℕ} (hi : i ≠ w.txns.length) : stateOf w' i = stateOf w i := by
  rw [stateOf, getElem?_append_of_ne htxns hi, stateOf]

end Append

/-- The ancestors of a known transaction are known. -/
theorem Inv.lt_of_mem_path (hw : Inv w) {i : ℕ} (ht : t < w.txns.length) (hi : i ∈ path w t) :
    i < w.txns.length := by
  rw [path, List.getElem?_eq_getElem ht, Option.elim_some] at hi
  rcases List.mem_append.1 hi with hi | hi
  · exact hw.known _ (List.getElem_mem ht) i hi
  · rw [List.mem_singleton.1 hi]
    exact ht

/-- What is known of a new transaction, for the invariant to be kept. -/
structure Joins (w : World Handles) (k₀ : TxnEntry) (s' : Handles) : Prop where
  known : ∀ i ∈ k₀.lineage, i < w.txns.length
  path_path : ∀ i ∈ k₀.lineage, path w i <+: k₀.lineage
  closed : s'.closed = w.native.closed
  writers : w.native.writers <+: s'.writers
  readers : w.native.readers ⊆ s'.readers
  reader : k₀.readOnly → k₀.obj.ptr ∈ s'.readers
  writer : (∀ i ∈ k₀.lineage, Live w i) → ¬k₀.readOnly →
    k₀.lineage.map (ptrOf w) ++ [some k₀.obj.ptr] <+: s'.writers.map some
  unique : (∀ i ∈ k₀.lineage, Live w i) → ∀ t, Live w t → ptrOf w t ≠ some k₀.obj.ptr

/-- The paths of the transactions there were do not lead to a new one. -/
theorem Inv.ne_of_mem_path (hw : Inv w) {i : ℕ} (ht : t ≠ w.txns.length) (hi : i ∈ path w t) :
    i ≠ w.txns.length := by
  by_cases hlt : t < w.txns.length
  · exact (hw.lt_of_mem_path hlt hi).ne
  · rw [path, List.getElem?_eq_none (by omega), Option.elim_none, List.nil_append,
      List.mem_singleton] at hi
    exact hi ▸ ht

/-- The ancestors of a new transaction are live if it is. -/
theorem Joins.live_of_lineage {k₀ : TxnEntry} (htxns : w'.txns = w.txns ++ [k₀])
    (hj : Joins w k₀ w'.native) (h : Live w' w.txns.length) :
    ∀ i ∈ k₀.lineage, Live w i := by
  intro i hi j hji
  have hmem : j ∈ k₀.lineage := (hj.path_path i hi).subset hji
  rw [← stateOf_append_of_ne htxns (hj.known j hmem).ne]
  refine h j ?_
  rw [path_append_length htxns]
  exact List.mem_append_left _ hmem

section Begin

variable {k₀ : TxnEntry} (hw : Inv w) (htxns : w'.txns = w.txns ++ [k₀])

include hw htxns

/-- The transactions there were are live as before. -/
theorem Inv.live_of_append (ht : t ≠ w.txns.length) (h : Live w' t) : Live w t := by
  intro j hj
  rw [← stateOf_append_of_ne htxns (hw.ne_of_mem_path ht hj)]
  exact h j (path_append_of_ne htxns ht ▸ hj)

theorem Inv.path_path_append (hj : Joins w k₀ w'.native) (t : ℕ) :
    ∀ i ∈ path w' t, path w' i <+: path w' t := by
  intro i hi
  by_cases ht : t = w.txns.length
  · subst ht
    rw [path_append_length htxns] at hi ⊢
    rcases List.mem_append.1 hi with hi | hi
    · rw [path_append_of_ne htxns (hj.known i hi).ne]
      exact (hj.path_path i hi).trans (List.prefix_append _ _)
    · obtain rfl := List.mem_singleton.1 hi
      exact ⟨[], by rw [List.append_nil, path_append_length htxns]⟩
  · rw [path_append_of_ne htxns ht] at hi ⊢
    rw [path_append_of_ne htxns (hw.ne_of_mem_path ht hi)]
    exact hw.path_path t i hi

/-- The handles on a path are those there were, but for that of the new
    transaction. -/
theorem Inv.map_path_append (ht : t ≠ w.txns.length) :
    (path w' t).map (ptrOf w') = (path w t).map (ptrOf w) := by
  rw [path_append_of_ne htxns ht]
  exact List.map_congr_left fun i hi => ptrOf_append_of_ne htxns (hw.ne_of_mem_path ht hi)

/-- The invariant is kept when a transaction begins. -/
theorem Inv.begin (hj : Joins w k₀ w'.native) (hsound : w'.native.Sound) : Inv w' := by
  -- The entries there were stay as they are, so each field has a part about them and one about
  -- the new transaction, which `Joins` describes.
  have hlength : w'.txns.length = w.txns.length + 1 := by simp [htxns]
  have hget := getElem?_append_length htxns
  have hptr : ptrOf w' w.txns.length = some k₀.obj.ptr := by simp [ptrOf, hget]
  refine {
    opened := hj.closed.trans hw.opened
    sound := hsound
    known := fun k hk i hi => ?_
    path_path := hw.path_path_append htxns hj
    reader := fun t k hk h hro => ?_
    writer := fun t k hk h hro => ?_
    unique := fun t t' h h' htt' => ?_ }
  · rw [htxns] at hk
    rcases List.mem_append.1 hk with hk | hk
    · have := hw.known k hk i hi
      omega
    · have := hj.known i (List.mem_singleton.1 hk ▸ hi)
      omega
  · by_cases ht : t = w.txns.length
    · subst ht
      cases hget.symm.trans hk
      exact hj.reader hro
    · rw [getElem?_append_of_ne htxns ht] at hk
      exact hj.readers (hw.reader t k hk (hw.live_of_append htxns ht h) hro)
  · by_cases ht : t = w.txns.length
    · subst ht
      cases hget.symm.trans hk
      have hmap : k₀.lineage.map (ptrOf w') = k₀.lineage.map (ptrOf w) :=
        List.map_congr_left fun i hi => ptrOf_append_of_ne htxns (hj.known i hi).ne
      rw [path_append_length htxns, List.map_append, hmap, List.map_singleton, hptr]
      exact hj.writer (hj.live_of_lineage htxns h) hro
    · rw [getElem?_append_of_ne htxns ht] at hk
      rw [hw.map_path_append htxns ht]
      exact (hw.writer t k hk (hw.live_of_append htxns ht h) hro).trans (hj.writers.map some)
  · -- the handle of the new transaction is no live one's
    have hnew : ∀ t, t ≠ w.txns.length → Live w' t → Live w' w.txns.length →
        ptrOf w' t ≠ ptrOf w' w.txns.length := by
      intro t ht h hn
      rw [hptr, ptrOf_append_of_ne htxns ht]
      exact hj.unique (hj.live_of_lineage htxns hn) t (hw.live_of_append htxns ht h)
    by_cases ht : t = w.txns.length <;> by_cases ht' : t' = w.txns.length
    · exact ht.trans ht'.symm
    · subst ht
      exact absurd htt'.symm (hnew t' ht' h' h)
    · subst ht'
      exact absurd htt' (hnew t ht h h')
    · rw [ptrOf_append_of_ne htxns ht, ptrOf_append_of_ne htxns ht'] at htt'
      exact hw.unique t t' (hw.live_of_append htxns ht h) (hw.live_of_append htxns ht' h') htt'

end Begin

/-- A live transaction has a handle that LMDB takes for live. -/
theorem Inv.mem_of_live (hw : Inv w) (h : Live w t) :
    ∃ ptr, ptrOf w t = some ptr ∧ (ptr ∈ w.native.readers ∨ ptr ∈ w.native.writers) := by
  obtain ⟨k, hk, -⟩ := Option.map_eq_some_iff.1 h.ready
  have hptr : ptrOf w t = some k.obj.ptr := by simp [ptrOf, hk]
  refine ⟨k.obj.ptr, hptr, ?_⟩
  by_cases hro : k.readOnly
  · exact .inl (hw.reader t k hk h hro)
  · exact .inr (hw.mem_writers hk h hro)

/-- A live transaction has no handle to be allocated yet. -/
theorem Inv.ptrOf_ne_fresh (hw : Inv w) (h : Live w t) : ptrOf w t ≠ some w.native.fresh := by
  obtain ⟨ptr, hptr, hmem⟩ := hw.mem_of_live h
  have hlt : ptr < w.native.fresh :=
    hmem.elim hw.sound.lt_of_mem_readers (hw.sound.writers_lt ptr)
  intro he
  exact absurd (Option.some.inj (hptr.symm.trans he)) hlt.ne

/-- A transaction that is allocated joins the others, if it has its place in LMDB's
    chain. -/
theorem Inv.joins_fresh (hw : Inv w) {k₀ : TxnEntry} {s' : Handles}
    (hptr : k₀.obj.ptr = w.native.fresh) (hknown : ∀ i ∈ k₀.lineage, i < w.txns.length)
    (hpath : ∀ i ∈ k₀.lineage, path w i <+: k₀.lineage) (hclosed : s'.closed = w.native.closed)
    (hwriters : w.native.writers <+: s'.writers) (hreaders : w.native.readers ⊆ s'.readers)
    (hreader : k₀.readOnly → k₀.obj.ptr ∈ s'.readers)
    (hwriter : (∀ i ∈ k₀.lineage, Live w i) → ¬k₀.readOnly →
      k₀.lineage.map (ptrOf w) ++ [some k₀.obj.ptr] <+: s'.writers.map some) : Joins w k₀ s' :=
  ⟨hknown, hpath, hclosed, hwriters, hreaders, hreader, hwriter,
    fun _ _ h => hptr ▸ hw.ptrOf_ne_fresh h⟩

/-- The path of the innermost write transaction, if it is live, is all of LMDB's
    chain. -/
theorem Inv.map_path_of_last (hw : Inv w) (hk : w.txns[t]? = some k) (hlive : Live w t)
    (hlast : w.native.writers.getLast? = some k.obj.ptr) :
    (path w t).map (ptrOf w) = w.native.writers.map some := by
  have hmem := List.mem_of_getLast? hlast
  have hro : ¬k.readOnly := fun hro =>
    (hw.sound.of_mem_readers (hw.reader t k hk hlive hro)).2 hmem
  obtain ⟨rest, hrest⟩ := hw.writer t k hk hlive hro
  have hend : ptrOf w t = some k.obj.ptr := by simp [ptrOf, hk]
  rcases List.eq_nil_or_concat rest with rfl | ⟨rest, o, rfl⟩
  · simpa using hrest
  · -- otherwise the handle would be in the chain twice
    have hnodup : (w.native.writers.map some).Nodup :=
      hw.sound.nodup.map fun _ _ => Option.some.inj
    have ho : o = some k.obj.ptr := by
      have := congrArg List.getLast? hrest
      simpa [hlast] using this
    rw [← hrest] at hnodup
    refine absurd ?_ ((List.nodup_append.1 hnodup).2.2 (some k.obj.ptr) ?_ o (by simp))
    · exact ho.symm
    · exact hend ▸ List.mem_map_of_mem (mem_path w t)

/-- What comes of a request to LMDB to begin a transaction: it joins the others, or
    nothing happens. -/
def Settles (w : World Handles) (parentTx : Option Ptr) (lineage : List ℕ) (readOnly : Bool)
    (r : Reply × Handles) : Prop :=
  r.1.rc = 0 ∧ Joins w { obj := { ptr := r.1.ptr, parentTx }, lineage, readOnly } r.2 ∨
    r.1.rc ≠ 0 ∧ Handles.SameTxns w.native r.2

theorem settles_refuse {parentTx : Option Ptr} {lineage : List ℕ} {readOnly : Bool} {rc : Int}
    (hrc : rc ≠ 0) : Settles w parentTx lineage readOnly (w.native.refuse rc) :=
  .inr ⟨hrc, .refl _⟩

theorem Inv.settles_reader (hw : Inv w) : Settles w none [] true w.native.beginReader := by
  rw [Handles.beginReader]
  rcases w.native.allocate_cases w.native.fresh _ with ⟨hrc, hr⟩ | ⟨hrc, hr⟩ <;> rw [hr]
  · refine .inl ⟨hrc, hw.joins_fresh rfl (by simp) (by simp) rfl List.prefix_rfl ?_ ?_ ?_⟩
    · exact List.subset_append_left _ _
    · exact fun _ => List.mem_append_right _ (List.mem_singleton_self _)
    · exact fun _ hro => absurd rfl hro
  · exact .inr ⟨hrc, w.native.sameTxns_request⟩

theorem Inv.settles_writer (hw : Inv w) : Settles w none [] false w.native.beginWriter := by
  rw [Handles.beginWriter]
  split
  case isFalse => exact settles_refuse (by decide)
  case isTrue hnone =>
    rcases w.native.allocate_cases meTxn0 _ with ⟨hrc, hr⟩ | ⟨hrc, hr⟩ <;> rw [hr]
    · refine .inl ⟨hrc, ⟨by simp, by simp, rfl, hnone ▸ List.nil_prefix, ?_, ?_, ?_, ?_⟩⟩
      · exact List.Subset.refl _
      · exact fun hro => by cases hro
      · exact fun _ _ => List.prefix_rfl
      · intro _ t h he
        -- the live transactions are all read-only
        obtain ⟨ptr, hptr, hmem | hmem⟩ := hw.mem_of_live h
        · exact (hw.sound.of_mem_readers hmem).1 (Option.some.inj (hptr.symm.trans he))
        · rw [hnone] at hmem
          cases hmem
    · exact .inr ⟨hrc, w.native.sameTxns_request⟩

theorem Inv.settles_child (hw : Inv w) (hk : w.txns[t]? = some k)
    (hstatus : w.native.status k.obj.ptr = .active) :
    Settles w (some k.obj.ptr) (path w t) false w.native.beginChild := by
  rw [Handles.beginChild]
  rcases w.native.allocate_cases w.native.fresh _ with ⟨hrc, hr⟩ | ⟨hrc, hr⟩ <;> rw [hr]
  · refine .inl ⟨hrc, hw.joins_fresh rfl ?_ ?_ rfl (List.prefix_append _ _) ?_ ?_ ?_⟩
    · exact fun i hi => hw.lt_of_mem_path (List.getElem?_eq_some_iff.1 hk).1 hi
    · exact fun i hi => hw.path_path t i hi
    · exact List.Subset.refl _
    · exact fun hro => by cases hro
    · intro hlive _
      have hmap := hw.map_path_of_last hk (hlive t (mem_path w t))
        (Handles.getLast?_of_status hstatus)
      rw [hmap, ← List.map_singleton, ← List.map_append]
      exact List.prefix_rfl
  · exact .inr ⟨hrc, w.native.sameTxns_request⟩

/-- A transaction begun from one that LMDB has ended is not live, whatever LMDB
    answered. -/
theorem Inv.settles_dangling (hw : Inv w) (hk : w.txns[t]? = some k)
    (hstatus : w.native.status k.obj.ptr = .dangling) :
    Settles w (some k.obj.ptr) (path w t) false w.native.request := by
  have hdead : ¬∀ i ∈ path w t, Live w i := fun h =>
    hw.status_of_live hk (h t (mem_path w t)) (by rw [hstatus]; rfl)
  by_cases hrc : w.native.result.rc = 0
  · refine .inl ⟨hrc, ⟨?_, ?_, rfl, List.prefix_rfl, List.Subset.refl _, ?_, ?_, ?_⟩⟩
    · exact fun i hi => hw.lt_of_mem_path (List.getElem?_eq_some_iff.1 hk).1 hi
    · exact fun i hi => hw.path_path t i hi
    · exact fun hro => by cases hro
    · exact fun h => absurd h hdead
    · exact fun h => absurd h hdead
  · exact .inr ⟨hrc, w.native.sameTxns_request⟩

theorem Inv.settles_beginTxn (hw : Inv w) (options : List TxnOption) :
    Settles w none [] (.readOnly ∈ options)
      (w.native.txnBegin none (TxnOption.toFlags options)) := by
  have hopened : ¬w.native.closed := by simp [hw.opened]
  simp only [Handles.txnBegin, if_neg hopened]
  by_cases hro : TxnOption.readOnly ∈ options
  · rw [if_pos ((Handles.toFlags_and_mdbRdonly options).2 hro), decide_eq_true hro]
    exact hw.settles_reader
  · rw [if_neg (mt (Handles.toFlags_and_mdbRdonly options).1 hro), decide_eq_false hro]
    exact hw.settles_writer

theorem Inv.settles_begin (hw : Inv w) (hk : w.txns[t]? = some k) :
    Settles w (some k.obj.ptr) (path w t) false (w.native.txnBegin (some k.obj.ptr) 0) := by
  have hflags : ¬(0 : UInt32) &&& mdbRdonly ≠ 0 := by decide
  simp only [Handles.txnBegin, if_neg hflags]
  cases hstatus : w.native.status k.obj.ptr
  case active => exact hw.settles_child hk hstatus
  case dangling => exact hw.settles_dangling hk hstatus
  all_goals exact settles_refuse (by decide)

/-- Beginning a transaction keeps the invariant. -/
theorem Inv.settled (hw : Inv w) {parentTx : Option Ptr} {lineage : List ℕ} {readOnly : Bool}
    {r : Reply × Handles} (hr : Settles w parentTx lineage readOnly r) (hsound : r.2.Sound)
    (htxns : w'.txns = w.txns ++ begun lineage readOnly
      ((beginResult Handles.library parentTx r.1).map Value.txn))
    (hnative : w'.native = r.2) : Inv w' := by
  rw [← hnative] at hsound
  rw [beginResult] at htxns
  rcases hr with ⟨hrc, hj⟩ | ⟨hrc, hn⟩ <;> rw [← hnative] at *
  · rw [if_pos hrc] at htxns
    exact hw.begin htxns hj hsound
  · rw [if_neg hrc] at htxns
    exact hw.same (.of_txns_eq (htxns.trans (List.append_nil _))) hn

/-! ## Runs -/

variable {p : Platform}

/-- The calls that do not matter to transactions keep the invariant. -/
theorem Inv.quiet (hw : Inv w) {op : Op} (hop : ¬Op.IsLife op) :
    Inv (w.perform Handles.library p op).2 := by
  have hnative : (w.perform Handles.library p op).2.native = _ :=
    (calls_perform (Op.callsOnce_of_not_isLife hop)).2
  refine hw.same (.of_txns_eq (txns_perform hop).2) ?_
  rw [hnative]
  cases hc : callOf p w op with
  | none => exact .refl _
  | some c => exact w.native.sameTxns_answer (not_isLife_callOf hop c hc)

/-- So do all calls in order. -/
theorem Inv.next (hw : Inv w) {op : Op} (hop : Orderly w op) :
    Inv ((machine Handles.library p).next w op) := by
  rw [next_machine]
  cases op with
  | env m =>
    cases m with
    | beginTxn options =>
      rw [perform_beginTxn]
      split
      · exact hw.settled (hw.settles_beginTxn options) (hw.sound.txnBegin _ _) rfl rfl
      · exact hw
    | access | «open» | close => exact hop.elim
  | begin t options =>
    cases hk : w.txns[t]? with
    | none => simpa [perform, hk, skip] using hw
    | some k =>
      have hpath : path w t = k.lineage ++ [t] := by simp [path, hk]
      rw [perform_begin _ _ hk]
      split
      · exact hw.settled (hpath ▸ hw.settles_begin hk) (hw.sound.txnBegin _ _) rfl rfl
      · exact hw
  | life t op =>
    obtain ⟨hop, horder⟩ := isEnd_of_orderly hop
    exact hw.life hop horder
  | id | dbiOpen | access | dbi | closeDbi | cursor | renewCursor | closeCursor =>
    exact hw.quiet not_false

/-- Only operations of the life cycle end transactions. -/
theorem exists_life_of_ends {op : Op} {c : Call} (hc : c ∈ callOf p w op) {h : Ptr}
    (hends : Ends h c) : ∃ t o, op = .life t o := by
  cases made_of_callOf hc
  case life t o _ _ _ => exact ⟨t, o, rfl⟩
  case access m _ _ _ _ | dbi m _ _ _ _ | cursor m _ _ =>
    cases m <;> rcases hends with h | h <;> cases h
  all_goals rcases hends with h | h <;> cases h

/-- In order, LMDB is not called to end what it has ended. -/
theorem Inv.endsLive (hw : Inv w) {op : Op} (hop : Orderly w op) : EndsLive p w op := by
  intro c hc h hends
  rw [out_machine, (calls_perform (callsOnce_of_orderly hop)).1] at hc
  obtain ⟨c', hc', rfl⟩ := List.mem_map.1 hc
  have hc' := Option.mem_toList.1 hc'
  obtain ⟨t, op, rfl⟩ := exists_life_of_ends hc' hends
  obtain ⟨k, hk, hc'⟩ := Option.bind_eq_some_iff.1 hc'
  obtain ⟨hop, horder⟩ := isEnd_of_orderly hop
  obtain ⟨hready, hends', -⟩ := Lifecycle.ends_of_call hop hc'
  have hlive : Live w t := horder (by simp [stateOf, hk, hready])
  have hh : h = k.obj.ptr := by
    rcases hends with rfl | rfl <;> rcases hends' with h | h <;> cases h <;> rfl
  exact hh ▸ hw.status_of_live hk hlive

/-- The transactions there are stay the same but that they may end. -/
structure Follows (w w' : World N) : Prop where
  length : w.txns.length ≤ w'.txns.length
  ptrOf : ∀ t < w.txns.length, ptrOf w' t = ptrOf w t
  readOnly : ∀ t < w.txns.length, readOnlyOf w' t = readOnlyOf w t
  live : ∀ t < w.txns.length, Live w' t → Live w t

theorem Shrinks.follows (hs : Shrinks w w') : Follows w w' where
  length := hs.length.ge
  ptrOf t _ := congrFun hs.ptrOf_eq t
  readOnly t ht := by
    have ht' : t < w'.txns.length := hs.length ▸ ht
    obtain ⟨k, hk, -, hreadOnly, -⟩ := hs.entry t _ (List.getElem?_eq_getElem ht')
    rw [readOnlyOf, readOnlyOf, List.getElem?_eq_getElem ht', hk, Option.any_some, hreadOnly,
      Option.any_some]
  live _ _ := hs.live

theorem Inv.follows_append (hw : Inv w) {k₀ : TxnEntry} (htxns : w'.txns = w.txns ++ [k₀]) :
    Follows w w' where
  length := by simp [htxns]
  ptrOf t ht := ptrOf_append_of_ne htxns ht.ne
  readOnly t ht := by rw [readOnlyOf, getElem?_append_of_ne htxns ht.ne, readOnlyOf]
  live t ht := hw.live_of_append htxns ht.ne

theorem Inv.follows_begun (hw : Inv w) {lineage : List ℕ} {readOnly : Bool}
    {o : Except Exn Value} (htxns : w'.txns = w.txns ++ begun lineage readOnly o) :
    Follows w w' := by
  simp only [begun] at htxns
  split at htxns
  · exact hw.follows_append htxns
  · exact (Shrinks.of_txns_eq (htxns.trans (List.append_nil _))).follows

/-- So they do by all calls in order. -/
theorem Inv.follows_next (hw : Inv w) {op : Op} (hop : Orderly w op) :
    Follows w ((machine Handles.library p).next w op) := by
  rw [next_machine]
  cases op with
  | env m => exact hw.follows_begun rfl
  | begin t options =>
    cases hk : w.txns[t]? with
    | none => simpa [perform, hk, skip] using (Shrinks.of_txns_eq rfl).follows
    | some k =>
      rw [perform_begin _ _ hk]
      split
      · exact hw.follows_begun rfl
      · exact (Shrinks.of_txns_eq rfl).follows
  | life t op =>
    exact (shrinks_life (isEnd_of_orderly hop).1).follows
  | id | dbiOpen | access | dbi | closeDbi | cursor | renewCursor | closeCursor =>
    exact (Shrinks.of_txns_eq (txns_perform (by exact not_false)).2).follows

/-- Nothing has begun yet. -/
theorem inv_start (env : Env) (results : ℕ → Reply) : Inv { env, native := { results } } where
  opened := rfl
  sound := {
    nodup := .nil
    pos := Nat.one_pos
    writers_lt := fun _ hh => nomatch hh
    readers_lt := fun _ hh => nomatch hh
    disjoint := fun _ hh => nomatch hh }
  known _ hk := nomatch hk
  path_path _ _ hi := List.mem_singleton.1 hi ▸ List.prefix_rfl
  reader _ _ hk := nomatch hk
  writer _ _ hk := nomatch hk
  unique _ _ h := nomatch h.ready

/-- However transactions are nested, begun and ended, as long as none is ended that
    an ancestor has ended before, LMDB is not called to end what it has ended. -/
theorem endsLive_of_orderly (p : Platform) (env : Env) (results : ℕ → Reply) (ops : List Op)
    (hops : (machine Handles.library p).Along Orderly { env, native := { results } } ops) :
    (machine Handles.library p).Along (EndsLive p) { env, native := { results } } ops :=
  Machine.along_of_inv (fun _ _ hw hop => hw.endsLive hop) (fun _ _ hw hop => hw.next hop)
    (inv_start env results) hops

/-- A transaction with a child, both closed after one is committed. -/
theorem endsLive_commit_child :
    (machine Handles.library .jvm).Along (EndsLive .jvm)
      { env := { ptr := 1, mapSize := 0, isOpened := true }, native := { results := fun _ => {} } }
      [.env (.beginTxn []), .begin 0 [], .life 1 .commit, .life 0 .abort, .life 1 .close,
        .life 0 .close] :=
  endsLive_of_orderly .jvm _ _ _ ⟨trivial, trivial, fun _ => by decide, fun _ => by decide,
    fun h => absurd h (by decide), fun h => absurd h (by decide), trivial⟩

/-- When a transaction is committed and its child closed after it, LMDB is called to
    abort the child, whose handle it has freed. On both platforms. -/
theorem not_endsLive_close_child :
    let start : World Handles :=
      { env := { ptr := 1, mapSize := 0, isOpened := true }, native := { results := fun _ => {} } }
    let ops : List Op := [.env (.beginTxn []), .begin 0 [], .life 0 .commit, .life 1 .close]
    ¬(machine Handles.library .jvm).Along (EndsLive .jvm) start ops ∧
      ¬(machine Handles.library .native).Along (EndsLive .native) start ops :=
  ⟨fun h => h.2.2.2.1 (.mdbTxnAbort 1, {}) (by decide) 1 (.inr rfl) rfl,
    fun h => h.2.2.2.1 (.mdbTxnAbort 1, {}) (by decide) 1 (.inr rfl) rfl⟩

end Txn

end KotlinLmdb
