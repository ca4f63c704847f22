import KotlinLmdb.Lmdb.Mvcc.Snapshots
import KotlinLmdb.Lmdb.Pages.Views

/-!
# The nested transactions of the writer

What a write transaction does with its pages, and those nested in it, is one thing (`PageTxns`),
which pages it gets is another (`Mvcc`). Here both go on together (`nested`): the writer has
as its own what its transactions are given (`Coupled`), so they do not use any page in `me_pghead`,
and each page taken from there may be used again (`Coupled.allowed`). What is assumed of
transactions by themselves holds of those of the writer, in every run (`nested_run`).
-/

namespace KotlinLmdb

variable {D : Type}

namespace PageTxns

/-- The page a call takes from `me_pghead`. -/
def Call.reuse : Call D → Option ℕ
  | .new _ reuse _ | .write _ _ reuse _ => reuse
  | _ => none

/-- The page that is there already. -/
def Call.page : Call D → Option ℕ
  | .write pgno _ _ _ | .loose pgno _ _ => some pgno
  | _ => none

end PageTxns

open PageTxns

namespace Mvcc

variable {G own own' : Finset ℕ} {m : Mvcc D} {w w' : Writer D} {phase : Phase D} {s : PageTxns D}
  {views : Views D} {base v : PageView D} {c : PageTxns.Call D} {r : ℕ}

/-! ## What is seen -/

/-- No page is seen but some, and those that are used by what has been committed. -/
def SeesOnly (own : Finset ℕ) (base v : PageView D) : Prop :=
  ∀ p, p ∉ own → base p = none → v p = none

theorem SeesOnly.mono (h : SeesOnly own base v) (hown : own ⊆ own') : SeesOnly own' base v :=
  fun p hp => h p fun hmem => hp (hown hmem)

theorem SeesOnly.update (h : SeesOnly own base v) {x : Option D} (hr : r ∈ own ∨ x = none) :
    SeesOnly own base (Function.update v r x) := fun p hp hnone => by
  by_cases hpr : p = r
  · subst hpr
    rw [Function.update_self]
    exact hr.resolve_left hp
  · rw [Function.update_of_ne hpr]
    exact h p hp hnone

/-- A transaction that is given up leaves only what was seen before. -/
theorem SeesOnly.back (h : ∀ v ∈ views.now :: views.under, SeesOnly own base v) :
    ∀ v ∈ views.back.now :: views.back.under, SeesOnly own base v := by
  obtain ⟨now, under⟩ := views
  obtain ⟨hnow, hunder⟩ := List.forall_mem_cons.1 h
  rcases under with _ | ⟨v, _ | ⟨v', under⟩⟩
  · exact h
  · exact List.forall_mem_cons.2 ⟨hunder v List.mem_cons_self, hunder⟩
  · exact hunder

/-- After a call, what is seen has been given to the transactions, or was seen before. -/
theorem SeesOnly.after (h : ∀ v ∈ views.now :: views.under, SeesOnly own base v)
    (out : Int × ℕ) :
    ∀ v ∈ (views.after c out).now :: (views.after c out).under,
      SeesOnly (given own c out) base v := by
  obtain ⟨rc, r⟩ := out
  obtain ⟨hnow, hunder⟩ := List.forall_mem_cons.1 h
  cases c with
  | new data | write _ data =>
    rw [Views.after, given]
    split
    · have hsub := Finset.subset_insert r own
      exact List.forall_mem_cons.2 ⟨(hnow.mono hsub).update (.inl (Finset.mem_insert_self r own)),
        fun v hv => (hunder v hv).mono hsub⟩
    · exact h
  | loose =>
    rw [Views.after]
    split
    · exact List.forall_mem_cons.2 ⟨hnow.update (.inr rfl), hunder⟩
    · exact h
  | spill => exact h
  | begin =>
    rw [Views.after]
    split
    · exact List.forall_mem_cons.2 ⟨hnow, h⟩
    · exact h
  | commit =>
    rw [Views.after]
    split
    · split
      · exact List.forall_mem_cons.2 ⟨hnow, List.forall_mem_singleton.2 hnow⟩
      · rename_i heq
        rw [heq] at hunder
        exact List.forall_mem_cons.2 ⟨hnow, (List.forall_mem_cons.1 hunder).2⟩
      · exact h
    · exact .back h
  | abort => exact .back h

/-! ## The writer and its transactions -/

/-- The transactions have no pages but those of the writer, and see no others than those and the
    ones that were committed before. -/
structure Coupled (w : Writer D) (s : PageTxns D) (views : Views D) : Prop where
  holds : Holds s views w.own
  seen : ∀ v ∈ views.now :: views.under, SeesOnly w.own w.snap.pages v

/-- A transaction begins. -/
theorem Coupled.begin (hs : Committed s w.snap.pages) :
    Coupled w s.txnRenew ⟨w.snap.pages, [w.snap.pages]⟩ where
  holds := txnRenew_holds hs.max (.base hs.next.1 hs.next.2 hs.base)
  seen := List.forall_mem_cons.2 ⟨fun _ _ => id, List.forall_mem_singleton.2 fun _ _ => id⟩

/-- The writer may get more pages. -/
theorem Coupled.mono (h : Coupled w s views) (hown : w.own ⊆ w'.own) (hsnap : w'.snap = w.snap) :
    Coupled w' s views where
  holds := h.holds.mono hown
  seen v hv := by
    rw [hsnap]
    exact (h.seen v hv).mono hown

/-- Pages that may be used again are unused. -/
theorem Coupled.unused (h : Coupled w s views) (hw : m.Working G w) (hr : r ∈ w.pool)
    (hlt : r < s.txn.nextPgno) (herror : s.txn.error = false) :
    Unused s views.now views.under r := by
  have hown : r ∉ w.own := fun hmem => (hw.valid.own r hmem).2.1 hr
  have hmem : r ∈ w.unused := by simp [Writer.unused, hr]
  refine ⟨⟨?_, hlt⟩, List.forall_mem_cons.2 ⟨fun hlisted => hown (h.holds.own herror r hlisted),
    fun t ht hlisted => hown (h.holds.listed t ht r hlisted)⟩, fun v hv => h.seen v hv r hown ?_⟩
  · exact Nat.zero_lt_two.trans_le (hw.valid.range r hmem).1
  · rw [hw.snap]
    exact hw.clear _ _ (Valid.held_last m) r (.inl hr)

/-- A call takes the page that is used again from `me_pghead`, and goes to a page that is seen. -/
structure Takes (w : Writer D) (s : PageTxns D) (views : Views D) (c : PageTxns.Call D) :
    Prop where
  long : ∀ t ∈ s.txn :: s.parents, ∀ sl ∈ t.spillPgs, sl.count < 2 ^ 29
  page : ∀ p ∈ c.page, views.now p ≠ none
  reuse : ∀ r ∈ c.reuse, s.txn.error = false ∧ r ∈ w.pool ∧ r < s.txn.nextPgno

theorem Coupled.allowed (h : Coupled w s views) (hw : m.Working G w) (hc : Takes w s views c) :
    Allowed s views c := by
  have hunused : ∀ r ∈ c.reuse, Unused s views.now views.under r := fun r hr => by
    obtain ⟨herror, hpool, hlt⟩ := hc.reuse r hr
    exact h.unused hw hpool hlt herror
  refine ⟨hc.long, ?_⟩
  cases c with
  | new => exact hunused
  | write p => exact ⟨hc.page p rfl, hunused⟩
  | loose p => exact hc.page p rfl
  | _ => trivial

/-- A call keeps to what the writer has, if that has been given what the call has. -/
theorem Coupled.call (h : Coupled w s views) (hc : Allowed s views c) :
    ∃ out s', s.call c = some (out, s') ∧ ∀ w', given w.own c out ⊆ w'.own → w'.snap = w.snap →
      Coupled w' s' (views.after c out) := by
  obtain ⟨out, s', hcall, hholds⟩ := call_holds h.holds c hc
  refine ⟨out, s', hcall, fun w' hown hsnap => ⟨hholds.mono hown, fun v hv => ?_⟩⟩
  rw [hsnap]
  exact (SeesOnly.after h.seen out v hv).mono hown

/-! ## Runs -/

/-- A state, with the transactions of its writer and what they see. At each step, they may have a
    call. -/
def nested (D : Type) :
    Machine (Mvcc D × Option (PageTxns D) × Views D) (Event D × Option (PageTxns.Call D))
      (Bool × Option (Int × ℕ)) where
  step x e :=
    let y := (machine D).step x.1 e.1
    match e.2 with
    | none => ((y.1, none), y.2, x.2)
    | some c =>
      let z := (viewMachine D).step x.2 c
      ((y.1, z.1), y.2, z.2)

/-- The writer goes on with its work, and gets the page that a call is given. -/
def InStep (G : Finset ℕ) (x : Mvcc D × Option (PageTxns D) × Views D)
    (e : Event D × Option (PageTxns.Call D)) : Prop :=
  x.1.Allows G e.1 ∧ x.1.pickMeta.txnid = x.1.txnid ∧
    ∃ w phase w' phase', x.1.writer = some (some (w, phase)) ∧
      ((machine D).next x.1 e.1).writer = some (some (w', phase')) ∧ w.own ⊆ w'.own ∧
      w'.snap = w.snap ∧ ∀ c ∈ e.2, ∀ s ∈ x.2.1, Takes w s x.2.2 c ∧
        ∀ out s', s.call c = some (out, s') → given w.own c out ⊆ w'.own

/-- The transactions of the writer are such as has been assumed of them, in every run, and none of
    their assertions fails. -/
theorem nested_run (hm : m.Reached (Allows G)) (hw : m.writer = some (some (w, phase)))
    (hs : Committed s w.snap.pages) {es : List (Event D × Option (PageTxns.Call D))}
    (hes : (nested D).Along (InStep G)
      (m, some s.txnRenew, ⟨w.snap.pages, [w.snap.pages]⟩) es) :
    ∃ m' s' views w' phase',
      (nested D).run (m, some s.txnRenew, ⟨w.snap.pages, [w.snap.pages]⟩) es =
        (m', some s', views) ∧
      m'.Reached (Allows G) ∧ m'.writer = some (some (w', phase')) ∧ Coupled w' s' views := by
  refine Machine.run_of_inv (I := fun x => ∃ m s views w phase, x = (m, some s, views) ∧
    m.Reached (Allows G) ∧ m.writer = some (some (w, phase)) ∧ Coupled w s views) ?_
    ⟨m, _, _, w, phase, rfl, hm, hw, .begin hs⟩ hes
  rintro _ ⟨e, c⟩ ⟨m, s, views, w, phase, rfl, hm, hw, hcoupled⟩
    ⟨hallows, hmeta, w₁, phase₁, w', phase', hw₁, hw', hown, hsnap, hcall⟩
  obtain ⟨rfl, rfl⟩ := Prod.mk.inj (Option.some.inj (Option.some.inj (hw.symm.trans hw₁)))
  cases c with
  | none => exact ⟨_, s, views, w', phase', rfl, hm.next hallows, hw', hcoupled.mono hown hsnap⟩
  | some c =>
    obtain ⟨htakes, hgiven⟩ := hcall c rfl s rfl
    obtain ⟨out, s', hout, hnext⟩ := hcoupled.call (hcoupled.allowed (hm.working hw hmeta) htakes)
    refine ⟨_, s', views.after c out, w', phase', ?_, hm.next hallows, hw',
      hnext w' (hgiven out s' hout) hsnap⟩
    simp only [Machine.next, nested, viewMachine, Option.bind_some, hout]

/-- A page that has never been used is given to both. -/
example :
    let m := (machine ℕ).run (init (fun _ => none) 10 121 1 (fun _ => 1) fun _ => false)
      [.begin 1, .act (.alloc 1 fun _ => 5), .alloc true]
    let s : PageTxns ℕ := ⟨fun p => ⟨p, false, false, 0⟩, 10, 2, .fresh 2 ⟨idlUmMax, fun _ => 0⟩
      idlUmMax (fun _ => ⟨0, ⟨0, false, false, 0⟩⟩) false, []⟩
    (nested ℕ).Along (InStep ∅) (m, some s.txnRenew, ⟨fun _ => none, [fun _ => none]⟩)
      [(.alloc true, some (.new 5 none true))] := by
  intro m s
  refine ⟨⟨by decide +kernel, rfl, _, _, _, _, rfl, rfl, by decide, rfl, ?_⟩, trivial⟩
  rintro _ ⟨⟩ _ ⟨⟩
  refine ⟨⟨by decide +kernel, by simp [Call.page], by simp [Call.reuse]⟩, fun out s' hcall => ?_⟩
  have hout : (s.txnRenew.call (.new 5 none true)).map Prod.fst = some (0, 2) := by decide +kernel
  rw [hcall] at hout
  obtain rfl := Option.some.inj hout
  decide

end Mvcc

end KotlinLmdb
