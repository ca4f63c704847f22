import KotlinLmdb.Env
import KotlinLmdb.Lmdb.Store

/-!
# Transactions given as blocks

`Env.beginTxn` with a block, over LMDB with its contents. The block is any code that
works with the transaction and then may end it, looking at what its calls come to
(`Block`).

A block is all or nothing: what is committed afterwards is what was before, with all
writes of the block that succeeded if it committed them, and with none of them in all
other cases. The block's exception is thrown (`Env.beginTxn_atomic`).
-/

namespace KotlinLmdb

open Eff

namespace Txn

variable {N : Type} (lib : Library N) (p : Platform)

/-- Kotlin's `use`: the transaction is closed in any case. If the block threw, that is
    what is thrown. -/
def use (block : Kt N Txn Unit) : Kt N Txn Unit := do
  let exception ← tryCatch (do block; return none) fun e => return some e
  match exception with
  | none => close lib p
  | some e =>
    tryCatch (close lib p) fun _ => return ()
    throw e

end Txn

/-! ## Blocks -/

/-- What a block does when it is through with the data: it ends the transaction as
    often as it likes, and returns or throws. -/
inductive Ending
  | done (outcome : Except Exn Unit)
  | life (op : Txn.Lifecycle) (hop : op.IsEnd) (rest : Except Exn Unit → Ending)

/-- A block: calls on the data first, going on by what they come to, exceptions
    included. -/
inductive Block
  | ending (e : Ending)
  | access (dbi : Dbi) (m : Txn.Access) (rest : Except Exn Value → Block)

/-- A method call of a block, and how it ended. -/
inductive Action
  | access (dbi : Dbi) (m : Txn.Access) (outcome : Except Exn Value)
  | life (op : Txn.Lifecycle) (outcome : Except Exn Unit)

variable {N : Type} (lib : Library N) (p : Platform)

/-- What comes of running a block: its outcome, the calls it made, and the state it
    left. -/
structure Ran (N : Type) where
  outcome : Except Exn Unit
  history : List Action
  state : Txn × Session Call Reply N

/-- Running the end of a block. -/
def Ending.run : Ending → Txn × Session Call Reply N → Ran N
  | done outcome, s => ⟨outcome, [], s⟩
  | life op _ rest, s =>
    let r := (op.perform lib p).exec s
    let r' := (rest r.1).run r.2
    { r' with history := .life op r.1 :: r'.history }

/-- Running a block. -/
def Block.run : Block → Txn × Session Call Reply N → Ran N
  | ending e, s => e.run lib p s
  | access dbi m rest, s =>
    let r := (m.perform lib dbi).exec s
    let r' := (rest r.1).run r.2
    { r' with history := .access dbi m r.1 :: r'.history }

/-- A block as code with the transaction as its receiver. -/
def Block.perform (b : Block) : Kt N Txn Unit := fun s =>
  ((b.run lib p s).outcome, (b.run lib p s).state)

/-- `Env.beginTxn` with a block. -/
def Env.beginTxnBlock (options : List TxnOption) (block : Kt N Txn Unit) : Kt N Env Unit := do
  let txn ← beginTxn lib options
  let s ← MonadState.get
  let r := (Txn.use lib p block).exec (txn, s.2)
  set (s.1, r.2.2)
  match r.1 with
  | .ok a => return a
  | .error e => throw e

/-! ## What a block comes to -/

/-- `commit` returned. -/
def commits : List Action → Bool
  | [] => false
  | .life .commit (.ok _) :: _ => true
  | _ :: history => commits history

variable {D : Type} (sem : Semantics D)

/-- Carrying out the writes that succeeded on contents. -/
def replay (txn : Ptr) : List Action → D → D
  | [], d => d
  | .access dbi m (.ok _) :: history, d =>
    let c := m.call txn dbi.ptr
    replay txn history (if c.Writes then sem.effect c d else d)
  | _ :: history, d => replay txn history d

variable {c d : D}

/-- The transaction is live. -/
structure IsLive (s : Txn × Session Call Reply (Store D)) (c d : D) : Prop where
  ready : s.1.state = .ready
  notClosed : ¬s.1.isClosed
  live : s.2.native.live = some (s.1.ptr, d)
  committed : s.2.native.committed = c

/-- The transaction is over. -/
structure IsOver (s : Txn × Session Call Reply (Store D)) (c : D) : Prop where
  notReady : s.1.state ≠ .ready
  live : s.2.native.live = none
  committed : s.2.native.committed = c

variable {s : Txn × Session Call Reply (Store D)}

/-- Ending a transaction that is over does nothing, and `commit` throws. -/
theorem IsOver.life (hs : IsOver s c) {op : Txn.Lifecycle} (hop : op.IsEnd) :
    IsOver ((op.perform (Store.library sem) p).exec s).2 c ∧
      (op = .commit → ∃ e, ((op.perform (Store.library sem) p).exec s).1 = .error e) := by
  obtain ⟨t, s⟩ := s
  have hnone : op.call p t = none := by
    cases hc : op.call p t with
    | none => rfl
    | some c => exact absurd (Txn.Lifecycle.ends_of_call hop hc).1 hs.notReady
  have hexec := op.exec_perform (Store.library sem) p t s
  rw [hnone] at hexec
  constructor
  · rw [hexec]
    exact ⟨fun h => hs.notReady (Txn.Lifecycle.ready_of_after hop h), hs.live, hs.committed⟩
  · rintro rfl
    have hcommit := Txn.exec_commit (Store.library sem) t s
    rw [if_neg hs.notReady, Txn.exec_checkReady, if_neg hs.notReady] at hcommit
    exact ⟨_, congrArg Prod.fst hcommit⟩

/-- Ending a live transaction publishes its contents if `commit` returns. -/
theorem IsLive.life (hs : IsLive s c d) {op : Txn.Lifecycle} (hop : op.IsEnd) :
    IsOver ((op.perform (Store.library sem) p).exec s).2
      (if commits [.life op ((op.perform (Store.library sem) p).exec s).1] then d else c) := by
  obtain ⟨t, s⟩ := s
  obtain ⟨hready, hopen, hlive, hcommitted⟩ := hs
  cases op
  case reset | renew => exact hop.elim
  case commit =>
    obtain ⟨hlive', hcommitted'⟩ := Store.txnCommit_of_live hlive
    have hexec := Txn.exec_commit (Store.library sem) t s
    rw [if_pos hready] at hexec
    rw [Txn.Lifecycle.perform, hexec]
    refine ⟨by simp, hlive', hcommitted'.trans ?_⟩
    rw [hcommitted]
    by_cases hrc : (s.native.txnCommit t.ptr).1.rc = 0
    · simp [commits, hrc, Store.answer]
    · simp [commits, hrc, Store.answer]
  case abort =>
    obtain ⟨hlive', hcommitted'⟩ := Store.txnAbort_of_live hlive
    have hexec := Txn.exec_abort (Store.library sem) p t s
    rw [if_pos hready] at hexec
    rw [Txn.Lifecycle.perform, hexec]
    exact ⟨by simp, hlive', hcommitted'.trans hcommitted⟩
  case close =>
    obtain ⟨hlive', hcommitted'⟩ := Store.txnAbort_of_live hlive
    have hexec := Txn.exec_close (Store.library sem) p t s
    rw [if_neg (fun h => hopen h.2), if_pos hready] at hexec
    rw [Txn.Lifecycle.perform, hexec]
    exact ⟨by simp, hlive', hcommitted'.trans hcommitted⟩

/-- A method that writes returns if LMDB grants its request. -/
theorem result_of_writes {N : Type} (lib : Library N) {m : Txn.Access} {txn dbi : Ptr}
    (hm : (m.call txn dbi).Writes) (r : Reply) :
    m.result lib r = if r.rc = 0 then .ok .unit else .error (getException lib r.rc) := by
  cases m
  case get | openCursor => cases hm
  all_goals rfl

/-- A live transaction stays live when a method is called on its contents, and sees
    what the method writes if it succeeds. -/
theorem IsLive.access (hs : IsLive s c d) (dbi : Dbi) (m : Txn.Access) :
    IsLive ((m.perform (Store.library sem) dbi).exec s).2 c
        (replay sem s.1.ptr [.access dbi m ((m.perform (Store.library sem) dbi).exec s).1] d) ∧
      ((m.perform (Store.library sem) dbi).exec s).2.1 = s.1 := by
  obtain ⟨t, s⟩ := s
  obtain ⟨hready, hopen, hlive, hcommitted⟩ := hs
  rw [m.exec_perform (Store.library sem) t s dbi]
  have hanswer : Store.answer sem (m.call t.ptr dbi.ptr) s.native =
      s.native.data sem t.ptr (m.call t.ptr dbi.ptr) := by
    cases m <;> rfl
  obtain ⟨hcommitted', hlive'⟩ :=
    Store.data_of_live sem hlive (m.call t.ptr dbi.ptr)
  rw [← hanswer] at hcommitted' hlive'
  refine ⟨⟨hready, hopen, hlive'.trans ?_, hcommitted'.trans hcommitted⟩, rfl⟩
  by_cases hm : (m.call t.ptr dbi.ptr).Writes
  · rw [result_of_writes _ hm]
    by_cases hrc : (Store.answer sem (m.call t.ptr dbi.ptr) s.native).1.rc = 0 <;>
      simp [replay, hm, hrc]
  · cases hr : m.result (Store.library sem) (Store.answer sem (m.call t.ptr dbi.ptr) s.native).1 <;>
      simp [replay, hm, hr]

theorem commits_cons (a : Action) (history : List Action) :
    commits (a :: history) = (commits [a] || commits history) := by
  cases a with
  | access dbi m outcome => rfl
  | life op outcome => cases op <;> cases outcome <;> rfl

theorem replay_cons (txn : Ptr) (a : Action) (history : List Action) (d : D) :
    replay sem txn (a :: history) d = replay sem txn history (replay sem txn [a] d) := by
  cases a with
  | access dbi m outcome => cases outcome <;> rfl
  | life op outcome => rfl

/-- The end of a block that is over leaves it so, and does not commit. -/
theorem IsOver.ending (hs : IsOver s c) (e : Ending) :
    IsOver (e.run (Store.library sem) p s).state c ∧
      commits (e.run (Store.library sem) p s).history = false := by
  induction e generalizing s with
  | done outcome => exact ⟨hs, rfl⟩
  | life op hop rest ih =>
    obtain ⟨hover, hcommit⟩ := hs.life p sem hop
    obtain ⟨hover', hcommits⟩ := ih _ hover
    refine ⟨hover', ?_⟩
    cases op
    case commit =>
      obtain ⟨e, he⟩ := hcommit rfl
      simpa [Ending.run, commits, he] using hcommits
    all_goals simpa [Ending.run, commits] using hcommits

/-- What is committed after a block: before the transaction is closed, it may still be
    live. -/
def Settled (s : Txn × Session Call Reply (Store D)) (c d : D) (committed : Bool) : Prop :=
  IsOver s (if committed then d else c) ∨ committed = false ∧ IsLive s c d

/-- There are no writes at the end of a block. -/
theorem replay_ending (e : Ending) (txn : Ptr) (d : D) :
    replay sem txn (e.run (Store.library sem) p s).history d = d := by
  induction e generalizing s with
  | done outcome => rfl
  | life op hop rest ih => exact ih _

/-- After the end of a block of a live transaction, that is committed which it saw, if
    `commit` returned. -/
theorem IsLive.ending (hs : IsLive s c d) (e : Ending) :
    Settled (e.run (Store.library sem) p s).state c d
      (commits (e.run (Store.library sem) p s).history) := by
  cases e with
  | done outcome => exact .inr ⟨rfl, hs⟩
  | life op hop rest =>
    obtain ⟨hover, hcommits⟩ := (hs.life p sem hop).ending p sem
      (rest ((op.perform (Store.library sem) p).exec s).1)
    refine .inl ?_
    rw [Ending.run, commits_cons, hcommits, Bool.or_false]
    exact hover

/-- So is after a block, where the transaction sees what the block wrote. -/
theorem IsLive.block (hs : IsLive s c d) (b : Block) :
    Settled (b.run (Store.library sem) p s).state c
      (replay sem s.1.ptr (b.run (Store.library sem) p s).history d)
      (commits (b.run (Store.library sem) p s).history) := by
  induction b generalizing s d with
  | ending e =>
    rw [Block.run, replay_ending]
    exact hs.ending p sem e
  | access dbi m rest ih =>
    obtain ⟨hlive, hself⟩ := hs.access sem dbi m
    have hrest := ih ((m.perform (Store.library sem) dbi).exec s).1 hlive
    rw [hself] at hrest
    rw [Block.run, replay_cons, commits_cons]
    exact hrest

/-- Closing the transaction after the block settles what is committed. -/
theorem Settled.close {committed : Bool} (hs : Settled s c d committed) :
    IsOver ((Txn.close (Store.library sem) p).exec s).2 (if committed then d else c) := by
  have hop : Txn.Lifecycle.close.IsEnd := trivial
  rcases hs with hs | ⟨rfl, hs⟩
  · exact (hs.life p sem hop).1
  · exact hs.life p sem hop

/-- `use` closes the transaction after the block, and throws what the block threw. -/
theorem exec_use (block : Kt (Store D) Txn Unit) :
    (Txn.use (Store.library sem) p block).exec s =
      ((block.exec s).1, ((Txn.close (Store.library sem) p).exec (block.exec s).2).2) := by
  -- `close` does not throw
  have hclose : ∀ s, ((Txn.close (Store.library sem) p).exec s).1 = .ok () := by
    intro s
    rw [Txn.exec_close]
    split <;> rfl
  simp only [Txn.use, exec_bind, exec_tryCatch, exec_pure]
  rcases hb : block.exec s with ⟨e | a, s'⟩
  · have h := hclose s'
    rcases hc : (Txn.close (Store.library sem) p).exec s' with ⟨e' | u, s''⟩ <;> rw [hc] at h
    · cases h
    · simp [hc]
  · simp only
    exact Prod.ext (hclose s') rfl

/-- A block is run with a transaction if that can be begun. -/
theorem Env.exec_beginTxnBlock (options : List TxnOption) (block : Kt (Store D) Txn Unit)
    (s : Env × Session Call Reply (Store D)) :
    (beginTxnBlock (Store.library sem) p options block).exec s =
      match (beginTxn (Store.library sem) options).exec s with
      | (.ok txn, s') =>
        let r := (Txn.use (Store.library sem) p block).exec (txn, s'.2)
        (r.1, (s'.1, r.2.2))
      | (.error e, s') => (.error e, s') := by
  simp only [beginTxnBlock, exec_bind, exec_get, exec_set]
  rcases (beginTxn (Store.library sem) options).exec s with ⟨e | txn, s'⟩
  · rfl
  · simp only
    rcases (Txn.use (Store.library sem) p block).exec (txn, s'.2) with ⟨e | a, s''⟩ <;> rfl

/-- A transaction sees what is committed when it begins. -/
theorem Env.beginTxn_spec (env : Env) (options : List TxnOption) (d : D) (results : ℕ → Reply) :
    match (beginTxn (Store.library sem) options).exec (env, ⟨{ committed := d, results }, []⟩) with
    | (.ok txn, s') => IsLive (txn, s'.2) d d
    | (.error _, s') => s'.2.native.committed = d := by
  rw [exec_beginTxn]
  by_cases hopened : env.isOpened
  · by_cases hrc : (results 0).rc = 0
    · simp [hopened, hrc, Txn.beginResult, Store.answer, Store.txnBegin, Store.result]
      refine ⟨rfl, by simp, ?_, ?_⟩ <;>
        simp [Store.answer, Store.txnBegin, Store.result, Store.request, hrc]
    · simp [hopened, hrc, Txn.beginResult, Store.answer, Store.txnBegin, Store.result,
        Store.request]
  · simp [hopened]

/-- What is to come of a block with a transaction: a `commit` that returned publishes
    the writes that succeeded, and without one nothing is committed; no transaction is
    left open, and the block's exception is thrown. -/
structure Atomic (sem : Semantics D) (txn : Ptr) (d : D) (ran : Ran (Store D))
    (outcome : Except Exn Unit) (s : Store D) : Prop where
  committed : s.committed = if commits ran.history then replay sem txn ran.history d else d
  closed : s.live = none
  outcome : outcome = ran.outcome

/-- A block is all or nothing: whatever it does, whichever of its calls fail, and
    however it ends. -/
theorem Env.beginTxn_atomic (sem : Semantics D) (p : Platform) (env : Env)
    (options : List TxnOption) (b : Block) (d : D) (results : ℕ → Reply) :
    let s : Env × Session Call Reply (Store D) := (env, ⟨{ committed := d, results }, []⟩)
    let r := (beginTxnBlock (Store.library sem) p options (b.perform (Store.library sem) p)).exec s
    match (beginTxn (Store.library sem) options).exec s with
    | (.ok txn, s') =>
      Atomic sem txn.ptr d (b.run (Store.library sem) p (txn, s'.2)) r.1 r.2.2.native
    | (.error e, _) => r.1 = .error e ∧ r.2.2.native.committed = d := by
  intro s r
  have hr : r = _ := exec_beginTxnBlock p sem options _ s
  have hbegin := beginTxn_spec sem env options d results
  rcases hb : (beginTxn (Store.library sem) options).exec s with ⟨e | txn, s'⟩
  all_goals
    rw [hb] at hr hbegin
    simp only at hr hbegin ⊢
  · rw [hr]
    exact ⟨rfl, hbegin⟩
  · have hblock := (hbegin.block p sem b).close p sem
    have huse : r.1 = (b.run (Store.library sem) p (txn, s'.2)).outcome ∧
        r.2.2 = ((Txn.close (Store.library sem) p).exec
          (b.run (Store.library sem) p (txn, s'.2)).state).2.2 := by
      rw [hr, exec_use]
      exact ⟨rfl, rfl⟩
    rw [huse.1, huse.2]
    exact ⟨hblock.committed, hblock.live, rfl⟩

end KotlinLmdb
