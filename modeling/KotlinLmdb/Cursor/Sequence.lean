import KotlinLmdb.Cursor

/-!
# The sequence of a cursor

`asSequence` makes a lazy sequence of a cursor's entries: a coroutine, run up to
its next `yield` each time an element is asked for (`Cursor.Iteration.resume`).
Here it is consumed (`Cursor.consume`) over LMDB as far as one cursor goes: the
entries in order, a position, and errors that may come up at any request
(`Scan`).

The sequence is to deliver the entries after the position, and to throw only if
there was an error (`Cursor.Delivers`). It delivers the entries; but `check`
takes `MDB_NOTFOUND` for an error, so that the end of the entries is thrown, too. So
it does as it should exactly if some request comes to a real error, before or at
the end (`Cursor.delivers_iff`).
-/

namespace KotlinLmdb

open Eff

/-! ## A cursor in LMDB -/

/-- The entries a cursor goes through, in order, and where it is. -/
structure Scan where
  entries : List (Val × Val)
  /-- The entry it is on, if it was positioned. -/
  position : Option ℕ := none
  /-- What requests come to unless they are carried out, one after the other. -/
  results : ℕ → Int
  /-- The requests made so far. -/
  served : ℕ := 0

namespace Scan

variable (s : Scan)

/-- The entry `MDB_NEXT` goes to: without a position, the first. -/
def following : ℕ := s.position.elim 0 (· + 1)

/-- The entries after the position. -/
def remaining : List (Val × Val) := s.entries.drop s.following

/-- The result code is an error, and does not stand for the end. -/
def IsError (rc : Int) : Prop := rc ≠ 0 ∧ rc ≠ mdbNotfound

instance (rc : Int) : Decidable (IsError rc) := inferInstanceAs (Decidable (_ ∧ _))

/-- `mdb_cursor_get` with `MDB_NEXT`. -/
def next : Reply × Scan :=
  let s' := { s with served := s.served + 1 }
  if IsError (s.results s.served) then ({ rc := s.results s.served }, s')
  else match s.entries[s.following]? with
    | some (key, data) => ({ key, data }, { s' with position := some s.following })
    | none => ({ rc := mdbNotfound }, s')

/-- LMDB with a cursor, and whatever other calls come to. -/
def library (others : Library Scan) : Library Scan where
  answer call s :=
    match call with
    | .mdbCursorGet _ _ _ op =>
      if op = MdbCursorOp.mdbNext.value then s.next else others.answer call s
    | _ => others.answer call s
  mdbStrerror := others.mdbStrerror

/-- The next request comes to an error. -/
def Fails : Prop := IsError (s.results s.served)

variable {s}

theorem next_of_fails (h : s.Fails) :
    s.next = ({ rc := s.results s.served }, { s with served := s.served + 1 }) := if_pos h

theorem next_of_nil (h : ¬s.Fails) (hs : s.remaining = []) :
    s.next = ({ rc := mdbNotfound }, { s with served := s.served + 1 }) := by
  have hnone : s.entries[s.following]? = none :=
    List.getElem?_eq_none (List.drop_eq_nil_iff.1 hs)
  rw [Scan.Fails] at h
  simp only [next, if_neg h, hnone]

/-- The request goes on to the first of the remaining entries. -/
theorem next_of_cons (h : ¬s.Fails) {key data : Val} {rest : List (Val × Val)}
    (hs : s.remaining = (key, data) :: rest) :
    ∃ s', s.next = ({ key, data }, s') ∧ s'.remaining = rest ∧ s'.results = s.results ∧
      s'.served = s.served + 1 := by
  have hsome : s.entries[s.following]? = some (key, data) := by
    have := congrArg List.head? hs
    rwa [remaining, List.head?_drop] at this
  rw [Scan.Fails] at h
  refine ⟨{ s with served := s.served + 1, position := some s.following }, ?_, ?_, rfl, rfl⟩
  · simp only [next, if_neg h, hsome]
  · have := congrArg List.tail hs
    rwa [remaining, List.tail_drop] at this

end Scan

namespace Cursor

variable {N : Type} (lib : Library N) (p : Platform)

/-! ## The sequence -/

def next : Kt N Cursor (Int × Val × Val) := get lib p .next

/-- The coroutine of `asSequence`, suspended: its cursor and its variable. -/
structure Iteration where
  cursor : Cursor
  hasNext : Bool := true

/-- A method called on the cursor of a suspended coroutine. -/
def Iteration.onCursor {α : Type} (x : Kt N Cursor α) : Kt N Iteration α := do
  let s ← MonadState.get
  let r := x.exec (s.1.cursor, s.2)
  set ({ s.1 with cursor := r.2.1 }, r.2.2)
  match r.1 with
  | .ok a => return a
  | .error e => throw e

/-- Resuming the coroutine: the loop of `asSequence` up to its next `yield`, or
    `none` at its end. -/
def Iteration.resume : Kt N Iteration (Option (Int × Val × Val)) := do
  if (← self).hasNext then
    let result ← Iteration.onCursor (next lib p)
    if result.1 = 0 then
      return some result
    assign fun i => { i with hasNext := false }
    let _ ← check lib result.1
  return none

/-- `asSequence`, not yet started. -/
def asSequence (c : Cursor) : Iteration := { cursor := c }

/-- What a consumer has seen of a sequence, and the calls made for it. Without an
    outcome it has not come to an end. -/
structure Consumption where
  yielded : List (Int × Val × Val)
  outcome : Option (Except Exn Unit)
  calls : List (Call × Reply)

/-- Asking for elements until there are no more, a number of times at most. -/
def consume : ℕ → Iteration × Session Call Reply N → Consumption
  | 0, s => ⟨[], none, s.2.log⟩
  | n + 1, s => match (Iteration.resume lib p).exec s with
    | (.ok (some r), s') =>
      let rest := consume n s'
      { rest with yielded := r :: rest.yielded }
    | (.ok none, s') => ⟨[], some (.ok ()), s'.2.log⟩
    | (.error e, s') => ⟨[], some (.error e), s'.2.log⟩

/-- The sequence delivers the entries in order. If it ends, it has delivered all of
    them; if it throws, there was an error. It does one or the other. -/
def Delivers (entries : List (Val × Val)) (r : Consumption) : Prop :=
  r.yielded <+: entries.map (0, ·) ∧ match r.outcome with
    | none => False
    | some (.ok ()) => r.yielded = entries.map (0, ·)
    | some (.error e) => e.IsLmdb ∧ ∃ c ∈ r.calls, Scan.IsError c.2.rc

variable {others : Library Scan} {p} {c : Cursor} {s : Scan} {log : List (Call × Reply)}

/-- The call `next` makes. -/
def nextCall (c : Cursor) : Call := .mdbCursorGet c.ptr .output .output 8

/-- Resuming the coroutine is a request for the next entry. The end of the entries is
    thrown as well. -/
theorem exec_resume :
    (Iteration.resume (Scan.library others) p).exec (asSequence c, ⟨s, log⟩) =
      (if s.next.1.rc = 0 then .ok (some (0, s.next.1.key, s.next.1.data))
        else .error (getException others s.next.1.rc),
        ({ cursor := c, hasNext := s.next.1.rc ≠ mdbNotfound },
          ⟨s.next.2, log ++ [(nextCall c, s.next.1)]⟩)) := by
  have hnext : (next (Scan.library others) p).exec (c, ⟨s, log⟩) =
      (if s.next.1.rc = 0 ∨ s.next.1.rc = mdbNotfound then
        .ok (s.next.1.rc, s.next.1.key, s.next.1.data)
        else .error (getException others s.next.1.rc),
        (c, ⟨s.next.2, log ++ [(nextCall c, s.next.1)]⟩)) := by
    simp only [next, Cursor.get, exec_bind, exec_self, exec_call, exec_buildReadResult, cursorOp_eq]
    rfl
  simp only [Iteration.resume, Iteration.onCursor, exec_bind, exec_self, asSequence, if_true,
    exec_get, exec_set, hnext]
  by_cases h0 : s.next.1.rc = 0
  · simp [h0, mdbNotfound]
  · by_cases hn : s.next.1.rc = mdbNotfound
    · -- the end of the entries does not pass the check
      simp [hn]
      rfl
    · simp [h0, hn]

/-- Consuming the sequence, one element at a time. -/
theorem consume_succ (n : ℕ) :
    consume (Scan.library others) p (n + 1) (asSequence c, ⟨s, log⟩) =
      let log' := log ++ [(nextCall c, s.next.1)]
      if s.next.1.rc = 0 then
        let rest := consume (Scan.library others) p n (asSequence c, ⟨s.next.2, log'⟩)
        { rest with yielded := (0, s.next.1.key, s.next.1.data) :: rest.yielded }
      else ⟨[], some (.error (getException others s.next.1.rc)), log'⟩ := by
  rw [consume, exec_resume]
  by_cases h0 : s.next.1.rc = 0
  · simp [h0, mdbNotfound, asSequence]
  · simp [h0]

/-- An error is to come up before the end of the entries, or there. -/
def HasError (s : Scan) : Prop :=
  ∃ n ≤ s.remaining.length, Scan.IsError (s.results (s.served + n))

theorem hasError_of_fails (h : s.Fails) : HasError s := ⟨0, Nat.zero_le _, h⟩

theorem not_hasError_of_nil (h : ¬s.Fails) (hs : s.remaining = []) : ¬HasError s := by
  rintro ⟨n, hn, he⟩
  rw [hs, List.length_nil, Nat.le_zero] at hn
  subst hn
  exact h he

/-- If it is not the next request that fails, it is a later one. -/
theorem hasError_next (h : ¬s.Fails) {s' : Scan}
    (hlength : s.remaining.length = s'.remaining.length + 1)
    (hresults : s'.results = s.results) (hserved : s'.served = s.served + 1) :
    HasError s ↔ HasError s' := by
  constructor
  · rintro ⟨n, hn, he⟩
    cases n with
    | zero => exact absurd he h
    | succ n =>
      refine ⟨n, by omega, ?_⟩
      rw [hresults, hserved, Nat.add_assoc, Nat.add_comm 1]
      exact he
  · rintro ⟨n, hn, he⟩
    refine ⟨n + 1, by omega, ?_⟩
    rw [hresults, hserved, Nat.add_assoc, Nat.add_comm 1] at he
    exact he

/-- A request that is not granted ends the consumption. -/
theorem consume_stop (n : ℕ) (h : s.next.1.rc ≠ 0) :
    consume (Scan.library others) p (n + 1) (asSequence c, ⟨s, log⟩) =
      ⟨[], some (.error (getException others s.next.1.rc)), log ++ [(nextCall c, s.next.1)]⟩ := by
  rw [consume_succ]
  exact if_neg h

/-- What comes of consuming the sequence: it delivers entries in order, all of them
    unless there is an error, and throws. -/
structure Consumed (s : Scan) (r : Consumption) : Prop where
  ordered : r.yielded <+: s.remaining.map (0, ·)
  throws : ∃ message, r.outcome = some (.error (.lmdbException message))
  error : (∃ c ∈ r.calls, Scan.IsError c.2.rc) ↔ HasError s

theorem consumed_of_fails (hf : s.Fails) (n : ℕ) :
    Consumed s (consume (Scan.library others) p (n + 1) (asSequence c, ⟨s, log⟩)) := by
  have hnext := Scan.next_of_fails hf
  have hrc : s.next.1.rc ≠ 0 := by
    rw [hnext]
    exact hf.1
  rw [consume_stop n hrc, hnext]
  refine ⟨List.nil_prefix, ⟨_, rfl⟩, iff_of_true ?_ (hasError_of_fails hf)⟩
  exact ⟨_, List.mem_append_right _ (List.mem_singleton_self _), hf⟩

theorem consumed (extra : ℕ) (hlog : ∀ c ∈ log, ¬Scan.IsError c.2.rc) :
    Consumed s (consume (Scan.library others) p (s.remaining.length + 1 + extra)
      (asSequence c, ⟨s, log⟩)) := by
  -- On the entries that are left: every element takes one call and one unit of fuel, and leaves
  -- no error behind, so what the rest delivers is what is delivered.
  induction hs : s.remaining generalizing s log with
  | nil =>
    have hfuel : ([] : List (Val × Val)).length + 1 + extra = extra + 1 := by
      rw [List.length_nil, Nat.zero_add, Nat.add_comm]
    rw [hfuel]
    by_cases hf : s.Fails
    · exact consumed_of_fails hf extra
    · have hnext := Scan.next_of_nil hf hs
      have hrc : s.next.1.rc ≠ 0 := by
        rw [hnext]
        exact (by decide : mdbNotfound ≠ 0)
      rw [consume_stop extra hrc, hnext]
      refine ⟨List.nil_prefix, ⟨_, rfl⟩, iff_of_false ?_ (not_hasError_of_nil hf hs)⟩
      rintro ⟨d, hd, he⟩
      rcases List.mem_append.1 hd with hd | hd
      · exact hlog d hd he
      · rw [List.mem_singleton.1 hd] at he
        exact he.2 rfl
  | cons entry rest ih =>
    have hfuel : (entry :: rest).length + 1 + extra = rest.length + 1 + extra + 1 := by
      rw [List.length_cons]
      omega
    rw [hfuel]
    by_cases hf : s.Fails
    · exact consumed_of_fails hf _
    · obtain ⟨key, data⟩ := entry
      obtain ⟨s', hnext, hrest, hresults, hserved⟩ := Scan.next_of_cons hf hs
      rw [consume_succ, hnext, if_pos rfl]
      have hlog' : ∀ d ∈ log ++ [(nextCall c, ({ key, data } : Reply))], ¬Scan.IsError d.2.rc := by
        intro d hd he
        rcases List.mem_append.1 hd with hd | hd
        · exact hlog d hd he
        · rw [List.mem_singleton.1 hd] at he
          exact he.1 rfl
      obtain ⟨hordered, hthrows, herror⟩ := ih hlog' hrest
      refine ⟨?_, hthrows, herror.trans (hasError_next hf ?_ hresults hserved).symm⟩
      · rw [hs, List.map_cons]
        rw [hrest] at hordered
        exact List.cons_prefix_cons.2 ⟨rfl, hordered⟩
      · rw [hs, hrest, List.length_cons]

/-- Whatever the entries and the position, the sequence delivers if and only if an
    error comes up before the end of the entries, or there. Asking for one element
    more than there are entries left brings the consumption to an end. -/
theorem delivers_iff (others : Library Scan) (p : Platform) (c : Cursor) (s : Scan) (extra : ℕ) :
    Delivers s.remaining (consume (Scan.library others) p (s.remaining.length + 1 + extra)
      (asSequence c, ⟨s, []⟩)) ↔
      ∃ n ≤ s.remaining.length, Scan.IsError (s.results (s.served + n)) := by
  have h : Consumed s (consume (Scan.library others) p (s.remaining.length + 1 + extra)
    (asSequence c, ⟨s, []⟩)) := consumed extra fun _ h => nomatch h
  obtain ⟨hordered, ⟨message, hthrows⟩, herror⟩ := h
  rw [Delivers, hthrows]
  constructor
  · intro h
    exact herror.1 h.2.2
  · intro h
    exact ⟨hordered, trivial, herror.2 h⟩

/-- Without any error, the sequence of an empty database throws, and so does that of
    one entry after it has delivered that. On both platforms. -/
theorem not_delivers_one_entry :
    let others : Library Scan := { answer := fun _ s => ({}, s), mdbStrerror := fun _ => "Error" }
    let key : Bytes := ⟨[1], by decide⟩
    let data : Bytes := ⟨[2], by decide⟩
    let entry : Val × Val := (key.toVal, data.toVal)
    (∀ p, ¬Delivers [] (consume (Scan.library others) p 1
      (asSequence { ptr := 1 }, ⟨{ entries := [], results := fun _ => 0 }, []⟩))) ∧
      ∀ p, ¬Delivers [entry] (consume (Scan.library others) p 2
        (asSequence { ptr := 1 }, ⟨{ entries := [entry], results := fun _ => 0 }, []⟩)) := by
  refine ⟨fun p h => ?_, fun p h => ?_⟩
  · cases p <;> exact absurd h.2.2 (by decide)
  · cases p <;> exact absurd h.2.2 (by decide)

end Cursor

end KotlinLmdb
