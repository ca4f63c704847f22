import KotlinLmdb.Lmdb.Slots

/-!
# Beginning and ending transactions

What the calls on the life of a transaction do to an environment, with one constructor
for each way they go (`Dbis.Living`). A transaction that begins gets a view, and one that
ends loses it: none but the slots it assigned are touched, and those are exported or
closed.
-/

namespace KotlinLmdb

namespace Handles

/-- Handles as before, but for which transactions are live. -/
structure Becomes (s s' : Handles) (writers readers : List Ptr) : Prop where
  closed : s'.closed = s.closed
  fresh : s.fresh ≤ s'.fresh
  writers : s'.writers = writers
  readers : s'.readers = readers

/-- The transactions that end with one of them. -/
def ends (s : Handles) (h : Ptr) : List Ptr := if h ∈ s.writers then s.ending h else [h]

variable {s : Handles}

theorem not_mem_readers_of_parked {h : Ptr} (hh : s.status h = .parked) : h ∉ s.readers := by
  intro hr
  rw [status] at hh
  split_ifs at hh

/-- The ways beginning a transaction goes, in an open environment. -/
inductive Beginning (s : Handles) : Option Ptr → UInt32 → Reply × Handles → Prop
  | refused {parent : Option Ptr} {flags : UInt32} {r : Reply} {s' : Handles}
      (hrc : r.rc ≠ 0) (hs' : s.SameTxns s') : Beginning s parent flags (r, s')
  | freed {h : Ptr} {flags : UInt32} {r : Reply} {s' : Handles}
      (hh : s.status h = .dangling) (hs' : s.SameTxns s') : Beginning s (some h) flags (r, s')
  | reader {flags : UInt32} {r : Reply} {s' : Handles} (hf : flags &&& mdbRdonly ≠ 0)
      (hrc : r.rc = 0) (hptr : r.ptr = s.fresh) (hfresh : s'.fresh = s.fresh + 1)
      (hs' : s.Becomes s' s.writers (s.readers ++ [s.fresh])) : Beginning s none flags (r, s')
  | writer {flags : UInt32} {r : Reply} {s' : Handles} (hf : ¬flags &&& mdbRdonly ≠ 0)
      (hrc : r.rc = 0) (hptr : r.ptr = meTxn0) (hnil : s.writers = [])
      (hs' : s.Becomes s' [meTxn0] s.readers) : Beginning s none flags (r, s')
  | child {h : Ptr} {flags : UInt32} {r : Reply} {s' : Handles} (hh : s.status h = .active)
      (hrc : r.rc = 0) (hptr : r.ptr = s.fresh) (hfresh : s'.fresh = s.fresh + 1)
      (hs' : s.Becomes s' (s.writers ++ [s.fresh]) s.readers) : Beginning s (some h) flags (r, s')

theorem beginning_allocate {parent : Option Ptr} {flags : UInt32} {ptr : Ptr}
    {register : Handles → Handles}
    (h : s.result.rc = 0 →
      Beginning s parent flags ({ s.result with ptr }, register s.request.2)) :
    Beginning s parent flags (s.allocate ptr register) := by
  rcases s.allocate_cases ptr register with ⟨hrc, hr⟩ | ⟨hrc, hr⟩ <;> rw [hr]
  · exact h hrc
  · exact .refused hrc s.sameTxns_request

theorem txnBegin_beginning (hc : s.closed = false) (parent : Option Ptr) (flags : UInt32) :
    Beginning s parent flags (s.txnBegin parent flags) := by
  cases parent with
  | none =>
    simp only [txnBegin, hc, Bool.false_eq_true, if_false]
    split
    · rename_i hf
      exact beginning_allocate fun hrc => .reader hf hrc rfl rfl ⟨rfl, Nat.le_succ _, rfl, rfl⟩
    rename_i hf
    rw [beginWriter]
    split
    · rename_i hnil
      exact beginning_allocate fun hrc => .writer hf hrc rfl hnil ⟨rfl, Nat.le_refl _, rfl, rfl⟩
    · exact .refused (show edeadlk ≠ 0 by decide) (.refl s)
  | some h =>
    simp only [txnBegin]
    cases hh : s.status h
    case active =>
      dsimp only
      split
      · exact .refused (show mdbBadTxn ≠ 0 by decide) (.refl s)
      · exact beginning_allocate fun hrc => .child hh hrc rfl rfl ⟨rfl, Nat.le_succ _, rfl, rfl⟩
    case blocked | idle => exact .refused (show mdbBadTxn ≠ 0 by decide) (.refl s)
    case reader | parked => exact .refused (show einval ≠ 0 by decide) (.refl s)
    case dangling => exact .freed hh s.sameTxns_request

end Handles

/-- A call that ends a transaction, and does not commit it. -/
def Call.Abandons (h : Ptr) (r : Reply) (c : Call) : Prop :=
  c = .mdbTxnCommit h ∧ r.rc ≠ 0 ∨ c = .mdbTxnAbort h ∨ c = .mdbTxnReset h

namespace Dbis

variable {s : Dbis} {h : Ptr} {call : Call}

/-- The ways the calls on the life of transactions go, in an open environment. -/
inductive Living (s : Dbis) : Call → Reply × Dbis → Prop
  /-- Nothing is done, or something to freed memory. -/
  | same {call : Call} {r : Reply × Dbis} (hhd : s.handles.SameTxns r.2.handles)
      (hbegin : ∀ e parent flags, call = .mdbTxnBegin e parent flags → r.1.rc = 0 →
        ∃ h ∈ parent, s.handles.status h = .dangling)
      (hcommit : ∀ h, call = .mdbTxnCommit h → h ∉ s.handles.writers ∧ h ∉ s.handles.readers)
      (hr : r.2 = { s with handles := r.2.handles }) : Living s call r
  | reader {e : Ptr} {flags : UInt32} {r : Reply × Dbis}
      (hhd : s.handles.Becomes r.2.handles s.handles.writers
        (s.handles.readers ++ [s.handles.fresh]))
      (hfresh : r.2.handles.fresh = s.handles.fresh + 1) (hptr : r.1.ptr = s.handles.fresh)
      (hr : r.2 = { s.setView s.handles.fresh s.topView with handles := r.2.handles }) :
      Living s (.mdbTxnBegin e none flags) r
  | writer {e : Ptr} {flags : UInt32} {r : Reply × Dbis}
      (hnil : s.handles.writers = [])
      (hhd : s.handles.Becomes r.2.handles [meTxn0] s.handles.readers)
      (hptr : r.1.ptr = meTxn0)
      (hr : r.2 = { s.setView meTxn0 s.topView with handles := r.2.handles, seqs := r.2.seqs }) :
      Living s (.mdbTxnBegin e none flags) r
  | child {e h : Ptr} {flags : UInt32} {r : Reply × Dbis}
      (hlast : s.handles.writers.getLast? = some h)
      (hhd : s.handles.Becomes r.2.handles (s.handles.writers ++ [s.handles.fresh])
        s.handles.readers)
      (hfresh : r.2.handles.fresh = s.handles.fresh + 1) (hptr : r.1.ptr = s.handles.fresh)
      (hr : r.2 = { s.setView s.handles.fresh (s.views h).child with handles := r.2.handles }) :
      Living s (.mdbTxnBegin e (some h) flags) r
  /-- A write transaction is committed. -/
  | committed {h : Ptr} {r : Reply × Dbis} (hh : h ∈ s.handles.writers)
      (hhd : s.handles.Becomes r.2.handles (s.handles.writers.takeWhile (· ≠ h)) s.handles.readers)
      (hr : r.2 = { s with handles := r.2.handles }.publish (s.handles.ending h)
        (s.handles.writers.takeWhile (· ≠ h)).getLast?) :
      Living s (.mdbTxnCommit h) r
  /-- A read-only transaction is. -/
  | exported {h : Ptr} {r : Reply × Dbis} (hh : h ∉ s.handles.writers)
      (hhd : s.handles.Becomes r.2.handles s.handles.writers (s.handles.readers.filter (· ≠ h)))
      (hr : r.2 = ({ s with handles := r.2.handles }.exportSlots (s.views h)).forget [h]) :
      Living s (.mdbTxnCommit h) r
  /-- A transaction is aborted, or reset, or cannot be committed. -/
  | ended {h : Ptr} {call : Call} {r : Reply × Dbis}
      (hcall : call.Abandons h r.1)
      (hhd : s.handles.Becomes r.2.handles (s.handles.writers.takeWhile (· ≠ h))
        (s.handles.readers.filter (· ≠ h)))
      (hr : r.2 = { s with handles := r.2.handles }.discard (s.handles.ends h)) : Living s call r
  | renewed {h : Ptr} {r : Reply × Dbis} (hh : h ∉ s.handles.writers)
      (hh' : h ∉ s.handles.readers)
      (hhd : s.handles.Becomes r.2.handles s.handles.writers (s.handles.readers ++ [h]))
      (hr : r.2 = { s.setView h s.topView with handles := r.2.handles }) :
      Living s (.mdbTxnRenew h) r

@[simp]
theorem handles_publish {hs : List Ptr} {parent : Option Ptr} :
    (s.publish hs parent).handles = s.handles := by
  cases parent <;> rfl

theorem Living.of_same {r : Reply × Dbis} {hd : Handles} (hhd : s.handles.SameTxns hd)
    (hbegin : ∀ e parent flags, call = .mdbTxnBegin e parent flags → r.1.rc = 0 →
      ∃ h ∈ parent, s.handles.status h = .dangling)
    (hcommit : ∀ h, call = .mdbTxnCommit h → h ∉ s.handles.writers ∧ h ∉ s.handles.readers)
    (hr : r.2 = { s with handles := hd }) : Living s call r :=
  .same (hr ▸ hhd) hbegin hcommit (by rw [hr])

section Living

variable (hs : s.Sound) (hc : s.handles.closed = false)

include hc

theorem txnBegin_living (e : Ptr) (parent : Option Ptr) (flags : UInt32) :
    Living s (.mdbTxnBegin e parent flags) (s.txnBegin parent flags) := by
  have hbegin := Handles.txnBegin_beginning hc parent flags
  simp only [txnBegin]
  generalize s.handles.txnBegin parent flags = r at hbegin
  cases hbegin with
  | refused hrc hsame =>
    rw [if_pos hrc]
    exact .of_same hsame (fun _ _ _ _ hrc' => absurd hrc' hrc) (by simp) rfl
  | @freed h _ r _ hh hsame =>
    have hne : s.handles.status h ≠ .active := by simp [hh]
    refine .of_same hsame (fun _ _ _ heq _ => ?_) (by simp) ?_
    · cases heq
      exact ⟨h, rfl, hh⟩
    · simp only [if_neg hne, ite_self]
      rfl
  | reader hf hrc hptr hfresh hhd =>
    simp only [hrc, hc, if_pos hf, ne_eq, not_true_eq_false, if_false, Bool.false_eq_true]
    exact .reader hhd hfresh hptr (hptr ▸ rfl)
  | writer hf hrc hptr hnil hhd =>
    simp only [hrc, hc, if_neg hf, ne_eq, not_true_eq_false, if_false, Bool.false_eq_true]
    rw [hptr]
    exact .writer hnil hhd hptr rfl
  | child hh hrc hptr hfresh hhd =>
    simp only [hrc, if_pos hh, ne_eq, not_true_eq_false, if_false]
    exact .child (Handles.getLast?_of_status hh) hhd hfresh hptr (hptr ▸ rfl)

include hs

theorem txnCommit_living : Living s (.mdbTxnCommit h) (s.txnCommit h) := by
  have hend : Handles.EndedAt h s.handles (s.handles.txnCommit h).2 :=
    hs.handles.endedAt_answer hc (.inl rfl)
  have hspec := s.handles.status_spec h
  rw [txnCommit]
  cases hstatus : s.handles.status h <;> rw [hstatus] at hspec
  case idle =>
    refine .of_same (.refl _) (by simp) (fun h' heq => ?_) ?_
    · cases heq
      exact hspec hc
    · simp only [handled, Handles.txnCommit, hstatus]
      rfl
  case dangling =>
    refine .of_same s.handles.sameTxns_request (by simp) (fun h' heq => ?_) ?_
    · cases heq
      exact hspec hc
    · simp only [handled, Handles.txnCommit, hstatus]
  case reader | parked =>
    refine .exported hspec.1 ⟨hend.closed, hend.fresh.ge, ?_, hend.readers⟩ rfl
    exact hend.writers.trans (Handles.takeWhile_ne_self hspec.1).symm
  case active | blocked =>
    have hreaders := Handles.filter_ne_self fun hr => (hs.handles.of_mem_readers hr).2 hspec
    dsimp only
    split
    · refine .committed hspec ?_ ?_
      · rw [handles_publish]
        exact ⟨hend.closed, hend.fresh.ge, hend.writers, hend.readers.trans hreaders.symm⟩
      · rw [handles_publish]
        rfl
    · rename_i hrc
      refine .ended (.inl ⟨rfl, hrc⟩)
        ⟨hend.closed, hend.fresh.ge, hend.writers, hend.readers⟩ ?_
      rw [Handles.ends, if_pos hspec]
      rfl

theorem txnAbort_living : Living s (.mdbTxnAbort h) (s.txnAbort h) := by
  have hend : Handles.EndedAt h s.handles (s.handles.txnAbort h).2 :=
    hs.handles.endedAt_answer hc (.inr rfl)
  have hspec := s.handles.status_spec h
  rw [txnAbort]
  cases hstatus : s.handles.status h <;> rw [hstatus] at hspec
  case idle | dangling =>
    refine .of_same (.refl _) (by simp) (by simp) ?_
    simp only [handled, Handles.txnAbort, Handles.endTxn, Handles.done, hstatus]
  case reader | parked =>
    refine .ended (.inr (.inl rfl)) ⟨hend.closed, hend.fresh.ge, hend.writers, hend.readers⟩ ?_
    rw [Handles.ends, if_neg hspec.1]
    rfl
  case active | blocked =>
    refine .ended (.inr (.inl rfl)) ⟨hend.closed, hend.fresh.ge, hend.writers, hend.readers⟩ ?_
    rw [Handles.ends, if_pos hspec]
    rfl

omit hs hc in
theorem txnReset_living : Living s (.mdbTxnReset h) (s.txnReset h) := by
  have hspec := s.handles.status_spec h
  rw [txnReset]
  cases hstatus : s.handles.status h <;> rw [hstatus] at hspec
  case reader =>
    have hreset : s.handles.txnReset h = Handles.done { s.handles with
        readers := s.handles.readers.filter (· ≠ h), parked := s.handles.parked ++ [h] } := by
      simp only [Handles.txnReset, hstatus]
    rw [hreset]
    refine .ended (.inr (.inr rfl))
      ⟨rfl, Nat.le_refl _, Handles.takeWhile_ne_self hspec.1, rfl⟩ ?_
    rw [Handles.ends, if_neg hspec.1]
    rfl
  all_goals
    refine .of_same (.refl _) (by simp) (by simp) ?_
    simp only [handled, Handles.txnReset, Handles.done, hstatus]

omit hs hc in
theorem txnRenew_living : Living s (.mdbTxnRenew h) (s.txnRenew h) := by
  have hspec := s.handles.status_spec h
  rw [txnRenew]
  cases hstatus : s.handles.status h <;> rw [hstatus] at hspec
  case parked =>
    by_cases hrc : s.handles.result.rc = 0
    · have hrenew : s.handles.txnRenew h = (s.handles.result, { s.handles.request.2 with
          readers := s.handles.readers ++ [h], parked := s.handles.parked.filter (· ≠ h) }) := by
        simp only [Handles.txnRenew, hstatus, if_pos hrc]
      dsimp only
      rw [hrenew, if_pos hrc]
      exact .renewed hspec.1 (Handles.not_mem_readers_of_parked hstatus)
        ⟨rfl, Nat.le_refl _, rfl, rfl⟩ rfl
    · refine .of_same s.handles.sameTxns_request (by simp) (by simp) ?_
      simp only [handled, Handles.txnRenew, hstatus, if_neg hrc, Handles.request]
  case dangling =>
    refine .of_same s.handles.sameTxns_request (by simp) (by simp) ?_
    simp only [handled, Handles.txnRenew, hstatus]
  all_goals
    refine .of_same (.refl _) (by simp) (by simp) ?_
    simp only [handled, Handles.txnRenew, hstatus, Handles.refuse]

/-- All calls on the life of transactions go one of these ways. -/
theorem Sound.living (hcall : call.IsLife) (hclose : ∀ e, call ≠ .mdbEnvClose e) :
    Living s call (Dbis.answer call s) := by
  cases call
  case mdbTxnBegin e parent flags => exact txnBegin_living hc e parent flags
  case mdbTxnCommit => exact txnCommit_living hs hc
  case mdbTxnAbort => exact txnAbort_living hs hc
  case mdbTxnReset => exact txnReset_living
  case mdbTxnRenew => exact txnRenew_living
  case mdbEnvClose e => exact absurd rfl (hclose e)
  all_goals exact hcall.elim

end Living

/-! ## The views there are afterwards -/

theorem views_forget {hs : List Ptr} (hh : h ∉ hs) : (s.forget hs).views h = s.views h := if_neg hh

theorem views_forget_of_mem {hs : List Ptr} (hh : h ∈ hs) : (s.forget hs).views h = {} := if_pos hh

/-- A transaction committed with its children leaves the view of the innermost one, but for
    the slots assigned. -/
theorem exists_merged {hs : List Ptr} (hlast : hs.getLast? = some h) :
    ∃ isNew, s.merged hs = { s.views h with isNew } := by
  induction hs with
  | nil => cases hlast
  | cons h' hs ih =>
    cases hs with
    | nil =>
      cases hlast
      exact ⟨_, rfl⟩
    | cons h'' hs =>
      obtain ⟨isNew, hmerged⟩ := ih (by simpa using hlast)
      exact ⟨fun i => isNew i || (s.views h').isNew i, by simp only [merged, View.absorb, hmerged]⟩

/-- Those are slots that one of them assigned. -/
theorem isNew_merged {hs : List Ptr} {i : Ptr} (hi : (s.merged hs).isNew i) :
    ∃ h ∈ hs, (s.views h).isNew i := by
  induction hs with
  | nil => cases hi
  | cons h hs ih =>
    cases hs with
    | nil => exact ⟨h, List.mem_cons_self, hi⟩
    | cons h' hs =>
      rcases Bool.or_eq_true _ _ ▸ hi with hi | hi
      · obtain ⟨x, hx, hi⟩ := ih hi
        exact ⟨x, List.mem_cons_of_mem _ hx, hi⟩
      · exact ⟨h, List.mem_cons_self, hi⟩

/-- What ends with a transaction is what ended with a child, and what is left to end. -/
theorem ending_eq_append {s : Handles} {h y : Ptr} (hy : y ∈ s.writers.takeWhile (· ≠ h)) :
    s.ending y = (s.writers.takeWhile (· ≠ h)).dropWhile (· ≠ y) ++ s.ending h := by
  have hne : (s.writers.takeWhile (· ≠ h)).dropWhile (· ≠ y) ≠ [] := fun hnil =>
    of_decide_eq_true (List.dropWhile_eq_nil_iff.1 hnil y hy) rfl
  conv_lhs => rw [Handles.ending, ← List.takeWhile_append_dropWhile (p := (· ≠ h)) (l := s.writers)]
  rw [List.dropWhile_append, if_neg (by simpa using hne)]
  rfl

theorem dropWhile_ne_eq_nil {l : List Ptr} {y : Ptr} (hy : y ∉ l) : l.dropWhile (· ≠ y) = [] :=
  List.dropWhile_eq_nil_iff.2 fun _ hx => decide_eq_true (ne_of_mem_of_not_mem hx hy)

theorem mem_writers_of_mem_ending {s : Handles} {x y : Ptr} (hx : x ∈ s.ending y) :
    x ∈ s.writers := (List.dropWhile_sublist _).subset hx

/-- What is appended does not matter to what is before a member. -/
theorem takeWhile_ne_append {l l' : List Ptr} {a : Ptr} (ha : a ∈ l) :
    (l ++ l').takeWhile (· ≠ a) = l.takeWhile (· ≠ a) := by
  rw [List.takeWhile_append, if_neg]
  intro hlen
  have hall := List.takeWhile_eq_self_iff.1 ((List.takeWhile_sublist _).eq_of_length hlen)
  exact of_decide_eq_true (hall a ha) rfl

/-- A transaction is the first of those that end with it. -/
theorem ending_eq_cons {s : Handles} {h : Ptr} (hh : h ∈ s.writers) : ∃ l, s.ending h = h :: l := by
  cases hending : s.ending h with
  | nil => exact absurd hending (ending_ne_nil hh)
  | cons x l =>
    have hx := List.head?_dropWhile_not (· ≠ h) s.writers
    rw [show s.writers.dropWhile (· ≠ h) = x :: l from hending] at hx
    exact ⟨l, by rw [show x = h by simpa using hx]⟩

/-- What does not end with a transaction is left. -/
theorem not_mem_ends {s : Handles} (hs : s.Sound) {h x : Ptr}
    (hx : x ∈ s.writers.takeWhile (· ≠ h)) : x ∉ s.ends h := by
  have hnodup := hs.nodup
  rw [← List.takeWhile_append_dropWhile (p := (· ≠ h)) (l := s.writers)] at hnodup
  rw [Handles.ends]
  split
  · exact fun hx' => (List.nodup_append.1 hnodup).2.2 x hx x hx' rfl
  · exact fun hx' => absurd (List.mem_singleton.1 hx') (by simpa using List.mem_takeWhile_imp hx)

/-- The innermost of the transactions ends with each of them. -/
theorem getLast?_ending {s : Handles} {y : Ptr} (hy : y ∈ s.writers) :
    (s.ending y).getLast? = s.writers.getLast? := by
  have hne : (s.ending y).getLast? ≠ none := fun hnone =>
    ending_ne_nil hy (List.getLast?_eq_none_iff.1 hnone)
  conv_rhs => rw [← List.takeWhile_append_dropWhile (p := (· ≠ y)) (l := s.writers)]
  rw [List.getLast?_append]
  exact (Option.or_of_isSome (Option.isSome_iff_ne_none.2 hne)).symm

/-! ## What is kept -/

variable {r : Reply × Dbis} {i x : Ptr}

theorem Living.closed (hr : Living s call r) : r.2.handles.closed = s.handles.closed := by
  cases hr with
  | same hhd => exact hhd.closed
  | reader hhd | child _ hhd | writer _ hhd | committed _ hhd | exported _ hhd | ended _ hhd
  | renewed _ _ hhd => exact hhd.closed

theorem Living.fresh_le (hr : Living s call r) : s.handles.fresh ≤ r.2.handles.fresh := by
  cases hr with
  | same hhd => exact hhd.fresh
  | reader hhd | child _ hhd | writer _ hhd | committed _ hhd | exported _ hhd | ended _ hhd
  | renewed _ _ hhd => exact hhd.fresh

/-- No slot is taken back. -/
theorem Living.numdbs_le (hr : Living s call r) : s.numdbs ≤ r.2.numdbs := by
  cases hr with
  | same _ _ _ hr | reader _ _ _ hr | child _ _ _ _ hr | writer _ _ _ hr | ended _ _ hr
  | renewed _ _ _ hr => exact (congrArg numdbs hr).ge
  | exported _ _ hr => exact (Nat.le_max_left _ _).trans_eq (congrArg numdbs hr).symm
  | @committed h _ _ _ hr =>
    rw [hr]
    cases (s.handles.writers.takeWhile (· ≠ h)).getLast? with
    | none => exact Nat.le_max_left _ _
    | some p => exact Nat.le_refl _

/-- A slot is exported at most, or closed with the end of a transaction that assigned it. -/
theorem Living.slots (hr : Living s call r) (i : Ptr) :
    (∃ valid, r.2.slots i = { s.slots i with valid }) ∨
      ∃ h, call.Abandons h r.1 ∧ s.NewIn (s.handles.ends h) i ∧
        r.2.slots i = (s.slots i).close := by
  have hexport (v : View) : ∃ valid, (s.exportSlots v).slots i = { s.slots i with valid } := by
    simp only [exportSlots]
    split
    · exact ⟨true, rfl⟩
    · exact ⟨_, rfl⟩
  cases hr with
  | same _ _ _ hr | reader _ _ _ hr | writer _ _ _ hr | child _ _ _ _ hr | renewed _ _ _ hr =>
    refine .inl ⟨(s.slots i).valid, ?_⟩
    exact (congrArg (Dbis.slots · i) hr).trans rfl
  | exported _ _ hr =>
    rw [hr]
    exact .inl (hexport _)
  | @committed h _ _ _ hr =>
    rw [hr]
    cases (s.handles.writers.takeWhile (· ≠ h)).getLast? with
    | none => exact .inl (hexport _)
    | some p => exact .inl ⟨_, rfl⟩
  | @ended h _ _ hcall _ hr =>
    by_cases hnew : s.NewIn (s.handles.ends h) i
    · refine .inr ⟨h, hcall, hnew, ?_⟩
      rw [hr]
      exact if_pos hnew
    · refine .inl ⟨(s.slots i).valid, ?_⟩
      rw [hr]
      exact if_neg hnew

/-- A transaction has assigned a slot if it had before, and has not ended, or if a child
    that was committed had. -/
theorem Living.isNew (hs : s.Sound) (hr : Living s call r) (hx : (r.2.views x).isNew i) :
    (s.views x).isNew i ∧ (∀ h, call = .mdbTxnCommit h →
        h ∈ s.handles.writers ∨ h ∈ s.handles.readers → x ∉ s.handles.ends h) ∨
      ∃ h ∈ s.handles.writers, call = .mdbTxnCommit h ∧
        (s.handles.writers.takeWhile (· ≠ h)).getLast? = some x ∧
        ∃ z ∈ s.handles.ending h, (s.views z).isNew i := by
  have hview {h : Ptr} {v : View} (hv : v.isNew i = false)
      (hx : ((s.setView h v).views x).isNew i) : (s.views x).isNew i := by
    by_cases hxh : x = h
    · rw [hxh, views_setView_self, hv] at hx
      cases hx
    · rwa [views_setView_of_ne hxh] at hx
  have hforget {hs : List Ptr} (hx : ((s.forget hs).views x).isNew i) :
      (s.views x).isNew i ∧ x ∉ hs := by
    by_cases hxh : x ∈ hs
    · rw [views_forget_of_mem hxh] at hx
      cases hx
    · exact ⟨views_forget hxh ▸ hx, hxh⟩
  -- None of these calls marks a slot as assigned; a commit hands marks on to the parent.
  cases hr with
  | same _ _ hcommit hr =>
    rw [hr] at hx
    exact .inl ⟨hx, fun h heq hh => absurd hh (not_or.2 (hcommit h heq))⟩
  | reader _ _ _ hr | writer _ _ _ hr | child _ _ _ _ hr | renewed _ _ _ hr =>
    rw [hr] at hx
    exact .inl ⟨hview rfl hx, fun _ => nofun⟩
  | exported hh _ hr =>
    rw [hr] at hx
    obtain ⟨hx, hne⟩ := hforget hx
    refine .inl ⟨hx, fun h heq _ => ?_⟩
    cases heq
    rwa [Handles.ends, if_neg hh]
  | ended hcall _ hr =>
    rw [hr] at hx
    obtain ⟨hx, hne⟩ := hforget hx
    refine .inl ⟨hx, fun h heq _ => ?_⟩
    rcases hcall with ⟨rfl, -⟩ | rfl | rfl <;> cases heq
    exact hne
  | @committed h _ hh _ hr =>
    have hends : s.handles.ends h = s.handles.ending h := if_pos hh
    generalize hparent : (s.handles.writers.takeWhile (· ≠ h)).getLast? = parent at hr
    rw [hr] at hx
    cases parent with
    | none =>
      obtain ⟨hx, hne⟩ := hforget hx
      exact .inl ⟨hx, fun _ heq _ => by cases heq; rwa [hends]⟩
    | some p =>
      by_cases hxp : x = p
      · subst hxp
        rw [publish, views_setView_self] at hx
        rcases Bool.or_eq_true _ _ ▸ hx with hx | hx
        · obtain ⟨z, hz, hzi⟩ := isNew_merged hx
          exact .inr ⟨h, hh, rfl, hparent, z, hz, hzi⟩
        · refine .inl ⟨hx, fun _ heq _ => ?_⟩
          cases heq
          exact not_mem_ends hs.handles (List.mem_of_getLast? hparent)
      · rw [publish, views_setView_of_ne hxp] at hx
        obtain ⟨hx, hne⟩ := hforget hx
        exact .inl ⟨hx, fun _ heq _ => by cases heq; rwa [hends]⟩

end Dbis

end KotlinLmdb
