import KotlinLmdb.Env
import KotlinLmdb.Machine

/-!
# The life cycle of an environment

An environment and LMDB, under any sequence of calls of its methods
(`Env.lifecycle`), over any library: whatever LMDB answers.

LMDB has a protocol (`Env.Protocol`): transactions only in an environment whose
last opening succeeded; closed exactly once, by the first `close`, opened or not;
no use of the handle after that. The wrapper keeps to it but for some calls its two
flags do not stand for: `isOpened` is set by a failed opening too, and `close` does
nothing to an environment never opened. The runs keeping to the protocol are
those without such calls (`Env.protocol_iff`).
-/

namespace KotlinLmdb

namespace Env

variable {N : Type} (lib : Library N) (p : Platform)

/-- An environment and LMDB, with what has happened to it so far. -/
structure History (N : Type) where
  env : Env
  native : N
  /-- The last opening succeeded. -/
  openedOk : Bool := false
  /-- It was closed. -/
  closed : Bool := false

/-- Whether a method call is an opening, and if so, whether it succeeds. -/
def Method.opens (m : Method) (outcome : Except Exn Value) (before : Bool) : Bool :=
  match m with
  | .open .. => outcome.isOk
  | _ => before

/-- Whether a method call closes the environment. -/
def Method.closes : Method → Bool
  | .close => true
  | _ => false

/-- An environment and LMDB, as a machine taking method calls. -/
def lifecycle : Machine (History N) Method (Seen Value) where
  step s m :=
    let r := (m.perform lib p).observe s.env s.native
    (r.1, {
      env := r.2.1
      native := r.2.2
      openedOk := m.opens r.1.outcome s.openedOk
      closed := s.closed || m.closes })

/-- The call begins a transaction. -/
def Begins : Call → Bool
  | .mdbTxnBegin .. => true
  | _ => false

/-- The call closes the environment. -/
def Closes : Call → Bool
  | .mdbEnvClose _ => true
  | _ => false

/-- What LMDB asks of a method call and the calls it makes. -/
structure Protocol (s : History N) (m : Method) : Prop where
  /-- Transactions are begun in open environments. -/
  begins : ∀ c ∈ ((lifecycle lib p).out s m).calls, Begins c.1 → s.openedOk ∧ ¬s.closed
  /-- Otherwise there is an `LmdbException`. -/
  refuses : ∀ options, m = .beginTxn options → ¬(s.openedOk ∧ ¬s.closed) →
    ∃ message, ((lifecycle lib p).out s m).outcome = .error (.lmdbException message)
  /-- The first `close`, and nothing else, closes the environment. -/
  closes : (((lifecycle lib p).out s m).calls.countP fun c => Closes c.1) =
    if m.closes ∧ ¬s.closed then 1 else 0
  /-- The handle is not used afterwards. -/
  unused : s.closed → ∀ c ∈ ((lifecycle lib p).out s m).calls, c.1.env ≠ some s.env.ptr

/-- The calls that keep to the protocol: no transaction is begun while `isOpened`
    stands for no open environment, the first `close` is of an environment opened
    before, successfully or not, and a closed environment is only closed again. -/
def Allowed (s : History N) : Method → Prop
  | .access _ => ¬s.closed
  | .open _ _ mode => s.closed → parseMode p mode = none
  | .beginTxn _ => s.env.isOpened → s.openedOk ∧ ¬s.closed
  | .close => s.closed ∨ s.env.isOpened

variable {lib p}

/-! ## One method call -/

theorem IsAccess.spec {ptr : Ptr} {c : Call} (h : IsAccess ptr c) :
    Begins c = false ∧ Closes c = false ∧ c.env = some ptr := by
  cases c <;> first | exact ⟨rfl, rfl, h⟩ | exact h.elim

/-- An access is to come before `close`. -/
theorem protocol_access (s : History N) (m : Access) :
    Protocol lib p s (.access m) ↔ Allowed p s (.access m) := by
  obtain ⟨⟨-, -, -, calls, hlog, hcalls⟩, hlen⟩ := m.leads_perform lib p (s.env, ⟨s.native, []⟩)
  have hout : ((lifecycle lib p).out s (.access m)).calls = calls := hlog
  constructor
  · intro h hclosed
    have hne : calls ≠ [] := by
      rintro rfl
      simp [hlog] at hlen
    obtain ⟨c, hc⟩ := List.exists_mem_of_ne_nil _ hne
    exact h.unused hclosed c (hout ▸ hc) (hcalls c hc).spec.2.2
  · intro h
    refine ⟨?_, (by simp), ?_, fun hclosed => absurd hclosed h⟩
    · intro c hc hb
      simp [(hcalls c (hout ▸ hc)).spec.1] at hb
    · rw [hout, List.countP_eq_zero.2 fun c hc => by simp [(hcalls c hc).spec.2.1]]
      simp [Method.closes]

/-- `open` calls LMDB if it can read the mode. -/
theorem protocol_open (s : History N) (path : String) (options : List EnvOption) (mode : String) :
    Protocol lib p s (.open path options mode) ↔ Allowed p s (.open path options mode) := by
  have hout : ((lifecycle lib p).out s (.open path options mode)).calls =
      (parseMode p mode).elim [] fun m =>
        let c := .mdbEnvOpen s.env.ptr path (EnvOption.toFlags options) m
        [(c, lib.reply c s.native)] := by
    simp only [Machine.out, lifecycle, Eff.observe, Method.perform, Eff.exec_map, exec_open]
    cases parseMode p mode <;> rfl
  cases hm : parseMode p mode with
  | none =>
    rw [hm, Option.elim_none] at hout
    refine iff_of_true ⟨?_, (by simp), ?_, ?_⟩ fun _ => hm
    · simp [hout]
    · simp [hout, Method.closes]
    · simp [hout]
  | some m =>
    rw [hm, Option.elim_some] at hout
    constructor
    · intro h hclosed
      exact absurd rfl (h.unused hclosed _ (by rw [hout]; exact List.mem_singleton_self _))
    · intro h
      refine ⟨?_, (by simp), ?_, fun hclosed => ?_⟩
      · simp [hout, Begins]
      · simp [hout, Method.closes, Closes]
      · cases hm.symm.trans (h hclosed)

/-- `beginTxn` calls LMDB if `isOpened` is set. -/
theorem protocol_beginTxn (s : History N) (options : List TxnOption) :
    Protocol lib p s (.beginTxn options) ↔ Allowed p s (.beginTxn options) := by
  have hexec := exec_beginTxn lib options s.env ⟨s.native, []⟩
  by_cases hopened : s.env.isOpened
  · have hout : ((lifecycle lib p).out s (.beginTxn options)).calls =
        let c := .mdbTxnBegin s.env.ptr none (TxnOption.toFlags options)
        [(c, lib.reply c s.native)] := by
      simp only [hopened, if_true] at hexec
      simp only [Machine.out, lifecycle, Eff.observe, Method.perform, Eff.exec_map, hexec]
      rfl
    constructor
    · intro h _
      exact h.begins _ (by rw [hout]; exact List.mem_singleton_self _) rfl
    · intro h
      have hok := h hopened
      refine ⟨fun _ _ _ => hok, fun _ _ hn => absurd hok hn, ?_, fun hclosed => ?_⟩
      · simp [hout, Method.closes, Closes]
      · exact absurd hclosed hok.2
  · -- without `isOpened` there is no call, but an exception
    have hout : (lifecycle lib p).out s (.beginTxn options) =
        ⟨.error (.lmdbException "Env is not open"), []⟩ := by
      simp only [hopened] at hexec
      simp only [Machine.out, lifecycle, Eff.observe, Method.perform, Eff.exec_map, hexec]
      rfl
    refine iff_of_true ⟨?_, fun _ _ _ => ⟨_, congrArg Event.outcome hout⟩, ?_, ?_⟩
      fun h => absurd h hopened
    · simp [hout]
    · simp [hout, Method.closes]
    · simp [hout]

/-- The flag `isClosed` is right. -/
def Inv (s : History N) : Prop := s.env.isClosed = s.closed

/-- `close` calls LMDB if `isOpened` is set, the first time. -/
theorem protocol_close (s : History N) (hs : Inv s) :
    Protocol lib p s .close ↔ Allowed p s .close := by
  have hexec := exec_close lib p s.env ⟨s.native, []⟩
  have hout : ((lifecycle lib p).out s .close).calls =
      if s.closed ∨ ¬s.env.isOpened then []
      else [(.mdbEnvClose s.env.ptr, lib.reply (.mdbEnvClose s.env.ptr) s.native)] := by
    rw [hs] at hexec
    simp only [Machine.out, lifecycle, Eff.observe, Method.perform, Eff.exec_map, hexec]
    cases s.closed <;> cases s.env.isOpened <;> rfl
  by_cases hclosed : s.closed
  · rw [if_pos (.inl hclosed)] at hout
    refine iff_of_true ⟨?_, (by simp), ?_, ?_⟩ (.inl hclosed)
    · simp [hout]
    · simp [hout, hclosed]
    · simp [hout]
  · by_cases hopened : s.env.isOpened
    · rw [if_neg (by simp [hclosed, hopened])] at hout
      refine iff_of_true ⟨?_, (by simp), ?_, fun h => absurd h hclosed⟩ (.inr hopened)
      · simp [hout, Begins]
      · simp [hout, hclosed, Closes, Method.closes]
    · -- the environment would be left unclosed
      rw [if_pos (.inr hopened)] at hout
      refine iff_of_false (fun h => ?_) (by simp [Allowed, hclosed, hopened])
      have := h.closes
      simp [hout, Method.closes, hclosed] at this

/-- Exactly the allowed calls keep to the protocol. -/
theorem protocol_iff_allowed (s : History N) (hs : Inv s) (m : Method) :
    Protocol lib p s m ↔ Allowed p s m := by
  cases m with
  | access m => exact protocol_access s m
  | «open» path options mode => exact protocol_open s path options mode
  | beginTxn options => exact protocol_beginTxn s options
  | close => exact protocol_close s hs

/-- Only `close` changes the flag `isClosed`. -/
theorem inv_next (s : History N) (m : Method) (hs : Inv s) : Inv ((lifecycle lib p).next s m) := by
  cases m with
  | access m =>
    have h := (m.leads_perform lib p (s.env, ⟨s.native, []⟩)).1.2.2.1
    simp only [Inv, Machine.next, lifecycle, Method.closes, Bool.or_false] at hs ⊢
    exact h.trans hs
  | «open» path options mode =>
    simp only [Inv, Machine.next, lifecycle, Method.closes, Bool.or_false, Eff.observe,
      Method.perform, Eff.exec_map, exec_open] at hs ⊢
    cases parseMode p mode <;> exact hs
  | beginTxn options =>
    simp only [Inv, Machine.next, lifecycle, Method.closes, Bool.or_false, Eff.observe,
      Method.perform, Eff.exec_map, exec_beginTxn] at hs ⊢
    split <;> exact hs
  | close =>
    simp only [Inv, Machine.next, lifecycle, Method.closes, Bool.or_true, Eff.observe,
      Method.perform, Eff.exec_map, exec_close]
    split
    · assumption
    · rfl

/-! ## Runs -/

/-- The runs of a fresh environment that keep to the protocol are those made of
    allowed calls. -/
theorem protocol_iff (ptr : Ptr) (mapSize : UInt64) (n : N) (ms : List Method) :
    (lifecycle lib p).Along (Protocol lib p) { env := { ptr, mapSize }, native := n } ms ↔
      (lifecycle lib p).Along (Allowed p) { env := { ptr, mapSize }, native := n } ms :=
  Machine.along_iff_of_inv (fun s m hs => protocol_iff_allowed s hs m)
    (fun s m hs _ => inv_next s m hs) ms rfl

/-- After an opening that fails, `beginTxn` calls LMDB; and an environment that was
    not opened is never closed. On both platforms. -/
theorem not_protocol_failed_open :
    (¬(lifecycle (.refusing 13) .jvm).Along (Protocol (.refusing 13) .jvm)
        { env := { ptr := 1, mapSize := 0 }, native := () }
        [.open "/db" [] "0664", .beginTxn []]) ∧
      ¬(lifecycle (.refusing 13) .native).Along (Protocol (.refusing 13) .native)
        { env := { ptr := 1, mapSize := 0 }, native := () } [.close] := by
  constructor
  · intro h
    have := h.2.1.begins (.mdbTxnBegin 1 none 0, { rc := 13 }) (by decide) rfl
    exact absurd this.1 (by decide)
  · intro h
    exact absurd h.1.closes (by decide)

end Env

end KotlinLmdb
