import Mathlib.Logic.Basic

/-!
# Computations calling a library

Imperative code that may throw, over a state: `Eff ε σ α`. What was assigned
before an exception stays assigned (`Eff.exec_bind`), unlike in a transaction.

Such code works on the fields of its receiver and calls a foreign library. The
library is a `Handler`: a state of its own and an answer to each call, whatever
that is. A `Session` with it keeps its state and the log of the calls made with
their answers, so that one can say which calls a piece of code makes
(`Eff.observe`).
-/

namespace KotlinLmdb

variable {C R N ε σ τ α β : Type}

/-- A computation over the state `σ` that may throw an `ε`. -/
abbrev Eff (ε σ α : Type) := ExceptT ε (StateM σ) α

/-- A foreign library with state `N`: how it answers a call, and the state the
    call leaves it in. -/
structure Handler (C R N : Type) where
  answer : C → N → R × N

/-- The answer to a call. -/
def Handler.reply (h : Handler C R N) (c : C) (n : N) : R := (h.answer c n).1

/-- The state a call leaves the library in. -/
def Handler.next (h : Handler C R N) (c : C) (n : N) : N := (h.answer c n).2

/-- A session with a library: its state, and the calls made so far. -/
structure Session (C R N : Type) where
  native : N
  log : List (C × R)

/-- The session after a call. -/
def Session.after (s : Session C R N) (h : Handler C R N) (c : C) : Session C R N :=
  ⟨h.next c s.native, s.log ++ [(c, h.reply c s.native)]⟩

@[simp]
theorem Session.native_after (s : Session C R N) (h : Handler C R N) (c : C) :
    (s.after h c).native = h.next c s.native := rfl

@[simp]
theorem Session.log_after (s : Session C R N) (h : Handler C R N) (c : C) :
    (s.after h c).log = s.log ++ [(c, h.reply c s.native)] := rfl

/-- What is seen of a computation: how it ended, and the calls it made. -/
structure Event (C R ε α : Type) where
  outcome : Except ε α
  calls : List (C × R)

namespace Eff

/-! ## Running -/

/-- Running a computation: its outcome and the state it leaves. -/
def exec (x : Eff ε σ α) (s : σ) : Except ε α × σ := x.run.run s

@[simp]
theorem exec_pure (a : α) (s : σ) : (pure a : Eff ε σ α).exec s = (.ok a, s) := rfl

@[simp]
theorem exec_throw (e : ε) (s : σ) : (throw e : Eff ε σ α).exec s = (.error e, s) := rfl

@[simp]
theorem exec_get (s : σ) : (get : Eff ε σ σ).exec s = (.ok s, s) := rfl

@[simp]
theorem exec_set (s s' : σ) : (set s' : Eff ε σ PUnit).exec s = (.ok ⟨⟩, s') := rfl

@[simp]
theorem exec_modify (f : σ → σ) (s : σ) :
    (modify f : Eff ε σ PUnit).exec s = (.ok ⟨⟩, f s) := rfl

/-- An exception skips the rest, and keeps the state it was thrown in. -/
@[simp]
theorem exec_bind (x : Eff ε σ α) (f : α → Eff ε σ β) (s : σ) :
    (x >>= f).exec s = match x.exec s with
      | (.ok a, s') => (f a).exec s'
      | (.error e, s') => (.error e, s') := by
  have : (x >>= f).exec s = (match x.exec s with
      | (a, s') => (ExceptT.bindCont f a : StateM σ _).run s') := rfl
  rw [this]
  rcases x.exec s with ⟨a | a, s'⟩ <;> rfl

/-- Pure code that may throw. -/
@[simp]
theorem exec_ofExcept (o : Except ε α) (s : σ) : (ofExcept o : Eff ε σ α).exec s = (o, s) := by
  cases o <;> rfl

/-- A handler goes on in the state the exception was thrown in. -/
@[simp]
theorem exec_tryCatch (x : Eff ε σ α) (f : ε → Eff ε σ α) (s : σ) :
    (tryCatch x f).exec s = match x.exec s with
      | (.ok a, s') => (.ok a, s')
      | (.error e, s') => (f e).exec s' := by
  have : (tryCatch x f).exec s = (match x.exec s with
      | (r, s') => (match r with
        | .ok a => pure (.ok a)
        | .error e => (f e).run : StateM σ (Except ε α)).run s') := rfl
  rw [this]
  rcases x.exec s with ⟨e | a, s'⟩ <;> rfl

@[simp]
theorem map_ok (f : α → β) (a : α) : (.ok a : Except ε α).map f = .ok (f a) := rfl

@[simp]
theorem map_error (f : α → β) (e : ε) : (.error e : Except ε α).map f = .error e := rfl

@[simp]
theorem map_ite {c : Prop} [Decidable c] (f : α → β) (x y : Except ε α) :
    (if c then x else y).map f = if c then x.map f else y.map f :=
  apply_ite (Except.map f) c x y

@[simp]
theorem exec_map (f : α → β) (x : Eff ε σ α) (s : σ) :
    (f <$> x).exec s = ((x.exec s).1.map f, (x.exec s).2) := by
  rw [← bind_pure_comp, exec_bind]
  rcases x.exec s with ⟨a | a, s'⟩ <;> rfl

@[simp]
theorem exec_ite {c : Prop} [Decidable c] (x y : Eff ε σ α) (s : σ) :
    (if c then x else y).exec s = if c then x.exec s else y.exec s := by
  split <;> rfl

/-! ## Receivers and calls -/

/-- The receiver. -/
def self : Eff ε (σ × τ) σ := do return (← get).1

/-- Assigning fields of the receiver. -/
def assign (f : σ → σ) : Eff ε (σ × τ) Unit := modify fun s => (f s.1, s.2)

/-- A call to the library. -/
def call (h : Handler C R N) (c : C) : Eff ε (σ × Session C R N) R := do
  let s ← get
  set (s.1, s.2.after h c)
  return h.reply c s.2.native

@[simp]
theorem exec_self (s : σ × τ) : (self : Eff ε (σ × τ) σ).exec s = (.ok s.1, s) := rfl

@[simp]
theorem exec_assign (f : σ → σ) (s : σ × τ) :
    (assign f : Eff ε (σ × τ) Unit).exec s = (.ok (), (f s.1, s.2)) := rfl

@[simp]
theorem exec_call (h : Handler C R N) (c : C) (s : σ × Session C R N) :
    (call h c : Eff ε (σ × Session C R N) R).exec s =
      (.ok (h.reply c s.2.native), (s.1, s.2.after h c)) := rfl

/-! ## What a computation leads to -/

/-- Whatever state it is run in, the computation leaves one in the relation. -/
def Leads (P : σ → σ → Prop) (x : Eff ε σ α) : Prop := ∀ s, P s (x.exec s).2

section Leads

variable {P Q : σ → σ → Prop} {x : Eff ε σ α}

theorem leads_mono (hPQ : ∀ s s', P s s' → Q s s') (hx : Leads P x) : Leads Q x :=
  fun s => hPQ _ _ (hx s)

theorem leads_pure (hP : ∀ s, P s s) (a : α) : Leads P (pure a : Eff ε σ α) := fun s => hP s

theorem leads_map (f : α → β) (hx : Leads P x) : Leads P (f <$> x) := by
  intro s
  rw [exec_map]
  exact hx s

/-- The rest may lead elsewhere, if it is absorbed. -/
theorem leads_bind {f : α → Eff ε σ β} (hPQ : ∀ s s' s'', P s s' → Q s' s'' → P s s'')
    (hx : Leads P x) (hf : ∀ a, Leads Q (f a)) : Leads P (x >>= f) := by
  intro s
  have hs := hx s
  rw [exec_bind]
  split
  · rename_i a s' h
    rw [h] at hs
    exact hPQ _ _ _ hs (hf a s')
  · rename_i h
    rw [h] at hs
    exact hs

/-- Going through a list, up to an exception. -/
theorem leads_forM {τ : Type} {f : τ → Eff ε σ PUnit} (hP : ∀ s, P s s)
    (hPP : ∀ s s' s'', P s s' → P s' s'' → P s s'') (hf : ∀ a, Leads P (f a)) (l : List τ) :
    Leads P (l.forM f) := by
  induction l with
  | nil => exact leads_pure hP _
  | cons a l ih => exact leads_bind hPP (hf a) fun _ => ih

end Leads

/-! ## Computations alike -/

/-- Outcomes alike: the same value, or exceptions that are. -/
def Alike (E : ε → ε → Prop) : Except ε α → Except ε α → Prop
  | .ok a, .ok a' => a = a'
  | .error e, .error e' => E e e'
  | _, _ => False

theorem alike_map {E : ε → ε → Prop} (f : α → β) {o o' : Except ε α} (h : Alike E o o') :
    Alike E (o.map f) (o'.map f) := by
  cases o <;> cases o'
  · exact h
  · exact h.elim
  · exact h.elim
  · exact congrArg f h

theorem alike_ite {E : ε → ε → Prop} {b : Prop} [Decidable b] {x x' y y' : Except ε α}
    (hx : Alike E x x') (hy : Alike E y y') :
    Alike E (if b then x else y) (if b then x' else y') := by
  split
  · exact hx
  · exact hy

/-- From states in a relation, one computation comes to what the other does, and
    leaves states in the relation. -/
def Mirrors (E : ε → ε → Prop) (R : σ → σ → Prop) (x y : Eff ε σ α) : Prop :=
  ∀ s s', R s s' → Alike E (x.exec s).1 (y.exec s').1 ∧ R (x.exec s).2 (y.exec s').2

section Mirrors

variable {E : ε → ε → Prop} {R : σ → σ → Prop} {x y : Eff ε σ α}

theorem mirrors_pure (a : α) : Mirrors E R (pure a : Eff ε σ α) (pure a) :=
  fun _ _ hs => ⟨rfl, hs⟩

theorem mirrors_bind {f g : α → Eff ε σ β} (hx : Mirrors E R x y)
    (hf : ∀ a, Mirrors E R (f a) (g a)) :
    Mirrors E R (x >>= f) (y >>= g) := by
  intro s s' hs
  obtain ⟨hout, hstate⟩ := hx s s' hs
  rw [exec_bind, exec_bind]
  rcases hxs : x.exec s with ⟨e | a, t⟩ <;> rcases hys : y.exec s' with ⟨e' | a', t'⟩
  all_goals rw [hxs, hys] at hout hstate
  · exact ⟨hout, hstate⟩
  · exact hout.elim
  · exact hout.elim
  · obtain rfl : a = a' := hout
    exact hf a t t' hstate

theorem mirrors_map (f : α → β) (hx : Mirrors E R x y) : Mirrors E R (f <$> x) (f <$> y) := by
  rw [← bind_pure_comp, ← bind_pure_comp]
  exact mirrors_bind hx fun a => mirrors_pure (f a)

/-- Going through the same list. -/
theorem mirrors_forM {τ : Type} {f g : τ → Eff ε σ PUnit} (hf : ∀ a, Mirrors E R (f a) (g a))
    (l : List τ) : Mirrors E R (l.forM f) (l.forM g) := by
  induction l with
  | nil => exact mirrors_pure _
  | cons a l ih => exact mirrors_bind (hf a) fun _ => ih

end Mirrors

/-- Running a computation of the receiver `o` on a library in the state `n`, to
    see what it does. -/
def observe (x : Eff ε (σ × Session C R N) α) (o : σ) (n : N) : Event C R ε α × σ × N :=
  let r := x.exec (o, ⟨n, []⟩)
  (⟨r.1, r.2.2.log⟩, r.2.1, r.2.2.native)

theorem observe_map (f : α → β) (x : Eff ε (σ × Session C R N) α) (o : σ) (n : N) :
    (f <$> x).observe o n =
      (⟨(x.observe o n).1.outcome.map f, (x.observe o n).1.calls⟩, (x.observe o n).2) := by
  simp only [observe, exec_map]

end Eff

end KotlinLmdb
