import Mathlib.Logic.Basic

/-!
# Machines

A deterministic machine takes inputs one after the other, and answers each with
an output (`Machine`). What holds of every step of a run, given the state before
it, is `Machine.Along`; what holds of every state reached follows from an
invariant (`Machine.run_of_inv`).

Such properties come with conditions under which they hold, themselves on the
steps of the run. One is *exact* for the other if they agree on the steps taken
from states of an invariant which the steps meeting the condition keep: the runs
all of whose steps meet the condition are then exactly those with the property
(`Machine.along_iff_of_inv`).

Two machines with the same inputs run side by side as one (`Machine.prod`), which
is how they are compared.
-/

namespace KotlinLmdb

variable {σ σ' ι ω ω' : Type*}

/-- A machine with states `σ`, inputs `ι` and outputs `ω`. -/
structure Machine (σ ι ω : Type*) where
  step : σ → ι → ω × σ

namespace Machine

variable (M : Machine σ ι ω)

/-- The output for the input `i` in the state `s`. -/
def out (s : σ) (i : ι) : ω := (M.step s i).1

/-- The state after the input `i` in the state `s`. -/
def next (s : σ) (i : ι) : σ := (M.step s i).2

/-- The state after a run. -/
def run (s : σ) (is : List ι) : σ := is.foldl M.next s

/-- The outputs of a run. -/
def trace (s : σ) : List ι → List ω
  | [] => []
  | i :: is => M.out s i :: trace (M.next s i) is

/-- `P` holds of every step of a run: of the state before it and its input. -/
def Along (P : σ → ι → Prop) (s : σ) : List ι → Prop
  | [] => True
  | i :: is => P s i ∧ Along P (M.next s i) is

variable {M} {P Q : σ → ι → Prop} {I : σ → Prop} {s : σ}

instance decidableAlong [∀ s i, Decidable (P s i)] : ∀ s is, Decidable (M.Along P s is)
  | _, [] => inferInstanceAs (Decidable True)
  | s, i :: is =>
    have := decidableAlong (M.next s i) is
    inferInstanceAs (Decidable (P s i ∧ M.Along P (M.next s i) is))

@[simp]
theorem run_nil : M.run s [] = s := rfl

@[simp]
theorem run_cons (i : ι) (is : List ι) : M.run s (i :: is) = M.run (M.next s i) is := rfl

@[simp]
theorem trace_nil : M.trace s [] = [] := rfl

@[simp]
theorem trace_cons (i : ι) (is : List ι) :
    M.trace s (i :: is) = M.out s i :: M.trace (M.next s i) is := rfl

@[simp]
theorem along_nil : M.Along P s [] := trivial

@[simp]
theorem along_cons {i : ι} {is : List ι} :
    M.Along P s (i :: is) ↔ P s i ∧ M.Along P (M.next s i) is := Iff.rfl

theorem run_append (is js : List ι) : M.run s (is ++ js) = M.run (M.run s is) js :=
  List.foldl_append

theorem along_append {is js : List ι} :
    M.Along P s (is ++ js) ↔ M.Along P s is ∧ M.Along P (M.run s is) js := by
  induction is generalizing s with
  | nil => simp
  | cons i is ih => rw [List.cons_append, along_cons, ih, along_cons, and_assoc, run_cons]

theorem along_and {is : List ι} :
    M.Along (fun s i => P s i ∧ Q s i) s is ↔ M.Along P s is ∧ M.Along Q s is := by
  induction is generalizing s with
  | nil => simp
  | cons i is ih => rw [along_cons, along_cons, along_cons, ih, and_and_and_comm]

theorem along_of_forall (h : ∀ s i, P s i) (is : List ι) : M.Along P s is := by
  induction is generalizing s with
  | nil => trivial
  | cons i is ih => exact ⟨h s i, ih⟩

/-- An invariant kept by the steps meeting a condition holds after the runs of
    such steps. -/
theorem run_of_inv (hstep : ∀ s i, I s → Q s i → I (M.next s i)) {is : List ι}
    (hs : I s) (hq : M.Along Q s is) : I (M.run s is) := by
  induction is generalizing s with
  | nil => exact hs
  | cons i is ih => exact ih (hstep s i hs hq.1) hq.2

/-- What holds of the steps meeting a condition, from the states of an invariant
    they keep, holds along the runs of such steps. -/
theorem along_of_inv (hp : ∀ s i, I s → Q s i → P s i)
    (hstep : ∀ s i, I s → Q s i → I (M.next s i)) {is : List ι}
    (hs : I s) (hq : M.Along Q s is) : M.Along P s is := by
  induction is generalizing s with
  | nil => trivial
  | cons i is ih => exact ⟨hp s i hs hq.1, ih (hstep s i hs hq.1) hq.2⟩

/-- A condition that is exact on the steps from the states of an invariant, which
    the steps meeting it keep, is exact on runs. -/
theorem along_iff_of_inv (hiff : ∀ s i, I s → (P s i ↔ Q s i))
    (hstep : ∀ s i, I s → Q s i → I (M.next s i)) (is : List ι) (hs : I s) :
    M.Along P s is ↔ M.Along Q s is := by
  induction is generalizing s with
  | nil => exact Iff.rfl
  | cons i is ih =>
    rw [along_cons, along_cons, hiff s i hs]
    exact and_congr_right fun hq => ih (hstep s i hs hq)

/-- Two machines run side by side on the same inputs. -/
def prod (M : Machine σ ι ω) (M' : Machine σ' ι ω') : Machine (σ × σ') ι (ω × ω') where
  step s i := ((M.out s.1 i, M'.out s.2 i), (M.next s.1 i, M'.next s.2 i))

end Machine

end KotlinLmdb
