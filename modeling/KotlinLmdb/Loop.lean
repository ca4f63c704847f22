import Mathlib.Data.Nat.Basic

/-!
# Loops

A loop of an imperative program runs its body until the body leaves it. The body takes a
state to the next one, or to the result it leaves the loop with; it may itself have loops
that do not end, so that it may have no result at all. As nothing says that a loop ends,
it is run with some fuel (`loop`), the number of times the body may be run.

A loop is correct, and ends, if its body keeps an invariant while a measure of the state
decreases (`loop_spec`).
-/

namespace KotlinLmdb

variable {σ β : Type*}

/-- Runs a loop body until it leaves the loop, at most `fuel` times. -/
def loop (body : σ → Option (σ ⊕ β)) : ℕ → σ → Option β
  | 0, _ => none
  | fuel + 1, s => match body s with
    | none => none
    | some (.inl s') => loop body fuel s'
    | some (.inr b) => some b

/-- What a body makes of a state: it goes on with a state meeting `I`, of a smaller
    measure, or it leaves the loop with a result meeting `Q`. -/
def Goes (I : σ → Prop) (μ : σ → ℕ) (Q : β → Prop) (s : σ) : Option (σ ⊕ β) → Prop
  | none => False
  | some (.inl s') => I s' ∧ μ s' < μ s
  | some (.inr b) => Q b

/-- A loop whose body keeps an invariant, and decreases a measure, ends. -/
theorem loop_spec {body : σ → Option (σ ⊕ β)} {I : σ → Prop} {μ : σ → ℕ} {Q : β → Prop}
    (hbody : ∀ s, I s → Goes I μ Q s (body s)) {s : σ} (hs : I s) {fuel : ℕ} (hfuel : μ s < fuel) :
    ∃ b, loop body fuel s = some b ∧ Q b := by
  induction fuel generalizing s with
  | zero => exact absurd hfuel (Nat.not_lt_zero _)
  | succ fuel ih =>
    have hgoes := hbody s hs
    rw [loop]
    cases hb : body s with
    | none => simp [hb, Goes] at hgoes
    | some r =>
      rw [hb] at hgoes
      cases r with
      | inl s' => exact ih hgoes.1 (by have := hgoes.2; omega)
      | inr b => exact ⟨b, rfl, hgoes⟩

end KotlinLmdb
