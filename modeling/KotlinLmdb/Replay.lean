import Mathlib.Logic.Function.Basic

/-!
# Maps written and cleared

A finite map under a sequence of writes and clearings (`MapOp`) holds, at each key,
what was last written there since it was last cleared (`MapOp.replay`). Writes elsewhere do
not matter (`MapOp.apply_set_of_ne`).
-/

namespace KotlinLmdb

variable {κ ν : Type*} [DecidableEq κ]

/-- What is done to a map. -/
inductive MapOp (κ ν : Type*)
  | set (k : κ) (v : ν)
  | clear

namespace MapOp

/-- A map after an operation. -/
def apply (m : κ → Option ν) : MapOp κ ν → κ → Option ν
  | set k v => Function.update m k (some v)
  | clear => fun _ => none

/-- The map after a sequence of operations, empty at first. -/
def replay (ops : List (MapOp κ ν)) : κ → Option ν := ops.foldl apply fun _ => none

theorem replay_append (ops : List (MapOp κ ν)) (op : MapOp κ ν) :
    replay (ops ++ [op]) = op.apply (replay ops) := by
  rw [replay, List.foldl_append]
  rfl

@[simp]
theorem apply_set_self (m : κ → Option ν) (k : κ) (v : ν) : apply m (.set k v) k = some v :=
  Function.update_self ..

/-- A write matters to no other key. -/
theorem apply_set_of_ne (m : κ → Option ν) {k k' : κ} (h : k ≠ k') (v : ν) :
    apply m (.set k' v) k = m k :=
  Function.update_of_ne h ..

end MapOp

end KotlinLmdb
