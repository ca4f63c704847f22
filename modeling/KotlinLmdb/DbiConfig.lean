import KotlinLmdb.Txn
import KotlinLmdb.ValComparerRegistry

/-!
# Configured databases

Databases opened with comparers (`Txn.dbiOpenWith`), the same on both platforms: the
database is opened, then each comparer of the configuration found in the registry and
handed to LMDB. Custom comparers are functions of the user's, given by their addresses.
-/

namespace KotlinLmdb

open Eff

/-- The comparers to open a database with. -/
structure DbiConfig where
  keyComparer : Option ValComparer := none
  dupComparer : Option ValComparer := none
  deriving DecidableEq

namespace Txn

variable {N : Type} (lib : Library N) (p : Platform) (r : Registry Ptr)

/-- `config.keyComparer?.let` and `config.dupComparer?.let`, by what hands the callback
    to LMDB. -/
def setComparer (set : Callback Ptr → Call) : Option ValComparer → Kt N Txn Unit
  | none => return
  | some comparer => do
    let comparatorCallback ← ofExcept (r.getComparerCallback p comparer)
    let result ← call lib (set comparatorCallback)
    let _ ← check lib result.rc

/-- Setting the comparers of a configuration. -/
def configure (dbi : Dbi) (config : DbiConfig) : Kt N Txn Unit := do
  setComparer lib p r (.mdbSetCompare (← self).ptr dbi.ptr) config.keyComparer
  setComparer lib p r (.mdbSetDupsort (← self).ptr dbi.ptr) config.dupComparer

/-- `dbiOpen` with a configuration. -/
def dbiOpenWith (name : Option DbName) (config : DbiConfig) (options : List DbiOption) :
    Kt N Txn Dbi := do
  let dbi ← Dbi.init lib name (← self) options
  configure lib p r dbi config
  return dbi

/-- The callback for a comparer, if there is one. -/
def callback (comparer : Option ValComparer) : Except Exn (Option (Callback Ptr)) :=
  match comparer with
  | none => .ok none
  | some comparer => some <$> r.getComparerCallback p comparer

variable (t : Txn) (s : Session Call Reply N)

/-- Setting a comparer makes a call if there is a callback. -/
theorem exec_setComparer (set : Callback Ptr → Call) (comparer : Option ValComparer) :
    (setComparer lib p r set comparer).exec (t, s) = match callback p r comparer with
      | .error e => (.error e, (t, s))
      | .ok none => (.ok (), (t, s))
      | .ok (some cb) =>
        (if (lib.reply (set cb) s.native).rc = 0 then .ok ()
          else .error (getException lib (lib.reply (set cb) s.native).rc),
          (t, s.after lib.toHandler (set cb))) := by
  cases comparer with
  | none => rfl
  | some comparer =>
    cases h : r.getComparerCallback p comparer with
    | error e => simp [setComparer, callback, h]
    | ok cb => simp [setComparer, callback, h]

end Txn

end KotlinLmdb
