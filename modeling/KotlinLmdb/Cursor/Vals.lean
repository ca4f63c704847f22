import KotlinLmdb.Lmdb.Lookup
import KotlinLmdb.Machine
import KotlinLmdb.Txn
import KotlinLmdb.ValComparers.Meaning

/-!
# The values handed to a lookup

`Val` objects are handed to LMDB by the pointer to their structure, so that a lookup may
leave something else in them. Here the same two objects are used for any sequence of
lookups (`Lookup.machine`), in any databases.

They are to stay as they are, and each lookup is to return what it would return for
fresh ones (`Lookup.Untouched`). Those finding an entry by its key do, if there is none
like it with other bytes; but `setRange` leaves the next key in the caller's key, and
`getBothRange` the next data item in the caller's data. So the objects are untouched
exactly in the runs where such a lookup finds what it was given, or nothing
(`Lookup.untouched_iff`).
-/

namespace KotlinLmdb

open Eff

namespace Cursor

variable {N : Type} (lib : Library N) (p : Platform)

def set (key : Val) : Kt N Cursor (Int × Val × Val) := getKey lib p key .set

def setKey (key : Val) : Kt N Cursor (Int × Val × Val) := getKey lib p key .setKey

def setRange (key : Val) : Kt N Cursor (Int × Val × Val) := getKey lib p key .setRange

def getBoth (key data : Val) : Kt N Cursor (Int × Val × Val) := getKeyData lib p key data .getBoth

def getBothRange (key data : Val) : Kt N Cursor (Int × Val × Val) :=
  getKeyData lib p key data .getBothRange

end Cursor

/-- The objects a caller uses, with what their structures hold. -/
structure Vals where
  key : Val
  data : Val
  deriving DecidableEq

/-- Fresh objects. -/
def Vals.fresh (key data : Bytes) : Vals := ⟨key.toVal, data.toVal⟩

/-- The lookups, by what they are called on. -/
inductive Lookup
  | get (txn : Txn) (dbi : Dbi)
  | set (cursor : Cursor)
  | setKey (cursor : Cursor)
  | setRange (cursor : Cursor)
  | getBoth (cursor : Cursor)
  | getBothRange (cursor : Cursor)

namespace Lookup

variable {N : Type} (lib : Library N) (p : Platform)

/-- Making a lookup with the two objects, to see what it does. -/
def observe (v : Vals) (n : N) : Lookup → Seen (Int × Val × Val) × N
  | get txn dbi => (Txn.get lib dbi v.key).observe txn n |>.map id Prod.snd
  | set cursor => (Cursor.set lib p v.key).observe cursor n |>.map id Prod.snd
  | setKey cursor => (Cursor.setKey lib p v.key).observe cursor n |>.map id Prod.snd
  | setRange cursor => (Cursor.setRange lib p v.key).observe cursor n |>.map id Prod.snd
  | getBoth cursor => (Cursor.getBoth lib p v.key v.data).observe cursor n |>.map id Prod.snd
  | getBothRange cursor =>
    (Cursor.getBothRange lib p v.key v.data).observe cursor n |>.map id Prod.snd

/-- The lookup is given the structure of the data object, too. -/
def takesData : Lookup → Bool
  | getBoth _ | getBothRange _ => true
  | _ => false

/-- What the objects hold when LMDB has written to the structures it was given. -/
def written (l : Lookup) (v : Vals) (r : Reply) : Vals :=
  { key := r.key, data := if l.takesData then r.data else v.data }

/-- A caller with two objects and LMDB, as a machine making lookups. -/
def machine : Machine (Vals × N) Lookup (Seen (Int × Val × Val)) where
  step s l :=
    let r := l.observe lib p s.1 s.2
    (r.1, (r.1.calls.foldl (fun v c => l.written v c.2) s.1, r.2))

/-- A lookup returns what it returns for fresh objects, and leaves those it was given as
    they were. -/
structure Untouched (key data : Bytes) (s : Vals × N) (l : Lookup) : Prop where
  same : ((machine lib p).out s l).outcome =
    ((machine lib p).out (.fresh key data, s.2) l).outcome
  kept : ((machine lib p).next s l).1 = .fresh key data

/-- The lookup finds what it was given, or nothing, if it writes what it finds. -/
def Held (key data : Bytes) (s : Vals × Lookups) : Lookup → Prop
  | get _ _ | set _ => True
  | setKey c => s.2.Fails ∨ (s.2.cursorDb c.ptr).KeyHeld true key
  | setRange c => s.2.Fails ∨ (s.2.cursorDb c.ptr).KeyHeld false key
  | getBoth c =>
    s.2.Fails ∨ ¬(s.2.cursorDb c.ptr).dupSort ∨ (s.2.cursorDb c.ptr).PairHeld true key data
  | getBothRange c =>
    s.2.Fails ∨ ¬(s.2.cursorDb c.ptr).dupSort ∨ (s.2.cursorDb c.ptr).PairHeld false key data

variable {lib p} {v : Vals} {n : N}

/-! ## One call each -/

/-- The call a lookup makes. -/
def call : Lookup → Vals → Call
  | get txn dbi, v => .mdbGet txn.ptr dbi.ptr v.key
  | set c, v => .mdbCursorGet c.ptr v.key .output CursorOption.set.option
  | setKey c, v => .mdbCursorGet c.ptr v.key .output CursorOption.setKey.option
  | setRange c, v => .mdbCursorGet c.ptr v.key .output CursorOption.setRange.option
  | getBoth c, v => .mdbCursorGet c.ptr v.key v.data CursorOption.getBoth.option
  | getBothRange c, v => .mdbCursorGet c.ptr v.key v.data CursorOption.getBothRange.option

/-- A lookup makes one call, and has the objects written as LMDB answers. -/
theorem next_machine (l : Lookup) : (machine lib p).next (v, n) l =
    (l.written v (lib.reply (l.call v) n), lib.next (l.call v) n) := by
  cases l <;>
    simp [machine, Machine.next, observe, call, Eff.observe, Txn.get, Cursor.set, Cursor.setKey,
      Cursor.setRange, Cursor.getBoth, Cursor.getBothRange, Cursor.getKey, Cursor.getKeyData]

/-! ## What each leaves in the objects -/

section Held

variable {others : Library Lookups} {key data : Bytes} {n : Lookups} {c : Cursor}

theorem written_get (txn : Txn) (dbi : Dbi) :
    (get txn dbi).written (.fresh key data)
      ((Lookups.library others).reply ((get txn dbi).call (.fresh key data)) n) =
      .fresh key data := by
  have hkey : ((n.dbs dbi.ptr).cursorSet key.toVal .output .mdbSet).key = key.toVal :=
    Db.cursorSet_key (by decide) key.toVal .output
  by_cases hs : n.Fails
  · simp [written, takesData, call, Vals.fresh, Lookups.request_of_fails hs]
  · simp [written, takesData, call, Vals.fresh, Lookups.request_of_not_fails hs, hkey]

/-- A lookup by the key alone leaves the data object as it is. -/
theorem written_key_iff {l : Lookup} {op : UInt32} {o : MdbCursorOp} {P : Prop}
    (hl : l.takesData = false)
    (hcall : l.call (.fresh key data) = .mdbCursorGet c.ptr key.toVal .output op)
    (ho : Lookups.lookupOf op = some o) (hboth : ¬(o = .mdbGetBoth ∨ o = .mdbGetBothRange))
    (hkey : ((n.cursorDb c.ptr).cursorSet key.toVal .output o).key = key.toVal ↔ P) :
    l.written (.fresh key data)
      ((Lookups.library others).reply (l.call (.fresh key data)) n) = .fresh key data ↔
      n.Fails ∨ P := by
  rw [hcall, Lookups.reply_mdbCursorGet others ho]
  by_cases hs : n.Fails
  · simp [written, hl, Vals.fresh, Lookups.request_of_fails hs, hs]
  · simp [written, hl, Vals.fresh, Lookups.request_of_not_fails hs, hs, Db.cursorGet, hboth, hkey]

/-- A lookup of a pair leaves the key object as it is. -/
theorem written_pair_iff (exact : Bool) {l : Lookup} {op : UInt32} {o : MdbCursorOp}
    (hl : l.takesData = true)
    (hcall : l.call (.fresh key data) = .mdbCursorGet c.ptr key.toVal data.toVal op)
    (ho : Lookups.lookupOf op = some o)
    (hexact : o = if exact then .mdbGetBoth else .mdbGetBothRange) :
    l.written (.fresh key data)
      ((Lookups.library others).reply (l.call (.fresh key data)) n) = .fresh key data ↔
      n.Fails ∨ ¬(n.cursorDb c.ptr).dupSort ∨ (n.cursorDb c.ptr).PairHeld exact key data := by
  have hboth : o = .mdbGetBoth ∨ o = .mdbGetBothRange := by
    cases exact
    · exact .inr hexact
    · exact .inl hexact
  have hset : ¬(o = .mdbSetKey ∨ o = .mdbSetRange) := by
    rcases hboth with rfl | rfl <;> decide
  have hdata : ((n.cursorDb c.ptr).cursorSet key.toVal data.toVal o).data = data.toVal ↔
      (n.cursorDb c.ptr).PairHeld exact key data := Db.cursorSet_data_iff hexact
  rw [hcall, Lookups.reply_mdbCursorGet others ho]
  by_cases hs : n.Fails
  · simp [written, hl, Vals.fresh, Lookups.request_of_fails hs, hs]
  by_cases hdup : (n.cursorDb c.ptr).dupSort
  · have hkey := (n.cursorDb c.ptr).cursorSet_key hset key.toVal data.toVal
    simp [written, hl, Vals.fresh, Lookups.request_of_not_fails hs, hs, Db.cursorGet, hdup, hdata,
      hkey]
  · -- the operation is none for this database
    simp [written, hl, Vals.fresh, Lookups.request_of_not_fails hs, hs, Db.cursorGet, hdup, hboth]

/-- The objects stay as they are exactly if the lookup finds what it was given, or
    nothing, or does not write what it finds. -/
theorem written_iff (l : Lookup) :
    l.written (.fresh key data)
      ((Lookups.library others).reply (l.call (.fresh key data)) n) = .fresh key data ↔
      l.Held key data (.fresh key data, n) := by
  cases l with
  | get txn dbi => exact iff_of_true (written_get txn dbi) trivial
  | set c =>
    have hkey : ((n.cursorDb c.ptr).cursorSet key.toVal .output .mdbSet).key = key.toVal :=
      Db.cursorSet_key (by decide) key.toVal .output
    rw [written_key_iff rfl rfl rfl (by decide) (iff_true_intro hkey)]
    exact iff_of_true (.inr trivial) trivial
  | setKey c =>
    exact written_key_iff rfl rfl rfl (by decide) (Db.cursorSet_key_iff true rfl _)
  | setRange c =>
    exact written_key_iff rfl rfl rfl (by decide) (Db.cursorSet_key_iff false rfl _)
  | getBoth c => exact written_pair_iff true rfl rfl rfl rfl
  | getBothRange c => exact written_pair_iff false rfl rfl rfl rfl

end Held

/-! ## Runs -/

/-- With the same two objects for all lookups, each of them is as for fresh ones, and
    leaves them as they were, exactly if each one that writes what it finds finds what it
    was given, or nothing. -/
theorem untouched_iff (others : Library Lookups) (p : Platform) (key data : Bytes) (n : Lookups)
    (ls : List Lookup) :
    (machine (Lookups.library others) p).Along (Untouched (Lookups.library others) p key data)
        (.fresh key data, n) ls ↔
      (machine (Lookups.library others) p).Along (Held key data) (.fresh key data, n) ls := by
  have hkept : ∀ s l, s.1 = .fresh key data →
      (((machine (Lookups.library others) p).next s l).1 = .fresh key data ↔
        Held key data s l) := by
    rintro ⟨_, n⟩ l rfl
    rw [next_machine]
    exact written_iff l
  refine Machine.along_iff_of_inv (I := fun s => s.1 = .fresh key data) (fun s l hs => ?_)
    (fun s l hs hl => (hkept s l hs).2 hl) ls rfl
  constructor
  · exact fun h => (hkept s l hs).1 h.kept
  · refine fun h => ⟨?_, (hkept s l hs).2 h⟩
    rw [← hs]

/-- A database with one entry. -/
def oneEntry (key data : Bytes) : Db where
  cmp := mdbCmpMemn
  dcmp := mdbCmpMemn
  dupSort := false
  nodes := [⟨key, .single data⟩]
  cmp_isTotalPreorder := mdbCmpMemn_isTotalPreorder
  dcmp_isTotalPreorder := mdbCmpMemn_isTotalPreorder
  ascending := List.pairwise_singleton _ _
  ordered node hnode := by
    rw [List.mem_singleton.1 hnode]
    trivial

/-- After `setRange`, `set` with the same object finds another key, on both platforms. -/
theorem not_untouched_setRange :
    let key : Bytes := ⟨[1], by decide⟩
    let native : Lookups :=
      { dbs _ := oneEntry ⟨[2], by decide⟩ .empty, slot _ := 2, errors _ := 0 }
    let lib := Lookups.library { answer _ n := ({}, n), mdbStrerror _ := "Error" }
    ¬(machine lib .jvm).Along (Untouched lib .jvm key .empty) (.fresh key .empty, native)
        [.setRange { ptr := 1 }, .set { ptr := 1 }] ∧
      ¬(machine lib .native).Along (Untouched lib .native key .empty) (.fresh key .empty, native)
        [.setRange { ptr := 1 }, .set { ptr := 1 }] :=
  ⟨fun h => absurd h.2.1.same (by decide), fun h => absurd h.2.1.same (by decide)⟩

end Lookup

end KotlinLmdb
