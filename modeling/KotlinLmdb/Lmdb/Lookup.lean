import KotlinLmdb.Native
import KotlinLmdb.Order.Sorted

/-!
# Lookups

LMDB, as far as looking up entries goes: databases of nodes in the order of their keys,
each with a data item or a sorted set of duplicates, and what the lookups
(`mdb_cursor_set`) find in them. A lookup is given pointers to `MDB_val` structures, and
may leave the entry found in those it was given as arguments; a `Reply` has what they
hold afterwards.

Any request may come to an error, and changes nothing then.
-/

namespace KotlinLmdb

/-- The data of a node. -/
inductive Items
  | single (data : Bytes)
  /-- Duplicates, in a sub-page or a sub-database (`F_DUPDATA`). -/
  | dups (items : List Bytes)
  deriving DecidableEq

/-- A leaf node. -/
structure Node where
  key : Bytes
  items : Items
  deriving DecidableEq

/-- The duplicates are in ascending order. -/
def Items.Ordered (dcmp : Bytes → Bytes → Int32) : Items → Prop
  | single _ => True
  | dups items => Ascending dcmp id items

/-- A database: its comparers, and its nodes in order. -/
structure Db where
  cmp : Bytes → Bytes → Int32
  dcmp : Bytes → Bytes → Int32
  /-- It was opened with `MDB_DUPSORT`. -/
  dupSort : Bool
  nodes : List Node
  cmp_isTotalPreorder : IsTotalPreorder cmp
  dcmp_isTotalPreorder : IsTotalPreorder dcmp
  ascending : Ascending cmp Node.key nodes
  ordered : ∀ node ∈ nodes, node.items.Ordered dcmp

/-- Positioning a cursor at a key: at the node with that key, or else, if it need not be
    exact, at the next one. -/
def position {β : Type} (cmp : Bytes → Bytes → Int32) (key : β → Bytes) (exact : Bool) (x : Bytes)
    (l : List β) : Except Int β :=
  if x.toList = [] then .error mdbBadValsize
  else match seek cmp key exact x l with
    | some b => .ok b
    | none => .error mdbNotfound

section position

variable {β : Type} {cmp : Bytes → Bytes → Int32} {key : β → Bytes} {exact : Bool} {x : Bytes}
  {l : List β} {b : β}

theorem position_eq_ok :
    position cmp key exact x l = .ok b ↔ x.toList ≠ [] ∧ seek cmp key exact x l = some b := by
  rw [position]
  split
  · simp [*]
  · split <;> simp [*]

/-- A position has the key it is sought by exactly if there is none such, or the key is
    there. -/
theorem position_key_iff (exact : Bool) (x : Bytes) (hcmp : IsTotalPreorder cmp)
    (hl : Ascending cmp key l) :
    (∀ b, position cmp key exact x l = .ok b → key b = x) ↔
      x.toList = [] ∨ (∃ b ∈ l, key b = x) ∨ ∀ b ∈ l, ¬Matches exact (cmp x (key b)) := by
  rw [← seek_key_iff hcmp hl, or_iff_not_imp_left]
  constructor
  · exact fun h hx b hb => h b (position_eq_ok.2 ⟨hx, hb⟩)
  · exact fun h b hb => h (position_eq_ok.1 hb).1 b (position_eq_ok.1 hb).2

end position

namespace Db

variable (db : Db)

/-- Reading the data of the node found: the first duplicate, or for `MDB_GET_BOTH` and
    `MDB_GET_BOTH_RANGE` the one that matches `data`. -/
def readItem (items : Items) (data : Val) (op : MdbCursorOp) : Except Int Val :=
  if op = .mdbGetBoth ∨ op = .mdbGetBothRange then
    let exact := decide (op = .mdbGetBoth)
    match items with
    | .single olddata =>
      if Matches exact (db.dcmp data.bytes olddata) then .ok olddata.toVal else .error mdbNotfound
    | .dups items => (position db.dcmp id exact data.bytes items).map Bytes.toVal
  else match items with
    | .single data => .ok data.toVal
    | .dups items => .ok (items.headD .empty).toVal

/-- `mdb_cursor_set`. The key is written for `MDB_SET_KEY` and `MDB_SET_RANGE`, the data
    always. -/
def cursorSet (key data : Val) (op : MdbCursorOp) : Reply :=
  match position db.cmp Node.key (op ≠ .mdbSetRange) key.bytes db.nodes with
  | .error rc => { rc, key, data }
  | .ok node => match db.readItem node.items data op with
    | .error rc => { rc, key, data }
    | .ok found =>
      { key := if op = .mdbSetKey ∨ op = .mdbSetRange then node.key.toVal else key, data := found }

/-- `mdb_cursor_get`, for the operations that look up a key. -/
def cursorGet (key data : Val) (op : MdbCursorOp) : Reply :=
  if (op = .mdbGetBoth ∨ op = .mdbGetBothRange) ∧ ¬db.dupSort then
    { rc := mdbIncompatible, key, data }
  else db.cursorSet key data op

/-! ## What is written back -/

/-- The key leads to no other one: it is in the database, or no key matches. -/
def KeyHeld (exact : Bool) (key : Bytes) : Prop :=
  key.toList = [] ∨ (∃ node ∈ db.nodes, node.key = key) ∨
    ∀ node ∈ db.nodes, ¬Matches exact (db.cmp key node.key)

/-- The data item leads to no other one among those of a node. -/
def ItemHeld (exact : Bool) (data : Bytes) : Items → Prop
  | .single olddata => olddata = data ∨ ¬Matches exact (db.dcmp data olddata)
  | .dups items =>
    data.toList = [] ∨ data ∈ items ∨ ∀ item ∈ items, ¬Matches exact (db.dcmp data item)

/-- The data item leads to no other one among those of the key. -/
def PairHeld (exact : Bool) (key data : Bytes) : Prop :=
  key.toList = [] ∨
    ∀ node ∈ db.nodes, db.cmp key node.key = 0 → db.ItemHeld exact data node.items

variable {db} {key data : Bytes} {op : MdbCursorOp}

theorem readItem_ok (hop : ¬(op = .mdbGetBoth ∨ op = .mdbGetBothRange)) (items : Items)
    (data : Val) :
    ∃ found, db.readItem items data op = .ok found := by
  cases items <;> simp only [readItem, if_neg hop] <;> exact ⟨_, rfl⟩

/-- The item found for a data item is the item itself if it leads to no other one. -/
theorem readItem_iff {exact : Bool} (hop : op = if exact then .mdbGetBoth else .mdbGetBothRange)
    {items : Items} (hitems : items.Ordered db.dcmp) :
    (∀ found, db.readItem items data.toVal op = .ok found → found = data.toVal) ↔
      db.ItemHeld exact data items := by
  have hboth : op = .mdbGetBoth ∨ op = .mdbGetBothRange := by
    cases exact
    · exact .inr hop
    · exact .inl hop
  have hexact : decide (op = .mdbGetBoth) = exact := by
    subst hop
    cases exact <;> rfl
  have htoVal : ∀ a : Bytes, a.toVal = data.toVal ↔ a = data := fun a => by simp [Bytes.toVal]
  cases items with
  | single olddata =>
    simp only [readItem, if_pos hboth, hexact, ItemHeld, Bytes.bytes_toVal]
    split
    · rename_i hmatches
      simp [htoVal, hmatches]
    · rename_i hmatches
      simp [hmatches]
  | dups items =>
    have hposition := position_key_iff exact data db.dcmp_isTotalPreorder hitems
    simp only [id_eq, exists_eq_right] at hposition
    simp only [readItem, if_pos hboth, hexact, ItemHeld, Bytes.bytes_toVal]
    rw [← hposition]
    cases position db.dcmp id exact data items <;> simp [htoVal]

/-- The key is written if it was to be set. -/
theorem cursorSet_key_iff (exact : Bool) (hop : op = if exact then .mdbSetKey else .mdbSetRange)
    (data : Val) :
    (db.cursorSet key.toVal data op).key = key.toVal ↔ db.KeyHeld exact key := by
  have hboth : ¬(op = .mdbGetBoth ∨ op = .mdbGetBothRange) := by
    subst hop
    cases exact <;> decide
  have hset : op = .mdbSetKey ∨ op = .mdbSetRange := by
    subst hop
    cases exact <;> decide
  have hexact : decide (op ≠ .mdbSetRange) = exact := by
    subst hop
    cases exact <;> rfl
  rw [KeyHeld, ← position_key_iff exact key db.cmp_isTotalPreorder db.ascending]
  simp only [cursorSet, hexact, Bytes.bytes_toVal]
  cases position db.cmp Node.key exact key db.nodes with
  | error rc => simp
  | ok node =>
    obtain ⟨found, hfound⟩ := db.readItem_ok hboth node.items data
    simp [hfound, hset, Bytes.toVal]

/-- Otherwise it is not. -/
theorem cursorSet_key (hop : ¬(op = .mdbSetKey ∨ op = .mdbSetRange)) (key data : Val) :
    (db.cursorSet key data op).key = key := by
  simp only [cursorSet, if_neg hop]
  split
  · rfl
  · split <;> rfl

/-- The data item is written if both were given. -/
theorem cursorSet_data_iff {exact : Bool}
    (hop : op = if exact then .mdbGetBoth else .mdbGetBothRange) :
    (db.cursorSet key.toVal data.toVal op).data = data.toVal ↔ db.PairHeld exact key data := by
  have hexact : decide (op ≠ .mdbSetRange) = true := by
    subst hop
    cases exact <;> rfl
  simp only [cursorSet, hexact, Bytes.bytes_toVal]
  cases hposition : position db.cmp Node.key true key db.nodes with
  | error rc =>
    refine iff_of_true rfl (or_iff_not_imp_left.2 fun hkey node hnode heq => ?_)
    -- the key would have been found
    have hnone : seek db.cmp Node.key true key db.nodes = none := by
      refine Option.eq_none_iff_forall_ne_some.2 fun b hb => ?_
      rw [position_eq_ok.2 ⟨hkey, hb⟩] at hposition
      cases hposition
    exact absurd heq ((seek_eq_none db.cmp_isTotalPreorder db.ascending).1 hnone node hnode)
  | ok node =>
    obtain ⟨hkey, hseek⟩ := position_eq_ok.1 hposition
    obtain ⟨hmem, heq⟩ := seek_spec hseek
    have hitems : db.PairHeld exact key data ↔ db.ItemHeld exact data node.items := by
      refine ⟨fun h => h.resolve_left hkey node hmem heq, fun h => .inr fun node' hmem' heq' => ?_⟩
      rwa [db.ascending.unique db.cmp_isTotalPreorder hmem' hmem heq' heq]
    rw [hitems, ← readItem_iff hop (db.ordered node hmem)]
    dsimp only
    cases db.readItem node.items data.toVal op <;> simp

end Db

/-- The databases lookups are made in. -/
structure Lookups where
  /-- The database in each slot. -/
  dbs : Ptr → Db
  /-- The slot each cursor was opened on. -/
  slot : Ptr → Ptr
  /-- The errors requests come to, one after the other; `0` for none. -/
  errors : ℕ → Int
  /-- The requests made so far. -/
  served : ℕ := 0

namespace Lookups

variable (s : Lookups)

/-- The next request comes to an error. -/
def Fails : Prop := s.errors s.served ≠ 0

instance : Decidable s.Fails := inferInstanceAs (Decidable (_ ≠ _))

/-- The database a cursor was opened on. -/
def cursorDb (c : Ptr) : Db := s.dbs (s.slot c)

/-- A request, which leaves the structures as they are if it fails. -/
def request (key data : Val) (r : Reply) : Reply × Lookups :=
  (if s.Fails then { rc := s.errors s.served, key, data } else r, { s with served := s.served + 1 })

/-- The operation a number stands for, if it looks up a key. -/
def lookupOf (op : UInt32) : Option MdbCursorOp :=
  [.mdbSet, .mdbSetKey, .mdbSetRange, .mdbGetBoth, .mdbGetBothRange].find? (·.value = op)

/-- LMDB with its lookups, and whatever other calls come to. -/
def library (others : Library Lookups) : Library Lookups where
  answer call s :=
    match call with
    | .mdbGet _ dbi key => s.request key .output ((s.dbs dbi).cursorSet key .output .mdbSet)
    | .mdbCursorGet c key data op => match lookupOf op with
      | some op => s.request key data ((s.cursorDb c).cursorGet key data op)
      | none => others.answer call s
    | _ => others.answer call s
  mdbStrerror := others.mdbStrerror

variable {s} (others : Library Lookups)

@[simp]
theorem reply_mdbGet (txn dbi : Ptr) (key : Val) :
    (library others).reply (.mdbGet txn dbi key) s =
      (s.request key .output ((s.dbs dbi).cursorSet key .output .mdbSet)).1 := rfl

/-- A cursor looks up as its operation says. -/
theorem reply_mdbCursorGet {op : UInt32} {o : MdbCursorOp} (ho : lookupOf op = some o) (c : Ptr)
    (key data : Val) :
    (library others).reply (.mdbCursorGet c key data op) s =
      (s.request key data ((s.cursorDb c).cursorGet key data o)).1 := by
  simp only [Handler.reply, library, ho]

/-- A request that fails leaves the structures as they are. -/
theorem request_of_fails (hs : s.Fails) (key data : Val) (r : Reply) :
    (s.request key data r).1 = { rc := s.errors s.served, key, data } := if_pos hs

theorem request_of_not_fails (hs : ¬s.Fails) (key data : Val) (r : Reply) :
    (s.request key data r).1 = r := if_neg hs

end Lookups

end KotlinLmdb
