import KotlinLmdb.Native
import KotlinLmdb.Order.Sorted
import Mathlib.Data.List.Perm.Subperm
import Mathlib.Data.Stream.Init
import Mathlib.Logic.Function.Basic

/-!
# Duplicates of a fixed size

LMDB, as far as putting data items into a database opened with `MDB_DUPSORT` and
`MDB_DUPFIXED` goes, one at a time or several with `MDB_MULTIPLE`. There is room for what
is put, on pages of 4096 bytes or more.

A single item of a key is in its node, of any size; several are in pages whose entries
all have the size of the page (`mp_pad`). An item is looked up by its own size, but
written with that of the page, from wherever its structure points to.

For `MDB_MULTIPLE`, LMDB reads the number of items where a second `MDB_val` would be
(`data[1].mv_size`), and takes each item to follow the one before it. It writes there,
too: zero before anything else, then the number of items put so far. So a put depends on
the memory behind what it is given, and the data itself may be where it writes (`Around`).
The other arguments of the put are not there.
-/

namespace KotlinLmdb

open Stream'

/-- The `n` bytes at an address. -/
def Bytes.read (m : Stream' Int8) (n : ℕ) : Bytes := ⟨m.take (min n 2147483647), by simp⟩

theorem Bytes.length_read (m : Stream' Int8) {n : ℕ} (hn : n ≤ 511) :
    (read m n).toList.length = n := by
  rw [read, length_take]
  omega

theorem Bytes.getElem?_read (m : Stream' Int8) {n k : ℕ} (hn : n ≤ 511) (hk : k < n) :
    (read m n).toList[k]? = some (m.get k) :=
  getElem?_take (lt_min hk (hk.trans_le (hn.trans (by decide))))

/-- What is read of an array is the array. -/
@[simp]
theorem Bytes.read_append (a : Bytes) (m : Stream' Int8) :
    read (a.toList ++ₛ m) a.toList.length = a := by
  rw [← toList_inj]
  simp only [read, min_eq_left a.size_le]
  exact (take_append_of_le_length _ a.toList m le_rfl).trans List.take_length

/-- The bytes of an array are those read. -/
theorem Bytes.read_eq_iff {a : Bytes} {m : Stream' Int8} :
    read m a.toList.length = a ↔ ∀ k, ∀ hk : k < a.toList.length, m.get k = a.toList[k] := by
  rw [← toList_inj]
  simp only [read, min_eq_left a.size_le]
  constructor
  · intro h k hk
    have hget : (m.take a.toList.length)[k]? = a.toList[k]? := by rw [h]
    rw [getElem?_take hk, List.getElem?_eq_getElem hk] at hget
    exact Option.some.inj hget
  · intro h
    refine List.ext_getElem (length_take _ _) fun k hk hk' => ?_
    rw [take_get, h k hk']

/-- There are more than two arrays of each size. -/
theorem Bytes.exists_not_mem {n : ℕ} (hn : 0 < n) (h511 : n ≤ 511) {l : List Bytes}
    (hl : l.length ≤ 2) : ∃ x : Bytes, x.toList.length = n ∧ x ∉ l := by
  have hlt : n ≤ 2147483647 := h511.trans (by decide)
  let x (b : Int8) : Bytes := ⟨List.replicate n b, List.length_replicate.trans_le hlt⟩
  have hinj : Function.Injective x := fun b c h => by
    have hbc : List.replicate n b = List.replicate n c := congrArg toList h
    exact List.replicate_right_injective hn.ne' hbc
  have hnodup : ([0, 1, 2].map x).Nodup := (by decide : [(0 : Int8), 1, 2].Nodup).map hinj
  by_contra hall
  -- otherwise three of them would be there
  have hsub : [0, 1, 2].map x ⊆ l := fun y hy => by
    obtain ⟨b, -, rfl⟩ := List.mem_map.1 hy
    by_contra hy
    exact hall ⟨x b, List.length_replicate, hy⟩
  have hle := (hnodup.subperm hsub).length_le
  rw [List.length_map] at hle
  exact absurd (hle.trans hl) (by decide)

/-- An order of data items. It need not tell all of them apart. -/
structure ItemOrder where
  cmp : Bytes → Bytes → Int32
  isTotalPreorder : IsTotalPreorder cmp

/-- The data of a key. -/
inductive Fixed
  | single (data : Bytes)
  /-- Items in a page, or pages (`P_LEAF2`), with their size (`mp_pad`). -/
  | many (pad : ℕ) (items : List Bytes)
  deriving DecidableEq

/-- What is in memory around the arguments of a put. -/
structure Around where
  /-- What is behind the structure of the data (`data[1].mv_size`), as far as the data itself
      is not there. -/
  next : UInt64 := 0
  /-- By how many bytes the data begins behind that: if by fewer than `8`, some of it is
      there. -/
  gap : ℕ := 8
  /-- The bytes behind the data, when an item is put: by the number of the item. -/
  beyond : ℕ → Stream' Int8 := fun _ => const 0
  /-- The bytes in the page buffer (`me_pbuf`), behind an item copied to it. -/
  buffer : Stream' Int8 := const 0
  /-- What an item larger than those of its sub-page comes to if there is no room for it, as
      the sub-page is split then: by the number of the item. -/
  torn : ℕ → Option (Int × List Bytes) := fun _ => none

/-! ## Memory -/

/-- The bytes of a `size_t` in memory, the lowest one first. -/
def sizeByte (n k : ℕ) : Int8 := .ofNat (n / 256 ^ k)

/-- The bytes LMDB writes over are zeros already. -/
def Bytes.Blank (a : Bytes) : Prop := ∀ b ∈ a.toList.take 8, b = 0

instance (a : Bytes) : Decidable a.Blank := inferInstanceAs (Decidable (∀ b ∈ _, b = 0))

namespace Around

variable (around : Around)

/-- The number of items LMDB finds (`dcount`, an `unsigned int`). -/
def count (data : Bytes) : ℕ :=
  let byte (k : ℕ) : ℕ :=
    (if k < around.gap then sizeByte around.next.toNat k
      else data.toList.getD (k - around.gap) (sizeByte around.next.toNat k)).toUInt8.toNat
  byte 0 + 256 * (byte 1 + 256 * (byte 2 + 256 * byte 3))

/-- The memory from where the data begins, when an item is put and `data[1].mv_size` has been
    written. -/
def memory (data : Bytes) (i written : ℕ) : Stream' Int8 := fun k =>
  if around.gap + k < 8 then sizeByte written (around.gap + k)
  else (data.toList ++ₛ around.beyond i).get k

variable {around} {data : Bytes} {i : ℕ}

theorem sizeByte_eq_zero {n k : ℕ} (h : n < 256 ^ k) : sizeByte n k = 0 := by
  rw [sizeByte, Nat.div_eq_of_lt h]
  rfl

/-- What is zeros where LMDB writes is not changed. -/
theorem read_memory_of_blank (h : data.Blank) :
    Bytes.read (around.memory data i 0) data.toList.length = data := by
  refine Bytes.read_eq_iff.2 fun k hk => ?_
  have hget : (data.toList ++ₛ around.beyond i).get k = data.toList[k] :=
    Bytes.read_eq_iff.1 (Bytes.read_append data (around.beyond i)) k hk
  change ite .. = _
  split
  · rename_i hlt
    have hmem : data.toList[k] ∈ data.toList.take 8 :=
      List.mem_take_iff_getElem.2 ⟨k, by omega, rfl⟩
    rw [h _ hmem]
    exact sizeByte_eq_zero (Nat.pow_pos (by decide))
  · exact hget

/-- If the data is right behind its structure, what is not is. -/
theorem blank_of_read_memory (hgap : around.gap = 0)
    (h : Bytes.read (around.memory data i 0) data.toList.length = data) : data.Blank := by
  intro b hb
  obtain ⟨k, hk, rfl⟩ := List.mem_take_iff_getElem.1 hb
  rw [← Bytes.read_eq_iff.1 h k (by omega)]
  refine (if_pos (by omega)).trans ?_
  exact sizeByte_eq_zero (Nat.pow_pos (by decide))

/-- There are only zeros behind the data, then, if nothing else is there. -/
theorem drop_memory (hgap : around.gap = 0) (hbeyond : around.beyond = fun _ => const 0)
    (hi : 0 < i) (hdata : 0 < data.toList.length) :
    (around.memory data i i).drop (i * data.toList.length) = const 0 := by
  funext k
  have hle : i ≤ i * data.toList.length := Nat.le_mul_of_pos_right i hdata
  have hle' : data.toList.length ≤ i * data.toList.length := Nat.le_mul_of_pos_left _ hi
  change ((around.memory data i i).drop _).get k = 0
  rw [get_drop]
  change ite .. = _
  split
  · -- the number of an item has no such byte
    refine sizeByte_eq_zero ((Nat.lt_pow_self (by decide : 1 < 256)).trans_le ?_)
    exact Nat.pow_le_pow_right (by decide) (by omega)
  · obtain ⟨m, hm⟩ := Nat.exists_eq_add_of_le (hle'.trans (Nat.le_add_right _ k))
    rw [hm, get_append_right, hbeyond]
    rfl

end Around

/-- Zeros are blank. -/
theorem Bytes.blank_read_const {n : ℕ} : (read (const 0) n).Blank := by
  intro b hb
  obtain ⟨k, hk, rfl⟩ := List.mem_take_iff_getElem.1 hb
  simp only [read, take_get]
  rfl

/-! ## Puts -/

/-- What putting a data item comes to. -/
structure PutItem where
  rc : Int := 0
  found : Option Fixed
  /-- It was written over an item of its size, and no more are put. -/
  done : Bool := false

/-- A request to put several data items, with one of them put. -/
structure Request extends PutItem where
  /-- The number of the item, which the structure of the data points to. -/
  item : ℕ
  /-- What was written behind the structure: how many succeeded (`mcount`). -/
  written : ℕ

namespace Fixed

/-- The items of a key, in order. -/
def items : Option Fixed → List Bytes
  | none => []
  | some (single data) => [data]
  | some (many _ items) => items

variable (o : ItemOrder) (around : Around)

/-- An item written over the one comparing equal to it. -/
def overwrite (x : Bytes) (items : List Bytes) : List Bytes :=
  items.map fun y => if o.cmp x y = 0 then x else y

/-- Putting an item among those of a page (`_mdb_cursor_put` on the sub-cursor). -/
def subPut (torn : Option (Int × List Bytes)) (pad : ℕ) (items : List Bytes) (size : ℕ)
    (data : Stream' Int8) : Int × List Bytes :=
  let x := Bytes.read data size
  if size = 0 then (mdbBadValsize, items)
  else if (seek o.cmp id true x items).isSome then
    if size ≠ pad then (mdbBadValsize, items) else (0, overwrite o x items)
  else
    let added := (0, place o.cmp id x (Bytes.read data pad) items)
    if pad < size then torn.getD added else added

/-- Putting an item under a key (`_mdb_cursor_put`), the number `i` of a request. -/
def put (i : ℕ) (old : Option Fixed) (size : ℕ) (data : Stream' Int8) : PutItem :=
  match old with
  | none => { found := some (single (Bytes.read data size)) }
  | some (single old) =>
    if o.cmp (Bytes.read data size) old = 0 then
      { found := some (single (Bytes.read data size)), done := old.toList.length = size }
    else
      -- a page for items of the new size, with the old one first
      let dkey := if old.toList = [] then [] else [Bytes.read (old.toList ++ₛ around.buffer) size]
      let r := subPut o (around.torn i) size dkey size data
      { rc := r.1, found := some (many size r.2) }
  | some (many pad items) =>
    let r := subPut o (around.torn i) pad items size data
    { rc := r.1, found := some (many pad r.2) }

/-- Putting the item `i` of a request, after as many as were `written`. -/
def putItem (data : Bytes) (i : ℕ) (old : Option Fixed) (written : ℕ) : Request :=
  let size := data.toList.length
  let r := put o around i old size ((around.memory data i written).drop (i * size))
  { r with item := i, written := if r.rc = 0 ∧ r.done = false then written + 1 else written }

/-- Putting `k` more items, each behind the one before. -/
def more (data : Bytes) : ℕ → Request → Request
  | 0, r => r
  | k + 1, r =>
    if r.rc ≠ 0 ∨ r.done then r
    else more data k (putItem o around data (r.item + 1) r.found r.written)

/-- Putting items with `MDB_MULTIPLE`. -/
def putMultiple (old : Option Fixed) (data : Bytes) : Request :=
  more o around data (around.count data - 1) (putItem o around data 0 old 0)

end Fixed

/-- A database with `MDB_DUPSORT` and `MDB_DUPFIXED`, with a cursor on it. Its keys are told
    apart by their bytes. -/
structure FixedDb where
  order : ItemOrder
  content : Bytes → Option Fixed
  /-- The error for puts in a transaction that does not write, or `0`. -/
  refusal : Int := 0
  /-- The memory around each request. -/
  around : ℕ → Around
  /-- The requests made so far. -/
  served : ℕ := 0

namespace FixedDb

variable (s : FixedDb)

/-- The items under each key. -/
def items (key : Bytes) : List Bytes := Fixed.items (s.content key)

/-- The error a put is refused with, or `0`. -/
def putError (key data : Bytes) : Int :=
  if s.refusal ≠ 0 then s.refusal
  else if key.toList = [] ∨ 511 < key.toList.length then mdbBadValsize
  else if 511 < data.toList.length then mdbBadValsize
  else 0

/-- What a put with `MDB_MULTIPLE` comes to that is not refused. -/
def putMultiple (key data : Bytes) : Request :=
  Fixed.putMultiple s.order (s.around s.served) (s.content key) data

/-- What a put comes to that is not refused, with `MDB_MULTIPLE` or without flags. -/
def putItems (multiple : Bool) (key data : Bytes) : PutItem :=
  if multiple then (s.putMultiple key data).toPutItem
  else
    Fixed.put s.order (s.around s.served) 0 (s.content key) data.toList.length
      (data.toList ++ₛ (s.around s.served).beyond 0)

/-- What the structure of the data comes to: with `MDB_MULTIPLE`, `data[1].mv_size` is written
    before the put is checked. -/
def dataOf (multiple : Bool) (key data : Bytes) : Bytes :=
  let read (i written : ℕ) :=
    Bytes.read (((s.around s.served).memory data i written).drop (i * data.toList.length))
      data.toList.length
  if multiple then
    if s.putError key data ≠ 0 then read 0 0
    else
      let r := s.putMultiple key data
      read r.item r.written
  else data

/-- `mdb_cursor_put`, with `MDB_MULTIPLE` or without flags. -/
def put (multiple : Bool) (key data : Val) : Reply × FixedDb :=
  let error := s.putError key.bytes data.bytes
  let found := (s.dataOf multiple key.bytes data.bytes).toVal
  if error ≠ 0 then ({ rc := error, key, data := found }, { s with served := s.served + 1 })
  else
    let r := s.putItems multiple key.bytes data.bytes
    ({ rc := r.rc, key, data := found },
      { s with content := Function.update s.content key.bytes r.found, served := s.served + 1 })

/-- `MDB_MULTIPLE`. -/
abbrev mdbMultiple : UInt32 := 0x80000

/-- LMDB with these puts, and whatever other calls come to. -/
def library (others : Library FixedDb) : Library FixedDb where
  answer call s :=
    match call with
    | .mdbCursorPut _ key data flags =>
      if flags = 0 then s.put false key data
      else if flags = mdbMultiple then s.put true key data
      else others.answer call s
    | _ => others.answer call s
  mdbStrerror := others.mdbStrerror

end FixedDb

/-! ## Single puts -/

namespace Fixed

variable {o : ItemOrder} {around : Around} {torn : Option (Int × List Bytes)} {pad size i : ℕ}
  {old : Option Fixed} {data : Stream' Int8} {x y : Bytes}

section insert

variable {items : List Bytes}

/-- Nothing is found if nothing compares equal. -/
theorem seek_of_unmatched (hx : ∀ b ∈ items, o.cmp x b ≠ 0) : seek o.cmp id true x items = none :=
  Option.eq_none_iff_forall_ne_some.2 fun b hb => hx b (seek_spec hb).1 (seek_spec hb).2

/-- What compares equal is found. -/
theorem isSome_seek_iff (hitems : Ascending o.cmp id items) :
    (seek o.cmp id true x items).isSome ↔ ∃ b ∈ items, o.cmp x b = 0 := by
  rw [← Option.ne_none_iff_isSome, ne_eq, seek_eq_none o.isTotalPreorder hitems]
  simp [Matches]

/-- The items of a page with another one of their size: in its place, or over the one
    comparing equal to it. -/
def insert (o : ItemOrder) (x : Bytes) (items : List Bytes) : List Bytes :=
  if (seek o.cmp id true x items).isSome then overwrite o x items else place o.cmp id x x items

theorem mem_insert_self : x ∈ insert o x items := by
  rw [insert]
  split
  · rename_i hfound
    obtain ⟨b, hb⟩ := Option.isSome_iff_exists.1 hfound
    obtain ⟨hmem, hmatches⟩ := seek_spec hb
    exact List.mem_map.2 ⟨b, hmem, if_pos hmatches⟩
  · exact mem_place.2 (.inl rfl)

theorem mem_of_mem_insert (h : y ∈ insert o x items) : y = x ∨ y ∈ items := by
  rw [insert] at h
  split at h
  · obtain ⟨b, hb, rfl⟩ := List.mem_map.1 h
    split
    · exact .inl rfl
    · exact .inr hb
  · exact mem_place.1 h

/-- Only what compares equal is written over. -/
theorem mem_insert_of_mem (hy : y ∈ items) (hne : o.cmp x y = 0 → y = x) :
    y ∈ insert o x items := by
  by_cases h0 : o.cmp x y = 0
  · exact hne h0 ▸ mem_insert_self
  · rw [insert]
    split
    · exact List.mem_map.2 ⟨y, hy, if_neg h0⟩
    · exact mem_place.2 (.inr hy)

/-- And that is gone. -/
theorem eq_of_mem_insert (hitems : Ascending o.cmp id items) (hmem : y ∈ items)
    (hy : y ∈ insert o x items) (h0 : o.cmp x y = 0) : y = x := by
  rw [insert, if_pos ((isSome_seek_iff hitems).2 ⟨y, hmem, h0⟩)] at hy
  obtain ⟨b, -, hb⟩ := List.mem_map.1 hy
  split at hb
  · exact hb.symm
  · rename_i hb0
    exact absurd (hb ▸ h0) hb0

theorem length_insert_le : (insert o x items).length ≤ items.length + 1 := by
  rw [insert]
  split
  · exact (List.length_map _).trans_le (Nat.le_succ _)
  · exact length_place.le

theorem le_length_insert : items.length ≤ (insert o x items).length := by
  rw [insert]
  split
  · exact (List.length_map _).ge
  · exact (Nat.le_succ _).trans length_place.ge

theorem length_insert_of_unmatched (hx : ∀ b ∈ items, o.cmp x b ≠ 0) :
    (insert o x items).length = items.length + 1 := by
  rw [insert, seek_of_unmatched hx]
  exact length_place

/-- An item that is there is written over itself. -/
theorem insert_of_mem (hitems : Ascending o.cmp id items) (hx : x ∈ items) :
    insert o x items = items := by
  have hfound : (seek o.cmp id true x items).isSome :=
    (isSome_seek_iff hitems).2 ⟨x, hx, o.isTotalPreorder.refl x⟩
  rw [insert, if_pos hfound]
  refine (List.map_congr_left fun y hy => ?_).trans (List.map_id items)
  split
  · rename_i h0
    exact hitems.unique o.isTotalPreorder hx hy (o.isTotalPreorder.refl x) h0
  · rfl

theorem ascending_overwrite (hitems : Ascending o.cmp id items) :
    Ascending o.cmp id (overwrite o x items) := by
  have hle : ∀ y, o.cmp x y = 0 → (o.cmp y x).toInt ≤ 0 := by
    intro y h0
    by_contra hlt
    have := (o.isTotalPreorder.neg_iff x y).2 (not_le.1 hlt)
    rw [h0] at this
    exact absurd this (by decide)
  refine List.pairwise_map.2 (hitems.imp fun {y z} hlt => ?_)
  dsimp only [id] at hlt ⊢
  split
  · rename_i hy
    have hxz : (o.cmp x z).toInt < 0 :=
      o.isTotalPreorder.lt_of_le_of_lt (by rw [hy]; decide) hlt
    split
    · rename_i hz
      rw [hz] at hxz
      exact absurd hxz (by decide)
    · exact hxz
  · split
    · rename_i hz
      rw [o.isTotalPreorder.neg_iff]
      -- it comes before the one written over
      have hzy := (o.isTotalPreorder.neg_iff y z).1 hlt
      by_contra hxy
      exact absurd (o.isTotalPreorder.trans z x y (hle z hz) (not_lt.1 hxy)) (not_le.2 hzy)
    · exact hlt

theorem ascending_insert (hitems : Ascending o.cmp id items) :
    Ascending o.cmp id (insert o x items) := by
  rw [insert]
  split
  · exact ascending_overwrite hitems
  · rename_i hnone
    rw [isSome_seek_iff hitems] at hnone
    exact ascending_place o.isTotalPreorder hitems fun y hy h => hnone ⟨y, hy, h⟩

end insert

section subPut

variable {items : List Bytes}

/-- An item of the size of a page is inserted. -/
theorem subPut_self (hsize : 0 < size) :
    subPut o torn size items size data = (0, insert o (Bytes.read data size) items) := by
  simp only [subPut, insert, hsize.ne', lt_irrefl, if_false, ne_eq, not_true_eq_false]
  split <;> rfl

/-- Any other one is refused if one compares equal. -/
theorem subPut_of_matched (hsize : 0 < size) (hne : size ≠ pad)
    (hfound : (seek o.cmp id true (Bytes.read data size) items).isSome) :
    subPut o torn pad items size data = (mdbBadValsize, items) := by
  simp only [subPut, hsize.ne', if_false, hfound, if_true, hne, ne_eq, not_false_eq_true]

/-- Otherwise it gets its place, cut to the size of the page. -/
theorem subPut_of_unmatched (hsize : 0 < size) (htorn : pad < size → torn = none)
    (hnone : ¬(seek o.cmp id true (Bytes.read data size) items).isSome) :
    subPut o torn pad items size data =
      (0, place o.cmp id (Bytes.read data size) (Bytes.read data pad) items) := by
  have hadded : ∀ added : Int × List Bytes,
      (if pad < size then torn.getD added else added) = added := by
    intro added
    split
    · rename_i hlt
      rw [htorn hlt, Option.getD_none]
    · rfl
  simp only [subPut, hsize.ne', if_false, hnone, hadded]
  rfl

/-- All items are of one size afterwards if they were before. -/
theorem length_of_mem_insert (hx : x.toList.length = size)
    (hitems : ∀ y ∈ items, y.toList.length = size) :
    ∀ y ∈ insert o x items, y.toList.length = size := by
  intro y hy
  rcases mem_of_mem_insert hy with rfl | hy
  · exact hx
  · exact hitems y hy

end subPut

/-- The number of items is not read for a single put. -/
theorem put_next (next : UInt64) :
    put o { around with next } i old size data = put o around i old size data := by
  match old with
  | none | some (single _) | some (many _ _) => rfl

/-- The items of a key are as LMDB keeps them. -/
def Sound (o : ItemOrder) : Fixed → Prop
  | single _ => True
  | many pad items =>
    pad ≤ 511 ∧ (∀ x ∈ items, x.toList.length = pad) ∧ Ascending o.cmp id items

/-- Items of this size can be put without losing any of them. -/
def Fits (size : ℕ) : Option Fixed → Prop
  | some (many pad items) => pad = size ∧ ∀ x ∈ items, x.toList.length = size
  | _ => True

/-- All items have this size. -/
def Wide (size : ℕ) (f : Option Fixed) : Prop := ∀ x ∈ items f, x.toList.length = size

/-- An item put where items of its size fit leaves items of its size only. -/
theorem fits_put (hsize : 0 < size) (h511 : size ≤ 511) (h : Fits size old) :
    Fits size (put o around i old size data).found ∧
      Wide size (put o around i old size data).found := by
  have hread := Bytes.length_read data h511
  match old with
  | none => exact ⟨trivial, by simp [Wide, items, put, hread]⟩
  | some (single old) =>
    simp only [put]
    split
    · exact ⟨trivial, by simp [Wide, items, hread]⟩
    · -- the old item is cut to the new size
      rw [subPut_self hsize]
      have hdkey : ∀ x ∈ if old.toList = [] then []
          else [Bytes.read (old.toList ++ₛ around.buffer) size], x.toList.length = size := by
        split <;> simp [Bytes.length_read _ h511]
      exact ⟨⟨rfl, length_of_mem_insert hread hdkey⟩, length_of_mem_insert hread hdkey⟩
  | some (many pad items) =>
    obtain ⟨rfl, hitems⟩ := h
    simp only [put, subPut_self hsize]
    exact ⟨⟨rfl, length_of_mem_insert hread hitems⟩, length_of_mem_insert hread hitems⟩

/-- An item put leaves other items than there were: it is not there, or never is, as it has
    another size than the others and compares equal to none. -/
def Misses (o : ItemOrder) (x : Bytes) : Option Fixed → Prop
  | none => False
  | some (single data) => data.toList.length = x.toList.length ∧ x ≠ data
  | some (many pad items) => if pad = x.toList.length then x ∉ items else ∀ b ∈ items, o.cmp x b ≠ 0

theorem items_put_of_misses (hsize : 0 < size) (htorn : around.torn i = none)
    (hread : (Bytes.read data size).toList.length = size)
    (hx : Misses o (Bytes.read data size) old) :
    (put o around i old size data).rc = 0 ∧
      items (put o around i old size data).found ≠ items old := by
  match old with
  | none => exact hx.elim
  | some (single old) =>
    obtain ⟨hlength, hne⟩ := hx
    obtain rfl : old.toList.length = size := hlength.trans hread
    have hold : old.toList ≠ [] := List.ne_nil_of_length_pos hsize
    simp only [put]
    split
    · exact ⟨rfl, fun h => hne (List.singleton_inj.1 h)⟩
    · rw [Bytes.read_append, subPut_self hsize]
      refine ⟨rfl, fun h => hne ?_⟩
      have hmem : Bytes.read data old.toList.length ∈
          insert o (Bytes.read data old.toList.length) [old] := mem_insert_self
      simp only [items] at h
      rw [h] at hmem
      exact List.mem_singleton.1 hmem
  | some (many pad items) =>
    rw [Misses, hread] at hx
    simp only [put]
    split at hx
    · rename_i hpad
      subst hpad
      rw [subPut_self hsize]
      refine ⟨rfl, fun h => hx ?_⟩
      have hmem : Bytes.read data pad ∈ insert o (Bytes.read data pad) items := mem_insert_self
      simp only [Fixed.items] at h
      rwa [h] at hmem
    · have hnone : ¬(seek o.cmp id true (Bytes.read data size) items).isSome := by
        rw [seek_of_unmatched hx]
        exact Bool.false_ne_true
      rw [subPut_of_unmatched hsize (fun _ => htorn) hnone]
      refine ⟨rfl, fun h => ?_⟩
      have hlength := congrArg List.length h
      simp only [Fixed.items, length_place] at hlength
      exact absurd hlength (Nat.succ_ne_self _)

/-! ## Several items -/

section more

variable {a : Bytes} {items : List Bytes} {r : Request} {written : ℕ}

/-- If no number is there, it is one item. -/
theorem count_zero (hgap : around.gap = 8) (hnext : around.next = 0) : around.count a = 0 := by
  simp only [Around.count, hgap, hnext]
  rfl

theorem count_two (hgap : around.gap = 8) (hnext : around.next = 2) : around.count a = 2 := by
  simp only [Around.count, hgap, hnext]
  rfl

/-- What is not where LMDB writes is not changed. -/
theorem memory_of_gap (hgap : around.gap = 8) :
    around.memory a i written = a.toList ++ₛ around.beyond i := by
  funext k
  rw [Around.memory, hgap]
  exact if_neg (by omega)

/-- A request for one item is one put. -/
theorem putMultiple_zero (hgap : around.gap = 8) (hnext : around.next = 0) :
    (putMultiple o around old a).toPutItem =
      put o around 0 old a.toList.length (a.toList ++ₛ around.beyond 0) := by
  rw [putMultiple, count_zero hgap hnext, more, putItem, memory_of_gap hgap, Nat.zero_mul]
  rfl

/-- A request for two items is two puts, if the first one does not end it. -/
theorem putMultiple_two (hgap : around.gap = 8) (hnext : around.next = 2)
    (hrc : (put o around 0 old a.toList.length (a.toList ++ₛ around.beyond 0)).rc = 0)
    (hdone : (put o around 0 old a.toList.length (a.toList ++ₛ around.beyond 0)).done = false) :
    (putMultiple o around old a).toPutItem =
      put o around 1 (put o around 0 old a.toList.length (a.toList ++ₛ around.beyond 0)).found
        a.toList.length (around.beyond 1) := by
  have hzero : (putItem o around a 0 old 0).toPutItem =
      put o around 0 old a.toList.length (a.toList ++ₛ around.beyond 0) := by
    rw [putItem, memory_of_gap hgap, Nat.zero_mul]
    rfl
  rw [putMultiple, count_two hgap hnext, more, if_neg, more]
  · rw [hzero, putItem, memory_of_gap hgap]
    change put o around 1 _ _ (Stream'.drop (1 * _) _) = _
    rw [Nat.one_mul, drop_append_stream]
    rfl
  · rw [hzero, hrc, hdone]
    simp

theorem more_of_done (h : r.done) (k : ℕ) : more o around a k r = r := by
  cases k with
  | zero => rfl
  | succ k => exact if_pos (.inr h)

/-- An item of its size put into a page. -/
theorem putItem_many (ha : 0 < a.toList.length) :
    putItem o around a i (some (many a.toList.length items)) written =
      { found := some (many a.toList.length (insert o (Bytes.read
          ((around.memory a i written).drop (i * a.toList.length)) a.toList.length) items)),
        item := i, written := written + 1 } := by
  simp only [putItem, put, subPut_self ha]
  rfl

/-- Where all items that are put are there, no put of them changes anything. -/
theorem found_more (ha : 0 < a.toList.length) (hitems : Ascending o.cmp id items)
    (hall : ∀ i, 0 < i →
      Bytes.read ((around.memory a i i).drop (i * a.toList.length)) a.toList.length ∈ items)
    (hr : r.found = some (many a.toList.length items)) (hwritten : r.written = r.item + 1) (k : ℕ) :
    (more o around a k r).found = some (many a.toList.length items) := by
  induction k generalizing r with
  | zero => exact hr
  | succ k ih =>
    rw [more]
    split
    · exact hr
    · rw [hr, hwritten, putItem_many ha, insert_of_mem hitems (hall _ (Nat.succ_pos _))]
      exact ih rfl rfl

/-- More items put into a page of their size take none away. -/
theorem length_more (ha : 0 < a.toList.length) (hrc : r.rc = 0)
    (hr : r.found = some (many a.toList.length items)) (k : ℕ) :
    (more o around a k r).rc = 0 ∧
      items.length ≤ (Fixed.items (more o around a k r).found).length := by
  induction k generalizing r items with
  | zero =>
    rw [more, hr]
    exact ⟨hrc, le_rfl⟩
  | succ k ih =>
    rw [more]
    split
    · rw [hr]
      exact ⟨hrc, le_rfl⟩
    · rw [hr, putItem_many ha]
      exact (ih rfl rfl).imp_right le_length_insert.trans

end more

/-- All items of a size are there. -/
def Full (size : ℕ) : Option Fixed → Prop
  | some (many pad items) => pad = size ∧ ∀ y : Bytes, y.toList.length = size → y ∈ items
  | _ => False

/-- An item is put over the only item of the key, or it is the only one of its size that is
    not among the others: it compares equal to none of them. -/
def Held (o : ItemOrder) (x : Bytes) : Option Fixed → Prop
  | none => False
  | some (single data) => data.toList.length = x.toList.length ∧ o.cmp x data = 0
  | some (many pad items) =>
    pad = x.toList.length ∧ (∀ b ∈ items, o.cmp x b = 0 → b = x) ∧
      ∀ y : Bytes, y.toList.length = pad → y = x ∨ y ∈ items

theorem Full.exists_items (h : Full size old) :
    ∃ items, old = some (many size items) ∧ ∀ y : Bytes, y.toList.length = size → y ∈ items := by
  match old with
  | some (many pad items) =>
    obtain ⟨rfl, hall⟩ := h
    exact ⟨items, rfl, hall⟩

theorem Held.cases (h : Held o x old) :
    (∃ data, old = some (single data) ∧ data.toList.length = x.toList.length ∧ o.cmp x data = 0) ∨
      ∃ items, old = some (many x.toList.length items) := by
  match old with
  | none => exact h.elim
  | some (single data) => exact .inl ⟨data, rfl, h⟩
  | some (many pad items) =>
    obtain ⟨rfl, -⟩ := h
    exact .inr ⟨items, rfl⟩

/-- All are there if this one is. -/
theorem Held.full {items : List Bytes} (h : Held o x (some (many x.toList.length items)))
    (hx : x ∈ items) : Full x.toList.length (some (many x.toList.length items)) :=
  ⟨rfl, fun y hy => (h.2.2 y hy).elim (fun heq => heq ▸ hx) id⟩

/-- Then there is nothing of its size to put after it. -/
theorem held_many_iff {items : List Bytes} (h : Sound o (many x.toList.length items)) :
    Held o x (some (many x.toList.length items)) ↔
      ∀ y : Bytes, y.toList.length = x.toList.length → y ∈ insert o x items := by
  obtain ⟨-, hlength, hitems⟩ := h
  constructor
  · rintro ⟨-, hfresh, hall⟩ y hy
    rcases hall y hy with rfl | hmem
    · exact mem_insert_self
    · exact mem_insert_of_mem hmem (hfresh y hmem)
  · intro hall
    exact ⟨rfl, fun b hb h0 => eq_of_mem_insert hitems hb (hall b (hlength b hb)) h0,
      fun y hy => mem_of_mem_insert (hall y hy)⟩

/-- Unless an item is held, memory behind it may have another one that its put does not
    leave in the database. -/
theorem exists_misses (hx : 0 < x.toList.length) (h511 : x.toList.length ≤ 511)
    (hold : ∀ f ∈ old, f.Sound o)
    (hapart : ∀ pad items, old = some (many pad items) → pad ≠ x.toList.length →
      ∀ a b : Bytes, a.toList.length = x.toList.length → b.toList.length = pad → o.cmp a b ≠ 0)
    (hheld : ¬Held o x old) (buffer : Stream' Int8) :
    ∃ y : Bytes, y.toList.length = x.toList.length ∧ ∀ (around : Around) (m : Stream' Int8),
      around.buffer = buffer → around.torn 0 = none →
      let r := put o around 0 old x.toList.length (x.toList ++ₛ m)
      r.rc = 0 ∧ r.done = false ∧ Misses o y r.found := by
  match old with
  | none =>
    obtain ⟨y, hy, hne⟩ := Bytes.exists_not_mem (l := [x]) hx h511 (Nat.le_succ 1)
    refine ⟨y, hy, fun around m _ _ => ⟨rfl, rfl, ?_⟩⟩
    rw [put, Bytes.read_append]
    exact ⟨hy.symm, List.ne_of_not_mem_cons hne⟩
  | some (single data) =>
    by_cases hcmp : o.cmp x data = 0
    · -- it is written over an item of another size
      have hlength : data.toList.length ≠ x.toList.length := fun h => hheld ⟨h, hcmp⟩
      obtain ⟨y, hy, hne⟩ := Bytes.exists_not_mem (l := [x]) hx h511 (Nat.le_succ 1)
      refine ⟨y, hy, fun around m _ _ => ?_⟩
      simp only [put, Bytes.read_append, if_pos hcmp]
      exact ⟨trivial, decide_eq_false hlength, hy.symm, List.ne_of_not_mem_cons hne⟩
    · -- the old item, cut to the size of the new one
      let dkey := if data.toList = [] then []
        else [Bytes.read (data.toList ++ₛ buffer) x.toList.length]
      have hdkey : dkey.length ≤ 1 := by
        simp only [dkey]
        split <;> simp
      obtain ⟨y, hy, hne⟩ := Bytes.exists_not_mem (l := insert o x dkey) hx h511
        (length_insert_le.trans (Nat.succ_le_succ hdkey))
      refine ⟨y, hy, fun around m hbuffer _ => ?_⟩
      subst hbuffer
      simp only [put, Bytes.read_append, if_neg hcmp, subPut_self hx, Misses, hy, if_true]
      exact ⟨trivial, trivial, hne⟩
  | some (many pad items) =>
    by_cases hsize : pad = x.toList.length
    · subst hsize
      -- an item of the size of the page
      obtain ⟨y, hy, hmiss⟩ : ∃ y : Bytes, y.toList.length = x.toList.length ∧
          y ∉ insert o x items := by
        by_contra hall
        refine hheld ((held_many_iff (hold _ rfl)).2 fun y hy => ?_)
        by_contra hmiss
        exact hall ⟨y, hy, hmiss⟩
      refine ⟨y, hy, fun around m _ _ => ?_⟩
      simp only [put, subPut_self hx, Bytes.read_append, Misses, hy, if_true]
      exact ⟨trivial, trivial, hmiss⟩
    · -- no item of this size is ever there
      obtain ⟨hpad, hlength, -⟩ := hold _ rfl
      have hnone : ∀ b : Bytes, b.toList.length = pad → o.cmp x b ≠ 0 :=
        fun b hb => hapart pad items rfl hsize x b rfl hb
      refine ⟨x, rfl, fun around m _ htorn => ?_⟩
      have hseek : ¬(seek o.cmp id true x items).isSome := by
        rw [seek_of_unmatched fun b hb => hnone b (hlength b hb)]
        exact Bool.false_ne_true
      rw [← Bytes.read_append x m] at hseek
      simp only [put, subPut_of_unmatched hx (fun _ => htorn) hseek, Misses, if_neg hsize]
      refine ⟨trivial, trivial, fun b hb => hnone b ?_⟩
      rcases mem_place.1 hb with rfl | hb
      · exact Bytes.length_read _ hpad
      · exact hlength b hb

end Fixed

/-! ## Requests -/

namespace FixedDb

/-- What LMDB keeps under each key is as it should be. -/
def Sound (s : FixedDb) : Prop := ∀ key, ∀ f ∈ s.content key, f.Sound s.order

/-- A put is refused: the transaction does not write, or the sizes are out of bounds. -/
def Refuses (s : FixedDb) (key data : Bytes) : Prop :=
  s.refusal ≠ 0 ∨ key.toList = [] ∨ 511 < key.toList.length ∨ 511 < data.toList.length

/-- If the items under a key have another size than an array, none of them ever compares equal
    to one of its size. -/
def Apart (s : FixedDb) (key data : Bytes) : Prop :=
  ∀ pad items, s.content key = some (.many pad items) → pad ≠ data.toList.length →
    ∀ a b : Bytes, a.toList.length = data.toList.length → b.toList.length = pad →
      s.order.cmp a b ≠ 0

variable {s : FixedDb} {key data : Bytes} {multiple : Bool} (others : Library FixedDb)

theorem putError_ne_zero_iff : s.putError key data ≠ 0 ↔ s.Refuses key data := by
  rw [putError, Refuses]
  split
  · simp [*]
  · split
    · rename_i hkey
      rcases hkey with hkey | hkey <;> simp [hkey]
    · split <;> simp_all

/-- A put that is refused has another status. -/
theorem rc_put_of_refuses (h : s.Refuses key data) :
    (s.put multiple key.toVal data.toVal).1.rc ≠ 0 := by
  have herror := putError_ne_zero_iff.2 h
  simp [put, herror]

theorem rc_put (h : ¬s.Refuses key data) :
    (s.put multiple key.toVal data.toVal).1.rc = (s.putItems multiple key data).rc := by
  have herror : s.putError key data = 0 := not_not.1 (mt putError_ne_zero_iff.1 h)
  simp [put, herror]

theorem next_put (h : ¬s.Refuses key data) :
    (s.put multiple key.toVal data.toVal).2 =
      { s with
        content := Function.update s.content key (s.putItems multiple key data).found
        served := s.served + 1 } := by
  have herror : s.putError key data = 0 := not_not.1 (mt putError_ne_zero_iff.1 h)
  simp [put, herror]

/-- Single puts under a key, one after the other. -/
def putEach (s : FixedDb) (key : Bytes) (es : List Bytes) : FixedDb :=
  es.foldl (fun s e => (s.put false key.toVal e.toVal).2) s

section putEach

variable {es : List Bytes} {size pad : ℕ} {items : List Bytes}

/-- They leave items of their size only, if such items fit. -/
theorem wide_putEach (hsize : 0 < size) (hes : ∀ e ∈ es, e.toList.length = size)
    (hs : ∀ e ∈ es, ¬s.Refuses key e) (hfits : Fixed.Fits size (s.content key))
    (hwide : es = [] → Fixed.Wide size (s.content key)) :
    Fixed.Wide size ((s.putEach key es).content key) := by
  induction es generalizing s with
  | nil => exact hwide rfl
  | cons e es ih =>
    obtain ⟨rfl, hes⟩ := List.forall_mem_cons.1 hes
    obtain ⟨he, hs⟩ := List.forall_mem_cons.1 hs
    have h511 : e.toList.length ≤ 511 := not_lt.1 fun h => he (.inr (.inr (.inr h)))
    rw [putEach, List.foldl_cons, next_put he]
    refine ih hes hs ?_ fun _ => ?_
    · dsimp only
      rw [Function.update_self]
      exact (Fixed.fits_put hsize h511 hfits).1
    · dsimp only
      rw [Function.update_self]
      exact (Fixed.fits_put hsize h511 hfits).2

/-- Smaller items than there are each add one, filled up with what is behind it, or are refused
    as one compares equal. -/
theorem items_putEach (hsize : 0 < size) (hes : ∀ e ∈ es, e.toList.length = size)
    (hs : ∀ e ∈ es, ¬s.Refuses key e) (hlt : size < pad) (hpad : pad ≤ 511)
    (hcontent : s.content key = some (.many pad items)) {b : Int8}
    (hbeyond : ∀ i, (s.around i).beyond 0 = const b) :
    items.length ≤ ((s.putEach key es).items key).length ∧
      (∀ y ∈ (s.putEach key es).items key, y ∈ items ∨ y.toList[size]? = some b) ∧
      ((s.putEach key es).items key = items →
        ∀ e ∈ es, (seek s.order.cmp id true e items).isSome) := by
  induction es generalizing s items with
  | nil =>
    have hitems : (s.putEach key []).items key = items := by
      simp [putEach, FixedDb.items, hcontent, Fixed.items]
    rw [hitems]
    exact ⟨le_rfl, fun y hy => .inl hy, fun _ e he => absurd he List.not_mem_nil⟩
  | cons e es ih =>
    obtain ⟨rfl, hes⟩ := List.forall_mem_cons.1 hes
    obtain ⟨he, hs⟩ := List.forall_mem_cons.1 hs
    have hput : (s.putItems false key e).found = some (.many pad
        (Fixed.subPut s.order ((s.around s.served).torn 0) pad items e.toList.length
          (e.toList ++ₛ (s.around s.served).beyond 0)).2) := by
      rw [putItems, hcontent]
      rfl
    rw [putEach, List.foldl_cons, next_put he]
    by_cases hfound : (seek s.order.cmp id true e items).isSome
    · -- it is refused
      rw [Fixed.subPut_of_matched hsize hlt.ne (by rwa [Bytes.read_append])] at hput
      obtain ⟨hle, hmem, hall⟩ := ih (s := { s with
          content := Function.update s.content key (s.putItems false key e).found
          served := s.served + 1 }) hes hs (by
        dsimp only
        rw [Function.update_self, hput]) hbeyond
      exact ⟨hle, hmem, fun heq => List.forall_mem_cons.2 ⟨hfound, hall heq⟩⟩
    · -- it is added
      rw [Fixed.subPut_of_unmatched hsize (fun h => absurd h hlt.not_gt)
        (by rwa [Bytes.read_append])] at hput
      obtain ⟨hle, hmem, -⟩ := ih (s := { s with
          content := Function.update s.content key (s.putItems false key e).found
          served := s.served + 1 }) hes hs (by
        dsimp only
        rw [Function.update_self, hput]) hbeyond
      rw [length_place] at hle
      refine ⟨(Nat.le_succ _).trans hle, fun y hy => ?_, fun heq => ?_⟩
      · rcases hmem y hy with hy | hy
        · rcases mem_place.1 hy with rfl | hy
          · refine .inr ?_
            rw [Bytes.getElem?_read _ hpad hlt, get_append_length, hbeyond]
            rfl
          · exact .inl hy
        · exact .inr hy
      · exact absurd (hle.trans_eq (congrArg List.length heq)) (Nat.not_succ_le_self _)

/-- Where all items of a size are there, putting items that compare equal changes nothing. -/
theorem content_putEach (hsize : 0 < size) (hes : ∀ e ∈ es, e.toList.length = size)
    (hs : ∀ e ∈ es, ¬s.Refuses key e) (hcontent : s.content key = some (.many pad items))
    (hitems : Ascending s.order.cmp id items) (hfull : size = pad → ∀ e ∈ es, e ∈ items)
    (hmatched : ∀ e ∈ es, ∃ b ∈ items, s.order.cmp e b = 0) :
    (s.putEach key es).content = s.content := by
  induction es generalizing s with
  | nil => rfl
  | cons e es ih =>
    obtain ⟨rfl, hes⟩ := List.forall_mem_cons.1 hes
    obtain ⟨he, hs⟩ := List.forall_mem_cons.1 hs
    obtain ⟨hmatch, hmatched⟩ := List.forall_mem_cons.1 hmatched
    have hput : (s.putItems false key e).found = some (.many pad items) := by
      rw [putItems, hcontent]
      change some (Fixed.many pad (Fixed.subPut ..).2) = _
      by_cases hpad : e.toList.length = pad
      · subst hpad
        rw [Fixed.subPut_self hsize, Bytes.read_append,
          Fixed.insert_of_mem hitems (hfull rfl e List.mem_cons_self)]
      · rw [Fixed.subPut_of_matched hsize hpad]
        rw [Bytes.read_append, Fixed.isSome_seek_iff hitems]
        exact hmatch
    have hsame : Function.update s.content key (s.putItems false key e).found = s.content := by
      rw [hput, ← hcontent, Function.update_eq_self]
    rw [putEach, List.foldl_cons, next_put he, hsame]
    exact ih (s := { s with served := s.served + 1 }) hes hs hcontent hitems
      (fun h e he => hfull h e (List.mem_cons_of_mem _ he)) hmatched

/-- The same database with another number behind the structures. -/
def withNext (s : FixedDb) (next : UInt64) : FixedDb :=
  { s with around := fun i => { s.around i with next } }

/-- Single puts do not read it. -/
theorem put_withNext (next : UInt64) (data : Val) :
    ((s.withNext next).put false key.toVal data).2 =
      ((s.put false key.toVal data).2).withNext next := by
  have herror : (s.withNext next).putError = s.putError := rfl
  simp only [put, herror]
  by_cases h : s.putError key.toVal.bytes data.bytes ≠ 0
  · rw [if_pos h, if_pos h]
    rfl
  · rw [if_neg h, if_neg h]
    simp [withNext, putItems, Fixed.put_next]

theorem putEach_withNext (next : UInt64) :
    (s.withNext next).putEach key es = (s.putEach key es).withNext next := by
  induction es generalizing s with
  | nil => rfl
  | cons e es ih =>
    rw [putEach, List.foldl_cons, put_withNext]
    exact ih

end putEach

end FixedDb

end KotlinLmdb
