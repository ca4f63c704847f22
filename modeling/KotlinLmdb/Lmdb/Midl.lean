import KotlinLmdb.Cells
import KotlinLmdb.Machine
import KotlinLmdb.Search
import Mathlib.Data.List.Sort
import Mathlib.Data.Nat.Bitwise

/-!
# ID lists

LMDB keeps the numbers of pages, and of transactions, in ID lists (`Midl`): an array of IDs
that starts with how many there are, preceded by how many it has room for. Most are sorted,
in descending order. A list grows as IDs are appended, unless there is no memory. How many
it is to have room for is computed with 32 bits, which is enough for lists of fewer than 2^31
IDs.

Two lists are merged in place, from their ends (`mdbMidlXmerge`): the list merged into has a
delimiter in place of its count meanwhile, which no ID is greater than. What comes out is the
merge of the two lists (`mdbMidlXmerge_spec`).
-/

namespace KotlinLmdb

/-- The greatest `MDB_ID`, `(MDB_ID)-1`. -/
def idMax : ℕ := 2 ^ 64 - 1

/-- `MDB_IDL_UM_MAX`: how many IDs a list has room for in the first place. -/
def idlUmMax : ℕ := 2 ^ 17 - 1

/-- An ID list, in allocated memory. -/
structure Midl where
  /-- `ids[-1]`, how many IDs there is room for. -/
  alloclen : ℕ
  /-- The cells from `ids[0]` on, the number of IDs. -/
  cells : Cells ℕ

namespace Midl

variable {m m' app : Midl} {f g : Cells ℕ} {id i j k n x : ℕ}

/-- The number of IDs of a list. -/
def count (m : Midl) : ℕ := m.cells 0

/-- The IDs of a list. -/
def ids (m : Midl) : List ℕ := m.cells.slice 1 m.count

@[simp]
theorem length_ids (m : Midl) : m.ids.length = m.count := Cells.length_slice _ _ _

/-- The IDs fit into the memory allocated. -/
def Fits (m : Midl) : Prop := m.count ≤ m.alloclen

/-! ## Searching -/

/-- `mdb_midl_search`, of a list in descending order. -/
def mdbMidlSearch (ids : Cells ℕ) (id : ℕ) : ℕ :=
  bisect (fun i => compare (ids i) id) 0 (ids 0 % 2 ^ 32) 1 .eq

/-! ## Growing -/

/-- `mdb_midl_grow`: the memory is enlarged if the system has any (`mem`). -/
def mdbMidlGrow (m : Midl) (num : Int32) (mem : Bool) : Option Midl :=
  if mem then some { m with alloclen := (m.alloclen + num.toInt).toNat } else none

/-- `mdb_midl_need`: makes room for some more IDs, as many as an `unsigned` holds. -/
def mdbMidlNeed (m : Midl) (num : ℕ) (mem : Bool) : Option Midl :=
  let num := (num + m.count) % 2 ^ 32
  if num > m.alloclen then
    let num := (num + num / 4 + (256 + 2)) % 2 ^ 32 / 256 * 256
    if mem then some { m with alloclen := (num + (2 ^ 32 - 2)) % 2 ^ 32 } else none
  else some m

/-- `mdb_midl_xappend`: appends an ID to a list with enough room. -/
def mdbMidlXappend (m : Midl) (id : ℕ) : Midl :=
  { m with cells := (m.cells.write 0 (m.count + 1)).write (m.count + 1) id }

/-- `mdb_midl_append`. -/
def mdbMidlAppend (m : Midl) (id : ℕ) (mem : Bool) : Option Midl :=
  if m.count ≥ m.alloclen then (m.mdbMidlGrow (.ofNat idlUmMax) mem).map (·.mdbMidlXappend id)
  else some (m.mdbMidlXappend id)

/-- `memcpy` of cells from elsewhere. -/
def memcpy (f : Cells ℕ) (i : ℕ) (g : Cells ℕ) (j n : ℕ) : Cells ℕ :=
  fun k => if i ≤ k ∧ k < i + n then g (j + (k - i)) else f k

/-- Appends a list to one with enough room. -/
def xappendList (app m : Midl) : Midl :=
  { m with
    cells := (memcpy m.cells (m.count + 1) app.cells 1 app.count).write 0 (m.count + app.count) }

/-- `mdb_midl_append_list`. -/
def mdbMidlAppendList (m app : Midl) (mem : Bool) : Option Midl :=
  if m.count + app.count ≥ m.alloclen then
    (m.mdbMidlGrow (.ofNat app.count) mem).map app.xappendList
  else some (app.xappendList m)

/-- The loop of `mdb_midl_append_range`: writes `n` IDs from `id` on, the last cell first. -/
def writeRange (f : Cells ℕ) (len id : ℕ) : ℕ → Cells ℕ
  | 0 => f
  | n + 1 => writeRange (f.write (len + (n + 1)) id) len ((id + 1) % 2 ^ 64) n

/-- Appends a range of IDs to a list with enough room. -/
def xappendRange (id n : ℕ) (m : Midl) : Midl :=
  { m with cells := writeRange (m.cells.write 0 (m.count + n)) m.count id n }

/-- `mdb_midl_append_range`. -/
def mdbMidlAppendRange (m : Midl) (id n : ℕ) (mem : Bool) : Option Midl :=
  if m.count + n > m.alloclen then
    (m.mdbMidlGrow (.ofNat (n ||| idlUmMax)) mem).map (xappendRange id n)
  else some (xappendRange id n m)

/-! ## Merging -/

/-- The inner loop of `mdb_midl_xmerge`: moves the IDs less than `merge_id` to their places,
    unless it runs out of cells. -/
def xmergeLess (merge_id : ℕ) (idl : Cells ℕ) (old_id j k : ℕ) :
    Option (Cells ℕ × ℕ × ℕ × ℕ) :=
  if old_id < merge_id then
    match j with
    | 0 => none
    | j + 1 =>
      let idl := idl.write k old_id
      xmergeLess merge_id idl (idl j) j (k - 1)
  else some (idl, old_id, j, k)

/-- The outer loop of `mdb_midl_xmerge`, with `i` IDs left to be merged. -/
def xmergeLoop (merge : Cells ℕ) (idl : Cells ℕ) (old_id j k : ℕ) : ℕ → Option (Cells ℕ)
  | 0 => some idl
  | i + 1 => do
    let merge_id := merge (i + 1)
    let (idl, old_id, j, k) ← xmergeLess merge_id idl old_id j k
    xmergeLoop merge (idl.write k merge_id) old_id j (k - 1) i

/-- `mdb_midl_xmerge`, of a list with enough room. -/
def mdbMidlXmerge (m merge : Midl) : Option Midl := do
  let i := merge.count
  let j := m.count
  let k := i + j
  let idl := m.cells.write 0 idMax
  let idl ← xmergeLoop merge.cells idl (idl j) j k i
  some { m with cells := idl.write 0 k }

theorem xmergeLess_spec {b : ℕ} (bs : List ℕ) (hb : b ≤ f 0) (hjk : j < k) (hk : k ≤ n) :
    ∃ g j', xmergeLess b f (f j) j k = some (g, g j', j', j' + (k - j)) ∧
      (j' ≤ j ∧ g 0 = f 0 ∧ b ≤ g j') ∧ (∀ i, n < i → g i = f i) ∧
      ((b :: bs).merge (f.descend j)).reverse ++ f.slice (k + 1) (n - k) =
        ((b :: bs).merge (g.descend j')).reverse ++
          g.slice (j' + (k - j) + 1) (n - (j' + (k - j))) := by
  induction j generalizing f k with
  | zero =>
    refine ⟨f, 0, ?_, ⟨le_rfl, rfl, hb⟩, fun _ _ => rfl, ?_⟩
    · rw [xmergeLess, if_neg (by omega), Nat.sub_zero, Nat.zero_add]
    · rw [Nat.sub_zero, Nat.zero_add]
  | succ j ih =>
    by_cases hlt : f (j + 1) < b
    · -- the ID is moved to its place, above all cells still to be looked at
      have hwrite : ∀ i, i ≠ k → f.write k (f (j + 1)) i = f i := fun i => f.write_of_ne _
      obtain ⟨g, j', hless, ⟨hj', hg, hbj⟩, hframe, heq⟩ :=
        ih (f := f.write k (f (j + 1))) (k := k - 1) (by rwa [hwrite 0 (by omega)])
          (by omega) (by omega)
      have hsub : k - 1 - j = k - (j + 1) := by omega
      rw [hsub] at hless heq
      rw [hwrite 0 (by omega)] at hg
      refine ⟨g, j', ?_, ⟨by omega, hg, hbj⟩,
        fun i hi => (hframe i hi).trans (hwrite i (by omega)), ?_⟩
      · rw [xmergeLess, if_pos hlt]
        exact hless
      · rw [← heq, Cells.descend, List.cons_merge_cons_neg _ _ _ (by simpa using hlt),
          Cells.descend_congr fun i _ hi => hwrite i (by omega),
          show k - 1 + 1 = k by omega, show n - (k - 1) = n - k + 1 by omega, Cells.slice_cons,
          Cells.write_self, Cells.slice_congr fun i hi _ => hwrite i (by omega),
          List.reverse_cons, List.append_assoc, List.singleton_append]
    · refine ⟨f, j + 1, ?_, ⟨le_rfl, rfl, by omega⟩, fun _ _ => rfl, ?_⟩
      · rw [xmergeLess, if_neg hlt, show j + 1 + (k - (j + 1)) = k by omega]
      · rw [show j + 1 + (k - (j + 1)) = k by omega]

theorem xmergeLoop_spec {merge : Cells ℕ} (hmerge : ∀ l, 0 < l → l ≤ i → merge l ≤ f 0)
    (hn : i + j ≤ n) :
    ∃ g, xmergeLoop merge f (f j) j (i + j) i = some g ∧ (∀ l, n < l → g l = f l) ∧
      g.slice 1 n =
        ((merge.descend i).merge (f.descend j)).reverse ++ f.slice (i + j + 1) (n - (i + j)) := by
  induction i generalizing f j with
  | zero =>
    refine ⟨f, rfl, fun _ _ => rfl, ?_⟩
    rw [Cells.descend, List.nil_merge, Cells.descend_eq, List.reverse_reverse, Nat.zero_add,
      Nat.add_comm j 1, ← Cells.slice_append, show j + (n - j) = n by omega]
  | succ i ih =>
    obtain ⟨g, j', hless, ⟨hj', hg, hbj⟩, hframe, heq⟩ :=
      xmergeLess_spec (merge.descend i) (hmerge (i + 1) (Nat.succ_pos i) le_rfl)
        (show j < i + 1 + j by omega) hn
    rw [show j' + (i + 1 + j - j) = i + 1 + j' by omega] at hless heq
    have hwrite : ∀ l, l ≠ i + 1 + j' → g.write (i + 1 + j') (merge (i + 1)) l = g l :=
      fun l => g.write_of_ne _
    obtain ⟨h, hloop, hframe', hslice⟩ :=
      ih (f := g.write (i + 1 + j') (merge (i + 1))) (j := j')
        (fun l hl hli => by rw [hwrite 0 (by omega), hg]; exact hmerge l hl (by omega)) (by omega)
    refine ⟨h, ?_, fun l hl => ?_, ?_⟩
    · rw [xmergeLoop, hless]
      rw [hwrite j' (by omega)] at hloop
      simpa [show i + 1 + j' - 1 = i + j' by omega] using hloop
    · rw [hframe' l hl, hwrite l (by omega), hframe l hl]
    · -- the ID merged is the next one, as what is left of the list is not less
      have hnext : (merge (i + 1) :: merge.descend i).merge (g.descend j') =
          merge (i + 1) :: (merge.descend i).merge (g.descend j') := by
        cases j' with
        | zero => rw [Cells.descend, List.merge_right, List.merge_right]
        | succ j' => rw [Cells.descend, List.cons_merge_cons_pos _ _ _ (by simpa using hbj)]
      rw [Cells.descend, heq, hnext, hslice, List.reverse_cons, List.append_assoc,
        Cells.descend_congr fun l _ hl => hwrite l (by omega),
        show n - (i + j') = n - (i + 1 + j') + 1 by omega, Cells.slice_cons,
        show i + j' + 1 = i + 1 + j' by omega, Cells.write_self,
        Cells.slice_congr fun l hl _ => hwrite l (by omega), List.singleton_append]

/-- Merging in place is merging, starting from the least IDs. -/
theorem mdbMidlXmerge_spec {merge : Midl} (hmerge : ∀ id ∈ merge.ids, id ≤ idMax) :
    ∃ m', m.mdbMidlXmerge merge = some m' ∧ m'.alloclen = m.alloclen ∧
      m'.ids = (merge.ids.reverse.merge m.ids.reverse).reverse ∧
      ∀ k, m.count + merge.count < k → m'.cells k = m.cells k := by
  have hids : ∀ l, 0 < l → l ≤ merge.count → merge.cells l ≤ (m.cells.write 0 idMax) 0 := by
    intro l hl hle
    rw [Cells.write_self]
    exact hmerge _ (Cells.mem_slice.2 ⟨l, hl, by omega, rfl⟩)
  obtain ⟨g, hloop, hframe, hslice⟩ := xmergeLoop_spec hids (le_refl (merge.count + m.count))
  refine ⟨{ m with cells := g.write 0 (merge.count + m.count) }, ?_, rfl, ?_, fun k hk => ?_⟩
  · rw [mdbMidlXmerge, hloop]
    rfl
  · have hcount : Midl.count ⟨m.alloclen, g.write 0 (merge.count + m.count)⟩ =
        merge.count + m.count := g.write_self 0 _
    rw [Midl.ids, hcount, Cells.slice_congr fun l hl _ => g.write_of_ne _ (by omega), hslice,
      Nat.sub_self, Cells.descend_eq, Cells.descend_eq,
      Cells.slice_congr (f := m.cells.write 0 idMax) fun l hl _ => m.cells.write_of_ne _ (by omega)]
    exact List.append_nil _
  · refine (Cells.write_of_ne _ _ (by omega)).trans ((hframe k (by omega)).trans ?_)
    exact Cells.write_of_ne _ _ (by omega)

/-! ## Runs -/

/-- What is done to a list that takes in IDs. -/
inductive Call
  | append (id : ℕ)
  | appendList (app : Midl)
  | appendRange (id n : ℕ)
  /-- Makes room for more IDs. -/
  | need (num : ℕ)
  /-- Makes room for another list, and merges it. -/
  | merge (app : Midl)

/-- What a call does to a list, if the system has memory (`mem`). -/
def call (m : Midl) (mem : Bool) : Call → Option Midl
  | .append id => m.mdbMidlAppend id mem
  | .appendList app => m.mdbMidlAppendList app mem
  | .appendRange id n => m.mdbMidlAppendRange id n mem
  | .need num => m.mdbMidlNeed num mem
  | .merge app => do
    let m ← m.mdbMidlNeed app.count mem
    m.mdbMidlXmerge app

/-- The IDs after a call. -/
def Call.ids (l : List ℕ) : Call → List ℕ
  | .append id => l ++ [id]
  | .appendList app => l ++ app.ids
  | .appendRange id n => l ++ (List.range' id n).reverse
  | .need _ => l
  | .merge app => (app.ids.reverse.merge l.reverse).reverse

/-- The IDs are ones a word can hold. -/
def Call.Words : Call → Prop
  | .append id => id ≤ idMax
  | .appendList app => ∀ id ∈ app.ids, id ≤ idMax
  | .appendRange id n => id + n ≤ idMax
  | .need _ => True
  | .merge app => ∀ id ∈ app.ids, id ≤ idMax

/-- How many IDs a call needs room for. -/
def Call.room : Call → ℕ
  | .append _ => 1
  | .appendList app | .merge app => app.count
  | .appendRange _ n | .need n => n

/-- The IDs are words, and too few for 32 bits to overflow. -/
structure Call.Allowed (m : Midl) (c : Call) : Prop where
  words : c.Words
  small : m.count + c.room < 2 ^ 31

/-- A list under calls that may find no memory, and say so. -/
def machine : Machine Midl (Call × Bool) Bool where
  step m i := match m.call i.2 i.1 with
    | some m' => (true, m')
    | none => (false, m)

/-- The memory of a list after a call: it holds the IDs, and nothing was written after its
    end. -/
structure Grown (m m' : Midl) (l : List ℕ) : Prop where
  fits : m'.Fits
  ids : m'.ids = l
  frame : ∀ k, m'.alloclen < k → m'.cells k = m.cells k

theorem mdbMidlNeed_spec (hsmall : m.count + n < 2 ^ 31) {mem : Bool}
    (h : m.mdbMidlNeed n mem = some m') : m'.cells = m.cells ∧ m.count + n ≤ m'.alloclen := by
  have hmod : (n + m.count) % 2 ^ 32 = n + m.count := Nat.mod_eq_of_lt (by omega)
  -- the next multiple of 256, less the two cells before the IDs
  have hroom (num : ℕ) (hnum : num < 2 ^ 31) :
      num ≤ ((num + num / 4 + (256 + 2)) % 2 ^ 32 / 256 * 256 + (2 ^ 32 - 2)) % 2 ^ 32 := by
    rw [Nat.mod_eq_of_lt (by omega : num + num / 4 + (256 + 2) < 2 ^ 32)]
    have hle : num + 2 ≤ (num + num / 4 + (256 + 2)) / 256 * 256 := by omega
    have hlt : (num + num / 4 + (256 + 2)) / 256 * 256 < 2 ^ 32 := by omega
    generalize (num + num / 4 + (256 + 2)) / 256 * 256 = size at hle hlt
    rw [show size + (2 ^ 32 - 2) = size - 2 + 2 ^ 32 by omega, Nat.add_mod_right,
      Nat.mod_eq_of_lt (by omega)]
    omega
  rw [mdbMidlNeed, hmod] at h
  split at h
  · cases mem with
    | false => simp at h
    | true =>
      obtain rfl := Option.some.inj h
      exact ⟨rfl, (Nat.add_comm _ _).trans_le (hroom (n + m.count) (by omega))⟩
  · obtain rfl := Option.some.inj h
    exact ⟨rfl, by omega⟩

theorem ids_writeRange (f : Cells ℕ) (len id n : ℕ) (hid : id + n ≤ idMax) :
    (writeRange f len id n).slice (len + 1) n = (List.range' id n).reverse ∧
      ∀ k, k ≤ len ∨ len + n < k → writeRange f len id n k = f k := by
  induction n generalizing f id with
  | zero => exact ⟨rfl, fun k _ => rfl⟩
  | succ n ih =>
    have hmod : (id + 1) % 2 ^ 64 = id + 1 := Nat.mod_eq_of_lt (by rw [idMax] at hid; omega)
    obtain ⟨hslice, hframe⟩ := ih (f.write (len + (n + 1)) id) (id + 1) (by omega)
    rw [writeRange, hmod]
    refine ⟨?_, fun k hk => ?_⟩
    · rw [Cells.slice_succ, hslice, hframe _ (by omega), show len + 1 + n = len + (n + 1) by omega,
        Cells.write_self, List.range'_succ, List.reverse_cons]
    · rw [hframe k (by omega), Cells.write_of_ne _ _ (by omega)]

/-- A list whose cells are pushed on, after it has been enlarged if that was needed. -/
theorem exists_of_grow {c : Prop} [Decidable c] {num : ℕ} (hnum : num < 2 ^ 31) {mem : Bool}
    {push : Midl → Midl}
    (h : (if c then (m.mdbMidlGrow (.ofNat num) mem).map push else some (push m)) = some m') :
    ∃ alloclen, (m.alloclen ≤ alloclen ∧ (c → alloclen = m.alloclen + num)) ∧
      m' = push ⟨alloclen, m.cells⟩ := by
  split at h
  · cases mem with
    | false => simp [mdbMidlGrow] at h
    | true =>
      have halloc : (m.alloclen + (Int32.ofNat num).toInt).toNat = m.alloclen + num := by
        rw [Int32.toInt_ofNat_of_lt hnum]
        omega
      rw [mdbMidlGrow, if_pos rfl, Option.map_some, halloc] at h
      exact ⟨m.alloclen + num, ⟨by omega, fun _ => rfl⟩, (Option.some.inj h).symm⟩
  · next hc => exact ⟨m.alloclen, ⟨le_rfl, fun h => absurd h hc⟩, (Option.some.inj h).symm⟩

/-- A list whose cells after the last ID have been filled. -/
theorem grown_of_cells {alloclen : ℕ} {l : List ℕ} (hcount : f 0 = m.count + l.length)
    (hroom : m.count + l.length ≤ alloclen) (hold : ∀ k, 0 < k → k ≤ m.count → f k = m.cells k)
    (hnew : f.slice (m.count + 1) l.length = l)
    (hframe : ∀ k, m.count + l.length < k → f k = m.cells k) :
    Grown m ⟨alloclen, f⟩ (m.ids ++ l) where
  fits := hcount.trans_le hroom
  ids := by
    have hcount' : Midl.count ⟨alloclen, f⟩ = m.count + l.length := hcount
    rw [Midl.ids, hcount', Cells.slice_append, Nat.add_comm 1, hnew, Midl.ids,
      Cells.slice_congr fun k hk hkn => hold k hk (by omega)]
  frame k hk := hframe k (Nat.lt_of_le_of_lt hroom hk)

theorem grown_append (hm : m.Fits) {mem : Bool} (h : m.mdbMidlAppend id mem = some m') :
    Grown m m' (m.ids ++ [id]) := by
  obtain ⟨alloclen, hlen, rfl⟩ := exists_of_grow (by decide) h
  have hroom : m.count + 1 ≤ alloclen := by
    rw [Fits] at hm
    by_contra hno
    have := hlen.2 (by omega)
    rw [idlUmMax] at this
    omega
  have hother : ∀ k, k ≠ 0 → k ≠ m.count + 1 →
      (m.cells.write 0 (m.count + 1)).write (m.count + 1) id k = m.cells k := fun k h0 h1 => by
    rw [Cells.write_of_ne _ _ h1, Cells.write_of_ne _ _ h0]
  refine grown_of_cells ?_ hroom (fun k hk hkn => ?_) ?_ (fun k hk => ?_)
  · exact (Cells.write_of_ne _ _ (by omega)).trans (Cells.write_self _ _ _)
  · exact hother k (by omega) (by omega)
  · exact congrArg (· :: []) (Cells.write_self _ _ _)
  · exact hother k (by omega) (by rw [List.length_singleton] at hk; omega)

theorem grown_appendList (hm : m.Fits) (hsmall : app.count < 2 ^ 31) {mem : Bool}
    (h : m.mdbMidlAppendList app mem = some m') : Grown m m' (m.ids ++ app.ids) := by
  obtain ⟨alloclen, hlen, rfl⟩ := exists_of_grow hsmall h
  have hroom : m.count + app.count ≤ alloclen := by
    rw [Fits] at hm
    by_contra hno
    have := hlen.2 (by omega)
    omega
  have hcells : ∀ k, k ≠ 0 → (app.xappendList ⟨alloclen, m.cells⟩).cells k =
      memcpy m.cells (m.count + 1) app.cells 1 app.count k := fun k hk => Cells.write_of_ne _ _ hk
  refine grown_of_cells ?_ ?_ (fun k hk hkn => ?_) ?_ (fun k hk => ?_)
  · rw [length_ids]
    exact Cells.write_self _ _ _
  · rwa [length_ids]
  · exact (hcells k (by omega)).trans (if_neg (by omega))
  · rw [length_ids]
    refine List.ext_getElem (by simp) fun k hk hk' => ?_
    rw [Cells.length_slice] at hk
    simp only [ids, Cells.slice, List.getElem_map, List.getElem_range']
    refine (hcells _ (by omega)).trans ((if_pos (by omega)).trans ?_)
    congr 1
    omega
  · rw [length_ids] at hk
    exact (hcells k (by omega)).trans (if_neg (by omega))

theorem grown_appendRange (hm : m.Fits) (hid : id + n ≤ idMax) (hsmall : n < 2 ^ 31) {mem : Bool}
    (h : m.mdbMidlAppendRange id n mem = some m') :
    Grown m m' (m.ids ++ (List.range' id n).reverse) := by
  obtain ⟨alloclen, hlen, rfl⟩ :=
    exists_of_grow (Nat.or_lt_two_pow hsmall (by decide : idlUmMax < 2 ^ 31)) h
  have hroom : m.count + n ≤ alloclen := by
    rw [Fits] at hm
    by_contra hno
    have := hlen.2 (by omega)
    have : n ≤ n ||| idlUmMax := Nat.left_le_or
    omega
  have hlength : (List.range' id n).reverse.length = n := by simp
  obtain ⟨hslice, hframe⟩ := ids_writeRange (m.cells.write 0 (m.count + n)) m.count id n hid
  refine grown_of_cells ?_ ?_ (fun k hk hkn => ?_) ?_ (fun k hk => ?_)
  · rw [hlength]
    exact (hframe 0 (by omega)).trans (Cells.write_self _ _ _)
  · rwa [hlength]
  · exact (hframe k (by omega)).trans (Cells.write_of_ne _ _ (by omega))
  · rw [hlength]
    exact hslice
  · rw [hlength] at hk
    exact (hframe k (by omega)).trans (Cells.write_of_ne _ _ (by omega))

theorem grown_need (hsmall : m.count + n < 2 ^ 31) {mem : Bool}
    (h : m.mdbMidlNeed n mem = some m') : Grown m m' m.ids := by
  obtain ⟨hcells, hroom⟩ := mdbMidlNeed_spec hsmall h
  refine ⟨?_, by rw [ids, ids, count, count, hcells], fun k _ => by rw [hcells]⟩
  rw [Fits, count, hcells]
  exact (Nat.le_add_right _ n).trans hroom

theorem grown_merge (happ : ∀ id ∈ app.ids, id ≤ idMax)
    (hsmall : m.count + app.count < 2 ^ 31) {mem : Bool}
    (h : m.call mem (.merge app) = some m') :
    Grown m m' (app.ids.reverse.merge m.ids.reverse).reverse := by
  obtain ⟨m₁, hneed, hmerge⟩ := Option.bind_eq_some_iff.1 h
  obtain ⟨hcells, hroom⟩ := mdbMidlNeed_spec hsmall hneed
  obtain ⟨m₂, hm₂, hlen, hids, hframe⟩ := mdbMidlXmerge_spec (m := m₁) happ
  obtain rfl : m₂ = m' := Option.some.inj (hm₂.symm.trans hmerge)
  rw [show m₁.ids = m.ids by rw [ids, ids, count, count, hcells]] at hids
  rw [count, hcells] at hframe
  refine ⟨?_, hids, fun k hk => hframe k (by rw [hlen] at hk; exact Nat.lt_of_le_of_lt hroom hk)⟩
  have hcount := congrArg List.length hids
  rw [length_ids, List.length_reverse, (List.merge_perm_append _).length_eq, List.length_append,
    List.length_reverse, List.length_reverse, length_ids, length_ids] at hcount
  rw [Fits, hcount, hlen, Nat.add_comm]
  exact hroom

/-- A call that finds memory. -/
theorem grown_call (hm : m.Fits) {c : Call} (hc : c.Allowed m) {mem : Bool}
    (h : m.call mem c = some m') : Grown m m' (c.ids m.ids) := by
  have hsmall := hc.small
  cases c with
  | append id => exact grown_append hm h
  | appendList app => exact grown_appendList hm (Nat.lt_of_le_of_lt (Nat.le_add_left _ _) hsmall) h
  | appendRange id n =>
    exact grown_appendRange hm hc.words (Nat.lt_of_le_of_lt (Nat.le_add_left _ _) hsmall) h
  | need num => exact grown_need hsmall h
  | merge app => exact grown_merge hc.words hsmall h

/-- The IDs after the calls that were answered with success. -/
def idsOf (l : List ℕ) : List (Call × Bool) → List Bool → List ℕ
  | i :: is, ok :: oks => idsOf (if ok then i.1.ids l else l) is oks
  | _, _ => l

/-- A call does what it says, or leaves the list as it is. -/
theorem next_spec (hm : m.Fits) {i : Call × Bool} (hi : i.1.Allowed m) :
    Grown m (machine.next m i) (if machine.out m i then i.1.ids m.ids else m.ids) := by
  cases h : m.call i.2 i.1 with
  | none =>
    have hstep : machine.step m i = (false, m) := by simp only [machine, h]
    rw [Machine.next, Machine.out, hstep]
    exact ⟨hm, rfl, fun _ _ => rfl⟩
  | some m' =>
    have hstep : machine.step m i = (true, m') := by simp only [machine, h]
    rw [Machine.next, Machine.out, hstep]
    exact grown_call hm hi h

/-- Whatever memory there is, a list holds, after any calls, what those answered with success
    have added to it, and nothing is ever written past the memory allocated for it. -/
theorem run_ids (m : Midl) (hm : m.Fits) (is : List (Call × Bool))
    (his : machine.Along (fun m i => i.1.Allowed m) m is) :
    (machine.run m is).ids = idsOf m.ids is (machine.trace m is) ∧
      machine.Along (fun m i => (machine.next m i).Fits ∧
        ∀ k, (machine.next m i).alloclen < k → (machine.next m i).cells k = m.cells k) m is := by
  induction is generalizing m with
  | nil => exact ⟨rfl, trivial⟩
  | cons i is ih =>
    obtain ⟨hi, his⟩ := his
    have hnext := next_spec hm hi
    obtain ⟨hids, halong⟩ := ih _ hnext.fits his
    refine ⟨?_, ⟨hnext.fits, hnext.frame⟩, halong⟩
    rw [Machine.run_cons, hids, Machine.trace_cons, idsOf, hnext.ids]

/-- A list that has grown for an ID is made room in for more. -/
theorem run_ids_append_need :
    let m : Midl := ⟨0, fun _ => 0⟩
    let is : List (Call × Bool) :=
      [(.append 7, true), (.need idlUmMax, false), (.need idlUmMax, true), (.appendRange 3 2, true),
        (.merge ⟨1, fun _ => 1⟩, true)]
    (machine.run m is).ids = idsOf m.ids is (machine.trace m is) ∧
      machine.Along (fun m i => (machine.next m i).Fits ∧
        ∀ k, (machine.next m i).alloclen < k → (machine.next m i).cells k = m.cells k) m is :=
  run_ids ⟨0, fun _ => 0⟩ le_rfl _
    ⟨⟨by simp [Call.Words, idMax], by decide⟩, ⟨trivial, by decide⟩, ⟨trivial, by decide⟩,
      ⟨by simp [Call.Words, idMax], by decide⟩,
      ⟨by simp [Call.Words, idMax, ids, count, Cells.slice], by decide⟩, trivial⟩

/-! ## Searching a sorted list -/

theorem seeks_mdbMidlSearch (hm : m.ids.Pairwise (· > ·)) (hlen : m.count < 2 ^ 32) (id : ℕ) :
    Seeks (fun i => compare (m.cells i) id) m.count (mdbMidlSearch m.cells id) := by
  have hcount : m.cells 0 % 2 ^ 32 = m.count := Nat.mod_eq_of_lt hlen
  rw [mdbMidlSearch, hcount]
  refine seeks_bisect fun i j hi hij hj hne => Nat.compare_eq_lt.2 ?_
  have hle : m.cells i ≤ id := Nat.le_of_not_lt fun hlt => hne (Nat.compare_eq_gt.2 hlt)
  have hgt : m.cells j < m.cells i := Cells.pairwise_slice_iff.1 hm i j hi hij (by omega)
  omega

/-- The search divides a list in descending order, without duplicates, into the IDs greater
    than the one sought and the rest, which starts with the one sought if it is there. -/
theorem mdbMidlSearch_spec (hm : m.ids.Pairwise (· > ·)) (hlen : m.count < 2 ^ 32) (id : ℕ) :
    m.ids.take (mdbMidlSearch m.cells id - 1) = m.ids.filter (id < ·) ∧
      m.ids.drop (mdbMidlSearch m.cells id - 1) = m.ids.filter (· ≤ id) ∧
      (id ∈ m.ids ↔ mdbMidlSearch m.cells id ≤ m.count ∧
        m.cells (mdbMidlSearch m.cells id) = id) := by
  have hseeks := seeks_mdbMidlSearch hm hlen id
  generalize mdbMidlSearch m.cells id = x at hseeks
  have hpos := hseeks.pos
  have hle := hseeks.le
  have hids : m.ids = m.cells.slice 1 (x - 1) ++ m.cells.slice x (m.count + 1 - x) := by
    rw [ids, show m.count = x - 1 + (m.count + 1 - x) by omega, Cells.slice_append]
    congr 2 <;> omega
  -- the IDs before are greater, the others are not
  have hgt : ∀ y ∈ m.cells.slice 1 (x - 1), id < y := fun y hy => by
    obtain ⟨k, hk, hkx, rfl⟩ := Cells.mem_slice.1 hy
    exact Nat.compare_eq_gt.1 (hseeks.gt k hk (by omega))
  have hnot : ∀ y ∈ m.cells.slice x (m.count + 1 - x), y ≤ id := fun y hy => by
    obtain ⟨k, hk, hkx, rfl⟩ := Cells.mem_slice.1 hy
    rcases hk.lt_or_eq with hlt | rfl
    · exact (Nat.compare_eq_lt.1 (hseeks.lt k hlt (by omega))).le
    · exact Nat.le_of_not_lt fun h => hseeks.ne_gt (by omega) (Nat.compare_eq_gt.2 h)
  have hfilter : (m.cells.slice 1 (x - 1)).filter (id < ·) = m.cells.slice 1 (x - 1) :=
    List.filter_eq_self.2 fun y hy => decide_eq_true (hgt y hy)
  have hfilter' : (m.cells.slice x (m.count + 1 - x)).filter (· ≤ id) =
      m.cells.slice x (m.count + 1 - x) :=
    List.filter_eq_self.2 fun y hy => decide_eq_true (hnot y hy)
  refine ⟨?_, ?_, fun hmem => ?_, fun hx => ?_⟩
  · rw [hids, List.take_left' (Cells.length_slice _ _ _), List.filter_append, hfilter,
      List.filter_eq_nil_iff.2 fun y hy => by simpa using hnot y hy, List.append_nil]
  · rw [hids, List.drop_left' (Cells.length_slice _ _ _), List.filter_append, hfilter',
      List.filter_eq_nil_iff.2 fun y hy => by simpa using hgt y hy, List.nil_append]
  · obtain ⟨k, hk, hkn, heq⟩ := Cells.mem_slice.1 hmem
    have hxk : x = k := hseeks.of_eq ⟨hk, by omega⟩ (Nat.compare_eq_eq.2 heq)
    rw [hxk]
    exact ⟨by omega, heq⟩
  · exact Cells.mem_slice.2 ⟨x, hpos, by omega, hx.2⟩

theorem mdbMidlSearch_spec_three :
    let m : Midl := ⟨3, fun k => [3, 9, 7, 5].getD k 0⟩
    m.ids.take (mdbMidlSearch m.cells 6 - 1) = m.ids.filter (6 < ·) ∧
      m.ids.drop (mdbMidlSearch m.cells 6 - 1) = m.ids.filter (· ≤ 6) ∧
      (6 ∈ m.ids ↔ mdbMidlSearch m.cells 6 ≤ m.count ∧ m.cells (mdbMidlSearch m.cells 6) = 6) :=
  mdbMidlSearch_spec (by decide) (by decide) 6

end Midl

end KotlinLmdb
