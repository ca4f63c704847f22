import KotlinLmdb.Cursor
import KotlinLmdb.Lmdb.DupFixed
import KotlinLmdb.Machine
import KotlinLmdb.ValComparers.Meaning

/-!
# Putting several items at once

`putMultiple` is handed elements of one size in one array, one after the other, and their
number. Unless it fails, it is to leave in the database what single puts of the elements
leave there (`Cursor.AsSingles`).

The number is not passed on, nor is the size: LMDB takes the whole array for one item, and
the number of items from behind its structure, where it writes zeros first, even if that
is where the array is. So, whatever is there, it is right exactly if the put is refused, if
all arrays of its size are there already (`Fixed.Full`), or if it is of one element that
begins with zeros and is held (`Fixed.Held`): all that is put behind it is there already,
or nothing is (`Cursor.asSingles_iff`).
-/

namespace KotlinLmdb

open Eff Stream'

/-- Elements of one size, at least one, that fit into an array. -/
structure Elements where
  size : ℕ
  toList : List Bytes
  size_pos : 0 < size
  ne_nil : toList ≠ []
  length_eq : ∀ e ∈ toList, e.toList.length = size
  length_le : (toList.flatMap Bytes.toList).length ≤ 2147483647

namespace Elements

/-- The array of the elements, one after the other. -/
def concat (es : Elements) : Bytes := ⟨es.toList.flatMap Bytes.toList, es.length_le⟩

theorem length_concat (es : Elements) :
    es.concat.toList.length = es.toList.length * es.size := by
  have hmap : es.toList.map (fun e => e.toList.length) = es.toList.map fun _ => es.size :=
    List.map_congr_left es.length_eq
  rw [concat, List.length_flatMap, hmap, List.map_const', List.sum_replicate_nat]

theorem size_le_length_concat (es : Elements) : es.size ≤ es.concat.toList.length :=
  es.length_concat.symm ▸ Nat.le_mul_of_pos_left _ (List.length_pos_iff.2 es.ne_nil)

theorem length_concat_pos (es : Elements) : 0 < es.concat.toList.length :=
  es.size_pos.trans_le es.size_le_length_concat

/-- One element is the whole array. -/
theorem concat_of_eq_singleton {es : Elements} {e : Bytes} (h : es.toList = [e]) :
    es.concat = e := by
  rw [← Bytes.toList_inj]
  simp [concat, h]

end Elements

/-- The order of a database that was told no other. -/
def ItemOrder.memn : ItemOrder where
  cmp := mdbCmpMemn
  isTotalPreorder := mdbCmpMemn_isTotalPreorder

namespace Cursor

variable {N : Type} (lib : Library N) (p : Platform)

/-- The number of elements is not used. -/
def putMultiple (key data : Bytes) (_size : Int32) : Kt N Cursor (Int × Val × Val) :=
  put lib p key.toVal data.toVal .multiple

/-- A cursor and LMDB, as a machine putting one element after the other under a key. -/
def singles (key : Bytes) : Machine (Cursor × N) Bytes (Seen (Int × Val × Val)) where
  step s e := (put lib p key.toVal e.toVal .none).observe s.1 s.2

/-- Put at once, with the status 0, the elements leave the items that they leave put one
    after the other. -/
def AsSingles (lib : Library FixedDb) (key : Bytes) (es : Elements) (s : Cursor × FixedDb) : Prop :=
  let multiple := (putMultiple lib p key es.concat (.ofNat es.toList.length)).observe s.1 s.2
  ∀ k d, multiple.1.outcome = .ok (0, k, d) →
    multiple.2.2.items = ((singles lib p key).run s es.toList).2.items

variable {lib p} {c : Cursor} {key : Bytes} {es : Elements}

/-- A put makes one call, and leaves the cursor as it is. -/
theorem observe_put (key data : Val) (option : CursorPutOption) (n : N) :
    (put lib p key data option).observe c n =
      let r := lib.reply (.mdbCursorPut c.ptr key data option.option) n
      (⟨if r.rc = 0 ∨ p = .native ∧ r.rc = mdbNotfound then .ok (r.rc, r.key, r.data)
        else .error (getException lib r.rc), [(.mdbCursorPut c.ptr key data option.option, r)]⟩,
        c, lib.next (.mdbCursorPut c.ptr key data option.option) n) := by
  cases p <;> simp [Eff.observe, put]

section AsSingles

variable {others : Library FixedDb} {s : FixedDb}

theorem run_singles (es : List Bytes) :
    (singles (FixedDb.library others) p key).run (c, s) es = (c, s.putEach key es) := by
  induction es generalizing s with
  | nil => rfl
  | cons e es ih =>
    have hnext : (singles (FixedDb.library others) p key).next (c, s) e =
        (c, (s.put false key.toVal e.toVal).2) := by
      simp only [Machine.next, singles, observe_put]
      rfl
    rw [Machine.run_cons, hnext, ih]
    rfl

/-- What is asked for, in terms of LMDB. -/
theorem asSingles_iff_put :
    AsSingles p (FixedDb.library others) key es (c, s) ↔
      ((s.put true key.toVal es.concat.toVal).1.rc = 0 →
        (s.put true key.toVal es.concat.toVal).2.items = (s.putEach key es.toList).items) := by
  have hanswer : (FixedDb.library others).answer
      (.mdbCursorPut c.ptr key.toVal es.concat.toVal CursorPutOption.multiple.option) s =
      s.put true key.toVal es.concat.toVal := rfl
  simp only [AsSingles, putMultiple, observe_put, run_singles, Handler.reply, Handler.next, hanswer]
  constructor
  · intro h hrc
    refine h (s.put true key.toVal es.concat.toVal).1.key
      (s.put true key.toVal es.concat.toVal).1.data ?_
    rw [if_pos (.inl hrc), hrc]
  · intro h k d hok
    refine h ?_
    split at hok
    · injection hok with hok
      exact congrArg Prod.fst hok
    · cases hok

/-! ## The elements and what is behind them -/

/-- If the array may be put, so may each element. -/
theorem not_refuses_elements (haccepts : ¬s.Refuses key es.concat) :
    ∀ e ∈ es.toList, ¬s.Refuses key e := by
  intro e he hrefuses
  refine haccepts (hrefuses.imp_right (Or.imp_right (Or.imp_right fun h => ?_)))
  rw [es.length_eq e he] at h
  exact h.trans_le es.size_le_length_concat

theorem length_concat_le (haccepts : ¬s.Refuses key es.concat) : es.concat.toList.length ≤ 511 :=
  not_lt.1 fun h => haccepts (.inr (.inr (.inr h)))

theorem items_of_asSingles (haccepts : ¬s.Refuses key es.concat)
    (h : AsSingles p (FixedDb.library others) key es (c, s))
    (hrc : (s.putItems true key es.concat).rc = 0) :
    Fixed.items (s.putItems true key es.concat).found = (s.putEach key es.toList).items key := by
  have hitems := asSingles_iff_put.1 h ((FixedDb.rc_put haccepts).trans hrc)
  rw [FixedDb.next_put haccepts] at hitems
  rw [← congrFun hitems key, FixedDb.items]
  dsimp only
  rw [Function.update_self]

/-- If nothing is counted, the array is put as one item. -/
theorem items_of_asSingles_zero (haccepts : ¬s.Refuses key es.concat)
    (h : AsSingles p (FixedDb.library others) key es (c, s))
    (hgap : (s.around s.served).gap = 8) (hnext : (s.around s.served).next = 0)
    (hrc : (s.putItems false key es.concat).rc = 0) :
    Fixed.items (s.putItems false key es.concat).found = (s.putEach key es.toList).items key := by
  have hone : s.putItems true key es.concat = s.putItems false key es.concat :=
    Fixed.putMultiple_zero hgap hnext
  rw [← hone] at hrc ⊢
  exact items_of_asSingles haccepts h hrc

/-- If the array is not held, another item may be behind it. -/
theorem held_of_asSingles (hs : s.Sound) (haccepts : ¬s.Refuses key es.concat)
    (hapart : s.Apart key es.concat)
    (h : ∀ around, AsSingles p (FixedDb.library others) key es (c, { s with around })) :
    Fixed.Held s.order es.concat (s.content key) := by
  by_contra hheld
  have hpos := es.length_concat_pos
  have h511 := length_concat_le haccepts
  obtain ⟨y, hy, hmisses⟩ :=
    Fixed.exists_misses hpos h511 (hs key) hapart hheld (const 0)
  let around : Around := { beyond := fun _ => y.toList ++ₛ const 0 }
  let t : FixedDb := { s with around := fun _ => around }
  obtain ⟨hrc, hdone, hmisses⟩ := hmisses around (around.beyond 0) rfl rfl
  have hone : Fixed.items (t.putItems false key es.concat).found =
      (t.putEach key es.toList).items key :=
    items_of_asSingles_zero (s := t) haccepts (h fun _ => around) rfl rfl hrc
  -- if it is counted, it is put, too
  let r := Fixed.put s.order { around with next := 2 } 1 (t.putItems false key es.concat).found
    es.concat.toList.length (around.beyond 1)
  have htwo : (t.withNext 2).putItems true key es.concat = r :=
    Fixed.putMultiple_two rfl rfl hrc hdone
  have hread : Bytes.read (around.beyond 1) es.concat.toList.length = y := by
    rw [← hy, Bytes.read_append]
  rw [← hread] at hmisses
  obtain ⟨hrc', hne⟩ : r.rc = 0 ∧
      Fixed.items r.found ≠ Fixed.items (t.putItems false key es.concat).found :=
    Fixed.items_put_of_misses hpos rfl (Bytes.length_read _ h511) hmisses
  have hitems := items_of_asSingles (s := t.withNext 2) haccepts (h _) (by rw [htwo]; exact hrc')
  -- but not by the single puts
  rw [htwo, FixedDb.putEach_withNext] at hitems
  exact hne (hitems.trans hone.symm)

/-- An array put over the only item is one element: several are of another size. -/
theorem singleton_of_single {data : Bytes} (haccepts : ¬s.Refuses key es.concat)
    (hcontent : s.content key = some (.single data)) (h0 : s.order.cmp es.concat data = 0)
    (h : ∀ around, AsSingles p (FixedDb.library others) key es (c, { s with around })) :
    ∃ e, es.toList = [e] := by
  rw [← List.length_eq_one_iff]
  let t : FixedDb := { s with around := fun _ => {} }
  have hfound : t.putItems false key es.concat =
      { found := some (.single es.concat),
        done := data.toList.length = es.concat.toList.length } := by
    change Fixed.put s.order _ 0 (s.content key) _ _ = _
    simp only [hcontent, Fixed.put, Bytes.read_append, h0, if_true]
  have hitems := items_of_asSingles_zero (s := t) haccepts (h _) rfl rfl (by rw [hfound])
  rw [hfound] at hitems
  have hfits : Fixed.Fits es.size (t.content key) := by
    change Fixed.Fits es.size (s.content key)
    rw [hcontent]
    trivial
  have hwide := FixedDb.wide_putEach es.size_pos es.length_eq
    (not_refuses_elements (s := t) haccepts) hfits fun hnil => absurd hnil es.ne_nil
  have hsize : es.concat.toList.length = es.size := by
    refine hwide es.concat ?_
    rw [FixedDb.items] at hitems
    rw [← hitems]
    exact List.mem_singleton_self _
  rw [es.length_concat] at hsize
  exact Nat.eq_of_mul_eq_mul_right es.size_pos (hsize.trans (one_mul _).symm)

/-- If several elements are put into pages of items as large as the array, all arrays of that
    size are there already, and an item compares equal to each element. -/
theorem full_of_asSingles {items : List Bytes} (hs : s.Sound)
    (haccepts : ¬s.Refuses key es.concat)
    (hcontent : s.content key = some (.many es.concat.toList.length items))
    (htwo : 1 < es.toList.length)
    (h : ∀ around, AsSingles p (FixedDb.library others) key es (c, { s with around })) :
    es.concat ∈ items ∧ ∀ e ∈ es.toList, ∃ b ∈ items, s.order.cmp e b = 0 := by
  have hpos := es.length_concat_pos
  have h511 := length_concat_le haccepts
  have hsound := hs key _ hcontent
  have hlt : es.size < es.concat.toList.length := by
    rw [es.length_concat]
    exact (Nat.lt_mul_iff_one_lt_left es.size_pos).2 htwo
  -- a byte that the array does not have there is behind each element
  let b : Int8 := if es.concat.toList[es.size] = 0 then 1 else 0
  have hb : es.concat.toList[es.size] ≠ b := by
    by_cases h0 : es.concat.toList[es.size] = 0
    · simp [b, h0]
    · simp [b, h0]
  let t : FixedDb := { s with around := fun _ => { beyond := fun _ => const b } }
  have hput : t.putItems false key es.concat =
      { found := some (.many es.concat.toList.length
          (Fixed.insert s.order es.concat items)) } := by
    change Fixed.put s.order _ 0 (s.content key) _ _ = _
    simp only [hcontent, Fixed.put, Fixed.subPut_self hpos, Bytes.read_append]
  have hitems := items_of_asSingles_zero (s := t) haccepts (h _) rfl rfl (by rw [hput])
  rw [hput] at hitems
  obtain ⟨-, hmem, hall⟩ := FixedDb.items_putEach (s := t) es.size_pos es.length_eq
    (not_refuses_elements (s := t) haccepts) hlt h511 hcontent fun _ => rfl
  have hconcat : es.concat ∈ items := by
    refine (hmem es.concat (hitems ▸ Fixed.mem_insert_self)).resolve_right fun hget => ?_
    rw [List.getElem?_eq_getElem hlt] at hget
    exact hb (Option.some.inj hget)
  refine ⟨hconcat, fun e he => (Fixed.isSome_seek_iff hsound.2.2).1 (hall ?_ e he)⟩
  rw [← hitems]
  exact Fixed.insert_of_mem hsound.2.2 hconcat

/-- Putting an element by itself. -/
theorem items_putEach_singleton {e : Bytes} (haccepts : ¬s.Refuses key e) :
    (s.putEach key [e]).items key = Fixed.items (s.putItems false key e).found := by
  change ((s.put false key.toVal e.toVal).2).items key = _
  rw [FixedDb.next_put haccepts, FixedDb.items]
  dsimp only
  rw [Function.update_self]

/-- An element put over the only item begins with zeros, as it may be where they are written. -/
theorem blank_of_single {data e : Bytes} (he : es.toList = [e]) (haccepts : ¬s.Refuses key e)
    (hcontent : s.content key = some (.single data))
    (hlength : data.toList.length = e.toList.length) (h0 : s.order.cmp e data = 0)
    (h : ∀ around, AsSingles p (FixedDb.library others) key es (c, { s with around })) :
    e.Blank := by
  have hconcat := Elements.concat_of_eq_singleton he
  have hpos := es.length_concat_pos
  have haccepts' := haccepts
  rw [← hconcat] at haccepts'
  rw [hconcat] at hpos
  let around : Around := { gap := 0 }
  let t : FixedDb := { s with around := fun _ => around }
  let z := Bytes.read (around.memory e 0 0) e.toList.length
  by_contra hblank
  have hz : z ≠ e := fun hz => hblank (Around.blank_of_read_memory rfl hz)
  have hsingle : (t.putEach key es.toList).items key = [e] := by
    rw [he, items_putEach_singleton (s := t) haccepts]
    change Fixed.items (Fixed.put s.order _ 0 (s.content key) _ _).found = _
    simp only [hcontent, Fixed.put, Bytes.read_append, h0, if_true, Fixed.items]
  have hmultiple : t.putItems true key e =
      (Fixed.more s.order around e (around.count e - 1)
        (Fixed.putItem s.order around e 0 (some (.single data)) 0)).toPutItem := by
    rw [← hcontent]
    rfl
  have hitem : (Fixed.putItem s.order around e 0 (some (.single data)) 0).toPutItem =
      Fixed.put s.order around 0 (some (.single data)) e.toList.length (around.memory e 0 0) := by
    simp only [Fixed.putItem, Nat.zero_mul]
    rfl
  have hitems := items_of_asSingles (s := t) haccepts' (h fun _ => around)
  rw [hconcat, hsingle, hmultiple] at hitems
  by_cases hcmp : s.order.cmp z data = 0
  · -- it is written over the item as it is then
    have hput : (Fixed.putItem s.order around e 0 (some (.single data)) 0).toPutItem =
        { found := some (.single z), done := true } := by
      rw [hitem]
      simp only [Fixed.put, z] at hcmp ⊢
      rw [if_pos hcmp, decide_eq_true hlength]
    rw [Fixed.more_of_done (by rw [hput]), hput] at hitems
    exact hz (List.singleton_inj.1 (hitems rfl))
  · -- it is put behind the item
    have hput : (Fixed.putItem s.order around e 0 (some (.single data)) 0).toPutItem =
        { found := some (.many e.toList.length (Fixed.insert s.order z [data])) } := by
      have hdata : data.toList ≠ [] := List.ne_nil_of_length_pos (hlength ▸ hpos)
      rw [hitem]
      simp only [Fixed.put, z] at hcmp ⊢
      rw [if_neg hcmp, if_neg hdata, ← hlength, Bytes.read_append, hlength, Fixed.subPut_self hpos]
    obtain ⟨hrc, hle⟩ :=
      Fixed.length_more hpos (congrArg PutItem.rc hput) (congrArg PutItem.found hput) _
    rw [hitems hrc, Fixed.length_insert_of_unmatched (by simpa using hcmp)] at hle
    exact absurd hle (Nat.not_succ_le_self 1)

/-- So does one that is not among the others. -/
theorem blank_of_many {items : List Bytes} {e : Bytes} (hs : s.Sound) (he : es.toList = [e])
    (haccepts : ¬s.Refuses key e) (hcontent : s.content key = some (.many e.toList.length items))
    (hheld : Fixed.Held s.order e (s.content key)) (hmem : e ∉ items)
    (h : ∀ around, AsSingles p (FixedDb.library others) key es (c, { s with around })) :
    e.Blank := by
  have hconcat := Elements.concat_of_eq_singleton he
  have hpos := es.length_concat_pos
  have haccepts' := haccepts
  rw [← hconcat] at haccepts'
  rw [hconcat] at hpos
  have h511 : e.toList.length ≤ 511 := not_lt.1 fun h => haccepts (.inr (.inr (.inr h)))
  obtain ⟨-, -, hitems⟩ := hs key _ hcontent
  rw [hcontent] at hheld
  let around : Around := { gap := 0 }
  let t : FixedDb := { s with around := fun _ => around }
  by_contra hblank
  -- all that is put is zeros where it begins, and among the others
  have hthere : ∀ m, Bytes.read m e.toList.length ≠ e → Bytes.read m e.toList.length ∈ items :=
    fun m hne => (hheld.2.2 _ (Bytes.length_read m h511)).resolve_left hne
  have hfirst : Bytes.read (around.memory e 0 0) e.toList.length ∈ items :=
    hthere _ fun hz => hblank (Around.blank_of_read_memory rfl hz)
  have hrest : ∀ i, 0 < i →
      Bytes.read ((around.memory e i i).drop (i * e.toList.length)) e.toList.length ∈ items := by
    intro i hi
    rw [Around.drop_memory rfl rfl hi hpos]
    refine hthere _ fun hz => hblank ?_
    rw [← hz]
    exact Bytes.blank_read_const
  have hput : Fixed.putItem s.order around e 0 (s.content key) 0 =
      ⟨{ found := some (.many e.toList.length items) }, 0, 1⟩ := by
    rw [hcontent, Fixed.putItem_many hpos, Nat.zero_mul, Stream'.drop_zero,
      Fixed.insert_of_mem hitems hfirst]
  have hrc : (t.putItems true key e).rc = 0 := by
    change (Fixed.more s.order around e _
      (Fixed.putItem s.order around e 0 (s.content key) 0)).rc = 0
    rw [hput]
    exact (Fixed.length_more hpos rfl rfl _).1
  have hfound : (t.putItems true key e).found = some (.many e.toList.length items) := by
    change (Fixed.more s.order around e _
      (Fixed.putItem s.order around e 0 (s.content key) 0)).found = _
    rw [hput]
    exact Fixed.found_more hpos hitems hrest rfl rfl _
  have hsame := items_of_asSingles (s := t) haccepts' (h fun _ => around)
    (by rw [hconcat]; exact hrc)
  rw [hconcat, hfound, he, items_putEach_singleton (s := t) haccepts] at hsame
  -- by itself, it is put
  have hsingle : (t.putItems false key e).found =
      some (.many e.toList.length (Fixed.insert s.order e items)) := by
    change (Fixed.put s.order _ 0 (s.content key) _ _).found = _
    simp only [hcontent, Fixed.put, Fixed.subPut_self hpos, Bytes.read_append]
  rw [hsingle] at hsame
  have hmem' : e ∈ Fixed.insert s.order e items := Fixed.mem_insert_self
  exact hmem (Eq.mp (congrArg (e ∈ ·) hsame.symm) hmem')

/-- A put that is refused has another status. -/
theorem asSingles_of_refuses (hrefuses : s.Refuses key es.concat) :
    AsSingles p (FixedDb.library others) key es (c, s) :=
  asSingles_iff_put.2 fun hrc => absurd hrc (FixedDb.rc_put_of_refuses hrefuses)

/-- Where all arrays of its size are there, and an item compares equal to each element, nothing
    is put at all. -/
theorem asSingles_of_full (hs : s.Sound) (haccepts : ¬s.Refuses key es.concat)
    (hfull : Fixed.Full es.concat.toList.length (s.content key))
    (hmatched : ∀ e ∈ es.toList, ∃ b ∈ s.items key, s.order.cmp e b = 0) :
    AsSingles p (FixedDb.library others) key es (c, s) := by
  have hpos := es.length_concat_pos
  have h511 := length_concat_le haccepts
  obtain ⟨items, hcontent, hall⟩ := hfull.exists_items
  obtain ⟨-, -, hitems⟩ := hs key _ hcontent
  have hread : ∀ m, Bytes.read m es.concat.toList.length ∈ items :=
    fun m => hall _ (Bytes.length_read m h511)
  have hfound : (s.putItems true key es.concat).found = s.content key := by
    change (Fixed.more s.order (s.around s.served) es.concat _
      (Fixed.putItem s.order (s.around s.served) es.concat 0 (s.content key) 0)).found = _
    rw [hcontent, Fixed.putItem_many hpos, Fixed.insert_of_mem hitems (hread _)]
    exact Fixed.found_more hpos hitems (fun _ _ => hread _) rfl rfl _
  refine asSingles_iff_put.2 fun _ => ?_
  rw [FixedDb.items, hcontent, Fixed.items] at hmatched
  have heach : (s.putEach key es.toList).content = s.content :=
    FixedDb.content_putEach es.size_pos es.length_eq (not_refuses_elements haccepts) hcontent
      hitems (fun hsize e he => hall e ((es.length_eq e he).trans hsize)) hmatched
  rw [FixedDb.next_put haccepts, hfound, Function.update_eq_self]
  funext k
  rw [FixedDb.items, FixedDb.items, heach]

/-- One element that begins with zeros and is held is put as by a single put. -/
theorem asSingles_of_held (hs : s.Sound) (haccepts : ¬s.Refuses key es.concat) {e : Bytes}
    (he : es.toList = [e]) (hblank : e.Blank) (hheld : Fixed.Held s.order e (s.content key)) :
    AsSingles p (FixedDb.library others) key es (c, s) := by
  have hpos := es.length_concat_pos
  have h511 := length_concat_le haccepts
  rw [asSingles_iff_put, he]
  rw [Elements.concat_of_eq_singleton he] at haccepts hpos h511 ⊢
  intro _
  have hread : Bytes.read ((s.around s.served).memory e 0 0) e.toList.length = e :=
    Around.read_memory_of_blank hblank
  have hfound : (s.putItems true key e).found = (s.putItems false key e).found := by
    change (Fixed.more s.order (s.around s.served) e _
      (Fixed.putItem s.order (s.around s.served) e 0 (s.content key) 0)).found =
        (Fixed.put s.order (s.around s.served) 0 (s.content key) _ _).found
    rcases hheld.cases with ⟨data, hcontent, hlength, h0⟩ | ⟨items, hcontent⟩
    · -- it is written over the item, and the request ends
      have hput :
          (Fixed.putItem s.order (s.around s.served) e 0 (some (.single data)) 0).toPutItem =
            { found := some (.single e), done := true } := by
        simp only [Fixed.putItem, Nat.zero_mul, Stream'.drop_zero, Fixed.put, hread, h0, if_true,
          hlength, decide_true]
      rw [hcontent, Fixed.more_of_done (by rw [hput]), hput]
      simp only [Fixed.put, Bytes.read_append, h0, if_true]
    · -- after the first put, no item of its size is missing
      have hsound := hs key _ hcontent
      rw [hcontent] at hheld ⊢
      have hall := (Fixed.held_many_iff hsound).1 hheld
      rw [Fixed.putItem_many hpos, Nat.zero_mul, Stream'.drop_zero, hread]
      simp only [Fixed.put, Fixed.subPut_self hpos, Bytes.read_append]
      exact Fixed.found_more hpos (Fixed.ascending_insert hsound.2.2)
        (fun _ _ => hall _ (Bytes.length_read _ h511)) rfl rfl _
  rw [FixedDb.next_put haccepts, hfound]
  change _ = ((s.put false key.toVal e.toVal).2).items
  rw [FixedDb.next_put haccepts]

end AsSingles

end Cursor

end KotlinLmdb
