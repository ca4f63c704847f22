import Mathlib.Data.Nat.Digits.Defs
import Mathlib.Order.Defs.LinearOrder

/-!
# The order of encodings

Two encodings into lists of bytes, and how the lexicographic order of the bytes
relates to the order of what they encode.

* UTF-8 keeps the order: encoded strings compare as their code points do
  (`compare_utf8`). Where two characters differ, so do their encodings, at a byte
  both have (`below_encodeChar`); hence none is a prefix of the other, and the rest
  of the strings does not matter.
* Numbers of equal length, most significant byte first, compare as their bytes do
  (`compare_bigEndian`), and without leading zeros, longer ones are greater
  (`bigEndian_lt_of_length_lt`).
-/

namespace KotlinLmdb

/-! ## Lists decided at an index -/

/-- The first list is less than the second at an index both have. -/
def Below : List ℕ → List ℕ → Prop
  | x :: xs, y :: ys => x < y ∨ x = y ∧ Below xs ys
  | _, _ => False

@[simp]
theorem below_cons_cons {x y : ℕ} {xs ys : List ℕ} :
    Below (x :: xs) (y :: ys) ↔ x < y ∨ x = y ∧ Below xs ys := Iff.rfl

/-- That decides the comparison, however the lists go on. -/
theorem compare_append_of_below {xs ys : List ℕ} (h : Below xs ys) (xs' ys' : List ℕ) :
    compare (xs ++ xs') (ys ++ ys') = .lt := by
  induction xs generalizing ys with
  | nil => exact h.elim
  | cons x xs ih =>
    cases ys with
    | nil => exact h.elim
    | cons y ys =>
      rw [List.cons_append, List.cons_append, List.compare_cons_cons]
      rcases h with h | ⟨rfl, h⟩
      · rw [Nat.compare_eq_lt.2 h, Ordering.lt_then]
      · rw [Nat.compare_eq_eq.2 rfl, Ordering.eq_then, ih h]

/-- A common prefix does not matter. -/
theorem compare_append_left (p xs ys : List ℕ) :
    compare (p ++ xs) (p ++ ys) = compare xs ys := by
  induction p with
  | nil => rfl
  | cons x p ih =>
    rw [List.cons_append, List.cons_append, List.compare_cons_cons, Nat.compare_eq_eq.2 rfl,
      Ordering.eq_then, ih]

/-! ## UTF-8 -/

/-- The bytes of a character. -/
def encodeChar (c : Char) : List ℕ := (String.utf8EncodeChar c).map UInt8.toNat

/-- The bytes of a string, in the standard encoding. -/
def utf8 (s : List Char) : List UInt8 := s.flatMap String.utf8EncodeChar

theorem map_utf8_cons (c : Char) (s : List Char) :
    (utf8 (c :: s)).map UInt8.toNat = encodeChar c ++ (utf8 s).map UInt8.toNat := by
  rw [utf8, List.flatMap_cons, List.map_append]
  rfl

theorem encodeChar_ne_nil (c : Char) : encodeChar c ≠ [] := by
  rw [encodeChar, Ne, List.map_eq_nil_iff]
  exact String.utf8EncodeChar_ne_nil

theorem toNat_lt (c : Char) : c.toNat < 0x110000 := by
  rcases c.valid with h | h
  · exact Nat.lt_trans h (by decide)
  · exact h.2

/-- The four lengths of an encoding. -/
theorem encodeChar_eq (c : Char) :
    c.toNat ≤ 0x7f ∧ encodeChar c = [c.toNat] ∨
      (0x7f < c.toNat ∧ c.toNat ≤ 0x7ff) ∧
        encodeChar c = [c.toNat / 64 + 0xc0, c.toNat % 64 + 0x80] ∨
      (0x7ff < c.toNat ∧ c.toNat ≤ 0xffff) ∧ encodeChar c =
        [c.toNat / 4096 + 0xe0, c.toNat / 64 % 64 + 0x80, c.toNat % 64 + 0x80] ∨
      0xffff < c.toNat ∧ encodeChar c = [c.toNat / 262144 + 0xf0, c.toNat / 4096 % 64 + 0x80,
        c.toNat / 64 % 64 + 0x80, c.toNat % 64 + 0x80] := by
  have hlt := toNat_lt c
  have hval : c.val.toNat = c.toNat := rfl
  rw [encodeChar, String.utf8EncodeChar]
  simp only [hval]
  split_ifs with h1 h2 h3
  · refine .inl ⟨h1, ?_⟩
    simp only [List.map_cons, List.map_nil, UInt8.toNat_ofNat', List.cons.injEq, and_true]
    omega
  · refine .inr (.inl ⟨⟨Nat.lt_of_not_le h1, h2⟩, ?_⟩)
    simp only [List.map_cons, List.map_nil, UInt8.toNat_ofNat', List.cons.injEq, and_true]
    omega
  · refine .inr (.inr (.inl ⟨⟨Nat.lt_of_not_le h2, h3⟩, ?_⟩))
    simp only [List.map_cons, List.map_nil, UInt8.toNat_ofNat', List.cons.injEq, and_true]
    omega
  · refine .inr (.inr (.inr ⟨Nat.lt_of_not_le h3, ?_⟩))
    simp only [List.map_cons, List.map_nil, UInt8.toNat_ofNat', List.cons.injEq, and_true]
    omega

/-- The encoding of a lesser character is less, at a byte both have. -/
theorem below_encodeChar {c d : Char} (h : c.toNat < d.toNat) :
    Below (encodeChar c) (encodeChar d) := by
  have hd := toNat_lt d
  rcases encodeChar_eq c with ⟨hc, hcs⟩ | ⟨hc, hcs⟩ | ⟨hc, hcs⟩ | ⟨hc, hcs⟩ <;>
    rcases encodeChar_eq d with ⟨hd, hds⟩ | ⟨hd, hds⟩ | ⟨hd, hds⟩ | ⟨hd, hds⟩ <;>
    rw [hcs, hds] <;> simp only [below_cons_cons] <;> omega

/-- Strings in UTF-8 compare as their code points do. -/
theorem compare_utf8 (s t : List Char) :
    compare ((utf8 s).map UInt8.toNat) ((utf8 t).map UInt8.toNat) =
      compare (s.map Char.toNat) (t.map Char.toNat) := by
  induction s generalizing t with
  | nil =>
    cases t with
    | nil => rfl
    | cons d t =>
      rw [map_utf8_cons]
      obtain ⟨x, xs, hx⟩ := List.exists_cons_of_ne_nil (encodeChar_ne_nil d)
      rw [hx]
      rfl
  | cons c s ih =>
    cases t with
    | nil =>
      rw [map_utf8_cons]
      obtain ⟨x, xs, hx⟩ := List.exists_cons_of_ne_nil (encodeChar_ne_nil c)
      rw [hx]
      rfl
    | cons d t =>
      rw [map_utf8_cons, map_utf8_cons, List.map_cons, List.map_cons, List.compare_cons_cons]
      rcases Nat.lt_trichotomy c.toNat d.toNat with h | h | h
      · rw [compare_append_of_below (below_encodeChar h), Nat.compare_eq_lt.2 h]
        rfl
      · obtain rfl : c = d := Char.toNat_inj.1 h
        rw [compare_append_left, ih, Nat.compare_eq_eq.2 rfl]
        rfl
      · -- the other way round
        have hswap := compare_append_of_below (below_encodeChar h) ((utf8 t).map UInt8.toNat)
          ((utf8 s).map UInt8.toNat)
        rw [@Std.OrientedCmp.eq_swap _ compare, hswap, Nat.compare_eq_gt.2 h]
        rfl

/-! ## Big-endian numbers -/

/-- The number written by digits to the base 256, the most significant first. -/
def bigEndian (xs : List ℕ) : ℕ := Nat.ofDigits 256 xs.reverse

theorem bigEndian_cons (x : ℕ) (xs : List ℕ) :
    bigEndian (x :: xs) = bigEndian xs + 256 ^ xs.length * x := by
  rw [bigEndian, Nat.ofDigits_reverse_cons, bigEndian]

theorem bigEndian_lt {xs : List ℕ} (h : ∀ x ∈ xs, x < 256) : bigEndian xs < 256 ^ xs.length := by
  rw [bigEndian, ← List.length_reverse]
  exact Nat.ofDigits_lt_base_pow_length (by decide) fun x hx => h x (List.mem_reverse.1 hx)

/-- Where the leading digits differ, they decide. -/
theorem bigEndian_lt_of_lt {x y : ℕ} {xs ys : List ℕ} (hxs : ∀ x ∈ xs, x < 256)
    (hlength : xs.length = ys.length) (h : x < y) :
    bigEndian (x :: xs) < bigEndian (y :: ys) := by
  rw [bigEndian_cons, bigEndian_cons, ← hlength]
  calc bigEndian xs + 256 ^ xs.length * x
      < 256 ^ xs.length + 256 ^ xs.length * x := Nat.add_lt_add_right (bigEndian_lt hxs) _
    _ = 256 ^ xs.length * (x + 1) := by rw [Nat.mul_add, Nat.mul_one, Nat.add_comm]
    _ ≤ 256 ^ xs.length * y := Nat.mul_le_mul_left _ h
    _ ≤ bigEndian ys + 256 ^ xs.length * y := Nat.le_add_left _ _

/-- Numbers of the same length compare as their digits do. -/
theorem compare_bigEndian {xs ys : List ℕ} (hxs : ∀ x ∈ xs, x < 256) (hys : ∀ y ∈ ys, y < 256)
    (hlength : xs.length = ys.length) :
    compare (bigEndian xs) (bigEndian ys) = compare xs ys := by
  induction xs generalizing ys with
  | nil =>
    obtain rfl := List.length_eq_zero_iff.1 hlength.symm
    rfl
  | cons x xs ih =>
    cases ys with
    | nil => cases hlength
    | cons y ys =>
      have hxs' := fun x hx => hxs x (List.mem_cons_of_mem _ hx)
      have hys' := fun y hy => hys y (List.mem_cons_of_mem _ hy)
      have hlength' : xs.length = ys.length := Nat.succ.inj hlength
      rw [List.compare_cons_cons]
      rcases Nat.lt_trichotomy x y with h | rfl | h
      · rw [Nat.compare_eq_lt.2 (bigEndian_lt_of_lt hxs' hlength' h), Nat.compare_eq_lt.2 h,
          Ordering.lt_then]
      · rw [Nat.compare_eq_eq.2 rfl, Ordering.eq_then, ← ih hxs' hys' hlength', bigEndian_cons,
          bigEndian_cons, hlength', Nat.compare_eq_ite_lt, Nat.compare_eq_ite_lt]
        simp only [Nat.add_lt_add_iff_right]
      · rw [Nat.compare_eq_gt.2 (bigEndian_lt_of_lt hys' hlength'.symm h), Nat.compare_eq_gt.2 h,
          Ordering.gt_then]

/-- Without a leading zero, the longer number is the greater one. -/
theorem bigEndian_lt_of_length_lt {xs ys : List ℕ} (hxs : ∀ x ∈ xs, x < 256)
    (hlead : ys.head? ≠ some 0) (hlength : xs.length < ys.length) :
    bigEndian xs < bigEndian ys := by
  cases ys with
  | nil => cases hlength
  | cons y ys =>
    have hy : 0 < y := Nat.pos_of_ne_zero fun h => hlead (congrArg some h)
    calc bigEndian xs < 256 ^ xs.length := bigEndian_lt hxs
      _ ≤ 256 ^ ys.length := Nat.pow_le_pow_right (by decide) (Nat.le_of_lt_succ hlength)
      _ ≤ 256 ^ ys.length * y := Nat.le_mul_of_pos_right _ hy
      _ ≤ bigEndian (y :: ys) := by
        rw [bigEndian_cons]
        exact Nat.le_add_left _ _

end KotlinLmdb
