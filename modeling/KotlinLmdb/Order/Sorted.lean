import KotlinLmdb.Order.ThreeWay
import Mathlib.Data.List.Pairwise
import Mathlib.Data.List.TakeWhile

/-!
# Looking up in sorted lists

A list of entries in strictly ascending order of their keys, by a three-way comparer
(`Ascending`), is searched for a key: for the entry comparing equal to it, or for the
first one that is not less (`seek`).

A new entry has its place before the first one that is not less (`place`).

An entry whose key is the one searched for is what the search finds (`seek_of_mem`);
otherwise it may find another one. So what it finds has the key searched for exactly
if an entry has, or nothing is found (`seek_key_iff`).
-/

namespace KotlinLmdb

variable {α β : Type*} {cmp : α → α → Int32} {key : β → α} {l : List β} {x : α} {b : β}
  {exact : Bool}

/-- The entries are in strictly ascending order of their keys. -/
def Ascending (cmp : α → α → Int32) (key : β → α) (l : List β) : Prop :=
  l.Pairwise fun b b' => (cmp (key b) (key b')).toInt < 0

instance : Decidable (Ascending cmp key l) := inferInstanceAs (Decidable (List.Pairwise _ l))

/-- How the key searched for compares to that of an entry looked for: equal, or at most
    equal. -/
def Matches (exact : Bool) (c : Int32) : Prop := if exact then c = 0 else c.toInt ≤ 0

instance (c : Int32) : Decidable (Matches exact c) := inferInstanceAs (Decidable (ite ..))

/-- The first entry not less than a key, which has to be equal if it is to be exact. -/
def seek (cmp : α → α → Int32) (key : β → α) (exact : Bool) (x : α) (l : List β) : Option β :=
  (l.find? fun b => (cmp x (key b)).toInt ≤ 0).filter fun b => Matches exact (cmp x (key b))

theorem Matches.le {c : Int32} (h : Matches exact c) : c.toInt ≤ 0 := by
  cases exact
  · exact h
  · obtain rfl : c = 0 := h
    decide

theorem IsTotalPreorder.refl (hcmp : IsTotalPreorder cmp) (x : α) : cmp x x = 0 := by
  have h := hcmp.sign_swap x x
  rw [← Int32.toInt_inj]
  exact Int.sign_eq_zero_iff_zero.1 (by omega)

/-- Swapping the arguments tells less from greater. -/
theorem IsTotalPreorder.neg_iff (hcmp : IsTotalPreorder cmp) (x y : α) :
    (cmp x y).toInt < 0 ↔ 0 < (cmp y x).toInt := by
  have h := hcmp.sign_swap x y
  rw [← Int.sign_eq_neg_one_iff_neg, ← Int.sign_eq_one_iff_pos]
  omega

/-- What a key is less or equal to is less than anything greater. -/
theorem IsTotalPreorder.lt_of_le_of_lt (hcmp : IsTotalPreorder cmp) {x y z : α}
    (hxy : (cmp x y).toInt ≤ 0) (hyz : (cmp y z).toInt < 0) : (cmp x z).toInt < 0 := by
  by_contra hxz
  -- otherwise `z ≤ x ≤ y`
  have hzx : (cmp z x).toInt ≤ 0 := by
    have := hcmp.neg_iff x z
    have := hcmp.neg_iff z x
    omega
  have hzy := hcmp.trans z x y hzx hxy
  have := (hcmp.neg_iff y z).1 hyz
  omega

/-- What is found matches. -/
theorem seek_spec (h : seek cmp key exact x l = some b) :
    b ∈ l ∧ Matches exact (cmp x (key b)) := by
  obtain ⟨hfind, hmatches⟩ := Option.filter_eq_some_iff.1 h
  exact ⟨List.mem_of_find?_eq_some hfind, of_decide_eq_true hmatches⟩

/-- An entry with the key searched for is found. -/
theorem seek_of_mem (hcmp : IsTotalPreorder cmp) (hl : Ascending cmp key l) (hb : b ∈ l) :
    seek cmp key exact (key b) l = some b := by
  have hfind : l.find? (fun b' => (cmp (key b) (key b')).toInt ≤ 0) = some b := by
    obtain ⟨as, bs, rfl⟩ := List.append_of_mem hb
    refine List.find?_eq_some_iff_append.2 ⟨by simp [hcmp.refl], as, bs, rfl, fun a ha => ?_⟩
    -- the entries before it are less
    have hlt : (cmp (key a) (key b)).toInt < 0 :=
      (List.pairwise_append.1 hl).2.2 a ha b List.mem_cons_self
    have := (hcmp.neg_iff (key a) (key b)).1 hlt
    simpa using this
  rw [seek, hfind, Option.filter_some, if_pos]
  cases exact <;> simp [Matches, hcmp.refl]

/-- Nothing is found if nothing matches. -/
theorem seek_eq_none (hcmp : IsTotalPreorder cmp) (hl : Ascending cmp key l) :
    seek cmp key exact x l = none ↔ ∀ b ∈ l, ¬Matches exact (cmp x (key b)) := by
  constructor
  · intro h b hb hmatches
    have hle := hmatches.le
    cases hfind : l.find? fun b' => (cmp x (key b')).toInt ≤ 0 with
    | none => exact List.find?_eq_none.1 hfind b hb (decide_eq_true hle)
    | some b' =>
      obtain ⟨hb', as, bs, rfl, has⟩ := List.find?_eq_some_iff_append.1 hfind
      have hno : ¬Matches exact (cmp x (key b')) := by simpa [seek, hfind] using h
      rcases List.mem_append.1 hb with hb | hb
      · simpa [hle] using has b hb
      rcases List.mem_cons.1 hb with rfl | hb
      · exact hno hmatches
      · -- a later entry is greater, so that it is no exact match
        cases exact
        · exact hno (of_decide_eq_true hb')
        · have hlt : (cmp (key b') (key b)).toInt < 0 :=
            List.rel_of_pairwise_cons (List.pairwise_append.1 hl).2.1 hb
          have := hcmp.lt_of_le_of_lt (of_decide_eq_true hb') hlt
          have h0 : cmp x (key b) = 0 := hmatches
          rw [h0] at this
          exact absurd this (by decide)
  · intro h
    by_contra hne
    obtain ⟨b, hb⟩ := Option.ne_none_iff_exists'.1 hne
    exact h b (seek_spec hb).1 (seek_spec hb).2

/-- At most one entry compares equal to a key. -/
theorem Ascending.unique (hcmp : IsTotalPreorder cmp) (hl : Ascending cmp key l) {b' : β}
    (hb : b ∈ l) (hb' : b' ∈ l) (h : cmp x (key b) = 0) (h' : cmp x (key b') = 0) : b = b' := by
  have hne : l.Pairwise fun b b' => ¬(cmp x (key b) = 0 ∧ cmp x (key b') = 0) := by
    refine hl.imp fun {b b'} hlt heq => ?_
    have := hcmp.lt_of_le_of_lt (x := x) (by rw [heq.1]; decide) hlt
    rw [heq.2] at this
    exact absurd this (by decide)
  have hsymm : Std.Symm fun b b' => ¬(cmp x (key b) = 0 ∧ cmp x (key b') = 0) :=
    ⟨fun _ _ hn heq => hn heq.symm⟩
  by_contra hbb
  exact hne.forall hb hb' hbb ⟨h, h'⟩

/-- What is found has the key searched for exactly if an entry has it, or none matches. -/
theorem seek_key_iff (hcmp : IsTotalPreorder cmp) (hl : Ascending cmp key l) :
    (∀ b, seek cmp key exact x l = some b → key b = x) ↔
      (∃ b ∈ l, key b = x) ∨ ∀ b ∈ l, ¬Matches exact (cmp x (key b)) := by
  constructor
  · intro h
    cases hseek : seek cmp key exact x l with
    | none => exact .inr ((seek_eq_none hcmp hl).1 hseek)
    | some b => exact .inl ⟨b, (seek_spec hseek).1, h b hseek⟩
  · rintro (⟨b, hb, rfl⟩ | h) b' hseek
    · rw [seek_of_mem hcmp hl hb] at hseek
      rw [Option.some.inj hseek]
    · rw [(seek_eq_none hcmp hl).2 h] at hseek
      cases hseek

/-! ## Insertion -/

/-- An entry put where a key is to be, before the first entry not less. -/
def place (cmp : α → α → Int32) (key : β → α) (x : α) (b : β) (l : List β) : List β :=
  l.takeWhile (fun b' => 0 < (cmp x (key b')).toInt) ++
    b :: l.dropWhile fun b' => 0 < (cmp x (key b')).toInt

@[simp]
theorem length_place : (place cmp key x b l).length = l.length + 1 := by
  have h := congrArg List.length
    (List.takeWhile_append_dropWhile (p := fun b' => 0 < (cmp x (key b')).toInt) (l := l))
  rw [List.length_append] at h
  rw [place, List.length_append, List.length_cons]
  omega

@[simp]
theorem mem_place {b' : β} : b' ∈ place cmp key x b l ↔ b' = b ∨ b' ∈ l := by
  have h : b' ∈ l.takeWhile (fun b' => 0 < (cmp x (key b')).toInt) ++
      l.dropWhile (fun b' => 0 < (cmp x (key b')).toInt) ↔ b' ∈ l := by
    rw [List.takeWhile_append_dropWhile]
  rw [← h, place]
  simp only [List.mem_append, List.mem_cons]
  tauto

/-- The entries from its place on are greater. -/
theorem lt_of_mem_dropWhile (hcmp : IsTotalPreorder cmp) (hl : Ascending cmp key l)
    (hx : ∀ b ∈ l, cmp x (key b) ≠ 0)
    (hb : b ∈ l.dropWhile fun b' => 0 < (cmp x (key b')).toInt) : (cmp x (key b)).toInt < 0 := by
  induction l with
  | nil => cases hb
  | cons a l ih =>
    obtain ⟨hal, hl⟩ := List.pairwise_cons.1 hl
    obtain ⟨hxa, hxl⟩ := List.forall_mem_cons.1 hx
    rw [List.dropWhile_cons] at hb
    split at hb
    · exact ih hl hxl hb
    · -- the first one that is not less, and not equal
      rename_i hle
      have hne : (cmp x (key a)).toInt ≠ 0 := fun h0 => hxa (Int32.toInt_inj.1 h0)
      have hlt : (cmp x (key a)).toInt < 0 := by simp at hle; omega
      rcases List.mem_cons.1 hb with rfl | hb
      · exact hlt
      · exact hcmp.lt_of_le_of_lt hlt.le (hal b hb)

/-- A new entry in its place keeps the order. -/
theorem ascending_place (hcmp : IsTotalPreorder cmp) (hl : Ascending cmp key l)
    (hb : ∀ b' ∈ l, cmp (key b) (key b') ≠ 0) : Ascending cmp key (place cmp key (key b) b l) := by
  have hl' := hl
  rw [← List.takeWhile_append_dropWhile (p := fun b' => 0 < (cmp (key b) (key b')).toInt) (l := l),
    Ascending, List.pairwise_append] at hl'
  obtain ⟨hbefore, hafter, hbetween⟩ := hl'
  refine List.pairwise_append.2 ⟨hbefore, List.pairwise_cons.2 ⟨fun b' hb' => ?_, hafter⟩, ?_⟩
  · exact lt_of_mem_dropWhile hcmp hl hb hb'
  · intro a ha b' hb'
    rcases List.mem_cons.1 hb' with rfl | hb'
    · have hless := List.mem_takeWhile_imp ha
      exact (hcmp.neg_iff _ _).2 (of_decide_eq_true hless)
    · exact hbetween a ha b' hb'

end KotlinLmdb
