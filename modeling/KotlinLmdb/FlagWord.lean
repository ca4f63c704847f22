import Mathlib.Data.List.Nodup

/-!
# Flag words

Options encoded in a word: each option has a bit (`OwnBits`), a list of options is
the or of their bits (`orFlags`), and an option is in a word if its bits are
(`HasFlag`). Changing a word flag by flag (`turnAll`), each at most once, leaves each
flag the way it was turned, and the others as they were.
-/

namespace KotlinLmdb

variable {α : Type}

/-- Or-ing the bits of a list of options: each enum's `toFlags`. -/
def orFlags (option : α → UInt32) (options : List α) : UInt32 :=
  options.foldl (fun acc value => acc ||| option value) 0

/-- All bits of the flag are in the word. -/
def HasFlag (word flag : UInt32) : Prop := word &&& flag = flag

/-- A word with a flag turned on or off. -/
def turn (word flag : UInt32) : Bool → UInt32
  | true => word ||| flag
  | false => word &&& ~~~flag

/-- A word with flags turned on or off, one after the other. -/
def turnAll (option : α → UInt32) (changes : List (Bool × α)) (word : UInt32) : UInt32 :=
  changes.foldl (fun word c => turn word (option c.2) c.1) word

/-! ## Masks -/

theorem or_and (a b mask : UInt32) : (a ||| b) &&& mask = (a &&& mask) ||| (b &&& mask) := by
  rw [← UInt32.toBitVec_inj]
  ext i hi
  simp [Bool.and_or_distrib_right]

/-- Flags are in a word of flags or-ed if they are in one of both. -/
theorem or_and_eq_zero (a b mask : UInt32) :
    (a ||| b) &&& mask = 0 ↔ a &&& mask = 0 ∧ b &&& mask = 0 := by
  rw [or_and, UInt32.or_eq_zero_iff]

/-- Of the flags of a mask none is in a word if none is in an option. -/
theorem orFlags_and_eq_zero (option : α → UInt32) (options : List α) (mask : UInt32) :
    orFlags option options &&& mask = 0 ↔ ∀ o ∈ options, option o &&& mask = 0 := by
  have h : ∀ (options : List α) (acc : UInt32),
      options.foldl (fun acc value => acc ||| option value) acc &&& mask = 0 ↔
        acc &&& mask = 0 ∧ ∀ o ∈ options, option o &&& mask = 0 := by
    intro options
    induction options with
    | nil => simp
    | cons o options ih =>
      intro acc
      rw [List.foldl_cons, ih, or_and_eq_zero, List.forall_mem_cons, and_assoc]
  rw [orFlags, h]
  simp

/-- Turning a flag leaves alone what is outside of it. -/
theorem turn_and {flag mask : UInt32} (h : flag &&& mask = 0) (word : UInt32) (onoff : Bool) :
    turn word flag onoff &&& mask = word &&& mask := by
  cases onoff
  · -- where the mask has a bit, the flag has none
    rw [turn, ← UInt32.toBitVec_inj]
    rw [← UInt32.toBitVec_inj] at h
    ext i hi
    have hbit := congrArg (·[i]) h
    simp only [UInt32.toBitVec_and, BitVec.getElem_and] at hbit
    simp only [UInt32.toBitVec_and, UInt32.toBitVec_not, BitVec.getElem_and, BitVec.getElem_not]
    cases hmask : mask.toBitVec[i]
    · simp
    · rw [hmask, Bool.and_true] at hbit
      simp [hbit]
  · rw [turn, or_and, h, UInt32.or_zero]

/-- Turning flags leaves alone what is outside of them. -/
theorem turnAll_and {option : α → UInt32} {changes : List (Bool × α)} {mask : UInt32}
    (h : ∀ c ∈ changes, option c.2 &&& mask = 0) (word : UInt32) :
    turnAll option changes word &&& mask = word &&& mask := by
  induction changes generalizing word with
  | nil => rfl
  | cons c changes ih =>
    rw [List.forall_mem_cons] at h
    exact (ih h.2 _).trans (turn_and h.1 word c.1)

/-! ## Options with bits of their own -/

/-- Each option has one bit, which is no other's. -/
structure OwnBits (option : α → UInt32) where
  bit : α → ℕ
  lt : ∀ a, bit a < 32
  injective : Function.Injective bit
  eq_twoPow : ∀ a, (option a).toBitVec = BitVec.twoPow 32 (bit a)

namespace OwnBits

variable {option : α → UInt32} (bits : OwnBits option)
include bits

theorem twoPow_ne_zero (a : α) : BitVec.twoPow 32 (bits.bit a) ≠ 0#32 := by
  intro h
  have hbit := congrArg (·.getLsbD (bits.bit a)) h
  simp [bits.lt a] at hbit

/-- An option is in a word if its bit is set. -/
theorem hasFlag_iff (word : UInt32) (a : α) :
    HasFlag word (option a) ↔ word.toBitVec.getLsbD (bits.bit a) := by
  rw [HasFlag, ← UInt32.toBitVec_inj, UInt32.toBitVec_and, bits.eq_twoPow, BitVec.and_twoPow]
  by_cases hbit : word.toBitVec.getLsbD (bits.bit a)
  · simp [hbit]
  · simp [hbit, (bits.twoPow_ne_zero a).symm]

theorem getLsbD_option (a b : α) :
    (option b).toBitVec.getLsbD (bits.bit a) ↔ a = b := by
  rw [bits.eq_twoPow, BitVec.getLsbD_twoPow, ← bits.injective.eq_iff]
  simp [bits.lt b, eq_comm]

theorem not_hasFlag_zero (a : α) : ¬HasFlag 0 (option a) := by
  simp [bits.hasFlag_iff]

theorem hasFlag_or (v w : UInt32) (a : α) :
    HasFlag (v ||| w) (option a) ↔ HasFlag v (option a) ∨ HasFlag w (option a) := by
  simp [bits.hasFlag_iff]

theorem hasFlag_and (v w : UInt32) (a : α) :
    HasFlag (v &&& w) (option a) ↔ HasFlag v (option a) ∧ HasFlag w (option a) := by
  simp [bits.hasFlag_iff]

theorem hasFlag_option (a b : α) : HasFlag (option b) (option a) ↔ a = b := by
  rw [bits.hasFlag_iff, bits.getLsbD_option]

theorem hasFlag_and_not (word : UInt32) (a b : α) :
    HasFlag (word &&& ~~~option b) (option a) ↔ HasFlag word (option a) ∧ a ≠ b := by
  simp only [bits.hasFlag_iff, UInt32.toBitVec_and, UInt32.toBitVec_not, BitVec.getLsbD_and,
    BitVec.getLsbD_not, Ne, ← bits.getLsbD_option]
  simp [bits.lt a]

theorem and_option_ne_zero (word : UInt32) (a : α) :
    word &&& option a ≠ 0 ↔ HasFlag word (option a) := by
  rw [bits.hasFlag_iff, Ne, ← UInt32.toBitVec_inj, UInt32.toBitVec_and, bits.eq_twoPow,
    BitVec.and_twoPow]
  by_cases hbit : word.toBitVec.getLsbD (bits.bit a)
  · simp [hbit, bits.twoPow_ne_zero]
  · simp [hbit]

/-- The options in a word of options or-ed are these. -/
theorem hasFlag_orFlags (options : List α) (a : α) :
    HasFlag (orFlags option options) (option a) ↔ a ∈ options := by
  have h : ∀ (options : List α) (acc : UInt32),
      HasFlag (options.foldl (fun acc value => acc ||| option value) acc) (option a) ↔
        HasFlag acc (option a) ∨ a ∈ options := by
    intro options
    induction options with
    | nil => simp
    | cons o options ih =>
      intro acc
      rw [List.foldl_cons, ih, bits.hasFlag_or, bits.hasFlag_option, List.mem_cons, or_assoc]
  rw [orFlags, h, or_iff_right (bits.not_hasFlag_zero a)]

theorem hasFlag_turn_self (word : UInt32) (onoff : Bool) (a : α) :
    HasFlag (turn word (option a) onoff) (option a) ↔ onoff := by
  cases onoff
  · simp [turn, bits.hasFlag_and_not]
  · simp [turn, bits.hasFlag_or, bits.hasFlag_option]

/-- Turning a flag is not seen of others. -/
theorem hasFlag_turn_of_ne {a b : α} (h : a ≠ b) (word : UInt32) (onoff : Bool) :
    HasFlag (turn word (option b) onoff) (option a) ↔ HasFlag word (option a) := by
  cases onoff
  · simp [turn, bits.hasFlag_and_not, h]
  · simp [turn, bits.hasFlag_or, bits.hasFlag_option, h]

/-- Flags that are not turned are as they were. -/
theorem hasFlag_turnAll_of_notMem {changes : List (Bool × α)} {a : α}
    (ha : a ∉ changes.map Prod.snd) (word : UInt32) :
    HasFlag (turnAll option changes word) (option a) ↔ HasFlag word (option a) := by
  induction changes generalizing word with
  | nil => rfl
  | cons c changes ih =>
    rw [List.map_cons, List.mem_cons, not_or] at ha
    exact (ih ha.2 _).trans (bits.hasFlag_turn_of_ne ha.1 word c.1)

/-- Flags turned once are the way they were turned. -/
theorem hasFlag_turnAll_of_mem {changes : List (Bool × α)} (hnodup : (changes.map Prod.snd).Nodup)
    {onoff : Bool} {a : α} (ha : (onoff, a) ∈ changes) (word : UInt32) :
    HasFlag (turnAll option changes word) (option a) ↔ onoff := by
  induction changes generalizing word with
  | nil => exact absurd ha List.not_mem_nil
  | cons c changes ih =>
    rw [List.map_cons, List.nodup_cons] at hnodup
    rcases List.mem_cons.1 ha with rfl | ha
    · exact (bits.hasFlag_turnAll_of_notMem hnodup.1 _).trans (bits.hasFlag_turn_self word _ _)
    · exact ih hnodup.2 ha _

end OwnBits

end KotlinLmdb
