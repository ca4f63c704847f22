import KotlinLmdb.Env.Lifecycle
import KotlinLmdb.Lmdb.Flags
import Mathlib.Data.List.TakeWhile

/-!
# The flags of an environment

Assigning `flags` compares the options with LMDB's flag word and changes it flag by
flag (`Env.setFlags_eq_changes`), up to the first flag LMDB refuses to change
(`Env.exec_setFlags`). So an assignment that throws may leave some of the flags
changed; those that do not are characterised by `Env.allOrNothing_iff`.

If nothing fails, reading `flags` gives back what was assigned last or, since the
environment was opened, the options it was opened with as well (`Env.flags_of_returns`).
-/

namespace KotlinLmdb

open Eff

namespace EnvOption

theorem mem_values (a : EnvOption) : a ∈ values := by
  cases a <;> decide

/-- The number of an option's bit. -/
def bit : EnvOption → ℕ
  | fixedMap => 0
  | noSubDir => 14
  | noSync => 16
  | readOnly => 17
  | noMetaSync => 18
  | writeMap => 19
  | mapAsync => 20
  | noTLS => 21
  | noLock => 22
  | noReadAhead => 23
  | noMemInit => 24

/-- Each option is one bit, which is no other's. -/
def ownBits : OwnBits option where
  bit := bit
  lt a := by cases a <;> decide
  injective a b h := by
    have hnodup : (values.map bit).Nodup := by decide
    exact List.inj_on_of_nodup_map hnodup (mem_values a) (mem_values b) h
  eq_twoPow a := by cases a <;> rfl

/-- LMDB lets the option be changed after opening. -/
def Changeable (a : EnvOption) : Prop := a.option &&& ~~~changeable = 0

instance (a : EnvOption) : Decidable a.Changeable := inferInstanceAs (Decidable (_ = _))

theorem mem_ofFlags {word : UInt32} {a : EnvOption} :
    a ∈ (ofFlags word).toList ↔ HasFlag word a.option := by
  simp [ofFlags, mem_values, HasFlag]

/-- The options are LMDB's flags; none of its own bits is one. -/
theorem hasFlag_flags (a : EnvOption) : HasFlag (changeable ||| changeless) a.option := by
  cases a <;> rfl

theorem hasFlag_and_flags (word : UInt32) (a : EnvOption) :
    HasFlag (word &&& (changeable ||| changeless)) a.option ↔ HasFlag word a.option := by
  rw [ownBits.hasFlag_and, and_iff_left (hasFlag_flags a)]

theorem not_hasFlag_of_and_eq_zero {own : UInt32} (h : own &&& (changeable ||| changeless) = 0)
    (a : EnvOption) : ¬HasFlag own a.option := by
  rw [← hasFlag_and_flags, h]
  exact ownBits.not_hasFlag_zero a

/-- Masking LMDB's own bits is not seen of the options. -/
theorem ofFlags_and_flags (word : UInt32) :
    ofFlags (word &&& (changeable ||| changeless)) = ofFlags word := by
  simp only [ofFlags, KSet.mk.injEq]
  refine List.filter_congr fun a _ => ?_
  exact decide_eq_decide.2 (hasFlag_and_flags word a)

end EnvOption

namespace Env

open EnvOption

/-! ## Changing flag by flag -/

/-- The changes that make of the current options others; clearing goes first. -/
def changes (current value : KSet EnvOption) : List (Bool × EnvOption) :=
  (current.minus value).toList.map (false, ·) ++ (value.minus current).toList.map (true, ·)

theorem mem_changes {current value : KSet EnvOption} {onoff : Bool} {a : EnvOption} :
    (onoff, a) ∈ changes current value ↔
      (a ∈ value.toList ↔ onoff) ∧ (a ∈ current.toList ↔ ¬onoff) := by
  cases onoff <;> simp [changes, KSet.minus, and_comm]

/-- No option is changed twice. -/
theorem nodup_changes (current value : KSet EnvOption) :
    ((changes current value).map Prod.snd).Nodup := by
  have hmap : (changes current value).map Prod.snd =
      (current.minus value).toList ++ (value.minus current).toList := by
    simp [changes, Function.comp_def]
  rw [hmap]
  refine (current.minus value).nodup.append (value.minus current).nodup fun a ha ha' => ?_
  simp only [KSet.minus, List.mem_filter, decide_eq_true_eq] at ha ha'
  exact ha.2 ha'.1

/-- Assigning the flags makes the changes, one after the other. -/
theorem setFlags_eq_changes {N : Type} (lib : Library N) (value : KSet EnvOption) :
    setFlags lib value = (do
      let currentFlags ← getFlags lib
      (changes currentFlags value).forM fun c => setFlag lib c.1 c.2
      assign fun e => { e with flags := value }) := by
  simp [setFlags, changes]

/-- A word after the changes up to the first LMDB refuses. -/
def changed (cs : List (Bool × EnvOption)) (word : UInt32) : UInt32 :=
  turnAll option (cs.takeWhile fun c => c.2.Changeable) word

variable (opening : String → UInt32 → Int → Opening) (others : Library MeFlags)

/-- What changes come to: LMDB refuses those of options not changeable. -/
def changesOutcome (cs : List (Bool × EnvOption)) : Except Exn Unit :=
  if ∀ c ∈ cs, c.2.Changeable then .ok () else .error (getException others einval)

section Changes

variable {others} {c : Bool × EnvOption} {cs : List (Bool × EnvOption)}

theorem changed_cons_of_changeable (h : c.2.Changeable) (word : UInt32) :
    changed (c :: cs) word = changed cs (turn word c.2.option c.1) := by
  simp [changed, turnAll, h]

theorem changed_cons_of_not_changeable (h : ¬c.2.Changeable) (word : UInt32) :
    changed (c :: cs) word = word := by
  simp [changed, turnAll, h]

theorem changed_eq_turnAll (h : ∀ c ∈ cs, c.2.Changeable) (word : UInt32) :
    changed cs word = turnAll option cs word := by
  rw [changed, List.takeWhile_eq_self_iff.2 fun c hc => decide_eq_true (h c hc)]

theorem changesOutcome_cons_of_changeable (h : c.2.Changeable) :
    changesOutcome others (c :: cs) = changesOutcome others cs := by
  simp only [changesOutcome, List.forall_mem_cons, h, true_and]

theorem changesOutcome_cons_of_not_changeable (h : ¬c.2.Changeable) :
    changesOutcome others (c :: cs) = .error (getException others einval) := by
  simp only [changesOutcome, List.forall_mem_cons, h, false_and, if_false]

end Changes

/-- Changing a flag, as far as LMDB lets it. -/
theorem exec_setFlag (onoff : Bool) (a : EnvOption) (e : Env) (s : Session Call Reply MeFlags) :
    ∃ s', (setFlag (MeFlags.library opening others) onoff a).exec (e, s) =
        (changesOutcome others [(onoff, a)], e, s') ∧
      s'.native = { s.native with word := changed [(onoff, a)] s.native.word } := by
  refine ⟨s.after (MeFlags.library opening others).toHandler
    (.mdbEnvSetFlags e.ptr a.option onoff), ?_, ?_⟩
  · by_cases ha : a.option &&& ~~~changeable = 0
    · have hc : a.Changeable := ha
      simp [setFlag, MeFlags.setFlags, changesOutcome, ha, hc]
    · have hc : ¬a.Changeable := ha
      simp [setFlag, MeFlags.setFlags, changesOutcome, ha, hc]
      rfl
  · by_cases ha : a.option &&& ~~~changeable = 0
    · have hc : a.Changeable := ha
      simp [MeFlags.setFlags, changed, turnAll, ha, hc]
    · have hc : ¬a.Changeable := ha
      simp [MeFlags.setFlags, changed, turnAll, ha, hc]

/-- Changes are made up to the first LMDB refuses, which is thrown. -/
theorem exec_forM_setFlag (cs : List (Bool × EnvOption)) (e : Env)
    (s : Session Call Reply MeFlags) :
    ∃ s', (cs.forM fun c => setFlag (MeFlags.library opening others) c.1 c.2).exec (e, s) =
        (changesOutcome others cs, e, s') ∧
      s'.native = { s.native with word := changed cs s.native.word } := by
  induction cs generalizing s with
  | nil => exact ⟨s, rfl, rfl⟩
  | cons c cs ih =>
    obtain ⟨s', hs', hnative⟩ := exec_setFlag opening others c.1 c.2 e s
    rw [List.forM_eq_forM, List.forM_cons, exec_bind, hs']
    by_cases hc : c.2.Changeable
    · obtain ⟨s'', hs'', hnative'⟩ := ih s'
      refine ⟨s'', ?_, ?_⟩
      · rw [changesOutcome_cons_of_changeable hc, changesOutcome_cons_of_changeable hc]
        exact hs''
      · rw [hnative', hnative, changed_cons_of_changeable hc, changed_cons_of_changeable hc]
        rfl
    · refine ⟨s', ?_, ?_⟩
      · rw [changesOutcome_cons_of_not_changeable hc, changesOutcome_cons_of_not_changeable hc]
      · rw [hnative, changed_cons_of_not_changeable hc, changed_cons_of_not_changeable hc]

/-- Reading the flags shows the options in the word. -/
theorem exec_getFlags (e : Env) (s : Session Call Reply MeFlags) :
    (getFlags (MeFlags.library opening others)).exec (e, s) =
      (.ok (ofFlags s.native.word), e,
        s.after (MeFlags.library opening others).toHandler (.mdbEnvGetFlags e.ptr)) := by
  simp [getFlags, MeFlags.getFlags, ofFlags_and_flags]

theorem observe_getFlags (e : Env) (s : MeFlags) :
    ((getFlags (MeFlags.library opening others)).observe e s).1.outcome =
      .ok (ofFlags s.word) := by
  rw [observe, exec_getFlags]

/-- Assigning the flags makes the changes between what the word shows and what is
    assigned. -/
theorem observe_setFlags (value : KSet EnvOption) (e : Env) (s : MeFlags) :
    let r := (setFlags (MeFlags.library opening others) value).observe e s
    let cs := changes (ofFlags s.word) value
    r.1.outcome = changesOutcome others cs ∧ r.2.2 = { s with word := changed cs s.word } := by
  obtain ⟨s', hs', hnative⟩ := exec_forM_setFlag opening others (changes (ofFlags s.word) value) e
    (Session.after ⟨s, []⟩ (MeFlags.library opening others).toHandler (.mdbEnvGetFlags e.ptr))
  simp only [setFlags_eq_changes, observe, exec_bind, exec_getFlags, hs']
  by_cases h : ∀ c ∈ changes (ofFlags s.word) value, c.2.Changeable
  · rw [changesOutcome, if_pos h]
    exact ⟨rfl, hnative⟩
  · rw [changesOutcome, if_neg h]
    exact ⟨rfl, hnative⟩

/-! ## Assignments that throw -/

/-- An assignment that throws leaves LMDB's flags, and so what is read of them, as they
    were. -/
def AllOrNothing (lib : Library MeFlags) (e : Env) (s : MeFlags) (value : KSet EnvOption) : Prop :=
  let r := (setFlags lib value).observe e s
  ∀ message, r.1.outcome = .error (.lmdbException message) →
    r.2.2.word = s.word ∧ ((getFlags lib).observe r.2.1 r.2.2).1.outcome =
      ((getFlags lib).observe e s).1.outcome

/-- All the options changed are changeable, or already the first one is not. -/
def Refusable (word : UInt32) (value : KSet EnvOption) : Prop :=
  let cs := changes (ofFlags word) value
  ∀ c, cs.head? = some c → c.2.Changeable → ∀ c ∈ cs, c.2.Changeable

variable {opening others}

/-- Changing an option shows in the word. -/
theorem changed_ne {word : UInt32} {value : KSet EnvOption} {c : Bool × EnvOption}
    {cs : List (Bool × EnvOption)} (hcs : changes (ofFlags word) value = c :: cs)
    (hc : c.2.Changeable) : changed (c :: cs) word ≠ word := by
  intro h
  have hmem : (c.1, c.2) ∈ changes (ofFlags word) value := hcs ▸ List.mem_cons_self
  have hnodup : ((c :: cs).map Prod.snd).Nodup := hcs ▸ nodup_changes _ _
  -- the option was turned, and not turned again
  have hafter : HasFlag (changed (c :: cs) word) c.2.option ↔ c.1 := by
    refine ownBits.hasFlag_turnAll_of_mem ?_ ?_ word
    · exact hnodup.sublist ((List.takeWhile_sublist _).map _)
    · simp [hc]
  have hbefore : HasFlag word c.2.option ↔ ¬c.1 := mem_ofFlags.symm.trans (mem_changes.1 hmem).2
  rw [h, hbefore] at hafter
  exact not_iff_self hafter

/-- An assignment that throws has changed something unless it failed at once. -/
theorem allOrNothing_iff (e : Env) (s : MeFlags) (value : KSet EnvOption) :
    AllOrNothing (MeFlags.library opening others) e s value ↔ Refusable s.word value := by
  obtain ⟨hout, hnative⟩ := observe_setFlags opening others value e s
  simp only [AllOrNothing, Refusable, hout, hnative, observe_getFlags]
  rcases hcs : changes (ofFlags s.word) value with _ | ⟨c, cs⟩
  · simp [changesOutcome]
  · by_cases hall : ∀ c' ∈ c :: cs, c'.2.Changeable
    · refine iff_of_true (fun message h => ?_) fun _ _ _ => hall
      rw [changesOutcome, if_pos hall] at h
      cases h
    have hthrows : changesOutcome others (c :: cs) = .error (getException others einval) :=
      if_neg hall
    by_cases hc : c.2.Changeable
    · refine iff_of_false (fun h => ?_) fun h => hall (h c rfl hc)
      exact changed_ne hcs hc (h _ hthrows).1
    · refine iff_of_true (fun _ _ => ?_) fun c' hc' hchangeable => ?_
      · rw [changed_cons_of_not_changeable hc]
        exact ⟨rfl, rfl⟩
      · cases hc'
        exact absurd hchangeable hc

/-- Turning `NoSync` off and `ReadOnly` on throws, with `NoSync` turned off. -/
theorem not_allOrNothing_readOnly :
    ¬AllOrNothing MeFlags.granting { ptr := 0, mapSize := 0 } { word := 0x10000 }
      ⟨[.readOnly], by decide⟩ := by
  intro h
  exact absurd (h "Invalid argument" (by decide +kernel)).1 (by decide +kernel)

/-! ## Assignments that return -/

/-- No step throws. -/
def Returns {N : Type} (lib : Library N) (p : Platform) (s : History N) (m : Method) : Prop :=
  ∃ v, ((lifecycle lib p).out s m).outcome = .ok v

/-- Assigning sets of flags. -/
def assignments (values : List (KSet EnvOption)) : List Method :=
  values.map fun value => .access (.setFlags value)

/-- The options `flags` is to show: those assigned last; or the ones assigned before
    opening, if any, and those of the opening, of which `ReadOnly` rules out
    `WriteMap`. -/
def Shown (before : List (KSet EnvOption)) (options : List EnvOption)
    (after : List (KSet EnvOption)) (a : EnvOption) : Prop :=
  let given o := o ∈ (before.getLast?.getD .empty).toList ∨ o ∈ options
  match after.getLast? with
  | some value => a ∈ value.toList
  | none => given a ∧ ¬(a = .writeMap ∧ given .readOnly)

/-- The bits that are no option's. -/
def otherBits : UInt32 := ~~~orFlags option values

/-- Opening adds its options to the word, but for `WriteMap` if `ReadOnly` is in it. -/
theorem hasFlag_openingFlags (s : MeFlags) (flags : UInt32) (a : EnvOption) :
    HasFlag (s.openingFlags flags) a.option ↔
      HasFlag (flags ||| s.word) a.option ∧
        ¬(a = .writeMap ∧ HasFlag (flags ||| s.word) EnvOption.readOnly.option) := by
  have hactive : ¬HasFlag mdbEnvActive a.option := not_hasFlag_of_and_eq_zero (by decide) a
  simp only [MeFlags.openingFlags]
  rw [ownBits.hasFlag_or, or_iff_left hactive]
  have hro : (flags ||| s.word) &&& mdbRdonly ≠ 0 ↔
      HasFlag (flags ||| s.word) EnvOption.readOnly.option :=
    ownBits.and_option_ne_zero _ .readOnly
  by_cases h : HasFlag (flags ||| s.word) EnvOption.readOnly.option
  · rw [if_pos (hro.2 h), and_iff_left h]
    exact ownBits.hasFlag_and_not _ a .writeMap
  · rw [if_neg (mt hro.1 h), and_iff_left fun hw => h hw.2]

/-- What was assigned is what the word has. -/
theorem hasFlag_turnAll_changes (word : UInt32) (value : KSet EnvOption) (a : EnvOption) :
    HasFlag (turnAll option (changes (ofFlags word) value) word) a.option ↔ a ∈ value.toList := by
  by_cases h : a ∈ value.toList ↔ a ∈ (ofFlags word).toList
  · -- it was not changed
    have hnot : a ∉ (changes (ofFlags word) value).map Prod.snd := by
      intro ha
      obtain ⟨⟨onoff, a'⟩, hmem, rfl⟩ := List.mem_map.1 ha
      obtain ⟨hvalue, hcurrent⟩ := mem_changes.1 hmem
      rw [h, hcurrent] at hvalue
      exact not_iff_self hvalue
    rw [ownBits.hasFlag_turnAll_of_notMem hnot, h, mem_ofFlags]
  · have hmem : (decide (a ∈ value.toList), a) ∈ changes (ofFlags word) value := by
      rw [mem_changes, decide_eq_true_iff]
      exact ⟨Iff.rfl, (not_iff.1 h).symm⟩
    rw [ownBits.hasFlag_turnAll_of_mem (nodup_changes _ _) hmem, decide_eq_true_iff]

/-- Changes are of options. -/
theorem changed_and_otherBits (cs : List (Bool × EnvOption)) (word : UInt32) :
    changed cs word &&& otherBits = word &&& otherBits := by
  refine turnAll_and (fun c _ => ?_) word
  cases c.2 <;> rfl

section Run

variable {p : Platform} {s : History MeFlags}

theorem native_next_setFlags (value : KSet EnvOption) :
    ((lifecycle (MeFlags.library opening others) p).next s (.access (.setFlags value))).native =
      { s.native with
        word := changed (changes (ofFlags s.native.word) value) s.native.word } := by
  have h := (observe_setFlags opening others value s.env s.native).2
  simp only [lifecycle, Machine.next, Method.perform, Access.perform, observe_map, h]

/-- After an assignment that returned, the word has the options assigned. -/
theorem hasFlag_next_setFlags {value : KSet EnvOption}
    (h : Returns (MeFlags.library opening others) p s (.access (.setFlags value))) (a : EnvOption) :
    HasFlag ((lifecycle (MeFlags.library opening others) p).next s
      (.access (.setFlags value))).native.word a.option ↔ a ∈ value.toList := by
  have hall : ∀ c ∈ changes (ofFlags s.native.word) value, c.2.Changeable := by
    obtain ⟨v, hv⟩ := h
    have hout := (observe_setFlags opening others value s.env s.native).1
    simp only [lifecycle, Machine.out, Method.perform, Access.perform, observe_map, hout,
      changesOutcome] at hv
    by_contra hnot
    rw [if_neg hnot] at hv
    cases hv
  rw [native_next_setFlags]
  exact (changed_eq_turnAll hall _ ▸ hasFlag_turnAll_changes s.native.word value a)

/-- After assignments that returned, the word has the options assigned last. -/
theorem hasFlag_run_assignments {values : List (KSet EnvOption)}
    (h : (lifecycle (MeFlags.library opening others) p).Along
      (Returns (MeFlags.library opening others) p) s (assignments values)) (a : EnvOption) :
    HasFlag ((lifecycle (MeFlags.library opening others) p).run s
        (assignments values)).native.word a.option ↔
      match values.getLast? with
      | some value => a ∈ value.toList
      | none => HasFlag s.native.word a.option := by
  induction values generalizing s with
  | nil => exact Iff.rfl
  | cons value values ih =>
    refine (ih h.2).trans ?_
    rw [List.getLast?_cons]
    cases values.getLast? with
    | none => exact hasFlag_next_setFlags h.1 a
    | some _ => exact Iff.rfl

/-- After an opening that returned, the word has the options it was opened with, and
    those it had before. -/
theorem hasFlag_next_open {path mode : String} {options : List EnvOption}
    (h : Returns (MeFlags.library opening others) p s (.open path options mode)) (a : EnvOption) :
    let given o := HasFlag s.native.word (EnvOption.option o) ∨ o ∈ options
    HasFlag ((lifecycle (MeFlags.library opening others) p).next s
        (.open path options mode)).native.word a.option ↔
      given a ∧ ¬(a = .writeMap ∧ given .readOnly) := by
  obtain ⟨v, hv⟩ := h
  have hgiven : ∀ o : EnvOption,
      HasFlag (EnvOption.toFlags options ||| s.native.word) o.option ↔
        HasFlag s.native.word o.option ∨ o ∈ options := by
    intro o
    rw [ownBits.hasFlag_or, or_comm]
    exact or_congr_right (ownBits.hasFlag_orFlags options o)
  simp only [lifecycle, Machine.out, Machine.next, Method.perform, observe, exec_map, exec_open]
    at hv ⊢
  rcases hmode : parseMode p mode with _ | m
  · simp only [hmode, map_error] at hv
    cases hv
  · simp only [hmode] at hv ⊢
    -- an opening that returned was neither refused by the mode nor by LMDB
    have hrc : ((MeFlags.library opening others).reply
        (.mdbEnvOpen s.env.ptr path (EnvOption.toFlags options) m) s.native).rc = 0 := by
      by_contra hne
      rw [if_neg hne] at hv
      cases hv
    rw [MeFlags.reply_open] at hrc
    rw [Session.native_after, MeFlags.next_open, s.native.envOpen_of_rc_eq_zero hrc,
      ownBits.hasFlag_or,
      or_iff_left (not_hasFlag_of_and_eq_zero (Opening.own_and _) a), hasFlag_openingFlags]
    simp only [hgiven]

/-- Whatever sets of flags are assigned before and after a successful opening of a new
    environment, if all assignments return: `flags` shows what it is to show, and the
    assignments change no bits but the options'. -/
theorem flags_of_returns (p : Platform) (opening : String → UInt32 → Int → Opening)
    (others : Library MeFlags) (env : Env) (before after : List (KSet EnvOption)) (path : String)
    (options : List EnvOption) (mode : String) :
    let lib := MeFlags.library opening others
    let s : History MeFlags := { env, native := {} }
    let ms := assignments before ++ .open path options mode :: assignments after
    (lifecycle lib p).Along (Returns lib p) s ms →
      (∃ flags, ((lifecycle lib p).out ((lifecycle lib p).run s ms) (.access .getFlags)).outcome =
        .ok (.envFlags flags) ∧ ∀ a, a ∈ flags.toList ↔ Shown before options after a) ∧
      (lifecycle lib p).Along (fun s m => ∀ value, m = .access (.setFlags value) →
        ((lifecycle lib p).next s m).native.word &&& otherBits = s.native.word &&& otherBits)
        s ms := by
  intro lib s ms h
  refine ⟨⟨ofFlags ((lifecycle lib p).run s ms).native.word, ?_, fun a => ?_⟩, ?_⟩
  · have hget := observe_getFlags opening others ((lifecycle lib p).run s ms).env
      ((lifecycle lib p).run s ms).native
    simp only [lifecycle, Machine.out, Method.perform, Access.perform, observe_map] at hget ⊢
    rw [hget]
    rfl
  · -- The last set before the opening is what the word holds there; the last one after it, if any,
    -- is what it holds in the end.
    rw [Machine.along_append, Machine.along_cons] at h
    obtain ⟨hbefore, hopen, hafter⟩ := h
    have hgiven : ∀ o : EnvOption, HasFlag ((lifecycle lib p).run s
        (assignments before)).native.word o.option ↔
          o ∈ (before.getLast?.getD .empty).toList := by
      intro o
      rw [hasFlag_run_assignments hbefore o]
      cases before.getLast? with
      | none => exact iff_of_false (ownBits.not_hasFlag_zero o) List.not_mem_nil
      | some _ => exact Iff.rfl
    rw [mem_ofFlags, Machine.run_append, Machine.run_cons, hasFlag_run_assignments hafter, Shown]
    cases after.getLast? with
    | none => simpa only [hgiven] using hasFlag_next_open hopen a
    | some _ => exact Iff.rfl
  · refine Machine.along_of_forall (fun s m value hm => ?_) ms
    rw [hm, native_next_setFlags]
    exact changed_and_otherBits _ _

/-- `NoSync` is kept by the opening, which drops `WriteMap` for `ReadOnly`. -/
theorem flags_of_returns_readOnly :
    let ms := assignments [⟨[.noSync], by decide⟩] ++
      .open "/db" [.writeMap, .readOnly] "664" :: assignments []
    ∃ flags, ((lifecycle MeFlags.granting .jvm).out ((lifecycle MeFlags.granting .jvm).run
        { env := { ptr := 0, mapSize := 0 }, native := {} } ms) (.access .getFlags)).outcome =
      .ok (.envFlags flags) ∧
        ∀ a, a ∈ flags.toList ↔ Shown [⟨[.noSync], by decide⟩] [.writeMap, .readOnly] [] a :=
  (flags_of_returns .jvm (fun _ _ _ => {}) ⟨⟨fun _ s => ({}, s)⟩, fun _ => "Invalid argument"⟩ _
    [_] [] _ _ _ ⟨⟨.unit, by decide +kernel⟩, ⟨.unit, by decide +kernel⟩, trivial⟩).1

end Run

end Env

end KotlinLmdb
