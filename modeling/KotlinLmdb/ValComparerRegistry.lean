import Mathlib.Data.List.Induction
import KotlinLmdb.Machine
import KotlinLmdb.Objects
import KotlinLmdb.Replay
import KotlinLmdb.ValComparers.Order

/-!
# The registry of custom comparers

Users register functions for the four custom slots of `ValComparer`, and
`getComparerCallback` finds the function LMDB is to call back. The JVM keeps one map
of them; native keeps two, one for Kotlin functions, which nothing reads to find a
callback, and one for C functions.

On the JVM a slot has a callback exactly if it is registered, and one that orders as
the function last registered for it (`Registry.Faithful`). On native it has one if a C
function is registered, and orders as that (`Registry.specified_after`); it is as on
the JVM if Kotlin functions are registered only on top of a C function that orders the
same (`Registry.faithful_iff`).
-/

namespace KotlinLmdb

/-- The name of a comparer in messages. -/
def ValComparer.name : ValComparer → String
  | bitwise => "BITWISE"
  | reverseBitwise => "REVERSE_BITWISE"
  | lexicographicString => "LEXICOGRAPHIC_STRING"
  | reverseLexicographicString => "REVERSE_LEXICOGRAPHIC_STRING"
  | integerKey => "INTEGER_KEY"
  | reverseIntegerKey => "REVERSE_INTEGER_KEY"
  | length => "LENGTH"
  | reverseLength => "REVERSE_LENGTH"
  | lengthOnly => "LENGTH_ONLY"
  | reverseLengthOnly => "REVERSE_LENGTH_ONLY"
  | hashCode => "HASH_CODE"
  | reverseHashCode => "REVERSE_HASH_CODE"
  | custom1 => "CUSTOM_1"
  | custom2 => "CUSTOM_2"
  | custom3 => "CUSTOM_3"
  | custom4 => "CUSTOM_4"

def isCustomComparer (comparer : ValComparer) : Bool :=
  comparer = .custom1 || comparer = .custom2 || comparer = .custom3 || comparer = .custom4

/-- The custom comparers are those without an implementation. -/
theorem isCustomComparer_iff (c : ValComparer) :
    isCustomComparer c ↔ standardComparers c = none := by
  cases c <;> simp [isCustomComparer, standardComparers]

/-- A `ValComparerRegistry`, of functions of any kind. -/
structure Registry (F : Type) where
  customComparers : ValComparer → Option F := fun _ => none
  /-- Native only. -/
  nativeComparers : ValComparer → Option F := fun _ => none

namespace Registry

variable {F : Type} (p : Platform) (r : Registry F)

/-- The test for custom slots, which both platforms throw the same exception by. -/
def validateCustomSlot (slot : ValComparer) : Except Exn Unit :=
  match slot with
  | .custom1 | .custom2 | .custom3 | .custom4 => .ok ()
  | _ => .error (.illegalArgumentException
    "Only CUSTOM_1, CUSTOM_2, CUSTOM_3, or CUSTOM_4 slots can be registered")

def registerCustomComparer (slot : ValComparer) (compareFunction : F) :
    Except Exn Unit × Registry F :=
  match validateCustomSlot slot with
  | .ok _ =>
    (.ok (), { r with
      customComparers := Function.update r.customComparers slot (some compareFunction) })
  | .error e => (.error e, r)

/-- Native only. -/
def registerNativeCustomComparer (slot : ValComparer) (nativeFunction : F) :
    Except Exn Unit × Registry F :=
  match validateCustomSlot slot with
  | .ok _ =>
    (.ok (), { r with
      nativeComparers := Function.update r.nativeComparers slot (some nativeFunction) })
  | .error e => (.error e, r)

def getCustomComparer (slot : ValComparer) : Option F := r.customComparers slot

/-- Native only. -/
def getNativeCustomComparer (slot : ValComparer) : Option F := r.nativeComparers slot

def isCustomComparerRegistered (slot : ValComparer) : Bool :=
  match p with
  | .jvm => (r.customComparers slot).isSome
  | .native => (r.nativeComparers slot).isSome || (r.customComparers slot).isSome

def clearCustomComparers : Registry F :=
  match p with
  | .jvm => { r with customComparers := fun _ => none }
  | .native => { r with customComparers := fun _ => none, nativeComparers := fun _ => none }

/-- `ValComparerImpl.getComparerCallback`. -/
def getComparerCallback (comparer : ValComparer) : Except Exn (Callback F) :=
  if h : (standardComparers comparer).isSome then .ok (.standard comparer h)
  else if isCustomComparer comparer then
    match p with
    | .jvm => match r.getCustomComparer comparer with
      | some compareFn => .ok (.custom compareFn)
      | none => .error (.illegalStateException
        ("Custom comparer " ++ comparer.name ++ " has not been registered"))
    | .native => match r.getNativeCustomComparer comparer with
      | some compareFn => .ok (.custom compareFn)
      | none => .error (.illegalStateException
        ("Custom comparer " ++ comparer.name ++ " must be registered with " ++
          "ValComparerRegistry.registerNativeCustomComparer() before use"))
  else .error (.illegalArgumentException ("Unsupported comparer: " ++ comparer.name))

/-- The operations there are on a platform. -/
inductive Op (p : Platform) (F : Type)
  | registerCustomComparer (slot : ValComparer) (compareFunction : F)
  | registerNativeCustomComparer (h : p = .native) (slot : ValComparer) (nativeFunction : F)
  | clearCustomComparers

/-- The registry as a machine taking operations. -/
def machine : Machine (Registry F) (Op p F) (Except Exn Unit) where
  step r
    | .registerCustomComparer slot f => r.registerCustomComparer slot f
    | .registerNativeCustomComparer _ slot f => r.registerNativeCustomComparer slot f
    | .clearCustomComparers => (.ok (), r.clearCustomComparers p)

/-! ## What was registered -/

variable {p}

/-- What an operation does to the slots. -/
def Op.registers : Op p F → MapOp ValComparer F
  | registerCustomComparer slot f | registerNativeCustomComparer _ slot f => .set slot f
  | clearCustomComparers => .clear

/-- What it does to the slots as far as C functions go. -/
def Op.registersNative : Op p F → Option (MapOp ValComparer F)
  | registerCustomComparer .. => none
  | op => some op.registers

/-- The functions registered most recently, since the slots were cleared. -/
def mostRecent (ops : List (Op p F)) : ValComparer → Option F :=
  MapOp.replay (ops.map Op.registers)

/-- The C functions registered most recently, since the slots were cleared. -/
def mostRecentNative (ops : List (Op p F)) : ValComparer → Option F :=
  MapOp.replay (ops.filterMap Op.registersNative)

/-- The registry after a sequence of operations. -/
def after (ops : List (Op p F)) : Registry F := (machine p).run {} ops

/-- Two functions order all arrays the same. -/
def SameOrder (f g : ValCompare) : Prop := ∀ a b : Bytes, sgn (onBytes f a b) = sgn (onBytes g a b)

/-- A slot has a callback if it is registered, and one that orders as what was
    registered for it most recently; registrations for other slots do not matter. -/
structure Faithful (ops : List (Op p ValCompare)) (slot : ValComparer) : Prop where
  registered : (after ops).isCustomComparerRegistered p slot ↔
    ∃ cb, (after ops).getComparerCallback p slot = .ok cb
  mostRecent : ∀ cb, (after ops).getComparerCallback p slot = .ok cb →
    ∃ f, mostRecent ops slot = some f ∧ SameOrder cb.compare f
  others : ∀ op slot' f, Op.registers op = .set slot' f → slot ≠ slot' →
    (after (ops ++ [op])).getComparerCallback p slot = (after ops).getComparerCallback p slot

/-- What a slot has: it is registered if a function of either kind was, and has a
    callback if one was that is found; other slots do not matter. -/
structure Specified (ops : List (Op p ValCompare)) (slot : ValComparer) : Prop where
  registered : (after ops).isCustomComparerRegistered p slot ↔
    ∃ f, mostRecent ops slot = some f
  callback : ∀ cb, (after ops).getComparerCallback p slot = .ok cb ↔
    ∃ f, (match p with
      | .jvm => mostRecent ops slot
      | .native => mostRecentNative ops slot) = some f ∧ cb = .custom f
  jvm : p = .jvm → ((after ops).isCustomComparerRegistered p slot ↔
    ∃ cb, (after ops).getComparerCallback p slot = .ok cb)
  others : ∀ op slot' f, Op.registers op = .set slot' f → slot ≠ slot' →
    (after (ops ++ [op])).isCustomComparerRegistered p slot =
        (after ops).isCustomComparerRegistered p slot ∧
      (after (ops ++ [op])).getComparerCallback p slot = (after ops).getComparerCallback p slot

/-- On native, what was registered most recently for a slot has a C function behind
    it that orders the same. -/
def Backed (ops : List (Op p ValCompare)) (slot : ValComparer) : Prop :=
  p = .native → ∀ g, mostRecent ops slot = some g →
    ∃ f, mostRecentNative ops slot = some f ∧ SameOrder f g

variable {r} {slot : ValComparer} {ops : List (Op p F)}

/-- The map callbacks are found in. -/
def found (p : Platform) (r : Registry F) : ValComparer → Option F :=
  match p with
  | .jvm => r.customComparers
  | .native => r.nativeComparers

theorem validateCustomSlot_cases (slot : ValComparer) :
    isCustomComparer slot ∧ validateCustomSlot slot = .ok () ∨
      ¬isCustomComparer slot ∧ ∃ e, validateCustomSlot slot = .error e := by
  cases slot <;> simp [isCustomComparer, validateCustomSlot]

/-- A custom slot has a callback if a function is found. -/
theorem getComparerCallback_eq_ok (hslot : isCustomComparer slot) (cb : Callback F) :
    r.getComparerCallback p slot = .ok cb ↔ ∃ f, found p r slot = some f ∧ cb = .custom f := by
  have hstandard : ¬(standardComparers slot).isSome := by
    rw [(isCustomComparer_iff slot).1 hslot]
    exact Bool.false_ne_true
  simp only [getComparerCallback, dif_neg hstandard, if_pos hslot]
  cases p
  · simp only [getCustomComparer, found]
    cases r.customComparers slot <;> simp [eq_comm]
  · simp only [getNativeCustomComparer, found]
    cases r.nativeComparers slot <;> simp [eq_comm]

/-- It depends on nothing else. -/
theorem getComparerCallback_congr {r' : Registry F} (hslot : isCustomComparer slot)
    (h : found p r slot = found p r' slot) :
    r.getComparerCallback p slot = r'.getComparerCallback p slot := by
  simp only [getComparerCallback, hslot, if_true]
  cases p
  · simp only [getCustomComparer, show r.customComparers slot = r'.customComparers slot from h]
  · simp only [getNativeCustomComparer,
      show r.nativeComparers slot = r'.nativeComparers slot from h]

theorem after_append (ops : List (Op p F)) (op : Op p F) :
    after (ops ++ [op]) = (machine p).next (after ops) op := by
  rw [after, Machine.run, List.foldl_append]
  rfl

/-- What an operation does to a custom slot. -/
theorem next_spec (r : Registry F) (op : Op p F) (hslot : isCustomComparer slot) :
    match op with
    | .registerCustomComparer slot' f =>
      ((machine p).next r op).customComparers slot =
          (MapOp.set slot' f).apply r.customComparers slot ∧
        ((machine p).next r op).nativeComparers = r.nativeComparers
    | .registerNativeCustomComparer _ slot' f =>
      ((machine p).next r op).nativeComparers slot =
          (MapOp.set slot' f).apply r.nativeComparers slot ∧
        ((machine p).next r op).customComparers = r.customComparers
    | .clearCustomComparers => (machine p).next r op = r.clearCustomComparers p := by
  cases op with
  | clearCustomComparers => rfl
  | registerCustomComparer slot' f =>
    simp only [Machine.next, machine, registerCustomComparer]
    rcases validateCustomSlot_cases slot' with ⟨-, hv⟩ | ⟨hn, e, hv⟩ <;> rw [hv]
    · exact ⟨rfl, rfl⟩
    · -- the operation threw, and is on another slot
      have hne : slot ≠ slot' := fun h => hn (h ▸ hslot)
      exact ⟨(Function.update_of_ne hne ..).symm, rfl⟩
  | registerNativeCustomComparer h slot' f =>
    simp only [Machine.next, machine, registerNativeCustomComparer]
    rcases validateCustomSlot_cases slot' with ⟨-, hv⟩ | ⟨hn, e, hv⟩ <;> rw [hv]
    · exact ⟨rfl, rfl⟩
    · have hne : slot ≠ slot' := fun h => hn (h ▸ hslot)
      exact ⟨(Function.update_of_ne hne ..).symm, rfl⟩

theorem mostRecent_append (ops : List (Op p F)) (op : Op p F) :
    mostRecent (ops ++ [op]) = op.registers.apply (mostRecent ops) := by
  simp only [mostRecent, List.map_append, List.map_singleton, MapOp.replay_append]

theorem mostRecentNative_append (ops : List (Op p F)) (op : Op p F) :
    mostRecentNative (ops ++ [op]) =
      op.registersNative.elim (mostRecentNative ops) (·.apply (mostRecentNative ops)) := by
  simp only [mostRecentNative, List.filterMap_append]
  cases op <;>
    simp [Op.registersNative, List.filterMap_cons, MapOp.replay_append]

/-- Registered is what was registered since the last clearing. -/
theorem isCustomComparerRegistered_after (hslot : isCustomComparer slot) (ops : List (Op p F)) :
    (after ops).isCustomComparerRegistered p slot = (mostRecent ops slot).isSome := by
  induction ops using List.reverseRecOn with
  | nil => cases p <;> rfl
  | append_singleton ops op ih =>
    have hnext := next_spec (after ops) op hslot
    rw [mostRecent_append, after_append]
    cases op with
    | clearCustomComparers =>
      rw [hnext]
      cases p <;> rfl
    | registerCustomComparer slot' f =>
      obtain ⟨hcustom, hnative⟩ := hnext
      by_cases h : slot = slot'
      · subst h
        cases p <;>
          simp only [isCustomComparerRegistered, hcustom, Op.registers, MapOp.apply_set_self,
            Option.isSome_some, Bool.or_true]
      · rw [Op.registers, MapOp.apply_set_of_ne _ h, ← ih]
        cases p <;>
          simp only [isCustomComparerRegistered, hcustom, hnative, MapOp.apply_set_of_ne _ h]
    | registerNativeCustomComparer hp slot' f =>
      obtain ⟨hnative, hcustom⟩ := hnext
      cases hp
      by_cases h : slot = slot'
      · subst h
        simp only [isCustomComparerRegistered, hnative, Op.registers, MapOp.apply_set_self,
          Option.isSome_some, Bool.true_or]
      · rw [Op.registers, MapOp.apply_set_of_ne _ h, ← ih]
        simp only [isCustomComparerRegistered, hcustom, hnative, MapOp.apply_set_of_ne _ h]

/-- Found on the JVM is the function registered most recently. -/
theorem found_jvm (hslot : isCustomComparer slot) (ops : List (Op .jvm F)) :
    found .jvm (after ops) slot = mostRecent ops slot := by
  induction ops using List.reverseRecOn with
  | nil => rfl
  | append_singleton ops op ih =>
    have hnext := next_spec (after ops) op hslot
    rw [mostRecent_append, after_append]
    cases op with
    | clearCustomComparers =>
      rw [hnext]
      rfl
    | registerCustomComparer slot' f =>
      refine hnext.1.trans ?_
      by_cases h : slot = slot'
      · subst h
        simp only [Op.registers, MapOp.apply_set_self]
      · simp only [Op.registers, MapOp.apply_set_of_ne _ h]
        exact ih
    | registerNativeCustomComparer hp => cases hp

/-- On native it is the C function registered most recently. -/
theorem found_native (hslot : isCustomComparer slot) (ops : List (Op .native F)) :
    found .native (after ops) slot = mostRecentNative ops slot := by
  induction ops using List.reverseRecOn with
  | nil => rfl
  | append_singleton ops op ih =>
    have hnext := next_spec (after ops) op hslot
    rw [mostRecentNative_append, after_append]
    cases op with
    | clearCustomComparers =>
      rw [hnext]
      rfl
    | registerCustomComparer slot' f =>
      -- the map of C functions is left alone
      exact (congrFun hnext.2 slot).trans ih
    | registerNativeCustomComparer hp slot' f =>
      refine hnext.1.trans ?_
      by_cases h : slot = slot'
      · subst h
        simp only [Op.registersNative, Op.registers, Option.elim_some, MapOp.apply_set_self]
      · simp only [Op.registersNative, Op.registers, Option.elim_some, MapOp.apply_set_of_ne _ h]
        exact ih

/-- Registrations for other slots do not matter. -/
theorem found_append_of_ne (hslot : isCustomComparer slot) (ops : List (Op p F)) {op : Op p F}
    {slot' : ValComparer} {f : F} (hop : op.registers = .set slot' f) (h : slot ≠ slot') :
    found p (after (ops ++ [op])) slot = found p (after ops) slot := by
  have hnext := next_spec (after ops) op hslot
  rw [after_append]
  cases op with
  | clearCustomComparers => cases hop
  | registerCustomComparer slot'' f' =>
    obtain ⟨rfl, rfl⟩ := MapOp.set.inj hop
    cases p
    · exact hnext.1.trans (MapOp.apply_set_of_ne _ h _)
    · exact congrFun hnext.2 slot
  | registerNativeCustomComparer hp slot'' f' =>
    obtain ⟨rfl, rfl⟩ := MapOp.set.inj hop
    cases hp
    exact hnext.1.trans (MapOp.apply_set_of_ne _ h _)

/-- What is found is registered. -/
theorem isCustomComparerRegistered_of_found {f : F} (h : found p r slot = some f) :
    r.isCustomComparerRegistered p slot := by
  cases p
  · exact Option.isSome_of_eq_some h
  · exact Bool.or_eq_true_iff.2 (.inl (Option.isSome_of_eq_some h))

/-! ## When the registry is faithful -/

section Faithful

variable {ops : List (Op p ValCompare)} (hslot : isCustomComparer slot)

include hslot

/-- It is as faithful as what callbacks are found among. -/
theorem faithful_iff_found : Faithful ops slot ↔
    ∀ g, Registry.mostRecent ops slot = some g →
      ∃ f, found p (after ops) slot = some f ∧ SameOrder f g := by
  constructor
  · -- a comparer that was set is registered, so a callback is found for it
    rintro ⟨hregistered, hrecent, -⟩ g hg
    have hreg : (after ops).isCustomComparerRegistered p slot := by
      rw [isCustomComparerRegistered_after hslot, hg]
      rfl
    obtain ⟨cb, hcb⟩ := hregistered.1 hreg
    obtain ⟨g', hg', hsame⟩ := hrecent cb hcb
    obtain ⟨f, hf, rfl⟩ := (getComparerCallback_eq_ok hslot cb).1 hcb
    obtain rfl := Option.some.inj (hg.symm.trans hg')
    exact ⟨f, hf, hsame⟩
  · intro h
    have hrecent : ∀ f, found p (after ops) slot = some f →
        ∃ g, Registry.mostRecent ops slot = some g ∧ SameOrder f g := by
      intro f hf
      have hreg := isCustomComparerRegistered_of_found hf
      rw [isCustomComparerRegistered_after hslot] at hreg
      obtain ⟨g, hg⟩ := Option.isSome_iff_exists.1 hreg
      obtain ⟨f', hf', hsame⟩ := h g hg
      obtain rfl := Option.some.inj (hf.symm.trans hf')
      exact ⟨g, hg, hsame⟩
    refine ⟨⟨fun hreg => ?_, ?_⟩, ?_, fun op slot' f hop hne => ?_⟩
    · rw [isCustomComparerRegistered_after hslot] at hreg
      obtain ⟨g, hg⟩ := Option.isSome_iff_exists.1 hreg
      obtain ⟨f, hf, -⟩ := h g hg
      exact ⟨.custom f, (getComparerCallback_eq_ok hslot _).2 ⟨f, hf, rfl⟩⟩
    · rintro ⟨cb, hcb⟩
      obtain ⟨f, hf, -⟩ := (getComparerCallback_eq_ok hslot cb).1 hcb
      exact isCustomComparerRegistered_of_found hf
    · intro cb hcb
      obtain ⟨f, hf, rfl⟩ := (getComparerCallback_eq_ok hslot cb).1 hcb
      exact hrecent f hf
    · exact getComparerCallback_congr hslot (found_append_of_ne hslot ops hop hne)

theorem faithful_iff_backed : Faithful ops slot ↔ Backed ops slot := by
  rw [faithful_iff_found hslot]
  cases p with
  | jvm =>
    refine iff_of_true (fun g hg => ⟨g, ?_, fun _ _ => rfl⟩) fun h => nomatch h
    rw [found_jvm hslot, hg]
  | native =>
    rw [found_native hslot]
    exact ⟨fun h _ => h, fun h => h rfl⟩

end Faithful

/-- After any sequence of operations, all custom slots are faithful exactly if they
    are backed, as they always are on the JVM. -/
theorem faithful_iff (p : Platform) (ops : List (Op p ValCompare)) :
    (∀ slot, isCustomComparer slot → Faithful ops slot) ↔
      ∀ slot, isCustomComparer slot → Backed ops slot :=
  forall₂_congr fun _ hslot => faithful_iff_backed hslot

/-- A custom slot is registered by functions of either kind, and has a callback by
    those that are found. -/
theorem specified_after (p : Platform) (ops : List (Op p ValCompare)) {slot : ValComparer}
    (hslot : isCustomComparer slot) : Specified ops slot where
  registered := by rw [isCustomComparerRegistered_after hslot, Option.isSome_iff_exists]
  callback cb := by
    rw [getComparerCallback_eq_ok hslot]
    cases p
    · rw [found_jvm hslot]
    · rw [found_native hslot]
  jvm hp := by
    have hbacked : Backed ops slot := fun hp' => nomatch hp.symm.trans hp'
    exact ((faithful_iff_backed hslot).2 hbacked).registered
  others op slot' f hop hne := by
    refine ⟨?_, getComparerCallback_congr hslot (found_append_of_ne hslot ops hop hne)⟩
    rw [isCustomComparerRegistered_after hslot, isCustomComparerRegistered_after hslot,
      mostRecent_append, hop, MapOp.apply_set_of_ne _ hne]

/-- Registered in C, then in Kotlin, and in C for another slot. -/
theorem specified_custom1 :
    Specified (p := .native)
      [.registerNativeCustomComparer rfl .custom1 bitwiseCompare,
        .registerCustomComparer .custom1 lengthCompare,
        .registerNativeCustomComparer rfl .custom2 hashCodeCompare] .custom1 :=
  specified_after .native _ rfl

/-- On native, a slot registered with a Kotlin function has no callback. -/
theorem not_faithful_registerCustomComparer :
    ¬Faithful (p := .native) [.registerCustomComparer .custom1 bitwiseCompare] .custom1 := by
  rintro ⟨h, -, -⟩
  obtain ⟨cb, hcb⟩ := h.1 rfl
  cases hcb

end Registry

end KotlinLmdb
