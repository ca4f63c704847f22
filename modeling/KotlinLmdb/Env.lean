import KotlinLmdb.Txn

/-!
# Environments

The methods of `Env`. The two implementations differ in what they check of LMDB's
answers (the setters and `stat`), in how they read the mode of `open`, and in
that only the JVM's `close` takes back `isOpened`.

`open` sets `isOpened` before anything can fail (`Env.exec_open`); `close` calls
LMDB only if it is set (`Env.exec_close`).
-/

namespace KotlinLmdb

open Eff

/-! ## Reading a number -/

/-- The zeros of the decimal digits of the basic multilingual plane. -/
def digitZeros : List ℕ :=
  [0x0030, 0x0660, 0x06F0, 0x07C0, 0x0966, 0x09E6, 0x0A66, 0x0AE6, 0x0B66, 0x0BE6, 0x0C66, 0x0CE6,
    0x0D66, 0x0DE6, 0x0E50, 0x0ED0, 0x0F20, 0x1040, 0x1090, 0x17E0, 0x1810, 0x1946, 0x19D0, 0x1A80,
    0x1A90, 0x1B50, 0x1BB0, 0x1C40, 0x1C50, 0xA620, 0xA8D0, 0xA900, 0xA9D0, 0xA9F0, 0xAA50, 0xABF0,
    0xFF10]

/-- The value of a digit, for a radix of at most ten. -/
def digitOf (char : Char) (radix : ℕ) : Option ℕ :=
  (digitZeros.find? fun z => z ≤ char.toNat && char.toNat < z + radix).map (char.toNat - ·)

/-- The number written by digits, of which there is at least one. -/
def ofDigits (radix : ℕ) : List Char → Option ℕ
  | [] => none
  | digits => digits.foldlM (fun n char => (digitOf char radix).map (radix * n + ·)) 0

/-- The number written by digits after an optional plus sign, up to a limit. -/
def ofUnsigned (radix limit : ℕ) : List Char → Option Int
  | '+' :: digits | digits => ((ofDigits radix digits).filter (· ≤ limit)).map Int.ofNat

/-- `String.toInt(radix)`: a minus sign is allowed as well. -/
def toInt (s : String) (radix : ℕ) : Option Int :=
  match s.toList with
  | '-' :: digits => ((ofDigits radix digits).filter (· ≤ 2147483648)).map fun n : ℕ => -(n : Int)
  | digits => ofUnsigned radix 2147483647 digits

/-- `String.toUShort(radix)`. -/
def toUShort (s : String) (radix : ℕ) : Option Int := ofUnsigned radix 65535 s.toList

/-- The mode of a file, written in octal. -/
def parseMode : Platform → String → Option Int
  | .jvm, mode => toInt mode 8
  | .native, mode => toUShort mode 8

/-- A higher limit allows the same numbers, and more. -/
theorem ofUnsigned_mono {radix limit limit' : ℕ} (h : limit ≤ limit') {digits : List Char} {m : Int}
    (hm : ofUnsigned radix limit digits = some m) : ofUnsigned radix limit' digits = some m := by
  simp only [ofUnsigned] at hm ⊢
  split at hm
  all_goals
    obtain ⟨n, hn, rfl⟩ := Option.map_eq_some_iff.1 hm
    obtain ⟨hn, hle⟩ := Option.filter_eq_some_iff.1 hn
    refine Option.map_eq_some_iff.2 ⟨n, Option.filter_eq_some_iff.2 ⟨hn, ?_⟩, rfl⟩
    exact decide_eq_true (Nat.le_trans (of_decide_eq_true hle) h)

/-- A mode that can be read on native is read on the JVM, as the same number. -/
theorem parseMode_jvm_of_native {mode : String} {m : Int} (h : parseMode .native mode = some m) :
    parseMode .jvm mode = some m := by
  simp only [parseMode, toUShort] at h
  simp only [parseMode, toInt]
  split
  · -- a minus sign is no digit
    rename_i digits hd
    rw [hd] at h
    simp [ofUnsigned, ofDigits, digitOf, digitZeros] at h
  · exact ofUnsigned_mono (by decide) h

namespace Env

variable {N σ : Type} (lib : Library N) (p : Platform)

/-! ## The methods -/

/-- The constructor, with the size it starts the `mapSize` property with. -/
def init : Kt N σ Env := do
  let envPtr ← call lib .mdbEnvCreate
  match p with
  | .jvm => return { ptr := envPtr.ptr, mapSize := 1024 * 1024 * 100 }
  | .native =>
    let _ ← check lib envPtr.rc
    return { ptr := envPtr.ptr, mapSize := 1024 * 1024 * 50 }

/-- The result code of a setter, which only native checks. -/
def checkSetter (result : Int) : Kt N Env Unit := do
  match p with
  | .jvm => return
  | .native => let _ ← check lib result

/-- Assigning `maxDatabases`. -/
def setMaxDatabases (value : UInt32) : Kt N Env Unit := do
  let result ← call lib (.mdbEnvSetMaxdbs (← self).ptr value)
  checkSetter lib p result.rc
  assign fun e => { e with maxDatabases := value }

/-- Assigning `mapSize`. -/
def setMapSize (value : UInt64) : Kt N Env Unit := do
  let result ← call lib (.mdbEnvSetMapsize (← self).ptr value)
  checkSetter lib p result.rc
  assign fun e => { e with mapSize := value }

/-- Reading `maxReaders`. -/
def getMaxReaders : Kt N Env UInt32 := do
  let readersRef ← call lib (.mdbEnvGetMaxreaders (← self).ptr)
  let _ ← check lib readersRef.rc
  return readersRef.num.toUInt32

/-- Assigning `maxReaders`. -/
def setMaxReaders (value : UInt32) : Kt N Env Unit := do
  let result ← call lib (.mdbEnvSetMaxreaders (← self).ptr value)
  checkSetter lib p result.rc
  assign fun e => { e with maxReaders := value }

def maxKeySize : Kt N Env UInt32 := do
  return (← call lib (.mdbEnvGetMaxkeysize (← self).ptr)).num.toUInt32

def staleReaderCount : Kt N Env UInt32 := do
  let deadRef ← call lib (.mdbReaderCheck (← self).ptr)
  let _ ← check lib deadRef.rc
  return deadRef.num.toUInt32

/-- Reading `flags`. -/
def getFlags : Kt N Env (KSet EnvOption) := do
  let flagsRef ← call lib (.mdbEnvGetFlags (← self).ptr)
  let _ ← check lib flagsRef.rc
  return EnvOption.ofFlags flagsRef.num.toUInt32

/-- Setting or clearing a flag. -/
def setFlag (onoff : Bool) (flag : EnvOption) : Kt N Env Unit := do
  let result ← call lib (.mdbEnvSetFlags (← self).ptr flag.option onoff)
  let _ ← check lib result.rc

/-- Assigning `flags`: what is to be cleared goes first. -/
def setFlags (value : KSet EnvOption) : Kt N Env Unit := do
  let currentFlags ← getFlags lib
  let flagsToClear := currentFlags.minus value
  flagsToClear.toList.forM (setFlag lib false)
  let flagsToSet := value.minus currentFlags
  flagsToSet.toList.forM (setFlag lib true)
  assign fun e => { e with flags := value }

/-- The statistics; the JVM does not check that there are any. -/
def stat : Kt N Env Stat := do
  let mdbStat ← call lib (.mdbEnvStat (← self).ptr)
  match p with
  | .jvm => return mdbStat.stat
  | .native =>
    let _ ← check lib mdbStat.rc
    return mdbStat.stat

def info : Kt N Env EnvInfo := do
  let mdbEnvInfo ← call lib (.mdbEnvInfo (← self).ptr)
  let _ ← check lib mdbEnvInfo.rc
  return mdbEnvInfo.info

def «open» (path : String) (options : List EnvOption) (mode : String) : Kt N Env Unit := do
  assign fun e => { e with isOpened := true }
  match parseMode p mode with
  | none => throw (.numberFormatException mode)
  | some mode =>
    let result ← call lib (.mdbEnvOpen (← self).ptr path (EnvOption.toFlags options) mode)
    let _ ← check lib result.rc

def beginTxn (options : List TxnOption) : Kt N Env Txn := do
  Txn.init lib (← self) none options

/-- `copyTo`, compacting or not. -/
def copyTo2 (path : String) (compact : Bool) : Kt N Env Unit := do
  let flags := if compact then 0x01 else 0
  let result ← call lib (.mdbEnvCopy2 (← self).ptr path flags)
  let _ ← check lib result.rc

def copyTo (path : String) : Kt N Env Unit := do
  let result ← call lib (.mdbEnvCopy (← self).ptr path)
  let _ ← check lib result.rc

def sync (force : Bool) : Kt N Env Unit := do
  let result ← call lib (.mdbEnvSync (← self).ptr force)
  let _ ← check lib result.rc

def close : Kt N Env Unit := do
  if (← self).isClosed then
    return
  if (← self).isOpened then
    let _ ← call lib (.mdbEnvClose (← self).ptr)
  match p with
  | .jvm => assign fun e => { e with isOpened := false, isClosed := true }
  | .native => assign fun e => { e with isClosed := true }

/-! ## What they do to the handle -/

/-- The methods but for those of the life cycle, by their arguments. -/
inductive Access
  | setMaxDatabases (value : UInt32)
  | setMapSize (value : UInt64)
  | getMaxReaders
  | setMaxReaders (value : UInt32)
  | maxKeySize
  | staleReaderCount
  | getFlags
  | setFlags (value : KSet EnvOption)
  | stat
  | info
  | copyTo2 (path : String) (compact : Bool)
  | copyTo (path : String)
  | sync (force : Bool)

/-- Calling a method. -/
def Access.perform : Access → Kt N Env Value
  | setMaxDatabases value => Value.ofUnit <$> Env.setMaxDatabases lib p value
  | setMapSize value => Value.ofUnit <$> Env.setMapSize lib p value
  | getMaxReaders => (fun n => Value.number n.toUInt64) <$> Env.getMaxReaders lib
  | setMaxReaders value => Value.ofUnit <$> Env.setMaxReaders lib p value
  | maxKeySize => (fun n => Value.number n.toUInt64) <$> Env.maxKeySize lib
  | staleReaderCount => (fun n => Value.number n.toUInt64) <$> Env.staleReaderCount lib
  | getFlags => Value.envFlags <$> Env.getFlags lib
  | setFlags value => Value.ofUnit <$> Env.setFlags lib value
  | stat => Value.stat <$> Env.stat lib p
  | info => Value.info <$> Env.info lib
  | copyTo2 path compact => Value.ofUnit <$> Env.copyTo2 lib path compact
  | copyTo path => Value.ofUnit <$> Env.copyTo lib path
  | sync force => Value.ofUnit <$> Env.sync lib force

/-- The methods, by their arguments. -/
inductive Method
  | access (m : Access)
  | open (path : String) (options : List EnvOption) (mode : String)
  | beginTxn (options : List TxnOption)
  | close

/-- Calling a method. -/
def Method.perform : Method → Kt N Env Value
  | access m => m.perform lib p
  | «open» path options mode => Value.ofUnit <$> Env.open lib p path options mode
  | beginTxn options => Value.txn <$> Env.beginTxn lib options
  | close => Value.ofUnit <$> Env.close lib p

/-- A call on an environment that neither begins a transaction nor closes it. -/
def IsAccess (ptr : Ptr) : Call → Prop
  | .mdbTxnBegin .. | .mdbEnvClose _ => False
  | c => c.env = some ptr

/-- Only accesses were made: the life cycle is as it was, and the log is longer by
    some calls on the handle. -/
def Kept (s s' : Env × Session Call Reply N) : Prop :=
  s'.1.ptr = s.1.ptr ∧ s'.1.isOpened = s.1.isOpened ∧ s'.1.isClosed = s.1.isClosed ∧
    ∃ calls, s'.2.log = s.2.log ++ calls ∧ ∀ c ∈ calls, IsAccess s.1.ptr c.1

/-- Accesses were made, and at least one. -/
def Accessed (s s' : Env × Session Call Reply N) : Prop :=
  Kept s s' ∧ s.2.log.length < s'.2.log.length

theorem Kept.refl (s : Env × Session Call Reply N) : Kept s s :=
  ⟨rfl, rfl, rfl, [], (List.append_nil _).symm, fun _ hc => absurd hc List.not_mem_nil⟩

theorem Kept.trans (s s' s'' : Env × Session Call Reply N) (h : Kept s s') (h' : Kept s' s'') :
    Kept s s'' := by
  obtain ⟨hptr, hopened, hclosed, calls, hlog, hcalls⟩ := h
  obtain ⟨hptr', hopened', hclosed', calls', hlog', hcalls'⟩ := h'
  refine ⟨hptr'.trans hptr, hopened'.trans hopened, hclosed'.trans hclosed, calls ++ calls', ?_, ?_⟩
  · rw [hlog', hlog, List.append_assoc]
  · intro c hc
    rcases List.mem_append.1 hc with hc | hc
    · exact hcalls c hc
    · exact hptr ▸ hcalls' c hc

theorem Accessed.trans (s s' s'' : Env × Session Call Reply N) (h : Accessed s s')
    (h' : Kept s' s'') : Accessed s s'' := by
  obtain ⟨calls, hlog, _⟩ := h'.2.2.2
  refine ⟨h.1.trans _ _ _ h', Nat.lt_of_lt_of_le h.2 ?_⟩
  rw [hlog, List.length_append]
  exact Nat.le_add_right _ _

/-- Code that begins with a call on the handle. -/
theorem leads_call {α : Type} {c : Env → Call} {k : Reply → Kt N Env α}
    (hc : ∀ e, IsAccess e.ptr (c e)) (hk : ∀ r, Leads Kept (k r)) :
    Leads Accessed (self >>= fun e => call lib (c e) >>= k) := by
  rintro ⟨e, s⟩
  simp only [exec_bind, exec_self, exec_call]
  refine Accessed.trans _ (e, s.after lib.toHandler (c e)) _ ⟨⟨rfl, rfl, rfl, _, rfl, ?_⟩, ?_⟩
    (hk _ _)
  · simpa using hc e
  · simp

theorem leads_check (result : Int) : Leads Kept (check lib result : Kt N Env Int) := by
  intro s
  rw [exec_check]
  exact .refl s

/-- Assigning a property. -/
theorem leads_assign {f : Env → Env} (hf : ∀ e, (f e).ptr = e.ptr ∧
    (f e).isOpened = e.isOpened ∧ (f e).isClosed = e.isClosed) :
    Leads Kept (assign f : Kt N Env Unit) := by
  intro s
  obtain ⟨hptr, hopened, hclosed⟩ := hf s.1
  exact ⟨hptr, hopened, hclosed, [], (List.append_nil _).symm,
    fun _ hc => absurd hc List.not_mem_nil⟩

theorem leads_checkSetter (result : Int) : Leads Kept (checkSetter lib p result) := by
  cases p
  · exact leads_pure Kept.refl _
  · exact leads_map _ (leads_check lib result)

theorem leads_getFlags : Leads Accessed (getFlags lib) :=
  leads_call lib (fun _ => rfl) fun _ =>
    leads_bind Kept.trans (leads_check lib _) fun _ => leads_pure Kept.refl _

theorem leads_setFlag (onoff : Bool) (flag : EnvOption) : Leads Accessed (setFlag lib onoff flag) :=
  leads_call lib (fun _ => rfl) fun _ => leads_map _ (leads_check lib _)

/-- Setting the flags is some accesses, up to the first that fails. -/
theorem leads_setFlags (value : KSet EnvOption) : Leads Accessed (setFlags lib value) := by
  refine leads_bind Accessed.trans (leads_getFlags lib) fun current => ?_
  refine leads_bind Kept.trans ?_ fun _ => leads_bind Kept.trans ?_ fun _ => leads_assign ?_
  · exact leads_forM Kept.refl Kept.trans
      (fun f => leads_mono (fun _ _ => And.left) (leads_setFlag lib false f)) _
  · exact leads_forM Kept.refl Kept.trans
      (fun f => leads_mono (fun _ _ => And.left) (leads_setFlag lib true f)) _
  · exact fun _ => ⟨rfl, rfl, rfl⟩

/-- The other methods are one access each. -/
theorem Access.leads_perform (m : Access) : Leads Accessed (m.perform lib p) := by
  cases m
  case setFlags value => exact leads_map _ (leads_setFlags lib value)
  case getFlags => exact leads_map _ (leads_getFlags lib)
  case setMaxDatabases | setMapSize | setMaxReaders =>
    refine leads_map _ (leads_call lib (fun _ => rfl) fun _ => ?_)
    refine leads_bind Kept.trans (leads_checkSetter lib p _) fun _ => leads_assign ?_
    exact fun _ => ⟨rfl, rfl, rfl⟩
  case stat =>
    refine leads_map _ (leads_call lib (fun _ => rfl) fun _ => ?_)
    cases p
    · exact leads_pure Kept.refl _
    · exact leads_bind Kept.trans (leads_check lib _) fun _ => leads_pure Kept.refl _
  case maxKeySize =>
    exact leads_map _ (leads_call lib (fun _ => rfl) fun _ => leads_pure Kept.refl _)
  case copyTo | copyTo2 | sync =>
    exact leads_map _ (leads_call lib (fun _ => rfl) fun _ => leads_map _ (leads_check lib _))
  case getMaxReaders | staleReaderCount | info =>
    exact leads_map _ (leads_call lib (fun _ => rfl) fun _ =>
      leads_bind Kept.trans (leads_check lib _) fun _ => leads_pure Kept.refl _)

/-! ## What the platforms make of it -/

/-- The call of a method whose result code only native checks. -/
def Access.unchecked : Access → Ptr → Option Call
  | setMaxDatabases value, ptr => some (.mdbEnvSetMaxdbs ptr value)
  | setMapSize value, ptr => some (.mdbEnvSetMapsize ptr value)
  | setMaxReaders value, ptr => some (.mdbEnvSetMaxreaders ptr value)
  | stat, ptr => some (.mdbEnvStat ptr)
  | _, _ => none

/-- Such a method makes the same call on both platforms. On the JVM it always
    returns. -/
theorem Access.exec_unchecked {m : Access} {ptr : Ptr} {c : Call} (hc : m.unchecked ptr = some c) :
    ∃ (v : Reply → Value) (f : Env → Env),
      (∀ e, (f e).ptr = e.ptr ∧ (f e).isOpened = e.isOpened ∧ (f e).isClosed = e.isClosed) ∧
      ∀ (e : Env) (s : Session Call Reply N), e.ptr = ptr →
        let r := lib.reply c s.native
        (m.perform lib .jvm).exec (e, s) = (.ok (v r), (f e, s.after lib.toHandler c)) ∧
          (m.perform lib .native).exec (e, s) =
            if r.rc = 0 then (.ok (v r), (f e, s.after lib.toHandler c))
            else (.error (getException lib r.rc), (e, s.after lib.toHandler c)) := by
  cases m
  case setMaxDatabases value =>
    obtain rfl := Option.some.inj hc
    refine ⟨fun _ => .unit, fun e => { e with maxDatabases := value }, fun _ => ⟨rfl, rfl, rfl⟩, ?_⟩
    rintro e s rfl
    constructor <;> simp [perform, Env.setMaxDatabases, checkSetter]
  case setMapSize value =>
    obtain rfl := Option.some.inj hc
    refine ⟨fun _ => .unit, fun e => { e with mapSize := value }, fun _ => ⟨rfl, rfl, rfl⟩, ?_⟩
    rintro e s rfl
    constructor <;> simp [perform, Env.setMapSize, checkSetter]
  case setMaxReaders value =>
    obtain rfl := Option.some.inj hc
    refine ⟨fun _ => .unit, fun e => { e with maxReaders := value }, fun _ => ⟨rfl, rfl, rfl⟩, ?_⟩
    rintro e s rfl
    constructor <;> simp [perform, Env.setMaxReaders, checkSetter]
  case stat =>
    obtain rfl := Option.some.inj hc
    refine ⟨fun r => .stat r.stat, fun e => e, fun _ => ⟨rfl, rfl, rfl⟩, ?_⟩
    rintro e s rfl
    constructor
    · simp [perform, Env.stat]
    · by_cases h : (lib.reply (.mdbEnvStat e.ptr) s.native).rc = 0 <;> simp [perform, Env.stat, h]
  all_goals cases hc

/-- The same handle, and the same session. -/
def SameHandle (s s' : Env × Session Call Reply N) : Prop := s.1.ptr = s'.1.ptr ∧ s.2 = s'.2

theorem mirrors_call {α : Type} {c : Env → Call} {k k' : Reply → Kt N Env α}
    (hc : ∀ e e' : Env, e.ptr = e'.ptr → c e = c e')
    (hk : ∀ r, Mirrors Exn.BothLmdb SameHandle (k r) (k' r)) :
    Mirrors Exn.BothLmdb SameHandle (self >>= fun e => call lib (c e) >>= k)
      (self >>= fun e => call lib (c e) >>= k') := by
  rintro ⟨e, s⟩ ⟨e', s'⟩ ⟨hptr, hs⟩
  obtain rfl : s = s' := hs
  have hcall := hc e e' hptr
  simp only [exec_bind, exec_self, exec_call, ← hcall]
  exact hk _ _ _ ⟨hptr, rfl⟩

theorem mirrors_assign {f : Env → Env} (hf : ∀ e, (f e).ptr = e.ptr) :
    Mirrors Exn.BothLmdb SameHandle (assign f : Kt N Env Unit) (assign f) :=
  fun s s' hs => ⟨rfl, (hf s.1).trans (hs.1.trans (hf s'.1).symm), hs.2⟩

theorem mirrors_setFlag (onoff : Bool) (flag : EnvOption) :
    Mirrors Exn.BothLmdb SameHandle (setFlag lib onoff flag) (setFlag lib onoff flag) :=
  mirrors_call lib (fun _ _ h => by rw [h]) fun _ => mirrors_map _ (mirrors_check lib _ _)

theorem mirrors_getFlags : Mirrors Exn.BothLmdb SameHandle (getFlags lib) (getFlags lib) :=
  mirrors_call lib (fun _ _ h => by rw [h]) fun _ =>
    mirrors_bind (mirrors_check lib _ _) fun _ => mirrors_pure _

theorem mirrors_setFlags (value : KSet EnvOption) :
    Mirrors Exn.BothLmdb SameHandle (setFlags lib value) (setFlags lib value) := by
  refine mirrors_bind (mirrors_getFlags lib) fun current => ?_
  refine mirrors_bind (mirrors_forM (mirrors_setFlag lib false) _) fun _ => ?_
  refine mirrors_bind (mirrors_forM (mirrors_setFlag lib true) _) fun _ => ?_
  exact mirrors_assign fun _ => rfl

/-- All other methods come to the same on both platforms. -/
theorem Access.mirrors_perform {m : Access} (hm : ∀ ptr, m.unchecked ptr = none) :
    Mirrors Exn.BothLmdb SameHandle (m.perform lib .jvm) (m.perform lib .native) := by
  cases m
  case setMaxDatabases | setMapSize | setMaxReaders | stat => cases hm 0
  case setFlags value => exact mirrors_map _ (mirrors_setFlags lib value)
  case getFlags => exact mirrors_map _ (mirrors_getFlags lib)
  case maxKeySize =>
    exact mirrors_map _ (mirrors_call lib (fun _ _ h => by rw [h]) fun _ => mirrors_pure _)
  case copyTo | copyTo2 | sync =>
    exact mirrors_map _ (mirrors_call lib (fun _ _ h => by rw [h]) fun _ =>
      mirrors_map _ (mirrors_check lib _ _))
  case getMaxReaders | staleReaderCount | info =>
    exact mirrors_map _ (mirrors_call lib (fun _ _ h => by rw [h]) fun _ =>
      mirrors_bind (mirrors_check lib _ _) fun _ => mirrors_pure _)

/-! ## The life cycle -/

theorem exec_open (path : String) (options : List EnvOption) (mode : String) (e : Env)
    (s : Session Call Reply N) :
    (Env.open lib p path options mode).exec (e, s) =
      match parseMode p mode with
      | none => (.error (.numberFormatException mode), ({ e with isOpened := true }, s))
      | some m =>
        let c := .mdbEnvOpen e.ptr path (EnvOption.toFlags options) m
        (if (lib.reply c s.native).rc = 0 then .ok ()
          else .error (getException lib (lib.reply c s.native).rc),
          ({ e with isOpened := true }, s.after lib.toHandler c)) := by
  cases h : parseMode p mode <;> simp [Env.open, h]

/-- `beginTxn` looks at `isOpened` only. -/
theorem exec_beginTxn (options : List TxnOption) (e : Env) (s : Session Call Reply N) :
    (beginTxn lib options).exec (e, s) =
      if e.isOpened then
        let c := .mdbTxnBegin e.ptr none (TxnOption.toFlags options)
        (Txn.beginResult lib none (lib.reply c s.native), (e, s.after lib.toHandler c))
      else (.error (.lmdbException "Env is not open"), (e, s)) := by
  rw [beginTxn, exec_bind, exec_self]
  exact Txn.exec_init lib e none options (e, s)

/-- `close` calls LMDB if `isOpened`, the first time. -/
theorem exec_close (e : Env) (s : Session Call Reply N) :
    (close lib p).exec (e, s) =
      if e.isClosed then (.ok (), (e, s))
      else
        (.ok (), ({ e with isOpened := e.isOpened && p = .native, isClosed := true },
          if e.isOpened then s.after lib.toHandler (.mdbEnvClose e.ptr) else s)) := by
  obtain ⟨ptr, isOpened, isClosed⟩ := e
  cases isClosed
  · cases p <;> cases isOpened <;> simp [close]
  · simp [close]

end Env

end KotlinLmdb
