import KotlinLmdb.Native

/-!
# The flag word of an environment

LMDB, as far as `me_flags` goes. Some of the flags can be changed at any time
(`changeable`), others only by opening (`changeless`); further bits are LMDB's own. The
flags of `mdb_env_open` are added to those set before.

What opening comes to on the file system is left open (`Opening`).
-/

namespace KotlinLmdb

/-- `CHANGEABLE`: `MDB_NOSYNC`, `MDB_NOMETASYNC`, `MDB_MAPASYNC`, `MDB_NOMEMINIT`. -/
def changeable : UInt32 := 0x10000 ||| 0x40000 ||| 0x100000 ||| 0x1000000

/-- `CHANGELESS`: `MDB_FIXEDMAP`, `MDB_NOSUBDIR`, `MDB_RDONLY`, `MDB_WRITEMAP`,
    `MDB_NOTLS`, `MDB_NOLOCK`, `MDB_NORDAHEAD`. -/
def changeless : UInt32 :=
  0x01 ||| 0x4000 ||| mdbRdonly ||| 0x80000 ||| 0x200000 ||| 0x400000 ||| 0x800000

/-- `MDB_WRITEMAP`. -/
abbrev mdbWritemap : UInt32 := 0x80000

/-- `MDB_ENV_ACTIVE`: set while the environment is open. -/
abbrev mdbEnvActive : UInt32 := 0x20000000

/-- `MDB_ENV_TXKEY`: set if there is a thread-local key to delete. -/
abbrev mdbEnvTxkey : UInt32 := 0x10000000

/-- `MDB_FSYNCONLY`: set if `fdatasync` does not work. -/
abbrev mdbFsynconly : UInt32 := 0x08000000

/-- What the steps of opening an environment come to. -/
structure Opening where
  /-- The result of making the file names. -/
  fname : Int := 0
  /-- The result of the steps after the flags are set. -/
  rc : Int := 0
  /-- The data file was opened, if these steps fail. -/
  fd : Bool := false
  txkey : Bool := false
  fsynconly : Bool := false

/-- The bits of LMDB's own these steps set. -/
def Opening.own (o : Opening) : UInt32 :=
  (if o.txkey then mdbEnvTxkey else 0) ||| (if o.fsynconly then mdbFsynconly else 0)

/-- They are bits of no flag. -/
theorem Opening.own_and (o : Opening) : o.own &&& (changeable ||| changeless) = 0 := by
  have h : ∀ txkey fsynconly : Bool, ((if txkey then mdbEnvTxkey else 0) |||
      (if fsynconly then mdbFsynconly else 0)) &&& (changeable ||| changeless) = 0 := by decide
  exact h o.txkey o.fsynconly

/-- The flags of an environment; as created, there are none. -/
structure MeFlags where
  word : UInt32 := 0
  /-- There is a data file: `me_fd`. -/
  fd : Bool := false
  deriving DecidableEq

namespace MeFlags

variable (s : MeFlags)

/-- `mdb_env_set_flags`. -/
def setFlags (flag : UInt32) (onoff : Bool) : Reply × MeFlags :=
  if flag &&& ~~~changeable ≠ 0 then ({ rc := einval }, s)
  else ({}, { s with word := turn s.word flag onoff })

/-- `mdb_env_get_flags`. -/
def getFlags : Reply × MeFlags :=
  ({ num := (s.word &&& (changeable ||| changeless)).toUInt64 }, s)

/-- The flags `mdb_env_open` sets, before the steps that may fail. -/
def openingFlags (flags : UInt32) : UInt32 :=
  let flags := flags ||| s.word
  let flags := if flags &&& mdbRdonly ≠ 0 then flags &&& ~~~mdbWritemap else flags
  flags ||| mdbEnvActive

/-- `mdb_env_open`; if it fails, `mdb_env_close0` cleans up. -/
def envOpen (o : Opening) (flags : UInt32) : Reply × MeFlags :=
  if s.fd ∨ flags &&& ~~~(changeable ||| changeless) ≠ 0 then ({ rc := einval }, s)
  else if o.fname ≠ 0 then ({ rc := o.fname }, s)
  else
    let word := s.openingFlags flags ||| o.own
    if o.rc = 0 then ({}, { word, fd := true })
    else ({ rc := o.rc }, { word := word &&& ~~~(mdbEnvActive ||| mdbEnvTxkey), fd := o.fd })

/-- LMDB with the flags of an environment, and whatever other calls come to. -/
def library (opening : String → UInt32 → Int → Opening) (others : Library MeFlags) :
    Library MeFlags where
  answer call s :=
    match call with
    | .mdbEnvGetFlags _ => s.getFlags
    | .mdbEnvSetFlags _ flag onoff => s.setFlags flag onoff
    | .mdbEnvOpen _ path flags mode => s.envOpen (opening path flags mode) flags
    | _ => others.answer call s
  mdbStrerror := others.mdbStrerror

/-- LMDB with the flags of an environment, granting whatever is requested otherwise. -/
def granting : Library MeFlags :=
  library (fun _ _ _ => {}) ⟨⟨fun _ s => ({}, s)⟩, fun _ => "Invalid argument"⟩

section Answers

variable (opening : String → UInt32 → Int → Opening) (others : Library MeFlags) (env : Ptr)

@[simp]
theorem reply_getFlags :
    (library opening others).reply (.mdbEnvGetFlags env) s = s.getFlags.1 := rfl

@[simp]
theorem next_getFlags : (library opening others).next (.mdbEnvGetFlags env) s = s := rfl

@[simp]
theorem reply_setFlags (flag : UInt32) (onoff : Bool) :
    (library opening others).reply (.mdbEnvSetFlags env flag onoff) s =
      (s.setFlags flag onoff).1 := rfl

@[simp]
theorem next_setFlags (flag : UInt32) (onoff : Bool) :
    (library opening others).next (.mdbEnvSetFlags env flag onoff) s =
      (s.setFlags flag onoff).2 := rfl

@[simp]
theorem reply_open (path : String) (flags : UInt32) (mode : Int) :
    (library opening others).reply (.mdbEnvOpen env path flags mode) s =
      (s.envOpen (opening path flags mode) flags).1 := rfl

@[simp]
theorem next_open (path : String) (flags : UInt32) (mode : Int) :
    (library opening others).next (.mdbEnvOpen env path flags mode) s =
      (s.envOpen (opening path flags mode) flags).2 := rfl

end Answers

/-- A successful opening sets its flags, and bits of LMDB's own. -/
theorem envOpen_of_rc_eq_zero {o : Opening} {flags : UInt32} (h : (s.envOpen o flags).1.rc = 0) :
    (s.envOpen o flags).2.word = s.openingFlags flags ||| o.own := by
  simp only [envOpen] at h ⊢
  split_ifs at h ⊢ with hbad hname hrc
  · exact absurd h (by decide : ¬einval = 0)
  · exact absurd h hname
  · rfl
  · exact absurd h hrc

end MeFlags

end KotlinLmdb
