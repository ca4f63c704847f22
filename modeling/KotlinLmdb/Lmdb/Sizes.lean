import KotlinLmdb.Native

/-!
# The sizes of an environment

LMDB, as far as the size of the memory map and the number of databases go. Both are set
before opening, or left as they are as created: the size at `0`, for which opening takes
that stored in the file. Later only the size can be changed, while no write transaction
is live.

No size is less than the space used in the file; it is rounded up silently.
-/

namespace KotlinLmdb

/-- What LMDB finds when it is called. -/
structure Surroundings where
  /-- A write transaction is live (`me_txn`). -/
  writer : Bool := false
  /-- The size stored in the current meta page (`mm_mapsize`), and the last page used. A new
      file gets a page of its own. -/
  mapsize : UInt64 := 1048576
  lastPg : UInt64 := 1
  /-- The size of a page. -/
  psize : UInt64 := 4096
  /-- The result of mapping the file, and if that fails, whether there is a map. -/
  mapping : Int := 0
  mapped : Bool := false
  /-- The result of the other steps of opening, and if they fail, whether the data file was
      opened and the size decided. -/
  opening : Int := 0
  fd : Bool := false
  sized : Bool := false

/-- The sizes of an environment, as created at first. -/
structure EnvSizes where
  /-- `me_mapsize`. -/
  mapsize : UInt64 := 0
  /-- `me_maxdbs`: the unnamed databases count. -/
  maxdbs : UInt32 := 2
  /-- There is a map: `me_map`. -/
  map : Bool := false
  /-- There is a data file: `me_fd`. -/
  fd : Bool := false
  /-- `me_psize`. -/
  psize : UInt64 := 0
  now : Surroundings := {}

namespace EnvSizes

variable (s : EnvSizes)

/-- A size, rounded up to the space used if it is too small. -/
def fit (psize size : UInt64) : UInt64 :=
  let minsize := (s.now.lastPg + 1) * psize
  if size < minsize then minsize else size

/-- The size `mdb_env_set_mapsize` makes of one it is given, when there is a map. -/
def resized (size : UInt64) : UInt64 := s.fit s.psize (if size = 0 then s.now.mapsize else size)

/-- The size the environment is opened with. -/
def opened : UInt64 := s.fit s.now.psize (if s.mapsize = 0 then s.now.mapsize else s.mapsize)

/-- `mdb_env_set_mapsize`. The new size is set before the file is mapped again. -/
def setMapsize (size : UInt64) : Reply × EnvSizes :=
  if s.map then
    if s.now.writer then ({ rc := einval }, s)
    else if s.now.mapping ≠ 0 then
      ({ rc := s.now.mapping }, { s with mapsize := s.resized size, map := s.now.mapped })
    else ({}, { s with mapsize := s.resized size })
  else ({}, { s with mapsize := size })

/-- `mdb_env_set_maxdbs`. -/
def setMaxdbs (dbs : UInt32) : Reply × EnvSizes :=
  if s.map then ({ rc := einval }, s) else ({}, { s with maxdbs := dbs + 2 })

/-- `mdb_env_open`. -/
def envOpen : Reply × EnvSizes :=
  if s.fd then ({ rc := einval }, s)
  else if s.now.opening = 0 then
    ({}, { s with mapsize := s.opened, map := true, fd := true, psize := s.now.psize })
  else ({ rc := s.now.opening }, { s with
    fd := s.now.fd
    mapsize := if s.now.sized then s.opened else s.mapsize
    map := s.map || s.now.mapped })

/-- `mdb_env_info`, once there is a map. -/
def envInfo (info : EnvInfo) : Reply := { info := { info with mapSize := s.mapsize } }

/-- LMDB with the sizes of an environment, and whatever other calls come to. -/
def library (others : Library EnvSizes) : Library EnvSizes where
  answer call s :=
    match call with
    | .mdbEnvSetMapsize _ size => s.setMapsize size
    | .mdbEnvSetMaxdbs _ dbs => s.setMaxdbs dbs
    | .mdbEnvOpen _ _ _ _ => s.envOpen
    | .mdbEnvInfo _ => (s.envInfo (others.reply call s).info, s)
    | _ => others.answer call s
  mdbStrerror := others.mdbStrerror

section Answers

variable (others : Library EnvSizes) (env : Ptr)

@[simp]
theorem reply_setMapsize (size : UInt64) :
    (library others).reply (.mdbEnvSetMapsize env size) s = (s.setMapsize size).1 := rfl

@[simp]
theorem next_setMapsize (size : UInt64) :
    (library others).next (.mdbEnvSetMapsize env size) s = (s.setMapsize size).2 := rfl

@[simp]
theorem reply_setMaxdbs (dbs : UInt32) :
    (library others).reply (.mdbEnvSetMaxdbs env dbs) s = (s.setMaxdbs dbs).1 := rfl

@[simp]
theorem next_setMaxdbs (dbs : UInt32) :
    (library others).next (.mdbEnvSetMaxdbs env dbs) s = (s.setMaxdbs dbs).2 := rfl

@[simp]
theorem reply_open (path : String) (flags : UInt32) (mode : Int) :
    (library others).reply (.mdbEnvOpen env path flags mode) s = s.envOpen.1 := rfl

@[simp]
theorem next_open (path : String) (flags : UInt32) (mode : Int) :
    (library others).next (.mdbEnvOpen env path flags mode) s = s.envOpen.2 := rfl

@[simp]
theorem reply_info :
    (library others).reply (.mdbEnvInfo env) s =
      s.envInfo (others.reply (.mdbEnvInfo env) s).info := rfl

end Answers

end EnvSizes

end KotlinLmdb
