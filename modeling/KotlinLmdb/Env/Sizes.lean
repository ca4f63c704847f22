import KotlinLmdb.Env
import KotlinLmdb.Lmdb.Sizes
import KotlinLmdb.Machine

/-!
# The sizes of an environment

`mapSize` and `maxDatabases` are assigned before or after opening, any number of times,
whatever LMDB finds each time (`Env.sizes`). They are to show what LMDB has in effect, and
an assignment that LMDB rejects is to throw and leave them as they were
(`Env.ShowsSizes`).

They show what was assigned, instead. The JVM does not look at LMDB's result; LMDB rounds
a size up, and adopts the stored one, if there is none or it is `0`; `mapSize` starts with
a size LMDB was not told. So the properties are right exactly in the runs where LMDB
takes each value as it is, or rejects it on native and stays as it was
(`Env.showsSizes_iff`).
-/

namespace KotlinLmdb

open Eff

namespace Env

variable {N : Type} (lib : Library N) (p : Platform)

/-- A new environment. -/
def fresh (ptr : Ptr) : Env :=
  { ptr, mapSize := match p with | .jvm => 1024 * 1024 * 100 | .native => 1024 * 1024 * 50 }

/-- It is what the constructor returns. -/
theorem exec_init {σ : Type} (s : σ × Session Call Reply N) :
    (init lib p).exec s =
      let r := lib.reply .mdbEnvCreate s.2.native
      (if p = .jvm ∨ r.rc = 0 then .ok (fresh p r.ptr) else .error (getException lib r.rc),
        (s.1, s.2.after lib.toHandler .mdbEnvCreate)) := by
  cases p
  · simp [init, fresh]
  · by_cases h : (lib.reply .mdbEnvCreate s.2.native).rc = 0 <;> simp [init, fresh, h]

/-- Assigning a size, or opening the environment. -/
inductive Sizing
  | maxDatabases (value : UInt32)
  | mapSize (value : UInt64)
  | open (path : String) (options : List EnvOption) (mode : String)

namespace Sizing

/-- Calling a method. -/
def perform : Sizing → Kt N Env Unit
  | maxDatabases value => Env.setMaxDatabases lib p value
  | mapSize value => Env.setMapSize lib p value
  | «open» path options mode => Env.open lib p path options mode

/-- It is an assignment. -/
def Assigns : Sizing → Prop
  | maxDatabases _ | mapSize _ => True
  | «open» .. => False

end Sizing

/-- An environment and LMDB, as a machine taking assignments and openings, together with
    what LMDB finds. -/
def sizes (lib : Library EnvSizes) :
    Machine (Env × EnvSizes) (Surroundings × Sizing) (Seen Unit) where
  step s i := (i.2.perform lib p).observe s.1 { s.2 with now := i.1 }

/-- The properties are what LMDB has in effect: a map size if it was told one or the
    environment was opened, and the number of named databases. -/
structure InEffect (s : Env × EnvSizes) : Prop where
  mapSize : s.2.fd ∨ s.2.mapsize ≠ 0 → s.1.mapSize = s.2.mapsize
  maxDatabases : s.1.maxDatabases.toNat + 2 = s.2.maxdbs.toNat

/-- After a step the properties are what LMDB has in effect. If it was an assignment that
    LMDB rejected, it has thrown and left them as they were. -/
structure ShowsSizes (lib : Library EnvSizes) (s : Env × EnvSizes) (i : Surroundings × Sizing) :
    Prop where
  inEffect : InEffect ((sizes p lib).next s i)
  rejected : i.2.Assigns → ∀ c ∈ ((sizes p lib).out s i).calls, c.2.rc ≠ 0 →
    (∃ message, ((sizes p lib).out s i).outcome = .error (.lmdbException message)) ∧
      ((sizes p lib).next s i).1 = s.1

/-- If it is an opening, it succeeds. -/
def Opens (lib : Library EnvSizes) (s : Env × EnvSizes) (i : Surroundings × Sizing) : Prop :=
  ¬i.2.Assigns → ((sizes p lib).out s i).outcome = .ok ()

/-- LMDB takes the value as it is: on opening, the size of the property. On native it may
    also reject it, as long as its own stays as it was. -/
def TakesAsIs (s : Env × EnvSizes) (i : Surroundings × Sizing) : Prop :=
  let n := { s.2 with now := i.1 }
  match i.2 with
  | .maxDatabases value => if n.map then p = .native else value.toNat + 2 < 2 ^ 32
  | .mapSize value =>
    n.map → if n.now.writer then p = .native
      else if n.now.mapping = 0 then n.resized value = value
      else p = .native ∧ n.resized value = s.1.mapSize
  | .open .. => n.opened = s.1.mapSize

instance (s : Env × EnvSizes) : (i : Surroundings × Sizing) → Decidable (TakesAsIs p s i)
  | (_, .maxDatabases value) =>
    inferInstanceAs (Decidable (if s.2.map then p = .native else value.toNat + 2 < 2 ^ 32))
  | (now, .mapSize value) =>
    inferInstanceAs (Decidable (s.2.map → if now.writer then p = .native
      else if now.mapping = 0 then EnvSizes.resized { s.2 with now } value = value
      else p = .native ∧ EnvSizes.resized { s.2 with now } value = s.1.mapSize))
  | (now, .open ..) => inferInstanceAs (Decidable (EnvSizes.opened { s.2 with now } = s.1.mapSize))

/-! ## One assignment -/

variable {lib p} {e : Env} {n : N}

/-- An assignment makes one call, whose result only native looks at. -/
theorem observe_setter (c : Ptr → Call) (f : Env → Env) :
    (do
      let result ← call lib (c (← self).ptr)
      checkSetter lib p result.rc
      assign f : Kt N Env Unit).observe e n =
      let r := lib.reply (c e.ptr) n
      if p = .jvm ∨ r.rc = 0 then (⟨.ok (), [(c e.ptr, r)]⟩, f e, lib.next (c e.ptr) n)
      else (⟨.error (getException lib r.rc), [(c e.ptr, r)]⟩, e, lib.next (c e.ptr) n) := by
  cases p
  · simp [Eff.observe, checkSetter]
  · by_cases h : (lib.reply (c e.ptr) n).rc = 0 <;> simp [Eff.observe, checkSetter, h]

section Steps

variable {lib : Library EnvSizes} {s : Env × EnvSizes} {i : Surroundings × Sizing}

/-- An assignment shows the sizes if the value is in effect, once it is taken, or the
    old one still is, once it is rejected, on native. -/
theorem showsSizes_assign (hi : i.2.Assigns) {c : Ptr → Call} {f : Env → Env}
    (hperform : i.2.perform lib p = do
      let result ← call lib (c (← self).ptr)
      checkSetter lib p result.rc
      assign f) {a : Reply × EnvSizes}
    (ha : lib.answer (c s.1.ptr) { s.2 with now := i.1 } = a) :
    ShowsSizes p lib s i ↔
      if a.1.rc = 0 then InEffect (f s.1, a.2) else p = .native ∧ InEffect (s.1, a.2) := by
  have hstep : (sizes p lib).step s i =
      (i.2.perform lib p).observe s.1 { s.2 with now := i.1 } := rfl
  rw [hperform, observe_setter] at hstep
  simp only [Handler.reply, Handler.next, ha] at hstep
  by_cases hrc : a.1.rc = 0
  · simp only [hrc, or_true, if_true] at hstep ⊢
    constructor
    · intro h
      simpa only [Machine.next, hstep] using h.inEffect
    · intro h
      refine ⟨by simpa only [Machine.next, hstep] using h, fun _ c hc hne => ?_⟩
      simp only [Machine.out, hstep, List.mem_singleton] at hc
      exact absurd (hc ▸ hrc) hne
  · simp only [hrc, or_false, if_false] at hstep ⊢
    cases p
    · -- the JVM goes on
      simp only [if_true] at hstep
      refine iff_of_false (fun h => ?_) (fun h => nomatch h.1)
      obtain ⟨⟨message, hm⟩, -⟩ := h.rejected hi (c s.1.ptr, a.1) (by simp [Machine.out, hstep]) hrc
      simp [Machine.out, hstep] at hm
    · -- native throws before the field is assigned
      simp only [if_neg (show ¬Platform.native = .jvm by decide)] at hstep
      constructor
      · intro h
        exact ⟨rfl, by simpa only [Machine.next, hstep] using h.inEffect⟩
      · rintro ⟨-, h⟩
        refine ⟨by simpa only [Machine.next, hstep] using h, fun _ _ _ _ => ?_⟩
        exact ⟨⟨_, by simp only [Machine.out, hstep]; rfl⟩, by simp only [Machine.next, hstep]⟩

/-- Whatever comes of an assignment, LMDB is as the call leaves it. -/
theorem native_next_assign {c : Ptr → Call} {f : Env → Env}
    (hperform : i.2.perform lib p = do
      let result ← call lib (c (← self).ptr)
      checkSetter lib p result.rc
      assign f) :
    ((sizes p lib).next s i).2 = lib.next (c s.1.ptr) { s.2 with now := i.1 } := by
  have hstep : (sizes p lib).step s i =
      (i.2.perform lib p).observe s.1 { s.2 with now := i.1 } := rfl
  rw [hperform, observe_setter] at hstep
  simp only [Machine.next, hstep]
  split <;> rfl

end Steps

/-! ## Each step -/

/-- The properties are what LMDB has in effect, and there is no map without a file. -/
def SizesInv (s : Env × EnvSizes) : Prop := InEffect s ∧ (s.2.map → s.2.fd)

section Steps

variable {others : Library EnvSizes} {s : Env × EnvSizes} (hs : SizesInv s) (now : Surroundings)

include hs

theorem showsSizes_maxDatabases (value : UInt32) :
    ShowsSizes p (EnvSizes.library others) s (now, .maxDatabases value) ↔
      TakesAsIs p s (now, .maxDatabases value) := by
  refine (showsSizes_assign (i := (now, .maxDatabases value)) trivial
    (c := fun ptr => .mdbEnvSetMaxdbs ptr value) (f := fun e => { e with maxDatabases := value })
    rfl rfl).trans ?_
  simp only [EnvSizes.library, EnvSizes.setMaxdbs, TakesAsIs]
  by_cases hmap : s.2.map
  · -- LMDB rejects it
    simp only [hmap, if_true]
    rw [if_neg (by decide)]
    exact and_iff_left ⟨hs.1.mapSize, hs.1.maxDatabases⟩
  · simp only [hmap, Bool.false_eq_true, if_false, if_true]
    have hadd : (value + 2).toNat = (value.toNat + 2) % 2 ^ 32 := UInt32.toNat_add value 2
    constructor
    · intro h
      have : value.toNat + 2 = (value + 2).toNat := h.maxDatabases
      omega
    · intro h
      have : value.toNat + 2 = (value + 2).toNat := by omega
      exact ⟨hs.1.mapSize, this⟩

theorem showsSizes_mapSize (value : UInt64) :
    ShowsSizes p (EnvSizes.library others) s (now, .mapSize value) ↔
      TakesAsIs p s (now, .mapSize value) := by
  refine (showsSizes_assign (i := (now, .mapSize value)) trivial
    (c := fun ptr => .mdbEnvSetMapsize ptr value) (f := fun e => { e with mapSize := value })
    rfl rfl).trans ?_
  simp only [EnvSizes.library, EnvSizes.setMapsize, TakesAsIs]
  by_cases hmap : s.2.map
  · have hfd := hs.2 hmap
    simp only [hmap, if_true, true_implies]
    by_cases hwriter : now.writer
    · simp only [hwriter, if_true]
      rw [if_neg (by decide)]
      exact and_iff_left ⟨hs.1.mapSize, hs.1.maxDatabases⟩
    simp only [hwriter, Bool.false_eq_true, if_false]
    by_cases hmapping : now.mapping = 0
    · -- it is taken, rounded up
      simp only [hmapping, ne_eq, not_true_eq_false, if_false, if_true]
      exact ⟨fun h => (h.mapSize (.inl hfd)).symm, fun h => ⟨fun _ => h.symm, hs.1.maxDatabases⟩⟩
    · -- it is rejected, but LMDB's size has changed
      simp only [hmapping, ne_eq, not_false_eq_true, if_true, if_false]
      refine and_congr_right fun _ => ?_
      exact ⟨fun h => (h.mapSize (.inl hfd)).symm, fun h => ⟨fun _ => h.symm, hs.1.maxDatabases⟩⟩
  · simp only [hmap, Bool.false_eq_true, if_false, if_true, false_implies, iff_true]
    exact ⟨fun _ => rfl, hs.1.maxDatabases⟩

omit hs in
/-- An opening that succeeds is of an environment without a file. -/
theorem next_open {path : String} {options : List EnvOption} {mode : String}
    (ho : Opens p (EnvSizes.library others) s (now, .open path options mode)) :
    (sizes p (EnvSizes.library others)).next s (now, .open path options mode) =
      ({ s.1 with isOpened := true },
        { s.2 with
          mapsize := EnvSizes.opened { s.2 with now }
          map := true
          fd := true
          psize := now.psize
          now }) := by
  have hout := ho nofun
  simp only [Machine.out, sizes, Sizing.perform, Eff.observe, exec_open] at hout
  cases hmode : parseMode p mode with
  | none =>
    rw [hmode] at hout
    cases hout
  | some m =>
    simp only [hmode, EnvSizes.reply_open, EnvSizes.envOpen] at hout
    have hfd : ¬s.2.fd := by
      intro hfd
      simp [hfd, einval] at hout
    have hopening : now.opening = 0 := by
      by_contra hopening
      simp [hfd, hopening] at hout
    simp [Machine.next, sizes, Sizing.perform, Eff.observe, exec_open, hmode, EnvSizes.envOpen, hfd,
      hopening]

theorem showsSizes_open (path : String) (options : List EnvOption) (mode : String)
    (ho : Opens p (EnvSizes.library others) s (now, .open path options mode)) :
    ShowsSizes p (EnvSizes.library others) s (now, .open path options mode) ↔
      TakesAsIs p s (now, .open path options mode) := by
  have hnext := next_open now ho
  constructor
  · intro h
    have := h.inEffect
    rw [hnext] at this
    exact (this.mapSize (.inl rfl)).symm
  · intro h
    refine ⟨?_, nofun⟩
    rw [hnext]
    exact ⟨fun _ => h.symm, hs.1.maxDatabases⟩

/-- No step makes a map without a file. -/
theorem fd_of_map_next (i : Surroundings × Sizing)
    (ho : Opens p (EnvSizes.library others) s i)
    (hmap : ((sizes p (EnvSizes.library others)).next s i).2.map) :
    ((sizes p (EnvSizes.library others)).next s i).2.fd := by
  obtain ⟨now, value | value | ⟨path, options, mode⟩⟩ := i
  · rw [native_next_assign (c := fun ptr => .mdbEnvSetMaxdbs ptr value)
      (f := fun e => { e with maxDatabases := value }) rfl] at hmap ⊢
    simp only [EnvSizes.next_setMaxdbs, EnvSizes.setMaxdbs] at hmap ⊢
    by_cases h : s.2.map
    · rw [if_pos h]
      exact hs.2 h
    · simp [h] at hmap
  · rw [native_next_assign (c := fun ptr => .mdbEnvSetMapsize ptr value)
      (f := fun e => { e with mapSize := value }) rfl] at hmap ⊢
    simp only [EnvSizes.next_setMapsize, EnvSizes.setMapsize] at hmap ⊢
    by_cases h : s.2.map
    · have hfd := hs.2 h
      split_ifs <;> exact hfd
    · simp [h] at hmap
  · rw [next_open now ho]

end Steps

/-! ## Runs -/

/-- With a successful opening or none, the properties show what LMDB has in effect after each
    step, and each rejected assignment throws without effect on them, exactly if LMDB takes
    each value as it is, or rejects it and stays as it was, on native. -/
theorem showsSizes_iff (others : Library EnvSizes) (p : Platform) (ptr : Ptr)
    (is : List (Surroundings × Sizing))
    (ho : (sizes p (EnvSizes.library others)).Along (Opens p (EnvSizes.library others))
      (fresh p ptr, {}) is) :
    (sizes p (EnvSizes.library others)).Along (ShowsSizes p (EnvSizes.library others))
        (fresh p ptr, {}) is ↔
      (sizes p (EnvSizes.library others)).Along (TakesAsIs p) (fresh p ptr, {}) is := by
  have hiff : ∀ s i, SizesInv s →
      ((Opens p (EnvSizes.library others) s i ∧ ShowsSizes p (EnvSizes.library others) s i) ↔
        (Opens p (EnvSizes.library others) s i ∧ TakesAsIs p s i)) := by
    rintro s ⟨now, value | value | ⟨path, options, mode⟩⟩ hs
    · exact and_congr_right fun _ => showsSizes_maxDatabases hs now value
    · exact and_congr_right fun _ => showsSizes_mapSize hs now value
    · exact and_congr_right fun h => showsSizes_open hs now path options mode h
  have hruns := Machine.along_iff_of_inv hiff
    (fun s i hs h => ⟨((hiff s i hs).2 h).2.inEffect, fd_of_map_next hs i h.1⟩) is
    (s := (fresh p ptr, {})) ⟨⟨?_, rfl⟩, nofun⟩
  · rwa [Machine.along_and, Machine.along_and, and_iff_right ho, and_iff_right ho] at hruns
  · simp

/-- The sizes are set, the environment is opened, and its size increased. -/
theorem showsSizes_increase :
    (sizes .jvm (EnvSizes.library ⟨⟨fun _ n => ({}, n)⟩, fun _ => "Error"⟩)).Along
      (ShowsSizes .jvm (EnvSizes.library ⟨⟨fun _ n => ({}, n)⟩, fun _ => "Error"⟩))
      (fresh .jvm 1, {})
      [({}, .mapSize 10485760), ({}, .maxDatabases 3), ({}, .open "/db" [] "664"),
        ({ lastPg := 100 }, .mapSize 104857600)] := by
  refine (showsSizes_iff _ .jvm 1 _ ?_).2 ?_
  · exact ⟨fun h => absurd trivial h, fun h => absurd trivial h, fun _ => by decide +kernel,
      fun h => absurd trivial h, trivial⟩
  · exact ⟨nofun, by decide +kernel, by decide +kernel, by decide +kernel, trivial⟩

/-- Without an assignment, `mapSize` is not the size of a new file, on both platforms; and
    once it is opened, the JVM does not notice that the number of databases is rejected. -/
theorem not_showsSizes_open :
    let lib := EnvSizes.library ⟨⟨fun _ n => ({}, n)⟩, fun _ => "Error"⟩
    ¬(sizes .jvm lib).Along (ShowsSizes .jvm lib) (fresh .jvm 1, {})
        [({}, .open "/db" [] "664")] ∧
      ¬(sizes .native lib).Along (ShowsSizes .native lib) (fresh .native 1, {})
        [({}, .open "/db" [] "664")] ∧
      ¬(sizes .jvm lib).Along (ShowsSizes .jvm lib) (fresh .jvm 1, {})
        [({}, .mapSize 10485760), ({}, .open "/db" [] "664"), ({}, .maxDatabases 3)] := by
  refine ⟨fun h => ?_, fun h => ?_, fun h => ?_⟩
  · exact absurd (h.1.inEffect.mapSize (.inl (by decide +kernel))) (by decide +kernel)
  · exact absurd (h.1.inEffect.mapSize (.inl (by decide +kernel))) (by decide +kernel)
  · exact absurd h.2.2.1.inEffect.maxDatabases (by decide +kernel)

end Env

end KotlinLmdb
