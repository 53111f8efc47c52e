import Scratchpad.Proofs.Session.Run

/-!
# How surfaces are opened

The actions on whole surfaces never fail, and each has a closed form: what it yields, and the session after it. An open
surface is used as it is (`runFrom_openSurface_of_some`), and any other is empty (`runFrom_openSurface_of_none`);
`runFrom_attach` and `runFrom_close` are the others. A request for a scratch surface is met with the active one
(`runFrom_openScratch_of_some`) or with a new one (`runFrom_openScratch_of_none`), and `runFrom_openReady` is what
follows in both cases.
-/

namespace Scratchpad

/-! ## The environments of a registry -/

namespace Registry

variable {id id' : SurfaceId}

theorem find?_reset_self (r : Registry) (id : SurfaceId) : (r.reset id).find? id = none := by
  rw [find?, reset, List.lookup_eq_none_iff]
  intro e he
  simpa using Ne.symm (of_decide_eq_true (List.mem_filter.1 he).2)

theorem find?_reset_of_ne (h : id' ≠ id) (r : Registry) : (r.reset id).find? id' = r.find? id' := by
  simp only [find?, reset]
  induction r.environments with
  | nil => rfl
  | cons e es ih =>
    by_cases he : e.1 = id
    · have hne : (id' == e.1) = false := by simpa [he] using h
      rw [List.filter_cons_of_neg (by simpa using he), ih, List.lookup_cons, hne]
    · rw [List.filter_cons_of_pos (by simpa using he), List.lookup_cons, List.lookup_cons, ih]

/-- Dropping the environment of a surface that has none changes nothing. -/
theorem reset_of_find?_eq_none {r : Registry} (h : r.find? id = none) : r.reset id = r := by
  have hall : ∀ e ∈ r.environments, decide (e.1 ≠ id) = true := fun e he => by
    simpa using Ne.symm (bne_iff_ne.1 (List.lookup_eq_none_iff.1 h e he))
  rw [reset, List.filter_eq_self.2 hall]

theorem find?_getOrCreate_of_ne (h : id' ≠ id) (r : Registry) (i : Interpreter) :
    (r.getOrCreate i id).2.2.1.find? id' = r.find? id' := by
  have hbeq : (id' == id) = false := by simpa using h
  rw [getOrCreate]
  split
  · rfl
  · rw [find?, List.lookup_append, List.lookup_cons, hbeq, List.lookup_nil, Option.or_none]
    rfl

theorem find?_getOrCreate_self (r : Registry) (i : Interpreter) (id : SurfaceId) :
    (r.getOrCreate i id).2.2.1.find? id = some (r.getOrCreate i id).1 := by
  rw [getOrCreate]
  split
  · assumption
  · rename_i h
    rw [find?, List.lookup_append, show r.environments.lookup id = none from h, Option.none_or, List.lookup_cons_self]

@[simp]
theorem active_getOrCreate (r : Registry) (i : Interpreter) (id : SurfaceId) :
    (r.getOrCreate i id).2.2.1.active = r.active := by
  rw [getOrCreate]
  split <;> rfl

end Registry

namespace Session

variable {s : Session} {id : SurfaceId} {x : Surface}

/-! ## Environments and their surfaces -/

/-- The session without an environment for the surface. -/
def dropped (s : Session) (id : SurfaceId) : Session :=
  { s with registry := s.registry.reset id,
           log := if s.registry.contains id then .resetEnvironment id :: s.log else s.log }

theorem runFrom_dropEnvironment (id : SurfaceId) (s : Session) :
    (dropEnvironment id).runFrom s = (.ok (), s.dropped id) := by
  rw [dropEnvironment, runFrom_bind, runFrom_get, dropped]
  dsimp only
  split
  · rfl
  · rename_i hno
    rw [Registry.contains, Option.not_isSome_iff_eq_none] at hno
    rw [Registry.reset_of_find?_eq_none hno]
    rfl

/-- The environment of a surface is dropped, or nothing happens. -/
theorem runFrom_resetEnvironment (id? : Option SurfaceId) (s : Session) :
    (resetEnvironment id?).runFrom s = (.ok (), s) ∨
      ∃ id, (resetEnvironment id?).runFrom s = (.ok (), s.dropped id) := by
  rw [resetEnvironment, runFrom_bind, runFrom_get]
  dsimp only
  split
  · exact .inl rfl
  · split
    · exact .inr ⟨_, runFrom_dropEnvironment _ s⟩
    · exact .inl rfl

/-- The session without the surface. -/
def without (s : Session) (id : SurfaceId) : Session :=
  let s := { s with surfaces := s.surfaces.filter fun e => e.1 ≠ id }.dropped id
  { s with registry := s.registry.forget id }

/-- The session in which the first surface is the active one if none is. -/
def withActive (s : Session) : Session :=
  if s.registry.active.isNone then
    match s.surfaces with
    | (first, _) :: _ => { s with registry := s.registry.touch first }
    | [] => s
  else s

theorem runFrom_close (id : SurfaceId) (s : Session) : (close id).runFrom s = (.ok (), (s.without id).withActive) := by
  have hlast : ∀ t : Session, Action.runFrom (do
      let s ← get
      if s.registry.active.isNone then
        match s.surfaces with
        | (first, _) :: _ => touch first
        | [] => pure ()) t = (.ok (), t.withActive) := by
    intro t
    rw [runFrom_bind, runFrom_get, withActive]
    dsimp only
    split
    · split <;> rfl
    · rfl
  rw [close, runFrom_bind, runFrom_modify]
  dsimp only
  rw [runFrom_bind, runFrom_dropEnvironment]
  exact hlast (s.without id)

/-- The session in which the surface is the active one; it has an environment then if environments last. -/
def inUse (s : Session) (id : SurfaceId) : Session :=
  let s := if s.settings.persist then s.provided id else s
  { s with registry := s.registry.touch id }

@[simp]
theorem surfaces_inUse (s : Session) (id : SurfaceId) : (s.inUse id).surfaces = s.surfaces := by
  rw [inUse]
  dsimp only
  split <;> rfl

@[simp]
theorem settings_inUse (s : Session) (id : SurfaceId) : (s.inUse id).settings = s.settings := by
  rw [inUse]
  dsimp only
  split <;> rfl

theorem runFrom_inUse (s : Session) (id : SurfaceId) (x : Surface) :
    Action.runFrom (do if (← get).settings.persist then { let _ ← environment id }; touch id; return x) s =
      (.ok x, s.inUse id) := by
  rw [runFrom_bind, runFrom_get, inUse]
  dsimp only
  split
  · rw [runFrom_bind, runFrom_environment]
    rfl
  · rfl

/-- Opening an open surface changes no surface. -/
theorem runFrom_openSurface_of_some (hx : s.surfaces.lookup id = some x) :
    (openSurface id).runFrom s = (.ok x, s.inUse id) := by
  rw [openSurface, runFrom_bind, runFrom_get]
  dsimp only
  rw [hx]
  exact runFrom_inUse s id x

/-- A surface that is not open is an empty one once it is opened. -/
theorem runFrom_openSurface_of_none (hnone : s.surfaces.lookup id = none) :
    (openSurface id).runFrom s = (.ok (.ofLines id.name []),
      { s with surfaces := putSurface s.surfaces id (.ofLines id.name []) }.inUse id) := by
  rw [openSurface, runFrom_bind, runFrom_get]
  dsimp only
  rw [hnone]
  exact runFrom_inUse _ id _

/-- A surface that is attached takes the place of the one that was open under its identifier. -/
theorem runFrom_attach (new : Surface) (id? : Option SurfaceId) (s : Session) :
    let id := id?.getD (.text new.name)
    (attach new id?).runFrom s = (.ok id, { s with surfaces := putSurface s.surfaces id new }.inUse id) := by
  intro id
  rw [attach, runFrom_bind, runFrom_setSurface]
  dsimp only
  rw [runFrom_bind, runFrom_openSurface_of_some (lookup_putSurface_self s.surfaces id new)]
  rfl

/-! ## Scratch surfaces -/

/-- The identifier of the next scratch surface that is made. -/
def nextScratch (s : Session) : SurfaceId :=
  .text (scratchNameAt (s.scratches + 1))

/-- The session with one more scratch surface, which shows the introduction. -/
def withScratch (s : Session) : Session :=
  { s with scratches := s.scratches + 1
           surfaces := putSurface s.surfaces s.nextScratch (.ofLines s.nextScratch.name s.settings.intro) }

theorem lookup_withScratch (s : Session) :
    s.withScratch.surfaces.lookup s.nextScratch = some (.ofLines s.nextScratch.name s.settings.intro) :=
  lookup_putSurface_self _ _ _

/-- The session before a scratch surface is opened: environments that do not last are new then. -/
def renewed (s : Session) (id : SurfaceId) : Session :=
  if s.settings.persist then s else s.dropped id

@[simp]
theorem settings_renewed (s : Session) (id : SurfaceId) : (s.renewed id).settings = s.settings := by
  rw [renewed]
  split <;> rfl

/-- What follows once the scratch surface is there. -/
def openReady (isNew : Bool) (id : SurfaceId) : Action SurfaceId := do
  if !(← get).settings.persist then dropEnvironment id
  let x ← openSurface id
  if isNew then setSurface id (readyForInput x)
  return id

theorem runFrom_openReady (isNew : Bool) (hx : s.surfaces.lookup id = some x) : (openReady isNew id).runFrom s =
    (.ok id, { (s.renewed id).inUse id with
      surfaces := if isNew then putSurface s.surfaces id (readyForInput x) else s.surfaces }) := by
  have hrest : ∀ t : Session, t.surfaces = s.surfaces →
      Action.runFrom (do let x ← openSurface id; if isNew then { setSurface id (readyForInput x) }; return id) t =
        (.ok id, { t.inUse id with
          surfaces := if isNew then putSurface s.surfaces id (readyForInput x) else s.surfaces }) := by
    intro t ht
    rw [runFrom_bind, runFrom_openSurface_of_some (ht ▸ hx)]
    cases isNew with
    | true => rw [← ht, ← surfaces_inUse t id]; rfl
    | false => rw [← ht, ← surfaces_inUse t id]; rfl
  rw [openReady, runFrom_bind, runFrom_get, renewed]
  dsimp only
  cases s.settings.persist with
  | true => exact hrest s rfl
  | false =>
    simp only [Bool.not_false, if_true, runFrom_bind s, runFrom_dropEnvironment, Bool.false_eq_true, if_false]
    exact hrest _ rfl

theorem lookup_of_active? {e : SurfaceId × Surface} (h : s.active? = some e) : s.surfaces.lookup e.1 = some e.2 := by
  simp only [active?, Option.bind_eq_bind, Option.bind_eq_some_iff] at h
  obtain ⟨id, -, y, hy, h⟩ := h
  cases h
  exact hy

/-- The active surface serves as scratch surface. -/
theorem runFrom_openScratch_of_some {forceNew : Bool}
    (h : (if forceNew then none else s.active?.map Prod.fst) = some id) :
    ∃ x, s.surfaces.lookup id = some x ∧ (openScratch forceNew).runFrom s = (openReady false id).runFrom s := by
  obtain ⟨x, hx⟩ : ∃ x, s.surfaces.lookup id = some x := by
    split at h
    · cases h
    · obtain ⟨e, he, rfl⟩ := Option.map_eq_some_iff.1 h
      exact ⟨e.2, lookup_of_active? he⟩
  refine ⟨x, hx, ?_⟩
  rw [openScratch, runFrom_bind, runFrom_get]
  dsimp only
  rw [h]
  rfl

/-- If no surface is active, or a new one is asked for, a scratch surface is made. -/
theorem runFrom_openScratch_of_none {forceNew : Bool}
    (h : (if forceNew then none else s.active?.map Prod.fst) = none) :
    (openScratch forceNew).runFrom s = (openReady true s.nextScratch).runFrom s.withScratch := by
  rw [openScratch, runFrom_bind, runFrom_get]
  dsimp only
  rw [h]
  rfl

end Session

end Scratchpad
