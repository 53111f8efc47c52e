import Scratchpad.Proofs.Blank
import Scratchpad.Proofs.Session.Active

/-!
# New scratch surfaces

Scratch surfaces are named by a counter, but the names are no secret: a caller can open a surface under the next one, or
ask for its environment. What a call can do to a surface and its environment that no one has named is stated by
`mem_ids_after` and `find?_after`, and by induction no surface is open under a name ahead of the counter unless a caller
opened it and has not closed it since (`not_mem_ids_afterCalls`, `find?_afterCalls`). Main statement: then a new scratch
surface is really new, and it takes no place of another one (`runFrom_openScratch_new`).
-/

namespace Scratchpad.Session

theorem eq_of_toString_eq {m n : Nat} (h : toString m = toString n) : m = n := by
  have hdigits : Nat.toDigits 10 m = Nat.toDigits 10 n := by
    have hlists : (Nat.repr m).toList = (Nat.repr n).toList := congrArg String.toList h
    simpa only [Nat.repr_eq_ofList_toDigits, String.toList_ofList] using hlists
  calc
    m = Nat.ofDigitChars 10 (Nat.toDigits 10 m) 0 := Nat.ofDigitChars_ten_toDigits.symm
    _ = Nat.ofDigitChars 10 (Nat.toDigits 10 n) 0 := by rw [hdigits]
    _ = n := Nat.ofDigitChars_ten_toDigits

/-- No two scratch surfaces have the same name. -/
theorem scratchNameAt_injective : Function.Injective scratchNameAt := by
  have hne : ∀ n : Nat, scratchName ≠ scratchName ++ "/" ++ toString n := fun n h => by
    have hlength := congrArg String.length h
    simp only [String.length_append] at hlength
    have hslash : "/".length = 1 := rfl
    omega
  intro m n h
  unfold scratchNameAt at h
  split at h
  · split at h
    · omega
    · exact absurd h (hne n)
  · split at h
    · exact absurd h.symm (hne m)
    · exact eq_of_toString_eq (by simpa using h)

/-! ## What calls do to environments -/

/-- The count of scratch surfaces does not fall, and no environment comes or goes but that of the surface `id`. -/
structure Minds (id : SurfaceId) (s s' : Session) : Prop where
  scratches : s.scratches ≤ s'.scratches
  find? : ∀ id', id' ≠ id → s'.registry.find? id' = s.registry.find? id'

section Minds

variable {s s' s'' : Session} {id id' : SurfaceId} {env : Nat}

theorem Minds.refl (id : SurfaceId) (s : Session) : Minds id s s :=
  ⟨Nat.le_refl _, fun _ _ => rfl⟩

theorem Minds.trans (h : Minds id s s') (h' : Minds id s' s'') : Minds id s s'' :=
  ⟨Nat.le_trans h.scratches h'.scratches, fun id' hne => (h'.find? id' hne).trans (h.find? id' hne)⟩

theorem Minds.cases (h : Minds id s s') (henv : s'.registry.find? id' = some env) :
    id' = id ∨ id' ≠ id ∧ s.registry.find? id' = some env := by
  by_cases hid : id' = id
  · exact .inl hid
  · exact .inr ⟨hid, (h.find? id' hid).symm.trans henv⟩

theorem minds_provided (id : SurfaceId) (s : Session) : Minds id s (s.provided id) :=
  ⟨Nat.le_refl _, fun _ hne => Registry.find?_getOrCreate_of_ne hne _ _⟩

theorem minds_dropped (id : SurfaceId) (s : Session) : Minds id s (s.dropped id) :=
  ⟨Nat.le_refl _, fun _ hne => Registry.find?_reset_of_ne hne _⟩

theorem minds_inUse (id : SurfaceId) (s : Session) : Minds id s (s.inUse id) := by
  unfold inUse
  split
  · exact ⟨Nat.le_refl _, (minds_provided id s).find?⟩
  · exact ⟨Nat.le_refl _, fun _ _ => rfl⟩

theorem minds_renewed (id : SurfaceId) (s : Session) : Minds id s (s.renewed id) := by
  rw [renewed]
  split
  · exact .refl id s
  · exact minds_dropped id s

theorem minds_without (id : SurfaceId) (s : Session) : Minds id s (s.without id) :=
  ⟨Nat.le_refl _, fun _ hne => (Registry.find?_reset_of_ne hne _).trans (Registry.find?_reset_of_ne hne _)⟩

/-- Which surface is active makes no difference. -/
theorem withActive_eq (s : Session) : ∃ active, s.withActive = { s with registry := { s.registry with active } } := by
  rw [withActive]
  split
  · split
    · exact ⟨_, rfl⟩
    · exact ⟨_, rfl⟩
  · exact ⟨_, rfl⟩

theorem frame_minds (id : SurfaceId) : Frame (Minds id) id where
  refl := .refl id
  trans := .trans
  touch _ := ⟨Nat.le_refl _, fun _ _ => rfl⟩
  note _ _ := ⟨Nat.le_refl _, fun _ _ => rfl⟩
  setSurface _ _ := ⟨Nat.le_refl _, fun _ _ => rfl⟩
  evaluateText code s := by
    obtain ⟨interpreter, log, hrun⟩ := exists_runFrom_evaluateText id code s
    rw [hrun]
    exact ⟨Nat.le_refl _, (minds_provided id s).find?⟩

end Minds

/-! ## What calls do to surfaces and environments that no one names -/

/-- The call puts a surface under the identifier that it names. -/
def Call.Opens (id : SurfaceId) : Call → Prop
  | attach new id? => id?.getD (.text new.name) = id
  | openSurface id' => id' = id
  | _ => False

/-- The call asks for the environment of a surface, open or not. -/
def Call.Asks (id : SurfaceId) : Call → Prop
  | environment id' => id' = id
  | evaluateText id' _ => id' = id
  | _ => False

section Calls

variable {s : Session} {id : SurfaceId} {env : Nat}

theorem mem_enlist_iff {ids : List SurfaceId} {id id' : SurfaceId} : id ∈ enlist ids id' ↔ id ∈ ids ∨ id' = id := by
  unfold enlist
  split
  · rename_i hmem
    exact ⟨.inl, fun h => h.elim (fun h => h) fun h => h ▸ hmem⟩
  · rw [List.mem_append, List.mem_singleton, eq_comm (a := id)]

theorem minds_attach (new : Surface) (id? : Option SurfaceId) (s : Session) :
    Minds (id?.getD (.text new.name)) s ((attach new id?).runFrom s).2 := by
  have hminds := minds_inUse (id?.getD (.text new.name))
    { s with surfaces := putSurface s.surfaces (id?.getD (.text new.name)) new }
  rw [runFrom_attach]
  exact ⟨hminds.scratches, hminds.find?⟩

theorem minds_openSurface (id : SurfaceId) (s : Session) : Minds id s ((openSurface id).runFrom s).2 := by
  rcases hx : s.surfaces.lookup id with _ | x
  · have hminds := minds_inUse id { s with surfaces := putSurface s.surfaces id (.ofLines id.name []) }
    rw [runFrom_openSurface_of_none hx]
    exact ⟨hminds.scratches, hminds.find?⟩
  · rw [runFrom_openSurface_of_some hx]
    exact minds_inUse id s

theorem minds_openReady {isNew : Bool} {x : Surface} (hx : s.surfaces.lookup id = some x) :
    Minds id s ((openReady isNew id).runFrom s).2 := by
  have hminds := (minds_renewed id s).trans (minds_inUse id _)
  rw [runFrom_openReady isNew hx]
  exact ⟨hminds.scratches, hminds.find?⟩

theorem minds_openScratch (forceNew : Bool) (s : Session) :
    Minds (s.scratchTarget forceNew) s ((openScratch forceNew).runFrom s).2 := by
  rw [scratchTarget]
  rcases hcurrent : (if forceNew then none else s.active?.map Prod.fst) with _ | id
  · rw [runFrom_openScratch_of_none hcurrent]
    have hminds : Minds s.nextScratch s.withScratch ((openReady true s.nextScratch).runFrom s.withScratch).2 :=
      minds_openReady (lookup_withScratch s)
    exact ⟨Nat.le_trans (Nat.le_succ _) hminds.scratches, hminds.find?⟩
  · obtain ⟨x, hx, hrun⟩ := runFrom_openScratch_of_some hcurrent
    rw [hrun]
    exact minds_openReady hx

/-- A surface that was closed has no environment. -/
theorem minds_close (id : SurfaceId) (s : Session) :
    Minds id s ((close id).runFrom s).2 ∧ ((close id).runFrom s).2.registry.find? id = none := by
  obtain ⟨active, hactive⟩ := withActive_eq (s.without id)
  rw [runFrom_close, hactive]
  exact ⟨⟨(minds_without id s).scratches, (minds_without id s).find?⟩, Registry.find?_reset_self _ id⟩

theorem minds_evaluateText (id : SurfaceId) (code : String) (s : Session) :
    Minds id s ((evaluateText id code).runFrom s).2 :=
  (frame_minds id).evaluateText code s

theorem minds_action (id : SurfaceId) (e : Evaluation) (s : Session) : Minds id s ((e.action id).runFrom s).2 :=
  (frame_minds id).action e s

/-- The count of scratch surfaces does not fall. -/
theorem scratches_le_after (s : Session) (c : Call) : s.scratches ≤ (c.after s).scratches := by
  cases c with
  | attach new id? => exact (minds_attach new id? s).scratches
  | openScratch forceNew => exact (minds_openScratch forceNew s).scratches
  | openSurface id => exact (minds_openSurface id s).scratches
  | close id => exact (minds_close id s).1.scratches
  | resetEnvironment id? =>
    rw [Call.after]
    rcases runFrom_resetEnvironment id? s with hrun | ⟨id, hrun⟩
    · exact Nat.le_of_eq (by rw [hrun])
    · rw [hrun]
      exact (minds_dropped id s).scratches
  | environment id =>
    rw [Call.after, runFrom_environment]
    exact (minds_provided id s).scratches
  | evaluateText id code => exact (minds_evaluateText id code s).scratches
  | evaluate id e => exact (minds_action id e s).scratches

/-- The surfaces that are open after a call, in the order in which they were opened. -/
def Call.idsAfter (s : Session) : Call → List SurfaceId
  | attach new id? => enlist s.ids (id?.getD (.text new.name))
  | openScratch forceNew => enlist s.ids (s.scratchTarget forceNew)
  | openSurface id => enlist s.ids id
  | close id => s.ids.filter (· ≠ id)
  | _ => s.ids

theorem ids_after_eq (s : Session) (c : Call) : (c.after s).ids = c.idsAfter s := by
  cases c with
  | attach new id? => exact congrArg Desk.ids (desk_attach new id? s)
  | openScratch forceNew => exact congrArg Desk.ids (desk_openScratch forceNew s)
  | openSurface id => exact congrArg Desk.ids (desk_openSurface id s)
  | close id => exact congrArg Desk.ids (desk_close id s)
  | resetEnvironment id? => exact congrArg Desk.ids (desk_resetEnvironment id? s)
  | environment id => rw [Call.after, runFrom_environment]; rfl
  | evaluateText id code => exact congrArg Desk.ids (desk_evaluateText id code s)
  | evaluate id e =>
    by_cases hid : id ∈ s.ids
    · exact (visits_action id e s hid).elim (congrArg Desk.ids) (congrArg Desk.ids)
    · rw [Call.after, runFrom_action_of_not_mem hid]
      rfl

/-- A surface that is open after a call was opened by it under its name, or it was open before, or it is the next
scratch surface. -/
theorem mem_ids_after {c : Call} (h : id ∈ (c.after s).ids) :
    c.Opens id ∨ (c ≠ .close id ∧ id ∈ s.ids) ∨ (id = s.nextScratch ∧ s.scratches < (c.after s).scratches) := by
  rw [ids_after_eq] at h
  cases c with
  | attach new id? => exact (mem_enlist_iff.1 h).elim (fun h => .inr (.inl ⟨by simp, h⟩)) .inl
  | openScratch forceNew =>
    rcases mem_enlist_iff.1 h with h | h
    · exact .inr (.inl ⟨by simp, h⟩)
    · rw [scratchTarget] at h
      rcases hcurrent : (if forceNew then none else s.active?.map Prod.fst) with _ | id'
      · rw [hcurrent] at h
        refine .inr (.inr ⟨h.symm, ?_⟩)
        rw [Call.after, runFrom_openScratch_of_none hcurrent]
        exact (minds_openReady (lookup_withScratch s)).scratches
      · rw [hcurrent] at h
        obtain ⟨x, hx, -⟩ := runFrom_openScratch_of_some hcurrent
        obtain rfl : id' = id := h
        exact .inr (.inl ⟨by simp, mem_ids_iff.2 ⟨x, hx⟩⟩)
  | openSurface id' => exact (mem_enlist_iff.1 h).elim (fun h => .inr (.inl ⟨by simp, h⟩)) .inl
  | close id' =>
    obtain ⟨hmem, hne⟩ := List.mem_filter.1 h
    exact .inr (.inl ⟨fun hc => of_decide_eq_true hne (Call.close.inj hc).symm, hmem⟩)
  | resetEnvironment | environment | evaluateText | evaluate => exact .inr (.inl ⟨by simp, h⟩)

/-- A surface that has an environment after a call is open, or the call has asked for its environment, or it had it
before. -/
theorem find?_after {c : Call} (h : (c.after s).registry.find? id = some env) :
    id ∈ (c.after s).ids ∨ c.Asks id ∨ (c ≠ .close id ∧ s.registry.find? id = some env) := by
  rw [ids_after_eq]
  cases c with
  | attach new id? =>
    rcases (minds_attach new id? s).cases h with rfl | ⟨-, h⟩
    · exact .inl (mem_enlist _ _)
    · exact .inr (.inr ⟨by simp, h⟩)
  | openScratch forceNew =>
    rcases (minds_openScratch forceNew s).cases h with rfl | ⟨-, h⟩
    · exact .inl (mem_enlist _ _)
    · exact .inr (.inr ⟨by simp, h⟩)
  | openSurface id' =>
    rcases (minds_openSurface id' s).cases h with rfl | ⟨-, h⟩
    · exact .inl (mem_enlist _ _)
    · exact .inr (.inr ⟨by simp, h⟩)
  | close id' =>
    rcases (minds_close id' s).1.cases h with rfl | ⟨hne, h⟩
    · cases (minds_close id s).2.symm.trans h
    · exact .inr (.inr ⟨fun hc => hne (Call.close.inj hc).symm, h⟩)
  | resetEnvironment id? =>
    rw [Call.after] at h
    rcases runFrom_resetEnvironment id? s with hrun | ⟨id', hrun⟩
    · rw [hrun] at h
      exact .inr (.inr ⟨by simp, h⟩)
    · rw [hrun] at h
      rcases (minds_dropped id' s).cases h with rfl | ⟨-, h⟩
      · cases (Registry.find?_reset_self s.registry id).symm.trans h
      · exact .inr (.inr ⟨by simp, h⟩)
  | environment id' =>
    rw [Call.after, runFrom_environment] at h
    exact .inr (((minds_provided id' s).cases h).imp Eq.symm fun h => ⟨by simp, h.2⟩)
  | evaluateText id' code =>
    exact .inr (((minds_evaluateText id' code s).cases h).imp Eq.symm fun h => ⟨by simp, h.2⟩)
  | evaluate id' e =>
    rcases (minds_action id' e s).cases h with rfl | ⟨-, h'⟩
    · by_cases hid : id ∈ s.ids
      · exact .inl hid
      · rw [Call.after, runFrom_action_of_not_mem hid] at h
        exact .inr (.inr ⟨by simp, h⟩)
    · exact .inr (.inr ⟨by simp, h'⟩)

end Calls

/-! ## Runs -/

/-- The session after some calls, the last of which is the first in the list. -/
def afterCalls (s : Session) : List Call → Session
  | [] => s
  | c :: before => c.after (s.afterCalls before)

/-- One of the calls, the last of which is the first in the list, has the property, and none since then has closed the
surface. -/
def Pending (P : Call → Prop) (id : SurfaceId) : List Call → Prop
  | [] => False
  | c :: before => P c ∨ (c ≠ .close id ∧ Pending P id before)

section Runs

variable {settings : Settings} {i : Interpreter} {cs : List Call} {n : Nat}

/-- No surface is open under a name ahead of the counter, unless a caller has opened it and not closed it since. -/
theorem not_mem_ids_afterCalls (hn : (afterCalls { settings, interpreter := i } cs).scratches < n)
    (hopens : ¬ Pending (Call.Opens (.text (scratchNameAt n))) (.text (scratchNameAt n)) cs) :
    .text (scratchNameAt n) ∉ (afterCalls { settings, interpreter := i } cs).ids := by
  induction cs with
  | nil => exact List.not_mem_nil
  | cons c cs ih =>
    intro hmem
    have hle := scratches_le_after (afterCalls { settings, interpreter := i } cs) c
    rcases mem_ids_after hmem with h | ⟨hclose, h⟩ | ⟨h, hlt⟩
    · exact hopens (.inl h)
    · exact ih (Nat.lt_of_le_of_lt hle hn) (fun hp => hopens (.inr ⟨hclose, hp⟩)) h
    · have hnext : n = (afterCalls { settings, interpreter := i } cs).scratches + 1 :=
        scratchNameAt_injective (SurfaceId.text.inj h)
      have hn' : ((c.after (afterCalls { settings, interpreter := i } cs)).scratches) < n := hn
      omega

/-- No environment is there for a name ahead of the counter, unless a caller has asked for it, too. -/
theorem find?_afterCalls (hn : (afterCalls { settings, interpreter := i } cs).scratches < n)
    (hopens : ¬ Pending (Call.Opens (.text (scratchNameAt n))) (.text (scratchNameAt n)) cs)
    (hasks : ¬ Pending (Call.Asks (.text (scratchNameAt n))) (.text (scratchNameAt n)) cs) :
    (afterCalls { settings, interpreter := i } cs).registry.find? (.text (scratchNameAt n)) = none := by
  induction cs with
  | nil => rfl
  | cons c cs ih =>
    rw [Option.eq_none_iff_forall_ne_some]
    intro env henv
    have hle := scratches_le_after (afterCalls { settings, interpreter := i } cs) c
    rcases find?_after henv with h | h | ⟨hclose, h⟩
    · exact not_mem_ids_afterCalls hn hopens h
    · exact hasks (.inl h)
    · rw [ih (Nat.lt_of_le_of_lt hle hn) (fun hp => hopens (.inr ⟨hclose, hp⟩))
        fun hp => hasks (.inr ⟨hclose, hp⟩)] at h
      cases h

end Runs

/-! ## A new surface -/

/-- Once it is compiled, the text is evaluated on the surface in the environment `env`, from the state `i`. -/
def Starts (s : Session) (id : SurfaceId) (code : String) (env : Nat) (i : Interpreter) : Prop :=
  ∃ f i₁ notes, env = (s.registry.getOrCreate s.interpreter id).1 ∧
    ({ chunkName := s.settings.chunkName } : Evaluator).compile (s.registry.getOrCreate s.interpreter id).2.2.2 env
      code = (.ok f, i₁, notes) ∧
    i = Evaluator.capturing i₁ env

section Opening

variable {s : Session} {id : SurfaceId}

/-- A text finds a bare environment on a surface that has none yet, or a blank one. -/
theorem Starts.bare {code : String} {env : Nat} {i : Interpreter} (h : s.Starts id code env i)
    (hblank : ∀ env, s.registry.find? id = some env → s.interpreter.Blank env) : i.Bare env := by
  obtain ⟨f, i₁, notes, rfl, hcompile, rfl⟩ := h
  refine Interpreter.Blank.bare_capturing ((Interpreter.blank_getOrCreate hblank).of_tables_eq ?_)
  have htables := Evaluator.tables_compile { chunkName := s.settings.chunkName }
    (s.registry.getOrCreate s.interpreter id).2.2.2 (s.registry.getOrCreate s.interpreter id).1 code
  rwa [hcompile] at htables

/-- A surface in use has a blank environment if it had one or none, as far as it has one. -/
theorem blank_inUse (hblank : ∀ env, s.registry.find? id = some env → s.interpreter.Blank env) {env : Nat}
    (henv : (s.inUse id).registry.find? id = some env) : (s.inUse id).interpreter.Blank env := by
  unfold inUse at henv ⊢
  split at henv
  · rename_i hpersist
    obtain rfl : (s.registry.getOrCreate s.interpreter id).1 = env :=
      Option.some.inj ((Registry.find?_getOrCreate_self _ _ _).symm.trans henv)
    rw [if_pos hpersist]
    exact Interpreter.blank_getOrCreate hblank
  · rename_i hpersist
    rw [if_neg hpersist]
    exact hblank env henv

theorem find?_renewed (h : s.settings.persist = true → s.registry.find? id = none) :
    (s.renewed id).registry.find? id = none := by
  unfold renewed
  split
  · rename_i hpersist
    exact h hpersist
  · exact Registry.find?_reset_self _ _

/-- The session with a new scratch surface that is ready for input. -/
def withNewScratch (s : Session) : Session :=
  { (s.withScratch.renewed s.nextScratch).inUse s.nextScratch with
    surfaces := putSurface s.withScratch.surfaces s.nextScratch
      (readyForInput (.ofLines s.nextScratch.name s.settings.intro)) }

theorem runFrom_openScratch_true (s : Session) :
    (openScratch true).runFrom s = (.ok s.nextScratch, s.withNewScratch) := by
  rw [runFrom_openScratch_of_none rfl, runFrom_openReady true (lookup_withScratch s)]
  rfl

theorem lookup_withNewScratch_self (s : Session) : s.withNewScratch.surfaces.lookup s.nextScratch =
    some (readyForInput (.ofLines s.nextScratch.name s.settings.intro)) :=
  lookup_putSurface_self _ _ _

/-- The other surfaces stay as they are. -/
theorem lookup_withNewScratch_of_ne (h : id ≠ s.nextScratch) :
    s.withNewScratch.surfaces.lookup id = s.surfaces.lookup id :=
  (lookup_putSurface_of_ne _ h _).trans (lookup_putSurface_of_ne _ h _)

/-- A new scratch surface has a blank environment if environments do not last or there was none before, as far as it has
one. -/
theorem blank_withNewScratch (h : s.settings.persist = true → s.registry.find? s.nextScratch = none) {env : Nat}
    (henv : s.withNewScratch.registry.find? s.nextScratch = some env) : s.withNewScratch.interpreter.Blank env := by
  have hnone : (s.withScratch.renewed s.nextScratch).registry.find? s.nextScratch = none := find?_renewed h
  exact blank_inUse (fun env hold => absurd (hnone.symm.trans hold) (Option.some_ne_none env).symm) henv

end Opening

section Main

variable {settings : Settings} {i : Interpreter} {cs : List Call}

/-- After any calls a new scratch surface is really new, unless a caller has opened a surface under its name and not
closed it since: it was not open before, it shows the introduction, and all others stay as they are. If environments do
not last, or if no caller has asked for the environment of this name without closing the surface since, then a text that
is evaluated on the new surface finds a bare environment. -/
theorem runFrom_openScratch_new {s : Session} (hs : s = afterCalls { settings, interpreter := i } cs)
    (hopens : ¬ Pending (Call.Opens s.nextScratch) s.nextScratch cs) :
    ∃ s', (openScratch true).runFrom s = (.ok s.nextScratch, s') ∧ s.nextScratch ∉ s.ids ∧
      s'.surfaces.lookup s.nextScratch = some (readyForInput (.ofLines s.nextScratch.name s.settings.intro)) ∧
      (∀ id x, s.surfaces.lookup id = some x → s'.surfaces.lookup id = some x) ∧
      (s.settings.persist = false ∨ ¬ Pending (Call.Asks s.nextScratch) s.nextScratch cs →
        ∀ t : Session, t.interpreter = s'.interpreter →
          t.registry.find? s.nextScratch = s'.registry.find? s.nextScratch →
          ∀ code env j, t.Starts s.nextScratch code env j → j.Bare env) := by
  subst hs
  set s := afterCalls { settings, interpreter := i } cs
  have hnew : s.nextScratch ∉ s.ids := not_mem_ids_afterCalls (Nat.lt_succ_self _) hopens
  refine ⟨s.withNewScratch, runFrom_openScratch_true s, hnew, lookup_withNewScratch_self s, fun id x hx => ?_,
    fun hasks t hinterpreter hregistry code env j hstarts => hstarts.bare fun env henv => ?_⟩
  · have hne : id ≠ s.nextScratch := fun h => hnew (h ▸ mem_ids_iff.2 ⟨x, hx⟩)
    rwa [lookup_withNewScratch_of_ne hne]
  · rw [hinterpreter]
    refine blank_withNewScratch (fun hpersist => ?_) (hregistry.symm.trans henv)
    have hasks' := hasks.resolve_left (by rw [hpersist]; exact Bool.noConfusion)
    exact find?_afterCalls (Nat.lt_succ_self _) hopens hasks'

/-- A surface that a caller opened under the next name and closed again leaves no trace: the next scratch surface has
its name, the first one stays, and the text `x` finds a bare environment. -/
theorem runFrom_openScratch_new_closed :
    let s := afterCalls { settings := {} } [.close (.text "luapad://scratch/2"),
      .attach (.ofLines "luapad://scratch/2" ["x"]) none, .openScratch true]
    let s' := ((openScratch true).runFrom s).2
    s.nextScratch = .text "luapad://scratch/2" ∧ s.nextScratch ∉ s.ids ∧
      s'.lines? (.text "luapad://scratch") = some ["-- Scratch buffer for Lua evaluation", ""] ∧
      ∃ env j, s'.Starts s.nextScratch "x" env j ∧ j.Bare env := by
  intro s s'
  have hnext : s.nextScratch = .text "luapad://scratch/2" := by decide +kernel
  obtain ⟨t, hrun, hnew, -, hothers, hbare⟩ := @runFrom_openScratch_new {} {}
    [.close (.text "luapad://scratch/2"), .attach (.ofLines "luapad://scratch/2" ["x"]) none, .openScratch true] s rfl
    (by rw [hnext]; rintro (h | ⟨h, -⟩); exacts [h, h rfl])
  obtain rfl : s' = t := congrArg Prod.snd hrun
  refine ⟨hnext, hnew, ?_, ?_⟩
  · have hfirst : s.lines? (.text "luapad://scratch") = some ["-- Scratch buffer for Lua evaluation", ""] := by
      decide +kernel
    obtain ⟨x, hx, hlines⟩ := Option.map_eq_some_iff.1 hfirst
    rw [lines?, hothers _ x hx, ← hlines]
    rfl
  · have hcompiles : (({ chunkName := s'.settings.chunkName } : Evaluator).compile
        (s'.registry.getOrCreate s'.interpreter s.nextScratch).2.2.2
        (s'.registry.getOrCreate s'.interpreter s.nextScratch).1 "x").1.toOption.isSome = true := by decide +kernel
    rcases hcompile : ({ chunkName := s'.settings.chunkName } : Evaluator).compile
        (s'.registry.getOrCreate s'.interpreter s.nextScratch).2.2.2
        (s'.registry.getOrCreate s'.interpreter s.nextScratch).1 "x" with ⟨message | f, i₁, notes⟩
    · rw [hcompile] at hcompiles
      cases hcompiles
    · have hstarts : s'.Starts s.nextScratch "x" _ _ := ⟨f, i₁, notes, rfl, hcompile, rfl⟩
      refine ⟨_, _, hstarts, hbare (.inr ?_) s' rfl rfl _ _ _ hstarts⟩
      rintro (h | ⟨h, -⟩)
      exacts [h, h (by rw [hnext])]

/-- What a caller has put under the next name is lost, or found on the new surface. The `print` that records lines is
found there in any case. -/
theorem openScratch_not_new :
    let new : Session := { settings := {} }
    let id : SurfaceId := .text "luapad://scratch"
    let attached := (Call.attach (.ofLines "luapad://scratch" ["x"]) none).after new
    let evaluated := (Call.evaluateText id "x = 1").after new
    (new.nextScratch = id ∧ attached.nextScratch = id ∧ evaluated.nextScratch = id) ∧
    (attached.lines? id = some ["x"] ∧
      ((Call.openScratch true).after attached).lines? id = some ["-- Scratch buffer for Lua evaluation", ""]) ∧
    Outcome.values? ((evaluateText id "x").runFrom ((Call.openScratch true).after evaluated)).1 = some [.int 1] ∧
    Outcome.values? ((evaluateText id "rawget(_ENV, 'print') == nil").runFrom ((Call.openScratch true).after new)).1 =
      some [.bool false] := by
  decide +kernel

end Main

end Scratchpad.Session
