import Scratchpad.Proofs.Session.Frame
import Scratchpad.Proofs.Session.Opening

/-!
# The active surface

`Call` lists what can be asked of a session. What a call does to the open surfaces and to the active one (`Desk`)
follows from the closed forms of the actions: opening lists a surface and makes it active (`desk_openSurface`), a
command makes its surface active if it is open (`visits_action`), and closing is `desk_close`. Main statement: in every
session that calls lead to, the active surface is an open one, and there is none just if no surface is open
(`active_of_reachable`). The invariant is `Desk.Sound`; `sound_after` is its step.
-/

namespace Scratchpad.Session

/-- The open surfaces, the one that was opened first at the front. -/
def ids (s : Session) : List SurfaceId :=
  s.surfaces.map Prod.fst

/-- Surfaces with one more, which keeps its place if it is one of them. -/
def enlist (ids : List SurfaceId) (id : SurfaceId) : List SurfaceId :=
  if id ∈ ids then ids else ids ++ [id]

theorem enlist_of_mem {ids : List SurfaceId} {id : SurfaceId} (h : id ∈ ids) : enlist ids id = ids :=
  if_pos h

theorem mem_enlist (ids : List SurfaceId) (id : SurfaceId) : id ∈ enlist ids id := by
  unfold enlist
  split
  · assumption
  · exact List.mem_append_right _ List.mem_cons_self

theorem nodup_enlist {ids : List SurfaceId} (h : ids.Nodup) (id : SurfaceId) : (enlist ids id).Nodup := by
  unfold enlist
  split
  · exact h
  · rename_i hid
    exact List.nodup_append.2 ⟨h, List.pairwise_singleton _ _, fun a ha b hb e => hid (by
      rw [← List.mem_singleton.1 hb, ← e]
      exact ha)⟩

theorem map_fst_putSurface (l : List (SurfaceId × Surface)) (id : SurfaceId) (x : Surface) :
    (putSurface l id x).map Prod.fst = enlist (l.map Prod.fst) id := by
  have hany : (l.any fun e => decide (e.1 = id)) = true ↔ id ∈ l.map Prod.fst := by
    rw [List.any_eq_true, List.mem_map]
    exact exists_congr fun e => and_congr_right fun _ => decide_eq_true_iff
  unfold putSurface enlist
  by_cases h : id ∈ l.map Prod.fst
  · rw [if_pos (hany.2 h), if_pos h, List.map_map]
    refine List.map_congr_left fun e _ => ?_
    by_cases he : e.1 = id
    · simp [he]
    · simp [he]
  · rw [if_neg fun hl => h (hany.1 hl), if_neg h, List.map_append, List.map_singleton]

theorem mem_ids_iff {s : Session} {id : SurfaceId} : id ∈ s.ids ↔ ∃ x, s.surfaces.lookup id = some x := by
  rw [← Option.isSome_iff_exists, List.lookup_isSome_iff, ids, List.mem_map]
  exact exists_congr fun e => and_congr_right fun _ => by rw [beq_iff_eq, eq_comm]

/-! ## What actions do to the open surfaces -/

/-- The open surfaces and the active one. -/
structure Desk where
  ids : List SurfaceId
  active : Option SurfaceId

/-- The desk of a session. -/
def desk (s : Session) : Desk :=
  ⟨s.ids, s.registry.active⟩

/-- The desk after a surface was opened, which makes it the active one. -/
def Desk.opened (d : Desk) (id : SurfaceId) : Desk :=
  ⟨enlist d.ids id, some id⟩

/-- The desk after a surface was closed. If it was the active one, the first that is left becomes active. -/
def Desk.closed (d : Desk) (id : SurfaceId) : Desk :=
  let ids := d.ids.filter (· ≠ id)
  ⟨ids, (if d.active = some id then none else d.active) <|> ids.head?⟩

section Desks

variable (s : Session) (id : SurfaceId)

@[simp]
theorem desk_provided : (s.provided id).desk = s.desk := by
  rw [desk, desk, provided]
  dsimp only
  rw [Registry.active_getOrCreate]
  rfl

@[simp]
theorem desk_dropped : (s.dropped id).desk = s.desk :=
  rfl

/-- The surface that is in use is the active one. -/
@[simp]
theorem desk_inUse : (s.inUse id).desk = ⟨s.ids, some id⟩ :=
  congrArg (Desk.mk · (some id)) (congrArg (List.map Prod.fst) (surfaces_inUse s id))

theorem ids_put (x : Surface) : ids { s with surfaces := putSurface s.surfaces id x } = enlist s.ids id :=
  map_fst_putSurface _ _ _

end Desks

section Actions

variable {α : Type} {s : Session}

theorem desk_openSurface (id : SurfaceId) (s : Session) :
    ((openSurface id).runFrom s).2.desk = s.desk.opened id := by
  rcases hx : s.surfaces.lookup id with _ | x
  · rw [runFrom_openSurface_of_none hx, desk_inUse, ids_put]
    rfl
  · rw [runFrom_openSurface_of_some hx, desk_inUse, Desk.opened,
      show s.desk.ids = s.ids from rfl, enlist_of_mem (mem_ids_iff.2 ⟨x, hx⟩)]

/-- A surface that is attached is opened. -/
theorem desk_attach (new : Surface) (id? : Option SurfaceId) (s : Session) :
    ((attach new id?).runFrom s).2.desk = s.desk.opened (id?.getD (.text new.name)) := by
  rw [runFrom_attach, desk_inUse, ids_put]
  rfl

/-- The surface that a request for a scratch surface opens: the active one, or else a new one. -/
def scratchTarget (s : Session) (forceNew : Bool) : SurfaceId :=
  ((if forceNew then none else s.active?.map Prod.fst).getD s.nextScratch)

theorem desk_openReady {isNew : Bool} {id : SurfaceId} {x : Surface} (hx : s.surfaces.lookup id = some x) :
    ((openReady isNew id).runFrom s).2.desk = ⟨s.ids, some id⟩ := by
  rw [runFrom_openReady isNew hx]
  refine congrArg (Desk.mk · (some id)) ?_
  cases isNew with
  | true => exact (map_fst_putSurface _ _ _).trans (enlist_of_mem (mem_ids_iff.2 ⟨x, hx⟩))
  | false => rfl

/-- A request for a scratch surface lists the surface that it opens. -/
theorem desk_openScratch (forceNew : Bool) (s : Session) :
    ((openScratch forceNew).runFrom s).2.desk = s.desk.opened (s.scratchTarget forceNew) := by
  rw [scratchTarget]
  rcases hcurrent : (if forceNew then none else s.active?.map Prod.fst) with _ | id
  · rw [runFrom_openScratch_of_none hcurrent, desk_openReady (lookup_withScratch s)]
    exact congrArg (Desk.mk · _) (map_fst_putSurface _ _ _)
  · obtain ⟨x, hx, hrun⟩ := runFrom_openScratch_of_some hcurrent
    rw [hrun, desk_openReady hx]
    exact congrArg (Desk.mk · _) (enlist_of_mem (mem_ids_iff.2 ⟨x, hx⟩)).symm

/-- If no surface is active, the first one becomes active. -/
theorem desk_withActive (s : Session) : s.withActive.desk = ⟨s.ids, s.registry.active <|> s.ids.head?⟩ := by
  rw [withActive]
  rcases hactive : s.registry.active with _ | a
  · rw [Option.isNone_none, if_pos rfl]
    split
    · rename_i first x rest hsurfaces
      have hhead : s.ids.head? = some first := by rw [ids, hsurfaces]; rfl
      rw [hhead]
      rfl
    · rename_i hsurfaces
      have hnone : s.ids = [] := by rw [ids, hsurfaces]; rfl
      rw [desk, hactive, hnone]
      rfl
  · rw [Option.isNone_some, if_neg Bool.false_ne_true, desk, hactive]
    rfl

theorem desk_close (id : SurfaceId) (s : Session) : ((close id).runFrom s).2.desk = s.desk.closed id := by
  have hids : (s.without id).ids = s.ids.filter (· ≠ id) := by
    rw [ids, ids, List.filter_map]
    rfl
  rw [runFrom_close, desk_withActive, hids]
  rfl

theorem desk_resetEnvironment (id? : Option SurfaceId) (s : Session) :
    ((resetEnvironment id?).runFrom s).2.desk = s.desk := by
  rcases runFrom_resetEnvironment id? s with hrun | ⟨id, hrun⟩ <;> rw [hrun]
  exact desk_dropped s id

/-! ### Evaluations -/

theorem desk_evaluateText (id : SurfaceId) (code : String) (s : Session) :
    ((evaluateText id code).runFrom s).2.desk = s.desk := by
  obtain ⟨interpreter, log, hrun⟩ := exists_runFrom_evaluateText id code s
  rw [hrun]
  exact desk_provided s id

/-- The action leaves the desk alone, or makes the open surface `id` the active one, also if it fails. -/
def Visits (id : SurfaceId) (a : Action α) : Prop :=
  ∀ s : Session, id ∈ s.ids → (a.runFrom s).2.desk = s.desk ∨ (a.runFrom s).2.desk = ⟨s.ids, some id⟩

theorem frame_visits (id : SurfaceId) :
    Frame (fun s s' => id ∈ s.ids → s'.desk = s.desk ∨ s'.desk = ⟨s.ids, some id⟩) id where
  refl _ _ := .inl rfl
  trans {s₁ s₂ s₃} h h' hid := by
    rcases h hid with hd | hd
    · have hids : s₂.ids = s₁.ids := congrArg Desk.ids hd
      rw [← hids, ← hd]
      exact h' (hids ▸ hid)
    · have hids : s₂.ids = s₁.ids := congrArg Desk.ids hd
      rcases h' (hids ▸ hid) with hd' | hd'
      · exact .inr (hd'.trans hd)
      · exact .inr (hd'.trans (by rw [hids]))
  touch _ _ := .inr rfl
  note _ _ _ := .inl rfl
  setSurface x s hid := by
    have hids : ids { s with surfaces := putSurface s.surfaces id x } = s.ids := by rw [ids_put, enlist_of_mem hid]
    exact .inl (congrArg (Desk.mk · _) hids)
  evaluateText code s _ := .inl (desk_evaluateText id code s)

/-- A command makes the surface that it evaluates the active one, unless it finds nothing to evaluate. -/
theorem visits_action (id : SurfaceId) (e : Evaluation) : Visits id (e.action id) :=
  (frame_visits id).action e

/-- A command to a surface that is not open fails and changes nothing. -/
theorem runFrom_action_of_not_mem {id : SurfaceId} (hid : id ∉ s.ids) (e : Evaluation) :
    (e.action id).runFrom s = (.error (.unknownSurface id), s) := by
  have hnone : s.surfaces.lookup id = none := by
    rw [Option.eq_none_iff_forall_not_mem]
    exact fun x hx => hid (mem_ids_iff.2 ⟨x, hx⟩)
  have hfail : ∀ f : Surface → Action Nat, (surface id >>= f).runFrom s = (.error (.unknownSurface id), s) := by
    intro f
    rw [runFrom_bind, runFrom_surface_of_none s hnone]
  cases e <;> exact hfail _

end Actions

/-! ## Calls -/

/-- What can be asked of a session. -/
inductive Call where
  | attach (new : Surface) (id? : Option SurfaceId)
  | openScratch (forceNew : Bool)
  | openSurface (id : SurfaceId)
  | close (id : SurfaceId)
  | resetEnvironment (id? : Option SurfaceId)
  | environment (id : SurfaceId)
  | evaluateText (id : SurfaceId) (code : String)
  | evaluate (id : SurfaceId) (e : Evaluation)

/-- The session after a call. A call that fails keeps what was done before its failure. -/
def Call.after (c : Call) (s : Session) : Session :=
  match c with
  | attach new id? => ((Session.attach new id?).runFrom s).2
  | openScratch forceNew => ((Session.openScratch forceNew).runFrom s).2
  | openSurface id => ((Session.openSurface id).runFrom s).2
  | close id => ((Session.close id).runFrom s).2
  | resetEnvironment id? => ((Session.resetEnvironment id?).runFrom s).2
  | environment id => ((Session.environment id).runFrom s).2
  | evaluateText id code => ((Session.evaluateText id code).runFrom s).2
  | evaluate id e => ((e.action id).runFrom s).2

/-- A session that calls lead to from a new one, whatever interpreter it was given. -/
inductive Reachable : Session → Prop where
  | new (d : Draft) (i : Interpreter) (h : d.validate = .ok ()) :
    Reachable { settings := d.toSettings, interpreter := i }
  | call {s : Session} (c : Call) (h : Reachable s) : Reachable (c.after s)

section Calls

variable {s : Session} {id : SurfaceId}

/-- What a call other than closing does to the desk: it opens a surface, makes an open one active, or does nothing. -/
theorem desk_after (s : Session) (c : Call) (hc : ∀ id, c ≠ .close id) :
    (c.after s).desk = s.desk ∨ ∃ id, (c.after s).desk = s.desk.opened id := by
  cases c with
  | attach new id? => exact .inr ⟨_, desk_attach new id? s⟩
  | openScratch forceNew => exact .inr ⟨_, desk_openScratch forceNew s⟩
  | openSurface id => exact .inr ⟨id, desk_openSurface id s⟩
  | close id => exact absurd rfl (hc id)
  | resetEnvironment id? => exact .inl (desk_resetEnvironment id? s)
  | environment id => exact .inl (by rw [Call.after, runFrom_environment, desk_provided])
  | evaluateText id code => exact .inl (desk_evaluateText id code s)
  | evaluate id e =>
    by_cases hid : id ∈ s.ids
    · rcases visits_action id e s hid with h | h
      · exact .inl h
      · exact .inr ⟨id, h.trans (by rw [Desk.opened, show s.desk.ids = s.ids from rfl, enlist_of_mem hid])⟩
    · exact .inl (by rw [Call.after, runFrom_action_of_not_mem hid])

/-- What closing does to the desk. -/
theorem desk_after_close (s : Session) (id : SurfaceId) : ((Call.close id).after s).desk = s.desk.closed id :=
  desk_close id s

/-- The active surface is an open one, and there is one as long as a surface is open. -/
structure Desk.Sound (d : Desk) : Prop where
  nodup : d.ids.Nodup
  none_iff : d.active = none ↔ d.ids = []
  mem : ∀ id, d.active = some id → id ∈ d.ids

section Sound

variable {d : Desk}

theorem Desk.Sound.opened (h : d.Sound) (id : SurfaceId) : (d.opened id).Sound where
  nodup := nodup_enlist h.nodup id
  none_iff := by
    have hne : enlist d.ids id ≠ [] := List.ne_nil_of_mem (mem_enlist d.ids id)
    simp [Desk.opened, hne]
  mem id' hid := by
    obtain rfl := Option.some.inj hid
    exact mem_enlist d.ids id

/-- The active surface after one was closed. -/
theorem Desk.active_closed (d : Desk) (id : SurfaceId) : (d.closed id).active =
    if d.active = some id then (d.ids.filter (· ≠ id)).head? else d.active <|> (d.ids.filter (· ≠ id)).head? := by
  rw [Desk.closed]
  split <;> rfl

/-- Closing a surface that is not active leaves the active one alone. -/
theorem Desk.Sound.active_closed_of_ne (h : d.Sound) {id : SurfaceId} (hid : d.active ≠ some id) :
    (d.closed id).active = d.active := by
  rw [Desk.active_closed, if_neg hid]
  rcases hactive : d.active with _ | a
  · rw [h.none_iff.1 hactive]
    rfl
  · rfl

theorem Desk.Sound.closed (h : d.Sound) (id : SurfaceId) : (d.closed id).Sound where
  nodup := h.nodup.sublist List.filter_sublist
  none_iff := by
    by_cases hid : d.active = some id
    · rw [Desk.active_closed, if_pos hid, List.head?_eq_none_iff]
      rfl
    · rw [h.active_closed_of_ne hid, h.none_iff]
      refine ⟨fun he => by rw [Desk.closed, he]; rfl, fun he => ?_⟩
      rcases hactive : d.active with _ | a
      · exact h.none_iff.1 hactive
      · have ha : a ∈ (d.closed id).ids :=
          List.mem_filter.2 ⟨h.mem a hactive, decide_eq_true fun e => hid (by rw [hactive, e])⟩
        rw [he] at ha
        cases ha
  mem a ha := by
    by_cases hid : d.active = some id
    · rw [Desk.active_closed, if_pos hid] at ha
      exact List.mem_of_head? ha
    · rw [h.active_closed_of_ne hid] at ha
      exact List.mem_filter.2 ⟨h.mem a ha, decide_eq_true fun e => hid (by rw [ha, e])⟩

end Sound

/-- Every call keeps the desk sound. -/
theorem sound_after (h : s.desk.Sound) (c : Call) : (c.after s).desk.Sound := by
  by_cases hc : ∃ id, c = .close id
  · obtain ⟨id, rfl⟩ := hc
    rw [desk_after_close]
    exact h.closed id
  · rcases desk_after s c fun id hid => hc ⟨id, hid⟩ with hd | ⟨id, hd⟩
    · rwa [hd]
    · rw [hd]
      exact h.opened id

/-- In every session that calls lead to the desk is sound. -/
theorem sound_of_reachable (h : Reachable s) : s.desk.Sound := by
  induction h with
  | new d i hd => exact ⟨List.nodup_nil, ⟨fun _ => rfl, fun _ => rfl⟩, fun id hid => by cases hid⟩
  | call c _ ih => exact sound_after ih c

/-- A call other than closing keeps the order of the open surfaces, and a surface that it opens goes last. -/
theorem ids_after (s : Session) (c : Call) (hc : ∀ id, c ≠ .close id) :
    (c.after s).ids = s.ids ∨ ∃ id, id ∉ s.ids ∧ (c.after s).ids = s.ids ++ [id] := by
  rcases desk_after s c hc with hd | ⟨id, hd⟩
  · exact .inl (congrArg Desk.ids hd)
  · have hids : (c.after s).ids = enlist s.ids id := congrArg Desk.ids hd
    by_cases hid : id ∈ s.ids
    · exact .inl (hids.trans (enlist_of_mem hid))
    · exact .inr ⟨id, hid, hids.trans (if_neg hid)⟩

/-- In every session that calls lead to, no surface is active just if none is open, and the active one is open. Closing
another surface leaves it active; closing it makes the first of the others active. The surfaces are in the order in
which they were opened: no call but closing takes one out, and one that is opened goes last. -/
theorem active_of_reachable (h : Reachable s) :
    ((s.registry.active = none ↔ s.surfaces = []) ∧
      ∀ id, s.registry.active = some id → ∃ x, s.surfaces.lookup id = some x) ∧
    (∀ id, s.registry.active ≠ some id → ((Call.close id).after s).registry.active = s.registry.active) ∧
    (∀ id, s.registry.active = some id →
      ((Call.close id).after s).registry.active = (s.ids.filter (· ≠ id)).head?) ∧
    s.ids.Nodup ∧ (∀ id, ((Call.close id).after s).ids = s.ids.filter (· ≠ id)) ∧
    ∀ c : Call, (∀ id, c ≠ .close id) →
      (c.after s).ids = s.ids ∨ ∃ id, id ∉ s.ids ∧ (c.after s).ids = s.ids ++ [id] := by
  have hs := sound_of_reachable h
  have hclose : ∀ id, ((Call.close id).after s).registry.active = (s.desk.closed id).active := fun id =>
    congrArg Desk.active (desk_after_close s id)
  refine ⟨⟨?_, fun id hid => mem_ids_iff.1 (hs.mem id hid)⟩, fun id hid => ?_, fun id hid => ?_, hs.nodup,
    fun id => congrArg Desk.ids (desk_after_close s id), fun c hc => ids_after s c hc⟩
  · exact hs.none_iff.trans List.map_eq_nil_iff
  · rw [hclose]
    exact hs.active_closed_of_ne hid
  · rw [hclose, Desk.active_closed]
    exact if_pos hid

/-- Of three surfaces the last is active; once it is closed the first is, which was opened again in between. -/
theorem active_after_close_newest :
    let s := (Call.openSurface (.text "b")).after <| (Call.openSurface (.text "a")).after <|
      (Call.openSurface (.number 1)).after <| (Call.openSurface (.text "a")).after { settings := {} }
    s.registry.active = some (.text "b") ∧
      ((Call.close (.text "b")).after s).registry.active = some (.text "a") := by
  intro s
  have hnew : Reachable { settings := {} } := by
    rw [← Draft.toSettings_default]
    exact .new .default {} (by rfl)
  have hs : Reachable s := .call _ (.call _ (.call _ (.call _ hnew)))
  have hactive : s.registry.active = some (.text "b") := by decide +kernel
  exact ⟨hactive, ((active_of_reachable hs).2.2.1 _ hactive).trans (by decide +kernel)⟩

end Calls

end Scratchpad.Session
