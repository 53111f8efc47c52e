import Scratchpad.Dialogue
import Scratchpad.Proofs.Session.Opening
import Scratchpad.Proofs.Settings

/-!
# The surface of a dialogue is its transcript

A line of code is put behind everything else on the surface of a dialogue and evaluated there, so its block comes at the
end of the surface (`runFrom_evaluateRegion_end`). Main statement: from checked settings the surface holds the lines of
code that were entered, each with its block behind it, and what is said to a line of code is its block
(`transcript_after`). The invariant is `Transcribed`; `Transcribed.turn_code` and `Transcribed.turn_request` are its
steps.
-/

namespace Scratchpad

/-! ## The block of a text -/

namespace Session

variable {s : Session} {id : SurfaceId}

/-- The block that shows what comes of a text in the environment of a surface; none if its evaluation raises an
error. -/
def blockOf? (s : Session) (id : SurfaceId) (code : String) : Option Block :=
  match (evaluateText id code).runFrom s with
  | (.ok o, s₁) => some (.ofOutcome s₁.settings s₁.shownText o)
  | (.error _, _) => none

theorem blockOf?_eq (s : Session) (id : SurfaceId) (code : String) : s.blockOf? id code =
    match ({ chunkName := s.settings.chunkName } : Evaluator).evaluate (s.registry.getOrCreate s.interpreter id).2.2.2
      (s.registry.getOrCreate s.interpreter id).1 code with
    | (.ok o, i, _) => some (.ofOutcome s.settings (Inspect.inspect (.ofSettings s.settings) i.shownTable) o)
    | (.error _, _, _) => none := by
  simp only [blockOf?, evaluateText, environment, runFrom_bind, runFrom_get, runFrom_set]
  rcases s.registry.getOrCreate s.interpreter id with ⟨env, _ | _, registry, i⟩
  all_goals
    simp only [Bool.false_eq_true, if_false, if_true, runFrom_pure, runFrom_note, runFrom_bind]
    rcases Evaluator.evaluate _ i env code with ⟨_ | o, i', notes⟩ <;> rfl

/-- The block of a text depends on the settings, the interpreter and the environments alone. -/
theorem blockOf?_congr {t : Session} (hset : t.settings = s.settings) (hint : t.interpreter = s.interpreter)
    (henv : t.registry.environments = s.registry.environments) (id : SurfaceId) (code : String) :
    t.blockOf? id code = s.blockOf? id code := by
  have hcreate : (t.registry.getOrCreate t.interpreter id).2.2.2 = (s.registry.getOrCreate s.interpreter id).2.2.2 ∧
      (t.registry.getOrCreate t.interpreter id).1 = (s.registry.getOrCreate s.interpreter id).1 := by
    simp only [Registry.getOrCreate, Registry.find?, hint, henv]
    cases s.registry.environments.lookup id <;> exact ⟨rfl, rfl⟩
  rw [blockOf?_eq, blockOf?_eq, hcreate.1, hcreate.2, hset]

/-- The block of a text shows an outcome. -/
theorem exists_outcome_of_blockOf? {code : String} {b : Block} (h : s.blockOf? id code = some b) :
    ∃ (shown : Inspect.Value → String) (o : Outcome Inspect.Value), b = .ofOutcome s.settings shown o := by
  rw [blockOf?_eq] at h
  split at h
  · exact ⟨_, _, (Option.some.inj h).symm⟩
  · cases h

/-- What comes behind a block at the end of a surface. -/
def ending (s : Settings) : List String :=
  if s.separate then [""] else []

theorem separatorFor_nil (s : Settings) : separatorFor s [] = ending s := by
  simp [separatorFor, ending]

variable {start : Surface} {before : List String} {line : String}

/-- Behind the last line there is nothing that a block could be put before. -/
theorem withResult_fst_end {n : Nat} (hlen : start.lines.length = n + 1) (block : Block) :
    (s.withResult id start n n block).1 = .ok (block.lines ++ ending s.settings).length := by
  have hcleared : (removeStale s.settings start n).2.lines = start.lines := by
    rw [lines_removeStale (k := n + 1) rfl (Nat.succ_pos n) (by omega), ← hlen, List.take_length, List.drop_length,
      show afterStale s.settings [] = [] from rfl, List.append_nil]
  have hnone : (removeStale s.settings start n).2.line? ((n : Int) + 1) = none := by
    rw [show (n : Int) + 1 = (n + 1 : Nat) from rfl, Surface.line?_natCast, hcleared]
    exact List.getElem?_eq_none (by omega)
  simp only [withResult, insertBlock, hnone, Option.any_none, Bool.not_false, Bool.and_true, ending]

/-- The run of the last line puts its block at the end. -/
theorem runFrom_evaluateRegion_end (h : s.surfaces.lookup id = some start) (hl : start.lines = before ++ [line]) :
    (∀ b, s.blockOf? id line = some b → ∃ t,
      (evaluateRegion id before.length before.length).runFrom s = (.ok (b.lines ++ ending s.settings).length, t) ∧
        t.settings = s.settings ∧ t.lines? id = some (start.lines ++ (b.lines ++ ending s.settings))) ∧
    (s.blockOf? id line = none → ∃ e t,
      (evaluateRegion id before.length before.length).runFrom s = (.error e, t)) := by
  have hlen : start.lines.length = before.length + 1 := by rw [hl, List.length_append, List.length_singleton]
  have hlast : lastLine start before.length = before.length := by
    rw [lastLine, Surface.lineCount, hlen]
    omega
  have htext : textOf start before.length before.length = line := by
    have hpast : ((before.length : Int) + 1).toNat = start.lines.length := by omega
    rw [textOf, hpast, List.take_length, hl, Int.toNat_natCast, List.drop_left]
    simp [Text.joinLines, Text.joinWithChar]
  have hrun := runFrom_evaluateRegion h (Int.natCast_nonneg before.length) (Int.le_of_eq hlast.symm)
  rw [hlast, htext] at hrun
  have hblock : (s.cleared id start before.length).blockOf? id line = s.blockOf? id line :=
    blockOf?_congr (s := s) (t := s.cleared id start before.length) rfl rfl rfl id line
  rw [← hblock, blockOf?]
  rcases heval : (evaluateText id line).runFrom (s.cleared id start before.length) with ⟨e | o, s₁⟩
  · rw [heval] at hrun
    exact ⟨(fun b hb => by cases hb), fun _ => ⟨e, s₁, hrun⟩⟩
  · rw [heval] at hrun
    dsimp only at hrun
    refine ⟨fun b hb => ?_, (fun hb => by cases hb)⟩
    obtain rfl := Option.some.inj hb
    have hset : s₁.settings = s.settings := settings_of_cleared heval
    have hin : (before.length : Int) < start.lineCount := by
      rw [Surface.lineCount]
      omega
    have hlines : (s₁.withResult id start before.length before.length
        (.ofOutcome s₁.settings s₁.shownText o)).2.lines? id = some (linesAfter s₁.settings before.length
          (Block.ofOutcome s₁.settings s₁.shownText o).lines start.lines) :=
      lines?_withResult (Int.natCast_nonneg before.length) hin _
    have hpast : start.lines.length ≤ ((before.length : Int) + 1).toNat := by omega
    rw [linesAfter, List.take_of_length_le hpast, List.drop_eq_nil_of_le hpast, behindRun_eq,
      show afterStale s₁.settings [] = [] from rfl, trail, separatorFor_nil, List.append_nil, hset] at hlines
    refine ⟨_, hrun.trans (Prod.ext ?_ rfl), hset, ?_⟩
    · rw [withResult_fst_end hlen, hset]
    · rw [hset]
      exact hlines

end Session

namespace Dialogue

open Session (ending runFrom_bind runFrom_edit runFrom_surface_of_some lookup_putSurface_self)

/-! ## One turn -/

/-- The lines on the surface of a dialogue. -/
def lines? (d : Dialogue) : Option (List String) :=
  d.session.lines? d.surface

/-- The block of a line of code; none if its evaluation raises an error. -/
def block? (d : Dialogue) (line : String) : Option Block :=
  d.session.blockOf? d.surface line

/-- The lines of a surface for the lines of code that were evaluated on it: each of them with its block behind it. -/
def transcript (s : Settings) : List (String × Block) → List String
  | [] => [""]
  | es => es.flatMap fun e => e.1 :: e.2.lines ++ ending s

/-- The lines that a line of code is put behind. -/
def ground (lines : List String) : List String :=
  if lines = [""] then [] else lines

theorem nextIndex_eq (x : Surface) : nextIndex x = (ground x.lines).length := by
  unfold nextIndex ground
  split <;> rfl

/-- A line of code comes behind everything else. -/
theorem lines_setLines_nextIndex (x : Surface) (line : String) :
    (x.setLines (nextIndex x) (nextIndex x + 1) [line]).lines = ground x.lines ++ [line] := by
  unfold nextIndex ground
  split
  · rename_i h
    rw [show ((0 : Nat) : Int) + 1 = (1 : Nat) from rfl, Surface.lines_setLines (Nat.zero_le 1) (by rw [h]; decide), h]
    rfl
  · -- The range ends behind the last line.
    have hfirst : x.clamp x.lineCount = x.lines.length := Surface.clamp_natCast (Nat.le_refl _)
    have hpast : x.clamp (x.lineCount + 1) ≤ x.lines.length := Nat.min_le_right _ _
    rw [Surface.setLines]
    dsimp only
    rw [hfirst, Nat.max_eq_left hpast, List.take_length, List.drop_length, List.append_nil,
      Surface.orEmptyLine_of_ne_nil (by simp)]

section Evaluate

variable {s : Session} {id : SurfaceId} {line : String} {b : Block}

/-- What is said to a line of code is its block: the lines behind it without the empty one at the end. -/
theorem filter_lines_blockOf? (hv : s.settings.Valid) (hb : s.blockOf? id line = some b) :
    (b.lines ++ ending s.settings).filter (· ≠ "") = b.lines := by
  have hending : (ending s.settings).filter (· ≠ "") = [] := by
    unfold ending
    split <;> rfl
  obtain ⟨shown, o, rfl⟩ := Session.exists_outcome_of_blockOf? hb
  rw [List.filter_append, hending, List.append_nil, List.filter_eq_self]
  exact fun l hl => decide_eq_true (ne_empty_of_isNote (isNote_of_mem_lines hv hl))

/-- The evaluation of a line at the end of a surface. -/
theorem runFrom_evaluateLine_end {x : Surface} {before : List String} (h : s.surfaces.lookup id = some x)
    (hl : x.lines = before ++ [line]) :
    (∀ b, s.blockOf? id line = some b → ∃ t y,
      (Session.evaluateLine id before.length).runFrom s = (.ok (b.lines ++ ending s.settings).length, t) ∧
        t.settings = s.settings ∧ t.surfaces.lookup id = some y ∧
        y.lines = before ++ line :: (b.lines ++ ending s.settings)) ∧
    (s.blockOf? id line = none → ∃ e t, (Session.evaluateLine id before.length).runFrom s = (.error e, t)) := by
  obtain ⟨hsome, hnone⟩ := Session.runFrom_evaluateRegion_end h hl
  rw [Session.evaluateLine, runFrom_bind, runFrom_surface_of_some s h]
  dsimp only
  rw [runFrom_bind]
  refine ⟨fun b hb => ?_, fun hb => ?_⟩
  · obtain ⟨t, hrun, hset, hlines⟩ := hsome b hb
    obtain ⟨y, hy, hyl⟩ := Option.map_eq_some_iff.1 hlines
    rw [hrun]
    refine ⟨_, _, runFrom_edit t hy _, hset, lookup_putSurface_self _ _ _, ?_⟩
    rw [hl, List.append_assoc] at hyl
    exact hyl
  · obtain ⟨e, t, hrun⟩ := hnone hb
    rw [hrun]
    exact ⟨e, t, rfl⟩

/-- A line of code is put behind everything else, with its block behind it, and what is said is the block. -/
theorem runFrom_evaluate {x : Surface} (hv : s.settings.Valid) (h : s.surfaces.lookup id = some x) :
    (∀ b, s.blockOf? id line = some b → ∃ t, (evaluate id line).runFrom s = (.ok b.lines, t) ∧
      t.settings = s.settings ∧ t.lines? id = some (ground x.lines ++ line :: (b.lines ++ ending s.settings))) ∧
    (s.blockOf? id line = none → ∃ e t, (evaluate id line).runFrom s = (.error e, t)) := by
  let y := x.setLines (nextIndex x) (nextIndex x + 1) [line]
  let s₁ : Session := { s with surfaces := Session.putSurface s.surfaces id y }
  have hblock : s₁.blockOf? id line = s.blockOf? id line := Session.blockOf?_congr (s := s) (t := s₁) rfl rfl rfl id line
  obtain ⟨hsome, hnone⟩ := runFrom_evaluateLine_end (s := s₁) (lookup_putSurface_self _ _ y)
    (lines_setLines_nextIndex x line)
  rw [hblock] at hnone
  have hedit : (Session.edit id fun s => (nextIndex s, s.setLines (nextIndex s) (nextIndex s + 1) [line])).runFrom s =
      (.ok (ground x.lines).length, s₁) := by
    rw [runFrom_edit s h, ← nextIndex_eq]
  rw [evaluate, runFrom_bind, hedit]
  dsimp only
  rw [runFrom_bind]
  refine ⟨fun b hb => ?_, fun hb => ?_⟩
  · obtain ⟨t, z, hrun, hset, hz, hzl⟩ := hsome b (hblock.trans hb)
    replace hzl : z.lines = (ground x.lines ++ [line]) ++ (b.lines ++ ending s.settings) := by
      rw [hzl, List.append_assoc, List.singleton_append]
    have hbehind : z.getLines ((ground x.lines).length + 1)
        ((ground x.lines).length + 1 + (b.lines ++ ending s.settings).length) = b.lines ++ ending s.settings := by
      have hlen : (ground x.lines ++ [line]).length = (ground x.lines).length + 1 := List.length_append
      have hall : z.lines.length = (ground x.lines).length + 1 + (b.lines ++ ending s.settings).length := by
        rw [hzl, List.length_append, hlen]
      rw [← Int.natCast_succ, ← Int.natCast_add, Surface.getLines_natCast (by omega) (by omega), Nat.succ_eq_add_one,
        ← hall, List.take_length, hzl, ← hlen, List.drop_left]
    refine ⟨t, ?_, hset, ?_⟩
    · rw [hrun]
      dsimp only
      rw [runFrom_bind, runFrom_surface_of_some t hz]
      dsimp only
      rw [hbehind, filter_lines_blockOf? hv hb]
      rfl
    · rw [Session.lines?, hz, Option.map_some, hzl, List.append_assoc, List.singleton_append]
  · obtain ⟨e, t, hrun⟩ := hnone hb
    rw [hrun]
    exact ⟨e, t, rfl⟩

end Evaluate

/-! ## The start -/

section Start

open Session

variable {t : Session} {id : SurfaceId}

/-- A dialogue starts with one empty line. -/
theorem exists_start (s : Settings) : ∃ d, start s = .ok d ∧ d.session.settings = { s with intro := [""] } ∧
    d.lines? = some [""] := by
  have hrun : ∃ id t, (openScratch false).runFrom { settings := { s with intro := [""] } } = (.ok id, t) ∧
      t.settings = { s with intro := [""] } ∧ t.lines? id = some [""] := by
    rw [runFrom_openScratch_of_none rfl, runFrom_openReady true (lookup_withScratch _)]
    refine ⟨_, _, rfl, ?_, ?_⟩
    · rw [settings_inUse, settings_renewed]
      rfl
    · rw [Session.lines?, if_pos rfl, lookup_putSurface_self]
      rfl
  obtain ⟨id, t, hrun, hset, hlines⟩ := hrun
  refine ⟨⟨t, id⟩, ?_, hset, hlines⟩
  rw [Action.runFrom] at hrun
  rw [start, hrun]

end Start

/-! ## Any number of turns -/

/-- The dialogue after lines were entered. Lines behind the end of the dialogue are not read. -/
def after (d : Dialogue) : List String → Dialogue
  | [] => d
  | line :: lines =>
    match (d.turn line).1 with
    | .ok (some _) => (d.turn line).2.after lines
    | _ => (d.turn line).2

/-- The lines of code that are evaluated when lines are entered, with their blocks; an evaluation that raises an error
has none. -/
def evaluated (d : Dialogue) : List String → List (String × Option Block)
  | [] => []
  | line :: lines =>
    match Entry.ofLine line with
    | .quit => []
    | .code line => (line, d.block? line) :: (d.turn line).2.evaluated lines
    | _ => (d.turn line).2.evaluated lines

/-- On the surface stand the lines of code that were evaluated, with their blocks. -/
structure Transcribed (s : Settings) (d : Dialogue) (es : List (String × Block)) : Prop where
  settings : d.session.settings = s
  lines : d.lines? = some (transcript s es)
  entered : ∀ e ∈ es, e.1 ≠ ""

section Turns

variable {s : Settings} {d : Dialogue} {es : List (String × Block)} {line : String}

theorem ground_transcript (h : ∀ e ∈ es, e.1 ≠ "") :
    ground (transcript s es) = es.flatMap fun e => e.1 :: e.2.lines ++ ending s := by
  cases es with
  | nil => rfl
  | cons e es =>
    refine if_neg fun heq => h e List.mem_cons_self ?_
    exact (List.cons.inj heq).1

theorem transcript_append (e : String × Block) (h : ∀ e ∈ es, e.1 ≠ "") :
    transcript s (es ++ [e]) = ground (transcript s es) ++ e.1 :: (e.2.lines ++ ending s) := by
  rw [ground_transcript h, transcript, List.flatMap_append, List.flatMap_singleton]
  · rfl
  · simp

theorem turn_eq (d : Dialogue) (line : String) : d.turn line =
    (((answer d.surface (.ofLine line)).runFrom { d.session with log := [] }).1,
      { d with session := ((answer d.surface (.ofLine line)).runFrom { d.session with log := [] }).2 }) := rfl

/-- Lines of code are not empty, and are evaluated as they are. -/
theorem eq_of_ofLine_eq_code {l : String} (h : Entry.ofLine line = .code l) : l = line ∧ line ≠ "" := by
  constructor
  · unfold Entry.ofLine at h
    dsimp only at h
    iterate 4
      split at h
      · cases h
    exact (Entry.code.inj h).symm
  · rintro rfl
    have hnothing : Entry.ofLine "" = .nothing := by decide
    rw [hnothing] at h
    cases h

/-- A line of code and its block come to the end of the transcript, and what is said is the block. -/
theorem Transcribed.turn_code (hv : s.Valid) (h : Transcribed s d es) (hline : Entry.ofLine line = .code line) :
    (∀ b, d.block? line = some b → (d.turn line).1 = .ok (some b.lines) ∧
      Transcribed s (d.turn line).2 (es ++ [(line, b)])) ∧
    (d.block? line = none → ∃ e, (d.turn line).1 = .error e) := by
  obtain ⟨x, hx, hxl⟩ := Option.map_eq_some_iff.1 h.lines
  have hblock : Session.blockOf? { d.session with log := [] } d.surface line = d.block? line :=
    Session.blockOf?_congr (s := d.session) (t := { d.session with log := [] }) rfl rfl rfl d.surface line
  obtain ⟨hsome, hnone⟩ := @runFrom_evaluate { d.session with log := [] } d.surface line x (h.settings ▸ hv) hx
  have hturn : d.turn line =
      match (evaluate d.surface line).runFrom { d.session with log := [] } with
      | (.ok shown, t) => (.ok (some shown), { d with session := t })
      | (.error e, t) => (.error e, { d with session := t }) := by
    rw [turn_eq, hline, answer, runFrom_bind]
    rcases (evaluate d.surface line).runFrom { d.session with log := [] } with ⟨e | shown, t⟩ <;> rfl
  rw [hblock] at hnone
  refine ⟨fun b hb => ?_, fun hb => ?_⟩
  · obtain ⟨t, hrun, hset, hlines⟩ := hsome b (hblock.trans hb)
    rw [hrun] at hturn
    rw [hturn]
    refine ⟨rfl, hset.trans h.settings, hlines.trans ?_, ?_⟩
    · rw [transcript_append _ h.entered, hxl]
      exact congrArg (fun s => some (_ ++ line :: (b.lines ++ ending s))) h.settings
    · intro e he
      rcases List.mem_append.1 he with he | he
      · exact h.entered e he
      · rw [List.mem_singleton.1 he]
        exact (eq_of_ofLine_eq_code hline).2
  · obtain ⟨e, t, hrun⟩ := hnone hb
    rw [hrun] at hturn
    exact ⟨e, congrArg Prod.fst hturn⟩

/-- A line that is no code is answered and leaves the transcript as it is. -/
theorem Transcribed.turn_request (h : Transcribed s d es) (hline : ∀ l, Entry.ofLine line ≠ .code l) :
    (∃ said, (d.turn line).1 = .ok said ∧ (said = none ↔ Entry.ofLine line = .quit)) ∧
      Transcribed s (d.turn line).2 es := by
  obtain ⟨x, hx, -⟩ := Option.map_eq_some_iff.1 h.lines
  rw [turn_eq]
  cases hentry : Entry.ofLine line with
  | code l => exact absurd hentry (hline l)
  | nothing => exact ⟨⟨some [], rfl, by simp⟩, h.settings, h.lines, h.entered⟩
  | quit => exact ⟨⟨none, rfl, by simp⟩, h.settings, h.lines, h.entered⟩
  | showSurface =>
    rw [answer, runFrom_bind, runFrom_surface_of_some { d.session with log := [] } hx]
    exact ⟨⟨some _, rfl, by simp⟩, h.settings, h.lines, h.entered⟩
  | reset =>
    rw [answer, runFrom_bind]
    rcases Session.runFrom_resetEnvironment (some d.surface) { d.session with log := [] } with hreset | ⟨id, hreset⟩
    all_goals
      rw [hreset]
      exact ⟨⟨some _, rfl, by simp⟩, h.settings, h.lines, h.entered⟩

/-- The lines that are entered leave the transcript of the evaluations among them, if none of these raises an error. -/
theorem Transcribed.after (hv : s.Valid) {lines : List String} : ∀ {d : Dialogue} {before es : List (String × Block)},
    Transcribed s d before → d.evaluated lines = es.map (fun e => (e.1, some e.2)) →
      Transcribed s (d.after lines) (before ++ es) := by
  induction lines with
  | nil =>
    intro d before es h hes
    obtain rfl := List.map_eq_nil_iff.1 hes.symm
    rwa [List.append_nil]
  | cons line lines ih =>
    intro d before es h hes
    by_cases hcode : ∃ l, Entry.ofLine line = .code l
    · obtain ⟨l, hl⟩ := hcode
      obtain rfl := (eq_of_ofLine_eq_code hl).1
      rw [evaluated, hl] at hes
      obtain ⟨e, rest, rfl, he, hrest⟩ := List.map_eq_cons_iff.1 hes.symm
      obtain ⟨l', b⟩ := e
      obtain ⟨rfl, hb⟩ := Prod.mk.inj he
      obtain ⟨hsaid, hnext⟩ := (h.turn_code hv hl).1 b hb.symm
      rw [Dialogue.after, hsaid, List.append_cons]
      exact ih hnext hrest.symm
    · have hrequest : ∀ l, Entry.ofLine line ≠ .code l := fun l hl => hcode ⟨l, hl⟩
      obtain ⟨⟨said, hsaid, hquit⟩, hnext⟩ := h.turn_request hrequest
      rw [Dialogue.after, hsaid]
      cases said with
      | none =>
        rw [evaluated, hquit.1 rfl] at hes
        obtain rfl := List.map_eq_nil_iff.1 hes.symm
        rwa [List.append_nil]
      | some said =>
        refine ih hnext (Eq.trans ?_ hes)
        rw [evaluated]
        cases hentry : Entry.ofLine line with
        | code l => exact absurd hentry (hrequest l)
        | quit => exact absurd (hquit.2 hentry) (by simp)
        | _ => rfl

end Turns

/-- From checked settings a dialogue starts, and once lines were entered of which no evaluation raised an error, the
surface holds the transcript of the evaluations. What is said to a line of code is then its block, unless it raises an
error; every other line is answered and leaves the surface as it is. -/
theorem transcript_after {c : Draft} (hc : c.validate = .ok ()) :
    ∃ d, start c.toSettings = .ok d ∧
      ∀ lines es, d.evaluated lines = es.map (fun e => (e.1, some e.2)) →
        (d.after lines).lines? = some (transcript c.toSettings es) ∧
        ∀ line,
          (Entry.ofLine line = .code line → match (d.after lines).block? line with
            | some b => ((d.after lines).turn line).1 = .ok (some b.lines)
            | none => ∃ e, ((d.after lines).turn line).1 = .error e) ∧
          (Entry.ofLine line ∈ [.nothing, .reset, .showSurface] →
            (∃ said, ((d.after lines).turn line).1 = .ok (some said)) ∧
              ((d.after lines).turn line).2.lines? = (d.after lines).lines?) := by
  have hv : ({ c.toSettings with intro := [""] } : Settings).Valid := Draft.valid_toSettings hc
  obtain ⟨d, hstart, hset, hlines⟩ := exists_start c.toSettings
  refine ⟨d, hstart, fun lines es hes => ?_⟩
  have hstarted : Transcribed { c.toSettings with intro := [""] } d [] := ⟨hset, hlines, List.forall_mem_nil _⟩
  have h := hstarted.after hv hes
  refine ⟨h.lines, fun line => ⟨fun hline => ?_, fun hline => ?_⟩⟩
  · obtain ⟨hsome, hnone⟩ := h.turn_code hv hline
    cases hb : (d.after lines).block? line with
    | none => exact hnone hb
    | some b => exact (hsome b hb).1
  · have hrequest : (∀ l, Entry.ofLine line ≠ .code l) ∧ Entry.ofLine line ≠ .quit := by
      constructor
      · intro l hl
        rw [hl] at hline
        simp at hline
      · intro hl
        rw [hl] at hline
        simp at hline
    obtain ⟨⟨said, hsaid, hquit⟩, hnext⟩ := h.turn_request hrequest.1
    cases said with
    | none => exact absurd (hquit.1 rfl) hrequest.2
    | some said => exact ⟨⟨said, hsaid⟩, hnext.lines.trans h.lines.symm⟩

/-- Two lines of code with a request between them. -/
theorem transcript_after_sum :
    Draft.default.validate = .ok () ∧ ∃ d, start Draft.default.toSettings = .ok d ∧
      d.evaluated ["1 + 1", ":reset", "print()"] =
        [("1 + 1", some [⟨.result, "-- => 2"⟩]), ("print()", some [⟨.output, "-- print: "⟩])] ∧
      (d.after ["1 + 1", ":reset", "print()"]).lines? =
        some ["1 + 1", "-- => 2", "", "print()", "-- print: ", ""] := by
  have hc : Draft.default.validate = .ok () := rfl
  obtain ⟨d, hstart, hd⟩ := transcript_after hc
  have hrun : ((start {}).toOption.any fun d => decide (d.evaluated ["1 + 1", ":reset", "print()"] =
      [("1 + 1", some [⟨.result, "-- => 2"⟩]), ("print()", some [⟨.output, "-- print: "⟩])])) = true := by
    decide +kernel
  rw [← Draft.toSettings_default, hstart] at hrun
  have hes : d.evaluated ["1 + 1", ":reset", "print()"] =
      [("1 + 1", some [⟨.result, "-- => 2"⟩]), ("print()", some [⟨.output, "-- print: "⟩])] := of_decide_eq_true hrun
  refine ⟨hc, d, hstart, hes, ?_⟩
  rw [(hd _ [("1 + 1", [⟨.result, "-- => 2"⟩]), ("print()", [⟨.output, "-- print: "⟩])] hes).1, Draft.toSettings_default]
  decide

end Dialogue

end Scratchpad
