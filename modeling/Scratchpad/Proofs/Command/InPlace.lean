import Scratchpad.Command.Report
import Scratchpad.Proofs.File
import Scratchpad.Proofs.Session.Again
import Scratchpad.Proofs.Session.Opening

/-!
# Files that are evaluated in their place

A call with `--in-place` writes a file with its results back. The separator behind the results becomes a line feed at the
end of the file (`find?_after_run`), and the next call takes the last line feed for the end of the file's last line.
Main statement: if the file ends with a line of code and both calls show the same block, then the second call leaves the
file alone exactly if the file ended with a line feed to begin with (`find?_after_run_twice_iff`).
-/

namespace Scratchpad

open Text

/-! ## The evaluation of a file -/

namespace Session

/-- The surface of a file is open, and nothing is evaluated yet. -/
def opened (name text : String) : Session :=
  ((attach (.ofText (File.normalName name) text) none).runFrom { settings := {} }).2

theorem runFrom_attach_file (name text : String) :
    (attach (.ofText (File.normalName name) text) none).runFrom { settings := {} } =
        (.ok (.text (File.normalName name)), opened name text) ∧
      (opened name text).settings = {} ∧
      (opened name text).surfaces.lookup (.text (File.normalName name)) =
        some (.ofText (File.normalName name) text) := by
  have hlookup := lookup_putSurface_self [] (.text (File.normalName name)) (.ofText (File.normalName name) text)
  rw [opened, runFrom_attach]
  exact ⟨rfl, settings_inUse _ _, (congrArg (List.lookup _) (surfaces_inUse _ _)).trans hlookup⟩

/-- The block that the evaluation of a file's text shows. -/
def fileBlock? (name text : String) : Option Block :=
  (surfaceRegion? {} (splitLines text)).bind fun r =>
    (opened name text).resultBlock? (.text (File.normalName name)) r.1 r.2

variable {name text : String} {block : Block} {code rest : List String} {l : String}

/-- The command for a whole surface puts the block of a file behind its last line of code. -/
theorem runFrom_evaluateSurface_opened (hlines : splitLines text = code ++ l :: rest)
    (hl : ({} : Settings).isIdle l = false) (hrest : ∀ x ∈ rest, ({} : Settings).isIdle x = true)
    (hblock : fileBlock? name text = some block) :
    ∃ n t final, (evaluateSurface (.text (File.normalName name))).runFrom (opened name text) = (.ok n, t) ∧
      t.surfaces.lookup (.text (File.normalName name)) = some final ∧
      final.lines = code ++ l :: behindRun {} block.lines rest := by
  obtain ⟨-, hset, hopen⟩ := runFrom_attach_file name text
  have hstart : (Surface.ofText (File.normalName name) text).lines = code ++ l :: rest := by
    rw [← hlines]
    exact Surface.orEmptyLine_of_ne_nil (splitLines_ne_nil text)
  have hregion : surfaceRegion? {} (splitLines text) = some (0, code.length) := by
    rw [hlines]
    exact surfaceRegion?_append hl hrest
  rw [fileBlock?, hregion, Option.bind_some] at hblock
  obtain ⟨-, -, o, s₁, htext, hshown, -⟩ := Renders.cases ⟨hblock, rfl⟩ hopen
  have hlast : code.length < (Surface.ofText (File.normalName name) text).lines.length := by
    rw [hstart, List.length_append, List.length_cons]
    omega
  have hline : lastLine (Surface.ofText (File.normalName name) text) code.length = code.length := by
    rw [lastLine, Surface.lineCount]
    omega
  rw [hline] at htext
  obtain ⟨start, hs, -, -, -, -, houtcome⟩ := runsRegion_runAndMove hopen (Nat.zero_le code.length) hlast
  obtain rfl := Option.some.inj (hopen.symm.trans hs)
  obtain ⟨⟨n, hn⟩, -, hafter⟩ := houtcome o s₁ htext
  rw [← hshown, hset, hstart, linesAfter] at hafter
  have hcode : code ++ l :: rest = (code ++ [l]) ++ rest := by simp
  have htoNat : ((code.length : Int) + 1).toNat = (code ++ [l]).length := by simp
  rw [hcode, htoNat, List.take_left, List.drop_left] at hafter
  obtain ⟨final, hfinal, hfinallines⟩ := Option.map_eq_some_iff.1 hafter
  refine ⟨n, _, final, ?_, hfinal, by rw [hfinallines]; simp⟩
  rw [runFrom_evaluateSurface hopen, hset, hstart, surfaceRegion?_append hl hrest, ← hn]

/-- A file whose last line of code stands before idle lines comes out with its block behind this line. -/
theorem runFrom_annotate {source : String} {newline : Bool} (hsplit : splitFinalNewline source = (text, newline))
    (hlines : splitLines text = code ++ l :: rest) (hl : ({} : Settings).isIdle l = false)
    (hrest : ∀ x ∈ rest, ({} : Settings).isIdle x = true) (hblock : fileBlock? name text = some block) :
    ((annotate name source .whole).runFrom { settings := {} }).1 =
      .ok (joinLines (code ++ l :: behindRun {} block.lines rest) ++ if newline then "\n" else "") := by
  obtain ⟨n, t, final, hrun, hfinal, hfinallines⟩ := runFrom_evaluateSurface_opened hlines hl hrest hblock
  rw [annotate, hsplit]
  dsimp only
  rw [runFrom_bind, (runFrom_attach_file name text).1]
  dsimp only [evaluateTarget]
  rw [runFrom_bind, hrun]
  dsimp only
  rw [runFrom_bind, runFrom_surface_of_some _ hfinal]
  dsimp only
  rw [runFrom_pure, Surface.text, hfinallines]

/-- The block of a file shows an outcome. -/
theorem exists_outcome_of_fileBlock? (h : fileBlock? name text = some block) :
    ∃ (shown : Inspect.Value → String) (o : Outcome Inspect.Value), block = .ofOutcome {} shown o := by
  obtain ⟨-, hset, hopen⟩ := runFrom_attach_file name text
  obtain ⟨r, -, hr⟩ := Option.bind_eq_some_iff.1 h
  obtain ⟨shown, o, hblock⟩ := Renders.exists_outcome ⟨hr, rfl⟩ hopen
  exact ⟨shown, o, by rw [hblock, hset]⟩

/-- The lines of a file's block are notes, and none of them has a line feed. -/
theorem lines_of_fileBlock? (h : fileBlock? name text = some block) :
    ∀ x ∈ block.lines, ({} : Settings).isNote x = true ∧ '\n' ∉ x.toList := by
  obtain ⟨shown, o, rfl⟩ := exists_outcome_of_fileBlock? h
  intro x hx
  refine ⟨isNote_of_mem_lines Settings.valid_default hx, ?_⟩
  obtain ⟨r, t, piece, hpiece, rfl⟩ := exists_mark_of_mem_lines hx
  have hmark : '\n' ∉ (({} : Settings).mark r).toList := by cases r <;> decide
  rw [String.toList_append, List.mem_append]
  exact not_or.2 ⟨hmark, not_mem_of_mem_splitLines hpiece⟩

/-! ## The line feed at the end -/

theorem splitFinalNewline_append (t : String) : splitFinalNewline (t ++ "\n") = (t, true) := by
  have hlist : (t ++ "\n").toList = t.toList ++ ['\n'] := by rw [String.toList_append]; rfl
  rw [splitFinalNewline, hlist, List.getLast?_concat, if_pos rfl, List.dropLast_concat, String.ofList_toList]

theorem splitFinalNewline_snd (source : String) :
    (splitFinalNewline source).2 = true ↔ source.toList.getLast? = some '\n' := by
  unfold splitFinalNewline
  split <;> simp [*]

theorem not_mem_splitFinalNewline {source : String} {c : Char} (h : c ∉ source.toList) :
    c ∉ (splitFinalNewline source).1.toList := by
  unfold splitFinalNewline
  split
  · rw [String.toList_ofList]
    exact fun hc => h (List.dropLast_subset _ hc)
  · exact h

/-- The lines of a file that was read have no line end in them. -/
theorem unbroken_of_read {content? : Option (List UInt8)} {source : String} (h : File.read content? = .ok source) :
    ∀ x ∈ splitLines (splitFinalNewline source).1, '\r' ∉ x.toList ∧ '\n' ∉ x.toList := by
  intro x hx
  refine ⟨fun hc => ?_, not_mem_of_mem_splitLines hx⟩
  have htext : '\r' ∉ (splitFinalNewline source).1.toList := not_mem_splitFinalNewline (File.not_mem_of_read h)
  rw [← joinLines_splitLines (splitFinalNewline source).1] at htext
  exact htext ((mem_joinLines_iff (by decide)).2 ⟨x, hx, hc⟩)

end Session

/-! ## Calls -/

namespace Directory

/-- The directory after a call. -/
def after (d : Directory) (r : Report) : Directory :=
  match r.written with
  | some (name, text) => d.write name text
  | none => d

/-- The block that the evaluation of a file shows. -/
def block? (d : Directory) (name : String) : Option Block :=
  match File.read (d.find? name) with
  | .ok source => Session.fileBlock? name (Session.splitFinalNewline source).1
  | .error _ => none

end Directory

namespace Command

open Session

variable {dir : Directory} {arguments : List String} {name source text : String} {verbose newline : Bool}
  {code rest : List String} {l : String} {block : Block}

/-- A call that asks for the evaluation of a file in its place writes the file with the block behind its code. -/
theorem find?_after_run (input : String)
    (hargs : Request.ofArguments arguments = .request { file := some name, inPlace := true, verbose })
    (hname : name ≠ "") (hread : File.read (dir.find? name) = .ok source)
    (hsplit : splitFinalNewline source = (text, newline)) (hlines : splitLines text = code ++ l :: rest)
    (hl : ({} : Settings).isIdle l = false) (hrest : ∀ x ∈ rest, ({} : Settings).isIdle x = true)
    (hblock : dir.block? name = some block) :
    (dir.after (run dir arguments input)).find? name = some (Utf8.ofString
      (joinLines (code ++ l :: behindRun {} block.lines rest) ++ if newline then "\n" else "")) := by
  have hfile : fileBlock? name text = some block := by
    rw [Directory.block?, hread] at hblock
    dsimp only at hblock
    rwa [hsplit] at hblock
  have hrun := runFrom_annotate hsplit hlines hl hrest hfile
  rw [run, hargs]
  dsimp only
  rw [runRequest, show draftOf dir { file := some name, inPlace := true, verbose } = .ok .default from rfl]
  dsimp only
  rw [if_neg hname, Draft.toSettings_default, runFile, hread]
  dsimp only
  rw [show (Session.annotate name source .whole).run.run { settings := {} } =
    (Session.annotate name source .whole).runFrom { settings := {} } from rfl]
  rcases hannotate : (Session.annotate name source .whole).runFrom { settings := {} } with ⟨_ | t, s'⟩
  · rw [hannotate] at hrun
    cases hrun
  · rw [hannotate] at hrun
    obtain rfl := Except.ok.inj hrun
    exact Directory.find?_write dir name _

/-- What is written behind the last line of code: the notes of the block and the separator, whatever was there from
the last call. -/
theorem behindRun_of_stale {notes stale : List String} (hnotes : ∀ x ∈ notes, ({} : Settings).isNote x = true)
    (hstale : stale = [] ∨ stale = [""]) : behindRun {} notes (notes ++ stale) = notes ++ [""] ∧
      behindRun {} notes [] = notes ++ [""] := by
  have hempty : ∀ r, r = [] ∨ r = [""] → behindRun {} notes r = notes ++ [""] := by
    rintro r (rfl | rfl) <;> rw [behindRun_eq] <;> rfl
  refine ⟨?_, hempty [] (.inl rfl)⟩
  rw [behindRun_eq, afterStale_notes_append hnotes, ← behindRun_eq]
  exact hempty stale hstale

/-- A call that finds the notes of its block behind the last line of code writes them again, with the separator. -/
theorem find?_after_run_of_written (input : String)
    (hargs : Request.ofArguments arguments = .request { file := some name, inPlace := true, verbose })
    (hname : name ≠ "") {notes stale : List String} (hstale : stale = [] ∨ stale = [""])
    (hfind : dir.find? name = some (Utf8.ofString (joinLines (code ++ l :: (notes ++ stale)) ++ "\n")))
    (hl : ({} : Settings).isIdle l = false) (hnotes : ∀ x ∈ notes, ({} : Settings).isNote x = true)
    (hline : ∀ x ∈ code ++ l :: notes, '\r' ∉ x.toList ∧ '\n' ∉ x.toList) (hblock : dir.block? name = some block)
    (hsame : block.lines = notes) :
    (dir.after (run dir arguments input)).find? name =
      some (Utf8.ofString (joinLines (code ++ l :: (notes ++ [""])) ++ "\n")) := by
  have hall : ∀ x ∈ code ++ l :: (notes ++ stale), '\r' ∉ x.toList ∧ '\n' ∉ x.toList := by
    intro x hx
    rw [← List.cons_append, ← List.append_assoc, List.mem_append] at hx
    rcases hx with hx | hx
    · exact hline x hx
    · have hempty : x = "" := by
        rcases hstale with rfl | rfl
        · cases hx
        · exact List.mem_singleton.1 hx
      rw [hempty]
      decide
  have hread : File.read (dir.find? name) = .ok (joinLines (code ++ l :: (notes ++ stale)) ++ "\n") := by
    rw [hfind]
    refine File.read_ofString ?_
    rw [String.toList_append, List.mem_append, mem_joinLines_iff (by decide)]
    rintro (⟨x, hx, hc⟩ | hc)
    · exact (hall x hx).1 hc
    · exact absurd hc (by decide)
  have hlines : splitLines (joinLines (code ++ l :: (notes ++ stale))) = code ++ l :: (notes ++ stale) :=
    splitLines_joinLines (by simp) fun x hx => (hall x hx).2
  have hidle : ∀ x ∈ notes ++ stale, ({} : Settings).isIdle x = true := by
    intro x hx
    rcases List.mem_append.1 hx with hx | hx
    · rw [Settings.isIdle, hnotes x hx, Bool.or_true]
    · rcases hstale with rfl | rfl
      · cases hx
      · rw [List.mem_singleton.1 hx]
        rfl
  have hfound := find?_after_run input hargs hname hread (splitFinalNewline_append _) hlines hl hidle hblock
  rwa [hsame, (behindRun_of_stale hnotes hstale).1, if_pos rfl] at hfound

/-- If a file ends with a line of code and two calls in a row show the same block, then the second one leaves the file
as the first one wrote it, exactly if the file had a line feed at its end. -/
theorem find?_after_run_twice_iff {input input' : String}
    (hargs : Request.ofArguments arguments = .request { file := some name, inPlace := true, verbose })
    (hname : name ≠ "") (hread : File.read (dir.find? name) = .ok source)
    (hcode : ∃ l, (splitLines (splitFinalNewline source).1).getLast? = some l ∧ ({} : Settings).isIdle l = false)
    (hfirst : dir.block? name = some block)
    (hsecond : (dir.after (run dir arguments input)).block? name = some block)
    (hreturn : ∀ x ∈ block.lines, '\r' ∉ x.toList) :
    ((dir.after (run dir arguments input)).after
        (run (dir.after (run dir arguments input)) arguments input')).find? name =
      (dir.after (run dir arguments input)).find? name ↔ source.toList.getLast? = some '\n' := by
  obtain ⟨l, hlast, hl⟩ := hcode
  have hunbroken := unbroken_of_read hread
  rcases hsplit : splitFinalNewline source with ⟨text, newline⟩
  rw [← splitFinalNewline_snd, hsplit]
  rw [hsplit] at hlast hunbroken
  obtain ⟨code, hlines⟩ : ∃ code, splitLines text = code ++ [l] := List.getLast?_eq_some_iff.1 hlast
  rw [hlines] at hunbroken
  have hfile : Session.fileBlock? name text = some block := by
    rw [Directory.block?, hread] at hfirst
    dsimp only at hfirst
    rwa [hsplit] at hfirst
  have hblock := lines_of_fileBlock? hfile
  have hnotes : ∀ x ∈ block.lines, ({} : Settings).isNote x = true := fun x hx => (hblock x hx).1
  have hall : ∀ x ∈ code ++ l :: block.lines, '\r' ∉ x.toList ∧ '\n' ∉ x.toList := by
    intro x hx
    have hx' : x ∈ (code ++ [l]) ++ block.lines := by simpa using hx
    rcases List.mem_append.1 hx' with hx | hx
    · exact hunbroken x hx
    · exact ⟨hreturn x hx, (hblock x hx).2⟩
  -- the first call
  have hfound := find?_after_run input hargs hname hread hsplit hlines hl (by simp) hfirst
  rw [(behindRun_of_stale hnotes (.inl rfl)).2] at hfound
  -- the second call finds the separator of the first as a line, or as the line feed at the end
  cases newline with
  | true =>
    have hagain := find?_after_run_of_written input' hargs hname (.inr rfl) hfound hl hnotes hall hsecond rfl
    rw [hagain, hfound]
    simp
  | false =>
    have hend : code ++ l :: (block.lines ++ [""]) = (code ++ l :: (block.lines ++ [])) ++ [""] := by simp
    have hsep :
        joinLines (code ++ l :: (block.lines ++ [""])) = joinLines (code ++ l :: (block.lines ++ [])) ++ "\n" := by
      rw [hend]
      exact joinLines_concat_empty (by simp)
    rw [if_neg (by simp), String.append_empty] at hfound
    rw [hsep] at hfound
    have hagain := find?_after_run_of_written input' hargs hname (.inl rfl) hfound hl hnotes hall hsecond rfl
    rw [hagain, hfound, hsep]
    refine ⟨fun h => ?_, fun h => by cases h⟩
    have hlen := congrArg List.length (Utf8.encode_inj (Option.some.inj h))
    simp at hlen

/-- A directory with one file. -/
def sumFile (text : String) : Directory :=
  ⟨[("a.lua", Utf8.ofString text)]⟩

/-- The block of the sum in the file. -/
def sumBlock : Block :=
  [⟨.result, "-- => 2"⟩]

/-- The second call leaves a file alone that ends with a line feed. -/
theorem find?_after_run_twice_sum :
    let dir := sumFile "1 + 1\n"
    let dir₁ := dir.after (run dir ["a.lua", "--in-place"] "")
    (dir₁.after (run dir₁ ["a.lua", "--in-place"] "")).find? "a.lua" = dir₁.find? "a.lua" := by
  intro dir dir₁
  have hargs : Request.ofArguments ["a.lua", "--in-place"] = .request { file := some "a.lua", inPlace := true } := by
    decide +kernel
  have hfind : dir.find? "a.lua" = some (Utf8.ofString "1 + 1\n") := by decide +kernel
  have hread : File.read (dir.find? "a.lua") = .ok "1 + 1\n" := by rw [hfind, File.read_ofString (by decide)]
  have hfirst : dir.block? "a.lua" = some sumBlock := by decide +kernel
  have hsecond : dir₁.block? "a.lua" = some sumBlock := by decide +kernel
  exact (find?_after_run_twice_iff hargs (by decide) hread ⟨"1 + 1", by decide +kernel, by decide +kernel⟩ hfirst hsecond
    (by decide)).2 (by decide)

/-- The second call adds an empty line to a file that does not end with a line feed. -/
theorem find?_after_run_twice_without_line_feed :
    let dir := sumFile "1 + 1"
    let dir₁ := dir.after (run dir ["a.lua", "--in-place"] "")
    let dir₂ := dir₁.after (run dir₁ ["a.lua", "--in-place"] "")
    ({} : Settings).isIdle "1 + 1" = false ∧ dir.block? "a.lua" = some sumBlock ∧ dir₁.block? "a.lua" = some sumBlock ∧
      dir₁.find? "a.lua" = some (Utf8.ofString "1 + 1\n-- => 2\n") ∧
      dir₂.find? "a.lua" = some (Utf8.ofString "1 + 1\n-- => 2\n\n") := by
  decide +kernel

end Command

end Scratchpad
