import Scratchpad.Proofs.Expression
import Scratchpad.Proofs.Lua.Copies
import Scratchpad.Proofs.Snippet.Declared

/-!
# Declarations that last

A snippet that is one declaration binds its variables for the run of its chunk only; the lines behind it copy them into
the environment and return them. Main statement: if the evaluation succeeds, its values are those that the fields of the
declared names have afterwards, and a name whose field is not `nil` evaluates to it from then on (`declared_last`). This
takes that the variable `_ENV` of the snippet still holds the environment once the initial values are there, and that the
environment still has a metatable that lets it keep what is written to it: an initial value can change both.
-/

namespace Scratchpad

open Lua

namespace Lua.Machine

/-- What a computation delivers leaves a machine that keeps a lasting invariant. -/
theorem Delivers.keeps {α : Type} [HasValues α] {I : Invariant} {m m' : Machine} {c : Comp α} {k : Nat} {a : α}
    (h : m.Delivers c k a m') (hI : I.Lasting) (hm : m.Keeps I) (hc : c.Keeps I) : m'.Keeps I := by
  have hrun := (keeps_run hI (k + 0) hm (hc.before (fun _ => .done []) fun _ _ => HasValues.all_nil)).1
  rwa [h (fun _ => .done []) 0] at hrun

theorem keeps_inProgram {I : Invariant} {store : Store} {threads : Array Thread} (hI : I.Lasting)
    (hstore : I.store store) (hthreads : ∀ t ∈ threads, ThreadKeeps I t) (site : Site) :
    (inProgram store threads site).Keeps I where
  store := hstore
  threads := hthreads
  frames := .cons (fun _ h => h) (.cons ⟨HasValues.all_none, fun _ _ h => HasValues.all_cons (hI.bool _) h⟩
    (.cons (fun _ h => h) framesKeep_nil))
  waiting _ hw := absurd hw List.not_mem_nil

/-- A function that is made and a number are delivered in two steps. -/
theorem delivers_functionNumber (m : Machine) (ctx : Context) (g : Func) (n : Number) :
    m.Delivers (Meaning.evalList ctx [.function g, .number n]) 2 [.closure m.store.closures.size, .ofNumber n]
      { m with store := m.store.pushClosure ⟨g, ctx.scope⟩ } := fun k x => by
  simp only [Meaning.evalList, Meaning.eval]
  exact delivers_newClosure m ⟨g, ctx.scope⟩ (fun v => k [v, .ofNumber n]) x

end Lua.Machine

namespace Interpreter

variable {i i' : Interpreter} {source name : String} {env f : Lua.Value}

/-! ## What is compiled -/

/-- The state in which a program has been compiled. -/
def compiled (i : Interpreter) (func : Func) (env : Lua.Value) : Interpreter :=
  { i with store := (i.store.pushCells [env]).pushClosure ⟨func, [i.store.cells.size]⟩ }

theorem compile_eq_ok (h : i.compile source name env = (.ok f, i')) : ∃ func,
    parse (chunkName name) (bytes source) = .ok func ∧ f = .closure i.store.closures.size ∧ i' = i.compiled func env := by
  rw [compile] at h
  dsimp only at h
  split at h
  · cases h
  · split at h
    · cases h
    · rename_i func hparse
      cases h
      exact ⟨func, hparse, rfl, rfl⟩

theorem compile_of_parse {func : Func} (hmark : (bytes source).head? ≠ some compiledMark)
    (hparse : parse (chunkName name) (bytes source) = .ok func) :
    i.compile source name env = (.ok (.closure i.store.closures.size), i.compiled func env) := by
  rw [compile]
  dsimp only
  rw [if_neg hmark, hparse]
  rfl

theorem compile_eq_error {message : String} (h : i.compile source name env = (.error message, i')) : i' = i := by
  rw [compile] at h
  dsimp only at h
  split at h
  · cases h
    rfl
  · split at h
    · cases h
      rfl
    · cases h

theorem closure?_compiled (i : Interpreter) (func : Func) (env : Lua.Value) :
    (i.compiled func env).store.closure? i.store.closures.size = some ⟨func, [i.store.cells.size]⟩ :=
  Array.getElem?_push_size

/-! ## Programs that succeed -/

/-- Where programs are called. -/
def programSite : Site :=
  { position := some ⟨Library.environmentChunk, Library.callLine⟩, yieldable := true }

/-- What a protected call yields if its run comes to an end. -/
theorem protect_of_run_eq {v : Lua.Value} {vs : List Lua.Value} {mEnd : Machine}
    (h : Machine.run maxSteps { store := i.store, threads := i.threads } (protectedCall f) =
      (mEnd, some (.ok (v :: vs)))) :
    i.protect f = ((v.isTrue, vs), { i with store := mEnd.store, threads := mEnd.threads }) := by
  have hi : i.run (protectedCall f) =
      (.ok (v :: vs), ⟨mEnd.store, mEnd.threads, i.environments, i.evaluations⟩) := by
    simp only [Interpreter.run, h]
    rfl
  simp only [protect]
  rw [show Prog.call _ _ _ _ = protectedCall f from rfl, hi]

/-- A protected call succeeds only if its run comes to an end without an error. -/
theorem protect_eq_true {vs : List Lua.Value} (h : (i.protect f).1 = (true, vs)) : ∃ mEnd : Machine,
    Machine.run maxSteps { store := i.store, threads := i.threads } (protectedCall f) =
        (mEnd, some (.ok (.bool true :: vs))) ∧ (i.protect f).2.store = mEnd.store := by
  rcases hrun : Machine.run maxSteps { store := i.store, threads := i.threads } (protectedCall f) with ⟨mEnd, _ | r⟩
  · have hi : (i.run (protectedCall f)).1 = .error (.ofString "too many steps") := by
      simp only [Interpreter.run, hrun]
      rfl
    simp only [protect] at h
    rw [show Prog.call _ _ _ _ = protectedCall f from rfl, hi] at h
    cases h
  · rcases Machine.run_pcall f programSite (congrArg Prod.snd hrun) with ⟨vs', rfl⟩ | ⟨e, rfl⟩
    · rw [protect_of_run_eq hrun] at h ⊢
      cases h
      exact ⟨mEnd, rfl, rfl⟩
    · rw [protect_of_run_eq hrun] at h
      cases h

end Interpreter

namespace Evaluator

open Interpreter Lua.Parser

variable {e : Evaluator} {i i' : Interpreter} {env : Nat} {code : String} {f : Func} {names : List Bytes}
  {values : List Expr} {shown : List Inspect.Value} {output : List String} {notes : List EvaluationNote}

/-- The machine in which the program of a snippet begins to run. -/
def beginning (e : Evaluator) (i : Interpreter) (env : Nat) (code : String) : Machine :=
  let j := capturing (e.compile i env code).2.1 env
  Machine.inProgram j.store j.threads programSite

theorem runCaptured_eq (i : Interpreter) (env : Nat) (f : Lua.Value) : ∃ s, runCaptured i env f =
    (((capturing i env).protect f).1,
      ((capturing i env).protect f).2.store.printed.reverse.map Text.Utf8.toStringLossy,
      { ((capturing i env).protect f).2 with store := s }) :=
  ⟨_, rfl⟩

/-- Taking back the `print` that records lines leaves the other names. -/
theorem rawGet_runCaptured (i : Interpreter) (env : Nat) (f : Lua.Value) {x : Bytes} (hx : x ≠ bytes "print")
    (hvalid : (ended i env f).store.Valid) (hbound : env < (ended i env f).store.tables.size) :
    (runCaptured i env f).2.2.store.rawGet env (.str x) = (ended i env f).store.rawGet env (.str x) := by
  rw [store_runCaptured]
  split
  · rw [Store.rawGet_rawSet (hvalid env) hbound, if_neg]
    intro hkey
    exact hx (Lua.Value.str.inj hkey)
  · rfl

theorem failure_ne_success (i : Interpreter) (v : Lua.Value) : (failure i v).1 ≠ .ok (.success shown output) := by
  intro h
  simp only [failure] at h
  split at h
  · cases h
  · rcases htext : (i.textOf (i.outward v)).1 with fault | t
    · rw [htext] at h
      cases h
    · rw [htext] at h
      cases h

/-- A snippet that succeeds was compiled, and its program succeeded. -/
theorem evaluate_eq_success (h : e.evaluate i env code = (.ok (.success shown output), i', notes)) :
    ∃ fn i₁ vs, e.compile i env code = (.ok fn, i₁, notes) ∧ ((capturing i₁ env).protect fn).1 = (true, vs) ∧
      i' = (runCaptured i₁ env fn).2.2 ∧ shown = vs.map i'.shown := by
  rcases hcompile : e.compile i env code with ⟨message | fn, i₁, notes₁⟩
  · rw [evaluate, hcompile] at h
    cases h
  · rcases hcaptured : runCaptured i₁ env fn with ⟨⟨ok, vs⟩, lines, i₂⟩
    rw [evaluate, hcompile] at h
    dsimp only at h
    rw [hcaptured] at h
    cases ok with
    | true =>
      cases h
      exact ⟨fn, i₁, vs, rfl, congrArg Prod.fst hcaptured, congrArg (fun r => r.2.2) hcaptured.symm, rfl⟩
    | false =>
      exact absurd (congrArg Prod.fst h) (failure_ne_success i₂ _)

/-- A snippet that is one declaration is compiled with its lines. -/
theorem compile_declaration (he : e.envName = "_ENV")
    (hparse : parse (Interpreter.chunkName e.chunkName) (bytes code) = .ok f)
    (hdecl : IsDeclaration (lex (bytes code)).1 f.body names values) (hshape : Snippet.shape code ≠ .other)
    {fn : Lua.Value} {i₁ : Interpreter} (h : e.compile i env code = (.ok fn, i₁, notes)) :
    (∀ w ∈ names, Lexer.IsName w) ∧ ∃ d lines, Declares d names values ∧
      IsLines (declaredScopes names) (bytes "_ENV") names names lines ∧ fn = .closure i.store.closures.size ∧
        i₁ = i.compiled (.mk 0 true (d :: lines) 0 (Interpreter.chunkName e.chunkName)) (.table env) := by
  obtain ⟨hnames, d, lines, hd, hlines, hlasting⟩ := Snippet.parse_lasting hshape hparse hdecl
  refine ⟨hnames, d, lines, hd, hlines, ?_⟩
  rcases hreturn : i.compile ("return " ++ code) e.chunkName (.table env) with ⟨message | fn', i'⟩
  · obtain rfl := compile_eq_error hreturn
    rcases hsecond : i'.compile (Snippet.lasting e.envName code) e.chunkName (.table env) with ⟨message' | fn', i₂⟩
    · simp only [compile, hreturn, hsecond] at h
      cases h
    · simp only [compile, hreturn, hsecond] at h
      cases h
      obtain ⟨func, hfunc, rfl, rfl⟩ := compile_eq_ok hsecond
      rw [he, hlasting] at hfunc
      cases hfunc
      exact ⟨rfl, rfl⟩
  · -- a declaration is no expression
    obtain ⟨g, hg, -, -⟩ := compile_eq_ok hreturn
    rw [bytes_append] at hg
    have heither := eitherWay_of_parse hparse hg
    generalize f.body = body at hdecl heither
    generalize g.body = body' at heither
    cases heither with
    | empty => cases hdecl
    | call => cases hdecl

/-- The store in which the program of a snippet begins to run is one of maps, and what waits there keeps it so. -/
theorem keeps_beginning (hi : i.Reached) (e : Evaluator) (env : Nat) (code : String) :
    (e.beginning i env code).Keeps Store.wellFormed := by
  have hI := Store.standing_wellFormed
  have hcapturing := keeps_capturing hI trivial (keeps_compile hI.toLasting hi.keeps_wellFormed e env code).1 env
  exact Machine.keeps_inProgram hI.toLasting hcapturing.store hcapturing.threads programSite

/-- The values of a declaration that succeeds are those that the fields of its names have afterwards. -/
theorem declared_fields (hi : i.Reached) (he : e.envName = "_ENV")
    (hparse : parse (Interpreter.chunkName e.chunkName) (bytes code) = .ok f)
    (hdecl : IsDeclaration (lex (bytes code)).1 f.body names values) (henv : bytes "_ENV" ∉ names)
    (hprint : bytes "print" ∉ names) (hshape : Snippet.shape code ≠ .other)
    (heval : e.evaluate i env code = (.ok (.success shown output), i', notes)) :
    ∃ k vs m, (e.beginning i env code).Delivers
        (Meaning.evalList ⟨[i.store.cells.size], [], Interpreter.chunkName e.chunkName⟩ values) k vs m ∧
      ∀ mt n, m.store.cell i.store.cells.size = .table env → m.store.KeepsWrites env mt n →
        shown = names.map fun w => i'.shown (i'.store.rawGet env (.str w)) := by
  obtain ⟨fn, i₁, vs, hcompile, hprotect, rfl, rfl⟩ := evaluate_eq_success heval
  have hkeeps := keeps_beginning hi e env code
  have hbeginning : e.beginning i env code =
      Machine.inProgram (capturing i₁ env).store (capturing i₁ env).threads programSite := by
    rw [beginning, hcompile]
  rw [hbeginning] at hkeeps ⊢
  obtain ⟨-, d, lines, hd, hlines, rfl, rfl⟩ := compile_declaration he hparse hdecl hshape hcompile
  obtain ⟨mEnd, hrun, hstore⟩ := protect_eq_true hprotect
  have hclosure : (capturing (i.compiled (.mk 0 true (d :: lines) 0 (Interpreter.chunkName e.chunkName)) (.table env))
      env).store.closure? i.store.closures.size = some ⟨.mk 0 true (d :: lines) 0 (Interpreter.chunkName e.chunkName),
        [i.store.cells.size]⟩ := closure?_compiled i _ _
  have hsucceeds := Machine.run_add hrun 2
  rw [protectedCall, Machine.run_pcall_closure hclosure] at hsucceeds
  obtain ⟨k, vs', m, hdelivers, hcopies⟩ := Machine.succeeds_declaration hd henv hlines hsucceeds
  refine ⟨k, vs', m, hdelivers, fun mt n hcell hw => ?_⟩
  obtain ⟨s, value, hs, rfl, hend⟩ := hcopies env mt n hcell hw
  have hI := Store.standing_wellFormed.toLasting
  have hm : m.Keeps Store.wellFormed := hdelivers.keeps hI hkeeps (Meaning.keeps_evalList hI HasValues.all_nil values)
  have hbound : env < s.tables.size := by
    rw [hs]
    exact hw.bound
  have hvalid : s.Valid := fun id => by
    rw [Store.table_eq_of_tables_eq hs]
    exact hm.store id
  rw [List.map_map]
  refine List.map_congr_left fun w hw => ?_
  have hfield := rawGet_runCaptured (i.compiled (.mk 0 true (d :: lines) 0 (Interpreter.chunkName e.chunkName))
    (.table env)) env (.closure i.store.closures.size) (ne_of_mem_of_not_mem hw hprint)
    (by rw [ended, hstore, hend]; exact hvalid.writeAll _ _ _)
    (by rw [ended, hstore, hend, Store.size_writeAll]; exact hbound)
  rw [ended, hstore, hend, Store.rawGet_writeAll hvalid hbound (.inl hw)] at hfield
  rw [hfield]
  rfl

/-! ## Names -/

/-- A name that is returned is a field of the environment. -/
theorem parse_return_name {x : Bytes} (hx : Lexer.IsName x) (henv : x ≠ bytes "_ENV") (source : Bytes) :
    ∃ line tail, parse source (bytes "return " ++ x) =
      .ok (.mk 0 true [.ret [.index (.var ⟨bytes "_ENV", 0, true⟩) (.str x) line] tail] 0 source) := by
  have hbytes : bytes "return " ++ x = Lexer.returnBytes [x] := by
    have hreturn : bytes "return " = bytes "return" ++ [32] := by decide
    rw [hreturn, List.append_assoc]
    rfl
  have hnames : ∀ w ∈ [x], Lexer.IsName w := by simpa using hx
  obtain ⟨A, hA, htokens⟩ := Lexer.lexes_return hnames (by simp) 1
  have htop : TopLevel (entry source A) := ⟨rfl, rfl, outline_entry source A⟩
  obtain ⟨body, hyields, hlines⟩ := yields_lines (by simp) (show A.map Lexeme.token = [].flatMap
    (copyTokens (bytes "_ENV")) ++ (returnTokens [x] ++ [.eof]) from htokens) rfl htop rfl
  cases hlines with
  | @returned es tail hes =>
    obtain ⟨e, es, he, hnil, rfl⟩ := List.forall₂_cons_left_iff.1 hes
    obtain rfl := List.forall₂_nil_left_iff.1 hnil
    obtain ⟨line, rfl⟩ := nameIn_global henv he
    refine ⟨line, tail, (parse_eq_ok_iff source _ _).2 ?_⟩
    rw [hbytes, Lexer.lex_eq, hA]
    exact ⟨rfl, _, hyields, rfl⟩

/-- A snippet that is a name yields the field of the environment, if that is not `nil`. -/
theorem evaluate_name {name : String} (hname : Lexer.IsName (bytes name)) (henv : bytes name ≠ bytes "_ENV")
    (hprint : bytes name ≠ bytes "print") (h : i.store.rawGet env (.str (bytes name)) ≠ .nil) :
    (e.evaluate i env name).1 = .ok (.success [i.shown (i.store.rawGet env (.str (bytes name)))] []) := by
  obtain ⟨line, tail, hparse⟩ := parse_return_name hname henv (Interpreter.chunkName e.chunkName)
  rw [← bytes_append] at hparse
  have hmark : (bytes ("return " ++ name)).head? ≠ some compiledMark := by
    rw [bytes_append]
    exact fun hhead => absurd (Option.some.inj hhead) (by decide)
  set func : Func := .mk 0 true [.ret [.index (.var ⟨bytes "_ENV", 0, true⟩) (.str (bytes name)) line] tail] 0
    (Interpreter.chunkName e.chunkName)
  have hcompile : e.compile i env name =
      (.ok (.closure i.store.closures.size), i.compiled func (.table env), []) := by
    rw [compile, compile_of_parse hmark hparse]
  set j := capturing (i.compiled func (.table env)) env
  set m := Machine.inProgram j.store j.threads programSite
  have hfield : m.store.rawGet env (.str (bytes name)) = i.store.rawGet env (.str (bytes name)) :=
    Store.rawGet_rawSet_of_ne (s := (i.compiled func (.table env)).store) (k := printKey) h
      (fun hkey => hprint (Lua.Value.str.inj hkey)) _
  have hcell : m.store.cell (Meaning.cellOf ⟨[i.store.cells.size], [], Interpreter.chunkName e.chunkName⟩
      ⟨bytes "_ENV", 0, true⟩) = .table env :=
    Store.cell_pushCells_self i.store _
  have hclosure : j.store.closure? i.store.closures.size = some ⟨func, [i.store.cells.size]⟩ :=
    closure?_compiled i func _
  have hrun : Machine.run 10 { store := j.store, threads := j.threads } (protectedCall (.closure i.store.closures.size)) =
      ({ m with frames := [] }, some (.ok [.bool true, i.store.rawGet env (.str (bytes name))])) := by
    rw [protectedCall, Machine.run_pcall_closure hclosure 8, Machine.run_invoke_program rfl i.store.cells.size 6]
    have hdelivers := Machine.delivers_field hcell (by rw [hfield]; exact h) line tail
    rw [hfield] at hdelivers
    exact (hdelivers Machine.programEnd 4).trans (Machine.run_done_inProgram ⟨rfl, rfl⟩ rfl _ 0)
  have hmax : 10 + (maxSteps - 10) = maxSteps := by decide
  have hrun := Machine.run_add hrun (maxSteps - 10)
  rw [hmax] at hrun
  have hprotect := protect_of_run_eq hrun
  obtain ⟨s, hcaptured⟩ := runCaptured_eq (i.compiled func (.table env)) env (.closure i.store.closures.size)
  rw [hprotect] at hcaptured
  simp only [evaluate, hcompile, hcaptured]
  exact congrArg (fun v => Except.ok (Outcome.success [v] [])) (congrFun (shown_eq rfl) _)

/-! ## Declarations last -/

/-- A snippet that is one declaration and that lines are put behind evaluates its initial values first. If its variable
`_ENV` still holds the environment once they are there, and the environment still keeps what is written to it, then the
values of the snippet are those of the fields of the declared names afterwards. A declared name whose field is not `nil`
evaluates to the value of the field, in that state and in any other. -/
theorem declared_last (hi : i.Reached) (he : e.envName = "_ENV")
    (hparse : parse (Interpreter.chunkName e.chunkName) (bytes code) = .ok f)
    (hdecl : IsDeclaration (lex (bytes code)).1 f.body names values) (henv : bytes "_ENV" ∉ names)
    (hprint : bytes "print" ∉ names) (hlasting : Snippet.lasting e.envName code ≠ code)
    (heval : e.evaluate i env code = (.ok (.success shown output), i', notes)) :
    (∃ k vs m, (e.beginning i env code).Delivers
        (Meaning.evalList ⟨[i.store.cells.size], [], Interpreter.chunkName e.chunkName⟩ values) k vs m ∧
      ∀ mt n, m.store.cell i.store.cells.size = .table env → m.store.KeepsWrites env mt n →
        shown = names.map fun w => i'.shown (i'.store.rawGet env (.str w))) ∧
    ∀ (name : String) (e' : Evaluator) (j : Interpreter), bytes name ∈ names →
      j.store.rawGet env (.str (bytes name)) ≠ .nil → (e'.evaluate j env name).1 =
        .ok (.success [j.shown (j.store.rawGet env (.str (bytes name)))] []) := by
  have hshape : Snippet.shape code ≠ .other := fun hother => hlasting (Snippet.lasting_other e.envName hother)
  refine ⟨declared_fields hi he hparse hdecl henv hprint hshape heval, fun name e' j hname hvalue => ?_⟩
  exact evaluate_name ((Snippet.parse_lasting hshape hparse hdecl).1 _ hname) (ne_of_mem_of_not_mem hname henv)
    (ne_of_mem_of_not_mem hname hprint) hvalue

/-- The variables and the initial values of a snippet that is one declaration. -/
def declaration? (e : Evaluator) (code : String) : Option (List Bytes × List Expr) :=
  match parse (Interpreter.chunkName e.chunkName) (bytes code) with
  | .ok f => Parser.declaration? (lex (bytes code)).1 f.body
  | .error _ => none

theorem declaration?_eq_some (h : e.declaration? code = some (names, values)) : ∃ f,
    parse (Interpreter.chunkName e.chunkName) (bytes code) = .ok f ∧
      IsDeclaration (lex (bytes code)).1 f.body names values := by
  rw [declaration?] at h
  split at h
  · rename_i f hparse
    exact ⟨f, hparse, isDeclaration_iff.2 h⟩
  · cases h

/-- A function and a number. -/
def isFunctionNumber : List Expr → Bool
  | [.function _, .number _] => true
  | _ => false

theorem exists_of_isFunctionNumber (h : isFunctionNumber values = true) :
    ∃ g n, values = [.function g, .number n] := by
  unfold isFunctionNumber at h
  split at h
  · exact ⟨_, _, rfl⟩
  · cases h

/-- A function and a number that are declared by one snippet and evaluated by their names afterwards. -/
theorem declared_last_values :
    let i := ({} : Interpreter).newEnvironment
    let e : Evaluator := {}
    let code := "local f, n = function() return 1 end, 5"
    let i' := (e.evaluate i.2 i.1 code).2.1
    ∃ v, v ≠ .nil ∧ i'.store.rawGet i.1 (.str (bytes "f")) = v ∧
      Outcome.values? (e.evaluate i.2 i.1 code).1 = some [i'.shown v, .int 5] ∧
      Outcome.values? (e.evaluate i' i.1 "f").1 = some [i'.shown v] ∧
      Outcome.values? (e.evaluate i' i.1 "n").1 = some [.int 5] := by
  intro i e code i'
  have hreached : i.2.Reached := .newEnvironment .initial
  have hform : (e.declaration? code).any (fun d => d.1 == [bytes "f", bytes "n"] && isFunctionNumber d.2) = true := by
    decide +kernel
  obtain ⟨⟨names, values⟩, hdeclared, hform⟩ := (Option.any_eq_true _ _).1 hform
  obtain ⟨hnames, hvalues⟩ := Bool.and_eq_true_iff.1 hform
  obtain rfl : names = [bytes "f", bytes "n"] := eq_of_beq hnames
  obtain ⟨g, five, rfl⟩ := exists_of_isFunctionNumber hvalues
  obtain ⟨f, hparse, hdecl⟩ := declaration?_eq_some hdeclared
  obtain ⟨hsuccess, hfunction, hnumber⟩ : (Outcome.values? (e.evaluate i.2 i.1 code).1).isSome ∧
      i'.store.rawGet i.1 (.str (bytes "f")) ≠ .nil ∧ i'.store.rawGet i.1 (.str (bytes "n")) = .int 5 := by
    decide +kernel
  obtain ⟨shown, hshown⟩ := Option.isSome_iff_exists.1 hsuccess
  obtain ⟨output, houtcome⟩ := Outcome.values?_eq_some.1 hshown
  have heval : e.evaluate i.2 i.1 code = (.ok (.success shown output), i', (e.evaluate i.2 i.1 code).2.2) := by
    rw [← houtcome]
  have hlasting : Snippet.lasting e.envName code ≠ code := by decide +kernel
  obtain ⟨⟨k, vs, m, hdelivers, hfields⟩, hlater⟩ :=
    declared_last hreached rfl hparse hdecl (by decide) (by decide) hlasting heval
  -- the initial values leave the machine with one function more
  obtain rfl := hdelivers.unique (Machine.delivers_functionNumber _ _ g five)
  set mt := ({} : Interpreter).store.tables.size
  obtain ⟨hcell, hmetatable, hne, hnewindex⟩ :
      (e.beginning i.2 i.1 code).store.cell i.2.store.cells.size = .table i.1 ∧
        ((e.beginning i.2 i.1 code).store.table i.1).metatable = some mt ∧ mt ≠ i.1 ∧
        (e.beginning i.2 i.1 code).store.rawGet mt (.str Operation.newindexKey) = .builtin (.writeLocal 0) := by
    decide +kernel
  have hwrites : (e.beginning i.2 i.1 code).store.KeepsWrites i.1 mt 0 := ⟨hmetatable, hne, hnewindex⟩
  have hvalues := hfields mt 0 ((Store.cell_pushClosure _ _ _).trans hcell)
    (hwrites.of_tables_eq (Store.tables_pushClosure _ _))
  rw [List.map_cons, List.map_singleton, hnumber] at hvalues
  refine ⟨_, hfunction, rfl, ?_, ?_, ?_⟩
  · rw [hshown, hvalues, shown_int]
    rfl
  · exact Outcome.values?_eq_some.2 ⟨[], hlater "f" e i' (by decide) hfunction⟩
  · have hn := hlater "n" e i' (by decide) (by rw [hnumber]; decide)
    rw [hnumber, shown_int] at hn
    exact Outcome.values?_eq_some.2 ⟨[], hn⟩

/-- An initial value can put another environment in the place of the snippet's, or change the function for new fields.
Then the declaration yields its value, and the environment lacks it. -/
theorem declared_not_last :
    let i := ({} : Interpreter).newEnvironment
    let e : Evaluator := {}
    ∀ code ∈ ["local x = (function() _ENV = {} return 5 end)()",
        "local x = (function() getmetatable(_ENV).__newindex = function() end return 5 end)()"],
      let i' := (e.evaluate i.2 i.1 code).2.1
      (e.declaration? code).map (fun d => (d.1, d.2.length)) = some ([bytes "x"], 1) ∧
        Snippet.lasting e.envName code ≠ code ∧
        (i'.store.table i.1).metatable = (i.2.store.table i.1).metatable ∧
        Outcome.values? (e.evaluate i.2 i.1 code).1 = some [.int 5] ∧
        i'.store.rawGet i.1 (.str (bytes "x")) = .nil ∧
        Outcome.values? (e.evaluate i' i.1 "x").1 = some [.nil] := by
  decide +kernel

end Evaluator

end Scratchpad
