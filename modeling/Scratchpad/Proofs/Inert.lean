import Scratchpad.Proofs.Inspect
import Scratchpad.Proofs.Lua.Lexer.Kinds
import Scratchpad.Proofs.Region
import Scratchpad.Proofs.Snippet
import Scratchpad.Proofs.Text.Utf8

/-!
# Blocks are comments

With the usual marks every line of a block begins like a short comment of the Lua language, and such a comment ends at a
line feed or a carriage return. A block has no carriage return unless something that was printed or the message of a
failure has one (`exists_mem_lines_iff`): shown values have none. So the lines of a block are comments exactly then, and
lines that are comments can stand between any two lines of code (`kinds_insert`). Main statement: `lines_inert`.
-/

namespace Scratchpad

open Lua Lua.Lexer Text
open Snippet (bytes_joinLines_cons bytes_joinLines_single)

/-! ## Line ends in the bytes of a text -/

theorem byte_mem_encode_iff {c : Char} {cs : List Char} (hc : c.toNat < 128) : byte c ∈ Utf8.encode cs ↔ c ∈ cs := by
  rw [Utf8.encode, List.mem_flatMap]
  constructor
  · rintro ⟨d, hd, hb⟩
    by_cases hlt : d.toNat < 128
    · rw [encodeChar_ascii hlt, List.mem_singleton] at hb
      have hnat := congrArg UInt8.toNat hb
      rw [toNat_byte hc, toNat_byte hlt] at hnat
      rwa [Char.toNat_inj.1 hnat]
    · have hle := Utf8.le_of_mem_encodeChar (Nat.not_lt.1 hlt) hb
      rw [toNat_byte hc] at hle
      omega
  · intro h
    exact ⟨c, h, by rw [encodeChar_ascii hc]; exact List.mem_singleton_self _⟩

theorem no_newline_iff (t : String) :
    (∀ b ∈ bytes t, Byte.isNewline b = false) ↔ '\n' ∉ t.toList ∧ '\r' ∉ t.toList := by
  have hfeed : (10 : UInt8) ∈ bytes t ↔ '\n' ∈ t.toList := byte_mem_encode_iff (c := '\n') (by decide)
  have hreturn : (13 : UInt8) ∈ bytes t ↔ '\r' ∈ t.toList := byte_mem_encode_iff (c := '\r') (by decide)
  rw [← hfeed, ← hreturn]
  constructor
  · exact fun h => ⟨fun hb => absurd (h _ hb) (by decide), fun hb => absurd (h _ hb) (by decide)⟩
  · rintro ⟨h10, h13⟩ b hb
    refine Bool.eq_false_iff.2 fun hnewline => ?_
    rcases Bool.or_eq_true_iff.1 hnewline with he | he
    · exact h10 (eq_of_beq he ▸ hb)
    · exact h13 (eq_of_beq he ▸ hb)

/-! ## Comments between lines of code -/

/-- The bytes of lines, each with its line end. -/
def bytesOfLines (ls : List String) : Bytes :=
  ls.flatMap fun l => bytes l ++ [10]

section Lines

variable {before notes : List String}

theorem bytesOfLines_append (ls ms : List String) : bytesOfLines (ls ++ ms) = bytesOfLines ls ++ bytesOfLines ms :=
  List.flatMap_append

theorem bytesOfLines_cons (l : String) (ls : List String) : bytesOfLines (l :: ls) = bytes l ++ 10 :: bytesOfLines ls := by
  rw [bytesOfLines, List.flatMap_cons, List.append_assoc]
  rfl

theorem bytesOfLines_eq : ∀ {ls : List String}, ls ≠ [] → bytesOfLines ls = bytes (joinLines ls) ++ [10]
  | [l], _ => by
    rw [bytes_joinLines_single, bytesOfLines_cons]
    rfl
  | l :: m :: ls, _ => by
    rw [bytes_joinLines_cons, bytesOfLines_cons, bytesOfLines_eq (List.cons_ne_nil m ls), List.append_assoc]
    rfl

/-- The line end of the last line does not count. -/
theorem kinds_joinLines (ls : List String) : kinds (bytes (joinLines ls)) = kinds (bytesOfLines ls) := by
  cases ls with
  | nil => rfl
  | cons l ls => rw [bytesOfLines_eq (List.cons_ne_nil l ls), kinds_append_newline]

theorem bytes_joinLines_end (ls : List String) : bytes (joinLines (ls ++ [""])) = bytesOfLines ls := by
  cases ls with
  | nil => rfl
  | cons l ls =>
    rw [joinLines_concat_empty (List.cons_ne_nil l ls), bytes_append, bytesOfLines_eq (List.cons_ne_nil l ls)]
    rfl

theorem kinds_bytesOfLines_append (h : ∀ l ∈ notes, IsComment (bytes l)) (x : Bytes) :
    kinds (bytesOfLines notes ++ x) = kinds x := by
  induction notes with
  | nil => rfl
  | cons l notes ih =>
    rw [bytesOfLines_cons, List.append_assoc, List.cons_append, kinds_comment (h l List.mem_cons_self),
      ih fun m hm => h m (List.mem_cons_of_mem l hm)]

/-- The code before a place leaves a string or a long comment open there. -/
def OpenAfter (before : List String) : Prop :=
  LeavesOpen (bytes (joinLines (before ++ [""])))

theorem not_openAfter (h : (lex (bytes (joinLines (before ++ [""])))).2.isNone = true) : ¬ OpenAfter before := by
  rintro ⟨e, he, -⟩
  rw [Option.isNone_iff_eq_none.1 h] at he
  cases he

/-- Comments between lines of code change no token, unless they are put into a string or a comment. -/
theorem kinds_insert (hnotes : ∀ l ∈ notes, IsComment (bytes l)) (hopen : ¬ OpenAfter before) (after : List String) :
    kinds (bytes (joinLines (before ++ notes ++ after))) = kinds (bytes (joinLines (before ++ after))) := by
  rw [kinds_joinLines, kinds_joinLines, List.append_assoc, bytesOfLines_append, bytesOfLines_append, bytesOfLines_append]
  have hbehind : kinds (bytesOfLines notes ++ bytesOfLines after) = kinds (bytesOfLines after) :=
    kinds_bytesOfLines_append hnotes _
  rw [OpenAfter, bytes_joinLines_end] at hopen
  cases before with
  | nil => exact hbehind
  | cons l ls =>
    rw [bytesOfLines_eq (List.cons_ne_nil l ls)] at hopen ⊢
    rw [List.append_assoc, List.append_assoc]
    exact kinds_append_congr hopen hbehind

end Lines

/-! ## Blocks -/

/-- What a snippet printed, or the message of its failure. -/
def Outcome.texts {α : Type} : Outcome α → List String
  | .success _ output => output
  | .failure _ message => [message]

namespace Block

variable {s : Settings} {c : Char} {l : String}

theorem mem_parts {α : Type} {shown : α → String} {o : Outcome α} {p : Role × String} (h : p ∈ parts s shown o) :
    p.2 ∈ o.texts ∨ p.2 = "nil" ∨ ∃ v, p.2 = shown v := by
  cases o with
  | failure stage message =>
    rw [List.mem_singleton.1 h]
    exact .inl List.mem_cons_self
  | success values output =>
    rcases List.mem_append.1 h with h | h
    · obtain ⟨t, ht, rfl⟩ := List.mem_map.1 h
      exact .inl ht
    · split at h
      · rw [List.mem_singleton.1 h]
        exact .inr (.inl rfl)
      · cases values with
        | nil => cases h
        | cons v vs =>
          rcases List.mem_cons.1 h with rfl | h
          · exact .inr (.inr ⟨v, rfl⟩)
          · obtain ⟨w, -, rfl⟩ := List.mem_map.1 h
            exact .inr (.inr ⟨w, rfl⟩)

theorem exists_part {α : Type} (shown : α → String) {o : Outcome α} {t : String} (h : t ∈ o.texts) :
    ∃ r, (r, t) ∈ parts s shown o := by
  cases o with
  | failure stage message => exact ⟨.error, List.mem_singleton.2 (by rw [List.mem_singleton.1 h])⟩
  | success values output => exact ⟨.output, List.mem_append_left _ (List.mem_map_of_mem h)⟩

/-- A character that neither ends a line nor stands in a mark is in the lines of a block, if it is in one of its
texts. -/
theorem exists_mem_lines_iff {α : Type} {shown : α → String} {o : Outcome α} (hc : c ≠ '\n')
    (hmark : ∀ r, c ∉ (s.mark r).toList) :
    (∃ l ∈ (ofOutcome s shown o).lines, c ∈ l.toList) ↔ ∃ p ∈ parts s shown o, c ∈ p.2.toList := by
  have hpiece : ∀ t : String, c ∈ t.toList ↔ ∃ piece ∈ splitLines t, c ∈ piece.toList := by
    intro t
    rw [← mem_joinLines_iff hc, joinLines_splitLines]
  rw [lines_ofOutcome]
  constructor
  · rintro ⟨l, hl, hcl⟩
    obtain ⟨p, hp, hl⟩ := List.mem_flatMap.1 hl
    obtain ⟨piece, hmem, rfl⟩ := List.mem_map.1 hl
    rw [String.toList_append, List.mem_append] at hcl
    exact ⟨p, hp, (hpiece p.2).2 ⟨piece, hmem, hcl.resolve_left (hmark p.1)⟩⟩
  · rintro ⟨p, hp, hcp⟩
    obtain ⟨piece, hmem, hcpiece⟩ := (hpiece p.2).1 hcp
    refine ⟨s.mark p.1 ++ piece, List.mem_flatMap.2 ⟨p, hp, List.mem_map_of_mem hmem⟩, ?_⟩
    rw [String.toList_append]
    exact List.mem_append_right _ hcpiece

/-- The marks are the usual ones. -/
def UsualMarks (s : Settings) : Prop :=
  ∀ r, s.mark r = ({} : Settings).mark r

theorem exists_bytes_mark (hs : UsualMarks s) (r : Role) :
    ∃ w, bytes (s.mark r) = 45 :: 45 :: 32 :: w ∧ ∀ b ∈ w, Byte.isNewline b = false := by
  have hall : ∀ {w : Bytes}, (w.all fun b => !Byte.isNewline b) = true → ∀ b ∈ w, Byte.isNewline b = false :=
    fun h b hb => by simpa using List.all_eq_true.1 h b hb
  rw [hs r]
  cases r <;> exact ⟨_, rfl, hall (by decide)⟩

/-- A line behind a mark is a comment, if it has no line end. -/
theorem isComment_mark_append_iff (hs : UsualMarks s) (r : Role) (text : String) :
    IsComment (bytes (s.mark r ++ text)) ↔ '\n' ∉ text.toList ∧ '\r' ∉ text.toList := by
  obtain ⟨w, hw, hmark⟩ := exists_bytes_mark hs r
  rw [bytes_append, hw, List.cons_append, List.cons_append, List.cons_append, isComment_iff, ← no_newline_iff,
    List.forall_mem_append]
  exact and_iff_right hmark

/-- The lines of a block are comments, exactly if no text of the outcome has a carriage return. -/
theorem isComment_lines_iff (hs : UsualMarks s) (layout : Inspect.Layout) (store : Inspect.Store)
    (o : Outcome Inspect.Value) :
    (∀ l ∈ (ofOutcome s (Inspect.inspect layout store) o).lines, IsComment (bytes l)) ↔
      ∀ t ∈ o.texts, '\r' ∉ t.toList := by
  have hmark : ∀ r, '\r' ∉ (s.mark r).toList := by
    intro r
    rw [hs r]
    cases r <;> decide
  have hline : ∀ l ∈ (ofOutcome s (Inspect.inspect layout store) o).lines,
      (IsComment (bytes l) ↔ '\r' ∉ l.toList) := by
    intro l hl
    obtain ⟨r, text, piece, hpiece, rfl⟩ := exists_mark_of_mem_lines hl
    rw [isComment_mark_append_iff hs, String.toList_append, List.mem_append, or_iff_right (hmark r)]
    exact and_iff_right (not_mem_of_mem_splitLines hpiece)
  have hshown : ∀ v, '\r' ∉ (Inspect.inspect layout store v).toList := by
    intro v hv
    rcases Inspect.inspect_laid layout store v _ hv with h | h
    · exact absurd h (by decide)
    · exact absurd h (by decide)
  calc (∀ l ∈ (ofOutcome s (Inspect.inspect layout store) o).lines, IsComment (bytes l))
      ↔ ∀ l ∈ (ofOutcome s (Inspect.inspect layout store) o).lines, '\r' ∉ l.toList := forall₂_congr hline
    _ ↔ ¬ ∃ l ∈ (ofOutcome s (Inspect.inspect layout store) o).lines, '\r' ∈ l.toList := by simp
    _ ↔ ¬ ∃ p ∈ parts s (Inspect.inspect layout store) o, '\r' ∈ p.2.toList :=
      not_congr (exists_mem_lines_iff (by decide) hmark)
    _ ↔ ∀ t ∈ o.texts, '\r' ∉ t.toList := by
      constructor
      · intro h t ht hc
        obtain ⟨r, hr⟩ := exists_part (Inspect.inspect layout store) ht
        exact h ⟨_, hr, hc⟩
      · rintro h ⟨p, hp, hc⟩
        rcases mem_parts hp with ht | ht | ⟨v, hv⟩
        · exact h _ ht hc
        · rw [ht] at hc
          exact absurd hc (by decide)
        · rw [hv] at hc
          exact hshown v hc

/-- With the usual marks the lines of a block are comments, exactly if neither what was printed nor the message has a
carriage return; and then the block changes no token between two lines of code, unless it is put into a string or a
comment. -/
theorem lines_inert (hs : UsualMarks s) (layout : Inspect.Layout) (store : Inspect.Store) (o : Outcome Inspect.Value) :
    ((∀ l ∈ (ofOutcome s (Inspect.inspect layout store) o).lines, IsComment (bytes l)) ↔
      ∀ t ∈ o.texts, '\r' ∉ t.toList) ∧
    ((∀ t ∈ o.texts, '\r' ∉ t.toList) → ∀ before after, ¬ OpenAfter before →
      kinds (bytes (joinLines (before ++ (ofOutcome s (Inspect.inspect layout store) o).lines ++ after))) =
        kinds (bytes (joinLines (before ++ after)))) := by
  refine ⟨isComment_lines_iff hs layout store o, fun h before after hopen => ?_⟩
  exact kinds_insert ((isComment_lines_iff hs layout store o).2 h) hopen after

/-- A block in the middle of a call. -/
theorem lines_inert_in_call :
    let o : Outcome Inspect.Value := .success [.text "]]\r", .nil] ["[[", "f\n)"]
    let notes := (ofOutcome {} (Inspect.inspect {} fun _ => ⟨[], none⟩) o).lines
    UsualMarks {} ∧ (∀ t ∈ o.texts, '\r' ∉ t.toList) ∧ ¬ OpenAfter ["f("] ∧
      notes = ["-- print: [[", "-- print: f", "-- print: )", "-- => \"]]\\r\"", "--    nil"] ∧
      kinds (bytes (joinLines (["f("] ++ notes ++ ["1)"]))) = kinds (bytes (joinLines (["f("] ++ ["1)"]))) := by
  intro o notes
  have hs : UsualMarks {} := fun r => rfl
  have htexts : ∀ t ∈ o.texts, '\r' ∉ t.toList := by decide
  have hopen : ¬ OpenAfter ["f("] := not_openAfter (by decide +kernel)
  exact ⟨hs, htexts, hopen, by decide +kernel, (lines_inert hs {} (fun _ => ⟨[], none⟩) o).2 htexts ["f("] ["1)"] hopen⟩

/-- A carriage return that was printed ends the comment, and what was printed behind it is code. -/
theorem lines_not_inert_of_return :
    let notes := (ofOutcome {} (Inspect.inspect {} fun _ => ⟨[], none⟩) (.success [] ["a\rhacked = 1"])).lines
    notes = ["-- print: a\rhacked = 1"] ∧ ¬ OpenAfter ["f()"] ∧
      kinds (bytes (joinLines (["f()"] ++ notes ++ []))) ≠ kinds (bytes (joinLines (["f()"] ++ []))) :=
  ⟨by decide +kernel, not_openAfter (by decide +kernel), by decide +kernel⟩

end Block

end Scratchpad
