import Scratchpad.Proofs.Region
import Scratchpad.Session

/-!
# Regions among lines

The region of a command ends with the last line of code among some lines: those of the surface (`surfaceRegion?`) or
those of the paragraph around a line (`blockRegion?`). Main statements: both are known by the lines before, in and
behind the region (`surfaceRegion?_cases`, `blockRegion?_eq_some`, `blockRegion?_append`), and what a run puts behind a
region leaves it as it is (`idle_behindRun`, `Parted.behindRun`).
-/

namespace Scratchpad

variable {s : Settings}

/-! ## The end of the code -/

/-- A line with nothing to evaluate. -/
def Settings.isIdle (s : Settings) (line : String) : Bool :=
  Text.isBlank line || s.isNote line

/-- The code among some lines ends with the last one that is not idle. -/
theorem codeEnd?_append {code rest : List String} {l : String} (hl : s.isIdle l = false)
    (hrest : ∀ x ∈ rest, s.isIdle x = true) (first : Nat) :
    Session.codeEnd? s (code ++ l :: rest) first = some (first + code.length) := by
  have hrev : (code ++ l :: rest).reverse = rest.reverse ++ l :: code.reverse := by simp
  have hdrop : (code ++ l :: rest).reverse.dropWhile s.isIdle = l :: code.reverse := by
    rw [hrev, List.dropWhile_append_of_pos fun x hx => hrest x (List.mem_reverse.1 hx)]
    exact List.dropWhile_cons_of_neg (by simp [hl])
  rw [Session.codeEnd?, show (fun l => Text.isBlank l || s.isNote l) = s.isIdle from rfl, hdrop]
  simp only [List.length_cons, List.length_reverse, Nat.add_eq_zero_iff, Nat.one_ne_zero, and_false, if_false]
  congr 1

theorem codeEnd?_cases (lines : List String) (first : Nat) :
    (Session.codeEnd? s lines first = none ∧ ∀ l ∈ lines, s.isIdle l = true) ∨
      ∃ code l rest, lines = code ++ l :: rest ∧ s.isIdle l = false ∧ (∀ x ∈ rest, s.isIdle x = true) ∧
        Session.codeEnd? s lines first = some (first + code.length) := by
  rcases hdrop : lines.reverse.dropWhile s.isIdle with _ | ⟨l, front⟩
  · refine .inl ⟨?_, fun l hl => ?_⟩
    · rw [Session.codeEnd?, show (fun l => Text.isBlank l || s.isNote l) = s.isIdle from rfl, hdrop]
      rfl
    · have hall := List.takeWhile_append_dropWhile (p := s.isIdle) (l := lines.reverse)
      rw [hdrop, List.append_nil] at hall
      exact List.all_eq_true.1 List.all_takeWhile l (hall ▸ List.mem_reverse.2 hl)
  · have hlines : lines = front.reverse ++ l :: (lines.reverse.takeWhile s.isIdle).reverse := by
      have hsplit := List.takeWhile_append_dropWhile (p := s.isIdle) (l := lines.reverse)
      rw [hdrop] at hsplit
      simpa using (congrArg List.reverse hsplit).symm
    have hl : s.isIdle l = false := by
      have hhead := List.head?_dropWhile_not s.isIdle lines.reverse
      rw [hdrop] at hhead
      simpa using hhead
    have hrest : ∀ x ∈ (lines.reverse.takeWhile s.isIdle).reverse, s.isIdle x = true := fun x hx =>
      List.all_eq_true.1 List.all_takeWhile x (List.mem_reverse.1 hx)
    refine .inr ⟨front.reverse, l, _, hlines, hl, hrest, ?_⟩
    rw [hlines]
    exact codeEnd?_append hl hrest first

/-! ## Paragraphs -/

/-- No paragraph goes on with these lines. -/
def StartsBlank (lines : List String) : Prop :=
  lines.head?.all Text.isBlank = true

theorem inkRun_append {ink rest : List String} (hink : ∀ l ∈ ink, Text.isBlank l = false) (hrest : StartsBlank rest) :
    inkRun (ink ++ rest) = ink.length := by
  have hnone : rest.takeWhile (fun l => !Text.isBlank l) = [] := by
    cases rest with
    | nil => rfl
    | cons l rest =>
      have hl : Text.isBlank l = true := by simpa [StartsBlank] using hrest
      simp [hl]
  rw [inkRun, List.takeWhile_append_of_pos (by simpa using hink), hnone, List.append_nil]

/-- The lines between two blank ones are a paragraph. -/
theorem paragraph?_append {before ink after : List String} {n : Nat} (hbefore : StartsBlank before.reverse)
    (hink : ∀ l ∈ ink, Text.isBlank l = false) (hafter : StartsBlank after) (hn : n < ink.length) :
    paragraph? (before ++ (ink ++ after)) (before.length + n : Nat) =
      some (before.length, before.length + ink.length - 1) := by
  have hget : (before ++ (ink ++ after))[before.length + n]? = some ink[n] := by
    rw [List.getElem?_append_right (by omega), Nat.add_sub_cancel_left, List.getElem?_append_left hn,
      List.getElem?_eq_getElem hn]
  have htake : (before ++ (ink ++ after)).take (before.length + n) = before ++ ink.take n := by
    rw [List.take_append, List.take_of_length_le (by omega), Nat.add_sub_cancel_left,
      List.take_append_of_le_length (by omega)]
  have hdrop : (before ++ (ink ++ after)).drop (before.length + n + 1) = ink.drop (n + 1) ++ after := by
    rw [List.drop_append, List.drop_eq_nil_of_le (by omega), List.nil_append, Nat.add_assoc, Nat.add_sub_cancel_left,
      List.drop_append_of_le_length (by omega)]
  have hup : inkRun (before ++ ink.take n).reverse = n := by
    rw [List.reverse_append, inkRun_append (fun l hl => hink l (List.mem_of_mem_take (List.mem_reverse.1 hl))) hbefore,
      List.length_reverse, List.length_take, Nat.min_eq_left (by omega)]
  have hdown : inkRun (ink.drop (n + 1) ++ after) = ink.length - (n + 1) := by
    rw [inkRun_append (fun l hl => hink l (List.mem_of_mem_drop hl)) hafter, List.length_drop]
  have hblank : Text.isBlank ink[n] = false := hink _ (List.getElem_mem hn)
  have hneg : ¬ ((before.length + n : Nat) : Int) < 0 := by omega
  simp only [paragraph?, hneg, if_false, Int.toNat_natCast, hget, hblank, Bool.false_eq_true, htake, hdrop, hup, hdown]
  congr 2
  · omega
  · omega

/-- The part of a paragraph at the front of some lines. -/
theorem exists_ink_after (lines : List String) : ∃ ink after, lines = ink ++ after ∧
    (∀ l ∈ ink, Text.isBlank l = false) ∧ StartsBlank after ∧ inkRun lines = ink.length := by
  refine ⟨lines.takeWhile fun l => !Text.isBlank l, lines.dropWhile fun l => !Text.isBlank l,
    List.takeWhile_append_dropWhile.symm, fun l hl => ?_, ?_, rfl⟩
  · simpa using List.all_eq_true.1 List.all_takeWhile l hl
  · have hhead := List.head?_dropWhile_not (fun l => !Text.isBlank l) lines
    unfold StartsBlank
    cases h : (lines.dropWhile fun l => !Text.isBlank l).head? with
    | none => rfl
    | some l =>
      rw [h] at hhead
      simpa using hhead

/-- The part of a paragraph at the end of some lines. -/
theorem exists_ink_before (lines : List String) : ∃ before ink, lines = before ++ ink ∧ StartsBlank before.reverse ∧
    (∀ l ∈ ink, Text.isBlank l = false) ∧ inkRun lines.reverse = ink.length := by
  obtain ⟨ink, after, hlines, hink, hafter, hrun⟩ := exists_ink_after lines.reverse
  refine ⟨after.reverse, ink.reverse, ?_, by rwa [List.reverse_reverse], fun l hl => hink l (List.mem_reverse.1 hl), ?_⟩
  · rw [← List.reverse_append, ← hlines, List.reverse_reverse]
  · rw [hrun, List.length_reverse]

/-- A paragraph stands between two blank lines. -/
theorem paragraph?_eq_some {lines : List String} {cursor : Int} {first last : Nat}
    (h : paragraph? lines cursor = some (first, last)) :
    ∃ before ink after n, lines = before ++ (ink ++ after) ∧ StartsBlank before.reverse ∧
      (∀ l ∈ ink, Text.isBlank l = false) ∧ StartsBlank after ∧ n < ink.length ∧
      cursor = (before.length + n : Nat) ∧ first = before.length ∧ last + 1 = before.length + ink.length := by
  unfold paragraph? at h
  split at h
  · cases h
  · rename_i hneg
    dsimp only at h
    cases hget : lines[cursor.toNat]? with
    | none => simp [hget] at h
    | some line =>
      simp only [hget] at h
      split at h
      · cases h
      · rename_i hblank
        obtain ⟨rfl, rfl⟩ := Prod.mk.inj (Option.some.inj h)
        obtain ⟨hc, rfl⟩ := List.getElem?_eq_some_iff.1 hget
        obtain ⟨before, up, htake, hbefore, hup, huprun⟩ := exists_ink_before (lines.take cursor.toNat)
        obtain ⟨down, after, hdrop, hdown, hafter, hdownrun⟩ := exists_ink_after (lines.drop (cursor.toNat + 1))
        have hlen : cursor.toNat = before.length + up.length := by
          have htakelen := congrArg List.length htake
          rw [List.length_take, Nat.min_eq_left (Nat.le_of_lt hc), List.length_append] at htakelen
          exact htakelen
        rw [huprun, hdownrun]
        refine ⟨before, up ++ lines[cursor.toNat] :: down, after, up.length, ?_, hbefore, fun l hl => ?_, hafter, by simp,
          by omega, by omega, ?_⟩
        · conv => lhs; rw [← List.take_append_drop cursor.toNat lines, List.drop_eq_getElem_cons hc, htake, hdrop]
          simp
        · rcases List.mem_append.1 hl with hl | hl
          · exact hup l hl
          · rcases List.mem_cons.1 hl with rfl | hl
            · simpa using hblank
            · exact hdown l hl
        · rw [List.length_append, List.length_cons]
          omega

/-! ## The regions of the commands -/

/-- The part of the lines from `first` to `last` that is evaluated. -/
def codeRegion? (s : Settings) (lines : List String) (first last : Nat) : Option (Nat × Nat) :=
  (Session.codeEnd? s ((lines.take (last + 1)).drop first) first).map fun c => (first, c)

/-- The part of the paragraph around a line that is evaluated. -/
def blockRegion? (s : Settings) (lines : List String) (line : Int) : Option (Nat × Nat) :=
  (paragraph? lines line).bind fun r => codeRegion? s lines r.1 r.2

/-- The part of all lines that is evaluated. -/
def surfaceRegion? (s : Settings) (lines : List String) : Option (Nat × Nat) :=
  codeRegion? s lines 0 (lines.length - 1)

theorem surfaceRegion?_append {code rest : List String} {l : String} (hl : s.isIdle l = false)
    (hrest : ∀ x ∈ rest, s.isIdle x = true) : surfaceRegion? s (code ++ l :: rest) = some (0, code.length) := by
  have hlen : (code ++ l :: rest).length ≤ (code ++ l :: rest).length - 1 + 1 := by omega
  rw [surfaceRegion?, codeRegion?, List.take_of_length_le hlen, List.drop_zero, codeEnd?_append hl hrest, Nat.zero_add,
    Option.map_some]

theorem surfaceRegion?_cases (lines : List String) :
    surfaceRegion? s lines = none ∨ ∃ code l rest, lines = code ++ l :: rest ∧ s.isIdle l = false ∧
      (∀ x ∈ rest, s.isIdle x = true) ∧ surfaceRegion? s lines = some (0, code.length) := by
  have hall : (lines.take (lines.length - 1 + 1)).drop 0 = lines := by
    rw [List.take_of_length_le (by omega), List.drop_zero]
  rw [surfaceRegion?, codeRegion?, hall]
  rcases codeEnd?_cases (s := s) lines 0 with ⟨hnone, -⟩ | ⟨code, l, rest, hlines, hl, hrest, hsome⟩
  · exact .inl (by rw [hnone, Option.map_none])
  · exact .inr ⟨code, l, rest, hlines, hl, hrest, by rw [hsome, Option.map_some, Nat.zero_add]⟩

/-- Notes, and behind them no further line of the paragraph. -/
def Parted (s : Settings) (rest : List String) : Prop :=
  ∃ notes after, rest = notes ++ after ∧ (∀ l ∈ notes, s.isNote l = true) ∧ StartsBlank after

/-- Every mark has a character that is no white space. -/
def Settings.Inked (s : Settings) : Prop :=
  ∀ r, Text.isBlank (s.mark r) = false

/-- A note is never blank. -/
theorem Settings.Inked.not_isBlank (h : s.Inked) {l : String} (hl : s.isNote l = true) : Text.isBlank l = false := by
  obtain ⟨-, hmark⟩ := Bool.and_eq_true_iff.1 hl
  obtain ⟨r, -, hr⟩ := List.any_eq_true.1 hmark
  obtain ⟨-, hstart⟩ := Bool.and_eq_true_iff.1 hr
  obtain ⟨tail, htail⟩ := List.isPrefixOf_iff_prefix.1 hstart
  have hr := h r
  rw [Text.isBlank] at hr ⊢
  rw [← htail, List.all_append, hr, Bool.false_and]

/-- The paragraph of a region: what is before it, the code in it, and notes behind the code. -/
theorem blockRegion?_append {before code rest : List String} {l : String} {n : Nat} (hmarks : s.Inked)
    (hbefore : StartsBlank before.reverse) (hcode : ∀ x ∈ code ++ [l], Text.isBlank x = false) (hl : s.isIdle l = false)
    (hrest : Parted s rest) (hn : n < (code ++ [l]).length) :
    blockRegion? s (before ++ ((code ++ [l]) ++ rest)) (before.length + n : Nat) =
      some (before.length, before.length + code.length) := by
  obtain ⟨notes, after, rfl, hnotes, hafter⟩ := hrest
  have hink : ∀ x ∈ (code ++ [l]) ++ notes, Text.isBlank x = false := by
    intro x hx
    rcases List.mem_append.1 hx with hx | hx
    · exact hcode x hx
    · exact hmarks.not_isBlank (hnotes x hx)
  have hpar := paragraph?_append hbefore hink hafter (n := n) (by rw [List.length_append]; omega)
  rw [List.append_assoc (code ++ [l])] at hpar
  have hlines : ((before ++ ((code ++ [l]) ++ (notes ++ after))).take
      (before.length + ((code ++ [l]) ++ notes).length - 1 + 1)).drop before.length = code ++ l :: notes := by
    have hlen : before.length + ((code ++ [l]) ++ notes).length - 1 + 1 = (before ++ ((code ++ [l]) ++ notes)).length := by
      simp only [List.length_append, List.length_cons, List.length_nil]
      omega
    have hassoc : before ++ ((code ++ [l]) ++ (notes ++ after)) = (before ++ ((code ++ [l]) ++ notes)) ++ after := by simp
    rw [hlen, hassoc, List.take_left, List.drop_left]
    simp
  rw [blockRegion?, hpar, Option.bind_some, codeRegion?, hlines,
    codeEnd?_append hl fun x hx => by rw [Settings.isIdle, hnotes x hx, Bool.or_true]]
  rfl

/-- A region that begins before the cursor's line and ends behind it, in its paragraph. -/
theorem blockRegion?_eq_some {lines : List String} {line : Int} {first last : Nat}
    (h : blockRegion? s lines line = some (first, last)) (hline : line ≤ last) :
    ∃ before code l rest n, lines = before ++ ((code ++ [l]) ++ rest) ∧ StartsBlank before.reverse ∧
      (∀ x ∈ code ++ [l], Text.isBlank x = false) ∧ s.isIdle l = false ∧ Parted s rest ∧ n < (code ++ [l]).length ∧
      line = (before.length + n : Nat) ∧ first = before.length ∧ last = before.length + code.length := by
  obtain ⟨⟨a, b⟩, hpar, hregion⟩ := Option.bind_eq_some_iff.1 h
  obtain ⟨before, ink, after, n, rfl, hbefore, hink, hafter, hn, rfl, rfl, hb⟩ := paragraph?_eq_some hpar
  have hlines : ((before ++ (ink ++ after)).take (b + 1)).drop before.length = ink := by
    have hassoc : before ++ (ink ++ after) = (before ++ ink) ++ after := by simp
    rw [hb, ← List.length_append, hassoc, List.take_left, List.drop_left]
  obtain ⟨c, hend, hc⟩ := Option.map_eq_some_iff.1 hregion
  obtain ⟨rfl, rfl⟩ := Prod.mk.inj hc
  dsimp only at hend
  rw [hlines] at hend
  rcases codeEnd?_cases (s := s) ink before.length with ⟨hnone, -⟩ | ⟨code, l, notes, rfl, hl, hnotes, hsome⟩
  · rw [hnone] at hend
    cases hend
  · obtain rfl := Option.some.inj (hsome.symm.trans hend)
    have hcode : code ++ l :: notes = (code ++ [l]) ++ notes := by simp
    rw [hcode] at hink
    refine ⟨before, code, l, notes ++ after, n, by simp, hbefore, fun x hx => hink x (List.mem_append_left _ hx), hl,
      ⟨notes, after, rfl, fun x hx => ?_, hafter⟩, ?_, rfl, rfl, rfl⟩
    · have hx' := hnotes x hx
      rwa [Settings.isIdle, hink x (List.mem_append_right _ hx), Bool.false_or] at hx'
    · rw [List.length_append, List.length_singleton]
      omega

/-! ## What a run puts behind a region -/

theorem startsBlank_trail (hmarks : s.Inked) {after : List String} (h : StartsBlank after) :
    StartsBlank (trail s (afterStale s after)) := by
  cases hsep : s.separate with
  | true =>
    rcases hhead : (afterStale s after).head?.any Text.isBlank with _ | _
    · rw [trail_of_ink hsep hhead]
      rfl
    · rw [trail_of_blank hhead]
      cases hafter : afterStale s after with
      | nil => rfl
      | cons l r => simpa [hafter, StartsBlank] using hhead
  | false =>
    have hstay : afterStale s after = after := by
      cases after with
      | nil => rfl
      | cons l r =>
        have hl : Text.isBlank l = true := by simpa [StartsBlank] using h
        have hnote : s.isNote l = false := by
          rw [Bool.eq_false_iff]
          exact fun hnote => Bool.false_ne_true ((hmarks.not_isBlank hnote).symm.trans hl)
        simp [afterStale, staleLength, hsep, hnote]
    rwa [trail_of_not_separate hsep, hstay]

/-- The block of a run is a part of the paragraph, and so is nothing behind it. -/
theorem Parted.behindRun (hmarks : s.Inked) {rest notes : List String} (h : Parted s rest)
    (hnotes : ∀ l ∈ notes, s.isNote l = true) : Parted s (behindRun s notes rest) := by
  obtain ⟨old, after, rfl, hold, hafter⟩ := h
  rw [behindRun_eq, afterStale_notes_append hold]
  exact ⟨notes, _, rfl, hnotes, startsBlank_trail hmarks hafter⟩

/-- A run puts nothing behind a region but idle lines. -/
theorem idle_behindRun {rest notes : List String} (h : ∀ l ∈ rest, s.isIdle l = true)
    (hnotes : ∀ l ∈ notes, s.isNote l = true) : ∀ l ∈ behindRun s notes rest, s.isIdle l = true := by
  intro l hl
  rw [behindRun_eq, trail, List.mem_append, List.mem_append] at hl
  rcases hl with hl | hl | hl
  · rw [Settings.isIdle, hnotes l hl, Bool.or_true]
  · have hempty : l = "" := by
      unfold separatorFor at hl
      split at hl
      · exact List.mem_singleton.1 hl
      · cases hl
    rw [hempty]
    rfl
  · exact h l (List.mem_of_mem_drop hl)

end Scratchpad
