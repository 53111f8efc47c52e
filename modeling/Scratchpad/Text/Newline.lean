/-!
# Ends of lines

Texts from other systems end their lines by a carriage return, alone or before a line feed. `unifyNewlines` leaves the
line feed as the only end of a line; a text without carriage returns is as it should be (`unifyNewlines_eq_self`), and
every unified text is one (`not_mem_unifyNewlines`).
-/

namespace Scratchpad.Text

/-- The text with a line feed at the end of every line. -/
def unifyNewlines : List Char → List Char
  | [] => []
  | '\r' :: '\n' :: r => '\n' :: unifyNewlines r
  | c :: r => (if c = '\r' then '\n' else c) :: unifyNewlines r

/-- A unified text holds no carriage return. -/
theorem not_mem_unifyNewlines (cs : List Char) : '\r' ∉ unifyNewlines cs := by
  fun_induction unifyNewlines cs with
  | case1 => simp
  | case2 r ih => simpa using ih
  | case3 c r _ ih =>
    by_cases h : c = '\r'
    · simpa [h] using ih
    · simpa [h, Ne.symm h] using ih

/-- A text without carriage returns stays as it is. -/
theorem unifyNewlines_eq_self {cs : List Char} (h : '\r' ∉ cs) : unifyNewlines cs = cs := by
  fun_induction unifyNewlines cs with
  | case1 => rfl
  | case2 r ih => simp at h
  | case3 c r _ ih =>
    have hc : c ≠ '\r' := fun e => h (by simp [e])
    simp [hc, ih fun hr => h (by simp [hr])]

end Scratchpad.Text
