import Scratchpad.Proofs.Inspect.Split
import Scratchpad.Proofs.Number.Text
import Scratchpad.Session

/-!
# Values that can be written

`inspect?` refuses a value in which an integer is met that is too long to be written. If neither the value nor any table
holds such an integer, it gives the text that `inspect` gives (`inspect?_eq_ok`). The integers of the language have 64
bits and are never too long. Main statement: everything that a session shows has a text (`Session.inspect?_shown`).
-/

namespace Scratchpad

namespace Inspect

variable {layout : Layout} {store : Store}

/-- The value is not an integer that is too long to be written. -/
def Value.isWritable : Value → Bool
  | int i => !Integer.isTooLong i
  | _ => true

/-- The values that a table holds are not integers that are too long to be written. -/
structure Table.Writable (t : Table) : Prop where
  entries : ∀ e ∈ t.entries, e.1.isWritable = true ∧ e.2.isWritable = true
  metatable : ∀ m, t.metatable = some m → m.isWritable = true

/-- No integer that is too long is met if the tables hold none. The induction is on the tables that may be opened. -/
theorem refusesAt_eq_false (hstore : ∀ id, (store id).Writable) {room : ℕ} {path : List ℕ} {v : Value}
    (hv : v.isWritable = true) : refusesAt layout store room path v = false := by
  induction room generalizing path v with
  | zero =>
    unfold refusesAt
    split
    · simpa [Value.isWritable] using hv
    · simp
    · rfl
  | succ room ih =>
    unfold refusesAt
    split
    · simpa [Value.isWritable] using hv
    · rename_i r
      have hvalues : ∀ w ∈ (splitEntries (store r.id).entries).1, w.isWritable = true := by
        intro w hw
        obtain ⟨e, he, rfl⟩ := exists_entry_of_mem_sequence hw
        exact ((hstore r.id).entries e he).2
      have hkeyed : ∀ e ∈ (splitEntries (store r.id).entries).2, e.1.isWritable = true ∧ e.2.isWritable = true :=
        fun e he => (hstore r.id).entries e (mem_keyed_iff.1 he).1
      split
      · rfl
      · split
        · rfl
        · simp only [Bool.or_eq_false_iff, List.any_eq_false, Bool.not_eq_true]
          refine ⟨⟨fun w hw => ih (hvalues w hw), fun e he => ⟨ih (hkeyed e he).1, ih (hkeyed e he).2⟩⟩, ?_⟩
          cases hm : (store r.id).metatable with
          | none => rfl
          | some m => exact ih ((hstore r.id).metatable m hm)
    · rfl

theorem inspect?_eq_ok (hstore : ∀ id, (store id).Writable) {v : Value} (hv : v.isWritable = true) :
    inspect? layout store v = .ok (inspect layout store v) :=
  if_neg (Bool.eq_false_iff.1 (refusesAt_eq_false hstore hv))

end Inspect

/-! ## Values of the language -/

theorem isTooLong_toInt (n : Int64) : Integer.isTooLong n.toInt = false := by
  have hbits : n.toInt.natAbs < 10 ^ 19 := by
    have hlt := n.toInt_lt
    have hle := n.le_toInt
    omega
  exact isTooLong_eq_false_iff.2 (hbits.trans_le (Nat.pow_le_pow_right (by decide) (by decide)))

namespace Interpreter

variable (i : Interpreter)

theorem isWritable_shown (v : Lua.Value) : (i.shown v).isWritable = true := by
  unfold shown
  cases i.outward v with
  | int n => exact congrArg Bool.not (isTooLong_toInt n)
  | str s =>
    unfold Inspect.Value.ofBytes
    dsimp only
    split <;> rfl
  | _ => rfl

theorem writable_shownTable (id : ℕ) : (i.shownTable id).Writable where
  entries := by
    intro e he
    obtain ⟨f, -, rfl⟩ := List.mem_map.1 he
    exact ⟨i.isWritable_shown _, i.isWritable_shown _⟩
  metatable := by
    intro m hm
    unfold shownTable at hm
    dsimp only at hm
    split at hm
    · cases hm
    · obtain rfl := Option.some.inj hm
      exact i.isWritable_shown _

end Interpreter

/-- Everything that a session shows has a text. -/
theorem Session.inspect?_shown (s : Session) (v : Lua.Value) :
    Inspect.inspect? (.ofSettings s.settings) s.interpreter.shownTable (s.interpreter.shown v) =
      .ok (s.shownText (s.interpreter.shown v)) :=
  Inspect.inspect?_eq_ok s.interpreter.writable_shownTable (s.interpreter.isWritable_shown v)

end Scratchpad
