import Scratchpad.Settings.Draft

/-!
# Checked settings are valid

`Draft.validate` accepts only drafts whose settings are `Valid` (`valid_toSettings`).
-/

namespace Scratchpad

namespace Draft

variable {d : Draft}

theorem require_eq_ok {ok : Bool} {e : SettingsError} : require ok e = .ok () ↔ ok = true := by
  cases ok <;> simp [require]

/-- A check of all members of a list passes exactly if each of them passes. -/
theorem forM_eq_ok {α : Type} {l : List α} {f : α → Except SettingsError Unit} :
    l.forM f = .ok () ↔ ∀ a ∈ l, f a = .ok () := by
  induction l with
  | nil => exact ⟨(by simp), fun _ => rfl⟩
  | cons a as ih =>
    rw [List.forall_mem_cons, ← ih]
    change (f a >>= fun _ => as.forM f) = .ok () ↔ _
    cases f a with
    | error e => exact ⟨(by rintro ⟨⟩), (by rintro ⟨⟨⟩, -⟩)⟩
    | ok _ => exact ⟨fun h => ⟨rfl, h⟩, fun h => h.2⟩

theorem ok_of_bind {a b : Except SettingsError Unit} (h : (a >>= fun _ => b) = .ok ()) : a = .ok () ∧ b = .ok () := by
  cases a with
  | error e => cases h
  | ok _ => exact ⟨rfl, h⟩

/-- The option that holds the mark of a role. -/
def markKey : Role → OptionKey
  | .output => .outputMark
  | .result => .resultMark
  | .continuation => .continuationMark
  | .error => .errorMark

theorem mark_toSettings (r : Role) : d.toSettings.mark r = textOf (d.value (markKey r)) := by
  cases r <;> rfl

theorem markKey_mem (r : Role) : markKey r ∈ OptionKey.marks := by
  cases r <;> decide

theorem markKey_inj {r r' : Role} (h : markKey r = markKey r') : r = r' := by
  cases r <;> cases r' <;> first | rfl | cases h

/-- The settings of a draft that passes its checks are valid. -/
theorem valid_toSettings (h : d.validate = .ok ()) : d.toSettings.Valid := by
  obtain ⟨hmarks, h⟩ := ok_of_bind h
  obtain ⟨hshadow, h⟩ := ok_of_bind h
  obtain ⟨-, h⟩ := ok_of_bind h
  obtain ⟨-, h⟩ := ok_of_bind h
  obtain ⟨-, hname⟩ := ok_of_bind h
  refine ⟨fun r => ?_, fun r r' hne => ?_, ?_⟩
  · have hr := require_eq_ok.1 (forM_eq_ok.1 hmarks _ (markKey_mem r))
    rw [mark_toSettings]
    exact of_decide_eq_true hr
  · have hr := require_eq_ok.1 (forM_eq_ok.1 (forM_eq_ok.1 hshadow _ (markKey_mem r)) _ (markKey_mem r'))
    have hkey : markKey r ≠ markKey r' := fun e => hne (markKey_inj e)
    simp only [hkey, decide_false, Bool.false_or, Bool.not_eq_true'] at hr
    rw [mark_toSettings, mark_toSettings]
    exact hr
  · exact of_decide_eq_true (require_eq_ok.1 hname)

end Draft

/-- A draft that nobody has changed makes the settings that nobody has changed. -/
theorem Draft.toSettings_default : Draft.default.toSettings = {} := by
  decide +kernel

theorem Settings.valid_default : ({} : Settings).Valid := by
  rw [← Draft.toSettings_default]
  exact Draft.valid_toSettings (by rfl)

end Scratchpad
