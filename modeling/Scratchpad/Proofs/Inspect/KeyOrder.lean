import Mathlib.Data.Char
import Mathlib.Data.List.Lex
import Mathlib.Data.List.Sort
import Mathlib.Data.Prod.Lex
import Mathlib.Data.Sum.Order
import Scratchpad.Proofs.Inspect.Split
import Scratchpad.Proofs.Number.Order

/-!
# The order of the keys of a table

An ordinary key is a number that is not NaN, a string or a truth value. It has a place among all of them: numbers by
their exact values, then strings by their texts, then truth values. References stand behind them. Main statements: keys
are compared by their places (`keyLt_iff`, `keyLt_iff_sortPlace`), the entries with keys are sorted by them
(`keyed_eq_mergeSort`, `pairwise_keyed`), and two tables with the same ordinary keys, which have different places, have
them in the same order (`keys_keyed_eq`, `length_sequence_eq`).
-/

namespace Scratchpad.Inspect

/-! ## Places -/

/-- Where a key stands among all keys. -/
abbrev KeyPlace := ExactValue ⊕ₗ List Char ⊕ₗ Bool

/-- The exact value of a number that is not NaN. -/
def Value.exactValue? : Value → Option ExactValue
  | int i => some (.ofRat i)
  | float x => if x.isNaN then none else some x.exactValue
  | _ => none

/-- The place of an ordinary key; any other value is in front of them. -/
def Value.place : Value → WithBot KeyPlace
  | int i => ((Sum.inlₗ (.ofRat i) : KeyPlace) : WithBot KeyPlace)
  | float x => if x.isNaN then ⊥ else ((Sum.inlₗ x.exactValue : KeyPlace) : WithBot KeyPlace)
  | text s => ((Sum.inrₗ (Sum.inlₗ s.toList) : KeyPlace) : WithBot KeyPlace)
  | bytes bs => ((Sum.inrₗ (Sum.inlₗ (Text.Utf8.decodeLossy bs)) : KeyPlace) : WithBot KeyPlace)
  | bool b => ((Sum.inrₗ (Sum.inrₗ b) : KeyPlace) : WithBot KeyPlace)
  | nil => ⊥
  | ref _ => ⊥

/-- The keys are ordinary, and no two of them have the same place. -/
structure Ordinary (entries : List (Value × Value)) : Prop where
  ne_bot : ∀ e ∈ entries, e.1.place ≠ ⊥
  nodup : (entries.map fun e => e.1.place).Nodup

variable {a b : Value} {entries entries' : List (Value × Value)}

theorem exactValue?_float {f : Binary64} {x : ExactValue} (h : (Value.float f).exactValue? = some x) :
    f.isNaN = false ∧ f.exactValue = x := by
  rw [Value.exactValue?] at h
  split at h
  · cases h
  · exact ⟨by simpa using ‹¬ f.isNaN = true›, Option.some.inj h⟩

/-- Numbers are compared by their exact values. -/
theorem numberLt_iff {x y : ExactValue} (ha : a.exactValue? = some x) (hb : b.exactValue? = some y) :
    a.numberLt b = true ↔ x < y := by
  cases a <;> cases b <;> try contradiction
  case int.int i j =>
    cases ha
    cases hb
    rw [ExactValue.ofRat_lt_ofRat, Int.cast_lt]
    exact decide_eq_true_iff
  case int.float i f =>
    cases ha
    obtain ⟨hf, rfl⟩ := exactValue?_float hb
    simp [Value.numberLt, hf, Binary64.compareInt_eq_gt_iff]
  case float.int f j =>
    cases hb
    obtain ⟨hf, rfl⟩ := exactValue?_float ha
    simp [Value.numberLt, hf, Binary64.compareInt_eq_lt_iff]
  case float.float f g =>
    obtain ⟨hf, rfl⟩ := exactValue?_float ha
    obtain ⟨hg, rfl⟩ := exactValue?_float hb
    exact Binary64.lt_iff hf hg

/-- The forms of ordinary keys, with their places. -/
inductive Placed : Value → KeyPlace → Prop where
  | number {a : Value} {x : ExactValue} (h : a.exactValue? = some x) (hrank : a.rank = 0) : Placed a (Sum.inlₗ x)
  | string {a : Value} (hrank : a.rank = 1) : Placed a (Sum.inrₗ (Sum.inlₗ a.sortText))
  | truth (t : Bool) : Placed (.bool t) (Sum.inrₗ (Sum.inrₗ t))

theorem exists_placed (h : a.place ≠ ⊥) : ∃ p : KeyPlace, a.place = p ∧ Placed a p := by
  cases a with
  | int i => exact ⟨_, rfl, .number rfl rfl⟩
  | float f =>
    by_cases hnan : f.isNaN = true
    · exact absurd (if_pos hnan) h
    · exact ⟨_, if_neg hnan, .number (if_neg hnan) rfl⟩
  | text s => exact ⟨_, rfl, .string rfl⟩
  | bytes bs => exact ⟨_, rfl, .string rfl⟩
  | bool t => exact ⟨_, rfl, .truth t⟩
  | _ => exact absurd rfl h

theorem isScalar_of_place (h : a.place ≠ ⊥) : a.isScalar = true := by
  cases a <;> first | rfl | exact absurd rfl h

theorem sameRankLt_of_number (h : a.rank = 0) : a.sameRankLt b = a.numberLt b := by
  cases a <;> first | rfl | cases h

theorem sameRankLt_of_string (h : a.rank = 1) : a.sameRankLt b = decide (a.sortText < b.sortText) := by
  cases a <;> first | rfl | cases h

/-- Ordinary keys are compared by their places. -/
theorem keyLt_iff (ha : a.place ≠ ⊥) (hb : b.place ≠ ⊥) : a.keyLt b = true ↔ a.place < b.place := by
  have hranks : ∀ {r s : Nat}, a.rank = r → b.rank = s →
      (a.keyLt b = true ↔ r < s ∨ r = s ∧ a.sameRankLt b = true) := by
    rintro r s rfl rfl
    simp [Value.keyLt]
  have htruth : ∀ t, (Value.bool t).rank = 2 := fun _ => rfl
  obtain ⟨p, hp, hpa⟩ := exists_placed ha
  obtain ⟨q, hq, hqb⟩ := exists_placed hb
  rw [hp, hq, WithBot.coe_lt_coe]
  cases hpa with
  | number hx ha =>
    cases hqb with
    | number hy hb =>
      rw [hranks ha hb, sameRankLt_of_number ha, numberLt_iff hx hy]
      simp
    | string hb => simp [hranks ha hb]
    | truth u => simp [hranks ha (htruth u)]
  | string ha =>
    cases hqb with
    | number hy hb => simp [hranks ha hb]
    | string hb => simp [hranks ha hb, sameRankLt_of_string ha]
    | truth u => simp [hranks ha (htruth u)]
  | truth t =>
    cases hqb with
    | number hy hb => simp [hranks (htruth t) hb]
    | string hb => simp [hranks (htruth t) hb]
    | truth u => cases t <;> cases u <;> simp [hranks (htruth _) (htruth _), Value.sameRankLt]

/-! ## The order of all keys -/

/-- The key is a number that is not NaN, a string or a truth value. -/
def Value.isOrdinary : Value → Bool
  | float x => !x.isNaN
  | nil => false
  | ref _ => false
  | _ => true

theorem place_ne_bot_iff : a.place ≠ ⊥ ↔ a.isOrdinary = true := by
  cases a with
  | float x => cases hx : x.isNaN <;> simp [Value.place, Value.isOrdinary, hx]
  | _ => simp [Value.place, Value.isOrdinary]

/-- The value can be a key of a table: it is not nil and not NaN. -/
def Value.isKey : Value → Bool
  | nil => false
  | float x => !x.isNaN
  | _ => true

/-- The place of a reference: objects are ordered by their numbers, and those with the same number by their kinds. -/
def Ref.place (r : Ref) : ℕ ×ₗ ℕ :=
  toLex (r.id, r.kind.index)

/-- The place of a key among all keys: references stand behind the ordinary ones. -/
def Value.sortPlace : Value → WithBot KeyPlace ⊕ₗ ℕ ×ₗ ℕ
  | ref r => Sum.inrₗ r.place
  | v => Sum.inlₗ v.place

theorem sortPlace_of_place (h : a.place ≠ ⊥) : a.sortPlace = Sum.inlₗ a.place := by
  cases a <;> first | rfl | exact absurd rfl h

theorem isKey_of_place (h : a.place ≠ ⊥) : a.isKey = true := by
  cases a <;> first | rfl | exact place_ne_bot_iff.1 h

theorem rank_lt_of_place (h : a.place ≠ ⊥) : a.rank < 3 := by
  obtain ⟨p, -, hp⟩ := exists_placed h
  cases hp with
  | number _ hrank => omega
  | string hrank => omega
  | truth t => exact Nat.lt_succ_self 2

/-- A key is ordinary or a reference. -/
theorem place_ne_bot_or_ref (h : a.isKey = true) : a.place ≠ ⊥ ∨ ∃ r, a = .ref r := by
  cases a with
  | nil => cases h
  | ref r => exact .inr ⟨r, rfl⟩
  | _ => exact .inl (place_ne_bot_iff.2 h)

/-- Keys are compared by their places among all keys. -/
theorem keyLt_iff_sortPlace (ha : a.isKey = true) (hb : b.isKey = true) :
    a.keyLt b = true ↔ a.sortPlace < b.sortPlace := by
  have href : ∀ r, (Value.ref r).rank = 3 ∧ (Value.ref r).sortPlace = Sum.inrₗ r.place := fun _ => ⟨rfl, rfl⟩
  rcases place_ne_bot_or_ref ha with ha | ⟨r, rfl⟩ <;> rcases place_ne_bot_or_ref hb with hb | ⟨s, rfl⟩
  · rw [sortPlace_of_place ha, sortPlace_of_place hb, Sum.Lex.inl_lt_inl_iff, keyLt_iff ha hb]
  · have hrank := rank_lt_of_place ha
    rw [sortPlace_of_place ha, (href s).2]
    simp [Value.keyLt, href, hrank]
  · have hrank := rank_lt_of_place hb
    rw [sortPlace_of_place hb, (href r).2]
    simp [Value.keyLt, href]
    omega
  · rw [(href r).2, (href s).2, Sum.Lex.inr_lt_inr_iff]
    simp [Value.keyLt, Value.sameRankLt, href, Ref.place, Prod.Lex.toLex_lt_toLex]

/-! ## The order of the entries with keys -/

section Sorting

variable {α β : Type} [LinearOrder β] (f : α → β)

theorem decide_le_trans (a b c : α) (hab : decide (f a ≤ f b) = true) (hbc : decide (f b ≤ f c) = true) :
    decide (f a ≤ f c) = true :=
  decide_eq_true (le_trans (of_decide_eq_true hab) (of_decide_eq_true hbc))

theorem decide_le_total (a b : α) : (decide (f a ≤ f b) || decide (f b ≤ f a)) = true := by
  simpa using le_total (f a) (f b)

/-- Sorting by `f` puts elements in the order of `f`. -/
theorem pairwise_mergeSort_by (l : List α) :
    (l.mergeSort fun a b => decide (f a ≤ f b)).Pairwise fun a b => f a ≤ f b :=
  (List.pairwise_mergeSort (decide_le_trans f) (decide_le_total f) l).imp of_decide_eq_true

/-- Sorting by `f` keeps the elements with the same value of `f` as they were. -/
theorem filter_mergeSort_by (l : List α) (p : β) :
    (l.mergeSort fun a b => decide (f a ≤ f b)).filter (fun a => decide (f a = p)) =
      l.filter fun a => decide (f a = p) := by
  have hequal : (l.filter fun a => decide (f a = p)).Pairwise fun a b => decide (f a ≤ f b) = true := by
    refine List.pairwise_of_forall_mem_list fun a ha b hb => ?_
    have hab : f a = f b := by
      rw [of_decide_eq_true (List.mem_filter.1 ha).2, of_decide_eq_true (List.mem_filter.1 hb).2]
    exact decide_eq_true hab.le
  have hsublist := List.sublist_mergeSort (decide_le_trans f) (decide_le_total f) hequal List.filter_sublist
  have hfilter := hsublist.filter fun a => decide (f a = p)
  simp only [List.filter_filter, Bool.and_self] at hfilter
  exact (hfilter.eq_of_length ((List.mergeSort_perm l _).filter _).length_eq.symm).symm

end Sorting

/-- The entries with keys are sorted by the places of their keys. -/
theorem keyed_eq_mergeSort (h : ∀ e ∈ entries, e.1.isKey = true) : (splitEntries entries).2 =
    (unsorted entries (splitEntries entries).1.length).mergeSort
      fun e f => decide (e.1.sortPlace ≤ f.1.sortPlace) := by
  have hcompare : ∀ e ∈ unsorted entries (splitEntries entries).1.length,
      ∀ f ∈ unsorted entries (splitEntries entries).1.length,
        (!f.1.keyLt e.1) = decide (e.1.sortPlace ≤ f.1.sortPlace) := by
    intro e he f hf
    rw [Bool.eq_iff_iff, Bool.not_eq_true', ← Bool.not_eq_true, decide_eq_true_iff, ← not_lt]
    exact not_congr (keyLt_iff_sortPlace (h f (mem_unsorted_iff.1 hf).1) (h e (mem_unsorted_iff.1 he).1))
  have hsort := List.map_mergeSort (r := fun e f : Value × Value => !f.1.keyLt e.1)
    (s := fun e f => decide (e.1.sortPlace ≤ f.1.sortPlace)) (f := id) hcompare
  rwa [List.map_id, List.map_id, ← keyed_eq] at hsort

/-- The entries with keys stand in the order of their keys. -/
theorem pairwise_keyed (h : ∀ e ∈ entries, e.1.isKey = true) :
    (splitEntries entries).2.Pairwise fun e f => e.1.sortPlace ≤ f.1.sortPlace := by
  rw [keyed_eq_mergeSort h]
  exact pairwise_mergeSort_by (fun e : Value × Value => e.1.sortPlace) _

/-! ## Ordinary keys of a table -/

/-- Keys have different places just if one is before the other. -/
theorem ordinary_iff : Ordinary entries ↔ (entries.all fun e => e.1.isOrdinary) = true ∧
    entries.Pairwise fun e f => (e.1.keyLt f.1 || f.1.keyLt e.1) = true := by
  have hne : (∀ e ∈ entries, e.1.place ≠ ⊥) ↔ (entries.all fun e => e.1.isOrdinary) = true := by
    simp only [List.all_eq_true, place_ne_bot_iff]
  have hnodup : (∀ e ∈ entries, e.1.place ≠ ⊥) → ((entries.map fun e => e.1.place).Nodup ↔
      entries.Pairwise fun e f => (e.1.keyLt f.1 || f.1.keyLt e.1) = true) := by
    intro h
    rw [List.Nodup, List.pairwise_map]
    refine List.Pairwise.iff_of_mem fun {e f} he hf => ?_
    rw [Bool.or_eq_true, keyLt_iff (h e he) (h f hf), keyLt_iff (h f hf) (h e he), ne_iff_lt_or_gt]
  constructor
  · exact fun h => ⟨hne.1 h.ne_bot, (hnodup h.ne_bot).1 h.nodup⟩
  · exact fun h => ⟨hne.2 h.1, (hnodup (hne.2 h.1)).2 h.2⟩

instance (entries : List (Value × Value)) : Decidable (Ordinary entries) :=
  decidable_of_iff' _ ordinary_iff

namespace Ordinary

theorem nodup_places (h : Ordinary entries) : ((entries.map Prod.fst).map Value.place).Nodup := by
  rw [List.map_map]
  exact h.nodup

theorem nodup_keys (h : Ordinary entries) : (entries.map Prod.fst).Nodup :=
  h.nodup_places.of_map

/-- Keys with the same place are the same. -/
theorem eq_of_place_eq (h : Ordinary entries) (ha : a ∈ entries.map Prod.fst) (hb : b ∈ entries.map Prod.fst)
    (hab : a.place = b.place) : a = b :=
  List.inj_on_of_nodup_map h.nodup_places ha hb hab

/-- The keys behind the sequence stand in the order of their places. -/
theorem pairwise_keys_keyed (h : Ordinary entries) :
    ((splitEntries entries).2.map Prod.fst).Pairwise fun a b => a.place ≤ b.place := by
  have hsorted := Inspect.pairwise_keyed fun e he => isKey_of_place (h.ne_bot e he)
  rw [List.pairwise_map]
  refine hsorted.imp_of_mem fun {e f} he hf hle => ?_
  rwa [sortPlace_of_place (h.ne_bot e (mem_keyed_iff.1 he).1), sortPlace_of_place (h.ne_bot f (mem_keyed_iff.1 hf).1),
    Sum.Lex.inl_le_inl_iff] at hle

variable (h : Ordinary entries) (h' : Ordinary entries')
  (hkeys : ∀ k, k ∈ entries.map Prod.fst ↔ k ∈ entries'.map Prod.fst)

include h h' hkeys

theorem length_sequence_le : (splitEntries entries).1.length ≤ (splitEntries entries').1.length := by
  by_contra hlt
  have hmem := getElem_sequence_mem h.nodup_keys (Nat.lt_of_not_le hlt)
  exact next_notMem_keys h'.nodup_keys ((hkeys _).1 (List.mem_map.2 ⟨_, hmem, rfl⟩))

/-- Tables with the same keys have sequences of the same length. -/
theorem length_sequence_eq : (splitEntries entries).1.length = (splitEntries entries').1.length :=
  Nat.le_antisymm (h.length_sequence_le h' hkeys) (h'.length_sequence_le h fun k => (hkeys k).symm)

/-- Tables with the same keys show them in the same order. -/
theorem keys_keyed_eq : (splitEntries entries).2.map Prod.fst = (splitEntries entries').2.map Prod.fst := by
  have hperm : ((splitEntries entries).2.map Prod.fst).Perm ((splitEntries entries').2.map Prod.fst) := by
    refine (List.perm_ext_iff_of_nodup (nodup_keyed h.nodup_keys) (nodup_keyed h'.nodup_keys)).2 fun k => ?_
    rw [mem_keys_keyed_iff, mem_keys_keyed_iff, hkeys, h.length_sequence_eq h' hkeys]
  refine hperm.eq_of_pairwise (fun a b ha hb hab hba => ?_) h.pairwise_keys_keyed h'.pairwise_keys_keyed
  exact h.eq_of_place_eq (mem_keys_keyed_iff.1 ha).1 ((hkeys b).2 (mem_keys_keyed_iff.1 hb).1) (le_antisymm hab hba)

end Ordinary

end Scratchpad.Inspect
