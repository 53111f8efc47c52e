/-!
# Texts of one kind of characters

A text may hold characters of one kind only (`Only`). Parts of such texts are of that kind, and so are texts put together
from them.
-/

namespace Scratchpad

/-- All characters of the text are of this kind. -/
def Only (kind : Char → Bool) (cs : List Char) : Prop :=
  ∀ c ∈ cs, kind c = true

namespace Only

variable {kind kind' : Char → Bool} {cs ds : List Char} {c : Char}

theorem nil : Only kind [] :=
  fun _ h => absurd h List.not_mem_nil

theorem of_all (h : cs.all kind = true) : Only kind cs :=
  List.all_eq_true.1 h

theorem append (hc : Only kind cs) (hd : Only kind ds) : Only kind (cs ++ ds) :=
  List.forall_mem_append.2 ⟨hc, hd⟩

theorem cons (hc : kind c = true) (hd : Only kind ds) : Only kind (c :: ds) :=
  List.forall_mem_cons.2 ⟨hc, hd⟩

theorem mono (h : Only kind cs) (hkind : ∀ c, kind c = true → kind' c = true) : Only kind' cs :=
  fun c hc => hkind c (h c hc)

theorem subset (hd : Only kind ds) (h : cs ⊆ ds) : Only kind cs :=
  fun c hc => hd c (h hc)

theorem replicate (hc : kind c = true) (n : Nat) : Only kind (List.replicate n c) := by
  intro d hd
  rw [List.eq_of_mem_replicate hd]
  exact hc

theorem take (hc : Only kind cs) (n : Nat) : Only kind (cs.take n) :=
  hc.subset (List.take_subset n cs)

theorem drop (hc : Only kind cs) (n : Nat) : Only kind (cs.drop n) :=
  hc.subset (List.drop_subset n cs)

/-- A text of one kind is what is taken of it in front of a text that begins otherwise. -/
theorem takeWhile_append (hc : Only kind cs) (hd : ∀ d ∈ ds.head?, kind d = false) :
    (cs ++ ds).takeWhile kind = cs := by
  induction cs with
  | nil =>
    cases ds with
    | nil => rfl
    | cons d ds => rw [List.nil_append, List.takeWhile_cons_of_neg (by simp [hd d rfl])]
  | cons c cs ih =>
    rw [List.cons_append, List.takeWhile_cons_of_pos (hc c List.mem_cons_self),
      ih fun d hd => hc d (List.mem_cons_of_mem c hd)]

theorem dropWhile_append (hc : Only kind cs) (hd : ∀ d ∈ ds.head?, kind d = false) :
    (cs ++ ds).dropWhile kind = ds := by
  induction cs with
  | nil =>
    cases ds with
    | nil => rfl
    | cons d ds => rw [List.nil_append, List.dropWhile_cons_of_neg (by simp [hd d rfl])]
  | cons c cs ih =>
    rw [List.cons_append, List.dropWhile_cons_of_pos (hc c List.mem_cons_self),
      ih fun d hd => hc d (List.mem_cons_of_mem c hd)]

end Only

end Scratchpad
