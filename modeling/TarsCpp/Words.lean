import Mathlib.Tactic

/-!
# Words between blanks

The nonempty words of a list, where a predicate says which elements are
blanks.  A blank between two lists separates their words, and what stands
between two blanks is a word.
-/

namespace TarsCpp

variable {α : Type} {isBlank : α → Bool} {word before behind : List α}
  {blank : α}

def words (isBlank : α → Bool) (text : List α) : List (List α) :=
  (text.splitOnP isBlank).filter fun word => !word.isEmpty

/-- A list without blanks is a word, if it is not empty. -/
theorem words_of_forall (solid : ∀ c ∈ word, isBlank c = false)
    (some_ : word ≠ []) : words isBlank word = [word] := by
  obtain ⟨c, rest, rfl⟩ := List.exists_cons_of_ne_nil some_
  rw [words, List.splitOnP_eq_singleton solid]
  rfl

theorem words_append_cons (isBlank_ : isBlank blank) :
    words isBlank (before ++ blank :: behind) =
      words isBlank before ++ words isBlank behind := by
  rw [words, List.splitOnP_append_cons _ _ isBlank_, List.filter_append]
  rfl

/-- A word between two blanks is one of the words. -/
theorem mem_words {blank' : α} (isBlank_ : isBlank blank)
    (isBlank' : isBlank blank') (solid : ∀ c ∈ word, isBlank c = false)
    (some_ : word ≠ []) :
    word ∈ words isBlank (before ++ blank :: (word ++ blank' :: behind)) := by
  rw [words_append_cons isBlank_, words_append_cons isBlank',
    words_of_forall solid some_]
  simp

end TarsCpp
