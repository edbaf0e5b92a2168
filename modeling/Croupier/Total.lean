/-
The total of a list of whole numbers.
-/

namespace Croupier

/-- The sum of whole numbers; nothing adds up to zero. -/
def total : List Int → Int
  | [] => 0
  | number :: rest => number + total rest

@[simp] theorem total_nil : total [] = 0 := rfl

@[simp] theorem total_cons (number : Int) (rest : List Int) :
    total (number :: rest) = number + total rest := rfl

@[simp] theorem total_append (left right : List Int) :
    total (left ++ right) = total left + total right := by
  induction left with
  | nil => simp
  | cons number rest ih => simp [ih, Int.add_assoc]

theorem total_nonneg {numbers : List Int}
    (nonneg : ∀ number ∈ numbers, 0 ≤ number) : 0 ≤ total numbers := by
  induction numbers with
  | nil => exact Int.le_refl 0
  | cons number rest ih =>
      have others := ih fun other member =>
        nonneg other (List.mem_cons_of_mem _ member)
      exact Int.add_nonneg (nonneg number List.mem_cons_self) others

end Croupier
