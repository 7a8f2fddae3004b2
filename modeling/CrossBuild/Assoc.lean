/-!
# Pairs in order

Lists of pairs as maps that remember the order of insertion. Setting a known key keeps its place;
the laws say what is found after setting a key and which keys there are.
-/

namespace CrossBuild

/-- The list with the value of `key` set: a new key goes to the end, a known one keeps its
place. -/
def assign {α β : Type} [DecidableEq α] (key : α) (value : β) : List (α × β) → List (α × β)
  | [] => [(key, value)]
  | (k, v) :: rest => if k = key then (k, value) :: rest else (k, v) :: assign key value rest

/-- The value of the first pair with the key. -/
def valueOf? {α β : Type} [DecidableEq α] (key : α) : List (α × β) → Option β
  | [] => none
  | (k, v) :: rest => if k = key then some v else valueOf? key rest

section
variable {α β : Type} [DecidableEq α]

theorem valueOf?_assign (key other : α) (value : β) (pairs : List (α × β)) :
    valueOf? other (assign key value pairs) =
      if key = other then some value else valueOf? other pairs := by
  induction pairs with
  | nil => simp [assign, valueOf?]
  | cons p rest ih =>
    obtain ⟨k, v⟩ := p
    by_cases hk : k = key
    · subst hk; by_cases ho : k = other <;> simp [assign, valueOf?, ho]
    · by_cases ho : k = other
      · subst ho
        simp [assign, valueOf?, hk, Ne.symm hk]
      · simp [assign, valueOf?, hk, ho, ih]

theorem mem_of_valueOf? {key : α} {value : β} {pairs : List (α × β)}
    (h : valueOf? key pairs = some value) : (key, value) ∈ pairs := by
  induction pairs with
  | nil => cases h
  | cons p rest ih =>
    obtain ⟨k, v⟩ := p
    rw [valueOf?] at h
    split at h
    · next heq =>
      rw [← heq, Option.some.inj h]
      exact List.mem_cons_self
    · exact List.mem_cons_of_mem _ (ih h)

theorem map_fst_assign (key : α) (value : β) (pairs : List (α × β)) :
    (assign key value pairs).map Prod.fst =
      if key ∈ pairs.map Prod.fst then pairs.map Prod.fst else pairs.map Prod.fst ++ [key] := by
  induction pairs with
  | nil => simp [assign]
  | cons p rest ih =>
    obtain ⟨k, v⟩ := p
    by_cases hk : k = key
    · simp [assign, hk]
    · rw [assign, if_neg hk, List.map_cons, ih]
      by_cases hm : key ∈ rest.map Prod.fst <;> simp [hm, Ne.symm hk]

end

end CrossBuild
