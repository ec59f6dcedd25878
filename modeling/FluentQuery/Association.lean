/-!
Associations of names with values, in the order in which the names were first
associated.
-/

namespace FluentQuery

/-- Associates `key` with `v`, in the place it already has. -/
def assoc {α : Type} (key : String) (v : α) : List (String × α) → List (String × α)
  | [] => [(key, v)]
  | (k, w) :: r => if k == key then (k, v) :: r else (k, w) :: assoc key v r

theorem lookup_cons_eq_ite {α : Type} (k l : String) (v : α) (xs : List (String × α)) :
    List.lookup k ((l, v) :: xs) = if k = l then some v else xs.lookup k := by
  rw [List.lookup_cons]
  by_cases h : k = l
  · rw [h, beq_self_eq_true, if_pos rfl]
  · rw [beq_false_of_ne h, if_neg h]

theorem lookup_assoc {α : Type} (key k : String) (v : α) (xs : List (String × α)) :
    (assoc key v xs).lookup k = if k = key then some v else xs.lookup k := by
  induction xs with
  | nil => rw [assoc, lookup_cons_eq_ite]
  | cons x xs ih =>
    obtain ⟨l, w⟩ := x
    unfold assoc
    by_cases hl : l = key
    · rw [if_pos (beq_iff_eq.mpr hl), lookup_cons_eq_ite, lookup_cons_eq_ite, hl]
      by_cases hk : k = key <;> simp [hk]
    · rw [if_neg (by simpa using hl), lookup_cons_eq_ite, lookup_cons_eq_ite, ih]
      by_cases hk : k = l
      · simp [hk, hl]
      · simp [hk]

/-- `old` overridden by the associations of `new`, one after another. -/
def override {α : Type} (old new : List (String × α)) : List (String × α) :=
  new.foldl (fun acc x => assoc x.1 x.2 acc) old

@[simp] theorem override_nil {α : Type} (old : List (String × α)) : override old [] = old := rfl

theorem override_append {α : Type} (old xs ys : List (String × α)) :
    override old (xs ++ ys) = override (override old xs) ys := by
  simp [override, List.foldl_append]

end FluentQuery
