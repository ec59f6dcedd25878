import FluentQuery.Association
import Mathlib.Data.List.Induction
import Mathlib.Data.List.Nodup

/-! What overriding does to associations: which value a name has afterwards, and that no name is
there twice. -/

namespace FluentQuery

variable {α : Type}

theorem lookup_override (old new : List (String × α)) (key : String) :
    (override old new).lookup key = (new.reverse.lookup key).or (old.lookup key) := by
  induction new generalizing old with
  | nil => rfl
  | cons x new ih =>
    change (override (assoc x.1 x.2 old) new).lookup key = _
    rw [ih, lookup_assoc, List.reverse_cons, List.lookup_append, Option.or_assoc]
    congr 1
    obtain ⟨k, v⟩ := x
    rw [lookup_cons_eq_ite]
    split <;> simp

theorem map_fst_assoc (key : String) (v : α) (xs : List (String × α)) :
    (assoc key v xs).map Prod.fst =
      if key ∈ xs.map Prod.fst then xs.map Prod.fst else xs.map Prod.fst ++ [key] := by
  induction xs with
  | nil => rfl
  | cons x xs ih =>
    obtain ⟨l, u⟩ := x
    unfold assoc
    by_cases hl : l = key
    · simp [hl]
    · rw [if_neg (by simpa using hl)]
      simp only [List.map_cons, ih, List.mem_cons, Ne.symm hl, false_or]
      split <;> rfl

/-- Every name that was there before or came later is there. -/
theorem mem_keys_override {old new : List (String × α)} {key : String} :
    key ∈ (override old new).map Prod.fst ↔ key ∈ old.map Prod.fst ∨ key ∈ new.map Prod.fst := by
  induction new generalizing old with
  | nil => simp
  | cons x new ih =>
    refine (ih : key ∈ (override (assoc x.1 x.2 old) new).map Prod.fst ↔ _).trans ?_
    rw [map_fst_assoc]
    split
    · rename_i known
      simp only [List.map_cons, List.mem_cons]
      constructor
      · rintro (h | h)
        · exact .inl h
        · exact .inr (.inr h)
      · rintro (h | rfl | h)
        · exact .inl h
        · exact .inl known
        · exact .inr h
    · simp [or_assoc]

/-- The names are in the order of their first mention. -/
theorem map_fst_override (xs : List (String × α)) :
    (override [] xs).map Prod.fst = (xs.map Prod.fst).eraseDups := by
  induction xs using List.reverseRecOn with
  | nil => rfl
  | append_singleton xs x ih =>
    rw [override_append, override, List.foldl_cons, List.foldl_nil, map_fst_assoc, ih, List.map_append,
      List.eraseDups_append]
    by_cases known : x.1 ∈ xs.map Prod.fst
    · rw [if_pos (List.mem_eraseDups.mpr known)]
      simp [List.removeAll, known]
    · rw [if_neg (fun h => known (List.mem_eraseDups.mp h))]
      simp [List.removeAll, known, List.eraseDups_cons]

theorem assoc_of_notMem {key : String} {xs : List (String × α)} (h : key ∉ xs.map Prod.fst)
    (v : α) : assoc key v xs = xs ++ [(key, v)] := by
  induction xs with
  | nil => rfl
  | cons x xs ih =>
    obtain ⟨l, u⟩ := x
    simp only [List.map_cons, List.mem_cons, not_or] at h
    rw [assoc, if_neg (by simpa using Ne.symm h.1), ih h.2]
    rfl

theorem nodup_override {old : List (String × α)} (h : (old.map Prod.fst).Nodup)
    (new : List (String × α)) : ((override old new).map Prod.fst).Nodup := by
  induction new generalizing old with
  | nil => exact h
  | cons x new ih =>
    refine ih ?_
    rw [map_fst_assoc]
    split
    · exact h
    · rename_i fresh
      exact List.nodup_append.mpr ⟨h, List.nodup_singleton _, by
        rintro a ha b hb rfl
        exact fresh (List.mem_singleton.mp hb ▸ ha)⟩

theorem override_of_nodup {old new : List (String × α)}
    (h : ((old ++ new).map Prod.fst).Nodup) : override old new = old ++ new := by
  induction new generalizing old with
  | nil => exact (List.append_nil old).symm
  | cons x new ih =>
    have fresh : x.1 ∉ old.map Prod.fst := by
      rw [List.map_append, List.map_cons] at h
      exact fun mem => (List.nodup_append.mp h).2.2 _ mem _ List.mem_cons_self rfl
    change override (assoc x.1 x.2 old) new = _
    rw [assoc_of_notMem fresh, ih (by simpa using h)]
    simp

/-- What was overridden has no name twice. -/
theorem override_override (xs : List (String × α)) :
    override [] (override [] xs) = override [] xs :=
  have empty : (([] : List (String × α)).map Prod.fst).Nodup := List.nodup_nil
  override_of_nodup (nodup_override empty xs)

end FluentQuery
