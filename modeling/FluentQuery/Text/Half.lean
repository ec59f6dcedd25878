/-!
Halves of surrogate pairs that stand alone. Such a half is no character, so the
last characters of all, which have no other use, carry the halves in texts.
-/

namespace FluentQuery.Text

/-- The number of the first half. -/
def firstHalf : Nat := 0xd800

/-- How many halves there are. -/
def halfCount : Nat := 0x800

/-- The character that carries the first half. -/
def firstCarrier : Nat := 0x10f800

/-- The character that carries a half, by the half's number. -/
def ofHalf (n : Nat) : Char := Char.ofNat (firstCarrier + (n - firstHalf))

/-- The number of the half that a character carries. -/
def half? (c : Char) : Option Nat :=
  if firstCarrier ≤ c.toNat then some (firstHalf + (c.toNat - firstCarrier)) else none

/-- The number of what a character stands for: itself, or the half it carries. -/
def codePoint (c : Char) : Nat := (half? c).getD c.toNat

theorem toNat_ofHalf {n : Nat} (h : n < firstHalf + halfCount) :
    (ofHalf n).toNat = firstCarrier + (n - firstHalf) := by
  have hv : (firstCarrier + (n - firstHalf)).isValidChar := by
    simp only [firstCarrier, firstHalf, halfCount, Nat.isValidChar] at *
    omega
  rw [ofHalf, Char.ofNat, dif_pos hv]
  rfl

theorem half?_ofHalf {n : Nat} (h : firstHalf ≤ n) (h' : n < firstHalf + halfCount) :
    half? (ofHalf n) = some n := by
  have e : firstHalf + (firstCarrier + (n - firstHalf) - firstCarrier) = n := by omega
  rw [half?, toNat_ofHalf h', if_pos (Nat.le_add_right _ _), e]

end FluentQuery.Text
