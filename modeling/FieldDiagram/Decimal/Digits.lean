/-!
# Decimal digits

Natural numbers as strings of decimal digits. Main statement: `ofDigits_digits`, reading the digits
of a number gives the number.
-/

namespace FieldDiagram

/-- The digit of a number below ten. -/
def digitChar (n : Nat) : Char := Char.ofNat ('0'.toNat + n)

/-- The value of a decimal digit. -/
def digitValue (c : Char) : Nat := c.toNat - '0'.toNat

/-- The digits of a number, most significant first; zero is written `0`. -/
def digits (n : Nat) : List Char :=
  if n < 10 then [digitChar n] else digits (n / 10) ++ [digitChar (n % 10)]

/-- The number that a string of digits stands for; no digits stand for zero. -/
def ofDigits (ds : List Char) : Nat := ds.foldl (fun n d => 10 * n + digitValue d) 0

@[simp] theorem ofDigits_nil : ofDigits [] = 0 := rfl

theorem ofDigits_concat (ds : List Char) (d : Char) :
    ofDigits (ds ++ [d]) = 10 * ofDigits ds + digitValue d := by
  simp [ofDigits, List.foldl_append]

theorem digitValue_digitChar {n : Nat} (h : n < 10) : digitValue (digitChar n) = n := by
  have all : ∀ k : Fin 10, digitValue (digitChar k) = k := by decide
  exact all ⟨n, h⟩

theorem isDigit_digitChar {n : Nat} (h : n < 10) : (digitChar n).isDigit = true := by
  have all : ∀ k : Fin 10, (digitChar k).isDigit = true := by decide
  exact all ⟨n, h⟩

/-- Reading the digits of a number gives the number. -/
theorem ofDigits_digits (n : Nat) : ofDigits (digits n) = n := by
  fun_induction digits n with
  | case1 n small => simp [ofDigits, digitValue_digitChar small]
  | case2 n large ih =>
    rw [ofDigits_concat, ih, digitValue_digitChar (Nat.mod_lt _ (by omega))]
    omega

/-- Digits are all that `digits` writes. -/
theorem isDigit_of_mem_digits {n : Nat} {c : Char} (h : c ∈ digits n) : c.isDigit = true := by
  fun_induction digits n with
  | case1 n small =>
    rw [List.mem_singleton.1 h]
    exact isDigit_digitChar small
  | case2 n large ih =>
    rcases List.mem_append.1 h with front | last
    · exact ih front
    · rw [List.mem_singleton.1 last]
      exact isDigit_digitChar (Nat.mod_lt _ (by omega))

theorem digits_ne_nil (n : Nat) : digits n ≠ [] := by
  unfold digits
  split <;> simp

end FieldDiagram
