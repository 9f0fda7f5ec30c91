/-
  Sets of characters given by their boundaries: an increasing list of code points at each of which
  membership changes, beginning outside the set. `within_cons_of_lt` and `within_cons_of_le` decide
  a membership boundary by boundary.
-/

namespace CommandBot.Text

/-- Whether code point `n` lies in the set with the given boundaries. -/
def within : List Nat → Nat → Bool
  | [], _ => false
  | b :: rest, n => if n < b then false else !within rest n

theorem within_nil (n : Nat) : within [] n = false := rfl

theorem within_cons_of_lt {b n : Nat} (h : n < b) (rest : List Nat) :
    within (b :: rest) n = false := by
  simp [within, h]

theorem within_cons_of_le {b n : Nat} (h : b ≤ n) (rest : List Nat) :
    within (b :: rest) n = !within rest n := by
  simp [within, Nat.not_lt.mpr h]

end CommandBot.Text
