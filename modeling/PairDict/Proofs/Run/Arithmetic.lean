import Mathlib.Data.Int.ModEq
import PairDict.Run.Eval

/-! # Integers wrap around once

Arithmetic on 64 bits is arithmetic of the integers modulo 2⁶⁴: sums, products and negations
of representatives represent those of the integers (`Int64.ofInt_add` and its like).  So in an
expression that is made of them it does not matter how often a result on the way wraps around.
The value is what comes of doing the whole computation with integers (`Expr.Denotes`) and
wrapping around at the end (`Expr.eval_of_denotes`), the one number of 64 bits in this residue
class (`Expr.eval_denoted`).

The negation of the least number is no exception, which has the same residue as the number.
-/
namespace PairDict

variable {α : Type}

/-- Without bounds the integer expression `e` has the value `z`. -/
inductive Expr.Denotes (σ : Scope Value) : Expr α → Int → Prop where
  | int {a n} : Denotes σ (.int a n) n.toInt
  | name {a x n} : σ.lookup x = .ok (.int n) → Denotes σ (.name a x) n.toInt
  | neg {a x m} : Denotes σ x m → Denotes σ (.unary a (.symbol .minus) x) (-m)
  | add {a x y m n} : Denotes σ x m → Denotes σ y n →
      Denotes σ (.binary a (.symbol .plus) x y) (m + n)
  | mul {a x y m n} : Denotes σ x m → Denotes σ y n →
      Denotes σ (.binary a (.symbol .star) x y) (m * n)

namespace Expr

variable {σ : Scope Value} {e x y : Expr α} {a : α} {m n : Int64} {z : Int}

theorem eval_neg (hx : x.eval σ = .ok (.int m)) :
    (unary a (.symbol .minus) x).eval σ = .ok (.int (-m)) := by
  rw [eval, hx]
  rfl

theorem eval_add (hx : x.eval σ = .ok (.int m)) (hy : y.eval σ = .ok (.int n)) :
    (binary a (.symbol .plus) x y).eval σ = .ok (.int (m + n)) := by
  rw [eval, hx, hy]
  rfl

theorem eval_mul (hx : x.eval σ = .ok (.int m)) (hy : y.eval σ = .ok (.int n)) :
    (binary a (.symbol .star) x y).eval σ = .ok (.int (m * n)) := by
  rw [eval, hx, hy]
  rfl

/-- **An integer expression is evaluated to its value, wrapped around.** -/
theorem eval_of_denotes (h : Denotes σ e z) : e.eval σ = .ok (.int (.ofInt z)) := by
  induction h with
  | @int a n => rw [eval, Int64.ofInt_toInt]
  | @name a x n hx => rw [eval, hx, Int64.ofInt_toInt]
  | neg _ ih => rw [Int64.ofInt_neg, eval_neg ih]
  | add _ _ ihx ihy => rw [Int64.ofInt_add, eval_add ihx ihy]
  | mul _ _ ihx ihy => rw [Int64.ofInt_mul, eval_mul ihx ihy]

end Expr

/-- Wrapping around keeps the residue. -/
theorem Int64.toInt_ofInt_modEq (z : Int) : (Int64.ofInt z).toInt ≡ z [ZMOD 2 ^ 64] := by
  rw [Int64.toInt_ofInt]
  exact Int.bmod_emod

/-- There is one number of 64 bits for each residue. -/
theorem Int64.toInt_unique {n : Int64} {m : Int} (hge : -2 ^ 63 ≤ m) (hlt : m < 2 ^ 63)
    (h : m ≡ n.toInt [ZMOD 2 ^ 64]) : m = n.toInt := by
  have hn := n.le_toInt
  have hn' := n.toInt_lt
  have hdvd : (2 : Int) ^ 64 ∣ n.toInt - m := h.dvd
  omega

/-- **Integer expressions compute exact arithmetic modulo 2⁶⁴.**  The value is the one number
from -2⁶³ to 2⁶³ - 1 that is congruent to the value without bounds. -/
theorem Expr.eval_denoted {σ : Scope Value} {e : Expr α} {z : Int} (h : Denotes σ e z) :
    ∃ n : Int64, e.eval σ = .ok (.int n) ∧ (-2 ^ 63 ≤ n.toInt ∧ n.toInt < 2 ^ 63) ∧
      n.toInt ≡ z [ZMOD 2 ^ 64] ∧
      ∀ m : Int, -2 ^ 63 ≤ m → m < 2 ^ 63 → m ≡ z [ZMOD 2 ^ 64] → m = n.toInt := by
  refine ⟨.ofInt z, eval_of_denotes h, ⟨Int64.le_toInt _, Int64.toInt_lt _⟩,
    Int64.toInt_ofInt_modEq z, ?_⟩
  intro m hge hlt hm
  exact Int64.toInt_unique hge hlt (hm.trans (Int64.toInt_ofInt_modEq z).symm)

/-- The scope in which `x` is the least number. -/
def Scope.leastX : Scope Value := ⟨[("x", .int Int64.minValue)], []⟩

/-- `-x * (9223372036854775807 + 2)`, where every operation wraps around if `x` is the least
number. -/
def Expr.wraps : Expr Unit :=
  .binary () (.symbol .star) (.unary () (.symbol .minus) (.name () "x"))
    (.binary () (.symbol .plus) (.int () 9223372036854775807) (.int () 2))

/-- The value is that of 2⁶³ * (2⁶³ + 1). -/
theorem Expr.eval_denoted_wraps :
    Denotes Scope.leastX wraps (2 ^ 63 * (2 ^ 63 + 1)) ∧
      wraps.eval Scope.leastX = .ok (.int Int64.minValue) ∧
      ∃ n : Int64, wraps.eval Scope.leastX = .ok (.int n) ∧
        (-2 ^ 63 ≤ n.toInt ∧ n.toInt < 2 ^ 63) ∧
        n.toInt ≡ 2 ^ 63 * (2 ^ 63 + 1) [ZMOD 2 ^ 64] ∧
        ∀ m : Int, -2 ^ 63 ≤ m → m < 2 ^ 63 → m ≡ 2 ^ 63 * (2 ^ 63 + 1) [ZMOD 2 ^ 64] →
          m = n.toInt := by
  have hx : Scope.leastX.lookup "x" = .ok (.int Int64.minValue) := rfl
  have hvalue : -Int64.minValue.toInt *
      ((9223372036854775807 : Int64).toInt + (2 : Int64).toInt) = 2 ^ 63 * (2 ^ 63 + 1) := by
    decide
  have h : Denotes Scope.leastX wraps (2 ^ 63 * (2 ^ 63 + 1)) :=
    hvalue ▸ .mul (.neg (.name hx)) (.add .int .int)
  exact ⟨h, rfl, eval_denoted h⟩

end PairDict
