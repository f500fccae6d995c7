/-!
# Scalars

The arithmetic that the wheels need.  The game spins its wheels with doubles; the same definitions
over the rationals say what is meant.
-/

namespace LessonDeck

/-- Numbers with the operations that the wheels use. -/
class Scalar (α : Type) extends
    Add α, Sub α, Mul α, Div α, Zero α, One α, NatCast α, LT α, LE α where
  decidableLt : ∀ a b : α, Decidable (a < b)
  decidableLe : ∀ a b : α, Decidable (a ≤ b)
  /-- The slack in comparisons with bounds. -/
  epsilon : α
  isFinite : α → Bool

instance instDecidableLt {α : Type} [Scalar α] (a b : α) : Decidable (a < b) :=
  Scalar.decidableLt a b

instance instDecidableLe {α : Type} [Scalar α] (a b : α) : Decidable (a ≤ b) :=
  Scalar.decidableLe a b

instance : Scalar Float where
  zero := 0.0
  one := 1.0
  natCast := Float.ofNat
  decidableLt := Float.decLt
  decidableLe := Float.decLe
  epsilon := 1e-12
  isFinite := Float.isFinite

namespace Scalar

variable {α : Type} [Scalar α]

def positivePart (x : α) : α :=
  if 0 < x then x else 0

/-- The smaller of two scalars; the second unless the first is less. -/
def lesser (x y : α) : α :=
  if x < y then x else y

/-- The greater of two scalars; the second unless the first is greater. -/
def greater (x y : α) : α :=
  if y < x then x else y

/-- The sum of what a function gives along a list, added from the left. -/
def sumOf {β : Type} (f : β → α) (bs : List β) : α :=
  bs.foldl (fun acc b => acc + f b) 0

end Scalar

end LessonDeck
