import Mathlib.Logic.Function.Basic

/-!
Custody of things by places. A relation `holds` says which place has which thing; it is
tracked when one function tells the place of every thing, so that no two places have it.
-/

namespace Lib

variable {P R : Type} {holds holds' : P → R → Prop} {owner : R → Option P} {p q : P} {r : R}

/-- `owner` tells where each thing is. -/
def Tracks (owner : R → Option P) (holds : P → R → Prop) : Prop :=
  ∀ p r, holds p r ↔ owner r = some p

namespace Tracks

theorem unique (h : Tracks owner holds) (hp : holds p r) (hq : holds q r) : p = q :=
  Option.some.inj (((h p r).mp hp).symm.trans ((h q r).mp hq))

end Tracks

end Lib
