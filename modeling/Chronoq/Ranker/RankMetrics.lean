import Chronoq.Foundations.Pairs
import Chronoq.Foundations.Slices
import Chronoq.Foundations.Statistics

/-! # The ranking metrics of `lambdarank.py`

Spearman's rho, Kendall's tau and pairwise accuracy, in exact arithmetic. `argsort` is numpy's: a
list of positions that sorts its argument, with an order among equal values that numpy does not
promise, so it is a parameter. The grouped metrics cut the rows into consecutive groups of the given
sizes. Labels are numbers of any kind: the estimator passes integers, the bench floats. -/

namespace Chronoq.Ranker
open Foundations

set_option autoImplicit false

def ranksOf (argsort : List ℚ → List ℕ) (xs : List ℚ) : List ℕ :=
  argsort ((argsort xs).map fun (position : ℕ) => (position : ℚ))

def spearmanRho (argsort : List ℚ → List ℕ) (scores labels : List ℚ) : ℚ :=
  let n : ℚ := scores.length
  if scores.length < 2 then 0
  else
    let d := List.zipWith (fun (s l : ℕ) => (s : ℚ) - l) (ranksOf argsort scores)
      (ranksOf argsort labels)
    let denom := n * (n * n - 1)
    if denom = 0 then 0 else 1 - 6 * (d.map fun x => x * x).sum / denom

def spearmanRhoGrouped (argsort : List ℚ → List ℕ) (scores labels : List ℚ)
    (groupSizes : List ℕ) : ℚ :=
  let groups := List.zip groupSizes
    (List.zip (groupSlices scores groupSizes) (groupSlices labels groupSizes))
  mean ((groups.filter fun g => 2 ≤ g.1).map fun g => spearmanRho argsort g.2.1 g.2.2)

/-- One group's tau: pairs with equal labels count for neither side, pairs with equal scores as
discordant. -/
def kendallTau (scores labels : List ℚ) : ℚ :=
  let pairs := (pairsOf (List.zip scores labels)).filter fun p => p.1.2 - p.2.2 ≠ 0
  let concordant := pairs.countP fun p => 0 < (p.1.1 - p.2.1) * (p.1.2 - p.2.2)
  let discordant := pairs.length - concordant
  ((concordant : ℚ) - discordant) / ((scores.length : ℚ) * (scores.length - 1) / 2)

def kendallTauGrouped (scores labels : List ℚ) (groupSizes : List ℕ) : ℚ :=
  let groups := List.zip groupSizes
    (List.zip (groupSlices scores groupSizes) (groupSlices labels groupSizes))
  mean ((groups.filter fun g => 2 ≤ g.1).map fun g => kendallTau g.2.1 g.2.2)

def pairwiseAccuracyGrouped (scores labels : List ℚ) (groupSizes : List ℕ) : ℚ :=
  let pairs := (List.zip (groupSlices scores groupSizes) (groupSlices labels groupSizes)).flatMap
    fun g => (pairsOf (List.zip g.1 g.2)).filter fun p => p.1.2 ≠ p.2.2
  let correct := pairs.countP fun p => 0 < (p.1.1 - p.2.1) * (p.1.2 - p.2.2)
  if 0 < pairs.length then (correct : ℚ) / pairs.length else 1

end Chronoq.Ranker
