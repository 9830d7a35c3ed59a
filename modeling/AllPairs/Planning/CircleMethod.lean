import AllPairs.Task

/-!
Rounds of a round robin tournament by the circle method. One of an even number of players keeps
its place while the others move on by one place each round, so that every two players meet in
exactly one round. With an odd number a phantom player is added, and whoever would meet it has a
bye.
-/

namespace AllPairs.CircleMethod

/-- The pair with its lower player first. -/
def ordered (a b : Partition) : Partition × Partition :=
  (min a b, max a b)

/-- Pairs are ordered by their first player, then by their second. -/
def precedes (p q : Partition × Partition) : Bool :=
  decide (p.1 < q.1) || decide (p.1 = q.1 ∧ p.2 ≤ q.2)

/-- The meetings of a round before any is dropped. The last player meets the player whose number
is that of the round; the others are paired at equal distances on both sides of that player. -/
def meetings (players round : Nat) : List (Partition × Partition) :=
  (round, players - 1) :: (List.range' 1 (players / 2 - 1)).map fun offset =>
    ordered ((round + offset) % (players - 1)) ((round + (players - 1) - offset) % (players - 1))

/-- The pairs of a round in ascending order, without the pair of the phantom. -/
def round (players number : Nat) (phantom : Partition) : List (Partition × Partition) :=
  ((meetings players number).filter fun pair => pair.1 ≠ phantom ∧ pair.2 ≠ phantom).mergeSort
    precedes

/-- The rounds in which every two of the partitions meet once. -/
def rounds (partitions : Nat) : List (List (Partition × Partition)) :=
  if partitions ≤ 1 then []
  else
    let players := partitions + partitions % 2
    (List.range (players - 1)).map fun number => round players number partitions

end AllPairs.CircleMethod
