import AllPairs.Planning.CircleMethod
import AllPairs.Proofs.Disjointness
import AllPairs.Proofs.Planning.Feasible
import Mathlib.Data.List.Pairwise
import Mathlib.Data.List.Perm.Basic
import Mathlib.Data.Nat.ModEq

/-!
# The rounds of the circle method

With an even number of players every round is a perfect matching of them: all but the last player
stand on a circle, and a round pairs those at equal distances from the player whose number it has.
Two of them meet in the round whose double is the sum of their numbers modulo the size of the circle.
That size is odd, so there is exactly one such round. Every round lists its pairs in ascending order,
and a phantom among the players takes only its own pair out of it.
-/

namespace AllPairs.CircleMethod

open scoped List

/-! ## A round is a matching -/

theorem rotate_range_perm (m r : Nat) :
    ((List.range m).map fun k => (r + k) % m).Perm (List.range m) := by
  have unique : ((List.range m).map fun k => (r + k) % m).Nodup := by
    refine List.Nodup.map_on ?_ List.nodup_range
    intro k hk l hl same
    have cancelled : k ≡ l [MOD m] := Nat.ModEq.add_left_cancel' r same
    exact cancelled.eq_of_lt_of_lt (List.mem_range.mp hk) (List.mem_range.mp hl)
  have bound : ((List.range m).map fun k => (r + k) % m) ⊆ List.range m := by
    intro x hx
    obtain ⟨k, hk, rfl⟩ := List.mem_map.mp hx
    rw [List.mem_range] at hk ⊢
    exact Nat.mod_lt _ (by omega)
  exact (List.subperm_of_subset unique bound).perm_of_length_le (by simp)

theorem ordered_perm (a b : Nat) : [(ordered a b).1, (ordered a b).2].Perm [a, b] := by
  simp only [ordered]
  rcases Nat.le_total a b with h | h
  · rw [Nat.min_eq_left h, Nat.max_eq_right h]
  · rw [Nat.min_eq_right h, Nat.max_eq_left h]
    exact .swap a b []

/-- The distances on both sides of the fixed player reach around the circle. -/
theorem distances_perm (half : Nat) :
    ((0 :: List.range' 1 half) ++ (List.range' 1 half).map fun k => 2 * half + 1 - k).Perm
      (List.range (2 * half + 1)) := by
  have back : ((List.range' 1 half).map fun k => 2 * half + 1 - k).Perm
      (List.range' (half + 1) half) := by
    refine (List.perm_ext_iff_of_nodup ?_ List.nodup_range').mpr ?_
    · refine List.Nodup.map_on ?_ List.nodup_range'
      intro k hk l hl same
      rw [List.mem_range'_1] at hk hl
      omega
    · intro x
      simp only [List.mem_map, List.mem_range'_1]
      constructor
      · rintro ⟨k, hk, rfl⟩
        omega
      · intro hx
        exact ⟨2 * half + 1 - x, by omega, by omega⟩
  have split : List.range (2 * half + 1) =
      0 :: List.range' 1 half ++ List.range' (half + 1) half := by
    rw [List.range_eq_range', List.range'_succ, Nat.two_mul, Nat.zero_add, List.cons_append,
      Nat.add_comm half 1, List.range'_append_1]
  rw [split]
  exact back.append_left _

/-- Every player has exactly one meeting in a round. -/
theorem meetings_perm {players round : Nat} (even : players % 2 = 0) (two : 2 ≤ players)
    (inside : round < players - 1) :
    ((meetings players round).flatMap fun pair => [pair.1, pair.2]).Perm (List.range players) := by
  obtain ⟨half, rfl⟩ : ∃ half, players = 2 * half + 2 := ⟨players / 2 - 1, by omega⟩
  have circle : 2 * half + 2 - 1 = 2 * half + 1 := by omega
  have offsets : (2 * half + 2) / 2 - 1 = half := by omega
  rw [circle] at inside
  -- The players at a distance on either side, in one list along the circle.
  let seat := fun k => (round + k) % (2 * half + 1)
  let mirror := fun k => 2 * half + 1 - k
  have pairs : ((List.range' 1 half).flatMap fun k =>
        let pair := ordered (seat k) ((round + (2 * half + 1) - k) % (2 * half + 1))
        [pair.1, pair.2]).Perm
      ((List.range' 1 half).map seat ++ ((List.range' 1 half).map mirror).map seat) := by
    calc _
      _ ~ (List.range' 1 half).flatMap fun k => [seat k, seat (mirror k)] := by
        refine List.Perm.flatMap_left _ fun k hk => ?_
        rw [List.mem_range'_1] at hk
        rw [Nat.add_sub_assoc (by omega)]
        exact ordered_perm ..
      _ ~ (List.range' 1 half).map seat ++ (List.range' 1 half).flatMap fun k => [seat (mirror k)] :=
        (List.map_append_flatMap_perm ..).symm
      _ = _ := by rw [← List.map_eq_flatMap, List.map_map]; rfl
  have start : seat 0 = round := Nat.mod_eq_of_lt inside
  calc (meetings (2 * half + 2) round).flatMap fun pair => [pair.1, pair.2]
    _ = round :: (2 * half + 1) :: (List.range' 1 half).flatMap fun k =>
        let pair := ordered (seat k) ((round + (2 * half + 1) - k) % (2 * half + 1))
        [pair.1, pair.2] := by
      simp only [meetings, circle, offsets, List.flatMap_cons, List.flatMap_map]
      rfl
    _ ~ (2 * half + 1) :: round :: ((List.range' 1 half).map seat ++
        ((List.range' 1 half).map mirror).map seat) :=
      (List.Perm.swap ..).trans ((pairs.cons _).cons _)
    _ = (2 * half + 1) :: ((0 :: List.range' 1 half) ++ (List.range' 1 half).map mirror).map seat := by
      rw [List.map_append, List.map_cons, start, List.cons_append]
    _ ~ (2 * half + 1) :: List.range (2 * half + 1) :=
      (((distances_perm half).map seat).trans (rotate_range_perm _ round)).cons _
    _ ~ List.range (2 * half + 1) ++ [2 * half + 1] := (List.perm_append_singleton ..).symm
    _ = List.range (2 * half + 2) := List.range_succ.symm

/-- The players of a round, with those of the phantom's pair left out, are all different. -/
theorem disjoint_round {players number : Nat} (even : players % 2 = 0) (two : 2 ≤ players)
    (inside : number < players - 1) (phantom : Partition) :
    (Batch.ofPairs (round players number phantom)).Disjoint := by
  have perm : (round players number phantom).Perm
      ((meetings players number).filter fun pair => pair.1 ≠ phantom ∧ pair.2 ≠ phantom) :=
    List.mergeSort_perm ..
  have all : (Batch.ofPairs (meetings players number)).Disjoint := by
    rw [Batch.Disjoint, Batch.partitions_ofPairs]
    exact (meetings_perm even two inside).nodup_iff.mpr List.nodup_range
  have kept : (Batch.ofPairs ((meetings players number).filter fun pair =>
      pair.1 ≠ phantom ∧ pair.2 ≠ phantom)).Disjoint :=
    all.sublist (List.filter_sublist.map _)
  rw [Batch.Disjoint, Batch.partitions_ofPairs] at kept ⊢
  exact (perm.flatMap_right _).nodup_iff.mpr kept

theorem nodup_round {players number : Nat} (even : players % 2 = 0) (two : 2 ≤ players)
    (inside : number < players - 1) (phantom : Partition) : (round players number phantom).Nodup := by
  have apart := (Batch.disjoint_iff.mp (disjoint_round even two inside phantom)).2
  refine apart.of_map _ ?_
  intro pair other apart same
  exact Task.not_apart_self _ (same ▸ apart)

/-- Pairs of lower numbers than that of the phantom are all real. -/
theorem filter_real {pairs : List (Partition × Partition)} {phantom : Partition}
    (below : ∀ p ∈ pairs.flatMap fun pair => [pair.1, pair.2], p < phantom) :
    pairs.filter (fun pair => pair.1 ≠ phantom ∧ pair.2 ≠ phantom) = pairs := by
  rw [List.filter_eq_self]
  intro pair mem
  have first := below pair.1 (List.mem_flatMap.mpr ⟨pair, mem, by simp⟩)
  have second := below pair.2 (List.mem_flatMap.mpr ⟨pair, mem, by simp⟩)
  exact decide_eq_true ⟨Nat.ne_of_lt first, Nat.ne_of_lt second⟩

/-- A round without a phantom among its players is a perfect matching. -/
theorem partitions_round_perm {players number : Nat} {phantom : Partition}
    (even : players % 2 = 0) (two : 2 ≤ players) (inside : number < players - 1)
    (real : players ≤ phantom) :
    (Batch.ofPairs (round players number phantom)).partitions.Perm (List.range players) := by
  have matching := meetings_perm even two inside
  have below : ∀ p ∈ (meetings players number).flatMap fun pair => [pair.1, pair.2], p < phantom := by
    intro p hp
    exact Nat.lt_of_lt_of_le (List.mem_range.mp (matching.mem_iff.mp hp)) real
  rw [Batch.partitions_ofPairs, round, filter_real below]
  exact ((List.mergeSort_perm _ _).flatMap_right _).trans matching

/-- With a phantom as the last player, the player whose number is that of the round has a bye and the
others are matched. -/
theorem partitions_round_bye {players number : Nat} (even : players % 2 = 0) (two : 2 ≤ players)
    (inside : number < players - 1) :
    (number :: (Batch.ofPairs (round players number (players - 1))).partitions).Perm
      (List.range (players - 1)) := by
  have matching := meetings_perm even two inside
  obtain ⟨rest, split⟩ : ∃ rest, meetings players number = (number, players - 1) :: rest := ⟨_, rfl⟩
  have last : List.range players = List.range (players - 1) ++ [players - 1] := by
    rw [← List.range_succ]
    congr 1
    omega
  rw [split, List.flatMap_cons, last] at matching
  have others : (number :: rest.flatMap fun pair => [pair.1, pair.2]).Perm
      (List.range (players - 1)) := by
    have swapped := (List.Perm.swap number (players - 1) _).trans matching
    exact (swapped.trans (List.perm_append_singleton _ _)).cons_inv
  have below : ∀ p ∈ rest.flatMap fun pair => [pair.1, pair.2], p < players - 1 := by
    intro p hp
    exact List.mem_range.mp (others.mem_iff.mp (List.mem_cons_of_mem _ hp))
  rw [Batch.partitions_ofPairs, round, split, List.filter_cons_of_neg (by simp), filter_real below]
  exact (((List.mergeSort_perm _ _).flatMap_right _).cons _).trans others

/-! ## Two players meet in one round -/

theorem mod_of_lt_two_mul {m x : Nat} (h : x < 2 * m) : x % m = if x < m then x else x - m := by
  split
  · exact Nat.mod_eq_of_lt ‹_›
  · rw [Nat.mod_eq_sub_mod (by omega), Nat.mod_eq_of_lt (by omega)]

theorem mod_eq_mod_iff {m s t : Nat} (hs : s < 2 * m) (ht : t < 2 * m) :
    s % m = t % m ↔ s = t ∨ s = t + m ∨ t = s + m := by
  rw [mod_of_lt_two_mul hs, mod_of_lt_two_mul ht]
  split <;> split <;> omega

/-- A pair of players on the circle meets in the round whose double is the sum of their numbers; the
player outside the circle meets the one whose number is that of the round. -/
theorem mem_meetings {players round a b : Nat} (even : players % 2 = 0) (inside : round < players - 1) :
    (a, b) ∈ meetings players round ↔
      a < b ∧ (b = players - 1 ∧ a = round ∨
        b < players - 1 ∧ (a + b) % (players - 1) = 2 * round % (players - 1)) := by
  obtain ⟨half, rfl⟩ : ∃ half, players = 2 * half + 2 := ⟨players / 2 - 1, by omega⟩
  have circle : 2 * half + 2 - 1 = 2 * half + 1 := by omega
  have offsets : (2 * half + 2) / 2 - 1 = half := by omega
  rw [circle] at inside ⊢
  simp only [meetings, circle, offsets, List.mem_cons, Prod.mk.injEq, List.mem_map,
    List.mem_range'_1, ordered]
  constructor
  · rintro (⟨rfl, rfl⟩ | ⟨k, hk, rfl, rfl⟩)
    · exact ⟨inside, .inl ⟨rfl, rfl⟩⟩
    · have ahead := mod_of_lt_two_mul (m := 2 * half + 1) (x := round + k) (by omega)
      have behind := mod_of_lt_two_mul (m := 2 * half + 1) (x := round + (2 * half + 1) - k) (by omega)
      generalize (round + k) % (2 * half + 1) = a at ahead ⊢
      generalize (round + (2 * half + 1) - k) % (2 * half + 1) = b at behind ⊢
      split at ahead <;> split at behind <;> rw [mod_eq_mod_iff (by omega) (by omega)] <;> omega
  · rintro ⟨ascending, ⟨rfl, rfl⟩ | ⟨below, sum⟩⟩
    · exact .inl ⟨rfl, rfl⟩
    · rw [mod_eq_mod_iff (by omega) (by omega)] at sum
      -- The distance of both players from the one in the middle, along the shorter arc.
      have arc : ∃ k, (1 ≤ k ∧ k < 1 + half) ∧
          (round + k = b ∧ round = a + k ∨
            round + k = a ∧ round + (2 * half + 1) = b + k ∨
            round + k = a + (2 * half + 1) ∧ round = b + k) := by
        rcases sum with same | high | low
        · exact ⟨round - a, by omega, by omega⟩
        · exact ⟨2 * half + 1 + round - b, by omega, by omega⟩
        · exact ⟨2 * half + 1 + a - round, by omega, by omega⟩
      obtain ⟨k, hk, place⟩ := arc
      refine .inr ⟨k, hk, ?_⟩
      have ahead := mod_of_lt_two_mul (m := 2 * half + 1) (x := round + k) (by omega)
      have behind := mod_of_lt_two_mul (m := 2 * half + 1) (x := round + (2 * half + 1) - k) (by omega)
      generalize (round + k) % (2 * half + 1) = c at ahead ⊢
      generalize (round + (2 * half + 1) - k) % (2 * half + 1) = d at behind ⊢
      split at ahead <;> split at behind <;> lia

theorem lt_of_mem_meetings {players round a b : Nat} (even : players % 2 = 0)
    (inside : round < players - 1) (meet : (a, b) ∈ meetings players round) : a < b ∧ b < players := by
  obtain ⟨ascending, place⟩ := (mem_meetings even inside).mp meet
  exact ⟨ascending, by omega⟩

/-- Every two players meet in some round. -/
theorem exists_meeting {players a b : Nat} (even : players % 2 = 0) (ascending : a < b)
    (below : b < players) : ∃ number < players - 1, (a, b) ∈ meetings players number := by
  by_cases outside : b = players - 1
  · have inside : a < players - 1 := by omega
    exact ⟨a, inside, (mem_meetings even inside).mpr ⟨ascending, .inl ⟨outside, rfl⟩⟩⟩
  · -- The sum of the two players, or that sum moved once around the odd circle, is even.
    have double : ∃ number < players - 1, a + b = 2 * number ∨
        a + b = 2 * number + (players - 1) ∨ 2 * number = a + b + (players - 1) := by
      by_cases parity : (a + b) % 2 = 0
      · exact ⟨(a + b) / 2, by omega, by omega⟩
      · by_cases short : a + b < players - 1
        · exact ⟨(a + b + (players - 1)) / 2, by omega, by omega⟩
        · exact ⟨(a + b - (players - 1)) / 2, by omega, by omega⟩
    obtain ⟨number, inside, sum⟩ := double
    refine ⟨number, inside, (mem_meetings even inside).mpr ⟨ascending, .inr ⟨by omega, ?_⟩⟩⟩
    rw [mod_eq_mod_iff (by omega) (by omega)]
    exact sum

/-- No two players meet in two rounds, since a double tells the rounds of an odd circle apart. -/
theorem round_unique {players number other a b : Nat} (even : players % 2 = 0)
    (inside : number < players - 1) (insideOther : other < players - 1)
    (meet : (a, b) ∈ meetings players number) (again : (a, b) ∈ meetings players other) :
    number = other := by
  obtain ⟨-, ⟨outside, same⟩ | ⟨below, sum⟩⟩ := (mem_meetings even inside).mp meet
  · obtain ⟨-, ⟨-, sameOther⟩ | ⟨belowOther, -⟩⟩ := (mem_meetings even insideOther).mp again
    · exact same.symm.trans sameOther
    · exact absurd outside (Nat.ne_of_lt belowOther)
  · obtain ⟨-, ⟨outsideOther, -⟩ | ⟨-, sumOther⟩⟩ := (mem_meetings even insideOther).mp again
    · exact absurd outsideOther (Nat.ne_of_lt below)
    · have doubles : 2 * number % (players - 1) = 2 * other % (players - 1) := sum.symm.trans sumOther
      rw [mod_eq_mod_iff (by omega) (by omega)] at doubles
      omega

/-! ## The rounds of a tournament -/

theorem mem_round {players number a b : Nat} {phantom : Partition} :
    (a, b) ∈ round players number phantom ↔
      (a, b) ∈ meetings players number ∧ a ≠ phantom ∧ b ≠ phantom := by
  rw [round, (List.mergeSort_perm _ _).mem_iff]
  simp

/-- A pair of partitions meets in some round of the tournament, and only pairs of partitions do. -/
theorem mem_flatten_rounds {n a b : Nat} :
    (a, b) ∈ (rounds n).flatten ↔ a < b ∧ b < n := by
  unfold rounds
  by_cases small : n ≤ 1
  · simp [small]
    omega
  rw [if_neg small]
  simp only [List.mem_flatten, List.mem_map, List.mem_range, exists_exists_and_eq_and, mem_round]
  constructor
  · rintro ⟨number, inside, meet, -, real⟩
    obtain ⟨ascending, outside⟩ := (mem_meetings (by omega) inside).mp meet
    refine ⟨ascending, ?_⟩
    lia
  · rintro ⟨ascending, below⟩
    obtain ⟨number, inside, meet⟩ := @exists_meeting (n + n % 2) a b (by omega) ascending (by omega)
    refine ⟨number, inside, meet, ?_, ?_⟩
    · exact Nat.ne_of_lt (Nat.lt_trans ascending below)
    · exact Nat.ne_of_lt below

/-- No two players meet twice. -/
theorem nodup_flatten_rounds (n : Nat) : (rounds n).flatten.Nodup := by
  unfold rounds
  by_cases small : n ≤ 1
  · simp [small]
  rw [if_neg small, List.nodup_flatten, List.pairwise_map]
  constructor
  · intro pairs mem
    obtain ⟨number, inside, rfl⟩ := List.mem_map.mp mem
    exact nodup_round (by omega) (by omega) (List.mem_range.mp inside) n
  · refine List.nodup_range.imp_of_mem ?_
    intro number other inside insideOther different
    rintro ⟨a, b⟩ meet again
    rw [List.mem_range] at inside insideOther
    exact different (round_unique (by omega) inside insideOther (mem_round.mp meet).1
      (mem_round.mp again).1)

/-- The rounds of a tournament enumerate every pair of partitions once. -/
theorem flatten_rounds_perm (n : Nat) : (rounds n).flatten.Perm (Workload.pairsBelow n) := by
  rw [List.perm_ext_iff_of_nodup (nodup_flatten_rounds n) (Workload.nodup_pairsBelow n)]
  rintro ⟨a, b⟩
  rw [mem_flatten_rounds, Workload.mem_pairsBelow]

/-! ## Rounds in ascending order -/

theorem precedes_iff {p q : Partition × Partition} :
    precedes p q = true ↔ p.1 < q.1 ∨ p.1 = q.1 ∧ p.2 ≤ q.2 := by
  simp [precedes]

theorem precedes_antisymm {p q : Partition × Partition} (forth : precedes p q = true)
    (back : precedes q p = true) : p = q := by
  rw [precedes_iff] at forth back
  have first : p.1 = q.1 := by lia
  have second : p.2 = q.2 := by lia
  exact Prod.ext first second

theorem sorted_round (players number : Nat) (phantom : Partition) :
    (round players number phantom).Pairwise fun p q => precedes p q = true := by
  refine List.pairwise_mergeSort ?transitive ?total _
  case transitive =>
    intro p q r hpq hqr
    rw [precedes_iff] at hpq hqr ⊢
    lia
  case total =>
    intro p q
    rw [Bool.or_eq_true, precedes_iff, precedes_iff]
    lia

/-- The pairs of a round are sorted and none is repeated. -/
theorem ascending_round {players number : Nat} (even : players % 2 = 0) (two : 2 ≤ players)
    (inside : number < players - 1) (phantom : Partition) :
    (round players number phantom).Pairwise fun p q => p.1 < q.1 ∨ p.1 = q.1 ∧ p.2 < q.2 := by
  have sorted := sorted_round players number phantom
  have different := nodup_round even two inside phantom
  refine (sorted.and different).imp ?_
  rintro p q ⟨before, differs⟩
  rw [precedes_iff] at before
  have apart : p.1 = q.1 → p.2 ≠ q.2 := fun first second => differs (Prod.ext first second)
  lia

/-! ## Rounds with a phantom among the players -/

/-- A phantom that is no player drops no pair. -/
theorem mem_round_of_real {players number a b : Nat} {phantom : Partition}
    (even : players % 2 = 0) (inside : number < players - 1) (real : players ≤ phantom) :
    (a, b) ∈ round players number phantom ↔ (a, b) ∈ meetings players number := by
  rw [mem_round]
  constructor
  · exact And.left
  · intro meet
    obtain ⟨ascending, below⟩ := lt_of_mem_meetings even inside meet
    exact ⟨meet, by lia, by lia⟩

/-- A player is in exactly one pair of a round. -/
theorem exists_pair_of_player {players number : Nat} {outside player : Partition}
    (even : players % 2 = 0) (two : 2 ≤ players) (inside : number < players - 1)
    (real : players ≤ outside) (playing : player < players) :
    ∃ pair ∈ round players number outside, ∀ other ∈ round players number outside,
      (other.1 = player ∨ other.2 = player) ↔ other = pair := by
  have matched := partitions_round_perm even two inside real
  have mem : player ∈ (Batch.ofPairs (round players number outside)).partitions :=
    matched.mem_iff.mpr (List.mem_range.mpr playing)
  have unique : (Batch.ofPairs (round players number outside)).partitions.Nodup :=
    disjoint_round even two inside outside
  rw [Batch.partitions_ofPairs] at mem unique
  obtain ⟨pair, hpair, takes⟩ := List.mem_flatMap.mp mem
  refine ⟨pair, hpair, ?_⟩
  intro other hother
  constructor
  · intro shared
    by_contra different
    have symmetric : Std.Symm (Function.onFun List.Disjoint
        fun pair : Partition × Partition => [pair.1, pair.2]) := ⟨fun _ _ apart _ hq hp => apart hp hq⟩
    have apart := (List.nodup_flatMap.mp unique).2.forall hother hpair different
    exact apart (by simpa [eq_comm] using shared) takes
  · rintro rfl
    simpa [eq_comm] using takes

/-- A phantom among the players drops its own pair and no other. -/
theorem round_eq_erase {players number : Nat} {outside phantom : Partition}
    {pair : Partition × Partition} (even : players % 2 = 0) (two : 2 ≤ players)
    (inside : number < players - 1) (real : players ≤ outside)
    (own : ∀ other ∈ round players number outside,
      (other.1 = phantom ∨ other.2 = phantom) ↔ other = pair) :
    round players number phantom = (round players number outside).erase pair := by
  have unique := nodup_round even two inside outside
  have sorted : ((round players number outside).erase pair).Pairwise fun p q => precedes p q = true :=
    (sorted_round players number outside).sublist List.erase_sublist
  have same : (round players number phantom).Perm ((round players number outside).erase pair) := by
    rw [List.perm_ext_iff_of_nodup (nodup_round even two inside phantom) (unique.erase pair)]
    rintro ⟨a, b⟩
    rw [unique.mem_erase_iff, mem_round, mem_round_of_real even inside real]
    constructor
    · rintro ⟨meet, first, second⟩
      refine ⟨?_, meet⟩
      intro dropped
      have takes := (own (a, b) ((mem_round_of_real even inside real).mpr meet)).mpr dropped
      exact takes.elim first second
    · rintro ⟨different, meet⟩
      have free := mt (own (a, b) ((mem_round_of_real even inside real).mpr meet)).mp different
      exact ⟨meet, not_or.mp free⟩
  exact same.eq_of_pairwise (fun p q _ _ => precedes_antisymm) (sorted_round players number phantom)
    sorted

/-! ## Main result -/

/-- In each of the rounds every player below `players` is in exactly one pair, and over all of them every
two players, the lower one first, meet in exactly one round. -/
structure OneFactorization (players rounds : Nat) (pairs : Nat → List (Partition × Partition)) : Prop where
  perfect : ∀ number < rounds,
    ((pairs number).flatMap fun pair => [pair.1, pair.2]).Perm (List.range players)
  once : ∀ a b, a < b → b < players → ∃! number, number < rounds ∧ (a, b) ∈ pairs number

theorem oneFactorization_round {players : Nat} {outside : Partition} (even : players % 2 = 0)
    (two : 2 ≤ players) (real : players ≤ outside) :
    OneFactorization players (players - 1) fun number => round players number outside where
  perfect := by
    intro number inside
    rw [← Batch.partitions_ofPairs]
    exact partitions_round_perm even two inside real
  once := by
    intro a b ascending below
    obtain ⟨number, inside, meet⟩ := exists_meeting even ascending below
    refine ⟨number, ⟨inside, (mem_round_of_real even inside real).mpr meet⟩, ?_⟩
    rintro other ⟨insideOther, again⟩
    exact round_unique even insideOther inside ((mem_round_of_real even insideOther real).mp again) meet

/-- The rounds of the circle method for an even number of players. Whoever the phantom is, a round lists
pairs of players in strictly ascending order, the lower player first. Without a phantom among the
players the rounds are a one-factorization: two players on the circle meet in the round whose double is
the sum of their numbers modulo the size of the circle, and the last player meets the one whose number
is that of the round. A phantom among the players takes exactly its own pair out of each round. -/
theorem rounds_oneFactorization {players : Nat} (even : players % 2 = 0) (two : 2 ≤ players) :
    (∀ number < players - 1, ∀ phantom,
      (round players number phantom).Pairwise (fun p q => p.1 < q.1 ∨ p.1 = q.1 ∧ p.2 < q.2) ∧
      ∀ pair ∈ round players number phantom, pair.1 < pair.2 ∧ pair.2 < players) ∧
    (∀ outside, players ≤ outside →
      OneFactorization players (players - 1) (fun number => round players number outside) ∧
      ∀ number < players - 1,
        (∀ a b, a < b → b < players - 1 →
          ((a, b) ∈ round players number outside ↔ a + b ≡ 2 * number [MOD players - 1])) ∧
        (∀ a, (a, players - 1) ∈ round players number outside ↔ a = number) ∧
        ∀ phantom < players, ∃ pair ∈ round players number outside,
          (∀ other ∈ round players number outside,
            (other.1 = phantom ∨ other.2 = phantom) ↔ other = pair) ∧
          round players number phantom = (round players number outside).erase pair) := by
  refine ⟨?listed, ?matched⟩
  case listed =>
    intro number inside phantom
    refine ⟨ascending_round even two inside phantom, ?_⟩
    rintro ⟨a, b⟩ mem
    exact lt_of_mem_meetings even inside (mem_round.mp mem).1
  case matched =>
    intro outside real
    refine ⟨oneFactorization_round even two real, ?_⟩
    intro number inside
    refine ⟨?circle, ?last, ?drops⟩
    case circle =>
      intro a b ascending below
      rw [mem_round_of_real even inside real, mem_meetings even inside]
      constructor
      · rintro ⟨-, ⟨isLast, -⟩ | ⟨-, sum⟩⟩
        · exact absurd isLast (Nat.ne_of_lt below)
        · exact sum
      · exact fun sum => ⟨ascending, .inr ⟨below, sum⟩⟩
    case last =>
      intro a
      rw [mem_round_of_real even inside real, mem_meetings even inside]
      constructor
      · rintro ⟨-, ⟨-, same⟩ | ⟨below, -⟩⟩
        · exact same
        · exact absurd below (Nat.lt_irrefl _)
      · rintro rfl
        exact ⟨inside, .inl ⟨rfl, rfl⟩⟩
    case drops =>
      intro phantom playing
      obtain ⟨pair, mem, own⟩ := exists_pair_of_player even two inside real playing
      exact ⟨pair, mem, own, round_eq_erase even two inside real own⟩

/-- Six players with the phantom 3: round 2 has the pairs of the sum 4 and the last player's own. -/
theorem six_players_oneFactorization :
    6 % 2 = 0 ∧ 2 ≤ 6 ∧ 2 < 6 - 1 ∧ 6 ≤ 6 ∧ 3 < 6 ∧
      OneFactorization 6 5 (fun number => round 6 number 6) ∧
      (0, 4) ∈ round 6 2 6 ∧ (2, 5) ∈ round 6 2 6 ∧
      ∃ pair ∈ round 6 2 6, (pair.1 = 3 ∨ pair.2 = 3) ∧ round 6 2 3 = (round 6 2 6).erase pair := by
  obtain ⟨-, matched⟩ := @rounds_oneFactorization 6 (by decide) (by decide)
  obtain ⟨factors, rounds⟩ := matched 6 (by decide)
  obtain ⟨circle, last, drops⟩ := rounds 2 (by decide)
  obtain ⟨pair, mem, own, dropped⟩ := drops 3 (by decide)
  refine ⟨by decide, by decide, by decide, by decide, by decide, factors, ?_, ?_, pair, mem, ?_, dropped⟩
  · exact (circle 0 4 (by decide) (by decide)).mpr rfl
  · exact (last 2).mpr rfl
  · exact (own pair mem).mpr rfl

example : round 6 2 3 = [(0, 4), (2, 5)] := by cbv

end AllPairs.CircleMethod
