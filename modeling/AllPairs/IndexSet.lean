/-!
Finite sets of small indices, kept as the bits of one number. Asking whether an index is in a set
and adding one take a few machine operations for the sets of partitions that occur here.
-/

namespace AllPairs

/-- A finite set of indices: an index is in the set if its bit is set. -/
structure IndexSet where
  bits : Nat
deriving DecidableEq

namespace IndexSet

instance : Membership Nat IndexSet := ⟨fun set index => set.bits.testBit index = true⟩

instance (index : Nat) (set : IndexSet) : Decidable (index ∈ set) :=
  inferInstanceAs (Decidable (set.bits.testBit index = true))

/-- The set without indices. -/
def empty : IndexSet := ⟨0⟩

/-- The set with one more index. -/
def insert (set : IndexSet) (index : Nat) : IndexSet :=
  ⟨set.bits ||| 1 <<< index⟩

/-- The set with every index of a list. -/
def insertEach (set : IndexSet) (indices : List Nat) : IndexSet :=
  indices.foldl insert set

theorem mem_def {index : Nat} {set : IndexSet} : index ∈ set ↔ set.bits.testBit index = true :=
  Iff.rfl

@[simp]
theorem not_mem_empty (index : Nat) : index ∉ empty := by
  simp [mem_def, empty]

@[simp]
theorem mem_insert {i j : Nat} {set : IndexSet} : i ∈ set.insert j ↔ i = j ∨ i ∈ set := by
  simp only [mem_def, insert, Nat.testBit_or, Bool.or_eq_true, Nat.one_shiftLeft,
    Nat.testBit_two_pow, decide_eq_true_eq]
  constructor
  · rintro (h | h)
    · exact .inr h
    · exact .inl h.symm
  · rintro (h | h)
    · exact .inr h.symm
    · exact .inl h

@[simp]
theorem mem_insertEach {i : Nat} {indices : List Nat} {set : IndexSet} :
    i ∈ set.insertEach indices ↔ i ∈ indices ∨ i ∈ set := by
  induction indices generalizing set with
  | nil => simp [insertEach]
  | cons j indices ih =>
    have unfold : set.insertEach (j :: indices) = (set.insert j).insertEach indices := rfl
    rw [unfold, ih, mem_insert, List.mem_cons]
    constructor
    · rintro (h | h | h)
      · exact .inl (.inr h)
      · exact .inl (.inl h)
      · exact .inr h
    · rintro ((h | h) | h)
      · exact .inr (.inl h)
      · exact .inl h
      · exact .inr (.inr h)

end IndexSet
end AllPairs
