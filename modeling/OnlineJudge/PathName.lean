import Mathlib

/-! Paths as lists over any alphabet with a separator: entries of directories, and what a path
tells about the names it is made of. -/
namespace PathName
variable {α : Type} (slash : α)

/-- The path of the entry `name` of a directory. -/
def inDir (dir name : List α) : List α := dir ++ slash :: name

/-- The path that goes down from a directory by these names. -/
def below (dir : List α) (names : List (List α)) : List α := names.foldl (inDir slash) dir

theorem below_concat (dir : List α) (names : List (List α)) (name : List α) :
    below slash dir (names ++ [name]) = inDir slash (below slash dir names) name := by
  simp [below]

variable {slash} {dir dir' name name' : List α}

/-- The last separator of a path stands in front of its name. -/
theorem inDir_inj (h : slash ∉ name) (h' : slash ∉ name') :
    inDir slash dir name = inDir slash dir' name' ↔ dir = dir' ∧ name = name' := by
  constructor
  · intro heq
    rcases List.append_eq_append_iff.mp heq with ⟨mid, rfl, hmid⟩ | ⟨mid, rfl, hmid⟩
    · cases mid with
      | nil => simpa using hmid
      -- a second separator would stand in the name
      | cons c mid =>
        obtain ⟨rfl, rfl⟩ := List.cons.inj hmid
        simp at h
    · cases mid with
      | nil => simpa [eq_comm] using hmid
      | cons c mid =>
        obtain ⟨rfl, rfl⟩ := List.cons.inj hmid
        simp at h'
  · rintro ⟨rfl, rfl⟩
    rfl

/-- No entry of a directory has a bare name as its path. -/
theorem inDir_ne_name (h : slash ∉ name') : inDir slash dir name ≠ name' := by
  rintro rfl
  simp [inDir] at h

/-- Paths of one depth agree exactly when they start alike and go through the same names. -/
theorem below_inj {names names' : List (List α)} (hlen : names.length = names'.length)
    (h : ∀ name ∈ names, slash ∉ name) (h' : ∀ name ∈ names', slash ∉ name) :
    below slash dir names = below slash dir' names' ↔ dir = dir' ∧ names = names' := by
  induction names using List.reverseRecOn generalizing names' with
  | nil =>
    obtain rfl : names' = [] := List.length_eq_zero_iff.mp hlen.symm
    simp [below]
  | append_singleton names name ih =>
    rcases List.eq_nil_or_concat names' with rfl | ⟨front, last, rfl⟩
    · simp at hlen
    · rw [List.concat_eq_append] at h' hlen ⊢
      obtain ⟨hfront, hlast⟩ := List.forall_mem_append.mp h
      obtain ⟨hfront', hlast'⟩ := List.forall_mem_append.mp h'
      have hprefix := ih (by simpa using hlen) hfront hfront'
      rw [below_concat, below_concat, inDir_inj (hlast name (by simp)) (hlast' last (by simp)),
        hprefix, List.append_singleton_inj, and_assoc]

end PathName
