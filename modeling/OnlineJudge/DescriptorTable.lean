import Mathlib

/-! Tables of file descriptors as a kernel keeps them for a process: an open file is given the
lowest number that is free. -/
namespace DescriptorTable

/-- Only numbers below `bound` are in use. -/
structure Table (F : Type*) where
  get : ℕ → Option F
  bound : ℕ
  get_eq_none : ∀ fd, bound ≤ fd → get fd = none

namespace Table
variable {F : Type*}

/-- `fd` comes to refer to this file, whatever it referred to before. -/
def put (t : Table F) (fd : ℕ) (f : F) : Table F where
  get := Function.update t.get fd (some f)
  bound := max t.bound (fd+1)
  get_eq_none := by
    intro fd' h
    rw [Function.update_of_ne (by omega)]
    exact t.get_eq_none fd' (by omega)

def close (t : Table F) (fd : ℕ) : Table F where
  get := Function.update t.get fd none
  bound := t.bound
  get_eq_none := by
    intro fd' h
    by_cases hfd : fd' = fd
    · rw [hfd, Function.update_self]
    · rw [Function.update_of_ne hfd]
      exact t.get_eq_none fd' h

theorem exists_free (t : Table F) : ∃ fd, (t.get fd).isNone = true :=
  ⟨t.bound, by rw [t.get_eq_none t.bound le_rfl]; rfl⟩

/-- The number that the next file gets. -/
def lowest (t : Table F) : ℕ := Nat.find t.exists_free

/-- `open`, with the descriptor that it returns. -/
def openFile (t : Table F) (f : F) : ℕ × Table F := (t.lowest, t.put t.lowest f)

/-- `dup2`, which fails where `old` is not open. -/
def dup2 (t : Table F) (old new : ℕ) : Option (Table F) := (t.get old).map (t.put new)

section Put
variable (t : Table F) (fd : ℕ) (f : F)

@[simp] theorem put_get_self : (t.put fd f).get fd = some f := Function.update_self _ _ _

@[simp] theorem close_get_self : (t.close fd).get fd = none := Function.update_self _ _ _

variable {fd} {fd' : ℕ}

theorem put_get_of_ne (h : fd' ≠ fd) : (t.put fd f).get fd' = t.get fd' :=
  Function.update_of_ne h _ _

theorem close_get_of_ne (h : fd' ≠ fd) : (t.close fd).get fd' = t.get fd' :=
  Function.update_of_ne h _ _

theorem lowest_free : t.get t.lowest = none := by
  have hfree := Nat.find_spec t.exists_free
  exact Option.isNone_iff_eq_none.mp hfree

theorem lowest_le (h : t.get fd = none) : t.lowest ≤ fd :=
  Nat.find_min' t.exists_free (Option.isNone_iff_eq_none.mpr h)

theorem lowest_le_bound : t.lowest ≤ t.bound := t.lowest_le (t.get_eq_none _ le_rfl)

/-- A descriptor in use is not the one that the next file gets. -/
theorem ne_lowest {t : Table F} {fd : ℕ} {f : F} (h : t.get fd = some f) : fd ≠ t.lowest := by
  rintro rfl
  rw [t.lowest_free] at h
  simp at h

/-- What was open stays as it was when a file is opened. -/
theorem openFile_get_of_some {t : Table F} {fd : ℕ} {g : F} (h : t.get fd = some g) (f : F) :
    (t.put t.lowest f).get fd = some g := by
  rw [t.put_get_of_ne f (ne_lowest h), h]

theorem dup2_get {old new : ℕ} {f : F} (h : t.get old = some f) :
    t.dup2 old new = some (t.put new f) := by
  simp [dup2, h]

end Put

end Table

end DescriptorTable
