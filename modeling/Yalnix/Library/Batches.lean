import Mathlib.Data.List.Basic

/-! A server that cuts each job into units and completes one unit at a time,
in the order of the jobs. After `n` completions the units that went out and
the jobs that are done are functions of the jobs and `n` alone. -/
namespace Batches

section Pieces

variable {α : Type*} {n i : Nat} {xs : List α}

/-- `xs` cut into pieces of `n` elements, the last of which may be shorter. -/
def pieces (n : Nat) (xs : List α) : List (List α) :=
  (List.range ((xs.length + n - 1) / n)).map fun i => (xs.drop (i * n)).take n

/-- The `i`-th piece is there when its first element is. -/
theorem lt_length_pieces (hPos : 0 < n) : i < (pieces n xs).length ↔ i * n < xs.length := by
  rw [pieces, List.length_map, List.length_range, ← Nat.succ_le_iff, Nat.le_div_iff_mul_le hPos,
    Nat.succ_mul]
  omega

theorem take_succ_pieces (hPos : 0 < n) (hLt : i * n < xs.length) :
    (pieces n xs).take (i + 1) = (pieces n xs).take i ++ [(xs.drop (i * n)).take n] := by
  have hPiece : (pieces n xs)[i]? = some ((xs.drop (i * n)).take n) := by
    have hLength := (lt_length_pieces hPos).mpr hLt
    rw [List.getElem?_eq_getElem hLength]
    simp [pieces]
  rw [List.take_add_one, hPiece, Option.toList_some]

end Pieces

section Jobs

variable {α β : Type*} (cut : α → List β)

/-- The units of some jobs, in order. -/
def units (jobs : List α) : List β := jobs.flatMap cut

/-- The jobs all of whose units are among the first `n`. -/
def completed : List α → Nat → List α
  | [], _ => []
  | job :: rest, n =>
      if (cut job).length ≤ n then job :: completed rest (n - (cut job).length) else []

@[simp] theorem units_nil : units cut [] = [] := rfl

@[simp] theorem units_append (jobs more : List α) :
    units cut (jobs ++ more) = units cut jobs ++ units cut more := List.flatMap_append

@[simp] theorem units_cons (job : α) (jobs : List α) :
    units cut (job :: jobs) = cut job ++ units cut jobs := List.flatMap_cons

/-- The completed jobs are those whose units fit, up to one whose do not. -/
theorem completed_append {done pending : List α} {n : Nat} (hDone : (units cut done).length ≤ n)
    (hNext : ∀ job ∈ pending.head?, n < (units cut (done ++ [job])).length) :
    completed cut (done ++ pending) n = done := by
  induction done generalizing n with
  | nil =>
      cases pending with
      | nil => rfl
      | cons job rest =>
          have hLt := hNext job (by simp)
          simp only [List.nil_append, units_cons, units_nil, List.append_nil] at hLt
          rw [List.nil_append, completed, if_neg (by omega)]
  | cons first done ih =>
      simp only [List.cons_append, units_cons, List.length_append] at hDone hNext
      rw [List.cons_append, completed, if_pos (by omega), ih (by omega)]
      intro job hJob
      have hLt := hNext job hJob
      omega

end Jobs

end Batches
