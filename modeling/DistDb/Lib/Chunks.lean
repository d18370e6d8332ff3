import Mathlib

/-! # Splitting a list into chunks

`slice::chunks`, and the slices that a loop over a number of workers hands out. -/

namespace DistDb.Lib

variable {α β : Type*}

def chunksLoop (size : Nat) : Nat → List α → List (List α)
  | 0, _ => []
  | _ + 1, [] => []
  | fuel + 1, x :: xs => (x :: xs).take size :: chunksLoop size fuel ((x :: xs).drop size)

def chunks (size : Nat) (xs : List α) : List (List α) := chunksLoop size xs.length xs

theorem flatten_chunksLoop {size fuel : Nat} (hsize : 0 < size) {xs : List α} (h : xs.length ≤ fuel) :
    (chunksLoop size fuel xs).flatten = xs := by
  induction fuel generalizing xs with
  | zero => rw [List.length_eq_zero_iff.mp (Nat.le_zero.mp h)]; rfl
  | succ fuel ih =>
    cases xs with
    | nil => rfl
    | cons x xs =>
      have hdrop : ((x :: xs).drop size).length ≤ fuel := by
        simp only [List.length_drop, List.length_cons] at h ⊢
        omega
      rw [chunksLoop, List.flatten_cons, ih hdrop]
      exact List.take_append_drop size (x :: xs)

theorem flatten_chunks {size : Nat} (hsize : 0 < size) (xs : List α) : (chunks size xs).flatten = xs :=
  flatten_chunksLoop hsize le_rfl

theorem foldl_chunks {size : Nat} (hsize : 0 < size) (xs : List α) (f : β → α → β) (b : β) :
    (chunks size xs).foldl (fun acc chunk => chunk.foldl f acc) b = xs.foldl f b := by
  conv_rhs => rw [← flatten_chunks hsize xs]
  exact (List.foldl_flatten ..).symm

/-- The slices of at most `size` elements for the workers `worker, worker + 1, …`, each with its
start; the loop ends at the first start behind the list. -/
def workerSlices (size : Nat) (xs : List α) : Nat → Nat → List (Nat × List α)
  | _, 0 => []
  | worker, remaining + 1 =>
    if worker * size ≥ xs.length then []
    else (worker * size, (xs.drop (worker * size)).take size) ::
      workerSlices size xs (worker + 1) remaining

theorem flatMap_workerSlices_from (size : Nat) (xs : List α) (worker remaining : Nat) :
    ((workerSlices size xs worker remaining).flatMap fun slice => slice.2.zipIdx slice.1) =
      ((xs.drop (worker * size)).take (remaining * size)).zipIdx (worker * size) := by
  induction remaining generalizing worker with
  | zero => simp [workerSlices]
  | succ remaining ih =>
    unfold workerSlices
    split
    · rename_i hend
      simp [List.drop_eq_nil_of_le hend]
    · rename_i hstart
      have hlen : ((xs.drop (worker * size)).take size).length = size ∨ (xs.drop ((worker + 1) * size)) = [] := by
        by_cases hfull : (worker + 1) * size ≤ xs.length
        · left
          rw [Nat.succ_mul] at hfull
          simp only [List.length_take, List.length_drop]
          omega
        · exact Or.inr (List.drop_eq_nil_of_le (Nat.le_of_not_le hfull))
      have hsplit : (xs.drop (worker * size)).take ((remaining + 1) * size) = (xs.drop (worker * size)).take size ++
            (xs.drop ((worker + 1) * size)).take (remaining * size) := by
        rw [Nat.succ_mul remaining, Nat.add_comm, List.take_add, List.drop_drop, Nat.succ_mul worker]
      rw [List.flatMap_cons, ih, hsplit, List.zipIdx_append]
      refine congrArg _ ?_
      rcases hlen with hlen | hnil
      · rw [hlen, Nat.succ_mul]
      · simp [hnil]

theorem flatMap_workerSlices {size workers : Nat} {xs : List α} (h : xs.length ≤ workers * size) :
    ((workerSlices size xs 0 workers).flatMap fun slice => slice.2.zipIdx slice.1) = xs.zipIdx := by
  rw [flatMap_workerSlices_from, Nat.zero_mul, List.drop_zero, List.take_of_length_le h]

/-! ## Decoding ahead -/

variable {ρ σ : Type*}

theorem filterMap_workerSlices {workers : Nat} (h : ¬ workers ≤ 1) (f : α × Nat → Option ρ) (xs : List α) :
    ((workerSlices ((xs.length + workers - 1) / workers) xs 0 workers).flatMap fun slice =>
      (slice.2.zipIdx slice.1).filterMap f) = xs.zipIdx.filterMap f := by
  have hcover : xs.length ≤ workers * ((xs.length + workers - 1) / workers) := by
    have hmod := Nat.div_add_mod (xs.length + workers - 1) workers
    have hlt := Nat.mod_lt (xs.length + workers - 1) (show 0 < workers by omega)
    omega
  rw [← List.filterMap_flatMap, flatMap_workerSlices hcover]

theorem foldl_decoded_ahead {decode : α → Option ρ} {step : σ × List (Nat × ρ) → α × Nat → σ × List (Nat × ρ)}
    {apply : σ → α → σ} (hstep : ∀ state x k decoded, (∀ entry ∈ decoded, entry.1 ≠ k) →
      step (state, ((decode x).map (k, ·)).toList ++ decoded) (x, k) = (apply state x, decoded))
    (state : σ) (k : Nat) (xs : List α) :
    (xs.zipIdx k).foldl step (state, (xs.zipIdx k).filterMap fun entry => (decode entry.1).map (entry.2, ·)) =
      (xs.foldl apply state, []) := by
  induction xs generalizing state k with
  | nil => rfl
  | cons x xs ih =>
    have hlater : ∀ entry ∈ (xs.zipIdx (k + 1)).filterMap (fun entry => (decode entry.1).map (entry.2, ·)),
        entry.1 ≠ k := by
      intro entry hentry
      obtain ⟨later, hlater, hmap⟩ := List.mem_filterMap.mp hentry
      obtain ⟨value, -, rfl⟩ := Option.map_eq_some_iff.mp hmap
      exact Nat.ne_of_gt (List.le_snd_of_mem_zipIdx hlater)
    have hcons : ((x :: xs).zipIdx k).filterMap (fun entry => (decode entry.1).map (entry.2, ·)) =
        ((decode x).map (k, ·)).toList ++
          (xs.zipIdx (k + 1)).filterMap fun entry => (decode entry.1).map (entry.2, ·) := by
      cases hdecode : decode x <;> simp [List.zipIdx_cons, hdecode]
    rw [hcons, List.zipIdx_cons, List.foldl_cons, hstep state x k _ hlater, ih]
    rfl

end DistDb.Lib
