import Mathlib

/-! # Binary search over a sorted list

The branchless search of Rust's `slice::binary_search_by`. On a run of equal keys it lands on the last one. -/

namespace DistDb.Lib

variable {α κ : Type*}

/-- One round halves `size`; `fuel` rounds with `size ≤ fuel` are enough to reach `size ≤ 1`. -/
def binarySearchLoop (cmp : α → Ordering) (xs : List α) : (fuel size base : Nat) → Nat
  | 0, _, base => base
  | fuel + 1, size, base =>
    if 1 < size then
      let half := size / 2
      let mid := base + half
      let base := if xs[mid]?.map cmp = some .gt then base else mid
      binarySearchLoop cmp xs fuel (size - half) base
    else base

/-- `slice::binary_search_by`: `ok` is a matching index, `error` the insertion index. -/
def binarySearchBy (cmp : α → Ordering) (xs : List α) : Except Nat Nat :=
  let base := binarySearchLoop cmp xs xs.length xs.length 0
  match xs[base]? with
  | none => .error base
  | some x =>
    match cmp x with
    | .eq => .ok base
    | .lt => .error (base + 1)
    | .gt => .error base

def binarySearchByKey [Ord κ] (xs : List α) (b : κ) (f : α → κ) : Except Nat Nat :=
  binarySearchBy (fun x => compare (f x) b) xs

theorem binarySearchLoop_le {cmp : α → Ordering} {xs : List α} {n : Nat} (fuel : Nat) :
    ∀ {size base : Nat}, base + size ≤ n → binarySearchLoop cmp xs fuel size base ≤ n := by
  induction fuel with
  | zero => exact fun h => by rw [binarySearchLoop]; omega
  | succ fuel ih =>
    intro size base h
    rw [binarySearchLoop]
    dsimp only
    split
    · apply ih
      split <;> omega
    · omega

theorem binarySearchBy_le (cmp : α → Ordering) (xs : List α) :
    (match binarySearchBy cmp xs with | .ok i => i | .error i => i) ≤ xs.length := by
  have hbase : binarySearchLoop cmp xs xs.length xs.length 0 ≤ xs.length :=
    binarySearchLoop_le _ (by omega)
  rw [binarySearchBy]
  cases hx : xs[binarySearchLoop cmp xs xs.length xs.length 0]? with
  | none => exact hbase
  | some x =>
    have hlt := (List.getElem?_eq_some_iff.mp hx).1
    dsimp only
    cases cmp x with
    | lt => exact hlt
    | eq => exact hbase
    | gt => exact hbase

variable [LinearOrder κ] {key : α → κ} {k : κ} {xs : List α}

/-- In the order of the keys, which may repeat. -/
abbrev SortedBy (key : α → κ) (xs : List α) : Prop := xs.Pairwise fun a b => key a ≤ key b

theorem SortedBy.le_of_lt (h : SortedBy key xs) {i j : Nat} {a b : α} (hij : i < j)
    (ha : xs[i]? = some a) (hb : xs[j]? = some b) : key a ≤ key b := by
  obtain ⟨hi, rfl⟩ := List.getElem?_eq_some_iff.mp ha
  obtain ⟨hj, rfl⟩ := List.getElem?_eq_some_iff.mp hb
  exact List.pairwise_iff_getElem.mp h i j hi hj hij

/-- What the loop keeps: everything at or past `base + size` is above `k`, and `base` itself is
not, unless the window still starts at the front. -/
structure Window (key : α → κ) (k : κ) (xs : List α) (size base : Nat) : Prop where
  inside : base + size ≤ xs.length
  above : ∀ i x, base + size ≤ i → xs[i]? = some x → k < key x
  front : base = 0 ∨ ∃ x, xs[base]? = some x ∧ key x ≤ k

theorem Window.halve {size base : Nat} (hs : SortedBy key xs) (hsize : 1 < size) (h : Window key k xs size base) :
    Window key k xs (size - size / 2) (if xs[base + size / 2]?.map (fun x => compare (key x) k) = some .gt then base
        else base + size / 2) := by
  have hin := h.inside
  have hmid : base + size / 2 < xs.length := by omega
  have hget : xs[base + size / 2]? = some (xs[base + size / 2]) := List.getElem?_eq_getElem hmid
  rw [hget, Option.map_some]
  by_cases hgt : k < key xs[base + size / 2]
  · rw [compare_gt_iff_gt.mpr hgt, if_pos rfl]
    refine ⟨by omega, ?_, h.front⟩
    intro i x hi hx
    -- The window shrinks to the part before `mid`; what lies between is above `mid`'s key.
    rcases Nat.eq_or_lt_of_le (show base + size / 2 ≤ i by omega) with rfl | hlt
    · rw [hget, Option.some.injEq] at hx
      exact hx ▸ hgt
    · exact lt_of_lt_of_le hgt (hs.le_of_lt hlt hget hx)
  · have hne : some (compare (key xs[base + size / 2]) k) ≠ some Ordering.gt := by
      simpa [compare_gt_iff_gt] using hgt
    rw [if_neg hne]
    exact ⟨by omega, fun i x hi hx => h.above i x (by omega) hx, Or.inr ⟨_, hget, not_lt.mp hgt⟩⟩

theorem binarySearchLoop_window (hs : SortedBy key xs) :
    ∀ (fuel size base : Nat), size ≤ fuel → 0 < size → Window key k xs size base →
      Window key k xs 1 (binarySearchLoop (fun x => compare (key x) k) xs fuel size base)
  | 0, size, base, hf, hpos, _ => by omega
  | fuel + 1, size, base, hf, hpos, h => by
    unfold binarySearchLoop
    split
    · exact binarySearchLoop_window hs fuel _ _ (by omega) (by omega) (h.halve hs ‹_›)
    · obtain rfl : size = 1 := by omega
      exact h

theorem binarySearchByKey_spec (hs : SortedBy key xs) :
    match binarySearchByKey xs k key with
    | .ok i => (∃ x, xs[i]? = some x ∧ key x = k) ∧
        ∀ j x, i < j → xs[j]? = some x → k < key x
    | .error i => i ≤ xs.length ∧ (∀ j x, j < i → xs[j]? = some x → key x < k) ∧
        ∀ j x, i ≤ j → xs[j]? = some x → k < key x := by
  by_cases hnil : xs = []
  · subst hnil
    simp [binarySearchByKey, binarySearchBy, binarySearchLoop]
  · have hpos : 0 < xs.length := List.length_pos_iff.mpr hnil
    have hstart : Window key k xs xs.length 0 :=
      ⟨by omega, fun i x hi hx => by
        have := (List.getElem?_eq_some_iff.mp hx).1
        omega, Or.inl rfl⟩
    have hw := binarySearchLoop_window hs xs.length _ _ (Nat.le_refl _) hpos hstart
    simp only [binarySearchByKey, binarySearchBy]
    generalize binarySearchLoop (fun x => compare (key x) k) xs xs.length xs.length 0 = base at hw
    obtain ⟨y, hy⟩ : ∃ y, xs[base]? = some y := ⟨_, List.getElem?_eq_getElem hw.inside⟩
    rw [hy]
    cases hcmp : compare (key y) k with
    | eq =>
      simp only [hcmp]
      exact ⟨⟨y, hy, compare_eq_iff_eq.mp hcmp⟩, fun j x hj hx => hw.above j x hj hx⟩
    | lt =>
      simp only [hcmp]
      refine ⟨hw.inside, fun j x hj hx => ?_, fun j x hj hx => hw.above j x hj hx⟩
      rcases Nat.eq_or_lt_of_le (Nat.le_of_lt_succ hj) with rfl | hlt
      · rw [hy, Option.some.injEq] at hx
        exact hx ▸ compare_lt_iff_lt.mp hcmp
      · exact lt_of_le_of_lt (hs.le_of_lt hlt hx hy) (compare_lt_iff_lt.mp hcmp)
    | gt =>
      simp only [hcmp]
      have hgt : k < key y := compare_gt_iff_gt.mp hcmp
      -- Above `k` at `base` itself: the window never moved off the front.
      obtain rfl : base = 0 := by
        rcases hw.front with h0 | ⟨x, hx, hle⟩
        · exact h0
        · rw [hy, Option.some.injEq] at hx
          exact absurd (hx ▸ hle) (not_le.mpr hgt)
      refine ⟨Nat.zero_le _, fun j x hj _ => absurd hj (Nat.not_lt_zero j), fun j x _ hx => ?_⟩
      rcases Nat.eq_or_lt_of_le (Nat.zero_le j) with rfl | hlt
      · rw [hy, Option.some.injEq] at hx
        exact hx ▸ hgt
      · exact hw.above j x hlt hx

theorem binarySearchByKey_split (hs : SortedBy key xs) :
    match binarySearchByKey xs k key with
    | .ok i => ∃ pre x post, xs = pre ++ x :: post ∧ pre.length = i ∧ key x = k ∧
        (∀ y ∈ pre, key y ≤ k) ∧ ∀ y ∈ post, k < key y
    | .error i => ∃ pre post, xs = pre ++ post ∧ pre.length = i ∧
        (∀ y ∈ pre, key y < k) ∧ ∀ y ∈ post, k < key y := by
  have hspec := binarySearchByKey_spec (k := k) hs
  cases hres : binarySearchByKey xs k key with
  | ok i =>
    simp only [hres] at hspec ⊢
    obtain ⟨⟨x, hx, hkx⟩, habove⟩ := hspec
    obtain ⟨hi, rfl⟩ := List.getElem?_eq_some_iff.mp hx
    have hcut : xs = xs.take i ++ xs[i] :: xs.drop (i + 1) := by
      rw [← List.drop_eq_getElem_cons hi, List.take_append_drop]
    refine ⟨_, _, _, hcut, List.length_take_of_le hi.le, hkx, fun y hy => ?_, fun y hy => ?_⟩
    · rw [hcut, SortedBy, List.pairwise_append] at hs
      exact hkx ▸ hs.2.2 y hy _ (List.mem_cons_self ..)
    · obtain ⟨j, hj⟩ := List.mem_iff_getElem?.mp hy
      rw [List.getElem?_drop] at hj
      exact habove _ y (by omega) hj
  | error i =>
    simp only [hres] at hspec ⊢
    obtain ⟨hi, hbelow, habove⟩ := hspec
    refine ⟨xs.take i, xs.drop i, (List.take_append_drop i xs).symm, List.length_take_of_le hi,
      fun y hy => ?_, fun y hy => ?_⟩
    · obtain ⟨j, hj⟩ := List.mem_iff_getElem?.mp hy
      rw [List.getElem?_take] at hj
      split at hj
      · exact hbelow j y ‹_› hj
      · cases hj
    · obtain ⟨j, hj⟩ := List.mem_iff_getElem?.mp hy
      rw [List.getElem?_drop] at hj
      exact habove _ y (by omega) hj

/-! ## Partitions -/

def partitionPoint (pred : α → Bool) (xs : List α) : Nat :=
  match binarySearchBy (fun x => if pred x then .lt else .gt) xs with
  | .ok i | .error i => i

theorem partitionPoint_append {pred : α → Bool} {xs ys : List α} (hxs : ∀ x ∈ xs, pred x = true)
    (hys : ∀ y ∈ ys, pred y = false) : partitionPoint pred (xs ++ ys) = xs.length := by
  let rank : α → ℕ := fun x => if pred x then 0 else 2
  have hcmp : (fun x => if pred x then Ordering.lt else Ordering.gt) = fun x => compare (rank x) 1 := by
    funext x
    cases h : pred x <;> simp only [rank, h] <;> rfl
  have hrank : ∀ x, rank x ≠ 1 := by
    intro x
    cases h : pred x <;> simp [rank, h]
  have hlow : ∀ x ∈ xs, rank x = 0 := fun x hx => if_pos (hxs x hx)
  have hhigh : ∀ y ∈ ys, rank y = 2 := fun y hy => if_neg (by simp [hys y hy])
  have hsorted : SortedBy rank (xs ++ ys) := by
    refine List.pairwise_append.mpr ⟨List.pairwise_of_forall_mem_list ?_, List.pairwise_of_forall_mem_list ?_, ?_⟩
    · intro a ha b _
      simp [hlow a ha]
    · intro a ha b hb
      simp [hhigh a ha, hhigh b hb]
    · intro a ha b hb
      simp [hlow a ha, hhigh b hb]
  have hspec := binarySearchByKey_spec (k := 1) hsorted
  rw [binarySearchByKey] at hspec
  rw [partitionPoint, hcmp]
  generalize binarySearchBy (fun x => compare (rank x) 1) (xs ++ ys) = result at hspec
  cases result with
  | ok i =>
    obtain ⟨⟨y, -, hy⟩, -⟩ := hspec
    exact absurd hy (hrank y)
  | error i =>
    obtain ⟨hi, hbelow, habove⟩ := hspec
    rw [List.length_append] at hi
    rcases Nat.lt_trichotomy i xs.length with hlt | heq | hgt
    · have := habove i xs[i] (Nat.le_refl _) (by simp [List.getElem?_append, hlt])
      simp [hlow] at this
    · exact heq
    · obtain ⟨j, hj⟩ : ∃ j, j = xs.length := ⟨_, rfl⟩
      have hmem : j - xs.length < ys.length := by omega
      have := hbelow j (ys[j - xs.length]) (by omega) (by
        rw [List.getElem?_append_right (by omega)]
        exact List.getElem?_eq_getElem hmem)
      simp [hhigh] at this

end DistDb.Lib
