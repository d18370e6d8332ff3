import Mathlib

/-! # Maps updated key by key

A fold whose steps each change one key of a map leaves, under distinct keys, what each step put
there. -/

namespace DistDb.Lib

variable {α κ ν : Type*} [DecidableEq κ]

/-- Each step writes `f x` of what it finds under `key x`, and nothing else. -/
structure UpdatesKey (step : (Finmap fun _ : κ => ν) → α → Finmap fun _ : κ => ν) (key : α → κ)
    (f : α → Option ν → Option ν) : Prop where
  lookup_key : ∀ map x, (step map x).lookup (key x) = f x (map.lookup (key x))
  lookup_ne : ∀ map x k, k ≠ key x → (step map x).lookup k = map.lookup k

namespace UpdatesKey

variable {step : (Finmap fun _ : κ => ν) → α → Finmap fun _ : κ => ν} {key : α → κ}
  {f : α → Option ν → Option ν} {xs : List α}

theorem lookup_foldl_of_notMem (h : UpdatesKey step key f) {k : κ} (hk : k ∉ xs.map key)
    (map : Finmap fun _ : κ => ν) : (xs.foldl step map).lookup k = map.lookup k := by
  induction xs generalizing map with
  | nil => rfl
  | cons x xs ih =>
    rw [List.map_cons, List.mem_cons, not_or] at hk
    rw [List.foldl_cons, ih hk.2, h.lookup_ne map x k hk.1]

theorem lookup_foldl (h : UpdatesKey step key f) (hnodup : (xs.map key).Nodup) {x : α} (hx : x ∈ xs)
    (map : Finmap fun _ : κ => ν) : (xs.foldl step map).lookup (key x) = f x (map.lookup (key x)) := by
  induction xs generalizing map with
  | nil => cases hx
  | cons y xs ih =>
    obtain ⟨hnot, hrest⟩ := List.nodup_cons.mp hnodup
    rw [List.foldl_cons]
    rcases List.mem_cons.mp hx with rfl | hx
    · rw [h.lookup_foldl_of_notMem hnot, h.lookup_key]
    · have hne : key x ≠ key y := fun heq => hnot (heq ▸ List.mem_map_of_mem hx)
      rw [ih hrest hx, h.lookup_ne _ _ _ hne]

end UpdatesKey

/-! ## In the order of the keys -/

section ByKey

variable {κ : Type*} [LinearOrder κ] (map : Finmap fun _ : κ => ν)

def byKey : List (κ × ν) := (map.keys.sort (· ≤ ·)).filterMap fun key => (map.lookup key).map (key, ·)

variable {map}

@[simp] theorem mem_byKey {key : κ} {value : ν} : (key, value) ∈ byKey map ↔ map.lookup key = some value := by
  simp only [byKey, List.mem_filterMap, Finset.mem_sort, Option.map_eq_some_iff, Prod.mk.injEq]
  constructor
  · rintro ⟨key', -, value', hvalue, rfl, rfl⟩
    exact hvalue
  · intro hvalue
    exact ⟨key, Finmap.mem_keys.mpr (Finmap.mem_of_lookup_eq_some hvalue), value, hvalue, rfl, rfl⟩

theorem nodup_byKey : ((byKey map).map Prod.fst).Nodup := by
  have hkeys : (byKey map).map Prod.fst = (map.keys.sort (· ≤ ·)).filter fun key => (map.lookup key).isSome := by
    unfold byKey
    induction map.keys.sort (· ≤ ·) with
    | nil => rfl
    | cons key keys ih => cases hkey : map.lookup key <;> simp [hkey, ih]
  rw [hkeys]
  exact (Finset.sort_nodup _ _).filter _

end ByKey

end DistDb.Lib
