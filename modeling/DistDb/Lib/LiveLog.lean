import Mathlib

/-! # Logs of puts and deletes

`live` says which puts are still there: those that no later event deletes. A replay into a map gives the same entries
as long as no key is put twice. -/

namespace DistDb.Lib

variable {κ ν : Type*}

inductive LogEvent (κ ν : Type*) where
  | put (key : κ) (value : ν)
  | del (key : κ)
  | skip

namespace LogEvent

def putKey : LogEvent κ ν → Option κ
  | put key _ => some key
  | del _ => none
  | skip => none

def delKey : LogEvent κ ν → Option κ
  | put _ _ => none
  | del key => some key
  | skip => none

end LogEvent

def putKeys (log : List (LogEvent κ ν)) : List κ := log.filterMap LogEvent.putKey

def deletedKeys (log : List (LogEvent κ ν)) : List κ := log.filterMap LogEvent.delKey

section Keys

variable (key : κ) (value : ν) (log : List (LogEvent κ ν))

@[simp] theorem putKeys_nil : putKeys ([] : List (LogEvent κ ν)) = [] := rfl

@[simp] theorem putKeys_put : putKeys (.put key value :: log) = key :: putKeys log := rfl

@[simp] theorem putKeys_del : putKeys (.del key :: log) = putKeys log := rfl

@[simp] theorem putKeys_skip : putKeys (.skip :: log) = putKeys log := rfl

@[simp] theorem deletedKeys_nil : deletedKeys ([] : List (LogEvent κ ν)) = [] := rfl

@[simp] theorem deletedKeys_put : deletedKeys (.put key value :: log) = deletedKeys log := rfl

@[simp] theorem deletedKeys_del : deletedKeys (.del key :: log) = key :: deletedKeys log := rfl

@[simp] theorem deletedKeys_skip : deletedKeys (.skip :: log) = deletedKeys log := rfl

end Keys

@[simp] theorem putKeys_append (xs ys : List (LogEvent κ ν)) :
    putKeys (xs ++ ys) = putKeys xs ++ putKeys ys := List.filterMap_append

@[simp] theorem deletedKeys_append (xs ys : List (LogEvent κ ν)) :
    deletedKeys (xs ++ ys) = deletedKeys xs ++ deletedKeys ys := List.filterMap_append

theorem putKeys_map_sublist {α : Type*} {events : α → LogEvent κ ν} {key : α → κ}
    (h : ∀ x k value, events x = .put k value → k = key x) (xs : List α) :
    (putKeys (xs.map events)).Sublist (xs.map key) := by
  induction xs with
  | nil => exact .slnil
  | cons x xs ih =>
    rw [List.map_cons, List.map_cons]
    cases hevent : events x with
    | put k value =>
      rw [putKeys_put, h x k value hevent]
      exact ih.cons_cons _
    | del k => exact ih.cons _
    | skip => exact ih.cons _

theorem mem_deletedKeys {log : List (LogEvent κ ν)} {key : κ} : key ∈ deletedKeys log ↔ LogEvent.del key ∈ log := by
  simp only [deletedKeys, List.mem_filterMap]
  constructor
  · rintro ⟨event, hmem, hkey⟩
    cases event with
    | put k v => cases hkey
    | del k =>
      cases hkey
      exact hmem
    | skip => cases hkey
  · intro hmem
    exact ⟨_, hmem, rfl⟩

def effective (log : List (LogEvent κ ν)) : List (LogEvent κ ν) :=
  log.filter fun event => match event with
    | .skip => false
    | _ => true

theorem effective_append (xs ys : List (LogEvent κ ν)) :
    effective (xs ++ ys) = effective xs ++ effective ys := List.filter_append ..

theorem effective_map_filter {α : Type*} {xs : List α} {events events' : α → LogEvent κ ν}
    {keep : α → Bool} (hkeep : ∀ x ∈ xs, keep x = true → events x = events' x)
    (hskip : ∀ x ∈ xs, keep x = false → events x = .skip) :
    effective (xs.map events) = effective ((xs.filter keep).map events') := by
  induction xs with
  | nil => rfl
  | cons x xs ih =>
    have htail := ih (fun y hy => hkeep y (List.mem_cons_of_mem x hy)) (fun y hy => hskip y (List.mem_cons_of_mem x hy))
    cases hx : keep x with
    | true =>
      rw [List.filter_cons_of_pos hx, List.map_cons, List.map_cons, hkeep x (List.mem_cons_self ..) hx]
      simp only [effective, List.filter_cons] at htail ⊢
      rw [htail]
    | false =>
      rw [List.filter_cons_of_neg (by simp [hx]), List.map_cons, hskip x (List.mem_cons_self ..) hx]
      exact htail

variable [DecidableEq κ]

def live : List (LogEvent κ ν) → List (κ × ν)
  | [] => []
  | .put key value :: log => if key ∈ deletedKeys log then live log else (key, value) :: live log
  | .del _ :: log => live log
  | .skip :: log => live log

theorem live_append (xs ys : List (LogEvent κ ν)) :
    live (xs ++ ys) = (live xs).filter (fun entry => entry.1 ∉ deletedKeys ys) ++ live ys := by
  induction xs with
  | nil => rfl
  | cons event xs ih =>
    cases event with
    | put key value =>
      simp only [List.cons_append, live, ih, deletedKeys_append, List.mem_append]
      by_cases hxs : key ∈ deletedKeys xs
      · simp [hxs]
      · by_cases hys : key ∈ deletedKeys ys
        · simp [hxs, hys]
        · simp [hxs, hys]
    | del key => exact ih
    | skip => exact ih

theorem mem_live {log : List (LogEvent κ ν)} {key : κ} {value : ν} : (key, value) ∈ live log ↔
      ∃ pre post, log = pre ++ .put key value :: post ∧ key ∉ deletedKeys post := by
  induction log with
  | nil => simp [live]
  | cons event log ih =>
    -- a put at the head is either this entry or leaves the question to the tail
    have hsplit : (∃ pre post, event :: log = pre ++ .put key value :: post ∧ key ∉ deletedKeys post) ↔
        (event = .put key value ∧ key ∉ deletedKeys log) ∨
          ∃ pre post, log = pre ++ .put key value :: post ∧ key ∉ deletedKeys post := by
      constructor
      · rintro ⟨pre, post, heq, hnot⟩
        cases pre with
        | nil =>
          cases heq
          exact Or.inl ⟨rfl, hnot⟩
        | cons e pre =>
          cases heq
          exact Or.inr ⟨pre, post, rfl, hnot⟩
      · rintro (⟨rfl, hnot⟩ | ⟨pre, post, rfl, hnot⟩)
        · exact ⟨[], log, rfl, hnot⟩
        · exact ⟨event :: pre, post, rfl, hnot⟩
    rw [hsplit, ← ih]
    cases event with
    | put k v =>
      by_cases hdel : k ∈ deletedKeys log
      · simp only [live, if_pos hdel, LogEvent.put.injEq]
        constructor
        · exact Or.inr
        · rintro (⟨⟨rfl, rfl⟩, hnot⟩ | hmem)
          · exact absurd hdel hnot
          · exact hmem
      · simp only [live, if_neg hdel, List.mem_cons, Prod.mk.injEq, LogEvent.put.injEq]
        constructor
        · rintro (⟨rfl, rfl⟩ | hmem)
          · exact Or.inl ⟨⟨rfl, rfl⟩, hdel⟩
          · exact Or.inr hmem
        · rintro (⟨⟨rfl, rfl⟩, -⟩ | hmem)
          · exact Or.inl ⟨rfl, rfl⟩
          · exact Or.inr hmem
    | del k => simp [live]
    | skip => simp [live]

theorem map_fst_live_sublist (log : List (LogEvent κ ν)) : ((live log).map Prod.fst).Sublist (putKeys log) := by
  induction log with
  | nil => exact .slnil
  | cons event log ih =>
    cases event with
    | put key value =>
      simp only [live]
      split
      · exact ih.cons key
      · exact ih.cons_cons key
    | del key => exact ih
    | skip => exact ih

def LogEvent.restrict (p : ν → Bool) : LogEvent κ ν → LogEvent κ ν
  | .put key value => if p value then .put key value else .skip
  | .del key => .del key
  | .skip => .skip

omit [DecidableEq κ] in
theorem deletedKeys_map_restrict (p : ν → Bool) (log : List (LogEvent κ ν)) :
    deletedKeys (log.map (LogEvent.restrict p)) = deletedKeys log := by
  induction log with
  | nil => rfl
  | cons event log ih =>
    cases event with
    | put key value => cases hp : p value <;> simp [LogEvent.restrict, hp, ih]
    | del key => simp [LogEvent.restrict, ih]
    | skip => simp [LogEvent.restrict, ih]

/-! ## Replay -/

structure Replay (κ ν : Type*) [DecidableEq κ] where
  rows : Finmap fun _ : κ => ν
  order : List κ

namespace Replay

def empty : Replay κ ν := ⟨∅, []⟩

def put (state : Replay κ ν) (key : κ) (value : ν) : Replay κ ν :=
  ⟨state.rows.insert key value, state.order ++ [key]⟩

def del (state : Replay κ ν) (key : κ) : Replay κ ν := ⟨state.rows.erase key, state.order⟩

def apply (state : Replay κ ν) : LogEvent κ ν → Replay κ ν
  | .put key value => state.put key value
  | .del key => state.del key
  | .skip => state

def drain : List κ → (Finmap fun _ : κ => ν) → List (κ × ν)
  | [], _ => []
  | key :: keys, rows =>
    match rows.lookup key with
    | some value => (key, value) :: drain keys (rows.erase key)
    | none => drain keys (rows.erase key)

def finish (state : Replay κ ν) : List (κ × ν) := drain state.order state.rows

def entriesAt (keys : List κ) (rows : Finmap fun _ : κ => ν) : List (κ × ν) :=
  keys.filterMap fun key => (rows.lookup key).map (key, ·)

theorem entriesAt_congr {keys : List κ} {rows rows' : Finmap fun _ : κ => ν}
    (h : ∀ key ∈ keys, rows.lookup key = rows'.lookup key) : entriesAt keys rows = entriesAt keys rows' :=
  List.filterMap_congr fun key hkey => by rw [h key hkey]

theorem entriesAt_erase (keys : List κ) (rows : Finmap fun _ : κ => ν) (key : κ) :
    entriesAt keys (rows.erase key) = (entriesAt keys rows).filter fun entry => entry.1 ≠ key := by
  simp only [entriesAt, List.filter_filterMap]
  refine List.filterMap_congr fun k _ => ?_
  by_cases hk : k = key
  · subst hk
    cases rows.lookup k <;> simp [Finmap.lookup_erase, Option.filter]
  · rw [Finmap.lookup_erase_ne hk]
    cases rows.lookup k <;> simp [hk, Option.filter]

theorem drain_eq_entriesAt {keys : List κ} (hkeys : keys.Nodup) (rows : Finmap fun _ : κ => ν) :
    drain keys rows = entriesAt keys rows := by
  induction keys generalizing rows with
  | nil => rfl
  | cons key keys ih =>
    obtain ⟨hnot, hnodup⟩ := List.nodup_cons.mp hkeys
    have hrest : entriesAt keys (rows.erase key) = entriesAt keys rows :=
      entriesAt_congr fun k hk => Finmap.lookup_erase_ne (by rintro rfl; exact hnot hk)
    have hcons : entriesAt (key :: keys) rows = ((rows.lookup key).map (key, ·)).toList ++ entriesAt keys rows := by
      cases hlook : rows.lookup key <;> simp [entriesAt, hlook]
    rw [drain, ih hnodup, hrest, hcons]
    cases rows.lookup key <;> rfl

theorem foldl_apply_effective (log : List (LogEvent κ ν)) (state : Replay κ ν) :
    (effective log).foldl apply state = log.foldl apply state := by
  induction log generalizing state with
  | nil => rfl
  | cons event log ih =>
    cases event with
    | put key value => exact ih (state.put key value)
    | del key => exact ih (state.del key)
    | skip => exact ih state

variable {log : List (LogEvent κ ν)}

theorem foldl_apply_spec (hkeys : (putKeys log).Nodup) : (log.foldl apply empty).order = putKeys log ∧
      entriesAt (putKeys log) (log.foldl apply empty).rows = live log := by
  induction log using List.reverseRecOn with
  | nil => exact ⟨rfl, rfl⟩
  | append_singleton log event ih =>
    rw [putKeys_append] at hkeys
    obtain ⟨horder, hrows⟩ := ih hkeys.of_append_left
    rw [List.foldl_concat, live_append, ← hrows]
    cases event with
    | put key value =>
      have hnew : key ∉ putKeys log := fun hmem =>
        List.disjoint_of_nodup_append hkeys hmem (List.mem_singleton_self key)
      have hold : entriesAt (putKeys log) ((log.foldl apply empty).rows.insert key value) =
          entriesAt (putKeys log) (log.foldl apply empty).rows :=
        entriesAt_congr fun k hk =>
          Finmap.lookup_insert_of_ne _ (by rintro rfl; exact hnew hk)
      constructor
      · simp [apply, put, horder]
      · rw [putKeys_append, entriesAt, List.filterMap_append]
        refine congrArg₂ (· ++ ·) (hold.trans ?_) ?_
        · simp
        · simp [apply, put, live]
    | del key =>
      constructor
      · simp [apply, del, horder]
      · rw [putKeys_append, putKeys_del, putKeys_nil, List.append_nil]
        exact (entriesAt_erase _ _ _).trans (by simp [live])
    | skip => simp [apply, horder, live]

theorem finish_foldl_apply (hkeys : (putKeys log).Nodup) : (log.foldl apply empty).finish = live log := by
  obtain ⟨horder, hrows⟩ := foldl_apply_spec hkeys
  rw [finish, horder, drain_eq_entriesAt hkeys, hrows]

theorem lookup_of_lookup_erase {rows : Finmap fun _ : κ => ν} {key k : κ} {value : ν}
    (h : (rows.erase k).lookup key = some value) : rows.lookup key = some value := by
  by_cases hk : key = k
  · rw [hk, Finmap.lookup_erase] at h
    cases h
  · rwa [Finmap.lookup_erase_ne hk] at h

theorem lookup_of_mem_drain {keys : List κ} {rows : Finmap fun _ : κ => ν} {key : κ} {value : ν}
    (h : (key, value) ∈ drain keys rows) : rows.lookup key = some value := by
  induction keys generalizing rows with
  | nil => cases h
  | cons k keys ih =>
    rw [drain] at h
    split at h
    · rename_i value' hvalue'
      rcases List.mem_cons.mp h with heq | hmem
      · cases heq
        exact hvalue'
      · exact lookup_of_lookup_erase (ih hmem)
    · exact lookup_of_lookup_erase (ih h)

theorem put_mem_of_mem_finish {key : κ} {value : ν}
    (h : (key, value) ∈ (log.foldl apply empty).finish) : LogEvent.put key value ∈ log := by
  have hlookup := lookup_of_mem_drain h
  clear h
  induction log using List.reverseRecOn with
  | nil => simp [empty] at hlookup
  | append_singleton log event ih =>
    rw [List.foldl_concat] at hlookup
    cases event with
    | put k v =>
      by_cases hk : key = k
      · rw [apply, put, hk, Finmap.lookup_insert, Option.some.injEq] at hlookup
        simp [hk, hlookup]
      · rw [apply, put, Finmap.lookup_insert_of_ne _ hk] at hlookup
        exact List.mem_append_left _ (ih hlookup)
    | del k => exact List.mem_append_left _ (ih (lookup_of_lookup_erase hlookup))
    | skip => exact List.mem_append_left _ (ih hlookup)

end Replay

end DistDb.Lib
