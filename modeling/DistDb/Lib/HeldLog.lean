import DistDb.Lib.LiveLog

/-! # What a replay holds under a key

The value of the last put, unless a delete came after it. A replay that skips the puts whose value fails a test may
hold a value that the whole log has replaced. -/

namespace DistDb.Lib

variable {κ ν : Type*}

def Held (log : List (LogEvent κ ν)) (key : κ) (value : ν) : Prop :=
  ∃ pre post, log = pre ++ .put key value :: post ∧ key ∉ putKeys post ∧ key ∉ deletedKeys post

variable {log : List (LogEvent κ ν)} {key : κ}

theorem mem_putKeys : key ∈ putKeys log ↔ ∃ value, LogEvent.put key value ∈ log := by
  simp only [putKeys, List.mem_filterMap]
  constructor
  · rintro ⟨event, hmem, hkey⟩
    cases event with
    | put k value =>
      cases hkey
      exact ⟨value, hmem⟩
    | del k => cases hkey
    | skip => cases hkey
  · rintro ⟨value, hmem⟩
    exact ⟨_, hmem, rfl⟩

theorem concat_eq_append_cons_iff {α : Type*} {xs pre post : List α} {x y : α} : xs ++ [y] = pre ++ x :: post ↔
      (post = [] ∧ xs = pre ∧ y = x) ∨ ∃ rest, post = rest ++ [y] ∧ xs = pre ++ x :: rest := by
  constructor
  · intro heq
    rcases post.eq_nil_or_concat' with rfl | ⟨rest, last, rfl⟩
    · obtain ⟨hxs, hy⟩ := List.append_inj' heq rfl
      exact .inl ⟨rfl, hxs, List.singleton_inj.mp hy⟩
    · have hsplit : pre ++ x :: (rest ++ [last]) = (pre ++ x :: rest) ++ [last] := by simp
      obtain ⟨hxs, hy⟩ := List.append_inj' (heq.trans hsplit) rfl
      exact .inr ⟨rest, by rw [List.singleton_inj.mp hy], hxs⟩
  · rintro (⟨rfl, rfl, rfl⟩ | ⟨rest, rfl, rfl⟩)
    · rfl
    · simp

theorem held_concat_iff {event : LogEvent κ ν} {value : ν} : Held (log ++ [event]) key value ↔
      event = .put key value ∨ Held log key value ∧ event.putKey ≠ some key ∧ event.delKey ≠ some key := by
  have hpost : ∀ rest : List (LogEvent κ ν), (key ∉ putKeys (rest ++ [event]) ∧ key ∉ deletedKeys (rest ++ [event])) ↔
      (key ∉ putKeys rest ∧ key ∉ deletedKeys rest) ∧ event.putKey ≠ some key ∧ event.delKey ≠ some key := by
    intro rest
    cases event with
    | put k v =>
      simp only [putKeys_append, putKeys_put, putKeys_nil, deletedKeys_append, deletedKeys_put, deletedKeys_nil,
        List.append_nil, List.mem_append, List.mem_singleton, LogEvent.putKey, LogEvent.delKey, ne_eq,
        Option.some.injEq, reduceCtorEq, not_false_eq_true, and_true, not_or, eq_comm (a := k)]
      exact and_right_comm
    | del k => simp [LogEvent.putKey, LogEvent.delKey, and_assoc, eq_comm]
    | skip => simp [LogEvent.putKey, LogEvent.delKey]
  constructor
  · rintro ⟨pre, post, heq, hkeys⟩
    rcases concat_eq_append_cons_iff.mp heq with ⟨-, -, hevent⟩ | ⟨rest, rfl, hlog⟩
    · exact .inl hevent
    · obtain ⟨hrest, hevent⟩ := (hpost rest).mp hkeys
      exact .inr ⟨⟨pre, rest, hlog, hrest⟩, hevent⟩
  · rintro (rfl | ⟨⟨pre, post, rfl, hkeys⟩, hevent⟩)
    · exact ⟨log, [], rfl, by simp, by simp⟩
    · exact ⟨pre, post ++ [event], by simp, (hpost post).mpr ⟨hkeys, hevent⟩⟩

theorem not_held_nil {value : ν} : ¬ Held [] key value := by
  rintro ⟨pre, post, heq, -⟩
  simp at heq

theorem Held.unique {value value' : ν} (h : Held log key value) (h' : Held log key value') : value = value' := by
  induction log using List.reverseRecOn with
  | nil => exact absurd h not_held_nil
  | append_singleton log event ih =>
    rcases held_concat_iff.mp h with rfl | ⟨hlog, hevent⟩
    · rcases held_concat_iff.mp h' with heq | ⟨-, hput, -⟩
      · cases heq
        rfl
      · exact absurd rfl hput
    · rcases held_concat_iff.mp h' with rfl | ⟨hlog', -⟩
      · exact absurd rfl hevent.1
      · exact ih hlog hlog'

theorem exists_last_put (h : key ∈ putKeys log) :
    ∃ last before after, log = before ++ .put key last :: after ∧ key ∉ putKeys after := by
  induction log with
  | nil => cases h
  | cons event log ih =>
    by_cases hrest : key ∈ putKeys log
    · obtain ⟨last, before, after, rfl, hlast⟩ := ih hrest
      exact ⟨last, event :: before, after, rfl, hlast⟩
    · cases event with
      | put k v =>
        obtain rfl : key = k := (List.mem_cons.mp h).resolve_right hrest
        exact ⟨v, [], log, rfl, hrest⟩
      | del k => exact absurd h hrest
      | skip => exact absurd h hrest

theorem exists_held_iff : (∃ value, Held log key value) ↔
    ∃ pre value post, log = pre ++ .put key value :: post ∧ key ∉ deletedKeys post := by
  constructor
  · rintro ⟨value, pre, post, hlog, -, hdel⟩
    exact ⟨pre, value, post, hlog, hdel⟩
  · rintro ⟨pre, value, post, rfl, hdel⟩
    by_cases hput : key ∈ putKeys post
    · obtain ⟨last, before, after, rfl, hlast⟩ := exists_last_put hput
      simp only [deletedKeys_append, deletedKeys_put, List.mem_append, not_or] at hdel
      exact ⟨last, pre ++ .put key value :: before, after, by simp, hlast, hdel.2⟩
    · exact ⟨value, pre, post, rfl, hput, hdel⟩

theorem exists_held_map_iff {α : Type*} {events : α → LogEvent κ ν} {xs : List α} :
    (∃ value, Held (xs.map events) key value) ↔ ∃ pre x post, xs = pre ++ x :: post ∧
      (∃ value, events x = .put key value) ∧ ∀ y ∈ post, events y ≠ .del key := by
  have hdel : ∀ post : List α, key ∉ deletedKeys (post.map events) ↔ ∀ y ∈ post, events y ≠ .del key := by
    intro post
    simp [mem_deletedKeys]
  rw [exists_held_iff]
  constructor
  · rintro ⟨pre, value, post, heq, hnot⟩
    obtain ⟨pre', rest, rfl, rfl, hrest⟩ := List.map_eq_append_iff.mp heq
    obtain ⟨x, post', rfl, hx, rfl⟩ := List.map_eq_cons_iff.mp hrest
    exact ⟨pre', x, post', rfl, ⟨value, hx⟩, (hdel post').mp hnot⟩
  · rintro ⟨pre, x, post, rfl, ⟨value, hx⟩, hnot⟩
    refine ⟨pre.map events, value, post.map events, ?_, (hdel post).mpr hnot⟩
    rw [List.map_append, List.map_cons, hx]

def keysAfter [DecidableEq κ] (log : List (LogEvent κ ν)) : Finset κ :=
  log.foldl (fun keys event => match event with
    | .put key _ => insert key keys
    | .del key => keys.erase key
    | .skip => keys) ∅

theorem mem_keysAfter [DecidableEq κ] : key ∈ keysAfter log ↔ ∃ value, Held log key value := by
  induction log using List.reverseRecOn with
  | nil =>
    simp only [keysAfter, List.foldl_nil, Finset.notMem_empty, false_iff, not_exists]
    exact fun _ => not_held_nil
  | append_singleton log event ih =>
    have hlast : keysAfter (log ++ [event]) = match event with
        | .put key _ => insert key (keysAfter log)
        | .del key => (keysAfter log).erase key
        | .skip => keysAfter log := by
      rw [keysAfter, List.foldl_concat]
      rfl
    simp only [hlast, held_concat_iff]
    cases event with
    | put k v =>
      rw [Finset.mem_insert, ih]
      by_cases hk : key = k
      · subst hk
        simp
      · simp [hk, Ne.symm hk, LogEvent.putKey, LogEvent.delKey]
    | del k =>
      rw [Finset.mem_erase, ih]
      by_cases hk : key = k
      · subst hk
        simp [LogEvent.delKey]
      · simp [hk, Ne.symm hk, LogEvent.putKey, LogEvent.delKey]
    | skip => simp [ih, LogEvent.putKey, LogEvent.delKey]

namespace Replay

variable [DecidableEq κ]

theorem order_foldl_apply (log : List (LogEvent κ ν)) (state : Replay κ ν) :
    (log.foldl apply state).order = state.order ++ putKeys log := by
  induction log generalizing state with
  | nil => simp
  | cons event log ih =>
    rw [List.foldl_cons, ih]
    cases event <;> simp [apply, put, del]

theorem lookup_foldl_apply {value : ν} : (log.foldl apply empty).rows.lookup key = some value ↔ Held log key value := by
  induction log using List.reverseRecOn with
  | nil =>
    rw [iff_false_right not_held_nil]
    simp [empty]
  | append_singleton log event ih =>
    rw [List.foldl_concat, held_concat_iff, ← ih]
    cases event with
    | put k v =>
      by_cases hk : key = k
      · subst hk
        simp [apply, put, LogEvent.putKey]
      · rw [apply, put, Finmap.lookup_insert_of_ne _ hk]
        simp [LogEvent.putKey, LogEvent.delKey, Ne.symm hk]
    | del k =>
      by_cases hk : key = k
      · subst hk
        simp [apply, del, LogEvent.delKey, Finmap.lookup_erase]
      · rw [apply, del, Finmap.lookup_erase_ne hk]
        simp [LogEvent.putKey, LogEvent.delKey, Ne.symm hk]
    | skip => simp [apply, LogEvent.putKey, LogEvent.delKey]

theorem mem_drain {keys : List κ} {rows : Finmap fun _ : κ => ν} {key : κ} {value : ν} (hmem : key ∈ keys)
    (hlookup : rows.lookup key = some value) : (key, value) ∈ drain keys rows := by
  induction keys generalizing rows with
  | nil => cases hmem
  | cons k keys ih =>
    rw [drain]
    by_cases hk : key = k
    · subst hk
      rw [hlookup]
      exact List.mem_cons_self
    · have hrest := ih ((List.mem_cons.mp hmem).resolve_left hk) (by rwa [Finmap.lookup_erase_ne hk])
      split
      · exact List.mem_cons_of_mem _ hrest
      · exact hrest

theorem mem_finish_iff {key : κ} {value : ν} : (key, value) ∈ (log.foldl apply empty).finish ↔ Held log key value := by
  rw [← lookup_foldl_apply]
  refine ⟨lookup_of_mem_drain, fun hlookup => mem_drain ?_ hlookup⟩
  obtain ⟨pre, post, rfl, -⟩ := lookup_foldl_apply.mp hlookup
  rw [order_foldl_apply, putKeys_append, putKeys_put]
  simp

theorem mem_keys_of_mem_drain {keys : List κ} {rows : Finmap fun _ : κ => ν} {entry : κ × ν}
    (h : entry ∈ drain keys rows) : entry.1 ∈ keys := by
  induction keys generalizing rows with
  | nil => cases h
  | cons k keys ih =>
    rw [drain] at h
    split at h
    · rcases List.mem_cons.mp h with rfl | hmem
      · exact List.mem_cons_self
      · exact List.mem_cons_of_mem _ (ih hmem)
    · exact List.mem_cons_of_mem _ (ih h)

theorem pairwise_drain {r : κ → κ → Prop} {keys : List κ} (h : keys.Pairwise fun a b => a ≠ b → r a b)
    (rows : Finmap fun _ : κ => ν) : (drain keys rows).Pairwise fun a b => r a.1 b.1 := by
  induction keys generalizing rows with
  | nil => exact .nil
  | cons k keys ih =>
    obtain ⟨hhead, htail⟩ := List.pairwise_cons.mp h
    rw [drain]
    split
    · refine List.pairwise_cons.mpr ⟨fun entry hentry => ?_, ih htail _⟩
      refine hhead entry.1 (mem_keys_of_mem_drain hentry) ?_
      rintro rfl
      have hlookup : (rows.erase entry.1).lookup entry.1 = some entry.2 := lookup_of_mem_drain hentry
      simp [Finmap.lookup_erase] at hlookup
    · exact ih htail _

theorem pairwise_finish {r : κ → κ → Prop} (h : (putKeys log).Pairwise fun a b => a ≠ b → r a b) :
    (log.foldl apply empty).finish.Pairwise fun a b => r a.1 b.1 := by
  refine pairwise_drain ?_ _
  rwa [order_foldl_apply]

theorem nodup_map_fst_finish (log : List (LogEvent κ ν)) : ((log.foldl apply empty).finish.map Prod.fst).Nodup := by
  refine List.pairwise_map.mpr (pairwise_finish ?_)
  exact List.pairwise_of_forall fun _ _ hne => hne

theorem length_finish (log : List (LogEvent κ ν)) : (log.foldl apply empty).finish.length = (keysAfter log).card := by
  have hkeys : ((log.foldl apply empty).finish.map Prod.fst).toFinset = keysAfter log := by
    ext key
    simp only [List.mem_toFinset, List.mem_map, mem_keysAfter, ← mem_finish_iff]
    constructor
    · rintro ⟨entry, hmem, rfl⟩
      exact ⟨entry.2, hmem⟩
    · rintro ⟨value, hmem⟩
      exact ⟨_, hmem, rfl⟩
  rw [← hkeys, List.toFinset_card_of_nodup (nodup_map_fst_finish log), List.length_map]

end Replay

/-! ## Logs without the puts that fail a test -/

section Restrict

variable {p : ν → Bool} {value : ν}

def Superseded (p : ν → Bool) (log : List (LogEvent κ ν)) (key : κ) : Prop :=
  ∃ pre value post, log = pre ++ .put key value :: post ∧ p value = true ∧ key ∉ deletedKeys post ∧
    key ∈ putKeys post ∧ ∀ later, LogEvent.put key later ∈ post → p later = false

variable {event : LogEvent κ ν}

theorem putKey_restrict_ne_iff :
    (event.restrict p).putKey ≠ some key ↔ ∀ later, event = .put key later → p later = false := by
  cases event with
  | put k v =>
    cases hp : p v with
    | true =>
      simp only [LogEvent.restrict, hp, ↓reduceIte, LogEvent.putKey, ne_eq, Option.some.injEq, LogEvent.put.injEq]
      constructor
      · rintro hk later ⟨hkey, -⟩
        exact absurd hkey hk
      · rintro hall rfl
        exact absurd (hall v ⟨rfl, rfl⟩) (by simp [hp])
    | false =>
      simp only [LogEvent.restrict, hp, Bool.false_eq_true, ↓reduceIte, LogEvent.putKey, ne_eq, reduceCtorEq,
        not_false_eq_true, LogEvent.put.injEq, true_iff]
      rintro later ⟨-, rfl⟩
      exact hp
  | del k => simp [LogEvent.restrict, LogEvent.putKey]
  | skip => simp [LogEvent.restrict, LogEvent.putKey]

theorem notMem_putKeys_restrict_iff :
    key ∉ putKeys (log.map (LogEvent.restrict p)) ↔ ∀ later, LogEvent.put key later ∈ log → p later = false := by
  simp only [putKeys, List.filterMap_map, List.mem_filterMap, not_exists, not_and, Function.comp_apply]
  constructor
  · intro h later hmem
    exact putKey_restrict_ne_iff.mp (h _ hmem) later rfl
  · intro h event hmem
    exact putKey_restrict_ne_iff.mpr fun later heq => h later (heq ▸ hmem)

theorem restrict_eq_put_iff : event.restrict p = .put key value ↔ event = .put key value ∧ p value = true := by
  cases event with
  | put k v =>
    cases hp : p v with
    | true =>
      simp only [LogEvent.restrict, hp, ↓reduceIte, LogEvent.put.injEq, iff_self_and]
      rintro ⟨-, rfl⟩
      exact hp
    | false =>
      simp only [LogEvent.restrict, hp, Bool.false_eq_true, ↓reduceIte, reduceCtorEq, LogEvent.put.injEq, false_iff]
      rintro ⟨⟨-, rfl⟩, htrue⟩
      exact absurd htrue (by simp [hp])
  | del k => simp [LogEvent.restrict]
  | skip => simp [LogEvent.restrict]

theorem restrict_eq_del_iff : event.restrict p = .del key ↔ event = .del key := by
  cases event with
  | put k v =>
    rw [LogEvent.restrict]
    split <;> simp
  | del k => simp [LogEvent.restrict]
  | skip => simp [LogEvent.restrict]

theorem held_restrict_iff : Held (log.map (LogEvent.restrict p)) key value ↔
    ∃ pre post, log = pre ++ .put key value :: post ∧ p value = true ∧ key ∉ deletedKeys post ∧
      ∀ later, LogEvent.put key later ∈ post → p later = false := by
  constructor
  · rintro ⟨pre, post, heq, hput, hdel⟩
    obtain ⟨pre', rest, rfl, rfl, hrest⟩ := List.map_eq_append_iff.mp heq
    obtain ⟨event, post', rfl, hevent, rfl⟩ := List.map_eq_cons_iff.mp hrest
    obtain ⟨rfl, hp⟩ := restrict_eq_put_iff.mp hevent
    rw [deletedKeys_map_restrict] at hdel
    exact ⟨pre', post', rfl, hp, hdel, notMem_putKeys_restrict_iff.mp hput⟩
  · rintro ⟨pre, post, rfl, hp, hdel, hput⟩
    refine ⟨pre.map (LogEvent.restrict p), post.map (LogEvent.restrict p), ?_, notMem_putKeys_restrict_iff.mpr hput, ?_⟩
    · rw [List.map_append, List.map_cons, restrict_eq_put_iff.mpr ⟨rfl, hp⟩]
    · rwa [deletedKeys_map_restrict]

theorem superseded_iff : Superseded p log key ↔
    (∃ value, Held (log.map (LogEvent.restrict p)) key value) ∧ ∃ last, Held log key last ∧ p last = false := by
  constructor
  · rintro ⟨pre, value, post, rfl, hp, hdel, hput, hlater⟩
    refine ⟨⟨value, held_restrict_iff.mpr ⟨pre, post, rfl, hp, hdel, hlater⟩⟩, ?_⟩
    obtain ⟨last, before, after, rfl, hlast⟩ := exists_last_put hput
    refine ⟨last, ⟨pre ++ .put key value :: before, after, by simp, hlast, ?_⟩, hlater last (by simp)⟩
    simp only [deletedKeys_append, deletedKeys_put, List.mem_append, not_or] at hdel
    exact hdel.2
  · rintro ⟨⟨value, hvalue⟩, last, hheld, hlast⟩
    obtain ⟨pre, post, rfl, hp, hdel, hlater⟩ := held_restrict_iff.mp hvalue
    refine ⟨pre, value, post, rfl, hp, hdel, ?_, hlater⟩
    by_contra hput
    have hsame : value = last := Held.unique ⟨pre, post, rfl, hput, hdel⟩ hheld
    rw [hsame, hlast] at hp
    cases hp

theorem held_and_iff_restrict : Held log key value ∧ p value = true ↔
    Held (log.map (LogEvent.restrict p)) key value ∧ ¬ Superseded p log key := by
  constructor
  · rintro ⟨hheld, hp⟩
    constructor
    · obtain ⟨pre, post, rfl, hput, hdel⟩ := hheld
      exact held_restrict_iff.mpr ⟨pre, post, rfl, hp, hdel,
        fun later hmem => absurd (mem_putKeys.mpr ⟨later, hmem⟩) hput⟩
    · intro hsuper
      obtain ⟨-, last, hlast, hfails⟩ := superseded_iff.mp hsuper
      rw [hlast.unique hheld, hp] at hfails
      cases hfails
  · rintro ⟨hrestricted, hnot⟩
    obtain ⟨pre, post, rfl, hp, hdel, hlater⟩ := held_restrict_iff.mp hrestricted
    refine ⟨⟨pre, post, rfl, fun hput => hnot ⟨pre, value, post, rfl, hp, hdel, hput, hlater⟩, hdel⟩, hp⟩

end Restrict

/-! ## First elements of a filtered list -/

theorem take_filter_eq_take_iff {α : Type*} {xs : List α} {p : α → Bool} {n : Nat} :
    (xs.filter p).take n = xs.take n ↔ ∀ x ∈ xs.take n, p x = true := by
  constructor
  · intro heq x hx
    rw [← heq] at hx
    exact (List.mem_filter.mp (List.mem_of_mem_take hx)).2
  · intro hall
    induction xs generalizing n with
    | nil => rfl
    | cons x xs ih =>
      cases n with
      | zero => rfl
      | succ n =>
        rw [List.take_succ_cons] at hall ⊢
        rw [List.filter_cons_of_pos (hall x List.mem_cons_self), List.take_succ_cons,
          ih fun y hy => hall y (List.mem_cons_of_mem x hy)]

theorem filter_lt_eq_take {α : Type*} {xs : List α} {f : α → ℕ} (h : xs.Pairwise (f · < f ·)) {k : Nat} {x : α}
    (hx : xs[k]? = some x) : xs.filter (fun y => f y < f x) = xs.take k := by
  induction xs generalizing k with
  | nil => simp at hx
  | cons y ys ih =>
    obtain ⟨hhead, htail⟩ := List.pairwise_cons.mp h
    cases k with
    | zero =>
      obtain rfl : y = x := by simpa using hx
      rw [List.take_zero, List.filter_eq_nil_iff]
      intro z hz
      rcases List.mem_cons.mp hz with rfl | hz
      · simp
      · simpa using (hhead z hz).le
    | succ k =>
      have hx' : ys[k]? = some x := by simpa using hx
      have hlt : f y < f x := hhead x (List.mem_of_getElem? hx')
      rw [List.filter_cons_of_pos (by simpa using hlt), List.take_succ_cons, ih htail hx']

theorem take_filter_eq_take_iff_count {α : Type*} {xs : List α} {f : α → ℕ} (h : xs.Pairwise (f · < f ·))
    {p : α → Bool} {n : Nat} : (xs.filter p).take n = xs.take n ↔
      ∀ x ∈ xs, p x = false → n ≤ ((xs.filter p).filter fun y => f y < f x).length := by
  have hcount : ∀ {k x}, xs[k]? = some x →
      ((xs.filter p).filter fun y => f y < f x) = (xs.take k).filter p := fun {k x} hx => by
    rw [List.filter_comm, filter_lt_eq_take h hx]
  rw [take_filter_eq_take_iff]
  constructor
  · intro hall x hx hfails
    obtain ⟨k, hk⟩ := List.mem_iff_getElem?.mp hx
    have hle : n ≤ k := by
      by_contra hlt
      have hmem : x ∈ xs.take n := by
        rw [List.mem_iff_getElem?]
        exact ⟨k, by rw [List.getElem?_take_of_lt (Nat.lt_of_not_le hlt), hk]⟩
      rw [hall x hmem] at hfails
      cases hfails
    obtain ⟨hlength, -⟩ := List.getElem?_eq_some_iff.mp hk
    have hsub : ((xs.take n).filter p).Sublist ((xs.take k).filter p) :=
      ((List.take_prefix_take_left hle).sublist).filter p
    rw [hcount hk]
    calc n = (xs.take n).length := by rw [List.length_take, Nat.min_eq_left (hle.trans hlength.le)]
      _ = ((xs.take n).filter p).length := by rw [List.filter_eq_self.mpr hall]
      _ ≤ _ := hsub.length_le
  · intro hall x hx
    by_contra hfails
    obtain ⟨k, hk⟩ := List.mem_iff_getElem?.mp hx
    have hlt : k < n := by
      obtain ⟨hlength, -⟩ := List.getElem?_eq_some_iff.mp hk
      exact hlength.trans_le (List.length_take_le n xs)
    rw [List.getElem?_take_of_lt hlt] at hk
    have hle := hall x (List.mem_of_mem_take hx) (Bool.eq_false_iff.mpr hfails)
    rw [hcount hk] at hle
    have hbound : ((xs.take k).filter p).length ≤ k :=
      (List.length_filter_le _ _).trans (List.length_take_le k xs)
    omega

end DistDb.Lib
