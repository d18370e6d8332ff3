import DistDb.Lib.BinarySearch

/-! # Sorted pages

A sorted set kept as a list of pages of bounded size, which are split in the middle when they grow too large. -/

namespace DistDb.Lib

variable {α κ : Type*} [LinearOrder κ] (key : α → κ)

def endsBefore (x : α) (page : List α) : Bool := page.getLast?.any (key · < key x)

def splitPage (limit : Nat) (page : List α) : List (List α) :=
  if limit < page.length then [page.take (page.length / 2), page.drop (page.length / 2)] else [page]

def appendPaged (limit : Nat) (x : α) (pages : List (List α)) : List (List α) :=
  if (pages.getLast?.getD []).length = limit then pages ++ [[x]]
  else pages.dropLast ++ [pages.getLast?.getD [] ++ [x]]

/-- The pages with `x`, or `none` if it is there. An index behind the last page stands for a new one. -/
def insertPaged (limit : Nat) (x : α) (pages : List (List α)) : Option (List (List α)) :=
  if pages.getLast?.any (endsBefore key x) then some (appendPaged limit x pages)
  else
    let pageIndex := partitionPoint (endsBefore key x) pages
    let page := pages.getD pageIndex []
    match binarySearchByKey page (key x) key with
    | .ok _ => none
    | .error insertAt =>
      some (pages.take pageIndex ++ splitPage limit (page.take insertAt ++ x :: page.drop insertAt) ++
        pages.drop (pageIndex + 1))

def removePaged (x : α) : List (List α) → Option (List (List α))
  | [] => none
  | page :: pages =>
    match binarySearchByKey page (key x) key with
    | .ok removeAt => some (if page.eraseIdx removeAt = [] then pages else page.eraseIdx removeAt :: pages)
    | .error _ => (removePaged x pages).map (page :: ·)

/-- Pages of rising elements, none empty or over the limit. -/
structure Paged (limit : Nat) (pages : List (List α)) : Prop where
  sorted : pages.flatten.Pairwise (key · < key ·)
  bounds : ∀ page ∈ pages, page ≠ [] ∧ page.length ≤ limit

variable {key} {limit : Nat} {pages : List (List α)} {page : List α} {x : α}

/-! ## Order and bounds of the parts -/

theorem bounds_splitPage (hlimit : 0 < limit) (hpage : page ≠ []) (hlength : page.length ≤ limit + 1) :
    ∀ half ∈ splitPage limit page, half ≠ [] ∧ half.length ≤ limit := by
  intro half hhalf
  have hpos := List.length_pos_of_ne_nil hpage
  unfold splitPage at hhalf
  split at hhalf
  · simp only [List.mem_cons, List.not_mem_nil, or_false] at hhalf
    rcases hhalf with rfl | rfl
    · rw [← List.length_pos_iff, List.length_take]
      omega
    · rw [← List.length_pos_iff, List.length_drop]
      omega
  · rw [List.mem_singleton.mp hhalf]
    exact ⟨hpage, by omega⟩

theorem flatten_splitPage (limit : Nat) (page : List α) : (splitPage limit page).flatten = page := by
  unfold splitPage
  split <;> simp

namespace Paged

theorem sorted_of_mem (h : Paged key limit pages) (hpage : page ∈ pages) : page.Pairwise (key · < key ·) :=
  h.sorted.sublist (List.sublist_flatten_of_mem hpage)

theorem cons_iff : Paged key limit (page :: pages) ↔ page.Pairwise (key · < key ·) ∧ page ≠ [] ∧ page.length ≤ limit ∧
    (∀ a ∈ page, ∀ b ∈ pages.flatten, key a < key b) ∧ Paged key limit pages := by
  constructor
  · intro h
    obtain ⟨hpage, hpages⟩ := List.forall_mem_cons.mp h.bounds
    obtain ⟨hfirst, hrest, hcross⟩ := List.pairwise_append.mp h.sorted
    exact ⟨hfirst, hpage.1, hpage.2, hcross, hrest, hpages⟩
  · rintro ⟨hfirst, hne, hlength, hcross, hrest⟩
    exact ⟨List.pairwise_append.mpr ⟨hfirst, hrest.sorted, hcross⟩,
      List.forall_mem_cons.mpr ⟨⟨hne, hlength⟩, hrest.bounds⟩⟩

theorem lt_of_endsBefore (hsorted : page.Pairwise (key · < key ·)) (hends : endsBefore key x page = true) :
    ∀ a ∈ page, key a < key x := by
  rcases List.eq_nil_or_concat' page with rfl | ⟨init, last, rfl⟩
  · exact fun a ha => by cases ha
  · intro a ha
    have hlast : key last < key x := by simpa [endsBefore] using hends
    rcases List.mem_append.mp ha with ha | ha
    · exact ((List.pairwise_append.mp hsorted).2.2 a ha last (List.mem_singleton_self _)).trans hlast
    · rwa [List.mem_singleton.mp ha]

theorem exists_le_of_not_endsBefore (hpage : page ≠ []) (hends : endsBefore key x page = false) :
    ∃ last ∈ page, key x ≤ key last := by
  refine ⟨page.getLast hpage, List.getLast_mem hpage, ?_⟩
  simpa [endsBefore, List.getLast?_eq_getLast_of_ne_nil hpage] using hends

theorem cut (h : Paged key limit pages) (hlast : pages.getLast?.any (endsBefore key x) = false) (hne : pages ≠ []) :
    ∃ before page after, pages = before ++ page :: after ∧
      partitionPoint (endsBefore key x) pages = before.length ∧ (∀ a ∈ before.flatten, key a < key x) ∧
      ∃ last ∈ page, key x ≤ key last := by
  obtain ⟨before, rest, rfl, hbefore, hrest⟩ : ∃ before rest, pages = before ++ rest ∧
      (∀ page ∈ before, endsBefore key x page = true) ∧ ∀ page ∈ rest.head?, endsBefore key x page = false := by
    refine ⟨_, _, (List.takeWhile_append_dropWhile (p := endsBefore key x)).symm,
      fun page hpage => List.mem_takeWhile_imp hpage, fun page hpage => ?_⟩
    have := List.head?_dropWhile_not (endsBefore key x) pages
    rw [Option.mem_def.mp hpage] at this
    simpa using this
  cases rest with
  | nil =>
    rw [List.append_nil] at hlast hne
    rw [List.getLast?_eq_getLast_of_ne_nil hne, Option.any_some, hbefore _ (List.getLast_mem hne)] at hlast
    cases hlast
  | cons page after =>
    have hpage : endsBefore key x page = false := hrest page rfl
    have hwit := exists_le_of_not_endsBefore (h.bounds page (by simp)).1 hpage
    refine ⟨before, page, after, rfl, partitionPoint_append hbefore fun other hother => ?_, ?_, hwit⟩
    · -- a later page ends behind the last element of `page`
      rcases List.mem_cons.mp hother with rfl | hother
      · exact hpage
      · obtain ⟨last, hlast, hle⟩ := hwit
        have hmem : other ∈ before ++ page :: after := by simp [hother]
        have hne' := (h.bounds other hmem).1
        have hcross : key last < key (other.getLast hne') := by
          have hsorted := h.sorted
          rw [List.flatten_append, List.flatten_cons, List.pairwise_append, List.pairwise_append] at hsorted
          exact hsorted.2.1.2.2 last hlast _ (List.mem_flatten.mpr ⟨other, hother, List.getLast_mem hne'⟩)
        simp [endsBefore, List.getLast?_eq_getLast_of_ne_nil hne', (hle.trans_lt hcross).le]
    · intro a ha
      obtain ⟨other, hother, ha⟩ := List.mem_flatten.mp ha
      exact lt_of_endsBefore (h.sorted_of_mem (List.mem_append_left _ hother)) (hbefore other hother) a ha

/-! ## Insertion -/

omit [LinearOrder κ] in
theorem appendPaged_concat (limit : Nat) (x : α) (init : List (List α)) (last : List α) :
    appendPaged limit x (init ++ [last]) = init ++ if last.length = limit then [last, [x]] else [last ++ [x]] := by
  unfold appendPaged
  split <;> rename_i hfull <;> simp_all

theorem sorted_insert {l r : List α} (hsorted : (l ++ r).Pairwise (key · < key ·)) (hl : ∀ a ∈ l, key a < key x)
    (hr : ∀ b ∈ r, key x < key b) : (l ++ x :: r).Pairwise (key · < key ·) := by
  obtain ⟨hleft, hright, hcross⟩ := List.pairwise_append.mp hsorted
  refine List.pairwise_append.mpr ⟨hleft, List.pairwise_cons.mpr ⟨hr, hright⟩, fun a ha b hb => ?_⟩
  rcases List.mem_cons.mp hb with rfl | hb
  · exact hl a ha
  · exact hcross a ha b hb

/-- `pages'` has `x` in its place among the elements of `pages`. -/
def Places (key : α → κ) (x : α) (pages pages' : List (List α)) : Prop :=
  ∃ l r, pages.flatten = l ++ r ∧ pages'.flatten = l ++ x :: r ∧ (∀ a ∈ l, key a < key x) ∧ ∀ b ∈ r, key x < key b

theorem Places.sorted {pages' : List (List α)} (h : Places key x pages pages')
    (hsorted : pages.flatten.Pairwise (key · < key ·)) : pages'.flatten.Pairwise (key · < key ·) := by
  obtain ⟨l, r, hflatten, hflatten', hl, hr⟩ := h
  rw [hflatten']
  exact sorted_insert (hflatten ▸ hsorted) hl hr

/-- An element behind the last one goes to the end of the last page, or onto a new one. -/
theorem append_last {init : List (List α)} {last : List α} (h : Paged key limit (init ++ [last])) (hlimit : 0 < limit)
    (hlast : endsBefore key x last = true) : Paged key limit (appendPaged limit x (init ++ [last])) ∧
      Places key x (init ++ [last]) (appendPaged limit x (init ++ [last])) := by
  have hbefore : ∀ a ∈ (init ++ [last]).flatten, key a < key x := by
    intro a ha
    have hlt := lt_of_endsBefore (h.sorted_of_mem (by simp)) hlast
    have hsorted := h.sorted
    rw [List.flatten_append, List.flatten_singleton] at ha hsorted
    rcases List.mem_append.mp ha with ha | ha
    · obtain ⟨b, hb⟩ := List.exists_mem_of_ne_nil _ (h.bounds last (by simp)).1
      exact ((List.pairwise_append.mp hsorted).2.2 a ha b hb).trans (hlt b hb)
    · exact hlt a ha
  have hflatten : (appendPaged limit x (init ++ [last])).flatten = (init ++ [last]).flatten ++ [x] := by
    rw [appendPaged_concat]
    split <;> simp
  have hplaces : Places key x (init ++ [last]) (appendPaged limit x (init ++ [last])) :=
    ⟨_, [], (List.append_nil _).symm, hflatten, hbefore, fun b hb => by cases hb⟩
  refine ⟨⟨hplaces.sorted h.sorted, fun page hpage => ?_⟩, hplaces⟩
  have hbounds := h.bounds last (by simp)
  rw [appendPaged_concat] at hpage
  rcases List.mem_append.mp hpage with hpage | hpage
  · exact h.bounds page (List.mem_append_left _ hpage)
  · split at hpage
    · simp only [List.mem_cons, List.not_mem_nil, or_false] at hpage
      rcases hpage with rfl | rfl
      · exact hbounds
      · exact ⟨List.cons_ne_nil _ _, hlimit⟩
    · rw [List.mem_singleton.mp hpage]
      refine ⟨by simp, ?_⟩
      rw [List.length_append, List.length_singleton]
      omega

/-- An element inside a page stays there, or on one of its halves. -/
theorem insert_inside {before after : List (List α)} {pre post : List α} {last : α}
    (h : Paged key limit (before ++ (pre ++ post) :: after)) (hlimit : 0 < limit)
    (hbefore : ∀ a ∈ before.flatten, key a < key x) (hpre : ∀ a ∈ pre, key a < key x)
    (hpost : ∀ b ∈ post, key x < key b) (hlast : last ∈ pre ++ post) (hle : key x ≤ key last) :
    Paged key limit (before ++ splitPage limit (pre ++ x :: post) ++ after) ∧
      Places key x (before ++ (pre ++ post) :: after) (before ++ splitPage limit (pre ++ x :: post) ++ after) := by
  have hafter : ∀ b ∈ after.flatten, key x < key b := by
    intro b hb
    have hsorted := h.sorted
    simp only [List.flatten_append, List.flatten_cons, List.pairwise_append] at hsorted
    exact hle.trans_lt (hsorted.2.1.2.2 last hlast b hb)
  have hplaces : Places key x (before ++ (pre ++ post) :: after)
      (before ++ splitPage limit (pre ++ x :: post) ++ after) := by
    refine ⟨before.flatten ++ pre, post ++ after.flatten, by simp, by simp [flatten_splitPage], fun a ha => ?_,
      fun b hb => ?_⟩
    · exact (List.mem_append.mp ha).elim (hbefore a) (hpre a)
    · exact (List.mem_append.mp hb).elim (hpost b) (hafter b)
  refine ⟨⟨hplaces.sorted h.sorted, fun other hother => ?_⟩, hplaces⟩
  rw [List.append_assoc] at hother
  rcases List.mem_append.mp hother with hother | hother
  · exact h.bounds other (List.mem_append_left _ hother)
  · rcases List.mem_append.mp hother with hother | hother
    · have hlength := (h.bounds (pre ++ post) (by simp)).2
      rw [List.length_append] at hlength
      refine bounds_splitPage hlimit (by simp) ?_ other hother
      rw [List.length_append, List.length_cons]
      omega
    · exact h.bounds other (by simp [hother])

theorem insert_cases (h : Paged key limit pages) (hlimit : 0 < limit) :
    (insertPaged key limit x pages = none ∧ ∃ a ∈ pages.flatten, key a = key x) ∨
      ∃ pages', insertPaged key limit x pages = some pages' ∧ Paged key limit pages' ∧ Places key x pages pages' := by
  by_cases hends : pages.getLast?.any (endsBefore key x) = true
  · rcases List.eq_nil_or_concat' pages with rfl | ⟨init, last, rfl⟩
    · simp at hends
    · refine .inr ⟨_, by rw [insertPaged, if_pos hends], h.append_last hlimit ?_⟩
      simpa using hends
  · rw [insertPaged, if_neg hends]
    rw [Bool.not_eq_true] at hends
    by_cases hne : pages = []
    · subst hne
      have hsingle : splitPage limit [x] = [[x]] := if_neg (by rw [List.length_singleton]; omega)
      refine .inr ⟨splitPage limit [x] ++ [], rfl, ?_, [], [], rfl, by simp [hsingle], ?_, ?_⟩
      · rw [hsingle]
        exact ⟨by simp, fun page hpage => by rw [List.mem_singleton.mp hpage]; exact ⟨by simp, hlimit⟩⟩
      all_goals exact fun a ha => by cases ha
    · obtain ⟨before, page, after, rfl, hindex, hbefore, last, hlast, hle⟩ := h.cut hends hne
      have hpageSorted : page.Pairwise (key · < key ·) := h.sorted_of_mem (by simp)
      have hgetD : (before ++ page :: after).getD before.length [] = page := by simp
      have hsplit := binarySearchByKey_split (k := key x) (hpageSorted.imp fun hab => hab.le)
      simp only [hindex, hgetD]
      generalize binarySearchByKey page (key x) key = result at hsplit
      cases result with
      | ok i =>
        obtain ⟨pre, y, post, rfl, -, hy, -, -⟩ := hsplit
        exact .inl ⟨rfl, y, by simp, hy⟩
      | error i =>
        obtain ⟨pre, post, rfl, rfl, hpre, hpost⟩ := hsplit
        exact .inr ⟨_, by simp, h.insert_inside hlimit hbefore hpre hpost hlast hle⟩

/-! ## Removal -/

theorem remove_cases (h : Paged key limit pages) :
    (removePaged key x pages = none ∧ ∀ a ∈ pages.flatten, key a ≠ key x) ∨
      ∃ pages' l y r, removePaged key x pages = some pages' ∧ Paged key limit pages' ∧ key y = key x ∧
        pages.flatten = l ++ y :: r ∧ pages'.flatten = l ++ r := by
  induction pages with
  | nil => exact .inl ⟨rfl, fun a ha => by cases ha⟩
  | cons page pages ih =>
    obtain ⟨hsorted, hne, hlength, hcross, hpages⟩ := cons_iff.mp h
    have hsplit := binarySearchByKey_split (k := key x) (hsorted.imp fun hab => hab.le)
    unfold removePaged
    generalize binarySearchByKey page (key x) key = result at hsplit
    cases result with
    | ok i =>
      right
      obtain ⟨pre, y, post, rfl, rfl, hy, -, -⟩ := hsplit
      have herase : (pre ++ y :: post).eraseIdx pre.length = pre ++ post := by
        rw [List.eraseIdx_append_of_length_le (Nat.le_refl _)]
        simp
      simp only [herase]
      have hsub : (pre ++ post).Sublist (pre ++ y :: post) := by simp
      split
      · rename_i hempty
        refine ⟨pages, [], y, pages.flatten, rfl, hpages, hy, ?_, rfl⟩
        obtain ⟨rfl, rfl⟩ := List.append_eq_nil_iff.mp hempty
        rfl
      · rename_i hrest
        refine ⟨_, pre, y, post ++ pages.flatten, rfl, cons_iff.mpr ⟨hsorted.sublist hsub, hrest,
          hsub.length_le.trans hlength, fun a ha => hcross a (hsub.subset ha), hpages⟩, hy, ?_, ?_⟩
        all_goals simp
    | error i =>
      obtain ⟨pre, post, rfl, -, hpre, hpost⟩ := hsplit
      have hother : ∀ a ∈ pre ++ post, key a ≠ key x := by
        intro a ha
        rcases List.mem_append.mp ha with ha | ha
        · exact (hpre a ha).ne
        · exact (hpost a ha).ne'
      rcases ih hpages with ⟨hnone, hnot⟩ | ⟨pages', l, y, r, hsome, hpages', hy, hflatten, hflatten'⟩
      · refine .inl ⟨by simp [hnone], fun a ha => ?_⟩
        rcases List.mem_append.mp ha with ha | ha
        · exact hother a ha
        · exact hnot a ha
      · refine .inr ⟨_, (pre ++ post) ++ l, y, r, by simp [hsome], cons_iff.mpr ⟨hsorted, hne, hlength,
          fun a ha b hb => hcross a ha b ?_, hpages'⟩, hy, ?_, ?_⟩
        · rw [hflatten'] at hb
          rw [hflatten]
          rcases List.mem_append.mp hb with hb | hb
          · exact List.mem_append_left _ hb
          · exact List.mem_append_right _ (List.mem_cons_of_mem _ hb)
        · simp [hflatten]
        · simp [hflatten']

end Paged

end DistDb.Lib
