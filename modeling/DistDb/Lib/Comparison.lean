import DistDb.Lib.Rows

/-! # Comparisons

Comparisons that are orders on some values, comparisons by one key after another, and comparisons that take
values for numbers where both are numbers and for texts otherwise. -/

namespace DistDb.Lib

variable {α β ν τ : Type}

/-- The comparison is a total preorder on these values. -/
structure OrdersOn (cmp : α → α → Ordering) (values : Set α) : Prop where
  swap : ∀ a ∈ values, ∀ b ∈ values, cmp b a = (cmp a b).swap
  trans : ∀ a ∈ values, ∀ b ∈ values, ∀ c ∈ values,
    (cmp a b).isLE = true → (cmp b c).isLE = true → (cmp a c).isLE = true

theorem isLE_eq_ne_gt (ordering : Ordering) : ordering.isLE = decide (ordering ≠ .gt) := by
  cases ordering <;> rfl

namespace OrdersOn

variable {cmp cmp' : α → α → Ordering} {values : Set α}

theorem total (h : OrdersOn cmp values) {a b : α} (ha : a ∈ values) (hb : b ∈ values) :
    (cmp a b).isLE = true ∨ (cmp b a).isLE = true := by
  rw [h.swap a ha b hb]
  cases cmp a b <;> simp

theorem mono (h : OrdersOn cmp values) {values' : Set α} (hsub : values' ⊆ values) : OrdersOn cmp values' where
  swap a ha b hb := h.swap a (hsub ha) b (hsub hb)
  trans a ha b hb c hc := h.trans a (hsub ha) b (hsub hb) c (hsub hc)

theorem congr (h : ∀ a ∈ values, ∀ b ∈ values, cmp a b = cmp' a b) (hcmp : OrdersOn cmp values) :
    OrdersOn cmp' values where
  swap a ha b hb := by
    rw [← h b hb a ha, ← h a ha b hb]
    exact hcmp.swap a ha b hb
  trans a ha b hb c hc := by
    rw [← h a ha b hb, ← h b hb c hc, ← h a ha c hc]
    exact hcmp.trans a ha b hb c hc

theorem congr_iff (h : ∀ a ∈ values, ∀ b ∈ values, cmp a b = cmp' a b) : OrdersOn cmp values ↔ OrdersOn cmp' values :=
  ⟨congr h, congr fun a ha b hb => (h a ha b hb).symm⟩

theorem image_iff {cmp : β → β → Ordering} {key : α → β} :
    OrdersOn (fun a b => cmp (key a) (key b)) values ↔ OrdersOn cmp (key '' values) := by
  constructor
  · intro h
    constructor
    · rintro _ ⟨a, ha, rfl⟩ _ ⟨b, hb, rfl⟩
      exact h.swap a ha b hb
    · rintro _ ⟨a, ha, rfl⟩ _ ⟨b, hb, rfl⟩ _ ⟨c, hc, rfl⟩
      exact h.trans a ha b hb c hc
  · intro h
    constructor
    · exact fun a ha b hb => h.swap _ ⟨a, ha, rfl⟩ _ ⟨b, hb, rfl⟩
    · exact fun a ha b hb c hc => h.trans _ ⟨a, ha, rfl⟩ _ ⟨b, hb, rfl⟩ _ ⟨c, hc, rfl⟩

theorem comap {cmp : β → β → Ordering} {values : Set β} (h : OrdersOn cmp values) (key : α → β) :
    OrdersOn (fun a b => cmp (key a) (key b)) {a | key a ∈ values} where
  swap a ha b hb := h.swap (key a) ha (key b) hb
  trans a ha b hb c hc := h.trans (key a) ha (key b) hb (key c) hc

theorem descending (h : OrdersOn cmp values) (descending : Bool) :
    OrdersOn (fun a b => if descending then (cmp a b).swap else cmp a b) values := by
  cases descending with
  | false => exact h
  | true =>
    constructor
    · intro a ha b hb
      simp only [↓reduceIte]
      rw [h.swap a ha b hb]
    · intro a ha b hb c hc hab hbc
      simp only [↓reduceIte] at hab hbc ⊢
      rw [← h.swap a ha b hb] at hab
      rw [← h.swap b hb c hc] at hbc
      rw [← h.swap a ha c hc]
      exact h.trans c hc b hb a ha hbc hab

theorem lt_or_le (h : OrdersOn cmp values) {a b : α} (ha : a ∈ values) (hb : b ∈ values) :
    cmp a b = .lt ∨ (cmp b a).isLE = true := by
  rw [h.swap a ha b hb]
  cases cmp a b <;> simp

theorem not_le_of_lt (h : OrdersOn cmp values) {a b : α} (ha : a ∈ values) (hb : b ∈ values) (hab : cmp a b = .lt) :
    ¬ (cmp b a).isLE = true := by
  rw [h.swap a ha b hb, hab]
  simp

theorem lt_of_lt_of_le (h : OrdersOn cmp values) {a b c : α} (ha : a ∈ values) (hb : b ∈ values) (hc : c ∈ values)
    (hab : cmp a b = .lt) (hbc : (cmp b c).isLE = true) : cmp a c = .lt :=
  (h.lt_or_le ha hc).resolve_right fun hca => h.not_le_of_lt ha hb hab (h.trans b hb c hc a ha hbc hca)

theorem lt_of_le_of_lt (h : OrdersOn cmp values) {a b c : α} (ha : a ∈ values) (hb : b ∈ values) (hc : c ∈ values)
    (hab : (cmp a b).isLE = true) (hbc : cmp b c = .lt) : cmp a c = .lt :=
  (h.lt_or_le ha hc).resolve_right fun hca => h.not_le_of_lt hb hc hbc (h.trans c hc a ha b hb hca hab)

theorem andThen (h : OrdersOn cmp values) (h' : OrdersOn cmp' values) :
    OrdersOn (fun a b => (cmp a b).then (cmp' a b)) values := by
  constructor
  · intro a ha b hb
    simp only [h.swap a ha b hb, h'.swap a ha b hb, Ordering.swap_then]
  · intro a ha b hb c hc hab hbc
    simp only [Ordering.isLE_then_iff_or] at hab hbc ⊢
    rcases hab with hab | ⟨hab, hab'⟩
    · have hle : (cmp b c).isLE = true := by
        rcases hbc with hbc | ⟨hbc, -⟩
        · rw [hbc]; rfl
        · rw [hbc]; rfl
      exact .inl (h.lt_of_lt_of_le ha hb hc hab hle)
    · rcases hbc with hbc | ⟨hbc, hbc'⟩
      · exact .inl (h.lt_of_le_of_lt ha hb hc (by rw [hab]; rfl) hbc)
      · have hle : (cmp a c).isLE = true := h.trans a ha b hb c hc (by rw [hab]; rfl) (by rw [hbc]; rfl)
        have hle' : (cmp' a c).isLE = true := h'.trans a ha b hb c hc hab' hbc'
        cases hcase : cmp a c with
        | lt => exact .inl rfl
        | eq => exact .inr ⟨rfl, hle'⟩
        | gt => simp [hcase] at hle

theorem equal : OrdersOn (fun _ _ => .eq) values where
  swap _ _ _ _ := rfl
  trans _ _ _ _ _ _ _ _ := rfl

theorem pairwise_mergeSort {as : List α} (h : OrdersOn cmp {a | a ∈ as}) :
    (as.mergeSort fun a b => cmp a b ≠ .gt).Pairwise fun a b => (cmp a b).isLE = true := by
  simp only [← isLE_eq_ne_gt]
  exact pairwise_mergeSort_of_mem (fun a b => (cmp a b).isLE) h.trans fun a ha b hb => h.total ha hb

theorem pairwise_insertionSort {as : List α} (h : OrdersOn cmp {a | a ∈ as}) :
    (as.insertionSort fun a b => decide (cmp a b ≠ .gt) = true).Pairwise fun a b => (cmp a b).isLE = true := by
  simp only [← isLE_eq_ne_gt]
  exact pairwise_insertionSort_of_mem (fun a b => (cmp a b).isLE) h.trans fun a ha b hb => h.total ha hb

end OrdersOn

/-! ## Numbers among texts -/

section Mixed

variable (number : τ → Option ν) (cmpNumber : ν → ν → Ordering) (cmpText : τ → τ → Ordering)

def mixedCompare : Option τ → Option τ → Ordering
  | none, none => .eq
  | none, some _ => .lt
  | some _, none => .gt
  | some a, some b =>
    match number a, number b with
    | some x, some y => cmpNumber x y
    | _, _ => cmpText a b

/-- No text stands between two numbers that stand the other way round as texts. -/
def NoTextBetween (values : Set (Option τ)) : Prop :=
  ∀ a b t, some a ∈ values → some b ∈ values → some t ∈ values → ∀ x ∈ number a, ∀ y ∈ number b, number t = none →
    (cmpNumber x y).isLE = true → ¬(cmpText b t = .lt ∧ cmpText t a = .lt)

variable {number cmpNumber cmpText} {values : Set (Option τ)}

theorem mixedCompare_swap [Std.OrientedCmp cmpText]
    (hnumbers : OrdersOn cmpNumber {x | ∃ a, some a ∈ values ∧ x ∈ number a}) :
    ∀ a ∈ values, ∀ b ∈ values, mixedCompare number cmpNumber cmpText b a =
      (mixedCompare number cmpNumber cmpText a b).swap := by
  intro a ha b hb
  cases a with
  | none => cases b <;> rfl
  | some a =>
    cases b with
    | none => rfl
    | some b =>
      simp only [mixedCompare]
      cases hx : number a with
      | none =>
        cases number b <;> exact Std.OrientedCmp.eq_swap
      | some x =>
        cases hy : number b with
        | none => exact Std.OrientedCmp.eq_swap
        | some y => exact hnumbers.swap x ⟨a, ha, hx⟩ y ⟨b, hb, hy⟩

theorem mixedCompare_ordersOn_iff [Std.TransCmp cmpText] [Std.LawfulEqCmp cmpText]
    (hnumbers : OrdersOn cmpNumber {x | ∃ a, some a ∈ values ∧ x ∈ number a}) :
    OrdersOn (mixedCompare number cmpNumber cmpText) values ↔ NoTextBetween number cmpNumber cmpText values := by
  have hne : ∀ a t : τ, ∀ x ∈ number a, number t = none → cmpText a t ≠ .eq := by
    intro a t x hx ht heq
    rw [Std.LawfulEqCmp.eq_of_compare heq, ht] at hx
    cases hx
  have hlt : ∀ a b : τ, (cmpText a b).isLE = true → cmpText a b ≠ .eq → cmpText a b = .lt := by
    intro a b hle hneq
    cases hcase : cmpText a b with
    | lt => rfl
    | eq => exact absurd hcase hneq
    | gt => simp [hcase] at hle
  have hswap : ∀ a b, cmpText a b = (cmpText b a).swap := fun a b => Std.OrientedCmp.eq_swap
  have hle : ∀ a b : τ, cmpText b a ≠ .lt → (cmpText a b).isLE = true := by
    intro a b hnot
    rw [hswap]
    cases hcase : cmpText b a with
    | lt => exact absurd hcase hnot
    | eq | gt => rfl
  constructor
  · rintro h a b t ha hb ht x hx y hy htext hxy ⟨hbt, hta⟩
    have htrans := h.trans (some a) ha (some b) hb (some t) ht
    simp only [mixedCompare, Option.mem_def.mp hx, Option.mem_def.mp hy, htext] at htrans
    have hat := htrans hxy (by rw [hbt]; rfl)
    rw [hswap, hta] at hat
    simp at hat
  · intro hbetween
    refine ⟨mixedCompare_swap hnumbers, ?_⟩
    intro a ha b hb c hc hab hbc
    cases a with
    | none => cases c <;> rfl
    | some a =>
      cases b with
      | none => simp [mixedCompare] at hab
      | some b =>
        cases c with
        | none => simp [mixedCompare] at hbc
        | some c =>
          simp only [mixedCompare] at hab hbc ⊢
          cases hx : number a with
          | none =>
            simp only [hx] at hab ⊢
            cases hy : number b with
            | none =>
              simp only [hy] at hbc
              exact Std.TransCmp.isLE_trans hab hbc
            | some y =>
              cases hz : number c with
              | none =>
                simp only [hy, hz] at hbc
                exact Std.TransCmp.isLE_trans hab hbc
              | some z =>
                -- a text before one number and so before the next
                simp only [hy, hz] at hbc
                refine hle a c fun hca => hbetween b c a hb hc ha y hy z hz hx hbc ⟨hca, ?_⟩
                exact hlt a b hab fun heq => hne b a y hy hx (Std.OrientedCmp.eq_comm.mp heq)
          | some x =>
            cases hy : number b with
            | none =>
              simp only [hx, hy] at hab hbc ⊢
              cases hz : number c with
              | none => exact Std.TransCmp.isLE_trans hab hbc
              | some z =>
                -- a text between two numbers
                have hatext := hlt a b hab (hne a b x hx hy)
                have hbtext := hlt b c hbc fun heq => hne c b z hz hy (Std.OrientedCmp.eq_comm.mp heq)
                rcases hnumbers.total ⟨a, ha, hx⟩ ⟨c, hc, hz⟩ with hxz | hzx
                · exact hxz
                · exact absurd ⟨hatext, hbtext⟩ (hbetween c a b hc ha hb z hz x hx hy hzx)
            | some y =>
              simp only [hx, hy] at hab hbc ⊢
              cases hz : number c with
              | none =>
                -- two numbers before a text
                simp only [hz] at hbc ⊢
                refine hle a c fun hca => hbetween a b c ha hb hc x hx y hy hz hab ⟨?_, hca⟩
                exact hlt b c hbc (hne b c y hy hz)
              | some z =>
                simp only [hz] at hbc ⊢
                exact hnumbers.trans x ⟨a, ha, hx⟩ y ⟨b, hb, hy⟩ z ⟨c, hc, hz⟩ hab hbc

end Mixed

end DistDb.Lib
