import Mathlib

/-! # Runs of a step function

Invariants and simulations over runs, under a condition that each step of the run meets. -/

namespace DistDb.Lib

variable {σ τ ι : Type*} (step : σ → ι → σ)

def runFrom (s : σ) (inputs : List ι) : σ := inputs.foldl step s

/-- Every step of the run meets `P`, which sees the state before the step and its input. -/
def Along (P : σ → ι → Prop) : σ → List ι → Prop
  | _, [] => True
  | s, i :: inputs => P s i ∧ Along P (step s i) inputs

variable {step} {P : σ → ι → Prop}

@[simp] theorem runFrom_nil (s : σ) : runFrom step s [] = s := rfl

@[simp] theorem runFrom_cons (s : σ) (i : ι) (inputs : List ι) :
    runFrom step s (i :: inputs) = runFrom step (step s i) inputs := rfl

theorem runFrom_append (s : σ) (inputs inputs' : List ι) :
    runFrom step s (inputs ++ inputs') = runFrom step (runFrom step s inputs) inputs' :=
  List.foldl_append ..

theorem runFrom_invariant {I : σ → Prop} (hstep : ∀ s i, I s → I (step s i)) {s : σ} (h : I s)
    (inputs : List ι) : I (runFrom step s inputs) := by
  induction inputs generalizing s with
  | nil => exact h
  | cons i inputs ih => exact ih (hstep s i h)

theorem Along.simulates {abstract : τ → ι → τ} {R : σ → τ → Prop}
    (hstep : ∀ s t i, P s i → R s t → R (step s i) (abstract t i)) :
    ∀ {inputs : List ι} {s : σ} {t : τ}, Along step P s inputs → R s t →
      R (runFrom step s inputs) (runFrom abstract t inputs)
  | [], _, _, _, h => h
  | i :: _, s, t, ⟨hi, hrest⟩, h => hrest.simulates hstep (hstep s t i hi h)

theorem Along.invariant {I : σ → Prop} (hstep : ∀ s i, P s i → I s → I (step s i)) :
    ∀ {inputs : List ι} {s : σ}, Along step P s inputs → I s → I (runFrom step s inputs)
  | [], _, _, h => h
  | i :: _, s, ⟨hi, hrest⟩, h => hrest.invariant hstep (hstep s i hi h)

theorem Along.take : ∀ (n : ℕ) {inputs : List ι} {s : σ}, Along step P s inputs → Along step P s (inputs.take n)
  | 0, _, _, _ => trivial
  | _ + 1, [], _, _ => trivial
  | n + 1, _ :: _, _, ⟨hi, hrest⟩ => ⟨hi, hrest.take n⟩

theorem along_of_forall (h : ∀ s i, P s i) : ∀ (inputs : List ι) (s : σ), Along step P s inputs
  | [], _ => trivial
  | i :: inputs, s => ⟨h s i, along_of_forall h inputs (step s i)⟩

theorem along_of_forall_take {A : σ → Prop} {B : ι → Prop} :
    ∀ {inputs : List ι} {s : σ}, (∀ n, A (runFrom step s (inputs.take n))) → (∀ i ∈ inputs, B i) →
      Along step (fun s i => B i ∧ A (step s i)) s inputs
  | [], _, _, _ => trivial
  | _ :: _, _, hA, hB => by
    obtain ⟨hfirst, hrest⟩ := List.forall_mem_cons.mp hB
    exact ⟨⟨hfirst, hA 1⟩, along_of_forall_take (fun n => hA (n + 1)) hrest⟩

/-- Where a condition on steps decides whether they keep a property, the property holds throughout a run if and only
if the run meets the condition. -/
theorem Along.forall_take_iff {C : σ → ι → Prop} {I A : σ → Prop}
    (hstep : ∀ s i, C s i → I s → (P s i → I (step s i)) ∧ (A (step s i) → P s i)) (hA : ∀ s, I s → A s) :
    ∀ {inputs : List ι} {s : σ}, Along step C s inputs → I s →
      ((∀ n, A (runFrom step s (inputs.take n))) ↔ Along step P s inputs)
  | [], s, _, hs => by
    refine iff_of_true (fun n => ?_) trivial
    rw [List.take_nil]
    exact hA s hs
  | i :: inputs, s, hrun, hs => by
    obtain ⟨hnext, hback⟩ := hstep s i hrun.1 hs
    constructor
    · intro h
      have hP : P s i := hback (h 1)
      exact ⟨hP, (Along.forall_take_iff hstep hA hrun.2 (hnext hP)).mp fun n => h (n + 1)⟩
    · rintro ⟨hP, hrest⟩ n
      cases n with
      | zero => exact hA s hs
      | succ n => exact (Along.forall_take_iff hstep hA hrun.2 (hnext hP)).mpr hrest n

/-! ## Histories

The state is the list of the inputs so far. -/

theorem Along.and {Q : σ → ι → Prop} : ∀ {inputs : List ι} {s : σ}, Along step P s inputs → Along step Q s inputs →
      Along step (fun s i => P s i ∧ Q s i) s inputs
  | [], _, _, _ => trivial
  | _ :: _, _, ⟨hp, hps⟩, ⟨hq, hqs⟩ => ⟨⟨hp, hq⟩, hps.and hqs⟩

end DistDb.Lib
