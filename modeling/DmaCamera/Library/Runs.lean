import Mathlib.Data.List.Forall2
set_option autoImplicit false

namespace Runs

variable {σ ι : Type*} {step : σ → ι → σ → Prop} {ok : σ → ι → Prop} {s₀ : σ}

/-- A run of a labelled transition system from `s₀` in which every label meets
`ok` in the state the step leaves. -/
inductive Run (step : σ → ι → σ → Prop) (ok : σ → ι → Prop) (s₀ : σ) :
    List ι → σ → Prop
  | nil : Run step ok s₀ [] s₀
  | snoc {is : List ι} {i : ι} {s t : σ} :
      Run step ok s₀ is s → ok s i → step s i t → Run step ok s₀ (is ++ [i]) t

def anyStep (_ : σ) (_ : ι) : Prop := True

theorem Run.single {i : ι} {t : σ} (hok : ok s₀ i) (hs : step s₀ i t) :
    Run step ok s₀ [i] t := by
  have h : Run step ok s₀ ([] ++ [i]) t := .snoc .nil hok hs
  exact h

theorem Run.cons {i : ι} {s₁ t : σ} {is : List ι} (hok : ok s₀ i) (hs : step s₀ i s₁)
    (r : Run step ok s₁ is t) : Run step ok s₀ (i :: is) t := by
  induction r with
  | nil => exact Run.single hok hs
  | snoc _ hok' hs' ih => exact Run.snoc ih hok' hs'

theorem Run.append {is js : List ι} {s t : σ} (r : Run step ok s₀ is s) (r' : Run step ok s js t) :
    Run step ok s₀ (is ++ js) t := by
  induction r' with
  | nil => simpa using r
  | snoc _ hok hs ih =>
    rw [← List.append_assoc]
    exact ih.snoc hok hs

theorem Run.nil_inv {s : σ} (r : Run step ok s₀ [] s) : s = s₀ := by
  generalize his : [] = is at r
  cases r with
  | nil => rfl
  | snoc _ _ _ => simp at his

theorem Run.snoc_inv {is : List ι} {i : ι} {t : σ} (r : Run step ok s₀ (is ++ [i]) t) :
    ∃ s, Run step ok s₀ is s ∧ ok s i ∧ step s i t := by
  generalize his : is ++ [i] = js at r
  cases r with
  | nil => simp at his
  | snoc r hok hs =>
    obtain ⟨rfl,hi⟩ := List.append_inj' his rfl
    cases hi
    exact ⟨_,r,hok,hs⟩

theorem Run.invariant (I : σ → Prop) (h₀ : I s₀)
    (keep : ∀ s i t, I s → ok s i → step s i t → I t)
    {is : List ι} {s : σ} (r : Run step ok s₀ is s) : I s := by
  induction r with
  | nil => exact h₀
  | snoc _ hok hs ih => exact keep _ _ _ ih hok hs

theorem Run.mono {ok' : σ → ι → Prop} (h : ∀ s i, ok s i → ok' s i) {is : List ι} {s : σ}
    (r : Run step ok s₀ is s) : Run step ok' s₀ is s := by
  induction r with
  | nil => exact .nil
  | snoc _ hok hs ih => exact ih.snoc (h _ _ hok) hs

/-- Forward simulation: a step is one of the other system between what stands for
its two states there, with what stands for its label; or it is none. -/
theorem Run.simulate {τ κ : Type*} {step' : τ → κ → τ → Prop} {ok' : τ → κ → Prop}
    (I : σ → Prop) (abs : σ → τ) (label : ι → Option κ) (h₀ : I s₀)
    (sim : ∀ s i t, I s → ok s i → step s i t → I t ∧ (label i = none → abs t = abs s) ∧
      ∀ k, label i = some k → ok' (abs s) k ∧ step' (abs s) k (abs t))
    {is : List ι} {s : σ} (r : Run step ok s₀ is s) :
    I s ∧ Run step' ok' (abs s₀) (is.filterMap label) (abs s) := by
  induction r with
  | nil => exact ⟨h₀,.nil⟩
  | @snoc is i s t _ hok hs ih =>
    obtain ⟨hI,hnone,hsome⟩ := sim s i t ih.1 hok hs
    refine ⟨hI,?_⟩
    rw [List.filterMap_append]
    cases hl : label i with
    | none =>
      rw [hnone hl]
      simpa [hl] using ih.2
    | some k =>
      obtain ⟨hok',hstep⟩ := hsome k hl
      simpa [hl] using ih.2.snoc hok' hstep

theorem Run.refine {τ κ : Type*} {step' : τ → κ → τ → Prop} (abs : σ → τ) (Q : ι → List κ → Prop)
    (sim : ∀ s i t, ok s i → step s i t →
      ∃ ks, Q i ks ∧ Run step' anyStep (abs s) ks (abs t))
    {is : List ι} {s : σ} (r : Run step ok s₀ is s) :
    ∃ kss, List.Forall₂ Q is kss ∧ Run step' anyStep (abs s₀) kss.flatten (abs s) := by
  induction r with
  | nil => exact ⟨[],.nil,.nil⟩
  | snoc _ hok hs ih =>
    obtain ⟨kss,hexplained,r'⟩ := ih
    obtain ⟨ks,hQ,rstep⟩ := sim _ _ _ hok hs
    refine ⟨kss ++ [ks],List.rel_append hexplained (.cons hQ .nil),?_⟩
    rw [List.flatten_append]
    simpa using r'.append rstep

theorem Run.bounded (I : σ → Prop) (μ : σ → ℕ) (h₀ : I s₀)
    (keep : ∀ s i t, I s → ok s i → step s i t → I t ∧ μ t < μ s) {is : List ι} {s : σ}
    (r : Run step ok s₀ is s) : I s ∧ μ s+is.length ≤ μ s₀ := by
  induction r with
  | nil => exact ⟨h₀,Nat.le_refl _⟩
  | snoc _ hok hs ih =>
    obtain ⟨hI,hlt⟩ := keep _ _ _ ih.1 hok hs
    refine ⟨hI,?_⟩
    have hle := ih.2
    rw [List.length_append, List.length_singleton]
    omega

theorem Run.labels {is : List ι} {s : σ} (r : Run step anyStep s₀ is s)
    (h : ∀ i ∈ is, ∀ s, ok s i) : Run step ok s₀ is s := by
  induction r with
  | nil => exact .nil
  | snoc _ _ hs ih =>
    refine (ih fun i hi => h i (List.mem_append_left _ hi)).snoc ?_ hs
    exact h _ (List.mem_append_right _ (List.mem_singleton_self _)) _

/-- A step property `Q` that the steps meeting `ok` have and no other step has:
after a run whose steps all meet `ok`, the next step has `Q` exactly when it
meets `ok` again. -/
theorem Run.step_iff (I : σ → Prop) (Q : σ → σ → Prop) (h₀ : I s₀)
    (keep : ∀ s i t, I s → ok s i → step s i t → I t ∧ Q s t)
    (only : ∀ s i t, I s → step s i t → Q s t → ok s i)
    {is : List ι} {s : σ} (r : Run step ok s₀ is s) :
    I s ∧ ∀ i t, step s i t → (Q s t ↔ ok s i) := by
  have hI : I s := r.invariant I h₀ fun s i t hs hok ht => (keep s i t hs hok ht).1
  refine ⟨hI, fun i t ht => ⟨only s i t hI ht, fun hok => ?_⟩⟩
  exact (keep s i t hI hok ht).2

/-- Two requirements that agree wherever an invariant holds restrict the runs alike;
the steps that meet one of them keep the invariant. -/
theorem Run.ok_iff {ok' : σ → ι → Prop} (I : σ → Prop) (h₀ : I s₀)
    (keep : ∀ s i t, I s → ok s i → step s i t → I t)
    (same : ∀ s i t, I s → step s i t → (ok' s i ↔ ok s i)) {is : List ι} {s : σ} :
    Run step ok' s₀ is s ↔ Run step ok s₀ is s := by
  constructor
  · intro r
    induction r with
    | nil => exact .nil
    | snoc _ hok hs ih => exact ih.snoc ((same _ _ _ (ih.invariant I h₀ keep) hs).mp hok) hs
  · intro r
    induction r with
    | nil => exact .nil
    | snoc r hok hs ih => exact ih.snoc ((same _ _ _ (r.invariant I h₀ keep) hs).mpr hok) hs

/-! Systems whose step is a partial function of the state and the label. -/

section functional

variable {next : σ → ι → Option σ}

def stepOf (next : σ → ι → Option σ) (s : σ) (i : ι) (t : σ) : Prop := next s i = some t

theorem Run.unique {ok ok' : σ → ι → Prop} {is : List ι} {s s' : σ}
    (r : Run (stepOf next) ok s₀ is s) (r' : Run (stepOf next) ok' s₀ is s') : s = s' := by
  induction r generalizing s' with
  | nil => exact r'.nil_inv.symm
  | snoc _ _ hs ih =>
    obtain ⟨u,ru,_,hu⟩ := r'.snoc_inv
    cases ih ru
    exact Option.some.inj (hs.symm.trans hu)

theorem Run.both {ok ok' : σ → ι → Prop} {is : List ι} {s : σ} (r : Run (stepOf next) ok s₀ is s)
    (r' : Run (stepOf next) ok' s₀ is s) :
    Run (stepOf next) (fun s i => ok s i ∧ ok' s i) s₀ is s := by
  induction r with
  | nil => exact .nil
  | snoc r hok hs ih =>
    obtain ⟨u,ru,hok',_⟩ := r'.snoc_inv
    cases r.unique ru
    exact (ih ru).snoc ⟨hok,hok'⟩ hs

theorem Run.kept_iff (I B : σ → Prop) (hI : I s₀) (hB : B s₀)
    (step : ∀ s i t, I s → next s i = some t → I t ∧ (B t ↔ B s ∧ ok s i))
    {is : List ι} {s : σ} (r : Run (stepOf next) anyStep s₀ is s) :
    I s ∧ (B s ↔ Run (stepOf next) ok s₀ is s) := by
  induction r with
  | nil => exact ⟨hI,fun _ => .nil,fun _ => hB⟩
  | @snoc is i s t r _ hs ih =>
    obtain ⟨ht,hiff⟩ := step s i t ih.1 hs
    refine ⟨ht,fun h => ?_,fun h => ?_⟩
    · obtain ⟨hb,hok⟩ := hiff.mp h
      exact (ih.2.mp hb).snoc hok hs
    · obtain ⟨u,ru,hok,_⟩ := h.snoc_inv
      cases r.unique ru
      exact hiff.mpr ⟨ih.2.mpr ru,hok⟩

/-- A property that the steps meeting `ok` keep and no other step keeps holds in
every state of a run exactly if all its steps met `ok`. -/
theorem Run.always_iff (I B : σ → Prop) (hI : I s₀) (hB : B s₀)
    (step : ∀ s i t, I s → next s i = some t → I t ∧ (B s → (B t ↔ ok s i)))
    {is : List ι} {s : σ} (r : Run (stepOf next) anyStep s₀ is s) :
    I s ∧ ((∀ js t, js <+: is → Run (stepOf next) anyStep s₀ js t → B t) ↔
      Run (stepOf next) ok s₀ is s) := by
  induction r with
  | nil =>
    refine ⟨hI,fun _ => .nil,fun _ js t hjs rt => ?_⟩
    rw [List.prefix_nil.mp hjs] at rt
    rw [rt.nil_inv]
    exact hB
  | @snoc is i s t r _ hs ih =>
    obtain ⟨ht,hiff⟩ := step s i t ih.1 hs
    have hlast : Run (stepOf next) anyStep s₀ (is ++ [i]) t := r.snoc trivial hs
    refine ⟨ht,fun h => ?_,fun h js u hjs ru => ?_⟩
    · have hpre := ih.2.mp fun js u hjs ru => h js u (hjs.trans (List.prefix_append ..)) ru
      have hb := h is s (List.prefix_append ..) r
      exact hpre.snoc ((hiff hb).mp (h _ t (List.prefix_refl _) hlast)) hs
    · obtain ⟨v,rv,hok,_⟩ := h.snoc_inv
      cases r.unique rv
      have hall := ih.2.mpr rv
      rcases List.prefix_concat_iff.mp hjs with rfl | hjs
      · cases hlast.unique ru
        exact (hiff (hall is s (List.prefix_refl _) r)).mpr hok
      · exact hall js u hjs ru

/-- The state after as many of the labels as the system can take. -/
def replay (next : σ → ι → Option σ) : σ → List ι → σ
  | s, [] => s
  | s, i :: is => match next s i with
    | some t => replay next t is
    | none => s

def takes (next : σ → ι → Option σ) : σ → List ι → Bool
  | _, [] => true
  | s, i :: is => match next s i with
    | some t => takes next t is
    | none => false

theorem takes_run (hstep : ∀ s i t, next s i = some t → step s i t) {s : σ} {is : List ι}
    (h : takes next s is = true) : Run step anyStep s is (replay next s is) := by
  induction is generalizing s with
  | nil => exact .nil
  | cons i is ih =>
    cases hi : next s i with
    | none => simp [takes, hi] at h
    | some t =>
      simp only [takes, hi] at h
      simp only [replay, hi]
      exact Run.cons trivial (hstep s i t hi) (ih h)

theorem takes_step (hstep : ∀ s i t, next s i = some t → step s i t) {s : σ} {i : ι}
    (h : (next s i).isSome = true) : step s i (replay next s [i]) := by
  cases hi : next s i with
  | none => simp [hi] at h
  | some t => simpa [replay, hi] using hstep s i t hi

theorem replay_run {s : σ} {is : List ι} (h : takes next s is = true) :
    Run (stepOf next) anyStep s is (replay next s is) := takes_run (fun _ _ _ hi => hi) h

theorem replay_step {s : σ} {i : ι} (h : (next s i).isSome = true) :
    stepOf next s i (replay next s [i]) := takes_step (fun _ _ _ hi => hi) h

def endsIn (next : σ → ι → Option σ) (ok : σ → ι → Prop) [∀ s i, Decidable (ok s i)]
    (p : σ → Bool) : σ → List ι → Bool
  | s, [] => p s
  | s, i :: is => decide (ok s i) && match next s i with
    | some t => endsIn next ok p t is
    | none => false

instance (s : σ) (i : ι) : Decidable (anyStep s i) := inferInstanceAs (Decidable True)

theorem replay_ends [∀ s i, Decidable (ok s i)] {p : σ → Bool} {s : σ} {is : List ι}
    (h : endsIn next ok p s is = true) :
    Run (stepOf next) ok s is (replay next s is) ∧ p (replay next s is) = true := by
  induction is generalizing s with
  | nil => exact ⟨.nil,h⟩
  | cons i is ih =>
    simp only [endsIn, Bool.and_eq_true, decide_eq_true_eq] at h
    obtain ⟨hok,h⟩ := h
    cases hi : next s i with
    | none => simp [hi] at h
    | some t =>
      simp only [hi] at h
      simp only [replay, hi]
      exact ⟨Run.cons hok hi (ih h).1,(ih h).2⟩

theorem replay_ok [∀ s i, Decidable (ok s i)] {s : σ} {is : List ι}
    (h : endsIn next ok (fun _ => true) s is = true) :
    Run (stepOf next) ok s is (replay next s is) := (replay_ends h).1

end functional

end Runs
