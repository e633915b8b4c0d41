import DmaCamera.Library.Framing
import Mathlib.Logic.Function.Basic
import Mathlib.Data.List.Count
set_option autoImplicit false

namespace Framing

variable {α : Type*} [DecidableEq α] {last : α → Bool}

/-- Of the stream `ps.flatten ++ cur` every frame is with one holder or given out,
and so is the unfinished frame `cur`, unless it is empty. -/
structure Shares (last : α → Bool) (n : ℕ) (held : ℕ → List α) (out ps : List (List α))
    (cur : List α) : Prop where
  frames : ∀ p ∈ ps, IsFrame last p
  plain : ∀ x ∈ cur, last x = false
  owner : cur ≠ [] → ∃ i < n, held i = cur
  unfinished : ∀ i, closes last (held i) = false → held i = [] ∨ held i = cur
  single : ∀ i j, i ≠ j → held i = cur → held j = cur → cur = []
  count : ∀ p, IsFrame last p → ps.count p = out.count p+((List.range n).map held).count p

theorem count_range_update (held : ℕ → List α) {n i : ℕ} (hi : i < n) (l p : List α) :
    ((List.range n).map (Function.update held i l)).count p+(if held i = p then 1 else 0) =
      ((List.range n).map held).count p+(if l = p then 1 else 0) := by
  induction n with
  | zero => omega
  | succ n ih =>
    simp only [List.range_succ, List.map_append, List.map_cons, List.map_nil, List.count_append,
      List.count_singleton, beq_iff_eq]
    rcases Nat.lt_succ_iff_lt_or_eq.mp hi with hlt | rfl
    · have hrest := ih hlt
      rw [Function.update_of_ne (Nat.ne_of_gt hlt)]
      omega
    · have hsame : (List.range i).map (Function.update held i l) = (List.range i).map held :=
        List.map_congr_left fun j hj =>
          Function.update_of_ne (Nat.ne_of_lt (List.mem_range.mp hj)) ..
      rw [hsame, Function.update_self]
      omega

theorem Shares.empty (n : ℕ) : Shares last n (fun _ => []) [] [] [] where
  frames := by simp
  plain := by simp
  owner h := absurd rfl h
  unfinished _ _ := Or.inl rfl
  single _ _ _ _ _ := rfl
  count p hp := by
    have hne : ∀ l ∈ (List.range n).map fun _ => ([] : List α), l ≠ p := by
      intro l hl heq
      obtain ⟨_,_,rfl⟩ := List.mem_map.mp hl
      exact hp.ne_nil heq.symm
    rw [List.count_nil, Nat.zero_add, List.count_eq_zero_of_not_mem fun hmem => hne p hmem rfl]

section holders

variable {n i : ℕ} {held : ℕ → List α} {out ps : List (List α)} {cur l : List α}

theorem Shares.current (h : Shares last n held out ps cur) (hopen : closes last (held i) = false)
    (hothers : ∀ j < n, j ≠ i → held j = [] ∨ closes last (held j) = true) : held i = cur := by
  by_cases hcur : cur = []
  · rcases h.unfinished i hopen with heq | heq
    · rw [heq, hcur]
    · exact heq
  · obtain ⟨j,hj,heq⟩ := h.owner hcur
    by_cases hji : j = i
    · rwa [hji] at heq
    · rcases hothers j hj hji with hnil | hcloses
      · exact absurd (heq.symm.trans hnil) hcur
      · rw [heq, closes_plain h.plain] at hcloses
        cases hcloses

theorem Shares.take (h : Shares last n held out ps cur) (hi : i < n)
    (hopen : closes last (held i) = false) (hl : Unbroken last l)
    (hothers : l ≠ [] → ∀ j, j ≠ i → held j = [] ∨ closes last (held j) = true) :
    ∃ ps' cur', ps'.flatten ++ cur' = ps.flatten ++ cur ++ l ∧
      Shares last n (Function.update held i (held i ++ l)) out ps' cur' := by
  by_cases hnil : l = []
  · subst hnil
    refine ⟨ps,cur,(List.append_nil _).symm,?_⟩
    rwa [List.append_nil, Function.update_eq_self]
  have hrest := hothers hnil
  have hcur : held i = cur := h.current hopen fun j _ hji => hrest j hji
  have hjoin : Unbroken last (cur ++ l) := Unbroken.append h.plain hl
  have hcloses : closes last (cur ++ l) = closes last l := closes_append hnil
  have hother : ∀ j, j ≠ i → Function.update held i (held i ++ l) j = held j :=
    fun j hji => Function.update_of_ne hji ..
  have hself : Function.update held i (held i ++ l) i = cur ++ l := by
    rw [Function.update_self, hcur]
  have hcount : ∀ p, IsFrame last p →
      ((List.range n).map (Function.update held i (held i ++ l))).count p =
        ((List.range n).map held).count p+(if cur ++ l = p then 1 else 0) := by
    intro p hp
    have hnot : held i ≠ p := by
      rintro rfl
      rw [hp.1] at hopen
      cases hopen
    have hupdate := count_range_update held hi (held i ++ l) p
    rw [if_neg hnot, hcur] at hupdate
    rwa [hcur]
  cases hc : closes last l with
  | true =>
    have hframe : IsFrame last (cur ++ l) := ⟨hcloses.trans hc,hjoin⟩
    refine ⟨ps ++ [cur ++ l],[],by simp,?_⟩
    refine ⟨fun p hp => ?_,by simp,fun hne => absurd rfl hne,fun j hj => ?_,fun _ _ _ _ _ => rfl,
      fun p hp => ?_⟩
    · rcases List.mem_append.mp hp with hp | hp
      · exact h.frames p hp
      · exact List.mem_singleton.mp hp ▸ hframe
    · by_cases hji : j = i
      · rw [hji, hself, hframe.1] at hj
        cases hj
      · rw [hother j hji] at hj ⊢
        refine Or.inl ((hrest j hji).resolve_right ?_)
        rw [hj]
        exact Bool.false_ne_true
    · rw [List.count_append, List.count_singleton, h.count p hp, hcount p hp, Nat.add_assoc]
      simp only [beq_iff_eq]
  | false =>
    have hplain := hl.plain hc
    refine ⟨ps,cur ++ l,(List.append_assoc ..).symm,?_⟩
    have hfree : ∀ j, j ≠ i → Function.update held i (held i ++ l) j ≠ cur ++ l := by
      intro j hji heq
      rw [hother j hji] at heq
      rcases hrest j hji with hj | hj
      · rw [hj] at heq
        exact hnil (List.append_eq_nil_iff.mp heq.symm).2
      · rw [heq, hcloses, hc] at hj
        cases hj
    refine ⟨h.frames,fun x hx => ?_,fun _ => ⟨i,hi,hself⟩,fun j hj => ?_,fun j k hjk hj hk => ?_,
      fun p hp => ?_⟩
    · exact (List.mem_append.mp hx).elim (h.plain x) (hplain x)
    · by_cases hji : j = i
      · exact Or.inr (hji ▸ hself)
      · rw [hother j hji] at hj ⊢
        refine Or.inl ((hrest j hji).resolve_right ?_)
        rw [hj]
        exact Bool.false_ne_true
    · by_cases hji : j = i
      · exact absurd hk (hfree k fun hki => hjk (hji.trans hki.symm))
      · exact absurd hj (hfree j hji)
    · have hnot : cur ++ l ≠ p := by
        rintro rfl
        rw [hp.1, hc] at hcloses
        cases hcloses
      rw [h.count p hp, hcount p hp, if_neg hnot, Nat.add_zero]

theorem Shares.give (h : Shares last n held out ps cur) (hi : i < n) (hframe : IsFrame last (held i)) :
    Shares last n (Function.update held i []) (out ++ [held i]) ps cur := by
  have hnot : held i ≠ cur := by
    intro heq
    have hcloses := hframe.1
    rw [heq, closes_plain h.plain] at hcloses
    cases hcloses
  refine ⟨h.frames,h.plain,fun hne => ?_,fun j hj => ?_,fun j k hjk hj hk => ?_,fun p hp => ?_⟩
  · obtain ⟨j,hj,heq⟩ := h.owner hne
    refine ⟨j,hj,?_⟩
    have hji : j ≠ i := by
      rintro rfl
      exact hnot heq
    rw [Function.update_of_ne hji, heq]
  · by_cases hji : j = i
    · exact Or.inl (by rw [hji, Function.update_self])
    · rw [Function.update_of_ne hji] at hj ⊢
      exact h.unfinished j hj
  · by_cases hji : j = i
    · rw [hji, Function.update_self] at hj
      exact hj.symm
    · by_cases hki : k = i
      · rw [hki, Function.update_self] at hk
        exact hk.symm
      · rw [Function.update_of_ne hji] at hj
        rw [Function.update_of_ne hki] at hk
        exact h.single j k hjk hj hk
  · have hupdate := count_range_update held hi [] p
    have hne : [] ≠ p := fun heq => hp.ne_nil heq.symm
    rw [if_neg hne] at hupdate
    rw [List.count_append, List.count_singleton, h.count p hp]
    simp only [beq_iff_eq]
    omega

/-- The frames given out and those held are all the frames there are. -/
theorem Shares.perm (h : Shares last n held out ps cur) (hout : ∀ p ∈ out, IsFrame last p) :
    (out ++ ((List.range n).map held).filter fun l => decide (IsFrame last l)).Perm ps := by
  refine List.perm_iff_count.mpr fun p => ?_
  by_cases hp : IsFrame last p
  · rw [List.count_append, List.count_filter (by simpa using hp), h.count p hp]
  · rw [List.count_eq_zero_of_not_mem fun hmem => hp (h.frames p hmem)]
    refine List.count_eq_zero_of_not_mem fun hmem => hp ?_
    rcases List.mem_append.mp hmem with hmem | hmem
    · exact hout p hmem
    · simpa using (List.mem_filter.mp hmem).2

theorem Shares.frames_eq (h : Shares last n held out ps cur) :
    Framing.frames last (ps.flatten ++ cur) = ps := by
  rw [frames_flatten h.frames, frames_plain h.plain, List.append_nil]

end holders

end Framing
