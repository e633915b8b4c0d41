import DmaCamera.EngineRuns
set_option autoImplicit false

namespace DmaCamera
open Countdown

structure Pending (d : Driver) : Prop where
  waiting : d.engine.transferList ≠ []
  distinct : d.engine.transferList.Nodup
  plain : ∀ t ∈ d.engine.transferList, (d.transfers t).cyclic = false
  nonempty : ∀ t ∈ d.engine.transferList, 1 ≤ d.need t
  submitted : ∀ t ∈ d.engine.transferList, d.state t = .submitted

theorem Sound.pending {d : Driver} (h : Sound d) (hne : d.engine.transferList ≠ [])
    (hsub : ∀ t ∈ d.engine.transferList, d.state t = .submitted) : Pending d where
  waiting := hne
  distinct := h.listNodup
  plain := h.listPlain
  nonempty t ht := h.nonempty t (by rw [h.order]; exact List.mem_append_right _ ht)
  submitted := hsub

def Driver.cumulative (d : Driver) (i : Nat) : Nat := upTo d.need d.engine.transferList i

/-- The transfers `done` are paid for, the one of `failed` is cut short, and `later` stays. -/
structure CountServiced (d : Driver) (c : Nat) (done failed later : List TransferId)
    (d' : Driver) : Prop where
  list : d.engine.transferList = done ++ (failed ++ later)
  within : ∀ i < d.engine.transferList.length, d.cumulative i ≤ c ↔ i < done.length
  single : failed.length ≤ 1
  fails : failed ≠ [] ↔ c = 0 ∨ ¬ ∃ i < d.engine.transferList.length, d.cumulative i = c
  completed : ∀ t ∈ done, d'.transfers t = (d.transfers t).inState .completed
  cutShort : ∀ t ∈ failed, d'.transfers t = (d.transfers t).inState .failed
  untouched : ∀ t, t ∉ done → t ∉ failed → d'.transfers t = d.transfers t
  submitted : ∀ t ∈ later, d'.state t = .submitted
  left : d'.engine.transferList = later
  removed : d'.removed = d.removed ++ (done ++ failed)
  descDequeued : d'.engine.descDequeued = d.engine.descDequeued+total d.need (done ++ failed)

theorem countServiced {d d' : Driver} {c : Nat} {done failed later : List TransferId}
    (hd : Pending d) (hlist : d.engine.transferList = done ++ (failed ++ later))
    (hpays : Pays d.need done (failed ++ later) c) (hsingle : failed.length ≤ 1)
    (hfails : failed = [] ↔ done ≠ [] ∧ total d.need done = c)
    (hret : Retired d (done ++ failed) later d')
    (htr : d'.transfers = settle (settle d.transfers done .completed) failed .failed) :
    CountServiced d c done failed later d' := by
  have hnodup := hd.distinct
  rw [hlist] at hnodup
  have happart := List.disjoint_of_nodup_append hnodup
  have hrest := List.disjoint_of_nodup_append (hnodup.of_append_right)
  have huntouched : ∀ t, t ∉ done → t ∉ failed → d'.transfers t = d.transfers t := by
    intro t hdone hfailed
    rw [htr, settle_notMem hfailed, settle_notMem hdone]
  refine ⟨hlist,?_,hsingle,?_,?_,?_,huntouched,?_,hret.list,hret.removed,hret.descDequeued⟩
  · intro i hi
    rw [Driver.cumulative]
    rw [hlist] at hi ⊢
    exact hpays.upTo_le hi
  · have hsums : (∃ i < d.engine.transferList.length, d.cumulative i = c) ↔
        done ≠ [] ∧ total d.need done = c := by
      have h := hpays.upTo_eq
      rw [← hlist] at h
      exact h
    -- a count of zero pays for no transfer
    have hzero : c = 0 → ¬ (done ≠ [] ∧ total d.need done = c) := by
      rintro rfl ⟨hne,hsum⟩
      obtain ⟨t,ts,hcons⟩ := List.exists_cons_of_ne_nil hne
      have ht := hd.nonempty t (by rw [hlist, hcons]; exact List.mem_cons_self ..)
      rw [hcons, total_cons] at hsum
      omega
    rw [Ne, hfails, hsums, or_iff_right_of_imp hzero]
  · intro t ht
    have hfailed : t ∉ failed := fun h => happart ht (List.mem_append_left _ h)
    rw [htr, settle_notMem hfailed, settle_mem ht]
  · intro t ht
    have hdone : t ∉ done := fun h => happart h (List.mem_append_left _ ht)
    rw [htr, settle_mem ht, settle_notMem hdone]
  · intro t ht
    have hdone : t ∉ done := fun h => happart h (List.mem_append_right _ ht)
    have hfailed : t ∉ failed := fun h => hrest h ht
    rw [Driver.state, huntouched t hdone hfailed]
    exact hd.submitted t (by rw [hlist]; exact List.mem_append_right _ (List.mem_append_right _ ht))

/-- A count of at most all the descriptors on the list takes off the transfers that it pays for,
and as failed the one that it ends within. -/
theorem serviceQueue_counted {p : Params} {d : Driver} {c : Nat} (hd : Pending d)
    (hflags : d.engine.status.has errFlags = false)
    (hc : c ≤ total d.need d.engine.transferList) :
    ∃ d' done failed later, serviceQueue p d c = .ok d' ∧
      CountServiced d c done failed later d' := by
  obtain ⟨gone,t,rest,left,hsplit,hsum,hleft,hsome⟩ := split_within d.need hd.waiting hc
  have hlist := split_cut hsplit
  obtain ⟨d',hqueue,hret,htr⟩ := serviceQueue_spec hd.plain p hsplit
  simp only [hflags, Bool.false_eq_true, if_false] at hret htr
  have hpos : ∀ u ∈ rest, 1 ≤ d.need u := fun u hu =>
    hd.nonempty u (by rw [hlist]; exact List.mem_append_right _ (List.mem_cons_of_mem _ hu))
  rcases pays_cases hpos hsum hleft with ⟨hlt,hpays⟩ | ⟨heq,hpays⟩
  · have hfinal : finalState false left (d.need t) = .failed := by
      rw [finalState, if_neg Bool.false_ne_true, if_pos hlt]
    rw [hfinal] at htr
    refine ⟨d',gone,[t],rest,hqueue,
      countServiced hd hlist hpays (Nat.le_refl 1) ?_ hret htr⟩
    have hnot : ¬ (gone ≠ [] ∧ total d.need gone = c) := by
      rintro ⟨hne,hall⟩
      have hleftPos := hsome hne
      omega
    exact iff_of_false (List.cons_ne_nil t []) hnot
  · have hfinal : finalState false left (d.need t) = .completed := by
      rw [finalState, if_neg Bool.false_ne_true, if_neg (by omega)]
    rw [hfinal, settle_settle, ← settle_nil (settle _ _ _) .failed] at htr
    rw [← List.append_nil (gone ++ [t])] at hret
    refine ⟨d',gone ++ [t],[],rest,hqueue,
      countServiced hd (by simp [hlist]) hpays (Nat.zero_le 1) ?_ hret htr⟩
    have hall : total d.need (gone ++ [t]) = c := by
      rw [total_append, total_cons, total_nil]
      omega
    exact iff_of_true rfl ⟨by simp,hall⟩

theorem serviceQueue_counted_halfway :
    ∃ d' done failed later,
      serviceQueue ⟨false,false⟩
        ((Driver.created ⟨false,false⟩).after ⟨false,false⟩ [.queue .two,.queue .three,.queue .one]) 3 =
          .ok d' ∧
      CountServiced
        ((Driver.created ⟨false,false⟩).after ⟨false,false⟩ [.queue .two,.queue .three,.queue .one]) 3
        done failed later d' ∧ done = [0] ∧ failed = [1] ∧ later = [2] := by
  obtain ⟨d',done,failed,later,hqueue,h⟩ := @serviceQueue_counted ⟨false,false⟩
    ((Driver.created ⟨false,false⟩).after ⟨false,false⟩ [.queue .two,.queue .three,.queue .one]) 3
    ⟨by decide,by decide,by decide,by decide,by decide⟩ (by decide) (by decide)
  refine ⟨d',done,failed,later,hqueue,h,?_⟩
  have hsome : 0 < done.length := (h.within 0 (by decide)).mp (by decide)
  have hone : ¬ 1 < done.length := fun hlt => absurd ((h.within 1 (by decide)).mpr hlt) (by decide)
  have hfailed : failed ≠ [] := h.fails.mpr (Or.inr (by decide))
  obtain ⟨t,rfl⟩ := List.length_eq_one_iff.mp (show done.length = 1 by omega)
  obtain ⟨u,rfl⟩ := List.length_eq_one_iff.mp
    (Nat.le_antisymm h.single (List.length_pos_of_ne_nil hfailed))
  have hlist : [0,1,2] = t :: u :: later := h.list
  injection hlist with ht hlist
  injection hlist with hu hlater
  exact ⟨by rw [ht],by rw [hu],hlater.symm⟩

end DmaCamera
