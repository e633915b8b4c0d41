import DmaCamera.SoleReader
import DmaCamera.Library.Sharing
set_option autoImplicit false

namespace DmaCamera
open Circular Countdown Framing Runs

/-! Calls that share a descriptor: `user_buffer_index` and `eop_found` are the
engine's, and nothing keeps the calls from moving them under each other. -/

def Reader.unfinished (r : Reader) : Prop := r.took ≠ [] ∧ closes Slot.eop r.took = false

instance (r : Reader) : Decidable r.unfinished := inferInstanceAs (Decidable (_ ∧ _))

def ReadSystem.alone (n : Nat) (s : ReadSystem) (i : Nat) : Prop :=
  ∀ j < n, j ≠ i → ¬ (s.readers j).unfinished

instance (n : Nat) (s : ReadSystem) (i : Nat) : Decidable (s.alone n i) :=
  inferInstanceAs (Decidable (∀ _ < _, _))

/-- Copies are where the call has got to, `eop_found` tells of the call that tests it,
and no call takes results while another has part of a packet; else the device, the
handler and the kernel do what a sole reader needs. -/
def keepsApart (limit n : Nat) (s : ReadSystem) : ReadOp → Prop
  | .fill x => x.WellFormed ∧ s.fillsFree n ∧ fits Slot.eop Slot.size limit (s.sent ++ [x]) = true
  | .start _ count => limit ≤ count
  | .service => s.rx.ring.raises = false
  | .wait i signal => signal = true → (s.readers i).took = []
  | .lock i => s.rx.noticed ≠ [] → s.alone n i
  | .copy i uncopied => uncopied = 0 ∧ s.inPlace i = true
  | .test i => s.eopFound = closes Slot.eop (s.readers i).took
  | _ => True

instance (limit n : Nat) (s : ReadSystem) : (op : ReadOp) → Decidable (keepsApart limit n s op)
  | .fill _ | .copy .. => inferInstanceAs (Decidable (_ ∧ _))
  | .service | .test _ => inferInstanceAs (Decidable (_ = _))
  | .wait .. | .lock _ => inferInstanceAs (Decidable (_ → _))
  | .start .. => inferInstanceAs (Decidable (_ ≤ _))
  | .check _ | .copied _ | .bump _ | .clear _ | .credit _ | .finish _ =>
    inferInstanceAs (Decidable True)

def ReadSystem.held (s : ReadSystem) (i : Nat) : List Slot := (s.readers i).took

def ReadSystem.onTheWay (n : Nat) (s : ReadSystem) : List (List Slot) :=
  ((List.range n).map s.held).filter fun l => decide (IsFrame Slot.eop l)

structure Reader.InFrame (r : Reader) : Prop where
  unbroken : Unbroken Slot.eop r.took
  begun : r.pc.early = true → closes Slot.eop r.took = false
  ended : r.pc = .resetting → closes Slot.eop r.took = true
  quiet : ∀ rc, r.pc = .checking rc → rc ≠ 0 → r.took = []

theorem Reader.fresh_inFrame (pc : ReadPc) (rcLen : Int) (user : UserBuffer)
    (hpc : pc ≠ .resetting) : (⟨pc,rcLen,user,[]⟩ : Reader).InFrame where
  unbroken := unbroken_nil
  begun _ := rfl
  ended h := absurd h hpc
  quiet _ _ _ := rfl

structure ReadSystem.Apart (limit n : Nat) (s : ReadSystem) : Prop extends s.Flow n where
  fits : fits Slot.eop Slot.size limit s.sent = true
  off : s.rx.ring.rxOverrun = false
  inFrame : ∀ i, (s.readers i).InFrame
  shares : ∃ ps cur, s.sent.take s.rx.consumed = ps.flatten ++ cur ∧
    Shares Slot.eop n s.held (s.served.map Return.took) ps cur
  whole : ∀ ret ∈ s.returns, 0 ≤ ret.rc ∧ IsFrame Slot.eop ret.took ∨ ret.rc < 0 ∧ ret.took = []

theorem ReadSystem.opened_apart (limit n : Nat) (creditMode : Bool) :
    (ReadSystem.opened creditMode).Apart limit n where
  toFlow := ReadSystem.opened_flow n creditMode
  fits := rfl
  off := rfl
  inFrame _ := Reader.fresh_inFrame _ _ _ (by simp)
  shares := ⟨[],[],rfl,Shares.empty n⟩
  whole := by simp [ReadSystem.opened]

theorem ReadSystem.held_update {s t : ReadSystem} {i : Nat} {r : Reader}
    (h : t.readers = Function.update s.readers i r) : t.held = Function.update s.held i r.took := by
  funext j
  rw [held, h]
  by_cases hji : j = i
  · rw [hji, Function.update_self, Function.update_self]
  · rw [Function.update_of_ne hji, Function.update_of_ne hji]
    rfl

theorem ReadSystem.held_same {s t : ReadSystem} {i : Nat} {r : Reader}
    (h : t.readers = Function.update s.readers i r) (htook : r.took = (s.readers i).took) :
    t.held = s.held := by
  rw [held_update h, htook]
  exact Function.update_eq_self ..

theorem ReadSystem.served_leave (s : ReadSystem) (i : Nat) (rc : Int) :
    (s.leave i rc).served = s.served ++
      if 0 ≤ rc then [⟨rc,(s.readers i).user,(s.readers i).took⟩] else [] := by
  rw [served, leave, List.filter_append, List.filter_singleton]
  by_cases hrc : 0 ≤ rc <;> simp [served, hrc]

section apart

variable {limit n i : Nat} {s t : ReadSystem} {op : ReadOp} {c : RxSetting}

theorem Reader.InFrame.goto {r r' : Reader} (h : r.InFrame) (htook : r'.took = r.took)
    (hbegun : r'.pc.early = true → r.pc.early = true ∨ closes Slot.eop r.took = false)
    (hended : r'.pc = .resetting → closes Slot.eop r.took = true)
    (hquiet : ∀ rc, r'.pc = .checking rc → rc ≠ 0 → r.took = []) : r'.InFrame where
  unbroken := htook ▸ h.unbroken
  begun hp := htook ▸ (hbegun hp).elim h.begun id
  ended hp := htook ▸ hended hp
  quiet rc hp hrc := htook ▸ hquiet rc hp hrc

theorem ReadSystem.Apart.inFrame_step (h : s.Apart limit c.readers) (hok : keepsApart limit c.readers s op)
    (hstep : ReadStep c s op t) : ∀ i, (t.readers i).InFrame := by
  intro j
  by_cases hj : op.reader = some j
  · have hr := h.inFrame j
    cases hstep with
    | fill => cases hj
    | service => cases hj
    | start =>
      obtain rfl := Option.some.inj hj
      rw [ReadSystem.start_self]
      exact Reader.fresh_inFrame _ _ _ (by simp)
    | @wait _ signal hpc _ =>
      obtain rfl := Option.some.inj hj
      refine hr.goto (by simp) (fun _ => Or.inl (by rw [hpc]; rfl)) (fun hp => by simp at hp) ?_
      intro rc hp hrc
      cases signal with
      | true => exact hok rfl
      | false =>
        simp only [ReadSystem.goto_self, Bool.false_eq_true, if_false] at hp
        exact absurd (ReadPc.checking.inj hp).symm hrc
    | interrupted | finish =>
      obtain rfl := Option.some.inj hj
      simp only [ReadSystem.leave_self, ReadSystem.finish_self]
      exact Reader.fresh_inFrame _ _ _ (by simp)
    | again hpc | enter hpc =>
      obtain rfl := Option.some.inj hj
      exact hr.goto (by simp) (fun _ => Or.inl (by rw [hpc]; rfl)) (fun hp => by simp at hp) (by simp)
    | lock hpc =>
      obtain rfl := Option.some.inj hj
      have htaking := h.toStored.taking h.off
      have hopen := hr.begun (by rw [hpc]; rfl)
      rw [htaking.reader, Function.update_self]
      exact ⟨Unbroken.append (hr.unbroken.plain hopen) htaking.stretch.2,fun hp => (by cases hp),
        fun hp => (by cases hp),fun _ hp => (by cases hp)⟩
    | copyFails _ hpos => exact absurd hok.1 hpos
    | copy hpc | copied hpc | bump hpc | clear hpc | credit hpc =>
      obtain rfl := Option.some.inj hj
      exact hr.goto (by simp) (fun hp => by simp [ReadPc.early] at hp) (fun hp => by simp at hp)
        (by simp)
    | @test i hpc =>
      obtain rfl := Option.some.inj hj
      have hflag : s.eopFound = closes Slot.eop (s.readers i).took := hok
      cases he : s.eopFound with
      | true =>
        refine hr.goto (by simp) (fun hp => ?_) (fun _ => hflag.symm.trans he) (by simp)
        simp [ReadPc.early] at hp
      | false =>
        refine hr.goto (by simp) (fun _ => Or.inr (hflag.symm.trans he)) (fun hp => ?_) (by simp)
        simp at hp
  · rw [hstep.others hj]
    exact h.inFrame j

theorem ReadSystem.Apart.finishing (h : s.Apart limit n) (hpc : (s.readers i).pc = .resetting) :
    IsFrame Slot.eop (s.readers i).took ∧ 0 ≤ (s.readers i).rcLen := by
  obtain ⟨_,hrcLen,_⟩ := (h.progress i).resting (by rw [hpc]; rfl)
  have hr := h.inFrame i
  exact ⟨⟨hr.ended hpc,hr.unbroken⟩,by omega⟩

theorem ReadSystem.Apart.leaving {rc : Int} (h : s.Apart limit n) (hpc : (s.readers i).pc = .checking rc)
    (hrc : rc ≠ 0) : (s.readers i).took = [] ∧ rc < 0 :=
  ⟨(h.inFrame i).quiet rc hpc hrc,lt_of_le_of_ne (h.signal i rc hpc) hrc⟩

theorem ReadSystem.Apart.whole_step (h : s.Apart limit n) (hstep : ReadStep c s op t) :
    ∀ ret ∈ t.returns, 0 ≤ ret.rc ∧ IsFrame Slot.eop ret.took ∨ ret.rc < 0 ∧ ret.took = [] := by
  cases hstep with
  | interrupted hpc hrc =>
    obtain ⟨htook,hneg⟩ := h.leaving hpc hrc
    intro ret hret
    simp only [ReadSystem.leave, List.mem_append, List.mem_singleton] at hret
    rcases hret with hret | rfl
    · exact h.whole ret hret
    · exact Or.inr ⟨hneg,htook⟩
  | finish hpc =>
    obtain ⟨hframe,hpos⟩ := h.finishing hpc
    intro ret hret
    simp only [ReadSystem.finish, ReadSystem.leave, List.mem_append, List.mem_singleton] at hret
    rcases hret with hret | rfl
    · exact h.whole ret hret
    · exact Or.inl ⟨hpos,hframe⟩
  | _ => exact h.whole

theorem ReadSystem.Apart.shares_keep (h : s.Apart limit n)
    (htaken : t.sent.take t.rx.consumed = s.sent.take s.rx.consumed) (hheld : t.held = s.held)
    (hserved : t.served = s.served) : ∃ ps cur, t.sent.take t.rx.consumed = ps.flatten ++ cur ∧
      Shares Slot.eop n t.held (t.served.map Return.took) ps cur := by
  rw [htaken, hheld, hserved]
  exact h.shares

theorem ReadSystem.Apart.shares_lock (h : s.Apart limit n) (hpc : (s.readers i).pc = .entering)
    (halone : s.rx.noticed ≠ [] → s.alone n i) :
    ∃ ps cur, (s.lock i (s.rx.lock i)).sent.take (s.lock i (s.rx.lock i)).rx.consumed =
      ps.flatten ++ cur ∧ Shares Slot.eop n (s.lock i (s.rx.lock i)).held
        (s.served.map Return.took) ps cur := by
  have htaking := h.toStored.taking h.off
  have hopen := (h.inFrame i).begun (by rw [hpc]; rfl)
  obtain ⟨ps,cur,htaken,hshares⟩ := h.shares
  have hi := h.toReading.present (i := i) (by simp [hpc])
  have hothers : s.batch ≠ [] → ∀ j, j ≠ i → s.held j = [] ∨ closes Slot.eop (s.held j) = true := by
    intro hbatch j hji
    have hnoticed : s.rx.noticed ≠ [] := by
      intro hnil
      have hlen := htaking.noticed
      rw [hnil, ← htaking.length, List.length_nil, Nat.le_zero] at hlen
      exact hbatch (List.eq_nil_of_length_eq_zero hlen)
    by_cases hj : j < n
    · have hfinished := halone hnoticed j hj hji
      by_contra hnot
      obtain ⟨htook,hcloses⟩ := not_or.mp hnot
      exact hfinished ⟨htook,Bool.eq_false_iff.mpr hcloses⟩
    · left
      rw [ReadSystem.held, h.absent j (by omega)]
      rfl
  obtain ⟨ps',cur',hjoin,hnext⟩ := hshares.take (l := s.batch) hi hopen htaking.stretch.2 hothers
  refine ⟨ps',cur',?_,?_⟩
  · rw [hjoin, ← htaken]
    exact htaking.sent i
  · rw [ReadSystem.held_update (htaking.reader i)]
    exact hnext

theorem ReadSystem.Apart.shares_step (h : s.Apart limit c.readers) (hok : keepsApart limit c.readers s op)
    (hstep : ReadStep c s op t) : ∃ ps cur, t.sent.take t.rx.consumed = ps.flatten ++ cur ∧
      Shares Slot.eop c.readers t.held (t.served.map Return.took) ps cur := by
  cases hstep with
  | fill => exact h.shares_keep (List.take_append_of_le_length h.consumed_le) rfl rfl
  | service => exact h.shares_keep rfl rfl rfl
  | start _ hpc =>
    exact h.shares_keep rfl (ReadSystem.held_same rfl (h.idle _ hpc).symm) rfl
  | lock hpc => exact h.shares_lock hpc hok
  | interrupted hpc hrc =>
    obtain ⟨htook,hneg⟩ := h.leaving hpc hrc
    refine h.shares_keep rfl (ReadSystem.held_same rfl htook.symm) ?_
    rw [ReadSystem.served_leave, if_neg (by omega), List.append_nil]
  | @finish i hpc =>
    obtain ⟨hframe,hpos⟩ := h.finishing hpc
    obtain ⟨ps,cur,htaken,hshares⟩ := h.shares
    have hserved : (s.finish c.creditMode i).served =
        s.served ++ [⟨(s.readers i).rcLen,(s.readers i).user,(s.readers i).took⟩] := by
      have hleave := s.served_leave i (s.readers i).rcLen
      rwa [if_pos hpos] at hleave
    have hheld : (s.finish c.creditMode i).held = Function.update s.held i Reader.idle.took :=
      ReadSystem.held_update rfl
    refine ⟨ps,cur,htaken,?_⟩
    rw [hserved, hheld, List.map_append]
    exact hshares.give (h.toReading.present (by simp [hpc])) hframe
  | _ => exact h.shares_keep rfl (ReadSystem.held_same rfl rfl) rfl

theorem ReadSystem.Apart.step (h : s.Apart limit c.readers) (hok : keepsApart limit c.readers s op)
    (hstep : ReadStep c s op t) : t.Apart limit c.readers := by
  have hkeeps : keepsBytes c.readers s op := by
    cases hstep with
    | fill => exact ⟨hok.1,hok.2.1⟩
    | lock => exact h.off
    | clear => exact h.off
    | copy => exact hok
    | copyFails => exact hok
    | _ => trivial
  refine ⟨h.toFlow.step hkeeps hstep,?_,hstep.off h.off ?_,h.inFrame_step hok hstep,
    h.shares_step hok hstep,h.whole_step hstep⟩
  · cases hstep with
    | fill => exact hok.2.2
    | _ => exact h.fits
  · rintro rfl
    exact hok

theorem ReadSystem.Apart.frames_le (h : s.Apart limit n) :
    ∀ p ∈ frames Slot.eop (s.sent.take s.rx.consumed), (payloads p).length ≤ limit := by
  obtain ⟨ps,cur,htaken,hshares⟩ := h.shares
  have hfits := h.fits
  rw [← List.take_append_drop s.rx.consumed s.sent, htaken, List.append_assoc] at hfits
  rw [htaken, hshares.frames_eq]
  intro p hp
  rw [payloads_total]
  exact fits_mem hshares.frames hfits p hp

/-- What the calls have returned and have on the way are the packets taken. -/
theorem ReadSystem.Apart.perm (h : s.Apart limit n) :
    (s.served.map Return.took ++ s.onTheWay n).Perm (frames Slot.eop (s.sent.take s.rx.consumed)) := by
  obtain ⟨ps,cur,htaken,hshares⟩ := h.shares
  rw [htaken, hshares.frames_eq]
  refine hshares.perm fun p hp => ?_
  obtain ⟨ret,hret,rfl⟩ := List.mem_map.mp hp
  obtain ⟨hmem,hrc⟩ := List.mem_filter.mp hret
  have hpos : 0 ≤ ret.rc := by simpa using hrc
  rcases h.whole ret hmem with ⟨_,hframe⟩ | ⟨hneg,_⟩
  · exact hframe
  · omega

end apart

/-- As long as the calls keep apart, each packet taken is with one call or has been
returned by one, whole and from the start of its buffer. -/
theorem run_sharesPackets {creditMode : Bool} {limit n : Nat} {ops : List ReadOp} {s : ReadSystem}
    (r : Run (stepOf (readNext ⟨creditMode,n,fun _ => true⟩)) (keepsApart limit n)
      (.opened creditMode) ops s) :
    (∀ ret ∈ s.returns, (IsFrame Slot.eop ret.took ∧ ret.Delivers ret.took ∧ ret.rc ≤ limit) ∨
      (ret.rc < 0 ∧ ret.took = [])) ∧
    (s.served.map Return.took ++ s.onTheWay n).Perm
      (frames Slot.eop (s.sent.take s.rx.consumed)) := by
  have h : s.Apart limit n := r.invariant (ReadSystem.Apart limit n)
    (ReadSystem.opened_apart limit n creditMode) fun s op t hs hok hn =>
      hs.step (c := ⟨creditMode,n,fun _ => true⟩) hok (readNext_step hn)
  refine ⟨fun ret hret => ?_,h.perm⟩
  rcases h.whole ret hret with ⟨hpos,hframe⟩ | hfailed
  · have hdelivers := h.returns ret hret hpos
    have hmem : ret ∈ s.served := List.mem_filter.mpr ⟨hret,by simpa using hpos⟩
    have htaken := h.perm.mem_iff.mp (List.mem_append_left _ (List.mem_map_of_mem hmem))
    have hle := h.frames_le ret.took htaken
    have hrc := hdelivers.rc
    exact Or.inl ⟨hframe,hdelivers,by omega⟩
  · exact Or.inr hfailed

def takeTurnsOps : List ReadOp :=
  [.fill ⟨⟨0x52B40001,3⟩,[7,8,9]⟩,.fill ⟨⟨0x52B40001,2⟩,[5,6]⟩,.service,.start 0 8,.wait 0 false,
    .check 0,.lock 0,.copy 0 0,.bump 0,.start 1 8,.copied 0,.wait 1 false,.check 1,.clear 0,.credit 0,
    .test 0,.finish 0,.lock 1,.copy 1 0,.bump 1,.copied 1,.clear 1,.credit 1,.test 1]

def takeTurns : ReadSystem := replay (readNext ⟨true,2,fun _ => true⟩) (.opened true) takeTurnsOps

theorem run_sharesPackets_takeTurns :
    ((∀ ret ∈ takeTurns.returns, (IsFrame Slot.eop ret.took ∧ ret.Delivers ret.took ∧ ret.rc ≤ 8) ∨
      (ret.rc < 0 ∧ ret.took = [])) ∧
    (takeTurns.served.map Return.took ++ takeTurns.onTheWay 2).Perm
      (frames Slot.eop (takeTurns.sent.take takeTurns.rx.consumed))) ∧
    takeTurns.returns.map Return.rc = [3] := by
  have hrun : Run (stepOf (readNext ⟨true,2,fun _ => true⟩)) (keepsApart 8 2) (.opened true)
      takeTurnsOps takeTurns := replay_ok (by decide)
  exact ⟨run_sharesPackets hrun,by decide⟩

def sharedIndexOps : List ReadOp :=
  [.fill ⟨⟨0x52B40001,3⟩,[7,8,9]⟩,.fill ⟨⟨0x52B40001,2⟩,[5,6]⟩,.service,.start 0 8,.start 1 8,
    .wait 0 false,.check 0,.lock 0,.copy 0 0,.bump 0,.wait 1 false,.check 1,.lock 1,.copy 1 0,.bump 1,
    .copied 1,.clear 1,.credit 1,.test 1,.finish 1]

def sharedIndex : ReadSystem :=
  replay (readNext ⟨true,2,fun _ => true⟩) (.opened true) sharedIndexOps

theorem sharedIndex_misplaces : ¬ ∀ ops s,
    Run (stepOf (readNext ⟨true,2,fun _ => true⟩)) (undisturbed 8) (.opened true) ops s →
      ∀ ret ∈ s.returns, ret.Delivers ret.took := by
  intro h
  have hdelivers := h sharedIndexOps sharedIndex (replay_ok (by decide))
  have hmisplaced : sharedIndex.returns.any (fun ret => ret.rc == 2 && ret.user 0 == none) = true := by
    decide
  obtain ⟨ret,hret,hboth⟩ := List.any_eq_true.mp hmisplaced
  simp only [Bool.and_eq_true, beq_iff_eq] at hboth
  obtain ⟨hrc,huser⟩ := hdelivers ret hret
  -- two bytes, and none of them at the start
  have hlen : (payloads ret.took).length = 2 := by omega
  rw [huser] at hboth
  have hnone := List.getElem?_eq_none_iff.mp hboth.2
  omega

end DmaCamera
