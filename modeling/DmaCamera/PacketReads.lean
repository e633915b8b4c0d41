import DmaCamera.SoleReader
set_option autoImplicit false

namespace DmaCamera
open Circular Countdown Framing Runs

/-! Without credits `eop_found` stays set behind the first packet, and then tells a
reader nothing about the slots it is to take. -/

/-- Well-formed slots, and room for each: the flag is never raised. -/
def withoutOverrun (s : ReadSystem) : ReadOp → Prop
  | .fill x => x.WellFormed ∧ s.fillsFree 1
  | .service => s.rx.ring.raises = false
  | _ => True

/-- A section finds the end of a packet among the results noticed, and copies succeed. -/
def meetsEop (s : ReadSystem) : ReadOp → Prop
  | .lock _ => (s.pending.take s.rx.noticed.length).any Slot.eop = true
  | .copy _ uncopied => uncopied = 0
  | _ => True

instance (s : ReadSystem) : (op : ReadOp) → Decidable (withoutOverrun s op)
  | .fill _ => inferInstanceAs (Decidable (_ ∧ _))
  | .service => inferInstanceAs (Decidable (_ = _))
  | .start .. | .wait .. | .check _ | .lock _ | .copy .. | .copied _ | .bump _ | .clear _
  | .credit _ | .test _ | .finish _ => inferInstanceAs (Decidable True)

instance (s : ReadSystem) : (op : ReadOp) → Decidable (meetsEop s op)
  | .lock _ | .copy .. => inferInstanceAs (Decidable (_ = _))
  | .fill _ | .service | .start .. | .wait .. | .check _ | .copied _ | .bump _ | .clear _
  | .credit _ | .test _ | .finish _ => inferInstanceAs (Decidable True)

structure ReadSystem.Packets (s : ReadSystem) : Prop extends s.Flow 1, s.Sole where
  off : s.rx.ring.rxOverrun = false
  onePass : ∀ i, (s.readers i).OnePass s.eopFound
  frame : (s.readers 0).pc.early = false → IsFrame Slot.eop (s.readers 0).took
  served : ∀ ret ∈ s.returns, 0 ≤ ret.rc ∧ IsFrame Slot.eop ret.took ∨ ret.rc < 0 ∧ ret.took = []

theorem ReadSystem.opened_packets : (ReadSystem.opened false).Packets where
  toFlow := ReadSystem.opened_flow 1 false
  toSole := ReadSystem.opened_sole false
  off := rfl
  onePass _ := Reader.idle_onePass false
  frame h := by cases h
  served := by simp [ReadSystem.opened]

section packets

variable {s t : ReadSystem} {op : ReadOp} {c : RxSetting}

theorem ReadSystem.Taking.isFrame (h : s.Taking)
    (heop : (s.pending.take s.rx.noticed.length).any Slot.eop = true) :
    IsFrame Slot.eop s.batch := by
  refine ⟨?_,h.stretch.2⟩
  by_contra hopen
  have hopen := Bool.eq_false_iff.mpr hopen
  obtain ⟨x,hx,hxe⟩ := List.any_eq_true.mp heop
  rw [← h.drained (h.closes.symm.trans hopen)] at hx
  have hplain := Unbroken.plain h.stretch.2 hopen x hx
  rw [hxe] at hplain
  cases hplain

theorem ReadSystem.Packets.frame_step (h : s.Packets) (hone : c.readers = 1) (hok : meetsEop s op)
    (hstep : ReadStep c s op t) (hlate : (t.readers 0).pc.early = false) :
    IsFrame Slot.eop (t.readers 0).took := by
  cases hstep with
  | fill | service => exact h.frame hlate
  | @start i _ hi =>
    obtain rfl : i = 0 := by omega
    simp [ReadPc.early] at hlate
  | wait hpc | again hpc | enter hpc =>
    obtain rfl := h.toReading.sole hpc (by simp)
    simp [ReadPc.early] at hlate
  | interrupted hpc | finish hpc =>
    obtain rfl := h.toReading.sole hpc (by simp)
    simp [Reader.idle, ReadPc.early] at hlate
  | lock hpc =>
    obtain rfl := h.toReading.sole hpc (by simp)
    have htaking := h.toStored.taking h.off
    have hfresh := (h.onePass 0).fresh (by rw [hpc]; rfl)
    rw [htaking.reader, Function.update_self, Reader.copies, hfresh.2]
    exact htaking.isFrame hok
  | copy hpc | copyFails hpc =>
    obtain rfl := h.toReading.sole hpc (by simp)
    rw [ReadSystem.copy_took]
    exact h.frame (by rw [hpc]; rfl)
  | copied hpc | bump hpc | clear hpc | credit hpc | test hpc =>
    obtain rfl := h.toReading.sole hpc (by simp)
    have hframe := h.frame (by rw [hpc]; rfl)
    simpa using hframe

theorem ReadSystem.Packets.served_step (h : s.Packets) (hstep : ReadStep c s op t) :
    ∀ ret ∈ t.returns, 0 ≤ ret.rc ∧ IsFrame Slot.eop ret.took ∨ ret.rc < 0 ∧ ret.took = [] := by
  cases hstep with
  | interrupted hpc hrc =>
    obtain rfl := h.toReading.sole hpc (by simp)
    have hle := (h.onePass 0).signal _ hpc
    have hneg := lt_of_le_of_ne hle hrc
    intro ret hret
    simp only [ReadSystem.leave, List.mem_append, List.mem_singleton] at hret
    rcases hret with hret | rfl
    · exact h.served ret hret
    · refine Or.inr ⟨hneg,((h.onePass 0).fresh ?_).2⟩
      rw [hpc]
      rfl
  | finish hpc =>
    obtain rfl := h.toReading.sole hpc (by simp)
    obtain ⟨_,hrcLen,_⟩ := (h.progress 0).resting (by rw [hpc]; rfl)
    have hpos : 0 ≤ (s.readers 0).rcLen := by omega
    intro ret hret
    simp only [ReadSystem.finish, ReadSystem.leave, List.mem_append, List.mem_singleton] at hret
    rcases hret with hret | rfl
    · exact h.served ret hret
    · exact Or.inl ⟨hpos,h.frame (by rw [hpc]; rfl)⟩
  | _ => exact h.served

theorem ReadSystem.Packets.step (hc : c.creditMode = false) (hone : c.readers = 1) (h : s.Packets)
    (hroom : withoutOverrun s op) (hok : meetsEop s op) (hstep : ReadStep c s op t) : t.Packets := by
  have hkeeps : keepsBytes 1 s op := by
    cases hstep with
    | fill => exact hroom
    | lock => exact h.off
    | clear => exact h.off
    | copy => exact ⟨rfl,h.toSole.inPlace h.toReading _⟩
    | copyFails _ hpos => exact absurd hok hpos
    | _ => trivial
  have hflow := h.toFlow.step_sole hone hkeeps hstep
  refine ⟨hflow,h.toSole.step_flow hone h.toFlow hkeeps
    (h.toSole.short_lt h.formed (h.onePass 0).short) hstep,hstep.off h.off ?_,
    hstep.onePass hc h.onePass,h.frame_step hone hok hstep,h.served_step hstep⟩
  rintro rfl
  exact hroom

end packets

/-- As long as every section finds the end of a packet, reads that do not fail
return the packets in order, one each. -/
theorem run_returnsPackets {ops : List ReadOp} {s : ReadSystem}
    (r : Run (stepOf (readNext ⟨false,1,fun _ => true⟩)) (fun s op => withoutOverrun s op ∧
      meetsEop s op) (.opened false) ops s) :
    (∀ ret ∈ s.returns, 0 ≤ ret.rc → IsFrame Slot.eop ret.took ∧ ret.Delivers ret.took) ∧
    List.Forall₂ Return.Delivers s.served ((frames Slot.eop s.sent).take s.served.length) := by
  have h : s.Packets := r.invariant ReadSystem.Packets ReadSystem.opened_packets
    fun s op t hs hok hn => hs.step rfl rfl hok.1 hok.2 (readNext_step hn)
  have hframes : ∀ ret ∈ s.returns, 0 ≤ ret.rc → IsFrame Slot.eop ret.took ∧ ret.Delivers ret.took := by
    intro ret hret hrc
    rcases h.served ret hret with ⟨_,hframe⟩ | ⟨hneg,_⟩
    · exact ⟨hframe,h.returns ret hret hrc⟩
    · omega
  have hsent := h.toSole.sent_eq
  rw [← ReadSystem.served_took fun ret hret hneg => ?_] at hsent
  · refine ⟨hframes,delivers_frames (fun ret hret => ?_) hsent⟩
    obtain ⟨hmem,hrc⟩ := List.mem_filter.mp hret
    exact hframes ret hmem (by simpa using hrc)
  · rcases h.served ret hret with ⟨hrc,_⟩ | ⟨_,hnone⟩
    · omega
    · exact hnone

def oneReadOps : List ReadOp :=
  [.fill ⟨⟨0x52B40001,3⟩,[7,8,9]⟩,.service,.start 0 8,.wait 0 false,.check 0,.lock 0,.copy 0 0,
    .bump 0,.copied 0,.clear 0,.credit 0,.test 0,.finish 0]

def oneRead : ReadSystem := replay (readNext ⟨false,1,fun _ => true⟩) (.opened false) oneReadOps

theorem run_returnsPackets_oneRead :
    (∀ ret ∈ oneRead.returns, 0 ≤ ret.rc → IsFrame Slot.eop ret.took ∧ ret.Delivers ret.took) ∧
    List.Forall₂ Return.Delivers oneRead.served
      ((frames Slot.eop oneRead.sent).take oneRead.served.length) :=
  run_returnsPackets (replay_ok (by decide))

def staleFlagOps : List ReadOp := oneReadOps ++
  [.fill ⟨⟨0x52B40001,2⟩,[5,6]⟩,.start 0 8,.wait 0 false,.check 0,.lock 0,.copied 0,.clear 0,
    .credit 0,.test 0,.finish 0]

def staleFlag : ReadSystem := replay (readNext ⟨false,1,fun _ => true⟩) (.opened false) staleFlagOps

theorem staleFlag_returnsEmpty : ¬ ∀ ops s,
    Run (stepOf (readNext ⟨false,1,fun _ => true⟩)) withoutOverrun (.opened false) ops s →
      ∀ ret ∈ s.returns, 0 ≤ ret.rc → IsFrame Slot.eop ret.took := by
  intro h
  have hframes := h staleFlagOps staleFlag (replay_ok (by decide))
  have hempty : staleFlag.returns.any (fun ret => 0 ≤ ret.rc && ret.took.isEmpty) = true := by decide
  obtain ⟨ret,hret,hboth⟩ := List.any_eq_true.mp hempty
  simp only [Bool.and_eq_true, decide_eq_true_eq, List.isEmpty_iff] at hboth
  exact (hframes ret hret hboth.1).ne_nil hboth.2

end DmaCamera
