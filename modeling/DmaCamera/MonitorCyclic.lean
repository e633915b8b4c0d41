import DmaCamera.Registers
set_option autoImplicit false

namespace DmaCamera

/-- `engine_service_poll`, but for what it has the engine's service do, which returned
`rc`; a count of zero is not waited for. -/
def engineServicePoll (expectedDescCount : U32) (rc : Int) : Int :=
  if expectedDescCount &&& wbCountMask ≠ expectedDescCount then -1 else rc

/-- What an iteration meets: the return code of the service that it polls, or how its
wait ends, and then the status of the result at `rx_head`. -/
structure MonitorRound where
  serviceRc : Int
  signal : Bool
  status : U32

def MonitorRound.rc (r : MonitorRound) (pollMode : Bool) : Int :=
  if pollMode then
    if engineServicePoll 0 r.serviceRc ≠ 0 then -eRestartSys else 0
  else if r.signal then -eRestartSys
  else 0

/-- The loop, from iteration `i` on, with the return code and the number of iterations
once it is left; no value if the fuel does not do. -/
def transferMonitorCyclic (pollMode : Bool) (env : Nat → MonitorRound) :
    Nat → Nat → Int → Option (Int × Nat)
  | 0, _, _ => none
  | fuel+1, i, rc =>
    let rc := rc+1
    if rc = 100 then some (rc,i+1)
    else
      let rc := (env i).rc pollMode
      if (env i).status = 0 then transferMonitorCyclic pollMode env fuel (i+1) rc
      else some (rc,i+1)

def leftWithin (n : Nat) (pollMode : Bool) (env : Nat → MonitorRound) : Bool :=
  (transferMonitorCyclic pollMode env n 0 0).isSome

def BetweenRounds (rc : Int) : Prop := rc = 0 ∨ rc = -eRestartSys

theorem MonitorRound.rc_between (r : MonitorRound) (pollMode : Bool) :
    BetweenRounds (r.rc pollMode) := by
  unfold MonitorRound.rc BetweenRounds
  repeat' split
  all_goals simp

/-- The guard compares `rc` when it is a return code plus one. -/
theorem BetweenRounds.guard {rc : Int} (h : BetweenRounds rc) : rc+1 ≠ 100 := by
  rcases h with rfl | rfl <;> decide

section loop

variable {pollMode : Bool} {env : Nat → MonitorRound} {rc : Int}

theorem transferMonitorCyclic_next (h : BetweenRounds rc) (fuel i : Nat) :
    transferMonitorCyclic pollMode env (fuel+1) i rc =
      if (env i).status = 0 then transferMonitorCyclic pollMode env fuel (i+1) ((env i).rc pollMode)
      else some ((env i).rc pollMode,i+1) := if_neg h.guard

theorem transferMonitorCyclic_left (h : BetweenRounds rc) (fuel i : Nat) :
    (∀ j < fuel, (env (i+j)).status = 0) ∧ transferMonitorCyclic pollMode env fuel i rc = none ∨
      ∃ k < fuel, (env (i+k)).status ≠ 0 ∧ (∀ j < k, (env (i+j)).status = 0) ∧
        transferMonitorCyclic pollMode env fuel i rc = some ((env (i+k)).rc pollMode,i+k+1) := by
  induction fuel generalizing i rc with
  | zero => exact Or.inl ⟨fun j hj => absurd hj (Nat.not_lt_zero j),rfl⟩
  | succ fuel ih =>
    rw [transferMonitorCyclic_next h]
    by_cases hs : (env i).status = 0
    · rw [if_pos hs]
      have hshift (j : Nat) : i+1+j = i+(j+1) := by omega
      rcases ih ((env i).rc_between pollMode) (i+1) with ⟨hall,hnone⟩ | ⟨k,hk,hne,hall,hsome⟩
      · refine Or.inl ⟨?_,hnone⟩
        rw [Nat.forall_lt_succ_left]
        exact ⟨hs,fun j hj => hshift j ▸ hall j hj⟩
      · refine Or.inr ⟨k+1,Nat.succ_lt_succ hk,hshift k ▸ hne,?_,hshift k ▸ hsome⟩
        rw [Nat.forall_lt_succ_left]
        exact ⟨hs,fun j hj => hshift j ▸ hall j hj⟩
    · rw [if_neg hs]
      exact Or.inr ⟨0,Nat.succ_pos fuel,hs,fun j hj => absurd hj (Nat.not_lt_zero j),rfl⟩

end loop

/-- A call ends with the return code of its last wait, never with that of the guard. -/
theorem transferMonitorCyclic_rc {pollMode : Bool} {env : Nat → MonitorRound} {fuel n : Nat} {rc : Int}
    (h : transferMonitorCyclic pollMode env fuel 0 0 = some (rc,n)) : BetweenRounds rc := by
  rcases transferMonitorCyclic_left (Or.inl rfl) fuel 0 with ⟨_,hnone⟩ | ⟨k,_,_,_,hsome⟩
  · rw [hnone] at h
    cases h
  · rw [hsome] at h
    cases h
    exact (env _).rc_between pollMode

/-- A hundred iterations do exactly if one of them finds a result. -/
theorem transferMonitorCyclic_hundred (pollMode : Bool) (env : Nat → MonitorRound) :
    leftWithin 100 pollMode env = true ↔ ∃ i < 100, (env i).status ≠ 0 := by
  unfold leftWithin
  rcases transferMonitorCyclic_left (Or.inl rfl) 100 0 with ⟨hall,hnone⟩ | ⟨k,hk,hne,_,hsome⟩
  · simp only [Nat.zero_add] at hall
    rw [hnone]
    simp only [Option.isSome_none, Bool.false_eq_true, false_iff, not_exists, not_and, not_not]
    exact hall
  · rw [hsome, Nat.zero_add] at *
    exact ⟨fun _ => ⟨k,hk,hne⟩,fun _ => rfl⟩

/-- Signals without an end, or errors of the writeback, and no result. -/
theorem transferMonitorCyclic_spins :
    leftWithin 100 false (fun _ => ⟨0,true,0⟩) = false ∧
      leftWithin 100 true (fun _ => ⟨-1,false,0⟩) = false := by decide

end DmaCamera
