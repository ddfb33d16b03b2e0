import Yalnix.Process.Contexts

/-! `Brk` over whole runs. Every process that has its program has its heap mapped up
to the break, so the call meets only heaps of this kind. -/
namespace Yalnix.KernelStart

open Hardware KernelMemory UserMemory Kernel

section

variable [Hardware] {s : Kernel}

theorem wf_reachable (run : system.Reachable s) : s.mem.frames.Wf := (guarded_reachable run).custody.wf

/-- The frames of the running process belong to it alone. -/
theorem owned_reachable (run : system.Reachable s) : Mapping.Owned region1Vpns s.mem.userMapping := by
  have hGuarded := guarded_reachable run
  have hCounts : s.space.Owning s.Gone s.mem.active := hGuarded.active
  have hHolds {i : Int} (hValid : (s.mem.region1Pt i).valid = true) :
      s.mem.Holds (s.space.Owning s.Gone) (.user s.mem.active i) (s.mem.region1Pt i).pfn :=
    ⟨hCounts, hValid, rfl⟩
  constructor
  · exact fun i _ _ hValid => hGuarded.custody.sound.marked _ _ (hHolds hValid)
  · intro i j _ _ _ _ hi hj hSame
    have hBoth : s.mem.Holds (s.space.Owning s.Gone) (.user s.mem.active j) (s.mem.region1Pt i).pfn := by
      have hHeld := hHolds hj
      have hPfn : (s.mem.region1Pt i).pfn = (s.mem.region1Pt j).pfn := hSame
      rwa [← hPfn] at hHeld
    exact (Owner.user.inj (hGuarded.custody.sound.apart _ _ _ (hHolds hi) hBoth)).2

theorem ready_call {t : Kernel} {label : Label} {z : Space} (hServed : s.space.Served) (hWf : s.mem.frames.Wf)
    (hCall : Space.Call t.Gone label s.space z) (hLives : ¬t.Gone s.runningProc)
    (hReady : (s.mem.ctx s.runningProc).Ready) : (z.mem.ctx s.runningProc).Ready := by
  have hActive : s.mem.active = s.runningProc := hServed.current.active
  rw [← hActive] at hReady ⊢
  cases hCall with
  | none => exact hReady
  | brk _ => exact ready_kernelBrkImpl hWf hReady _ _
  | grow _ _ => exact (stacked_expandStack _).ready hReady
  | @load uc file args argsOk loaded _ hLoad hKill =>
      cases hResult : loaded.result with
      | success => exact ready_loadProgram hWf hLoad hResult
      | error =>
          show (loaded.mem.ctx s.mem.active).Ready
          rw [LoadProgram.mem_loadProgram_error hLoad hResult]
          exact hReady
      | kill => exact absurd (hKill hResult) hLives
  | fork _ hNew hCopy _ =>
      have hOther : s.mem.active ≠ s.space.numPcbs := by
        rw [hActive]
        exact hNew.ne
      have hSame : s.space.create.mem.ctx s.mem.active = s.mem.ctx s.mem.active := Function.update_of_ne hOther _ _
      exact (ready_ucCopy (m := s.space.create.mem) hOther.symm (hSame ▸ hReady) hCopy).1

theorem ready_child {t : Kernel} {label : Label} {z : Space} (hServed : s.space.Served)
    (hCall : Space.Call t.Gone label s.space z) (hMore : z.numPcbs = s.numPcbs + 1) (hLives : ¬t.Gone s.numPcbs)
    (hReady : (s.mem.ctx s.runningProc).Ready) : (z.mem.ctx s.numPcbs).Ready := by
  have hActive : s.mem.active = s.runningProc := hServed.current.active
  rw [← hActive] at hReady
  cases hCall with
  | none | brk _ | grow _ _ | load _ _ _ => exact absurd hMore.symm (Nat.succ_ne_self _)
  | @fork uc o mem ok _ hNew hCopy hFail =>
      have hOther : s.mem.active ≠ s.space.numPcbs := by
        rw [hActive]
        exact hNew.ne
      have hSame : s.space.create.mem.ctx s.mem.active = s.mem.ctx s.mem.active := Function.update_of_ne hOther _ _
      refine (ready_ucCopy (m := s.space.create.mem) hOther.symm (hSame ▸ hReady) hCopy).2 ?_
      cases ok with
      | true => rfl
      | false => exact absurd (hFail rfl) hLives

/-- In every state the heap of every process that has its program is mapped. -/
theorem ready_reachable (run : system.Reachable s) : s.Everywhere MemCtx.Ready := by
  refine run.invariant (I := Everywhere MemCtx.Ready) ?_ fun s label t hRun hReady _ hStep => ?_
  · rintro s ⟨uctxt, early, late, rfl⟩
    exact everywhere_kernelStart _ uctxt early late
  · have hSound := sound_reachable hRun
    have hServed := served_reachable hRun
    have hWf := wf_reachable hRun
    refine hReady.step hSound (sound_reachable (reachable_step hRun hStep)) hServed hStep
      (fun z hCall hLives _ hHeap => ready_call hServed hWf hCall hLives hHeap)
      (fun z hCall hMore hLives hHeap => ready_child hServed hCall hMore hLives hHeap) ?_
    intro o uc loaded _ _ hLoad hResult
    have hActive : s.mem.active = s.runningProc := hServed.current.active
    rw [← hActive]
    exact ready_loadProgram hWf hLoad hResult

/-- The heap of a process that may trap. -/
theorem ready_running (run : system.Reachable s) (hUser : s.inUser) : (s.mem.ctx s.mem.active).Ready := by
  have hActive : s.mem.active = s.runningProc := (served_reachable run).current.active
  rw [hActive]
  exact (ready_reachable run).running ((sound_reachable run).settled.live_running hUser) hUser.1

end

/-- In every state in which a process may call `Brk`, for all arguments, the call is
exact or without effect exactly when it refuses the address at once, or tries to map
only pages of region 1 that are not mapped. -/
theorem brk_exact_when_room [Hardware] {s : Kernel} (run : system.Reachable s) (hUser : s.inUser) (addr sp : Word) :
    BrkExact s.mem addr (kernelBrkImpl s.mem addr sp) ↔
      BrkRejected s.mem addr sp ∨ RoomAtBreak s.mem (pageNumber (upToPage addr)) :=
  brk_exact_iff (wf_reachable run) (ready_running run hUser) (owned_reachable run) addr sp

section

open Sample

/-- A process whose stack has grown to the page above the guard page. -/
def stackGrown : List Label := turn ++ [.memory { context [] with addr := 240 }]

/-- One page of heap below an untouched stack. -/
theorem brk_exact_one : BrkExact (after turn).mem 240 (kernelBrkImpl (after turn).mem 240 280) := by
  have run : system.Reachable (after turn) := reachable_after (by decide +kernel)
  refine (brk_exact_when_room run (by decide +kernel) 240 280).mpr (Or.inr fun vpn hFirst hLast _ => ?_)
  have hCurr : ((after turn).mem.ctx (after turn).mem.active).currBrkPage = 14 := by decide +kernel
  have hPage : pageNumber (upToPage 240) = 15 := by decide
  obtain rfl : vpn = 14 := by omega
  exact ⟨by decide, by decide +kernel⟩

/-- The old stack page is mapped again, and its frame is lost. -/
theorem brk_exact_fails : system.Reachable (after stackGrown) ∧
    ¬BrkExact (after stackGrown).mem 256 (kernelBrkImpl (after stackGrown).mem 256 288) := by
  have run : system.Reachable (after stackGrown) := reachable_after (by decide +kernel)
  refine ⟨run, fun hExact => ?_⟩
  have hUser : (after stackGrown).inUser := by decide +kernel
  rcases (brk_exact_iff (wf_reachable run) (ready_running run hUser) (owned_reachable run) 256 288).mp hExact with
    hRejected | hRoom
  · unfold BrkRejected at hRejected
    exact absurd hRejected (by decide +kernel)
  · have hTwo : ({28, 29} : Set Nat) ⊆
        (after stackGrown).mem.frames.range \ (after stackGrown).mem.frames.inUse := by
      rintro pfn (rfl | rfl)
      · exact ⟨⟨by decide, by decide +kernel⟩, fun hUsed => absurd hUsed.2.2 (by decide +kernel)⟩
      · exact ⟨⟨by decide, by decide +kernel⟩, fun hUsed => absurd hUsed.2.2 (by decide +kernel)⟩
    have hFree : 2 ≤ (after stackGrown).mem.frames.freeCount := by
      rw [← Set.ncard_pair (show (28 : Nat) ≠ 29 by decide)]
      exact Set.ncard_le_ncard hTwo ((after stackGrown).mem.frames.finite_range.sdiff)
    have hCurr : ((after stackGrown).mem.ctx (after stackGrown).mem.active).currBrkPage = 14 := by decide +kernel
    have hPage := (hRoom 15 (by rw [hCurr]; decide) (by decide) (by rw [hCurr]; omega)).2
    exact absurd hPage (by decide +kernel)

end

end Yalnix.KernelStart
