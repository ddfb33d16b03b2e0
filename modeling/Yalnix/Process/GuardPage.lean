import Yalnix.Memory.GuardPage
import Yalnix.Process.UserHeap

/-! The guard page over whole runs, of any number of processes. -/
namespace Yalnix.KernelStart

open Hardware UserMemory Kernel Transition

section

variable [Hardware] {s t : Kernel} {label : Label}

/-- The step keeps the guard page. The stack pointer of a caller is in region 1. -/
def GuardKept (s : Kernel) : Label → Prop
  | .syscall .brk uc _ => InsideRegion1 uc.sp ∧ BreakClear s.mem (uc.regs 0) uc.sp
  | .syscall .fork uc _ => InsideRegion1 uc.sp
  | .syscall .exec uc o => ∀ li text data args, o.file = .image li text data →
      (s.saveUc uc).execArgs = .ok (some args) → TextAside li (LoadProgram.layout li args)
  | .memory uc => StackClosed s.mem uc.addr
  | .resume o => ∀ li text data, o.file = .image li text data → (s.pcb s.runningProc).kc = some .boot →
      TextAside li (LoadProgram.layout li cmdArgs)
  | _ => True

/-- An `Exec` that its caller survives has loaded the program, or left the memory alone. -/
theorem exec_step {uc : UserContext} {o : Outcomes} (hSound : Sound s) (hStep : s.step (.syscall .exec uc o) = .ok t)
    (hLives : ¬t.Gone s.runningProc) : t.mem = s.mem ∨ ∃ args loaded,
      (s.saveUc uc).execArgs = .ok (some args) ∧ loaded.result = .success ∧ t.mem = loaded.mem ∧
      LoadProgram.loadProgram s.mem ((s.saveUc uc).pcb s.runningProc).uc o.file args (o.alloc 0) = .ok loaded := by
  simp only [step] at hStep
  split_ifs at hStep with hUser
  obtain ⟨done, hDone, hLeave⟩ := bind_eq_ok.mp hStep
  obtain rfl := Except.ok.inj hLeave
  have hMem : done.leave.mem = done.mem := congrArg Space.mem (space_leave done)
  rw [hMem]
  obtain ⟨args, hArgs, hExec⟩ := bind_eq_ok.mp hDone
  cases args with
  | none =>
      obtain rfl := Except.ok.inj hExec
      exact Or.inl rfl
  | some args =>
      obtain ⟨loaded, hLoad, hExec⟩ := bind_eq_ok.mp hExec
      cases hResult : loaded.result with
      | success =>
          simp only [hResult] at hExec
          obtain rfl := Except.ok.inj hExec
          exact Or.inr ⟨args, loaded, hArgs, hResult, rfl, hLoad⟩
      | error =>
          simp only [hResult] at hExec
          obtain rfl := Except.ok.inj hExec
          exact Or.inl (LoadProgram.mem_loadProgram_error hLoad hResult)
      | kill =>
          simp only [hResult] at hExec
          generalize hLoaded : ((s.saveUc uc).setMem loaded.mem).modifyPcb _ _ = left at hExec
          have hGone : done.Gone left.runningProc := by
            refine gone_kernelExit ?_ ?_ hExec
            · rw [← hLoaded]
              exact hSound.running_lt
            · rw [← hLoaded]
              exact hUser.2
          rw [← hLoaded] at hGone
          refine absurd ?_ hLives
          unfold Kernel.leave
          split
          · exact hGone
          · exact hGone

theorem guarded_call {z : Space} (hRun : system.Reachable s) (hKept : GuardKept s label)
    (hStep : s.step label = .ok t) (hCall : Space.Call t.Gone label s.space z) (hLives : ¬t.Gone s.runningProc)
    (hSame : t.mem.ctx s.runningProc = z.mem.ctx s.runningProc) (hReady : (s.mem.ctx s.runningProc).Ready)
    (h : (s.mem.ctx s.runningProc).Guarded) : (z.mem.ctx s.runningProc).Guarded := by
  have hWf := wf_reachable hRun
  have hActive : s.mem.active = s.runningProc := (served_reachable hRun).current.active
  cases hCall with
  | none => exact h
  | brk hBrk =>
      subst hBrk
      rw [← hActive] at hReady h ⊢
      exact guarded_kernelBrkImpl hWf hReady h hKept.1 hKept.2
  | grow hMemory _ =>
      subst hMemory
      rw [← hActive] at h ⊢
      exact guarded_expandStack hWf h hKept
  | load hLoads _ _ =>
      rw [← hSame]
      cases label with
      | syscall call uc o =>
          cases call with
          | exec =>
              rcases exec_step (sound_reachable hRun) hStep hLives with hNone | ⟨args, loaded, hArgs, hResult, hMem, hLoad⟩
              · rw [hNone]
                exact h
              · rw [hMem, ← hActive]
                exact guarded_loadProgram hWf hLoad hResult fun li text data hFile => hKept li text data args hFile hArgs
          | _ => cases hLoads
      | resume o =>
          by_cases hKc : (s.pcb s.runningProc).kc = some .boot
          · obtain ⟨uc, loaded, hLoad, hResult, hMem⟩ := booted_step hKc hStep
            rw [hMem, ← hActive]
            exact guarded_loadProgram hWf hLoad hResult fun li text data hFile => hKept li text data hFile hKc
          · have hEnd := sound_reachable (reachable_step hRun hStep)
            rw [resumed_step hEnd (served_reachable hRun) hKc hStep hLives]
            exact h
      | _ => cases hLoads
  | fork hFork hNew hCopy _ =>
      subst hFork
      have hOther : s.mem.active ≠ s.space.numPcbs := by
        rw [hActive]
        exact hNew.ne
      rw [← hActive] at hReady h ⊢
      have hSame : s.space.create.mem.ctx s.mem.active = s.mem.ctx s.mem.active := Function.update_of_ne hOther _ _
      have hBlank : s.space.create.mem.ctx s.space.numPcbs = .blank := Function.update_self _ _ _
      exact (guarded_ucCopy (m := s.space.create.mem) hOther.symm (hSame ▸ hReady) (hSame ▸ h) hKept
        (fun i => by rw [hBlank]; rfl) hCopy).1

theorem guarded_child {z : Space} (hRun : system.Reachable s) (hKept : GuardKept s label)
    (hCall : Space.Call t.Gone label s.space z) (hMore : z.numPcbs = s.numPcbs + 1) (hLives : ¬t.Gone s.numPcbs)
    (hReady : (s.mem.ctx s.runningProc).Ready) (h : (s.mem.ctx s.runningProc).Guarded) :
    (z.mem.ctx s.numPcbs).Guarded := by
  have hActive : s.mem.active = s.runningProc := (served_reachable hRun).current.active
  rw [← hActive] at hReady h
  cases hCall with
  | none | brk _ | grow _ _ | load _ _ _ => exact absurd hMore.symm (Nat.succ_ne_self _)
  | @fork uc o mem ok hFork hNew hCopy hFail =>
      subst hFork
      have hOther : s.mem.active ≠ s.space.numPcbs := by
        rw [hActive]
        exact hNew.ne
      have hSame : s.space.create.mem.ctx s.mem.active = s.mem.ctx s.mem.active := Function.update_of_ne hOther _ _
      have hBlank : s.space.create.mem.ctx s.space.numPcbs = .blank := Function.update_self _ _ _
      refine (guarded_ucCopy (m := s.space.create.mem) hOther.symm (hSame ▸ hReady) (hSame ▸ h) hKept
        (fun i => by rw [hBlank]; rfl) hCopy).2 ?_
      cases ok with
      | true => rfl
      | false => exact absurd (hFail rfl) hLives

end

/-- Along every run whose steps all keep the guard page, for every process that has
its program: the page at the break is not mapped, data and heap reach up to it, and
the pages that are mapped above it are one block at the end of region 1. -/
theorem guard_page_unmapped [Hardware] {s : Kernel} (run : system.Reach GuardKept s) :
    s.Everywhere MemCtx.Guarded := by
  have hBoth : s.Everywhere fun ctx => ctx.Ready ∧ ctx.Guarded := by
    refine run.invariant (I := Everywhere fun ctx => ctx.Ready ∧ ctx.Guarded) ?_ fun s label t hRun hBoth hKept hStep => ?_
    · rintro s ⟨uctxt, early, late, rfl⟩
      exact everywhere_kernelStart _ uctxt early late
    · have hReach := hRun.reachable
      have hServed := served_reachable hReach
      have hWf := wf_reachable hReach
      refine hBoth.step (sound_reachable hReach) (sound_reachable (reachable_step hReach hStep)) hServed hStep
        (fun z hCall hLives hSame hHolds => ⟨ready_call hServed hWf hCall hLives hHolds.1,
          guarded_call hReach hKept hStep hCall hLives hSame hHolds.1 hHolds.2⟩)
        (fun z hCall hMore hLives hHolds => ⟨ready_child hServed hCall hMore hLives hHolds.1,
          guarded_child hReach hKept hCall hMore hLives hHolds.1 hHolds.2⟩) ?_
      intro o uc loaded hLabel hKc hLoad hResult
      subst hLabel
      have hActive : s.mem.active = s.runningProc := hServed.current.active
      rw [← hActive]
      exact ⟨ready_loadProgram hWf hLoad hResult,
        guarded_loadProgram hWf hLoad hResult fun li text data hFile => hKept li text data hFile hKc⟩
  exact fun p hLive => (hBoth p hLive).imp_left And.right

section

open Sample

/-- The first program, with its guard page between the data and the stack. -/
theorem guard_page_unmapped_one : (after turn).Everywhere MemCtx.Guarded := by
  have hRun : (system.run (fun _ _ => True) booted turn).isSome = true := by decide +kernel
  obtain ⟨s, hEnd⟩ := Option.isSome_iff_exists.mp hRun
  have hAfter : after turn = s := by
    rw [after, hEnd]
    rfl
  rw [hAfter]
  refine guard_page_unmapped ((System.Reach.initial initial_booted).run_of_forall (fun label hLabel s => ?_) hEnd)
  rcases List.mem_cons.mp hLabel with rfl | hResume
  · trivial
  · obtain rfl := List.mem_singleton.mp hResume
    intro li text data hFile _
    obtain ⟨rfl, -, -⟩ := LoadProgram.File.image.inj hFile
    exact Or.inr (Or.inl (by decide))

/-- The stack grows down to the page above the guard page. The stack pointer goes back
up, and then the heap grows by the guard page. -/
def guardTaken : List Label := turn ++ [.memory { context [] with addr := 240 }, call .brk [240]]

theorem guard_page_mapped : system.Reachable (after guardTaken) ∧ ¬(after guardTaken).Everywhere MemCtx.Guarded := by
  have run : system.Reachable (after guardTaken) := reachable_after (by decide +kernel)
  refine ⟨run, fun hGuarded => ?_⟩
  have hUser : (after guardTaken).inUser := by decide +kernel
  have hValid : (((after guardTaken).mem.ctx (after guardTaken).runningProc).region1Pt
      (((after guardTaken).mem.ctx (after guardTaken).runningProc).currBrkPage - region1BaseVpn)).valid = true := by
    decide +kernel
  have hGuard := (hGuarded.running ((sound_reachable run).settled.live_running hUser) hUser.1).guard
  rw [hValid] at hGuard
  cases hGuard

end

end Yalnix.KernelStart
