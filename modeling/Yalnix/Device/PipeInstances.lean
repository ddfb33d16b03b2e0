import Yalnix.Device.PipeHistory
import Yalnix.Process.Waiting

/-! Which pipe a read is served from. A reader that waits looks its pipe up again
by slot when it continues, so it reads from the pipe it was called on unless
the slot was handed out again in between. -/
namespace Yalnix

open Hardware Identifiers

def Event.createsPipe (id : Nat) : Event → Bool
  | .pipeCreated k => k == id
  | _ => false

/-- How many pipes there have been in slot `id`: the number of the present one. -/
def pipeInstance (id : Nat) (trace : List Event) : Nat := trace.countP (Event.createsPipe id)

theorem pipeInstance_filter (id : Nat) (trace : List Event) :
    pipeInstance id (trace.filter Event.isPipe) = pipeInstance id trace := by
  rw [pipeInstance, List.countP_filter, pipeInstance]
  refine List.countP_congr fun e _ => ?_
  cases e <;> simp [Event.createsPipe, Event.isPipe]

theorem pipeInstance_append {id : Nat} {e : Event} (he : e.createsPipe id = false) (trace : List Event) :
    pipeInstance id (trace ++ [e]) = pipeInstance id trace := by
  simp [pipeInstance, he]

namespace Kernel

variable [Hardware] {s t : Kernel} {label : Label} {id : Nat}

/-- The number of the pipe that is in slot `id`. -/
def instanceOf (s : Kernel) (id : Nat) : Nat := pipeInstance id s.trace

omit [Hardware] in
theorem instanceOf_eq (s : Kernel) (id : Nat) : s.instanceOf id = pipeInstance id s.pipeView.log :=
  (pipeInstance_filter id s.trace).symm

omit [Hardware] in
theorem instanceOf_of_view (h : t.pipeView.log = s.pipeView.log) : t.instanceOf id = s.instanceOf id := by
  rw [instanceOf_eq, h, ← instanceOf_eq]

/-- Only `PipeInit` makes a new pipe. -/
theorem instanceOf_effect (hCall : label.creates ≠ some .pipe) (hEffect : Effect label s t) :
    t.instanceOf id = s.instanceOf id := by
  rcases pipe_effect hEffect with hStep | hSame
  · rw [instanceOf_eq, instanceOf_eq]
    cases hStep with
    | new hNew => exact absurd hNew hCall
    | @reclaim k =>
        unfold pipeReclaim
        split
        · rfl
        · split_ifs
          · rfl
          · rw [pipeView_emit_pipe _ rfl]
            exact pipeInstance_append rfl _
    | read =>
        rw [pipeView_emit_pipe _ rfl]
        exact pipeInstance_append rfl _
    | write =>
        rw [pipeView_wakeReaders, pipeView_emit_pipe _ rfl]
        exact pipeInstance_append rfl _
  · exact instanceOf_of_view (congrArg PipeView.log hSame)

/-- `PipeInit` makes a new pipe in the open slot only. -/
theorem instanceOf_kernelPipeInit {o : Outcomes} (hOpen : s.pipes.openIdx ≠ id) (hPipes : s.pipes.Wf Pipe.inUse .blank)
    (h : s.kernelPipeInit o = .ok t) : t.instanceOf id = s.instanceOf id := by
  have hRet {u : Kernel} {value : Word} (hTrace : u.instanceOf id = s.instanceOf id)
      (hSame : Except.ok (u.ret value) = (Except.ok t : Except Stop Kernel)) :
      t.instanceOf id = s.instanceOf id := by
    obtain rfl := Except.ok.inj hSame
    exact hTrace
  unfold kernelPipeInit newPipe at h
  dsimp only at h
  split_ifs at h
  · exact hRet rfl h
  · obtain ⟨-, hSome, -⟩ := hPipes.create .fresh rfl (Or.inr rfl) (o.alloc 0) (o.alloc 1)
    split at h
    · rename_i u hCreated
      split at hCreated
      · obtain ⟨rfl, -⟩ := Prod.mk.inj hCreated
        obtain rfl := Except.ok.inj h
        rfl
      · simp at hCreated
    · rename_i u k hCreated
      split at hCreated
      · simp at hCreated
      · rename_i k' hId
        obtain ⟨rfl, hk⟩ := Prod.mk.inj hCreated
        obtain rfl := Option.some.inj hk
        obtain ⟨mem, -, h⟩ := Transition.bind_eq_ok.mp h
        refine hRet ?_ h
        refine pipeInstance_append ?_ s.trace
        obtain ⟨rfl, -⟩ := hSome _ hId
        simpa [Event.createsPipe] using hOpen

/-- A step that is not a `PipeInit` for the slot leaves the pipe there. -/
theorem instanceOf_step (h : KernelStart.Sound s) (hOther : ¬(label.creates = some .pipe ∧ s.pipes.openIdx = id))
    (hStep : s.step label = .ok t) : t.instanceOf id = s.instanceOf id := by
  by_cases hCall : label.creates = some .pipe
  · cases label with
    | syscall call uc o =>
        cases call with
        | pipeInit =>
            simp only [step] at hStep
            split_ifs at hStep
            obtain ⟨u, hDispatch, hLeave⟩ := Transition.bind_eq_ok.mp hStep
            obtain rfl := Except.ok.inj hLeave
            rw [instanceOf_of_view (congrArg PipeView.log (pipeView_of_outside (Quiet.leave u).outside))]
            have hSaved := h.quiet (.saveUc s uc)
            have hSame : u.instanceOf id = (s.saveUc uc).instanceOf id :=
              instanceOf_kernelPipeInit (fun hOpen => hOther ⟨rfl, hOpen⟩) hSaved.settled.pipes hDispatch
            exact hSame
        | _ => cases hCall
    | _ => cases hCall
  · refine h.preserve (I := fun u => u.instanceOf id = s.instanceOf id)
      (fun u v hu hOld hEffect => (instanceOf_effect hCall hEffect).trans hOld) rfl hStep
      (fun uc o k len _ _ _ hOld => ?_) fun o k _ _ _ => ?_
    · rw [instanceOf_of_view (congrArg PipeView.log (pipeView_read _ _ _))]
      exact hOld
    · rw [instanceOf_of_view (congrArg PipeView.log (pipeView_read _ _ _))]
      rfl

omit [Hardware] in
/-- How a read of slot `id` returns when it is served from pipe `number` there:
it fails, or what it stores in the caller's buffer was all written to that
pipe. -/
def ReadsFrom (s t : Kernel) (id number : Nat) (buf : Word) (len : Int) : Prop :=
  (t.pcb s.runningProc).uc.regs 0 = errorCode ∨ ∃ bytes,
    (t.pcb s.runningProc).uc.regs 0 = BitVec.ofNat 32 bytes.length ∧
    s.mem.storeBytes buf.toInt bytes = .ok t.mem ∧ s.instanceOf id = number ∧
    bytes <:+: (pipeHistory id s.trace).1 ∧ (len ≠ 0 → (s.pipes.entries id).inUse = true)

theorem readsFrom_of_pipeReads {buf : Word} {len : Nat} (hFifo : s.pipeView.Fifo)
    (hUse : (s.pipes.entries id).inUse = true) (hReads : s.PipeReads t id buf len) (hMode : t.mode = .user) :
    s.ReadsFrom t id (s.instanceOf id) buf len := by
  rcases hReads with ⟨hResuming, -⟩ | ⟨bytes, hBytes, -, -, hStore, hResult, -⟩ | ⟨hError, -⟩
  · simp [hMode] at hResuming
  · refine Or.inr ⟨bytes, hResult, hStore, rfl, ?_, fun _ => hUse⟩
    have hHistory : (pipeHistory id s.trace).1 = (pipeHistory id s.trace).2 ++ (s.pipes.entries id).contents := by
      rw [← pipeHistory_filter]
      exact (hFifo id hUse).2
    rw [hBytes, hHistory]
    exact (List.take_prefix len _).isInfix.trans (List.suffix_append _ _).isInfix
  · exact Or.inl hError

/-- A read that continues. -/
theorem readsFrom_resume {buf : Word} {len : Nat} {o : Outcomes} (run : KernelStart.system.Reachable s)
    (hKc : (s.pcb s.runningProc).kc = some (.pipeRead id buf len)) (hStep : s.step (.resume o) = .ok t)
    (hMode : t.mode = .user) : s.ReadsFrom t id (s.instanceOf id) buf len := by
  have hFifo := KernelStart.fifo_reachable run
  have hLen : 0 < len := (KernelStart.sound_reachable run).contexts.valid _ _ hKc
  by_cases hUse : (s.pipes.entries id).inUse = true
  · have hWf := (Pipe.wf_data _).mp (hFifo id hUse).1
    exact readsFrom_of_pipeReads hFifo hUse (pipeReads_step hWf (Or.inr ⟨o, rfl, hKc⟩) hLen hStep) hMode
  · -- the pipe is gone
    simp only [step] at hStep
    split_ifs at hStep
    simp only [resume, hKc, continueAt, pipeReadLoop] at hStep
    rw [getPipe, if_pos (Or.inr (Bool.eq_false_iff.mpr hUse))] at hStep
    obtain rfl := Except.ok.inj hStep
    refine Or.inl ?_
    rw [leave_pcb]
    exact ret_result _ _

/-- A call that does not look at the bytes of a pipe fails or transfers none. -/
theorem kernelPipeRead_other (h : s.kernelPipeRead = .ok t)
    (hNone : ¬((s.pipes.entries (getId (s.reg 0))).inUse = true ∧ 0 < (s.reg 2).toInt)) :
    t = s.ret errorCode ∨ (s.reg 2).toInt = 0 ∧ t = s.ret 0 := by
  unfold kernelPipeRead guardBuf pipeReadImpl at h
  dsimp only at h
  split_ifs at h with hBuf hArgs hZero
  · exact Or.inl (Except.ok.inj h).symm
  · exact Or.inr ⟨hZero, (Except.ok.inj h).symm⟩
  · have hFree : (s.pipes.entries (getId (s.reg 0))).inUse = false :=
      Bool.eq_false_iff.mpr fun hUse => hNone ⟨hUse, by omega⟩
    rw [pipeReadLoop, getPipe, if_pos (Or.inr hFree)] at h
    exact Or.inl (Except.ok.inj h).symm
  · exact Or.inl (Except.ok.inj h).symm

/-- A call that returns at once. -/
theorem readsFrom_call {uc : UserContext} {o : Outcomes} (run : KernelStart.system.Reachable s)
    (hStep : s.step (.syscall .pipeRead uc o) = .ok t) (hMode : t.mode = .user) :
    s.ReadsFrom t (getId (uc.regs 0)) (s.instanceOf (getId (uc.regs 0))) (uc.regs 1) (uc.regs 2).toInt := by
  have hFifo := KernelStart.fifo_reachable run
  by_cases hRead : (s.pipes.entries (getId (uc.regs 0))).inUse = true ∧ 0 < (uc.regs 2).toInt
  · obtain ⟨hUse, hLen⟩ := hRead
    have hWf := (Pipe.wf_data _).mp (hFifo _ hUse).1
    obtain ⟨len, hReg⟩ := Int.eq_ofNat_of_zero_le hLen.le
    rw [hReg]
    exact readsFrom_of_pipeReads hFifo hUse
      (pipeReads_step hWf (Or.inl ⟨uc, o, rfl, rfl, rfl, hReg⟩) (by omega) hStep) hMode
  · simp only [step] at hStep
    split_ifs at hStep
    obtain ⟨u, hDispatch, hLeave⟩ := Transition.bind_eq_ok.mp hStep
    obtain rfl := Except.ok.inj hLeave
    have hOther := kernelPipeRead_other hDispatch (by rwa [reg_saveUc, reg_saveUc])
    rw [ReadsFrom, leave_pcb]
    rcases hOther with rfl | ⟨hZero, rfl⟩
    · exact Or.inl (ret_result _ _)
    · rw [reg_saveUc] at hZero
      refine Or.inr ⟨[], ret_result _ _, ?_, rfl, List.nil_infix, fun hLen => absurd hZero hLen⟩
      unfold leave
      split <;> rfl

theorem pipeReadLoop_blocks {buf : Word} {len : Nat} (hUser : s.mode = .user)
    (h : s.pipeReadLoop id buf len = .ok t) (hMode : t.mode = .resuming) :
    (t.pcb s.runningProc).kc = some (.pipeRead id buf len) := by
  unfold pipeReadLoop at h
  split at h
  · obtain rfl := Except.ok.inj h
    exact absurd (hUser.symm.trans hMode) (by simp)
  · split_ifs at h
    · obtain rfl := Except.ok.inj h
      have hKc := congrFun (congrArg Cpu.kc (cpu_switchAway (s.pipeBlock id) (.pipeRead id buf len))) s.runningProc
      exact hKc.trans (Function.update_self _ _ _)
    · obtain ⟨mem, -, h⟩ := Transition.bind_eq_ok.mp h
      obtain rfl := Except.ok.inj h
      exact absurd (hUser.symm.trans hMode) (by simp)

/-- A call that blocks. -/
theorem kc_of_pipeRead {uc : UserContext} {o : Outcomes}
    (hStep : s.step (.syscall .pipeRead uc o) = .ok t) (hMode : t.mode = .resuming) :
    (t.pcb s.runningProc).kc =
      some (.pipeRead (getId (uc.regs 0)) (uc.regs 1) (uc.regs 2).toInt.toNat) := by
  simp only [step] at hStep
  split_ifs at hStep with hUser
  obtain ⟨u, hDispatch, hLeave⟩ := Transition.bind_eq_ok.mp hStep
  obtain rfl := Except.ok.inj hLeave
  rw [(Quiet.leave u).mode] at hMode
  rw [leave_pcb]
  have hRet {value : Word} (hSame : Except.ok ((s.saveUc uc).ret value) = (Except.ok u : Except Stop Kernel)) : False := by
    obtain rfl := Except.ok.inj hSame
    exact absurd (hUser.1.symm.trans hMode) (by simp)
  unfold dispatch kernelPipeRead guardBuf pipeReadImpl at hDispatch
  simp only [reg_saveUc] at hDispatch
  split_ifs at hDispatch
  · exact (hRet hDispatch).elim
  · exact (hRet hDispatch).elim
  · have hBlocks : (u.pcb (s.saveUc uc).runningProc).kc = _ := pipeReadLoop_blocks hUser.1 hDispatch hMode
    exact hBlocks
  · exact (hRet hDispatch).elim

end Kernel

namespace KernelStart

open Kernel

/-- The step leaves the process inside its call. -/
def StaysInside [Hardware] (p : Proc) (kc : KernelContext) (s : Kernel) (label : Label) : Prop :=
  ∀ t ∈ (s.step label).toOption, t.Inside p kc

instance [Hardware] (p : Proc) (kc : KernelContext) (s : Kernel) (label : Label) :
    Decidable (StaysInside p kc s label) :=
  inferInstanceAs (Decidable (∀ t ∈ (s.step label).toOption, t.Inside p kc))

/-- A read is served from the pipe that its identifier denoted at the call, and
fails when that pipe is gone, as long as `PipeInit` does not hand out the slot
while the reader is inside its call. -/
theorem pipe_read_instance [Hardware] {s t : Kernel} {uc : UserContext} {o : Outcomes} (run : system.Reachable s)
    (hStep : s.step (.syscall .pipeRead uc o) = .ok t) :
    let id := getId (uc.regs 0)
    let kc := KernelContext.pipeRead id (uc.regs 1) (uc.regs 2).toInt.toNat
    (t.mode = .user → s.ReadsFrom t id (s.instanceOf id) (uc.regs 1) (uc.regs 2).toInt) ∧
    (t.mode = .resuming → ∀ u, system.Path (fun v label => StaysInside s.runningProc kc v label ∧
        ¬(label.creates = some .pipe ∧ v.pipes.openIdx = id)) t u →
      u.runningProc = s.runningProc → ∀ o w, u.step (.resume o) = .ok w → w.mode = .user →
      u.ReadsFrom w id (s.instanceOf id) (uc.regs 1) (uc.regs 2).toInt ∧
      (¬((u.pipes.entries id).inUse = true ∧ u.instanceOf id = s.instanceOf id) →
        (w.pcb s.runningProc).uc.regs 0 = errorCode)) := by
  refine ⟨readsFrom_call run hStep, fun hMode u path hRunning o' w hResume hUser => ?_⟩
  have hReached := reachable_step run hStep
  -- the reader keeps its call and the slot keeps its pipe
  have hKept : (u.pcb s.runningProc).kc = some (.pipeRead (getId (uc.regs 0)) (uc.regs 1) (uc.regs 2).toInt.toNat) ∧
      u.instanceOf (getId (uc.regs 0)) = s.instanceOf (getId (uc.regs 0)) := by
    refine path.invariant (I := fun v => (v.pcb s.runningProc).kc = some _ ∧
      v.instanceOf (getId (uc.regs 0)) = s.instanceOf (getId (uc.regs 0))) hReached
      ⟨kc_of_pipeRead hStep hMode, ?_⟩ ?_
    · exact instanceOf_step (sound_reachable run) (by simp [Label.creates]) hStep
    · rintro v label x hRun ⟨-, hSame⟩ ⟨hStays, hOther⟩ hNext
      exact ⟨(hStays x (Transition.mem_toOption.mpr hNext)).2.1,
        (instanceOf_step (sound_reachable hRun) hOther hNext).trans hSame⟩
  have hLen : 0 < (uc.regs 2).toInt.toNat :=
    (sound_reachable (path.reachable hReached)).contexts.valid _ _ hKept.1
  have hReads := readsFrom_resume (path.reachable hReached) (hRunning ▸ hKept.1) hResume hUser
  rw [hKept.2, Int.toNat_of_nonneg (by omega)] at hReads
  refine ⟨hReads, fun hGone => ?_⟩
  rcases hReads with hError | ⟨bytes, -, -, hSame, -, hUse⟩
  · exact hRunning ▸ hError
  · exact absurd ⟨hUse (by omega), hSame⟩ hGone

open Sample in
/-- The first process waits on the pipe until the second one writes. -/
theorem pipe_read_instance_waited : ∃ s t u w : Kernel, system.Reachable s ∧
    s.step (call .pipeRead [createId pipeFlag 0, 209, 1]) = .ok t ∧ t.mode = .resuming ∧
    u.step (.resume outcomes) = .ok w ∧ w.mode = .user ∧ u.ReadsFrom w 0 (s.instanceOf 0) 209 1 ∧
    (w.pcb s.runningProc).uc.regs 0 = 1 := by
  obtain ⟨s, run, t, hStep, hMode, u, hPath, hRunning, w, hResume, hUser, hResult⟩ :=
    Transition.System.exists_reachable
      (P := fun s : Kernel => ∃ t ∈ (s.step (call .pipeRead [createId pipeFlag 0, 209, 1])).toOption,
        t.mode = .resuming ∧ ∃ u ∈ system.run (fun v label =>
          StaysInside s.runningProc (.pipeRead 0 209 1) v label ∧
            ¬(label.creates = some .pipe ∧ v.pipes.openIdx = 0)) t
          [.resume outcomes, call .pipeWrite [createId pipeFlag 0, 208, 1], .clock (context []) outcomes],
        u.runningProc = s.runningProc ∧ ∃ w ∈ (u.step (.resume outcomes)).toOption, w.mode = .user ∧
          (w.pcb s.runningProc).uc.regs 0 = 1)
      (turn ++ [call .pipeInit [212], call .fork []]) initial_booted (by decide +kernel)
  rw [Transition.mem_toOption] at hStep hResume
  have hReads := ((pipe_read_instance run hStep).2 hMode u (.run hPath) hRunning outcomes w hResume hUser).1
  exact ⟨s, t, u, w, run, hStep, hMode, hResume, hUser, hReads, hResult⟩

open Sample in
/-- The second process writes to the pipe, reads it empty, reclaims it, creates a
new one in the slot and writes to that: the first process reads from it. -/
theorem pipe_read_other_instance : ∃ s t u w : Kernel, system.Reachable s ∧
    s.step (call .pipeRead [createId pipeFlag 0, 209, 1]) = .ok t ∧ t.mode = .resuming ∧
    system.Path (StaysInside s.runningProc (.pipeRead 0 209 1)) t u ∧ u.runningProc = s.runningProc ∧
    u.step (.resume outcomes) = .ok w ∧ w.mode = .user ∧ u.instanceOf 0 ≠ s.instanceOf 0 ∧
    (w.pcb s.runningProc).uc.regs 0 = 1 ∧ ¬u.ReadsFrom w 0 (s.instanceOf 0) 209 1 := by
  obtain ⟨s, run, t, hStep, hMode, u, hPath, hRunning, w, hResume, hUser, hOther, hResult⟩ :=
    Transition.System.exists_reachable
      (P := fun s : Kernel => ∃ t ∈ (s.step (call .pipeRead [createId pipeFlag 0, 209, 1])).toOption,
        t.mode = .resuming ∧ ∃ u ∈ system.run (StaysInside s.runningProc (.pipeRead 0 209 1)) t
          [.resume outcomes, call .pipeWrite [createId pipeFlag 0, 208, 1],
            call .pipeRead [createId pipeFlag 0, 210, 1], call .reclaim [createId pipeFlag 0],
            call .pipeInit [212], call .pipeWrite [createId pipeFlag 0, 208, 1],
            .clock (context []) outcomes],
        u.runningProc = s.runningProc ∧ ∃ w ∈ (u.step (.resume outcomes)).toOption, w.mode = .user ∧
          u.instanceOf 0 ≠ s.instanceOf 0 ∧ (w.pcb s.runningProc).uc.regs 0 = 1)
      (turn ++ [call .pipeInit [212], call .fork []]) initial_booted (by decide +kernel)
  refine ⟨s, t, u, w, run, Transition.mem_toOption.mp hStep, hMode, .run hPath, hRunning,
    Transition.mem_toOption.mp hResume, hUser, hOther, hResult, ?_⟩
  rintro (hError | ⟨bytes, -, -, hSame, -⟩)
  · rw [hRunning, hResult] at hError
    cases hError
  · exact hOther hSame

end KernelStart
end Yalnix
