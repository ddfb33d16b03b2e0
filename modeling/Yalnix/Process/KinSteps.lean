import Yalnix.Process.Children

/-! What the syscalls do to the family tree: a fork adds a child, an exit
detaches or frees the children, and a parent that waits reaps one. -/
namespace Yalnix

open Apart Hardware

namespace Kernel

/-- A control block that is in use and is not that of the idle process. -/
structure Kept (s : Kernel) (p : Proc) : Prop where
  ne_idle : p ≠ s.idleProc
  lt : p < s.numPcbs
  freed : (s.pcb p).freed = false

variable {s t : Kernel} {p : Proc} {l : List Proc}

theorem Live.kept (h : s.Live p) : s.Kept p := ⟨h.1, h.2.1, h.2.2.1⟩

theorem Kept.exited_iff (h : s.Kept p) : (s.pcb p).state = .exited ↔ ¬s.Live p := by
  simp [Live, h.ne_idle, h.lt, h.freed]

section Exit

variable [Hardware]

/-- The state in which an exiting process is retired. -/
theorem kernelExit_eq {code : Word} (h : s.kernelExit code = .ok t) : ∃ marked : Kernel,
    marked.kin = { s.kin with
      exitCode := Function.update s.kin.exitCode s.runningProc code
      log := s.kin.log ++ [.exited s.runningProc code] } ∧
    marked.cpu = s.cpu ∧ (marked.pcb s.runningProc).state = .exited ∧
    t = (marked.retirePcb s.runningProc).fullContextSwitch none s.getNextProcess.2 := by
  unfold kernelExit at h
  dsimp only at h
  split_ifs at h
  refine ⟨_, ?_, ?_, ?_, (Except.ok.inj h).symm⟩
  · have hChosen : s.getNextProcess.1.kin = s.kin := kin_of_records (records_getNextProcess s)
    have hMem (u : Kernel) (mem : Memory) : (u.setMem mem).kin = u.kin := rfl
    have hRelations (u : Kernel) (p : Proc) : Function.update u.kin.relations p (u.pcb p).relations =
        u.kin.relations := Function.update_eq_self _ _
    have hFreed (u : Kernel) (p : Proc) : Function.update u.kin.freed p (u.pcb p).freed = u.kin.freed :=
      Function.update_eq_self _ _
    rw [hMem, kin_emit_kin _ rfl, kin_modifyPcb_eq, hRelations, hFreed, hChosen]
  · rw [cpu_setMem, cpu_emit, cpu_modifyPcb rfl rfl, cpu_getNextProcess]
  · simp [modifyPcb, setMem, emit]

/-- What an exit does to the family of the process. -/
theorem kin_kernelExit {code : Word} (hExit : s.kernelExit code = .ok t)
    (hLive : ∀ p, t.Live p ↔ p ≠ s.runningProc ∧ s.Live p)
    (hHolds : (s.pcb s.runningProc).relations.Holds l) (hKept : ∀ c ∈ l, s.Kept c)
    (hSelf : s.runningProc ∉ l) : t.kin =
      { relations := fun q => if q ∈ l ∧ s.Live q then (s.kin.relations q).detach else s.kin.relations q
        exitCode := Function.update s.kin.exitCode s.runningProc code
        freed := fun q => s.kin.freed q || decide (q ∈ l ∧ ¬s.Live q) ||
          decide (q = s.runningProc ∧ (s.kin.relations q).hasParent = false)
        log := s.kin.log ++ [.exited s.runningProc code] ++ (l.filter fun q => ¬s.Live q).map .freed ++
          if (s.kin.relations s.runningProc).hasParent then [] else [.freed s.runningProc] } := by
  obtain ⟨u, hKin, hCpu, hExited, ht⟩ := kernelExit_eq hExit
  have hSame : t.kin = (u.retirePcb s.runningProc).kin := by
    rw [ht]
    exact kin_of_records (records_fullContextSwitch _ _ _)
  have hLiveU (q : Proc) : u.Live q ↔ q ≠ s.runningProc ∧ s.Live q := by
    rw [← hLive, ht, live_of_shape (shape_fullContextSwitch _ none _)]
    exact ((Quiet.retirePcb hExited).live_iff q).symm
  have hRelations (q : Proc) : (u.pcb q).relations = (s.pcb q).relations :=
    congrFun (congrArg Kin.relations hKin) q
  have hState (q : Proc) (hq : q ∈ l) : (u.pcb q).state = .exited ↔ ¬s.Live q := by
    have hKeptU : u.Kept q :=
      ⟨by rw [idleProc_of_cpu hCpu]; exact (hKept q hq).ne_idle,
        by rw [numPcbs_of_cpu hCpu]; exact (hKept q hq).lt,
        (congrFun (congrArg Kin.freed hKin) q).trans (hKept q hq).freed⟩
    have hNe : q ≠ s.runningProc := fun he => hSelf (he ▸ hq)
    rw [hKeptU.exited_iff, hLiveU]
    simp [hNe]
  have hOrphans : (u.orphans l).kin = { u.kin with
      relations := fun q => if q ∈ l ∧ s.Live q then (s.kin.relations q).detach else s.kin.relations q
      freed := fun q => s.kin.freed q || decide (q ∈ l ∧ ¬s.Live q)
      log := s.kin.log ++ [.exited s.runningProc code] ++ (l.filter fun q => ¬s.Live q).map .freed } := by
    rw [kin_orphans, hKin]
    simp only [Kin.mk.injEq, true_and]
    refine ⟨funext fun q => ?_, funext fun q => ?_, ?_⟩
    · by_cases hq : q ∈ l
      · simp [hq, hState q hq]
      · simp [hq]
    · by_cases hq : q ∈ l
      · simp [hq, hState q hq]
      · simp [hq]
    · congr 2
      exact List.filter_congr fun q hq => by simp [hState q hq]
  have hParent : ((u.orphans l).pcb s.runningProc).relations.hasParent =
      (s.kin.relations s.runningProc).hasParent := by
    have hOwn := congrFun (congrArg Kin.relations hOrphans) s.runningProc
    simp only [hSelf, false_and, if_false] at hOwn
    exact congrArg Relations.hasParent hOwn
  rw [← hRelations] at hHolds
  rw [hSame, retirePcb_eq_orphans hHolds, hParent]
  cases hHas : (s.kin.relations s.runningProc).hasParent with
  | true =>
      rw [if_pos rfl, hOrphans, hKin]
      simp only [Kin.mk.injEq, true_and, if_true, List.append_nil, and_true]
      funext q
      by_cases hq : q = s.runningProc
      · simp [hq, hHas]
      · simp [hq]
  | false =>
      rw [if_neg (by simp), kin_freePcb, hOrphans, hKin]
      simp only [Kin.mk.injEq, true_and]
      refine ⟨funext fun q => ?_, by simp⟩
      by_cases hq : q = s.runningProc
      · simp [hq, hHas]
      · simp [hq]

end Exit

section Fork

variable [Hardware]

theorem kin_createNewPcb {uc : UserContext} {o : Outcomes} {child : Proc}
    (h : s.createNewPcb uc o = (t, some child)) : ∃ code, t.kin = { s.kin with
      relations := Function.update s.kin.relations s.numPcbs ⟨true, fun _ => none, 0, childArrSize⟩
      exitCode := Function.update s.kin.exitCode s.numPcbs code
      freed := Function.update s.kin.freed s.numPcbs false } := by
  obtain ⟨-, mem, pcb, rfl, -, -, hFreed, -, -, hRelations, -⟩ := createNewPcb_eq h
  have hView {α : Type} (v : Pcb → α) : (fun q => v (Function.update s.pcb s.numPcbs pcb q)) =
      Function.update (fun q => v (s.pcb q)) s.numPcbs (v pcb) := by
    funext q
    by_cases hq : q = s.numPcbs
    · subst hq
      simp
    · simp [Function.update_of_ne hq]
  refine ⟨pcb.exitCode, ?_⟩
  simp only [kin, hView, hFreed, hRelations]

omit [Hardware] in
/-- The parent gets a child, unless its array could not grow. -/
theorem kin_addChildProc (s : Kernel) (parent child : Proc) (growOk : Bool) : ∃ relations,
    ((s.pcb parent).relations.addChild child growOk = some relations ∨
      (s.pcb parent).relations.addChild child growOk = none ∧ relations = (s.pcb parent).relations) ∧
    (s.addChildProc parent child growOk).1.kin =
      { s.kin with relations := Function.update s.kin.relations parent relations } := by
  unfold addChildProc
  split
  · rename_i hFull
    refine ⟨_, Or.inr ⟨hFull, rfl⟩, ?_⟩
    have hSame : Function.update s.kin.relations parent (s.pcb parent).relations = s.kin.relations :=
      Function.update_eq_self _ _
    rw [hSame]
  · rename_i relations hAdd
    exact ⟨relations, Or.inl hAdd, kin_setRelations s parent relations⟩

theorem kin_forkLink (s : Kernel) (child : Proc) (o : Outcomes) : ∃ relations,
    ((s.pcb s.runningProc).relations.addChild child (o.alloc 4) = some relations ∨
      (s.pcb s.runningProc).relations.addChild child (o.alloc 4) = none ∧
        relations = (s.pcb s.runningProc).relations) ∧
    (s.forkLink child o).kin = { s.kin with
      relations := Function.update s.kin.relations s.runningProc relations
      log := s.kin.log ++ [.forked s.runningProc child] } := by
  have hResult : ((s.ret (BitVec.ofNat 32 (s.pcb child).pid)).setResult child 0).kin = s.kin :=
    (kin_modifyPcb rfl rfl rfl).trans (Silent.ret s _).kin
  have hOwn : (((s.ret (BitVec.ofNat 32 (s.pcb child).pid)).setResult child 0).pcb s.runningProc).relations =
      (s.pcb s.runningProc).relations := congrFun (congrArg Kin.relations hResult) s.runningProc
  obtain ⟨relations, hAdd, hKin⟩ := kin_addChildProc
    ((s.ret (BitVec.ofNat 32 (s.pcb child).pid)).setResult child 0) s.runningProc child (o.alloc 4)
  rw [hOwn] at hAdd
  refine ⟨relations, hAdd, ?_⟩
  have hMem (u : Kernel) (mem : Memory) : (u.setMem mem).kin = u.kin := rfl
  unfold forkLink
  dsimp only
  rw [hMem, kin_emit_kin _ rfl, hKin, hResult]

theorem kin_forkCommit (s : Kernel) (child : Proc) (o : Outcomes) :
    (s.forkCommit child o).kin = (s.forkLink child o).kin := by
  have hReady := kin_of_records (records_scheduleProcess (s.forkLink child o) child)
  unfold forkCommit
  dsimp only
  split_ifs
  · rw [kin_modifyPcb rfl rfl rfl]
    exact hReady
  · exact hReady

theorem state_forkCommit (o : Outcomes) {child : Proc} (hIdle : child ≠ s.idleProc) :
    ((s.forkCommit child o).pcb child).state = .ready := by
  have hReady : (((s.forkLink child o).scheduleProcess child).pcb child).state = .ready := by
    unfold scheduleProcess
    rw [if_neg (by rwa [(quiet_forkLink s child o).idleProc])]
    simp [setState, modifyPcb, enqueProcess, emit]
  unfold forkCommit
  dsimp only
  split_ifs
  · rw [pcb_modifyPcb (v := Pcb.state) rfl]
    exact hReady
  · exact hReady

/-- A fork that fails frees the new control block; one that succeeds enters it
in the array of the parent. -/
theorem kin_kernelFork {o : Outcomes} (h : s.kernelFork o = .ok t) (hRunning : s.runningProc ≠ s.numPcbs)
    (hIdle : s.numPcbs ≠ s.idleProc) : ∃ code relations,
      (t.kin = { relations := Function.update s.kin.relations s.numPcbs ⟨true, fun _ => none, 0, childArrSize⟩
                 exitCode := Function.update s.kin.exitCode s.numPcbs code
                 freed := Function.update s.kin.freed s.numPcbs true
                 log := s.kin.log ++ [.freed s.numPcbs] }) ∨
      (t.kin = { relations := Function.update (Function.update s.kin.relations s.numPcbs
                   ⟨true, fun _ => none, 0, childArrSize⟩) s.runningProc relations
                 exitCode := Function.update s.kin.exitCode s.numPcbs code
                 freed := Function.update s.kin.freed s.numPcbs false
                 log := s.kin.log ++ [.forked s.runningProc s.numPcbs] } ∧
        ((s.pcb s.runningProc).relations.addChild s.numPcbs (o.alloc 4) = some relations ∨
          (s.pcb s.runningProc).relations.addChild s.numPcbs (o.alloc 4) = none ∧
            relations = (s.pcb s.runningProc).relations) ∧
        (t.pcb s.numPcbs).state = .ready) := by
  unfold kernelFork at h
  dsimp only at h
  split at h
  · cases h
  · rename_i created child hCreate
    obtain ⟨code, hKin⟩ := kin_createNewPcb hCreate
    obtain ⟨rfl, mem, pcb, hCreated, -⟩ := createNewPcb_eq hCreate
    have hRunner : created.runningProc = s.runningProc := by rw [hCreated]
    have hIdler : created.idleProc = s.idleProc := by rw [hCreated]
    have hNew : (created.pcb s.numPcbs).relations = ⟨true, fun _ => none, 0, childArrSize⟩ := by
      have hOwn := congrFun (congrArg Kin.relations hKin) s.numPcbs
      simpa [kin] using hOwn
    have hOld : (created.pcb s.runningProc).relations = (s.pcb s.runningProc).relations := by
      have hOwn := congrFun (congrArg Kin.relations hKin) s.runningProc
      simpa [kin, Function.update_of_ne hRunning] using hOwn
    obtain ⟨copied, -, h⟩ := Transition.bind_eq_ok.mp h
    split_ifs at h
    · obtain rfl := Except.ok.inj h
      have hUc : ((created.setMem copied.1).modifyPcb s.numPcbs fun p =>
          { p with uc := (s.pcb s.runningProc).uc }).kin = created.kin := kin_modifyPcb rfl rfl rfl
      obtain ⟨relations, hAdd, hLink⟩ := kin_forkLink ((created.setMem copied.1).modifyPcb s.numPcbs fun p =>
          { p with uc := (s.pcb s.runningProc).uc }) s.numPcbs o
      have hParent : (((created.setMem copied.1).modifyPcb s.numPcbs fun p =>
          { p with uc := (s.pcb s.runningProc).uc }).pcb created.runningProc).relations =
          (s.pcb s.runningProc).relations := by
        rw [← hOld, hRunner]
        exact congrFun (congrArg Kin.relations hUc) s.runningProc
      refine ⟨code, relations, Or.inr ⟨?_, hParent ▸ hAdd, state_forkCommit o (by exact hIdler ▸ hIdle)⟩⟩
      rw [kin_forkCommit, hLink, hUc, hKin]
      simp only [Kin.mk.injEq, true_and]
      exact ⟨by rw [← hRunner]; rfl, by rw [← hRunner]; rfl⟩
    · obtain rfl := Except.ok.inj h
      have hRet := (Silent.setMem created copied.1).trans (Silent.ret _ errorCode)
      have hSame : (((created.setMem copied.1).ret errorCode).pcb s.numPcbs).relations =
          (created.pcb s.numPcbs).relations := congrFun (congrArg Kin.relations hRet.kin) s.numPcbs
      rw [retirePcb_eq (by rw [hSame, hNew]) (by rw [hSame, hNew])]
      refine ⟨code, (s.pcb s.runningProc).relations, Or.inl ?_⟩
      rw [kin_freePcb, hRet.kin, hKin]
      simp

end Fork

/-- What an effect does to the family tree. -/
inductive KinStep [Hardware] (label : Label) (s t : Kernel) : Prop where
  | same (hKin : t.kin = s.kin) (hLive : t.Live = s.Live) : KinStep label s t
  | reap {parent : Proc} {u : Kernel} {shrinkOk : Bool} {code : Word} (hParent : s.Live parent)
      (hWho : parent = s.runningProc ∧ s.inUser ∨ s.Woken t parent)
      (hFound : s.findExitedChild parent shrinkOk = some (u, code)) (hKin : t.kin = u.kin)
      (hLive : t.Live = s.Live) : KinStep label s t
  | exit {code : Word} (hUser : s.inUser) (hExit : s.kernelExit code = .ok t)
      (hLive : ∀ p, t.Live p ↔ p ≠ s.runningProc ∧ s.Live p) : KinStep label s t
  | fork {o : Outcomes} (hUser : s.inUser) (hFork : s.kernelFork o = .ok t)
      (hCall : label.forks = some o) : KinStep label s t

theorem kin_findWaiter {shrinkOk : Bool} (hLinked : IntrusiveQueue.Chain s.next (s.queues .waitBlocking).ends.first l)
    (hFind : s.findBlockedProcess .waitBlocking (waitUnblockCond shrinkOk) = (t, some p)) :
    p ∈ l ∧ ∃ u code, s.findExitedChild p shrinkOk = some (u, code) ∧ t.kin = u.kin ∧
      (t.pcb p).uc = { (s.pcb p).uc with regs := Function.update (s.pcb p).uc.regs 1 code } ∧
      ∀ q, q ≠ p → (t.pcb q).uc = (s.pcb q).uc := by
  obtain ⟨front, back, u, rfl, hCond, rfl⟩ := findBlockedFrom_some hLinked hFind
  refine ⟨by simp, ?_⟩
  simp only [waitUnblockCond, Option.map_eq_some_iff] at hCond
  obtain ⟨⟨found, code⟩, hFound, rfl⟩ := hCond
  have hUc (q : Proc) : (found.pcb q).uc = (s.pcb q).uc := congrArg Prod.fst (saved_findExitedChild hFound q)
  have hKin : (found.modifyPcb p fun p => { p with
      uc := { p.uc with regs := Function.update p.uc.regs 1 code } }).kin = found.kin := kin_modifyPcb rfl rfl rfl
  refine ⟨found, code, hFound, hKin, ?_, fun q hq => ?_⟩
  · simp [modifyPcb, hUc]
  · simp [modifyPcb, Function.update_of_ne hq, hUc]

theorem kin_effect [Hardware] {label : Label} (h : KernelStart.Sound s) (hEffect : Effect label s t) :
    KinStep label s t := by
  obtain ⟨others, hOutcome⟩ := h.settled.effect h.contexts hEffect
  cases hOutcome.live with
  | exit hUser hExit hLive => exact .exit hUser hExit hLive
  | fork hUser hFork hCall => exact .fork hUser hFork hCall
  | same hLive =>
      rcases steady_effect hEffect with hSteady | hStep
      · exact .same hSteady.kin hLive
      · cases hStep with
        | ticked => exact .same (kin_emit _ rfl) hLive
        | exit hUser hExit =>
            obtain ⟨-, -, -, hGone⟩ := h.settled.kernelExit hUser hExit
            exact .exit hUser hExit hGone
        | fork hUser hFork hCall => exact .fork hUser hFork hCall
        | reap hUser _ hFound => exact .reap (h.settled.live_running hUser) (Or.inl ⟨rfl, hUser⟩) hFound rfl hLive
        | @wakeSleeper u _ proc _ _ _ hRemove =>
            have hRemoved := removeFromHeap_eq hRemove
            have hKin : u.kin = s.kin := by rw [hRemoved]; rfl
            exact .same ((kin_of_records (records_emit (u.enqueProcess .main proc) rfl)).trans hKin) hLive
        | wakeWaiter hFind =>
            obtain ⟨hp, u, code, hFound, hKin, -⟩ :=
              kin_findWaiter (h.settled.placement.linked (.sched .waitBlocking)).1 hFind
            exact .reap (h.settled.placement.live_of_mem hp) (Or.inr ⟨_, _, hFind, rfl⟩) hFound
              ((kin_of_records (records_scheduleProcess _ _)).trans hKin) hLive

end Kernel
end Yalnix
