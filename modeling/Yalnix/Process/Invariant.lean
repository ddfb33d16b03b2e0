import Yalnix.Process.Moves
import Yalnix.Process.Permits
import Mathlib.Data.Set.Card

/-! The invariant that carries both the placement of processes and the
bookkeeping of locks and condition variables. The two depend on each other:
a waiter that is signalled gets back into a queue only because its lock still
exists, and the lock exists because it is counted as needed. -/
namespace Yalnix

open IntrusiveQueue Apart Synchronization Hardware

/-- The processes waiting on any condition variable with lock `id`. -/
def bound (lockId : Proc → Nat) (lists : Place → List Proc) (id : Nat) : Set Proc :=
  { p | (∃ c, p ∈ lists (.queue (.cvar c))) ∧ lockId p = id }

/-- The state of a lock or semaphore in use with these waiters. `others` counts
those that need it without holding it or waiting for it. -/
structure LockInv (lock : Lock) (queue : List Proc) (pid : Proc → Nat) (others : Nat) : Prop where
  permits : Permits lock.capacity lock.val lock.pids
  waiters : ∀ p ∈ queue, pid p ∉ lock.pids
  full : queue ≠ [] → lock.val = 0
  needed : lock.neededBy = ((holders lock.pids).length + queue.length + others : Nat)

/-- The processes bound to a lock that are in no queue of it. `claim` is the
lock that the process in the kernel's hands gave up for a condition variable,
or is about to get back. -/
noncomputable def bindings (lockId : Proc → Nat) (lists : Place → List Proc) (claim : Option Nat)
    (id : Nat) : Nat :=
  (bound lockId lists id).ncard + if claim = some id then 1 else 0

variable [Hardware]

/-- All synchronization objects. -/
structure Sync (S : Shape) (lists : Place → List Proc) (claim : Option Nat) : Prop where
  locks : S.locks.Wf Lock.inUse .blank
  cvars : S.cvars.Wf Cvar.inUse .blank
  lock : ∀ id, (S.locks.entries id).inUse = true → LockInv (S.locks.entries id)
    (lists (.queue (.lock id))) S.pid (bindings S.cvarLockId lists claim id)
  lock_unused : ∀ id, (S.locks.entries id).inUse = false → lists (.queue (.lock id)) = []
  cvar_unused : ∀ id, (S.cvars.entries id).inUse = false → lists (.queue (.cvar id)) = []
  waiter : ∀ c, ∀ p ∈ lists (.queue (.cvar c)),
    (S.locks.entries (S.cvarLockId p)).inUse = true ∧
      S.pid p ∉ (S.locks.entries (S.cvarLockId p)).pids
  pid : ∀ p, S.live p → p ≠ 0 ∧ p < S.numPcbs ∧ S.pid p = newPid p

/-- The kernel state agrees with the lists. -/
structure Inv (s : Kernel) (lists : Place → List Proc) (claim : Option Nat) : Prop where
  placement : Placement s.shape lists
  sync : Sync s.shape lists claim
  pipes : s.pipes.Wf Pipe.inUse .blank
  pipe_unused : ∀ id, (s.pipes.entries id).inUse = false → lists (.queue (.pipe id)) = []

/-- Between traps the kernel holds no process, and the running one is on the
processor. -/
structure Settled (s : Kernel) (lists : Place → List Proc) : Prop extends Inv s lists none where
  cpu : lists .cpu = s.onCpu
  hand : lists .hand = []

/-- The queues of synchronization objects and pipes. -/
def Place.isObject : Place → Bool
  | .queue (.lock _) | .queue (.cvar _) | .queue (.pipe _) => true
  | _ => false

/-- The queues of locks and condition variables. -/
def Place.isSync : Place → Bool
  | .queue (.lock _) | .queue (.cvar _) => true
  | _ => false

/-- The queues of blocked terminal readers and writers. -/
def Place.isTty : Place → Bool
  | .queue (.writer _) | .queue (.reader _) => true
  | _ => false

/-- The places of processes that wait for something. -/
def Place.isBlocked : Place → Bool
  | .queue (.sched .main) | .cpu | .hand => false
  | _ => true

/-- The queues of the terminals are the same. -/
def TtyFrame (lists others : Place → List Proc) : Prop :=
  ∀ a : Place, a.isTty = true → others a = lists a

/-- Nobody starts or stops waiting. -/
def Calm (lists others : Place → List Proc) : Prop :=
  ∀ a : Place, a.isBlocked = true → others a = lists a

omit [Hardware] in
theorem Place.isObject_of_isSync {a : Place} (h : a.isSync = true) : a.isObject = true := by
  cases a with
  | queue q => cases q <;> simp_all [isSync, isObject]
  | _ => simp [isSync] at h

omit [Hardware] in
theorem Place.isBlocked_of_isTty {a : Place} (h : a.isTty = true) : a.isBlocked = true := by
  cases a with
  | queue q => cases q <;> simp_all [isTty, isBlocked]
  | _ => simp [isTty] at h

omit [Hardware] in
theorem Placement.Free.isObject {a : Place} (ha : Placement.Free a) : a.isObject = false := by
  rcases ha with rfl | rfl <;> rfl

namespace Calm

variable {lists others : Place → List Proc} {a b : Place}

omit [Hardware] in
theorem refl (lists : Place → List Proc) : Calm lists lists := fun _ _ => rfl

omit [Hardware] in
theorem trans {last : Place → List Proc} (h : Calm lists others) (h' : Calm others last) :
    Calm lists last := fun c hc => (h' c hc).trans (h c hc)

omit [Hardware] in
theorem tty (h : Calm lists others) : TtyFrame lists others :=
  fun c hc => h c (Place.isBlocked_of_isTty hc)

omit [Hardware] in
/-- The same place is given new contents on both sides. -/
theorem congr (h : Calm lists others) (a : Place) (list : List Proc) :
    Calm (Function.update lists a list) (Function.update others a list) := by
  intro c hc
  by_cases he : c = a
  · subst he
    simp
  · rw [Function.update_of_ne he, Function.update_of_ne he]
    exact h c hc

omit [Hardware] in
theorem update (ha : a.isBlocked = false) (list : List Proc) :
    Calm lists (Function.update lists a list) := fun c hc =>
  Function.update_of_ne (by rintro rfl; simp [ha] at hc) _ _

omit [Hardware] in
theorem move (ha : a.isBlocked = false) (hb : b.isBlocked = false) (rest joined : List Proc) :
    Calm lists (Apart.move lists a b rest joined) := (update ha rest).trans (update hb joined)

omit [Hardware] in
/-- A process joins the place `b`. -/
theorem move_to (ha : a.isBlocked = false) (rest joined : List Proc) :
    Calm (Function.update lists b joined) (Apart.move lists a b rest joined) :=
  (update ha rest).congr b joined

omit [Hardware] in
/-- A process leaves the place `a`. -/
theorem move_from (hb : b.isBlocked = false) (rest joined : List Proc) :
    Calm (Function.update lists a rest) (Apart.move lists a b rest joined) := update hb joined

end Calm

omit [Hardware] in
theorem Kernel.live_of_shape {s t : Kernel} (h : t.shape = s.shape) : t.Live = s.Live :=
  (congrArg Shape.live h :)

/-- No process appears or ends, and nobody starts or stops waiting. Where
somebody does, the lists on the left are those after the change. -/
structure Frame (s t : Kernel) (lists others : Place → List Proc) : Prop where
  calm : Calm lists others
  live : t.Live = s.Live

namespace Frame

variable {s t u : Kernel} {lists others : Place → List Proc} {a b : Place}

omit [Hardware] in
theorem refl (hLive : t.Live = s.Live) : Frame s t lists lists := ⟨.refl lists, hLive⟩

omit [Hardware] in
theorem trans {last : Place → List Proc} (h : Frame s t lists others) (h' : Frame t u others last) :
    Frame s u lists last := ⟨h.calm.trans h'.calm, h'.live.trans h.live⟩

omit [Hardware] in
theorem move {rest joined : List Proc} (ha : a.isBlocked = false) (hb : b.isBlocked = false)
    (hLive : t.Live = s.Live) : Frame s t lists (Apart.move lists a b rest joined) :=
  ⟨.move ha hb _ _, hLive⟩

omit [Hardware] in
theorem tty (h : Frame s t lists others) : TtyFrame lists others := h.calm.tty

end Frame

/-- The part of a shape the synchronization objects depend on. -/
def Shape.sync (S : Shape) :
    Table Lock × Table Cvar × (Proc → Nat) × (Proc → Nat) × Nat × (Proc → Prop) :=
  (S.locks, S.cvars, S.pid, S.cvarLockId, S.numPcbs, S.live)

omit [Hardware] in
theorem Kernel.live_of_sync {s t : Kernel} (h : t.shape.sync = s.shape.sync) : t.Live = s.Live :=
  (congrArg (fun sync => sync.2.2.2.2.2) h :)

omit [Hardware] in
theorem Kernel.sync_scheduleProcess {s : Kernel} {x : Proc} (hLive : s.Live x) :
    (s.scheduleProcess x).shape.sync = s.shape.sync := by
  rw [scheduleProcess, if_neg hLive.1]
  exact (congrArg Shape.sync (shape_setState hLive (m := .ready) (by simp)) :)

namespace Sync

variable {S T : Shape} {lists others : Place → List Proc} {claim : Option Nat} {p q : Proc}

theorem pid_ne_zero (h : Sync S lists claim) (hLive : S.live p) : S.pid p ≠ 0 := by
  obtain ⟨hp, -, hPid⟩ := h.pid p hLive
  rw [hPid]
  exact newPid_ne_zero p hp

theorem pid_inj (h : Sync S lists claim) (hp : S.live p) (hq : S.live q)
    (hPid : S.pid p = S.pid q) : p = q := by
  rw [(h.pid p hp).2.2, (h.pid q hq).2.2] at hPid
  exact newPid_injective hPid

/-- The invariant depends on the object queues and tables and on the processes
that are placed. -/
theorem transfer (h : Sync S lists claim) (hLocks : T.locks = S.locks)
    (hCvars : T.cvars = S.cvars) (hLists : ∀ a : Place, a.isSync = true → others a = lists a)
    (hKeep : ∀ a, ∀ p ∈ lists a, T.pid p = S.pid p ∧ T.cvarLockId p = S.cvarLockId p)
    (hPid : ∀ p, T.live p → p ≠ 0 ∧ p < T.numPcbs ∧ T.pid p = newPid p) : Sync T others claim := by
  have hLock (id : Nat) : others (.queue (.lock id)) = lists (.queue (.lock id)) := hLists _ rfl
  have hCvar (id : Nat) : others (.queue (.cvar id)) = lists (.queue (.cvar id)) := hLists _ rfl
  have hBound (id : Nat) : bindings T.cvarLockId others claim id =
      bindings S.cvarLockId lists claim id := by
    unfold bindings
    congr 2
    ext p
    simp only [bound, hCvar, Set.mem_ofPred_eq]
    refine and_congr_right ?_
    rintro ⟨c, hp⟩
    rw [(hKeep _ p hp).2]
  refine ⟨hLocks ▸ h.locks, hCvars ▸ h.cvars, fun id hId => ?_, fun id hId => ?_, fun id hId => ?_,
    fun c p hp => ?_, hPid⟩
  · have hInv := h.lock id (hLocks ▸ hId)
    rw [hLock, hLocks, hBound]
    refine ⟨hInv.permits, fun p hp => ?_, hInv.full, hInv.needed⟩
    rw [(hKeep _ p hp).1]
    exact hInv.waiters p hp
  · rw [hLock]
    exact h.lock_unused id (hLocks ▸ hId)
  · rw [hCvar]
    exact h.cvar_unused id (hCvars ▸ hId)
  · rw [hCvar] at hp
    obtain ⟨hSamePid, hSameLock⟩ := hKeep _ p hp
    rw [hLocks, hSameLock, hSamePid]
    exact h.waiter c p hp

theorem congr (h : Sync S lists claim) (hSame : T.sync = S.sync)
    (hLists : ∀ a : Place, a.isSync = true → others a = lists a) : Sync T others claim := by
  simp only [Shape.sync, Prod.mk.injEq] at hSame
  obtain ⟨hLocks, hCvars, hPid, hLockId, hNum, hLive⟩ := hSame
  refine h.transfer hLocks hCvars hLists (fun _ p _ => by rw [hPid, hLockId]; simp) ?_
  rw [hLive, hNum, hPid]
  exact h.pid

theorem finite_bound (h : Sync S lists claim) (hPlacement : Placement S lists) (id : Nat) :
    (bound S.cvarLockId lists id).Finite := by
  refine (Set.finite_lt_nat S.numPcbs).subset ?_
  rintro p ⟨⟨c, hp⟩, -⟩
  exact (h.pid p (hPlacement.live_of_mem hp)).2.1

end Sync

namespace Inv

variable {s t : Kernel} {lists : Place → List Proc} {claim : Option Nat} {a b : Place} {x : Proc}
  {rest joined : List Proc}

theorem quiet (h : Inv s lists claim) (hQuiet : Quiet s t) : Inv t lists claim where
  placement := hQuiet.shape ▸ h.placement
  sync := hQuiet.shape ▸ h.sync
  pipes := hQuiet.pipes ▸ h.pipes
  pipe_unused := hQuiet.pipes ▸ h.pipe_unused

/-- A change that leaves the shape and the pipe table alone. -/
theorem of_shape (h : Inv s lists claim) (hShape : t.shape = s.shape) (hPipes : t.pipes = s.pipes) :
    Inv t lists claim where
  placement := hShape ▸ h.placement
  sync := hShape ▸ h.sync
  pipes := hPipes ▸ h.pipes
  pipe_unused := hPipes ▸ h.pipe_unused

/-- A move between places that belong to no lock or condition variable. -/
theorem move_pipes (h : Inv s lists claim)
    (hPlacement : Placement t.shape (Apart.move lists a b rest joined))
    (ha : a.isSync = false) (hb : b.isSync = false) (hSync : t.shape.sync = s.shape.sync)
    (hPipes : t.pipes.Wf Pipe.inUse .blank)
    (hUnused : ∀ id, (t.pipes.entries id).inUse = false →
      Apart.move lists a b rest joined (.queue (.pipe id)) = []) :
    Inv t (Apart.move lists a b rest joined) claim := by
  have hLists (c : Place) (hc : c.isSync = true) : Apart.move lists a b rest joined c = lists c :=
    move_other (by rintro rfl; simp [ha] at hc) (by rintro rfl; simp [hb] at hc)
  exact ⟨hPlacement, h.sync.congr hSync hLists, hPipes, hUnused⟩

/-- A move between places that belong to no object. -/
theorem move (h : Inv s lists claim)
    (hPlacement : Placement t.shape (Apart.move lists a b rest joined))
    (ha : a.isObject = false) (hb : b.isObject = false) (hSync : t.shape.sync = s.shape.sync)
    (hPipes : t.pipes = s.pipes) : Inv t (Apart.move lists a b rest joined) claim := by
  refine h.move_pipes hPlacement ?_ ?_ hSync (hPipes ▸ h.pipes) fun id hId => ?_
  · exact Bool.eq_false_iff.mpr fun hSync => by simp [Place.isObject_of_isSync hSync] at ha
  · exact Bool.eq_false_iff.mpr fun hSync => by simp [Place.isObject_of_isSync hSync] at hb
  · rw [move_other (by rintro rfl; simp [Place.isObject] at ha)
      (by rintro rfl; simp [Place.isObject] at hb)]
    exact h.pipe_unused id (hPipes ▸ hId)

theorem scheduleProcess (h : Inv s lists claim) (ha : Placement.Free a) (hx : lists a = [x]) :
    Inv (s.scheduleProcess x)
      (Apart.move lists a (.queue (.sched .main)) [] (lists (.queue (.sched .main)) ++ [x])) claim := by
  have hLive : s.Live x := h.placement.live_of_mem (a := a) (by simp [hx])
  exact h.move (h.placement.scheduleProcess ha hx) ha.isObject rfl (Kernel.sync_scheduleProcess hLive)
    (congrArg Devices.pipes (Kernel.devices_of_outside (Kernel.outside_scheduleProcess s x)))

/-- `get_next_process`: afterwards the kernel holds the chosen process, unless
it is the idle process. -/
theorem getNextProcess (h : Inv s lists claim) (hHand : lists .hand = []) :
    ∃ others, Inv s.getNextProcess.1 others claim ∧ Frame s s.getNextProcess.1 lists others ∧
      others .cpu = lists .cpu ∧
      others .hand = if s.getNextProcess.2 = s.idleProc then [] else [s.getNextProcess.2] := by
  have hPipes : s.getNextProcess.1.pipes = s.pipes :=
    congrArg Devices.pipes (Kernel.devices_of_outside (Kernel.outside_getNextProcess s))
  rcases h.placement.getNextProcess hHand with ⟨-, hNext, hPlaced⟩ | ⟨x, rest, hList, hNext, hPlaced⟩
  · rw [hNext] at hPlaced ⊢
    exact ⟨lists, ⟨hPlaced, h.sync.congr rfl fun _ _ => rfl, h.pipes, h.pipe_unused⟩, .refl rfl, rfl,
      by rw [if_pos rfl, hHand]⟩
  · have hLive : s.Live x := h.placement.live_of_mem (a := .queue (.sched .main)) (by simp [hList])
    have hSync : s.getNextProcess.1.shape.sync = s.shape.sync := by
      rw [Kernel.getNextProcess, Kernel.dequeProcess_eq h.placement hList]
      exact (congrArg Shape.sync (Kernel.shape_setState hLive (m := .running) (by simp)) :)
    refine ⟨_, h.move hPlaced rfl rfl hSync hPipes, .move rfl rfl (Kernel.live_of_sync hSync),
      move_other (by simp) (by simp), ?_⟩
    rw [move_target, hNext, if_neg hLive.1]

/-- The process in the kernel's hands, if any, gets the processor. -/
theorem run (h : Inv s lists none) (hCpu : lists .cpu = [])
    (hHand : lists .hand = if s.runningProc = s.idleProc then [] else [s.runningProc]) :
    ∃ others, Settled s others ∧ Frame s s lists others := by
  by_cases hIdle : s.runningProc = s.idleProc
  · rw [if_pos hIdle] at hHand
    exact ⟨lists, ⟨h, by simp [Kernel.onCpu, hIdle, hCpu], hHand⟩, .refl rfl⟩
  · rw [if_neg hIdle] at hHand
    refine ⟨_, ⟨h.move (h.placement.run hHand hCpu) rfl rfl rfl rfl, ?_, move_source (by simp)⟩,
      .move rfl rfl rfl⟩
    rw [move_target, Kernel.onCpu, if_neg hIdle]

theorem fullContextSwitch (h : Inv s lists none) (curr : Option (Proc × KernelContext)) {n : Proc}
    (hCpu : lists .cpu = []) (hHand : lists .hand = if n = s.idleProc then [] else [n]) :
    ∃ others, Settled (s.fullContextSwitch curr n) others ∧
      Frame s (s.fullContextSwitch curr n) lists others := by
  have hPipes : (s.fullContextSwitch curr n).pipes = s.pipes :=
    congrArg Devices.pipes (Kernel.devices_fullContextSwitch s curr n)
  have hShape := Kernel.shape_fullContextSwitch s curr n
  obtain ⟨others, hSettled, hFrame⟩ := (h.of_shape hShape hPipes).run hCpu
    (by cases curr <;> exact hHand)
  exact ⟨others, hSettled, hFrame.calm, Kernel.live_of_shape hShape⟩

theorem switchAway (h : Inv s lists none) (kc : KernelContext) (hCpu : lists .cpu = [])
    (hHand : lists .hand = []) : ∃ others, Settled (s.switchAway kc) others ∧
      Frame s (s.switchAway kc) lists others := by
  obtain ⟨others, hInv, hFrame, hCpu', hHand'⟩ := h.getNextProcess hHand
  rw [Kernel.switchAway]
  obtain ⟨last, hSettled, hLast⟩ := hInv.fullContextSwitch (some (s.runningProc, kc))
    (n := s.getNextProcess.2) (hCpu'.trans hCpu)
    (by rw [hHand', Kernel.idleProc_of_cpu (Kernel.cpu_getNextProcess s)])
  exact ⟨last, hSettled, hFrame.trans hLast⟩

/-- The end of a process that is on the processor or in the kernel's hands. -/
theorem vanish (h : Inv s lists claim) (ha : Placement.Free a) (hx : lists a = [x])
    {f : Pcb → Pcb} (hPid : (f (s.pcb x)).pid = (s.pcb x).pid)
    (hLock : (f (s.pcb x)).cvarLockId = (s.pcb x).cvarLockId)
    (hDead : (f (s.pcb x)).freed = true ∨ (f (s.pcb x)).state = .exited) :
    Inv (s.modifyPcb x f) (Function.update lists a []) claim := by
  have hLive := Kernel.live_modifyPcb_dead (s := s) (p := x) hDead
  have hLists (b : Place) (hb : b.isObject = true) : Function.update lists a [] b = lists b :=
    Function.update_of_ne (by rintro rfl; simp [ha.isObject] at hb) _ _
  have hPids : (s.modifyPcb x f).shape.pid = s.shape.pid :=
    funext fun p => Kernel.pcb_modifyPcb (v := Pcb.pid) hPid p
  refine ⟨h.placement.exit ha hx rfl rfl rfl rfl rfl hLive rfl, ?_, h.pipes, fun id hId => ?_⟩
  · refine h.sync.transfer rfl rfl (fun b hb => hLists b (Place.isObject_of_isSync hb))
      (fun _ p _ => ⟨congrFun hPids p, ?_⟩) ?_
    · exact Kernel.pcb_modifyPcb (v := Pcb.cvarLockId) hLock p
    · intro p hp
      rw [hPids]
      exact h.sync.pid p ((hLive p).mp hp).2
  · rw [hLists _ rfl]
    exact h.pipe_unused id hId

/-- `create_new_pcb`: the new process is in the kernel's hands. -/
theorem createNewPcb {o : Outcomes} (h : Inv s lists claim) (uc : UserContext)
    (hHand : lists .hand = []) (hIdle : s.idleProc < s.numPcbs)
    (hCreate : s.createNewPcb uc o = (t, some s.numPcbs)) :
    Inv t (Function.update lists .hand [s.numPcbs]) claim := by
  obtain ⟨-, mem, pcb, rfl, hPid, hState, hFreed, -⟩ := Kernel.createNewPcb_eq hCreate
  have hFresh : ¬s.Live s.numPcbs := fun hLive => Nat.lt_irrefl _ hLive.2.1
  have hOld {p : Proc} (hLive : s.Live p) : p ≠ s.numPcbs := fun he => hFresh (he ▸ hLive)
  have hLive (p : Proc) : ({ s with
      mem := mem
      pcb := Function.update s.pcb s.numPcbs pcb
      next := Function.update s.next s.numPcbs none
      numPcbs := s.numPcbs + 1 } : Kernel).Live p ↔ p = s.numPcbs ∨ s.Live p := by
    by_cases hp : p = s.numPcbs
    · subst hp
      simp [Kernel.Live, hState, hFreed, Nat.ne_of_gt hIdle]
    · have hLt : p < s.numPcbs + 1 ↔ p < s.numPcbs :=
        ⟨fun h => Nat.lt_of_le_of_ne (Nat.le_of_lt_succ h) hp, Nat.lt_succ_of_lt⟩
      simp [Kernel.Live, hp, hLt]
  have hLists (b : Place) (hb : b.isObject = true) :
      Function.update lists .hand [s.numPcbs] b = lists b :=
    Function.update_of_ne (by rintro rfl; simp [Place.isObject] at hb) _ _
  refine ⟨h.placement.spawn hFresh hHand (fun q => ?_) rfl rfl rfl hLive rfl, ?_, h.pipes,
    fun id hId => ?_⟩
  · refine (h.placement.linked q).congr fun node hNode => Function.update_of_ne ?_ _ _
    exact hOld (h.placement.live_of_mem hNode)
  · refine h.sync.transfer rfl rfl (fun b hb => hLists b (Place.isObject_of_isSync hb))
      (fun a p hp => ?_) (fun p hp => ?_)
    · simp [Kernel.shape, Function.update_of_ne (hOld (h.placement.live_of_mem hp))]
    · rcases (hLive p).mp hp with rfl | hp
      · exact ⟨Nat.ne_of_gt (Nat.lt_of_le_of_lt (Nat.zero_le _) hIdle), Nat.lt_succ_self _,
          by simpa [Kernel.shape] using hPid⟩
      · obtain ⟨hNe, hLt, hOldPid⟩ := h.sync.pid p hp
        refine ⟨hNe, Nat.lt_succ_of_lt hLt, ?_⟩
        simpa [Kernel.shape, Function.update_of_ne (hOld hp)] using hOldPid
  · rw [hLists _ rfl]
    exact h.pipe_unused id hId

end Inv

namespace Settled

variable {s t : Kernel} {lists : Place → List Proc}

theorem cpu_eq (h : Settled s lists) (hUser : s.inUser) : lists .cpu = [s.runningProc] := by
  rw [h.cpu, Kernel.onCpu, if_neg hUser.2]

theorem live_running (h : Settled s lists) (hUser : s.inUser) : s.Live s.runningProc :=
  h.placement.live_of_mem (a := .cpu) (by simp [h.cpu_eq hUser])

theorem quiet (h : Settled s lists) (hQuiet : Quiet s t) : Settled t lists where
  toInv := h.toInv.quiet hQuiet
  cpu := by rw [h.cpu, Kernel.onCpu, Kernel.onCpu, hQuiet.runningProc, hQuiet.idleProc]
  hand := h.hand

theorem preempt (h : Settled s lists) :
    ∃ others, Settled s.preempt others ∧ Frame s s.preempt lists others := by
  obtain ⟨others, hInv, hFrame, hCpu, hHand⟩ : ∃ others,
      Inv (s.scheduleProcess s.runningProc) others none ∧
      Frame s (s.scheduleProcess s.runningProc) lists others ∧
      others .cpu = [] ∧ others .hand = [] := by
    by_cases hIdle : s.runningProc = s.idleProc
    · rw [Kernel.scheduleProcess, if_pos hIdle]
      exact ⟨lists, h.toInv, .refl rfl, by simp [h.cpu, Kernel.onCpu, hIdle], h.hand⟩
    · have hCpu : lists .cpu = [s.runningProc] := by rw [h.cpu, Kernel.onCpu, if_neg hIdle]
      have hLive := Kernel.live_of_sync (Kernel.sync_scheduleProcess
        (h.placement.live_of_mem (a := .cpu) (x := s.runningProc) (by simp [hCpu])))
      refine ⟨_, h.scheduleProcess (Or.inl rfl) hCpu, .move rfl rfl hLive, move_source (by simp), ?_⟩
      rw [move_other (by simp) (by simp), h.hand]
  obtain ⟨chosen, hInv, hChosen, hCpu', hHand'⟩ := hInv.getNextProcess hHand
  rw [hCpu] at hCpu'
  have hSame : (s.scheduleProcess s.runningProc).getNextProcess.1.cpu = s.cpu := by simp
  have hSame' : (s.scheduleProcess s.runningProc).cpu = s.cpu := by simp
  rw [Kernel.idleProc_of_cpu hSame', ← Kernel.idleProc_of_cpu hSame] at hHand'
  unfold Kernel.preempt
  dsimp only
  split_ifs with hCurr
  · obtain ⟨last, hSettled, hLast⟩ := hInv.fullContextSwitch (some (s.runningProc, .clock)) hCpu' hHand'
    exact ⟨last, hSettled, (hFrame.trans hChosen).trans hLast⟩
  · obtain ⟨last, hSettled, hLast⟩ := hInv.run hCpu'
      (by rw [hHand', Kernel.runningProc_of_cpu hSame, ← not_not.mp hCurr])
    exact ⟨last, hSettled, (hFrame.trans hChosen).trans hLast⟩

theorem kernelExit {code : Word} (h : Settled s lists) (hUser : s.inUser)
    (hExit : s.kernelExit code = .ok t) : ∃ others, Settled t others ∧ Calm lists others ∧
      ∀ p, t.Live p ↔ p ≠ s.runningProc ∧ s.Live p := by
  obtain ⟨-, marked, detached, rfl, hQuiet, rfl⟩ := Kernel.kernelExit_cases hExit
  obtain ⟨chosen, hInv, hFrame, hCpu, hHand⟩ := h.getNextProcess h.hand
  rw [h.cpu_eq hUser] at hCpu
  have hGone := (hInv.vanish (Or.inl rfl) hCpu rfl rfl (f := fun p =>
    { p with exitCode := code, state := .exited }) (Or.inr rfl)).quiet hQuiet
  have hIdle : detached.idleProc = s.idleProc := by
    rw [hQuiet.idleProc, ← Kernel.idleProc_of_cpu (Kernel.cpu_getNextProcess s)]
    rfl
  obtain ⟨last, hSettled, hLast⟩ := hGone.fullContextSwitch none (n := s.getNextProcess.2)
    (Function.update_self _ _ _) (by rw [Function.update_of_ne (by simp), hHand, hIdle])
  refine ⟨last, hSettled, (hFrame.calm.trans (.update rfl _)).trans hLast.calm, fun p => ?_⟩
  rw [hLast.live, hQuiet.live_iff, Kernel.live_modifyPcb_dead (Or.inr rfl), hFrame.live]

omit [Hardware] in
theorem live_kernelFork [Hardware] {o : Outcomes} {p : Proc} (hFork : s.kernelFork o = .ok t)
    (hp : p ≠ s.numPcbs) : t.Live p ↔ s.Live p := by
  obtain ⟨created, copied, hCreate, hCopied, hResult⟩ := Kernel.kernelFork_cases hFork
  obtain ⟨-, mem, pcb, rfl, -⟩ := Kernel.createNewPcb_eq hCreate
  have hLt : p < s.numPcbs + 1 ↔ p < s.numPcbs :=
    ⟨fun h => Nat.lt_of_le_of_ne (Nat.le_of_lt_succ h) hp, Nat.lt_succ_of_lt⟩
  have hCreated : copied.Live p ↔ s.Live p := by
    rw [hCopied.live_iff]
    simp [Kernel.Live, Function.update_of_ne hp, hLt]
  rcases hResult with rfl | ⟨cloned, hCloned, rfl | rfl⟩
  · rw [← hCreated]
    exact Kernel.live_modifyPcb_of_ne (s := copied) (f := fun p => { p with freed := true }) hp
  · rw [hCloned.live_iff, Kernel.live_scheduleProcess_of_ne hp, hCreated]
  · rw [Kernel.live_modifyPcb_of_ne hp, hCloned.live_iff, Kernel.live_scheduleProcess_of_ne hp, hCreated]

theorem kernelFork {o : Outcomes} (h : Settled s lists) (hContexts : Contexts s.cpu)
    (hFork : s.kernelFork o = .ok t) : ∃ others, Settled t others ∧ Calm lists others := by
  obtain ⟨kc, -, hCpu⟩ := Kernel.cpu_kernelFork hFork
  have hOnCpu : t.onCpu = s.onCpu := by
    have hRunning : t.runningProc = s.runningProc := congrArg Cpu.runningProc hCpu
    have hIdle : t.idleProc = s.idleProc := congrArg Cpu.idleProc hCpu
    rw [Kernel.onCpu, Kernel.onCpu, hRunning, hIdle]
  obtain ⟨created, copied, hCreate, hCopied, hResult⟩ := Kernel.kernelFork_cases hFork
  have hInv := (h.createNewPcb _ h.hand hContexts.idle_lt hCreate).quiet hCopied
  rcases hResult with rfl | ⟨cloned, hCloned, hResult⟩
  · have hGone := hInv.vanish (Or.inr rfl) (Function.update_self _ _ _) rfl rfl
      (f := fun p => { p with freed := true }) (Or.inl rfl)
    refine ⟨_, ⟨hGone.quiet (.emit _ (e := .freed s.numPcbs) trivial), ?_,
      Function.update_self _ _ _⟩, (Calm.update rfl _).trans (.update rfl _)⟩
    rw [Function.update_of_ne (by simp), Function.update_of_ne (by simp), h.cpu, hOnCpu]
  · have hReady := (hInv.scheduleProcess (Or.inr rfl) (Function.update_self _ _ _)).quiet hCloned
    have hShape : t.shape = cloned.shape ∧ t.pipes = cloned.pipes := by
      rcases hResult with rfl | rfl
      · exact ⟨rfl, rfl⟩
      · exact ⟨Kernel.shape_modifyPcb rfl rfl rfl Iff.rfl, rfl⟩
    refine ⟨_, ⟨hReady.of_shape hShape.1 hShape.2, ?_, move_source (by simp)⟩,
      (Calm.update rfl _).trans (.move rfl rfl _ _)⟩
    rw [move_other (by simp) (by simp), Function.update_of_ne (by simp), h.cpu, hOnCpu]

end Settled
end Yalnix
