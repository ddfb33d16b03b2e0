import Yalnix.Process.DeviceSteps
import Yalnix.Process.Decompose
import Yalnix.Process.Inside
import Yalnix.Sample

/-! Every process is in exactly one place, and every lock accounts for its
permits, in every state the kernel can reach. -/
namespace Yalnix

open IntrusiveQueue Apart Synchronization Hardware

namespace Settled

variable [Hardware]

variable {s t : Kernel} {lists others : Place → List Proc}

/-- A change of the kernel structures between two moments at which the same
process has the processor. -/
theorem of_inv (h : Settled s lists) (hInv : Inv t others none) (hCpu : t.cpu = s.cpu)
    (hSame : others .cpu = lists .cpu) (hHand : others .hand = []) : Settled t others where
  toInv := hInv
  cpu := by
    rw [hSame, h.cpu, Kernel.onCpu, Kernel.onCpu, Kernel.runningProc_of_cpu hCpu,
      Kernel.idleProc_of_cpu hCpu]
  hand := hHand

omit [Hardware] in
/-- One process joins a place. -/
theorem mem_update_join {a c : Place} {x p : Proc} {joined : List Proc}
    (hJoined : joined.Perm (x :: lists a)) (hp : p ∈ Function.update lists a joined c) :
    p ∈ lists c ∨ p = x ∧ c = a := by
  by_cases he : c = a
  · subst he
    rw [Function.update_self, hJoined.mem_iff, List.mem_cons] at hp
    exact hp.symm.imp id fun hx => ⟨hx, rfl⟩
  · rw [Function.update_of_ne he] at hp
    exact Or.inl hp

/-- The running process enters the container it will wait in. -/
theorem parks {label : Label} {kc : KernelContext} (h : Settled s lists) (hUser : s.inUser) (hParks : Parks label s kc t) :
    ∃ base others, Inv t others none ∧ Frame s t base others ∧ others .cpu = [] ∧ others .hand = [] ∧
      (∀ a, ∀ p ∈ base a, p ∈ lists a ∨ p = s.runningProc ∧ kc.WaitsAt a) ∧
      (kc.isTty = false → TtyFrame lists base) ∧ (kc.isSync = false → SyncFrame lists base) := by
  have hx := h.cpu_eq hUser
  have hHand := h.hand
  have hJoin {a : Place} {joined : List Proc} (hJoined : joined.Perm (s.runningProc :: lists a))
      (hAt : kc.WaitsAt a) (b : Place) (p : Proc) (hp : p ∈ Function.update lists a joined b) :
      p ∈ lists b ∨ p = s.runningProc ∧ kc.WaitsAt b := by
    rcases mem_update_join hJoined hp with hOld | ⟨hNew, rfl⟩
    · exact Or.inl hOld
    · exact Or.inr ⟨hNew, hAt⟩
  cases hParks with
  | sleep hSleep =>
      obtain ⟨joined, others, hJoined, hInv, hFrame, hCpu, hLast⟩ := h.putToSleep hx hSleep
      exact ⟨_, others, hInv, hFrame, hCpu, hLast.trans hHand, hJoin hJoined rfl,
        fun _ => .update rfl, fun _ => .update rfl⟩
  | wait =>
      obtain ⟨others, hInv, hFrame, hCpu, hLast⟩ := h.waitBlockProcess hx
      exact ⟨_, others, hInv, hFrame, hCpu, hLast.trans hHand, hJoin List.perm_append_comm rfl,
        fun _ => .update rfl, fun _ => .update rfl⟩
  | @lock t id kc hKc hAcquire =>
      have hLive := Kernel.live_acquire s id s.runningProc false
      rcases h.acquire id false (Or.inl rfl) hx rfl with hRes | ⟨hRes, -⟩ | ⟨-, hInv⟩
      · simp [hAcquire] at hRes
      · simp [hAcquire] at hRes
      · rw [hAcquire] at hInv hLive
        refine ⟨_, _, hInv, ⟨.move_to rfl _ _, hLive⟩, move_source (by simp),
          by rw [move_other (by simp) (by simp), hHand], hJoin List.perm_append_comm ?_,
          fun _ => .update rfl, ?_⟩
        · exact hKc.imp_right Or.inl
        · rcases hKc with rfl | rfl <;> exact (nomatch ·)
  | @cvar t cvarId lockId hCall hWait =>
      obtain ⟨others, hInv, hFrame, hCpu, hLast⟩ := h.waitCvar hx hHand hWait
      refine ⟨_, others, hInv, hFrame, hCpu, hLast, fun b p hp => ?_, fun _ b hb => ?_, (nomatch ·)⟩
      · rcases mem_update_join (List.perm_append_comm.trans (by
          rw [Function.update_of_ne (by simp)]
          exact .refl _)) hp with hOld | ⟨hNew, rfl⟩
        · by_cases hb : b = .queue (.lock lockId)
          · subst hb
            rw [Function.update_self] at hOld
            exact Or.inl (List.mem_of_mem_tail hOld)
          · rw [Function.update_of_ne hb] at hOld
            exact Or.inl hOld
        · exact Or.inr ⟨hNew, _, rfl⟩
      · rw [TtyFrame.update rfl b hb, TtyFrame.update rfl b hb]
  | pipe hPipe =>
      obtain ⟨others, hInv, hFrame, hCpu, hLast⟩ :=
        h.pipeBlock hx (Kernel.getPipe_eq_some.mp hPipe).2.1
      exact ⟨_, others, hInv, hFrame, hCpu, hLast.trans hHand,
        hJoin List.perm_append_comm ⟨_, _, rfl⟩, fun _ => .update rfl, fun _ => .update rfl⟩
  | ttyRead =>
      obtain ⟨others, hInv, hFrame, hCpu, hLast⟩ := h.ttyReadBlock _ _ _ hx
      exact ⟨_, others, hInv, hFrame, hCpu, hLast.trans hHand, hJoin List.perm_append_comm rfl,
        (nomatch ·), fun _ => .update rfl⟩
  | @ttyWrite id bytes =>
      obtain ⟨others, hInv, hFrame, hCpu, hLast⟩ := h.ttyWriteBlock id bytes hx
      refine ⟨_, others, hInv, hFrame, hCpu, hLast.trans hHand, ?_, (nomatch ·), fun _ => ?_⟩
      · split_ifs with hOwner
        · have hIdle : lists (.transmitting id) = [] := by
            rw [h.placement.owner]
            simp [Kernel.shape, hOwner]
          exact hJoin (by rw [hIdle]) rfl
        · exact hJoin List.perm_append_comm rfl
      · split_ifs
        · exact .update rfl
        · exact .update rfl

/-- A process that blocks in a call on a lock or a condition variable. -/
theorem syncEffect_of_parks {label : Label} {parked : Kernel} {kc : KernelContext} (hUser : s.inUser)
    (hParks : Parks label s kc parked) (hSync : kc.isSync = true) (hQuiet : Quiet parked t) :
    SyncEffect s (t.switchAway kc) := by
  cases hParks with
  | lock hKc hAcquire => exact .enqueue hUser hKc hAcquire hQuiet
  | cvar _ hWait => exact .wait hUser hWait hQuiet
  | sleep | wait | pipe | ttyRead | ttyWrite => cases hSync

/-- What an effect does to the set of live processes. -/
inductive LiveStep (label : Label) (s t : Kernel) : Prop where
  | same (h : t.Live = s.Live) : LiveStep label s t
  | exit {code : Word} (hUser : s.inUser) (hExit : s.kernelExit code = .ok t)
      (h : ∀ p, t.Live p ↔ p ≠ s.runningProc ∧ s.Live p) (hCall : label.exits = true) : LiveStep label s t
  | fork {o : Outcomes} (hUser : s.inUser) (hFork : s.kernelFork o = .ok t)
      (hCall : label.forks = some o) : LiveStep label s t

/-- What is known of the lists after an effect. -/
structure Outcome (label : Label) (s t : Kernel) (lists others : Place → List Proc) : Prop where
  settled : Settled t others
  arrivals : Arrivals label s t lists others
  entries : Entries label s t
  tty : TtyEffect s t ∨ TtyFrame lists others ∧ InsideFrame s t
  sync : SyncEffect s t ∨ SyncFrame lists others
  live : LiveStep label s t

/-- The running process blocks and another one is chosen. -/
theorem block {label : Label} {parked : Kernel} {kc : KernelContext} (h : Settled s lists) (hUser : s.inUser)
    (hParks : Parks label s kc parked) (hQuiet : Quiet parked t) :
    ∃ others, Outcome label s (t.switchAway kc) lists others := by
  obtain ⟨base, parkedLists, hInv, hFrame, hCpu, hHand, hJoins, hTtyFrame, hSyncFrame⟩ :=
    h.parks hUser hParks
  obtain ⟨others, hSettled, hSwitch⟩ := (hInv.quiet hQuiet).switchAway kc hCpu hHand
  have hCalm := hFrame.calm.trans hSwitch.calm
  have hRunning : t.runningProc = s.runningProc := by
    rw [hQuiet.runningProc]
    rcases Kernel.cpu_parks hParks with ⟨hSame, -⟩ | ⟨_, _, _, _, _, _, hSame⟩
    · exact Kernel.runningProc_of_cpu hSame
    · exact congrArg Cpu.runningProc hSame
  have hLive : t.Live = parked.Live := funext fun p => propext (hQuiet.live_iff p)
  have hSame := hLive.trans hFrame.live
  refine ⟨others, hSettled, fun a ha p hp => ?_,
    .block hUser hParks hQuiet hRunning hSame (hSwitch.live.trans hSame), ?_, ?_,
    .same (hSwitch.live.trans hSame)⟩
  · rw [hCalm a ha] at hp
    rcases hJoins a p hp with hp | ⟨hp, hAt⟩
    · exact Or.inl hp
    · refine Or.inr (.block (.block hp hUser hParks hQuiet rfl) ?_ hAt)
      have hKc : ((t.switchAway kc).pcb p).kc = Function.update t.cpu.kc t.runningProc (some kc) p :=
        congrFun (congrArg Cpu.kc (Kernel.cpu_switchAway t kc)) p
      rw [hKc, hp, hRunning, Function.update_self]
  · cases hTty : kc.isTty with
    | true => exact Or.inl (.of_parks hUser hParks hTty hQuiet)
    | false =>
        have hCpu : t.cpu = s.cpu := by
          rcases Kernel.cpu_parks hParks with ⟨hParked, -⟩ | ⟨_, _, _, _, _, rfl, _⟩
          · exact (Kernel.cpu_of_outside hQuiet.outside).trans hParked
          · cases hTty
        refine Or.inr ⟨(hTtyFrame hTty).calm hCalm, InsideFrame.switch (n := t.getNextProcess.2) hUser.1
          hTty (hSwitch.live.trans hSame) ?_⟩
        rw [Kernel.cpu_switchAway, hCpu, Kernel.runningProc_of_cpu hCpu]
  · cases hSync : kc.isSync with
    | true => exact Or.inl (syncEffect_of_parks hUser hParks hSync hQuiet)
    | false => exact Or.inr ((hSyncFrame hSync).calm hCalm)

/-- A change that leaves the processor alone and after which nobody waits who
did not wait before. -/
theorem of_frame {label : Label} {base : Place → List Proc} (h : Settled s lists) (hInv : Inv t others none)
    (hCpu : t.cpu = s.cpu) (hFrame : Frame s t base others) (hSame : others .cpu = lists .cpu)
    (hHand : others .hand = []) (hArrivals : Arrivals label s t lists base)
    (hTty : TtyEffect s t ∨ TtyFrame lists base) (hSync : SyncEffect s t ∨ SyncFrame lists base) :
    ∃ others, Outcome label s t lists others := by
  refine ⟨others, h.of_inv hInv hCpu hSame hHand, hArrivals.calm hFrame.calm, .of_cpu hCpu hFrame.live,
    ?_, ?_, .same hFrame.live⟩
  · exact hTty.imp_right fun hBase => ⟨hBase.calm hFrame.calm, .of_cpu hCpu hFrame.live⟩
  · exact hSync.imp_right fun hBase => hBase.calm hFrame.calm

/-- A change of the processor alone. -/
theorem of_calm {label : Label} (hSettled : Settled t others) (hCalm : Calm lists others)
    (hEntries : Entries label s t) (hInside : InsideFrame s t) (hLive : LiveStep label s t) :
    ∃ others, Outcome label s t lists others :=
  ⟨others, hSettled, (Arrivals.refl label s t lists).calm hCalm, hEntries, Or.inr ⟨hCalm.tty, hInside⟩,
    Or.inr hCalm.sync, hLive⟩

theorem of_quiet {label : Label} (h : Settled s lists) (hQuiet : Quiet s t) :
    ∃ others, Outcome label s t lists others :=
  of_calm (h.quiet hQuiet) (.refl lists) (.quiet hQuiet) (.quiet hQuiet)
    (.same (funext fun p => propext (hQuiet.live_iff p)))

/-- A change of objects nobody waits for. -/
theorem of_object {label : Label} (h : Settled s lists) (hInv : Inv t lists none) (hCpu : t.cpu = s.cpu)
    (hLive : t.Live = s.Live) : ∃ others, Outcome label s t lists others :=
  h.of_frame hInv hCpu (.refl hLive) rfl h.hand (.refl label s t lists) (Or.inr fun _ _ => rfl)
    (Or.inr fun _ _ => rfl)

/-- Processes leave a place. -/
theorem arrivals_leave {label : Label} {a : Place} {rest : List Proc} (hRest : ∀ p ∈ rest, p ∈ lists a) :
    Arrivals label s t lists (Function.update lists a rest) :=
  .update fun p hp => Or.inl (hRest p hp)

open Kernel in
/-- Every effect leaves each process in one place. The queues of the terminals
and the calls on them only change with the effects on terminals, those of the
synchronization objects only with the effects on them. -/
theorem effect {label : Label} (h : Settled s lists) (hContexts : Contexts s.cpu) (hEffect : Effect label s t) :
    ∃ others, Outcome label s t lists others := by
  cases hEffect with
  | quiet hQuiet => exact h.of_quiet hQuiet.toQuiet
  | ticked => exact h.of_quiet (.ticked s)
  | reap _ _ hFound => exact h.of_quiet (.findExitedChild hFound)
  | block hUser hParks hQuiet => exact h.block hUser hParks hQuiet.toQuiet
  | @sleepless t ticks growOk hUser hSleep =>
      have hLive := h.live_running hUser
      have hCpu := cpu_of_outside (outside_fst (outside_putToSleep s _ _ _) hSleep)
      unfold Kernel.putToSleep at hSleep
      dsimp only at hSleep
      split at hSleep
      · simp at hSleep
      · obtain ⟨rfl, -⟩ := Prod.mk.inj hSleep
        have hShape := shape_modifyPcb (s := s) (p := s.runningProc) (f := fun p =>
          { p with wakeUp := s.numTicks + ticks, state := .waiting }) rfl rfl rfl
            (by simp [hLive.2.2.2])
        have hMarked := h.of_shape hShape rfl
        have hMem : s.runningProc ∈ lists .cpu := by simp [h.cpu_eq hUser]
        exact h.of_object (hMarked.setState hMem (by simp)) hCpu
          ((hMarked.live_setState hMem (by simp)).trans (live_of_shape hShape))
  | preempt hMode =>
      obtain ⟨others, hSettled, hFrame⟩ := h.preempt
      exact of_calm hSettled hFrame.calm (.preempt hMode hFrame.live) (.preempt hMode hFrame.live)
        (.same hFrame.live)
  | exit hUser hExit hCall =>
      obtain ⟨others, hSettled, hCalm, hLive⟩ := h.kernelExit hUser hExit
      exact of_calm hSettled hCalm (.kernelExit hUser hExit hLive) (.kernelExit hUser hExit hLive)
        (.exit hUser hExit hLive hCall)
  | fork hUser hFork hCall =>
      obtain ⟨others, hSettled, hCalm⟩ := h.kernelFork hContexts hFork
      exact of_calm hSettled hCalm (.kernelFork hFork) (.kernelFork hFork) (.fork hUser hFork hCall)
  | newLock =>
      exact h.of_object (h.newLock _ _) (cpu_of_outside (outside_newLock s _ _ _)) (live_newLock s _ _ _)
  | newCvar => exact h.of_object (h.newCvar _) (cpu_of_outside (outside_newCvar s _)) rfl
  | newPipe => exact h.of_object (h.newPipe _ _) (cpu_newPipe s _ _) (live_newPipe s _ _)
  | deleteLock =>
      exact h.of_object (h.deleteLock _) (cpu_of_outside (outside_deleteLock s _ _)) (live_deleteLock s _ _)
  | deleteCvar =>
      exact h.of_object (h.deleteCvar _) (cpu_of_outside (outside_deleteCvar s _ _)) (live_deleteCvar s _ _)
  | pipeReclaim => exact h.of_object h.pipeReclaim (cpu_pipeReclaim s _) (live_pipeReclaim s _)
  | @acquire t id hUser hAcquire =>
      have hCpu := cpu_of_outside (outside_fst (outside_acquire s _ _ _) hAcquire)
      have hLive := live_acquire s id s.runningProc false
      rcases h.acquire id false (Or.inl rfl) (h.cpu_eq hUser) rfl with
        hRes | ⟨-, hInv⟩ | ⟨hRes, -⟩
      · simp [hAcquire] at hRes
      · rw [hAcquire] at hInv hLive
        exact h.of_object hInv hCpu hLive
      · simp [hAcquire] at hRes
  | release hUser hCall hRelease =>
      have hCpu := cpu_of_outside (outside_fst (outside_release s _ _ _) hRelease)
      obtain ⟨others, hInv, hFrame, hx, hHand, -⟩ := h.release (h.cpu_eq hUser) h.hand hRelease
      exact h.of_frame hInv hCpu hFrame (by rw [hx, h.cpu_eq hUser]) hHand
        (arrivals_leave fun p hp => List.mem_of_mem_tail hp) (Or.inr (.update rfl))
        (Or.inl (.release hUser hRelease))
  | @signal u id waiter hPop =>
      obtain ⟨queue, others, hQueue, hInv, hFrame, hWaiter, hx, hHand⟩ := h.signal h.hand hPop
      refine h.of_frame hInv ((cpu_of_outside (outside_reacquire _ _)).trans
        (cpu_of_outside (outside_fst (outside_popCvar s _) hPop))) hFrame hx hHand ?_
        (Or.inr fun b hb => ?_) (Or.inl (.signal hPop))
      · intro a ha p hp
        by_cases hLock : a = .queue (.lock (s.pcb waiter).cvarLockId)
        · subst hLock
          rw [Function.update_self] at hp
          rcases hQueue with ⟨rfl, -⟩ | rfl
          · exact Or.inl hp
          · rcases List.mem_append.mp hp with hp | hp
            · exact Or.inl hp
            · rw [List.mem_singleton.mp hp]
              exact Or.inr (.signalled (List.mem_of_mem_head? hWaiter))
        · rw [Function.update_of_ne hLock] at hp
          exact arrivals_leave (fun p hp => List.mem_of_mem_tail hp) a ha p hp
      · rw [TtyFrame.update rfl b hb, TtyFrame.update rfl b hb]
  | pipeRead hPipe =>
      obtain ⟨-, hUse, rfl⟩ := getPipe_eq_some.mp hPipe
      exact h.of_object ((h.setPipe hUse (Pipe.frame_readBytes _ _)).of_shape (shape_emit _ rfl) rfl) rfl rfl
  | @pipeWrite id pipe grown bytes growOk hPipe hGrown =>
      obtain ⟨-, hUse, rfl⟩ := getPipe_eq_some.mp hPipe
      have hWritten := (h.setPipe hUse ((Pipe.frame_appendBytes grown bytes).trans
        (Pipe.frame_ensureCapacity hGrown))).of_shape (shape_emit _ (e := .pipeWritten id bytes) rfl) rfl
      obtain ⟨others, hInv, hFrame, hx, hHand⟩ := hWritten.wakeReaders h.hand s.numPcbs
      exact h.of_frame hInv (cpu_wakeReaders _ _ _) ⟨hFrame.calm, hFrame.live⟩ hx hHand
        (arrivals_leave fun p hp => List.mem_of_mem_drop hp) (Or.inr (.update rfl)) (Or.inr (.update rfl))
  | wakeWaiter hFind =>
      obtain ⟨rest, others, hRest, hInv, hFrame, hx, hHand⟩ := h.wakeWaiter h.hand hFind
      exact h.of_frame hInv ((cpu_scheduleProcess _ _).trans
        (cpu_of_outside (outside_fst (outside_findWaiter s _) hFind))) hFrame hx hHand
        (arrivals_leave fun p hp => hRest.mem_iff.mpr (by simp [hp])) (Or.inr (.update rfl))
        (Or.inr (.update rfl))
  | wakeSleeper _ _ hRemove =>
      obtain ⟨rest, others, hRest, hInv, hFrame, hx, hHand⟩ := h.wakeSleeper h.hand hRemove
      refine h.of_frame hInv ?_ hFrame hx hHand
        (arrivals_leave fun p hp => hRest.mem_iff.mpr (by simp [hp])) (Or.inr (.update rfl))
        (Or.inr (.update rfl))
      rw [cpu_emit, cpu_of_outside (outside_enqueProcess _ _ _),
        cpu_of_outside (outside_fst (outside_removeFromHeap s _) hRemove)]
  | @transmitted ttyId =>
      obtain ⟨base, others, hBase, hInv, hFrame, hx, hHand⟩ := h.ttyTransmitDone ttyId h.hand
      refine h.of_frame hInv (cpu_ttyTransmitDone s _) hFrame hx hHand ?_ (Or.inl .transmitted)
        (Or.inr ?_)
      · rcases hBase with rfl | rfl
        · exact .refl label s _ _
        · intro a ha p hp
          by_cases hOwner : a = .transmitting ttyId.toNat
          · subst hOwner
            rw [Inv.handOver, Function.update_self, Option.mem_toList] at hp
            exact Or.inr (.own (List.mem_of_mem_head? hp))
          · rw [Inv.handOver, Function.update_of_ne hOwner] at hp
            exact arrivals_leave (fun p hp => List.mem_of_mem_tail hp) a ha p hp
      · rcases hBase with rfl | rfl
        · exact fun _ _ => rfl
        · intro b hb
          rw [Inv.handOver, SyncFrame.update rfl b hb, SyncFrame.update rfl b hb]
  | received =>
      obtain ⟨base, others, hBase, hInv, hFrame, hx, hHand⟩ := h.ttyReceiveDone h.hand
      refine h.of_frame hInv (cpu_ttyReceiveDone s _ _ _) hFrame hx hHand ?_ (Or.inl .received)
        (Or.inr ?_)
      · rcases hBase with rfl | rfl
        · exact .refl label s _ _
        · exact arrivals_leave fun p hp => List.mem_of_mem_tail hp
      · rcases hBase with rfl | rfl
        · exact fun _ _ => rfl
        · exact .update rfl
  | @resumed kc hMode hKc hRead hWrite hCall =>
      refine of_calm ⟨h.of_shape rfl rfl, h.cpu, h.hand⟩ (.refl lists) (.user hCall) (.resumed hKc ?_) (.same rfl)
      cases kc with
      | ttyRead id => exact absurd rfl (hRead id)
      | ttyWrite id => exact absurd rfl (hWrite id)
      | _ => rfl
  | @written id hMode hKc hCall =>
      have hUser : Inv { s with mode := .user } lists none := h.of_shape rfl rfl
      exact ⟨lists, ⟨hUser.ttyWriteReturn id, h.cpu, h.hand⟩, .refl label s _ lists, .written hCall _,
        Or.inl (.written hMode hKc), Or.inr fun _ _ => rfl,
        .same (Kernel.live_ttyWriteReturn { s with mode := .user } id)⟩

theorem effects {label : Label} (h : ∃ lists, Settled s lists) (hContexts : Contexts s.cpu) (hEffects : Effects label s t) :
    (∃ lists, Settled t lists) ∧ Contexts t.cpu := by
  induction hEffects with
  | refl => exact ⟨h, hContexts⟩
  | tail _ hEffect ih =>
      obtain ⟨⟨lists, hSettled⟩, hContexts⟩ := ih
      obtain ⟨others, hOutcome⟩ := hSettled.effect hContexts hEffect
      exact ⟨⟨others, hOutcome.settled⟩, hEffect.contexts hContexts⟩

/-- A queue is no longer than there are control blocks. -/
theorem length_le (h : Settled s lists) (q : QueueId) : (lists (.queue q)).length ≤ s.numPcbs := by
  have hRange : lists (.queue q) ⊆ List.range s.numPcbs :=
    fun p hp => List.mem_range.mpr (h.placement.live_of_mem hp).2.1
  have hSub := (h.placement.placed.nodup (.queue q)).subperm hRange
  simpa using hSub.length_le

/-- Following the links of a queue finds its list. -/
theorem contents_eq (h : Settled s lists) : s.contents = lists := by
  funext a
  cases a with
  | queue q => exact (h.placement.linked q).1.walk_eq (h.length_le q)
  | sleeping => exact h.placement.sleeping.symm
  | transmitting tty => exact (h.placement.owner tty).symm
  | cpu => exact h.cpu.symm
  | hand => exact h.hand.symm

end Settled

namespace KernelStart

open Kernel

section Invariant

variable [Hardware]

/-- What is known of every state a run can reach. -/
structure Sound (s : Kernel) : Prop where
  settled : Settled s s.contents
  contexts : Contexts s.cpu

theorem Sound.of_exists {s : Kernel} (h : ∃ lists, Settled s lists) (hContexts : Contexts s.cpu) :
    Sound s := by
  obtain ⟨lists, hSettled⟩ := h
  exact ⟨hSettled.contents_eq ▸ hSettled, hContexts⟩

/-- The first control block is that of the idle process, which is in no
place. -/
theorem inv_idle (uctxt : UserContext) :
    Inv ((image uctxt).createNewPcb uctxt bootOutcomes).1 (fun _ => []) none := by
  have hDead (p : Proc) : ¬((image uctxt).createNewPcb uctxt bootOutcomes).1.Live p := by
    rintro ⟨hIdle, hLt, -⟩
    exact hIdle (Nat.lt_one_iff.mp hLt)
  refine ⟨⟨⟨fun _ => List.nodup_nil, by simp⟩, fun q => ?_, fun _ => rfl, rfl, fun _ => rfl, fun p => ?_,
      fun _ _ => .nil⟩,
    ⟨Table.wf_init rfl (by decide), Table.wf_init rfl (by decide), fun id hId => ?_, fun _ _ => rfl,
      fun _ _ => rfl, by simp, fun p hp => (hDead p hp).elim⟩, Table.wf_init rfl (by decide),
    fun _ _ => rfl⟩
  · cases q <;> exact isQueue_empty _
  · simp only [List.not_mem_nil, exists_false, false_iff]
    exact hDead p
  · cases hId

theorem inv_bootPcbs (uctxt : UserContext) :
    Inv (bootPcbs uctxt) (Function.update (fun _ => []) .hand [1]) none :=
  (inv_idle uctxt).createNewPcb uctxt (o := bootOutcomes) rfl Nat.zero_lt_one rfl

/-- At boot only the first user process can have a context. -/
theorem cpu_kernelStart (uctxt : UserContext) (early late : List Word) :
    ∃ kc, (kc = none ∨ kc = some .boot) ∧ (kernelStart uctxt early late).cpu =
      { (bootPcbs uctxt).cpu with kc := Function.update (fun _ => none) 1 kc } := by
  have hNone : (bootPcbs uctxt).cpu.kc = Function.update (fun _ => none) 1 none := by
    funext p
    by_cases h1 : p = 1
    · subst h1
      rfl
    · by_cases h0 : p = 0 <;>
        simp [cpu, bootPcbs, createNewPcb, bootOutcomes, image, Pcb.blank, h0, h1]
  have hReady := cpu_scheduleProcess
    ((bootPcbs uctxt).setMem (bootMemory (bootPcbs uctxt).mem early late)) 1
  unfold kernelStart
  dsimp only
  generalize ((bootPcbs uctxt).setMem (bootMemory (bootPcbs uctxt).mem early late)).scheduleProcess 1 =
    ready at hReady ⊢
  split_ifs with hCopied
  · refine ⟨some .boot, Or.inr rfl, ?_⟩
    have hSaved := cpu_saveKc ready 1 (some .boot)
    rw [hReady, cpu_setMem, hNone, Function.update_idem] at hSaved
    exact hSaved
  · refine ⟨none, Or.inl rfl, ?_⟩
    rw [← hNone]
    exact hReady

/-- At boot no process is inside a call. -/
theorem inside_kernelStart (uctxt : UserContext) (early late : List Word) {p : Proc}
    {kc : KernelContext} (hInside : (kernelStart uctxt early late).Inside p kc) : kc = .boot := by
  obtain ⟨first, hFirst, hCpu⟩ := cpu_kernelStart uctxt early late
  have hKc := hInside.2.1
  have hSaved : ((kernelStart uctxt early late).pcb p).kc = Function.update (fun _ => none) 1 first p :=
    congrFun (congrArg Cpu.kc hCpu) p
  rw [hKc] at hSaved
  by_cases hp : p = 1
  · rw [hp, Function.update_self] at hSaved
    rcases hFirst with rfl | rfl <;> cases hSaved
    rfl
  · rw [Function.update_of_ne hp] at hSaved
    cases hSaved

/-- At boot there is no pipe, no input and no transfer. -/
theorem devices_kernelStart (uctxt : UserContext) (early late : List Word) :
    (kernelStart uctxt early late).devices = (image uctxt).devices := by
  have hBoot : (bootPcbs uctxt).devices = (image uctxt).devices := by
    have hTransfer : (bootPcbs uctxt).devices.transfer = (image uctxt).devices.transfer := by
      funext p
      by_cases h1 : p = 1
      · subst h1
        rfl
      · by_cases h0 : p = 0
        · subst h0
          rfl
        · simp [devices, bootPcbs, createNewPcb, bootOutcomes, image, h0, h1]
    have hRest : (bootPcbs uctxt).devices =
        { (image uctxt).devices with transfer := (bootPcbs uctxt).devices.transfer } := rfl
    rw [hRest, hTransfer]
  have hReady := devices_of_outside (outside_scheduleProcess
    ((bootPcbs uctxt).setMem (bootMemory (bootPcbs uctxt).mem early late)) 1)
  unfold kernelStart
  dsimp only
  generalize ((bootPcbs uctxt).setMem (bootMemory (bootPcbs uctxt).mem early late)).scheduleProcess 1 =
    ready at hReady ⊢
  rw [← hBoot]
  split_ifs with hCopied
  · refine Eq.trans ?_ hReady
    simp only [devices, pcb_modifyPcb (v := Pcb.transfer) (s := { ready.setMem _ with uc := _ })
      (p := 1) (f := fun p => { p with kc := some .boot }) rfl]
    rfl
  · exact hReady

/-- After boot the idle process runs and the first user process is ready;
nobody waits. -/
theorem settled_kernelStart (uctxt : UserContext) (early late : List Word) :
    ∃ others, Settled (kernelStart uctxt early late) others ∧ Calm (fun _ => []) others := by
  obtain ⟨kc, hKc, hCpu⟩ := cpu_kernelStart uctxt early late
  have hBoot := (inv_bootPcbs uctxt).quiet
    (Quiet.setMem _ (bootMemory (bootPcbs uctxt).mem early late))
  have hReady := hBoot.scheduleProcess (Or.inr rfl) (Function.update_self _ _ _)
  have hOnCpu : (kernelStart uctxt early late).onCpu = [] := by
    have hRunning : (kernelStart uctxt early late).runningProc = 0 := congrArg Cpu.runningProc hCpu
    have hIdle : (kernelStart uctxt early late).idleProc = 0 := congrArg Cpu.idleProc hCpu
    rw [onCpu, hRunning, hIdle, if_pos rfl]
  have hShape : (kernelStart uctxt early late).shape =
      (((bootPcbs uctxt).setMem (bootMemory (bootPcbs uctxt).mem early late)).scheduleProcess 1).shape ∧
      (kernelStart uctxt early late).pipes = (((bootPcbs uctxt).setMem
        (bootMemory (bootPcbs uctxt).mem early late)).scheduleProcess 1).pipes := by
    unfold kernelStart
    dsimp only
    split_ifs
    · exact ⟨shape_modifyPcb rfl rfl rfl Iff.rfl, rfl⟩
    · exact ⟨rfl, rfl⟩
  refine ⟨_, ⟨hReady.of_shape hShape.1 hShape.2, ?_, move_source (by simp)⟩,
    (Calm.update rfl _).trans (.move rfl rfl _ _)⟩
  rw [hOnCpu, move_other (by simp) (by simp), Function.update_of_ne (by simp)]

theorem sound_kernelStart (uctxt : UserContext) (early late : List Word) :
    Sound (kernelStart uctxt early late) := by
  obtain ⟨kc, hKc, hCpu⟩ := cpu_kernelStart uctxt early late
  obtain ⟨others, hSettled, -⟩ := settled_kernelStart uctxt early late
  refine Sound.of_exists ⟨others, hSettled⟩ ?_
  · rw [hCpu]
    refine ⟨Nat.zero_lt_two, fun kc' h => ?_, fun p kc' h => ?_⟩
    · cases h
    · dsimp only at h ⊢
      by_cases hp : p = 1
      · subst hp
        rw [Function.update_self] at h
        rcases hKc with rfl | rfl <;> cases h
        trivial
      · rw [Function.update_of_ne hp] at h
        cases h

namespace Sound

variable {s t : Kernel}

theorem effects {label : Label} (h : Sound s) (hEffects : Effects label s t) : Sound t := by
  obtain ⟨hSettled, hContexts⟩ := Settled.effects ⟨_, h.settled⟩ h.contexts hEffects
  exact .of_exists hSettled hContexts

theorem quiet (h : Sound s) (hQuiet : Quiet s t) : Sound t := by
  refine .of_exists ⟨_, h.settled.quiet hQuiet⟩ ?_
  rw [cpu_of_outside hQuiet.outside]
  exact h.contexts

theorem read (h : Sound s) (id len : Nat) : Sound (s.read id len) := by
  have hCpu : (s.read id len).cpu = s.cpu := by simp [Kernel.read]
  refine .of_exists ⟨_, h.settled.of_inv (h.settled.read id len) hCpu rfl h.settled.hand⟩ ?_
  rw [hCpu]
  exact h.contexts

theorem user (h : Sound s) : Sound { s with mode := .user } :=
  .of_exists ⟨s.contents, h.settled.of_shape rfl rfl, h.settled.cpu, h.settled.hand⟩
    ⟨h.contexts.idle_lt, h.contexts.idle, h.contexts.valid⟩

theorem step {label : Label} (h : Sound s) (hStep : s.step label = .ok t) : Sound t := by
  rcases step_cases h.contexts hStep with hEffects | ⟨uc, o, id, len, -, -, -, hQuiet⟩ |
    ⟨o, id, -, -, -, hQuiet⟩
  · exact h.effects hEffects
  · exact ((h.quiet (.saveUc s uc)).read id len).quiet hQuiet.toQuiet
  · exact (h.user.read id _).quiet hQuiet.toQuiet

theorem running_lt (h : Sound s) : s.runningProc < s.numPcbs := by
  by_cases hIdle : s.runningProc = s.idleProc
  · rw [hIdle]
    exact h.contexts.idle_lt
  · have hCpu : s.contents .cpu = [s.runningProc] := if_neg hIdle
    have hIn : s.runningProc ∈ s.contents .cpu := by simp [hCpu]
    exact (h.settled.placement.live_of_mem hIn).2.1

/-- A process that continues a call of its own is not the idle process. -/
theorem running (h : Sound s) {kc : KernelContext} (hKc : (s.pcb s.runningProc).kc = some kc)
    (hClock : kc ≠ .clock) : s.contents .cpu = [s.runningProc] ∧ s.Live s.runningProc := by
  have hIdle : s.runningProc ≠ s.idleProc := fun hIdle =>
    hClock (h.contexts.idle kc ((congrArg (fun p => (s.pcb p).kc) hIdle).symm.trans hKc))
  have hCpu : s.contents .cpu = [s.runningProc] := if_neg hIdle
  exact ⟨hCpu, h.settled.placement.live_of_mem (a := .cpu) (by simp [hCpu])⟩

end Sound

theorem reachable_step {s t : Kernel} {label : Label} (run : system.Reachable s)
    (hStep : s.step label = .ok t) : system.Reachable t := by
  have hLast : system.step s label = .ok t := hStep
  exact .step run trivial hLast

/-- `Sound` holds in every state of every run. -/
theorem sound_reachable {s : Kernel} (run : system.Reachable s) : Sound s := by
  refine run.invariant (I := Sound) ?_ fun s label t _ hSound _ hStep => hSound.step hStep
  rintro s ⟨uctxt, early, late, rfl⟩
  exact sound_kernelStart uctxt early late

/-- What survives each effect survives a step, but for the two reads of a
terminal line. -/
theorem Sound.preserve {I : Kernel → Prop} {s t : Kernel} {label : Label}
    (hEffect : ∀ s t, Sound s → I s → Effect label s t → I t) (h : Sound s) (hInv : I s) (hStep : s.step label = .ok t)
    (hRead : ∀ uc o id len, label = .syscall .ttyRead uc o → s.ReadCall uc id len →
      Sound (s.saveUc uc) → I (s.saveUc uc) → I ((s.saveUc uc).read id len))
    (hResume : ∀ o id, label = .resume o → s.mode = .resuming →
      (s.pcb s.runningProc).kc = some (.ttyRead id) →
      I ({ s with mode := .user }.read id (s.pcb s.runningProc).ioLen)) : I t := by
  have hEffects {s t : Kernel} (h : Sound s) (hInv : I s) (hSteps : Effects label s t) : I t := by
    induction hSteps with
    | refl => exact hInv
    | tail hBefore hLast ih => exact hEffect _ _ (h.effects hBefore) ih hLast
  rcases step_cases h.contexts hStep with hSteps |
    ⟨uc, o, id, len, hLabel, hCall, -, hQuiet⟩ | ⟨o, id, hLabel, hMode, hKc, hQuiet⟩
  · exact hEffects h hInv hSteps
  · have hSave := Silent.saveUc s uc
    have hSaved := h.quiet hSave.toQuiet
    exact hEffects (hSaved.read id len) (hRead uc o id len hLabel hCall hSaved
      (hEffects h hInv (hSave.effects hCall.user.1))) (hQuiet.effects ((mode_read _ _ _).trans hCall.user.1))
  · exact hEffects (h.user.read id _) (hResume o id hLabel hMode hKc)
      (hQuiet.effects (mode_read _ _ _))

/-- The invariant rule for the runs in which only certain steps occur. It is
enough that an invariant survives each effect of these steps, the read of a
line, and the moment a woken reader continues. -/
theorem invariant_of_labels {allowed : Label → Prop} {I : Kernel → Prop}
    (hInitial : ∀ uctxt early late, I (kernelStart uctxt early late))
    (hEffect : ∀ label s t, allowed label → Sound s → I s → Effect label s t → I t)
    (hRead : ∀ s id len, Sound s → I s → I (s.read id len))
    (hUser : ∀ s id, Sound s → I s → s.mode = .resuming →
      (s.pcb s.runningProc).kc = some (.ttyRead id) → I { s with mode := .user })
    {s : Kernel} (run : system.Reach (fun _ label => allowed label) s) : I s := by
  refine run.invariant (I := I) ?_ fun s label t hRun hInv hAllowed hStep => ?_
  · rintro s ⟨uctxt, early, late, rfl⟩
    exact hInitial uctxt early late
  · have h := sound_reachable hRun.reachable
    refine h.preserve (fun s t => hEffect label s t hAllowed) hInv hStep ?_ fun o id _ hMode hKc => ?_
    · exact fun uc o id len _ _ hSaved hKept => hRead _ id len hSaved hKept
    · exact hRead _ id _ h.user (hUser s id h hInv hMode hKc)

/-- The invariant rule for the kernel. -/
theorem invariant {I : Kernel → Prop} (hInitial : ∀ uctxt early late, I (kernelStart uctxt early late))
    (hEffect : ∀ label s t, Sound s → I s → Effect label s t → I t)
    (hRead : ∀ s id len, Sound s → I s → I (s.read id len))
    (hUser : ∀ s id, Sound s → I s → s.mode = .resuming →
      (s.pcb s.runningProc).kc = some (.ttyRead id) → I { s with mode := .user })
    {s : Kernel} (run : system.Reachable s) : I s :=
  invariant_of_labels hInitial (fun label s t _ => hEffect label s t) hRead hUser run

end Invariant

/-- Every live process is in exactly one place and occurs there once; idle,
exited and freed ones are in none. -/
theorem process_conservation [Hardware] {s : Kernel} (run : system.Reachable s) (proc : Proc) :
    (s.Live proc → ∃ place, (s.contents place).count proc = 1 ∧
      ∀ other, other ≠ place → proc ∉ s.contents other) ∧
    (¬s.Live proc → ∀ place, proc ∉ s.contents place) := by
  have hPlacement := (sound_reachable run).settled.placement
  refine ⟨fun hLive => ?_, fun hDead place hMem => hDead (hPlacement.live_of_mem hMem)⟩
  obtain ⟨place, hMem⟩ := (hPlacement.live proc).mpr hLive
  refine ⟨place, List.count_eq_one_of_mem (hPlacement.placed.nodup place) hMem, fun other hOther => ?_⟩
  exact hPlacement.placed.not_mem_of_ne hMem hOther

open Sample in
/-- The first user process, once it runs. -/
theorem process_conservation_first : ∃ s : Kernel, system.Reachable s ∧ s.inUser ∧ s.Live 1 ∧
    ∃ place, (s.contents place).count 1 = 1 ∧ ∀ other, other ≠ place → 1 ∉ s.contents other := by
  obtain ⟨s, run, hUser, hLive⟩ := Transition.System.exists_reachable
    (P := fun s : Kernel => s.inUser ∧ s.Live 1) turn initial_booted (by decide +kernel)
  exact ⟨s, run, hUser, hLive, (process_conservation run 1).1 hLive⟩

/-- Every lock and semaphore in use accounts for its permits. -/
theorem permit_conservation [Hardware] {s : Kernel} (run : system.Reachable s) {id : Nat}
    (hUse : (s.locks.entries id).inUse = true) :
    let lock := s.locks.entries id
    0 ≤ lock.val ∧ lock.val ≤ lock.capacity ∧ lock.pids.length = lock.capacity ∧
      lock.val = lock.pids.count 0 ∧ lock.val + (holders lock.pids).length = lock.capacity ∧
      (holders lock.pids).Nodup ∧
      (∀ proc ∈ s.contents (.queue (.lock id)), (s.pcb proc).pid ∉ lock.pids) ∧
      (s.contents (.queue (.lock id)) ≠ [] → lock.val = 0) := by
  intro lock
  have hLock : LockInv lock _ _ _ := (sound_reachable run).settled.sync.lock id hUse
  have hLength := hLock.permits.length
  have hFree := hLock.permits.free
  have hCount := count_add_holders lock.pids
  exact ⟨by omega, by omega, hLength, hFree, by omega, hLock.permits.distinct, hLock.waiters, hLock.full⟩

open Sample in
/-- A lock that its creator holds. -/
theorem permit_conservation_held : ∃ s : Kernel, system.Reachable s ∧
    (s.locks.entries 0).inUse = true ∧ (s.locks.entries 0).pids = [1] ∧
    (s.locks.entries 0).val = (s.locks.entries 0).pids.count 0 := by
  obtain ⟨s, run, hUse, hHeld⟩ := Transition.System.exists_reachable
    (P := fun s : Kernel => (s.locks.entries 0).inUse = true ∧ (s.locks.entries 0).pids = [1])
    (turn ++ [call .lockInit [208], call .acquire [Identifiers.createId Identifiers.lockFlag 0]]) initial_booted (by decide +kernel)
  exact ⟨s, run, hUse, hHeld, (permit_conservation run hUse).2.2.2.1⟩

end KernelStart
end Yalnix
