import Yalnix.Process.Invariant

/-! The operations of `synchronization.c` keep the invariant. -/
namespace Yalnix

open IntrusiveQueue Apart Synchronization Hardware

namespace LockInv

variable {lock : Lock} {queue rest : List Proc} {pid : Proc → Nat} {n n' : Nat} {v p : Nat}
  {neededBy : Int}

theorem find_eq (h : LockInv lock queue pid n) (p : Nat) (replace : Option Nat) :
    find lock.pids p lock.capacity replace = find lock.pids p lock.pids.length replace := by
  rw [h.permits.length]

theorem queue_nil (h : LockInv lock queue pid n) (hVal : 0 < lock.val) : queue = [] := by
  by_contra hQueue
  have hZero := h.full hQueue
  omega

/-- A permit that is free is taken; nobody can be waiting then. -/
theorem grant (h : LockInv lock queue pid n) (hVal : 0 < lock.val) (hv : v ≠ 0)
    (hFresh : v ∉ lock.pids) (hNeeded : neededBy = lock.neededBy + 1 + n' - n) :
    LockInv { lock with
      val := lock.val - 1
      pids := (find lock.pids 0 lock.capacity (some v)).2
      neededBy := neededBy } queue pid n' := by
  obtain rfl := h.queue_nil hVal
  obtain ⟨hGranted, hHolders⟩ := h.permits.grant hVal hv hFresh
  have hPerm := find_perm (h.permits.mem_zero hVal) v
  rw [← h.find_eq] at hPerm
  have hCount := length_holders hPerm
  have hOld := h.needed
  refine ⟨hGranted.perm hPerm, by simp, by simp, ?_⟩
  simp only [hCount, hHolders, List.length_nil] at hOld ⊢
  omega

/-- A process joins the queue when no permit is free. -/
theorem enqueue {x : Proc} (h : LockInv lock queue pid n) (hVal : ¬0 < lock.val)
    (hFresh : pid x ∉ lock.pids) (hNeeded : neededBy = lock.neededBy + 1 + n' - n) (ends : Ends Proc) :
    LockInv { lock with ends := ends, neededBy := neededBy } (queue ++ [x]) pid n' := by
  have hZero : lock.val = 0 := by
    have hFree := h.permits.free
    omega
  have hOld := h.needed
  refine ⟨h.permits, fun q hq => ?_, fun _ => hZero, ?_⟩
  · rcases List.mem_append.mp hq with hq | hq
    · exact h.waiters q hq
    · rw [List.mem_singleton.mp hq]
      exact hFresh
  · simp only [List.length_append, List.length_singleton]
    omega

/-- A permit is given back and nobody waits for it. -/
theorem giveBack (h : LockInv lock [] pid n) (hp : p ≠ 0) (hMem : p ∈ lock.pids)
    (hNeeded : neededBy = lock.neededBy - 1 + n' - n) :
    LockInv { lock with
      val := lock.val + 1
      pids := (find lock.pids p lock.capacity (some 0)).2
      neededBy := neededBy } [] pid n' ∧
      p ∉ (find lock.pids p lock.capacity (some 0)).2 := by
  obtain ⟨hFreed, hHolders⟩ := h.permits.giveBack hp hMem
  have hPerm := find_perm hMem 0
  rw [← h.find_eq] at hPerm
  have hCount := length_holders hPerm
  have hOld := h.needed
  refine ⟨⟨hFreed.perm hPerm, by simp, by simp, ?_⟩, ?_⟩
  · simp only [hCount, List.length_nil] at hOld ⊢
    omega
  · rw [hPerm.mem_iff, List.mem_cons, not_or]
    exact ⟨hp, h.permits.not_mem_erase hp⟩

/-- A permit goes directly to the first waiter. -/
theorem handOver {x : Proc} (h : LockInv lock (x :: rest) pid n) (hp : p ≠ 0) (hMem : p ∈ lock.pids)
    (hx : pid x ≠ 0) (hDistinct : ∀ q ∈ rest, pid q ≠ pid x)
    (hNeeded : neededBy = lock.neededBy - 1 + n' - n) (ends : Ends Proc) :
    LockInv { lock with
      ends := ends
      pids := (find lock.pids p lock.capacity (some (pid x))).2
      neededBy := neededBy } rest pid n' ∧
      p ∉ (find lock.pids p lock.capacity (some (pid x))).2 := by
  have hFresh : pid x ∉ lock.pids := h.waiters x (by simp)
  obtain ⟨hMoved, hHolders⟩ := h.permits.handOver hp hMem hx hFresh
  have hPerm := find_perm hMem (pid x)
  rw [← h.find_eq] at hPerm
  have hCount := length_holders hPerm
  have hOld := h.needed
  refine ⟨⟨hMoved.perm hPerm, fun q hq => ?_, fun _ => h.full (by simp), ?_⟩, ?_⟩
  · rw [hPerm.mem_iff, List.mem_cons, not_or]
    exact ⟨hDistinct q hq, fun hMem => h.waiters q (by simp [hq]) (List.mem_of_mem_erase hMem)⟩
  · simp only [hCount, hHolders, List.length_cons] at hOld ⊢
    omega
  · rw [hPerm.mem_iff, List.mem_cons, not_or]
    exact ⟨fun he => hFresh (he ▸ hMem), h.permits.not_mem_erase hp⟩

end LockInv

section Bindings

variable {lists : Place → List Proc} {lockId : Proc → Nat} {x : Proc} {c : Nat}

/-- A process joins a condition variable with the lock it claims. -/
theorem bindings_join (id : Nat) (hPlaced : Placed lists) (hx : lists .cpu = [x])
    (hFinite : ∀ k, (bound lockId lists k).Finite) (k : Nat) :
    bindings (Function.update lockId x id)
      (Apart.move lists .cpu (.queue (.cvar c)) [] (lists (.queue (.cvar c)) ++ [x])) none k =
      bindings lockId lists (some id) k := by
  have hSource : (lists .cpu).Perm (x :: []) := by rw [hx]
  have hTarget : (lists (.queue (.cvar c)) ++ [x]).Perm (x :: lists (.queue (.cvar c))) :=
    List.perm_append_comm
  have hMem (p : Proc) (c' : Nat) : p ∈ Apart.move lists .cpu (.queue (.cvar c)) []
      (lists (.queue (.cvar c)) ++ [x]) (.queue (.cvar c')) ↔
      (p ≠ x ∧ p ∈ lists (.queue (.cvar c'))) ∨ (p = x ∧ c' = c) := by
    rw [mem_move_iff hPlaced (by simp) hSource hTarget]
    simp
  have hNowhere (c' : Nat) : x ∉ lists (.queue (.cvar c')) :=
    hPlaced.not_mem_of_ne (show x ∈ lists .cpu by simp [hx]) (by simp)
  have hBound : bound (Function.update lockId x id) (Apart.move lists .cpu (.queue (.cvar c)) []
      (lists (.queue (.cvar c)) ++ [x])) k =
      if id = k then insert x (bound lockId lists k) else bound lockId lists k := by
    ext p
    by_cases hp : p = x
    · subst hp
      by_cases hk : id = k <;> simp [bound, hMem, hk, hNowhere]
    · by_cases hk : id = k <;> simp [bound, hMem, hp, hk]
  rw [bindings, bindings, hBound]
  by_cases hk : id = k
  · have hNot : x ∉ bound lockId lists k := fun hx => hx.1.elim hNowhere
    simp [hk, Set.ncard_insert_of_notMem hNot (hFinite k)]
  · simp [hk]

/-- A process leaves a condition variable and claims its lock. -/
theorem bindings_leave {rest : List Proc} (hPlaced : Placed lists)
    (hx : lists (.queue (.cvar c)) = x :: rest) (hHand : lists .hand = [])
    (hFinite : ∀ k, (bound lockId lists k).Finite) (k : Nat) :
    bindings lockId (Apart.move lists (.queue (.cvar c)) .hand rest [x]) (some (lockId x)) k =
      bindings lockId lists none k := by
  have hSource : (lists (.queue (.cvar c))).Perm (x :: rest) := by rw [hx]
  have hTarget : [x].Perm (x :: lists .hand) := by rw [hHand]
  have hMem (p : Proc) (c' : Nat) : p ∈ Apart.move lists (.queue (.cvar c)) .hand rest [x]
      (.queue (.cvar c')) ↔ p ≠ x ∧ p ∈ lists (.queue (.cvar c')) := by
    rw [mem_move_iff hPlaced (by simp) hSource hTarget]
    simp
  have hBound : bound lockId (Apart.move lists (.queue (.cvar c)) .hand rest [x]) k =
      bound lockId lists k \ {x} := by
    ext p
    by_cases hp : p = x <;> simp [bound, hMem, hp]
  rw [bindings, bindings, hBound]
  by_cases hk : lockId x = k
  · have hIn : x ∈ bound lockId lists k := ⟨⟨c, by simp [hx]⟩, hk⟩
    have hPos : 0 < (bound lockId lists k).ncard := (Set.ncard_pos (hFinite k)).mpr ⟨x, hIn⟩
    have hCard := Set.ncard_sdiff_singleton_of_mem hIn
    simp only [hk, hCard, if_true, reduceCtorEq, if_false]
    omega
  · have hNot : x ∉ bound lockId lists k := fun hIn => hk hIn.2
    simp [hk, Set.sdiff_singleton_eq_self hNot]

end Bindings

variable [Hardware]

namespace Sync

variable {S : Shape} {lists others : Place → List Proc} {claim claim' : Option Nat} {id : Nat}
  {lock : Lock}

/-- One lock in use is overwritten and, possibly, its queue changes. The other
locks are not concerned. -/
theorem setLock (h : Sync S lists claim)
    (hLists : ∀ a : Place, a.isObject = true → a ≠ .queue (.lock id) → others a = lists a)
    (hLock : LockInv lock (others (.queue (.lock id))) S.pid
      (bindings S.cvarLockId lists claim' id))
    (hOld : (S.locks.entries id).inUse = true) (hNew : lock.inUse = true)
    (hClaim : ∀ k, k ≠ id → (claim' = some k ↔ claim = some k))
    (hWaiter : ∀ c, ∀ p ∈ lists (.queue (.cvar c)), S.cvarLockId p = id → S.pid p ∉ lock.pids) :
    Sync { S with locks := S.locks.set id lock } others claim' := by
  have hCvar (c : Nat) : others (.queue (.cvar c)) = lists (.queue (.cvar c)) := hLists _ rfl (by simp)
  have hBound (k : Nat) : bound S.cvarLockId others k = bound S.cvarLockId lists k := by
    simp only [bound, hCvar]
  have hEntry {k : Nat} (hk : k ≠ id) : (S.locks.set id lock).entries k = S.locks.entries k :=
    Function.update_of_ne hk _ _
  have hSelf : (S.locks.set id lock).entries id = lock := Function.update_self _ _ _
  have hQueue {k : Nat} (hk : k ≠ id) : others (.queue (.lock k)) = lists (.queue (.lock k)) :=
    hLists _ rfl (by simpa using hk)
  refine ⟨h.locks.set rfl hOld hNew, h.cvars, fun k hk => ?_, fun k hk => ?_, fun c hc => ?_,
    fun c p hp => ?_, h.pid⟩
  · by_cases he : k = id
    · subst he
      simpa only [hSelf, bindings, hBound] using hLock
    · have hInv := h.lock k (by rwa [← hEntry he])
      simpa only [hEntry he, hQueue he, bindings, hBound, hClaim k he] using hInv
  · have he : k ≠ id := by
      rintro rfl
      simp [hSelf, hNew] at hk
    rw [hQueue he]
    exact h.lock_unused k (by rwa [← hEntry he])
  · rw [hCvar]
    exact h.cvar_unused c hc
  · rw [hCvar] at hp
    obtain ⟨hUse, hPid⟩ := h.waiter c p hp
    by_cases he : S.cvarLockId p = id
    · simp only [he, hSelf]
      exact ⟨hNew, hWaiter c p hp he⟩
    · simp only [hEntry he]
      exact ⟨hUse, hPid⟩

/-- The running process, which gave up its lock, joins a condition variable. -/
theorem join {c : Nat} {x : Proc} (h : Sync S lists (some id)) (cvar : Cvar) (hPlacement : Placement S lists)
    (hx : lists .cpu = [x]) (hCvar : (S.cvars.entries c).inUse = true) (hInUse : cvar.inUse = true)
    (hLock : (S.locks.entries id).inUse = true) (hPid : S.pid x ∉ (S.locks.entries id).pids) :
    Sync { S with cvars := S.cvars.set c cvar, cvarLockId := Function.update S.cvarLockId x id }
      (Apart.move lists .cpu (.queue (.cvar c)) [] (lists (.queue (.cvar c)) ++ [x])) none := by
  have hBindings := bindings_join (c := c) id hPlacement.placed hx (h.finite_bound hPlacement)
  have hSource : (lists .cpu).Perm (x :: []) := by rw [hx]
  have hTarget : (lists (.queue (.cvar c)) ++ [x]).Perm (x :: lists (.queue (.cvar c))) :=
    List.perm_append_comm
  have hLocks (k : Nat) : Apart.move lists .cpu (.queue (.cvar c)) []
      (lists (.queue (.cvar c)) ++ [x]) (.queue (.lock k)) = lists (.queue (.lock k)) :=
    move_other (by simp) (by simp)
  refine ⟨h.locks, h.cvars.set rfl hCvar hInUse, fun k hk => ?_, fun k hk => ?_, fun k hk => ?_,
    fun c' p hp => ?_, h.pid⟩
  · simp only [hLocks, hBindings]
    exact h.lock k hk
  · rw [hLocks]
    exact h.lock_unused k hk
  · have he : k ≠ c := by
      rintro rfl
      simp [Table.set, hInUse] at hk
    rw [move_other (by simp) (by simpa using he)]
    exact h.cvar_unused k (by simpa [Table.set, Function.update_of_ne he] using hk)
  · rw [mem_move_iff hPlacement.placed (by simp) hSource hTarget] at hp
    rcases hp with ⟨hNe, hp⟩ | ⟨rfl, -⟩
    · simpa [Function.update_of_ne hNe] using h.waiter c' p hp
    · simpa using ⟨hLock, hPid⟩

/-- The first waiter of a condition variable is taken off it. -/
theorem leave {c : Nat} {x : Proc} {rest : List Proc} (h : Sync S lists none) (cvar : Cvar)
    (hPlacement : Placement S lists) (hx : lists (.queue (.cvar c)) = x :: rest)
    (hHand : lists .hand = []) (hInUse : cvar.inUse = true) :
    Sync { S with cvars := S.cvars.set c cvar }
      (Apart.move lists (.queue (.cvar c)) .hand rest [x]) (some (S.cvarLockId x)) := by
  have hBindings := bindings_leave hPlacement.placed hx hHand (h.finite_bound hPlacement)
  have hSource : (lists (.queue (.cvar c))).Perm (x :: rest) := by rw [hx]
  have hTarget : [x].Perm (x :: lists .hand) := by rw [hHand]
  have hCvar : (S.cvars.entries c).inUse = true := by
    by_contra hUnused
    simp [h.cvar_unused c (by simpa using hUnused)] at hx
  have hLocks (k : Nat) : Apart.move lists (.queue (.cvar c)) .hand rest [x] (.queue (.lock k)) =
      lists (.queue (.lock k)) := move_other (by simp) (by simp)
  refine ⟨h.locks, h.cvars.set rfl hCvar hInUse, fun k hk => ?_, fun k hk => ?_, fun k hk => ?_,
    fun c' p hp => ?_, h.pid⟩
  · simp only [hLocks, hBindings]
    exact h.lock k hk
  · rw [hLocks]
    exact h.lock_unused k hk
  · have he : k ≠ c := by
      rintro rfl
      simp [Table.set, hInUse] at hk
    rw [move_other (by simpa using he) (by simp)]
    exact h.cvar_unused k (by simpa [Table.set, Function.update_of_ne he] using hk)
  · rw [mem_move_iff hPlacement.placed (by simp) hSource hTarget] at hp
    rcases hp with ⟨-, hp⟩ | ⟨-, hFalse⟩
    · exact h.waiter c' p hp
    · simp at hFalse

end Sync

namespace Inv

variable {s t : Kernel} {lists : Place → List Proc} {claim : Option Nat} {a : Place} {x : Proc}
  {id : Nat}

/-- A change of synchronization objects. -/
theorem of_sync {S : Shape} {others : Place → List Proc} {claim' : Option Nat} (h : Inv s lists claim)
    (hSync : Sync S others claim') (hSame : t.shape.sync = S.sync)
    (hPlacement : Placement t.shape others) (hPipes : t.pipes = s.pipes)
    (hLists : ∀ k, others (.queue (.pipe k)) = lists (.queue (.pipe k))) : Inv t others claim' := by
  refine ⟨hPlacement, hSync.congr hSame fun _ _ => rfl, hPipes ▸ h.pipes, fun k hk => ?_⟩
  rw [hLists]
  exact h.pipe_unused k (hPipes ▸ hk)

/-- Processes in different places have different pids. -/
theorem pid_ne {b : Place} {y : Proc} (h : Inv s lists claim) (hx : x ∈ lists a) (hy : y ∈ lists b)
    (hNe : a ≠ b) : (s.pcb y).pid ≠ (s.pcb x).pid := by
  intro hPid
  have hSame : y = x := h.sync.pid_inj (h.placement.live_of_mem hy) (h.placement.live_of_mem hx) hPid
  exact hNe (h.placement.placed.unique hx (hSame ▸ hy))

/-- Waiters on condition variables stay out of an array into which none of
their pids is written. -/
theorem waiter_not_mem {pids : List Nat} {p v : Nat} (h : Inv s lists claim)
    (hPerm : pids.Perm (v :: (s.locks.entries id).pids.erase p))
    (hv : ∀ c, ∀ y ∈ lists (.queue (.cvar c)), (s.pcb y).pid ≠ v) (c : Nat) (y : Proc)
    (hy : y ∈ lists (.queue (.cvar c))) (hLock : (s.pcb y).cvarLockId = id) :
    (s.pcb y).pid ∉ pids := by
  have hOld : (s.pcb y).pid ∉ (s.locks.entries id).pids := by
    have hWaiter := (h.sync.waiter c y hy).2
    simpa [Kernel.shape, hLock] using hWaiter
  rw [hPerm.mem_iff, List.mem_cons, not_or]
  exact ⟨hv c y hy, fun hMem => hOld (List.mem_of_mem_erase hMem)⟩

/-- `acquire` for a process that is in no queue. When a condition variable asks
for it, the process still counts as bound to the lock. -/
theorem acquire (h : Inv s lists claim) (id : Nat) (cvarUse : Bool) (ha : Placement.Free a) (hx : lists a = [x])
    (hClaim : claim = if cvarUse then some id else none) :
    (s.acquire id x cvarUse).2 = .error ∨
      ((s.acquire id x cvarUse).2 = .acquired ∧ Inv (s.acquire id x cvarUse).1 lists none) ∨
      ((s.acquire id x cvarUse).2 = .need ∧ Inv (s.acquire id x cvarUse).1
        (Apart.move lists a (.queue (.lock id)) [] (lists (.queue (.lock id)) ++ [x])) none) := by
  have hMem : x ∈ lists a := by simp [hx]
  have hPid : (s.pcb x).pid ≠ 0 := h.sync.pid_ne_zero (h.placement.live_of_mem hMem)
  unfold Kernel.acquire
  dsimp only
  split
  · exact Or.inl rfl
  rename_i hFail
  simp only [not_or, Bool.not_eq_false, Bool.not_eq_true] at hFail
  obtain ⟨-, hUse, hFound⟩ := hFail
  have hInv : LockInv (s.locks.entries id) (lists (.queue (.lock id))) (fun p => (s.pcb p).pid)
      (bindings (fun p => (s.pcb p).cvarLockId) lists claim id) := h.sync.lock id hUse
  have hFresh : (s.pcb x).pid ∉ (s.locks.entries id).pids := by
    rw [hInv.find_eq, find_fst] at hFound
    simpa using hFound
  have hNeeded : (if cvarUse = true then (s.locks.entries id).neededBy
      else (s.locks.entries id).neededBy + 1) = (s.locks.entries id).neededBy + 1 +
        bindings (fun p => (s.pcb p).cvarLockId) lists none id -
        bindings (fun p => (s.pcb p).cvarLockId) lists claim id := by
    subst hClaim
    cases cvarUse <;> simp [bindings]
    omega
  have hOther (k : Nat) (hk : k ≠ id) : (none : Option Nat) = some k ↔ claim = some k := by
    subst hClaim
    cases cvarUse <;> simp [Ne.symm hk]
  split
  · rename_i hVal
    have hPerm := find_perm (hInv.permits.mem_zero hVal) (s.pcb x).pid
    rw [← hInv.find_eq] at hPerm
    have hSync := h.sync.setLock (fun _ _ _ => rfl) (hInv.grant hVal hPid hFresh hNeeded) hUse hUse
      hOther (h.waiter_not_mem hPerm fun c y hy => h.pid_ne hMem hy (ha.ne_queue _).symm)
    have hPassed := h.placement.passes (q := .lock id) rfl (hInv.queue_nil hVal) x
    refine Or.inr (Or.inl ⟨rfl, h.of_sync hSync rfl ?_ rfl fun _ => rfl⟩)
    refine hPassed.congr rfl ?_ rfl rfl rfl rfl ?_
    · exact (Kernel.ends_setLock s id _).trans (Function.update_eq_self (.lock id) s.ends)
    · exact (Kernel.log_granted _ id x).trans
        (congrArg (fun log => logged log (.lock id) (.serve x)) (Kernel.log_requested s id x))
  · rename_i hVal
    have hNotMem : x ∉ lists (.queue (.lock id)) := h.placement.not_mem_queue ha hx _
    have hInsert := insert_eq_push (h.placement.linked (.lock id)) hNotMem
    have hLock := hInv.enqueue (x := x) hVal hFresh hNeeded
      (Synchronization.insert s.next (s.locks.entries id).ends x).2
    have hJoined : Apart.move lists a (.queue (.lock id)) [] (lists (.queue (.lock id)) ++ [x])
        (.queue (.lock id)) = lists (.queue (.lock id)) ++ [x] := move_target
    rw [← hJoined] at hLock
    have hSync := h.sync.setLock (fun b hb hNe => move_other ?_ hNe) hLock hUse hUse hOther ?_
    · refine Or.inr (Or.inr ⟨rfl, h.of_sync hSync rfl ?_ rfl fun k => ?_⟩)
      · refine h.placement.push ha hx (.lock id) ?_ ?_ (Placement.keep_length (by simp) rfl) rfl rfl rfl
          (Kernel.log_requested s id x)
        · exact congrArg Prod.fst hInsert
        · exact (Kernel.ends_setLock _ id _).trans
            (congrArg (fun pushed => Function.update s.ends (.lock id) (Prod.snd pushed)) hInsert)
      · exact move_other (ha.ne_queue _) (by simp)
    · rintro rfl
      simp [ha.isObject] at hb
    · intro c p hp hLock
      have hWaiter := (h.sync.waiter c p hp).2
      rwa [hLock] at hWaiter

/-- `release` by the running process. When it goes on to wait on a condition
variable, it stays bound to the lock. -/
theorem release {cvarUse : Bool} (h : Inv s lists none) (hx : lists .cpu = [x])
    (hHand : lists .hand = []) (hRelease : s.release id x cvarUse = (t, true)) :
    ∃ others, Inv t others (if cvarUse then some id else none) ∧
      Frame s t (Function.update lists (.queue (.lock id)) (lists (.queue (.lock id))).tail) others ∧
      others .cpu = [x] ∧ others .hand = [] ∧ (t.locks.entries id).inUse = true ∧
      (t.pcb x).pid ∉ (t.locks.entries id).pids := by
  have hMem : x ∈ lists .cpu := by simp [hx]
  have hPid : (s.pcb x).pid ≠ 0 := h.sync.pid_ne_zero (h.placement.live_of_mem hMem)
  unfold Kernel.release at hRelease
  dsimp only at hRelease
  split at hRelease
  · simp at hRelease
  rename_i hFail
  simp only [not_or, Bool.not_eq_false] at hFail
  obtain ⟨-, hUse, hFound⟩ := hFail
  have hInv : LockInv (s.locks.entries id) (lists (.queue (.lock id))) (fun p => (s.pcb p).pid)
      (bindings (fun p => (s.pcb p).cvarLockId) lists none id) := h.sync.lock id hUse
  have hHeld : (s.pcb x).pid ∈ (s.locks.entries id).pids := by
    rw [hInv.find_eq, find_fst] at hFound
    simpa using hFound
  have hNeeded : (if cvarUse = true then (s.locks.entries id).neededBy
      else (s.locks.entries id).neededBy - 1) = (s.locks.entries id).neededBy - 1 +
        bindings (fun p => (s.pcb p).cvarLockId) lists (if cvarUse then some id else none) id -
        bindings (fun p => (s.pcb p).cvarLockId) lists none id := by
    cases cvarUse <;> simp [bindings]
  have hOther (k : Nat) (hk : k ≠ id) :
      (if cvarUse then some id else none) = some k ↔ (none : Option Nat) = some k := by
    cases cvarUse <;> simp [Ne.symm hk]
  have hQueue : IsQueue s.next (s.locks.entries id).ends (lists (.queue (.lock id))) :=
    h.placement.linked (.lock id)
  cases hList : lists (.queue (.lock id)) with
  | nil =>
      rw [hList] at hQueue hInv
      have hPop : pop (s.emit (.lockReleased id x)).next (s.locks.entries id).ends =
        (none, s.next, (s.locks.entries id).ends) := hQueue.pop_nil
      rw [hPop] at hRelease
      obtain ⟨rfl, -⟩ := Prod.mk.inj hRelease
      obtain ⟨hLock, hGone⟩ := hInv.giveBack hPid hHeld hNeeded
      rw [← hList] at hLock
      have hPerm := find_perm hHeld 0
      rw [← hInv.find_eq] at hPerm
      have hSync := h.sync.setLock (fun _ _ _ => rfl) hLock hUse hUse hOther
        (h.waiter_not_mem hPerm fun c y hy => h.sync.pid_ne_zero (h.placement.live_of_mem hy))
      have hSame : Function.update lists (.queue (.lock id)) [] = lists := by
        rw [← hList, Function.update_eq_self]
      rw [List.tail_nil, hSame]
      refine ⟨lists, h.of_sync hSync rfl ?_ rfl fun _ => rfl, .refl rfl, hx, hHand, ?_, ?_⟩
      · refine h.placement.congr rfl ?_ rfl rfl rfl rfl (Kernel.log_emit_unlogged s rfl)
        exact (Kernel.ends_setLock s id _).trans (Function.update_eq_self (.lock id) s.ends)
      · simpa [Kernel.setLock, Table.set] using hUse
      · simpa [Kernel.setLock, Table.set, Kernel.emit] using hGone
  | cons waiter rest =>
      rw [hList] at hQueue hInv
      have hFirst : waiter ∈ lists (.queue (.lock id)) := by simp [hList]
      have hPop : pop (s.emit (.lockReleased id x)).next (s.locks.entries id).ends =
          (some waiter, (pop s.next (s.locks.entries id).ends).2.1,
            (pop s.next (s.locks.entries id).ends).2.2) := Prod.ext hQueue.pop_fst rfl
      rw [hPop] at hRelease
      obtain ⟨rfl, -⟩ := Prod.mk.inj hRelease
      have hDistinct : ∀ q ∈ rest, (s.pcb q).pid ≠ (s.pcb waiter).pid := by
        intro q hq hSame
        have hQ : q ∈ lists (.queue (.lock id)) := by simp [hList, hq]
        obtain rfl := h.sync.pid_inj (h.placement.live_of_mem hQ) (h.placement.live_of_mem hFirst) hSame
        have hNodup := h.placement.placed.nodup (.queue (.lock id))
        rw [hList] at hNodup
        exact (List.nodup_cons.mp hNodup).1 hq
      obtain ⟨hLock, hGone⟩ := hInv.handOver hPid hHeld
        (h.sync.pid_ne_zero (h.placement.live_of_mem hFirst)) hDistinct hNeeded
        (pop s.next (s.locks.entries id).ends).2.2
      have hPerm := find_perm hHeld (s.pcb waiter).pid
      rw [← hInv.find_eq] at hPerm
      have hLeft : Apart.move lists (.queue (.lock id)) .hand rest [waiter] (.queue (.lock id)) = rest :=
        move_source (by simp)
      rw [← hLeft] at hLock
      have hSync := h.sync.setLock (fun b hb hNe => move_other hNe ?_) hLock hUse hUse hOther
        (h.waiter_not_mem hPerm fun c y hy => h.pid_ne hFirst hy (by simp))
      · have hPopped : Inv ((((s.emit (.lockReleased id x)).setNext _).setLock id _).emit
            (.lockGranted id waiter)) _ _ :=
          h.of_sync (t := (((s.emit (.lockReleased id x)).setNext
            (pop s.next (s.locks.entries id).ends).2.1).setLock id _).emit _) hSync rfl ?_ rfl ?_
        · have hLive := Kernel.live_of_sync (Kernel.sync_scheduleProcess
            (hPopped.placement.live_of_mem (a := .hand) (x := waiter) (by simp)))
          refine ⟨_, hPopped.scheduleProcess (Or.inr rfl) move_target,
            ⟨(Calm.move_from rfl _ _).trans (.move rfl rfl _ _), hLive⟩, ?_, move_source (by simp), ?_, ?_⟩
          · rw [move_other (by simp) (by simp), move_other (by simp) (by simp), hx]
          · simpa [Kernel.setLock, Table.set, Kernel.emit] using hUse
          · simpa [Kernel.setLock, Kernel.setNext, Table.set, Kernel.emit] using hGone
        · refine h.placement.pop hList hHand rfl
            (Kernel.ends_setLock (s.setNext _) id _) (Placement.keep_length_sub (by simp) rfl) rfl rfl rfl ?_
          exact (Kernel.log_granted _ id waiter).trans
            (congrArg (fun log => logged log (.lock id) (.serve waiter)) (Kernel.log_emit_unlogged s rfl))
        · exact fun k => move_other (by simp) (by simp)
      · rintro rfl
        simp [Place.isObject] at hb

/-- `wait_cvar` by the running process. -/
theorem waitCvar {cvarId : Nat} (h : Inv s lists none) (hx : lists .cpu = [x])
    (hHand : lists .hand = []) (hWait : s.waitCvar cvarId id x = (t, true)) :
    ∃ others, Inv t others none ∧
      Frame s t (Function.update (Function.update lists (.queue (.lock id))
        (lists (.queue (.lock id))).tail) (.queue (.cvar cvarId))
          (lists (.queue (.cvar cvarId)) ++ [x])) others ∧
      others .cpu = [] ∧ others .hand = [] := by
  unfold Kernel.waitCvar at hWait
  split at hWait
  · simp at hWait
  rename_i hFail
  simp only [not_or, Bool.not_eq_false] at hFail
  split at hWait
  · simp at hWait
  rename_i u hRelease
  obtain ⟨rfl, -⟩ := Prod.mk.inj hWait
  have hCvars : u.cvars = s.cvars := by
    have hSame := Kernel.cvars_release s id x true
    rwa [hRelease] at hSame
  obtain ⟨placed, hInv, hFrame, hCpu, hHand', hLock, hPid⟩ := h.release hx hHand hRelease
  have hNotMem : x ∉ placed (.queue (.cvar cvarId)) := hInv.placement.not_mem_queue (Or.inl rfl) hCpu _
  have hInsert := insert_eq_push (hInv.placement.linked (.cvar cvarId)) hNotMem
  have hBind := Kernel.shape_bind u x id
  have hLive := congrArg Shape.live hBind
  have hSync := hInv.sync.join { u.cvars.entries cvarId with
    ends := (Synchronization.insert u.next (u.cvars.entries cvarId).ends x).2 } hInv.placement hCpu
    (hCvars ▸ hFail.2) (hCvars ▸ hFail.2) hLock hPid
  refine ⟨_, hInv.of_sync hSync ?_ ?_ rfl fun k => move_other (by simp) (by simp),
    ⟨?_, hLive.trans hFrame.live⟩, move_source (by simp),
    by rw [move_other (by simp) (by simp), hHand']⟩
  · have hSame := congrArg (fun S : Shape => (S.locks, S.cvars.set cvarId { u.cvars.entries cvarId with
      ends := (Synchronization.insert u.next (u.cvars.entries cvarId).ends x).2 }, S.pid,
      S.cvarLockId, S.numPcbs, S.live)) hBind
    exact hSame
  · refine hInv.placement.push (Or.inl rfl) hCpu (.cvar cvarId) ?_ ?_
      (Placement.keep_length (by simp) rfl) rfl rfl hLive (Placement.keep_log rfl rfl)
    · exact congrArg Prod.fst hInsert
    · exact (Kernel.ends_setCvar _ cvarId _).trans
        (congrArg (fun pushed => Function.update u.ends (.cvar cvarId) (Prod.snd pushed)) hInsert)
  · have hQueue : placed (.queue (.cvar cvarId)) = lists (.queue (.cvar cvarId)) :=
      (hFrame.calm _ rfl).trans (Function.update_of_ne (by simp) _ _)
    rw [hQueue]
    exact (hFrame.calm.congr _ _).trans (.move_to rfl _ _)

/-- `acquire` fails for locks that are not in use and for their holders only. -/
theorem acquire_ne_error {cvarUse : Bool} (h : Inv s lists claim) (hUse : (s.locks.entries id).inUse = true)
    (hFree : (s.pcb x).pid ∉ (s.locks.entries id).pids) : (s.acquire id x cvarUse).2 ≠ .error := by
  have hSize : ¬s.locks.size ≤ id := fun hSize => by
    have hBlank : s.locks.entries id = .blank := h.sync.locks.beyond _ hSize
    simp [hBlank, Lock.blank] at hUse
  have hInv : LockInv (s.locks.entries id) _ _ _ := h.sync.lock _ hUse
  have hFound : (find (s.locks.entries id).pids (s.pcb x).pid
      (s.locks.entries id).capacity none).1 = false := by
    rw [hInv.find_eq, find_fst]
    simpa using hFree
  unfold Kernel.acquire
  dsimp only
  rw [if_neg (by simp [hSize, hUse, hFound])]
  split <;> simp

/-- A waiter taken off its condition variable does not hold its lock, and the
lock is still in use, so `acquire` does not fail. -/
theorem reacquire (h : Inv s lists (some (s.pcb x).cvarLockId)) (hx : lists .hand = [x])
    (hUse : (s.locks.entries (s.pcb x).cvarLockId).inUse = true)
    (hFree : (s.pcb x).pid ∉ (s.locks.entries (s.pcb x).cvarLockId).pids) :
    ∃ queue others, (queue = lists (.queue (.lock (s.pcb x).cvarLockId)) ∧
          (s.acquire (s.pcb x).cvarLockId x true).2 = .acquired ∨
        queue = lists (.queue (.lock (s.pcb x).cvarLockId)) ++ [x]) ∧
      Inv (s.reacquire x) others none ∧ Frame s (s.reacquire x)
        (Function.update lists (.queue (.lock (s.pcb x).cvarLockId)) queue) others ∧
      others .cpu = lists .cpu ∧ others .hand = [] := by
  have hLive := Kernel.live_acquire s (s.pcb x).cvarLockId x true
  unfold Kernel.reacquire
  rcases h.acquire _ true (Or.inr rfl) hx rfl with hError | ⟨hRes, hInv⟩ | ⟨hRes, hInv⟩
  · exact absurd hError (h.acquire_ne_error hUse hFree)
  · split
    · rename_i u hAcquire
      rw [hAcquire] at hInv hLive
      have hReady := Kernel.live_of_sync (Kernel.sync_scheduleProcess
        (hInv.placement.live_of_mem (a := .hand) (x := x) (by simp [hx])))
      refine ⟨_, _, Or.inl ⟨rfl, by rw [hAcquire]⟩, hInv.scheduleProcess (Or.inr rfl) hx, ?_,
        move_other (by simp) (by simp), move_source (by simp)⟩
      rw [Function.update_eq_self]
      exact .move rfl rfl (hReady.trans hLive)
    · rename_i u res hNot hAcquire
      rw [hAcquire] at hRes
      exact (hNot hRes).elim
  · split
    · rename_i u hAcquire
      simp [hAcquire] at hRes
    · rename_i u res hNot hAcquire
      rw [hAcquire] at hInv hLive
      exact ⟨_, _, Or.inr rfl, hInv, ⟨.move_to rfl _ _, hLive⟩, move_other (by simp) (by simp),
        move_source (by simp)⟩

/-- The turn of `signal_cvar` and `broadcast_cvar`: a waiter whose lock is free
becomes ready, any other one queues for the lock. It cannot be dropped. -/
theorem signal {cvarId : Nat} (h : Inv s lists none) (hHand : lists .hand = [])
    (hPop : s.popCvar cvarId = (t, some x)) :
    ∃ queue others, (queue = lists (.queue (.lock (s.pcb x).cvarLockId)) ∧
          (t.acquire (t.pcb x).cvarLockId x true).2 = .acquired ∨
        queue = lists (.queue (.lock (s.pcb x).cvarLockId)) ++ [x]) ∧
      Inv (t.reacquire x) others none ∧ Frame s (t.reacquire x)
        (Function.update (Function.update lists (.queue (.cvar cvarId))
          (lists (.queue (.cvar cvarId))).tail) (.queue (.lock (s.pcb x).cvarLockId)) queue) others ∧
      x ∈ (lists (.queue (.cvar cvarId))).head? ∧ others .cpu = lists .cpu ∧ others .hand = [] := by
  have hQueue : IsQueue s.next (s.cvars.entries cvarId).ends (lists (.queue (.cvar cvarId))) :=
    h.placement.linked (.cvar cvarId)
  unfold Kernel.popCvar at hPop
  cases hList : lists (.queue (.cvar cvarId)) with
  | nil =>
      rw [hList] at hQueue
      simp [hQueue.pop_nil] at hPop
  | cons waiter rest =>
      rw [hList] at hQueue
      have hSplit : pop s.next (s.cvars.entries cvarId).ends =
          (some waiter, (pop s.next (s.cvars.entries cvarId).ends).2.1,
            (pop s.next (s.cvars.entries cvarId).ends).2.2) := Prod.ext hQueue.pop_fst rfl
      dsimp only at hPop
      rw [hSplit] at hPop
      obtain ⟨rfl, hWaiter⟩ := Prod.mk.inj hPop
      obtain rfl := Option.some.inj hWaiter
      have hInUse : (s.cvars.entries cvarId).inUse = true := by
        by_contra hUnused
        have hNil := h.sync.cvar_unused cvarId (Bool.eq_false_iff.mpr hUnused)
        simp [hNil] at hList
      have hSync := h.sync.leave { s.cvars.entries cvarId with
        ends := (pop s.next (s.cvars.entries cvarId).ends).2.2 } h.placement hList hHand hInUse
      have hPlaced : Placement ((s.setNext (pop s.next (s.cvars.entries cvarId).ends).2.1).setCvar cvarId
          { s.cvars.entries cvarId with
            ends := (pop s.next (s.cvars.entries cvarId).ends).2.2 }).shape
          (Apart.move lists (.queue (.cvar cvarId)) .hand rest [waiter]) :=
        h.placement.pop hList hHand rfl (Kernel.ends_setCvar (s.setNext _) cvarId _)
          (Placement.keep_length_sub (by simp) rfl) rfl rfl rfl (Placement.keep_log rfl rfl)
      have hHeld := h.of_sync hSync rfl hPlaced rfl fun k => move_other (by simp) (by simp)
      obtain ⟨hUse, hFree⟩ := h.sync.waiter cvarId waiter (by simp [hList])
      obtain ⟨queue, others, hJoined, hInv, hFrame, hCpu, hHand⟩ :=
        hHeld.reacquire move_target hUse hFree
      rw [move_other (by simp) (by simp)] at hJoined
      refine ⟨queue, others, hJoined, hInv, ⟨?_, hFrame.live⟩, by simp,
        hCpu.trans (move_other (by simp) (by simp)), hHand⟩
      exact ((Calm.move_from rfl _ _).congr _ _).trans hFrame.calm

end Inv
end Yalnix
