import Yalnix.Process.Delay

/-! The sleep heap and the ready queue under any sequence of `put_to_sleep` and
`wake_sleepers`, whatever the wake-up times are and however the array is
resized. -/
namespace Yalnix

open IntrusiveQueue

namespace Kernel

/-- The processes on the ready queue. -/
def readyList (s : Kernel) : List Proc := walk s.next (s.queues .main).length (s.queues .main).ends.first

/-- The heap is in order, its array is large enough, and nobody is in it twice
or also on the ready queue, which is well formed. -/
structure SleepQueue (s : Kernel) : Prop where
  ordered : s.HeapOrdered
  size_le : s.sleepers.arr.size ≤ s.sleepers.currentSize
  size_pos : 0 < s.sleepers.currentSize
  distinct : (s.sleepers.arr.toList ++ s.readyList).Nodup
  queue : IsQueue s.next (s.queues .main).ends s.readyList
  length : (s.queues .main).length = s.readyList.length

namespace SleepQueue

variable {s t : Kernel} {p : Proc} {nodes : List Proc}

theorem readyList_eq (hQueue : IsQueue s.next (s.queues .main).ends nodes)
    (hLength : (s.queues .main).length = nodes.length) : s.readyList = nodes :=
  hQueue.1.walk_eq (Nat.le_of_eq hLength.symm)

/-- The ready queue is determined by the links and its header. -/
theorem congr (h : s.SleepQueue) (hOrdered : t.HeapOrdered) (hSleepers : t.sleepers = s.sleepers)
    (hNext : t.next = s.next) (hQueues : t.queues = s.queues) : t.SleepQueue := by
  have hReady : t.readyList = s.readyList := by rw [readyList, readyList, hNext, hQueues]
  constructor
  · exact hOrdered
  · rw [hSleepers]
    exact h.size_le
  · rw [hSleepers]
    exact h.size_pos
  · rw [hSleepers, hReady]
    exact h.distinct
  · rw [hReady, hNext, hQueues]
    exact h.queue
  · rw [hReady, hQueues]
    exact h.length

/-- A process that sleeps nowhere and is not ready goes to the end of the ready
queue. -/
theorem enque (h : s.SleepQueue) (hAwake : p ∉ s.sleepers.arr.toList) (hNew : p ∉ s.readyList) :
    (s.enqueProcess .main p).SleepQueue ∧ (s.enqueProcess .main p).readyList = s.readyList ++ [p] := by
  have hEnque := enqueProcess_of_queue h.queue h.length p
  have hNodup : s.readyList.Nodup := (List.nodup_append.mp h.distinct).2.1
  have hQueue := h.queue.push hNodup hNew
  have hReady : (s.enqueProcess .main p).readyList = s.readyList ++ [p] := by
    apply readyList_eq
    · rw [hEnque]
      simpa using hQueue
    · rw [hEnque]
      simp [h.length]
  refine ⟨⟨?_, ?_, ?_, ?_, ?_, ?_⟩, hReady⟩
  · exact h.ordered.congr rfl fun _ _ => rfl
  · exact h.size_le
  · exact h.size_pos
  · rw [hReady, ← List.append_assoc]
    refine List.Nodup.append h.distinct (List.nodup_singleton p) (List.disjoint_singleton.mpr ?_)
    exact fun hIn => (List.mem_append.mp hIn).elim hAwake hNew
  · rw [hReady, hEnque]
    simpa using hQueue
  · rw [hReady, hEnque]
    simp [h.length]

/-- The head of the ready queue is served. -/
theorem deque (h : s.SleepQueue) : s.dequeProcess.1.SleepQueue := by
  cases hReady : s.readyList with
  | nil =>
      have hEmpty : (s.queues .main).length = 0 := by rw [h.length, hReady, List.length_nil]
      have hSame : s.dequeProcess.1 = s := by
        unfold dequeProcess
        simp [hEmpty]
      rw [hSame]
      exact h
  | cons x rest =>
      have hQueue := h.queue
      have hLength := h.length
      rw [hReady] at hQueue hLength
      have hDeque := dequeProcess_of_queue hQueue hLength
      have hNodup : (x :: rest).Nodup := hReady ▸ (List.nodup_append.mp h.distinct).2.1
      have hRest := hQueue.pop hNodup
      have hNext : s.dequeProcess.1.readyList = rest := by
        apply readyList_eq
        · rw [hDeque]
          simpa using hRest
        · rw [hDeque]
          simp [hLength]
      have hDistinct := h.distinct
      rw [hReady] at hDistinct
      constructor
      · rw [hDeque]
        exact h.ordered.congr rfl fun _ _ => rfl
      · rw [hDeque]
        exact h.size_le
      · rw [hDeque]
        exact h.size_pos
      · rw [hNext, hDeque]
        exact hDistinct.sublist (List.Sublist.append (List.Sublist.refl _) (List.sublist_cons_self x rest))
      · rw [hNext, hDeque]
        simpa using hRest
      · rw [hNext, hDeque]
        simp [hLength]

theorem addToHeap_size {growOk : Bool} (h : s.SleepQueue) (hAdd : s.addToHeap p growOk = some t) :
    t.sleepers.arr.size ≤ t.sleepers.currentSize ∧ 0 < t.sleepers.currentSize := by
  have hSize := (perm_addToHeap hAdd).1.length_eq
  simp only [Array.length_toList, List.length_cons] at hSize
  have hLe := h.size_le
  have hPos := h.size_pos
  rw [hSize]
  unfold addToHeap at hAdd
  dsimp only at hAdd
  split_ifs at hAdd with hFull hMore
  · obtain rfl := Option.some.inj hAdd
    exact ⟨by dsimp only; omega, by dsimp only; omega⟩
  · obtain rfl := Option.some.inj hAdd
    exact ⟨by dsimp only; omega, by dsimp only; omega⟩

/-- `put_to_sleep` fails only when the array is full and cannot grow. -/
theorem addToHeap_none (h : s.SleepQueue) (p : Proc) (growOk : Bool) :
    s.addToHeap p growOk = none ↔ s.sleepers.arr.size = s.sleepers.currentSize ∧ growOk = false := by
  have hLe := h.size_le
  unfold addToHeap
  dsimp only
  split_ifs with hFull
  · simp [hFull.2]
    omega
  · simp only [false_iff]
    rintro ⟨hSize, hGrow⟩
    exact hFull ⟨by omega, hGrow⟩

/-- Setting the alarm of a process that does not sleep. -/
theorem alarm (h : s.SleepQueue) (hAwake : p ∉ s.sleepers.arr.toList) (f : Pcb → Pcb) :
    (s.modifyPcb p f).SleepQueue := by
  refine h.congr (h.ordered.congr rfl fun q hq => ?_) rfl rfl rfl
  have hNe : q ≠ p := by
    rintro rfl
    exact hAwake hq
  simp [modifyPcb, Function.update_of_ne hNe]

/-- What `put_to_sleep` does with a process that is neither asleep nor ready. -/
theorem putToSleep {ticks : Word} {growOk ok : Bool} (h : s.SleepQueue) (hAwake : p ∉ s.sleepers.arr.toList)
    (hNew : p ∉ s.readyList) (hSleep : s.putToSleep p ticks growOk = (t, ok)) :
    t.SleepQueue ∧ (ok = true → t.sleepers.arr.toList.Perm (p :: s.sleepers.arr.toList)) ∧
      (ok = false → t.sleepers = s.sleepers) ∧
      (ok = false ↔ s.sleepers.arr.size = s.sleepers.currentSize ∧ growOk = false) := by
  have hSet := h.alarm hAwake fun pcb => { pcb with wakeUp := s.numTicks + ticks, state := .waiting }
  have hFail : (s.modifyPcb p fun pcb => { pcb with wakeUp := s.numTicks + ticks, state := .waiting }).addToHeap p
      growOk = none ↔ s.sleepers.arr.size = s.sleepers.currentSize ∧ growOk = false := hSet.addToHeap_none p growOk
  unfold Kernel.putToSleep at hSleep
  dsimp only at hSleep
  split at hSleep
  · rename_i u hAdd
    obtain ⟨rfl, rfl⟩ := Prod.mk.inj hSleep
    have hPerm := (perm_addToHeap hAdd).1
    have hFrame := (perm_addToHeap hAdd).2
    obtain ⟨hSize, hPos⟩ := hSet.addToHeap_size hAdd
    have hReady : u.readyList = s.readyList := by
      rw [hFrame]
      rfl
    refine ⟨⟨hSet.ordered.addToHeap hAdd, hSize, hPos, ?_, ?_, ?_⟩, fun _ => hPerm, by simp, ?_⟩
    · rw [hReady]
      refine ((List.Perm.append_right _ hPerm).nodup_iff).mpr ?_
      exact List.nodup_cons.mpr ⟨fun hIn => (List.mem_append.mp hIn).elim hAwake hNew, h.distinct⟩
    · rw [hReady, hFrame]
      exact h.queue
    · rw [hReady, hFrame]
      exact h.length
    · rw [hAdd] at hFail
      simpa using hFail
  · rename_i hAdd
    obtain ⟨rfl, rfl⟩ := Prod.mk.inj hSleep
    rw [hAdd] at hFail
    refine ⟨?_, by simp, fun _ => rfl, by simpa using hFail⟩
    exact hSet.alarm hAwake _

/-- The array keeps its size or is halved. -/
theorem currentSize_removeFromHeap {shrinkOk : Bool} (hRemove : s.removeFromHeap shrinkOk = (t, some p)) :
    t.sleepers.currentSize = s.sleepers.currentSize ∨
      t.sleepers.arr.size < s.sleepers.currentSize / 2 ∧ heapMinSize < s.sleepers.currentSize ∧
        t.sleepers.currentSize = s.sleepers.currentSize / 2 := by
  unfold removeFromHeap at hRemove
  split at hRemove
  · cases hRemove
  · obtain ⟨rfl, -⟩ := Prod.mk.inj hRemove
    dsimp only
    split_ifs with hSmall
    · exact Or.inr ⟨hSmall.1, hSmall.2.1, rfl⟩
    · exact Or.inl rfl

/-- One round of `wake_sleepers`. -/
theorem wake (h : s.SleepQueue) {shrinkOk : Bool} (hRemove : s.removeFromHeap shrinkOk = (t, some p)) :
    (t.enqueProcess .main p).SleepQueue ∧ (t.enqueProcess .main p).readyList = s.readyList ++ [p] ∧
      s.sleepers.arr.toList.Perm (p :: (t.enqueProcess .main p).sleepers.arr.toList) := by
  obtain ⟨hPerm, hFrame⟩ := perm_removeFromHeap hRemove
  have hReady : t.readyList = s.readyList := by
    rw [hFrame]
    rfl
  have hLength := hPerm.length_eq
  simp only [Array.length_toList, List.length_cons] at hLength
  have hShrunk : t.sleepers.arr.size ≤ t.sleepers.currentSize ∧ 0 < t.sleepers.currentSize := by
    have hLe := h.size_le
    rcases currentSize_removeFromHeap hRemove with hSame | ⟨hSmall, hMin, hHalf⟩
    · have hPos := h.size_pos
      omega
    · unfold heapMinSize at hMin
      omega
  have hDistinct : (p :: (t.sleepers.arr.toList ++ t.readyList)).Nodup := by
    rw [hReady, ← List.cons_append]
    exact ((List.Perm.append_right _ hPerm).nodup_iff).mp h.distinct
  have hRest : t.SleepQueue := by
    refine ⟨h.ordered.removeFromHeap hRemove, hShrunk.1, hShrunk.2, (List.nodup_cons.mp hDistinct).2, ?_, ?_⟩
    · rw [hReady, hFrame]
      exact h.queue
    · rw [hReady, hFrame]
      exact h.length
  have hOut := (List.nodup_cons.mp hDistinct).1
  simp only [List.mem_append, not_or] at hOut
  obtain ⟨hEnque, hList⟩ := hRest.enque hOut.1 hOut.2
  exact ⟨hEnque, hReady ▸ hList, hPerm⟩

/-- The processes that a call of `wake_sleepers` wakes, in their order. -/
structure Woken (s t : Kernel) (woken : List Proc) : Prop where
  queue : t.SleepQueue
  ready : t.readyList = s.readyList ++ woken
  due : woken.Perm (s.sleepers.arr.toList.filter fun p => decide (s.Due p))
  sorted : woken.Pairwise fun p q => (s.pcb p).wakeUp.toInt ≤ (s.pcb q).wakeUp.toInt
  kept : t.sleepers.arr.toList.Perm (s.sleepers.arr.toList.filter fun p => !decide (s.Due p))

/-- When the root is not due, nobody is woken. -/
theorem Woken.nobody (h : s.SleepQueue) (hNone : ∀ p ∈ s.sleepers.arr.toList, ¬s.Due p) : Woken s s [] := by
  refine ⟨h, by simp, ?_, .nil, ?_⟩
  · rw [List.filter_eq_nil_iff.mpr fun p hp => by simpa using hNone p hp]
  · rw [List.filter_eq_self.mpr fun p hp => by simpa using hNone p hp]

/-- The root wakes up before those that are woken after it. -/
theorem Woken.next {u v : Kernel} {shrinkOk : Bool} {woken : List Proc} (h : s.SleepQueue)
    (hRemove : s.removeFromHeap shrinkOk = (t, some p)) (hRoot : s.sleepers.arr[0]? = some p) (hDue : s.Due p)
    (hNext : u = (t.enqueProcess .main p).emit (.ready p)) (hRest : Woken u v woken) : Woken s v (p :: woken) := by
  obtain ⟨-, hList, hPerm⟩ := h.wake hRemove
  have hReady : u.readyList = s.readyList ++ [p] := by
    rw [hNext]
    exact hList
  have hSleepers : u.sleepers = (t.enqueProcess .main p).sleepers := by
    rw [hNext]
    rfl
  have hPcb : u.pcb = s.pcb := by
    rw [hNext, (perm_removeFromHeap hRemove).2]
    rfl
  have hTicks : u.numTicks = s.numTicks := by
    rw [hNext, (perm_removeFromHeap hRemove).2]
    rfl
  have hTime : u.Due = s.Due := by
    funext q
    rw [Due, Due, hPcb, hTicks]
  rw [← hSleepers] at hPerm
  have hOld := hRest.due
  have hKept := hRest.kept
  simp only [hTime] at hOld hKept
  refine ⟨hRest.queue, ?_, ?_, ?_, ?_⟩
  · rw [hRest.ready, hReady, List.append_assoc]
    rfl
  · refine (hOld.cons p).trans ?_
    have hFilter := hPerm.filter fun p => decide (s.Due p)
    rw [List.filter_cons_of_pos (by simpa using hDue)] at hFilter
    exact hFilter.symm
  · refine List.pairwise_cons.mpr ⟨fun q hq => ?_, ?_⟩
    · have hIn : q ∈ s.sleepers.arr.toList :=
        hPerm.mem_iff.mpr (List.mem_cons_of_mem _ (List.mem_of_mem_filter (hOld.mem_iff.mp hq)))
      exact h.ordered.root_wakes_first hRoot hIn
    · have hSorted := hRest.sorted
      simp only [hPcb] at hSorted
      exact hSorted
  · refine hKept.trans ?_
    have hFilter := hPerm.filter fun p => !decide (s.Due p)
    rw [List.filter_cons_of_neg (by simpa using hDue)] at hFilter
    exact hFilter.symm

theorem wakeSleepers {fuel : Nat} (h : s.SleepQueue) (shrinkOk : Nat → Bool) (hFuel : s.sleepers.arr.size ≤ fuel) :
    ∃ woken, Woken s (s.wakeSleepers shrinkOk fuel) woken := by
  have hEmpty (hNone : s.sleepers.arr.size = 0) (p : Proc) (hp : p ∈ s.sleepers.arr.toList) : ¬s.Due p := by
    rw [Array.size_eq_zero_iff.mp hNone] at hp
    cases hp
  induction fuel generalizing s with
  | zero => exact ⟨[], .nobody h (hEmpty (Nat.le_zero.mp hFuel))⟩
  | succ fuel ih =>
      unfold Kernel.wakeSleepers
      split
      · rename_i hNone
        exact ⟨[], .nobody h (hEmpty (Nat.le_zero.mp (Array.getElem?_eq_none_iff.mp hNone)))⟩
      · rename_i root hRoot
        split_ifs with hDue
        · split
          · rename_i u hRemove
            simp [removeFromHeap, hRoot] at hRemove
          · rename_i u proc hRemove
            obtain rfl := removeFromHeap_root hRoot hRemove
            obtain ⟨hQueue, -, hPerm⟩ := h.wake hRemove
            have hLength := hPerm.length_eq
            simp only [Array.length_toList, List.length_cons] at hLength
            have hEmit : ((u.enqueProcess .main proc).emit (.ready proc)).SleepQueue :=
              hQueue.congr (hQueue.ordered.congr rfl fun _ _ => rfl) rfl rfl rfl
            have hLess : ((u.enqueProcess .main proc).emit (.ready proc)).sleepers.arr.size ≤ fuel := by
              rw [hLength] at hFuel
              exact Nat.le_of_succ_le_succ hFuel
            obtain ⟨woken, hWoken⟩ := ih hEmit hLess fun hNone p hp => by
              rw [Array.size_eq_zero_iff.mp hNone] at hp
              cases hp
            exact ⟨proc :: woken, hWoken.next h hRemove hRoot (BitVec.sle_iff_toInt_le.mp hDue) rfl⟩
        · have hLate : ¬s.Due root := fun hTime => hDue (BitVec.sle_iff_toInt_le.mpr hTime)
          exact ⟨[], .nobody h fun p hp => h.ordered.not_due hRoot hLate hp⟩

end SleepQueue

/-- What may happen to the sleep heap: a process is put to sleep, the clock
shows another time, the sleepers are woken, or the ready queue is served. -/
inductive SleepCall where
  | sleep (proc : Proc) (ticks : Word) (growOk : Bool)
  | clock (now : Word)
  | wake (shrinkOk : Nat → Bool)
  | serve

/-- A process that is put to sleep runs, so it is neither asleep nor ready. -/
def Sleepless (s : Kernel) (p : Proc) : Prop := p ∉ s.sleepers.arr.toList ∧ p ∉ s.readyList

instance (s : Kernel) (p : Proc) : Decidable (s.Sleepless p) := inferInstanceAs (Decidable (_ ∧ _))

/-- Every sequence of these calls, from an empty heap and an empty queue. -/
def sleepSystem : Transition.System Kernel SleepCall Unit where
  initial s := s.sleepers = ⟨#[], heapInitSize⟩ ∧ s.queues .main = ⟨.empty, 0⟩
  step s call :=
    match call with
    | .sleep p ticks growOk => if s.Sleepless p then .ok (s.putToSleep p ticks growOk).1 else .error ()
    | .clock now => .ok { s with numTicks := now }
    | .wake shrinkOk => .ok (s.wakeSleepers shrinkOk s.sleepers.arr.size)
    | .serve => .ok s.dequeProcess.1

theorem sleepQueue_reachable {s : Kernel} (run : sleepSystem.Reachable s) : s.SleepQueue := by
  refine run.invariant (I := SleepQueue) ?_ fun s call t _ h _ hStep => ?_
  · rintro s ⟨hSleepers, hMain⟩
    have hReady : s.readyList = [] := by simp [readyList, hMain, Ends.empty]
    constructor
    · intro j _ hj
      simp [hSleepers] at hj
    · simp [hSleepers]
    · simp [hSleepers, heapInitSize]
    · simp [hSleepers, hReady]
    · rw [hReady, hMain]
      exact isQueue_empty s.next
    · rw [hReady, hMain]
      rfl
  · cases call with
    | sleep p ticks growOk =>
        simp only [sleepSystem] at hStep
        split_ifs at hStep with hAwake
        obtain rfl := Except.ok.inj hStep
        exact (h.putToSleep hAwake.1 hAwake.2 rfl).1
    | clock now =>
        obtain rfl := Except.ok.inj hStep
        exact h.congr (h.ordered.congr rfl fun _ _ => rfl) rfl rfl rfl
    | wake shrinkOk =>
        obtain rfl := Except.ok.inj hStep
        exact (h.wakeSleepers shrinkOk (Nat.le_refl _)).choose_spec.queue
    | serve =>
        obtain rfl := Except.ok.inj hStep
        exact h.deque

/-- The sleep heap is a priority queue: putting a process to sleep adds it or
changes nothing, and the wake-ups take out exactly those whose time has come,
in the order of their times. -/
theorem sleep_queue {s : Kernel} (run : sleepSystem.Reachable s) :
    s.HeapOrdered ∧ s.sleepers.arr.size ≤ s.sleepers.currentSize ∧
    (∀ p ticks growOk, s.Sleepless p →
      let slept := s.putToSleep p ticks growOk
      (slept.2 = true → slept.1.sleepers.arr.toList.Perm (p :: s.sleepers.arr.toList)) ∧
      (slept.2 = false → slept.1.sleepers = s.sleepers) ∧
      (slept.2 = false ↔ s.sleepers.arr.size = s.sleepers.currentSize ∧ growOk = false)) ∧
    (∀ shrinkOk, ∃ woken : List Proc,
      let t := s.wakeSleepers shrinkOk s.sleepers.arr.size
      t.readyList = s.readyList ++ woken ∧ woken.Nodup ∧ (∀ p, p ∈ woken ↔ p ∈ s.sleepers.arr.toList ∧ s.Due p) ∧
      woken.Pairwise (fun p q => (s.pcb p).wakeUp.toInt ≤ (s.pcb q).wakeUp.toInt) ∧
      t.sleepers.arr.toList.Perm (s.sleepers.arr.toList.filter fun p => !decide (s.Due p))) := by
  have h := sleepQueue_reachable run
  refine ⟨h.ordered, h.size_le, fun p ticks growOk hAwake => ?_, fun shrinkOk => ?_⟩
  · exact (h.putToSleep hAwake.1 hAwake.2 rfl).2
  · obtain ⟨woken, hWoken⟩ := h.wakeSleepers shrinkOk (Nat.le_refl _)
    have hNodup := (List.nodup_append.mp h.distinct).1
    refine ⟨woken, hWoken.ready, hWoken.due.nodup_iff.mpr (hNodup.filter _), fun p => ?_, hWoken.sorted, hWoken.kept⟩
    rw [hWoken.due.mem_iff, List.mem_filter]
    simp

open Sample in
/-- Two sleepers, of which the one that came second is woken. -/
theorem sleep_queue_two : ∃ s : Kernel, sleepSystem.Reachable s ∧ s.sleepers.arr.toList = [4, 3] ∧ ¬s.Due 3 ∧
    ∃ woken, (s.wakeSleepers (fun _ => true) 2).readyList = s.readyList ++ woken ∧ 4 ∈ woken ∧ 3 ∉ woken := by
  have hRun : ∃ s : Kernel, sleepSystem.Reachable s ∧ s.sleepers.arr.toList = [4, 3] ∧ s.sleepers.arr.size = 2 ∧
      s.Due 4 ∧ ¬s.Due 3 :=
    Transition.System.exists_reachable (s := KernelStart.image (context []))
      [.sleep 3 5 true, .sleep 4 2 true, .clock 3] ⟨rfl, rfl⟩ (by decide +kernel)
  obtain ⟨s, run, hHeap, hSize, hDue, hLate⟩ := hRun
  obtain ⟨woken, hReady, -, hMem, -⟩ := (sleep_queue run).2.2.2 fun _ => true
  rw [hSize] at hReady
  refine ⟨s, run, hHeap, hLate, woken, hReady, ?_, fun hIn => hLate ((hMem 3).mp hIn).2⟩
  exact (hMem 4).mpr ⟨by simp [hHeap], hDue⟩

end Kernel
end Yalnix
