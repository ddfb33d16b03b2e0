import Yalnix.Process.Reaping
import Yalnix.Sample

/-! The three queues of the scheduler refine lists. All of them are threaded through
the `next` field of the control blocks, so an operation on one queue leaves the others
alone only because they have no member in common. -/
namespace Yalnix

open IntrusiveQueue Apart

namespace Kernel

variable {s t u : Kernel} {lists : QueueType → List Proc} {type : QueueType} {p : Proc}

/-- The headers and links of the scheduler represent these lists. -/
structure Queues (s : Kernel) (lists : QueueType → List Proc) : Prop where
  linked : Linked s.next (fun type => (s.queues type).ends) lists
  length : ∀ type, (s.queues type).length = (lists type).length
  placed : Placed lists

/-- What follows for one queue. The walk along `next` from `first` meets `length`
distinct control blocks, of which `last` is the one without a successor. -/
theorem Queues.walk (h : Queues s lists) (type : QueueType) :
    Chain s.next (s.queues type).ends.first (lists type) ∧
    (lists type).length = (s.queues type).length ∧ (lists type).Nodup ∧
    (s.queues type).ends.last = (lists type).getLast? ∧
    ∀ p, (s.queues type).ends.last = some p → s.next p = none := by
  obtain ⟨hChain, hLast⟩ := h.linked type
  refine ⟨hChain, (h.length type).symm, h.placed.nodup type, hLast, fun p hp => ?_⟩
  rw [hLast] at hp
  exact hChain.next_last hp

theorem Queues.congr (h : Queues s lists) (hQueues : t.queues = s.queues)
    (hNext : ∀ type, ∀ p ∈ lists type, t.next p = s.next p) : Queues t lists where
  linked type := by
    rw [hQueues]
    exact (h.linked type).congr (hNext type)
  length type := by
    rw [hQueues]
    exact h.length type
  placed := h.placed

/-- One header, the links and one list change together. -/
theorem Queues.update {next : Proc → Option Proc} {ends : Ends Proc} {length : Nat} {nodes : List Proc}
    (h : Queues s lists) (hPlaced : Placed (Function.update lists type nodes)) (hLength : length = nodes.length)
    (hLinked : Linked next (Function.update (fun type => (s.queues type).ends) type ends)
      (Function.update lists type nodes)) :
    Queues { s with next := next, queues := Function.update s.queues type ⟨ends, length⟩ }
      (Function.update lists type nodes) where
  linked := by
    intro other
    have hOther := hLinked other
    by_cases ho : other = type
    · subst ho
      simpa using hOther
    · simpa [Function.update_of_ne ho] using hOther
  length other := by
    by_cases ho : other = type
    · subst ho
      simpa using hLength
    · simpa [Function.update_of_ne ho] using h.length other
  placed := hPlaced

/-- `enque_process` appends at the tail. -/
theorem Queues.enqueProcess (h : Queues s lists) (type : QueueType) (hNew : ∀ other, p ∉ lists other) :
    Queues (s.enqueProcess type p) (Function.update lists type (lists type ++ [p])) := by
  rw [enqueProcess_of_queue (h.linked type) (h.length type) p]
  refine h.update ?_ ?_ (h.linked.push h.placed hNew)
  · exact h.placed.add hNew (List.perm_append_singleton p (lists type))
  · rw [h.length type, List.length_append, List.length_singleton]

theorem dequeProcess_nil (h : Queues s lists) (hNil : lists .main = []) : s.dequeProcess = (s, none) := by
  have hLength := h.length .main
  rw [hNil] at hLength
  simp [Kernel.dequeProcess, hLength]

/-- `deque_process` removes the head. -/
theorem Queues.dequeProcess {rest : List Proc} (h : Queues s lists) (hHead : lists .main = p :: rest) :
    ∃ t, s.dequeProcess = (t, some p) ∧ Queues t (Function.update lists .main rest) ∧ t.next p = none ∧
      ∀ other ≠ .main, t.queues other = s.queues other := by
  have hQueue := h.linked .main
  have hLength := h.length .main
  rw [hHead] at hQueue hLength
  refine ⟨_, dequeProcess_of_queue hQueue hLength, ?_, ?_, fun other hOther => Function.update_of_ne hOther _ _⟩
  · have hPerm : (lists .main).Perm (p :: rest) := hHead ▸ List.Perm.refl (p :: rest)
    refine h.update (h.placed.remove hPerm).1 ?_ (h.linked.pop h.placed hHead)
    rw [hLength, List.length_cons, Nat.add_sub_cancel]
  · show (pop s.next (s.queues .main).ends).2.1 p = none
    simp [pop, hQueue.1.1]

section Find

variable {cond : Kernel → Proc → Option Kernel}

/-- Nobody in the queue satisfies the condition. -/
theorem findBlockedFrom_none {fuel : Nat} {prev curr : Option Proc} {nodes : List Proc}
    (hChain : Chain s.next curr nodes) (hNone : ∀ q ∈ nodes, cond s q = none) :
    s.findBlockedFrom type cond fuel prev curr = (s, none) := by
  induction nodes generalizing fuel prev curr with
  | nil =>
      obtain rfl : curr = none := hChain
      cases fuel <;> rfl
  | cons node nodes ih =>
      obtain ⟨rfl, hRest⟩ := hChain
      cases fuel with
      | zero => rfl
      | succ fuel =>
          unfold findBlockedFrom
          rw [hNone node (by simp)]
          exact ih hRest fun q hq => hNone q (by simp [hq])

/-- The walk stops at the first member that satisfies the condition. -/
theorem findBlockedFrom_first {fuel : Nat} {prev curr : Option Proc} {front back : List Proc}
    (hChain : Chain s.next curr (front ++ p :: back)) (hFront : ∀ q ∈ front, cond s q = none)
    (hCond : cond s p = some u) (hFuel : front.length < fuel) :
    s.findBlockedFrom type cond fuel prev curr = ({ u with
      next := (unlink u.next (u.queues type).ends (front.getLast?.or prev) p).1
      queues := Function.update u.queues type
        ⟨(unlink u.next (u.queues type).ends (front.getLast?.or prev) p).2, (u.queues type).length - 1⟩ },
      some p) := by
  induction front generalizing fuel prev curr with
  | nil =>
      obtain ⟨rfl, -⟩ := hChain
      cases fuel with
      | zero => cases hFuel
      | succ fuel =>
          unfold findBlockedFrom
          rw [hCond]
          rfl
  | cons node front ih =>
      obtain ⟨rfl, hRest⟩ := hChain
      cases fuel with
      | zero => cases hFuel
      | succ fuel =>
          have hPrev : (node :: front).getLast?.or prev = front.getLast?.or (some node) := by
            cases front with
            | nil => simp
            | cons other front => simp [List.getLast?_cons]
          unfold findBlockedFrom
          rw [hFront node (by simp), hPrev]
          exact ih hRest (fun q hq => hFront q (by simp [hq])) (Nat.lt_of_succ_lt_succ hFuel)

/-- The condition may change the kernel, but not the queues. -/
def SparesQueues (s : Kernel) (cond : Kernel → Proc → Option Kernel) : Prop :=
  ∀ p u, cond s p = some u → u.next = s.next ∧ u.queues = s.queues

theorem sparesQueues_waitUnblockCond (shrinkOk : Bool) : s.SparesQueues (waitUnblockCond shrinkOk) := by
  intro p u hCond
  obtain ⟨⟨v, code⟩, hFound, rfl⟩ := Option.map_eq_some_iff.mp hCond
  have hQuiet := Quiet.findExitedChild hFound
  exact ⟨hQuiet.next, hQuiet.queues⟩

/-- `find_blocked_process` removes the first member that satisfies the condition, and
keeps the order of the others. -/
theorem Queues.findBlockedProcess {front back : List Proc} (h : Queues s lists) (hSpares : s.SparesQueues cond)
    (hSplit : lists type = front ++ p :: back) (hFront : ∀ q ∈ front, cond s q = none)
    (hCond : cond s p = some u) :
    ∃ t, s.findBlockedProcess type cond = (t, some p) ∧
      Queues t (Function.update lists type (front ++ back)) ∧ t.next p = none ∧
      ∀ other ≠ type, t.queues other = s.queues other := by
  obtain ⟨hNext, hQueues⟩ := hSpares p u hCond
  have hu : Queues u lists := h.congr hQueues fun _ q _ => congrFun hNext q
  have hChain := (h.linked type).1
  rw [hSplit] at hChain
  have hFuel : front.length < (s.queues type).length := by
    rw [h.length type, hSplit]
    simp
  refine ⟨_, findBlockedFrom_first hChain hFront hCond hFuel, ?_, ?_, fun other hOther => ?_⟩
  · rw [Option.or_none]
    have hPerm : (lists type).Perm (p :: (front ++ back)) := hSplit ▸ List.perm_middle
    refine hu.update (hu.placed.remove hPerm).1 ?_ (hu.linked.unlink hu.placed hSplit)
    rw [hu.length type, hSplit]
    simp
  · simp [unlink]
  · rw [← hQueues]
    exact Function.update_of_ne hOther _ _

end Find

/-- The lists that result from operations on empty queues. In between, code that leaves
the headers and the links of queued processes alone may do anything else. -/
inductive Queued : Kernel → (QueueType → List Proc) → Prop where
  | created {s : Kernel} (h : ∀ type, s.queues type = ⟨.empty, 0⟩) : Queued s fun _ => []
  | enqued {s : Kernel} {lists : QueueType → List Proc} {type : QueueType} {p : Proc} (prior : Queued s lists)
      (hNew : ∀ other, p ∉ lists other) :
      Queued (s.enqueProcess type p) (Function.update lists type (lists type ++ [p]))
  | dequed {s : Kernel} {lists : QueueType → List Proc} (prior : Queued s lists) :
      Queued s.dequeProcess.1 (Function.update lists .main (lists .main).tail)
  | found {s : Kernel} {lists : QueueType → List Proc} {type : QueueType} {cond : Kernel → Proc → Option Kernel}
      (prior : Queued s lists) (hSpares : s.SparesQueues cond) :
      Queued (s.findBlockedProcess type cond).1
        (Function.update lists type ((lists type).eraseP fun p => (cond s p).isSome))
  | other {s t : Kernel} {lists : QueueType → List Proc} (prior : Queued s lists) (hQueues : t.queues = s.queues)
      (hNext : ∀ type, ∀ p ∈ lists type, t.next p = s.next p) : Queued t lists

/-- Either nobody in a list satisfies the condition, or there is a first one. -/
theorem first_cases (cond : Kernel → Proc → Option Kernel) (s : Kernel) (nodes : List Proc) :
    (∀ p ∈ nodes, cond s p = none) ∨
      ∃ front p back u, nodes = front ++ p :: back ∧ (∀ q ∈ front, cond s q = none) ∧ cond s p = some u := by
  induction nodes with
  | nil => exact Or.inl (by simp)
  | cons node nodes ih =>
      cases hCond : cond s node with
      | some u => exact Or.inr ⟨[], node, nodes, u, rfl, by simp, hCond⟩
      | none =>
          rcases ih with hNone | ⟨front, p, back, u, rfl, hFront, hFound⟩
          · exact Or.inl (List.forall_mem_cons.mpr ⟨hCond, hNone⟩)
          · exact Or.inr ⟨node :: front, p, back, u, rfl, List.forall_mem_cons.mpr ⟨hCond, hFront⟩, hFound⟩

theorem Queued.queues (h : Queued s lists) : Queues s lists := by
  induction h with
  | @created s h =>
      refine ⟨fun type => ?_, fun type => ?_, ⟨fun _ => List.nodup_nil, fun hMem => absurd hMem (by simp)⟩⟩
      · show IsQueue s.next (s.queues type).ends []
        rw [h type]
        exact isQueue_empty s.next
      · rw [h type]
        rfl
  | enqued prior hNew ih => exact ih.enqueProcess _ hNew
  | @dequed s lists prior ih =>
      cases hList : lists .main with
      | nil =>
          rw [dequeProcess_nil ih hList, List.tail_nil, ← hList, Function.update_eq_self]
          exact ih
      | cons p rest =>
          obtain ⟨t, hDeque, hQueues, -⟩ := ih.dequeProcess hList
          rw [hDeque]
          exact hQueues
  | @found s lists type cond prior hSpares ih =>
      rcases first_cases cond s (lists type) with hNone | ⟨front, p, back, u, hSplit, hFront, hCond⟩
      · rw [show s.findBlockedProcess type cond = _ from findBlockedFrom_none (ih.linked type).1 hNone,
          List.eraseP_of_forall_not (by simpa using hNone), Function.update_eq_self]
        exact ih
      · obtain ⟨t, hFind, hQueues, -⟩ := ih.findBlockedProcess hSpares hSplit hFront hCond
        rw [hFind, hSplit, List.eraseP_append_right _ (by simpa using hFront),
          List.eraseP_cons_of_pos (by simp [hCond])]
        exact hQueues
  | other prior hQueues hNext ih => exact ih.congr hQueues hNext

end Kernel

/-- In every reachable state the queues of the scheduler represent the lists of the
processes that are ready or wait. -/
theorem KernelStart.queues_reachable [Hardware] {s : Kernel} (run : system.Reachable s) :
    s.Queues fun type => s.contents (.queue (.sched type)) := by
  have hPlacement := (sound_reachable run).settled.placement
  exact ⟨fun type => hPlacement.linked (.sched type), hPlacement.length,
    ⟨fun type => hPlacement.placed.nodup _, fun hp hq => by simpa using hPlacement.placed.unique hp hq⟩⟩

namespace Kernel

variable {s : Kernel} {lists : QueueType → List Proc}

/-- The queues of the scheduler are lists. After any operations, following `next` from
`first` meets `length` distinct control blocks and ends at `last`, and no control block
is in two queues. `enque_process` appends at the tail, `deque_process` removes the head,
`find_blocked_process` removes the first that satisfies the condition, and the other
queues stay as they are. -/
theorem queues_refine_lists (h : Queued s lists) :
    (∀ type, Chain s.next (s.queues type).ends.first (lists type) ∧
      (lists type).length = (s.queues type).length ∧ (lists type).Nodup ∧
      (s.queues type).ends.last = (lists type).getLast? ∧
      ∀ p, (s.queues type).ends.last = some p → s.next p = none) ∧
    (∀ type other, type ≠ other → (lists type).Disjoint (lists other)) ∧
    (∀ type p, (∀ other, p ∉ lists other) →
      Queues (s.enqueProcess type p) (Function.update lists type (lists type ++ [p])) ∧
      ∀ other ≠ type, (s.enqueProcess type p).queues other = s.queues other) ∧
    (lists .main = [] → s.dequeProcess = (s, none)) ∧
    (∀ p rest, lists .main = p :: rest → ∃ t, s.dequeProcess = (t, some p) ∧
      Queues t (Function.update lists .main rest) ∧ t.next p = none ∧
      ∀ other ≠ .main, t.queues other = s.queues other) ∧
    ∀ type cond, s.SparesQueues cond →
      ((∀ p ∈ lists type, cond s p = none) → s.findBlockedProcess type cond = (s, none)) ∧
      ∀ front p back u, lists type = front ++ p :: back → (∀ q ∈ front, cond s q = none) → cond s p = some u →
        ∃ t, s.findBlockedProcess type cond = (t, some p) ∧
          Queues t (Function.update lists type (front ++ back)) ∧ t.next p = none ∧
          ∀ other ≠ type, t.queues other = s.queues other := by
  have hQueues := h.queues
  refine ⟨hQueues.walk, ?_, ?_, dequeProcess_nil hQueues, fun p rest => hQueues.dequeProcess, ?_⟩
  · intro type other hOther p hp hq
    exact hOther (hQueues.placed.unique hp hq)
  · exact fun type p hNew => ⟨hQueues.enqueProcess type hNew, fun other hOther => Function.update_of_ne hOther _ _⟩
  · intro type cond hSpares
    refine ⟨fun hNone => findBlockedFrom_none (hQueues.linked type).1 hNone, ?_⟩
    exact fun front p back u hSplit hFront hCond => hQueues.findBlockedProcess hSpares hSplit hFront hCond

open Sample in
/-- The second of three waiting processes is found. -/
theorem queues_refine_lists_middle : ∃ s t : Kernel, s.findBlockedProcess .waitBlocking
    (fun s p => if p = 2 then some s else none) = (t, some 2) ∧ ∃ lists, Queues t lists ∧ lists .waitBlocking = [1, 3] := by
  let first := (KernelStart.image (context [])).enqueProcess .waitBlocking 1
  let second := first.enqueProcess .waitBlocking 2
  let third := second.enqueProcess .waitBlocking 3
  have hFirst : Queued first _ := .enqued (.created (s := KernelStart.image (context [])) fun _ => rfl) (by simp)
  have hSecond : Queued second _ := .enqued hFirst fun other => by cases other <;> decide
  have hThird : Queued third _ := .enqued hSecond fun other => by cases other <;> decide
  have hSpares : third.SparesQueues fun s p => if p = 2 then some s else none := by
    intro p u hCond
    dsimp only at hCond
    split_ifs at hCond
    obtain rfl := Option.some.inj hCond
    exact ⟨rfl, rfl⟩
  obtain ⟨-, -, -, -, -, hFind⟩ := queues_refine_lists hThird
  obtain ⟨t, hFound, hQueues, -⟩ := (hFind .waitBlocking _ hSpares).2 [1] 2 [3] third rfl (by simp) rfl
  exact ⟨third, t, hFound, _, hQueues, Function.update_self _ _ _⟩

end Kernel
end Yalnix
