import Mathlib.Data.List.Nodup
import Mathlib.Logic.Function.Basic

/-! Queues threaded through one link field of their members. All queues share
the same `next` map, so an operation on one of them is only local as long as
no node is a member of two. -/
namespace IntrusiveQueue

variable {α : Type*} {ι : Type*}

/-- The two pointers a queue header stores. -/
structure Ends (α : Type*) where
  first : Option α
  last : Option α
  deriving DecidableEq, Repr

/-- The header of an empty queue. -/
def Ends.empty : Ends α := ⟨none, none⟩

/-- Following `next` from `start` visits exactly these nodes and then ends. -/
def Chain (next : α → Option α) : Option α → List α → Prop
  | start, [] => start = none
  | start, node :: rest => start = some node ∧ Chain next (next node) rest

/-- The header and the links represent this list of members. -/
def IsQueue (next : α → Option α) (ends : Ends α) (nodes : List α) : Prop :=
  Chain next ends.first nodes ∧ ends.last = nodes.getLast?

/-- The nodes met by following `next` at most `fuel` times. -/
def walk (next : α → Option α) : Nat → Option α → List α
  | 0, _ => []
  | _ + 1, none => []
  | fuel + 1, some node => node :: walk next fuel (next node)

@[simp] theorem walk_none (next : α → Option α) (fuel : Nat) : walk next fuel none = [] := by
  cases fuel <;> rfl

theorem Chain.congr {next next' : α → Option α} {start : Option α} {nodes : List α}
    (h : Chain next start nodes) (hSame : ∀ node ∈ nodes, next' node = next node) :
    Chain next' start nodes := by
  induction nodes generalizing start with
  | nil => exact h
  | cons node rest ih =>
      obtain ⟨hStart, hRest⟩ := h
      refine ⟨hStart, ?_⟩
      rw [hSame node (by simp)]
      exact ih hRest fun other hOther => hSame other (by simp [hOther])

theorem Chain.walk_eq {next : α → Option α} {start : Option α} {nodes : List α}
    (h : Chain next start nodes) {fuel : Nat} (hFuel : nodes.length ≤ fuel) :
    walk next fuel start = nodes := by
  induction nodes generalizing start fuel with
  | nil =>
      obtain rfl : start = none := h
      cases fuel <;> rfl
  | cons node rest ih =>
      obtain ⟨rfl, hRest⟩ := h
      cases fuel with
      | zero => simp at hFuel
      | succ fuel => simp [walk, ih hRest (by simpa using hFuel)]

/-- A chain is determined by its links and its start. -/
theorem Chain.unique {next : α → Option α} {start : Option α} {nodes others : List α}
    (h : Chain next start nodes) (h' : Chain next start others) : nodes = others := by
  have hLeft := h.walk_eq (Nat.le_max_left nodes.length others.length)
  have hRight := h'.walk_eq (Nat.le_max_right nodes.length others.length)
  exact hLeft.symm.trans hRight

/-- The last member has no successor. -/
theorem Chain.next_last {next : α → Option α} {start : Option α} {nodes : List α} {node : α}
    (h : Chain next start nodes) (hLast : nodes.getLast? = some node) : next node = none := by
  induction nodes generalizing start with
  | nil => cases hLast
  | cons head rest ih =>
      obtain ⟨-, hRest⟩ := h
      cases rest with
      | nil =>
          obtain rfl : head = node := by simpa using hLast
          exact hRest
      | cons second rest =>
          rw [List.getLast?_cons_cons] at hLast
          exact ih hRest hLast

theorem IsQueue.congr {next next' : α → Option α} {ends : Ends α} {nodes : List α}
    (h : IsQueue next ends nodes) (hSame : ∀ node ∈ nodes, next' node = next node) :
    IsQueue next' ends nodes :=
  ⟨h.1.congr hSame, h.2⟩

theorem isQueue_empty (next : α → Option α) : IsQueue next Ends.empty [] := ⟨rfl, rfl⟩

theorem IsQueue.first_eq {next : α → Option α} {ends : Ends α} {nodes : List α}
    (h : IsQueue next ends nodes) : ends.first = nodes.head? := by
  cases nodes with
  | nil => exact h.1
  | cons node rest => exact h.1.1

/-- Both pointers of a header agree on whether its queue is empty. -/
theorem IsQueue.first_eq_none_iff {next : α → Option α} {ends : Ends α} {nodes : List α}
    (h : IsQueue next ends nodes) : ends.first = none ↔ nodes = [] := by
  rw [h.first_eq, List.head?_eq_none_iff]

theorem IsQueue.last_eq_none_iff {next : α → Option α} {ends : Ends α} {nodes : List α}
    (h : IsQueue next ends nodes) : ends.last = none ↔ nodes = [] := by
  rw [h.2, List.getLast?_eq_none_iff]

/-- An empty queue has one header only. -/
theorem isQueue_nil_iff {next : α → Option α} {ends : Ends α} :
    IsQueue next ends [] ↔ ends = .empty := by
  cases ends
  simp [IsQueue, Chain, Ends.empty]

/-- A header that skips the first member represents the rest, also when the
link of that member is left as it is. -/
theorem IsQueue.advance {next : α → Option α} {ends : Ends α} {node : α} {rest : List α}
    (h : IsQueue next ends (node :: rest)) :
    IsQueue next ⟨next node, if next node = none then none else ends.last⟩ rest := by
  obtain ⟨⟨-, hRest⟩, hLast⟩ := h
  refine ⟨hRest, ?_⟩
  cases rest with
  | nil =>
      have hNull : next node = none := hRest
      simp [hNull]
  | cons second rest =>
      have hSome : next node = some second := hRest.1
      simpa [hSome, List.getLast?_cons_cons] using hLast

section Operations

variable [DecidableEq α]

/-- Append a node: link it behind the last member and cut its own link. -/
def push (next : α → Option α) (ends : Ends α) (node : α) : (α → Option α) × Ends α :=
  match ends.last with
  | none => (Function.update next node none, ⟨some node, some node⟩)
  | some tail =>
      (Function.update (Function.update next tail (some node)) node none,
        ⟨ends.first, some node⟩)

/-- Remove the first member and cut its link. -/
def pop (next : α → Option α) (ends : Ends α) : Option α × (α → Option α) × Ends α :=
  match ends.first with
  | none => (none, next, ends)
  | some node =>
      (some node, Function.update next node none,
        ⟨next node, if next node = none then none else ends.last⟩)

/-- Unlink `node`, whose predecessor in the queue is `prev`. -/
def unlink (next : α → Option α) (ends : Ends α) (prev : Option α) (node : α) :
    (α → Option α) × Ends α :=
  let links := match prev with
    | none => next
    | some before => Function.update next before (next node)
  (Function.update links node none,
    ⟨if prev = none then next node else ends.first,
      if ends.last = some node then prev else ends.last⟩)

/-- `push` changes only the link of the new node and of the old last member. -/
theorem push_next_of_ne {next : α → Option α} {ends : Ends α} {node other : α}
    (hNode : other ≠ node) (hLast : ends.last ≠ some other) :
    (push next ends node).1 other = next other := by
  unfold push
  cases hTail : ends.last with
  | none => simp [Function.update_of_ne hNode]
  | some tail =>
      have hOther : other ≠ tail := fun he => hLast (by rw [hTail, he])
      simp [Function.update_of_ne hNode, Function.update_of_ne hOther]

theorem pop_next_of_ne {next : α → Option α} {ends : Ends α} {other : α}
    (hFirst : ends.first ≠ some other) : (pop next ends).2.1 other = next other := by
  unfold pop
  cases hNode : ends.first with
  | none => rfl
  | some node =>
      have hOther : other ≠ node := fun he => hFirst (by rw [hNode, he])
      exact Function.update_of_ne hOther _ _

private theorem Chain.append {next : α → Option α} {start : Option α} {nodes : List α}
    {tail node : α} (h : Chain next start (nodes ++ [tail])) (hNodup : (nodes ++ [tail]).Nodup)
    (hNode : node ∉ nodes ++ [tail]) :
    Chain (Function.update (Function.update next tail (some node)) node none) start
      (nodes ++ [tail] ++ [node]) := by
  induction nodes generalizing start with
  | nil =>
      have hTail : tail ≠ node := fun he => hNode (by simp [he])
      obtain ⟨hStart, -⟩ := h
      exact ⟨hStart, by rw [Function.update_of_ne hTail]; simp, by simp [Chain]⟩
  | cons head rest ih =>
      obtain ⟨hStart, hRest⟩ := h
      simp only [List.cons_append, List.nodup_cons, List.mem_cons, not_or] at hNodup hNode
      have hHead : head ≠ tail := fun he => hNodup.1 (by simp [he])
      refine ⟨hStart, ?_⟩
      rw [Function.update_of_ne (Ne.symm hNode.1), Function.update_of_ne hHead]
      exact ih hRest hNodup.2 hNode.2

theorem IsQueue.push {next : α → Option α} {ends : Ends α} {nodes : List α} {node : α}
    (h : IsQueue next ends nodes) (hNodup : nodes.Nodup) (hNode : node ∉ nodes) :
    IsQueue (push next ends node).1 (push next ends node).2 (nodes ++ [node]) := by
  obtain ⟨hChain, hLast⟩ := h
  rcases List.eq_nil_or_concat nodes with rfl | ⟨front, tail, rfl⟩
  · simp only [List.getLast?_nil] at hLast
    simp [IntrusiveQueue.push, hLast, IsQueue, Chain]
  · simp only [List.concat_eq_append, List.getLast?_append, List.getLast?_singleton,
      Option.some_or] at hLast hChain hNodup hNode ⊢
    simp only [IntrusiveQueue.push, hLast]
    exact ⟨hChain.append hNodup hNode, by simp⟩

theorem IsQueue.pop_nil {next : α → Option α} {ends : Ends α}
    (h : IsQueue next ends []) : pop next ends = (none, next, ends) := by
  have hFirst : ends.first = none := h.1
  simp [IntrusiveQueue.pop, hFirst]

theorem IsQueue.pop_fst {next : α → Option α} {ends : Ends α} {node : α} {rest : List α}
    (h : IsQueue next ends (node :: rest)) : (pop next ends).1 = some node := by
  simp [IntrusiveQueue.pop, h.1.1]

theorem IsQueue.pop {next : α → Option α} {ends : Ends α} {node : α} {rest : List α}
    (h : IsQueue next ends (node :: rest)) (hNodup : (node :: rest).Nodup) :
    IsQueue (pop next ends).2.1 (pop next ends).2.2 rest := by
  have hNode : node ∉ rest := (List.nodup_cons.mp hNodup).1
  simp only [IntrusiveQueue.pop, h.1.1]
  refine h.advance.congr fun other hOther => Function.update_of_ne ?_ _ _
  rintro rfl
  exact hNode hOther

private theorem Chain.unlink {next : α → Option α} {start : Option α} {front back : List α}
    {before node : α} (h : Chain next start (front ++ [before] ++ node :: back))
    (hNodup : (front ++ [before] ++ node :: back).Nodup) :
    Chain (Function.update (Function.update next before (next node)) node none) start
      (front ++ [before] ++ back) := by
  induction front generalizing start with
  | nil =>
      obtain ⟨hStart, -, hBack⟩ := h
      simp only [List.nil_append, List.cons_append, List.nodup_cons, List.mem_cons,
        not_or] at hNodup
      refine ⟨hStart, ?_⟩
      rw [Function.update_of_ne hNodup.1.1, Function.update_self]
      refine hBack.congr fun other hOther => ?_
      have hNode : other ≠ node := by rintro rfl; exact hNodup.2.1 hOther
      have hBefore : other ≠ before := by rintro rfl; exact hNodup.1.2 hOther
      rw [Function.update_of_ne hNode, Function.update_of_ne hBefore]
  | cons head rest ih =>
      obtain ⟨hStart, hRest⟩ := h
      simp only [List.cons_append, List.nodup_cons] at hNodup
      have hNode : head ≠ node := by rintro rfl; exact hNodup.1 (by simp)
      have hBefore : head ≠ before := by rintro rfl; exact hNodup.1 (by simp)
      refine ⟨hStart, ?_⟩
      rw [Function.update_of_ne hNode, Function.update_of_ne hBefore]
      exact ih hRest hNodup.2

/-- Unlinking repairs the header whether the node is first, last, both or
neither. The predecessor is the last of the nodes in front of it. -/
theorem IsQueue.unlink {next : α → Option α} {ends : Ends α} {front back : List α} {node : α}
    (h : IsQueue next ends (front ++ node :: back)) (hNodup : (front ++ node :: back).Nodup) :
    IsQueue (unlink next ends front.getLast? node).1 (unlink next ends front.getLast? node).2
      (front ++ back) := by
  have hLast : (if ends.last = some node then front.getLast? else ends.last) =
      (front ++ back).getLast? := by
    rw [h.2]
    cases back with
    | nil => simp
    | cons second back =>
        have hMem : node ∉ second :: back :=
          (List.nodup_cons.mp (List.nodup_append.mp hNodup).2.1).1
        have hNe : (front ++ node :: second :: back).getLast? ≠ some node := by
          rw [List.getLast?_append_of_ne_nil _ (by simp), List.getLast?_cons_cons]
          exact fun he => hMem (List.mem_of_getLast? he)
        rw [if_neg hNe, List.getLast?_append_of_ne_nil _ (by simp),
          List.getLast?_append_of_ne_nil _ (by simp), List.getLast?_cons_cons]
  rcases List.eq_nil_or_concat front with rfl | ⟨front, before, rfl⟩
  · have hNode : node ∉ back := (List.nodup_cons.mp hNodup).1
    refine ⟨?_, hLast⟩
    refine h.1.2.congr fun other hOther => Function.update_of_ne ?_ _ _
    rintro rfl
    exact hNode hOther
  · simp only [List.concat_eq_append] at h hNodup hLast ⊢
    refine ⟨?_, by simpa [IntrusiveQueue.unlink] using hLast⟩
    simpa [IntrusiveQueue.unlink] using h.1.unlink hNodup

theorem unlink_next_of_ne {next : α → Option α} {ends : Ends α} {prev : Option α}
    {node other : α} (hNode : other ≠ node) (hPrev : prev ≠ some other) :
    (unlink next ends prev node).1 other = next other := by
  unfold unlink
  cases prev with
  | none => simp [Function.update_of_ne hNode]
  | some before =>
      have hBefore : other ≠ before := fun he => hPrev (by rw [he])
      simp [Function.update_of_ne hNode, Function.update_of_ne hBefore]

end Operations
end IntrusiveQueue
