import Mathlib.Data.Multiset.ZeroCons
import RelationalSolver.Stream.Basic

/-!
# Taking turns

A round of turns hands out the contexts that are ready and ends in the suspended
streams, unless a stream has aborted.  Of a stream that is put behind suspended ones
the turn comes after all of theirs, so the cyclic order of the streams is kept.
-/

namespace RelationalSolver.Stream

variable {s t : Stream} {queue others : List Stream} {ctx : Context}

/-- The contexts that are ready. -/
def heads : Stream → List Context
  | .ready ctx rest => ctx :: rest.heads
  | _ => []

/-- What is left of a stream once the contexts that are ready have been taken. -/
def tail : Stream → Stream
  | .ready _ rest => rest.tail
  | s => s

/-- The suspended work behind the contexts that are ready, if there is any. -/
def works : Stream → List Work
  | .ready _ rest => rest.works
  | .suspended work => [work]
  | _ => []

/-- The contexts that are ready end in a fault. -/
def isFaulty : Stream → Bool
  | .ready _ rest => rest.isFaulty
  | .aborted _ => true
  | _ => false

theorem tail_eq (sound : s.isFaulty = false) : s.tail = ofWorks s.works := by
  induction s using Stream.heads.induct with
  | case1 ctx rest ih => exact ih sound
  | case2 s notReady =>
      cases s with
      | ready ctx rest => exact absurd rfl (notReady ctx rest)
      | aborted fault => cases sound
      | empty => rfl
      | suspended work => rfl

theorem tail_ofWorks : ∀ works : List Work, (ofWorks works).tail = ofWorks works
  | [] => rfl
  | [_] => rfl
  | _ :: _ :: _ => rfl

theorem length_works_le : ∀ s : Stream, s.works.length ≤ 1
  | .ready _ rest => length_works_le rest
  | .suspended _ => Nat.le_refl 1
  | .empty => Nat.zero_le 1
  | .aborted _ => Nat.zero_le 1

theorem length_flatMap_works_le (queue : List Stream) :
    (queue.flatMap Stream.works).length ≤ queue.length := by
  induction queue with
  | nil => exact Nat.le_refl 0
  | cons s queue ih =>
      rw [List.flatMap_cons, List.length_append, List.length_cons, Nat.add_comm]
      exact Nat.add_le_add ih s.length_works_le

/-- Suspended streams have nothing ready. -/
theorem heads_suspended (works : List Work) (member : s ∈ works.map Stream.suspended) :
    s.heads = [] := by
  obtain ⟨work, _, rfl⟩ := List.mem_map.mp member
  rfl

theorem flatMap_works (works : List Work) :
    (works.map Stream.suspended).flatMap Stream.works = works := by
  induction works with
  | nil => rfl
  | cons work others ih =>
      rw [List.map_cons, List.flatMap_cons, ih]
      rfl

/-! ## Whose turn it is -/

theorem turnOf_suspended (passed works : List Work) (queue : List Stream) :
    turnOf passed (works.map .suspended ++ queue) = turnOf (passed ++ works) queue := by
  induction works generalizing passed with
  | nil => simp
  | cons work works ih =>
      rw [List.map_cons, List.cons_append, turnOf, ih]
      simp

theorem takeTurns_suspended (works : List Work) :
    takeTurns (works.map .suspended) = ofWorks works := by
  have turn := turnOf_suspended [] works []
  rw [List.append_nil] at turn
  rw [takeTurns_eq, turn]
  rfl

theorem takeTurns_empty (works : List Work) (queue : List Stream) :
    takeTurns (works.map .suspended ++ .empty :: queue) =
      takeTurns (queue ++ works.map .suspended) := by
  rw [takeTurns_eq, turnOf_suspended]
  rfl

theorem takeTurns_ready (works : List Work) (ctx : Context) (rest : Stream)
    (queue : List Stream) :
    takeTurns (works.map .suspended ++ .ready ctx rest :: queue) =
      .ready ctx (takeTurns (queue ++ works.map .suspended ++ [rest])) := by
  rw [takeTurns_eq, turnOf_suspended]
  rfl

theorem takeTurns_aborted (works : List Work) (fault : Fault) (queue : List Stream) :
    takeTurns (works.map .suspended ++ .aborted fault :: queue) = .aborted fault := by
  rw [takeTurns_eq, turnOf_suspended]
  rfl

/-- In a queue all streams are suspended, or there is a first that is not. -/
theorem suspended_or_first : ∀ queue : List Stream,
    (∃ works : List Work, queue = works.map .suspended) ∨
      ∃ (works : List Work) (s : Stream) (rest : List Stream),
        queue = works.map .suspended ++ s :: rest ∧ ∀ work, s ≠ .suspended work
  | [] => .inl ⟨[], rfl⟩
  | .suspended work :: queue => by
      rcases suspended_or_first queue with ⟨works, rfl⟩ | ⟨works, s, rest, rfl, first⟩
      · exact .inl ⟨work :: works, rfl⟩
      · exact .inr ⟨work :: works, s, rest, rfl, first⟩
  | .empty :: queue => .inr ⟨[], .empty, queue, rfl, nofun⟩
  | .ready ctx rest :: queue => .inr ⟨[], .ready ctx rest, queue, rfl, nofun⟩
  | .aborted fault :: queue => .inr ⟨[], .aborted fault, queue, rfl, nofun⟩

/-- Induction along the turns of a queue. -/
theorem turns_induction {motive : List Stream → Prop}
    (suspended : ∀ works : List Work, motive (works.map .suspended))
    (ended : ∀ (works : List Work) queue, motive (queue ++ works.map .suspended) →
      motive (works.map .suspended ++ .empty :: queue))
    (ready : ∀ (works : List Work) ctx rest queue,
      motive (queue ++ works.map .suspended ++ [rest]) →
      motive (works.map .suspended ++ .ready ctx rest :: queue))
    (aborted : ∀ (works : List Work) fault queue,
      motive (works.map .suspended ++ .aborted fault :: queue))
    (queue : List Stream) : motive queue := by
  induction moves : totalReadiness queue using Nat.strongRecOn generalizing queue with
  | ind moves ih =>
      rcases suspended_or_first queue with ⟨works, rfl⟩ | ⟨works, s, queue, rfl, first⟩
      · exact suspended works
      · simp only [totalReadiness_append, totalReadiness_suspended, totalReadiness_cons] at moves
        cases s with
        | empty =>
            apply ended
            apply ih _ _ _ rfl
            simp only [totalReadiness_append, totalReadiness_suspended]
            simp only [readiness] at moves
            omega
        | ready ctx rest =>
            apply ready
            apply ih _ _ _ rfl
            simp only [totalReadiness_append, totalReadiness_suspended, totalReadiness_cons,
              totalReadiness_nil]
            simp only [readiness] at moves
            omega
        | suspended work => exact absurd rfl (first work)
        | aborted fault => exact aborted works fault queue

/-! ## What a round hands out -/

/-- The stream whose turn it is is the one that is looked at, or one of the others. -/
theorem turn_perm {front back : List Stream} (same : (front ++ s :: back).Perm (t :: others)) :
    (s = t ∧ (back ++ front).Perm others) ∨
      ∃ remaining, others.Perm (s :: remaining) ∧ (back ++ front).Perm (t :: remaining) := by
  have turned : ((s :: back) ++ front).Perm (front ++ s :: back) := List.perm_append_comm
  have equal : s ::ₘ (↑(back ++ front) : Multiset Stream) = t ::ₘ ↑others :=
    Multiset.coe_eq_coe.mpr (turned.trans same)
  rcases Multiset.cons_eq_cons.mp equal with ⟨rfl, rest⟩ | ⟨_, remaining, rest, least⟩
  · exact .inl ⟨rfl, Multiset.coe_eq_coe.mp rest⟩
  · induction remaining using Quotient.inductionOn with
    | _ remaining =>
        exact .inr ⟨remaining, Multiset.coe_eq_coe.mp least, Multiset.coe_eq_coe.mp rest⟩

/-- A context that one stream has ready is handed out, unless another stream aborts. -/
theorem mem_heads_takeTurns (offered : ctx ∈ t.heads) (same : queue.Perm (t :: others))
    (sound : ∀ u ∈ others, u.isFaulty = false) : ctx ∈ (takeTurns queue).heads := by
  induction queue using turns_induction generalizing t others with
  | suspended works =>
      have member : t ∈ works.map Stream.suspended := same.mem_iff.mpr (List.mem_cons_self ..)
      rw [heads_suspended works member] at offered
      cases offered
  | ended works queue ih =>
      rw [takeTurns_empty]
      rcases turn_perm same with ⟨rfl, _⟩ | ⟨remaining, fewer, rest⟩
      · cases offered
      · exact ih offered rest fun u member =>
          sound u (fewer.mem_iff.mpr (List.mem_cons_of_mem _ member))
  | ready works next rest queue ih =>
      rw [takeTurns_ready]
      rcases turn_perm same with ⟨rfl, unchanged⟩ | ⟨remaining, fewer, unchanged⟩
      · rcases List.mem_cons.mp offered with rfl | later
        · exact List.mem_cons_self ..
        · apply List.mem_cons_of_mem
          apply ih later _ sound
          exact (unchanged.append_right [rest]).trans List.perm_append_comm
      · apply List.mem_cons_of_mem
        have permuted : (queue ++ works.map suspended ++ [rest]).Perm (t :: rest :: remaining) :=
          (unchanged.append_right [rest]).trans (List.Perm.cons t List.perm_append_comm)
        apply ih offered permuted
        rw [List.forall_mem_cons]
        refine ⟨sound (.ready next rest) (fewer.mem_iff.mpr (List.mem_cons_self ..)), ?_⟩
        exact fun u member => sound u (fewer.mem_iff.mpr (List.mem_cons_of_mem _ member))
  | aborted works fault queue =>
      rcases turn_perm same with ⟨rfl, _⟩ | ⟨remaining, fewer, _⟩
      · cases offered
      · cases sound (.aborted fault) (fewer.mem_iff.mpr (List.mem_cons_self ..))

/-- A round in which no stream aborts leaves the suspended work of all of them. -/
theorem tail_takeTurns (sound : ∀ s ∈ queue, s.isFaulty = false) :
    ∃ works, (takeTurns queue).tail = ofWorks works ∧ works.Perm (queue.flatMap Stream.works) := by
  induction queue using turns_induction with
  | suspended works =>
      rw [takeTurns_suspended, flatMap_works]
      exact ⟨works, tail_ofWorks works, .refl _⟩
  | ended works queue ih =>
      rw [takeTurns_empty]
      obtain ⟨left, tail, same⟩ := ih fun s member => sound s (by
        rw [List.mem_append, List.mem_cons]
        rw [List.mem_append] at member
        tauto)
      refine ⟨left, tail, same.trans ?_⟩
      rw [List.flatMap_append, List.flatMap_append, List.flatMap_cons]
      exact List.perm_append_comm
  | ready works ctx rest queue ih =>
      rw [takeTurns_ready]
      have here := sound (.ready ctx rest) (by simp)
      obtain ⟨left, tail, same⟩ := ih fun s member => by
        simp only [List.mem_append, List.mem_singleton] at member
        rcases member with (later | passed) | rfl
        · exact sound s (by simp [later])
        · exact sound s (List.mem_append_left _ passed)
        · exact here
      refine ⟨left, tail, same.trans ?_⟩
      simp only [List.flatMap_append, List.flatMap_cons, List.flatMap_nil, List.append_nil,
        Stream.works]
      rw [List.append_assoc]
      apply List.perm_append_comm.trans
      rw [List.append_assoc]
  | aborted works fault queue => cases sound (.aborted fault) (by simp)

/-- A stream behind suspended ones hands out what it has ready, and keeps its place. -/
theorem tail_takeTurns_behind (works : List Work) (sound : s.isFaulty = false) :
    (takeTurns (works.map .suspended ++ [s])).tail = ofWorks (works ++ s.works) := by
  induction s using Stream.heads.induct with
  | case1 ctx rest ih =>
      rw [takeTurns_ready]
      exact ih sound
  | case2 s notReady =>
      cases s with
      | ready ctx rest => exact absurd rfl (notReady ctx rest)
      | aborted fault => cases sound
      | empty =>
          change _ = ofWorks (works ++ [])
          rw [takeTurns_empty, List.nil_append, takeTurns_suspended, tail_ofWorks, List.append_nil]
      | suspended work =>
          have all : works.map Stream.suspended ++ [.suspended work] =
              (works ++ [work]).map .suspended := by simp
          rw [all, takeTurns_suspended, tail_ofWorks]
          rfl

/-! ## The loop

The first stream of the queue is taken off, and what is left of it is put behind the others.  A
suspended stream is put back as it is, so a pass of the loop need not make the queue shorter or any
stream smaller; but once around, a stream that is not suspended has made a move, and there are
finitely many of those. -/

section Loop

variable {heads : List Context} {passes : Nat}

/-- Contexts that are ready before a stream. -/
def chain (heads : List Context) (tail : Stream) : Stream := heads.foldr .ready tail

/-- The suspended work of a queue in which all streams are suspended. -/
def allSuspended : List Stream → Option (List Work)
  | [] => some []
  | .suspended work :: queue => (allSuspended queue).map (work :: ·)
  | _ => none

/-- One pass of the loop, with the contexts found so far: contexts and a queue to go on with, or
the stream that the loop comes to. -/
def pass (heads : List Context) : List Stream → (List Context × List Stream) ⊕ Stream
  | [] => .inr (chain heads .empty)
  | .empty :: queue => .inl (heads, queue)
  | .ready ctx rest :: queue => .inl (heads ++ [ctx], queue ++ [rest])
  | .aborted fault :: _ => .inr (chain heads (.aborted fault))
  | .suspended work :: queue =>
      match allSuspended queue with
      | some [] => .inr (chain heads (.suspended work))
      | some others => .inr (chain heads (.suspended (.turn work others)))
      | none => .inl (heads, queue ++ [.suspended work])

/-- What the loop comes to within so many passes. -/
def roundRobin : Nat → List Context → List Stream → Option Stream
  | 0, _, _ => none
  | passes + 1, heads, queue =>
      match pass heads queue with
      | .inl (heads, queue) => roundRobin passes heads queue
      | .inr s => some s

theorem allSuspended_suspended (works : List Work) :
    allSuspended (works.map .suspended) = some works := by
  induction works with
  | nil => rfl
  | cons work works ih => rw [List.map_cons, allSuspended, ih, Option.map_some]

/-- A queue in which a stream is not suspended is passed on. -/
theorem allSuspended_eq_none (works : List Work) (first : ∀ work, s ≠ .suspended work)
    (queue : List Stream) : allSuspended (works.map .suspended ++ s :: queue) = none := by
  induction works with
  | nil =>
      cases s with
      | suspended work => exact absurd rfl (first work)
      | empty => rfl
      | ready ctx rest => rfl
      | aborted fault => rfl
  | cons work works ih => rw [List.map_cons, List.cons_append, allSuspended, ih, Option.map_none]

/-- Suspended streams before one that is not are put behind it, one in each pass. -/
theorem roundRobin_rotate (works : List Work) (first : ∀ work, s ≠ .suspended work)
    (queue : List Stream) (heads : List Context) (passes : Nat) :
    roundRobin (works.length + passes) heads (works.map .suspended ++ s :: queue) =
      roundRobin passes heads (s :: queue ++ works.map .suspended) := by
  induction works generalizing queue with
  | nil => simp
  | cons work works ih =>
      have rotated : pass heads (.suspended work :: (works.map .suspended ++ s :: queue)) =
          .inl (heads, works.map .suspended ++ s :: (queue ++ [.suspended work])) := by
        rw [pass, allSuspended_eq_none works first]
        simp
      rw [List.length_cons, Nat.add_right_comm, List.map_cons, List.cons_append, roundRobin,
        rotated]
      dsimp only
      rw [ih]
      simp

/-- A queue in which all streams are suspended is handed back. -/
theorem roundRobin_suspended (works : List Work) (heads : List Context) (passes : Nat) :
    roundRobin (passes + 1) heads (works.map .suspended) = some (chain heads (ofWorks works)) := by
  rcases works with _ | ⟨work, _ | ⟨other, works⟩⟩
  · rfl
  · rfl
  · have all := allSuspended_suspended (other :: works)
    rw [List.map_cons] at all
    rw [roundRobin, List.map_cons, List.map_cons, pass, all]
    rfl

/-- Passes that are enough for one more move are enough to rotate and make it. -/
theorem exists_left {length moves : Nat} (works : List Work) (few : works.length < length)
    (enough : (moves + 1 + 1) * (length + 1) ≤ passes) :
    ∃ left, passes = works.length + (left + 1) ∧ (moves + 1) * (length + 1) ≤ left := by
  rw [Nat.add_mul (moves + 1), Nat.one_mul] at enough
  exact ⟨passes - works.length - 1, by omega, by omega⟩

/-- The loop comes to an end: within one turn of every stream, and one more of every stream for
each move that one of them makes. -/
theorem roundRobin_eq (enough : (totalReadiness queue + 1) * (queue.length + 1) ≤ passes) :
    roundRobin passes heads queue = some (chain heads (takeTurns queue)) := by
  induction queue using turns_induction generalizing passes heads with
  | suspended works =>
      obtain ⟨passes, rfl⟩ := Nat.exists_eq_succ_of_ne_zero (n := passes) fun none => by
        simp [none] at enough
      rw [takeTurns_suspended, roundRobin_suspended]
  | ended works queue ih =>
      have moves : totalReadiness (works.map .suspended ++ .empty :: queue) =
          totalReadiness queue + 1 := by
        simp [readiness, Nat.add_comm]
      rw [moves] at enough
      obtain ⟨left, rfl, later⟩ := exists_left works (by simp) enough
      rw [roundRobin_rotate (s := .empty) works (by simp), takeTurns_empty, List.cons_append,
        roundRobin]
      apply ih
      refine Nat.le_trans (Nat.mul_le_mul ?_ ?_) later
      · simp
      · simp
        omega
  | ready works ctx rest queue ih =>
      have moves : totalReadiness (works.map .suspended ++ .ready ctx rest :: queue) =
          readiness rest + totalReadiness queue + 1 := by
        simp [readiness]
        omega
      rw [moves] at enough
      obtain ⟨left, rfl, later⟩ := exists_left works (by simp) enough
      have chained : chain heads (ready ctx (takeTurns (queue ++ works.map suspended ++ [rest]))) =
          chain (heads ++ [ctx]) (takeTurns (queue ++ works.map suspended ++ [rest])) := by
        simp [chain]
      rw [roundRobin_rotate (s := .ready ctx rest) works (by simp), takeTurns_ready,
        List.cons_append, roundRobin, chained]
      apply ih
      refine Nat.le_trans (Nat.mul_le_mul ?_ ?_) later
      · simp
        omega
      · simp
        omega
  | aborted works fault queue =>
      have moves : totalReadiness (works.map .suspended ++ .aborted fault :: queue) =
          totalReadiness queue + 1 := by
        simp [readiness, Nat.add_comm]
      rw [moves] at enough
      obtain ⟨left, rfl, _⟩ := exists_left works (by simp) enough
      rw [roundRobin_rotate (s := .aborted fault) works (by simp), takeTurns_aborted]
      rfl

end Loop

end RelationalSolver.Stream
