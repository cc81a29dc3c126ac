import RelationalSolver.Proofs.Stream.Observation
import RelationalSolver.Proofs.Stream.Turns

/-!
# Streams that take turns are merged

What is shown of streams that take turns is an interleaving of what they show themselves, and so
are the turns in which their suspensions are forced; no stream that is still suspended is more than
one turn behind another.  The end is the end of all of them, or the fault of one.
-/

namespace RelationalSolver

open Engine

/-- The list is put together from all elements of the lists, each list in its own order. -/
inductive Merges {α : Type} : List (List α) → List α → Prop
  | nil {parts : List (List α)} (nothing : ∀ part ∈ parts, part = []) : Merges parts []
  | cons {front back : List (List α)} {part merged : List α} (a : α)
      (rest : Merges (front ++ part :: back) merged) :
      Merges (front ++ (a :: part) :: back) (a :: merged)

namespace Merges

variable {α : Type} {parts others : List (List α)} {part merged : List α}

theorem perm (merges : Merges parts merged) (same : parts.Perm others) : Merges others merged := by
  induction merges generalizing others with
  | nil nothing => exact .nil fun part member => nothing part (same.mem_iff.mpr member)
  | @cons front back part merged a _ ih =>
      obtain ⟨left, right, rfl⟩ := List.append_of_mem (same.mem_iff.mp (List.mem_append_right _
        (List.mem_cons_self ..)))
      have rest : (front ++ back).Perm (left ++ right) := List.perm_cons (a :: part) |>.mp
        (List.perm_middle.symm.trans (same.trans List.perm_middle))
      apply cons
      apply ih
      exact List.perm_middle.trans ((rest.cons part).trans List.perm_middle.symm)

theorem cons_nil (merges : Merges parts merged) : Merges ([] :: parts) merged := by
  induction merges with
  | nil nothing => exact .nil (List.forall_mem_cons.mpr ⟨rfl, nothing⟩)
  | @cons front _ _ _ a _ ih => exact @cons _ ([] :: front) _ _ _ a ih

theorem sublist (merges : Merges parts merged) (member : part ∈ parts) : part.Sublist merged := by
  induction merges generalizing part with
  | nil nothing => exact nothing part member ▸ .refl []
  | @cons front back first merged a _ ih =>
      rw [List.mem_append, List.mem_cons] at member
      rcases member with before | rfl | after
      · exact .cons a (ih (by simp [before]))
      · exact .cons_cons a (ih (by simp))
      · exact .cons a (ih (by simp [after]))

theorem length (merges : Merges parts merged) : merged.length = (parts.map List.length).sum := by
  induction merges with
  | nil nothing =>
      refine (List.sum_eq_zero fun count member => ?_).symm
      obtain ⟨part, among, rfl⟩ := List.mem_map.mp member
      rw [nothing part among, List.length_nil]
  | cons a _ ih =>
      simp only [List.map_append, List.map_cons, List.sum_append, List.sum_cons,
        List.length_cons] at ih ⊢
      omega

end Merges

theorem forall₂_concat {α β : Type} {R : α → β → Prop} {xs : List α} {x : α} {ys : List β}
    (related : List.Forall₂ R (xs ++ [x]) ys) :
    ∃ zs y, ys = zs ++ [y] ∧ List.Forall₂ R (x :: xs) (y :: zs) := by
  induction xs generalizing ys with
  | nil =>
      cases related with
      | cons here there =>
          cases there
          exact ⟨[], _, rfl, .cons here .nil⟩
  | cons first xs ih =>
      cases related with
      | cons here there =>
          obtain ⟨zs, y, rfl, related⟩ := ih there
          obtain ⟨last, related⟩ := List.forall₂_cons.mp related
          exact ⟨_ :: zs, y, rfl, .cons last (.cons here related)⟩

/-- Turns of which each begins in the session that the one before it has ended in. -/
inductive Consecutive : Session → List (Session × Session) → Session → Prop
  | nil (before : Session) : Consecutive before [] before
  | cons {before between after : Session} {turns : List (Session × Session)}
      (rest : Consecutive between turns after) :
      Consecutive before ((before, between) :: turns) after

/-- How far a stream among others has come: its turns so far, the contexts it has handed out and
what is left of it. -/
structure Branch where
  turns : List (Session × Session)
  shown : List Context
  rest : Stream

variable {program : Program} {s t rest next last : Stream} {work : Work} {ctx : Context}
variable {queue siblings : List Stream} {works others : List Work}
variable {branch earlier later : Branch} {branches : List Branch}
variable {turns : List (Session × Session)} {shown : List Context}
variable {before between after finish : Session}

namespace Branch

/-- The stream comes this far by its own moves. -/
def Follows (program : Program) (s : Stream) (branch : Branch) : Prop :=
  s.Leads program branch.turns branch.shown branch.rest

/-- A stream that has made no move. -/
def start (s : Stream) : Branch := ⟨[], [], s⟩

/-- The stream is suspended, once the contexts that are ready have been taken. -/
def IsLive (branch : Branch) : Prop := branch.rest.works ≠ []

/-- Of two streams whose turns come one after the other, neither gets ahead while the other is
suspended, except that the earlier one may have had its next turn. -/
structure InStep (earlier later : Branch) : Prop where
  behind : earlier.IsLive → later.turns.length ≤ earlier.turns.length
  ahead : later.IsLive → earlier.turns.length ≤ later.turns.length + 1

/-- Before any turn all streams are in step. -/
theorem inStep_start (s t : Stream) : InStep (start s) (start t) :=
  ⟨fun _ => Nat.le_refl 0, fun _ => Nat.zero_le 1⟩

theorem pairwise_start (queue : List Stream) : (queue.map start).Pairwise InStep :=
  List.pairwise_map.mpr (List.pairwise_of_forall inStep_start)

/-- While a stream is suspended, no other is more than one turn ahead of it. -/
def Balanced (branches : List Branch) : Prop :=
  ∀ b ∈ branches, ∀ c ∈ branches, b.IsLive → c.turns.length ≤ b.turns.length + 1

theorem balanced_of_pairwise (inStep : branches.Pairwise InStep) : Balanced branches := by
  have both : branches.Pairwise fun b c => (b.IsLive → c.turns.length ≤ b.turns.length + 1) ∧
      (c.IsLive → b.turns.length ≤ c.turns.length + 1) :=
    inStep.imp fun pair => ⟨fun live => (pair.behind live).trans (Nat.le_succ _), pair.ahead⟩
  intro b member c memberToo live
  obtain ⟨i, inside, rfl⟩ := List.mem_iff_getElem.mp member
  obtain ⟨j, insideToo, rfl⟩ := List.mem_iff_getElem.mp memberToo
  rcases Nat.lt_trichotomy i j with before | rfl | after
  · exact (List.pairwise_iff_getElem.mp both i j inside insideToo before).1 live
  · exact Nat.le_succ _
  · exact (List.pairwise_iff_getElem.mp both j i insideToo inside after).2 live

/-- A stream that has ended without a turn changes nothing. -/
theorem Balanced.cons_ended (balanced : Balanced branches) :
    Balanced (.start .empty :: branches) := by
  intro b member c memberToo live
  rcases List.mem_cons.mp member with rfl | member
  · exact absurd rfl live
  · rcases List.mem_cons.mp memberToo with rfl | memberToo
    · exact Nat.zero_le _
    · exact balanced b member c memberToo live

/-- What a stream hands out changes nothing. -/
theorem Balanced.hand (balanced : Balanced (branch :: branches)) (ctx : Context) :
    Balanced ({ branch with shown := ctx :: branch.shown } :: branches) := by
  have each : ∀ b ∈ { branch with shown := ctx :: branch.shown } :: branches,
      ∃ c ∈ branch :: branches, b.turns = c.turns ∧ (b.IsLive → c.IsLive) := by
    rw [List.forall_mem_cons]
    exact ⟨⟨branch, by simp, rfl, id⟩, fun b member => ⟨b, by simp [member], rfl, id⟩⟩
  intro b member c memberToo live
  obtain ⟨d, inside, sameTurns, alive⟩ := each b member
  obtain ⟨e, insideToo, sameTurnsToo, _⟩ := each c memberToo
  rw [sameTurns, sameTurnsToo]
  exact balanced d inside e insideToo (alive live)

theorem Balanced.perm {others : List Branch} (balanced : Balanced branches)
    (same : others.Perm branches) : Balanced others :=
  fun b member c memberToo => balanced b (same.mem_iff.mp member) c (same.mem_iff.mp memberToo)

/-- In so many rounds, every stream that is still suspended has had as many turns. -/
theorem Balanced.fair (balanced : Balanced branches)
    (merges : Merges (branches.map (·.turns)) turns) (member : branch ∈ branches)
    (live : branch.IsLive) {rounds : ℕ} (enough : branches.length * rounds ≤ turns.length) :
    rounds ≤ branch.turns.length := by
  by_contra few
  have atMost : ∀ others ⊆ branches,
      ((others.map (·.turns)).map List.length).sum ≤ others.length * rounds := by
    intro others among
    induction others with
    | nil => exact Nat.zero_le _
    | cons other others ih =>
        obtain ⟨here, among⟩ := List.cons_subset.mp among
        have close := balanced branch member other here live
        have rest := ih among
        simp only [List.map_cons, List.sum_cons, List.length_cons, Nat.add_mul, Nat.one_mul]
        omega
  obtain ⟨front, back, rfl⟩ := List.append_of_mem member
  have before := atMost front (by simp)
  have after := atMost back (by simp)
  rw [merges.length] at enough
  simp only [List.map_append, List.map_cons, List.sum_append, List.sum_cons, List.length_append,
    List.length_cons, Nat.add_mul, Nat.one_mul] at enough
  omega

end Branch

namespace Stream

/-- Forcing the suspension stops short. -/
def Halts (program : Program) (s : Stream) (before : Session) : Prop :=
  ∃ work reason after, s = .suspended work ∧
    (work.force program).run.run before = (.error reason, after)

/-! ## Rounds -/

/-- A stream that is alone has every turn. -/
theorem takeTurns_singleton (s : Stream) : takeTurns [s] = s := by
  induction s using Stream.heads.induct with
  | case1 ctx rest ih => exact (takeTurns_ready [] ctx rest []).trans (congrArg _ ih)
  | case2 s notReady =>
      cases s with
      | ready ctx rest => exact absurd rfl (notReady ctx rest)
      | empty => exact (takeTurns_empty [] []).trans (takeTurns_suspended [])
      | suspended work => exact takeTurns_suspended [work]
      | aborted fault => exact takeTurns_aborted [] fault []

/-- In a round, a fault is come to. -/
theorem isFaulty_takeTurns (member : s ∈ queue) (faulty : s.isFaulty = true) :
    (takeTurns queue).isFaulty = true := by
  induction queue using turns_induction generalizing s with
  | suspended works =>
      obtain ⟨work, _, rfl⟩ := List.mem_map.mp member
      cases faulty
  | ended works queue ih =>
      rw [takeTurns_empty]
      rcases List.mem_append.mp member with passed | later
      · exact ih (List.mem_append_right _ passed) faulty
      · rcases List.mem_cons.mp later with rfl | later
        · cases faulty
        · exact ih (List.mem_append_left _ later) faulty
  | ready works ctx rest queue ih =>
      rw [takeTurns_ready]
      rcases List.mem_append.mp member with passed | later
      · exact ih (by simp [passed]) faulty
      · rcases List.mem_cons.mp later with rfl | later
        · exact ih (s := rest) (by simp) faulty
        · exact ih (by simp [later]) faulty
  | aborted works reason queue =>
      rw [takeTurns_aborted]
      rfl

/-- The fault of a round is that of a stream. -/
theorem mem_of_takeTurns_aborted {reason : Fault} (ends : takeTurns queue = .aborted reason) :
    .aborted reason ∈ queue := by
  induction queue using turns_induction with
  | suspended works =>
      rw [takeTurns_suspended] at ends
      rcases works with _ | ⟨_, _ | _⟩ <;> cases ends
  | ended works queue ih =>
      rw [takeTurns_empty] at ends
      have member := ih ends
      simp only [List.mem_append, List.mem_cons] at member ⊢
      tauto
  | ready works ctx rest queue =>
      rw [takeTurns_ready] at ends
      cases ends
  | aborted works other queue =>
      rw [takeTurns_aborted] at ends
      cases ends
      simp

/-- Streams that have not ended. -/
def unended (queue : List Stream) : List Stream := queue.filter (!·.isEmpty)

/-- A round with nothing ready leaves suspended streams only. -/
theorem unended_perm_of_takeTurns (nothing : (takeTurns queue).heads = [])
    (sound : (takeTurns queue).isFaulty = false) :
    ∃ works, takeTurns queue = ofWorks works ∧ (unended queue).Perm (works.map .suspended) := by
  induction queue using turns_induction with
  | suspended works =>
      refine ⟨works, takeTurns_suspended works, .of_eq ?_⟩
      simp [unended, isEmpty]
  | ended works queue ih =>
      rw [takeTurns_empty] at nothing sound ⊢
      obtain ⟨left, rounds, same⟩ := ih nothing sound
      refine ⟨left, rounds, .trans ?_ same⟩
      simp only [unended, List.filter_append, List.filter_cons, isEmpty]
      exact List.perm_append_comm
  | ready works ctx rest queue =>
      rw [takeTurns_ready] at nothing
      cases nothing
  | aborted works reason queue =>
      rw [takeTurns_aborted] at sound
      cases sound

/-! ## What the streams have to do with what is shown of them together -/

/-- Each stream has come as far as its branch.  The turns and the contexts shown are merged from
those of the branches, and what is left of the branches takes turns from then on. -/
structure Divides (program : Program) (queue : List Stream) (turns : List (Session × Session))
    (shown : List Context) (last : Stream) (branches : List Branch) : Prop where
  follows : List.Forall₂ (Branch.Follows program) queue branches
  turns : Merges (branches.map (·.turns)) turns
  shown : Merges (branches.map (·.shown)) shown
  left : ∃ queue, last = takeTurns queue ∧
    (unended queue).Perm (unended (branches.map (·.rest)))

namespace Divides

/-- Before any stream has made a move. -/
theorem start (queue : List Stream) :
    Divides program queue [] [] (takeTurns queue) (queue.map .start) where
  follows := by
    rw [List.forall₂_map_right_iff, List.forall₂_same]
    exact fun s _ => .here s
  turns := .nil (by simp [Branch.start])
  shown := .nil (by simp [Branch.start])
  left := ⟨queue, rfl, by simp [Branch.start, Function.comp_def]⟩

theorem perm (divides : Divides program queue turns shown last branches)
    (same : siblings.Perm queue) :
    ∃ rearranged, Divides program siblings turns shown last rearranged ∧
      rearranged.Perm branches := by
  obtain ⟨rearranged, follows, sameBranches⟩ := List.perm_comp_forall₂ same divides.follows
  have same := sameBranches.symm
  obtain ⟨left, rounds, rest⟩ := divides.left
  exact ⟨rearranged, ⟨follows, divides.turns.perm (same.map _), divides.shown.perm (same.map _),
    left, rounds, rest.trans ((same.map _).filter _)⟩, sameBranches⟩

theorem cons_empty (divides : Divides program queue turns shown last branches) :
    Divides program (.empty :: queue) turns shown last (.start .empty :: branches) where
  follows := .cons (.here _) divides.follows
  turns := divides.turns.cons_nil
  shown := divides.shown.cons_nil
  left := divides.left

theorem hand (ctx : Context)
    (divides : Divides program (rest :: queue) turns shown last (branch :: branches)) :
    Divides program (.ready ctx rest :: queue) turns (ctx :: shown) last
      ({ branch with shown := ctx :: branch.shown } :: branches) where
  follows := by
    obtain ⟨leads, follows⟩ := List.forall₂_cons.mp divides.follows
    exact .cons (.hand ctx leads) follows
  turns := divides.turns
  shown := @Merges.cons _ [] _ _ _ ctx divides.shown
  left := divides.left

theorem forced (ran : Runs (work.force program) before next after)
    (divides : Divides program (next :: queue) turns shown last (branch :: branches)) :
    Divides program (.suspended work :: queue) ((before, after) :: turns) shown last
      ({ branch with turns := (before, after) :: branch.turns } :: branches) where
  follows := by
    obtain ⟨leads, follows⟩ := List.forall₂_cons.mp divides.follows
    exact .cons (.forced ran leads) follows
  turns := @Merges.cons _ [] _ _ _ _ divides.turns
  shown := divides.shown
  left := divides.left

/-- The branch of a stream that stands behind the others. -/
theorem concat (divides : Divides program (queue ++ [s]) turns shown last branches) :
    ∃ others branch, branches = others ++ [branch] ∧
      Divides program (s :: queue) turns shown last (branch :: others) := by
  obtain ⟨others, branch, rfl, follows⟩ := forall₂_concat divides.follows
  have turned := List.perm_append_singleton branch others
  obtain ⟨left, rounds, same⟩ := divides.left
  exact ⟨others, branch, rfl, follows, divides.turns.perm (turned.map _),
    divides.shown.perm (turned.map _), left, rounds, same.trans ((turned.map _).filter _)⟩

end Divides

/-- Forcing suspended streams that take turns is forcing the first of them. -/
theorem leads_ofWorks (leads : (ofWorks works).Leads program turns shown last) :
    (turns = [] ∧ shown = [] ∧ last = ofWorks works) ∨
    ∃ work others next before after later, works = work :: others ∧
      Runs (work.force program) before next after ∧ turns = (before, after) :: later ∧
      (takeTurns (others.map .suspended ++ [next])).Leads program later shown last := by
  rcases works with _ | ⟨work, _ | ⟨other, works⟩⟩
  · cases leads
    exact .inl ⟨rfl, rfl, rfl⟩
  · cases leads with
    | here => exact .inl ⟨rfl, rfl, rfl⟩
    | forced forces later =>
        exact .inr ⟨work, [], _, _, _, _, rfl, forces, rfl, (takeTurns_singleton _).symm ▸ later⟩
  · cases leads with
    | here => exact .inl ⟨rfl, rfl, rfl⟩
    | forced forces later =>
        obtain ⟨next, between, ran, made⟩ := runs_bind.mp forces
        obtain ⟨rfl, rfl⟩ := runs_pure.mp made
        rw [interleave_eq_takeTurns] at later
        exact .inr ⟨work, other :: works, next, _, _, _, rfl, ran, rfl, later⟩

theorem leads_turn (ran : Runs (work.force program) before next after)
    (later : (takeTurns (others.map .suspended ++ [next])).Leads program turns shown last) :
    (ofWorks (work :: others)).Leads program ((before, after) :: turns) shown last := by
  cases others with
  | nil => exact .forced ran (takeTurns_singleton next ▸ later)
  | cons other others =>
      refine .forced (runs_bind.mpr ⟨next, after, ran, runs_pure.mpr ⟨rfl, rfl⟩⟩) ?_
      rwa [interleave_eq_takeTurns]

/-- A stream behind suspended ones, before any move. -/
theorem divides_behind_start (program : Program) (works : List Work) (s : Stream) :
    ∃ others branch, Divides program (s :: works.map .suspended) [] []
      (takeTurns (works.map .suspended ++ [s])) (branch :: others) ∧
      (others ++ [branch]).Pairwise Branch.InStep := by
  have start : Divides program (works.map .suspended ++ [s]) [] [] _ _ := .start _
  obtain ⟨others, branch, same, divides⟩ := start.concat
  exact ⟨others, branch, divides, same ▸ Branch.pairwise_start _⟩

/-- A stream behind suspended ones hands out what it has ready and keeps its place, so the branches
are in step if they are once all streams are suspended. -/
theorem divides_behind
    (suspended : ∀ works shown, (ofWorks works).Leads program turns shown last →
      ∃ branches, Divides program (works.map .suspended) turns shown last branches ∧
        branches.Pairwise Branch.InStep)
    (leads : (takeTurns (works.map .suspended ++ [s])).Leads program turns shown last) :
    ∃ others branch,
      Divides program (s :: works.map .suspended) turns shown last (branch :: others) ∧
      (others ++ [branch]).Pairwise Branch.InStep := by
  induction s using Stream.heads.induct generalizing shown with
  | case1 ctx rest ih =>
      have first := takeTurns_ready works ctx rest []
      rw [first] at leads
      cases leads with
      | here => exact first ▸ divides_behind_start program works (.ready ctx rest)
      | hand _ later =>
          obtain ⟨others, branch, divides, inStep⟩ := ih later
          refine ⟨others, _, divides.hand ctx, ?_⟩
          rw [List.pairwise_append] at inStep ⊢
          refine ⟨inStep.1, List.pairwise_singleton _ _, fun b member c single => ?_⟩
          rw [List.mem_singleton.mp single]
          have pair := inStep.2.2 b member branch (List.mem_singleton_self branch)
          exact ⟨pair.behind, pair.ahead⟩
  | case2 s notReady =>
      cases s with
      | ready ctx rest => exact absurd rfl (notReady ctx rest)
      | empty =>
          rw [takeTurns_empty, List.nil_append, takeTurns_suspended] at leads
          obtain ⟨others, divides, inStep⟩ := suspended works shown leads
          refine ⟨others, _, divides.cons_empty, ?_⟩
          refine List.pairwise_append.mpr ⟨inStep, List.pairwise_singleton _ _, ?_⟩
          intro b _ c single
          rw [List.mem_singleton.mp single]
          exact ⟨fun _ => Nat.zero_le _, fun live => absurd rfl live⟩
      | suspended work =>
          have all : works.map Stream.suspended ++ [.suspended work] =
              (works ++ [work]).map .suspended := by simp
          rw [all, takeTurns_suspended] at leads
          obtain ⟨branches, divides, inStep⟩ := suspended (works ++ [work]) shown leads
          rw [← all] at divides
          obtain ⟨others, branch, rfl, turned⟩ := divides.concat
          exact ⟨others, branch, turned, inStep⟩
      | aborted reason =>
          have first := takeTurns_aborted works reason []
          rw [first] at leads
          cases leads
          have start := divides_behind_start program works (.aborted reason)
          rwa [first] at start

/-- Whatever is shown of suspended streams has its branches, in step with each other. -/
theorem divides_ofWorks (leads : (ofWorks works).Leads program turns shown last) :
    ∃ branches, Divides program (works.map .suspended) turns shown last branches ∧
      branches.Pairwise Branch.InStep := by
  -- Once the first has had its turn, it is behind the others, and fewer turns are left.
  induction length : turns.length using Nat.strong_induction_on generalizing works turns shown with
  | _ count fewer =>
    rcases leads_ofWorks leads with ⟨rfl, rfl, rfl⟩ |
      ⟨work, others, next, before, after, later, rfl, ran, rfl, forced⟩
    · rw [← takeTurns_suspended works]
      exact ⟨_, Divides.start _, Branch.pairwise_start _⟩
    · have shorter : later.length < count := length ▸ Nat.lt_succ_self _
      obtain ⟨branches, branch, divides, inStep⟩ :=
        divides_behind (fun works shown leads => fewer _ shorter leads rfl) forced
      refine ⟨_, divides.forced ran, ?_⟩
      rw [List.pairwise_append] at inStep
      refine List.pairwise_cons.mpr ⟨fun b member => ?_, inStep.1⟩
      have pair := inStep.2.2 b member branch (List.mem_singleton_self branch)
      constructor
      · exact pair.ahead
      · exact fun live => Nat.succ_le_succ (pair.behind live)

/-- Whatever is shown of streams that take turns has its branches, none of them more than a turn
ahead of one that is suspended. -/
theorem divides_takeTurns (leads : (takeTurns queue).Leads program turns shown last) :
    ∃ branches, Divides program queue turns shown last branches ∧ Branch.Balanced branches := by
  induction queue using turns_induction generalizing shown with
  | suspended works =>
      rw [takeTurns_suspended] at leads
      obtain ⟨branches, divides, inStep⟩ := divides_ofWorks leads
      exact ⟨branches, divides, Branch.balanced_of_pairwise inStep⟩
  | ended works queue ih =>
      rw [takeTurns_empty] at leads
      obtain ⟨branches, divides, balanced⟩ := ih leads
      have turned : (.empty :: (works.map .suspended ++ queue)).Perm
          (.empty :: (queue ++ works.map .suspended)) := .cons _ List.perm_append_comm
      obtain ⟨rearranged, divides, same⟩ :=
        divides.cons_empty.perm (List.perm_middle.trans turned)
      exact ⟨rearranged, divides, balanced.cons_ended.perm same⟩
  | ready works ctx rest queue ih =>
      have first := takeTurns_ready works ctx rest queue
      rw [first] at leads
      cases leads with
      | here =>
          rw [← first]
          exact ⟨_, .start _, Branch.balanced_of_pairwise (Branch.pairwise_start _)⟩
      | hand _ later =>
          obtain ⟨branches, divides, balanced⟩ := ih later
          have turned : (rest :: (works.map .suspended ++ queue)).Perm
              (queue ++ works.map .suspended ++ [rest]) :=
            ((List.perm_append_singleton rest _).trans (.cons _ List.perm_append_comm)).symm
          obtain ⟨rearranged, turnedDivides, same⟩ := divides.perm turned
          obtain ⟨branch, others, _, _, rfl⟩ := List.forall₂_cons_left_iff.mp turnedDivides.follows
          obtain ⟨rearranged, divides, sameOnceMore⟩ :=
            (turnedDivides.hand ctx).perm List.perm_middle
          exact ⟨rearranged, divides, ((balanced.perm same).hand ctx).perm sameOnceMore⟩
  | aborted works reason queue =>
      have first := takeTurns_aborted works reason queue
      rw [first] at leads
      cases leads
      have start : Divides program _ [] [] _ _ :=
        .start (works.map .suspended ++ .aborted reason :: queue)
      rw [first] at start
      exact ⟨_, start, Branch.balanced_of_pairwise (Branch.pairwise_start _)⟩

/-! ## How the branches stand -/

section Standing

variable (divides : Divides program queue turns shown last branches)

include divides

/-- What is left of a branch that has not ended still takes turns. -/
theorem Divides.exists_queue : ∃ queue, last = takeTurns queue ∧
    ∀ s : Stream, s.isEmpty = false → (s ∈ queue ↔ s ∈ branches.map (·.rest)) := by
  obtain ⟨left, rounds, same⟩ := divides.left
  refine ⟨left, rounds, fun s alive => ?_⟩
  have members := same.mem_iff (a := s)
  simpa [unended, alive] using members

/-- Where a branch has come to a fault, so has the merged stream, once what is ready has been
handed out. -/
theorem Divides.isFaulty (member : branch ∈ branches) (faulty : branch.rest.isFaulty = true) :
    last.isFaulty = true := by
  obtain ⟨left, rfl, same⟩ := divides.exists_queue
  have alive : branch.rest.isEmpty = false := by
    cases rest : branch.rest <;> simp_all [Stream.isEmpty, Stream.isFaulty]
  exact isFaulty_takeTurns ((same _ alive).mpr (List.mem_map_of_mem member)) faulty

/-- The fault of the merged stream is that of a branch. -/
theorem Divides.exists_aborted {reason : Fault} (ends : last = .aborted reason) :
    ∃ branch ∈ branches, branch.rest = .aborted reason := by
  obtain ⟨left, rfl, same⟩ := divides.exists_queue
  exact List.mem_map.mp ((same _ rfl).mp (mem_of_takeTurns_aborted ends))

/-- Where the merged stream has nothing ready, all branches are suspended or have ended. -/
theorem Divides.exists_works (nothing : last.heads = []) (sound : last.isFaulty = false) :
    ∃ works, last = ofWorks works ∧
      (unended (branches.map (·.rest))).Perm (works.map .suspended) := by
  obtain ⟨left, rfl, same⟩ := divides.left
  obtain ⟨works, rounds, suspended⟩ := unended_perm_of_takeTurns nothing sound
  exact ⟨works, rounds, same.symm.trans suspended⟩

/-- Where the merged stream has nothing ready, neither has a branch. -/
theorem Divides.heads_eq_nil (nothing : last.heads = []) (sound : last.isFaulty = false)
    (member : branch ∈ branches) : branch.rest.heads = [] := by
  obtain ⟨works, _, same⟩ := divides.exists_works nothing sound
  cases ended : branch.rest.isEmpty with
  | true => cases rest : branch.rest <;> simp_all [Stream.isEmpty, Stream.heads]
  | false =>
      have among : branch.rest ∈ unended (branches.map (·.rest)) :=
        List.mem_filter.mpr ⟨List.mem_map_of_mem member, by simp [ended]⟩
      exact heads_suspended works (same.mem_iff.mp among)

/-- The merged stream ends when all branches have. -/
theorem Divides.ended (ends : last = .empty) (member : branch ∈ branches) :
    branch.rest = .empty := by
  obtain ⟨works, rounds, same⟩ := divides.exists_works (by rw [ends]; rfl) (by rw [ends]; rfl)
  have none : works = [] := by
    rw [ends] at rounds
    rcases works with _ | ⟨_, _ | _⟩ <;> first | rfl | cases rounds
  rw [none, List.map_nil, List.perm_nil, unended, List.filter_eq_nil_iff] at same
  have empty := same branch.rest (List.mem_map_of_mem member)
  cases rest : branch.rest <;> simp_all [Stream.isEmpty]

/-- The merged stream stops short where a branch does. -/
theorem Divides.exists_halts (halts : last.Halts program before) :
    ∃ branch ∈ branches, branch.rest.Halts program before := by
  obtain ⟨work, reason, after, rfl, stops⟩ := halts
  obtain ⟨works, rounds, same⟩ := divides.exists_works rfl rfl
  -- Either one stream is left, or the first of those that take turns is forced.
  obtain ⟨first, others, rfl, stops⟩ : ∃ first others, works = first :: others ∧
      (first.force program).run.run before = (.error reason, after) := by
    rcases works with _ | ⟨first, _ | ⟨other, others⟩⟩
    · cases rounds
    · cases rounds
      exact ⟨_, _, rfl, stops⟩
    · cases rounds
      refine ⟨first, _, rfl, ?_⟩
      rw [Work.force, run_bind] at stops
      cases ran : (first.force program).run.run before with
      | mk outcome between =>
          rw [ran] at stops
          cases outcome with
          | ok next => cases stops
          | error other => exact stops
  have left := same.mem_iff.mpr (List.mem_map_of_mem (List.mem_cons_self ..))
  obtain ⟨branch, member, rest⟩ := List.mem_map.mp (List.mem_of_mem_filter left)
  exact ⟨branch, member, first, reason, after, rest, stops⟩

end Standing

/-! ## Runs of their own -/

theorem Leads.append {middle : Stream} {more : List (Session × Session)} {later : List Context}
    (leads : s.Leads program turns shown middle) (goesOn : middle.Leads program more later last) :
    s.Leads program (turns ++ more) (shown ++ later) last := by
  induction leads with
  | here => exact goesOn
  | hand ctx _ ih => exact .hand ctx (ih goesOn)
  | forced forces _ ih => exact .forced forces (ih goesOn)

/-- What is ready is handed out without a turn. -/
theorem leads_tail : ∀ s : Stream, s.Leads program [] s.heads s.tail
  | .ready ctx rest => .hand ctx (leads_tail rest)
  | .empty => .here _
  | .suspended _ => .here _
  | .aborted _ => .here _

theorem heads_tail : ∀ s : Stream, s.tail.heads = []
  | .ready _ rest => heads_tail rest
  | .empty => rfl
  | .suspended _ => rfl
  | .aborted _ => rfl

/-- A stream that has come to a fault hands out what is ready before it. -/
theorem exists_leads_aborted : ∀ {s : Stream}, s.isFaulty = true →
    ∃ shown reason, s.Leads program [] shown (.aborted reason)
  | .ready ctx rest, faulty =>
      have ⟨shown, reason, leads⟩ := exists_leads_aborted (s := rest) faulty
      ⟨ctx :: shown, reason, .hand ctx leads⟩
  | .aborted reason, _ => ⟨[], reason, .here _⟩

theorem Leads.eq_of_heads (leads : s.Leads program [] shown last) (nothing : s.heads = []) :
    last = s := by
  cases leads with
  | here => rfl
  | hand ctx _ => cases nothing

theorem eq_aborted (nothing : s.heads = []) (faulty : s.isFaulty = true) :
    ∃ reason, s = .aborted reason := by
  cases s with
  | aborted reason => exact ⟨reason, rfl⟩
  | ready ctx rest => cases nothing
  | _ => cases faulty

theorem eq_empty (nothing : s.heads = []) (sound : s.isFaulty = false) (none : s.works = []) :
    s = .empty := by
  cases s with
  | empty => rfl
  | ready ctx rest => cases nothing
  | suspended work => cases none
  | aborted reason => cases sound

/-- A run goes on for so many turns, unless the stream ends or forcing it stops short. -/
theorem exists_run (program : Program) (s : Stream) (start : Session) (count : ℕ) :
    ∃ turns shown last finish, s.Leads program turns shown last ∧
      Consecutive start turns finish ∧ turns.length ≤ count ∧ last.heads = [] ∧
      (turns.length = count ∨ last.works = [] ∨ last.Halts program finish) := by
  induction count generalizing s start with
  | zero => exact ⟨[], _, _, _, leads_tail s, .nil start, le_rfl, heads_tail s, .inl rfl⟩
  | succ count ih =>
      have ready : s.Leads program [] s.heads s.tail := leads_tail s
      have nothing := heads_tail s
      generalize s.tail = left at ready nothing
      cases left with
      | ready ctx rest => cases nothing
      | empty => exact ⟨_, _, _, _, ready, .nil start, Nat.zero_le _, rfl, .inr (.inl rfl)⟩
      | aborted reason =>
          exact ⟨_, _, _, _, ready, .nil start, Nat.zero_le _, rfl, .inr (.inl rfl)⟩
      | suspended work =>
          cases forced : (work.force program).run.run start with
          | mk outcome between =>
              cases outcome with
              | error reason =>
                  exact ⟨_, _, _, _, ready, .nil start, Nat.zero_le _, rfl,
                    .inr (.inr ⟨work, reason, between, rfl, forced⟩)⟩
              | ok next =>
                  obtain ⟨turns, shown, last, finish, leads, consecutive, few, none, stands⟩ :=
                    ih next between
                  refine ⟨_, _, last, finish, ready.append (.forced forced leads),
                    .cons consecutive, Nat.succ_le_succ few, none, stands.imp_left ?_⟩
                  exact congrArg (· + 1)

/-! ## Merging -/

/-- What is shown of the streams is merged from the branches they have come along, in fair turns,
and the end is the end of all of them or the fault of one. -/
structure Merged (program : Program) (streams : List Stream) (turns : List (Session × Session))
    (shown : List Context) (last : Stream) (branches : List Branch) : Prop where
  follows : List.Forall₂ (Branch.Follows program) streams branches
  /-- In so many rounds, a branch has so many turns or is not suspended any more. -/
  fair : ∀ branch ∈ branches, ∀ rounds, streams.length * rounds ≤ turns.length →
    rounds ≤ branch.turns.length ∨ branch.rest.works = []
  /-- Nothing is held back, unless there is a fault. -/
  ready : last.heads = [] → last.isFaulty = false → ∀ branch ∈ branches, branch.rest.heads = []
  /-- All branches have come to their end. -/
  ended : last = .empty → ∀ branch ∈ branches, branch.rest = .empty
  /-- A branch that comes to a fault has the merged stream come to one as well. -/
  faulty : ∀ branch ∈ branches, branch.rest.isFaulty = true →
    ∃ more reason, last.Leads program [] more (.aborted reason)
  /-- The fault is that of a branch. -/
  aborted : ∀ reason, last = .aborted reason → ∃ branch ∈ branches, branch.rest = .aborted reason
  /-- It is a branch that stops short. -/
  halts : ∀ before, last.Halts program before →
    ∃ branch ∈ branches, branch.rest.Halts program before
  turns : Merges (branches.map (·.turns)) turns
  shown : Merges (branches.map (·.shown)) shown

theorem exists_merged (leads : (interleave queue).Leads program turns shown last) :
    ∃ branches, Merged program queue turns shown last branches := by
  rw [interleave_eq_takeTurns] at leads
  obtain ⟨branches, divides, balanced⟩ := divides_takeTurns leads
  refine ⟨branches, divides.follows, ?_, ?_, ?_, ?_, ?_, ?_, divides.turns, divides.shown⟩
  · intro branch member rounds enough
    rw [divides.follows.length_eq] at enough
    exact or_iff_not_imp_right.mpr fun live => balanced.fair divides.turns member live enough
  · exact fun nothing sound branch member => divides.heads_eq_nil nothing sound member
  · exact fun ends branch member => divides.ended ends member
  · exact fun branch member faulty => exists_leads_aborted (divides.isFaulty member faulty)
  · exact fun reason ends => divides.exists_aborted ends
  · exact fun before halts => divides.exists_halts halts

/-- Streams that take turns are merged.  The loop that rotates them comes to an end, and whatever is
shown of them is merged from their branches.  In any session and for any number of rounds there is a
run in which each stream that has not ended has had as many turns, or else the merged stream has
ended with the fault of one, or is held up by what the program does not define. -/
theorem interleave_merges (program : Program) (streams : List Stream) :
    (∀ passes ≥ (totalReadiness streams + 1) * (streams.length + 1),
      roundRobin passes [] streams = some (interleave streams)) ∧
    (∀ turns shown last, (interleave streams).Leads program turns shown last →
      ∃ branches, Merged program streams turns shown last branches) ∧
    ∀ start rounds, ∃ turns shown last finish branches,
      (interleave streams).Leads program turns shown last ∧ Consecutive start turns finish ∧
      turns.length ≤ streams.length * rounds ∧
      Merged program streams turns shown last branches ∧
      ((∃ reason, last = .aborted reason) ∨ last.Halts program finish ∨
        ∀ branch ∈ branches, branch.rest.isFaulty = false ∧ branch.rest.heads = [] ∧
          (rounds ≤ branch.turns.length ∨ branch.rest = .empty)) := by
  refine ⟨fun passes enough => ?_, fun turns shown last => exists_merged, ?_⟩
  · rw [interleave_eq_takeTurns]
    exact roundRobin_eq enough
  · intro start rounds
    obtain ⟨turns, shown, last, finish, leads, consecutive, few, nothing, stands⟩ :=
      exists_run program (interleave streams) start (streams.length * rounds)
    obtain ⟨branches, merged⟩ := exists_merged leads
    refine ⟨turns, shown, last, finish, branches, leads, consecutive, few, merged, ?_⟩
    cases sound : last.isFaulty with
    | true => exact .inl (eq_aborted nothing sound)
    | false =>
        have none : ∀ branch ∈ branches, branch.rest.isFaulty = false := by
          intro branch member
          by_contra faulty
          rw [Bool.not_eq_false] at faulty
          obtain ⟨more, reason, aborts⟩ := merged.faulty branch member faulty
          cases aborts.eq_of_heads nothing
          cases sound
        have ready := merged.ready nothing sound
        rcases stands with all | ends | halts
        · refine .inr (.inr fun branch member => ⟨none branch member, ready branch member, ?_⟩)
          refine (merged.fair branch member rounds all.ge).imp_right ?_
          exact eq_empty (ready branch member) (none branch member)
        · refine .inr (.inr fun branch member => ⟨none branch member, ready branch member, ?_⟩)
          exact .inr (merged.ended (eq_empty nothing sound ends) branch member)
        · exact .inr (.inl halts)

/-- Beside a stream that is suspended forever, one hands out a context, makes a variable in each of
two suspensions and aborts: six passes of the loop are enough, and the fault is come to in the third
turn of each. -/
theorem interleave_merges_fault :
    let program : Program := ⟨[], 1⟩
    let reason : Fault := .rowLength "r" 0 1 2
    let making : Goal := .fresh ["x"] (.fresh ["y"] (.abort reason))
    let streams : List Stream :=
      [.ready .empty (.suspended (.run making .empty)), .suspended (.build .never)]
    let made : ℕ → Session := fun count => .start count 0
    let turns := [(made 0, made 0), (made 0, made 1), (made 1, made 1), (made 1, made 2),
      (made 2, made 2), (made 2, made 2)]
    roundRobin 6 [] streams = some (interleave streams) ∧
      (interleave streams).Leads program turns [.empty] (.aborted reason) ∧
      ∃ branches, Merged program streams turns [.empty] (.aborted reason) branches := by
  intro program reason making streams made turns
  have merges := interleave_merges program streams
  have leads : (interleave streams).Leads program turns [.empty] (.aborted reason) := by
    let never : Work := .build .never
    have beside : ∀ work before turns,
        (ofWorks [work, never]).Leads program turns [] (.aborted reason) →
        (ofWorks [never, work]).Leads program ((before, before) :: turns) [] (.aborted reason) := by
      intro work before turns later
      have ran : Runs (never.force program) before (.suspended never) before := rfl
      exact leads_turn ran ((takeTurns_suspended [work, never]).symm ▸ later)
    have turned : ∀ work next before after turns,
        Runs (work.force program) before (.suspended next) after →
        (ofWorks [never, next]).Leads program turns [] (.aborted reason) →
        (ofWorks [work, never]).Leads program ((before, after) :: turns) [] (.aborted reason) := by
      intro work next before after turns ran later
      exact leads_turn ran ((takeTurns_suspended [never, next]).symm ▸ later)
    have first := takeTurns_ready [] .empty (.suspended (.run making .empty)) [.suspended never]
    have rest := takeTurns_suspended [never, .run making .empty]
    rw [interleave_eq_takeTurns]
    refine first ▸ .hand .empty (rest ▸ ?_)
    apply beside
    refine turned _ (.run (.fresh ["y"] (.abort reason)) .empty) _ _ _ rfl ?_
    apply beside
    refine turned _ (.run (.abort reason) .empty) _ _ _ rfl ?_
    apply beside
    have aborts : Runs (Work.force program (.run (.abort reason) .empty)) (made 2)
        (.aborted reason) (made 2) := rfl
    have ends : takeTurns ([never].map .suspended ++ [.aborted reason]) = .aborted reason :=
      takeTurns_aborted [never] reason []
    exact leads_turn aborts (ends.symm ▸ .here (.aborted reason))
  exact ⟨merges.1 6 (by decide), leads, merges.2.1 _ _ _ leads⟩

end Stream

end RelationalSolver
