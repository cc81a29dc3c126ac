import RelationalSolver.Context.Unification
import RelationalSolver.Goal.Instance

/-!
# Streams of contexts

A stream is the answer of a goal: contexts that are ready, suspended work, the
end, or a fault.  Suspended work is data that says what forcing it will do.
Forcing one suspension is the unit of work of a search, called a step.

A conjunction feeds every context of a stream into the next goal and strings the
answers together in order.  A disjunction lets its branches take turns.
-/

namespace RelationalSolver

/-- Contexts produced one at a time from the outside. -/
inductive ContextSupply where
  | listed (items : List (Except Fault Context))
  /-- Contexts that hold a number and the numbers after it, without end. -/
  | countingFrom (facet : CustomFacet) (value : Int)

/-- A relation whose rows are being tried in a context. -/
structure RowScan where
  relation : String
  args : List Term
  context : Context
  rows : RowSupply
  /-- Number of the next row. -/
  index : Nat
  /-- How many rows there are, as far as observers are told. -/
  total : Nat
  /-- Somebody observes what becomes of rows. -/
  broadcast : Bool

/-- How a stream can be put together from others. -/
inductive Recipe where
  | unit (ctx : Context)
  | empty
  /-- A suspension of itself. -/
  | never
  | ready (ctx : Context) (rest : Recipe)
  /-- Put together only when it is forced. -/
  | suspend (recipe : Recipe)
  | abort (fault : Fault)
  /-- One stream after the other. -/
  | append (recipes : List Recipe)
  /-- The streams take turns two by two, nested to the left. -/
  | mplus (recipes : List Recipe)
  /-- The streams take turns. -/
  | interleave (recipes : List Recipe)
  /-- Feed every context into the goals, one goal after the other. -/
  | bind (recipe : Recipe) (goals : List Goal)
  | supplied (supply : ContextSupply)

mutual

/-- A lazy sequence of contexts. -/
inductive Stream where
  | empty
  | ready (ctx : Context) (rest : Stream)
  | suspended (work : Work)
  | aborted (fault : Fault)

/-- What forcing a suspension will do. -/
inductive Work where
  /-- Run the body of a goal. -/
  | run (goal : Goal) (ctx : Context)
  /-- Run the body of a definition. -/
  | call (name : String) (args : List Term) (ctx : Context)
  /-- Ask a relation for its rows. -/
  | openRows (application : Application) (ctx : Context)
  /-- Try rows until one unifies. -/
  | scan (scan : RowScan)
  /-- Take one context from a supply. -/
  | pull (supply : ContextSupply)
  /-- Put a stream together. -/
  | build (recipe : Recipe)
  /-- Force, and feed the contexts into the goal. -/
  | bind (work : Work) (goal : Goal)
  /-- Force, and go on with another stream after it. -/
  | append (work : Work) (next : Continuation)
  /-- Go on with another stream. -/
  | resume (next : Continuation)
  /-- Force the first, and put it behind the others, whose turn is next. -/
  | turn (first : Work) (others : List Work)

/-- A stream that is only put together when it is reached. -/
inductive Continuation where
  | stream (stream : Stream)
  /-- Feed the rest of a stream into the goal. -/
  | bind (stream : Stream) (goal : Goal)

end

instance : Inhabited Stream := ⟨.empty⟩

namespace Stream

/-- A stream of one context. -/
def unit (ctx : Context) : Stream := .ready ctx .empty

/-- The stream has ended. -/
def isEmpty : Stream → Bool
  | .empty => true
  | _ => false

/-- Put a continuation after the contexts of a stream that has not ended. -/
def followBy (next : Continuation) : Stream → Stream
  | .empty => .suspended (.resume next)
  | .ready ctx rest => .ready ctx (followBy next rest)
  | .suspended work => .suspended (.append work next)
  | .aborted fault => .aborted fault

/-- One stream after the other. -/
def append (s t : Stream) : Stream :=
  match s with
  | .empty => t
  | _ => s.followBy (.stream t)

/-- Number of moves that a stream makes before it is suspended or has ended, the
end included. -/
def readiness : Stream → Nat
  | .empty => 1
  | .ready _ rest => 1 + readiness rest
  | .suspended _ => 0
  | .aborted _ => 1

/-- The first stream of a queue that is not suspended, and the queue after its
turn. -/
inductive Turn where
  | allSuspended (works : List Work)
  | ended (queue : List Stream)
  | ready (ctx : Context) (queue : List Stream)
  | aborted (fault : Fault)

/-- Whose turn it is.  Suspended streams are passed over and put behind the
others; the rest of a stream that had its turn goes behind them. -/
def turnOf (passed : List Work) : List Stream → Turn
  | [] => .allSuspended passed
  | .suspended work :: queue => turnOf (passed ++ [work]) queue
  | .empty :: queue => .ended (queue ++ passed.map .suspended)
  | .ready ctx rest :: queue => .ready ctx (queue ++ passed.map .suspended ++ [rest])
  | .aborted fault :: _ => .aborted fault

/-- Moves that the streams of a queue make before all are suspended. -/
def totalReadiness : List Stream → Nat
  | [] => 0
  | s :: queue => readiness s + totalReadiness queue

@[simp] theorem totalReadiness_suspended (works : List Work) :
    totalReadiness (works.map .suspended) = 0 := by
  induction works with
  | nil => rfl
  | cons work works ih => simpa [totalReadiness, readiness] using ih

@[simp] theorem totalReadiness_append (queue others : List Stream) :
    totalReadiness (queue ++ others) = totalReadiness queue + totalReadiness others := by
  induction queue with
  | nil => simp [totalReadiness]
  | cons s queue ih => simp [totalReadiness, ih, Nat.add_assoc]

@[simp] theorem totalReadiness_nil : totalReadiness [] = 0 := rfl

@[simp] theorem totalReadiness_cons (s : Stream) (queue : List Stream) :
    totalReadiness (s :: queue) = readiness s + totalReadiness queue := rfl

@[simp] theorem totalReadiness_reverse (queue : List Stream) :
    totalReadiness queue.reverse = totalReadiness queue := by
  induction queue with
  | nil => rfl
  | cons s queue ih => simp [ih, Nat.add_comm]

/-- Every turn that does not end the queue makes one move. -/
theorem totalReadiness_turnOf : ∀ (queue : List Stream) (passed : List Work),
    match turnOf passed queue with
    | .ended next => totalReadiness next + 1 = totalReadiness queue
    | .ready _ next => totalReadiness next + 1 = totalReadiness queue
    | _ => True
  | [], _ => trivial
  | .suspended work :: queue, passed => by
      simpa [turnOf, readiness] using totalReadiness_turnOf queue (passed ++ [work])
  | .empty :: queue, passed => by
      simp only [turnOf, totalReadiness_append, totalReadiness_suspended, totalReadiness_cons,
        readiness]
      omega
  | .ready _ rest :: queue, passed => by
      simp only [turnOf, totalReadiness_append, totalReadiness_suspended, totalReadiness_cons,
        totalReadiness_nil, readiness]
      omega
  | .aborted _ :: _, _ => trivial

/-- Streams of which each is suspended.  When it is forced, the first is, and is
put behind the others; a stream that is left alone is handed out as it is. -/
def ofWorks : List Work → Stream
  | [] => .empty
  | [work] => .suspended work
  | work :: others => .suspended (.turn work others)

/-- The streams take turns, one turn after the other. -/
def takeTurns (queue : List Stream) : Stream :=
  match _turn : turnOf [] queue with
  | .allSuspended works => ofWorks works
  | .ended next => takeTurns next
  | .ready ctx next => .ready ctx (takeTurns next)
  | .aborted fault => .aborted fault
termination_by totalReadiness queue
decreasing_by
  all_goals
    have move := totalReadiness_turnOf queue []
    rw [_turn] at move
    simp only at move
    omega

theorem takeTurns_eq (queue : List Stream) :
    takeTurns queue =
      match turnOf [] queue with
      | .allSuspended works => ofWorks works
      | .ended next => takeTurns next
      | .ready ctx next => .ready ctx (takeTurns next)
      | .aborted fault => .aborted fault := by
  rw [takeTurns]
  split <;> rename_i turn <;> rw [turn]

/-- Suspended streams that were passed over, behind others; both from the last to
the first. -/
def passedBehind (passed : List Work) (behind : List Stream) : List Stream :=
  passed.map .suspended ++ behind

/-- The streams take turns, from a queue in three parts: the streams whose turn is
next, those behind them and the suspended ones that were passed over, the last two
from the last to the first.  A stream is put behind in one step, however many there
are. -/
def rotate (passed : List Work) : List Stream → List Stream → Stream
  | [], [] => ofWorks passed.reverse
  | [], s :: behind => rotate passed (s :: behind).reverse []
  | .suspended work :: queue, behind => rotate (work :: passed) queue behind
  | .empty :: queue, behind => rotate [] queue (passedBehind passed behind)
  | .ready ctx rest :: queue, behind =>
      .ready ctx (rotate [] queue (rest :: passedBehind passed behind))
  | .aborted fault :: _, _ => .aborted fault
termination_by queue behind =>
  (totalReadiness queue + totalReadiness behind, queue.length + 2 * behind.length)
decreasing_by
  all_goals
    simp only [passedBehind, totalReadiness_append, totalReadiness_reverse,
      totalReadiness_suspended, totalReadiness_cons, totalReadiness_nil, readiness,
      List.length_reverse, List.length_cons, List.length_nil, Prod.lex_def]
    omega

/-- The streams take turns.  Contexts that are ready come first, stream by
stream, and only when all streams are suspended is one of them forced. -/
def interleave (queue : List Stream) : Stream := rotate [] queue []

/-- Whose turn it is depends on the queue as a whole, not on its parts. -/
theorem rotate_eq_takeTurns (passed : List Work) (queue behind : List Stream) :
    rotate passed queue behind =
      match turnOf passed.reverse (queue ++ behind.reverse) with
      | .allSuspended works => ofWorks works
      | .ended next => takeTurns next
      | .ready ctx next => .ready ctx (takeTurns next)
      | .aborted fault => .aborted fault := by
  fun_induction rotate passed queue behind with
  | case1 => rfl
  | case2 _ _ _ ih => simpa using ih
  | case3 _ _ _ _ ih => simpa [turnOf] using ih
  | case4 _ _ _ ih =>
      rw [ih]
      simp only [List.cons_append, turnOf]
      rw [takeTurns_eq]
      simp [passedBehind]
  | case5 _ _ _ _ _ ih =>
      rw [ih]
      simp only [List.cons_append, turnOf]
      rw [takeTurns_eq]
      simp [passedBehind]
  | case6 => rfl

theorem interleave_eq_takeTurns (queue : List Stream) : interleave queue = takeTurns queue := by
  rw [interleave, rotate_eq_takeTurns, takeTurns_eq]
  simp

/-- Feed every context of a stream into a goal that is run by the given function.
The answers for one context come before those for the next. -/
def bindBy (run : Context → Engine Stream) (goal : Goal) : Stream → Engine Stream
  | .empty => pure .empty
  | .aborted fault => pure (.aborted fault)
  | .suspended work => pure (.suspended (.bind work goal))
  | .ready ctx rest => do
      match ← run ctx with
      | .empty => bindBy run goal rest
      | answers => pure (answers.followBy (.bind rest goal))

end Stream

end RelationalSolver
