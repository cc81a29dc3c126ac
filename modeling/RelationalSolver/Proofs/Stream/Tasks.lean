import RelationalSolver.Proofs.Session.Engine
import RelationalSolver.Stream.Run

/-!
# Tasks of a search

A search is a bag of tasks: contexts with the goals that they still have to go
through, and relations whose rows are being tried for such goals.  A stream says in
which order the tasks get their turn; how they expand does not depend on that.
Every task carries the choices that led to it.
-/

namespace RelationalSolver

/-- A choice that a search makes. -/
inductive Choice where
  | branch (index : Nat)
  | row (index : Nat)
  | unfold
deriving DecidableEq

/-- The choices made one after the other. -/
abbrev Path := List Choice

/-- What is still to be done for one context. -/
inductive Pending where
  | goals (ctx : Context) (goals : List Goal)
  | scan (scan : RowScan) (goals : List Goal)
  /-- Work that does not come from a goal. -/
  | foreign

/-- What is still to be done, and the choices that led there. -/
structure Task where
  path : Path
  pending : Pending

theorem Task.eq_of_pending (task : Task) {pending : Pending} (same : task.pending = pending) :
    task = ⟨task.path, pending⟩ := by
  rw [← same]

/-! ## The tasks of a stream -/

mutual

/-- What a stream has still to do if its contexts go through some goals. -/
def Stream.pendings (goals : List Goal) : Stream → List Pending
  | .empty => []
  | .ready ctx rest => .goals ctx goals :: rest.pendings goals
  | .suspended work => work.pendings goals
  | .aborted _ => []

def Work.pendings (goals : List Goal) : Work → List Pending
  | .run goal ctx => [.goals ctx (goal :: goals)]
  | .call name args ctx => [.goals ctx (.call name args :: goals)]
  | .openRows application ctx => [.goals ctx (.relation application :: goals)]
  | .scan rows => [.scan rows goals]
  | .pull _ => [.foreign]
  | .build _ => [.foreign]
  | .bind work goal => work.pendings (goal :: goals)
  | .append work next => work.pendings goals ++ next.pendings goals
  | .resume next => next.pendings goals
  | .turn first others => first.pendings goals ++ Work.allPendings goals others

def Work.allPendings (goals : List Goal) : List Work → List Pending
  | [] => []
  | work :: works => work.pendings goals ++ Work.allPendings goals works

def Continuation.pendings (goals : List Goal) : Continuation → List Pending
  | .stream s => s.pendings goals
  | .bind s goal => s.pendings (goal :: goals)

end

mutual

/-- The stream will end in a fault, if it ends. -/
def Stream.isDoomed : Stream → Bool
  | .empty => false
  | .ready _ rest => rest.isDoomed
  | .suspended work => work.isDoomed
  | .aborted _ => true

def Work.isDoomed : Work → Bool
  | .bind work _ => work.isDoomed
  | .append work next => work.isDoomed || next.isDoomed
  | .resume next => next.isDoomed
  | .turn first others => first.isDoomed || Work.anyDoomed others
  | _ => false

def Work.anyDoomed : List Work → Bool
  | [] => false
  | work :: works => work.isDoomed || Work.anyDoomed works

def Continuation.isDoomed : Continuation → Bool
  | .stream s => s.isDoomed
  | .bind s _ => s.isDoomed

end

/-! ## Expanding one task -/

/-- How many new variables were allotted at which places. -/
abbrev Allotments := List (Path × Nat)

/-- How many new variables there are altogether. -/
def Allotments.total : Allotments → Nat
  | [] => 0
  | (_, count) :: allotted => count + Allotments.total allotted

theorem Allotments.total_append (allotted later : Allotments) :
    total (allotted ++ later) = total allotted + total later := by
  induction allotted with
  | nil => exact (Nat.zero_add _).symm
  | cons allotment allotted ih => rw [List.cons_append, total, total, ih, Nat.add_assoc]

/-- New variables, numbered on from an ordinal. -/
def newVars (first count : Nat) : List Var := (List.range count).map fun i => .numbered (first + i)

/-- The tasks that a task with a given path leads to. -/
def Task.ofContexts (path : Path) (result : Option Context) (goals : List Goal) : List Task :=
  result.toList.map fun ctx => ⟨path, .goals ctx goals⟩

/-- A task does the first thing it has to do.  New variables are numbered on from
the given ordinal. -/
inductive Expands (program : Program) (first : Nat) : Task → List Task → Allotments → Prop
  | succeed (path : Path) (ctx : Context) (goals : List Goal) :
      Expands program first ⟨path, .goals ctx (.succeed :: goals)⟩ [⟨path, .goals ctx goals⟩] []
  | fail (path : Path) (ctx : Context) (goals : List Goal) :
      Expands program first ⟨path, .goals ctx (.fail :: goals)⟩ [] []
  | equal (path : Path) {ctx : Context} (goals : List Goal) {a b : Term} {result : Option Context}
      (returned : Engine.Returns (ctx.unify a b) result) :
      Expands program first ⟨path, .goals ctx (.equal a b :: goals)⟩
        (Task.ofContexts path result goals) []
  | constrain (path : Path) {ctx : Context} (goals : List Goal) {c : Constraint}
      {result : Option Context} (returned : Engine.Returns (ctx.constrain c) result) :
      Expands program first ⟨path, .goals ctx (.constrain c :: goals)⟩
        (Task.ofContexts path result goals) []
  | refused (path : Path) {ctx : Context} (goals : List Goal) {parts : List Goal}
      {constraints : List Constraint}
      (returned : Engine.Returns (ctx.constrainAll constraints) none) :
      Expands program first ⟨path, .goals ctx (.conj parts constraints :: goals)⟩ [] []
  | conj (path : Path) {ctx next : Context} (goals : List Goal) {parts planned : List Goal}
      {constraints : List Constraint}
      (returned : Engine.Returns (ctx.constrainAll constraints) (some next))
      (plans : Engine.Returns (Goal.planned next parts) planned) :
      Expands program first ⟨path, .goals ctx (.conj parts constraints :: goals)⟩
        [⟨path, .goals next (planned ++ goals)⟩] []
  | disj (path : Path) {ctx : Context} (goals : List Goal) {parts : List Goal}
      {constraints : List Constraint} {result : Option Context}
      (returned : Engine.Returns (ctx.constrainAll constraints) result) :
      Expands program first ⟨path, .goals ctx (.disj parts constraints :: goals)⟩
        (result.toList.flatMap fun next => parts.mapIdx fun i part =>
          ⟨path ++ [.branch i], .goals next (part :: goals)⟩) []
  | fresh (path : Path) (ctx : Context) (goals : List Goal) (names : List String) (body : Goal) :
      Expands program first ⟨path, .goals ctx (.fresh names body :: goals)⟩
        [⟨path ++ [.unfold], .goals ctx
          (body.fill (.ofLists names ((newVars first names.length).map .var)) :: goals)⟩]
        [(path, names.length)]
  | delay (path : Path) (ctx : Context) (goals : List Goal) (body : Goal) :
      Expands program first ⟨path, .goals ctx (.delay body :: goals)⟩
        [⟨path ++ [.unfold], .goals ctx (body :: goals)⟩] []
  | call (path : Path) (ctx : Context) (goals : List Goal) {name : String} (args : List Term)
      {definition : Definition} (defined : program.definitions.lookup name = some definition) :
      Expands program first ⟨path, .goals ctx (.call name args :: goals)⟩
        [⟨path ++ [.unfold], .goals ctx (definition.apply args :: goals)⟩] []
  | relation (path : Path) {ctx : Context} (goals : List Goal) {a : Application} {scan : RowScan}
      (opened : RowScan.start a ctx = .ok scan) :
      Expands program first ⟨path, .goals ctx (.relation a :: goals)⟩
        [⟨path, .scan scan goals⟩] []
  | exhausted (path : Path) {scan : RowScan} (goals : List Goal) (ended : scan.rows.next = none) :
      Expands program first ⟨path, .scan scan goals⟩ [] []
  | row (path : Path) {scan : RowScan} (goals : List Goal) {row : Row} {rows : RowSupply}
      {result : Option Context} (next : scan.rows.next = some (row, rows))
      (returned : Engine.Returns (scan.context.unifyAll scan.args row) result) :
      Expands program first ⟨path, .scan scan goals⟩
        (Task.ofContexts (path ++ [.row scan.index]) result goals ++
          [⟨path, .scan { scan with rows := rows, index := scan.index + 1 } goals⟩]) []
  | yieldThenAbort (path : Path) (ctx : Context) (goals : List Goal) (fault : Fault) :
      Expands program first ⟨path, .goals ctx (.yieldThenAbort fault :: goals)⟩
        [⟨path, .goals ctx goals⟩] []

/-- A bag of tasks goes on, task by task.  Tasks may be lost only where that is
allowed. -/
inductive Evolves (program : Program) (lossy : Prop) :
    Nat → List Task → Allotments → List Task → Prop
  | perm {first : Nat} {tasks next : List Task} (same : tasks.Perm next) :
      Evolves program lossy first tasks [] next
  | expand {first : Nat} {task : Task} {expanded : List Task} {allotted : Allotments}
      (expands : Expands program first task expanded allotted) (others : List Task) :
      Evolves program lossy first (task :: others) allotted (expanded ++ others)
  | drop {first : Nat} (allowed : lossy) (task : Task) (others : List Task) :
      Evolves program lossy first (task :: others) [] others
  | trans {first : Nat} {tasks next last : List Task} {allotted later : Allotments}
      (evolves : Evolves program lossy first tasks allotted next)
      (goesOn : Evolves program lossy (first + allotted.total) next later last) :
      Evolves program lossy first tasks (allotted ++ later) last

namespace Evolves

variable {program : Program} {lossy more : Prop} {first : Nat}
variable {tasks next last others : List Task} {allotted later : Allotments}

theorem refl (tasks : List Task) : Evolves program lossy first tasks [] tasks := .perm (.refl _)

theorem mono (evolves : Evolves program lossy first tasks allotted next) (allowed : lossy → more) :
    Evolves program more first tasks allotted next := by
  induction evolves with
  | perm same => exact .perm same
  | expand expands others => exact .expand expands others
  | drop lost task others => exact .drop (allowed lost) task others
  | trans _ _ first second => exact .trans first second

/-- Other tasks stand by. -/
theorem append_right (evolves : Evolves program lossy first tasks allotted next)
    (others : List Task) :
    Evolves program lossy first (tasks ++ others) allotted (next ++ others) := by
  induction evolves with
  | perm same => exact .perm (same.append_right others)
  | expand expands rest =>
      rw [List.append_assoc]
      exact .expand expands (rest ++ others)
  | drop lost task rest => exact .drop lost task (rest ++ others)
  | trans _ _ first second => exact .trans first second

theorem append_left (evolves : Evolves program lossy first tasks allotted next)
    (others : List Task) :
    Evolves program lossy first (others ++ tasks) allotted (others ++ next) := by
  have swapped : Evolves program lossy first (others ++ tasks) [] (tasks ++ others) :=
    .perm List.perm_append_comm
  have back : Evolves program lossy (first + allotted.total) (next ++ others) []
      (others ++ next) := .perm List.perm_append_comm
  have whole := swapped.trans ((evolves.append_right others).trans back)
  simpa using whole

/-- All tasks may be lost. -/
theorem dropAll (allowed : lossy) (tasks : List Task) :
    Evolves program lossy first tasks [] [] := by
  induction tasks with
  | nil => exact refl []
  | cons task tasks ih => exact (Evolves.drop allowed task tasks).trans ih

end Evolves

end RelationalSolver
