import RelationalSolver.Stream.Basic

/-!
# Running goals and forcing streams

Applying a goal to a context gives a stream and forces nothing.  Forcing a
suspension does one piece of suspended work, however deep it sits in the
combinations around it.
-/

namespace RelationalSolver

/-- What running a search needs besides the goal. -/
structure Program where
  definitions : Definitions
  /-- How many rows of an endless source one step may reject. -/
  patience : Nat

namespace Goal

/-- Plan the goals of a conjunction with the pipeline of the branch, if it has
passes and there is more than one goal. -/
def planned (ctx : Context) (goals : List Goal) : Engine (List Goal) := do
  let pipeline := ctx.get .planner
  if pipeline.isEmpty || goals.length ≤ 1 then pure goals
  else
    let (goals, notices) ←
      Engine.ofBounded (Pipeline.plan ctx.planningState pipeline goals)
    notices.forM Engine.notify
    pure goals

/-- Apply a goal in which conjunctions and disjunctions are nested less deep than
a given depth. -/
def applyWithin : Nat → Goal → Context → Engine Stream
  | 0, _, _ => throw .unending
  | depth + 1, g, ctx =>
      match g with
      | .succeed => pure (.unit ctx)
      | .fail => pure .empty
      | .equal a b => do
          match ← Engine.attempt (ctx.unify a b) with
          | .ok (some next) => pure (.unit next)
          | .ok none => pure .empty
          | .error collision => pure (.aborted (.facetCollision collision))
      | .constrain c => do
          match ← ctx.constrain c with
          | some next => pure (.unit next)
          | none => pure .empty
      | .conj goals constraints => do
          match ← ctx.constrainAll constraints with
          | none => pure .empty
          | some ctx => do
              let goals ← planned ctx goals
              Engine.notify (.conjunction goals.length)
              goals.foldlM (fun s g => s.bindBy (applyWithin depth g) g) (.unit ctx)
      | .disj goals constraints => do
          match ← ctx.constrainAll constraints with
          | none => pure .empty
          | some ctx => .interleave <$> goals.mapM (applyWithin depth · ctx)
      | .fresh names body => do
          let vars ← Engine.freshVars names.length
          ctx.fire .varsFresh (.fresh vars)
          pure (.suspended (.run (body.fill (.ofLists names (vars.map .var))) ctx))
      | .delay body => pure (.suspended (.run body ctx))
      | .call name args => pure (.suspended (.call name args ctx))
      | .relation a => pure (.suspended (.openRows a ctx))
      | .abort fault => pure (.aborted fault)
      | .yieldThenAbort fault => pure (.ready ctx (.aborted fault))

/-- Apply a goal to a context. -/
def apply (g : Goal) (ctx : Context) : Engine Stream := g.applyWithin (g.depth + 1) ctx

/-- Run the body of a suspended goal, which may turn out to apply a relation
wrongly. -/
def runBody (body : Goal) (ctx : Context) : Engine Stream :=
  match body.check with
  | .ok () => body.apply ctx
  | .error e => Engine.crash (.arity e)

end Goal

namespace RowScan

/-- The rows that a relation has for its arguments, in the order they are to be
visited, and how many there are.  An endless source has no permutation. -/
def rowsOf (a : Application) (s : Substitution) : Except Unending (RowSupply × Nat) :=
  let pattern := a.pattern s
  let source := a.relation.source
  match a.order, source.rows pattern with
  | .natural, rows => pure (rows, (source.bound pattern).upper.getD SizeBound.ceiling)
  | .shuffled seed, .listed rows => pure (.listed (Random.shuffle seed rows), rows.length)
  | .shuffled _, .endless _ _ => throw .unending

/-- Begin to try the rows of a relation.  Their number is only found out for
observers. -/
def start (a : Application) (ctx : Context) : Except Unending RowScan := do
  let (rows, total) ← rowsOf a ctx.substitution
  let broadcast := (ctx.hooks?.map (·.isObserved .rows)).getD false
  pure {
    relation := a.relation.name
    args := a.args
    context := ctx
    rows := rows
    index := 0
    total := if broadcast then total else 0
    broadcast := broadcast }

/-- Report what became of a row. -/
def report (scan : RowScan) (ctx : Context) (key : EventKey) (notice : Notice) : Engine Unit := do
  Engine.notify notice
  if scan.broadcast then ctx.fire key (.row scan.relation scan.index scan.total)

/-- Try at most so many rows, until one unifies with the arguments. -/
def tryRows : Nat → RowScan → Engine Stream
  | limit, scan =>
      match scan.rows.next, limit with
      | none, _ => pure .empty
      | some _, 0 => throw .unending
      | some (row, rows), limit + 1 => do
          let later := { scan with rows := rows, index := scan.index + 1 }
          if row.length ≠ scan.args.length then
            pure (.aborted (.rowLength scan.relation scan.index row.length scan.args.length))
          else
            match ← Engine.attempt (scan.context.unifyAll scan.args row) with
            | .error collision => pure (.aborted (.facetCollision collision))
            | .ok (some next) => do
                scan.report next .rowSucceeded (.rowSucceeded scan.relation scan.index)
                pure (.ready next (.suspended (.scan later)))
            | .ok none => do
                scan.report scan.context .rowFailed (.rowFailed scan.relation scan.index)
                tryRows limit later

/-- Try rows until one unifies or there are no more.  Only an endless source can
exhaust the patience. -/
def run (patience : Nat) (scan : RowScan) : Engine Stream :=
  match scan.rows with
  | .listed rows => scan.tryRows rows.length
  | .endless _ _ => scan.tryRows patience

end RowScan

/-- Take one context from a supply. -/
def ContextSupply.pull : ContextSupply → Engine Stream
  | .listed [] => pure .empty
  | .listed (.ok ctx :: items) => pure (.ready ctx (.suspended (.pull (.listed items))))
  | .listed (.error fault :: _) => pure (.aborted fault)
  | .countingFrom facet value => do
      let ctx ← Context.empty.set (.custom facet) value
      pure (.ready ctx (.suspended (.pull (.countingFrom facet (value + 1)))))

namespace Stream

/-- Feed every context of a stream into a goal. -/
def bind (s : Stream) (goal : Goal) : Engine Stream := s.bindBy goal.apply goal

/-- Feed every context of a stream into goals, one goal after the other. -/
def bindAll (s : Stream) (goals : List Goal) : Engine Stream := goals.foldlM bind s

end Stream

/-- Go on with a continuation. -/
def Continuation.resume : Continuation → Engine Stream
  | .stream s => pure s
  | .bind s goal => s.bind goal

/-- One stream after another; a continuation that is reached at once is resumed
at once. -/
def Stream.andThen (s : Stream) (next : Continuation) : Engine Stream :=
  match s with
  | .empty => next.resume
  | _ => pure (s.followBy next)

namespace Recipe

mutual

/-- Every relation outside of suspended parts has the right number of arguments.
The first one that has not, from left to right, is the error. -/
def check : Recipe → Except ArityMismatch Unit
  | .ready _ rest => rest.check
  | .append recipes => checkAll recipes
  | .mplus recipes => checkAll recipes
  | .interleave recipes => checkAll recipes
  | .bind recipe goals => do recipe.check; Goal.checkAll goals
  | _ => pure ()

/-- Check several recipes. -/
def checkAll : List Recipe → Except ArityMismatch Unit
  | [] => pure ()
  | recipe :: recipes => do recipe.check; checkAll recipes

end

mutual

/-- Put a stream together. -/
def build : Recipe → Engine Stream
  | .unit ctx => pure (.unit ctx)
  | .empty => pure .empty
  | .never => pure (.suspended (.build .never))
  | .ready ctx rest => .ready ctx <$> rest.build
  | .suspend recipe => pure (.suspended (.build recipe))
  | .abort fault => pure (.aborted fault)
  | .append recipes => do
      match ← buildAll recipes with
      | [] => pure .empty
      | first :: others => pure (others.foldl .append first)
  | .mplus recipes => do
      match ← buildAll recipes with
      | [] => pure .empty
      | first :: others => pure (others.foldl (fun s t => .interleave [s, t]) first)
  | .interleave recipes => .interleave <$> buildAll recipes
  | .bind recipe goals => do (← recipe.build).bindAll goals
  | .supplied supply => pure (.suspended (.pull supply))

/-- Put several streams together, from left to right. -/
def buildAll : List Recipe → Engine (List Stream)
  | [] => pure []
  | recipe :: recipes => do
      let first ← recipe.build
      let others ← buildAll recipes
      pure (first :: others)

end

/-- Put a stream together that was suspended, which may turn out to apply a
relation wrongly. -/
def buildChecked (recipe : Recipe) : Engine Stream :=
  match recipe.check with
  | .ok () => recipe.build
  | .error e => Engine.crash (.arity e)

end Recipe

/-- Force a suspension. -/
def Work.force (program : Program) : Work → Engine Stream
  | .run goal ctx => goal.runBody ctx
  | .call name args ctx =>
      match program.definitions.lookup name with
      | some definition => (definition.apply args).runBody ctx
      | none => Engine.crash (.undefinedCall name)
  | .openRows application ctx =>
      (.suspended <| .scan ·) <$> Engine.ofBounded (RowScan.start application ctx)
  | .scan rows => rows.run program.patience
  | .pull supply => supply.pull
  | .build recipe => recipe.buildChecked
  | .bind work goal => do (← work.force program).bind goal
  | .append work next => do (← work.force program).andThen next
  | .resume next => next.resume
  | .turn first others => do
      let forced ← first.force program
      pure (.interleave (others.map .suspended ++ [forced]))

/-- One move of a stream. -/
inductive Move where
  | yield (ctx : Context) (rest : Stream)
  | forced (next : Stream)
  | done
  | fault (fault : Fault)

/-- Advance a stream by one move, forcing at most one suspension. -/
def Stream.step (program : Program) : Stream → Engine Move
  | .empty => pure .done
  | .ready ctx rest => pure (.yield ctx rest)
  | .suspended work => .forced <$> work.force program
  | .aborted fault => pure (.fault fault)

/-- The first moves of a stream, at most so many, up to its end. -/
def Stream.moves (program : Program) : Nat → Stream → Engine (List Move)
  | 0, _ => pure []
  | count + 1, s => do
      let move ← s.step program
      match move with
      | .yield _ rest => (move :: ·) <$> rest.moves program count
      | .forced next => (move :: ·) <$> next.moves program count
      | _ => pure [move]

end RelationalSolver
