import RelationalSolver.Planning.Plan

/-!
# Restricting shared variables to values every relation can produce

A variable that several relation goals can reach gets an auxiliary constraint:
its values are among those that all of these relations can give it.  If there
are none, or if one of the relations has no rows, the conjunction cannot hold.
-/

namespace RelationalSolver.Planning

/-- Note that a goal can reach a variable. -/
def addSharer (p : PlannedGoal) (v : Var) :
    List (Var × List PlannedGoal) → List (Var × List PlannedGoal)
  | [] => [(v, [p])]
  | (w, goals) :: rest =>
      if w = v then (w, goals ++ [p]) :: rest else (w, goals) :: addSharer p v rest

/-- For every variable that a relation goal can reach, in order of first
occurrence, the relation goals that can reach it. -/
def sharers (goals : List PlannedGoal) : List (Var × List PlannedGoal) :=
  (goals.filter fun p => p.goal.asApplication?.isSome).foldl
    (fun table p => p.vars.foldl (fun table v => addSharer p v table) table) []

/-- Intersect the domains that the goals know for a variable, in their order;
nothing if the values run out on the way. -/
def commonDomain (s : Substitution) (v : Var) :
    Option TermSet → List PlannedGoal → Option (Option TermSet)
  | domain, [] => some domain
  | domain, p :: ps =>
      match p.goal.asApplication?.bind (·.domainOf v s) with
      | none => commonDomain s v domain ps
      | some values =>
          let next := match domain with
            | none => values
            | some known => known.inter values
          if next.isEmpty then none else commonDomain s v (some next) ps

/-- The auxiliary constraint goal of one shared variable, if any relation knows
its values, or a notice of why the conjunction cannot hold. -/
def restrictVar (s : Substitution) (v : Var) (goals : List PlannedGoal) :
    Except Notice (Option Goal) :=
  if goals.any fun p => p.size?.any (·.isZero) then throw (.emptyRelation v)
  else
    match commonDomain s v none (goals.mergeSort fun p q => rankLE p.sizeFloat q.sizeFloat) with
    | none => throw (.emptyDomain v)
    | some none => pure none
    | some (some domain) => pure (some (.constrain (.inDomain v domain)))

/-- Restrict the variables that two or more relation goals can reach, in front
of all goals. -/
def relevance (s : Substitution) (goals : List PlannedGoal) : Except Notice (List PlannedGoal) := do
  let shared := (sharers goals).filter fun (_, sharing) => 2 ≤ sharing.length
  let restrictions ← shared.mapM fun (v, sharing) => restrictVar s v sharing
  pure ((restrictions.filterMap id).map .injected ++ goals)

end RelationalSolver.Planning
