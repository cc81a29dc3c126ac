import RelationalSolver.Proofs.Context.Operations
import RelationalSolver.Proofs.Stream.Progress

/-!
# Which answers a search reaches

A disjunction reaches the answers of each branch, whatever the other branches do, if
they do not abort, which goals made of equations never do in calm contexts.  A
conjunction strings answers together, so it reaches an answer only if its goals come to
an end on what they are fed before.
-/

namespace RelationalSolver

open Engine

variable {program : Program} {numbers : Numbering} {ctx mid result : Context} {g : Goal}
variable {parts : List Goal} {beside : Goal → Context → Prop}

mutual

/-- A derivation of the answer that the search follows to its end: where it takes a
branch the branches beside it are as asked, and where it goes on to the next goal of a
conjunction that goal comes to an end on all contexts that the goals before hand out
earlier. -/
inductive Goal.Attains (program : Program) (beside : Goal → Context → Prop) :
    Goal → Context → Context → Prop
  | succeed (ctx : Context) : Goal.Attains program beside .succeed ctx ctx
  | equal {ctx next : Context} {a b : Term} (returned : Returns (ctx.unify a b) (some next)) :
      Goal.Attains program beside (.equal a b) ctx next
  | delay {ctx result : Context} {body : Goal} (proper : body.check = .ok ())
      (attains : body.Attains program beside ctx result) :
      Goal.Attains program beside (.delay body) ctx result
  | call {ctx result : Context} {name : String} {args : List Term} {definition : Definition}
      (defined : program.definitions.lookup name = some definition)
      (proper : (definition.apply args).check = .ok ())
      (attains : (definition.apply args).Attains program beside ctx result) :
      Goal.Attains program beside (.call name args) ctx result
  | disj {ctx result : Context} {parts : List Goal} {index : Nat} {part : Goal}
      (branch : parts[index]? = some part)
      (others : ∀ j other, j ≠ index → parts[j]? = some other → beside other ctx)
      (attains : part.Attains program beside ctx result) :
      Goal.Attains program beside (.disj parts []) ctx result
  | conj {ctx result : Context} {parts : List Goal}
      (attains : Goal.AttainsAll program beside parts ctx result) :
      Goal.Attains program beside (.conj parts []) ctx result

/-- The same for goals that hold one after the other. -/
inductive Goal.AttainsAll (program : Program) (beside : Goal → Context → Prop) :
    List Goal → Context → Context → Prop
  | nil (ctx : Context) : Goal.AttainsAll program beside [] ctx ctx
  | concat {ctx mid result : Context} {front : List Goal} {last : Goal}
      (attains : Goal.AttainsAll program beside front ctx mid)
      (clears : ∀ s, Always ((Stream.unit ctx).bindAll front) s → s.Clears program last mid)
      (attainsLast : last.Attains program beside mid result) :
      Goal.AttainsAll program beside (front ++ [last]) ctx result

end

/-- The left one of two branches is taken. -/
theorem Goal.Attains.left {h : Goal} (spared : beside h ctx)
    (attains : g.Attains program beside ctx result) :
    (Goal.disj [g, h] []).Attains program beside ctx result := by
  have branch : [g, h][0]? = some g := rfl
  refine .disj branch ?_ attains
  intro j other different there
  match j with
  | 0 => exact absurd rfl different
  | 1 => exact Option.some.inj there ▸ spared

/-- The right one of two branches is taken. -/
theorem Goal.Attains.right {h : Goal} (spared : beside g ctx)
    (attains : h.Attains program beside ctx result) :
    (Goal.disj [g, h] []).Attains program beside ctx result := by
  have branch : [g, h][1]? = some h := rfl
  refine .disj branch ?_ attains
  intro j other different there
  match j with
  | 0 => exact Option.some.inj there ▸ spared
  | 1 => exact absurd rfl different

mutual

/-- In calm contexts, goals made of equations meet only branches that never abort. -/
theorem Goal.Attains.steady (unfolds : program.definitions.Equational) :
    ∀ {g : Goal} {ctx result : Context}, g.Attains program beside ctx result →
      g.Equational program.definitions → ctx.Calm →
        g.Attains program (Goal.SteadyOn program) ctx result ∧ result.Calm
  | _, _, _, .succeed ctx, _, calm => ⟨.succeed ctx, calm⟩
  | _, _, _, @Attains.equal _ _ ctx next a b returned, equational, calm => by
      obtain ⟨found, always, calmNext⟩ := calm.unify equational.1 equational.2
      have same := (ctx.unify_detached a b).eq_of_returns always.returns returned
      exact ⟨.equal returned, calmNext next same⟩
  | _, _, _, .delay proper attains, equational, calm => by
      obtain ⟨attains, calmResult⟩ := attains.steady unfolds equational calm
      exact ⟨.delay proper attains, calmResult⟩
  | _, _, _, .call defined proper attains, equational, calm => by
      obtain ⟨attains, calmResult⟩ :=
        attains.steady unfolds (unfolds.apply defined equational.2) calm
      exact ⟨.call defined proper attains, calmResult⟩
  | _, _, _, .disj branch _ attains, equational, calm => by
      have each := allEquational_iff.mp equational.1
      obtain ⟨attains, calmResult⟩ :=
        attains.steady unfolds (each _ (List.mem_of_getElem? branch)) calm
      refine ⟨.disj branch ?_ attains, calmResult⟩
      exact fun j other _ there =>
        (each other (List.mem_of_getElem? there)).steadyOn unfolds calm
  | _, _, _, .conj attains, equational, calm => by
      obtain ⟨attains, calmResult⟩ :=
        attains.steady unfolds (allEquational_iff.mp equational.1) calm
      exact ⟨.conj attains, calmResult⟩

theorem Goal.AttainsAll.steady (unfolds : program.definitions.Equational) :
    ∀ {parts : List Goal} {ctx result : Context},
    Goal.AttainsAll program beside parts ctx result →
      (∀ g ∈ parts, g.Equational program.definitions) → ctx.Calm →
        Goal.AttainsAll program (Goal.SteadyOn program) parts ctx result ∧ result.Calm
  | _, _, _, .nil ctx, _, calm => ⟨.nil ctx, calm⟩
  | _, _, _, .concat attains clears attainsLast, equational, calm => by
      obtain ⟨equationalFront, equationalLast⟩ := List.forall_mem_append.mp equational
      obtain ⟨attains, calmMid⟩ := attains.steady unfolds equationalFront calm
      obtain ⟨attainsLast, calmResult⟩ :=
        attainsLast.steady unfolds (equationalLast _ (List.mem_singleton_self _)) calmMid
      exact ⟨.concat attains clears attainsLast, calmResult⟩

end

/-! ## Attained answers are yielded -/

theorem Stream.bindAll_concat (s : Stream) (front : List Goal) (last : Goal) :
    s.bindAll (front ++ [last]) = s.bindAll front >>= (·.bind last) := by
  rw [bindAll, bindAll, List.foldlM_append]
  apply bind_congr
  intro next
  rw [List.foldlM_cons]
  exact bind_pure _

/-- A disjunction provides what one of its branches provides, if the others never
abort. -/
theorem Goal.provides_disj {index : Nat} {part : Goal} (branch : parts[index]? = some part)
    (steady : ∀ j other, j ≠ index → parts[j]? = some other → other.SteadyOn program ctx)
    (provides : Provides program (part.apply ctx) result) :
    Provides program ((Goal.disj parts []).apply ctx) result := by
  obtain ⟨s, count, applies, yields⟩ := provides
  have gives : ∀ g ∈ parts, ∃ s, Always (g.apply ctx) s ∧ True := by
    intro g member
    obtain ⟨j, there⟩ := List.mem_iff_getElem?.mp member
    by_cases chosen : j = index
    · obtain rfl : part = g := Option.some.inj (branch.symm.trans (chosen ▸ there))
      exact ⟨s, applies, trivial⟩
    · obtain ⟨t, always, _⟩ := steady j g chosen there
      exact ⟨t, always, trivial⟩
  obtain ⟨streams, all, _, each⟩ := exists_always_mapM gives
  have stands : streams[index]? = some s := by
    have here := each index
    rw [branch] at here
    generalize streams[index]? = found at here ⊢
    cases here with
    | some always => rw [always.unique applies]
  have others : ∀ j t, j ≠ index → streams[j]? = some t → t.Steady (.always program) 0 := by
    intro j t other there
    have here := each j
    rw [there] at here
    generalize among : parts[j]? = found at here
    cases here with
    | some always =>
        obtain ⟨t', always', steadyHere⟩ := steady j _ other among
        exact always'.unique always ▸ steadyHere
  obtain ⟨total, yields⟩ := yields.interleave stands others
  exact ⟨.interleave streams, total, always_disj all, yields⟩

/-- What suspended work provides when it is forced, its suspension provides. -/
theorem provides_suspended {work : Work} (forced : Provides program (work.force program) result) :
    Provides program (pure (.suspended work)) result := by
  obtain ⟨s, count, forces, yields⟩ := forced
  exact ⟨.suspended work, count + 1, always_pure _, .forced forces yields⟩

theorem Goal.provides_runBody {body : Goal} (proper : body.check = .ok ())
    (provides : Provides program (body.apply ctx) result) :
    Provides program (body.runBody ctx) result := by
  rw [runBody, proper]
  exact provides

theorem provides_unit (ctx : Context) : Provides program (pure (.unit ctx)) ctx :=
  ⟨.unit ctx, 0, always_pure _, .here⟩

mutual

/-- An attained answer is provided. -/
theorem Goal.Attains.provides : ∀ {g : Goal} {ctx result : Context},
    g.Attains program (Goal.SteadyOn program) ctx result → ctx.get .planner = [] →
      Provides program (g.apply ctx) result ∧ result.get .planner = []
  | _, _, _, .succeed ctx, unplanned => ⟨provides_unit ctx, unplanned⟩
  | _, _, _, @Attains.equal _ _ ctx next a b returned, unplanned => by
      have passes := (Context.unify_detached ctx a b).of_returns returned next rfl
      have always := (Context.unify_detached ctx a b).always returned
      exact ⟨⟨.unit next, 0, always_equal always, .here⟩, passes.get_eq.trans unplanned⟩
  | _, _, _, .delay proper attains, unplanned => by
      obtain ⟨provides, later⟩ := attains.provides unplanned
      exact ⟨provides_suspended (provides_runBody proper provides), later⟩
  | _, _, _, @Attains.call _ _ ctx _ name args definition defined proper attains, unplanned => by
      obtain ⟨provides, later⟩ := attains.provides unplanned
      refine ⟨provides_suspended ?_, later⟩
      rw [Work.force, defined]
      exact provides_runBody proper provides
  | _, _, _, .disj branch steady attains, unplanned => by
      obtain ⟨provides, later⟩ := attains.provides unplanned
      exact ⟨provides_disj branch steady provides, later⟩
  | _, _, _, .conj attains, unplanned => by
      obtain ⟨⟨s, count, all, yields⟩, later⟩ := attains.provides unplanned
      exact ⟨⟨s, count, always_conj unplanned all, yields⟩, later⟩

theorem Goal.AttainsAll.provides : ∀ {parts : List Goal} {ctx result : Context},
    Goal.AttainsAll program (Goal.SteadyOn program) parts ctx result → ctx.get .planner = [] →
      Provides program ((Stream.unit ctx).bindAll parts) result ∧ result.get .planner = []
  | _, _, _, .nil ctx, unplanned => ⟨provides_unit ctx, unplanned⟩
  | _, _, _, .concat attains clears attainsLast, unplanned => by
      obtain ⟨⟨s, count, binds, yields⟩, between⟩ := attains.provides unplanned
      obtain ⟨provides, later⟩ := attainsLast.provides between
      obtain ⟨t, total, bindsLast, yieldsLast⟩ := yields.bind provides (clears s binds)
      refine ⟨⟨t, total, ?_, yieldsLast⟩, later⟩
      rw [Stream.bindAll_concat]
      exact binds.bind bindsLast

end

mutual

/-- An attained answer has a derivation: whatever has one from the answer on has one that
begins with the goal. -/
theorem Goal.Attains.derivation (numbers : Numbering) : ∀ {g : Goal} {ctx result : Context},
    g.Attains program beside ctx result → ∀ path, ∃ later, ∀ goals last final,
      Derivation program numbers later result goals last final →
        Derivation program numbers path ctx (g :: goals) last final
  | _, _, _, .succeed ctx, path => ⟨path, fun _ _ _ rest => .succeed rest⟩
  | _, _, _, .equal returned, path => ⟨path, fun _ _ _ rest => .equal returned rest⟩
  | _, _, _, .delay _ attains, path => by
      obtain ⟨later, derives⟩ := attains.derivation numbers (path ++ [.unfold])
      exact ⟨later, fun goals last final rest => .delay (derives goals last final rest)⟩
  | _, _, _, .call defined _ attains, path => by
      obtain ⟨later, derives⟩ := attains.derivation numbers (path ++ [.unfold])
      exact ⟨later, fun goals last final rest => .call defined (derives goals last final rest)⟩
  | _, ctx, _, @Attains.disj _ _ _ _ _ index _ branch _ attains, path => by
      obtain ⟨later, derives⟩ := attains.derivation numbers (path ++ [.branch index])
      have returned : Returns (ctx.constrainAll []) (some ctx) := ⟨.start 0 0, _, rfl⟩
      exact ⟨later, fun goals last final rest =>
        .disj returned branch (derives goals last final rest)⟩
  | _, ctx, _, .conj attains, path => by
      obtain ⟨later, derives⟩ := attains.derivation numbers path
      have returned : Returns (ctx.constrainAll []) (some ctx) := ⟨.start 0 0, _, rfl⟩
      exact ⟨later, fun goals last final rest => .conj returned (derives goals last final rest)⟩

theorem Goal.AttainsAll.derivation (numbers : Numbering) :
    ∀ {parts : List Goal} {ctx result : Context},
    Goal.AttainsAll program beside parts ctx result → ∀ path, ∃ later, ∀ goals last final,
      Derivation program numbers later result goals last final →
        Derivation program numbers path ctx (parts ++ goals) last final
  | _, _, _, .nil ctx, path => ⟨path, fun _ _ _ rest => rest⟩
  | _, _, _, .concat attains _ attainsLast, path => by
      obtain ⟨between, derives⟩ := attains.derivation numbers path
      obtain ⟨later, derivesLast⟩ := attainsLast.derivation numbers between
      refine ⟨later, fun goals last final rest => ?_⟩
      rw [List.append_assoc]
      exact derives _ last final (derivesLast goals last final rest)

end

/-- A search of the goal yields the answer after a bounded number of suspensions, the
same in every session. -/
def Goal.YieldsInTime (program : Program) (g : Goal) (ctx result : Context) : Prop :=
  ∃ count, ∀ start, ∃ moves rest finish,
    Runs (g.search program (moves.length + 1) ctx) start (moves ++ [.yield result rest]) finish ∧
    moves.countP Move.isForced ≤ count

theorem Goal.Attains.yieldsInTime (attains : g.Attains program (Goal.SteadyOn program) ctx result)
    (unplanned : ctx.get .planner = []) : g.YieldsInTime program ctx result := by
  obtain ⟨⟨s, count, applies, yields⟩, _⟩ := attains.provides unplanned
  refine ⟨count, ?_⟩
  intro start
  obtain ⟨between, applied⟩ := applies start
  obtain ⟨moves, rest, finish, ran, within⟩ := yields.inSessions between
  exact ⟨moves, rest, finish, runs_bind.mpr ⟨s, between, applied, ran⟩, within⟩

/-- A search without a planner yields every answer that is attained beside branches that
never abort.  From a calm context, goals made of equations meet no other branches. -/
theorem Goal.search_complete (unplanned : ctx.get .planner = []) :
    (g.Attains program (Goal.SteadyOn program) ctx result → g.YieldsInTime program ctx result) ∧
    (program.definitions.Equational → g.Equational program.definitions →
      ctx.Orderly Constraint.Proper → g.Attains program (fun _ _ => True) ctx result →
        g.YieldsInTime program ctx result) := by
  constructor
  · exact fun attains => attains.yieldsInTime unplanned
  · intro unfolds equational orderly attains
    exact (attains.steady unfolds equational ⟨orderly, unplanned⟩).1.yieldsInTime unplanned

/-! ## A definition that goes on forever -/

/-- A definition that calls itself. -/
def Program.endless : Program := ⟨[("endless", ⟨[], .call "endless" []⟩)], 0⟩

/-- The variable is one or two. -/
def Goal.oneTwo : Goal :=
  .disj [.equal (.var (.numbered 1)) (.int 1), .equal (.var (.numbered 1)) (.int 2)] []

/-- The variable is two, or the search goes on forever. -/
def Goal.twoOrEndless : Goal :=
  .disj [.equal (.var (.numbered 1)) (.int 2), .call "endless" []] []

/-- The variable is two, or nothing holds. -/
def Goal.twoOrFail : Goal := .disj [.equal (.var (.numbered 1)) (.int 2), .fail] []

/-- The search goes on forever, or the variable is two. -/
def Goal.besideEndless : Goal := .disj [.call "endless" [], .conj [oneTwo, twoOrFail] []] []

theorem Goal.always_disj_pair {g h : Goal} {s t : Stream} (one : Always (g.apply ctx) s)
    (two : Always (h.apply ctx) t) :
    Always ((Goal.disj [g, h] []).apply ctx) (.interleave [s, t]) :=
  always_disj (always_mapM_cons one (always_mapM_cons two (always_pure [])))

/-- Unifying the variable with one and with two. -/
structure Context.UnifiesOneTwo (ctx one two : Context) : Prop where
  isOne : Always (ctx.unify (.var (.numbered 1)) (.int 1)) (some one)
  isTwo : Always (ctx.unify (.var (.numbered 1)) (.int 2)) (some two)
  differs : Always (one.unify (.var (.numbered 1)) (.int 2)) none
  agrees : Always (two.unify (.var (.numbered 1)) (.int 2)) (some two)

theorem Context.exists_unifiesOneTwo (start : ctx = .empty ∨ ctx = .checked) :
    ∃ one two, UnifiesOneTwo ctx one two := by
  rcases start with rfl | rfl
  · exact ⟨_, _, fun _ => ⟨_, rfl⟩, fun _ => ⟨_, rfl⟩, fun _ => ⟨_, rfl⟩, fun _ => ⟨_, rfl⟩⟩
  · exact ⟨_, _, fun _ => ⟨_, rfl⟩, fun _ => ⟨_, rfl⟩, fun _ => ⟨_, rfl⟩, fun _ => ⟨_, rfl⟩⟩

variable {one two : Context}

theorem Goal.always_oneTwo (unifies : ctx.UnifiesOneTwo one two) :
    Always (oneTwo.apply ctx) (.ready one (.ready two .empty)) := by
  have pair := always_disj_pair (always_equal unifies.isOne) (always_equal unifies.isTwo)
  have turns : Stream.interleave [.unit one, .unit two] = .ready one (.ready two .empty) := by
    simp [Stream.interleave, Stream.rotate, Stream.passedBehind, Stream.unit, Stream.ofWorks]
  exact turns ▸ pair

/-- The second answer of a goal is attained, since the next goal comes to an end on the
first one. -/
theorem Goal.attains_besideEndless (unifies : ctx.UnifiesOneTwo one two)
    (endless : beside (.call "endless" []) ctx)
    (isOne : beside (.equal (.var (.numbered 1)) (.int 1)) ctx) (fail : beside .fail two) :
    besideEndless.Attains .endless beside ctx two := by
  have first : oneTwo.Attains .endless beside ctx two := .right isOne (.equal unifies.isTwo.returns)
  have second : twoOrFail.Attains .endless beside two two :=
    .left fail (.equal unifies.agrees.returns)
  have nothing : Stream.interleave [.empty, .empty] = .empty := by
    simp [Stream.interleave, Stream.rotate, Stream.passedBehind, Stream.ofWorks]
  have fails : Always (Goal.fail.apply one) Stream.empty := always_pure _
  have ends : twoOrFail.EndsOn .endless one := by
    refine ⟨_, always_disj_pair (always_equal unifies.differs) fails, ?_⟩
    change Stream.Ends _ (Stream.interleave [.empty, .empty])
    rw [nothing]
    exact .empty
  have begins : Always ((Stream.unit ctx).bind oneTwo) _ :=
    Stream.bind_ready (always_oneTwo unifies) (by simp)
  have both : AttainsAll .endless beside [oneTwo, twoOrFail] ctx two := by
    refine .concat (.concat (.nil ctx) ?_ first) ?_ second
    · intro s begun
      rw [begun.unique (always_pure _)]
      exact Stream.clears_here .empty
    · intro s begun
      rw [begun.unique (begins.bind (always_pure _))]
      exact Stream.Clears.ready ends (Stream.clears_here _)
  exact .right endless (.conj both)

/-- Calling the definition never aborts. -/
theorem Goal.endless_steadyOn (ctx : Context) : (Goal.call "endless" []).SteadyOn .endless ctx := by
  refine ⟨.suspended (.call "endless" [] ctx), always_pure _, ?_⟩
  intro depth
  induction depth with
  | zero => trivial
  | succ depth ih =>
      refine ⟨rfl, ?_⟩
      intro work member before _
      rw [List.mem_singleton.mp member]
      exact ⟨_, (), fun before => ⟨before, rfl⟩, ih⟩

theorem Program.endless_equational : Program.endless.definitions.Equational := by
  intro name definition defined
  obtain ⟨before, after, entries, _⟩ := List.lookup_eq_some_iff.mp defined
  have member : (name, definition) ∈ Program.endless.definitions := by
    rw [entries]
    simp
  cases List.mem_singleton.mp member
  exact ⟨rfl, nofun⟩

theorem Goal.besideEndless_equational : besideEndless.Equational Program.endless.definitions := by
  have named : (Term.var (.numbered 1)).WildcardFree := by decide
  have equation : ∀ n, (Goal.equal (.var (.numbered 1)) (.int n)).Equational
      Program.endless.definitions := fun n => ⟨named, rfl⟩
  have oneTwo : oneTwo.Equational Program.endless.definitions :=
    ⟨⟨equation 1, equation 2, trivial⟩, rfl⟩
  have twoOrFail : twoOrFail.Equational Program.endless.definitions :=
    ⟨⟨equation 2, trivial, trivial⟩, rfl⟩
  exact ⟨⟨⟨rfl, nofun⟩, ⟨⟨oneTwo, twoOrFail, trivial⟩, rfl⟩, trivial⟩, rfl⟩

/-- Beside a branch that goes on forever, the second answer of a goal is yielded: in the
empty context because the branches beside never abort, and with the occurrence test
without looking at them. -/
theorem Goal.search_besideEndless :
    (Context.empty.get .planner = [] ∧ ∃ result,
      besideEndless.Attains .endless (Goal.SteadyOn .endless) .empty result ∧
      besideEndless.YieldsInTime .endless .empty result) ∧
    Context.checked.get .planner = [] ∧ Program.endless.definitions.Equational ∧
      besideEndless.Equational Program.endless.definitions ∧
      Context.checked.Orderly Constraint.Proper ∧ ∃ result,
        besideEndless.Attains .endless (fun _ _ => True) .checked result ∧
        besideEndless.YieldsInTime .endless .checked result := by
  constructor
  · obtain ⟨one, two, unifies⟩ := Context.exists_unifiesOneTwo (.inl rfl)
    have isOne : (Goal.equal (.var (.numbered 1)) (.int 1)).SteadyOn .endless .empty :=
      ⟨.unit one, always_equal unifies.isOne, Stream.steady_of_works rfl rfl⟩
    have fail : Goal.fail.SteadyOn .endless two :=
      ⟨.empty, always_pure _, Stream.steady_of_works rfl rfl⟩
    have attains := attains_besideEndless unifies (endless_steadyOn .empty) isOne fail
    exact ⟨rfl, two, attains, (search_complete rfl).1 attains⟩
  · obtain ⟨one, two, unifies⟩ := Context.exists_unifiesOneTwo (.inr rfl)
    have attains : besideEndless.Attains .endless (fun _ _ => True) .checked two :=
      attains_besideEndless unifies trivial trivial trivial
    have orderly := Context.orderly_checked Constraint.Proper
    exact ⟨rfl, Program.endless_equational, besideEndless_equational, orderly, two, attains,
      (search_complete rfl).2 Program.endless_equational besideEndless_equational orderly attains⟩

/-! ## Answers that are not reached -/

/-- A suspension that is forced to itself is forced again and again. -/
theorem Stream.runs_stuck {work : Work} (stuck : Always (work.force program) (.suspended work))
    (count : Nat) (start : Session) : ∃ finish, Runs ((suspended work).moves program count) start
      (List.replicate count (.forced (.suspended work))) finish := by
  induction count generalizing start with
  | zero => exact ⟨start, rfl⟩
  | succ count ih =>
      obtain ⟨between, forced⟩ := stuck start
      obtain ⟨finish, ran⟩ := ih between
      refine ⟨finish, runs_bind.mpr ⟨_, between, runs_map.mpr ⟨_, forced, rfl⟩, ?_⟩⟩
      exact runs_map.mpr ⟨_, ran, rfl⟩

theorem Stream.interleave_empty_suspended (work : Work) :
    Stream.interleave [.empty, .suspended work] = .suspended work := by
  simp [Stream.interleave, Stream.rotate, Stream.passedBehind, Stream.ofWorks]

/-- The first answer of the first goal keeps the search busy forever. -/
theorem Goal.always_unreached (unifies : Context.empty.UnifiesOneTwo one two) :
    ∃ next, Always ((Goal.conj [oneTwo, twoOrEndless] []).apply .empty)
      (.suspended (.append (.call "endless" [] one) next)) := by
  have call : Always ((Goal.call "endless" []).apply one) (.suspended (.call "endless" [] one)) :=
    always_pure _
  have second := always_disj_pair (always_equal unifies.differs) call
  change Always _ (Stream.interleave [.empty, _]) at second
  rw [Stream.interleave_empty_suspended] at second
  obtain ⟨rest, first⟩ : ∃ rest, Always ((Stream.unit .empty).bind oneTwo) (.ready one rest) :=
    ⟨_, Stream.bind_ready (always_oneTwo unifies) (by simp)⟩
  have later : Always ((Stream.ready one rest).bind twoOrEndless) _ :=
    Stream.bind_ready second nofun
  exact ⟨_, always_conj rfl (first.bind (later.bind (always_pure _)))⟩

/-- A run of a stream that has aborted yields nothing. -/
theorem Stream.runs_aborted (program : Program) (fault : Fault) (count : Nat) (start : Session) :
    ∃ moves, Runs ((aborted fault).moves program count) start moves start ∧
      ∀ ctx rest, Move.yield ctx rest ∉ moves := by
  cases count with
  | zero => exact ⟨[], rfl, fun _ _ => List.not_mem_nil⟩
  | succ count => exact ⟨[.fault fault], rfl, fun ctx rest => by simp⟩

/-- A context in which the name of the bindings is taken. -/
def Context.obstructed : Context := ⟨[⟨.custom ⟨"substitutions", "Other"⟩, (0 : Int)⟩]⟩

/-- A branch that binds a variable aborts there, and the disjunction with it. -/
theorem Goal.always_aborted : ∃ fault, Always
    ((Goal.disj [.equal (.var (.numbered 1)) (.int 1), .delay .succeed] []).apply .obstructed)
      (.aborted fault) := by
  obtain ⟨fault, bindsFirst⟩ : ∃ fault, Always
      ((Goal.equal (.var (.numbered 1)) (.int 1)).apply .obstructed) (.aborted fault) :=
    ⟨_, fun before => ⟨_, rfl⟩⟩
  have delays : Always ((Goal.delay .succeed).apply .obstructed)
    (.suspended (.run .succeed .obstructed)) := always_pure _
  have pair := always_disj_pair bindsFirst delays
  have turns : Stream.interleave [.aborted fault, .suspended (.run .succeed .obstructed)] =
      .aborted fault := by
    simp [Stream.interleave, Stream.rotate]
  exact ⟨fault, turns ▸ pair⟩

/-- An answer of the goal has a derivation, and is in no run. -/
def Goal.MissesAnswer (program : Program) (g : Goal) (ctx : Context) : Prop :=
  ctx.get .planner = [] ∧ ctx.hooks? = none ∧ ∃ result,
    (∀ numbers, ∃ last, Derivation program numbers [] ctx [g] last result) ∧
    ∀ count start, ∃ moves finish, Runs (g.search program count ctx) start moves finish ∧
      ∀ rest, Move.yield result rest ∉ moves

/-- Answers are missed behind an answer with which the next goal goes on forever, and
beside a branch that aborts. -/
theorem Goal.search_incomplete :
    (Goal.conj [oneTwo, twoOrEndless] []).MissesAnswer .endless .empty ∧
    (Goal.disj [.equal (.var (.numbered 1)) (.int 1), .delay .succeed] []).MissesAnswer .endless
      .obstructed := by
  have attached : ∀ ctx : Context, Returns (ctx.constrainAll []) (some ctx) :=
    fun ctx => ⟨.start 0 0, _, rfl⟩
  constructor
  · obtain ⟨one, two, unifies⟩ := Context.exists_unifiesOneTwo (.inl rfl)
    obtain ⟨next, applies⟩ := always_unreached unifies
    refine ⟨rfl, rfl, two, ?_, ?_⟩
    · intro numbers
      have second : [Goal.equal (.var (.numbered 1)) (.int 1), .equal (.var (.numbered 1))
        (.int 2)][1]? = some (.equal (.var (.numbered 1)) (.int 2)) := rfl
      have first : [Goal.equal (.var (.numbered 1)) (.int 2), .call "endless" []][0]? =
        some (.equal (.var (.numbered 1)) (.int 2)) := rfl
      exact ⟨_, .conj (attached _) (.disj (attached _) second (.equal unifies.isTwo.returns
        (.disj (attached _) first (.equal unifies.agrees.returns (.done _ _)))))⟩
    · intro count start
      have stuck : Always ((Work.append (.call "endless" [] one) next).force .endless)
        (.suspended (.append (.call "endless" [] one) next)) := fun before => ⟨before, rfl⟩
      obtain ⟨between, applied⟩ := applies start
      obtain ⟨finish, ran⟩ := Stream.runs_stuck stuck count between
      refine ⟨_, finish, runs_bind.mpr ⟨_, between, applied, ran⟩, ?_⟩
      intro rest member
      cases (List.mem_replicate.mp member).2
  · have branch : [Goal.equal (.var (.numbered 1)) (.int 1), .delay .succeed][1]? =
      some (.delay .succeed) := rfl
    refine ⟨rfl, rfl, .obstructed, ?_, ?_⟩
    · exact fun numbers => ⟨_, .disj (attached _) branch (.delay (.succeed (.done _ _)))⟩
    · intro count start
      obtain ⟨fault, applies⟩ := always_aborted
      obtain ⟨between, applied⟩ := applies start
      obtain ⟨moves, ran, none⟩ := Stream.runs_aborted .endless fault count between
      exact ⟨moves, between, runs_bind.mpr ⟨_, between, applied, ran⟩, fun rest => none _ rest⟩

end RelationalSolver
