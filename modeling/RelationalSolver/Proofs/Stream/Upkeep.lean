import RelationalSolver.Proofs.Planning.Pipeline
import RelationalSolver.Proofs.Stream.Derivations
import RelationalSolver.Proofs.Stream.Turns

/-!
# What a search keeps up

A discipline is a property of computations that holds of everything that running
goals consists of, as long as the contexts that are involved are good, and that
passes from parts to wholes.  Applying goals, putting streams together and forcing
them then have the property too, and hand on good contexts only.
-/

namespace RelationalSolver

/-! ## The contexts that a stream carries -/

/-- The supply can give the context. -/
def ContextSupply.Carries (ctx : Context) : ContextSupply → Prop
  | .listed items => .ok ctx ∈ items
  | .countingFrom facet _ => ∃ value, Context.empty.trySet (.custom facet) value = .ok ctx

mutual

/-- The context is part of the recipe. -/
def Recipe.Carries (ctx : Context) : Recipe → Prop
  | .unit other => other = ctx
  | .empty => False
  | .never => False
  | .ready other rest => other = ctx ∨ rest.Carries ctx
  | .suspend recipe => recipe.Carries ctx
  | .abort _ => False
  | .append recipes => Recipe.AnyCarries ctx recipes
  | .mplus recipes => Recipe.AnyCarries ctx recipes
  | .interleave recipes => Recipe.AnyCarries ctx recipes
  | .bind recipe _ => recipe.Carries ctx
  | .supplied supply => supply.Carries ctx

/-- The context is part of one of the recipes. -/
def Recipe.AnyCarries (ctx : Context) : List Recipe → Prop
  | [] => False
  | recipe :: recipes => recipe.Carries ctx ∨ Recipe.AnyCarries ctx recipes

end

mutual

/-- The context is ready in the stream, or suspended work begins with it. -/
def Stream.Carries (ctx : Context) : Stream → Prop
  | .empty => False
  | .ready other rest => other = ctx ∨ rest.Carries ctx
  | .suspended work => work.Carries ctx
  | .aborted _ => False

def Work.Carries (ctx : Context) : Work → Prop
  | .run _ other => other = ctx
  | .call _ _ other => other = ctx
  | .openRows _ other => other = ctx
  | .scan rows => rows.context = ctx
  | .pull supply => supply.Carries ctx
  | .build recipe => recipe.Carries ctx
  | .bind work _ => work.Carries ctx
  | .append work next => work.Carries ctx ∨ next.Carries ctx
  | .resume next => next.Carries ctx
  | .turn first others => first.Carries ctx ∨ Work.AnyCarries ctx others

def Work.AnyCarries (ctx : Context) : List Work → Prop
  | [] => False
  | work :: works => work.Carries ctx ∨ Work.AnyCarries ctx works

def Continuation.Carries (ctx : Context) : Continuation → Prop
  | .stream s => s.Carries ctx
  | .bind s _ => s.Carries ctx

end

variable {ctx : Context} {queue : List Stream}

theorem Work.anyCarries_iff {works : List Work} :
    AnyCarries ctx works ↔ ∃ work ∈ works, work.Carries ctx := by
  induction works with
  | nil => simp [AnyCarries]
  | cons work works ih => simp [AnyCarries, ih]

namespace Stream

theorem carries_followBy {next : Continuation} : ∀ {s : Stream},
    (s.followBy next).Carries ctx → s.Carries ctx ∨ next.Carries ctx
  | .empty, carries => .inr carries
  | .ready _ _, .inl same => .inl (.inl same)
  | .ready _ _, .inr later => (carries_followBy later).imp_left .inr
  | .suspended _, carries => carries
  | .aborted _, carries => carries.elim

theorem carries_ofWorks {works : List Work} (carries : (ofWorks works).Carries ctx) :
    ∃ work ∈ works, work.Carries ctx := by
  match works, carries with
  | [work], carries => exact ⟨work, List.mem_singleton_self work, carries⟩
  | work :: other :: others, carries => exact Work.anyCarries_iff.mp carries

/-- Streams that take turns carry nothing but what each of them carries. -/
theorem carries_interleave (carries : (interleave queue).Carries ctx) :
    ∃ s ∈ queue, s.Carries ctx := by
  rw [interleave_eq_takeTurns] at carries
  induction queue using turns_induction with
  | suspended works =>
      rw [takeTurns_suspended] at carries
      obtain ⟨work, member, carries⟩ := carries_ofWorks carries
      exact ⟨.suspended work, List.mem_map_of_mem member, carries⟩
  | ended works queue ih =>
      rw [takeTurns_empty] at carries
      obtain ⟨s, member, carries⟩ := ih carries
      refine ⟨s, ?_, carries⟩
      rcases List.mem_append.mp member with later | passed
      · exact List.mem_append_right _ (List.mem_cons_of_mem _ later)
      · exact List.mem_append_left _ passed
  | ready works other rest queue ih =>
      rw [takeTurns_ready] at carries
      rcases carries with same | carries
      · exact ⟨.ready other rest, List.mem_append_right _ (List.mem_cons_self ..), .inl same⟩
      · obtain ⟨s, member, carries⟩ := ih carries
        rcases List.mem_append.mp member with before | last
        · refine ⟨s, ?_, carries⟩
          rcases List.mem_append.mp before with later | passed
          · exact List.mem_append_right _ (List.mem_cons_of_mem _ later)
          · exact List.mem_append_left _ passed
        · rw [List.mem_singleton.mp last] at carries
          exact ⟨.ready other rest, List.mem_append_right _ (List.mem_cons_self ..), .inr carries⟩
  | aborted works fault queue =>
      rw [takeTurns_aborted] at carries
      exact carries.elim

end Stream

/-! ## Disciplines -/

/-- A property of computations, with a condition on results, that holds of whatever
running goals consists of.  `Good` contexts are given, and good ones are handed on. -/
structure Discipline (Good : Context → Prop)
    (Keeps : {α : Type} → Engine α → (α → Prop) → Prop) : Prop where
  pure : ∀ {α : Type} {a : α} {condition : α → Prop}, condition a → Keeps (pure a) condition
  bind : ∀ {α β : Type} {x : Engine α} {f : α → Engine β} {condition : α → Prop}
    {result : β → Prop}, Keeps x condition → (∀ a, condition a → Keeps (f a) result) →
    Keeps (x >>= f) result
  unending : ∀ {α : Type} {condition : α → Prop}, Keeps (throw .unending) condition
  arity : ∀ {α : Type} {condition : α → Prop} (e : ArityMismatch),
    Keeps (Engine.crash (.arity e)) condition
  undefinedCall : ∀ {α : Type} {condition : α → Prop} (name : String),
    Keeps (Engine.crash (.undefinedCall name)) condition
  notify : ∀ notice : Notice, notice.OfSearch → Keeps (Engine.notify notice) fun _ => True
  freshVars : ∀ count, Keeps (Engine.freshVars count) fun _ => True
  fire : ∀ (ctx : Context) key payload, EventKey.OfSearch key →
    Keeps (ctx.fire key payload) fun _ => True
  unify : ∀ {ctx : Context} (a b : Term), Good ctx → Keeps (Engine.attempt (ctx.unify a b))
    fun attempted => ∀ next, attempted = .ok (some next) → Good next
  unifyAll : ∀ {ctx : Context} (as bs : List Term), Good ctx →
    Keeps (Engine.attempt (ctx.unifyAll as bs))
      fun attempted => ∀ next, attempted = .ok (some next) → Good next
  constrain : ∀ {ctx : Context} (c : Constraint), Good ctx → Keeps (ctx.constrain c)
    fun result => ∀ next, result = some next → Good next
  counted : ∀ facet value, Keeps (Context.empty.set (.custom facet) value)
    fun next => Context.empty.trySet (.custom facet) value = .ok next

namespace Discipline

variable {Good : Context → Prop} {Keeps : {α : Type} → Engine α → (α → Prop) → Prop}
variable {α β : Type} {program : Program} {goals : List Goal}

/-- The stream carries good contexts only. -/
def Hands (Good : Context → Prop) (s : Stream) : Prop := ∀ ctx, s.Carries ctx → Good ctx

theorem hands_empty : Hands Good .empty := fun _ carries => carries.elim

theorem hands_aborted (fault : Fault) : Hands Good (.aborted fault) :=
  fun _ carries => carries.elim

theorem hands_unit (good : Good ctx) : Hands Good (.unit ctx) := by
  rintro other (same | impossible)
  · exact same ▸ good
  · exact impossible.elim

theorem hands_interleave (hands : ∀ s ∈ queue, Hands Good s) : Hands Good (.interleave queue) := by
  intro ctx carries
  obtain ⟨s, member, carries⟩ := Stream.carries_interleave carries
  exact hands s member ctx carries

theorem mono (d : Discipline Good Keeps) {x : Engine α} {stronger condition : α → Prop}
    (keeps : Keeps x stronger) (weaker : ∀ a, stronger a → condition a) : Keeps x condition := by
  rw [← bind_pure x]
  exact d.bind keeps fun a holds => d.pure (weaker a holds)

theorem map (d : Discipline Good Keeps) {x : Engine α} {g : α → β} {condition : α → Prop}
    {result : β → Prop} (keeps : Keeps x condition) (holds : ∀ a, condition a → result (g a)) :
    Keeps (g <$> x) result := by
  rw [map_eq_pure_bind]
  exact d.bind keeps fun a given => d.pure (holds a given)

theorem ofBounded (d : Discipline Good Keeps) (bounded : Except Unending α) :
    Keeps (Engine.ofBounded bounded) fun a => bounded = .ok a := by
  cases bounded with
  | ok a => exact d.pure rfl
  | error e => exact d.unending

theorem constrainAll (d : Discipline Good Keeps) : ∀ (constraints : List Constraint)
    {ctx : Context}, Good ctx → Keeps (ctx.constrainAll constraints)
      fun result => ∀ next, result = some next → Good next
  | [], ctx, good => d.pure fun next same => by cases same; exact good
  | c :: constraints, ctx, good => by
      apply d.bind (d.constrain c good)
      intro result kept
      cases result with
      | none => exact d.pure nofun
      | some next => exact d.constrainAll constraints (kept next rfl)

/-! ## Goals -/

theorem planned (d : Discipline Good Keeps) (ctx : Context) (parts : List Goal) :
    Keeps (Goal.planned ctx parts) fun _ => True := by
  rw [Goal.planned]
  dsimp only
  split
  · exact d.pure trivial
  · apply d.bind (d.ofBounded _)
    rintro ⟨plan, notices⟩ planned
    have searches := Pipeline.plan_notices planned
    clear planned
    have notified : Keeps (notices.forM Engine.notify) fun _ => True := by
      induction notices with
      | nil => exact d.pure trivial
      | cons notice notices ih =>
          rw [List.forall_mem_cons] at searches
          exact d.bind (d.notify notice searches.1) fun _ _ => ih searches.2
    exact d.bind notified fun _ _ => d.pure trivial

theorem bindBy (d : Discipline Good Keeps) {run : Context → Engine Stream} (goal : Goal)
    (runs : ∀ ctx, Good ctx → Keeps (run ctx) (Hands Good)) : ∀ s : Stream, Hands Good s →
      Keeps (s.bindBy run goal) (Hands Good)
  | .empty, _ => d.pure hands_empty
  | .aborted fault, _ => d.pure (hands_aborted fault)
  | .suspended work, hands => d.pure hands
  | .ready ctx rest, hands => by
      have later : Hands Good rest := fun other carries => hands other (.inr carries)
      apply d.bind (runs ctx (hands ctx (.inl rfl)))
      intro answers given
      have followed : Hands Good (answers.followBy (.bind rest goal)) := by
        intro other carries
        rcases Stream.carries_followBy carries with here | there
        · exact given other here
        · exact later other there
      cases answers with
      | empty => exact d.bindBy goal runs rest later
      | ready other more => exact d.pure followed
      | suspended work => exact d.pure followed
      | aborted fault => exact d.pure followed

theorem foldlM (d : Discipline Good Keeps) {run : Goal → Context → Engine Stream}
    (runs : ∀ g ctx, Good ctx → Keeps (run g ctx) (Hands Good)) : ∀ (parts : List Goal)
      (s : Stream), Hands Good s →
      Keeps (parts.foldlM (fun s g => s.bindBy (run g) g) s) (Hands Good)
  | [], _, hands => d.pure hands
  | part :: parts, s, hands => by
      rw [List.foldlM_cons]
      exact d.bind (d.bindBy part (runs part) s hands) fun next => d.foldlM runs parts next

theorem mapM (d : Discipline Good Keeps) {run : Goal → Engine Stream}
    (runs : ∀ g, Keeps (run g) (Hands Good)) (parts : List Goal) :
    Keeps (parts.mapM run) fun queue => ∀ s ∈ queue, Hands Good s := by
  induction parts with
  | nil => exact d.pure nofun
  | cons part parts ih =>
      rw [List.mapM_cons]
      apply d.bind (runs part)
      intro s hands
      apply d.bind ih
      exact fun queue rest => d.pure (List.forall_mem_cons.mpr ⟨hands, rest⟩)

theorem applyWithin (d : Discipline Good Keeps) : ∀ (depth : Nat) (g : Goal) (ctx : Context),
    Good ctx → Keeps (g.applyWithin depth ctx) (Hands Good)
  | 0, _, _, _ => d.unending
  | depth + 1, g, ctx, good => by
      have suspended : ∀ work : Work, (∀ other, work.Carries other → other = ctx) →
          Hands Good (.suspended work) := by
        intro work only other carries
        rw [only other carries]
        exact good
      cases g with
      | succeed => exact d.pure (hands_unit good)
      | fail => exact d.pure hands_empty
      | equal a b =>
          apply d.bind (d.unify a b good)
          intro attempted kept
          match attempted, kept with
          | .ok (some next), kept => exact d.pure (hands_unit (kept next rfl))
          | .ok none, _ => exact d.pure hands_empty
          | .error collision, _ => exact d.pure (hands_aborted _)
      | constrain c =>
          apply d.bind (d.constrain c good)
          intro result kept
          cases result with
          | none => exact d.pure hands_empty
          | some next => exact d.pure (hands_unit (kept next rfl))
      | conj parts constraints =>
          apply d.bind (d.constrainAll constraints good)
          intro result kept
          cases result with
          | none => exact d.pure hands_empty
          | some next =>
              apply d.bind (d.planned next parts)
              intro planned _
              apply d.bind (d.notify (.conjunction _) trivial)
              intro _ _
              exact d.foldlM (fun g => d.applyWithin depth g) planned (.unit next)
                (hands_unit (kept next rfl))
      | disj parts constraints =>
          apply d.bind (d.constrainAll constraints good)
          intro result kept
          cases result with
          | none => exact d.pure hands_empty
          | some next =>
              apply d.map (d.mapM (fun g => d.applyWithin depth g next (kept next rfl)) parts)
              exact fun queue hands => hands_interleave hands
      | fresh names body =>
          apply d.bind (d.freshVars names.length)
          intro vars _
          apply d.bind (d.fire ctx _ _ (by decide))
          exact fun _ _ => d.pure (suspended _ fun other => Eq.symm)
      | delay body => exact d.pure (suspended _ fun other => Eq.symm)
      | call name args => exact d.pure (suspended _ fun other => Eq.symm)
      | relation a => exact d.pure (suspended _ fun other => Eq.symm)
      | abort fault => exact d.pure (hands_aborted fault)
      | yieldThenAbort fault =>
          apply d.pure
          rintro other (same | impossible)
          · exact same ▸ good
          · exact impossible.elim

theorem apply (d : Discipline Good Keeps) {ctx : Context} (g : Goal) (good : Good ctx) :
    Keeps (g.apply ctx) (Hands Good) := d.applyWithin _ g ctx good

theorem runBody (d : Discipline Good Keeps) {ctx : Context} (body : Goal) (good : Good ctx) :
    Keeps (body.runBody ctx) (Hands Good) := by
  rw [Goal.runBody]
  split
  · exact d.apply body good
  · exact d.arity _

/-! ## Rows, supplies and recipes -/

theorem tryRows (d : Discipline Good Keeps) (limit : Nat) (scan : RowScan)
    (good : Good scan.context) : Keeps (scan.tryRows limit) (Hands Good) := by
  have reported : ∀ (scan : RowScan) ctx key (notice : Notice),
      EventKey.OfSearch key → notice.OfSearch →
        Keeps (scan.report ctx key notice) fun _ => True := by
    intro scan ctx key notice fires writes
    apply d.bind (d.notify notice writes)
    intro _ _
    split
    · exact d.fire ctx _ _ fires
    · exact d.pure trivial
  fun_induction RowScan.tryRows limit scan with
  | case1 => exact d.pure hands_empty
  | case2 => exact d.unending
  | case3 => exact d.pure (hands_aborted _)
  | case4 scan row rows _ next later fits ih =>
      apply d.bind (d.unifyAll scan.args row good)
      intro attempted kept
      rcases attempted with collision | _ | found
      · exact d.pure (hands_aborted _)
      · exact d.bind (reported _ _ _ (.rowFailed _ _) (by decide) trivial) fun _ _ => ih good
      · apply d.bind (reported _ _ _ (.rowSucceeded _ _) (by decide) trivial)
        intro _ _
        apply d.pure
        rintro other (same | same)
        · exact same ▸ kept found rfl
        · exact same ▸ good

theorem pull (d : Discipline Good Keeps) (supply : ContextSupply)
    (hands : ∀ ctx, supply.Carries ctx → Good ctx) : Keeps supply.pull (Hands Good) := by
  match supply, hands with
  | .listed [], _ => exact d.pure hands_empty
  | .listed (.ok ctx :: items), hands =>
      apply d.pure
      rintro other (same | member)
      · exact same ▸ hands ctx (List.mem_cons_self ..)
      · exact hands other (List.mem_cons_of_mem _ member)
  | .listed (.error fault :: items), _ => exact d.pure (hands_aborted fault)
  | .countingFrom facet value, hands =>
      apply d.bind (d.counted facet value)
      intro ctx counted
      apply d.pure
      rintro other (same | later)
      · exact same ▸ hands ctx ⟨value, counted⟩
      · exact hands other later

theorem bindAll (d : Discipline Good Keeps) (goals : List Goal) (s : Stream)
    (hands : Hands Good s) : Keeps (s.bindAll goals) (Hands Good) :=
  d.foldlM (fun g _ => d.apply g) goals s hands

theorem hands_append {s next : Stream} (first : Hands Good s) (second : Hands Good next) :
    Hands Good (s.append next) := by
  intro ctx carries
  cases s with
  | empty => exact second ctx carries
  | ready other rest => exact (Stream.carries_followBy carries).elim (first ctx) (second ctx)
  | suspended work => exact carries.elim (first ctx) (second ctx)
  | aborted fault => exact carries.elim

mutual

theorem build (d : Discipline Good Keeps) : ∀ recipe : Recipe,
    (∀ ctx, recipe.Carries ctx → Good ctx) → Keeps recipe.build (Hands Good)
  | .unit ctx, good => d.pure (hands_unit (good ctx rfl))
  | .empty, _ => d.pure hands_empty
  | .never, _ => d.pure fun _ impossible => impossible.elim
  | .ready ctx rest, good => by
      rw [Recipe.build]
      apply d.map (d.build rest fun other carries => good other (.inr carries))
      rintro s hands other (same | carries)
      · exact same ▸ good ctx (.inl rfl)
      · exact hands other carries
  | .suspend recipe, good => d.pure good
  | .abort fault, _ => d.pure (hands_aborted fault)
  | .append recipes, good => by
      rw [Recipe.build]
      apply d.bind (d.buildAll recipes good)
      intro queue hands
      cases queue with
      | nil => exact d.pure hands_empty
      | cons first others =>
          rw [List.forall_mem_cons] at hands
          apply d.pure
          induction others generalizing first with
          | nil => exact hands.1
          | cons other others ih =>
              rw [List.forall_mem_cons] at hands
              exact ih (first.append other) ⟨hands_append hands.1 hands.2.1, hands.2.2⟩
  | .mplus recipes, good => by
      rw [Recipe.build]
      apply d.bind (d.buildAll recipes good)
      intro queue hands
      cases queue with
      | nil => exact d.pure hands_empty
      | cons first others =>
          rw [List.forall_mem_cons] at hands
          apply d.pure
          induction others generalizing first with
          | nil => exact hands.1
          | cons other others ih =>
              rw [List.forall_mem_cons] at hands
              apply ih (.interleave [first, other])
              refine ⟨hands_interleave ?_, hands.2.2⟩
              simp [hands.1, hands.2.1]
  | .interleave recipes, good => by
      rw [Recipe.build]
      exact d.map (d.buildAll recipes good) fun queue hands => hands_interleave hands
  | .bind recipe goals, good => by
      rw [Recipe.build]
      exact d.bind (d.build recipe good) fun s hands => d.bindAll goals s hands
  | .supplied supply, good => d.pure good

theorem buildAll (d : Discipline Good Keeps) : ∀ recipes : List Recipe,
    (∀ ctx, Recipe.AnyCarries ctx recipes → Good ctx) →
    Keeps (Recipe.buildAll recipes) fun queue => ∀ s ∈ queue, Hands Good s
  | [], _ => d.pure nofun
  | recipe :: recipes, good => by
      rw [Recipe.buildAll]
      apply d.bind (d.build recipe fun ctx carries => good ctx (.inl carries))
      intro s hands
      apply d.bind (d.buildAll recipes fun ctx carries => good ctx (.inr carries))
      exact fun queue rest => d.pure (List.forall_mem_cons.mpr ⟨hands, rest⟩)

end

/-! ## Forcing -/

theorem resume (d : Discipline Good Keeps) (next : Continuation)
    (good : ∀ ctx, next.Carries ctx → Good ctx) : Keeps next.resume (Hands Good) := by
  cases next with
  | stream s => exact d.pure good
  | bind s goal => exact d.bindBy goal (fun _ => d.apply goal) s good

/-- Forcing a suspension keeps to the discipline. -/
theorem force (d : Discipline Good Keeps) : ∀ work : Work,
    (∀ ctx, work.Carries ctx → Good ctx) → Keeps (work.force program) (Hands Good)
  | .run goal ctx, good => d.runBody goal (good ctx rfl)
  | .call name args ctx, good => by
      rw [Work.force]
      split
      · exact d.runBody _ (good ctx rfl)
      · exact d.undefinedCall name
  | .openRows application ctx, good => by
      rw [Work.force]
      apply d.map (d.ofBounded _)
      intro scan opened other same
      exact same ▸ (RowScan.of_start opened).2.2.1 ▸ good ctx rfl
  | .scan rows, good => by
      rw [Work.force, RowScan.run]
      split <;> exact d.tryRows _ rows (good rows.context rfl)
  | .pull supply, good => d.pull supply good
  | .build recipe, good => by
      rw [Work.force, Recipe.buildChecked]
      split
      · exact d.build recipe good
      · exact d.arity _
  | .bind work goal, good => by
      rw [Work.force]
      exact d.bind (d.force work good) fun s hands => d.bindBy goal (fun _ => d.apply goal) s hands
  | .append work next, good => by
      rw [Work.force]
      apply d.bind (d.force work fun ctx carries => good ctx (.inl carries))
      intro s hands
      have later : ∀ ctx, next.Carries ctx → Good ctx := fun ctx carries => good ctx (.inr carries)
      have followed : Hands Good (s.followBy next) :=
        fun ctx carries => (Stream.carries_followBy carries).elim (hands ctx) (later ctx)
      cases s with
      | empty => exact d.resume next later
      | ready ctx rest => exact d.pure followed
      | suspended work => exact d.pure followed
      | aborted fault => exact d.pure followed
  | .resume next, good => d.resume next good
  | .turn first others, good => by
      rw [Work.force]
      apply d.bind (d.force first fun ctx carries => good ctx (.inl carries))
      intro forced hands
      apply d.pure
      apply hands_interleave
      intro s member
      rcases List.mem_append.mp member with among | last
      · obtain ⟨work, other, rfl⟩ := List.mem_map.mp among
        exact fun ctx carries =>
          good ctx (.inr (Work.anyCarries_iff.mpr ⟨work, other, carries⟩))
      · exact List.mem_singleton.mp last ▸ hands

end Discipline

end RelationalSolver
