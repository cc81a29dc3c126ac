import Mathlib.Data.Countable.Basic
import Mathlib.Logic.Equiv.List
import RelationalSolver.Proofs.Stream.Derivations

/-!
# Searches are exact

Every task stands for the choices that begin with its own ones, and different tasks
of a search never stand for the same choices.  So a search hands out results of
different derivations, and of every derivation if it comes to its end.
-/

namespace RelationalSolver

open Engine

variable {program : Program} {goals : List Goal} {path last : Path} {ctx result : Context}
variable {task : Task} {tasks next expanded : List Task} {first : Nat}
variable {allotted later : Allotments}

/-! ## The choices that a task stands for -/

/-- The choices may be made on from the task. -/
def Task.Covers (last : Path) : Task → Prop
  | ⟨path, .goals _ _⟩ => path <+: last
  | ⟨path, .scan scan _⟩ => ∃ number, path ++ [.row (scan.index + number)] <+: last
  | ⟨_, .foreign⟩ => False

/-- No choices may be made on from both tasks. -/
def Task.Apart (task other : Task) : Prop := ∀ last, task.Covers last → ¬ other.Covers last

/-- The places where new variables were allotted. -/
def Allotments.places (allotted : Allotments) : List Path := allotted.map (·.1)

/-- Tasks make choices on from others, apart from each other and from where new
variables were allotted on the way. -/
structure Separates (tasks : List Task) (allotted : Allotments) (next : List Task) : Prop where
  covered : ∀ last, (∃ other ∈ next, other.Covers last) → ∃ task ∈ tasks, task.Covers last
  apart : next.Pairwise Task.Apart
  once : allotted.places.Nodup
  reached : ∀ place ∈ allotted.places, ∃ task ∈ tasks, task.Covers place
  passed : ∀ place ∈ allotted.places, ∀ other ∈ next, ¬ other.Covers place

theorem not_longer (path : Path) (choice : Choice) : ¬ path ++ [choice] <+: path := by
  intro inside
  have shorter := inside.length_le
  rw [List.length_append, List.length_singleton] at shorter
  omega

theorem choice_unique {choice other : Choice} (one : path ++ [choice] <+: last)
    (two : path ++ [other] <+: last) : choice = other := by
  have same : path ++ [choice] = path ++ [other] := by
    rw [List.prefix_iff_eq_take.mp one, List.prefix_iff_eq_take.mp two]
    simp
  simpa using same

/-- Some of the tasks stand by, in any order, and no new variables are allotted. -/
theorem Separates.of_subset (subset : next ⊆ tasks) (apart : next.Pairwise Task.Apart) :
    Separates tasks [] next where
  covered := fun _ ⟨other, mem, covers⟩ => ⟨other, subset mem, covers⟩
  apart := apart
  once := List.nodup_nil
  reached := nofun
  passed := nofun

theorem Separates.trans {last : List Task} (front : Separates tasks allotted next)
    (back : Separates next later last) : Separates tasks (allotted ++ later) last where
  covered := fun path mem => front.covered path (back.covered path mem)
  apart := back.apart
  once := by
    rw [Allotments.places, List.map_append]
    apply front.once.append back.once
    intro place here there
    rcases back.reached place there with ⟨task, mem, covers⟩
    exact front.passed place here task mem covers
  reached := by
    intro place mem
    rw [Allotments.places, List.map_append] at mem
    rcases List.mem_append.mp mem with here | there
    · exact front.reached place here
    · exact front.covered place (back.reached place there)
  passed := by
    intro place mem
    rw [Allotments.places, List.map_append] at mem
    rcases List.mem_append.mp mem with here | there
    · intro other mem covers
      rcases back.covered place ⟨other, mem, covers⟩ with ⟨task, between, covers⟩
      exact front.passed place here task between covers
    · exact back.passed place there

/-- Choices are made on from one task, and no new variables allotted. -/
theorem Separates.of_covers
    (covered : ∀ other ∈ expanded, ∀ last, other.Covers last → task.Covers last)
    (apart : expanded.Pairwise Task.Apart) : Separates [task] [] expanded where
  covered := by
    rintro last ⟨other, mem, covers⟩
    exact ⟨task, List.mem_singleton_self task, covered other mem last covers⟩
  apart := apart
  once := List.nodup_nil
  reached := nofun
  passed := nofun

theorem Separates.ofContexts (found : Option Context)
    (covered : ∀ last, path <+: last → task.Covers last) :
    Separates [task] [] (Task.ofContexts path found goals) := by
  cases found with
  | none => exact .of_covers nofun .nil
  | some next =>
      apply Separates.of_covers _ (List.pairwise_singleton _ _)
      intro other mem last covers
      cases List.mem_singleton.mp mem
      exact covered last covers

theorem covers_of_longer {choice : Choice} (covers : path ++ [choice] <+: last) :
    path <+: last := (List.prefix_append path [choice]).trans covers

theorem branches_apart (path : Path) (ctx : Context) (goals parts : List Goal) :
    (parts.mapIdx fun i part =>
      Task.mk (path ++ [.branch i]) (.goals ctx (part :: goals))).Pairwise Task.Apart := by
  rw [List.pairwise_iff_getElem]
  intro i j boundI boundJ less last one two
  simp only [List.getElem_mapIdx] at one two
  cases choice_unique one two
  exact Nat.lt_irrefl i less

/-- A task makes its next choice. -/
theorem Expands.separates (expands : Expands program first task expanded allotted) :
    Separates [task] allotted expanded := by
  cases expands with
  | succeed path ctx goals => exact .ofContexts (some ctx) fun _ => id
  | fail path ctx goals => exact .of_covers nofun .nil
  | equal path goals returned => exact .ofContexts _ fun _ => id
  | constrain path goals returned => exact .ofContexts _ fun _ => id
  | refused path goals returned => exact .of_covers nofun .nil
  | @conj path ctx next goals parts planned _ _ _ =>
      exact .ofContexts (some next) fun _ => id
  | @disj path ctx goals parts _ found _ =>
      cases found with
      | none => exact .of_covers nofun .nil
      | some next =>
          simp only [Option.toList_some, List.flatMap_cons, List.flatMap_nil, List.append_nil]
          apply Separates.of_covers _ (branches_apart path next goals parts)
          intro other mem last covers
          rcases List.mem_mapIdx.mp mem with ⟨_, _, rfl⟩
          exact covers_of_longer covers
  | fresh path ctx goals names body =>
      constructor
      · rintro last ⟨other, mem, covers⟩
        cases List.mem_singleton.mp mem
        exact ⟨_, List.mem_singleton_self _, covers_of_longer covers⟩
      · exact List.pairwise_singleton _ _
      · exact List.nodup_singleton path
      · intro place mem
        cases List.mem_singleton.mp mem
        exact ⟨_, List.mem_singleton_self _, List.prefix_refl path⟩
      · intro place mem other memOther
        cases List.mem_singleton.mp mem
        cases List.mem_singleton.mp memOther
        exact not_longer path .unfold
  | delay path ctx goals body => exact .ofContexts (some ctx) fun _ => covers_of_longer
  | call path ctx goals args _ => exact .ofContexts (some ctx) fun _ => covers_of_longer
  | relation path goals opened =>
      apply Separates.of_covers _ (List.pairwise_singleton _ _)
      intro other mem last covers
      cases List.mem_singleton.mp mem
      rcases covers with ⟨number, covers⟩
      exact covers_of_longer covers
  | exhausted path goals ended => exact .of_covers nofun .nil
  | @row path scan goals row rows found next returned =>
      apply Separates.of_covers
      · intro other mem last covers
        rcases List.mem_append.mp mem with mem | mem
        · rw [(Task.mem_ofContexts.mp mem).choose_spec.2] at covers
          exact ⟨0, covers⟩
        · cases List.mem_singleton.mp mem
          rcases covers with ⟨number, covers⟩
          rw [Nat.add_right_comm, Nat.add_assoc] at covers
          exact ⟨number + 1, covers⟩
      · rw [List.pairwise_append]
        refine ⟨?_, List.pairwise_singleton _ _, ?_⟩
        · cases found with
          | none => exact .nil
          | some next => exact List.pairwise_singleton _ _
        · intro one memOne two memTwo last coversOne coversTwo
          rw [(Task.mem_ofContexts.mp memOne).choose_spec.2] at coversOne
          cases List.mem_singleton.mp memTwo
          rcases coversTwo with ⟨number, coversTwo⟩
          have same : scan.index = scan.index + 1 + number :=
            Choice.row.inj (choice_unique coversOne coversTwo)
          omega
  | yieldThenAbort path ctx goals fault => exact .ofContexts (some ctx) fun _ => id

/-- Other tasks stand by. -/
theorem Separates.beside {others : List Task} (separates : Separates [task] allotted expanded)
    (apart : (task :: others).Pairwise Task.Apart) :
    Separates (task :: others) allotted (expanded ++ others) := by
  rcases List.pairwise_cons.mp apart with ⟨apartTask, apartOthers⟩
  have covered : ∀ other ∈ expanded, ∀ last, other.Covers last → task.Covers last := by
    intro other mem last covers
    rcases separates.covered last ⟨other, mem, covers⟩ with ⟨_, here, covers⟩
    exact List.mem_singleton.mp here ▸ covers
  have reached : ∀ place ∈ allotted.places, task.Covers place := by
    intro place mem
    rcases separates.reached place mem with ⟨_, here, covers⟩
    exact List.mem_singleton.mp here ▸ covers
  constructor
  · rintro last ⟨other, mem, covers⟩
    rcases List.mem_append.mp mem with mem | mem
    · exact ⟨task, List.mem_cons_self, covered other mem last covers⟩
    · exact ⟨other, List.mem_cons_of_mem task mem, covers⟩
  · refine List.pairwise_append.mpr ⟨separates.apart, apartOthers, ?_⟩
    intro one memOne two memTwo last covers
    exact apartTask two memTwo last (covered one memOne last covers)
  · exact separates.once
  · exact fun place mem => ⟨task, List.mem_cons_self, reached place mem⟩
  · intro place mem other memOther
    rcases List.mem_append.mp memOther with here | there
    · exact separates.passed place mem other here
    · exact apartTask other there place (reached place mem)

theorem Evolves.separates {lossy : Prop} (evolves : Evolves program lossy first tasks allotted next)
    (apart : tasks.Pairwise Task.Apart) : Separates tasks allotted next := by
  induction evolves with
  | perm same =>
      apply Separates.of_subset same.symm.subset
      exact (same.pairwise_iff fun one last covers other => one last other covers).mp apart
  | expand expands others => exact expands.separates.beside apart
  | drop _ task others =>
      exact .of_subset (List.subset_cons_self task others) (List.pairwise_cons.mp apart).2
  | trans _ _ first second => exact (first apart).trans (second (first apart).apart)

/-! ## Numbering the new variables of a search -/

/-- Choices can be told apart by a number. -/
def Choice.code : Choice → Nat
  | .branch index => 3 * index
  | .row index => 3 * index + 1
  | .unfold => 2

instance : Countable Choice := by
  apply Function.Injective.countable (f := Choice.code)
  intro one two same
  cases one <;> cases two <;> simp only [Choice.code] at same <;> grind

theorem Numbering.Agrees.congr {numbers others : Numbering}
    (agrees : numbers.Agrees first allotted)
    (same : ∀ place ∈ allotted.places, others place = numbers place) :
    others.Agrees first allotted := by
  induction allotted generalizing first with
  | nil => trivial
  | cons allotment allotted ih =>
      rcases allotment with ⟨place, count⟩
      constructor
      · intro i less
        rw [same place List.mem_cons_self]
        exact agrees.1 i less
      · exact ih agrees.2 fun other mem => same other (List.mem_cons_of_mem place mem)

/-- The variables that a search introduces can be told apart from all others that it
could introduce. -/
theorem exists_numbering (first : Nat) (allotted : Allotments) (once : allotted.places.Nodup) :
    ∃ numbers : Numbering, numbers.Fresh first ∧ numbers.Agrees first allotted := by
  induction allotted generalizing first with
  | nil =>
      obtain ⟨code, injective⟩ := exists_injective_nat (Path × Nat)
      refine ⟨fun path i => first + code (path, i), ⟨?_, ?_⟩, trivial⟩
      · intro path i other j same
        exact Prod.mk.inj (injective (Nat.add_left_cancel same))
      · exact fun path i => Nat.le_add_right first _
  | cons allotment allotted ih =>
      rcases allotment with ⟨place, count⟩
      rcases List.nodup_cons.mp once with ⟨new, once⟩
      rcases ih (first + count) once with ⟨numbers, fresh, agrees⟩
      let extended : Numbering := fun path i =>
        if path = place ∧ i < count then first + i else numbers path i
      have here : ∀ i < count, extended place i = first + i := fun i less => if_pos ⟨rfl, less⟩
      have elsewhere : ∀ path i, ¬ (path = place ∧ i < count) → extended path i = numbers path i :=
        fun path i other => if_neg other
      have above : ∀ path i, first + count ≤ numbers path i := fresh.unused
      refine ⟨extended, ⟨?_, ?_⟩, here, ?_⟩
      · intro path i other j same
        by_cases one : path = place ∧ i < count
        · by_cases two : other = place ∧ j < count
          · rcases one with ⟨rfl, one⟩
            rcases two with ⟨rfl, two⟩
            rw [here i one, here j two] at same
            exact ⟨rfl, Nat.add_left_cancel same⟩
          · rcases one with ⟨rfl, one⟩
            rw [here i one, elsewhere other j two] at same
            have larger := above other j
            omega
        · by_cases two : other = place ∧ j < count
          · rcases two with ⟨rfl, two⟩
            rw [here j two, elsewhere path i one] at same
            have larger := above path i
            omega
          · rw [elsewhere path i one, elsewhere other j two] at same
            exact fresh.distinct path i other j same
      · intro path i
        by_cases one : path = place ∧ i < count
        · rcases one with ⟨rfl, one⟩
          rw [here i one]
          exact Nat.le_add_right first i
        · rw [elsewhere path i one]
          exact (Nat.le_add_right first count).trans (above path i)
      · apply agrees.congr
        intro other mem
        funext i
        apply elsewhere
        rintro ⟨rfl, _⟩
        exact new mem

/-! ## Exactness -/

/-- One of the tasks has the derivation. -/
def Derivable (program : Program) (numbers : Numbering) (last : Path) (result : Context)
    (tasks : List Task) : Prop :=
  ∃ task ∈ tasks, task.Derives program numbers last result

theorem derivable_append {numbers : Numbering} {others : List Task} :
    Derivable program numbers last result (tasks ++ others) ↔
      Derivable program numbers last result tasks ∨
        Derivable program numbers last result others := by
  simp only [Derivable, List.mem_append, or_and_right, exists_or]

theorem derivable_cons {numbers : Numbering} {others : List Task} :
    Derivable program numbers last result (task :: others) ↔
      task.Derives program numbers last result ∨
        Derivable program numbers last result others := by
  simp only [Derivable, List.mem_cons, or_and_right, exists_or, exists_eq_left]

theorem Evolves.unplanned {lossy : Prop} (evolves : Evolves program lossy first tasks allotted next)
    (unplanned : ∀ task ∈ tasks, task.Unplanned) : ∀ task ∈ next, task.Unplanned := by
  induction evolves with
  | perm same => exact fun task mem => unplanned task (same.mem_iff.mpr mem)
  | expand expands others =>
      rcases List.forall_mem_cons.mp unplanned with ⟨here, there⟩
      exact List.forall_mem_append.mpr ⟨expands.unplanned here, there⟩
  | drop _ task others => exact (List.forall_mem_cons.mp unplanned).2
  | trans _ _ first second => exact second (first unplanned)

/-- Going on adds no derivations. -/
theorem Evolves.derivable_of_next {lossy : Prop} {numbers : Numbering}
    (evolves : Evolves program lossy first tasks allotted next)
    (agrees : numbers.Agrees first allotted) (unplanned : ∀ task ∈ tasks, task.Unplanned)
    (derivable : Derivable program numbers last result next) :
    Derivable program numbers last result tasks := by
  induction evolves with
  | perm same =>
      rcases derivable with ⟨task, mem, derives⟩
      exact ⟨task, same.mem_iff.mpr mem, derives⟩
  | expand expands others =>
      have here := unplanned _ List.mem_cons_self
      rcases derivable_append.mp derivable with derivable | derivable
      · exact derivable_cons.mpr (.inl ((expands.derives_iff agrees here).mpr derivable))
      · exact derivable_cons.mpr (.inr derivable)
  | drop _ task others => exact derivable_cons.mpr (.inr derivable)
  | trans evolves _ first second =>
      rcases Numbering.agrees_append agrees with ⟨front, back⟩
      exact first front unplanned (second back (evolves.unplanned unplanned) derivable)

/-- Going on loses no derivations, if no tasks are lost. -/
theorem Evolves.derivable_next {lossy : Prop} {numbers : Numbering}
    (evolves : Evolves program lossy first tasks allotted next) (kept : ¬ lossy)
    (agrees : numbers.Agrees first allotted) (unplanned : ∀ task ∈ tasks, task.Unplanned)
    (derivable : Derivable program numbers last result tasks) :
    Derivable program numbers last result next := by
  induction evolves with
  | perm same =>
      rcases derivable with ⟨task, mem, derives⟩
      exact ⟨task, same.mem_iff.mp mem, derives⟩
  | expand expands others =>
      have here := unplanned _ List.mem_cons_self
      rcases derivable_cons.mp derivable with derives | derivable
      · exact derivable_append.mpr (.inl ((expands.derives_iff agrees here).mp derives))
      · exact derivable_append.mpr (.inr derivable)
  | drop lost _ _ => exact absurd lost kept
  | trans evolves _ first second =>
      rcases Numbering.agrees_append agrees with ⟨front, back⟩
      exact second back (evolves.unplanned unplanned) (first front unplanned derivable)

theorem Task.derives_finished {numbers : Numbering} {answer : Path × Context} :
    (Task.finished answer).Derives program numbers last result ↔ (last, result) = answer := by
  constructor
  · intro derives
    cases derives
    rfl
  · rintro rfl
    exact .done last result

/-- At every moment of a search without a planner, the contexts handed out are results
of different derivations.  If the search came to its end, it has handed out the result
of every derivation once. -/
theorem Goal.search_exact (g : Goal) (ctx : Context) (unplanned : ctx.get .planner = [])
    (count : Nat) {before after : Session} {moves : List Move}
    (ran : Runs (g.search program count ctx) before moves after) :
    ∃ (numbers : Numbering) (answers : List (Path × Context)),
      numbers.Fresh before.nextOrdinal ∧
      answers.map (·.2) = moves.filterMap Move.context? ∧ (answers.map (·.1)).Nodup ∧
      (∀ last result, (last, result) ∈ answers →
        Derivation program numbers [] ctx [g] last result) ∧
      (Exhausted moves → ∀ last result, Derivation program numbers [] ctx [g] last result →
        (last, result) ∈ answers) := by
  rcases g.search_evolves ctx count ran with ⟨allotted, answers, rest, evolves, yields, ended⟩
  have separates := evolves.separates (List.pairwise_singleton _ _)
  rcases exists_numbering before.nextOrdinal allotted separates.once with ⟨numbers, fresh, agrees⟩
  have start : ∀ task ∈ [Task.mk [] (.goals ctx [g])], task.Unplanned :=
    List.forall_mem_singleton.mpr unplanned
  refine ⟨numbers, answers, fresh, yields, ?_, ?_, ?_⟩
  · have apart := (List.pairwise_append.mp separates.apart).1
    rw [List.Nodup, List.pairwise_map]
    rw [List.pairwise_map] at apart
    apply apart.imp
    intro one two apart same
    exact apart one.1 (List.prefix_refl _) (same ▸ List.prefix_refl two.1)
  · intro last result mem
    have derivable : Derivable program numbers last result (answers.map Task.finished ++ rest) :=
      ⟨_, List.mem_append_left rest (List.mem_map_of_mem mem), Task.derives_finished.mpr rfl⟩
    rcases evolves.derivable_of_next agrees start derivable with ⟨_, here, derives⟩
    cases List.mem_singleton.mp here
    exact derives
  · intro exhausted last result derivation
    have derivable : Derivable program numbers last result [⟨[], .goals ctx [g]⟩] :=
      ⟨_, List.mem_singleton_self _, derivation⟩
    rcases evolves.derivable_next (not_not_intro exhausted) agrees start derivable with
      ⟨task, mem, derives⟩
    rw [ended exhausted, List.append_nil] at mem
    rcases List.mem_map.mp mem with ⟨answer, mem, rfl⟩
    rwa [Task.derives_finished.mp derives]

/-- A relation of two rows. -/
def Relation.oneAndTwo : Relation :=
  ⟨"digit", .declared ⟨1, .listed [[.int 1], [.int 2]], .exact 2, [none]⟩⟩

/-- A new variable stands in one of the two rows. -/
def Goal.oneOrTwo : Goal :=
  .conj [.fresh ["y"] (.relation ⟨.oneAndTwo, [.var (.named "y")], .natural⟩), .delay .succeed] []

/-- The two rows give two answers, and there are no other derivations. -/
theorem Goal.search_oneOrTwo :
    Context.empty.get .planner = [] ∧
      ∃ moves after, Runs (Goal.oneOrTwo.search ⟨[], 1⟩ 20 .empty) (.start 0 0) moves after ∧
        Exhausted moves ∧ ∃ (numbers : Numbering) (answers : List (Path × Context)),
          answers.length = 2 ∧ (answers.map (·.1)).Nodup ∧
          ∀ last result, Derivation ⟨[], 1⟩ numbers [] .empty [Goal.oneOrTwo] last result ↔
            (last, result) ∈ answers := by
  have runs : ∃ moves after,
      Runs (Goal.oneOrTwo.search ⟨[], 1⟩ 20 .empty) (.start 0 0) moves after ∧
      Exhausted moves ∧ (moves.filterMap Move.context?).length = 2 := ⟨_, _, rfl, rfl, rfl⟩
  rcases runs with ⟨moves, after, ran, exhausted, two⟩
  rcases Goal.search_exact Goal.oneOrTwo .empty rfl 20 ran with
    ⟨numbers, answers, _, yields, once, sound, complete⟩
  rw [← yields, List.length_map] at two
  refine ⟨rfl, moves, after, ran, exhausted, numbers, answers, two, once, ?_⟩
  exact fun last result => ⟨complete exhausted last result, sound last result⟩

end RelationalSolver
