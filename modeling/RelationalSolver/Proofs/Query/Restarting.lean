import RelationalSolver.Proofs.Goal.Below
import RelationalSolver.Proofs.Query.Renumbering

/-!
# Queries can be run again

A run numbers its new variables from where the session stands.  Runs of one query from two
sessions, wherever these stand above the variables of the query, do the same once the variables
that the one creates are put in the place of those that the other creates.
-/

namespace RelationalSolver

open Engine

/-! ## Queries below a limit -/

/-- The variables of the pending constraints, and those that they wait for, are below the
limit. -/
structure ConstraintStore.Below (limit : ℕ) (store : ConstraintStore) : Prop where
  entries : ∀ id c, store.get? id = some c → c.Below limit
  waiting : ∀ v, store.idsFor v ≠ [] → v.Below limit
  indexed : ∀ id, ∀ v ∈ store.varsFor id, v.Below limit

/-- The variables of the value are below the limit. -/
def FacetKey.Below (limit : ℕ) : (key : FacetKey) → key.Value → Prop
  | .substitutions, s =>
      ∀ entry ∈ Substitution.toList s, entry.1.Below limit ∧ entry.2.Below limit
  | .constraints, store => ConstraintStore.Below limit store
  | _, _ => True

/-- What the query mentions, its root included, is below the limit, and no hooks of the root
take part in bindings. -/
structure Query.Below (limit : ℕ) (q : Query) : Prop where
  goal : q.goal.Below limit
  projection : ∀ v ∈ q.projection, v.Below limit
  root : ∀ facet ∈ q.root.facets, facet.key.Below limit facet.value
  free : ∀ registry : Registry, ⟨.hooks, registry⟩ ∈ q.root.facets → registry.bindHooks = []

section Kept

variable {limit : ℕ} {ρ : ℕ ↪o ℕ} (kept : ∀ ordinal < limit, ρ ordinal = ordinal)
include kept

/-- No variable comes to be below the limit. -/
theorem Var.below_of_renumber {v : Var} (below : (v.renumber ρ).Below limit) :
    v.renumber ρ = v := by
  cases v with
  | numbered ordinal => exact congrArg numbered (ρ.injective (kept (ρ ordinal) below))
  | _ => rfl

theorem Substitution.renumbers_of_below {s : Substitution}
    (below : ∀ entry ∈ s.toList, entry.1.Below limit ∧ entry.2.Below limit) :
    s.Renumbers ρ s := by
  refine ((List.map_congr_left fun entry member => ?_).trans (List.map_id' s.toList)).symm
  exact Prod.ext (Var.Below.renumber_eq kept (below entry member).1)
    (Term.Below.renumber_eq kept (below entry member).2)

theorem ConstraintStore.Below.renumbers {store : ConstraintStore} (below : store.Below limit) :
    store.Renumbers ρ store where
  nextId := rfl
  entries id := by
    cases found : store.get? id with
    | none => exact .none
    | some c => exact .some (Constraint.Below.renumbers kept (below.entries id c found))
  idsFor v := by
    by_cases idle : store.idsFor v = []
    · by_cases idleOther : store.idsFor (v.renumber ρ) = []
      · rw [idle, idleOther]
      · rw [Var.below_of_renumber kept (below.waiting _ idleOther)]
    · rw [Var.Below.renumber_eq kept (below.waiting v idle)]
  varsFor id :=
    ((List.map_congr_left fun v member =>
      Var.Below.renumber_eq kept (below.indexed id v member)).trans (List.map_id' _)).symm

theorem Query.Below.renumbers {q : Query} (below : q.Below limit) : q.Renumbers ρ q where
  goal := Goal.Below.renumbers kept below.goal
  projection :=
    ((List.map_congr_left fun v member =>
      Var.Below.renumber_eq kept (below.projection v member)).trans (List.map_id' _)).symm
  termination := rfl
  root := by
    have facets : ∀ facets ⊆ q.root.facets, List.Forall₂ (Facet.Renumbers ρ) facets facets := by
      intro facets inside
      induction facets with
      | nil => exact .nil
      | cons facet facets ih =>
          obtain ⟨here, there⟩ := List.cons_subset.mp inside
          refine .cons ?_ (ih there)
          obtain ⟨key, value⟩ := facet
          have known := below.root _ here
          refine .mk key ?_
          cases key with
          | substitutions => exact Substitution.renumbers_of_below kept known
          | constraints => exact ConstraintStore.Below.renumbers kept known
          | hooks => exact ⟨rfl, below.free value here⟩
          | _ => rfl
    exact facets q.root.facets (List.Subset.refl _)

end Kept

/-! ## Numbers of two sessions -/

/-- The numbers from `first` on become those from `second` on, in their order.  The numbers
before `first` stay. -/
def transfer (first second ordinal : ℕ) : ℕ :=
  if ordinal < first then ordinal else second + (ordinal - first)

variable {first second limit : ℕ}

theorem transfer_of_lt {ordinal : ℕ} (before : ordinal < first) :
    transfer first second ordinal = ordinal := if_pos before

theorem transfer_add (first second i : ℕ) : transfer first second (first + i) = second + i := by
  rw [transfer, if_neg (by omega), Nat.add_sub_cancel_left]

theorem transfer_strictMono (upwards : first ≤ second) : StrictMono (transfer first second) := by
  intro a b less
  unfold transfer
  split <;> split <;> omega

theorem transfer_transfer (upwards : first ≤ second) (ordinal : ℕ) :
    transfer second first (transfer first second ordinal) = ordinal := by
  by_cases before : ordinal < first
  · rw [transfer_of_lt before, transfer_of_lt (before.trans_le upwards)]
  · obtain ⟨i, rfl⟩ := Nat.exists_eq_add_of_le (Nat.le_of_not_lt before)
    rw [transfer_add, transfer_add]

/-- Of two sessions, one stands first.  A computation that does the same under other numbers
ends alike in both. -/
theorem Engine.endAlike_transfer {α : Type} {x : Engine α} {R : (ℕ → ℕ) → α → α → Prop}
    (same : ∀ ρ : ℕ ↪o ℕ, (∀ ordinal < limit, ρ ordinal = ordinal) → Engine.Renumbers ρ (R ρ) x x)
    (turned : ∀ {ρ τ : ℕ → ℕ}, (∀ ordinal, τ (ρ ordinal) = ordinal) → ∀ a b, R ρ a b → R τ b a)
    {s other : Session} (room : limit ≤ s.nextOrdinal) (roomOther : limit ≤ other.nextOrdinal) :
    EndAlike (transfer s.nextOrdinal other.nextOrdinal)
      (R (transfer s.nextOrdinal other.nextOrdinal)) x x s other := by
  have upwards : ∀ s other : Session, limit ≤ s.nextOrdinal →
      s.nextOrdinal ≤ other.nextOrdinal →
      EndAlike (transfer s.nextOrdinal other.nextOrdinal)
        (R (transfer s.nextOrdinal other.nextOrdinal)) x x s other := by
    intro s other room upwards
    exact same (.ofStrictMono _ (transfer_strictMono upwards))
      (fun ordinal less => transfer_of_lt (less.trans_le room)) s other (transfer_add _ _)
  rcases Nat.le_total s.nextOrdinal other.nextOrdinal with later | earlier
  · exact upwards s other room later
  · exact (upwards other s roomOther earlier).symm (transfer_transfer earlier)
      (turned (transfer_transfer earlier))

/-! ## What is seen of a run -/

/-- The contexts hold the same bindings, counters and pending constraints, but for the numbers
of variables. -/
structure Context.HoldsAlike (ρ : ℕ → ℕ) (ctx other : Context) : Prop where
  bindings : ctx.substitution.Renumbers ρ other.substitution
  counters : other.get .counters = ctx.get .counters
  pending : ∀ id, Option.Rel (Constraint.Renumbers ρ)
    (ConstraintStore.get? (ctx.get .constraints) id)
    (ConstraintStore.get? (other.get .constraints) id)

/-- Moves of the same kind, with the same fault or contexts that hold alike. -/
inductive Move.HoldsAlike (ρ : ℕ → ℕ) : Move → Move → Prop
  | yield {ctx other : Context} {rest restOther : Stream} : ctx.HoldsAlike ρ other →
      Move.HoldsAlike ρ (.yield ctx rest) (.yield other restOther)
  | forced {next nextOther : Stream} : Move.HoldsAlike ρ (.forced next) (.forced nextOther)
  | done : Move.HoldsAlike ρ .done .done
  | fault (fault : Fault) : Move.HoldsAlike ρ (.fault fault) (.fault fault)

theorem Move.Renumbers.holdsAlike {ρ : ℕ ↪o ℕ} {move moveOther : Move}
    (same : move.Renumbers ρ moveOther) : move.HoldsAlike ρ moveOther := by
  cases same with
  | yield same rest => exact .yield ⟨same.substitution, same.counters, same.pending.entries⟩
  | forced rest => exact .forced
  | done => exact .done
  | fault fault => exact .fault fault

section Turned

variable {ρ τ : ℕ → ℕ} (inverse : ∀ ordinal, τ (ρ ordinal) = ordinal)
include inverse

theorem Context.HoldsAlike.symm {ctx other : Context} (same : ctx.HoldsAlike ρ other) :
    other.HoldsAlike τ ctx where
  bindings := same.bindings.symm inverse
  counters := same.counters.symm
  pending id := by
    have held := same.pending id
    generalize ConstraintStore.get? (ctx.get .constraints) id = c at held
    generalize ConstraintStore.get? (other.get .constraints) id = cOther at held
    cases held with
    | none => exact .none
    | some held => exact .some (held.symm inverse)

theorem Move.HoldsAlike.symm {move moveOther : Move} (same : move.HoldsAlike ρ moveOther) :
    moveOther.HoldsAlike τ move := by
  cases same with
  | yield same => exact .yield (same.symm inverse)
  | forced => exact .forced
  | done => exact .done
  | fault fault => exact .fault fault

theorem Run.Pull.map_renumber_cancel (pulls : List Run.Pull) :
    (pulls.map (·.renumber ρ)).map (·.renumber τ) = pulls := by
  rw [List.map_map]
  refine (List.map_congr_left fun pull _ => ?_).trans (List.map_id' pulls)
  obtain ⟨pulled, steps⟩ := pull
  rcases pulled with _ | e | solution
  · rfl
  · rfl
  · exact congrArg (fun solution => Run.Pull.mk (some (.ok solution)) steps)
      (Solution.renumber_cancel inverse solution)

end Turned

namespace Query

variable {program : Program} {q : Query} {s other : Session}

/-- Runs can be repeated anywhere.  Two sessions have received whatever they have, and have both
given away the numbers of the variables that the query mentions.  Runs of the query make the
same moves there, their pulls give the same solutions and errors after as many steps, and the
same events, notices and statistics reach the sessions, with each variable that the one run
creates renamed to the one that the other creates in its turn. -/
theorem restartable (defined : program.definitions.Below limit) (below : q.Below limit)
    (room : limit ≤ s.nextOrdinal) (roomOther : limit ≤ other.nextOrdinal) (moves count : ℕ) :
    let ρ := transfer s.nextOrdinal other.nextOrdinal
    EndAlike ρ (List.Forall₂ (Move.HoldsAlike ρ)) (q.moves program count)
        (q.moves program count) s other ∧
      EndAlike ρ (fun result resultOther =>
          resultOther = (result.1.map (·.renumber ρ), result.2))
        (q.iterate program moves count) (q.iterate program moves count) s other := by
  constructor
  · refine endAlike_transfer (R := fun ρ => List.Forall₂ (Move.HoldsAlike ρ)) ?_ ?_ room roomOther
    · intro ρ kept
      apply ((below.renumbers kept).moves (defined.renumbers kept) count).mono
      exact fun _ _ => List.Forall₂.imp fun _ _ => Move.Renumbers.holdsAlike
    · exact fun inverse _ _ same => same.flip.imp fun _ _ => Move.HoldsAlike.symm inverse
  · refine endAlike_transfer (R := fun ρ (result resultOther : List Run.Pull × Run) =>
      resultOther = (result.1.map (·.renumber ρ), result.2)) ?_ ?_ room roomOther
    · intro ρ kept
      exact (below.renumbers kept).iterate (defined.renumbers kept) moves count
    · rintro ρ τ inverse ⟨pulls, last⟩ _ rfl
      rw [Run.Pull.map_renumber_cancel inverse]

/-- A pair is made of two new halves that are equal, but not to one. -/
def pairing : Program where
  definitions := [("twins", ⟨["whole"], .fresh ["left", "right"] (.conj
    [.equal (.var (.named "whole")) (.tuple [.var (.named "left"), .var (.named "right")]),
      .delay (.equal (.var (.named "left")) (.var (.named "right")))]
    [.neq (.var (.named "left")) (.int 1)])⟩)]
  patience := 0

/-- Two numbers. -/
def evens : FactTable := ((FactTable.empty 1).push [.int 2]).push [.int 4]

/-- What is a pair of twins, beside a number that is drawn?  Everything is recorded. -/
def twins : Query where
  goal := .conj [.call "twins" [.var (.numbered 0)],
    .relation ⟨⟨"even", .table evens⟩, [.var (.numbered 1)], .shuffled 3⟩] []
  projection := [.numbered 0, .numbered 1]
  root := ⟨[⟨.planner, [.chainSharedVars]⟩, ⟨.hooks, ⟨[([], [.recorder 0])], [], [⟨2⟩]⟩⟩]⟩
  termination := none

/-- Runs from two sessions, of which the second has given away six numbers more, end with a pair
of the same new variable. -/
theorem restartable_twins :
    pairing.definitions.Below 2 ∧ twins.Below 2 ∧
      ((twins.iterate pairing 10 10).run.run (.start 1 0)).2.latest.map (·.bindings) =
        some [(.numbered 0, .tuple [.var (.numbered 5), .var (.numbered 5)]),
          (.numbered 1, .int 4)] ∧
      ((twins.iterate pairing 10 10).run.run (.start 7 0)).2.latest.map (·.bindings) =
        some [(.numbered 0, .tuple [.var (.numbered 11), .var (.numbered 11)]),
          (.numbered 1, .int 4)] ∧
      EndAlike (transfer 2 8) (List.Forall₂ (Move.HoldsAlike (transfer 2 8)))
        (twins.moves pairing 10) (twins.moves pairing 10) (.start 1 0) (.start 7 0) ∧
      EndAlike (transfer 2 8) (fun result resultOther =>
          resultOther = (result.1.map (·.renumber (transfer 2 8)), result.2))
        (twins.iterate pairing 10 10) (twins.iterate pairing 10 10) (.start 1 0) (.start 7 0) := by
  have defined : pairing.definitions.Below 2 := by
    intro entry member
    obtain rfl := List.mem_singleton.mp member
    simp only [Goal.Below, Goal.AllBelow, Constraint.Below, Constraint.AllBelow]
    decide
  have source : (FactSource.table evens).Below 2 :=
    (((FactTable.wellFormed_empty 1).push rfl (by decide)).push rfl (by decide)).below 2
  have called : ∀ t ∈ [Term.var (.numbered 0)], t.Below 2 := by decide
  have drawn : ∀ t ∈ [Term.var (.numbered 1)], t.Below 2 := by decide
  have below : twins.Below 2 := by
    refine ⟨⟨⟨called, ⟨drawn, source⟩, trivial⟩, trivial⟩, by decide, ?_, ?_⟩
    · simp [twins, FacetKey.Below]
    · simp [twins]
  have room : 2 ≤ (Session.start 1 0).nextOrdinal := by decide
  have roomOther : 2 ≤ (Session.start 7 0).nextOrdinal := by decide
  exact ⟨defined, below, by decide +kernel, by decide +kernel,
    restartable defined below room roomOther 10 10⟩

end Query

end RelationalSolver
