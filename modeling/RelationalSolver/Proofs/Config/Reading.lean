import RelationalSolver.Config.Decode
import RelationalSolver.Proofs.Query.Limits

/-!
# Configurations that are read

Whatever the text and its format, a configuration that is read can drive a query.  Its values agree
with one another, so that no query is refused for it, and its numbers have 64 bits, so that seeds
reach the passes as they are written.
-/

namespace RelationalSolver

/-! ## Numbers of 64 bits -/

/-- The number has 64 bits. -/
def IsCount (n : Nat) : Prop := n < 0x10000000000000000

theorem IsCount.toNat_toUInt64 {n : Nat} (count : IsCount n) : n.toUInt64.toNat = n :=
  UInt64.toNat_ofNat_of_lt count

/-- All limits have 64 bits. -/
structure Limits.Counted (limits : Limits) : Prop where
  solutions : ∀ n, limits.solutionLimit = some n → IsCount n
  steps : ∀ n, limits.stepLimit = some n → IsCount n
  seconds : ∀ n, limits.secondsSpentLimit = some n → IsCount n
  millis : ∀ n, limits.millisSpentLimit = some n → IsCount n

/-- The seed of the pass has 64 bits, if it has one. -/
def PassConfig.Counted (pass : PassConfig) : Prop :=
  ∀ seed, pass = .randomizeOrder (some seed) → IsCount seed

/-- All numbers of the configuration have 64 bits. -/
structure QueryConfig.Counted (config : QueryConfig) : Prop where
  seed : ∀ n, config.randomSeed = some n → IsCount n
  limits : ∀ limits, config.termination = some limits → limits.Counted
  passes : ∀ passes, config.heuristics = some passes → ∀ pass ∈ passes, pass.Counted

theorem Limits.counted_of_ofList {limits : Limits} {list : List (Option Nat)}
    (counts : ∀ limit ∈ list, ∀ n, limit = some n → IsCount n)
    (read : Limits.ofList? list = some limits) : limits.Counted := by
  unfold Limits.ofList? at read
  split at read
  · rename_i solutions steps seconds millis
    cases read
    exact ⟨counts solutions (by simp), counts steps (by simp), counts seconds (by simp),
      counts millis (by simp)⟩
  · cases read

theorem Document.isCount_of_count {document : Document} {n : Nat}
    (read : document.count? = some n) : IsCount n := by
  unfold count? at read
  split at read
  · split at read
    · cases read
      assumption
    · cases read
  · split at read
    · rename_i value fits
      cases read
      obtain ⟨_, small⟩ := Bool.and_eq_true_iff.mp fits
      have below := of_decide_eq_true small
      unfold IsCount
      omega
    · cases read
  · cases read

/-! ## Passes -/

namespace PassConfig

theorem counted_of_plainKind {kind : String} {pass : PassConfig}
    (read : plainKind? kind = some pass) : pass.Counted := by
  rintro seed rfl
  unfold plainKind? at read
  split at read <;> cases read

theorem counted_of_seed {document : Document} {pass : PassConfig}
    (read : PassConfig.randomizeOrder <$> seed? document = some pass) : pass.Counted := by
  rintro seed rfl
  obtain ⟨seed, read, same⟩ := Option.map_eq_some_iff.mp read
  cases same
  unfold seed? at read
  split at read
  · cases read
  · obtain ⟨_, read, same⟩ := Option.map_eq_some_iff.mp read
    cases same
    exact Document.isCount_of_count read

theorem counted_of_ofEntries {kind : String} {entries : List (Document × Document)}
    {pass : PassConfig} (read : ofEntries? kind entries = some pass) : pass.Counted := by
  unfold ofEntries? at read
  split at read
  · rename_i plain
    cases read
    exact counted_of_plainKind plain
  · split at read
    · obtain ⟨_, _, read⟩ := Option.bind_eq_some_iff.mp read
      obtain ⟨value, _, read⟩ := Option.bind_eq_some_iff.mp read
      cases value with
      | none =>
          cases read
          rintro _ ⟨⟩
      | some document => exact counted_of_seed read
    · cases read

theorem counted_of_ofItems {kind : String} {items : List Document} {pass : PassConfig}
    (read : ofItems? kind items = some pass) : pass.Counted := by
  unfold ofItems? at read
  split at read
  · rename_i plain
    split at read
    · cases read
      exact counted_of_plainKind plain
    · cases read
  · split at read
    · split at read
      · exact counted_of_seed read
      · cases read
    · cases read

end PassConfig

/-! ## TOML -/

theorem forall_mem_of_mapM {α β : Type} {read : α → Option β} {P : β → Prop} {items : List α}
    {results : List β} (each : ∀ item result, read item = some result → P result)
    (all : items.mapM read = some results) : ∀ result ∈ results, P result := by
  induction items generalizing results with
  | nil =>
      cases all
      exact List.forall_mem_nil _
  | cons item items ih =>
      rw [List.mapM_cons] at all
      obtain ⟨result, here, all⟩ := Option.bind_eq_some_iff.mp all
      obtain ⟨rest, later, all⟩ := Option.bind_eq_some_iff.mp all
      cases all
      exact List.forall_mem_cons.mpr ⟨each _ _ here, ih later⟩

namespace Toml

theorem holds_of_optional {α : Type} {read : Document → Option α} {P : α → Prop}
    {setting : Option Document} {result : Option α}
    (each : ∀ document value, read document = some value → P value)
    (all : optional? read setting = some result) : ∀ value, result = some value → P value := by
  rintro value rfl
  cases setting with
  | none => cases all
  | some document =>
      obtain ⟨_, read, same⟩ := Option.map_eq_some_iff.mp all
      cases same
      exact each document value read

theorem counted_of_pass {document : Document} {pass : PassConfig}
    (read : pass? document = some pass) : pass.Counted := by
  unfold pass? at read
  split at read
  · dsimp only at read
    split at read
    · obtain ⟨_, _, read⟩ := Option.bind_eq_some_iff.mp read
      exact PassConfig.counted_of_ofEntries read
    · cases read
  · obtain ⟨_, _, read⟩ := Option.bind_eq_some_iff.mp read
    exact PassConfig.counted_of_ofItems read
  · cases read

theorem counted_of_limits {document : Document} {limits : Limits}
    (read : limits? document = some limits) : limits.Counted := by
  obtain ⟨settings, _, read⟩ := Option.bind_eq_some_iff.mp read
  obtain ⟨list, each, read⟩ := Option.bind_eq_some_iff.mp read
  refine Limits.counted_of_ofList (forall_mem_of_mapM (fun setting limit optional => ?_) each) read
  exact holds_of_optional (fun _ _ => Document.isCount_of_count) optional

theorem counted_of_settings {document : Document} {config : QueryConfig}
    (read : settings? document = some config) : config.Counted := by
  obtain ⟨settings, _, read⟩ := Option.bind_eq_some_iff.mp read
  split at read
  · obtain ⟨mode, _, read⟩ := Option.bind_eq_some_iff.mp read
    obtain ⟨seed, seeded, read⟩ := Option.bind_eq_some_iff.mp read
    obtain ⟨occursCheck, _, read⟩ := Option.bind_eq_some_iff.mp read
    obtain ⟨limits, limited, read⟩ := Option.bind_eq_some_iff.mp read
    obtain ⟨passes, planned, read⟩ := Option.bind_eq_some_iff.mp read
    cases read
    refine ⟨?_, ?_, ?_⟩
    · exact holds_of_optional (fun _ _ => Document.isCount_of_count) seeded
    · exact holds_of_optional (fun _ _ => counted_of_limits) limited
    · refine holds_of_optional (fun document passes read => ?_) planned
      unfold passes? at read
      split at read
      · exact forall_mem_of_mapM (fun _ _ => counted_of_pass) read
      · cases read
  · cases read

end Toml

/-! ## YAML -/

namespace Yaml.Settling

variable {α β : Type} {P : α → Prop} {Q : β → Prop} {x : Settling α}

/-- Everything that can be read fulfils the predicate. -/
def Gives (x : Settling α) (P : α → Prop) : Prop :=
  ∀ anchors left result, (x.run anchors).run left = some result → P result.1

theorem gives_failure : Gives (failure : Settling α) P := by
  intro _ _ _ impossible
  cases impossible

theorem gives_pure {value : α} (holds : P value) : Gives (pure value) P := by
  intro _ _ _ same
  cases same
  exact holds

theorem gives_any (x : Settling α) : Gives x fun _ => True := fun _ _ _ _ => trivial

theorem Gives.bind {f : α → Settling β} (first : Gives x P)
    (second : ∀ value, P value → Gives (f value) Q) : Gives (x >>= f) Q := by
  intro anchors left result ran
  obtain ⟨⟨value, between⟩, here, later⟩ := Option.bind_eq_some_iff.mp ran
  exact second value (first anchors left _ here) anchors between result later

theorem Gives.map {f : α → β} (gives : Gives x P) (keeps : ∀ value, P value → Q (f value)) :
    Gives (f <$> x) Q := by
  rw [← bind_pure_comp]
  exact gives.bind fun value holds => gives_pure (keeps value holds)

theorem gives_lift {read : Option α} (holds : ∀ value, read = some value → P value) :
    Gives (liftM read) P := by
  intro anchors left result ran
  obtain ⟨value, here, same⟩ := Option.bind_eq_some_iff.mp ran
  cases same
  exact holds value here

theorem gives_mapM {read : β → Settling α} (each : ∀ item, Gives (read item) P) (items : List β) :
    Gives (items.mapM read) fun results => ∀ result ∈ results, P result := by
  induction items with
  | nil => exact gives_pure (List.forall_mem_nil _)
  | cons item items ih =>
      rw [List.mapM_cons]
      refine (each item).bind fun result here => ?_
      exact ih.bind fun rest later => gives_pure (List.forall_mem_cons.mpr ⟨here, later⟩)

theorem optional_gives {read : Node → Settling α} (each : ∀ node, Gives (read node) P)
    (setting : Option Node) :
    Gives (optional read setting) fun result => ∀ value, result = some value → P value := by
  cases setting with
  | none => exact gives_pure nofun
  | some node =>
      refine (gives_any (follow node)).bind fun node _ => ?_
      refine (gives_any (isPresent node)).bind fun present _ => ?_
      cases present with
      | true =>
          refine (each node).map fun value holds other same => ?_
          cases same
          exact holds
      | false => exact gives_pure nofun

theorem isCount_of_count {text : String} {n : Nat} (read : count? text = some n) : IsCount n := by
  unfold count? at read
  split at read
  · split at read
    · rename_i value _ fits
      cases read
      obtain ⟨positive, small⟩ := Bool.and_eq_true_iff.mp fits
      unfold Integer.fits at small
      rw [Bool.not_eq_true'] at positive
      rw [positive] at small
      have fits := of_decide_eq_true small
      exact fits
    · cases read
  · cases read

theorem count_gives (node : Node) : Gives (count node) IsCount := by
  refine (gives_any (follow node)).bind fun node _ => ?_
  split
  · split
    · exact gives_lift fun _ => isCount_of_count
    · exact gives_failure
  · exact gives_failure

theorem limits_gives (node : Node) : Gives (limits node) Limits.Counted := by
  refine (gives_any (fields Limits.names node)).bind fun settings _ => ?_
  refine (gives_mapM (optional_gives count_gives) settings).bind fun list counts => ?_
  exact gives_lift fun _ => Limits.counted_of_ofList counts

theorem pass_gives (node : Node) : Gives (pass node) PassConfig.Counted := by
  refine (gives_any (follow node)).bind fun node _ => ?_
  split
  · rename_i properties entries
    refine (gives_any (expectNoAlternative properties)).bind fun _ _ => ?_
    refine (gives_any (entries.mapM _)).bind fun parts _ => ?_
    dsimp only
    split
    · exact gives_lift fun _ => PassConfig.counted_of_ofEntries
    · exact gives_failure
  · rename_i properties kind items
    refine (gives_any (expectNoAlternative properties)).bind fun _ _ => ?_
    refine (gives_any (name kind)).bind fun kind _ => ?_
    refine (gives_any (items.mapM _)).bind fun items _ => ?_
    exact gives_lift fun _ => PassConfig.counted_of_ofItems
  · exact gives_failure

theorem passes_gives (node : Node) : Gives (passes node) fun list => ∀ pass ∈ list, pass.Counted :=
  (gives_any (items node)).bind fun items _ => gives_mapM pass_gives items

theorem config_gives (node : Node) : Gives (config node) QueryConfig.Counted := by
  refine (gives_any (fields QueryConfig.names node)).bind fun settings _ => ?_
  split
  · rename_i environmentMode seed occursCheck termination heuristics
    refine (gives_any (settingOr .nonReproducible mode environmentMode)).bind fun _ _ => ?_
    refine (optional_gives count_gives seed).bind fun _ seeded => ?_
    refine (gives_any (settingOr false flag occursCheck)).bind fun _ _ => ?_
    refine (optional_gives limits_gives termination).bind fun _ limited => ?_
    refine (optional_gives passes_gives heuristics).bind fun _ planned => ?_
    exact gives_pure ⟨seeded, limited, planned⟩
  · exact gives_failure

end Yaml.Settling

theorem Yaml.counted_of_config {text : String} {config : QueryConfig}
    (read : Yaml.config? text = some config) : config.Counted := by
  obtain ⟨node, _, read⟩ := Option.bind_eq_some_iff.mp read
  cases node with
  | none =>
      cases read
      exact ⟨nofun, nofun, nofun⟩
  | some node =>
      obtain ⟨result, given, same⟩ := Option.bind_eq_some_iff.mp read
      cases same
      exact Settling.config_gives node _ _ _ given

/-! ## Consistent values -/

/-- The values of the configuration agree with one another. -/
structure QueryConfig.Consistent (config : QueryConfig) : Prop where
  limits : ∀ limits, config.termination = some limits → limits.solutionLimit ≠ some 0
  passes : ∀ passes, config.heuristics = some passes → (passes.map PassConfig.kind).Nodup

theorem PassConfig.repeatedKind_eq_none {seen : List String} {passes : List PassConfig} :
    repeatedKind seen passes = none ↔
      (passes.map kind).Nodup ∧ ∀ pass ∈ passes, pass.kind ∉ seen := by
  induction passes generalizing seen with
  | nil => simp [repeatedKind]
  | cons pass passes ih =>
      rw [repeatedKind]
      split
      · rename_i before
        simp [before]
      · rename_i new
        rw [ih, List.map_cons, List.nodup_cons]
        constructor
        · rintro ⟨apart, unseen⟩
          refine ⟨⟨fun again => ?_, apart⟩, List.forall_mem_cons.mpr ⟨new, fun other member => ?_⟩⟩
          · obtain ⟨other, member, same⟩ := List.mem_map.mp again
            exact unseen other member (same ▸ List.mem_cons_self)
          · exact mt (List.mem_cons_of_mem _) (unseen other member)
        · rintro ⟨⟨other, apart⟩, unseen⟩
          refine ⟨apart, fun later member before => ?_⟩
          rcases List.mem_cons.mp before with same | before
          · exact other (List.mem_map.mpr ⟨later, member, same⟩)
          · exact unseen later (List.mem_cons_of_mem _ member) before

theorem QueryConfig.validate_eq_ok {config : QueryConfig} :
    config.validate = .ok () ↔ config.Consistent := by
  have valid : config.validate = .ok () ↔
      config.termination.bind (·.solutionLimit) ≠ some 0 ∧
        PassConfig.repeatedKind [] (config.heuristics.getD []) = none := by
    rw [validate]
    split
    · rename_i zero
      refine iff_of_false (fun valid => ?_) fun holds => holds.1 zero
      cases valid
    · rename_i positive
      dsimp only
      split
      · rename_i kind repeated
        rw [repeated]
        constructor
        · intro valid
          cases valid
        · rintro ⟨_, apart⟩
          cases apart
      · rename_i apart
        exact iff_of_true rfl ⟨positive, apart⟩
  rw [valid, PassConfig.repeatedKind_eq_none]
  constructor
  · rintro ⟨positive, apart, _⟩
    refine ⟨fun limits given zero => ?_, fun passes given => ?_⟩
    · rw [given] at positive
      exact positive zero
    · rw [given] at apart
      exact apart
  · rintro ⟨limits, passes⟩
    refine ⟨fun zero => ?_, ?_, fun _ _ => List.not_mem_nil⟩
    · obtain ⟨limited, given, zero⟩ := Option.bind_eq_some_iff.mp zero
      exact limits limited given zero
    · cases given : config.heuristics with
      | none => exact List.nodup_nil
      | some listed => exact passes listed given

theorem QuerySetup.checkProjection_ne_config {goal : Goal} {vars : List Var}
    {cause : Inconsistency} : checkProjection goal vars ≠ .error (.config cause) := by
  induction vars with
  | nil => nofun
  | cons v vs ih =>
      rw [checkProjection]
      split
      · nofun
      · dsimp only
        split
        · split
          · nofun
          · exact ih
        · exact ih

/-! ## Queries with configurations that were read -/

/-- A query is refused for its configuration exactly if this is inconsistent. -/
theorem QuerySetup.returns_config {setup : QuerySetup} {entropy : UInt64} {cause : Inconsistency} :
    Engine.Returns (setup.build entropy) (.error (.config cause)) ↔
      setup.config.validate = .error cause := by
  unfold build
  cases setup.config.validate with
  | error other =>
      constructor
      · rintro ⟨before, after, ran⟩
        cases (Engine.runs_pure.mp ran).1
        rfl
      · rintro ⟨⟩
        exact ⟨.start 0 0, _, rfl⟩
  | ok _ =>
      refine iff_of_false ?_ nofun
      rintro ⟨before, after, ran⟩
      dsimp only at ran
      split at ran
      · rename_i impossible
        cases (Engine.runs_pure.mp ran).1
        exact checkProjection_ne_config impossible
      · obtain ⟨_, _, _, ran⟩ := Engine.runs_bind.mp ran
        obtain ⟨_, _, _, ran⟩ := Engine.runs_bind.mp ran
        split at ran
        all_goals cases (Engine.runs_pure.mp ran).1

/-- A shuffling pass of a query takes its own seed or that of the query as it is written. -/
theorem QuerySetup.passOf_seeded {config : QueryConfig} (counted : config.Counted)
    {own : Option Nat} (ownCounted : (PassConfig.randomizeOrder own).Counted) (entropy : UInt64)
    {seed : Nat} (seeded : own.or config.effectiveSeed = some seed) :
    ∃ word, passOf config entropy (.randomizeOrder own) = .randomizeOrder word ∧
      word.toNat = seed := by
  have isCount : IsCount seed := by
    cases own with
    | some _ =>
        cases seeded
        exact ownCounted seed rfl
    | none =>
        rw [Option.none_or, QueryConfig.effectiveSeed] at seeded
        split at seeded
        · rename_i given
          cases seeded
          exact counted.seed seed given
        · cases seeded
          exact Nat.succ_pos _
        · cases seeded
  refine ⟨seed.toUInt64, ?_, isCount.toNat_toUInt64⟩
  rw [passOf, seeded]

namespace QueryConfig

variable {format : ConfigFormat} {text : String} {config : QueryConfig}

/-- A configuration is read exactly if the text has one that is consistent. -/
theorem parse_eq_ok :
    parse format text = .ok config ↔ format.config? text = some config ∧ config.Consistent := by
  rw [← validate_eq_ok, parse]
  cases format.config? text with
  | none => exact iff_of_false nofun nofun
  | some found =>
      dsimp only
      split
      · rename_i valid
        constructor
        · rintro ⟨⟩
          exact ⟨rfl, valid⟩
        · rintro ⟨⟨⟩, _⟩
          rfl
      · rename_i cause invalid
        refine iff_of_false nofun ?_
        rintro ⟨⟨⟩, valid⟩
        cases invalid.symm.trans valid

/-- A configuration that is read can drive a query, whatever its text: its numbers have 64 bits,
and no query is refused for it. -/
theorem drives_of_parse (read : parse format text = .ok config) :
    config.Counted ∧ ∀ (setup : QuerySetup) entropy cause, setup.config = config →
      ¬ Engine.Returns (setup.build entropy) (.error (.config cause)) := by
  obtain ⟨found, consistent⟩ := parse_eq_ok.mp read
  constructor
  · cases format with
    | toml =>
        obtain ⟨document, _, settings⟩ := Option.bind_eq_some_iff.mp found
        exact Toml.counted_of_settings settings
    | yaml => exact Yaml.counted_of_config found
  · rintro setup entropy cause rfl refused
    have valid := validate_eq_ok.mpr consistent
    rw [QuerySetup.returns_config.mp refused] at valid
    cases valid

end QueryConfig

end RelationalSolver
