import RelationalSolver.Proofs.Context.Unobstructed

/-!
# Facets and the names they hold

A context finds the holder of a name among its facets.  The same can be done with an index of
names that is kept beside the facets and that every operation writes on its own.  Whatever is set,
changed and taken away, both agree: names and facets stay in one-to-one correspondence, a facet is
refused exactly while another one holds its name, and a facet that is taken away leaves its name to
anyone.
-/

namespace RelationalSolver

/-- One call that sets, changes or takes away a facet. -/
inductive FacetCall where
  | set (key : FacetKey) (value : key.Value)
  | update (key : FacetKey) (change : key.Value → key.Value)
  | remove (key : FacetKey)

namespace Context

variable {ctx next : Context} {key other : FacetKey} {value : key.Value} {name : String}

/-- The context that a call leads to, or the collision that it reports. -/
def attempt (ctx : Context) : FacetCall → Except Collision Context
  | .set key value => ctx.trySet key value
  | .update key change => ctx.tryUpdate key change
  | .remove key => .ok (ctx.remove key)

/-- The context after a call.  A call that fails leaves it as it was. -/
def perform (ctx : Context) (call : FacetCall) : Context :=
  match ctx.attempt call with
  | .ok next => next
  | .error _ => ctx

/-- The context after a history of calls. -/
def ofCalls (calls : List FacetCall) : Context := calls.foldl perform empty

end Context

/-- A context with an index of the names that are held, which is kept beside the facets and never
read off them. -/
structure IndexedContext where
  context : Context
  holders : Std.TreeMap String FacetKey

/-- A facet was to be set under a name that the index gives to another one.  The facets may not
know the other one. -/
structure Conflict where
  existing : Option FacetKey
  incoming : FacetKey

namespace IndexedContext

/-- The context without facets and names. -/
def empty : IndexedContext := ⟨.empty, ∅⟩

/-- Write a facet, and its name into the index. -/
def put (indexed : IndexedContext) (key : FacetKey) (value : key.Value) : IndexedContext :=
  ⟨indexed.context.put key value, indexed.holders.insert key.name key⟩

/-- Set a facet, unless the index gives its name to another one. -/
def trySet (indexed : IndexedContext) (key : FacetKey) (value : key.Value) :
    Except Conflict IndexedContext :=
  match indexed.holders[key.name]? with
  | some holder =>
      if holder = key then .ok (indexed.put key value)
      else .error ⟨(indexed.context.facets.find? (·.key = holder)).map (·.key), key⟩
  | none => .ok (indexed.put key value)

/-- Take a facet out of the facets and its name out of the index.  Nothing happens if it is not
set. -/
def remove (indexed : IndexedContext) (key : FacetKey) : IndexedContext :=
  if indexed.context.contains key then
    ⟨indexed.context.remove key, indexed.holders.erase key.name⟩
  else indexed

/-- What a call leads to, or the conflict that it reports. -/
def attempt (indexed : IndexedContext) : FacetCall → Except Conflict IndexedContext
  | .set key value => indexed.trySet key value
  | .update key change => indexed.trySet key (change (indexed.context.get key))
  | .remove key => .ok (indexed.remove key)

/-- What there is after a call.  A call that fails leaves everything as it was. -/
def perform (indexed : IndexedContext) (call : FacetCall) : IndexedContext :=
  match indexed.attempt call with
  | .ok next => next
  | .error _ => indexed

/-- What there is after a history of calls. -/
def ofCalls (calls : List FacetCall) : IndexedContext := calls.foldl perform empty

end IndexedContext

/-! ## Setting and taking away -/

namespace Context

variable {ctx next : Context} {key other : FacetKey} {value : key.Value} {name : String}

theorem contains_iff : ctx.contains key = true ↔ ∃ facet ∈ ctx.facets, facet.key = key := by
  simp [contains]

theorem mem_facets_remove {facet : Facet} :
    facet ∈ (ctx.remove key).facets ↔ facet ∈ ctx.facets ∧ facet.key ≠ key := by
  simp [remove]

theorem contains_remove :
    (ctx.remove key).contains other = true ↔ other ≠ key ∧ ctx.contains other = true := by
  simp only [contains_iff, mem_facets_remove]
  constructor
  · rintro ⟨facet, ⟨member, different⟩, rfl⟩
    exact ⟨different, facet, member, rfl⟩
  · rintro ⟨different, facet, member, rfl⟩
    exact ⟨facet, ⟨member, different⟩, rfl⟩

/-- Nothing happens if the facet to be taken away is not set. -/
theorem remove_of_not_contains (unset : ctx.contains key = false) : ctx.remove key = ctx := by
  have others : ∀ facet ∈ ctx.facets, facet.key ≠ key := by simpa [contains] using unset
  rw [remove, List.filter_eq_self.mpr (by simpa using others)]

theorem lookupIn_filter_self (facets : List Facet) :
    lookupIn key (facets.filter (·.key ≠ key)) = none := by
  induction facets with
  | nil => rfl
  | cons facet facets ih =>
      by_cases same : facet.key = key
      · rw [List.filter_cons_of_neg (by simpa using same), ih]
      · rw [List.filter_cons_of_pos (by simpa using same), lookupIn, dif_neg same, ih]

theorem lookupIn_filter_of_ne (different : other ≠ key) (facets : List Facet) :
    lookupIn other (facets.filter (·.key ≠ key)) = lookupIn other facets := by
  induction facets with
  | nil => rfl
  | cons facet facets ih =>
      by_cases same : facet.key = key
      · have apart : facet.key ≠ other := same ▸ different.symm
        rw [List.filter_cons_of_neg (by simpa using same), ih, lookupIn, dif_neg apart]
      · rw [List.filter_cons_of_pos (by simpa using same), lookupIn, lookupIn, ih]

theorem get?_remove_self : (ctx.remove key).get? key = none :=
  lookupIn_filter_self ctx.facets

theorem get?_remove_of_ne (different : other ≠ key) :
    (ctx.remove key).get? other = ctx.get? other :=
  lookupIn_filter_of_ne different ctx.facets

theorem contains_eq_isSome (ctx : Context) (key : FacetKey) :
    ctx.contains key = (ctx.get? key).isSome := by
  rw [Bool.eq_iff_iff, contains_iff]
  constructor
  · rintro ⟨facet, member, same⟩
    rw [get?]
    generalize ctx.facets = facets at member
    induction member with
    | head => simp [lookupIn, same]
    | tail first _ ih =>
        rw [lookupIn]
        split
        · rfl
        · exact ih
  · exact Unobstructed.exists_facet_of_get?

theorem contains_put :
    (ctx.put key value).contains other = true ↔ other = key ∨ ctx.contains other = true := by
  rw [contains_eq_isSome, contains_eq_isSome]
  by_cases same : key = other
  · subst same
    simp
  · simp [get?_put_of_ne same, Ne.symm same]

theorem find?_key (present : ctx.contains key = true) :
    (ctx.facets.find? (·.key = key)).map (·.key) = some key := by
  cases found : ctx.facets.find? (·.key = key) with
  | none =>
      obtain ⟨facet, member, same⟩ := contains_iff.mp present
      exact absurd (decide_eq_true same) (List.find?_eq_none.mp found facet member)
  | some facet => simpa using List.find?_some found

/-- The facet has that value, or is not set, and every other one is as it was. -/
structure Rewrites (ctx : Context) (key : FacetKey) (value : Option key.Value) (next : Context) :
    Prop where
  here : next.get? key = value
  elsewhere : ∀ other, other ≠ key → next.get? other = ctx.get? other

theorem rewrites_of_trySet (success : ctx.trySet key value = .ok next) :
    ctx.Rewrites key (some value) next :=
  ⟨get?_of_trySet success, fun _ different => get?_of_trySet_of_ne success different.symm⟩

theorem rewrites_remove (ctx : Context) (key : FacetKey) :
    ctx.Rewrites key none (ctx.remove key) :=
  ⟨get?_remove_self, fun _ => get?_remove_of_ne⟩

/-! ## Holders of names -/

/-- The key that holds a name. -/
def holder? (ctx : Context) (name : String) : Option FacetKey :=
  (ctx.facets.find? (·.key.name = name)).map (·.key)

theorem trySet_eq_elim : ctx.trySet key value =
    match ctx.holder? key.name with
    | some holder => if holder = key then .ok (ctx.put key value) else .error ⟨holder, key⟩
    | none => .ok (ctx.put key value) := by
  unfold trySet holder?
  cases ctx.facets.find? (·.key.name = key.name) <;> rfl

/-- No two facets have a name in common. -/
def NamedApart (ctx : Context) : Prop := (ctx.facets.map (·.key.name)).Nodup

theorem namedApart_empty : empty.NamedApart := List.nodup_nil

theorem NamedApart.remove (apart : ctx.NamedApart) (key : FacetKey) :
    (ctx.remove key).NamedApart :=
  apart.sublist (List.filter_sublist.map _)

/-- Among facets that are named apart, the holder of a name is the one that has it. -/
theorem NamedApart.holder?_eq_some (apart : ctx.NamedApart) :
    ctx.holder? name = some key ↔ ctx.contains key = true ∧ key.name = name := by
  rw [holder?, Option.map_eq_some_iff, contains_iff]
  constructor
  · rintro ⟨facet, found, rfl⟩
    exact ⟨⟨facet, List.mem_of_find?_eq_some found, rfl⟩, by simpa using List.find?_some found⟩
  · rintro ⟨⟨facet, member, rfl⟩, rfl⟩
    cases found : ctx.facets.find? (·.key.name = facet.key.name) with
    | none => exact absurd (decide_eq_true rfl) (List.find?_eq_none.mp found facet member)
    | some holder =>
        have same : holder.key.name = facet.key.name := by simpa using List.find?_some found
        rw [holder_eq apart member (List.mem_of_find?_eq_some found) same]
        exact ⟨facet, rfl, rfl⟩

/-- Two facets that are set have different names. -/
theorem NamedApart.eq_of_name_eq (apart : ctx.NamedApart) (set : ctx.contains key = true)
    (setOther : ctx.contains other = true) (same : key.name = other.name) : key = other := by
  have held := apart.holder?_eq_some.mpr ⟨set, same⟩
  rw [apart.holder?_eq_some.mpr ⟨setOther, rfl⟩] at held
  exact (Option.some.inj held).symm

/-- Another facet holds the name of the one to be set, and the collision tells both. -/
structure Refuses (ctx : Context) (key : FacetKey) (collision : Collision) : Prop where
  present : ctx.contains collision.existing = true
  sameName : collision.existing.name = key.name
  different : collision.existing ≠ key
  incoming : collision.incoming = key

theorem NamedApart.refuses_iff (apart : ctx.NamedApart) {collision : Collision} :
    ctx.Refuses key collision ↔ ctx.holder? key.name = some collision.existing ∧
      collision.existing ≠ key ∧ collision.incoming = key := by
  rw [apart.holder?_eq_some, and_assoc]
  constructor
  · rintro ⟨present, sameName, different, incoming⟩
    exact ⟨present, sameName, different, incoming⟩
  · rintro ⟨present, sameName, different, incoming⟩
    exact ⟨present, sameName, different, incoming⟩

/-- A facet is refused exactly if another one has its name. -/
theorem NamedApart.trySet_eq_error (apart : ctx.NamedApart) {collision : Collision} :
    ctx.trySet key value = .error collision ↔ ctx.Refuses key collision := by
  obtain ⟨existing, incoming⟩ := collision
  rw [trySet_eq_elim, apart.refuses_iff]
  cases ctx.holder? key.name with
  | none => simp
  | some holder =>
      dsimp only
      rw [Option.some.injEq]
      by_cases same : holder = key
      · rw [if_pos same]
        constructor
        · nofun
        · rintro ⟨rfl, different, _⟩
          exact absurd same different
      · rw [if_neg same]
        constructor
        · rintro ⟨⟩
          exact ⟨rfl, same, rfl⟩
        · rintro ⟨rfl, _, rfl⟩
          rfl

theorem mem_names : name ∈ ctx.names ↔ ∃ key, ctx.contains key = true ∧ key.name = name := by
  simp only [names, List.mem_mergeSort, List.mem_map, contains_iff]
  constructor
  · rintro ⟨facet, member, rfl⟩
    exact ⟨facet.key, ⟨facet, member, rfl⟩, rfl⟩
  · rintro ⟨_, ⟨facet, member, rfl⟩, rfl⟩
    exact ⟨facet, member, rfl⟩

theorem names_sorted (ctx : Context) :
    ctx.names.Pairwise fun a b => (compare a b).isLE = true := by
  apply List.pairwise_mergeSort
  · exact fun a b c => Std.TransCmp.isLE_trans
  · intro a b
    rw [Std.OrientedOrd.eq_swap (a := b)]
    cases compare a b <;> rfl

theorem NamedApart.nodup_names (apart : ctx.NamedApart) : ctx.names.Nodup :=
  (List.mergeSort_perm _ _).nodup_iff.mpr apart

/-- The names of the facets tell them apart. -/
theorem NamedApart.bijOn_name (apart : ctx.NamedApart) :
    Set.BijOn FacetKey.name { key | ctx.contains key = true } { name | name ∈ ctx.names } := by
  refine ⟨?_, ?_, ?_⟩
  · exact fun key present => mem_names.mpr ⟨key, present, rfl⟩
  · exact fun key present other presentOther => apart.eq_of_name_eq present presentOther
  · exact fun name held => mem_names.mp held

/-- After a facet was taken away, its name can be given to any other. -/
theorem NamedApart.exists_trySet_remove (apart : ctx.NamedApart) (set : ctx.contains key = true)
    (same : other.name = key.name) (value : other.Value) :
    ∃ next, (ctx.remove key).trySet other value = .ok next := by
  apply exists_trySet
  intro facet member sameName
  obtain ⟨before, different⟩ := mem_facets_remove.mp member
  exact absurd (apart.eq_of_name_eq (contains_iff.mpr ⟨facet, before, rfl⟩) set
    (sameName.trans same)) different

end Context

/-! ## The index of names -/

namespace IndexedContext

open Context

variable {indexed : IndexedContext} {ctx : Context} {key : FacetKey} {value : key.Value}

/-- The index knows the holders of names, which are apart. -/
structure Mirrors (indexed : IndexedContext) (ctx : Context) : Prop where
  context : indexed.context = ctx
  apart : ctx.NamedApart
  holders : ∀ name : String, indexed.holders[name]? = ctx.holder? name

/-- Both calls lead on, or both report the same. -/
def Agrees : Except Conflict IndexedContext → Except Collision Context → Prop
  | .ok indexed, .ok ctx => indexed.Mirrors ctx
  | .error conflict, .error collision =>
      conflict.existing = some collision.existing ∧ conflict.incoming = collision.incoming
  | _, _ => False

theorem mirrors_empty : empty.Mirrors .empty where
  context := rfl
  apart := namedApart_empty
  holders name := by simp [empty, holder?, Context.empty]

namespace Mirrors

theorem put (mirrors : indexed.Mirrors ctx)
    (success : ctx.trySet key value = .ok (ctx.put key value)) :
    (indexed.put key value).Mirrors (ctx.put key value) where
  context := by rw [IndexedContext.put, mirrors.context]
  apart := nodup_of_trySet mirrors.apart success
  holders name := by
    have apart : (ctx.put key value).NamedApart := nodup_of_trySet mirrors.apart success
    by_cases same : key.name = name
    · subst same
      rw [IndexedContext.put, Std.TreeMap.getElem?_insert_self, eq_comm, apart.holder?_eq_some]
      exact ⟨contains_put.mpr (.inl rfl), rfl⟩
    · rw [IndexedContext.put, Std.TreeMap.getElem?_insert, if_neg (by simpa using same),
        mirrors.holders]
      ext other
      rw [mirrors.apart.holder?_eq_some, apart.holder?_eq_some, contains_put]
      constructor
      · rintro ⟨present, named⟩
        exact ⟨.inr present, named⟩
      · rintro ⟨rfl | present, named⟩
        · exact absurd named same
        · exact ⟨present, named⟩

theorem trySet (mirrors : indexed.Mirrors ctx) (key : FacetKey) (value : key.Value) :
    Agrees (indexed.trySet key value) (ctx.trySet key value) := by
  have spec : ctx.trySet key value = _ := trySet_eq_elim
  rw [IndexedContext.trySet, mirrors.holders, spec]
  cases found : ctx.holder? key.name with
  | none =>
      rw [found] at spec
      exact mirrors.put spec
  | some holder =>
      rw [found] at spec
      dsimp only at spec ⊢
      by_cases same : holder = key
      · rw [if_pos same] at spec
        rw [if_pos same, if_pos same]
        exact mirrors.put spec
      · rw [if_neg same, if_neg same]
        refine ⟨?_, rfl⟩
        rw [mirrors.context]
        exact find?_key (mirrors.apart.holder?_eq_some.mp found).1

theorem remove (mirrors : indexed.Mirrors ctx) (key : FacetKey) :
    (indexed.remove key).Mirrors (ctx.remove key) := by
  rw [IndexedContext.remove, mirrors.context]
  by_cases present : ctx.contains key = true
  · rw [if_pos present]
    have apart := mirrors.apart.remove key
    refine ⟨rfl, apart, ?_⟩
    intro name
    ext other
    rw [apart.holder?_eq_some, contains_remove]
    by_cases same : key.name = name
    · subst same
      rw [Std.TreeMap.getElem?_erase_self]
      constructor
      · nofun
      · rintro ⟨⟨different, presentOther⟩, named⟩
        exact absurd (mirrors.apart.eq_of_name_eq presentOther present named) different
    · rw [Std.TreeMap.getElem?_erase, if_neg (by simpa using same), mirrors.holders,
        mirrors.apart.holder?_eq_some]
      constructor
      · rintro ⟨presentOther, named⟩
        exact ⟨⟨fun isKey => same (isKey ▸ named), presentOther⟩, named⟩
      · rintro ⟨⟨_, presentOther⟩, named⟩
        exact ⟨presentOther, named⟩
  · rw [if_neg present, remove_of_not_contains (Bool.eq_false_iff.mpr present)]
    exact mirrors

theorem attempt (mirrors : indexed.Mirrors ctx) (call : FacetCall) :
    Agrees (indexed.attempt call) (ctx.attempt call) := by
  cases call with
  | set key value => exact mirrors.trySet key value
  | update key change =>
      rw [IndexedContext.attempt, mirrors.context]
      exact mirrors.trySet key (change (ctx.get key))
  | remove key => exact mirrors.remove key

theorem perform (mirrors : indexed.Mirrors ctx) (call : FacetCall) :
    (indexed.perform call).Mirrors (ctx.perform call) := by
  have agrees := mirrors.attempt call
  rw [IndexedContext.perform, Context.perform]
  cases attempted : indexed.attempt call <;> cases attemptedOther : ctx.attempt call <;>
    rw [attempted, attemptedOther] at agrees
  · exact mirrors
  · exact agrees.elim
  · exact agrees.elim
  · exact agrees

theorem mem_keys_iff (mirrors : indexed.Mirrors ctx) {name : String} :
    name ∈ indexed.holders.keys ↔ name ∈ ctx.names := by
  rw [Std.TreeMap.mem_keys, Std.TreeMap.mem_iff_isSome_getElem?, mirrors.holders, mem_names,
    Option.isSome_iff_exists]
  exact exists_congr fun key => mirrors.apart.holder?_eq_some

/-- The names in the index are those of the facets. -/
theorem keys_eq (mirrors : indexed.Mirrors ctx) : indexed.holders.keys = ctx.names := by
  refine List.Perm.eq_of_pairwise (fun a b _ _ upward downward => ?_)
    (Std.TreeMap.ordered_keys.imp Ordering.isLE_of_eq_lt) (names_sorted ctx) ?_
  · exact Std.LawfulEqOrd.eq_of_compare (Std.OrientedCmp.isLE_antisymm upward downward)
  · rw [List.perm_ext_iff_of_nodup Std.TreeMap.nodup_keys mirrors.apart.nodup_names]
    exact fun name => mirrors.mem_keys_iff

end Mirrors

theorem mirrors_ofCalls (calls : List FacetCall) :
    (ofCalls calls).Mirrors (Context.ofCalls calls) :=
  List.foldl_rel mirrors_empty fun call _ _ _ mirrors => mirrors.perform call

end IndexedContext

namespace Context

/-- Whatever was set, changed and taken away, the names tell the facets apart, and an index of them
that is written beside the facets agrees in every call.  A facet is refused exactly if another one
holds its name, and that one is told; a facet that is set has its new value, and no other one
changes; a facet that is taken away leaves its name to anyone; and to take away one that is not set
changes nothing. -/
theorem facets_consistent (calls : List FacetCall) :
    let ctx := ofCalls calls
    let indexed := IndexedContext.ofCalls calls
    (Set.BijOn FacetKey.name { key | ctx.contains key = true } { name | name ∈ ctx.names } ∧
      ∀ key, ctx.contains key = (ctx.get? key).isSome) ∧
    (indexed.context = ctx ∧ indexed.holders.keys = ctx.names ∧
      (∀ (name : String) key, indexed.holders[name]? = some key ↔
        ctx.contains key = true ∧ key.name = name) ∧
      ∀ call, IndexedContext.Agrees (indexed.attempt call) (ctx.attempt call)) ∧
    (∀ key value collision, ctx.trySet key value = .error collision ↔ ctx.Refuses key collision) ∧
    (∀ key change collision,
      ctx.tryUpdate key change = .error collision ↔ ctx.Refuses key collision) ∧
    (∀ key value next, ctx.trySet key value = .ok next → ctx.Rewrites key (some value) next) ∧
    (∀ key change next, ctx.tryUpdate key change = .ok next →
      ctx.Rewrites key (some (change (ctx.get key))) next) ∧
    (∀ key, ctx.Rewrites key none (ctx.remove key)) ∧
    (∀ key, ctx.contains key = true → ∀ other (value : other.Value), other.name = key.name →
      ∃ next, (ctx.remove key).trySet other value = .ok next) ∧
    (∀ key, ctx.contains key = false → ctx.remove key = ctx) := by
  intro ctx indexed
  have mirrors : indexed.Mirrors ctx := IndexedContext.mirrors_ofCalls calls
  have apart : ctx.NamedApart := mirrors.apart
  refine ⟨⟨apart.bijOn_name, ctx.contains_eq_isSome⟩,
    ⟨mirrors.context, mirrors.keys_eq, ?_, mirrors.attempt⟩, ?_, ?_, ?_, ?_, ?_, ?_, ?_⟩
  · intro name key
    rw [mirrors.holders, apart.holder?_eq_some]
  · exact fun key value collision => apart.trySet_eq_error
  · exact fun key change collision => apart.trySet_eq_error
  · exact fun key value next => rewrites_of_trySet
  · exact fun key change next => rewrites_of_trySet
  · exact ctx.rewrites_remove
  · exact fun key present other value same => apart.exists_trySet_remove present same value
  · exact fun key => remove_of_not_contains

/-- A facet keeps another one of its name out, also after that one was taken away without having
been set, and lets it in once it is taken away itself. -/
theorem facets_consistent_sameName :
    let depth := FacetKey.custom ⟨"depth", "Depth"⟩
    let other := FacetKey.custom ⟨"depth", "OtherDepth"⟩
    let ctx := ofCalls [.set depth (1 : Int), .set other (2 : Int), .remove other]
    ctx.trySet other (2 : Int) = .error ⟨depth, other⟩ ∧ (ctx.remove depth).get? depth = none ∧
      ∃ next, (ctx.remove depth).trySet other (2 : Int) = .ok next := by
  intro depth other ctx
  obtain ⟨_, _, refused, _, _, _, removed, freed, _⟩ :=
    facets_consistent [.set depth (1 : Int), .set other (2 : Int), .remove other]
  have present : ctx.contains depth = true := by decide
  exact ⟨(refused other (2 : Int) _).mpr ⟨present, rfl, by decide, rfl⟩, (removed depth).here,
    freed depth present other (2 : Int) rfl⟩

end Context

end RelationalSolver
