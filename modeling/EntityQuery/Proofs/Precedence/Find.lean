import EntityQuery.Proofs.Find.Run
import EntityQuery.Proofs.Precedence.Draft
import EntityQuery.Proofs.Scoping.Find

/-!
# User conditions narrow the result

The conditions over user aliases are one more group beside those of the filter.  Where the WHERE
clause is true as it is written, with `AND` before `OR`, that of the query without user conditions is
true, and so are the conditions that come with the table of the entity.

Fragments are written without parentheses.  So the theorem wants fragments that are terms, and the
sample shows that it has to.

* `Plan.Narrows`: what has to hold in a plan has to hold in the other one;
* `QueryRun.exists_without`: the passes of the query without user conditions;
* `narrowed_find`: the two WHERE clauses.
-/

namespace EntityQuery

/-! ### Conditions that come with the entity -/

namespace Plan

variable {p : Plan} {k : ColumnCondition}

/-- A predicate that was not asked for is no test for null. -/
theorem mem_addNullChecks (hk : .column k ∈ p.topConditions) (hpruneable : k.pruneable = true)
    {idDbType : String → String} : .column k ∈ (p.addNullChecks idDbType).topConditions := by
  rw [addNullChecks, topConditions_mapLeaves]
  refine Condition.mem_mapLeavesAll_iff.2 ⟨_, hk, ?_⟩
  simp [Condition.mapLeaves, Condition.withNullCheck, ColumnCondition.isAmbiguous, hpruneable]

/-- It is left where its table is shown. -/
theorem Plain.mem_trim (hp : p.Plain) (hk : .column k ∈ p.topConditions)
    (hshown : k.aliasName ∈ Select.referencesOf p.selects) {keep : List String} :
    .column k ∈ (p.trim keep).topConditions := by
  refine (trim_induct (P := fun x => x.Plain ∧ x.Remains p ∧ .column k ∈ x.topConditions)
    (fun x hx => ?_) ⟨hp, .refl p, hk⟩).2.2
  refine ⟨hx.1.remove, hx.1.remains_remove.trans hx.2.1, ?_⟩
  have hkept : k.aliasName ∉ x.unreferenced keep := fun hm =>
    (mem_unreferenced_iff.1 hm).2.2 (mem_references_iff.2 (.inl (hx.2.1.selects ▸ hshown)))
  rw [topConditions_remove (isDisjunctive_of_mem hx.2.2)]
  refine Condition.mem_mapLeavesAll_iff.2 ⟨_, hx.2.2, ?_⟩
  simp [Condition.mapLeaves, Condition.withoutRemoved, hkept]

end Plan

/-! ### Plans with more conditions -/

/-- What has to hold in the other plan has to hold in this one. -/
inductive Plan.Narrows : Plan → Plan → Prop
  | refl (p : Plan) : p.Narrows p
  | free {p q : Plan} (h : q.topConditions = []) : p.Narrows q
  | covers {p q : Plan} (h : p.Covers q) : p.Narrows q

namespace Plan.Narrows

variable {p q : Plan} {I : Interpretation}

theorem whereHolds (h : p.Narrows q) (ht : ∀ c ∈ p.topConditions, c.Tight I)
    (hp : p.WhereHolds I) : q.WhereHolds I := by
  cases h with
  | refl => exact hp
  | free h => exact whereHolds_of_topConditions (h ▸ nofun) (h ▸ nofun)
  | covers h =>
    have hall := fun c hc => (h.conditions c hc).readsAs h.conjunctive ht hp
    exact whereHolds_of_topConditions (fun c hc => (hall c hc).1) fun c hc => (hall c hc).2

/-- A predicate of the other plan holds where the WHERE clause does. -/
theorem readsAs (h : p.Narrows q) (ht : ∀ c ∈ p.topConditions, c.Tight I) (hp : p.WhereHolds I)
    {k : ColumnCondition} (hk : .column k ∈ q.topConditions) :
    (Condition.column k).ReadsAs I (some true) := by
  cases h with
  | refl => exact hp.of_mem (isDisjunctive_of_mem hk) ht hk
  | free h =>
    rw [h] at hk
    cases hk
  | covers h => exact ((h.conditions _ hk).readsAs h.conjunctive ht hp).2

theorem addNullChecks (h : p.Narrows q) (hp : p.Plain) (hq : q.Plain) (htables : p.tables = q.tables)
    {idDbType : String → String} : (p.addNullChecks idDbType).Narrows (q.addNullChecks idDbType) := by
  cases h with
  | refl => exact .refl _
  | free h =>
    refine .free ?_
    rw [Plan.addNullChecks, topConditions_mapLeaves, h]
    rfl
  | covers h => exact .covers (h.addNullChecks hp hq htables)

theorem ordered (h : p.Narrows q) {ts : List Table} {keys : List SortKey} :
    Narrows { p with tables := ts, sortKeys := keys } { q with tables := ts, sortKeys := keys } := by
  cases h with
  | refl => exact .refl _
  | free h => exact .free h
  | covers h => exact .covers h.ordered

theorem trim (h : p.Narrows q) (hp : p.Plain) (hq : q.Plain) {keep : List String} :
    (p.trim keep).Narrows (q.trim keep) := by
  cases h with
  | refl => exact .refl _
  | free h =>
    refine .free (List.eq_nil_iff_forall_not_mem.2 fun c hc => ?_)
    have hc := hq.trim.2.conditions c hc
    rw [h] at hc
    cases hc
  | covers h => exact .covers (h.trim hp hq)

/-- Tests for null and the same order are added to both plans. -/
theorem addOrder {s : Setting} {e : Entity} {a : String} {order : OrderBy} {p' : Plan}
    {supply rest : AliasSupply} {idDbType : String → String} (h : p.Narrows q) (hp : p.Plain)
    (hq : q.Plain) (htables : p.tables = q.tables) (hkeys : p.sortKeys = q.sortKeys)
    (ho : (p.addNullChecks idDbType).addOrder s e a order supply = .ok (p', rest)) :
    ∃ q', (q.addNullChecks idDbType).addOrder s e a order supply = .ok (q', rest) ∧
      p'.Narrows q' ∧ p'.Plain ∧ q'.Plain ∧ q'.selects = q.selects ∧
      q'.topConditions = (q.addNullChecks idDbType).topConditions := by
  obtain ⟨js, keys, hadd⟩ := exists_joins_addOrder ho
  obtain ⟨rfl, -⟩ := Prod.mk.inj (Except.ok.inj ((hadd _ rfl rfl).symm.trans ho))
  have htables' : (q.addNullChecks idDbType).tables = (p.addNullChecks idDbType).tables :=
    hq.mapLeaves_tables.trans (htables.symm.trans hp.mapLeaves_tables.symm)
  have hkeys' : (q.addNullChecks idDbType).sortKeys = (p.addNullChecks idDbType).sortKeys :=
    sortKeys_mapLeaves.trans (hkeys.symm.trans sortKeys_mapLeaves.symm)
  refine ⟨_, hadd _ htables' hkeys', (h.addNullChecks hp hq htables).ordered, hp.addNullChecks.ordered,
    ?_, hq.mapLeaves_selects, rfl⟩
  rw [← htables']
  exact hq.addNullChecks.ordered

end Plan.Narrows

/-! ### Queries without their user conditions -/

namespace Draft

variable {s : Setting} {d : Draft} {e : Entity} {a : String} {filter : EntityFilter}
  {conditions : Option ExpressionLiteral}

/-- User conditions are one more group, if anything. -/
theorem exists_without (hf : filter.Singular s e) (h : ofQuery s e filter conditions = .ok (a, d)) :
    ∃ d₀, ofQuery s e filter none = .ok (a, d₀) ∧ d₀.Plain ∧ d.Plain ∧
      d.toPlan.Narrows d₀.toPlan ∧ ∃ cs, d = { d₀ with conjuncts := cs } := by
  cases conditions with
  | none => exact ⟨d, h, .of_ofQuery hf h, .of_ofQuery hf h, .refl _, _, rfl⟩
  | some literal =>
    rw [ofQuery_some] at h
    obtain ⟨⟨b, d₀⟩, hd₀, h⟩ := exists_of_bind_eq_ok h
    obtain ⟨d', hd, h⟩ := exists_of_bind_eq_ok h
    obtain ⟨rfl, rfl⟩ := Prod.mk.inj (Except.ok.inj h)
    have hplain : d₀.Plain := .of_ofQuery hf hd₀
    refine ⟨d₀, hd₀, hplain, ?_⟩
    rcases hplain.addConditions hd with rfl | ⟨g, rfl, hplain'⟩
    · exact ⟨hplain, .refl _, _, rfl⟩
    · refine ⟨hplain', ?_, _, rfl⟩
      by_cases htop : d₀.toPlan.topConditions = []
      · exact .free htop
      · exact .covers (covers_addGroup htop)

end Draft

section

variable {schema : Schema} {config : Config} {typeName : String} {filter : EntityFilter}
  {options : FindOptions} {e : Entity} {r : Resolved}

/-- The same query without user conditions. -/
abbrev FindOptions.unconditional (options : FindOptions) : FindOptions :=
  { options with conditions := none }

/-- The query without user conditions goes through the same passes; the plan of the query narrows its
plan, which has the conditions that come with the table of the entity. -/
theorem QueryRun.exists_without (run : QueryRun schema config typeName filter options)
    (hf : filter.Singular (options.setting schema config) run.entity) :
    ∃ run₀ : QueryRun schema config typeName filter options.unconditional,
      run.plan.Narrows run₀.plan ∧ ∀ deletion,
        (options.setting schema config).deletion? run.entity = .ok deletion →
        ∀ c ∈ run.entity.implied run.aliasName deletion, ∃ k, c = .column k ∧
          c ∈ run₀.plan.topConditions := by
  have hmem := run.entity_mem
  obtain ⟨e, a, d, keep, resolved, supply, ordered, rest, he, hd, hkeep, hresolved, hordered⟩ := run
  obtain ⟨d₀, hd₀, hplain₀, hplain, hnarrows, cs, hcs⟩ := Draft.exists_without hf hd
  have hsame : d.binding = d₀.binding ∧ d.idDbType = d₀.idDbType ∧ d.tables = d₀.tables ∧
      d.supply = d₀.supply := by
    subst hcs
    exact ⟨rfl, rfl, rfl, rfl⟩
  obtain ⟨hbinding, hids, htables, hsupply⟩ := hsame
  have hresolve : ∀ {p : Plan} {strategy : Strategy} {threshold : Nat} {supply : AliasSupply},
      p.resolveCollections strategy threshold [] supply = .ok (⟨p, []⟩, supply) := rfl
  rw [hplain.collections] at hresolved
  obtain ⟨rfl, rfl⟩ := Prod.mk.inj (Except.ok.inj (hresolve.symm.trans hresolved))
  rw [hbinding] at hkeep
  rw [hids, hsupply] at hordered
  obtain ⟨ordered₀, hordered₀, hnarrows, hp, hq, hselects, htop⟩ :=
    hnarrows.addOrder hplain.toPlan hplain₀.toPlan htables rfl hordered
  refine ⟨⟨e, a, d₀, keep, ⟨d₀.toPlan, []⟩, d₀.supply, ordered₀, rest, he, hd₀, hkeep,
    hplain₀.collections ▸ hresolve, hordered₀⟩, ?_, fun deletion hdeletion c hc => ?_⟩
  · unfold QueryRun.plan
    dsimp only
    split_ifs
    · rw [hp.prune_eq_trim, hq.prune_eq_trim]
      exact hnarrows.trim hp hq
    · exact hnarrows
  · obtain ⟨hinlined, k, rfl, hpruneable, hstar⟩ := (Draft.shows_implied hmem hd₀ hdeletion).2 c hc
    have hk : .column k ∈ ordered₀.topConditions :=
      htop ▸ Plan.mem_addNullChecks (Draft.mem_topConditions_of_inlined hinlined) hpruneable
    refine ⟨k, rfl, ?_⟩
    unfold QueryRun.plan
    dsimp only
    split_ifs
    · rw [hq.prune_eq_trim]
      exact hq.mem_trim hk (hselects ▸ Select.mem_referencesOf_star hstar)
    · exact hk

/-- Without collections in the filter, and with fragments that are terms, the WHERE clause of a query is
true only for rows for which that of the query without user conditions is true; for these, the
conditions that come with the table of the entity are true. -/
theorem narrowed_find (he : (options.setting schema config).entity typeName = .ok e)
    (hf : filter.Singular (options.setting schema config) e)
    (h : find schema config typeName filter options = .ok r) : ∃ r₀ a d,
      find schema config typeName filter { options with conditions := none } = .ok r₀ ∧
      Draft.ofQuery (options.setting schema config) e filter options.conditions = .ok (a, d) ∧
      ∀ I, (∀ c ∈ r.plan.topConditions, c.Tight I) → r.plan.WhereHolds I →
        r₀.plan.WhereHolds I ∧ ∀ deletion,
          (options.setting schema config).deletion? e = .ok deletion →
          ∀ c ∈ e.implied a deletion, c.ReadsAs I (some true) := by
  obtain ⟨run, rfl⟩ := exists_run_of_find h
  obtain rfl := Except.ok.inj (he.symm.trans run.entity_eq)
  obtain ⟨run₀, hnarrows, himplied⟩ := run.exists_without hf
  refine ⟨_, _, _, run₀.find_eq, run.draft_eq, fun I ht hholds =>
    ⟨hnarrows.whereHolds ht hholds, fun deletion hdeletion c hc => ?_⟩⟩
  obtain ⟨k, rfl, hk⟩ := himplied deletion hdeletion c hc
  exact hnarrows.readsAs ht hholds hk

end

/-! ### Queries on the library -/

/-- Authors of a publisher of the name, with names for both. -/
def ofPublisher (name : String) : EntityFilter :=
  ⟨some "a", [⟨"publisher", .nested ⟨some "p", [⟨"name", .scalar (.text name)⟩]⟩⟩]⟩

/-- A publisher with the id, or a fragment over the author. -/
def publisherOr (sql : String) : FindOptions :=
  { FindOptions.default with
    conditions := some ⟨.or, [.column "p" "id" (.compare .eq (.int 1)), .raw ["a"] sql []], .collapse⟩ }

theorem narrowed_find_library : ∃ r,
    find library .default "Author" (ofPublisher "x") (publisherOr "\x7ba\x7d.age > 60") = .ok r ∧
    ∃ r₀ a d,
      find library .default "Author" (ofPublisher "x")
        { publisherOr "\x7ba\x7d.age > 60" with conditions := none } = .ok r₀ ∧
      Draft.ofQuery ⟨library, .default, false⟩ Sample.Library.author (ofPublisher "x")
        (publisherOr "\x7ba\x7d.age > 60").conditions = .ok (a, d) ∧
      ∀ I, (∀ c ∈ r.plan.topConditions, c.Tight I) → r.plan.WhereHolds I →
        r₀.plan.WhereHolds I ∧ ∀ deletion,
          Setting.deletion? ⟨library, .default, false⟩ Sample.Library.author = .ok deletion →
          ∀ c ∈ Sample.Library.author.implied a deletion, c.ReadsAs I (some true) := by
  have hf : (ofPublisher "x").Singular ⟨library, .default, false⟩ Sample.Library.author := by
    refine ⟨⟨fun site hsite => ?_, fun site target hsite htarget => ?_⟩, trivial⟩
    · exact Except.ok.inj hsite ▸ rfl
    · obtain rfl := Except.ok.inj hsite
      obtain rfl := Except.ok.inj htarget
      exact ⟨fun site hsite => Except.ok.inj hsite ▸ rfl, trivial⟩
  have hfound : (find library .default "Author" (ofPublisher "x")
      (publisherOr "\x7ba\x7d.age > 60")).isOk = true := by
    decide +kernel
  cases h : find library .default "Author" (ofPublisher "x") (publisherOr "\x7ba\x7d.age > 60") with
  | error err =>
    rw [h] at hfound
    cases hfound
  | ok r => exact ⟨r, rfl, narrowed_find rfl hf h⟩

/-- All authors, with a name for them. -/
def namedAuthors : EntityFilter := ⟨some "a", []⟩

/-- A fragment over the author. -/
def fragmentOnly (sql : String) : FindOptions :=
  { FindOptions.default with conditions := some ⟨.and, [.raw ["a"] sql []], .collapse⟩ }

/-- An `OR` in a fragment is read outside of it: a row is selected that is marked as deleted. -/
theorem not_narrowed_find_library : ∃ r r₀ I,
    find library .default "Author" namedAuthors
      (fragmentOnly "\x7ba\x7d.age = 1 OR \x7ba\x7d.age = 2") = .ok r ∧
    find library .default "Author" namedAuthors
      { fragmentOnly "\x7ba\x7d.age = 1 OR \x7ba\x7d.age = 2" with conditions := none } = .ok r₀ ∧
    r.plan.WhereHolds I ∧ ¬ r₀.plan.WhereHolds I := by
  refine ⟨_, _, ⟨fun _ => some false, fun _ _ =>
    [.value (some false), .connective .or, .value (some true)]⟩, rfl, rfl, ⟨_, rfl, ?_⟩, ?_⟩
  · rintro ts ⟨⟩
    exact .or (.term (.and (.factor (.value (some false))) (.value (some false))))
      (.factor (.value (some true)))
  · rintro ⟨ts?, hts, h⟩
    obtain rfl := Except.ok.inj hts
    have hread := h _ rfl
    cases hread.unique (.term (.factor (.value (some false))))

end EntityQuery
