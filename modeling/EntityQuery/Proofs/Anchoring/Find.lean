import EntityQuery.Proofs.Anchoring.Passes
import EntityQuery.Proofs.Multiplicity.Find

/-!
# Inner joins of queries

In the plan of a query and in each plan inside it, an inner join is joined to the primary table or to
that of another inner join in front of it.  So what it is joined to has a row, and it drops none
because the row of an optional relation or of a collection is missing.

* `Plan.Anchored`: the inner joins of a plan are joined in this way;
* `anchored_find`: the plan of a query.
-/

namespace EntityQuery

/-- Inner joins are joined to the primary table or to that of another inner join, in front of them.
However the tables in front are bound, the one that they are joined to has a row. -/
def Plan.Anchored (p : Plan) : Prop :=
  ∀ front j back, p.tables = front ++ .join j :: back → j.kind = .inner →
    (∃ t ∈ front, t.aliasName = j.parent.aliasName) ∧
    (∀ t ∈ p.tables, t.aliasName = j.parent.aliasName → t.isRequired = true) ∧
    ∀ db e₀, ∀ e ∈ Table.bindAll db front [e₀], ∃ row, e j.parent.aliasName = some row

section

variable {db : Database} {e e₀ : Assignment} {ts : List Table} {a : String}

/-- A required table is bound to a row wherever it is bound. -/
theorem Table.exists_row_of_mem_bind {t : Table} (h : t.isRequired = true) (he : e ∈ t.bind db e₀) :
    ∃ row, e t.aliasName = some row := by
  cases t with
  | primary a table =>
    obtain ⟨row, -, rfl⟩ := List.mem_map.1 he
    exact ⟨row, Assignment.bind_self⟩
  | join j =>
    have hkind : j.kind = .inner := of_decide_eq_true h
    change e ∈ j.bind db e₀ at he
    unfold Join.bind at he
    rw [if_neg (by simp [hkind])] at he
    obtain ⟨row, -, rfl⟩ := List.mem_map.1 he
    exact ⟨row, Assignment.bind_self⟩
  | _ => cases h

/-- Where all tables of a name are required, the name is bound to a row. -/
theorem Table.exists_row_of_mem_bindAll (hmem : ∃ t ∈ ts, t.aliasName = a)
    (h : ∀ t ∈ ts, t.aliasName = a → t.isRequired = true) (he : e ∈ Table.bindAll db ts [e₀]) :
    ∃ row, e a = some row := by
  induction ts generalizing e₀ with
  | nil =>
    obtain ⟨t, ht, -⟩ := hmem
    cases ht
  | cons t ts ih =>
    obtain ⟨ht, hts⟩ := List.forall_mem_cons.1 h
    rw [bindAll, List.flatMap_cons, List.flatMap_nil, List.append_nil] at he
    obtain ⟨e₁, he₁, he⟩ := mem_bindAll_iff_exists.1 he
    by_cases hlater : ∃ t ∈ ts, t.aliasName = a
    · exact ih hlater hts he
    · -- the name is not bound again
      have hname : t.aliasName = a := by
        obtain ⟨x, hx, rfl⟩ := hmem
        rcases List.mem_cons.1 hx with rfl | hx
        · rfl
        · exact absurd ⟨x, hx, rfl⟩ hlater
      have hlast : a ∉ ts.map aliasName := fun hm => hlater (List.mem_map.1 hm)
      rw [eq_of_mem_bindAll he hlast, ← hname]
      exact exists_row_of_mem_bind (ht hname) he₁

/-- What secure inner joins are joined to has a row. -/
theorem Table.Secure.anchored_plan {p : Plan} (h : Table.Secure p.tables) : p.Anchored := by
  intro front j back htables hkind
  have hj : .join j ∈ p.tables := htables ▸ List.mem_append_right _ List.mem_cons_self
  have hparents := h.parents j hj hkind
  have hfront : ∃ t ∈ front, t.aliasName = j.parent.aliasName := by
    have hanchored := h.anchored
    have hreq : (Table.join j).isRequired = true := decide_eq_true hkind
    rw [Anchored, htables, List.filter_append, List.filter_cons_of_pos hreq] at hanchored
    obtain ⟨t, ht, hname⟩ := List.mem_map.1 (scopedAll_append.1 hanchored).2.1
    exact ⟨t, (List.mem_filter.1 ht).1, hname⟩
  refine ⟨hfront, hparents, fun db e₀ e he => exists_row_of_mem_bindAll hfront (fun t ht => ?_) he⟩
  exact hparents t (htables ▸ List.mem_append_left _ ht)

end

/-! ### Queries -/

section

variable {schema : Schema} {config : Config} {typeName : String} {filter : EntityFilter}
  {options : FindOptions} {r : Resolved}

/-- The passes before tables are removed leave inner joins secure. -/
theorem QueryRun.secure_ordered (run : QueryRun schema config typeName filter options)
    (hnames : DistinctNames schema config typeName filter options) :
    run.ordered.Throughout Table.Secure fun _ => True := by
  have hentity := of_planning_eq_ok run.entity_eq
  obtain ⟨hflat, T, hT, hcollections⟩ := Draft.exists_tree_ofQuery run.entity_mem run.draft_eq
    (hnames.draft _ _ _ hentity run.draft_eq)
  have hanchored : Table.Anchored run.draft.toPlan.tables :=
    Draft.anchored_ofQuery run.entity_mem run.draft_eq
  have hfrees := Draft.frees_collections hT hcollections hanchored
  have hnd : (run.ordered.tables.map Table.aliasName).Nodup := hnames.plan _ run.unpruned.find_eq
  -- the primary table and the inner joins are those of the draft all the way
  have hresolved := Plan.required_resolveCollections hfrees run.resolved_eq
  have hchecked : (run.resolved.plan.addNullChecks run.draft.idDbType).tables.filter
      Table.isRequired = run.resolved.plan.tables.filter Table.isRequired := by
    rw [Plan.addNullChecks, Plan.tables_mapLeaves, Table.filter_isRequired_mapPlan]
  have hordered := (Plan.required_addOrder run.ordered_eq).trans (hchecked.trans hresolved)
  have hinside : run.resolved.plan.Inside Table.Secure fun _ => True :=
    Plan.inside_resolveCollections (fun hjoins hnames =>
      (Collections.suits_outer hfrees hjoins hnames).secure) hflat.inside run.resolved_eq
  have hsecure : run.resolved.plan.Throughout Table.Secure fun _ => True :=
    Plan.throughout_iff_inside.2 ⟨Table.Anchored.secure
      (by rwa [Table.Anchored, hresolved]) (hnames.resolved run), hinside⟩
  have hnulls : (run.resolved.plan.addNullChecks run.draft.idDbType).Throughout Table.Secure
      fun _ => True := Plan.throughout_addNullChecks Table.stable_secure (fun _ => trivial) hsecure
  have hlast : Table.Secure run.ordered.tables :=
    Table.Anchored.secure (by rwa [Table.Anchored, hordered]) hnd
  exact Plan.throughout_of_addOrder run.ordered_eq hlast hnulls

/-- In the plan of a query and in each plan inside it, no inner join is below an outer join: it is
joined to the primary table or to that of another inner join, which has a row. -/
theorem anchored_find (hfound : find schema config typeName filter options = .ok r)
    (hnames : DistinctNames schema config typeName filter options) :
    r.plan.Everywhere Plan.Anchored := by
  obtain ⟨run, rfl⟩ := exists_run_of_find hfound
  have hplan : run.plan.Throughout Table.Secure fun _ => True := by
    unfold QueryRun.plan
    split_ifs
    · exact Plan.throughout_prune Table.stable_secure (run.secure_ordered hnames)
    · exact run.secure_ordered hnames
  exact hplan.everywhere.imp fun _ h => h.anchored_plan

end

/-! ### A query on the library -/

/-- Reviews of a commented book of an author of the name. -/
def reviewsOf (name text : String) : EntityFilter :=
  ⟨none, [⟨"book", .nested ⟨none, [
    ⟨"author", .nested ⟨none, [⟨"first_name", .scalar (.text name)⟩]⟩⟩,
    ⟨"comments", .nested ⟨none, [⟨"text", .scalar (.text text)⟩]⟩⟩]⟩⟩]⟩

/-- In the order of the names of publishers, with existence conditions. -/
def byPublisherOfAuthor : FindOptions :=
  { FindOptions.default with
    orderBy := .keys [.through "book" (.keys [.through "author"
      (.keys [.through "publisher" (.keys [.field "name" .asc])])])]
    strategy := some .existence }

/-- The book and its author are joined by inner joins, the publisher and the comments are not. -/
theorem anchored_find_library : ∃ r,
    find library .default "BookReview" (reviewsOf "Jane" "good") byPublisherOfAuthor = .ok r ∧
    DistinctNames library .default "BookReview" (reviewsOf "Jane" "good") byPublisherOfAuthor ∧
    (r.plan.tables.filter Table.isRequired).map Table.aliasName = ["br", "b", "a"] ∧
    r.plan.Everywhere Plan.Anchored := by
  have hrequired : (find library .default "BookReview" (reviewsOf "Jane" "good")
      byPublisherOfAuthor).toOption.map (fun r =>
        (r.plan.tables.filter Table.isRequired).map Table.aliasName) =
          some ["br", "b", "a"] := by
    decide +kernel
  have hnames : DistinctNames library .default "BookReview" (reviewsOf "Jane" "good")
      byPublisherOfAuthor := .of_found (by decide +kernel) (by decide +kernel)
  cases h : find library .default "BookReview" (reviewsOf "Jane" "good") byPublisherOfAuthor with
  | error err =>
    rw [h] at hrequired
    cases hrequired
  | ok r =>
    rw [h] at hrequired
    exact ⟨r, rfl, hnames, Option.some.inj hrequired, anchored_find h hnames⟩

end EntityQuery
