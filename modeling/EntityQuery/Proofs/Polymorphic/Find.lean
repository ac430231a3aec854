import EntityQuery.Proofs.Blank.Find
import EntityQuery.Proofs.Draft.Filter
import EntityQuery.Proofs.Draft.Lookup
import EntityQuery.Proofs.Polymorphic.Condition
import EntityQuery.Proofs.Precedence.Fixed
import EntityQuery.Proofs.Precedence.Truth

/-!
# Queries for polymorphic references

A filter with nothing but predicates on a polymorphic reference becomes a WHERE clause that is true of
the rows whose reference is accepted.

* `FilterValue.criteria?`: the predicates of a value as they are written;
* `Schema.targets`: the columns of a polymorphic field;
* `Draft.exists_ofQuery_only`: the draft of such a filter;
* `whereHolds_find_iff`: its WHERE clause;
* `not_whereHolds_find_comments`: membership in an empty list is not written.
-/

namespace EntityQuery

/-- The predicates of a value as they are written. -/
def FilterValue.criteria? : FilterValue → Option (List Predicate)
  | .scalar v => some [.eq v]
  | .list vs => some [.isIn vs]
  | .operators ps => some ps
  | _ => none

/-- The columns of a polymorphic field with the entities that they refer to. -/
def Schema.targets (schema : Schema) (components : List Component) : List Target :=
  components.filterMap fun c => (schema.entity? c.otherType).map (⟨c.column, ·⟩)

/-! ### Targets -/

/-- The types that a field refers to are there. -/
theorem Target.ofComponents_eq {s : Setting} {components : List Component}
    (h : ∀ c ∈ components, ∃ target, s.schema.entity c.otherType = .ok target) :
    ofComponents s components = .ok (s.schema.targets components) := by
  induction components with
  | nil => rfl
  | cons c cs ih =>
    obtain ⟨⟨target, htarget⟩, hcs⟩ := List.forall_mem_cons.1 h
    have hfound : s.schema.entity? c.otherType = some target := by
      unfold Schema.entity at htarget
      split at htarget
      · next hfound => rw [hfound, Except.ok.inj htarget]
      · cases htarget
    have hhead : s.entity c.otherType = .ok target := Setting.entity_eq_ok htarget
    have htargets : s.schema.targets (c :: cs) = ⟨c.column, target⟩ :: s.schema.targets cs := by
      rw [Schema.targets, List.filterMap_cons, hfound]
      rfl
    rw [htargets, ofComponents, List.mapM_cons, hhead]
    show (ofComponents s cs >>= _) = _
    rw [ih hcs]
    rfl

/-! ### Drafts -/

namespace Target.Means

variable {targets : List Target} {a : String} {ps : List Predicate} {ks : List Condition}
  {gs : List Group}

theorem of_normalize (h : Means targets a (ps.map Predicate.normalize) ks gs) :
    Means targets a ps ks gs where
  asked := h.asked
  holds hr := (h.holds hr).trans (List.forall_mem_map.trans
    (forall₂_congr fun _ _ => Predicate.accepts_normalize))
  nonempty hall := h.nonempty (List.forall_mem_map.2 fun p hp => (hall p hp).normalize)

end Target.Means

namespace Draft

variable {s : Setting} {e : Entity} {a field : String} {d : Draft} {v : FilterValue}
  {ps : List Predicate} {site : FieldSite} {components : List Component}

/-- An entry is matched by the predicates that are written in it, with null told apart. -/
theorem match_of_criteria? (hps : v.criteria? = some ps) {outer : Bool} :
    FilterValue.match s e a outer field v d =
      d.matchField s e a outer field (.predicates (ps.map Predicate.normalize)) := by
  cases v with
  | scalar v =>
    obtain rfl := Option.some.inj hps
    rfl
  | list vs =>
    obtain rfl := Option.some.inj hps
    rfl
  | operators qs =>
    obtain rfl := Option.some.inj hps
    rfl
  | _ => cases hps

/-- The predicates on a reference add conditions that hold where it is accepted. -/
theorem exists_ofQuery_only (hsite : s.resolve e field = .ok site)
    (hkind : site.kind = .polymorphic components)
    (htargets : Target.ofComponents s components = .ok (s.schema.targets components))
    (htags : Target.Tagged (s.schema.targets components)) (hps : v.criteria? = some ps)
    (hasks : ∀ p ∈ ps, p.AsksReference (s.schema.targets components))
    (hd : Draft.ofQuery s e .empty none = .ok (a, d)) : ∃ ks gs,
      Target.Means (s.schema.targets components) (site.columnAlias a) ps ks gs ∧
        Draft.ofQuery s e (.only field v) none = .ok (a, d.withMore ks gs) := by
  obtain ⟨ks, gs, hmeans, hadd⟩ : ∃ ks gs,
      Target.Means (s.schema.targets components) (site.columnAlias a) (ps.map Predicate.normalize)
        ks gs ∧ ∀ d : Draft, (ps.map Predicate.normalize).foldlM (fun d p =>
          d.addPolymorphic s (site.columnAlias a) field components p) d = .ok (d.withMore ks gs) :=
    exists_addPolymorphics htargets htags (List.forall_mem_map.2 fun p _ => p.normalize_normalize)
    (List.forall_mem_map.2 fun p hp => (hasks p hp).normalize)
  refine ⟨ks, gs, hmeans.of_normalize, ?_⟩
  have hmatch : EntityFilter.match s e a false (.only field v) d = .ok (d.withMore ks gs) := by
    show (FilterValue.match s e a false field v d >>= pure) = _
    rw [bind_pure, match_of_criteria? hps, matchField, hsite]
    obtain ⟨name, kind, owner, base⟩ := site
    obtain rfl : kind = .polymorphic components := hkind
    exact hadd d
  rw [ofQuery_eq_bind, hd]
  show (EntityFilter.match s e a false (.only field v) d).map _ = _
  rw [hmatch]
  rfl

/-- The draft of a query without filter: the conditions that come with the table of the entity, and no
outer joins but those of subtypes. -/
theorem of_ofQuery_empty (hd : Draft.ofQuery s e .empty none = .ok (a, d))
    {deletion : Option DeletionColumn} (hdeletion : s.deletion? e = .ok deletion) :
    a = e.ownAlias ∧ d.conjuncts = ⟨e.implied a deletion, [], []⟩ ∧ Table.HasPrimary d.tables ∧
      ∀ b ∈ outerJoined d.tables, ∃ i, b = subAlias a i := by
  obtain ⟨d₁, d₂, d₃, rfl, hprimary, hselects, hmatch, ⟨-, rfl⟩ | ⟨_, hnone, -⟩⟩ := ofQuery_eq_ok hd
  · obtain rfl : d₂ = d := Except.ok.inj hmatch
    obtain ⟨⟨js, hjs, hsubtypes⟩, hconjuncts⟩ := exists_joins_of_addSelects hselects
    obtain ⟨joins, deletion', hjoins, hdeletion', rfl⟩ := addEntity_eq_ok hprimary
    obtain rfl := Except.ok.inj (hdeletion'.symm.trans hdeletion)
    refine ⟨rfl, hconjuncts, ⟨_, hjs ▸ List.mem_append_left _ List.mem_cons_self, rfl⟩, ?_⟩
    intro b hb
    obtain ⟨t, ht, hname⟩ := List.mem_filterMap.1 hb
    rw [hjs] at ht
    rcases List.mem_append.1 ht with ht | ht
    · rcases List.mem_cons.1 ht with rfl | ht
      · cases hname
      · obtain ⟨j, hj, rfl⟩ := List.mem_map.1 ht
        obtain ⟨-, -, -, -, -, hkind⟩ := Setting.of_mem_baseJoins hjoins j hj
        have hkind : j.kind = .inner := hkind
        simp [hkind] at hname
    · obtain ⟨j, hj, rfl⟩ := List.mem_map.1 ht
      obtain ⟨-, -, k, hk⟩ := hsubtypes j hj
      dsimp only at hname
      split_ifs at hname
      exact ⟨k, (Option.some.inj hname).symm.trans hk⟩
  · cases hnone

/-- The draft of a query with nothing but predicates on a reference.  No pass changes its conditions,
where each of the predicates is true of something or other conditions stand beside. -/
theorem exists_fixed_only (he : e ∈ s.schema.entities) (hsite : s.resolve e field = .ok site)
    (hkind : site.kind = .polymorphic components)
    (htags : Target.Tagged (s.schema.targets components)) (hps : v.criteria? = some ps)
    (hasks : ∀ p ∈ ps, p.AsksReference (s.schema.targets components))
    {deletion : Option DeletionColumn} (hdeletion : s.deletion? e = .ok deletion)
    (hpossible : e.implied e.ownAlias deletion ≠ [] ∨
      ∀ p ∈ ps, p.Possible (s.schema.targets components)) : ∃ d ks gs,
    Target.Means (s.schema.targets components) (site.columnAlias e.ownAlias) ps ks gs ∧
    Draft.ofQuery s e (.only field v) none = .ok (e.ownAlias, d) ∧
    d.conjuncts = ⟨e.implied e.ownAlias deletion ++ ks, [], gs⟩ ∧ d.Fixed := by
  have hdeclares := Setting.declares_of_resolve he hsite
  rw [hkind] at hdeclares
  have htargets := Target.ofComponents_eq (s := s) fun c hc =>
    Schema.exists_entity_of_declares hdeclares (List.mem_map_of_mem hc)
  obtain ⟨⟨a, d⟩, hd⟩ := exists_ofQuery_empty he
  obtain ⟨rfl, hconjuncts, hprimary, houter⟩ := of_ofQuery_empty hd hdeletion
  obtain ⟨ks, gs, hmeans, hdraft⟩ := exists_ofQuery_only hsite hkind htargets htags hps hasks hd
  have hsingular : (EntityFilter.only field v).Singular s e := by
    have hfield : ∀ site', s.resolve e field = .ok site' → site'.kind.isPlural = false :=
      fun site' hsite' => by
        rw [← Except.ok.inj (hsite.symm.trans hsite'), hkind]
        rfl
    cases v with
    | nested f => cases hps
    | undefined => cases hps
    | binding user => cases hps
    | _ => exact ⟨hfield, trivial⟩
  have hall : (d.withMore ks gs).conjuncts = ⟨e.implied e.ownAlias deletion ++ ks, [], gs⟩ := by
    simp [withMore, hconjuncts]
  refine ⟨_, ks, gs, hmeans, hdraft, hall, .of_ofQuery hsingular hdraft, hprimary, ?_, ?_⟩
  · refine Conjuncts.nonempty?_group? ?_
    rw [hall]
    exact hpossible.imp (fun hne hnil => hne (List.append_eq_nil_iff.1 hnil).1) hmeans.nonempty
  -- the columns of the reference are on no outer joined table, so no test for null is checked
  · have hcolumn : site.columnAlias e.ownAlias ∉ outerJoined (d.withMore ks gs).tables := by
      intro hm
      obtain ⟨i, hi⟩ := houter _ hm
      unfold FieldSite.columnAlias at hi
      split at hi
      · exact subAlias_ne_baseAlias _ _ _ hi.symm
      · exact subAlias_ne _ _ hi.symm
    have hasked : ∀ c : Condition, c.AskedOn (site.columnAlias e.ownAlias) → c.Firm ∧
        ∀ b ∈ c.aliases, b ∉ outerJoined (d.withMore ks gs).tables := fun c hc =>
      ⟨hc.1, fun b hb => hc.2 b hb ▸ hcolumn⟩
    obtain ⟨hks, hgs⟩ := List.forall_mem_append.1 hmeans.asked
    refine of_conjuncts_group? (fun c hc => ?_) (fun g hg _ c hc => ?_) (fun g hg => ?_) rfl
    · rw [hall] at hc
      rw [List.append_nil] at hc
      rcases List.mem_append.1 hc with hc | hc
      · exact .inl ((shows_implied he hdraft hdeletion).2 c hc).2
      · exact .inr (hasked c (hks c hc))
    · rw [hall] at hg
      obtain ⟨op, cs⟩ := g
      exact .inr (hasked c (Condition.AskedOn.group_iff.1 (hgs _ (List.mem_map_of_mem hg)) c hc))
    · rw [hall] at hg
      exact .inr (hasked _ (hgs _ (List.mem_map_of_mem hg)))

end Draft

/-! ### Queries -/

/-- A reference is not ordered. -/
theorem Predicate.AsksReference.not_ordersNull {targets : List Target} {p : Predicate}
    (h : p.AsksReference targets) : ¬ p.OrdersNull := by
  intro hnull
  match p, h, hnull with
  | .compare .eq _, _, hnull => exact hnull
  | .compare .ne _, _, hnull => exact hnull

theorem FilterValue.written_subset_of_criteria? {v : FilterValue} {ps : List Predicate}
    (h : v.criteria? = some ps) : v.written ⊆ ps := by
  cases v with
  | operators qs =>
    obtain rfl := Option.some.inj h
    exact List.Subset.refl _
  | nested f => cases h
  | _ => exact List.nil_subset _

section

variable {schema : Schema} {config : Config} {typeName field : String} {v : FilterValue}
  {ps : List Predicate} {options : FindOptions} {e : Entity} {site : FieldSite}
  {components : List Component} {deletion : Option DeletionColumn}

/-- A filter with nothing but predicates on a polymorphic reference, each of which is true of something
unless other conditions stand beside: without an order the query has a plan.  Any such plan can be
rendered, and if leaves are read as their truth values, its WHERE clause is true exactly of the rows
whose reference is accepted, among those with the conditions that come with the table. -/
theorem whereHolds_find_iff (he : schema.entity typeName = .ok e)
    (hsite : schema.resolve e field = .ok site) (hkind : site.kind = .polymorphic components)
    (htags : Target.Tagged (schema.targets components)) (hps : v.criteria? = some ps)
    (hasks : ∀ p ∈ ps, p.AsksReference (schema.targets components))
    (hconditions : options.conditions = none)
    (hdeletion : (options.setting schema config).deletion? e = .ok deletion)
    (hpossible : e.implied e.ownAlias deletion ≠ [] ∨
      ∀ p ∈ ps, p.Possible (schema.targets components)) :
    (options.orderBy = .keys [] → options.keepAliases = [] →
      ∃ r, find schema config typeName (.only field v) options = .ok r) ∧
    ∀ r, find schema config typeName (.only field v) options = .ok r →
      (∃ text, r.plan.render = .ok text) ∧
      ∀ I db σ ref, (∀ c ∈ r.plan.topConditions, c.Told I db σ) →
        Target.Refers (schema.targets components) (site.columnAlias e.ownAlias) σ ref →
        (r.plan.WhereHolds I ↔ (∀ c ∈ e.implied e.ownAlias deletion, c.Holds db σ) ∧
          ∀ p ∈ ps, p.Accepts (schema.targets components) ref) := by
  have he' : (options.setting schema config).entity typeName = .ok e := by
    rw [Setting.entity, he]
    rfl
  have hsite' : (options.setting schema config).resolve e field = .ok site := by
    rw [Setting.resolve, hsite]
    rfl
  obtain ⟨d, ks, gs, hmeans, hdraft, hall, hfixed⟩ := Draft.exists_fixed_only
    (Schema.mem_of_entity he) hsite' hkind htags hps hasks hdeletion hpossible
  constructor
  · intro horder hkeep
    obtain ⟨run, -⟩ := exists_run_of_draft hconditions hkeep horder he' hdraft
      hfixed.plain.collections
    exact ⟨_, run.find_eq⟩
  · intro r hr
    obtain ⟨run, rfl⟩ := exists_run_of_find hr
    obtain rfl := Except.ok.inj (he'.symm.trans run.entity_eq)
    have hsame := run.draft_eq
    rw [hconditions, hdraft] at hsame
    obtain ⟨-, rfl⟩ := Prod.mk.inj (Except.ok.inj hsame)
    have hwritten : ∀ p ∈ (EntityFilter.only field v).written, ¬ p.OrdersNull := by
      intro p hp
      have hp : p ∈ v.written ++ [] := hp
      rw [List.append_nil] at hp
      exact (hasks p (FilterValue.written_subset_of_criteria? hps hp)).not_ordersNull
    obtain ⟨hcondition, -⟩ := run.plan_of_fixed hfixed
    obtain ⟨htext, ts?, hts⟩ := run.rendered_of_fixed hfixed hconditions hwritten
    refine ⟨htext, fun I db σ ref ht href => ?_⟩
    have hholds : (∀ c ∈ ks ++ gs.map .group, c.Holds db σ) ↔
        ∀ p ∈ ps, p.Accepts (schema.targets components) ref := hmeans.holds href
    rw [Plan.whereHolds_iff hts (hcondition ▸ Group.ne_of_nonempty? hfixed.nonempty) ht,
      Conjuncts.holds_iff hcondition, hall, ← hholds]
    simp only [List.append_nil, List.forall_mem_append, and_assoc]

end

/-! ### Comments of the library -/

/-- What a comment of the library can be on. -/
abbrev commentParents : List Target :=
  library.targets [⟨"parent_book_id", "Book"⟩, ⟨"parent_author_id", "Author"⟩]

/-- A book, an author, or nothing. -/
def bookAuthorOrNothing : List Value := [.text "b:7", .null, .text "a:8"]

theorem whereHolds_find_iff_library : ∃ r,
    find library .default "Comment" (.only "parent" (.list bookAuthorOrNothing)) .default = .ok r ∧
    (∃ text, r.plan.render = .ok text) ∧
    ∀ I db σ ref, (∀ c ∈ r.plan.topConditions, c.Told I db σ) →
      Target.Refers commentParents "c" σ ref →
      (r.plan.WhereHolds I ↔ (∀ c ∈ Sample.Library.comment.implied "c" none, c.Holds db σ) ∧
        ∀ p ∈ [Predicate.isIn bookAuthorOrNothing], p.Accepts commentParents ref) := by
  have hbook : Target.Names commentParents (.text "b:7") (some (0, .int 7)) :=
    .id rfl (show splitTag? "b:7" = some ("b", "7") by decide) (.int (by decide))
  have hauthor : Target.Names commentParents (.text "a:8") (some (1, .int 8)) :=
    .id rfl (show splitTag? "a:8" = some ("a", "8") by decide) (.int (by decide))
  have hasks : ∀ p ∈ [Predicate.isIn bookAuthorOrNothing], p.AsksReference commentParents := by
    rw [List.forall_mem_singleton]
    intro v hv
    simp only [bookAuthorOrNothing, List.mem_cons, List.not_mem_nil, or_false] at hv
    rcases hv with rfl | rfl | rfl
    · exact ⟨_, hbook⟩
    · exact ⟨_, .null⟩
    · exact ⟨_, hauthor⟩
  have hpossible : ∀ p ∈ [Predicate.isIn bookAuthorOrNothing], p.Possible commentParents := by
    rw [List.forall_mem_singleton]
    exact .inl ⟨.null, by simp [bookAuthorOrNothing], .null⟩
  have hsite : library.resolve Sample.Library.comment "parent" = .ok ⟨"parent", .polymorphic
    [⟨"parent_book_id", "Book"⟩, ⟨"parent_author_id", "Author"⟩], Sample.Library.comment, none⟩ := rfl
  obtain ⟨hsome, hall⟩ : (FindOptions.default.orderBy = .keys [] →
      FindOptions.default.keepAliases = [] → ∃ r, find library .default "Comment"
        (.only "parent" (.list bookAuthorOrNothing)) .default = .ok r) ∧ _ :=
    whereHolds_find_iff rfl hsite rfl (by decide) rfl hasks rfl rfl (.inr hpossible)
  obtain ⟨r, hr⟩ := hsome rfl rfl
  exact ⟨r, hr, hall r hr⟩

/-- Comments whose parent is among none: there are none, and all comments are selected. -/
theorem not_whereHolds_find_comments : ∃ r,
    find library .default "Comment" (.only "parent" (.list [])) .default = .ok r ∧
    (∃ text, r.plan.render = .ok text) ∧ (∀ I, r.plan.WhereHolds I) ∧
    ∀ targets ref, ¬ (Predicate.isIn []).Accepts targets ref := by
  refine ⟨_, rfl, ⟨_, rfl⟩, fun I => ⟨none, rfl, nofun⟩, ?_⟩
  rintro targets ref ⟨v, hv, -⟩
  cases hv

end EntityQuery
