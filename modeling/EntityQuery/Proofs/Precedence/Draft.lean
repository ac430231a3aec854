import EntityQuery.Proofs.Blank.Draft
import EntityQuery.Proofs.Draft.Filter
import EntityQuery.Proofs.Draft.Parted
import EntityQuery.Proofs.Precedence.Passes

/-!
# Filters without collections

What a filter without collections asks is asked by predicates on joined tables, and conditions that
were not asked for stand alone beside them.

* `Draft.Plain`: such a draft;
* `EntityFilter.plain_match`: the match of a filter keeps it so;
* `ExpressionLiteral.firm_resolve`: expressions over user aliases are of predicates and fragments;
* `Draft.Plain.toPlan`, `Draft.Plain.covers`: the plan of a draft, and that with one more group.
-/

namespace EntityQuery

/-- No collection has been joined; what was not asked for stands alone, on tables that are joined. -/
structure Draft.Plain (d : Draft) : Prop where
  tables : ∀ t ∈ d.tables, t.plans = []
  selects : ∀ x ∈ d.selects, ∀ g name, x ≠ .boolOr g name
  starred : ∀ t ∈ d.tables, t.isPrimary = true → .star t.aliasName ∈ d.selects
  collections : d.collections = []
  existences : d.conjuncts.existences = []
  inlined : ∀ c ∈ d.conjuncts.inlined, c.Firm ∨ ∃ k, c = .column k ∧ k.aliasName ∈ d.names
  groups : ∀ g ∈ d.conjuncts.groups, (Condition.group g).Firm

/-! ### Predicates that are asked for -/

theorem Condition.firm_column {c : ColumnCondition} (h : c.pruneable = false) :
    (Condition.column c).Firm := ⟨rfl, by simp [implied, h]⟩

theorem Condition.firm_split {c : ColumnCondition} (h : c.pruneable = false) : c.split.Firm :=
  ColumnCondition.split_induct (fun _ => firm_column h) Firm.group_iff.2

namespace Draft

section

variable {s : Setting} {d d' : Draft} {e target : Entity} {a b column : String}

namespace Plain

theorem nextAlias (h : d.Plain) (table : String) : (d.nextAlias table).2.Plain := { h with }

theorem bind (h : d.Plain) (user : String) : (d.bind user a e).Plain := { h with }

theorem addColumn (h : d.Plain) {c : ColumnCondition} (hc : c.pruneable = false) :
    (d.addColumn c).Plain := by
  refine { h with inlined := List.forall_mem_append.2 ⟨h.inlined, ?_⟩ }
  exact List.forall_mem_singleton.2 (.inl (Condition.firm_split hc))

theorem addGroup (h : d.Plain) {g : Group} (hg : ∀ c ∈ g.conditions, c.Firm) :
    (d.addGroup g).Plain := by
  obtain ⟨op, cs⟩ := g
  refine { h with groups := List.forall_mem_append.2 ⟨h.groups, ?_⟩ }
  exact List.forall_mem_singleton.2 (Condition.Firm.group_iff.2 hg)

theorem addEntity (h : d.Plain) {j : Join} (hd : d.addEntity s e (.join j) = .ok d') : d'.Plain := by
  have hhoused := housed_addEntity hd
  have hnames := (before_addEntity hd).names_subset
  obtain ⟨joins, deletion, -, hdeletion, rfl⟩ := addEntity_eq_ok hd
  have hnew : ∀ t ∈ Table.join j :: joins.map .join, t.plans = [] ∧ t.isPrimary = false :=
    List.forall_mem_cons.2 ⟨⟨rfl, rfl⟩, List.forall_mem_map.2 fun _ _ => ⟨rfl, rfl⟩⟩
  exact
    { tables := List.forall_mem_append.2 ⟨h.tables, fun t ht => (hnew t ht).1⟩
      selects := h.selects
      starred := List.forall_mem_append.2 ⟨h.starred, fun t ht hprimary =>
        absurd hprimary (by simp [(hnew t ht).2])⟩
      collections := h.collections
      existences := h.existences
      inlined := List.forall_mem_append.2
        ⟨fun c hc => (h.inlined c hc).imp_right fun ⟨k, hk, hname⟩ => ⟨k, hk, hnames hname⟩,
          fun c hc => by
            obtain ⟨k, hk, -, hname⟩ := idle_implied hdeletion hhoused c hc
            exact .inr ⟨k, hk, hname⟩⟩
      groups := h.groups }

theorem addIds {ps : List Predicate} (h : d.Plain)
    (hd : addIds s target a column ps d = .ok d') : d'.Plain := by
  induction ps generalizing d with
  | nil => exact Except.ok.inj hd ▸ h
  | cons p ps ih =>
    obtain ⟨q, -, hd⟩ := exists_of_bind_eq_ok hd
    exact ih (h.addColumn (c := .asked a column target.idDbType q) rfl) hd

theorem foldl {α : Type} {f : Draft → α → Draft} (h : d.Plain)
    (hf : ∀ {d : Draft} {x : α}, d.Plain → (f d x).Plain) (xs : List α) : (xs.foldl f d).Plain :=
  List.foldlRecOn xs f h fun _ hd _ _ => hf hd

theorem addPolymorphic {field : String} {components : List Component} {p : Predicate} (h : d.Plain)
    (hd : d.addPolymorphic s a field components p = .ok d') : d'.Plain := by
  have hcolumns : ∀ (targets : List Target) (q : Predicate),
      ∀ c ∈ Target.conditions targets a q, c.Firm := fun targets q =>
    List.forall_mem_map.2 fun t _ => Condition.firm_column rfl
  have hpair : ∀ (t : Target) (q q' : Predicate),
      ∀ c ∈ [Condition.column (t.condition a q), .column (t.condition a q')], c.Firm := fun t q q' =>
    List.forall_mem_cons.2
      ⟨Condition.firm_column rfl, List.forall_mem_singleton.2 (Condition.firm_column rfl)⟩
  obtain ⟨targets, -, hd⟩ := exists_of_bind_eq_ok hd
  split at hd
  · exact Except.ok.inj hd ▸ h.foldl (fun h => h.addColumn rfl) targets
  · exact Except.ok.inj hd ▸ h.addGroup (hcolumns targets _)
  · obtain ⟨⟨_, t, id⟩, -, hd⟩ := exists_of_bind_eq_ok hd
    exact Except.ok.inj hd ▸ h.addColumn rfl
  · obtain ⟨⟨_, t, id⟩, -, hd⟩ := exists_of_bind_eq_ok hd
    exact Except.ok.inj hd ▸ h.addGroup (hpair t _ _)
  · obtain ⟨groups, -, hd⟩ := exists_of_bind_eq_ok hd
    refine Except.ok.inj hd ▸ h.addGroup (List.forall_mem_append.2 ⟨?_, ?_⟩)
    · split_ifs
      · exact List.forall_mem_singleton.2 (Condition.Firm.group_iff.2 (hcolumns targets _))
      · exact nofun
    · exact List.forall_mem_map.2 fun _ _ => Condition.firm_column rfl
  · obtain ⟨groups, -, hd⟩ := exists_of_bind_eq_ok hd
    obtain rfl := Except.ok.inj hd
    refine foldl ?_ (fun h => h.addGroup (hpair _ _ _)) groups
    split_ifs
    · exact h.addGroup (hcolumns targets _)
    · exact h
  · cases hd

theorem addPolymorphics {field : String} {components : List Component} {ps : List Predicate}
    (h : d.Plain)
    (hd : ps.foldlM (fun d p => d.addPolymorphic s a field components p) d = .ok d') : d'.Plain := by
  induction ps generalizing d with
  | nil => exact Except.ok.inj hd ▸ h
  | cons p ps ih =>
    obtain ⟨d₁, hd₁, hd⟩ := exists_of_bind_eq_ok hd
    exact ih (h.addPolymorphic hd₁) hd

/-- The conditions of one entry that is not on a collection. -/
theorem matchField {outer : Bool} {name : String} {asked : Asked} (h : d.Plain)
    (hsingular : ∀ site, s.resolve e name = .ok site → site.kind.isPlural = false)
    (hasked : ∀ f, asked = .nested f → ∀ site target, s.resolve e name = .ok site →
      site.Refers s target → ∀ {d d' : Draft} {a : String} {outer : Bool}, d.Plain →
        f.matchOn target a outer d = .ok d' → d'.Plain)
    (hd : d.matchField s e a outer name asked = .ok d') : d'.Plain := by
  obtain ⟨site, hsite, hd⟩ := exists_of_bind_eq_ok hd
  have hplural := hsingular site hsite
  have hasked := fun f hf => hasked f hf site
  obtain ⟨field, kind, owner, base⟩ := site
  cases kind with
  | primaryKey =>
    obtain ⟨ps, -, hd⟩ := exists_of_bind_eq_ok hd
    exact h.addIds hd
  | primitive column dbType =>
    obtain ⟨ps, -, hd⟩ := exists_of_bind_eq_ok hd
    exact Except.ok.inj hd ▸ h.foldl (fun h => h.addColumn rfl) ps
  | enumeration column dbType =>
    obtain ⟨ps, -, hd⟩ := exists_of_bind_eq_ok hd
    exact Except.ok.inj hd ▸ h.foldl (fun h => h.addColumn rfl) ps
  | manyToOne column other needed =>
    obtain ⟨target, htarget, hd⟩ := exists_of_bind_eq_ok hd
    cases asked with
    | predicates ps => exact h.addIds hd
    | nested f =>
      obtain ⟨needsJoin, -, hd⟩ := exists_of_bind_eq_ok hd
      cases needsJoin with
      | true =>
        obtain ⟨d₁, hd₁, hd⟩ := exists_of_bind_eq_ok hd
        exact hasked f rfl target hsite htarget ((h.nextAlias target.tableName).addEntity hd₁) hd
      | false => exact h.addIds hd
  | oneToOne other column =>
    obtain ⟨target, htarget, hd⟩ := exists_of_bind_eq_ok hd
    obtain ⟨d₁, hd₁, hd⟩ := exists_of_bind_eq_ok hd
    have h₁ : d₁.Plain := (h.nextAlias target.tableName).addEntity hd₁
    cases asked with
    | predicates ps => exact h₁.addIds hd
    | nested f => exact hasked f rfl target hsite htarget h₁ hd
  | oneToMany => cases hplural
  | manyToMany => cases hplural
  | polymorphic components =>
    obtain ⟨ps, -, hd⟩ := exists_of_bind_eq_ok hd
    exact h.addPolymorphics hd

end Plain

end

end Draft

/-! ### Filters -/

section

variable {s : Setting}

mutual

/-- The match of a filter without collections. -/
theorem EntityFilter.plain_match : ∀ {f : EntityFilter} {d d' : Draft} {e : Entity} {a : String}
    {outer : Bool}, f.Singular s e → d.Plain → EntityFilter.match s e a outer f d = .ok d' → d'.Plain
  | ⟨none, _⟩, _, _, _, _, _, hf, h, hd => FieldFilter.plain_matchAll hf h hd
  | ⟨some name, _⟩, _, _, _, _, _, hf, h, hd => FieldFilter.plain_matchAll hf (h.bind name) hd

theorem FieldFilter.plain_matchAll : ∀ {fs : List FieldFilter} {d d' : Draft} {e : Entity}
    {a : String} {outer : Bool},
    FieldFilter.AllThroughout s (fun e name _ =>
      ∀ site, s.resolve e name = .ok site → site.kind.isPlural = false) e fs →
    d.Plain → FieldFilter.matchAll s e a outer fs d = .ok d' → d'.Plain
  | [], _, _, _, _, _, _, h, hd => Except.ok.inj hd ▸ h
  | ⟨_, _⟩ :: _, _, _, _, _, _, hf, h, hd => by
    obtain ⟨d₁, hd₁, hd⟩ := exists_of_bind_eq_ok hd
    exact FieldFilter.plain_matchAll hf.2 (FilterValue.plain_match hf.1 h hd₁) hd

theorem FilterValue.plain_match : ∀ {v : FilterValue} {d d' : Draft} {e : Entity} {a name : String}
    {outer : Bool}, FilterValue.Throughout s (fun e name _ =>
      ∀ site, s.resolve e name = .ok site → site.kind.isPlural = false) e name v →
    d.Plain → FilterValue.match s e a outer name v d = .ok d' → d'.Plain
  | .undefined, _, _, _, _, _, _, _, h, hd => Except.ok.inj hd ▸ h
  | .scalar _, _, _, _, _, _, _, hf, h, hd => h.matchField hf (fun _ hasked => Asked.noConfusion hasked) hd
  | .list _, _, _, _, _, _, _, hf, h, hd => h.matchField hf (fun _ hasked => Asked.noConfusion hasked) hd
  | .operators _, _, _, _, _, _, _, hf, h, hd => h.matchField hf (fun _ hasked => Asked.noConfusion hasked) hd
  | .nested _, _, _, _, _, _, _, hf, h, hd => h.matchField hf.1
    (fun _ hasked site target hsite htarget _ _ _ _ h hd => by
      obtain rfl := Asked.nested.inj hasked
      exact EntityFilter.plain_match (hf.2 site target hsite htarget) h hd) hd
  | .binding user, _, _, _, _, _, _, hf, h, hd => h.matchField hf
    (fun _ hasked _ _ _ _ _ _ _ _ h hd => by
      obtain rfl := Asked.nested.inj hasked
      exact Except.ok.inj hd ▸ h.bind user) hd

end

end

/-! ### Expressions -/

namespace Draft

variable {s : Setting} {d d' : Draft} {e : Entity} {a : String}

theorem firm_resolveRaw {names : List String} {sql : String} {bindings : List Value}
    {r : RawCondition} (hr : d.resolveRaw names sql bindings = .ok r) : (Condition.raw r).Firm := by
  obtain ⟨⟨text, aliases⟩, -, hr⟩ := exists_of_bind_eq_ok hr
  exact Except.ok.inj hr ▸ ⟨rfl, rfl⟩

theorem resolver_firm : (d.resolver s).Ensures Condition.Firm :=
  ⟨fun hc => Condition.firm_split (asked_resolveColumn hc), firm_resolveRaw,
    Condition.Firm.group_iff.2⟩

namespace Plain

theorem addConditions (h : d.Plain) {literal : ExpressionLiteral}
    (hd : d.addConditions s literal = .ok d') : d' = d ∨ ∃ g, d' = d.addGroup g ∧ d'.Plain := by
  obtain ⟨g, hg, hd⟩ := exists_of_bind_eq_ok hd
  obtain rfl := Except.ok.inj hd
  have hfirm := ExpressionLiteral.of_resolve resolver_firm hg
  cases g with
  | none => exact .inl rfl
  | some g => exact .inr ⟨g, rfl, h.addGroup (hfirm g rfl)⟩

/-! ### Queries -/

theorem of_ofQuery_empty (h : Draft.ofQuery s e .empty none = .ok (a, d)) : d.Plain := by
  have hbare := bare_ofQuery h
  obtain ⟨ks, hconjuncts, hidle⟩ := hbare.conjuncts
  obtain ⟨d₁, hprimary, h⟩ := exists_of_bind_eq_ok h
  obtain ⟨d₂, hselects, h⟩ := exists_of_bind_eq_ok h
  obtain rfl : d₂ = d := (Prod.mk.inj (Except.ok.inj h)).2
  obtain ⟨⟨js, hjs, -⟩, -⟩ := exists_joins_of_addSelects hselects
  obtain ⟨joins, deletion, -, -, rfl⟩ := addEntity_eq_ok hprimary
  refine ⟨?_, hbare.plain, fun t ht _ => hbare.starred t ht, hbare.collections, ?_, ?_, ?_⟩
  · rw [hjs]
    refine List.forall_mem_append.2 ⟨List.forall_mem_cons.2 ⟨rfl, ?_⟩, ?_⟩
    · exact List.forall_mem_map.2 fun _ _ => rfl
    · exact List.forall_mem_map.2 fun _ _ => rfl
  · rw [hconjuncts]
  · rw [hconjuncts]
    intro c hc
    obtain ⟨k, hk, -, hname⟩ := hidle c hc
    exact .inr ⟨k, hk, hname⟩
  · rw [hconjuncts]
    exact nofun

/-- The draft of a query without collections. -/
theorem of_ofQuery {filter : EntityFilter} (hf : filter.Singular s e)
    (h : Draft.ofQuery s e filter none = .ok (a, d)) : d.Plain := by
  rw [ofQuery_eq_bind] at h
  obtain ⟨⟨b, d₀⟩, hbare, h⟩ := exists_of_bind_eq_ok h
  obtain ⟨d₁, hmatch, h⟩ := exists_of_map_eq_ok h
  obtain ⟨rfl, rfl⟩ := Prod.mk.inj h
  exact EntityFilter.plain_match hf (of_ofQuery_empty hbare) hmatch

/-- The plan of a draft without collections. -/
theorem toPlan (h : d.Plain) : d.toPlan.Plain where
  tables := h.tables
  selects := h.selects
  primary t ht hprimary := Select.mem_referencesOf_star (h.starred t ht hprimary)
  conditions := by
    refine of_conjuncts_group? (fun c hc => ?_) (fun g hg _ c hc => ?_) (fun g hg => ?_) rfl
    · rw [h.existences, List.append_nil] at hc
      exact h.inlined c hc
    · obtain ⟨op, cs⟩ := g
      exact .inl (Condition.Firm.group_iff.1 (h.groups _ hg) c hc)
    · exact .inl (h.groups g hg)

end Plain

end Draft

/-! ### One more group -/

/-- Beside other conditions, a group is one condition, and so are the groups that were there. -/
theorem Conjuncts.exists_group?_addGroup {cs : Conjuncts} {g : Group} (h : cs.group? ≠ none) :
    ∃ ks, (cs.addGroup g).group? = some (.all ks) ∧
      (∀ c ∈ cs.inlined ++ cs.existences, c ∈ ks) ∧ ∀ g' ∈ cs.groups, Condition.group g' ∈ ks := by
  obtain ⟨inlined, existences, groups⟩ := cs
  unfold group? at h ⊢
  unfold addGroup
  dsimp only at h ⊢
  generalize inlined ++ existences = conditions at h ⊢
  have hleft : ∀ {xs ys : List Condition}, ∀ c ∈ xs, c ∈ xs ++ ys :=
    fun _ hc => List.mem_append_left _ hc
  have hright : ∀ {xs : List Condition} {gs more : List Group}, ∀ g' ∈ gs,
      Condition.group g' ∈ xs ++ (gs ++ more).map .group := fun g' hg' =>
    List.mem_append_right _ (List.mem_map_of_mem (List.mem_append_left _ hg'))
  match conditions, groups, g, h with
  | [], [], _, h => exact absurd rfl h
  | _ :: _, [], ⟨.and, _⟩, _ => exact ⟨_, rfl, hleft, nofun⟩
  | _ :: _, [], ⟨.or, _⟩, _ => exact ⟨_, rfl, hleft, nofun⟩
  | [], [_], _, _ => exact ⟨_, rfl, nofun, hright⟩
  | _ :: _, [⟨.and, _⟩], _, _ => exact ⟨_, rfl, hleft, hright⟩
  | _ :: _, [⟨.or, _⟩], _, _ => exact ⟨_, rfl, hleft, hright⟩
  | [], _ :: _ :: _, _, _ => exact ⟨_, rfl, nofun, hright⟩
  | _ :: _, ⟨.and, _⟩ :: _ :: _, _, _ => exact ⟨_, rfl, hleft, hright⟩
  | _ :: _, ⟨.or, _⟩ :: _ :: _, _, _ => exact ⟨_, rfl, hleft, hright⟩

/-- With one more group, all that had to hold has to hold. -/
theorem Draft.covers_addGroup {d : Draft} {g : Group} (h : d.toPlan.topConditions ≠ []) :
    (d.addGroup g).toPlan.Covers d.toPlan := by
  have hsome : d.conjuncts.group? ≠ none := by
    intro hnone
    refine h ?_
    show Plan.topConditions { d.toPlan with condition := d.conjuncts.group? } = []
    rw [hnone]
    rfl
  obtain ⟨ks, hks, hconditions, hgroups⟩ := Conjuncts.exists_group?_addGroup (g := g) hsome
  have hcondition : (d.addGroup g).toPlan.condition = some (.all ks) := hks
  have htop : ∀ {c : Condition}, c ∈ ks → (d.addGroup g).toPlan.Requires c := fun hc => .top (by
    unfold Plan.topConditions
    rwa [hcondition])
  refine
    { conjunctive := by
        unfold Plan.isDisjunctive
        rw [hcondition]
        rfl
      tables := List.Subset.refl _
      selects := rfl
      sortKeys := rfl
      groupBys := rfl
      conditions := of_conjuncts_group? (fun c hc => htop (hconditions c hc)) (fun g' hg' hop c hc => ?_)
        (fun g' hg' => htop (hgroups g' hg')) rfl }
  obtain ⟨op, cs⟩ := g'
  obtain rfl : op = .and := hop
  exact (htop (hgroups _ hg')).part hc

end EntityQuery
