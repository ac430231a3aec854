import EntityQuery.Proofs.Spelling.NestedId
import EntityQuery.Proofs.Spelling.Operand

/-!
# Spellings of ids in queries

An id may be exchanged for another spelling of it, wherever it stands in a filter or in a condition
over user aliases: the plan is the same.

* `EntityFilter.Exchanged`, `ExpressionLiteral.Exchanged`: ids in one place are spelled otherwise;
* `EntityFilter.Exchanged.sameIdsAt`: what is left of a filter when it is matched;
* `ExpressionLiteral.Exchanged.resolve_eq`: what an expression stands for;
* `spellings_of_ids`: the spellings of an id, and that a query has the same outcome for all of them.
-/

namespace EntityQuery

/-! ### Exchanges -/

/-- The values differ in ids that are related, one by one. -/
inductive FilterValue.Alike (R : Value → Value → Prop) : FilterValue → FilterValue → Prop
  | scalar {v v' : Value} (h : R v v') : Alike R (.scalar v) (.scalar v')
  | list {vs vs' : List Value} (h : List.Forall₂ R vs vs') : Alike R (.list vs) (.list vs')
  | operators {ps ps' : List Predicate} (h : List.Forall₂ (Predicate.Alike R) ps ps') :
      Alike R (.operators ps) (.operators ps')

/-- The ids in one entry of the filter for an entity, or of a filter inside it, are spelled otherwise:
on the primary key, on a relation, or under the id of a polymorphic reference. -/
inductive EntityFilter.Exchanged (s : Setting) : Entity → EntityFilter → EntityFilter → Prop
  | entry {e : Entity} {aliasName : Option String} {before after : List FieldFilter} {name : String}
      {v v' : FilterValue} {site : FieldSite} (hsite : s.resolve e name = .ok site)
      (h : v.Alike (site.SameId s e name) v') :
      Exchanged s e ⟨aliasName, before ++ ⟨name, v⟩ :: after⟩
        ⟨aliasName, before ++ ⟨name, v'⟩ :: after⟩
  | reference {e : Entity} {aliasName user : Option String}
      {before after inFront behind : List FieldFilter} {name : String} {v v' : FilterValue}
      {site : FieldSite} {components : List Component} (hsite : s.resolve e name = .ok site)
      (hkind : site.kind = .polymorphic components) (h : v.Alike (site.SameId s e name) v') :
      Exchanged s e
        ⟨aliasName, before ++ ⟨name, .nested ⟨user, inFront ++ ⟨"id", v⟩ :: behind⟩⟩ :: after⟩
        ⟨aliasName, before ++ ⟨name, .nested ⟨user, inFront ++ ⟨"id", v'⟩ :: behind⟩⟩ :: after⟩
  | inside {e target : Entity} {aliasName : Option String} {before after : List FieldFilter}
      {name : String} {f f' : EntityFilter} {site : FieldSite} (hsite : s.resolve e name = .ok site)
      (hrefers : site.Refers s target) (h : Exchanged s target f f') :
      Exchanged s e ⟨aliasName, before ++ ⟨name, .nested f⟩ :: after⟩
        ⟨aliasName, before ++ ⟨name, .nested f'⟩ :: after⟩

mutual

/-- The ids in one condition of an expression are spelled otherwise, where the user aliases name
tables of the draft. -/
inductive ExpressionLiteral.Exchanged (s : Setting) (d : Draft) :
    ExpressionLiteral → ExpressionLiteral → Prop
  | branch (op : Connective) (mode : UndefinedMode) (before after : List ConditionLiteral)
      {l l' : ConditionLiteral} (h : ConditionLiteral.Exchanged s d l l') :
      ExpressionLiteral.Exchanged s d ⟨op, before ++ l :: after, mode⟩
        ⟨op, before ++ l' :: after, mode⟩

/-- The ids in the condition, or in one inside it, are spelled otherwise. -/
inductive ConditionLiteral.Exchanged (s : Setting) (d : Draft) :
    ConditionLiteral → ConditionLiteral → Prop
  | column {name field : String} {b : Binding} {site : FieldSite} {p p' : Predicate}
      (hb : d.binding name = .ok b) (hsite : s.resolve b.entity field = .ok site)
      (h : p.Alike (site.SameId s b.entity field) p') :
      ConditionLiteral.Exchanged s d (.column name field p) (.column name field p')
  | group {l l' : ExpressionLiteral} (h : ExpressionLiteral.Exchanged s d l l') :
      ConditionLiteral.Exchanged s d (.group l) (.group l')

end

section

variable {s : Setting} {e : Entity} {a name : String} {outer : Bool} {d : Draft}

/-! ### Filters -/

namespace FilterValue

variable {R : Value → Value → Prop} {v v' : FilterValue}

theorem Alike.isDefined (h : v.Alike R v') : v.isDefined = v'.isDefined := by
  cases h <;> rfl

theorem Alike.exists_predicates (hnull : TellsNull R) (h : v.Alike R v') :
    ∃ ps ps', List.Forall₂ (Predicate.Alike R) ps ps' ∧
      v.predicates? = some ps ∧ v'.predicates? = some ps' ∧
      ∀ e a outer name d,
        v.match s e a outer name d = d.matchField s e a outer name (.predicates ps) ∧
        v'.match s e a outer name d = d.matchField s e a outer name (.predicates ps') := by
  cases h with
  | scalar h =>
    have heq := Predicate.Alike.compare .eq h
    exact ⟨_, _, .cons (heq.normalize hnull) .nil, rfl, rfl, fun _ _ _ _ _ => ⟨rfl, rfl⟩⟩
  | list h => exact ⟨_, _, .cons (.isIn h) .nil, rfl, rfl, fun _ _ _ _ _ => ⟨rfl, rfl⟩⟩
  | operators h =>
    have hnormal : List.Forall₂ (Predicate.Alike R) _ _ := List.rel_map
      (fun p p' (hp : Predicate.Alike R p p') => hp.normalize hnull) h
    exact ⟨_, _, hnormal, rfl, rfl, fun _ _ _ _ _ => ⟨rfl, rfl⟩⟩

end FilterValue

namespace EntityFilter

variable {R : Value → Value → Prop} {v v' : FilterValue} {f f' : EntityFilter}
  {aliasName : Option String} {before after : List FieldFilter}

/-- The filters ask the same of the entity, its id perhaps in other spellings. -/
structure SameIdsAt (s : Setting) (e : Entity) (f f' : EntityFilter) : Prop where
  aliasName : f.aliasName = f'.aliasName
  onlyId : f.onlyId = f'.onlyId
  idPredicates : List.Forall₂ (Predicate.Alike (Value.Alike (e.parseId s.config.nilIds)))
    f.idPredicates f'.idPredicates
  match_eq : ∀ a outer d, f.match s e a outer d = f'.match s e a outer d

/-- The first entry under the id is asked of the id. -/
theorem forall₂_idPredicates (h : name = "id" → List.Forall₂ (Predicate.Alike R)
    (v.predicates?.getD []) (v'.predicates?.getD [])) :
    List.Forall₂ (Predicate.Alike R) (idPredicates ⟨aliasName, before ++ ⟨name, v⟩ :: after⟩)
      (idPredicates ⟨aliasName, before ++ ⟨name, v'⟩ :: after⟩) := by
  have hrefl : ∀ ps, List.Forall₂ (Predicate.Alike R) ps ps := fun ps =>
    List.forall₂_same.2 fun p _ => .refl p
  simp only [idPredicates, get?, List.find?_append]
  cases before.find? (·.name = "id") with
  | some field => exact hrefl _
  | none =>
    by_cases hname : name = "id"
    · simpa [hname] using h hname
    · simpa [hname] using hrefl _

theorem AlikeAt.sameIdsAt (h : AlikeAt s e f f') : SameIdsAt s e f f' where
  aliasName := h.aliasName
  onlyId := h.onlyId
  idPredicates := h.idPredicates ▸ List.forall₂_same.2 fun p _ => .refl p
  match_eq := h.match_eq

/-- Nested filters that ask the same of the related entity. -/
theorem sameIdsAt_nested {site : FieldSite} (hsite : s.resolve e name = .ok site)
    (hkind : site.kind ≠ .primaryKey) (hname : f.aliasName = f'.aliasName)
    (hid : f.onlyId = f'.onlyId)
    (hids : List.Forall₂ (Predicate.Alike (site.SameId s e name)) f.idPredicates f'.idPredicates)
    (hon : ∀ target, site.Refers s target → ∀ own outer d,
      f.match s target own outer d = f'.match s target own outer d) :
    SameIdsAt s e ⟨aliasName, before ++ ⟨name, .nested f⟩ :: after⟩
      ⟨aliasName, before ++ ⟨name, .nested f'⟩ :: after⟩ := by
  have hmatch : ∀ a outer d, FilterValue.match s e a outer name (.nested f) d =
      FilterValue.match s e a outer name (.nested f') d := fun a outer d =>
    -- first the ids are exchanged, then the way the filter is matched on the related table
    (Draft.matchField_congr_ids hsite (.nested _ hids)).trans
      (Draft.matchField_congr hsite hname hid rfl hon)
  have halike : AlikeAt s e ⟨aliasName, before ++ ⟨name, .nested f⟩ :: after⟩
      ⟨aliasName, before ++ ⟨name, .nested f'⟩ :: after⟩ :=
    alikeAt_of_match_eq (name_ne_id hsite hkind) rfl hmatch
  exact halike.sameIdsAt

/-- The other spelling of ids in a filter makes no difference. -/
theorem Exchanged.sameIdsAt (h : Exchanged s e f f') : SameIdsAt s e f f' := by
  induction h with
  | @entry e aliasName before after name v v' site hsite h =>
    obtain ⟨ps, ps', hps, hv, hv', hmatch⟩ :=
      h.exists_predicates (s := s) FieldSite.tellsNull_sameId
    refine ⟨rfl, onlyId_congr_entry h.isDefined, forall₂_idPredicates ?_, fun a outer d =>
      match_congr_entry fun a outer d => ?_⟩
    · rintro rfl
      obtain rfl := Except.ok.inj (Setting.resolve_id.symm.trans hsite)
      rw [hv, hv']
      exact hps
    · rw [(hmatch e a outer name d).1, (hmatch e a outer name d).2]
      exact Draft.matchField_congr_ids hsite (.predicates hps)
  | @reference e aliasName user before after inFront behind name v v' site components hsite hkind h =>
    have hnot : site.kind ≠ .primaryKey := by
      rw [hkind]
      nofun
    obtain ⟨ps, ps', hps, hv, hv', -⟩ := h.exists_predicates (s := s) FieldSite.tellsNull_sameId
    refine sameIdsAt_nested hsite hnot rfl (onlyId_congr_entry h.isDefined)
      (forall₂_idPredicates fun _ => ?_) fun target hrefers => ?_
    · rw [hv, hv']
      exact hps
    · rw [FieldSite.Refers, hkind] at hrefers
      cases hrefers
  | @inside e target aliasName before after name f f' site hsite hrefers _ ih =>
    have hnot : site.kind ≠ .primaryKey := by
      intro hkind
      rw [FieldSite.Refers, hkind] at hrefers
      exact hrefers
    refine sameIdsAt_nested hsite hnot ih.aliasName ih.onlyId
      (ih.idPredicates.imp fun p p' hp => hp.mono fun v v' => hrefers.sameId) ?_
    intro target' hrefers'
    obtain rfl := hrefers.unique hrefers'
    exact ih.match_eq

theorem match_eq_of_exchanged (h : Relation.EqvGen (Exchanged s e) f f') :
    f.match s e a outer d = f'.match s e a outer d :=
  eq_of_eqvGen (fun _ _ hstep => hstep.sameIdsAt.match_eq a outer d) h

end EntityFilter

/-! ### Expressions -/

/-- The other spelling of ids in a condition makes no difference. -/
theorem Draft.resolveColumn_congr {field : String} {b : Binding} {site : FieldSite}
    {p p' : Predicate} (hb : d.binding name = .ok b) (hsite : s.resolve b.entity field = .ok site)
    (h : p.Alike (site.SameId s b.entity field) p') :
    d.resolveColumn s name field p = d.resolveColumn s name field p' := by
  have hnormal := h.normalize FieldSite.tellsNull_sameId
  have hread : ∀ target, site.Refers s target → ∀ v v', site.SameId s b.entity field v v' →
      target.parseId s.config.nilIds v = target.parseId s.config.nilIds v' :=
    fun target hrefers v v' => hrefers.parseId_eq
  unfold resolveColumn
  rw [hb, ok_bind, ok_bind, hsite, ok_bind, ok_bind]
  obtain ⟨field, kind, owner, base⟩ := site
  cases kind with
  | primaryKey => simp only [hnormal.forId_eq fun v v' hv => hv.read_eq]
  | primitive => rw [h.eq fun v v' hv => nomatch hv]
  | enumeration => rw [h.eq fun v v' hv => nomatch hv]
  | manyToOne column other needed =>
    refine bind_congr_ok fun target htarget => ?_
    simp only [hnormal.forId_eq (hread target htarget)]
  | _ => rfl

mutual

theorem ExpressionLiteral.Exchanged.resolve_eq : ∀ {l l' : ExpressionLiteral},
    ExpressionLiteral.Exchanged s d l l' → l.resolve (d.resolver s) = l'.resolve (d.resolver s)
  | _, _, .branch _ _ _ _ h => ExpressionLiteral.resolve_congr (ConditionLiteral.Exchanged.resolve_eq h)

theorem ConditionLiteral.Exchanged.resolve_eq : ∀ {l l' : ConditionLiteral},
    ConditionLiteral.Exchanged s d l l' →
      ConditionLiteral.resolve (d.resolver s) l = ConditionLiteral.resolve (d.resolver s) l'
  | _, _, .column hb hsite h => by
    rw [ConditionLiteral.resolve, ConditionLiteral.resolve]
    show (d.resolveColumn s _ _ _ >>= _) = (d.resolveColumn s _ _ _ >>= _)
    rw [Draft.resolveColumn_congr hb hsite h]
  | _, _, .group h => by
    rw [ConditionLiteral.resolve, ConditionLiteral.resolve, ExpressionLiteral.Exchanged.resolve_eq h]

end

theorem Draft.addConditions_eq_of_exchanged {l l' : ExpressionLiteral}
    (h : Relation.EqvGen (ExpressionLiteral.Exchanged s d) l l') :
    d.addConditions s l = d.addConditions s l' := by
  unfold addConditions
  rw [eq_of_eqvGen (fun _ _ hstep => hstep.resolve_eq) h]

end

/-! ### Queries -/

/-- Conditions are added to the draft of the filter. -/
theorem Draft.ofQuery_eq_bind_conditions (s : Setting) (e : Entity) (f : EntityFilter)
    (conditions : Option ExpressionLiteral) : Draft.ofQuery s e f conditions =
      Draft.ofQuery s e f none >>= fun r =>
        conditions.elim (pure r) fun l => return (r.1, ← r.2.addConditions s l) := by
  cases conditions with
  | none => exact (bind_pure _).symm
  | some l => exact Draft.ofQuery_some

theorem Draft.ofQuery_eq_of_exchanged {s : Setting} {e : Entity} {f f' : EntityFilter}
    {conditions conditions' : Option ExpressionLiteral}
    (hfilter : Relation.EqvGen (EntityFilter.Exchanged s e) f f')
    (hconditions : ∀ a d, Draft.ofQuery s e f none = .ok (a, d) →
      Option.Rel (Relation.EqvGen (ExpressionLiteral.Exchanged s d)) conditions conditions') :
    Draft.ofQuery s e f conditions = Draft.ofQuery s e f' conditions' := by
  have hdraft : Draft.ofQuery s e f none = Draft.ofQuery s e f' none := by
    simp only [Draft.ofQuery, EntityFilter.match_eq_of_exchanged hfilter]
  rw [Draft.ofQuery_eq_bind_conditions s e f, Draft.ofQuery_eq_bind_conditions s e f', ← hdraft]
  refine bind_congr_ok fun r hr => ?_
  cases hconditions r.1 r.2 hr with
  | none => rfl
  | some h => simp only [Option.elim_some, Draft.addConditions_eq_of_exchanged h]

/-- The spelling of an id does not matter.  It is read behind the tag of its entity as without it, and
not behind another tag; a tag ends at the first colon.  Its stored form is read as itself.  A query
has the same outcome, the same plan or the same error, for all spellings of the ids in its filter and
in its conditions. -/
theorem spellings_of_ids :
    (∀ (e : Entity) (nil : NilIds) (s : String), e.idType ≠ .untaggedString →
      ':' ∉ e.tag.toList → ':' ∉ s.toList → ∀ w,
        e.parseId nil (.text (e.tag ++ ":" ++ s)) = .ok w ↔ e.parseId nil (.text s) = .ok w) ∧
    (∀ (e : Entity) (nil : NilIds) (tag s : String), e.idType ≠ .untaggedString →
      ':' ∉ tag.toList → tag ≠ e.tag → ∀ w, e.parseId nil (.text (tag ++ ":" ++ s)) ≠ .ok w) ∧
    (∀ (e : Entity) (nil : NilIds) (v w : Value), (∀ typeName, v ≠ .newEntity typeName) →
      e.parseId nil v = .ok w → e.parseId nil w = .ok w) ∧
    ∀ (schema : Schema) (config : Config) (typeName : String) (f f' : EntityFilter)
      (options : FindOptions) (conditions : Option ExpressionLiteral),
      (∀ e, (options.setting schema config).entity typeName = .ok e →
        Relation.EqvGen (EntityFilter.Exchanged (options.setting schema config) e) f f' ∧
        ∀ a d, Draft.ofQuery (options.setting schema config) e f none = .ok (a, d) →
          Option.Rel (Relation.EqvGen (ExpressionLiteral.Exchanged (options.setting schema config) d))
            options.conditions conditions) →
      find schema config typeName f options =
        find schema config typeName f' { options with conditions := conditions } := by
  refine ⟨fun e nil s htype htag hs w => Entity.parseId_tagged_iff htype htag hs,
    fun e nil tag s htype htag hne w => Entity.parseId_otherTag htype htag hne,
    fun e nil v w hv h => Entity.parseId_parseId hv h, ?_⟩
  intro schema config typeName f f' options conditions h
  unfold find
  refine bind_congr_ok fun e he => ?_
  obtain ⟨hfilter, hconditions⟩ := h e he
  have hdraft := Draft.ofQuery_eq_of_exchanged hfilter hconditions
  simp only [hdraft]

/-- Authors with some tags and a mentor, named `a`. -/
def authorsWith (tags : List Value) (mentor : Value) : EntityFilter :=
  ⟨some "a", [⟨"tags", .list tags⟩, ⟨"mentor", .nested (.only "id" (.scalar mentor))⟩]⟩

/-- The author is another one than this, or one of the publisher or of none. -/
def eitherOf (id publisher : Value) : ExpressionLiteral :=
  ⟨.or, [.column "a" "id" (.ne id), .column "a" "publisher" (.isIn [publisher, .null])], .drop⟩

/-- Ids of authors and tasks, and the authors with some tags, mentors and publishers. -/
theorem spellings_of_ids_library :
    Sample.Library.author.parseId .default (.text "a:12") = .ok (.int 12) ∧
    (∀ w, Sample.Library.author.parseId .default (.text "b:12") ≠ .ok w) ∧
    (∃ w, Sample.Library.task.parseId .default
        (.text "task:20E1F7C6-3D2A-4C5E-9B8F-0A1B2C3D4E5F") = .ok w ∧
      Sample.Library.task.parseId .default w = .ok w) ∧
    find library .default "Author" (authorsWith [.text "t:1", .int 2] (.text "7"))
        { FindOptions.default with conditions := some (eitherOf (.text "a:3") (.text "p:04")) } =
      find library .default "Author" (authorsWith [.int 1, .int 2] (.text "a:7"))
        { FindOptions.default with conditions := some (eitherOf (.int 3) (.int 4)) } := by
  have hcolon : ∀ s : String, s.toList.all (· ≠ ':') = true → ':' ∉ s.toList := fun s h hm => by
    simpa using List.all_eq_true.1 h _ hm
  obtain ⟨htagged, hother, hstored, hfind⟩ := spellings_of_ids
  refine ⟨?_, ?_, ?_, ?_⟩
  · exact (htagged Sample.Library.author .default "12" nofun (hcolon _ (by decide))
      (hcolon _ (by decide)) (.int 12)).2 rfl
  · exact hother Sample.Library.author .default "b" "12" nofun (hcolon _ (by decide)) (by decide)
  · exact ⟨_, rfl, hstored Sample.Library.task .default
      (.text "task:20E1F7C6-3D2A-4C5E-9B8F-0A1B2C3D4E5F") _ nofun rfl⟩
  · refine hfind library .default "Author" _ _ { FindOptions.default with
      conditions := some (eitherOf (.text "a:3") (.text "p:04")) } _ fun e he => ?_
    obtain rfl : Sample.Library.author = e := Except.ok.inj he
    refine ⟨.trans _ (authorsWith [.int 1, .int 2] (.text "7")) _ (.rel _ _ ?_) (.rel _ _ ?_),
      fun a d hd => .some (.trans _ (eitherOf (.int 3) (.text "p:04")) _ (.rel _ _ ?_)
        (.rel _ _ ?_))⟩
    · refine @EntityFilter.Exchanged.entry _ _ _ [] _ _ _ _ _ rfl (.list ?_)
      exact .cons ⟨Sample.Library.tag, rfl, .inr ⟨_, rfl, rfl⟩⟩
        (.cons ⟨Sample.Library.tag, rfl, .inl rfl⟩ .nil)
    · refine @EntityFilter.Exchanged.inside _ _ Sample.Library.author _ [_] _ _ _ _ _ rfl rfl ?_
      refine @EntityFilter.Exchanged.entry _ _ _ [] _ _ _ _ _ rfl (.scalar ?_)
      exact .inr ⟨_, rfl, rfl⟩
    · obtain ⟨-, rfl⟩ := Prod.mk.inj (Except.ok.inj hd)
      refine .branch _ _ [] _ (.column rfl rfl (.compare .ne ?_))
      exact .inr ⟨_, rfl, rfl⟩
    · obtain ⟨-, rfl⟩ := Prod.mk.inj (Except.ok.inj hd)
      refine .branch _ _ [_] _ (.column rfl rfl (.isIn ?_))
      exact .cons ⟨Sample.Library.publisher, rfl, .inr ⟨_, rfl, rfl⟩⟩
        (.cons ⟨Sample.Library.publisher, rfl, .inl rfl⟩ .nil)

end EntityQuery
