import EntityQuery.Proofs.Draft.Lookup
import EntityQuery.Proofs.Draft.Filter
import EntityQuery.Proofs.Find.Run
import EntityQuery.Proofs.Merging.Undefined
import EntityQuery.Proofs.Scoping.Find
import Mathlib.Logic.Relation

/-!
# Ids of related entities

What is asked of a relation by values is asked of the id of the related entity, so the same values
may as well stand in a nested filter, under the id.  The two spellings go different ways: the values
alone are read where the relation is, and a nested filter may have to be matched on the table of the
related entity.

* `EntityFilter.Respelled`: one entry of a filter, at any depth, is spelled the other way;
* `Draft.matchField_predicates`: the two spellings of an entry, by the kind of the relation;
* `EntityFilter.Respelled.alike`: the two spellings of a filter;
* `find_of_respelled`: a query has the same outcome for all spellings.
-/

namespace EntityQuery

/-- The value is no filter and no name: predicates can be asked of a column by it. -/
def FilterValue.isPlain : FilterValue → Bool
  | .scalar _ => true
  | .list _ => true
  | .operators _ => true
  | _ => false

/-- The field refers to other entities. -/
def FieldKind.isRelation : FieldKind → Bool
  | .primaryKey => false
  | .primitive .. => false
  | .enumeration .. => false
  | _ => true

/-- One entry of the filter for an entity, or of a filter inside it, is spelled otherwise: values that
are asked of a relation are asked of the id of the related entity, whose deleted rows are not told
from others. -/
inductive EntityFilter.Respelled (s : Setting) : Entity → EntityFilter → EntityFilter → Prop
  | entry {e : Entity} {aliasName : Option String} {before after : List FieldFilter} {name : String}
      {v : FilterValue} {site : FieldSite} (hsite : s.resolve e name = .ok site)
      (hrelation : site.kind.isRelation = true) (hv : v.isPlain = true)
      (hdeletion : ∀ target, site.Refers s target → s.deletion? target = .ok none) :
      Respelled s e ⟨aliasName, before ++ ⟨name, v⟩ :: after⟩
        ⟨aliasName, before ++ ⟨name, .nested (.only "id" v)⟩ :: after⟩
  | inside {e target : Entity} {aliasName : Option String} {before after : List FieldFilter}
      {name : String} {f f' : EntityFilter} {site : FieldSite} (hsite : s.resolve e name = .ok site)
      (hrefers : site.Refers s target) (h : Respelled s target f f') :
      Respelled s e ⟨aliasName, before ++ ⟨name, .nested f⟩ :: after⟩
        ⟨aliasName, before ++ ⟨name, .nested f'⟩ :: after⟩

section

variable {s : Setting} {e target : Entity} {a name : String} {outer : Bool} {d : Draft}
  {ps : List Predicate}

/-! ### Entries -/

/-- The nested filter only asks the id for these predicates. -/
structure NestedFilter.AsksId (s : Setting) (f : NestedFilter) (ps : List Predicate) : Prop where
  aliasName : f.aliasName = none
  onlyId : f.onlyId = true
  idPredicates : f.idPredicates = ps
  matchOn : ∀ target own outer d, f.matchOn target own outer d = Draft.addIds s target own "id" ps d

section

variable {f f' : NestedFilter}

namespace NestedFilter

theorem AsksId.needsJoin (h : f.AsksId s ps) (hdeletion : s.deletion? target = .ok none) :
    f.needsJoin s target = .ok false := by
  unfold NestedFilter.needsJoin
  rw [h.aliasName, h.onlyId, hdeletion]
  rfl

/-- Whether a table has to be joined does not hang on how the filter is matched on it. -/
theorem needsJoin_congr (hname : f.aliasName = f'.aliasName) (hid : f.onlyId = f'.onlyId) :
    f.needsJoin s target = f'.needsJoin s target := by
  unfold NestedFilter.needsJoin
  rw [hname, hid]

end NestedFilter

namespace Draft

theorem matchManyToOne_predicates (hf : f.AsksId s ps) (hdeletion : s.deletion? target = .ok none)
    {parent : ColumnRef} {needed : Bool} :
    d.matchManyToOne s target parent needed outer (.predicates ps) =
      d.matchManyToOne s target parent needed outer (.nested f) := by
  simp only [matchManyToOne, hf.needsJoin hdeletion, hf.idPredicates, ok_bind]
  rfl

theorem matchReferrer_predicates (hf : f.AsksId s ps) {otherColumn : String} {collection : Bool} :
    d.matchReferrer s target a otherColumn collection (.predicates ps) =
      d.matchReferrer s target a otherColumn collection (.nested f) := by
  simp only [matchReferrer, hf.matchOn]

theorem matchManyToMany_predicates (hf : f.AsksId s ps) (hdeletion : s.deletion? target = .ok none)
    {table column otherColumn idDbType : String} :
    d.matchManyToMany s target a table column otherColumn idDbType (.predicates ps) =
      d.matchManyToMany s target a table column otherColumn idDbType (.nested f) := by
  simp only [matchManyToMany, hf.needsJoin hdeletion, hf.idPredicates, ok_bind]
  rfl

/-- Predicates on a relation are the same as predicates on the id of the related entity. -/
theorem matchField_predicates {site : FieldSite} (hsite : s.resolve e name = .ok site)
    (hrelation : site.kind.isRelation = true)
    (hdeletion : ∀ target, site.Refers s target → s.deletion? target = .ok none)
    (hf : f.AsksId s ps) :
    d.matchField s e a outer name (.predicates ps) = d.matchField s e a outer name (.nested f) := by
  unfold matchField
  rw [hsite, ok_bind, ok_bind]
  obtain ⟨field, kind, owner, base⟩ := site
  cases kind with
  | primaryKey => cases hrelation
  | primitive => cases hrelation
  | enumeration => cases hrelation
  | manyToOne column other needed =>
    exact bind_congr_ok fun target htarget => matchManyToOne_predicates hf (hdeletion target htarget)
  | oneToOne other column => exact bind_congr_ok fun target _ => matchReferrer_predicates hf
  | oneToMany other column => exact bind_congr_ok fun target _ => matchReferrer_predicates hf
  | manyToMany table column otherColumn other idDbType =>
    exact bind_congr_ok fun target htarget => matchManyToMany_predicates hf (hdeletion target htarget)
  | polymorphic components =>
    simp only [polymorphicPredicates, hf.aliasName, hf.onlyId, hf.idPredicates]
    rfl

/-- Only how a filter is matched on the related entity matters of it. -/
theorem matchField_congr {site : FieldSite} (hsite : s.resolve e name = .ok site)
    (hname : f.aliasName = f'.aliasName) (hid : f.onlyId = f'.onlyId)
    (hids : f.idPredicates = f'.idPredicates) (hon : ∀ target, site.Refers s target →
      ∀ own outer d, f.matchOn target own outer d = f'.matchOn target own outer d) :
    d.matchField s e a outer name (.nested f) = d.matchField s e a outer name (.nested f') := by
  unfold matchField
  rw [hsite, ok_bind, ok_bind]
  obtain ⟨field, kind, owner, base⟩ := site
  cases kind with
  | primaryKey => rfl
  | primitive => rfl
  | enumeration => rfl
  | manyToOne column other needed =>
    refine bind_congr_ok fun target htarget => ?_
    simp only [matchManyToOne, joinTarget, NestedFilter.needsJoin_congr hname hid, hids,
      hon target htarget]
  | oneToOne other column =>
    refine bind_congr_ok fun target htarget => ?_
    simp only [matchReferrer, hon target htarget]
  | oneToMany other column =>
    refine bind_congr_ok fun target htarget => ?_
    simp only [matchReferrer, hon target htarget]
  | manyToMany table column otherColumn other idDbType =>
    refine bind_congr_ok fun target htarget => ?_
    simp only [matchManyToMany, joinTarget, NestedFilter.needsJoin_congr hname hid, hids,
      hon target htarget]
  | polymorphic components => simp only [polymorphicPredicates, hname, hid, hids]

end Draft

end

/-! ### Filters -/

/-- What planning asks of a filter for the entity is the same for both. -/
structure EntityFilter.AlikeAt (s : Setting) (e : Entity) (f f' : EntityFilter) : Prop where
  aliasName : f.aliasName = f'.aliasName
  onlyId : f.onlyId = f'.onlyId
  idPredicates : f.idPredicates = f'.idPredicates
  match_eq : ∀ a outer d, f.match s e a outer d = f'.match s e a outer d

namespace FilterValue

variable {v v' : FilterValue}

theorem isDefined_of_isPlain (hv : v.isPlain = true) : v.isDefined = true := by
  cases v with
  | undefined => cases hv
  | _ => rfl

theorem exists_predicates (hv : v.isPlain = true) : ∃ ps, v.predicates? = some ps ∧
    ∀ e a outer name d, v.match s e a outer name d = d.matchField s e a outer name (.predicates ps) := by
  cases v with
  | scalar v => exact ⟨_, rfl, fun _ _ _ _ _ => rfl⟩
  | list vs => exact ⟨_, rfl, fun _ _ _ _ _ => rfl⟩
  | operators ps => exact ⟨_, rfl, fun _ _ _ _ _ => rfl⟩
  | _ => cases hv

end FilterValue

namespace EntityFilter

variable {v v' : FilterValue} {f f' : EntityFilter} {aliasName : Option String}
  {before after : List FieldFilter}

/-- Values under the id, as a nested filter. -/
theorem asksId_only (hv : v.isPlain = true) (hps : v.predicates? = some ps)
    (hmatch : ∀ e a outer name d,
      v.match s e a outer name d = d.matchField s e a outer name (.predicates ps)) :
    NestedFilter.AsksId s ⟨(only "id" v).aliasName, (only "id" v).onlyId, (only "id" v).idPredicates,
      fun target own outer d => (only "id" v).match s target own outer d⟩ ps where
  aliasName := rfl
  onlyId := by simp [only, onlyId, definedFields, FilterValue.isDefined_of_isPlain hv]
  idPredicates := by simp [only, idPredicates, get?, hps]
  matchOn target own outer d := by
    show (v.match s target own outer "id" d >>= pure) = _
    rw [bind_pure, hmatch, Draft.matchField, Setting.resolve_id]
    rfl

/-- What an entry adds to a draft is all that matters of it when the filter is matched. -/
theorem match_congr_entry
    (h : ∀ a outer d, v.match s e a outer name d = v'.match s e a outer name d) :
    EntityFilter.match s e a outer ⟨aliasName, before ++ ⟨name, v⟩ :: after⟩ d =
      EntityFilter.match s e a outer ⟨aliasName, before ++ ⟨name, v'⟩ :: after⟩ d := by
  -- the entries in front leave both with the same draft
  have hfields : ∀ d, FieldFilter.matchAll s e a outer (before ++ ⟨name, v⟩ :: after) d =
      FieldFilter.matchAll s e a outer (before ++ ⟨name, v'⟩ :: after) d := by
    induction before with
    | nil =>
      intro d
      show (v.match s e a outer name d >>= _) = (v'.match s e a outer name d >>= _)
      rw [h]
    | cons field before ih =>
      obtain ⟨first, w⟩ := field
      intro d
      show (w.match s e a outer first d >>= _) = (w.match s e a outer first d >>= _)
      exact bind_congr_ok fun d' _ => ih d'
  cases aliasName with
  | none => exact hfields d
  | some user => exact hfields (d.bind user a e)

/-- Whether a filter asks for nothing but the id does not hang on the values. -/
theorem onlyId_congr_entry (hdefined : v.isDefined = v'.isDefined) :
    onlyId ⟨aliasName, before ++ ⟨name, v⟩ :: after⟩ =
      onlyId ⟨aliasName, before ++ ⟨name, v'⟩ :: after⟩ := by
  simp [onlyId, definedFields, List.filter_cons, hdefined, apply_ite]

/-- Entries of which planning does not tell one from the other, in the same place. -/
theorem alikeAt_of_match_eq (hname : name ≠ "id") (hdefined : v.isDefined = v'.isDefined)
    (h : ∀ a outer d, v.match s e a outer name d = v'.match s e a outer name d) :
    AlikeAt s e ⟨aliasName, before ++ ⟨name, v⟩ :: after⟩
      ⟨aliasName, before ++ ⟨name, v'⟩ :: after⟩ where
  aliasName := rfl
  onlyId := onlyId_congr_entry hdefined
  idPredicates := by simp [idPredicates, get?, hname]
  match_eq a outer d := match_congr_entry h

theorem name_ne_id {site : FieldSite} (hsite : s.resolve e name = .ok site)
    (hkind : site.kind ≠ .primaryKey) : name ≠ "id" := by
  rintro rfl
  obtain rfl := Except.ok.inj (Setting.resolve_id.symm.trans hsite)
  exact hkind rfl

/-- The other spelling of an entry makes no difference. -/
theorem Respelled.alike (h : Respelled s e f f') : AlikeAt s e f f' := by
  induction h with
  | @entry e aliasName before after name v site hsite hrelation hv hdeletion =>
    have hkind : site.kind ≠ .primaryKey := by
      intro hkind
      rw [hkind] at hrelation
      cases hrelation
    obtain ⟨ps, hps, hmatch⟩ := FilterValue.exists_predicates (s := s) hv
    refine alikeAt_of_match_eq (name_ne_id hsite hkind) (FilterValue.isDefined_of_isPlain hv) ?_
    intro a outer d
    rw [hmatch]
    exact Draft.matchField_predicates hsite hrelation hdeletion (asksId_only hv hps hmatch)
  | @inside e target aliasName before after name f f' site hsite hrefers _ ih =>
    have hkind : site.kind ≠ .primaryKey := by
      intro hkind
      rw [FieldSite.Refers, hkind] at hrefers
      exact hrefers
    refine alikeAt_of_match_eq (name_ne_id hsite hkind) rfl fun a outer d => ?_
    refine Draft.matchField_congr hsite ih.aliasName ih.onlyId ih.idPredicates ?_
    intro target' hrefers' own outer d
    -- only one entity is matched, so the filters are compared on it alone
    obtain rfl := hrefers.unique hrefers'
    exact ih.match_eq own outer d

theorem match_eq_of_eqvGen (h : Relation.EqvGen (Respelled s e) f f') :
    f.match s e a outer d = f'.match s e a outer d :=
  eq_of_eqvGen (fun _ _ hstep => hstep.alike.match_eq a outer d) h

end EntityFilter

end

/-! ### Queries -/

/-- A query has the same outcome for all spellings of its filter: the same plan, or the same error. -/
theorem find_of_respelled {schema : Schema} {config : Config} {typeName : String}
    {f f' : EntityFilter} {options : FindOptions}
    (h : ∀ e, (options.setting schema config).entity typeName = .ok e →
      Relation.EqvGen (EntityFilter.Respelled (options.setting schema config) e) f f') :
    find schema config typeName f options = find schema config typeName f' options := by
  unfold find
  refine bind_congr_ok fun e he => ?_
  have hdraft : Draft.ofQuery (options.setting schema config) e f options.conditions =
      Draft.ofQuery (options.setting schema config) e f' options.conditions := by
    simp only [Draft.ofQuery, EntityFilter.match_eq_of_eqvGen (h e he)]
  simp only [hdraft]

/-- Books by an author of the publisher with one of the tags. -/
def booksOf (publisher tags : FilterValue) : EntityFilter :=
  .only "author" (.nested ⟨none, [⟨"publisher", publisher⟩, ⟨"tags", tags⟩]⟩)

theorem find_of_respelled_library :
    find library .default "Book" (booksOf (.scalar (.int 7)) (.list [.int 1, .int 2])) .default =
      find library .default "Book" (booksOf (.nested (.only "id" (.scalar (.int 7))))
        (.nested (.only "id" (.list [.int 1, .int 2])))) .default := by
  refine find_of_respelled fun e he => ?_
  obtain rfl : Sample.Library.book = e := Except.ok.inj he
  refine .trans _ (booksOf (.nested (.only "id" (.scalar (.int 7)))) (.list [.int 1, .int 2])) _
    (.rel _ _ ?_) (.rel _ _ ?_)
  · refine @EntityFilter.Respelled.inside _ _ Sample.Library.author none [] _ _ _ _ _ rfl rfl ?_
    refine @EntityFilter.Respelled.entry _ _ none [] _ _ _ _ rfl rfl rfl fun target htarget => ?_
    obtain rfl : Sample.Library.publisher = target := Except.ok.inj htarget
    rfl
  · refine @EntityFilter.Respelled.inside _ _ Sample.Library.author none [] _ _ _ _ _ rfl rfl ?_
    refine @EntityFilter.Respelled.entry _ _ none [_] _ _ _ _ rfl rfl rfl fun target htarget => ?_
    obtain rfl : Sample.Library.tag = target := Except.ok.inj htarget
    rfl

end EntityQuery
