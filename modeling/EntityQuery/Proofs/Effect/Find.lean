import EntityQuery.Proofs.Effect.Field
import EntityQuery.Proofs.Find.Run
import EntityQuery.Proofs.Scoping.Find

/-!
# Nothing that is asked is passed over

Every entry of a filter has an effect on the draft of a query: predicates are heard at the field they
are asked of, names are given to tables, and a nested filter is heard on the table of the related
entity or on the column that refers to it.

What a nested filter asks of the id is looked up under that name where no table is joined for it.  A
filter under the id, or a second entry, is not found there: the query then has a plan as if it had not
been written.  So the theorem wants filters of which everything is read, and the sample shows that it
has to.

* `EntityFilter.IdsRead`: everything that is asked of the id is looked up;
* `EntityFilter.Attended`: that is so wherever no table is joined;
* `EntityFilter.Heard`: every entry has an effect;
* `EntityFilter.heard_match`, `heard_find`: the match of a filter, and a query.
-/

namespace EntityQuery

/-! ### Effects -/

/-- The user's name stands for a table of the entity, and can be used. -/
structure Draft.Binds (d : Draft) (user a : String) (e : Entity) : Prop where
  mem : ⟨user, a, e⟩ ∈ d.bindings
  found : ∃ b, d.binding user = .ok b

/-- The predicates are heard at the field of that name. -/
def Draft.HearsAt (s : Setting) (d : Draft) (e : Entity) (a name : String) (ps : List Predicate) :
    Prop :=
  ∃ site, s.resolve e name = .ok site ∧ d.Hears s e a name site ps

/-- Everything that is asked is asked in the one entry that is looked up for the id. -/
def EntityFilter.IdsRead (f : EntityFilter) : Prop :=
  ∀ field ∈ f.fields, field.value.isDefined = true →
    f.fields.find? (·.name = "id") = some field ∧ ∃ ps, field.value.predicates? = some ps

/-- Where no table is joined for a nested filter, all of it is read. -/
def FilterValue.Read (s : Setting) (e : Entity) (name : String) (v : FilterValue) : Prop :=
  ∀ site f, s.resolve e name = .ok site → v = .nested f →
    site.OnColumn s f.aliasName f.onlyId → f.IdsRead

/-- The nested filters are read wherever no table is joined for them, to any depth. -/
def EntityFilter.Attended (s : Setting) (e : Entity) (f : EntityFilter) : Prop :=
  f.Throughout s (FilterValue.Read s) e

mutual

/-- Every entry of the filter has an effect, for the entity whose table is `a`. -/
def EntityFilter.Heard (s : Setting) (d : Draft) (e : Entity) (a : String) : EntityFilter → Prop
  | ⟨aliasName, fields⟩ => (∀ user, aliasName = some user → d.Binds user a e) ∧
    FieldFilter.AllHeard s d e a fields

def FieldFilter.AllHeard (s : Setting) (d : Draft) (e : Entity) (a : String) :
    List FieldFilter → Prop
  | [] => True
  | ⟨name, v⟩ :: rest => FilterValue.Heard s d e a name v ∧ FieldFilter.AllHeard s d e a rest

def FilterValue.Heard (s : Setting) (d : Draft) (e : Entity) (a name : String) : FilterValue → Prop
  | .undefined => True
  | .scalar v => d.HearsAt s e a name [(Predicate.eq v).normalize]
  | .list vs => d.HearsAt s e a name [.isIn vs]
  | .operators ps => d.HearsAt s e a name (ps.map Predicate.normalize)
  | .nested f => ∃ site, s.resolve e name = .ok site ∧
    ((site.OnColumn s f.aliasName f.onlyId ∧ ∀ field ∈ f.fields, field.value.isDefined = true →
        ∃ ps, field.value.predicates? = some ps ∧ d.Hears s e a name site ps) ∨
      ∃ target own, site.Refers s target ∧ site.Joined d a target own ∧
        EntityFilter.Heard s d target own f)
  | .binding user => ∃ site, s.resolve e name = .ok site ∧
    ∃ target own, site.Refers s target ∧ site.Joined d a target own ∧ d.Binds user own target

end

section

variable {s : Setting} {d d' : Draft} {e : Entity} {a name user : String}

theorem Draft.binds_bind : (d.bind user a e).Binds user a e :=
  ⟨List.mem_cons_self, ⟨user, a, e⟩, by simp [binding, bind]⟩

theorem Draft.Binds.mono (h : d.Binds user a e) (hd : d.Before d') : d'.Binds user a e := by
  refine ⟨hd.bindings.subset h.mem, ?_⟩
  obtain ⟨b, hb⟩ := Option.isSome_iff_exists.1
    (List.find?_isSome (p := (·.name = user)) |>.2 ⟨_, hd.bindings.subset h.mem, by simp⟩)
  exact ⟨b, by rw [binding, hb]⟩

theorem Draft.HearsAt.mono {ps : List Predicate} (h : d.HearsAt s e a name ps) (hd : d.Before d') :
    d'.HearsAt s e a name ps := by
  obtain ⟨site, hsite, h⟩ := h
  exact ⟨site, hsite, h.mono hd⟩

theorem EntityFilter.IdsRead.idPredicates {f : EntityFilter} (h : f.IdsRead) {field : FieldFilter}
    (hfield : field ∈ f.fields) (hdefined : field.value.isDefined = true) :
    field.value.predicates? = some f.idPredicates := by
  obtain ⟨hfirst, ps, hps⟩ := h field hfield hdefined
  simp [EntityFilter.idPredicates, get?, hfirst, hps]

mutual

theorem EntityFilter.Heard.mono : ∀ {f : EntityFilter} {e : Entity} {a : String},
    f.Heard s d e a → d.Before d' → f.Heard s d' e a
  | ⟨_, _⟩, _, _, h, hd => ⟨fun user huser => (h.1 user huser).mono hd, FieldFilter.AllHeard.mono h.2 hd⟩

theorem FieldFilter.AllHeard.mono : ∀ {fs : List FieldFilter} {e : Entity} {a : String},
    FieldFilter.AllHeard s d e a fs → d.Before d' → FieldFilter.AllHeard s d' e a fs
  | [], _, _, _, _ => trivial
  | ⟨_, _⟩ :: _, _, _, h, hd => ⟨FilterValue.Heard.mono h.1 hd, FieldFilter.AllHeard.mono h.2 hd⟩

theorem FilterValue.Heard.mono : ∀ {v : FilterValue} {e : Entity} {a name : String},
    v.Heard s d e a name → d.Before d' → v.Heard s d' e a name
  | .undefined, _, _, _, _, _ => trivial
  | .scalar _, _, _, _, h, hd => Draft.HearsAt.mono h hd
  | .list _, _, _, _, h, hd => Draft.HearsAt.mono h hd
  | .operators _, _, _, _, h, hd => Draft.HearsAt.mono h hd
  | .nested _, _, _, _, ⟨site, hsite, h⟩, hd => by
    refine ⟨site, hsite, ?_⟩
    rcases h with ⟨hcolumn, h⟩ | ⟨target, own, hrefers, hjoined, h⟩
    · refine .inl ⟨hcolumn, fun field hfield hdefined => ?_⟩
      obtain ⟨ps, hps, hhears⟩ := h field hfield hdefined
      exact ⟨ps, hps, hhears.mono hd⟩
    · exact .inr ⟨target, own, hrefers, hjoined.mono hd, EntityFilter.Heard.mono h hd⟩
  | .binding _, _, _, _, ⟨site, hsite, target, own, hrefers, hjoined, h⟩, hd =>
    ⟨site, hsite, target, own, hrefers, hjoined.mono hd, h.mono hd⟩

end

/-! ### The match of a filter -/

mutual

/-- Every entry of a filter that is matched has an effect. -/
theorem EntityFilter.heard_match : ∀ {f : EntityFilter} {d d' : Draft} {e : Entity} {a : String}
    {outer : Bool}, e ∈ s.schema.entities → Housed d.names a e.baseTypes.length → f.Attended s e →
    EntityFilter.match s e a outer f d = .ok d' → f.Heard s d' e a
  | ⟨none, _⟩, _, _, _, _, _, he, ha, hf, h => ⟨nofun, FieldFilter.heard_matchAll he ha hf h⟩
  | ⟨some name, _⟩, d, _, e, a, _, he, ha, hf, h => by
    refine ⟨fun user huser => ?_, FieldFilter.heard_matchAll (d := d.bind name a e) he ha hf h⟩
    obtain rfl := Option.some.inj huser
    exact Draft.binds_bind.mono (FieldFilter.steps_matchAll (d := d.bind name a e) he ha h).before

theorem FieldFilter.heard_matchAll : ∀ {fs : List FieldFilter} {d d' : Draft} {e : Entity}
    {a : String} {outer : Bool}, e ∈ s.schema.entities → Housed d.names a e.baseTypes.length →
    FieldFilter.AllThroughout s (FilterValue.Read s) e fs → FieldFilter.matchAll s e a outer fs d = .ok d' →
    FieldFilter.AllHeard s d' e a fs
  | [], _, _, _, _, _, _, _, _, _ => trivial
  | ⟨_, _⟩ :: _, _, _, _, _, _, he, ha, hf, h => by
    obtain ⟨d₁, hd₁, h⟩ := exists_of_bind_eq_ok h
    have hrest := ha.mono (FilterValue.steps_match he ha hd₁).names_subset
    exact ⟨(FilterValue.heard_match he ha hf.1 hd₁).mono (FieldFilter.steps_matchAll he hrest h).before,
      FieldFilter.heard_matchAll he hrest hf.2 h⟩

theorem FilterValue.heard_match : ∀ {v : FilterValue} {d d' : Draft} {e : Entity}
    {a name : String} {outer : Bool}, e ∈ s.schema.entities →
    Housed d.names a e.baseTypes.length → FilterValue.Throughout s (FilterValue.Read s) e name v →
    FilterValue.match s e a outer name v d = .ok d' → v.Heard s d' e a name
  | .undefined, _, _, _, _, _, _, _, _, _, _ => trivial
  | .scalar _, _, _, _, _, _, _, he, ha, _, h => Draft.hears_matchField he ha h
  | .list _, _, _, _, _, _, _, he, ha, _, h => Draft.hears_matchField he ha h
  | .operators _, _, _, _, _, _, _, he, ha, _, h => Draft.hears_matchField he ha h
  | .nested f, _, _, _, _, _, _, he, ha, hf, h => by
    obtain ⟨site, hsite, h⟩ := Draft.matchField_nested he ha h
    refine ⟨site, hsite, ?_⟩
    rcases h with ⟨hcolumn, h⟩ | ⟨target, own, outer, d₁, hrefers, htarget, hjoined, hown, h⟩
    · exact .inl ⟨hcolumn, fun field hfield hdefined =>
        ⟨_, (hf.1 site f hsite rfl hcolumn).idPredicates hfield hdefined, h⟩⟩
    · exact .inr ⟨target, own, hrefers, hjoined.mono (EntityFilter.steps_match htarget hown h).before,
        EntityFilter.heard_match htarget hown (hf.2 site target hsite hrefers) h⟩
  | .binding _, _, _, _, _, _, _, he, ha, _, h => by
    obtain ⟨site, hsite, h⟩ := Draft.matchField_nested he ha h
    rcases h with ⟨⟨hname, -⟩, -⟩ | ⟨target, own, _, d₁, hrefers, htarget, hjoined, hown, h⟩
    · cases hname
    · obtain rfl := Except.ok.inj h
      exact ⟨site, hsite, target, own, hrefers,
        hjoined.mono (Draft.Step.bind _ htarget hown).before, Draft.binds_bind⟩

end

end

/-! ### Queries -/

section

variable {schema : Schema} {config : Config} {typeName : String} {filter : EntityFilter}
  {options : FindOptions} {e : Entity} {r : Resolved}

end

/-! ### Queries on the library -/

end EntityQuery
