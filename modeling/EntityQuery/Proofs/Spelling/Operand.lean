import EntityQuery.Proofs.Draft.Filter
import EntityQuery.Proofs.Rendering.Operands
import EntityQuery.Proofs.Spelling.Id

/-!
# Operands that are read alike

The operands of a predicate on an id are read as ids of the entity that the id is one of, on every
kind of field, so only what they are read as matters of them.

* `Value.Alike`: values that are read as the same;
* `Predicate.Alike`, `Asked.Alike`: their operands are, one by one;
* `FieldSite.SameId`: values that are the same id where a field is;
* `Draft.addIds_congr`, `Draft.addJunctionIds_congr`, `Draft.addPolymorphic_congr`: the conditions on
  the columns that hold the id, by the kind of the field;
* `Draft.matchField_congr_ids`: the conditions of an entry.
-/

namespace EntityQuery

section

variable {R : Value → Value → Prop}

/-! ### Values and predicates -/

/-- Both values are read, as the same.  A value is also like itself, whether it can be read or not. -/
def Value.Alike {α : Type} (read : Value → Except PlanError α) (v v' : Value) : Prop :=
  v = v' ∨ ∃ a, read v = .ok a ∧ read v' = .ok a

theorem Value.Alike.read_eq {α : Type} {read : Value → Except PlanError α} {v v' : Value}
    (h : v.Alike read v') : read v = read v' := by
  obtain rfl | ⟨a, hv, hv'⟩ := h
  · rfl
  · rw [hv, hv']

/-- The predicates differ in operands that are related, one by one. -/
inductive Predicate.Alike (R : Value → Value → Prop) : Predicate → Predicate → Prop
  | refl (p : Predicate) : Alike R p p
  | compare (op : Comparison) {v v' : Value} (h : R v v') : Alike R (.compare op v) (.compare op v')
  | isIn {vs vs' : List Value} (h : List.Forall₂ R vs vs') : Alike R (.isIn vs) (.isIn vs')
  | notIn {vs vs' : List Value} (h : List.Forall₂ R vs vs') : Alike R (.notIn vs) (.notIn vs')
  | between {low low' high high' : Value} (hlow : R low low') (hhigh : R high high') :
      Alike R (.between low high) (.between low' high')

/-- The relation tells null from other values. -/
def TellsNull (R : Value → Value → Prop) : Prop := ∀ v v', R v v' → v.isNull = v'.isNull

theorem forall₂_withoutNulls (hnull : TellsNull R) {vs vs' : List Value}
    (h : List.Forall₂ R vs vs') : List.Forall₂ R (withoutNulls vs) (withoutNulls vs') :=
  List.rel_filter (fun v v' hv => by simp only [hnull v v' hv]) h

theorem any_isNull_eq (hnull : TellsNull R) {vs vs' : List Value} (h : List.Forall₂ R vs vs') :
    vs.any Value.isNull = vs'.any Value.isNull := by
  induction h with
  | nil => rfl
  | cons hv _ ih => rw [List.any_cons, List.any_cons, hnull _ _ hv, ih]

/-- Values that are read alike are read alike as lists. -/
theorem mapM_congr_forall₂ {α : Type} {read : Value → Except PlanError α}
    (hread : ∀ v v', R v v' → read v = read v') {vs vs' : List Value}
    (h : List.Forall₂ R vs vs') : vs.mapM read = vs'.mapM read := by
  induction h with
  | nil => rfl
  | cons hv _ ih => rw [List.mapM_cons, List.mapM_cons, hread _ _ hv, ih]

namespace Predicate

variable {p p' : Predicate} {e : Entity} {nil : NilIds} {text : String}

theorem normalize_compare {op : Comparison} {v : Value} (hv : v.isNull = false) :
    (compare op v).normalize = .compare op v := by
  cases v with
  | null => cases hv
  | _ => cases op <;> rfl

theorem Alike.normalize (hnull : TellsNull R) (h : p.Alike R p') :
    p.normalize.Alike R p'.normalize := by
  cases h with
  | refl => exact .refl _
  | @compare op v v' hv =>
    cases hvnull : v.isNull with
    | true =>
      obtain rfl := Value.isNull_iff.1 hvnull
      obtain rfl := Value.isNull_iff.1 ((hnull _ _ hv).symm.trans hvnull)
      exact .refl _
    | false =>
      rw [normalize_compare hvnull, normalize_compare ((hnull _ _ hv).symm.trans hvnull)]
      exact .compare op hv
  | isIn h => exact .isIn h
  | notIn h => exact .notIn h
  | between hlow hhigh => exact .between hlow hhigh

theorem Alike.forId_eq (hread : ∀ v v', R v v' → e.parseId nil v = e.parseId nil v')
    (h : p.Alike R p') : p.forId e nil text = p'.forId e nil text := by
  unfold forId
  cases h with
  | refl => rfl
  | compare op hv => simp only [mapId, hread _ _ hv]
  | isIn h => simp only [mapId, mapM_congr_forall₂ hread h]
  | notIn h => simp only [mapId, mapM_congr_forall₂ hread h]
  | between hlow hhigh => simp only [mapId, hread _ _ hlow, hread _ _ hhigh]

theorem Alike.mono {R' : Value → Value → Prop} (hmono : ∀ v v', R v v' → R' v v')
    (h : p.Alike R p') : p.Alike R' p' := by
  cases h with
  | refl => exact .refl _
  | compare op hv => exact .compare op (hmono _ _ hv)
  | isIn h => exact .isIn (h.imp hmono)
  | notIn h => exact .notIn (h.imp hmono)
  | between hlow hhigh => exact .between (hmono _ _ hlow) (hmono _ _ hhigh)

/-- Related operands that are the same make the same predicate. -/
theorem Alike.eq (hsame : ∀ v v', R v v' → v = v') (h : p.Alike R p') : p = p' := by
  have hlist : ∀ {vs vs' : List Value}, List.Forall₂ R vs vs' → vs = vs' := fun h =>
    List.forall₂_eq_eq_eq ▸ h.imp hsame
  cases h with
  | refl => rfl
  | compare op hv => rw [hsame _ _ hv]
  | isIn h => rw [hlist h]
  | notIn h => rw [hlist h]
  | between hlow hhigh => rw [hsame _ _ hlow, hsame _ _ hhigh]

end Predicate

/-! ### Conditions on ids -/

namespace Draft

variable {s : Setting} {e target : Entity} {a column name idDbType : String} {d : Draft}
  {ps ps' : List Predicate}

theorem addIds_congr
    (hread : ∀ v v', R v v' → target.parseId s.config.nilIds v = target.parseId s.config.nilIds v')
    (h : List.Forall₂ (Predicate.Alike R) ps ps') :
    addIds s target a column ps d = addIds s target a column ps' d := by
  induction h generalizing d with
  | nil => rfl
  | cons hp _ ih => simp only [addIds, hp.forId_eq hread, ih]

/-- Whether a predicate on a junction is a test for null does not hang on operands. -/
theorem addJunctionIds_congr
    (hread : ∀ v v', R v v' → target.parseId s.config.nilIds v = target.parseId s.config.nilIds v')
    (h : List.Forall₂ (Predicate.Alike R) ps ps') :
    addJunctionIds s target a idDbType column ps d =
      addJunctionIds s target a idDbType column ps' d := by
  induction h generalizing d with
  | nil => rfl
  | @cons p p' ps ps' hp _ ih =>
    have hone : ∀ d, addIds s target a column [p] d = addIds s target a column [p'] d := fun d =>
      addIds_congr hread (.cons hp .nil)
    cases hp with
    | refl p => cases p <;> simp only [addJunctionIds, ih]
    | _ => simp only [addJunctionIds, hone, ih]

end Draft

theorem Target.grouped_congr {targets : List Target} {field : String} {nil : NilIds}
    (hnull : TellsNull R)
    (hread : ∀ v v', R v v' → identify targets field nil v = identify targets field nil v')
    {vs vs' : List Value} (h : List.Forall₂ R vs vs') :
    grouped targets field nil vs = grouped targets field nil vs' := by
  unfold grouped
  rw [mapM_congr_forall₂ hread (forall₂_withoutNulls hnull h)]

theorem Draft.addPolymorphic_congr {s : Setting} {d : Draft} {a field : String}
    {components : List Component} {p p' : Predicate} (hnull : TellsNull R)
    (hread : ∀ targets, Target.ofComponents s components = .ok targets → ∀ v v', R v v' →
      Target.identify targets field s.config.nilIds v =
        Target.identify targets field s.config.nilIds v')
    (h : p.Alike R p') :
    d.addPolymorphic s a field components p = d.addPolymorphic s a field components p' := by
  refine bind_congr_ok fun targets htargets => ?_
  have hread := hread targets htargets
  cases h with
  | refl => rfl
  | compare op hv => cases op <;> first | rfl | simp only [hread _ _ hv]
  | isIn h => simp only [any_isNull_eq hnull h, Target.grouped_congr hnull hread h]
  | notIn h => simp only [any_isNull_eq hnull h, Target.grouped_congr hnull hread h]
  | between => rfl

/-! ### Entries -/

/-- The predicates that are asked, or that are asked of the id alone, differ in operands that are
related. -/
inductive Asked.Alike (R : Value → Value → Prop) : Asked → Asked → Prop
  | predicates {ps ps' : List Predicate} (h : List.Forall₂ (Predicate.Alike R) ps ps') :
      Alike R (.predicates ps) (.predicates ps')
  | nested (f : NestedFilter) {ps : List Predicate}
      (h : List.Forall₂ (Predicate.Alike R) f.idPredicates ps) :
      Alike R (.nested f) (.nested { f with idPredicates := ps })

theorem Asked.Alike.eq {asked asked' : Asked} (hsame : ∀ v v', R v v' → v = v')
    (h : asked.Alike R asked') : asked = asked' := by
  have hlist : ∀ {ps ps' : List Predicate}, List.Forall₂ (Predicate.Alike R) ps ps' → ps = ps' :=
    fun h => List.forall₂_eq_eq_eq ▸ h.imp fun p p' hp => hp.eq hsame
  cases h with
  | predicates h => rw [hlist h]
  | nested f h => rw [← hlist h]

end

/-- The two values are the same id where the field is: an id of the entity itself, of the related
entity, or of one of those that a polymorphic field refers to. -/
def FieldSite.SameId (s : Setting) (e : Entity) (name : String) (site : FieldSite) (v v' : Value) :
    Prop :=
  match site.kind with
  | .primaryKey => v.Alike (e.parseId s.config.nilIds) v'
  | .polymorphic components => ∃ targets, Target.ofComponents s components = .ok targets ∧
      v.Alike (Target.identify targets name s.config.nilIds) v'
  | _ => ∃ target, site.Refers s target ∧ v.Alike (target.parseId s.config.nilIds) v'

theorem tellsNull_parseId {e : Entity} {nil : NilIds} : TellsNull (Value.Alike (e.parseId nil)) := by
  rintro v v' (rfl | ⟨w, hv, hv'⟩)
  · rfl
  · rw [Bool.eq_iff_iff, Value.isNull_iff, Value.isNull_iff]
    constructor
    · rintro rfl
      obtain rfl := Except.ok.inj hv
      exact Entity.eq_null_of_parseId hv'
    · rintro rfl
      obtain rfl := Except.ok.inj hv'
      exact Entity.eq_null_of_parseId hv

/-- Null is in no column of a polymorphic field. -/
theorem tellsNull_identify {targets : List Target} {field : String} {nil : NilIds} :
    TellsNull (Value.Alike (Target.identify targets field nil)) := by
  have hnull : ∀ {v r}, Target.identify targets field nil v = .ok r → v.isNull = false := by
    intro v r h
    cases v with
    | null => cases h
    | _ => rfl
  rintro v v' (rfl | ⟨r, hv, hv'⟩)
  · rfl
  · rw [hnull hv, hnull hv']

section

variable {s : Setting} {e target : Entity} {a name : String} {outer : Bool} {d : Draft}
  {site : FieldSite}

theorem FieldSite.tellsNull_sameId : TellsNull (site.SameId s e name) := by
  intro v v' h
  obtain ⟨field, kind, owner, base⟩ := site
  cases kind with
  | primaryKey => exact tellsNull_parseId v v' h
  | polymorphic components =>
    obtain ⟨targets, -, h⟩ := h
    exact tellsNull_identify v v' h
  | _ =>
    obtain ⟨target, -, h⟩ := h
    exact tellsNull_parseId v v' h

theorem FieldSite.Refers.sameId (hrefers : site.Refers s target) {v v' : Value}
    (h : v.Alike (target.parseId s.config.nilIds) v') : site.SameId s e name v v' := by
  obtain ⟨field, kind, owner, base⟩ := site
  cases kind with
  | primaryKey => cases hrefers
  | polymorphic => cases hrefers
  | _ => exact ⟨target, hrefers, h⟩

theorem FieldSite.Refers.parseId_eq (hrefers : site.Refers s target) {v v' : Value}
    (h : site.SameId s e name v v') :
    target.parseId s.config.nilIds v = target.parseId s.config.nilIds v' := by
  obtain ⟨field, kind, owner, base⟩ := site
  cases kind with
  | primaryKey => cases hrefers
  | primitive => cases hrefers
  | enumeration => cases hrefers
  | polymorphic => cases hrefers
  | _ =>
    obtain ⟨target', hrefers', h⟩ := h
    obtain rfl := hrefers.unique hrefers'
    exact h.read_eq

theorem FieldSite.identify_eq {components : List Component} {targets : List Target} {v v' : Value}
    (hkind : site.kind = .polymorphic components)
    (htargets : Target.ofComponents s components = .ok targets) (h : site.SameId s e name v v') :
    Target.identify targets name s.config.nilIds v =
      Target.identify targets name s.config.nilIds v' := by
  rw [SameId, hkind] at h
  obtain ⟨targets', htargets', h⟩ := h
  obtain rfl := Except.ok.inj (htargets.symm.trans htargets')
  exact h.read_eq

namespace Draft

theorem addPolymorphics_congr {R : Value → Value → Prop} {components : List Component}
    (hnull : TellsNull R)
    (hread : ∀ targets, Target.ofComponents s components = .ok targets → ∀ v v', R v v' →
      Target.identify targets name s.config.nilIds v =
        Target.identify targets name s.config.nilIds v') {ps ps' : List Predicate}
    (h : List.Forall₂ (Predicate.Alike R) ps ps') :
    ps.foldlM (fun d p => d.addPolymorphic s a name components p) d =
      ps'.foldlM (fun d p => d.addPolymorphic s a name components p) d := by
  induction h generalizing d with
  | nil => rfl
  | cons hp _ ih =>
    rw [List.foldlM_cons, List.foldlM_cons, addPolymorphic_congr hnull hread hp]
    exact bind_congr_ok fun d' _ => ih

/-- The other spelling of ids in an entry makes no difference. -/
theorem matchField_congr_ids {asked asked' : Asked} (hsite : s.resolve e name = .ok site)
    (h : asked.Alike (site.SameId s e name) asked') :
    d.matchField s e a outer name asked = d.matchField s e a outer name asked' := by
  have hread : ∀ target, site.Refers s target → ∀ v v', site.SameId s e name v v' →
      target.parseId s.config.nilIds v = target.parseId s.config.nilIds v' :=
    fun target hrefers v v' => hrefers.parseId_eq
  have hidentify : ∀ components, site.kind = .polymorphic components → ∀ targets,
      Target.ofComponents s components = .ok targets → ∀ v v', site.SameId s e name v v' →
        Target.identify targets name s.config.nilIds v =
          Target.identify targets name s.config.nilIds v' :=
    fun components hkind targets htargets v v' => FieldSite.identify_eq hkind htargets
  unfold matchField
  rw [hsite, ok_bind, ok_bind]
  obtain ⟨field, kind, owner, base⟩ := site
  cases kind with
  | primaryKey =>
    cases h with
    | predicates h => exact addIds_congr (fun v v' hv => hv.read_eq) h
    | nested => rfl
  | primitive => rw [h.eq fun v v' hv => nomatch hv]
  | enumeration => rw [h.eq fun v v' hv => nomatch hv]
  | manyToOne column other needed =>
    refine bind_congr_ok fun target htarget => ?_
    cases h with
    | predicates h => exact addIds_congr (hread target htarget) h
    | nested f h =>
      simp only [matchManyToOne, addIds_congr (hread target htarget) h]
      rfl
  | oneToOne other column =>
    refine bind_congr_ok fun target htarget => ?_
    cases h with
    | predicates h => simp only [matchReferrer, addIds_congr (hread target htarget) h]
    | nested f h => rfl
  | oneToMany other column =>
    refine bind_congr_ok fun target htarget => ?_
    cases h with
    | predicates h => simp only [matchReferrer, addIds_congr (hread target htarget) h]
    | nested f h => rfl
  | manyToMany table column otherColumn other idDbType =>
    refine bind_congr_ok fun target htarget => ?_
    cases h with
    | predicates h => simp only [matchManyToMany, addJunctionIds_congr (hread target htarget) h]
    | nested f h =>
      simp only [matchManyToMany, addJunctionIds_congr (hread target htarget) h]
      rfl
  | polymorphic components =>
    have hread := hidentify components rfl
    cases h with
    | predicates h => exact addPolymorphics_congr FieldSite.tellsNull_sameId hread h
    | nested f h =>
      simp only [polymorphicPredicates]
      split_ifs
      · exact addPolymorphics_congr FieldSite.tellsNull_sameId hread h
      · rfl

end Draft

end

end EntityQuery
