import EntityQuery.Proofs.Failure.Basic
import EntityQuery.Proofs.Lateral.Combinations

/-!
# The decomposition undone

A condition of the rewritten plan is one that was kept, a reference to a column, or a group of such
conditions.  With the groups that the columns were made for in the place of the references, and the
guards beside them, it has the truth value of the original condition.

* `Outline`: a condition with its references told apart; `Outline.fill` puts something in their
  place;
* `Lateral.exists_outlines`: what is left of conditions has an outline, which refers to each new
  column once;
* `Lateral.Lifted`, `Lateral.groupAt?`: a collection that became a lateral table, and what a
  reference stands for;
* `Lateral.Undone`, `Plan.undone_toLateral`: the rewritten plan, undone.
-/

namespace EntityQuery

/-- A condition of a rewritten plan, with the references to columns of lateral tables told apart. -/
inductive Outline
  | kept (c : Condition)
  | column (lateral name : String)
  | group (op : Connective) (members : List Outline)

namespace Outline

mutual

/-- The condition with something in the place of each reference. -/
def fill (f : String → String → Condition) : Outline → Condition
  | .kept c => c
  | .column lateral name => f lateral name
  | .group op members => .group ⟨op, fillAll f members⟩

/-- The conditions with something in the place of each reference. -/
def fillAll (f : String → String → Condition) : List Outline → List Condition
  | [] => []
  | o :: rest => o.fill f :: fillAll f rest

end

mutual

/-- The columns that are referred to: the name of the lateral table and that of the column. -/
def references : Outline → List (String × String)
  | .kept _ => []
  | .column lateral name => [(lateral, name)]
  | .group _ members => referencesAll members

/-- The columns that are referred to. -/
def referencesAll : List Outline → List (String × String)
  | [] => []
  | o :: rest => o.references ++ referencesAll rest

end

/-- The condition as it is written in the rewritten plan. -/
def written : Outline → Condition := fill (Lateral.reference id)

theorem fillAll_eq_map {f : String → String → Condition} (os : List Outline) :
    fillAll f os = os.map (fill f) := by
  induction os with
  | nil => rfl
  | cons o os ih => rw [fillAll, ih, List.map_cons]

theorem map_fill_kept (f : String → String → Condition) (cs : List Condition) :
    (cs.map kept).map (fill f) = cs := by
  rw [List.map_map]
  exact List.map_id'' (fun _ => rfl) cs

theorem referencesAll_eq_flatMap (os : List Outline) :
    referencesAll os = os.flatMap references := by
  induction os with
  | nil => rfl
  | cons o os ih => rw [referencesAll, ih, List.flatMap_cons]

theorem flatMap_references_kept (cs : List Condition) : (cs.map kept).flatMap references = [] := by
  rw [List.flatMap_eq_nil_iff]
  intro o ho
  obtain ⟨c, -, rfl⟩ := List.mem_map.1 ho
  rfl

end Outline

/-- The condition that a boolean column was made for, the first `guards` of its conditions aside. -/
def Select.original (collection : String) (guards : Nat) : Select → Condition
  | .boolOr g _ => .group ⟨g.op, g.conditions.drop guards⟩
  | _ => .column (.asked collection "id" "uuid" .isNull)

/-- The boolean columns of a lateral table: its name and that of the column. -/
def Table.references : Table → List (String × String)
  | .lateral name _ query => (query.selects.map Select.label?).filterMap (Option.map (name, ·))
  | _ => []

namespace Lateral

/-- The names that a column is referred to by. -/
def Column.reference (aliasOf : String → String) (column : Column) : String × String :=
  (aliasOf column.unit, column.select.label?.getD "")

/-! ### Conditions with columns in them -/

section

variable {db : Database} {e : Assignment} {unit name : String} {c : Condition} {x : Select}
  {guards : List Condition}

/-- A column was made for the group that it is the column of. -/
theorem eval_original_columnOf :
    ((columnOf unit name c).original unit 0).eval db e = c.eval db e := by
  unfold columnOf
  split_ifs with hm
  · cases c with
    | column c =>
      simp only [Condition.isMissing, Bool.and_eq_true, decide_eq_true_iff,
        Predicate.isNullTest_iff] at hm
      obtain ⟨⟨rfl, hid⟩, hp⟩ := hm
      rw [Select.original, Condition.eval, Condition.eval, hid, hp]
      · rfl
      · intro g name' h
        cases h
    | _ => cases hm
  · split
    · next g =>
      obtain ⟨op, cs⟩ := g
      rw [Select.original, List.drop_zero]
    · rw [Select.original, Group.all, List.drop_zero, Condition.eval_group, List.map_singleton,
        Connective.combine_singleton]

/-- Guards in front of the conditions of a column are set aside again. -/
theorem eval_original_guarded :
    ((guarded guards x).original unit guards.length).eval db e = (x.original unit 0).eval db e := by
  cases x with
  | boolOr g name =>
    obtain ⟨op, cs⟩ := g
    cases op with
    | and => simp only [guarded, Select.original, Group.all, List.drop_left, List.drop_zero]
    | or =>
      simp only [guarded, Select.original, Group.all, List.drop_left, List.drop_zero]
      rw [Condition.eval_group, List.map_singleton, Connective.combine_singleton]
  | _ => rfl

end

/-- The conditions `before` are left as `after`, which the outlines are written as.  These refer to
each of the new columns once, and mean what the conditions meant. -/
structure Outlines (aliasOf : String → String) (before after : List Condition) (new : List Column)
    (outlines : List Outline) : Prop where
  written : outlines.map Outline.written = after
  references : outlines.flatMap Outline.references = new.map (Column.reference aliasOf)
  value : ∀ {db : Database} {e : Assignment} {f : String → String → Condition},
    (∀ column ∈ new, (f (column.reference aliasOf).1 (column.reference aliasOf).2).eval db e =
      (column.select.original column.unit 0).eval db e) →
    outlines.map (fun o => (o.fill f).eval db e) = before.map (·.eval db e)

section

variable {s : Scope} {aliasOf : String → String} {op : Connective}
  {before after before' after' : List Condition} {new new' : List Column}
  {outlines outlines' : List Outline} {c : Condition}

namespace Outlines

theorem nil : Outlines aliasOf [] [] [] [] := ⟨rfl, rfl, fun _ => rfl⟩

theorem kept : Outlines aliasOf [c] [c] [] [.kept c] := ⟨rfl, rfl, fun _ => rfl⟩

/-- A reference stands for the group of its column. -/
theorem column {unit name : String} : Outlines aliasOf [c] [reference aliasOf unit name]
    [⟨unit, columnOf unit name c⟩] [.column (aliasOf unit) name] := by
  have hname : (Column.mk unit (columnOf unit name c)).reference aliasOf = (aliasOf unit, name) := by
    rw [Column.reference, label?_columnOf, Option.getD_some]
  refine ⟨rfl, by rw [List.map_singleton, hname]; rfl, fun hf => ?_⟩
  have hvalue := hf _ (List.mem_singleton_self _)
  rw [hname, eval_original_columnOf] at hvalue
  exact congrArg (fun v => [v]) hvalue

theorem append (h : Outlines aliasOf before after new outlines)
    (h' : Outlines aliasOf before' after' new' outlines') :
    Outlines aliasOf (before ++ before') (after ++ after') (new ++ new') (outlines ++ outlines') where
  written := by rw [List.map_append, h.written, h'.written]
  references := by rw [List.flatMap_append, h.references, h'.references, List.map_append]
  value hf := by
    obtain ⟨hnew, hnew'⟩ := List.forall_mem_append.1 hf
    rw [List.map_append, h.value hnew, h'.value hnew', List.map_append]

/-- A group is written with its members, and means what it meant before these were put together. -/
theorem group {cs : List Condition} (h : Outlines aliasOf (regroup s op cs [] cs) after new outlines) :
    Outlines aliasOf [.group ⟨op, cs⟩] [.group ⟨op, after⟩] new [.group op outlines] where
  written := by
    rw [List.map_singleton, Outline.written, Outline.fill, Outline.fillAll_eq_map, ← h.written]
    rfl
  references := by
    rw [List.flatMap_singleton, Outline.references, Outline.referencesAll_eq_flatMap, h.references]
  value hf := by
    rw [List.map_singleton, List.map_singleton, Outline.fill, Outline.fillAll_eq_map,
      Condition.eval_group, List.map_map, ← eval_regroup (s := s), Condition.eval_group, ← h.value hf]
    rfl

end Outlines

mutual

/-- What is left of conditions has an outline. -/
theorem exists_outlines {op : Connective} {siblings : List Condition} :
    ∀ (rest : List Condition) (seen : List String) (columns : List Column),
    ∃ new outlines, (decompose s aliasOf op siblings seen rest columns).2 = columns ++ new ∧
      Outlines aliasOf (regroup s op siblings seen rest)
        (decompose s aliasOf op siblings seen rest columns).1 new outlines
  | [], seen, columns => ⟨[], [], by rw [decompose, List.append_nil], by
      rw [decompose, regroup]
      exact .nil⟩
  | c :: rest, seen, columns => by
    rw [decompose, regroup]
    cases hu : s.only? c with
    | some unit =>
      simp only
      split_ifs with hseen
      · exact exists_outlines rest seen columns
      · obtain ⟨new, outlines, hnew, h⟩ := exists_outlines rest (unit :: seen)
          (addColumn aliasOf unit (asOne op (siblings.filter fun m => s.only? m = some unit))
            columns).2
        refine ⟨_ :: new, _ :: outlines, ?_, Outlines.column.append h⟩
        rw [hnew, addColumn, List.append_assoc]
        rfl
    | none =>
      obtain ⟨new, outlines, hnew, h⟩ := exists_outlines_one c columns
      obtain ⟨new', outlines', hnew', h'⟩ := exists_outlines rest seen
        (decomposeOne s aliasOf c columns).2
      refine ⟨new ++ new', outlines ++ outlines', ?_, h.append h'⟩
      rw [hnew', hnew, List.append_assoc]

/-- What is left of a condition that reads several collections or other tables has an outline. -/
theorem exists_outlines_one : ∀ (c : Condition) (columns : List Column),
    ∃ new outlines, (decomposeOne s aliasOf c columns).2 = columns ++ new ∧
      Outlines aliasOf [c] [(decomposeOne s aliasOf c columns).1] new outlines
  | .group ⟨op, conditions⟩, columns => by
    rw [decomposeOne]
    split_ifs
    · exact ⟨[], _, (List.append_nil _).symm, .kept⟩
    · obtain ⟨new, outlines, hnew, h⟩ := exists_outlines conditions [] columns
      exact ⟨new, _, hnew, h.group⟩
  | .column _, columns | .raw _, columns | .existence .., columns => by
    rw [decomposeOne_leaf (by simp)]
    exact ⟨[], _, (List.append_nil _).symm, .kept⟩

end

end

/-! ### The collections that became lateral tables -/

/-- A collection that became a lateral table, with the conditions that guard its columns. -/
structure Lifted where
  collection : String
  lateral : String
  parent : String
  query : Plan
  guards : List Condition

namespace Lifted

/-- The lateral table. -/
def table (l : Lifted) : Table := .lateral l.lateral l.parent l.query

/-- The columns of the lateral table, as they are referred to. -/
def references (l : Lifted) : List (String × String) := l.table.references

end Lifted

/-- What a reference stands for: the condition that the column was made for, without its guards. -/
def groupAt? (ls : List Lifted) (lateral name : String) : Option Condition := do
  let l ← ls.find? (·.lateral = lateral)
  let x ← l.query.selects.find? (·.label? = some name)
  return x.original l.collection l.guards.length

/-- The condition with the groups that its references stand for. -/
def restored (ls : List Lifted) : Outline → Condition :=
  Outline.fill fun lateral name => (groupAt? ls lateral name).getD (.all [])

/-- The rewritten plan `q` of `p` can be undone: behind tables of `p` it has the lateral tables `ls`,
whose columns are boolean, with the guards that `p` asked for at the top.  Its conditions are written
as the outlines, which refer to each of these columns once; with the groups that the references
stand for and the guards beside them, the conditions have the truth value that those of `p` have. -/
structure Undone (p q : Plan) (t : Collections) (ls : List Lifted) (outlines : List Outline) :
    Prop where
  tables : ∃ kept, kept.Sublist p.tables ∧ q.tables = kept ++ ls.map Lifted.table
  boolean : ∀ l ∈ ls, ∀ x ∈ l.query.selects, x.label?.isSome
  guards : ∀ l ∈ ls, l.guards = p.topConditions.filter fun c =>
    c.isPruneable && c.aliases.any fun a => l.collection ∈ t.above a
  guarded : ∀ l ∈ ls, ∀ g name, .boolOr g name ∈ l.query.selects → l.guards <+: g.conditions
  written : q.topConditions = outlines.map Outline.written
  once : (outlines.flatMap Outline.references).Perm (ls.flatMap Lifted.references)
  distinct : (ls.flatMap Lifted.references).Nodup
  value : ∀ db e, Group.evalTop db p.condition e = Connective.combine .and
    ((outlines.map (restored ls) ++ ls.flatMap Lifted.guards).map (·.eval db e))

/-- The lateral table of a collection, with what guards it. -/
def liftedOf (s : Scope) (top : List Condition) (columns : List Column) (supply : AliasSupply)
    (tables : List Table) (unit : String) (j : Join) : Lifted where
  collection := unit
  lateral := subqueryName supply unit
  parent := j.parent.aliasName
  query := subqueryOf s top columns unit j tables
  guards := guardsOf s top unit

/-- The lateral table of a collection, if it has columns. -/
def lifted? (s : Scope) (top : List Condition) (columns : List Column) (supply : AliasSupply)
    (tables : List Table) (unit : String) : Option Lifted :=
  match s.tree.join? unit with
  | some j =>
    if isRewritten columns unit then some (liftedOf s top columns supply tables unit j) else none
  | none => none

/-- The lateral tables of all chosen collections with columns. -/
def lifted (s : Scope) (top : List Condition) (columns : List Column) (supply : AliasSupply)
    (tables : List Table) : List Lifted :=
  s.active.filterMap (lifted? s top columns supply tables)

section

variable {s : Scope} {top : List Condition} {columns : List Column} {supply : AliasSupply}
  {tables : List Table} {l : Lifted} {u : String} {j : Join}

theorem mem_lifted_iff : l ∈ lifted s top columns supply tables ↔ ∃ u ∈ s.active, ∃ j,
    s.tree.join? u = some j ∧ isRewritten columns u = true ∧
      l = liftedOf s top columns supply tables u j := by
  rw [lifted, List.mem_filterMap]
  refine exists_congr fun u => and_congr_right fun _ => ?_
  unfold lifted?
  cases s.tree.join? u with
  | none => simp
  | some j =>
    simp only [Option.some.injEq, exists_eq_left']
    split_ifs with hr
    · simp [hr, eq_comm]
    · simp [hr]

theorem map_table_lifted :
    (lifted s top columns supply tables).map Lifted.table = laterals s top columns supply tables := by
  rw [lifted, laterals, List.map_filterMap]
  refine List.filterMap_congr fun u _ => ?_
  unfold lifted? lateral?
  cases s.tree.join? u with
  | none => rfl
  | some j => split_ifs <;> rfl

/-- The names of the lateral tables differ. -/
theorem nodup_map_lateral (hI : s.Independent)
    (hinj : ∀ u ∈ s.active, ∀ v ∈ s.active, subqueryName supply u = subqueryName supply v → u = v) :
    ((lifted s top columns supply tables).map Lifted.lateral).Nodup := by
  have hnames : ((laterals s top columns supply tables).map Table.aliasName).Nodup :=
    nodup_laterals hI hinj
  rw [← map_table_lifted, List.map_map] at hnames
  exact hnames

/-! ### What references stand for -/

theorem mem_guardedAll_iff {guards : List Condition} {selects : List Select} {x : Select} :
    x ∈ guardedAll guards selects ↔
      ∃ y ∈ selects, x = if guards.isEmpty then y else guarded guards y := by
  unfold guardedAll
  split_ifs with hnil
  · simp
  · simp [eq_comm]

/-- The columns with their guards have the names that they had. -/
theorem map_label?_guardedAll {guards : List Condition} {selects : List Select} :
    (guardedAll guards selects).map Select.label? = selects.map Select.label? := by
  unfold guardedAll
  split_ifs
  · rfl
  · rw [List.map_map]
    exact List.map_congr_left fun x _ => label?_guarded

/-- The columns of a lateral table are those of its collection. -/
theorem references_liftedOf {aliasOf : String → String}
    (hlabel : ∀ column ∈ columns, column.select.label?.isSome)
    (hname : aliasOf u = subqueryName supply u) :
    (liftedOf s top columns supply tables u j).references =
      (columns.filter (·.unit = u)).map (Column.reference aliasOf) := by
  have hlabels : (liftedOf s top columns supply tables u j).references =
      ((guardedAll (guardsOf s top u) (selectsOf u columns)).map Select.label?).filterMap
        (Option.map (subqueryName supply u, ·)) := rfl
  rw [hlabels, map_label?_guardedAll, selectsOf, List.map_map, List.filterMap_map,
    ← List.filterMap_eq_map]
  refine List.filterMap_congr fun column hcolumn => ?_
  obtain ⟨hcolumn, hu⟩ := List.mem_filter.1 hcolumn
  obtain ⟨name, hn⟩ := Option.isSome_iff_exists.1 (hlabel column hcolumn)
  simp [Column.reference, hn, of_decide_eq_true hu, hname]

/-- Columns are divided among their collections. -/
theorem perm_flatMap_filter {units : List String} (hnodup : units.Nodup) :
    ∀ columns : List Column, (∀ column ∈ columns, column.unit ∈ units) →
      columns.Perm (units.flatMap fun u => columns.filter (·.unit = u)) := by
  induction units with
  | nil =>
    intro columns h
    rw [List.eq_nil_iff_forall_not_mem.2 fun column hc => List.not_mem_nil (h column hc)]
    rfl
  | cons u units ih =>
    intro columns h
    obtain ⟨hu, hnodup⟩ := List.nodup_cons.1 hnodup
    have hothers := ih hnodup (columns.filter fun k => !decide (k.unit = u)) fun column hc => by
      obtain ⟨hc, hne⟩ := List.mem_filter.1 hc
      exact (List.mem_cons.1 (h column hc)).resolve_left (by simpa using hne)
    have hsame : (units.flatMap fun v =>
          (columns.filter fun k => !decide (k.unit = u)).filter (·.unit = v)) =
        units.flatMap fun v => columns.filter (·.unit = v) := by
      refine List.flatMap_congr fun v hv => ?_
      rw [List.filter_filter]
      refine List.filter_congr fun column _ => ?_
      by_cases hc : column.unit = v
      · have hne : v ≠ u := fun he => hu (he ▸ hv)
        simp [hc, hne]
      · simp [hc]
    rw [List.flatMap_cons, ← hsame]
    exact (List.filter_append_perm _ columns).symm.trans (hothers.append_left _)

theorem find?_eq_of_unique {α : Type} {p : α → Bool} {xs : List α} {x : α} (hx : x ∈ xs)
    (hp : p x = true) (hunique : ∀ y ∈ xs, p y = true → y = x) : xs.find? p = some x := by
  obtain ⟨y, hy⟩ := Option.isSome_iff_exists.1 (List.find?_isSome.2 ⟨x, hx, hp⟩)
  rw [hy, hunique y (List.mem_of_find?_eq_some hy) (List.find?_some hy)]

/-- A name belongs to one lateral table. -/
theorem find?_lifted
    (hinj : ∀ u ∈ s.active, ∀ v ∈ s.active, subqueryName supply u = subqueryName supply v → u = v)
    (hu : u ∈ s.active) (hj : s.tree.join? u = some j) (hr : isRewritten columns u = true) :
    (lifted s top columns supply tables).find? (·.lateral = subqueryName supply u) =
      some (liftedOf s top columns supply tables u j) := by
  refine find?_eq_of_unique (mem_lifted_iff.2 ⟨u, hu, j, hj, hr, rfl⟩) (decide_eq_true rfl) ?_
  intro l hl hname
  obtain ⟨v, hv, j', hj', -, rfl⟩ := mem_lifted_iff.1 hl
  obtain rfl := hinj v hv u hu (of_decide_eq_true hname)
  rw [Option.some.inj (hj'.symm.trans hj)]

/-- A name belongs to one column of a lateral table. -/
theorem find?_guardedAll {guards : List Condition} {selects : List Select} {x : Select}
    {name : String} (hn : (selects.map Select.label?).Nodup) (hx : x ∈ selects)
    (hname : x.label? = some name) : (guardedAll guards selects).find? (·.label? = some name) =
      some (if guards.isEmpty then x else guarded guards x) := by
  have hlabel : ∀ y : Select, (if guards.isEmpty then y else guarded guards y).label? = y.label? := by
    intro y
    split_ifs
    · rfl
    · exact label?_guarded
  refine find?_eq_of_unique (mem_guardedAll_iff.2 ⟨x, hx, rfl⟩)
    (decide_eq_true ((hlabel x).trans hname)) fun y hy hy' => ?_
  obtain ⟨z, hz, rfl⟩ := mem_guardedAll_iff.1 hy
  have hz' : z.label? = x.label? := ((hlabel z).symm.trans (of_decide_eq_true hy')).trans hname.symm
  rw [List.inj_on_of_nodup_map hn hz hx hz']

/-- A reference to a column stands for the condition that the column was made for. -/
theorem eval_groupAt? {db : Database} {e : Assignment} {column : Column} {name : String}
    (hI : s.Independent)
    (hinj : ∀ u ∈ s.active, ∀ v ∈ s.active, subqueryName supply u = subqueryName supply v → u = v)
    (hnumbered : Numbered columns) (hunit : column.unit ∈ s.active) (hcolumn : column ∈ columns)
    (hname : column.select.label? = some name) :
    ∃ c, groupAt? (lifted s top columns supply tables) (subqueryName supply column.unit) name =
        some c ∧ c.eval db e = (column.select.original column.unit 0).eval db e := by
  have hselect : column.select ∈ selectsOf column.unit columns :=
    List.mem_map.2 ⟨column, List.mem_filter.2 ⟨hcolumn, decide_eq_true rfl⟩, rfl⟩
  have hrewritten : isRewritten columns column.unit = true := by
    simpa [isRewritten] using List.ne_nil_of_mem hselect
  obtain ⟨j, hj⟩ := Option.isSome_iff_exists.1 (hI.collection _ hunit)
  have hfind : (subqueryOf s top columns column.unit j tables).selects.find?
      (·.label? = some name) = _ :=
    find?_guardedAll (List.pairwise_map.2 hnumbered.pairwise) hselect hname
  refine ⟨_, by
    rw [groupAt?, find?_lifted hinj hunit hj hrewritten]
    simp only [liftedOf, Option.bind_eq_bind, Option.bind_some, hfind]
    rfl, ?_⟩
  split_ifs with hnil
  · rw [List.isEmpty_iff.1 hnil, List.length_nil]
  · exact eval_original_guarded

/-! ### Columns and guards -/

/-- The columns of all lateral tables are the columns of the chosen collections. -/
theorem flatMap_references_lifted (hI : s.Independent)
    (hlabel : ∀ column ∈ columns, column.select.label?.isSome) :
    (lifted s top columns supply tables).flatMap Lifted.references =
      s.active.flatMap fun u =>
        (columns.filter (·.unit = u)).map (Column.reference (aliasOf s supply)) := by
  have step : ∀ units ⊆ s.active, (units.filterMap (lifted? s top columns supply tables)).flatMap
      Lifted.references = units.flatMap fun u =>
        (columns.filter (·.unit = u)).map (Column.reference (aliasOf s supply)) := by
    intro units hsub
    induction units with
    | nil => rfl
    | cons u units ih =>
      obtain ⟨hu, hsub⟩ := List.cons_subset.1 hsub
      obtain ⟨j, hj⟩ := Option.isSome_iff_exists.1 (hI.collection u hu)
      rw [List.flatMap_cons, ← ih hsub]
      by_cases hr : isRewritten columns u = true
      · have hl : lifted? s top columns supply tables u =
            some (liftedOf s top columns supply tables u j) := by
          simp [lifted?, hj, hr]
        rw [List.filterMap_cons_some hl, List.flatMap_cons,
          references_liftedOf hlabel (aliasOf_of_mem hu)]
      · have hl : lifted? s top columns supply tables u = none := by
          simp [lifted?, hj, hr]
        -- a collection that is not rewritten has no columns
        have hnone : columns.filter (·.unit = u) = [] := by
          simpa [isRewritten, selectsOf] using hr
        rw [List.filterMap_cons_none hl, hnone, List.map_nil, List.nil_append]
  exact step s.active (List.Subset.refl _)

/-- No column is there twice. -/
theorem nodup_references_lifted (hI : s.Independent)
    (hinj : ∀ u ∈ s.active, ∀ v ∈ s.active, subqueryName supply u = subqueryName supply v → u = v)
    (hnumbered : Numbered columns) :
    ((lifted s top columns supply tables).flatMap Lifted.references).Nodup := by
  have hfst : ∀ (l : Lifted) (x : String × String), x ∈ l.references → x.1 = l.lateral := by
    intro l x hx
    obtain ⟨label, -, hlabel⟩ := List.mem_filterMap.1 hx
    obtain ⟨name, -, rfl⟩ := Option.map_eq_some_iff.1 hlabel
    rfl
  refine List.nodup_flatMap.2 ⟨fun l hl => ?_, ?_⟩
  · obtain ⟨u, -, j, -, -, rfl⟩ := mem_lifted_iff.1 hl
    have hlabels : ((liftedOf s top columns supply tables u j).query.selects.map
        Select.label?).Nodup := by
      show ((guardedAll _ _).map _).Nodup
      rw [map_label?_guardedAll]
      exact List.pairwise_map.2 hnumbered.pairwise
    refine hlabels.filterMap fun x y z hz hz' => ?_
    obtain ⟨n, rfl, rfl⟩ := Option.map_eq_some_iff.1 hz
    obtain ⟨n', rfl, he⟩ := Option.map_eq_some_iff.1 hz'
    rw [(Prod.mk.inj he).2]
  · refine (List.pairwise_map.1 (nodup_map_lateral hI hinj)).imp fun {l l'} hne x hx hx' => hne ?_
    exact (hfst l x hx).symm.trans (hfst l' x hx')

/-- A guard is a condition that was not asked for and reads a table below the collection. -/
theorem guardsOf_eq_filter (hF : s.tree.IsForest) (hdiv : Divisible s top) (hu : u ∈ s.active) :
    guardsOf s top u = top.filter fun c =>
      c.isPruneable && c.aliases.any fun a => u ∈ s.tree.above a := by
  refine List.filter_congr fun c hc => Bool.eq_iff_iff.2 ?_
  have hmem : u ∈ (s.units c).1 ↔ ∃ a ∈ c.aliases, u ∈ s.tree.above a := by
    rw [Scope.mem_units_iff]
    refine exists_congr fun a => and_congr_right fun _ => ?_
    rw [Scope.unit?_eq_some_iff hdiv.independent hF, and_iff_right hu]
  simp only [isGuard, Bool.and_eq_true, decide_eq_true_eq, List.any_eq_true, ← hmem]
  constructor
  · rintro ⟨⟨hp, -⟩, he⟩
    exact ⟨hp, by simp [he]⟩
  · rintro ⟨hp, hu⟩
    -- it reads one collection at most
    have hone : (s.units c).1.length = 1 :=
      le_antisymm (hdiv.single c hc hp) (List.length_pos_of_mem hu)
    obtain ⟨v, hv⟩ := List.length_eq_one_iff.1 hone
    rw [hv, List.mem_singleton] at hu
    exact ⟨⟨hp, hone⟩, by rw [hv, hu]⟩

/-- The guards stand in front of the other conditions of a column. -/
theorem prefix_of_mem_guardedAll {guards : List Condition} {selects : List Select} {g : Group}
    {name : String} (hg : .boolOr g name ∈ guardedAll guards selects) : guards <+: g.conditions := by
  obtain ⟨y, -, hy⟩ := mem_guardedAll_iff.1 hg
  split_ifs at hy with hnil
  · rw [List.isEmpty_iff.1 hnil]
    exact List.nil_prefix
  · cases y with
    | boolOr g' name' =>
      obtain ⟨op, cs⟩ := g'
      cases op with
      | and | or =>
        obtain ⟨rfl, -⟩ := Select.boolOr.inj hy
        exact List.prefix_append _ _
    | _ => cases hy

/-- A condition at the top is asked for or guards one of the collections. -/
theorem mem_top_iff {c : Condition} :
    c ∈ top ↔ c ∈ askedOf s top ++ s.active.flatMap (guardsOf s top) := by
  rw [List.mem_append, List.mem_flatMap]
  constructor
  · exact mem_askedOf_or_guard
  · rintro (hc | ⟨u, -, hc⟩)
    · exact (List.mem_filter.1 hc).1
    · exact (mem_guardsOf_iff.1 hc).1

/-- A guard stays outside, or guards the columns of a lateral table. -/
theorem mem_guards_iff (hI : s.Independent) {c : Condition} :
    c ∈ s.active.flatMap (guardsOf s top) ↔
      c ∈ (s.active.flatMap fun u => if isRewritten columns u then [] else guardsOf s top u) ++
        (lifted s top columns supply tables).flatMap Lifted.guards := by
  simp only [List.mem_append, List.mem_flatMap, mem_lifted_iff]
  constructor
  · rintro ⟨u, hu, hc⟩
    by_cases hr : isRewritten columns u = true
    · obtain ⟨j, hj⟩ := Option.isSome_iff_exists.1 (hI.collection u hu)
      exact .inr ⟨_, ⟨u, hu, j, hj, hr, rfl⟩, hc⟩
    · exact .inl ⟨u, hu, by rwa [if_neg hr]⟩
  · rintro (⟨u, hu, hc⟩ | ⟨l, ⟨u, hu, j, -, -, rfl⟩, hc⟩)
    · split_ifs at hc
      · cases hc
      · exact ⟨u, hu, hc⟩
    · exact ⟨u, hu, hc⟩

end

/-! ### The rewritten plan -/

section

variable {p : Plan} {joins : List Join} {s : Scope} {supply : AliasSupply}
  {outlines : List Outline} {new : List Column}

/-- Every column is that of a chosen collection and has a name. -/
theorem of_mem_divided {column : Column} {top : List Condition}
    (h : column ∈ (divided s supply top).2) :
    column.unit ∈ s.active ∧ column.select.label?.isSome := by
  obtain ⟨c, name, hlifts, hselect⟩ := exists_lifts_of_mem_divided h
  rw [hselect, label?_columnOf]
  exact ⟨mem_active_of_lifts hlifts, rfl⟩

/-- The conditions asked for have the value of what is left of them, with the groups that references
stand for. -/
theorem combine_askedOf (hI : s.Independent)
    (hinj : ∀ u ∈ s.active, ∀ v ∈ s.active, subqueryName supply u = subqueryName supply v → u = v)
    {top : List Condition} {tables : List Table} {db : Database} {e : Assignment}
    (h : Outlines (aliasOf s supply) (regroup s .and (askedOf s top) [] (askedOf s top))
      (divided s supply top).1 (divided s supply top).2 outlines) :
    Connective.combine .and ((askedOf s top).map (·.eval db e)) =
      Connective.combine .and ((outlines.map (restored (lifted s top (divided s supply top).2
        supply tables))).map (·.eval db e)) := by
  set ls := lifted s top (divided s supply top).2 supply tables
  have hgroup : ∀ column ∈ (divided s supply top).2,
      ((groupAt? ls (column.reference (aliasOf s supply)).1
        (column.reference (aliasOf s supply)).2).getD (.all [])).eval db e =
      (column.select.original column.unit 0).eval db e := fun column hcolumn => by
    obtain ⟨hunit, hlabel⟩ := of_mem_divided hcolumn
    obtain ⟨name, hname⟩ := Option.isSome_iff_exists.1 hlabel
    obtain ⟨c, hc, heval⟩ : ∃ c, groupAt? ls (subqueryName supply column.unit) name = some c ∧
        c.eval db e = (column.select.original column.unit 0).eval db e :=
      eval_groupAt? hI hinj numbered_divided hunit hcolumn hname
    simp only [Column.reference, hname, Option.getD_some, aliasOf_of_mem hunit, hc]
    exact heval
  have hvalue := h.value (f := fun lateral name => (groupAt? ls lateral name).getD (.all [])) hgroup
  rw [← Condition.eval_group, ← eval_regroup (s := s), Condition.eval_group, ← hvalue, List.map_map]
  rfl

/-- The value of conditions is the value of what they are left as, with the groups that references
stand for, and of the guards. -/
theorem combine_top (hI : s.Independent)
    (hinj : ∀ u ∈ s.active, ∀ v ∈ s.active, subqueryName supply u = subqueryName supply v → u = v)
    {top left : List Condition} {tables : List Table} {ls : List Lifted}
    (hls : ls = lifted s top (divided s supply top).2 supply tables)
    (hleft : left = s.active.flatMap fun u =>
      if isRewritten (divided s supply top).2 u then [] else guardsOf s top u)
    (h : Outlines (aliasOf s supply) (regroup s .and (askedOf s top) [] (askedOf s top))
      (divided s supply top).1 (divided s supply top).2 outlines)
    (db : Database) (e : Assignment) :
    Connective.combine .and (top.map (·.eval db e)) = Connective.combine .and
      (((outlines ++ left.map Outline.kept).map (restored ls) ++
        ls.flatMap Lifted.guards).map (·.eval db e)) := by
  have htop : ∀ v, v ∈ top.map (·.eval db e) ↔
      v ∈ (askedOf s top ++ s.active.flatMap (guardsOf s top)).map (·.eval db e) := fun v => by
    simp only [List.mem_map]
    exact exists_congr fun c => and_congr_left fun _ => mem_top_iff
  have hguards : ∀ v, v ∈ (s.active.flatMap (guardsOf s top)).map (·.eval db e) ↔
      v ∈ (left ++ ls.flatMap Lifted.guards).map (·.eval db e) := fun v => by
    simp only [List.mem_map, hleft, hls]
    exact exists_congr fun c => and_congr_left fun _ => mem_guards_iff hI
  have hkept : (outlines ++ left.map Outline.kept).map (restored ls) =
      outlines.map (restored ls) ++ left := by
    rw [List.map_append, restored, Outline.map_fill_kept]
  calc Connective.combine .and (top.map (·.eval db e))
      = Connective.combine .and [Connective.combine .and ((askedOf s top).map (·.eval db e)),
          Connective.combine .and ((s.active.flatMap (guardsOf s top)).map (·.eval db e))] := by
        rw [Connective.combine_of_mem_iff htop, List.map_append, Connective.combine_append]
    _ = Connective.combine .and
          [Connective.combine .and ((outlines.map (restored ls)).map (·.eval db e)),
          Connective.combine .and ((left ++ ls.flatMap Lifted.guards).map (·.eval db e))] := by
        rw [combine_askedOf hI hinj h, Connective.combine_of_mem_iff hguards, hls]
    _ = _ := by
        rw [← Connective.combine_append, ← List.map_append, ← List.append_assoc, ← hkept]

/-- A plan with lateral tables can be undone. -/
theorem exists_undone (hts : Table.Ordered [] p.tables) (hs : s.tree = Collections.ofPlan p joins)
    (hdiv : Divisible s p.topConditions)
    (hinj : ∀ u ∈ s.active, ∀ v ∈ s.active, subqueryName supply u = subqueryName supply v → u = v) :
    ∃ ls outlines, Undone p (lateralPlan s supply p) (Collections.ofPlan p joins) ls outlines := by
  have hI := hdiv.independent
  have hF : s.tree.IsForest := hs ▸ Plan.isForest joins hts
  set top := p.topConditions with htop
  set columns := (divided s supply top).2 with hcolumns
  obtain ⟨new, outlines, hnew, h⟩ : ∃ new outlines,
      (decompose s (aliasOf s supply) .and (askedOf s top) [] (askedOf s top) []).2 = [] ++ new ∧
      Outlines (aliasOf s supply) (regroup s .and (askedOf s top) [] (askedOf s top))
        (decompose s (aliasOf s supply) .and (askedOf s top) [] (askedOf s top) []).1 new outlines :=
    exists_outlines _ _ _
  obtain rfl : new = columns := by rw [hcolumns, divided, hnew, List.nil_append]
  set left := s.active.flatMap fun u => if isRewritten columns u then [] else guardsOf s top u
    with hleft
  have hlabel : ∀ column ∈ columns, column.select.label?.isSome := fun column hc =>
    (of_mem_divided hc).2
  refine ⟨lifted s top columns supply p.tables, outlines ++ left.map .kept,
    ⟨_, List.filter_sublist, by rw [map_table_lifted]; rfl⟩, fun l hl x hx => ?_, fun l hl => ?_,
    fun l hl g name hg => ?_, ?_, ?_, nodup_references_lifted hI hinj numbered_divided,
    fun db e => ?_⟩
  · obtain ⟨u, -, j, -, -, rfl⟩ := mem_lifted_iff.1 hl
    have hm : x.label? ∈ (guardedAll (guardsOf s top u) (selectsOf u columns)).map Select.label? :=
      List.mem_map_of_mem hx
    rw [map_label?_guardedAll] at hm
    obtain ⟨y, hy, hxy⟩ := List.mem_map.1 hm
    obtain ⟨column, hcolumn, rfl⟩ := List.mem_map.1 hy
    exact hxy ▸ hlabel column (List.mem_filter.1 hcolumn).1
  · obtain ⟨u, hu, j, -, -, rfl⟩ := mem_lifted_iff.1 hl
    rw [← hs]
    exact guardsOf_eq_filter hF hdiv hu
  · obtain ⟨u, -, j, -, -, rfl⟩ := mem_lifted_iff.1 hl
    exact prefix_of_mem_guardedAll hg
  · rw [topConditions_lateralPlan, List.map_append, h.written]
    exact congrArg _ (Outline.map_fill_kept _ left).symm
  · have hperm := (perm_flatMap_filter hI.nodup columns fun column hc =>
      (of_mem_divided hc).1).map (Column.reference (aliasOf s supply))
    rwa [List.flatMap_append, h.references, Outline.flatMap_references_kept, List.append_nil,
      flatMap_references_lifted hI hlabel, ← List.map_flatMap]
  · rw [Plan.evalTop_eq_combine]
    exact combine_top hI hinj rfl hleft h db e

end

end Lateral

namespace Plan

open Lateral

variable {p : Plan} {joins : List Join} {force : Bool} {threshold : Nat}
  {supply supply' : AliasSupply} {r : Resolved}

/-- Where the names of the subqueries are new and differ, the rewritten plan can be undone. -/
theorem undone_toLateral (hts : Table.Ordered [] p.tables)
    (hnew : ∀ u ∈ (p.lateralScope force threshold joins).active,
      subqueryName supply u ∉ p.tables.map Table.aliasName)
    (hinj : ∀ u ∈ (p.lateralScope force threshold joins).active,
      ∀ v ∈ (p.lateralScope force threshold joins).active,
        subqueryName supply u = subqueryName supply v → u = v)
    (h : p.toLateral force threshold joins supply = .ok (r, supply')) :
    ∃ ls outlines, Undone p r.plan (Collections.ofPlan p joins) ls outlines := by
  obtain ⟨hs, hdiv⟩ : (p.lateralScope force threshold joins).tree = Collections.ofPlan p joins ∧
      Divisible (p.lateralScope force threshold joins) p.topConditions := divisible_of_ordered hts
  rcases toLateral_cases_of_ordered hts hnew h with ⟨-, hr⟩ | hr
  · -- without eligible collections all conditions are kept
    rw [hr]
    refine ⟨[], p.topConditions.map .kept, ⟨p.tables, List.Sublist.refl _, by simp⟩, nofun, nofun,
      nofun, (Outline.map_fill_kept _ _).symm, ?_, List.nodup_nil, fun db e => ?_⟩
    · rw [Outline.flatMap_references_kept]
      exact .refl _
    · rw [evalTop_eq_combine, restored, Outline.map_fill_kept, List.flatMap_nil, List.append_nil]
  · rw [hr]
    exact exists_undone hts hs hdiv hinj

/-- The books of an author become a lateral table, and back. -/
theorem undone_toLateral_books : Table.Ordered [] Bookshelf.found.tables ∧
    ∃ r supply ls outlines, Bookshelf.found.toLateral true 1 [Bookshelf.books]
        (.ofPlan Bookshelf.found) = .ok (r, supply) ∧ r.plan.hasAlias "_b1" = true ∧
      Undone Bookshelf.found r.plan (Collections.ofPlan Bookshelf.found [Bookshelf.books]) ls
        outlines := by
  have hordered : Table.Ordered [] Bookshelf.found.tables :=
    JoinTree.ordered_tables (T := Bookshelf.tree) rfl
  have hrun : (Bookshelf.found.toLateral true 1 [Bookshelf.books] (.ofPlan Bookshelf.found)
      ).toOption.any (·.1.plan.hasAlias "_b1") = true := by decide +kernel
  obtain ⟨x, h, hthere⟩ := exists_of_any_toOption hrun
  obtain ⟨ls, outlines, hundone⟩ := undone_toLateral hordered Bookshelf.fresh_found.tables
    Bookshelf.fresh_found.injective h
  exact ⟨hordered, x.1, x.2, ls, outlines, h, hthere, hundone⟩

/-- The subqueries of the books and of the edited books are both called `_b1`, so a reference to
`_b1._c0` stands for either of two columns. -/
theorem not_undone_toLateral_involved : Table.Ordered [] Bookshelf.involved.tables ∧
    (∀ j ∈ [Bookshelf.books, Bookshelf.edited], Table.join j ∈ Bookshelf.involved.tables) ∧
    ∃ r supply, Bookshelf.involved.toLateral true 1 [Bookshelf.books, Bookshelf.edited]
        (.ofPlan Bookshelf.involved) = .ok (r, supply) ∧
      ∀ ls outlines, ¬ Undone Bookshelf.involved r.plan
        (Collections.ofPlan Bookshelf.involved [Bookshelf.books, Bookshelf.edited]) ls outlines := by
  refine ⟨JoinTree.ordered_tables (T := Bookshelf.tree) rfl, ?_, ?_⟩
  · simp [Bookshelf.involved, Bookshelf.authors, Bookshelf.tree, JoinTree.tables]
  have hrun : (Bookshelf.involved.toLateral true 1 [Bookshelf.books, Bookshelf.edited]
      (.ofPlan Bookshelf.involved)).toOption.any (fun x =>
        x.1.plan.tables.flatMap Table.references = [("_b1", "_c0"), ("_b1", "_c0")]) = true := by
    decide +kernel
  obtain ⟨x, h, hrun⟩ := exists_of_any_toOption hrun
  refine ⟨x.1, x.2, h, fun ls outlines hundone => ?_⟩
  obtain ⟨kept, hkept, htables⟩ := hundone.tables
  have hnone : kept.flatMap Table.references = [] := by
    rw [List.flatMap_eq_nil_iff]
    intro t ht
    obtain rfl | ⟨j, -, rfl⟩ := Bookshelf.tree.mem_tables_iff.1 (hkept.subset ht)
    · rfl
    · rfl
  have hrefs : ls.flatMap Lifted.references = [("_b1", "_c0"), ("_b1", "_c0")] := by
    have hall := of_decide_eq_true hrun
    rw [htables, List.flatMap_append, hnone, List.nil_append, List.flatMap_map] at hall
    exact hall
  have hdistinct := hundone.distinct
  rw [hrefs] at hdistinct
  revert hdistinct
  decide

end Plan

end EntityQuery
