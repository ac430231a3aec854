import EntityQuery.Schema.Lookup
import Mathlib.Data.Fintype.EquivFin
import Mathlib.Data.List.Perm.Subperm
import Mathlib.Logic.Relation

/-!
# Lookups that end

The lookup of a field goes from an entity to its single-table base, from there to the base of that,
and so on until the name is found or there is no such base.  A schema makes sure that the base is
there, not that the way along the bases comes to an end.

* `Schema.Extends`: an entity and its single-table base;
* `Schema.LooksUp`: the outcome of a lookup, with no bound on the number of bases;
* `Schema.looksUp_iff`: the lookups on an entity end exactly if no entity on the way along its bases is
  a base of itself, and `Schema.resolve` is the outcome of each lookup that ends;
* `Schema.not_looksUp_recurring`: a schema in which a lookup does not end.
-/

namespace EntityQuery.Schema

/-- The single-table base of an entity. -/
def Extends (s : Schema) (e b : Entity) : Prop :=
  ∃ base column value, e.inheritance = .singleTable (some base) column value ∧ s.entity base = .ok b

/-- The lookup of the name on an entity goes on to its base. -/
def Asks (s : Schema) (name : String) (e b : Entity) : Prop :=
  name ≠ "id" ∧ e.field? name = none ∧ s.Extends e b

/-- The outcome of a lookup that does not go on to a single-table base. -/
inductive Answers (s : Schema) (name : String) (e : Entity) : Except SchemaError FieldSite → Prop
  | id (hid : name = "id") : Answers s name e (.ok ⟨name, .primaryKey, e, none⟩)
  | declared {f : Field} (hid : name ≠ "id") (hf : e.field? name = some f) :
      Answers s name e (.ok ⟨name, f.kind, e, none⟩)
  | onBases {bases subs : List String} (hid : name ≠ "id") (hf : e.field? name = none)
      (hi : e.inheritance = .classTable bases subs) :
      Answers s name e (s.resolveOnBases e name 0 bases)
  | unknownBase {base column : String} {value : Option Int64} {err : SchemaError}
      (hid : name ≠ "id") (hf : e.field? name = none)
      (hi : e.inheritance = .singleTable (some base) column value)
      (hb : s.entity base = .error err) : Answers s name e (.error err)
  | nowhere (hid : name ≠ "id") (hf : e.field? name = none)
      (hbases : ∀ bases subs, e.inheritance ≠ .classTable bases subs)
      (hbase : ∀ base column value, e.inheritance ≠ .singleTable (some base) column value) :
      Answers s name e (.error (.unknownField e.typeName name))

/-- The outcome of the lookup of a name on an entity. -/
inductive LooksUp (s : Schema) (name : String) : Entity → Except SchemaError FieldSite → Prop
  | here {e : Entity} {r : Except SchemaError FieldSite} (h : s.Answers name e r) :
      LooksUp s name e r
  | onBase {e b : Entity} {r : Except SchemaError FieldSite} (ha : s.Asks name e b)
      (h : LooksUp s name b r) : LooksUp s name e (inSharedTable e name r)

section

variable {s : Schema} {name : String} {e b : Entity} {r r' : Except SchemaError FieldSite} {n : Nat}

/-! ### One step of a lookup -/

theorem Extends.unique {b' : Entity} (h : s.Extends e b) (h' : s.Extends e b') : b = b' := by
  obtain ⟨base, column, value, hi, hb⟩ := h
  obtain ⟨base', column', value', hi', hb'⟩ := h'
  rw [hi] at hi'
  cases hi'
  exact Except.ok.inj (hb.symm.trans hb')

theorem Extends.mem (h : s.Extends e b) : b ∈ s.entities := by
  obtain ⟨base, -, -, -, hb⟩ := h
  exact mem_of_entity hb

theorem Asks.mem (h : s.Asks name e b) : b ∈ s.entities := h.2.2.mem

theorem Answers.not_asks (h : s.Answers name e r) : ¬ s.Asks name e b := by
  rintro ⟨hid, hf, base, column, value, hi, hb⟩
  cases h with
  | id hid' => exact hid hid'
  | declared _ hf' => simp [hf] at hf'
  | onBases _ _ hi' => simp [hi] at hi'
  | unknownBase _ _ hi' hb' =>
    rw [hi] at hi'
    cases hi'
    cases hb.symm.trans hb'
  | nowhere _ _ _ hbase => exact hbase base column value hi

theorem Answers.unique (h : s.Answers name e r) (h' : s.Answers name e r') : r = r' := by
  cases h <;> cases h' <;> simp_all

/-- A lookup has an answer or goes on to a base, and needs no bound for an answer. -/
theorem answers_resolveWithin (he : e ∈ s.entities) (h : ∀ b, ¬ s.Asks name e b) :
    s.Answers name e (s.resolveWithin n e name) := by
  unfold resolveWithin
  split_ifs with hid
  · exact .id hid
  cases hf : e.field? name with
  | some f => exact .declared hid hf
  | none =>
    cases hi : e.inheritance with
    | none => exact .nowhere hid hf (by simp [hi]) (by simp [hi])
    | classTable bases subs => exact .onBases hid hf hi
    | singleTable base column value =>
      cases base with
      | none => exact .nowhere hid hf (by simp [hi]) (by simp [hi])
      | some base =>
        -- the base is there, so the lookup goes on to it
        have hr : ("inheritance", base) ∈ e.references :=
          List.mem_append_right _ (List.mem_map_of_mem (by simp [Entity.relatives, hi]))
        obtain ⟨b, hb⟩ := exists_entity_of_reference he hr
        exact absurd ⟨hid, hf, base, column, value, hi, hb⟩ (h b)

theorem resolveWithin_succ (ha : s.Asks name e b) :
    s.resolveWithin (n + 1) e name = inSharedTable e name (s.resolveWithin n b name) := by
  obtain ⟨hid, hf, base, column, value, hi, hb⟩ := ha
  rw [resolveWithin, if_neg hid, hf, hi]
  simp only [hb]
  rfl

/-! ### The way along the bases -/

namespace LooksUp

theorem of_asks (h : s.LooksUp name e r) (ha : s.Asks name e b) :
    ∃ r', s.LooksUp name b r' ∧ r = inSharedTable e name r' := by
  cases h with
  | here h => exact absurd ha h.not_asks
  | onBase ha' h => exact ⟨_, ha.2.2.unique ha'.2.2 ▸ h, rfl⟩

/-- A lookup has one outcome. -/
theorem unique (h : s.LooksUp name e r) (h' : s.LooksUp name e r') : r = r' := by
  induction h generalizing r' with
  | here h =>
    cases h' with
    | here h' => exact h.unique h'
    | onBase ha => exact absurd ha h.not_asks
  | onBase ha _ ih =>
    obtain ⟨_, hb, rfl⟩ := h'.of_asks ha
    rw [ih hb]

/-- A lookup that ends also ends on the bases that it comes to. -/
theorem of_reaches (h : s.LooksUp name e r) (hb : Relation.ReflTransGen (s.Asks name) e b) :
    ∃ r', s.LooksUp name b r' := by
  induction hb with
  | refl => exact ⟨r, h⟩
  | tail _ ha ih =>
    obtain ⟨_, h⟩ := ih
    obtain ⟨r', h, -⟩ := h.of_asks ha
    exact ⟨r', h⟩

/-- A lookup that ends does not come back. -/
theorem not_transGen (h : s.LooksUp name e r) : ¬ Relation.TransGen (s.Asks name) e e := by
  induction h with
  | here h =>
    intro hcycle
    obtain ⟨b, ha, -⟩ := Relation.TransGen.head'_iff.1 hcycle
    exact h.not_asks ha
  | onBase ha _ ih =>
    intro hcycle
    obtain ⟨b, ha', hback⟩ := Relation.TransGen.head'_iff.1 hcycle
    obtain rfl := ha.2.2.unique ha'.2.2
    exact ih (.tail' hback ha)

end LooksUp

/-- A lookup has an outcome within `n` steps, or comes to `n + 1` bases. -/
theorem looksUp_or_exists_isChain (he : e ∈ s.entities) :
    s.LooksUp name e (s.resolveWithin n e name) ∨
      ∃ path : List Entity, path.length = n + 1 ∧ List.IsChain (s.Asks name) (e :: path) := by
  induction n generalizing e with
  | zero =>
    by_cases h : ∃ b, s.Asks name e b
    · obtain ⟨b, ha⟩ := h
      exact .inr ⟨[b], rfl, .cons_cons ha (.singleton b)⟩
    · exact .inl (.here (answers_resolveWithin he fun b ha => h ⟨b, ha⟩))
  | succ n ih =>
    by_cases h : ∃ b, s.Asks name e b
    · obtain ⟨b, ha⟩ := h
      rcases ih ha.mem with hb | ⟨path, hlength, hchain⟩
      · rw [resolveWithin_succ ha]
        exact .inl (.onBase ha hb)
      · exact .inr ⟨b :: path, by rw [List.length_cons, hlength], .cons_cons ha hchain⟩
    · exact .inl (.here (answers_resolveWithin he fun b ha => h ⟨b, ha⟩))

/-- A way that does not come back is no longer than the list that its steps lead to. -/
theorem length_le_of_isChain {α : Type} {r : α → α → Prop} {xs path : List α} {a : α}
    (hmem : ∀ {x y}, r x y → y ∈ xs)
    (hacyclic : ∀ x, Relation.ReflTransGen r a x → ¬ Relation.TransGen r x x)
    (h : List.IsChain r (a :: path)) : path.length ≤ xs.length := by
  have hpair : (a :: path).Pairwise (Relation.TransGen r) :=
    List.isChain_iff_pairwise.1 (h.imp fun _ _ => .single)
  obtain ⟨hfrom, hpath⟩ := List.pairwise_cons.1 hpair
  have hnodup : path.Nodup := hpath.imp_of_mem fun {x y} hx _ hxy he =>
    hacyclic x (hfrom x hx).to_reflTransGen (by rwa [← he] at hxy)
  refine (List.subperm_of_subset hnodup fun x hx => ?_).length_le
  obtain ⟨y, -, hy⟩ := Relation.TransGen.tail'_iff.1 (hfrom x hx)
  exact hmem hy

/-- Where no base is asked twice, there are enough entities for a lookup to end. -/
theorem looksUp_resolve (he : e ∈ s.entities)
    (hacyclic : ∀ b, Relation.ReflTransGen (s.Asks name) e b →
      ¬ Relation.TransGen (s.Asks name) b b) : s.LooksUp name e (s.resolve e name) := by
  rcases looksUp_or_exists_isChain (n := s.entities.length) he with h | ⟨path, hlength, hchain⟩
  · exact h
  · have hle := length_le_of_isChain (fun ha => Asks.mem ha) hacyclic hchain
    omega

/-! ### Names that are not there -/

/-- Some name is not that of a field. -/
theorem exists_missing (es : List Entity) :
    ∃ name, name ≠ "id" ∧ ∀ e ∈ es, e.field? name = none := by
  have : Infinite String := Infinite.of_injective String.ofList fun _ _ h => String.ofList_inj.1 h
  obtain ⟨name, hname⟩ := Infinite.exists_notMem_finset
    ("id" :: es.flatMap fun e => e.fields.map (·.name)).toFinset
  rw [List.mem_toFinset, List.mem_cons, List.mem_flatMap, not_or, not_exists] at hname
  refine ⟨name, hname.1, fun e he => List.find?_eq_none.2 fun f hf hfound => hname.2 e ⟨he, ?_⟩⟩
  exact List.mem_map.2 ⟨f, hf, of_decide_eq_true hfound⟩

/-- The lookup of a name that is not there goes all the way along the bases. -/
theorem transGen_asks (hid : name ≠ "id") (hmissing : ∀ e ∈ s.entities, e.field? name = none)
    (he : e ∈ s.entities) (h : Relation.TransGen s.Extends e b) :
    Relation.TransGen (s.Asks name) e b := by
  induction h with
  | single hb => exact .single ⟨hid, hmissing _ he, hb⟩
  | tail hb hbase ih =>
    obtain ⟨_, -, hmem⟩ := Relation.TransGen.tail'_iff.1 hb
    exact ih.tail ⟨hid, hmissing _ hmem.mem, hbase⟩

end

/-- The lookups on an entity end, whatever the name, exactly if no entity on the way along its bases
is a base of itself.  The outcome of a lookup that ends is the one that is resolved. -/
theorem looksUp_iff (s : Schema) {e : Entity} (he : e ∈ s.entities) :
    ((∀ name, ∃ r, s.LooksUp name e r) ↔
      ∀ b, Relation.ReflTransGen s.Extends e b → ¬ Relation.TransGen s.Extends b b) ∧
    ∀ name r, s.LooksUp name e r → s.resolve e name = r := by
  refine ⟨⟨fun hends b hb hcycle => ?_, fun hacyclic name => ⟨_, looksUp_resolve he ?_⟩⟩,
    fun name r h => ?_⟩
  · obtain ⟨name, hid, hmissing⟩ := exists_missing s.entities
    obtain ⟨r, h⟩ := hends name
    have hreach : Relation.ReflTransGen (s.Asks name) e b := by
      rcases Relation.reflTransGen_iff_eq_or_transGen.1 hb with rfl | hb
      · exact .refl
      · exact (transGen_asks hid hmissing he hb).to_reflTransGen
    obtain ⟨_, hb'⟩ := h.of_reaches hreach
    have hmem : b ∈ s.entities := by
      obtain ⟨_, -, hlast⟩ := Relation.TransGen.tail'_iff.1 hcycle
      exact hlast.mem
    exact hb'.not_transGen (transGen_asks hid hmissing hmem hcycle)
  · exact fun b hb hcycle => hacyclic b (Relation.ReflTransGen.mono (fun _ _ ha => ha.2.2) _ _ hb)
      (Relation.TransGen.mono (fun _ _ ha => ha.2.2) _ _ hcycle)
  · refine (looksUp_resolve he fun b hb hcycle => ?_).unique h
    obtain ⟨_, hb'⟩ := h.of_reaches hb
    exact hb'.not_transGen hcycle

/-- An entity of the table of nodes, without fields. -/
def node (typeName : String) (base : Option String) : Entity where
  typeName := typeName
  tableName := "nodes"
  tag := "n"
  idType := .int
  idDbType := "int"
  fields := []
  softDelete := false
  softDeleteColumn := none
  inheritance := .singleTable base "kind" none

/-- The lookups on buds, which are leaves, which are nodes. -/
theorem looksUp_iff_bud : ∃ s, ofEntities [node "Node" none, node "Leaf" (some "Node"),
      node "Bud" (some "Leaf")] = .ok s ∧ node "Bud" (some "Leaf") ∈ s.entities ∧
    ((∀ name, ∃ r, s.LooksUp name (node "Bud" (some "Leaf")) r) ↔
      ∀ b, Relation.ReflTransGen s.Extends (node "Bud" (some "Leaf")) b →
        ¬ Relation.TransGen s.Extends b b) ∧
    ∀ name r, s.LooksUp name (node "Bud" (some "Leaf")) r →
      s.resolve (node "Bud" (some "Leaf")) name = r := by
  let s : Schema :=
    ⟨[node "Node" none, node "Leaf" (some "Node"), node "Bud" (some "Leaf")], by decide⟩
  have hmem : node "Bud" (some "Leaf") ∈ s.entities := by decide
  exact ⟨s, rfl, hmem, looksUp_iff s hmem⟩

/-- An entity may be its own base, and a name that is not there is looked up on it without end. -/
theorem not_looksUp_recurring : ∃ s, ofEntities [node "Node" (some "Node")] = .ok s ∧
    node "Node" (some "Node") ∈ s.entities ∧
    s.Extends (node "Node" (some "Node")) (node "Node" (some "Node")) ∧
    ¬ ∃ r, s.LooksUp "title" (node "Node" (some "Node")) r := by
  let s : Schema := ⟨[node "Node" (some "Node")], by decide⟩
  have hbase : s.Extends (node "Node" (some "Node")) (node "Node" (some "Node")) :=
    ⟨"Node", "kind", none, rfl, rfl⟩
  refine ⟨s, rfl, List.mem_singleton_self _, hbase, fun ⟨r, h⟩ => h.not_transGen ?_⟩
  exact .single ⟨by decide, rfl, hbase⟩

end EntityQuery.Schema
