import EntityQuery.Plan.Document
import EntityQuery.Proofs.Document.Embedding

/-!
# Plans are read back

What is written of a plan is read back as the plan, from JSON values and from settled ones.

* `Value.isFinite`, `Plan.values`: a value without infinite doubles, and the values of a plan;
* `Document.ReadsBack`: a value is read from what is written of it, in every format;
* `Value.readsBack`, `Predicate.readsBack`, `Plan.readsBack`: by recursion over the parts;
* `Plan.decode_toJson`: the plan of the document of a plan.
-/

namespace EntityQuery

open Document

/-! ### The values of a plan -/

mutual

/-- No double in the value is infinite or undefined. -/
def Value.isFinite : Value → Bool
  | .float x => x.isFinite
  | .array items => Value.areFinite items
  | _ => true

/-- No double in the values is infinite or undefined. -/
def Value.areFinite : List Value → Bool
  | [] => true
  | v :: rest => v.isFinite && Value.areFinite rest

end

/-- The values that a column is compared with. -/
def Predicate.operands : Predicate → List Value
  | .compare _ v => [v]
  | .isIn vs => vs
  | .notIn vs => vs
  | .between low high => [low, high]
  | .containment _ vs => vs
  | _ => []

mutual

/-- The values in a plan and in the plans inside it. -/
def Plan.values : Plan → List Value
  | ⟨selects, tables, condition, _, _, ctes⟩ =>
    Select.valuesOf selects ++ Table.valuesOf tables ++ Group.valuesOf condition ++
      (ctes.getD []).flatMap Cte.bindings

/-- The values in result columns. -/
def Select.valuesOf : List Select → List Value
  | [] => []
  | s :: rest => s.values ++ Select.valuesOf rest

/-- The values in a result column. -/
def Select.values : Select → List Value
  | .boolOr condition _ => condition.values
  | _ => []

/-- The values in tables. -/
def Table.valuesOf : List Table → List Value
  | [] => []
  | t :: rest => t.values ++ Table.valuesOf rest

/-- The values in a table. -/
def Table.values : Table → List Value
  | .lateral _ _ query => query.values
  | _ => []

/-- The values in the condition of a plan. -/
def Group.valuesOf : Option Group → List Value
  | none => []
  | some g => g.values

/-- The values in a group. -/
def Group.values : Group → List Value
  | ⟨_, conditions⟩ => Condition.valuesOf conditions

/-- The values in conditions. -/
def Condition.valuesOf : List Condition → List Value
  | [] => []
  | c :: rest => c.values ++ Condition.valuesOf rest

/-- The values in a condition. -/
def Condition.values : Condition → List Value
  | .group g => g.values
  | .column c => c.predicate.operands
  | .raw r => r.bindings
  | .existence query _ _ => query.values

end

/-! ### Reading back -/

namespace Document

/-- The value is read from what is written of it, whichever format that is embedded in, when
there are enough steps for the depth. -/
def ReadsBack (write : α → Json) (read : ∀ {δ : Type} [Document δ], Nat → δ → Option α)
    (steps : Nat → Nat) (x : α) : Prop :=
  ∀ {δ : Type} [Document δ] {embed : Json → δ}, Embeds δ embed →
    ∀ n, steps (write x).depth ≤ n → read n (embed (write x)) = some x

variable {δ : Type} [Document δ] {embed : Json → δ} {write : α → Json}
  {read : ∀ {δ : Type} [Document δ], Nat → δ → Option α} {steps : Nat → Nat}

/-- The items of an array are read back when each of them is. -/
theorem ReadsBack.list (E : Embeds δ embed) {xs : List α} {n : Nat}
    (h : ∀ x ∈ xs, ReadsBack write read steps x)
    (hn : ∀ d ≤ Json.itemsDepth (xs.map write), steps d ≤ n) :
    list? (read n) (embed (.arr (xs.map write))) = some xs :=
  E.list?_arr fun x hx => h x hx E n (hn _ (Json.depth_le_itemsDepth (List.mem_map_of_mem hx)))

end Document

/-- The value is an object without a member of that name. -/
def Json.Lacks (tag : String) (j : Json) : Prop := ∃ ms, j = .obj ms ∧ tag ∉ ms.map Prod.fst

namespace Json.Lacks

variable {tag : String} {j : Json}

theorem depth_tag (h : j.Lacks tag) (name : String) : (j.tag tag name).depth = j.depth := by
  obtain ⟨ms, rfl, -⟩ := h
  simp [Json.tag, depth, membersDepth]

/-- Reading the tag undoes tagging, but settles the value. -/
theorem tagged?_tag (h : j.Lacks tag) {δ : Type} [Document δ] {embed : Json → δ}
    (E : Embeds δ embed) (name : String) (names : List String) :
    tagged? tag names (embed (j.tag tag name)) = some (name, .ofJson j) := by
  obtain ⟨ms, rfl, htag⟩ := h
  exact E.tagged?_obj name htag names

end Json.Lacks

namespace Value

theorem toJsons_eq_map (vs : List Value) : toJsons vs = vs.map toJson := by
  induction vs with
  | nil => rfl
  | cons v vs ih => rw [toJsons, ih, List.map_cons]

theorem float?_ofJson_ofFloat {x : Float} (h : x.isFinite = true) :
    float? (.ofJson (.ofFloat x)) = some x := by
  rw [Json.ofFloat, if_pos h]
  rfl

mutual

theorem readsBack (v : Value) (hv : v.isFinite = true) :
    ReadsBack toJson decodeWithin? (· + 1) v := by
  intro δ _ embed E n hn
  obtain _ | n := n
  · exact absurd hn (Nat.not_succ_le_zero _)
  cases v with
  | array items =>
    have hitems : list? (decodeWithin? n) (embed (.arr (toJsons items))) = some items := by
      rw [toJsons_eq_map]
      refine ReadsBack.list E (forall_readsBack items hv) fun d hd => ?_
      simp only [toJson, toJsons_eq_map, Json.depth, Json.membersDepth] at hn
      omega
    simp [toJson, decodeWithin?, E.variant?_obj, hitems]
  | float x =>
    simp [toJson, decodeWithin?, E.variant?_obj, E.settled?, float?_ofJson_ofFloat hv]
  | null => simp [toJson, decodeWithin?, E.variant?_str, E.name?_str]
  | bool b => simp [toJson, decodeWithin?, E.variant?_obj, E.bool?]
  | int i => simp [toJson, decodeWithin?, E.variant?_obj, E.int64?]
  | text s => simp [toJson, decodeWithin?, E.variant?_obj, E.text?]
  | json j => simp [toJson, decodeWithin?, E.variant?_obj, E.settled?, Settled.json?_ofJson]
  | newEntity name => simp [toJson, decodeWithin?, E.variant?_obj, E.text?]

theorem forall_readsBack (vs : List Value) (hvs : areFinite vs = true) :
    ∀ v ∈ vs, ReadsBack toJson decodeWithin? (· + 1) v := by
  cases vs with
  | nil => exact fun _ => (nomatch ·)
  | cons v vs =>
    obtain ⟨hv, hvs⟩ := Bool.and_eq_true_iff.1 hvs
    exact List.forall_mem_cons.2 ⟨readsBack v hv, forall_readsBack vs hvs⟩

end

/-- The values of an array are read back. -/
theorem list?_toJsons {δ : Type} [Document δ] {embed : Json → δ} (E : Embeds δ embed)
    {vs : List Value} (hvs : ∀ v ∈ vs, v.isFinite = true) {n : Nat}
    (hn : (Json.arr (toJsons vs)).depth ≤ n) :
    list? (decodeWithin? n) (embed (.arr (toJsons vs))) = some vs := by
  rw [toJsons_eq_map] at hn ⊢
  exact ReadsBack.list E (fun v hv => readsBack v (hvs v hv)) fun d hd =>
    Nat.le_trans (Nat.succ_le_succ hd) hn

end Value

namespace Predicate

variable {δ : Type} [Document δ] {embed : Json → δ} {p : Predicate}

theorem ofName?_tag (h : p.operandJson? = none) : ofName? p.tag = some p := by
  cases p with
  | isNull | notNull => rfl
  | _ => cases h

/-- The operand of a predicate is read back under the name of the predicate. -/
theorem ofOperand?_tag (E : Embeds δ embed) {operand : Json} (h : p.operandJson? = some operand)
    (hp : ∀ v ∈ p.operands, v.isFinite = true) {n : Nat} (hn : operand.depth + 1 ≤ n) :
    ofOperand? n p.tag (embed operand) = some p := by
  have hvalues (vs : List Value) (hvs : ∀ v ∈ vs, v.isFinite = true)
      (ho : operand = .arr (Value.toJsons vs)) :
      list? (Value.decodeWithin? n) (embed operand) = some vs := by
    subst ho
    exact Value.list?_toJsons E hvs (Nat.le_of_succ_le hn)
  cases p with
  | isNull | notNull => cases h
  | compare op v =>
    obtain rfl : v.toJson = operand := Option.some.inj h
    have hv := Value.readsBack v (hp v List.mem_cons_self) E n hn
    cases op <;> simp [ofOperand?, tag, kind, Comparison.name, comparison?, hv]
  | pattern op s =>
    obtain rfl : Json.str s = operand := Option.some.inj h
    cases op <;>
      simp [ofOperand?, tag, Pattern.tag, Pattern.kind, comparison?, pattern?, E.text?]
  | containment op vs =>
    have hvs := hvalues vs hp (Option.some.inj h).symm
    cases op <;>
      simp [ofOperand?, tag, Containment.tag, Containment.kind, comparison?, pattern?,
        containment?, hvs]
  | isIn vs => simp [ofOperand?, tag, kind, hvalues vs hp (Option.some.inj h).symm]
  | notIn vs => simp [ofOperand?, tag, kind, hvalues vs hp (Option.some.inj h).symm]
  | between low high =>
    have hvs := hvalues [low, high] hp (Option.some.inj h).symm
    simp [ofOperand?, tag, kind, hvs]

theorem readsBack (hp : ∀ v ∈ p.operands, v.isFinite = true) :
    ReadsBack toJson decodeWithin? id p := by
  intro δ _ embed E n hn
  cases ho : p.operandJson? with
  | none =>
    simp [toJson, ho, decodeWithin?, E.positional?, E.members?, E.name?_str, ofName?_tag ho]
  | some operand =>
    have hread : ofOperand? n p.tag (embed operand) = some p :=
      ofOperand?_tag E ho hp (by
        simp only [toJson, ho, id_eq, Json.depth, Json.membersDepth] at hn
        omega)
    simp [toJson, ho, decodeWithin?, E.positional?, E.members?, E.name?_str, hread]

end Predicate

/-! ### Parts without subqueries -/

section Parts

variable {δ : Type} [Document δ] {embed : Json → δ}

theorem ColumnRef.decode?_embed (E : Embeds δ embed) (c : ColumnRef) :
    ColumnRef.decode? (embed c.toJson) = some c := by
  rw [toJson, decode?, E.record?_obj (by simp)]
  simp [Json.find?, E.text?]

theorem DiscriminatorCase.decode?_embed (E : Embeds δ embed) (c : DiscriminatorCase) :
    DiscriminatorCase.decode? (embed c.toJson) = some c := by
  rw [toJson, decode?, E.record?_obj (by simp)]
  simp [Json.find?, E.text?]

theorem SortKey.decode?_embed (E : Embeds δ embed) (k : SortKey) :
    SortKey.decode? (embed k.toJson) = some k := by
  obtain ⟨a, c, direction⟩ := k
  rw [toJson, decode?, E.record?_obj (by simp)]
  cases direction <;> simp [Json.find?, E.text?, E.name?_str, Direction.text, Direction.ofText?]

theorem strs?_embed (E : Embeds δ embed) (ss : List String) :
    strs? (embed (.strs ss)) = some ss :=
  E.list?_arr fun s _ => E.text? s

theorem Join.decode?_embed (E : Embeds δ embed) (j : Join) :
    Join.decode? (embed j.toJson) = some j := by
  obtain ⟨a, table, kind, parent, own, distinct⟩ := j
  have hkind : (name? (embed (.str kind.name))).bind JoinKind.ofName? = some kind := by
    rw [E.name?_str]
    cases kind <;> rfl
  cases distinct with
  | none =>
    rw [toJson, decode?, E.record?_obj (by simp)]
    simp [Json.find?, E.text?, hkind, ColumnRef.decode?_embed E, Document.optional, orElse]
  | some b =>
    rw [toJson, decode?, E.record?_obj (by simp)]
    simp [Json.find?, E.text?, hkind, ColumnRef.decode?_embed E, Document.optional, orElse, nullable,
      E.isAbsent?, E.bool?, Json.isNull]

theorem ColumnCondition.readsBack {c : ColumnCondition}
    (hc : ∀ v ∈ c.predicate.operands, v.isFinite = true) :
    ReadsBack toJson decodeWithin? id c := by
  intro δ _ embed E n hn
  have hp : Predicate.decodeWithin? n (embed c.predicate.toJson) = some c.predicate := by
    refine Predicate.readsBack hc E n ?_
    simp only [toJson, id_eq, Json.depth, Json.membersDepth] at hn
    simp only [id_eq]
    omega
  show ColumnCondition.decodeWithin? n (embed c.toJson) = some c
  rw [toJson, decodeWithin?, E.record?_obj (by simp)]
  simp [Json.find?, E.text?, hp, flag?, orElse, E.bool?]

theorem RawCondition.readsBack {r : RawCondition} (hr : ∀ v ∈ r.bindings, v.isFinite = true) :
    ReadsBack toJson decodeWithin? id r := by
  intro δ _ embed E n hn
  have hvs : list? (Value.decodeWithin? n) (embed (.arr (Value.toJsons r.bindings))) =
      some r.bindings := by
    refine Value.list?_toJsons E hr ?_
    simp only [toJson, id_eq, Json.depth, Json.membersDepth] at hn ⊢
    omega
  show RawCondition.decodeWithin? n (embed r.toJson) = some r
  rw [toJson, decodeWithin?, E.record?_obj (by simp)]
  simp [Json.find?, E.text?, strs?_embed E, bindings?, hvs, flag?, orElse, E.bool?]

theorem Cte.readsBack {c : Cte} (hc : ∀ v ∈ c.bindings, v.isFinite = true) :
    ReadsBack toJson decodeWithin? id c := by
  intro δ _ embed E n hn
  have hvs : list? (Value.decodeWithin? n) (embed (.arr (Value.toJsons c.bindings))) =
      some c.bindings := by
    refine Value.list?_toJsons E hc ?_
    simp only [toJson, id_eq, Json.depth, Json.membersDepth] at hn ⊢
    omega
  show Cte.decodeWithin? n (embed c.toJson) = some c
  rw [toJson, decodeWithin?, E.record?_obj (by simp)]
  simp [Json.find?, E.text?, bindings?, hvs, orElse]

end Parts

/-! ### Plans -/

theorem Join.lacks_toJson (j : Join) : j.toJson.Lacks "type" :=
  ⟨_, rfl, by cases j.distinct <;> simp⟩

theorem ColumnCondition.lacks_toJson (c : ColumnCondition) : c.toJson.Lacks "kind" :=
  ⟨_, rfl, by simp⟩

theorem RawCondition.lacks_toJson (r : RawCondition) : r.toJson.Lacks "kind" := ⟨_, rfl, by simp⟩

theorem Group.lacks_toJson (g : Group) : g.toJson.Lacks "kind" := by
  cases g
  exact ⟨_, rfl, by simp⟩

theorem Select.toJsons_eq_map (ss : List Select) : Select.toJsons ss = ss.map Select.toJson := by
  induction ss with
  | nil => rfl
  | cons s ss ih => rw [Select.toJsons, ih, List.map_cons]

theorem Table.toJsons_eq_map (ts : List Table) : Table.toJsons ts = ts.map Table.toJson := by
  induction ts with
  | nil => rfl
  | cons t ts ih => rw [Table.toJsons, ih, List.map_cons]

theorem Condition.toJsons_eq_map (cs : List Condition) :
    Condition.toJsons cs = cs.map Condition.toJson := by
  induction cs with
  | nil => rfl
  | cons c cs ih => rw [Condition.toJsons, ih, List.map_cons]

mutual

theorem Plan.readsBack (p : Plan) (hp : ∀ v ∈ p.values, v.isFinite = true) :
    ReadsBack Plan.toJson Plan.decodeWithin? (3 * ·) p := by
  intro δ _ embed E n hn
  obtain ⟨selects, tables, condition, sortKeys, groupBys, ctes⟩ := p
  simp only [Plan.values, List.forall_mem_append, List.forall_mem_flatMap] at hp
  obtain ⟨⟨⟨hselects, htables⟩, hcondition⟩, hctes⟩ := hp
  simp only [Plan.toJson, Json.depth, Json.membersDepth] at hn
  obtain _ | n := n
  · omega
  have hselects : list? (Select.decodeWithin? n) (embed (.arr (Select.toJsons selects))) =
      some selects := by
    rw [Select.toJsons_eq_map] at hn ⊢
    exact ReadsBack.list E (Select.forall_readsBack selects hselects) fun d hd => by omega
  have htables : list? (Table.decodeWithin? n) (embed (.arr (Table.toJsons tables))) =
      some tables := by
    rw [Table.toJsons_eq_map] at hn ⊢
    exact ReadsBack.list E (Table.forall_readsBack tables htables) fun d hd => by omega
  have hcondition : nullable (Group.decodeWithin? n) (embed (Group.toJsonTop condition)) =
      some condition :=
    Group.nullable_readsBack condition hcondition E n (by omega)
  have hsort : list? SortKey.decode? (embed (.arr (sortKeys.map SortKey.toJson))) =
      some sortKeys :=
    E.list?_arr fun k _ => k.decode?_embed E
  have hgroupBys : nullable (list? ColumnRef.decode?)
      (embed (.ofOption (fun cs => .arr (cs.map ColumnRef.toJson)) groupBys)) = some groupBys :=
    E.nullable_ofOption fun cs _ => ⟨rfl, E.list?_arr fun c _ => c.decode?_embed E⟩
  have hctes : nullable (list? (Cte.decodeWithin? n))
      (embed (.ofOption (fun cs => .arr (cs.map Cte.toJson)) ctes)) = some ctes := by
    refine E.nullable_ofOption fun cs hcs => ⟨rfl, ?_⟩
    subst hcs
    refine ReadsBack.list E (fun c hc => Cte.readsBack (hctes c hc)) fun d hd => ?_
    simp only [Json.ofOption, Json.depth] at hn
    simp only [id_eq]
    omega
  show Plan.decodeWithin? (n + 1) (embed (Plan.toJson _)) = some _
  rw [Plan.toJson, Plan.decodeWithin?, E.record?_obj (by simp)]
  simp [Json.find?, hselects, htables, hcondition, hsort, hgroupBys, hctes, Document.optional,
    orElse]

theorem Select.forall_readsBack (ss : List Select)
    (hss : ∀ v ∈ Select.valuesOf ss, v.isFinite = true) :
    ∀ s ∈ ss, ReadsBack Select.toJson Select.decodeWithin? (3 * ·) s := by
  cases ss with
  | nil => exact fun _ => (nomatch ·)
  | cons s ss =>
    obtain ⟨hs, hss⟩ := List.forall_mem_append.1 hss
    exact List.forall_mem_cons.2 ⟨Select.readsBack s hs, Select.forall_readsBack ss hss⟩

theorem Select.readsBack (s : Select) (hs : ∀ v ∈ s.values, v.isFinite = true) :
    ReadsBack Select.toJson Select.decodeWithin? (3 * ·) s := by
  intro δ _ embed E n hn
  have S := embeds_settled
  cases s with
  | boolOr condition name =>
    simp only [Select.toJson, Json.depth, Json.membersDepth] at hn
    obtain _ | n := n
    · omega
    have hcondition : Group.decodeWithin? n (Settled.ofJson condition.toJson) = some condition :=
      Group.readsBack condition hs S n (by simp only; omega)
    show Select.decodeWithin? (n + 1) (embed (Select.toJson _)) = some _
    rw [Select.toJson, Select.decodeWithin?, E.tagged?_obj _ (by simp)]
    simp [S.record?_obj, Json.find?, hcondition, S.text?]
  | star a =>
    obtain _ | n := n
    · simp [Select.toJson, Json.depth] at hn
    show Select.decodeWithin? (n + 1) (embed (Select.toJson _)) = some _
    rw [Select.toJson, Select.decodeWithin?, E.tagged?_obj _ (by simp)]
    simp [S.record?_obj, Json.find?, S.text?]
  | column c name =>
    obtain _ | n := n
    · simp [Select.toJson, Json.depth] at hn
    have hname : nullable text? (Settled.ofJson (.ofOption .str name)) = some name :=
      S.nullable_ofOption fun s _ => ⟨rfl, S.text? s⟩
    show Select.decodeWithin? (n + 1) (embed (Select.toJson _)) = some _
    rw [Select.toJson, Select.decodeWithin?, E.tagged?_obj _ (by simp)]
    simp [S.record?_obj, Json.find?, c.decode?_embed S, Document.optional, orElse, hname]
  | discriminator cases defaultType name =>
    obtain _ | n := n
    · simp [Select.toJson, Json.depth] at hn
    have hcases : list? DiscriminatorCase.decode?
        (Settled.ofJson (.arr (cases.map DiscriminatorCase.toJson))) = some cases :=
      S.list?_arr fun c _ => c.decode?_embed S
    show Select.decodeWithin? (n + 1) (embed (Select.toJson _)) = some _
    rw [Select.toJson, Select.decodeWithin?, E.tagged?_obj _ (by simp)]
    simp [S.record?_obj, Json.find?, hcases, S.text?]
  | countIsZero name =>
    obtain _ | n := n
    · simp [Select.toJson, Json.depth] at hn
    show Select.decodeWithin? (n + 1) (embed (Select.toJson _)) = some _
    rw [Select.toJson, Select.decodeWithin?, E.tagged?_obj _ (by simp)]
    simp [S.record?_obj, Json.find?, S.text?]
  | raw sql aliases name =>
    obtain _ | n := n
    · simp [Select.toJson, Json.depth] at hn
    have hname : nullable text? (Settled.ofJson (.ofOption .str name)) = some name :=
      S.nullable_ofOption fun s _ => ⟨rfl, S.text? s⟩
    show Select.decodeWithin? (n + 1) (embed (Select.toJson _)) = some _
    rw [Select.toJson, Select.decodeWithin?, E.tagged?_obj _ (by simp)]
    simp [S.record?_obj, Json.find?, strs?_embed S, S.text?, Document.optional, orElse, hname]

theorem Table.forall_readsBack (ts : List Table)
    (hts : ∀ v ∈ Table.valuesOf ts, v.isFinite = true) :
    ∀ t ∈ ts, ReadsBack Table.toJson Table.decodeWithin? (3 * ·) t := by
  cases ts with
  | nil => exact fun _ => (nomatch ·)
  | cons t ts =>
    obtain ⟨ht, hts⟩ := List.forall_mem_append.1 hts
    exact List.forall_mem_cons.2 ⟨Table.readsBack t ht, Table.forall_readsBack ts hts⟩

theorem Table.readsBack (t : Table) (ht : ∀ v ∈ t.values, v.isFinite = true) :
    ReadsBack Table.toJson Table.decodeWithin? (3 * ·) t := by
  intro δ _ embed E n hn
  have S := embeds_settled
  cases t with
  | primary a table =>
    obtain _ | n := n
    · simp [Table.toJson, Json.depth] at hn
    show Table.decodeWithin? (n + 1) (embed (Table.toJson _)) = some _
    rw [Table.toJson, Table.decodeWithin?, E.tagged?_obj _ (by simp)]
    simp [S.record?_obj, Json.find?, S.text?]
  | join j =>
    obtain _ | n := n
    · simp only [Table.toJson, j.lacks_toJson.depth_tag] at hn
      simp [Join.toJson, Json.depth] at hn
    show Table.decodeWithin? (n + 1) (embed (Table.toJson _)) = some _
    rw [Table.toJson, Table.decodeWithin?, j.lacks_toJson.tagged?_tag E]
    simp [j.decode?_embed S]
  | cross a table =>
    obtain _ | n := n
    · simp [Table.toJson, Json.depth] at hn
    show Table.decodeWithin? (n + 1) (embed (Table.toJson _)) = some _
    rw [Table.toJson, Table.decodeWithin?, E.tagged?_obj _ (by simp)]
    simp [S.record?_obj, Json.find?, S.text?]
  | lateral a source query =>
    simp only [Table.toJson, Json.depth, Json.membersDepth] at hn
    obtain _ | n := n
    · omega
    have hquery : Plan.decodeWithin? n (Settled.ofJson query.toJson) = some query :=
      Plan.readsBack query ht S n (by simp only; omega)
    show Table.decodeWithin? (n + 1) (embed (Table.toJson _)) = some _
    rw [Table.toJson, Table.decodeWithin?, E.tagged?_obj _ (by simp)]
    simp [S.record?_obj, Json.find?, S.text?, hquery]

theorem Group.nullable_readsBack (g? : Option Group)
    (hg : ∀ v ∈ Group.valuesOf g?, v.isFinite = true) {δ : Type} [Document δ] {embed : Json → δ}
    (E : Embeds δ embed) (n : Nat) (hn : 3 * (Group.toJsonTop g?).depth ≤ n) :
    nullable (Group.decodeWithin? n) (embed (Group.toJsonTop g?)) = some g? := by
  cases g? with
  | none => simp [Group.toJsonTop, nullable, E.isAbsent?, Json.isNull]
  | some g =>
    have hread : Group.decodeWithin? n (embed g.toJson) = some g := Group.readsBack g hg E n hn
    have hnull : g.toJson.isNull = false := by cases g; rfl
    simp [Group.toJsonTop, nullable, E.isAbsent?, hnull, hread]

theorem Group.readsBack (g : Group) (hg : ∀ v ∈ g.values, v.isFinite = true) :
    ReadsBack Group.toJson Group.decodeWithin? (3 * ·) g := by
  intro δ _ embed E n hn
  obtain ⟨op, conditions⟩ := g
  simp only [Group.toJson, Json.depth, Json.membersDepth] at hn
  obtain _ | n := n
  · omega
  have hop : (name? (embed (.str op.name))).bind Connective.ofName? = some op := by
    rw [E.name?_str]
    cases op <;> rfl
  have hconditions : list? (Condition.decodeWithin? n)
      (embed (.arr (Condition.toJsons conditions))) = some conditions := by
    rw [Condition.toJsons_eq_map] at hn ⊢
    exact ReadsBack.list E (Condition.forall_readsBack conditions hg) fun d hd => by omega
  show Group.decodeWithin? (n + 1) (embed (Group.toJson _)) = some _
  rw [Group.toJson, Group.decodeWithin?, E.record?_obj (by simp)]
  simp [Json.find?, hop, hconditions]

theorem Condition.forall_readsBack (cs : List Condition)
    (hcs : ∀ v ∈ Condition.valuesOf cs, v.isFinite = true) :
    ∀ c ∈ cs, ReadsBack Condition.toJson Condition.decodeWithin? (3 * · + 1) c := by
  cases cs with
  | nil => exact fun _ => (nomatch ·)
  | cons c cs =>
    obtain ⟨hc, hcs⟩ := List.forall_mem_append.1 hcs
    exact List.forall_mem_cons.2 ⟨Condition.readsBack c hc, Condition.forall_readsBack cs hcs⟩

theorem Condition.readsBack (c : Condition) (hc : ∀ v ∈ c.values, v.isFinite = true) :
    ReadsBack Condition.toJson Condition.decodeWithin? (3 * · + 1) c := by
  intro δ _ embed E n hn
  have S := embeds_settled
  cases c with
  | group g =>
    obtain _ | n := n
    · exact absurd hn (Nat.not_succ_le_zero _)
    have hlacks := g.lacks_toJson
    have hread : Group.decodeWithin? n (Settled.ofJson g.toJson) = some g := by
      refine Group.readsBack g hc S n (Nat.le_of_succ_le_succ ?_)
      rwa [Condition.toJson, hlacks.depth_tag] at hn
    show Condition.decodeWithin? (n + 1) (embed (Condition.toJson _)) = some _
    rw [Condition.toJson, Condition.decodeWithin?, hlacks.tagged?_tag E]
    simp [hread]
  | column c =>
    have hlacks := c.lacks_toJson
    obtain _ | n := n
    · exact absurd hn (Nat.not_succ_le_zero _)
    have hread : ColumnCondition.decodeWithin? n (Settled.ofJson c.toJson) = some c := by
      refine ColumnCondition.readsBack hc S n ?_
      simp only [Condition.toJson, hlacks.depth_tag] at hn
      simp only [id_eq]
      omega
    show Condition.decodeWithin? (n + 1) (embed (Condition.toJson _)) = some _
    rw [Condition.toJson, Condition.decodeWithin?, hlacks.tagged?_tag E]
    simp [hread]
  | raw r =>
    have hlacks := r.lacks_toJson
    obtain _ | n := n
    · exact absurd hn (Nat.not_succ_le_zero _)
    have hread : RawCondition.decodeWithin? n (Settled.ofJson r.toJson) = some r := by
      refine RawCondition.readsBack hc S n ?_
      simp only [Condition.toJson, hlacks.depth_tag] at hn
      simp only [id_eq]
      omega
    show Condition.decodeWithin? (n + 1) (embed (Condition.toJson _)) = some _
    rw [Condition.toJson, Condition.decodeWithin?, hlacks.tagged?_tag E]
    simp [hread]
  | existence query negate outerAliases =>
    simp only [Condition.toJson, Json.depth, Json.membersDepth] at hn
    obtain _ | _ | n := n
    · omega
    · omega
    have hquery : Plan.decodeWithin? n (Settled.ofJson query.toJson) = some query :=
      Plan.readsBack query hc S n (by simp only; omega)
    show Condition.decodeWithin? (n + 2) (embed (Condition.toJson _)) = some _
    rw [Condition.toJson, Condition.decodeWithin?, E.tagged?_obj _ (by simp)]
    simp [Condition.decodeExistence?, S.record?_obj, Json.find?, hquery, S.bool?, strs?_embed S]

end

/-- A plan whose doubles are finite is read back from its document, whichever tables, conditions and
result columns it has and however its subqueries are nested. -/
theorem Plan.decode_toJson (p : Plan) (hp : ∀ v ∈ p.values, v.isFinite = true) :
    Plan.decode? p.toJson = some p :=
  Plan.readsBack p hp embeds_json _ (Nat.le_add_right _ 3)

/-- The authors of whom some book costs half a coin, or who have no book, or whose name is new: a
plan with a subquery in a table and one in a condition. -/
def halfCoinAuthors : Plan where
  selects := [.star "a"]
  tables := [.primary "a" "authors", .lateral "l" "a"
    { selects := [.boolOr (.all [.column (.asked "b" "price" "float8" (.compare .eq (.float 0.5)))] )
        "q1", .countIsZero "q2"]
      tables := [.primary "b" "books"]
      condition := some (.all [.raw (.correlation ⟨"a", "id"⟩ ⟨"b", "author_id"⟩)])
      sortKeys := [], groupBys := none, ctes := none }]
  condition := some (.any [.raw ⟨["l"], "l.q1", [], false⟩, .raw ⟨["l"], "l.q2", [], true⟩,
    .existence
      { selects := [.raw "1" [] none], tables := [.primary "n" "names"]
        condition := some (.all [.raw ⟨["a", "n"], "a.name = n.name or n.name = ?",
          [.array [.null, .float 1.5, .json (.obj [("k", .arr [.int 1])])]], false⟩])
        sortKeys := [], groupBys := some [⟨"n", "name"⟩], ctes := none } true ["a"]])
  sortKeys := [⟨"a", "id", .desc⟩]
  groupBys := none
  ctes := some [⟨"names", "select * from people where kind = ?", [.newEntity "Person"]⟩]

theorem Plan.decode_toJson_halfCoinAuthors :
    (∀ v ∈ halfCoinAuthors.values, v.isFinite = true) ∧
      Plan.decode? halfCoinAuthors.toJson = some halfCoinAuthors :=
  have hfinite : ∀ v ∈ halfCoinAuthors.values, v.isFinite = true := by decide
  ⟨hfinite, Plan.decode_toJson halfCoinAuthors hfinite⟩

end EntityQuery
