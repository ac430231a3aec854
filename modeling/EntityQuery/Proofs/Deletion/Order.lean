import EntityQuery.Proofs.Deletion.Filtered
import EntityQuery.Proofs.Multiplicity.Order

/-!
# Filtered tables in order

An order joins tables under names that have not been given yet, and brings no conditions along.

* `Ordering.Spares`: an order that joins no table of a name that has been given;
* `OrderBy.spares_resolve`: following an order is such a step;
* `Plan.Filtered.addOrder`: plans in order filter what they filter without it.
-/

namespace EntityQuery

/-- The order has joined tables behind those that were there, and none of the name, which is still
taken. -/
structure Ordering.Spares (a : String) (o o' : Ordering) : Prop where
  tables : ∃ js : List Join, o'.tables = o.tables ++ js.map .join ∧ a ∉ js.map (·.aliasName)
  gave : o'.supply.Gave (trunk a)

section

variable {s : Setting} {o o' o'' : Ordering} {a b : String}

namespace Ordering

namespace Spares

theorem refl (h : o.supply.Gave (trunk a)) : o.Spares a o := ⟨⟨[], by simp⟩, h⟩

theorem trans (h : o.Spares a o') (h' : o'.Spares a o'') : o.Spares a o'' := by
  obtain ⟨js, hjs, ha⟩ := h.tables
  obtain ⟨js', hjs', ha'⟩ := h'.tables
  refine ⟨⟨js ++ js', by simp [hjs', hjs], ?_⟩, h'.gave⟩
  rw [List.map_append, List.mem_append]
  exact not_or.2 ⟨ha, ha'⟩

end Spares

/-- The table of a related entity is joined under a new name, and those of its bases under names
that follow from it. -/
theorem spares_reach {target : Entity} (hw : Worded target.tableName) {parent : ColumnRef}
    (h : o.supply.Gave (trunk a)) (hr : o.reach s parent target = .ok (b, o')) :
    o.Spares a o' := by
  unfold Ordering.reach at hr
  split at hr
  · obtain ⟨-, rfl⟩ := Prod.mk.inj (Except.ok.inj hr)
    exact .refl h
  · obtain ⟨bases, hbases, hr⟩ := exists_of_bind_eq_ok hr
    obtain ⟨-, rfl⟩ := Prod.mk.inj (Except.ok.inj hr)
    let own := (o.supply.next target.tableName).1
    let join : Join := ⟨own, target.tableName, .outer, parent, ⟨own, "id"⟩, none⟩
    have hbases : s.baseJoins own .outer 0 target.baseTypes = .ok bases := hbases
    have hown : trunk own = own.toList := AliasSupply.trunk_next
    have hnew : ∀ j ∈ join :: bases, trunk j.aliasName = own.toList := by
      intro j hj
      rcases List.mem_cons.1 hj with rfl | hj
      · exact hown
      · obtain ⟨i, -, hi, -⟩ := Setting.of_mem_baseJoins hbases j hj
        rw [hi, trunk_baseAlias, hown]
    refine ⟨⟨join :: bases, rfl, fun hm => ?_⟩, h.next⟩
    obtain ⟨j, hj, hja⟩ := List.mem_map.1 hm
    rw [← hja, hnew j hj] at h
    exact AliasSupply.not_gave_next hw h

end Ordering

/-- Following an order joins no table of a name that has been given. -/
theorem OrderBy.spares_resolve (hw : ∀ e ∈ s.schema.entities, Worded e.tableName)
    {order : OrderBy} {e : Entity} (h : o.supply.Gave (trunk a))
    (ho : OrderBy.resolve s e b order o = .ok o') : o.Spares a o' := by
  have hspares : o.Spares a { o with tables := o'.tables, supply := o'.supply } := by
    refine OrderBy.resolve_induct
      (P := fun ts supply => o.Spares a { o with tables := ts, supply := supply }) ?_ ho (.refl h)
    intro o₁ o₂ target parent own htarget hr h₁
    have hfirst : o.Spares a o₁ := ⟨h₁.tables, h₁.gave⟩
    have hall := hfirst.trans (Ordering.spares_reach (hw target htarget) h₁.gave hr)
    exact ⟨hall.tables, hall.gave⟩
  exact ⟨hspares.tables, hspares.gave⟩

/-- A plan in order filters the tables of given names that it filters without it. -/
theorem Plan.Filtered.addOrder (hspelled : s.schema.Spelled) {p : Plan} {c : ColumnCondition}
    (h : p.Filtered a c false) {supply : AliasSupply} (hgave : supply.Gave (trunk a)) {e : Entity}
    {order : OrderBy} {r : Plan × AliasSupply} (hr : p.addOrder s e b order supply = .ok r) :
    r.1.Filtered a c false := by
  obtain ⟨o, ho, hr⟩ := exists_of_bind_eq_ok hr
  obtain rfl := Except.ok.inj hr
  have hspares : Ordering.Spares a ⟨p.tables, p.sortKeys, supply, []⟩ o :=
    OrderBy.spares_resolve hspelled.tables hgave ho
  obtain ⟨js, hjs, ha⟩ := hspares.tables
  show Filtered a c false { p with
    tables := ((o.reached ++ [b]).foldl Ordering.addId o).tables, sortKeys := _ }
  rw [Ordering.tables_addIds, hjs]
  exact h.ordered ha

end

end EntityQuery
