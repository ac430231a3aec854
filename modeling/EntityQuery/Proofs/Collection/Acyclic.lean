import EntityQuery.Proofs.Collection.Forest

/-!
# Parents without a cycle

Where no table is above itself, the way up from a table comes to no table twice.  Each of its steps
takes another entry of the parents, so it has ended when there are no more of them.

* `Collections.Acyclic`: no table is above itself;
* `Acyclic.chain_eq`, `Acyclic.nodup_chain`: the chain of a table is complete and repeats none;
* `Acyclic.isForest`: the collections among tables of a plan form a forest.
-/

namespace EntityQuery

/-- Steps that lead down in rank lead nowhere back. -/
theorem not_transGen_of_rank {r : String → String → Prop} (rank : String → Nat)
    (h : ∀ a b, r a b → rank b < rank a) (a : String) : ¬ Relation.TransGen r a a := by
  have lower : ∀ {a b}, Relation.TransGen r a b → rank b < rank a := by
    intro a b hab
    induction hab with
    | single hs => exact h _ _ hs
    | tail _ hs ih => exact (h _ _ hs).trans ih
  exact fun ha => lt_irrefl _ (lower ha)

namespace Collections

variable {t : Collections} {a b : String} {n : Nat}

/-- No table is above itself. -/
def Acyclic (t : Collections) : Prop :=
  ∀ a, ¬ Relation.TransGen (fun a b => t.parent? a = some b) a a

namespace Acyclic

theorem nodup_pathWithin (h : t.Acyclic) : (pathWithin t.parent? n a).Nodup := by
  induction n generalizing a with
  | zero => exact List.nodup_singleton a
  | succ n ih =>
    cases hp : t.parent? a with
    | none =>
      rw [pathWithin_of_none hp]
      exact List.nodup_singleton a
    | some c =>
      rw [pathWithin_succ hp, List.nodup_cons]
      exact ⟨fun hm => h a (.head' hp (reaches_of_mem_pathWithin hm)), ih⟩

theorem nodup_chain (h : t.Acyclic) : (t.chain a).Nodup := h.nodup_pathWithin

/-- As many steps as there are entries are enough. -/
theorem pathWithin_length_succ (h : t.Acyclic) :
    pathWithin t.parent? (t.parents.length + 1) a = t.chain a := by
  have hnodup : (pathWithin t.parent? (t.parents.length + 1) a).Nodup := h.nodup_pathWithin
  obtain ⟨rest, hrest⟩ : t.chain a <+: pathWithin t.parent? (t.parents.length + 1) a :=
    prefix_pathWithin_succ
  -- what comes behind the chain is come to, so it would be in it
  have hnil : rest = [] := List.eq_nil_iff_forall_not_mem.2 fun b hb => by
    have hmem : b ∈ pathWithin t.parent? (t.parents.length + 1) a :=
      hrest ▸ List.mem_append_right _ hb
    rw [← hrest] at hnodup
    exact (List.nodup_append'.1 hnodup).2.2
      (mem_chain_iff.2 (reaches_of_mem_pathWithin hmem)) hb
  rw [← hrest, hnil, List.append_nil]

theorem chain_eq (h : t.Acyclic) : t.chain a = a :: ((t.parent? a).map t.chain).getD [] := by
  rw [← h.pathWithin_length_succ]
  cases hp : t.parent? a with
  | none => rw [pathWithin_of_none hp, Option.map_none, Option.getD_none]
  | some c =>
    rw [pathWithin_succ hp, Option.map_some, Option.getD_some]
    rfl

/-- The collections form a forest. -/
theorem isForest (h : t.Acyclic)
    (hparent : ∀ {a b}, t.parent? a = some b → a ∈ t.aliases ∧ b ∈ t.aliases)
    (hcollection : ∀ {c}, t.isCollection c → c ∈ t.aliases) (hnodup : t.aliases.Nodup) :
    t.IsForest where
  chain_eq _ := h.chain_eq
  nodup_chain _ := h.nodup_chain
  mem_of_parent := hparent
  mem_of_collection := hcollection
  nodup_aliases := hnodup

end Acyclic

end Collections

end EntityQuery
