import EntityQuery.Proofs.Evaluation.Tables
import EntityQuery.Proofs.Pruning.Apart

/-!
# Rows that are not repeated

A table that is joined by a column in which no value occurs twice has at most one row for each row
of the tables before it, and a lateral query has exactly one.  So tables that are joined in one of
these ways repeat no row of the primary table.

* `Database.IsKey`: no value occurs twice in a column;
* `Table.length_bind_le`: such a table is bound at most once;
* `Plan.Rooted.sublist_rows`: no row of the primary table is repeated.
-/

namespace EntityQuery

/-- No value is found in two rows of the column. -/
def Database.IsKey (db : Database) (table column : String) : Prop :=
  ∀ v : Value, ((db.table table).filter fun row => v.Equals (row column)).length ≤ 1

section

variable {db : Database} {a table : String} {e e' : Assignment} {es : List Assignment} {t : Table}
  {ts : List Table}

theorem Join.length_bind_le {j : Join} (h : db.IsKey j.table j.own.column) :
    (j.bind db e).length ≤ 1 := by
  unfold Join.bind
  simp only
  split_ifs
  · exact Nat.le_refl 1
  · rw [List.length_map]
    exact h _

theorem Table.length_bind_le (h : t.Behind (fun j => db.IsKey j.table j.own.column) a) :
    (t.bind db e).length ≤ 1 := by
  cases t with
  | join j => exact Join.length_bind_le h.2
  | lateral => exact Nat.le_refl 1
  | _ => exact h.2.elim

theorem Table.eq_of_mem_bind (ha : t.aliasName ≠ a) (h : e' ∈ t.bind db e) : e' a = e a := by
  have hbind : ∀ row, (e.bind t.aliasName row) a = e a := fun _ => Assignment.bind_of_ne ha.symm
  cases t with
  | join j =>
    change e' ∈ j.bind db e at h
    unfold Join.bind at h
    simp only at h
    split_ifs at h
    · exact List.mem_singleton.1 h ▸ hbind _
    · obtain ⟨row, -, rfl⟩ := List.mem_map.1 h
      exact hbind _
  | lateral => exact List.mem_singleton.1 h ▸ hbind _
  | _ =>
    obtain ⟨row, -, rfl⟩ := List.mem_map.1 h
    exact hbind _

/-- One more table repeats no row. -/
theorem Table.sublist_flatMap_bind (h : t.Behind (fun j => db.IsKey j.table j.own.column) a) :
    ((es.flatMap (t.bind db)).map (· a)).Sublist (es.map (· a)) := by
  induction es with
  | nil => exact List.Sublist.refl _
  | cons e es ih =>
    rw [List.flatMap_cons, List.map_append, List.map_cons, ← List.singleton_append]
    refine List.Sublist.append ?_ ih
    match hb : t.bind db e, Table.length_bind_le (e := e) h with
    | [], _ => exact List.nil_sublist _
    | [e'], _ =>
      have he' : e' ∈ t.bind db e := hb ▸ List.mem_singleton_self e'
      rw [List.map_cons, List.map_nil, Table.eq_of_mem_bind h.1 he']

theorem Table.sublist_bindAll (h : ∀ t ∈ ts, t.Behind (fun j => db.IsKey j.table j.own.column) a) :
    ((Table.bindAll db ts es).map (· a)).Sublist (es.map (· a)) := by
  induction ts generalizing es with
  | nil => exact List.Sublist.refl _
  | cons t ts ih =>
    obtain ⟨ht, hts⟩ := List.forall_mem_cons.1 h
    exact (ih hts).trans (Table.sublist_flatMap_bind ht)

/-- A plan that joins its tables by keys selects no row of the primary table twice. -/
theorem Plan.Rooted.sublist_rows {p : Plan}
    (h : p.Rooted (fun j => db.IsKey j.table j.own.column) a table) :
    ((p.rows db e).map (· a)).Sublist ((db.table table).map some) := by
  obtain ⟨rest, hp, hrest⟩ := h
  have hbound : ((Table.bindAll db p.tables [e]).map (· a)).Sublist ((db.table table).map some) := by
    have hrows : (([e].flatMap ((Table.primary a table).bind db)).map (· a)) =
        (db.table table).map some := by
      simp [Table.bind, Function.comp_def]
    rw [hp, Table.bindAll, ← hrows]
    exact Table.sublist_bindAll hrest
  rw [Plan.rows_eq_filter]
  exact (List.filter_sublist.map _).trans hbound

end

theorem Value.eq_of_equals_text {v : Value} {s t : String} (hs : v.Equals (.text s))
    (ht : v.Equals (.text t)) : s = t := by
  unfold Equals at hs ht
  cases v with
  | text u =>
    have hus : u = s := Std.LawfulEqOrd.compare_eq_iff_eq.1 (Option.some.inj hs)
    have hut : u = t := Std.LawfulEqOrd.compare_eq_iff_eq.1 (Option.some.inj ht)
    exact hus.symm.trans hut
  | _ => cases hs

/-- A column whose values differ from row to row is a key. -/
theorem Database.isKey_of_pairwise {db : Database} {table column : String}
    (h : (db.table table).Pairwise fun row row' =>
      ∀ v : Value, v.Equals (row column) → ¬ v.Equals (row' column)) : db.IsKey table column := by
  intro v
  have hpairs := h.filter fun row => decide (v.Equals (row column))
  have hequal : ∀ row ∈ (db.table table).filter fun row => decide (v.Equals (row column)),
      v.Equals (row column) := fun row hrow => of_decide_eq_true (List.mem_filter.1 hrow).2
  match hrows : (db.table table).filter fun row => decide (v.Equals (row column)) with
  | [] | [_] => simp [hrows]
  | row :: row' :: rest =>
    rw [hrows] at hpairs hequal
    exact absurd (hequal row' (List.mem_cons_of_mem _ List.mem_cons_self))
      (List.rel_of_pairwise_cons hpairs List.mem_cons_self v (hequal row List.mem_cons_self))

/-- The ids are different, and only authors and books have rows. -/
theorem Bookshelf.isKey_database {table column : String}
    (h : column = "id" ∨ (table ≠ "authors" ∧ table ≠ "books")) :
    Bookshelf.database.IsKey table column := by
  have hother : ∀ {s t : String}, s ≠ t → ∀ v : Value, v.Equals (.text s) → ¬ v.Equals (.text t) :=
    fun hne _ hs ht => hne (Value.eq_of_equals_text hs ht)
  refine Database.isKey_of_pairwise ?_
  show (Bookshelf.table table).Pairwise _
  unfold Bookshelf.table
  split
  · obtain rfl := h.resolve_right fun hne => hne.1 rfl
    exact List.pairwise_pair.2 (hother (by decide))
  · obtain rfl := h.resolve_right fun hne => hne.2 rfl
    simp only [List.pairwise_cons, List.forall_mem_cons]
    exact ⟨⟨hother (by decide), hother (by decide), nofun⟩, ⟨hother (by decide), nofun⟩, nofun, .nil⟩
  · exact .nil

end EntityQuery
