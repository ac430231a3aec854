import Mathlib.Data.List.Forall2

/-!
# Steps that may fail

Planning and rendering are made of steps that give an answer or say why there is none.

* `exists_of_bind_eq_ok`, `exists_of_map_eq_ok`, `forall₂_of_mapM_eq_ok`: the parts of steps that
  succeeded;
* `exists_bind_eq_ok`, `exists_mapM_eq_ok`: steps that succeed because their parts do;
* `FailsOnly`: the reasons for which something fails.
-/

namespace EntityQuery

section

variable {ε α β : Type} {x : Except ε α}

/-! ### Success -/

theorem ok_bind {a : α} {f : α → Except ε β} : (Except.ok a >>= f) = f a := rfl

/-- What comes after a step only matters for the answer of the step. -/
theorem bind_congr_ok {f g : α → Except ε β} (h : ∀ a, x = .ok a → f a = g a) :
    x >>= f = x >>= g := by
  cases x with
  | error err => rfl
  | ok a => exact h a rfl

/-- A step of planning that succeeds has first succeeded in its first part. -/
theorem exists_of_bind_eq_ok {f : α → Except ε β} {b : β} (h : x >>= f = .ok b) :
    ∃ a, x = .ok a ∧ f a = .ok b := by
  cases x with
  | error err => cases h
  | ok a => exact ⟨a, rfl, h⟩

theorem exists_of_map_eq_ok {f : α → β} {b : β} (h : x.map f = .ok b) :
    ∃ a, x = .ok a ∧ f a = b := by
  cases x with
  | error err => cases h
  | ok a => exact ⟨a, rfl, Except.ok.inj h⟩

/-- What is computed of a result has a result. -/
theorem exists_of_map_toOption {f : α → β} {b : β} (h : x.toOption.map f = some b) :
    ∃ a, x = .ok a ∧ f a = b := by
  cases x with
  | error err => cases h
  | ok a => exact ⟨a, rfl, Option.some.inj h⟩

theorem exists_of_isOk (h : x.isOk = true) : ∃ a, x = .ok a := by
  cases x with
  | error err => cases h
  | ok a => exact ⟨a, rfl⟩

theorem exists_of_not_isOk (h : x.isOk = false) : ∃ err, x = .error err := by
  cases x with
  | error err => exact ⟨err, rfl⟩
  | ok a => cases h

/-- What is tested of a result has a result. -/
theorem exists_of_any_toOption {f : α → Bool} (h : x.toOption.any f = true) :
    ∃ a, x = .ok a ∧ f a = true := by
  cases x with
  | error err => cases h
  | ok a => exact ⟨a, rfl, h⟩

/-- A list of steps that succeeds has succeeded in each of them. -/
theorem forall₂_of_mapM_eq_ok {f : α → Except ε β} {xs : List α} {ys : List β}
    (h : xs.mapM f = .ok ys) : List.Forall₂ (fun x y => f x = .ok y) xs ys := by
  induction xs generalizing ys with
  | nil =>
    obtain rfl := Except.ok.inj h
    exact .nil
  | cons x xs ih =>
    rw [List.mapM_cons] at h
    obtain ⟨y, hy, h⟩ := exists_of_bind_eq_ok h
    obtain ⟨rest, hrest, h⟩ := exists_of_bind_eq_ok h
    obtain rfl := Except.ok.inj h
    exact .cons hy (ih hrest)

/-- What is related to another list has its items from it. -/
theorem exists_of_forall₂ {R : α → β → Prop} {xs : List α} {ys : List β}
    (h : List.Forall₂ R xs ys) : ∀ y ∈ ys, ∃ x ∈ xs, R x y := by
  intro y hy
  induction h with
  | nil => cases hy
  | cons hfirst _ ih =>
    rcases List.mem_cons.1 hy with rfl | hy
    · exact ⟨_, List.mem_cons_self, hfirst⟩
    · obtain ⟨x, hx, hxy⟩ := ih hy
      exact ⟨x, List.mem_cons_of_mem _ hx, hxy⟩

/-- A step succeeds when its first part does, and the rest does with any answer of it. -/
theorem exists_bind_eq_ok {f : α → Except ε β} (hx : ∃ a, x = .ok a)
    (hf : ∀ a, x = .ok a → ∃ b, f a = .ok b) : ∃ b, (x >>= f) = .ok b := by
  obtain ⟨a, ha⟩ := hx
  obtain ⟨b, hb⟩ := hf a ha
  exact ⟨b, by rw [ha]; exact hb⟩

/-- A list of steps succeeds when each of them does. -/
theorem exists_mapM_eq_ok {f : α → Except ε β} {xs : List α} (h : ∀ x ∈ xs, ∃ y, f x = .ok y) :
    ∃ ys, xs.mapM f = .ok ys := by
  induction xs with
  | nil => exact ⟨[], rfl⟩
  | cons x xs ih =>
    obtain ⟨hx, hxs⟩ := List.forall_mem_cons.1 h
    rw [List.mapM_cons]
    exact exists_bind_eq_ok hx fun _ _ => exists_bind_eq_ok (ih hxs) fun _ _ => ⟨_, rfl⟩

/-! ### Failure -/

/-- What fails fails for one of these reasons. -/
def FailsOnly (E : ε → Prop) (x : Except ε α) : Prop := ∀ err, x = .error err → E err

namespace FailsOnly

variable {E : ε → Prop} {f : α → Except ε β}

theorem ok {a : α} : FailsOnly E (.ok a) := fun _ h => nomatch h

theorem error {err : ε} (h : E err) : FailsOnly E (.error err : Except ε α) := fun _ herr =>
  Except.error.inj herr ▸ h

/-- What succeeds does not fail. -/
theorem of_exists (h : ∃ a, x = .ok a) : FailsOnly E x := by
  obtain ⟨a, rfl⟩ := h
  exact ok

/-- A step fails where its first part does, or where the rest does with the answer of it. -/
theorem bind_of_ok (hx : FailsOnly E x) (hf : ∀ a, x = .ok a → FailsOnly E (f a)) :
    FailsOnly E (x >>= f) := by
  intro err h
  cases hres : x with
  | error err' =>
    rw [hres] at h
    exact Except.error.inj h ▸ hx err' hres
  | ok a =>
    rw [hres] at h
    exact hf a hres err h

theorem bind (hx : FailsOnly E x) (hf : ∀ a, FailsOnly E (f a)) : FailsOnly E (x >>= f) :=
  hx.bind_of_ok fun a _ => hf a

theorem map {g : α → β} (hx : FailsOnly E x) : FailsOnly E (x.map g) := by
  intro err h
  cases x with
  | error err' => exact hx err (congrArg _ (Except.error.inj h))
  | ok a => cases h

theorem mapM {f : α → Except ε β} {xs : List α} (hf : ∀ a ∈ xs, FailsOnly E (f a)) :
    FailsOnly E (xs.mapM f) := by
  induction xs with
  | nil => exact .ok
  | cons x xs ih =>
    obtain ⟨hx, hxs⟩ := List.forall_mem_cons.1 hf
    rw [List.mapM_cons]
    exact hx.bind fun _ => (ih hxs).bind fun _ => .ok

theorem foldlM {f : β → α → Except ε β} {xs : List α} (hf : ∀ b a, FailsOnly E (f b a)) (b : β) :
    FailsOnly E (xs.foldlM f b) := by
  induction xs generalizing b with
  | nil => exact .ok
  | cons x xs ih => exact (hf b x).bind fun b' => ih b'

end FailsOnly

end

end EntityQuery
