import EntityQuery.Collection.Lateral
import EntityQuery.Strategy

/-!
# Collections resolved by a strategy
-/

namespace EntityQuery

/-- The plan with its collections in the form a strategy asks for, and the names that are left. -/
def Plan.resolveCollections (p : Plan) (strategy : Strategy) (threshold : Nat) (joins : List Join)
    (supply : AliasSupply) : Except PlanError (Resolved × AliasSupply) :=
  if joins.isEmpty then .ok (⟨p, []⟩, supply)
  else match strategy with
    | .existence => (p.toExistence joins).map (·, supply)
    | .lateral force => p.toLateral force threshold joins supply
    | .keep => .ok (⟨p, []⟩, supply)

end EntityQuery
