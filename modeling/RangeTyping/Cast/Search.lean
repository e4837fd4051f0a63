import RangeTyping.Cast.Graph

/-!
# Searching the cheapest chain of conversions

The search goes backwards from the destination.  It keeps the types it has met with the least
weight known from each to the destination, and always expands the nearest one that is not expanded
yet: it looks at all conversions that end there.  The source itself is not expanded.  Once the
source is met, only types as near as it are still expanded, so that every conversion on a cheapest
chain has been seen.

A seen conversion is *tight* if it lies on a cheapest chain from where it starts.  The cheapest
chains from the source are the walks along tight conversions.  Conversions of weight zero may form
cycles, and then there are infinitely many: `Search.walkCounts` counts walks in rounds, from the
guess that there are more than can be counted, and after one round per type the guess survives
exactly where a cycle can be reached.

Distances stop at the greatest weight, which is also the distance of a type not reached at all.
-/

namespace RangeTyping

/-- A type met in the search. -/
structure SearchNode where
  type : Ty
  distance : Weight
  expanded : Bool

/-- A conversion seen in the search, from one node to another. -/
structure SearchEdge where
  source : Nat
  target : Nat
  cast : Cast

/-- What the search knows.  Nodes are numbered in the order in which they were met; the
destination is node zero. -/
structure Search where
  nodes : List SearchNode
  edges : List SearchEdge
  /-- The node of the source and its distance, once it was the nearest. -/
  origin : Option (Nat × Weight)

namespace Search

/-! ### Distances -/

/-- Only the destination is known. -/
def start (destination : Ty) : Search := ⟨[⟨destination, 0, false⟩], [], none⟩

/-- The nearest node that is reached and not expanded, with its type and distance; of several, the
one met first.  Numbers count from `i`. -/
def nearest (i : Nat) : List SearchNode → Option (Nat × SearchNode)
  | [] => none
  | n :: rest =>
    match nearest (i + 1) rest with
    | none => if !n.expanded && n.distance < maxWeight then some (i, n) else none
    | some (j, m) =>
      if !n.expanded && n.distance < maxWeight && n.distance ≤ m.distance then some (i, n)
      else some (j, m)

/-- Sees one conversion into node `target`, which has the distance `distance`. -/
def relax (S : StructStore) (target : Nat) (distance : Weight) (s : Search) (c : Cast) : Search :=
  let candidate := addWeight distance c.weight
  match s.nodes.findIdx? (·.type.same S c.source) with
  | some j =>
    { s with
      nodes := s.nodes.modify j fun n => { n with distance := min candidate n.distance }
      edges := s.edges ++ [⟨j, target, c⟩] }
  | none =>
    { s with
      nodes := s.nodes ++ [⟨c.source, candidate, false⟩]
      edges := s.edges ++ [⟨s.nodes.length, target, c⟩] }

/-- Marks a node as expanded. -/
def mark (s : Search) (i : Nat) : Search :=
  { s with nodes := s.nodes.modify i fun n => { n with expanded := true } }

/-- Expands the nearest node; `none` when the search is over. -/
def step (S : StructStore) (G : CastGraph) (source : Ty) (implicit : Bool) (s : Search) :
    Option Search :=
  match nearest 0 s.nodes with
  | none => none
  | some (i, n) =>
    if s.origin.any (·.2 < n.distance) then none
    else if n.type.same S source then
      some { s.mark i with origin := some (i, n.distance) }
    else
      some (((G.castsTo S n.type).filter (·.usable implicit)).foldl (relax S i n.distance)
        (s.mark i))

/-- Expands nodes until the search is over. -/
def run (S : StructStore) (G : CastGraph) (source : Ty) (implicit : Bool) :
    (fuel : Nat) → Search → Search
  | 0, s => s
  | fuel + 1, s =>
    match s.step S G source implicit with
    | none => s
    | some t => run S G source implicit fuel t

/-- **The finished search** from `destination` back to `source`.  Every step expands another type,
so there are no more steps than types. -/
def explore (S : StructStore) (G : CastGraph) (source destination : Ty) (implicit : Bool) : Search :=
  (start destination).run S G source implicit G.typeBound

/-! ### Cheapest chains -/

/-- The distance of a node. -/
def distance (s : Search) (i : Nat) : Weight := (s.nodes[i]?.map (·.distance)).getD maxWeight

/-- The conversions that lie on a cheapest chain from where they start. -/
def tight (s : Search) : List SearchEdge :=
  s.edges.filter fun e => s.distance e.source == addWeight (s.distance e.target) e.cast.weight

/-- The number of walks from each node to node zero along `edges`, in a graph of `size` nodes; the
counts stop at the greatest weight, which also stands for infinitely many. -/
def walkCounts (edges : List SearchEdge) (size : Nat) : (rounds : Nat) → Array Weight
  | 0 => Array.replicate size maxWeight
  | rounds + 1 =>
    let before := walkCounts edges size rounds
    let sums := edges.foldl
      (fun sums e => sums.modify e.source (addWeight · (before.getD e.target 0)))
      (Array.replicate size 0)
    sums.setIfInBounds 0 1

/-- The number of cheapest chains from node `i`. -/
def chainCount (s : Search) (i : Nat) : Weight :=
  (walkCounts s.tight s.nodes.length s.nodes.length).getD i 0

/-- Follows tight conversions from node `i` to the destination. -/
def follow (edges : List SearchEdge) : (fuel : Nat) → Nat → Option (List Cast)
  | _, 0 => some []
  | 0, _ => none
  | fuel + 1, i =>
    match edges.find? (·.source == i) with
    | none => none
    | some e => (follow edges fuel e.target).map (e.cast :: ·)

/-- The cheapest chain from node `i`, where it is the only one. -/
def chain (s : Search) (i : Nat) : Option (List Cast) := follow s.tight s.nodes.length i

end Search

end RangeTyping
