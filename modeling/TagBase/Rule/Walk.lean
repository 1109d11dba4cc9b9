import TagBase.OrderedSet
import TagBase.Rule.Basic

namespace TagBase

/-- A breadth-first walk under way. -/
structure Walk where
  met : OrderedSet Pair
  /-- The met pairs that wait for their expansion, oldest first. -/
  queue : List Pair
  /-- The expanded pairs, in the order of their expansion. -/
  expanded : List Pair
deriving DecidableEq

namespace Walk

def meet (walk : Walk) (pair : Pair) : Walk :=
  if pair ∈ walk.met then walk
  else { walk with met := walk.met.insert pair, queue := walk.queue ++ [pair] }

def meetAll (walk : Walk) (pairs : List Pair) : Walk := pairs.foldl meet walk

def start (seeds : List Pair) : Walk := meetAll ⟨.empty, [], []⟩ seeds

/-- Expands the oldest queued pair: its neighbours are met. -/
def step (next : Pair → List Pair) (walk : Walk) : Walk :=
  match walk.queue with
  | [] => walk
  | pair :: rest =>
      meetAll { walk with queue := rest, expanded := walk.expanded ++ [pair] } (next pair)

def run (next : Pair → List Pair) : Nat → Walk → Walk
  | 0, walk => walk
  | steps + 1, walk => run next steps (walk.step next)

end Walk

end TagBase
