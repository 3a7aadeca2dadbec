import Workflow.Assoc

/-! Directed graphs over named nodes, given in declaration order: cycles, ordering and reachability. Edges with an
undeclared end are left out and repeated edges count once. -/

namespace Workflow

structure Graph where
  nodes : List String
  edges : List (String × String)
  deriving DecidableEq, Repr

namespace Graph

def ofEdges (nodes : List String) (edges : List (String × String)) : Graph where
  nodes := nodes
  edges := (edges.filter fun e => nodes.contains e.1 && nodes.contains e.2).eraseDups

def successors (g : Graph) (n : String) : List String := (g.edges.filter (·.1 = n)).map Prod.snd

def predecessors (g : Graph) (n : String) : List String := (g.edges.filter (·.2 = n)).map Prod.fst

/-! ### Cycles -/

/-- What a depth-first search has finished and the cycles its back edges have closed. -/
structure Search where
  finished : List String
  cycles : List (List String)

/-- Visits a node below the nodes of the path, outermost first. An edge back into the path closes a cycle. -/
def visit (g : Graph) : Nat → List String → String → Search → Search
  | 0, _, _, s => s
  | fuel + 1, path, n, s =>
    let path := path ++ [n]
    let s := (g.successors n).foldl (fun (s : Search) next =>
      if path.contains next then { s with cycles := s.cycles ++ [path.dropWhile (· ≠ next)] }
      else if s.finished.contains next then s
      else g.visit fuel path next s) s
    { s with finished := n :: s.finished }

/-- The cycles closed by back edges, in the order a search from every node in turn meets them. -/
def backCycles (g : Graph) : List (List String) :=
  let enter (s : Search) (n : String) : Search :=
    if s.finished.contains n then s else g.visit (g.nodes.length + 1) [] n s
  (g.nodes.foldl enter ⟨[], []⟩).cycles

/-- Breadth-first search for an edge to the goal. A queued path has its last node first. -/
def searchBack (g : Graph) (goal : String) : Nat → List (List String) → List String → Option (List String)
  | 0, _, _ => none
  | _, [], _ => none
  | fuel + 1, path :: queue, seen =>
    let next := g.successors (path.headD goal)
    if next.contains goal then some path.reverse
    else
      let fresh := next.filter fun n => !seen.contains n
      g.searchBack goal fuel (queue ++ fresh.map (· :: path)) (seen ++ fresh)

/-- A shortest cycle through a node, from the node to its last member. -/
def cycleThrough (g : Graph) (n : String) : Option (List String) :=
  g.searchBack n (g.nodes.length + 1) [[n]] []

/-- Adds a cycle for a node that lies on none of the cycles found so far, if there is one. -/
def coverNode (g : Graph) (cycles : List (List String)) (n : String) : List (List String) :=
  if cycles.any (·.contains n) then cycles
  else
    match g.cycleThrough n with
    | none => cycles
    | some cycle => cycles ++ [cycle]

def closed (cycle : List String) : List String := cycle ++ cycle.take 1

/-- Cycles that together cover every node lying on any cycle, each written from a node back to itself. -/
def cycles (g : Graph) : List (List String) := (g.nodes.foldl g.coverNode g.backCycles).map closed

/-! ### Ordering -/

/-- The first declared node that is not yet placed while all its predecessors are. -/
def nextReady? (g : Graph) (placed : List String) : Option String :=
  g.nodes.find? fun n => !placed.contains n && (g.predecessors n).all placed.contains

def place (g : Graph) : Nat → List String → List String
  | 0, placed => placed
  | fuel + 1, placed =>
    match g.nextReady? placed with
    | none => placed
    | some n => g.place fuel (placed ++ [n])

/-- An order in which every edge leads forward, the earliest in declaration order; the cycles if there is none. -/
def order (g : Graph) : Except (List (List String)) (List String) :=
  let placed := g.place g.nodes.length []
  if placed.length = g.nodes.length then .ok placed else .error g.cycles

/-! ### Ordering by counting -/

/-- How far an ordering has come that counts edges instead of looking back along them: for each node the number of
edges that still lead to it from nodes not yet placed, and the nodes that no such edge holds back any more. -/
structure Countdown where
  waits : Assoc Nat
  ready : List String
  placed : List String

namespace Countdown

/-- Counts down one edge that leads to a node; there must be one left to count. -/
def release (c : Countdown) (n : String) : Option Countdown :=
  match Assoc.get? c.waits n with
  | some (left + 1) =>
    some { c with waits := Assoc.put n left c.waits, ready := if left = 0 then n :: c.ready else c.ready }
  | _ => none

/-- Moves a node from those that are ready to those that are placed. -/
def settle (c : Countdown) (n : String) : Countdown :=
  { c with ready := c.ready.erase n, placed := c.placed ++ [n] }

end Countdown

def countdown (g : Graph) : Countdown where
  waits := g.nodes.map fun n => (n, (g.predecessors n).length)
  ready := g.nodes.filter fun n => (g.predecessors n).isEmpty
  placed := []

/-- Places the first declared node that is ready and counts down the edges that leave it, as long as there is one. -/
def count (g : Graph) : Nat → Countdown → Option Countdown
  | 0, c => some c
  | fuel + 1, c =>
    match g.nodes.find? c.ready.contains with
    | none => some c
    | some n => ((g.successors n).foldlM Countdown.release (c.settle n)).bind (g.count fuel)

/-- The same order, found by counting; there is none if some edge would have to be counted that no one is left of. -/
def orderByCounting (g : Graph) : Option (Except (List (List String)) (List String)) :=
  (g.count g.nodes.length g.countdown).map fun c =>
    if c.placed.length = g.nodes.length then .ok c.placed else .error g.cycles

/-! ### Reachability -/

/-- Adds every node one edge away. -/
def grow (g : Graph) (seen : List String) : List String :=
  seen ++ g.nodes.filter fun n => !seen.contains n && (g.predecessors n).any seen.contains

def reach (g : Graph) (start : String) : Nat → List String
  | 0 => [start]
  | rounds + 1 => g.grow (g.reach start rounds)

/-- The declared nodes to which no path of edges leads; none if the start is not declared. -/
def unreachableFrom (g : Graph) (start : String) : List String :=
  if g.nodes.contains start then
    let reached := g.reach start g.nodes.length
    g.nodes.filter fun n => !reached.contains n
  else []

/-! ### Reachability by a queue -/

/-- Takes the nodes of a queue in turn and queues the ends of their edges that were not met before. -/
def spread (g : Graph) : Nat → List String → List String → List String
  | 0, _, seen => seen
  | _, [], seen => seen
  | fuel + 1, n :: queue, seen =>
    let fresh := (g.successors n).filter fun m => !seen.contains m
    g.spread fuel (queue ++ fresh) (seen ++ fresh)

/-- The same nodes, found by taking every node that is met off a queue once. -/
def unreachableByQueue (g : Graph) (start : String) : List String :=
  if g.nodes.contains start then
    let reached := g.spread g.nodes.length [start] [start]
    g.nodes.filter fun n => !reached.contains n
  else []

end Graph

end Workflow
