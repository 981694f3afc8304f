import Preflight.Yaml.Lexer
import Preflight.Yaml.Node
import Preflight.Yaml.Resolve
/-!
Reading YAML: the tree of the only document of a text. Aliases are replaced by what they stand for,
up to a limit on how often and how deep; a map may not have two equal keys.
-/

namespace Preflight.Yaml

/-! ## Equal keys -/

mutual

/-- Whether two trees are the same value: the order of a map's entries does not count. -/
def sameTree : Tree → Tree → Bool
  | .null, .null => true
  | .bool a, .bool b => a == b
  | .int a, .int b => a == b
  | .float a, .float b => a.sameValue b
  | .text a, .text b => a == b
  | .date a, .date b => a == b
  | .list as, .list bs => sameItems as bs
  | .map as, .map bs => as.length == bs.length && sameEntries as bs
  | .tagged s a, .tagged t b => s == t && sameTree a b
  | _, _ => false

/-- Whether two lists hold the same values in the same order. -/
def sameItems : List Tree → List Tree → Bool
  | [], [] => true
  | a :: as, b :: bs => sameTree a b && sameItems as bs
  | _, _ => false

/-- Whether every entry of one map is among those of another. -/
def sameEntries : List (Tree × Tree) → List (Tree × Tree) → Bool
  | [], _ => true
  | (k, v) :: es, fs => fs.any (fun f => sameTree k f.1 && sameTree v f.2) && sameEntries es fs

end

/-! ## Anchors and aliases -/

mutual

/-- The nodes under anchors, in the order in which they start. -/
def targets : Node → List (Nat × Node)
  | .anchored a n => (a, n) :: targets n
  | .list _ items => targetsOfItems items
  | .map _ entries => targetsOfEntries entries
  | _ => []

/-- The nodes under anchors in the items of a list. -/
def targetsOfItems : List Node → List (Nat × Node)
  | [] => []
  | n :: ns => targets n ++ targetsOfItems ns

/-- The nodes under anchors in the entries of a map. -/
def targetsOfEntries : List (Node × Node) → List (Nat × Node)
  | [] => []
  | (k, v) :: es => targets k ++ targets v ++ targetsOfEntries es

end

mutual

/-- The size of a node: scalars and aliases count once, lists and maps at their start and end. -/
def size : Node → Nat
  | .anchored _ n => size n
  | .list _ items => 2 + sizeOfItems items
  | .map _ entries => 2 + sizeOfEntries entries
  | _ => 1

/-- The size of the items of a list. -/
def sizeOfItems : List Node → Nat
  | [] => 0
  | n :: ns => size n + sizeOfItems ns

/-- The size of the entries of a map. -/
def sizeOfEntries : List (Node × Node) → Nat
  | [] => 0
  | (k, v) :: es => size k + size v + sizeOfEntries es

end

/-- What is known of a document while its tree is built. -/
structure Anchors where
  /-- The nodes that aliases stand for; of several with one number the last one counts. -/
  nodes : List (Nat × Node)
  /-- How many aliases may be replaced. -/
  limit : Nat

/-- A step that counts the aliases replaced so far. -/
abbrev Build := StateT Nat Option

/-- A node without its anchor. -/
def withoutAnchor : Node → Node
  | .anchored _ n => withoutAnchor n
  | n => n

/-- A node, or what it stands for if it is an alias. -/
def target (a : Anchors) (n : Node) : Build Node := do
  match withoutAnchor n with
  | .reference number =>
    let used := (← get) + 1
    set used
    if used > a.limit then failure
    match a.nodes.lookup number with
    | some n => return withoutAnchor n
    | none => failure
  | n => return n

/-- How many lists and maps may stand inside each other. -/
def maxDepth : Nat := 128

/-- Builds the entries of a map, refusing a key that is among those before it. -/
def buildEntries (build : Node → Build Tree) (seen : List Tree) :
    List (Node × Node) → Build (List (Tree × Tree))
  | [] => return []
  | (k, v) :: es => do
    let key ← build k
    -- Keys are compared by what they mean, so `~` and `null` are one key.
    if seen.any (sameTree key) then failure
    let value ← build v
    return (key, value) :: (← buildEntries build (key :: seen) es)

/-- Builds the tree of a node with at most `depth` lists and maps inside each other. -/
def build (a : Anchors) (depth : Nat) (n : Node) : Build Tree := do
  match ← target a n, depth with
  | .scalar tag isPlain text, _ => resolve tag isPlain text
  | .list tag items, depth + 1 => return underTag tag (.list (← items.mapM (build a depth)))
  | .map tag entries, depth + 1 =>
    return underTag tag (.map (← buildEntries (build a depth) [] entries))
  | _, _ => failure

/-- The tree of a document. -/
def treeOf (root : Node) : Option Tree :=
  let anchors : Anchors := ⟨(targets root).reverse, 100 * size root⟩
  ((build anchors maxDepth root).run 0).map (·.1)

/-- Why a text yields no tree. -/
inductive Problem where
  | malformed
  | manyDocuments
  deriving DecidableEq, Repr

/-- The tree of a YAML text; a text without document is null. -/
def parse (text : String) : Except Problem Tree :=
  match Stream.ofTokens? (tokens text) with
  | none => .error .malformed
  | some .empty => .ok .null
  | some (.document root more) =>
    match treeOf root with
    | none => .error .malformed
    | some t => if more then .error .manyDocuments else .ok t

end Preflight.Yaml
