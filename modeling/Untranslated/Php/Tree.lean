/-
This file defines the syntax trees of PHP code.
A tree has the tokens as leaves. Its placed form adds the places in the text and the extras.
-/

import Untranslated.Php.Lexeme

namespace Untranslated.Php

/-- The kinds of nodes that the analyses tell apart. The others are plain expressions,
statements, declarations and clauses. Marks and keywords are `token` leaves. -/
inductive Kind where
  | token
  | comment
  | markup
  | program
  | statement
  | returnStatement
  | useDeclaration
  | declaration
  | clause
  | expression
  | name
  | qualifiedName
  | relativeName
  | relativeScope
  | variable
  | dynamicVariable
  | member
  | nullsafeMember
  | staticMember
  | classConstant
  | subscript
  | functionCall
  | memberCall
  | nullsafeCall
  | staticCall
  | construction
  | bareConstruction
  | cast
  | parenthesized
  | binary
  | arguments
  | argument
  | spread
  | byReference
  | array
  | arrayElement
  | destructuring
  | singleQuoted
  | doubleQuoted
  | heredoc
  | nowdoc
  | template
  | integer
  | real
  | type
deriving DecidableEq

/-- Marks and keywords have no name of their own. -/
def Kind.isNamed (kind : Kind) : Bool := kind != .token

/-- The part that a child plays in its parent. -/
inductive Role where
  | none
  | function
  | arguments
  | scope
  | name
  | object
  | operator
  | left
  | right
deriving DecidableEq

/-- A parse tree. A separator is the end of a statement at the end of a stretch of code. It holds
no token. -/
inductive Tree where
  | leaf (kind : Kind) (lexeme : Lexeme)
  | separator
  | branch (kind : Kind) (children : List (Role × Tree))

abbrev Child := Role × Tree

def Tree.kind : Tree → Kind
  | .leaf kind _ => kind
  | .separator => .token
  | .branch kind _ => kind

def Tree.children : Tree → List Child
  | .branch _ children => children
  | _ => []

/-- A node has a place in the text. Comments and template text are nodes among the children. -/
inductive Node where
  | mk (kind : Kind) (role : Role) (spelling : String) (start stop : Nat) (children : List Node)

namespace Node

def kind : Node → Kind
  | .mk kind _ _ _ _ _ => kind

def role : Node → Role
  | .mk _ role _ _ _ _ => role

/-- Only marks and words have a spelling. -/
def spelling : Node → String
  | .mk _ _ spelling _ _ _ => spelling

def start : Node → Nat
  | .mk _ _ _ start _ _ => start

def stop : Node → Nat
  | .mk _ _ _ _ stop _ => stop

def children : Node → List Node
  | .mk _ _ _ _ _ children => children

/-- The children that are neither marks nor keywords. -/
def namedChildren (node : Node) : List Node := node.children.filter (·.kind.isNamed)

/-- The first child that plays a part. -/
def child? (node : Node) (role : Role) : Option Node := node.children.find? (·.role == role)

mutual

/-- The number of nodes in a tree. -/
def size : Node → Nat
  | .mk _ _ _ _ _ children => 1 + sizes children

def sizes : List Node → Nat
  | [] => 0
  | node :: rest => node.size + sizes rest

end

/-- The sizes of two rows add up. -/
theorem sizesAppend (first second : List Node) :
    sizes (first ++ second) = sizes first + sizes second := by
  induction first with
  | nil => simp [sizes]
  | cons node rest inductionHypothesis => simp [sizes, inductionHypothesis, Nat.add_assoc]

/-- A tree has one node at least. -/
theorem sizePositive (node : Node) : 0 < node.size := by
  cases node
  simp only [size]
  omega

/-- A child is smaller than its parent. -/
theorem sizeOfMember {node child : Node} (member : child ∈ node.children) :
    child.size < node.size := by
  cases node with
  | mk kind role spelling start stop nodes =>
      change child ∈ nodes at member
      have bounded : child.size ≤ sizes nodes := by
        induction nodes with
        | nil => simp at member
        | cons first rest inductionHypothesis =>
            simp only [sizes]
            rcases List.mem_cons.mp member with rfl | member
            · omega
            · have := inductionHypothesis member
              omega
      simp only [size]
      omega

theorem sizeOfNamed {node child : Node} (member : child ∈ node.namedChildren) :
    child.size < node.size :=
  sizeOfMember (List.mem_filter.mp member).1

theorem sizeOfChild {node child : Node} {role : Role} (found : node.child? role = some child) :
    child.size < node.size :=
  sizeOfMember (List.mem_of_find?_eq_some found)

/-- What holds of a node if it holds of every smaller one holds of all nodes. -/
@[elab_as_elim]
theorem bySize {motive : Node → Prop}
    (step : ∀ node : Node, (∀ other : Node, other.size < node.size → motive other) → motive node)
    (node : Node) : motive node :=
  (measure Node.size).wf.induction node step

/-- The nodes still to be visited give their children to the front of the row. -/
def visit : List Node → List Node
  | [] => []
  | node :: rest => node :: visit (node.children ++ rest)
termination_by row => sizes row
decreasing_by
  cases node
  simp only [sizesAppend, sizes, size, children]
  omega

/-- All nodes, each before its children, and children from left to right. -/
def nodes (node : Node) : List Node := visit [node]

mutual

/-- The same nodes, by recursion on the tree. -/
def preorder : Node → List Node
  | .mk kind role spelling start stop children =>
    .mk kind role spelling start stop children :: preorders children

def preorders : List Node → List Node
  | [] => []
  | node :: rest => node.preorder ++ preorders rest

end

/-- Two rows of trees have their nodes in a row. -/
theorem preordersAppend (first second : List Node) :
    preorders (first ++ second) = preorders first ++ preorders second := by
  induction first with
  | nil => rfl
  | cons node rest inductionHypothesis => simp [preorders, inductionHypothesis]

/-- The two orders of the nodes are the same. -/
theorem visitPreorders (row : List Node) : visit row = preorders row := by
  fun_induction visit row with
  | case1 => rfl
  | case2 node rest inductionHypothesis =>
      cases node
      simpa [preordersAppend, preorders, preorder, children] using inductionHypothesis

end Node

def Filler.kind : Filler → Kind
  | .markup => .markup
  | _ => .comment

def Extra.node (extra : Extra) : Node :=
  .mk extra.filler.kind .none "" extra.start extra.stop []

/-- A statement that ends with a stretch of code keeps the comments that stand before the closing
tag, save line comments at the end that a newline ends. -/
def keptLead (lead : List Extra) : List Extra :=
  let before := lead.takeWhile (·.filler != .markup)
  let tag := (lead.find? (·.filler == .markup)).map (·.start)
  (before.reverse.dropWhile fun extra =>
    extra.filler == .lineComment && some extra.stop != tag).reverse

/-- A placed tree: the extras in front of it, its node, and the tokens after it. -/
structure Placed where
  lead : List Extra
  node : Node
  rest : List Token

/-- Where the last of some nodes ends. -/
def lastStop (fallback : Nat) (nodes : List Node) : Nat :=
  match nodes.getLast? with
  | some node => node.stop
  | none => fallback

mutual

/-- The leaves of a tree take the tokens in order. The extras in front of the first leaf stand in
front of the whole tree. -/
def Tree.place (role : Role) (place : Nat) : Tree → List Token → Placed
  | .leaf kind lexeme, token :: rest =>
    ⟨token.lead, .mk kind role lexeme.spelling token.start token.stop [], rest⟩
  | .leaf kind lexeme, [] => ⟨[], .mk kind role lexeme.spelling place place [], []⟩
  | .separator, token :: rest =>
    let kept := keptLead token.lead
    let stop := (kept.getLast?.map (·.stop)).getD place
    ⟨kept, .mk .token role "" stop stop [],
      { token with lead := token.lead.drop kept.length } :: rest⟩
  | .separator, [] => ⟨[], .mk .token role "" place place [], []⟩
  | .branch kind [], tokens => ⟨[], .mk kind role "" place place [], tokens⟩
  | .branch kind ((role', first) :: others), tokens =>
    let placed := first.place role' place tokens
    let (nodes, rest) := placeOthers placed.node.stop others placed.rest
    ⟨placed.lead,
      .mk kind role "" placed.node.start (lastStop placed.node.stop nodes) (placed.node :: nodes),
      rest⟩

/-- The children after the first, with the extras between them. -/
def placeOthers (place : Nat) : List Child → List Token → List Node × List Token
  | [], tokens => ([], tokens)
  | (role, tree) :: others, tokens =>
    let placed := tree.place role place tokens
    let (nodes, rest) := placeOthers placed.node.stop others placed.rest
    (placed.lead.map Extra.node ++ placed.node :: nodes, rest)

end

/-- The node of a whole tree, from the beginning of the text on. Extras in front of it become its
first children. -/
def Tree.toNode (tree : Tree) (tokens : List Token) : Node :=
  let placed := tree.place .none 0 tokens
  match placed.node with
  | .mk kind role spelling _ stop children =>
    .mk kind role spelling 0 stop (placed.lead.map Extra.node ++ children)

end Untranslated.Php
