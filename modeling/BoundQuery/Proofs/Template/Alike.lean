/-
# Templates of one shape

Two lists of nodes are alike if they differ at most in the pipelines of their actions. What is asked
of the texts, of corresponding actions and of the other pipelines is a parameter.

Main statements: `alike_self`, `alike_capture`.
-/

import BoundQuery.Proofs.Template.Parts
import BoundQuery.Template.Capture

namespace BoundQuery.Template

open Text (Pos)

/-- What is asked of two templates of one shape. -/
structure Likeness where
  /-- Asked of the texts, which are the same. -/
  text : String → Prop
  /-- Asked of corresponding actions. -/
  action : Pipeline → Pipeline → Prop
  /-- Asked of the pipelines of control structures and calls, which are the same. -/
  source : Pipeline → Prop

mutual

/-- Two nodes of one shape. -/
inductive Alike (l : Likeness) : Node → Node → Prop
  | text {s : String} : l.text s → Alike l (.text s) (.text s)
  | action {p q : Pipeline} : l.action p q → Alike l (.action p) (.action q)
  | control {kind : Control} {pos : Pos} {p : Pipeline} {body body' : List Node}
      {otherwise otherwise' : Option (List Node)} :
      l.source p → AlikeNodes l body body' → AlikeOtherwise l otherwise otherwise' →
      Alike l (.control kind pos p body otherwise) (.control kind pos p body' otherwise')
  | invoke {pos : Pos} {name : String} {data : Option Pipeline} :
      (∀ p ∈ data, l.source p) → Alike l (.invoke pos name data) (.invoke pos name data)
  | jump {kind : Jump} {pos : Pos} : Alike l (.jump kind pos) (.jump kind pos)

/-- Two lists of nodes of one shape. -/
inductive AlikeNodes (l : Likeness) : List Node → List Node → Prop
  | nil : AlikeNodes l [] []
  | cons {n n' : Node} {rest rest' : List Node} :
      Alike l n n' → AlikeNodes l rest rest' → AlikeNodes l (n :: rest) (n' :: rest')

/-- The nodes after `else`, in one shape. -/
inductive AlikeOtherwise (l : Likeness) : Option (List Node) → Option (List Node) → Prop
  | none : AlikeOtherwise l none none
  | some {nodes nodes' : List Node} :
      AlikeNodes l nodes nodes' → AlikeOtherwise l (some nodes) (some nodes')

end

/-- What makes a node alike to itself. -/
def Likeness.Admits (l : Likeness) : Node → Prop
  | .text s => l.text s
  | .action p => l.action p p
  | .control _ _ p _ _ => l.source p
  | .invoke _ _ data => ∀ p ∈ data, l.source p
  | .jump _ _ => True

/-- What makes a captured node alike to the node that it came from. -/
def Likeness.AdmitsCapture (l : Likeness) : Node → Prop
  | .action p => ∀ bound, l.action (if p.setsVariables then p else p.capture bound) p
  | n => l.Admits n

variable {l : Likeness}

/-! ### The same nodes twice -/

mutual

theorem alike_self : ∀ n : Node, (∀ m ∈ n.tree, l.Admits m) → Alike l n n
  | .text s, h => .text (h (.text s) (mem_tree_self _))
  | .action p, h => .action (h (.action p) (mem_tree_self _))
  | .control kind pos p body otherwise, h => by
    have hinner : ∀ m ∈ nodesWithin body ++ nodesOtherwise otherwise, l.Admits m :=
      fun m hm => h m (by simp [Node.tree, List.mem_append.mp hm])
    refine .control (h (.control kind pos p body otherwise) (mem_tree_self _)) ?_ ?_
    · exact alikeNodes_self body fun m hm => hinner m (by simp [hm])
    · exact alikeOtherwise_self otherwise fun m hm => hinner m (by simp [hm])
  | .invoke pos name data, h => .invoke (h (.invoke pos name data) (mem_tree_self _))
  | .jump _ _, _ => .jump

theorem alikeNodes_self :
    ∀ nodes : List Node, (∀ m ∈ nodesWithin nodes, l.Admits m) → AlikeNodes l nodes nodes
  | [], _ => .nil
  | n :: rest, h => by
    refine .cons ?_ ?_
    · exact alike_self n fun m hm => h m (by simp [nodesWithin, hm])
    · exact alikeNodes_self rest fun m hm => h m (by simp [nodesWithin, hm])

theorem alikeOtherwise_self : ∀ otherwise : Option (List Node),
    (∀ m ∈ nodesOtherwise otherwise, l.Admits m) → AlikeOtherwise l otherwise otherwise
  | none, _ => .none
  | some nodes, h => .some (alikeNodes_self nodes h)

end

/-! ### Captured nodes and the nodes that they came from -/

mutual

theorem alike_capture : ∀ (loop earlier : List String) (n : Node),
    (∀ m ∈ n.tree, l.AdmitsCapture m) → Alike l (n.capture loop earlier) n
  | _, _, .text s, h => .text (h (.text s) (mem_tree_self _))
  | loop, earlier, .action p, h => by
    have hp : l.AdmitsCapture (.action p) := h _ (mem_tree_self _)
    have happ := hp (loop ++ earlier)
    rw [Node.capture]
    split at happ
    · rename_i hsets
      rw [if_pos hsets]
      exact .action happ
    · rename_i hsets
      rw [if_neg hsets]
      exact .action happ
  | loop, _, .control kind pos p body otherwise, h => by
    have hinner : ∀ m ∈ nodesWithin body ++ nodesOtherwise otherwise, l.AdmitsCapture m :=
      fun m hm => h m (by simp [Node.tree, List.mem_append.mp hm])
    have hp : l.AdmitsCapture (.control kind pos p body otherwise) := h _ (mem_tree_self _)
    refine .control hp ?_ ?_
    · exact alikeNodes_capture _ _ body fun m hm => hinner m (by simp [hm])
    · exact alikeOtherwise_capture loop otherwise fun m hm => hinner m (by simp [hm])
  | _, _, .invoke pos name data, h => .invoke (h (.invoke pos name data) (mem_tree_self _))
  | _, _, .jump _ _, _ => .jump

theorem alikeNodes_capture : ∀ (loop earlier : List String) (nodes : List Node),
    (∀ m ∈ nodesWithin nodes, l.AdmitsCapture m) →
      AlikeNodes l (captureNodes loop earlier nodes) nodes
  | _, _, [], _ => .nil
  | loop, earlier, n :: rest, h => by
    refine .cons ?_ ?_
    · exact alike_capture loop earlier n fun m hm => h m (by simp [nodesWithin, hm])
    · exact alikeNodes_capture loop _ rest fun m hm => h m (by simp [nodesWithin, hm])

theorem alikeOtherwise_capture : ∀ (loop : List String) (otherwise : Option (List Node)),
    (∀ m ∈ nodesOtherwise otherwise, l.AdmitsCapture m) →
      AlikeOtherwise l (captureOtherwise loop otherwise) otherwise
  | _, none, _ => .none
  | loop, some nodes, h => .some (alikeNodes_capture loop [] nodes h)

end

end BoundQuery.Template
