/-
# Capturing twice

Capturing settles each action: afterwards it sets variables, is empty, hands its value to the capture
function, or is written like a name that is bound at its site. What is settled stays, so capturing a
captured template changes nothing, whatever tree it came from.

Main statement: `capture_capture`.
-/

import BoundQuery.Proofs.Template.Captured

namespace BoundQuery

namespace Template

/-! ### Pipelines -/

/-- Nothing is left to capture of an action with this pipeline, where these names are bound. -/
inductive Pipeline.Settled (bound : String → Prop) (p : Pipeline) : Prop
  | sets : p.setsVariables = true → Settled bound p
  | empty : p.commands = [] → Settled bound p
  | captures : p.capturesValue = true → Settled bound p
  | writes {c : Command} {name : String} :
      p.commands.getLast? = some c → c.render = name.toList → bound name → Settled bound p

namespace Pipeline

variable {p : Pipeline}

theorem Settled.mono {bound bound' : String → Prop} (h : p.Settled bound)
    (hbound : ∀ name, bound name → bound' name) : p.Settled bound' := by
  cases h with
  | sets h => exact .sets h
  | empty h => exact .empty h
  | captures h => exact .captures h
  | writes hlast hrender hname => exact .writes hlast hrender (hbound _ hname)

/-- A settled action is left as it is. -/
theorem Settled.captureAction {bound : List String} (h : p.Settled (· ∈ bound)) :
    p.captureAction bound = p := by
  unfold Pipeline.captureAction
  split
  · rfl
  · rename_i hsets
    unfold Pipeline.capture
    split
    · rfl
    · rename_i last hlast
      refine if_pos ?_
      rw [Bool.or_eq_true]
      cases h with
      | sets h => exact absurd h hsets
      | empty h =>
        rw [h] at hlast
        cases hlast
      | captures h =>
        rw [capturesValue, hlast] at h
        exact .inl h
      | writes hlast' hrender hname =>
        cases hlast.symm.trans hlast'
        rw [Command.writesBound, List.contains_iff_mem, hrender, String.ofList_toList]
        exact .inr hname

/-- Capturing settles an action. -/
theorem settled_captureAction (bound : List String) (p : Pipeline) :
    (p.captureAction bound).Settled (· ∈ bound) := by
  unfold captureAction
  split
  · exact .sets ‹_›
  · unfold capture
    split
    · rename_i hlast
      exact .empty (List.getLast?_eq_none_iff.mp hlast)
    · rename_i last hlast
      split
      · rename_i hleft
        rcases Bool.or_eq_true_iff.mp hleft with hcapture | hwrites
        · refine .captures ?_
          rw [capturesValue, hlast]
          exact hcapture
        · rw [Command.writesBound, List.contains_iff_mem] at hwrites
          exact .writes hlast (String.toList_ofList).symm hwrites
      · exact .captures (p.capturesValue_handOn last.pos)

end Pipeline

/-! ### Nodes -/

theorem namesSet_capture (loop earlier : List String) (n : Node) :
    (n.capture loop earlier).namesSet = n.namesSet := by
  cases n with
  | action p =>
    rw [Node.capture_action]
    exact p.names_captureAction (loop ++ earlier)
  | _ => rfl

mutual

theorem Node.capture_again (loop earlier : List String) :
    ∀ n : Node, (n.capture loop earlier).capture loop earlier = n.capture loop earlier
  | .text _ => rfl
  | .action p => by
    rw [Node.capture_action, Node.capture_action, (p.settled_captureAction _).captureAction]
  | .control kind pos p body otherwise => by
    rw [Node.capture, Node.capture, captureNodes_again _ [] body,
      captureOtherwise_again loop otherwise]
  | .invoke _ _ _ => rfl
  | .jump _ _ => rfl

/-- The second time the same names are bound at each node as the first time. -/
theorem captureNodes_again (loop earlier : List String) :
    ∀ nodes : List Node, captureNodes loop earlier (captureNodes loop earlier nodes) =
      captureNodes loop earlier nodes
  | [] => rfl
  | n :: rest => by
    rw [captureNodes_cons, captureNodes_cons, namesSet_capture, Node.capture_again loop earlier n,
      captureNodes_again loop _ rest]

theorem captureOtherwise_again (loop : List String) :
    ∀ otherwise : Option (List Node),
      captureOtherwise loop (captureOtherwise loop otherwise) = captureOtherwise loop otherwise
  | none => rfl
  | some nodes => by
    rw [captureOtherwise, captureOtherwise, captureNodes_again loop [] nodes]

end

/-! ### Templates -/

/-- Capturing a captured template, of whatever tree, changes nothing: each action in its root and in
its definitions is settled, with the names that the template it came from binds at its site. -/
theorem capture_capture (t : Template) :
    t.capture.capture = t.capture ∧
      ∀ site p, t.capture.actionAt? site = some p → p.Settled (t.Binds site) := by
  constructor
  · simp only [capture, captureNodes_again, List.map_map]
    congr 1
    refine List.map_congr_left fun d _ => ?_
    simp [captureNodes_again]
  · intro site p hp
    obtain ⟨bound, hbound, hcapture⟩ := t.actionAt?_capture site
    rw [hcapture] at hp
    obtain ⟨q, hq, rfl⟩ := Option.map_eq_some_iff.mp hp
    have hlist : t.listOf? site ≠ none := by
      obtain ⟨list, hlist, -⟩ := Option.bind_eq_some_iff.mp hq
      simp [hlist]
    exact (q.settled_captureAction bound).mono fun name => (hbound name hlist).mp

end Template

end BoundQuery
