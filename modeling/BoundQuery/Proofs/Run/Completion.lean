/-
# Lists are walked to their end

What was checked before a template became one holds at every node that a run comes to: the functions
that the node names are known, and no pipeline that it evaluates lacks commands, or a command its
operands. A jump stands in the body of a loop only, so a list outside such a body is walked to its
end, and neither the root nor the body of a definition ends with a jump.

Main statement: `runs_as_checked`.
-/

import Mathlib.Data.List.Induction
import BoundQuery.Proofs.Run.Steps
import BoundQuery.Proofs.Run.Undefined

namespace BoundQuery

namespace Template

open Text (Pos)

variable {isFunction : String → Bool} {t : Template} {site : Site}

/-! ### Lists outside loops -/

/-- The site is in the body of a loop. -/
def InLoop (t : Template) (site : Site) : Prop :=
  ∃ loop pos p body otherwise, t.nodeAt? loop = some (.control .range pos p body otherwise) ∧
    loop.body.Encloses site

theorem InLoop.enclosed {inner : Site} (h : t.InLoop site) (hinner : site.Encloses inner) :
    t.InLoop inner := by
  obtain ⟨loop, pos, p, body, otherwise, hnode, hencloses⟩ := h
  exact ⟨loop, pos, p, body, otherwise, hnode, hencloses.trans hinner⟩

/-- The nodes of a checked list were checked. -/
theorem exists_checked_of_mem_list {names : Names} {inLoop : Bool} {nodes : List Node}
    (h : CheckedNodes names inLoop nodes) {n : Node} (hn : n ∈ nodes) :
    ∃ names, n.Checked names inLoop := by
  induction nodes generalizing names with
  | nil => cases hn
  | cons first rest ih =>
    rcases List.mem_cons.mp hn with rfl | hn
    · exact ⟨names, h.1⟩
    · exact ih h.2 hn

/-- A list of a checked template that is in the body of no loop was checked as such. -/
theorem Checked.list {list : List Node} (h : t.Checked isFunction) (hlist : t.listOf? site = some list)
    (houtside : ¬ t.InLoop site) : ∃ names, CheckedNodes names false list := by
  obtain ⟨definition, path, index⟩ := site
  -- The list around the last step of the path is in no loop either.
  induction path using List.reverseRecOn generalizing index list with
  | nil =>
    obtain ⟨nodes, hbody, hpath⟩ := Option.bind_eq_some_iff.mp hlist
    cases hpath
    exact ⟨_, h.body hbody⟩
  | append_singleton path step ih =>
    obtain ⟨nodes, hbody, hpath⟩ := Option.bind_eq_some_iff.mp hlist
    rw [listAt?_append] at hpath
    obtain ⟨outer, houter, hstep⟩ := Option.bind_eq_some_iff.mp hpath
    have houterList : ∀ i, t.listOf? ⟨definition, path, i⟩ = some outer :=
      fun i => Option.bind_eq_some_iff.mpr ⟨nodes, hbody, houter⟩
    have houterOutside : ∀ i, ¬ t.InLoop ⟨definition, path, i⟩ := fun i hloop =>
      houtside (hloop.enclosed ⟨rfl, List.prefix_append _ _⟩)
    obtain ⟨names, hchecked⟩ := ih 0 (houterList 0) (houterOutside 0)
    cases step with
    | body i =>
      simp only [Step.listIn?] at hstep
      split at hstep
      · rename_i kind pos p body otherwise hnode
        cases hstep
        obtain ⟨names, -, hbodyChecked, -⟩ :=
          exists_checked_of_mem_list hchecked (List.mem_of_getElem? hnode)
        cases hkind : kind with
        | range =>
          have hloop : t.nodeAt? ⟨definition, path, i⟩ =
              some (.control .range pos p list otherwise) := by
            rw [nodeAt?, houterList i, Option.bind_some, hnode, hkind]
          exact absurd ⟨_, pos, p, list, otherwise, hloop, rfl, List.prefix_rfl⟩ houtside
        | cond | scope =>
          rw [hkind] at hbodyChecked
          exact ⟨_, hbodyChecked⟩
      · cases hstep
    | otherwise i =>
      simp only [Step.listIn?] at hstep
      split at hstep
      · rename_i kind pos p body otherwise hnode
        cases hstep
        obtain ⟨names, -, -, hotherwise⟩ :=
          exists_checked_of_mem_list hchecked (List.mem_of_getElem? hnode)
        exact ⟨_, hotherwise⟩
      · cases hstep

/-! ### Pipelines of captured templates -/

theorem Node.mem_pipelines_capture {loop earlier : List String} {n : Node} {p' : Pipeline}
    (h : p' ∈ (n.capture loop earlier).pipelines) :
    ∃ p ∈ n.pipelines, p' = p ∨ ∃ pos, p' = p.handOn pos := by
  cases n with
  | action p =>
    rw [Node.capture_action] at h
    cases List.mem_singleton.mp h
    exact ⟨p, List.mem_singleton_self p, p.captureAction_eq_or _⟩
  | text s => cases h
  | control kind pos p body otherwise => exact ⟨p', h, .inl rfl⟩
  | invoke pos name data => exact ⟨p', h, .inl rfl⟩
  | jump kind pos => cases h

theorem filled_handOn {p : Pipeline} (h : Filled p.tree) (pos : Pos) : Filled (p.handOn pos).tree := by
  rw [Filled, Pipeline.tree, List.forall_mem_cons] at h ⊢
  refine ⟨by simp [Pipeline.handOn], ?_⟩
  intro q hq
  exact h.2 q (Pipeline.mem_inner_handOn.mp hq)

/-- No pipeline of a parsed template is empty, captured or not. -/
theorem filled_of_nodeAt? {source : List Char} (hparse : parse isFunction source = .ok t)
    (times : Nat) {n : Node} (hn : (Template.capture^[times] t).nodeAt? site = some n) :
    ∀ p ∈ n.pipelines, Filled p.tree := by
  induction times generalizing n with
  | zero => exact filled_of_parse hparse n (mem_nodes_of_nodeAt? hn)
  | succ times ih =>
    rw [Function.iterate_succ_apply'] at hn
    obtain ⟨loop, earlier, m, hm, rfl, -⟩ := exists_of_nodeAt?_capture hn
    intro p' hp'
    obtain ⟨p, hp, rfl | ⟨pos, rfl⟩⟩ := Node.mem_pipelines_capture hp'
    · exact ih hm _ hp
    · exact filled_handOn (ih hm _ hp) pos

/-- The commands of a pipeline that passes its check have operands, and so have those of the
pipelines inside it. -/
theorem operands_ne_nil_of_checkPipeline {names : Names} {most : Nat} {construct : Construct}
    {p : Pipeline} (h : names.checkPipeline most construct p = .ok ()) :
    ∀ q ∈ p.tree, ∀ c ∈ q.commands, c.operands ≠ [] := by
  obtain ⟨-, hexecutable, hadmits⟩ := (checkPipeline_eq_ok_iff p).mp h
  rw [Pipeline.tree, List.forall_mem_cons]
  refine ⟨operands_ne_nil_of_executableFrom hexecutable, ?_⟩
  intro q hq
  exact operands_ne_nil_of_executableFrom (hadmits.inner q hq).2

end Template

namespace Run

open Template (Node Pipeline Jump Control Site Names CheckedNodes CheckedOtherwise)
open Text (Pos)

/-! ### Walks without jumps -/

namespace Walk

variable {α : Type}

/-- If the walk succeeds it does not end the round of a loop. -/
def Completes (m : Walk (Option Jump)) : Prop :=
  ∀ ⦃s jump s'⦄, m s = (.ok jump, s') → jump = none

theorem completes_none : Completes (pure none) := by
  intro s jump s' h
  cases h
  rfl

theorem completes_fail (pos : Pos) (fault : EvalFault) : Completes (fail pos fault) := by
  intro s jump s' h
  cases h

theorem completes_bind {m : Walk α} {f : α → Walk (Option Jump)} (h : ∀ a, Completes (f a)) :
    Completes (m >>= f) := by
  intro s jump s' hrun
  obtain ⟨a, mid, -, hrest⟩ := bind_apply_eq_ok_iff.mp hrun
  exact h a hrest

theorem Completes.bind {m : Walk (Option Jump)} {f : Option Jump → Walk (Option Jump)}
    (hm : m.Completes) (hf : Completes (f none)) : Completes (m >>= f) := by
  intro s jump s' hrun
  obtain ⟨first, mid, hfirst, hrest⟩ := bind_apply_eq_ok_iff.mp hrun
  cases hm hfirst
  exact hf hrest

/-- What follows a walk that completes always runs. -/
theorem Completes.bind_eq {m : Walk (Option Jump)} (hm : m.Completes) (f : Option Jump → Walk α) :
    m >>= f = m >>= fun _ => f none := by
  funext s
  rw [bind_apply, bind_apply]
  have hjump := @hm s
  generalize m s = outcome at hjump
  rcases outcome with ⟨result, mid⟩
  cases result with
  | error e => rfl
  | ok jump => cases hjump rfl; rfl

end Walk

open Walk

section Walks

variable {env : Env} {enter : Option (Value → List Node → Walk (Option Jump))}

/-- Walks over all nodes of a list, whatever they end with. -/
def walkAll (env : Env) (enter : Option (Value → List Node → Walk (Option Jump))) (dot : Value) :
    List Node → Walk Unit
  | [] => return
  | n :: rest => do
    let _ ← walkNode env enter dot n
    walkAll env enter dot rest

theorem completes_branch {kind : Control} (hkind : kind ≠ .range) {pos : Pos} {p : Pipeline}
    {body : List Node} {otherwise : Option (List Node)} {dot : Value}
    (hbody : ∀ dot, (walkNodes env enter dot body).Completes)
    (hotherwise : (walkOtherwise env enter dot otherwise).Completes) :
    (walkNode env enter dot (.control kind pos p body otherwise)).Completes := by
  rw [walkNode_branch (h := hkind)]
  refine completes_bind fun count => completes_bind fun v => ?_
  have hkeep : Completes (keepVariables count >>= fun _ => pure none) :=
    completes_bind fun _ => completes_none
  dsimp only
  split
  · exact (hbody _).bind hkeep
  · exact hotherwise.bind hkeep

mutual

/-- A walk over a node that was checked outside loops does not end the round of a loop. -/
theorem completes_walkNode {names : Names} {dot : Value} :
    ∀ n : Node, n.Checked names false → (walkNode env enter dot n).Completes
  | .text _, _ => completes_bind fun _ => completes_none
  | .action _, _ => completes_bind fun _ => completes_none
  | .control .range pos p body otherwise, ⟨_, _, hotherwise⟩ => by
    rw [walkNode_range]
    refine completes_bind fun source => ?_
    split
    · exact completes_fail _ _
    · exact completes_walkOtherwise otherwise hotherwise
    · -- A jump in the body ends a round; the loop itself ends without one.
      exact completes_bind fun _ => completes_bind fun _ => completes_bind fun _ => completes_none
  | .control .cond pos p body otherwise, ⟨_, hbody, hotherwise⟩ =>
    completes_branch (by decide) (fun _ => completes_walkNodes body hbody)
      (completes_walkOtherwise otherwise hotherwise)
  | .control .scope pos p body otherwise, ⟨_, hbody, hotherwise⟩ =>
    completes_branch (by decide) (fun _ => completes_walkNodes body hbody)
      (completes_walkOtherwise otherwise hotherwise)
  | .invoke pos name data, _ => by
    unfold walkNode
    split
    · exact completes_fail _ _
    · exact completes_fail _ _
    · cases data with
      | none => exact completes_bind fun _ => completes_bind fun _ => completes_none
      | some p => exact completes_bind fun _ => completes_bind fun _ => completes_none
  | .jump _ _, h => by cases h

theorem completes_walkNodes {names : Names} {dot : Value} :
    ∀ nodes : List Node, CheckedNodes names false nodes → (walkNodes env enter dot nodes).Completes
  | [], _ => completes_none
  | n :: rest, ⟨hn, hrest⟩ => (completes_walkNode n hn).bind (completes_walkNodes rest hrest)

theorem completes_walkOtherwise {names : Names} {dot : Value} :
    ∀ otherwise : Option (List Node), CheckedOtherwise names false otherwise →
      (walkOtherwise env enter dot otherwise).Completes
  | none, _ => completes_none
  | some nodes, hnodes => completes_walkNodes nodes hnodes

end

/-- A list that was checked outside loops is walked to its end. -/
theorem walkNodes_of_checked {names : Names} {nodes : List Node} (h : CheckedNodes names false nodes)
    (dot : Value) :
    walkNodes env enter dot nodes = do
      walkAll env enter dot nodes
      return none := by
  induction nodes generalizing names with
  | nil => rfl
  | cons n rest ih =>
    rw [walkNodes, (completes_walkNode n h.1).bind_eq, ih h.2, walkAll, bind_assoc]

end Walks

/-! ### Runs -/

theorem Blames.undefinedFunction {env : Env} {slots : List Slot} {n : Node} {pos : Pos}
    {name : String} (h : Blames env slots n ⟨pos, .undefinedFunction name⟩) :
    ∃ p ∈ n.pipelines, name ∈ p.identifiers ∧ name ≠ Template.captureName ∧
      env.functions.resolves name = false := by
  cases h with
  | evaluation hp heval => exact ⟨_, hp, undefinedFunction_of_evalPipeline heval⟩

/-- What a run of a parsed template, captured or not, owes to the checks. It does not fail for an
undefined function. Each pipeline at a node that it comes to has commands, and each command has
operands, also inside parentheses. The body of a definition, to whatever depth it is called, and the
root, if they are walked over successfully, do not end with a jump; and of each list outside the
bodies of loops all nodes are walked over. -/
theorem runs_as_checked {functions : Registry} {source : List Char} {t : Template}
    (hparse : Template.parse functions.resolves source = .ok t) (times : Nat) :
    (∀ data captured pos name,
      (execute functions (Template.capture^[times] t) data captured).result ≠
        .error ⟨pos, .undefinedFunction name⟩) ∧
    (∀ data captured, ∀ v ∈ visits functions (Template.capture^[times] t) data captured, ∀ n,
      (Template.capture^[times] t).nodeAt? v.site = some n → ∀ p ∈ n.pipelines, ∀ q ∈ p.tree,
        q.commands ≠ [] ∧ ∀ c ∈ q.commands, c.operands ≠ []) ∧
    (∀ data captured jump s,
      ending functions (Template.capture^[times] t) data captured = (.ok jump, s) → jump = none) ∧
    (∀ definition nodes, (Template.capture^[times] t).body? definition = some nodes →
      ∀ depth dot,
        (walkAt ⟨functions, (Template.capture^[times] t).definitions⟩ depth dot nodes).Completes) ∧
    ∀ site nodes, (Template.capture^[times] t).listOf? site = some nodes →
      ¬ (Template.capture^[times] t).InLoop site → ∀ enter dot,
        walkNodes ⟨functions, (Template.capture^[times] t).definitions⟩ enter dot nodes = do
          walkAll ⟨functions, (Template.capture^[times] t).definitions⟩ enter dot nodes
          return none := by
  have hchecked := (Template.checked_parse hparse).capture_iterate times
  have hbody : ∀ definition nodes, (Template.capture^[times] t).body? definition = some nodes →
      ∀ depth dot, (walkAt ⟨functions, (Template.capture^[times] t).definitions⟩ depth dot
        nodes).Completes := by
    intro definition nodes hnodes depth dot
    cases depth with
    | zero => exact completes_walkNodes nodes (hchecked.body hnodes)
    | succ depth => exact completes_walkNodes nodes (hchecked.body hnodes)
  refine ⟨?_, ?_, ?_, hbody, ?_⟩
  · intro data captured pos name h
    obtain ⟨v, hv, n, hn, hblames⟩ := (Knowledge.scoped hchecked).blames_visit h
    obtain ⟨p, hp, hname, hcapture, hunknown⟩ := hblames.undefinedFunction
    obtain ⟨names, inLoop, hfunctions, hnode⟩ :=
      hchecked.exists_checked (Template.mem_nodes_of_nodeAt? hn)
    obtain ⟨most, construct, hcheck⟩ := hnode.pipeline hp
    obtain ⟨-, -, hadmits⟩ := (Template.checkPipeline_eq_ok_iff p).mp hcheck
    rcases hadmits.functions name hname with heq | hknown
    · exact hcapture heq
    · rw [hfunctions, hunknown] at hknown
      cases hknown
  · intro data captured v hv n hn p hp q hq
    obtain ⟨names, inLoop, -, hnode⟩ := hchecked.exists_checked (Template.mem_nodes_of_nodeAt? hn)
    obtain ⟨most, construct, hcheck⟩ := hnode.pipeline hp
    exact ⟨Template.filled_of_nodeAt? hparse times hn p hp q hq,
      Template.operands_ne_nil_of_checkPipeline hcheck q hq⟩
  · intro data captured jump s h
    exact hbody none _ rfl maxDepth data h
  · intro site nodes hlist houtside enter dot
    obtain ⟨names, hnodes⟩ := hchecked.list hlist houtside
    exact walkNodes_of_checked hnodes dot

theorem runs_as_checked_break :
    ∃ (t : Template) (body : List Node) (v : Visit) (p : Pipeline) (jump : Option Jump) (s : State),
      Template.parse (Registry.resolves [])
        ("\x7b\x7bdefine \"D\"\x7d\x7da\x7b\x7bend\x7d\x7d".toList ++
          "{{range .L}}{{len (index .L)}}{{break}}{{end}}b".toList ++
          "\x7b\x7btemplate \"D\"\x7d\x7d".toList) = .ok t ∧
      v ∈ visits [] t.capture (.map [("L", .seq [.map [("L", .seq [])]])]) [] ∧
      t.capture.nodeAt? v.site = some (.action p) ∧ p.inner ≠ [] ∧
      (∀ q ∈ p.tree, q.commands ≠ [] ∧ ∀ c ∈ q.commands, c.operands ≠ []) ∧
      ending [] t.capture (.map [("L", .seq [.map [("L", .seq [])]])]) [] = (.ok jump, s) ∧
      jump = none ∧ s.trace.raw = "?ba".toList ∧
      t.capture.body? (some "D") = some body ∧
      (walkAt ⟨[], t.capture.definitions⟩ 1 .null body).Completes := by
  let data : Value := .map [("L", .seq [.map [("L", .seq [])]])]
  obtain ⟨t, hparse, ht⟩ := exists_of_any
    (x := Template.parse (Registry.resolves [])
      ("\x7b\x7bdefine \"D\"\x7d\x7da\x7b\x7bend\x7d\x7d".toList ++
        "{{range .L}}{{len (index .L)}}{{break}}{{end}}b".toList ++
        "\x7b\x7btemplate \"D\"\x7d\x7d".toList))
    (p := fun t =>
      ((visits [] t.capture data [])[1]?.any fun v =>
        (t.capture.actionAt? v.site).any fun p => !p.inner.isEmpty) &&
      (ending [] t.capture data []).1.toOption.any Option.isNone &&
      (ending [] t.capture data []).2.trace.raw == "?ba".toList &&
      (t.capture.body? (some "D")).isSome)
    (by decide +kernel)
  simp only [Bool.and_eq_true] at ht
  obtain ⟨⟨⟨hvisit, hend⟩, hraw⟩, hbody⟩ := ht
  obtain ⟨v, hindex, hv⟩ := (Option.any_eq_true ..).mp hvisit
  obtain ⟨p, haction, hinner⟩ := (Option.any_eq_true ..).mp hv
  obtain ⟨jump, hjump, -⟩ := exists_of_any hend
  obtain ⟨body, hbody⟩ := Option.isSome_iff_exists.mp hbody
  have hv := List.mem_of_getElem? hindex
  have hnode := Template.nodeAt?_eq_action_iff.mpr haction
  have hending : ending [] t.capture data [] = (.ok jump, (ending [] t.capture data []).2) :=
    Prod.ext hjump rfl
  obtain ⟨-, hpipelines, hroot, hcompletes, -⟩ := runs_as_checked hparse 1
  refine ⟨t, body, v, p, jump, _, hparse, hv, hnode, by simpa using hinner, ?_, hending, ?_,
    beq_iff_eq.mp hraw, hbody, hcompletes _ _ hbody 1 .null⟩
  · exact hpipelines data [] v hv _ hnode p (List.mem_singleton_self p)
  · exact hroot data [] jump _ hending

end Run

end BoundQuery
