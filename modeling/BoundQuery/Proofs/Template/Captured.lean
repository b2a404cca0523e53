/-
# Which actions are captured

Capturing hands the value of an action to the capture function unless the action sets variables, or
writes a variable as it stands that a loop around it binds or that an action before it in the same
list sets. Nothing else of a template changes.

Main statements:

* `capture_exactly`: an action is left as it is for one of these reasons, and for no other.
* `mapActions_capture`: but for its actions a captured template is the template that it came from.
* `mapActions_uncapture_capture`: with the capture commands deleted it is that template again.
-/

import BoundQuery.Proofs.Template.Alike
import BoundQuery.Proofs.Template.Paths
import BoundQuery.Proofs.Template.Pipelines
import BoundQuery.Proofs.Template.Spelling

namespace BoundQuery

namespace Template

open Text (Pos)

/-! ### Captured pipelines -/

/-- The pipeline with a command at its end that hands the value on to the capture function. -/
def Pipeline.handOn (pos : Pos) (p : Pipeline) : Pipeline :=
  { p with commands := p.commands ++ [⟨pos, [.identifier captureName]⟩] }

/-- The pipeline without the capture function at its end. -/
def Pipeline.uncapture (p : Pipeline) : Pipeline :=
  if p.capturesValue then { p with commands := p.commands.dropLast } else p

/-- The last command of the pipeline is the variable and nothing else. -/
def Pipeline.Writes (p : Pipeline) (name : String) : Prop :=
  ∃ c, p.commands.getLast? = some c ∧ c.variable? = some name

@[simp] theorem Pipeline.setsVariables_handOn (pos : Pos) (p : Pipeline) :
    (p.handOn pos).setsVariables = p.setsVariables := rfl

@[simp] theorem Pipeline.capturesValue_handOn (pos : Pos) (p : Pipeline) :
    (p.handOn pos).capturesValue = true := by
  simp [Pipeline.handOn, Pipeline.capturesValue, Command.isCapture]

theorem Pipeline.mem_identifiers_handOn {pos : Pos} {p : Pipeline} {name : String} :
    name ∈ (p.handOn pos).identifiers ↔ name ∈ p.identifiers ∨ name = captureName := by
  obtain ⟨start, assigns, names, commands⟩ := p
  simp [handOn, identifiers, mem_commandIdentifiers, Command.identifiers, operandIdentifiers,
    Operand.identifiers, or_and_right, exists_or]

theorem Pipeline.mem_variables_handOn {pos : Pos} {p : Pipeline} {x : String} :
    x ∈ (p.handOn pos).variables ↔ x ∈ p.variables := by
  obtain ⟨start, assigns, names, commands⟩ := p
  simp [handOn, Pipeline.variables, mem_commandVariables, Command.variables, operandVariables,
    Operand.variables, or_and_right, exists_or]

theorem Pipeline.mem_inner_handOn {pos : Pos} {p q : Pipeline} :
    q ∈ (p.handOn pos).inner ↔ q ∈ p.inner := by
  obtain ⟨start, assigns, names, commands⟩ := p
  simp [handOn, inner, mem_commandsInner, Command.inner, operandsInner, Operand.inner,
    or_and_right, exists_or]

theorem Pipeline.uncapture_handOn (pos : Pos) (p : Pipeline) : (p.handOn pos).uncapture = p := by
  rw [uncapture, if_pos (capturesValue_handOn pos p)]
  cases p
  simp [handOn]

theorem Command.isCapture_iff {c : Command} :
    c.isCapture = true ↔ ∃ pos, c = ⟨pos, [.identifier captureName]⟩ := by
  constructor
  · intro h
    unfold Command.isCapture at h
    split at h
    · rename_i pos name
      exact ⟨pos, by rw [beq_iff_eq.mp h]⟩
    · cases h
  · rintro ⟨pos, rfl⟩
    simp [Command.isCapture]

/-- A pipeline that does not name the capture function does not end in it. -/
theorem Pipeline.capturesValue_of_notMem {p : Pipeline} (h : captureName ∉ p.identifiers) :
    p.capturesValue = false := by
  refine Bool.eq_false_iff.mpr fun hcaptures => ?_
  obtain ⟨c, hlast, hc⟩ := (Option.any_eq_true ..).mp hcaptures
  obtain ⟨pos, rfl⟩ := Command.isCapture_iff.mp hc
  refine h (mem_identifiers_of_mem (List.mem_of_getLast? hlast) ?_)
  simp [Command.identifiers, operandIdentifiers, Operand.identifiers]

/-- Capturing a pipeline leaves it as it is, or adds a command. -/
theorem Pipeline.capture_eq_or (bound : List String) (p : Pipeline) :
    p.capture bound = p ∨ p.commands ≠ [] ∧ ∃ pos, p.capture bound = p.handOn pos := by
  unfold Pipeline.capture
  split
  · exact .inl rfl
  · rename_i last hlast
    split
    · exact .inl rfl
    · refine .inr ⟨?_, last.pos, rfl⟩
      rintro hnil
      simp [hnil] at hlast

/-- A command that was read writes one of the variables as it stands if and only if it consists of
the variable. -/
theorem Command.writesBound_iff {W : List Char → Prop} {c : Command} (h : c.Lexical W)
    {bound : List String} (hbound : ∀ name ∈ bound, IsVariable name) :
    c.writesBound bound = true ↔ ∃ name, c.variable? = some name ∧ name ∈ bound := by
  rw [Command.writesBound, List.contains_iff_mem]
  constructor
  · intro hmem
    refine ⟨_, (render_eq_iff h (hbound _ hmem)).mp ?_, hmem⟩
    rw [String.toList_ofList]
  · rintro ⟨name, hvariable, hmem⟩
    rw [(render_eq_iff h (hbound name hmem)).mpr hvariable, String.ofList_toList]
    exact hmem

/-- A pipeline that was read and does not name the capture function is left as it is exactly if it
writes one of the bound variables. -/
theorem Pipeline.capturesValue_capture {W : List Char → Prop} {p : Pipeline} (hlexical : p.Lexical W)
    (hfree : captureName ∉ p.identifiers) {bound : List String}
    (hbound : ∀ name ∈ bound, IsVariable name) :
    (p.capture bound).capturesValue = false ↔ ∃ name, p.Writes name ∧ name ∈ bound := by
  obtain ⟨last, hlast⟩ : ∃ last, p.commands.getLast? = some last :=
    ⟨_, List.getLast?_eq_some_getLast hlexical.commands_ne_nil⟩
  have hfinal : last.isCapture = false := by
    simpa [capturesValue, hlast] using capturesValue_of_notMem hfree
  have hwrites : last.writesBound bound = true ↔ ∃ name, p.Writes name ∧ name ∈ bound := by
    rw [Command.writesBound_iff (hlexical.commandLexical _ (List.mem_of_getLast? hlast)) hbound]
    simp [Pipeline.Writes, hlast]
  have hcapture : p.capture bound =
      if last.writesBound bound then p else p.handOn last.pos := by
    unfold Pipeline.capture
    rw [hlast]
    simp only [hfinal, Bool.false_or]
    rfl
  rw [hcapture, ← hwrites]
  by_cases hbound : last.writesBound bound
  · simp [hbound, capturesValue_of_notMem hfree]
  · simp [hbound]

/-- What capturing makes of an action. -/
def Pipeline.captureAction (bound : List String) (p : Pipeline) : Pipeline :=
  if p.setsVariables then p else p.capture bound

/-- Capturing an action leaves its pipeline as it is, or adds a command. -/
theorem Pipeline.captureAction_eq_or (bound : List String) (p : Pipeline) :
    p.captureAction bound = p ∨ ∃ pos, p.captureAction bound = p.handOn pos := by
  unfold captureAction
  split
  · exact .inl rfl
  · exact (p.capture_eq_or bound).imp_right And.right

theorem Pipeline.names_captureAction (bound : List String) (p : Pipeline) :
    (p.captureAction bound).names = p.names := by
  rcases p.captureAction_eq_or bound with heq | ⟨pos, heq⟩ <;> rw [heq]
  rfl

theorem Node.capture_action (loop earlier : List String) (p : Pipeline) :
    (Node.action p).capture loop earlier = .action (p.captureAction (loop ++ earlier)) := by
  unfold Node.capture Pipeline.captureAction
  split <;> rfl

theorem actionIn?_captureNodes (loop : List String) (nodes : List Node) (i : Nat) :
    actionIn? (captureNodes loop [] nodes) i =
      (actionIn? nodes i).map
        (Pipeline.captureAction (loop ++ (nodes.take i).flatMap Node.namesSet)) := by
  simp only [actionIn?, getElem?_captureNodes]
  cases nodes[i]? with
  | none => rfl
  | some n =>
    cases n with
    | action p => by_cases hsets : p.setsVariables <;>
        simp [Node.capture, Pipeline.captureAction, hsets]
    | _ => simp [Node.capture]

/-! ### All else stays -/

mutual

/-- Replaces the pipelines of all actions. -/
def Node.mapActions (f : Pipeline → Pipeline) : Node → Node
  | .text s => .text s
  | .action p => .action (f p)
  | .control kind pos p body otherwise =>
    .control kind pos p (mapActionsIn f body) (mapActionsOtherwise f otherwise)
  | .invoke pos name data => .invoke pos name data
  | .jump kind pos => .jump kind pos

/-- Replaces the pipelines of all actions in a list. -/
def mapActionsIn (f : Pipeline → Pipeline) : List Node → List Node
  | [] => []
  | n :: rest => n.mapActions f :: mapActionsIn f rest

/-- Replaces the pipelines of all actions after `else`. -/
def mapActionsOtherwise (f : Pipeline → Pipeline) : Option (List Node) → Option (List Node)
  | none => none
  | some nodes => some (mapActionsIn f nodes)

end

section Likeness

variable {l : Likeness} {f g : Pipeline → Pipeline}

mutual

theorem mapActions_of_alike (hmap : ∀ p q, l.action p q → f p = g q) :
    ∀ n m : Node, Alike l n m → n.mapActions f = m.mapActions g
  | .text _, _, h => by
    cases h
    rfl
  | .action p, _, h => by
    cases h with
    | action hp => rw [Node.mapActions, Node.mapActions, hmap _ _ hp]
  | .control kind pos p body otherwise, _, h => by
    cases h with
    | control _ hbody hotherwise =>
      rw [Node.mapActions, Node.mapActions, mapActionsIn_of_alike hmap body _ hbody,
        mapActionsOtherwise_of_alike hmap otherwise _ hotherwise]
  | .invoke _ _ _, _, h => by
    cases h
    rfl
  | .jump _ _, _, h => by
    cases h
    rfl

theorem mapActionsIn_of_alike (hmap : ∀ p q, l.action p q → f p = g q) :
    ∀ nodes others : List Node, AlikeNodes l nodes others →
      mapActionsIn f nodes = mapActionsIn g others
  | [], _, h => by
    cases h
    rfl
  | n :: rest, _, h => by
    cases h with
    | cons hn hrest =>
      rw [mapActionsIn, mapActionsIn, mapActions_of_alike hmap n _ hn,
        mapActionsIn_of_alike hmap rest _ hrest]

theorem mapActionsOtherwise_of_alike (hmap : ∀ p q, l.action p q → f p = g q) :
    ∀ nodes others : Option (List Node), AlikeOtherwise l nodes others →
      mapActionsOtherwise f nodes = mapActionsOtherwise g others
  | none, _, h => by
    cases h
    rfl
  | some nodes, _, h => by
    cases h with
    | some hnodes =>
      rw [mapActionsOtherwise, mapActionsOtherwise, mapActionsIn_of_alike hmap nodes _ hnodes]

end

end Likeness

mutual

theorem mapActions_id : ∀ n : Node, n.mapActions id = n
  | .text _ => rfl
  | .action _ => rfl
  | .control _ _ _ body otherwise => by
    rw [Node.mapActions, mapActionsIn_id body, mapActionsOtherwise_id otherwise]
  | .invoke _ _ _ => rfl
  | .jump _ _ => rfl

theorem mapActionsIn_id : ∀ nodes : List Node, mapActionsIn id nodes = nodes
  | [] => rfl
  | n :: rest => by rw [mapActionsIn, mapActions_id n, mapActionsIn_id rest]

theorem mapActionsOtherwise_id : ∀ nodes : Option (List Node), mapActionsOtherwise id nodes = nodes
  | none => rfl
  | some nodes => by rw [mapActionsOtherwise, mapActionsIn_id nodes]

end

/-- Captured nodes and the nodes that they came from, where corresponding actions are sent to the
same. -/
theorem mapActionsIn_captureNodes {f g : Pipeline → Pipeline} {nodes : List Node}
    (hmap : ∀ p, .action p ∈ nodesWithin nodes → ∀ bound, f (p.captureAction bound) = g p)
    (loop earlier : List String) :
    mapActionsIn f (captureNodes loop earlier nodes) = mapActionsIn g nodes := by
  -- Captured nodes are alike to the nodes that they came from if `f` and `g` agree on their actions.
  let l : Likeness := ⟨fun _ => True, fun p q => f p = g q, fun _ => True⟩
  have hadmits : ∀ n ∈ nodesWithin nodes, l.AdmitsCapture n := by
    intro n hn
    cases n with
    | action p => exact hmap p hn
    | invoke pos name data => exact fun _ _ => trivial
    | _ => trivial
  exact mapActionsIn_of_alike (fun _ _ h => h) _ _ (alikeNodes_capture loop earlier nodes hadmits)

/-- Replaces the pipelines of all actions of a template. -/
def mapActions (f : Pipeline → Pipeline) (t : Template) : Template where
  root := mapActionsIn f t.root
  definitions := t.definitions.map fun (name, nodes) => (name, mapActionsIn f nodes)

theorem mapActions_capture_eq {f g : Pipeline → Pipeline} {t : Template}
    (hmap : ∀ p, .action p ∈ t.nodes → ∀ bound, f (p.captureAction bound) = g p) :
    t.capture.mapActions f = t.mapActions g := by
  have hroot : mapActionsIn f (captureNodes [] [] t.root) = mapActionsIn g t.root :=
    mapActionsIn_captureNodes (fun p hp => hmap p (mem_nodes_of_root hp)) [] []
  have hdefinitions : ∀ d ∈ t.definitions,
      mapActionsIn f (captureNodes [] [] d.2) = mapActionsIn g d.2 := fun d hd =>
    mapActionsIn_captureNodes (fun p hp => hmap p (mem_nodes_of_definition hd hp)) [] []
  simp only [mapActions, capture, hroot, List.map_map]
  congr 1
  refine List.map_congr_left fun d hd => ?_
  simp [hdefinitions d hd]

/-- But for its actions, a captured template is the template that it came from. -/
theorem mapActions_capture (q : Pipeline) (t : Template) :
    t.capture.mapActions (fun _ => q) = t.mapActions fun _ => q :=
  mapActions_capture_eq fun _ _ _ => rfl

/-- Without the capture commands at their ends the actions are what they were. -/
theorem mapActions_uncapture_capture {t : Template} (hfree : captureName ∉ t.identifiers) :
    t.capture.mapActions Pipeline.uncapture = t := by
  have hid : t.mapActions id = t := by
    simp [mapActions, mapActionsIn_id]
  rw [mapActions_capture_eq (g := id), hid]
  intro p hp bound
  have hp := notMem_identifiers hfree hp p (List.mem_singleton_self p)
  have hself : p.uncapture = p := by
    simp [Pipeline.uncapture, Pipeline.capturesValue_of_notMem hp]
  unfold Pipeline.captureAction
  split
  · exact hself
  · rcases p.capture_eq_or bound with h | ⟨-, pos, h⟩
    · rw [h]
      exact hself
    · rw [h]
      exact p.uncapture_handOn pos

/-! ### Sites of actions -/

/-- The site of an action: the definition that it belongs to, if it is not in the root, the path to
its list, and its position there. -/
structure Site where
  definition : Option String
  path : List Step
  index : Nat
deriving DecidableEq, Repr

/-- The nodes of the root, or of a definition. -/
def body? (t : Template) : Option String → Option (List Node)
  | none => some t.root
  | some name => Entries.find? name t.definitions

/-- The list of nodes that a site is in. -/
def listOf? (t : Template) (site : Site) : Option (List Node) :=
  (t.body? site.definition).bind (listAt? site.path)

/-- The action at a site. -/
def actionAt? (t : Template) (site : Site) : Option Pipeline :=
  (t.listOf? site).bind fun nodes => actionIn? nodes site.index

/-- A name is bound at a site: by a loop around it, or by an action before it in the same list. -/
def Binds (t : Template) (site : Site) (name : String) : Prop :=
  (∃ nodes, t.body? site.definition = some nodes ∧ BoundByLoop nodes site.path name) ∨
    ∃ nodes, t.listOf? site = some nodes ∧ SetBefore nodes site.index name

theorem body?_capture (t : Template) (definition : Option String) :
    t.capture.body? definition = (t.body? definition).map (captureNodes [] []) := by
  cases definition with
  | none => rfl
  | some name => exact Entries.find?_map (captureNodes [] []) name t.definitions

theorem nodesWithin_of_listAt? {path : List Step} {nodes list : List Node}
    (h : listAt? path nodes = some list) : ∀ n ∈ nodesWithin list, n ∈ nodesWithin nodes := by
  induction path generalizing nodes with
  | nil =>
    cases h
    exact fun n hn => hn
  | cons s path ih =>
    obtain ⟨next, hnext, h⟩ := Option.bind_eq_some_iff.mp h
    intro n hn
    have hmem := ih h n hn
    refine mem_nodesWithin.mpr ?_
    cases s with
    | body i =>
      simp only [Step.listIn?] at hnext
      split at hnext
      · rename_i kind pos p inner otherwise hnode
        cases hnext
        refine ⟨_, List.mem_of_getElem? hnode, ?_⟩
        simp [Node.tree, hmem]
      · cases hnext
    | otherwise i =>
      simp only [Step.listIn?] at hnext
      split at hnext
      · rename_i kind pos p body inner hnode
        subst hnext
        refine ⟨_, List.mem_of_getElem? hnode, ?_⟩
        simp [Node.tree, nodesOtherwise, hmem]
      · cases hnext

/-- The nodes of a list in a template are nodes of the template. -/
theorem mem_nodes_of_listOf? {t : Template} {site : Site} {list : List Node}
    (h : t.listOf? site = some list) : ∀ n ∈ nodesWithin list, n ∈ t.nodes := by
  intro n hn
  obtain ⟨nodes, hbody, hpath⟩ := Option.bind_eq_some_iff.mp h
  have hnodes := nodesWithin_of_listAt? hpath n hn
  cases hdefinition : site.definition with
  | none =>
    rw [hdefinition] at hbody
    cases hbody
    exact mem_nodes_of_root hnodes
  | some name =>
    rw [hdefinition] at hbody
    exact mem_nodes_of_definition (Entries.mem_of_find? hbody) hnodes

/-- The action at a site is a node of the template. -/
theorem mem_nodes_of_actionAt? {t : Template} {site : Site} {p : Pipeline}
    (h : t.actionAt? site = some p) : .action p ∈ t.nodes := by
  obtain ⟨list, hlist, haction⟩ := Option.bind_eq_some_iff.mp h
  refine mem_nodes_of_listOf? hlist _ ?_
  unfold actionIn? at haction
  split at haction
  · rename_i hnode
    cases haction
    exact mem_nodesWithin.mpr ⟨_, List.mem_of_getElem? hnode, mem_tree_self _⟩
  · cases haction

/-- What binds a name is a pipeline of the template that has it on its left. -/
theorem Binds.exists_pipeline {t : Template} {site : Site} {name : String} (h : t.Binds site name) :
    ∃ n ∈ t.nodes, ∃ p ∈ n.pipelines, name ∈ p.names := by
  rcases h with ⟨nodes, hbody, hloop⟩ | ⟨nodes, hlist, j, p, -, haction, hname⟩
  · obtain ⟨outer, i, inner, list, pos, p, body, otherwise, -, hlist, hnode, hname⟩ := hloop
    have hlist : t.listOf? ⟨site.definition, outer, i⟩ = some list := by
      simp [listOf?, hbody, hlist]
    refine ⟨.control .range pos p body otherwise, ?_, p, List.mem_singleton_self p, hname⟩
    exact mem_nodes_of_listOf? hlist _
      (mem_nodesWithin.mpr ⟨_, List.mem_of_getElem? hnode, mem_tree_self _⟩)
  · have haction : t.actionAt? ⟨site.definition, site.path, j⟩ = some p :=
      Option.bind_eq_some_iff.mpr ⟨nodes, hlist, haction⟩
    exact ⟨_, mem_nodes_of_actionAt? haction, p, List.mem_singleton_self p, hname⟩

/-- Names that are bound in a parsed template are names of variables. -/
theorem Binds.isVariable {isFunction : String → Bool} {source : List Char} {t : Template}
    (hparse : parse isFunction source = .ok t) {site : Site} {name : String}
    (h : t.Binds site name) : IsVariable name := by
  obtain ⟨n, hn, p, hp, hname⟩ := h.exists_pipeline
  exact ((lexical_parse hparse n hn p hp).variableOf name hname).shape

/-- The actions of a captured template are at the sites where they came from; each is captured with
the names that are bound at its site. -/
theorem actionAt?_capture (t : Template) (site : Site) :
    ∃ bound, (∀ name, t.listOf? site ≠ none → (name ∈ bound ↔ t.Binds site name)) ∧
      t.capture.actionAt? site = (t.actionAt? site).map (Pipeline.captureAction bound) := by
  unfold actionAt? listOf? Binds
  rw [body?_capture]
  cases hbody : t.body? site.definition with
  | none => exact ⟨[], by simp⟩
  | some nodes =>
    simp only [Option.map_some, Option.bind_some, listAt?_captureNodes, List.nil_append]
    cases hlist : listAt? site.path nodes with
    | none => exact ⟨[], by simp⟩
    | some list =>
      refine ⟨loopNames site.path nodes ++ (list.take site.index).flatMap Node.namesSet, ?_, ?_⟩
      · intro name _
        rw [List.mem_append, mem_loopNames hlist, mem_namesSet]
        simp [listOf?, hbody, hlist]
      · simp [actionIn?_captureNodes]

/-- The actions of a parsed template that capturing leaves as they are: those that set variables,
and those that write a variable as it stands that is bound at their site. To each other action one
command is added. Nothing else changes, so that deleting these commands gives back the template. -/
theorem capture_exactly {isFunction : String → Bool} {source : List Char} {t : Template}
    (hparse : parse isFunction source = .ok t) (hfree : captureName ∉ t.identifiers) :
    (∀ site, t.capture.actionAt? site = none ↔ t.actionAt? site = none) ∧
    (∀ site p p', t.actionAt? site = some p → t.capture.actionAt? site = some p' →
      (p' = p ∨ ∃ pos, p' = p.handOn pos) ∧
      (p'.capturesValue = false ↔
        p.setsVariables = true ∨ ∃ name, p.Writes name ∧ t.Binds site name)) ∧
    (∀ q, t.capture.mapActions (fun _ => q) = t.mapActions fun _ => q) ∧
    t.capture.mapActions Pipeline.uncapture = t := by
  refine ⟨?_, ?_, fun q => mapActions_capture q t, mapActions_uncapture_capture hfree⟩
  · intro site
    obtain ⟨bound, -, hcapture⟩ := t.actionAt?_capture site
    rw [hcapture, Option.map_eq_none_iff]
  · intro site p p' hp hp'
    obtain ⟨bound, hbound, hcapture⟩ := t.actionAt?_capture site
    rw [hcapture, hp] at hp'
    cases hp'
    have hnode := mem_nodes_of_actionAt? hp
    have hname := notMem_identifiers hfree hnode p (List.mem_singleton_self p)
    have hlexical := lexical_parse hparse _ hnode p (List.mem_singleton_self p)
    have hlist : t.listOf? site ≠ none := by
      obtain ⟨list, hlist, -⟩ := Option.bind_eq_some_iff.mp hp
      simp [hlist]
    have hvariables : ∀ name ∈ bound, IsVariable name := fun name hname =>
      ((hbound name hlist).mp hname).isVariable hparse
    unfold Pipeline.captureAction
    by_cases hsets : p.setsVariables
    · rw [if_pos hsets]
      exact ⟨.inl rfl, by simp [hsets, Pipeline.capturesValue_of_notMem hname]⟩
    · rw [if_neg hsets, Pipeline.capturesValue_capture hlexical hname hvariables]
      refine ⟨(p.capture_eq_or bound).imp_right And.right, ?_⟩
      simp only [hsets, Bool.false_eq_true, false_or, hbound _ hlist]

theorem capture_exactly_loop :
    ∃ t p p', parse (fun _ => false) "{{range $x := .A}}{{$x}}{{.B}}{{end}}".toList = .ok t ∧
      captureName ∉ t.identifiers ∧ t.actionAt? ⟨none, [.body 0], 0⟩ = some p ∧
      t.capture.actionAt? ⟨none, [.body 0], 0⟩ = some p' ∧ p'.capturesValue = false ∧
      (p.setsVariables = true ∨ ∃ name, p.Writes name ∧ t.Binds ⟨none, [.body 0], 0⟩ name) ∧
      t.capture.mapActions Pipeline.uncapture = t := by
  obtain ⟨t, hparse, ht⟩ := exists_of_any
    (x := parse (fun _ => false) "{{range $x := .A}}{{$x}}{{.B}}{{end}}".toList)
    (p := fun t => decide (captureName ∉ t.identifiers) &&
      (t.actionAt? ⟨none, [.body 0], 0⟩).any (fun _ => true) &&
      (t.capture.actionAt? ⟨none, [.body 0], 0⟩).any fun p' => !p'.capturesValue)
    (by decide +kernel)
  simp only [Bool.and_eq_true, decide_eq_true_eq, Option.any_eq_true] at ht
  obtain ⟨⟨hfree, p, hp, -⟩, p', hp', hcaptures⟩ := ht
  have hcaptures : p'.capturesValue = false := by simpa using hcaptures
  obtain ⟨-, hactions, -, hdeleted⟩ := capture_exactly hparse hfree
  exact ⟨t, p, p', hparse, hfree, hp, hp', hcaptures,
    (hactions _ p p' hp hp').2.mp hcaptures, hdeleted⟩

end Template

end BoundQuery
