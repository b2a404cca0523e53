/-
# Where written values come from

An action that capturing leaves as it is writes the value of a variable whose name a loop around it
binds, or an action before it in the same list. The variable that the name stands for was set last by
the pipeline of that loop or action, or since then: inside the body of the loop, or inside a node from
that action on.

Main statement: `origin_of_written`.
-/

import BoundQuery.Proofs.Run.Evaluation
import BoundQuery.Proofs.Run.Visits
import BoundQuery.Proofs.Template.Scopes

namespace BoundQuery

namespace Template

open Text (Pos)

namespace Site

/-- The other site is that of the loop, or inside its body. -/
def Reaches (loop other : Site) : Prop :=
  other = loop ∨ loop.body.Encloses other

/-- The other site is inside a node of the same list, from a position on and before the site. -/
def Since (s : Site) (i : Nat) (other : Site) : Prop :=
  ∃ j, i ≤ j ∧ j < s.index ∧ Covers ⟨s.definition, s.path, j⟩ other

/-- The bodies around a body are this one and those around its node. -/
theorem encloses_body_iff {loop s : Site} :
    loop.body.Encloses s.body ↔ s = loop ∨ loop.body.Encloses s := by
  rw [body_encloses_iff, body_encloses_iff]
  constructor
  · rintro ⟨hdefinition, inner, hpath⟩
    have hpath : s.path ++ [.body s.index] = loop.path ++ .body loop.index :: inner := hpath
    rcases List.eq_nil_or_concat' inner with rfl | ⟨inner, last, rfl⟩
    · obtain ⟨hpath, hindex⟩ := List.append_inj' hpath rfl
      cases s
      cases loop
      simp_all [body]
    · refine .inr ⟨hdefinition, inner, ?_⟩
      rw [← List.cons_append, ← List.append_assoc] at hpath
      exact (List.append_inj' hpath rfl).1
  · rintro (rfl | ⟨hdefinition, inner, hpath⟩)
    · exact ⟨rfl, [], rfl⟩
    · exact ⟨hdefinition, inner ++ [.body s.index], by simp [body, hpath]⟩

/-- The bodies around the nodes after `else` are those around the control structure. -/
theorem encloses_otherwise_iff {loop s : Site} :
    loop.body.Encloses s.otherwise ↔ loop.body.Encloses s := by
  rw [body_encloses_iff, body_encloses_iff]
  constructor
  · rintro ⟨hdefinition, inner, hpath⟩
    have hpath : s.path ++ [.otherwise s.index] = loop.path ++ .body loop.index :: inner := hpath
    rcases List.eq_nil_or_concat' inner with rfl | ⟨inner, last, rfl⟩
    · obtain ⟨-, hindex⟩ := List.append_inj' hpath rfl
      simp at hindex
    · refine ⟨hdefinition, inner, ?_⟩
      rw [← List.cons_append, ← List.append_assoc] at hpath
      exact (List.append_inj' hpath rfl).1
  · rintro ⟨hdefinition, inner, hpath⟩
    exact ⟨hdefinition, inner ++ [.otherwise s.index], by simp [otherwise, hpath]⟩

theorem not_encloses_start {loop : Site} {definition : Option String} :
    ¬ loop.body.Encloses (.start definition) := by
  rw [body_encloses_iff]
  rintro ⟨-, inner, hpath⟩
  simp [start] at hpath

end Site

/-- Where a variable may have been set last that an action at a site writes: by a loop around the
site that binds its name, or inside the body of that loop; by an action before the site in the same
list that sets it, or inside a node from that action on. -/
inductive Origin (t : Template) (site : Site) (name : String) : Site → Prop
  | loop {binder origin : Site} {pos : Pos} {p : Pipeline} {body : List Node}
      {otherwise : Option (List Node)} :
      t.nodeAt? binder = some (.control .range pos p body otherwise) → name ∈ p.names →
      binder.body.Encloses site → binder.Reaches origin → Origin t site name origin
  | action {i : Nat} {p : Pipeline} {origin : Site} :
      t.nodeAt? ⟨site.definition, site.path, i⟩ = some (.action p) → name ∈ p.names →
      site.Since i origin → Origin t site name origin

/-- A pipeline that capturing does not hand to the capture function writes one of the bound
variables. -/
theorem Pipeline.exists_writes_of_capture {W : List Char → Prop} {p : Pipeline}
    (hlexical : p.Lexical W) {bound : List String} (hbound : ∀ name ∈ bound, IsVariable name)
    (h : (p.capture bound).capturesValue = false) :
    p.capture bound = p ∧ ∃ name, p.Writes name ∧ name ∈ bound := by
  obtain ⟨last, hlast⟩ : ∃ last, p.commands.getLast? = some last :=
    ⟨_, List.getLast?_eq_some_getLast hlexical.commands_ne_nil⟩
  simp only [Pipeline.capture, hlast] at h ⊢
  split at h
  · rename_i hleft
    have hcapture : last.isCapture = false := by
      simpa [capturesValue, hlast] using h
    rw [if_pos hleft]
    rw [hcapture, Bool.false_or] at hleft
    have hlast' := hlexical.commandLexical last (List.mem_of_getLast? hlast)
    obtain ⟨name, hvariable, hname⟩ := (Command.writesBound_iff hlast' hbound).mp hleft
    exact ⟨rfl, name, ⟨last, hlast, hvariable⟩, hname⟩
  · have hcaptures := Pipeline.capturesValue_handOn last.pos p
    rw [Pipeline.handOn, h] at hcaptures
    cases hcaptures

end Template

namespace Run

open Template (Node Pipeline Command Site Origin)
open Text (Pos)

/-- The value of a pipeline that writes a variable is the value of the variable. -/
theorem value_of_writes {p : Pipeline} {name : String} (h : p.Writes name) {scene : Scene}
    {captured captured' : List Value} {v : Value}
    (heval : evalPipeline scene p captured = (.ok v, captured')) :
    scene.bindings.lookup name = some v := by
  obtain ⟨c, hlast, hvariable⟩ := h
  obtain ⟨pos, rfl⟩ : ∃ pos, c = ⟨pos, [.variable name []]⟩ := by
    unfold Command.variable? at hvariable
    split at hvariable
    · cases hvariable
      exact ⟨_, rfl⟩
    · cases hvariable
  obtain ⟨first, hcommands⟩ := List.getLast?_eq_some_iff.mp hlast
  obtain ⟨pos', assigns, names, commands⟩ := p
  change commands = first ++ [⟨pos, [.variable name []]⟩] at hcommands
  subst hcommands
  have hcommand : ∀ piped, evalCommand scene piped ⟨pos, [.variable name []]⟩ =
      if piped.isSome then
        Eval.fail pos (.notAFunction (String.ofList (Template.Operand.variable name []).render))
      else evalOperand scene pos (.variable name []) := by
    intro piped
    rw [evalCommand]
    · simp
    · exact nofun
  by_cases hfirst : first = []
  · subst hfirst
    rw [List.nil_append, evalPipeline, evalCommands, hcommand, if_neg (by simp), evalOperand] at heval
    obtain ⟨w, mid, hw, hrest⟩ := bind_apply_eq_ok_iff.mp heval
    obtain ⟨u, last, hu, hfollow⟩ := bind_apply_eq_ok_iff.mp hw
    cases hrest
    cases hfollow
    cases hlookup : scene.bindings.lookup name with
    | none =>
      rw [Scene.variable, hlookup] at hu
      cases hu
    | some w =>
      rw [Scene.variable, hlookup] at hu
      cases hu
      rfl
  · rw [evalPipeline, evalCommands_append scene none hfirst] at heval
    obtain ⟨w, mid, -, hrest⟩ := bind_apply_eq_ok_iff.mp heval
    rw [evalCommands, hcommand, Option.isSome_some, if_pos rfl] at hrest
    cases hrest

/-! ### What is known of bound variables -/

section Origins

variable {t : Template} {isFunction : String → Bool}

/-- Each name that is bound at the site stands for a variable that was set last where it may have
been. -/
structure BoundVariables (t : Template) (site : Site) (slots : List Slot) : Prop where
  loop {binder : Site} {pos : Pos} {p : Pipeline} {body : List Node}
      {otherwise : Option (List Node)} {name : String} :
    t.nodeAt? binder = some (.control .range pos p body otherwise) → name ∈ p.names →
    binder.body.Encloses site → SetWithin binder.Reaches name slots
  action {i : Nat} {p : Pipeline} {name : String} :
    t.nodeAt? ⟨site.definition, site.path, i⟩ = some (.action p) → name ∈ p.names →
    i < site.index → SetWithin (site.Since i) name slots

variable {site : Site} {before after : List Slot}

theorem boundVariables_start (definition : Option String) (slots : List Slot) :
    BoundVariables t (.start definition) slots where
  loop _ _ h := absurd h Site.not_encloses_start
  action _ _ h := absurd h (Nat.not_lt_zero _)

/-- The variables of loops around a site stay such while nodes inside the site set variables. -/
theorem BoundVariables.loop_grown (h : BoundVariables t site before)
    (hgrown : Grown site.Covers before after) {binder : Site} {pos : Pos} {p : Pipeline}
    {body : List Node} {otherwise : Option (List Node)} {name : String}
    (hbinder : t.nodeAt? binder = some (.control .range pos p body otherwise))
    (hname : name ∈ p.names) (hencloses : binder.body.Encloses site) :
    SetWithin binder.Reaches name after :=
  (h.loop hbinder hname hencloses).grown (fun _ hcovers => .inr (hencloses.covers hcovers)) hgrown

theorem BoundVariables.next {n : Node} (hn : t.nodeAt? site = some n)
    (h : BoundVariables t site before) (hsets : Sets site.Covers n.namesSet before after) :
    BoundVariables t site.next after where
  loop hbinder hname hencloses := h.loop_grown hsets.grown hbinder hname hencloses
  action {i p name} hnode hname hlt := by
    rcases Nat.lt_succ_iff_lt_or_eq.mp hlt with hlt | rfl
    · have hbefore : SetWithin (site.next.Since i) name before := by
        refine (h.action hnode hname hlt).mono ?_
        rintro other ⟨j, hle, hlt, hcovers⟩
        exact ⟨j, hle, Nat.lt_succ_of_lt hlt, hcovers⟩
      refine hbefore.grown ?_ hsets.grown
      intro other hcovers
      exact ⟨site.index, Nat.le_of_lt hlt, Nat.lt_succ_self _, hcovers⟩
    · cases hn.symm.trans hnode
      refine (hsets.set name hname).mono ?_
      intro other hcovers
      exact ⟨site.index, Nat.le_refl _, Nat.lt_succ_self _, hcovers⟩

theorem BoundVariables.branch {kind : Template.Control} {pos : Pos} {p : Pipeline} {body : List Node}
    {otherwise : Option (List Node)} (hn : t.nodeAt? site = some (.control kind pos p body otherwise))
    (hkind : kind ≠ .range) (h : BoundVariables t site before)
    (hgrown : Grown site.Covers before after) :
    BoundVariables t site.body after ∧ BoundVariables t site.otherwise after := by
  constructor
  · refine ⟨fun hbinder hname hencloses => ?_, fun _ _ hlt => absurd hlt (Nat.not_lt_zero _)⟩
    rcases Site.encloses_body_iff.mp hencloses with rfl | hencloses
    · cases hn.symm.trans hbinder
      exact absurd rfl hkind
    · exact h.loop_grown hgrown hbinder hname hencloses
  · refine ⟨fun hbinder hname hencloses => ?_, fun _ _ hlt => absurd hlt (Nat.not_lt_zero _)⟩
    exact h.loop_grown hgrown hbinder hname (Site.encloses_otherwise_iff.mp hencloses)

theorem BoundVariables.round {pos : Pos} {p : Pipeline} {body : List Node}
    {otherwise : Option (List Node)}
    (hn : t.nodeAt? site = some (.control .range pos p body otherwise))
    (h : BoundVariables t site before) (hsets : Sets site.Reaches p.names before after) :
    BoundVariables t site.body after := by
  have hgrown : Grown site.Covers before after :=
    hsets.grown.mono fun _ hreaches => hreaches.imp_right Or.inl
  refine ⟨fun hbinder hname hencloses => ?_, fun _ _ hlt => absurd hlt (Nat.not_lt_zero _)⟩
  rcases Site.encloses_body_iff.mp hencloses with rfl | hencloses
  · cases hn.symm.trans hbinder
    exact hsets.set _ hname
  · exact h.loop_grown hgrown hbinder hname hencloses

/-- What is known of bound variables along a run. -/
def Knowledge.boundVariables (h : t.Checked isFunction) : Knowledge t where
  holds := BoundVariables t
  pairs := h.length_names
  start _ data := boundVariables_start _ [.root data]
  next hn hbefore hsets := hbefore.next hn hsets
  branch hn hkind hbefore hsets :=
    hbefore.branch hn hkind (hsets.grown.mono fun _ => Site.covers_of_eq)
  round hn hbefore hsets := hbefore.round hn hsets
  idle _ hbefore := ⟨fun hbinder hname hencloses =>
    hbefore.loop hbinder hname (Site.encloses_otherwise_iff.mp hencloses),
    fun _ _ hlt => absurd hlt (Nat.not_lt_zero _)⟩

/-! ### Written variables -/

/-- A name that is bound at a site stands there for a variable with an origin. -/
theorem BoundVariables.origin {name : String} (hbinds : t.Binds site name)
    (h : BoundVariables t.capture site before) : SetWithin (Origin t site name) name before := by
  obtain ⟨binder, hbinder⟩ := hbinds.exists_boundBy
  cases hbinder with
  | loop hnode hname hencloses =>
    obtain ⟨loop, earlier, -, hcapture⟩ := t.nodeAt?_capture binder
    rw [hnode] at hcapture
    exact (h.loop hcapture hname hencloses).mono fun _ hreaches =>
      .loop hnode hname hencloses hreaches
  | action hnode hname hlt =>
    rename_i i p
    obtain ⟨loop, earlier, -, hcapture⟩ := t.nodeAt?_capture ⟨site.definition, site.path, i⟩
    rw [hnode, Option.map_some, Node.capture_action] at hcapture
    have hname' : name ∈ (p.captureAction (loop ++ earlier)).names := by
      rwa [Pipeline.names_captureAction]
    exact (h.action hcapture hname' hlt).mono fun _ hsince => .action hnode hname hsince

/-- Whenever a run comes to an action that capturing left as it is and that sets no variables, the
action writes a variable, and the variable that the name stands for was set last by a loop around the
action or by an action before it in the same list, or since then inside the body of that loop or a
node from that action on. -/
theorem origin_of_written {source : List Char} (hparse : Template.parse isFunction source = .ok t)
    {functions : Registry} {data : Value} {captured : List Value} {v : Visit}
    (hv : v ∈ visits functions t.capture data captured) {p : Pipeline}
    (hp : t.capture.nodeAt? v.site = some (.action p)) (hsets : p.setsVariables = false)
    (hcaptures : p.capturesValue = false) :
    ∃ name slot origin, p.Writes name ∧ findSlot? name v.slots = some slot ∧
      slot.lastSetAt = some origin ∧ t.Origin v.site name origin ∧
      ∀ dot mode before w after,
        evalPipeline ⟨functions, v.slots.map Slot.binding, dot, mode⟩ p before = (.ok w, after) →
        w = slot.value := by
  obtain ⟨loop, earlier, n, hn, hcapture, hbound⟩ := Template.exists_of_nodeAt?_capture hp
  cases n with
  | action q =>
    have hlexical := Template.lexical_parse hparse _ (Template.mem_nodes_of_nodeAt? hn) q
      (List.mem_singleton_self q)
    rw [Node.capture_action] at hcapture
    cases hcapture
    have hq : q.captureAction (loop ++ earlier) = q.capture (loop ++ earlier) := by
      refine if_neg ?_
      rw [Pipeline.setsVariables, q.names_captureAction] at hsets
      rw [Pipeline.setsVariables, hsets]
      exact Bool.false_ne_true
    rw [hq] at hcaptures ⊢
    obtain ⟨hself, name, hwrites, hname⟩ := Pipeline.exists_writes_of_capture hlexical
      (fun x hx => ((hbound x).mp hx).isVariable hparse) hcaptures
    rw [hself]
    have hknown := (Knowledge.boundVariables (Template.checked_parse hparse).capture).holds_visits v hv
    obtain ⟨slot, origin, hfind, hlast, horigin⟩ := hknown.origin ((hbound name).mp hname)
    refine ⟨name, slot, origin, hwrites, hfind, hlast, horigin, ?_⟩
    intro dot mode before w after heval
    have hlookup := value_of_writes hwrites heval
    rw [lookup_binding, hfind] at hlookup
    cases hlookup
    rfl
  | _ => cases hcapture

theorem origin_of_written_loop :
    ∃ (t : Template) (v : Visit) (p : Pipeline) (name : String) (slot : Slot) (origin : Site),
      Template.parse (fun _ => false) "{{range $x := .L}}{{$x}}{{end}}".toList = .ok t ∧
      v ∈ visits [] t.capture (.map [("L", .seq [.int 1])]) [] ∧
      t.capture.nodeAt? v.site = some (.action p) ∧ p.setsVariables = false ∧
      p.capturesValue = false ∧ p.Writes name ∧ findSlot? name v.slots = some slot ∧
      slot.lastSetAt = some origin ∧ t.Origin v.site name origin := by
  obtain ⟨t, hparse, ht⟩ := exists_of_any
    (x := Template.parse (fun _ => false) "{{range $x := .L}}{{$x}}{{end}}".toList)
    (p := fun t => (visits [] t.capture (.map [("L", .seq [.int 1])]) [])[1]?.any fun v =>
      (t.capture.actionAt? v.site).any fun p => !p.setsVariables && !p.capturesValue)
    (by decide +kernel)
  obtain ⟨v, hindex, hv⟩ := (Option.any_eq_true ..).mp ht
  obtain ⟨p, haction, hp⟩ := (Option.any_eq_true ..).mp hv
  simp only [Bool.and_eq_true, Bool.not_eq_true'] at hp
  have hv := List.mem_of_getElem? hindex
  have hnode := Template.nodeAt?_eq_action_iff.mpr haction
  obtain ⟨name, slot, origin, hwrites, hfind, hlast, horigin, -⟩ :=
    origin_of_written hparse hv hnode hp.1 hp.2
  exact ⟨t, v, p, name, slot, origin, hparse, hv, hnode, hp.1, hp.2, hwrites, hfind, hlast, horigin⟩

/-- An action may write a value that the condition around it declared, if a loop further out binds a
variable of the same name: the value reaches the statement as it is. -/
theorem shadowed_value_written :
    ∃ (t : Template) (v : Visit) (p : Pipeline) (slot : Slot),
      Template.parse (fun _ => false)
        "{{range $x := .L}}{{with $x := $.S}}{{$x}}{{end}}{{end}}".toList = .ok t ∧
      (t.nodeAt? ⟨none, [.body 0], 0⟩).any (fun n => n matches .control .scope _ _ _ _) = true ∧
      v ∈ visits [] t.capture (.map [("L", .seq [.int 1]), ("S", .string "1; drop table t")]) [] ∧
      v.site = ⟨none, [.body 0, .body 0], 0⟩ ∧
      t.capture.nodeAt? v.site = some (.action p) ∧ p.setsVariables = false ∧
      p.capturesValue = false ∧ findSlot? "$x" v.slots = some slot ∧
      slot.lastSetAt = some ⟨none, [.body 0], 0⟩ ∧
      execute [] t.capture (.map [("L", .seq [.int 1]), ("S", .string "1; drop table t")]) [] =
        ⟨.ok "1; drop table t".toList, []⟩ := by
  let data : Value := .map [("L", .seq [.int 1]), ("S", .string "1; drop table t")]
  obtain ⟨t, hparse, ht⟩ := exists_of_any
    (x := Template.parse (fun _ => false)
      "{{range $x := .L}}{{with $x := $.S}}{{$x}}{{end}}{{end}}".toList)
    (p := fun t =>
      (t.nodeAt? ⟨none, [.body 0], 0⟩).any (fun n => n matches .control .scope _ _ _ _) &&
      ((visits [] t.capture data [])[2]?.any fun v => v.site == ⟨none, [.body 0, .body 0], 0⟩ &&
        ((t.capture.actionAt? v.site).any fun p => !p.setsVariables && !p.capturesValue) &&
        (findSlot? "$x" v.slots).any fun slot => slot.lastSetAt == some ⟨none, [.body 0], 0⟩) &&
      ((execute [] t.capture data []).result.toOption.any (· == "1; drop table t".toList)) &&
      (execute [] t.capture data []).captured.isEmpty)
    (by decide +kernel)
  simp only [Bool.and_eq_true] at ht
  obtain ⟨⟨⟨hwith, hvisit⟩, hrun⟩, hargs⟩ := ht
  obtain ⟨v, hindex, hv⟩ := (Option.any_eq_true ..).mp hvisit
  simp only [Bool.and_eq_true] at hv
  obtain ⟨⟨hsite, haction⟩, hslot⟩ := hv
  obtain ⟨p, haction, hp⟩ := (Option.any_eq_true ..).mp haction
  obtain ⟨slot, hfind, hlast⟩ := (Option.any_eq_true ..).mp hslot
  obtain ⟨raw, hraw, hchars⟩ := exists_of_any hrun
  simp only [Bool.and_eq_true, Bool.not_eq_true'] at hp
  cases beq_iff_eq.mp hchars
  have hrun : execute [] t.capture data [] = ⟨_, _⟩ :=
    congrArg₂ Outcome.mk hraw (List.isEmpty_iff.mp hargs)
  exact ⟨t, v, p, slot, hparse, hwith, List.mem_of_getElem? hindex, beq_iff_eq.mp hsite,
    Template.nodeAt?_eq_action_iff.mpr haction, hp.1, hp.2, hfind, beq_iff_eq.mp hlast, hrun⟩

end Origins

end Run

end BoundQuery
