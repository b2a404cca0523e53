/-
# Definitions leave no trace

The definition of a template may stand anywhere at the top of a source. What comes after it is
assembled as if it were not there, and it is itself assembled as if nothing else were there: all
that is left of it are the templates that it defines.

An assembly of the items of a definition looks at the structures inside the definition only, never
at what was set aside when it opened, and no assembly looks at what is defined so far. So the
structures around and the definitions may be exchanged for others, step by step.

Main statement: `assembled_of_hoisted`.
-/

import BoundQuery.Proofs.Entries
import BoundQuery.Proofs.Template.Grammar

namespace BoundQuery.Template

open Text (Pos)
open Assembly

/-! ### Segments of a source -/

/-- How many structures are open after a clause, if so many are before it. A clause between the
parts of a structure leaves it open; none can be closed where none is open. -/
@[simp] def Clause.level? (level : Nat) : Clause → Option Nat
  | .control .. | .definition _ | .block .. => some (level + 1)
  | .close => match level with
    | 0 => none
    | below + 1 => some below
  | _ => some level

/-- The templates that a clause starts to define. -/
@[simp] def Clause.definedNames : Clause → List String
  | .definition name | .block name _ => [name]
  | _ => []

def Clause.opensDefinition : Clause → Bool
  | .definition _ => true
  | _ => false

def Clause.closes : Clause → Bool
  | .close => true
  | _ => false

namespace Item

@[simp] def level? (level : Nat) : Item → Option Nat
  | .text _ => some level
  | .action a => a.clause.level? level

@[simp] def definedNames : Item → List String
  | .text _ => []
  | .action a => a.clause.definedNames

def opensDefinition : Item → Bool
  | .text _ => false
  | .action a => a.clause.opensDefinition

def closes : Item → Bool
  | .text _ => false
  | .action a => a.clause.closes

theorem exists_of_opensDefinition {i : Item} (h : i.opensDefinition = true) :
    ∃ pos name, i = .action ⟨pos, .definition name⟩ := by
  cases i with
  | text => cases h
  | action a =>
    obtain ⟨pos, clause⟩ := a
    cases clause with
    | definition name => exact ⟨pos, name, rfl⟩
    | _ => cases h

theorem exists_of_closes {i : Item} (h : i.closes = true) : ∃ pos, i = .action ⟨pos, .close⟩ := by
  cases i with
  | text => cases h
  | action a =>
    obtain ⟨pos, clause⟩ := a
    cases clause with
    | close => exact ⟨pos, rfl⟩
    | _ => cases h

end Item

namespace Segment

/-- How many structures are open after a segment that can be read. -/
def level? (source : List Char) (level : Nat) (s : Segment) : Option Nat :=
  (s.item? source).bind (Item.level? level)

/-- The templates that a segment starts to define. -/
def definedNames (source : List Char) (s : Segment) : List String :=
  ((s.item? source).map Item.definedNames).getD []

end Segment

/-- Every structure that opens in the segments is closed in them, and no other. -/
def Balanced (source : List Char) (found : List Segment) : Prop :=
  found.foldlM (Segment.level? source) 0 = some 0

instance (source : List Char) (found : List Segment) : Decidable (Balanced source found) :=
  inferInstanceAs (Decidable (_ = _))

/-- The segments are one complete definition: the keyword for it, its body, the closing keyword. -/
def IsDefinition (source : List Char) (first : Segment) (body : List Segment) (last : Segment) :
    Prop :=
  (first.item? source).any Item.opensDefinition ∧ Balanced source body ∧
    (last.item? source).any Item.closes

instance (source : List Char) (first : Segment) (body : List Segment) (last : Segment) :
    Decidable (IsDefinition source first body last) :=
  inferInstanceAs (Decidable (_ ∧ _ ∧ _))

/-- The templates that are defined among the segments. -/
def definedNames (source : List Char) (found : List Segment) : List String :=
  found.flatMap (Segment.definedNames source)

/-- The template that segments are assembled to, if they are accepted. -/
def assembled? (isFunction : String → Bool) (source : List Char) (found : List Segment) :
    Option Template :=
  (found.foldlM (take isFunction source) .empty).toOption.bind finish

section Segments

variable {isFunction : String → Bool} {source : List Char} {found : List Segment} {t : Template}

theorem assembled?_eq_some_iff :
    assembled? isFunction source found = some t ↔
      ∃ a, found.foldlM (take isFunction source) .empty = .ok a ∧ a.frames = [] ∧
        t = ⟨a.nodes.reverse, a.definitions⟩ := by
  unfold assembled?
  rw [Option.bind_eq_some_iff]
  refine exists_congr fun a => and_congr toOption_eq_some_iff ?_
  unfold finish
  cases a.frames with
  | nil => simp [eq_comm]
  | cons => simp

/-- A source is parsed to what its segments are assembled to. -/
theorem parse_eq_ok_iff_assembled :
    parse isFunction source = .ok t ↔
      ∃ found, segments source = .ok found ∧ assembled? isFunction source found = some t := by
  unfold parse assembled?
  cases segments source with
  | error fault => simp [throw, throwThe, MonadExceptOf.throw]
  | ok found =>
    simp only [Except.ok.injEq, exists_eq_left', bind_eq_ok_iff, Option.bind_eq_some_iff,
      toOption_eq_some_iff]
    refine exists_congr fun a => and_congr_right fun _ => ?_
    cases a.finish with
    | none => simp [throw, throwThe, MonadExceptOf.throw]
    | some t' => simp [pure, Except.pure]

/-- A segment that is taken in was read. -/
theorem exists_item_of_take {s : Segment} {a b : Assembly}
    (h : a.take isFunction source s = .ok b) :
    ∃ i, s.item? source = some i ∧ a.takeItem isFunction i = .ok b := by
  cases s with
  | text chars => exact ⟨_, rfl, h⟩
  | action start bodyStart body =>
    obtain ⟨action, hread, hstep⟩ := bind_eq_ok_iff.mp h
    exact ⟨.action action, Option.map_eq_some_iff.mpr ⟨action, toOption_eq_some_iff.mpr hread, rfl⟩,
      hstep⟩

end Segments

/-! ### Structures inside others -/

/-- How many closing keywords a structure needs of its own: one that is chained closes with the one
around it. -/
@[simp] def Frame.closings : Frame → Nat
  | .control _ _ _ _ chained _ => if chained then 0 else 1
  | .definition .. => 1

/-- The template that is being defined. -/
@[simp] def Frame.definedNames : Frame → List String
  | .control .. => []
  | .definition name _ _ => [name]

/-- How many structures are open that close each on its own. -/
def depth (frames : List Frame) : Nat :=
  (frames.map Frame.closings).sum

/-- The templates that are being defined. -/
def openNames (frames : List Frame) : List String :=
  frames.flatMap Frame.definedNames

@[simp] theorem depth_nil : depth [] = 0 := rfl

@[simp] theorem depth_cons (f : Frame) (frames : List Frame) :
    depth (f :: frames) = f.closings + depth frames := by
  simp [depth]

@[simp] theorem openNames_nil : openNames [] = [] := rfl

@[simp] theorem openNames_cons (f : Frame) (frames : List Frame) :
    openNames (f :: frames) = f.definedNames ++ openNames frames := rfl

/-- Structures around others that inside cannot be told from these: there are none at all, or the
innermost of both is the same definition, whatever was set aside for it. -/
inductive Walls : List Frame → List Frame → Prop
  | nil : Walls [] []
  | definition {name : String} {call : Option (Pos × Pipeline)} {outer outer' : Outer}
      {around around' : List Frame} :
      Walls (.definition name call outer :: around) (.definition name call outer' :: around')

namespace Assembly

/-- The same assembly inside other structures, and with other definitions. -/
def reframe (a : Assembly) (frames : List Frame) (defs : Entries (List Node)) : Assembly :=
  { a with frames := frames, definitions := defs }

section Walled

variable {isFunction : String → Bool} {source : List Char} {around inner : List Frame}
  {a b c : Assembly} {pos : Pos} {clause : Clause}

theorem stepped_of_takeItem (h : a.takeItem isFunction (.action ⟨pos, clause⟩) = .ok b) :
    a.Stepped isFunction pos clause b :=
  @stepped_of_step isFunction a b ⟨pos, clause⟩ h

theorem close_of_definition {name : String} {call : Option (Pos × Pipeline)} {outer : Outer}
    {frames : List Frame} (h : a.frames = .definition name call outer :: frames) :
    a.close = some
      ⟨(call.map fun (pos, data) => .invoke pos name (some data)).toList ++ outer.nodes,
        outer.scope, outer.inLoop, frames, a.definitions.insert name a.nodes.reverse⟩ := by
  unfold close
  rw [h]
  cases call <;> rfl

theorem close_of_controls {outer : Outer} {frames : List Frame}
    (h : closeControls a.nodes a.frames = some (outer, frames)) :
    a.close = some ⟨outer.nodes, outer.scope, outer.inLoop, frames, a.definitions⟩ := by
  unfold close
  split
  · rename_i hframes
    rw [hframes] at h
    cases h
  · rw [h]
    rfl

/-- Control structures are closed up to one that is not chained; so none around a definition is. -/
theorem closeControls_walled {nodes : List Node} {left : Outer × List Frame}
    (hwalls : Walls around around) (h : closeControls nodes (inner ++ around) = some left) :
    ∃ inner', left.2 = inner' ++ around ∧
      depth inner = depth inner' + 1 ∧ openNames inner' = openNames inner ∧
      ∀ around', Walls around around' →
        closeControls nodes (inner ++ around') = some (left.1, inner' ++ around') := by
  induction inner generalizing nodes with
  | nil => cases hwalls <;> cases h
  | cons f inner ih =>
    cases f with
    | definition => cases h
    | control kind pos p body chained outer =>
      simp only [List.cons_append, closeControls] at h ⊢
      cases chained with
      | false =>
        cases h
        exact ⟨inner, rfl, by simp [Nat.add_comm], rfl, fun _ _ => rfl⟩
      | true =>
        obtain ⟨inner', hleft, hdepth, hnames, hclose⟩ := ih h
        exact ⟨inner', hleft, by simpa using hdepth, hnames, hclose⟩

/-- The innermost structure is not among those around, if its body ends. -/
theorem exists_control_of_endBody {kind : Control} (hwalls : Walls around around)
    (hframes : a.frames = inner ++ around) (h : a.endBody = .ok (kind, b)) :
    ∃ pos p chained outer inner', inner = .control kind pos p none chained outer :: inner' ∧
      b = a.turn kind pos p chained outer (inner' ++ around) := by
  obtain ⟨pos, p, chained, outer, frames, heq, rfl⟩ := endBody_eq_ok h
  rw [hframes] at heq
  cases inner with
  | nil =>
    subst heq
    cases hwalls
  | cons f inner' =>
    rw [List.cons_append] at heq
    obtain ⟨rfl, rfl⟩ := List.cons.inj heq
    exact ⟨pos, p, chained, outer, inner', rfl, rfl⟩

/-- What became of the structures inside others, and of the definitions, when `a` was made `b`; none
are defined but those that were open and those that are named. The same would have become of them
inside other structures, and with other definitions. -/
structure Carried (around : List Frame) (run : Assembly → Except SyntaxError Assembly)
    (names : List String) (a b : Assembly) (inner inner' : List Frame) (more : Definitions) :
    Prop where
  frames : b.frames = inner' ++ around
  definitions : b.definitions = a.definitions.union more
  names : more.map Prod.fst ++ openNames inner' ⊆ openNames inner ++ names
  run : ∀ around' defs, Walls around around' → run (a.reframe (inner ++ around') defs) =
    .ok (b.reframe (inner' ++ around') (defs.union more))

theorem Carried.refl (hframes : a.frames = inner ++ around) :
    Carried around .ok [] a a inner inner [] where
  frames := hframes
  definitions := rfl
  names := List.subset_append_left _ _
  run _ _ _ := rfl

theorem Carried.trans {run run' : Assembly → Except SyntaxError Assembly}
    {names names' : List String} {inner' inner'' : List Frame} {more more' : Definitions}
    (h : Carried around run names a b inner inner' more)
    (h' : Carried around run' names' b c inner' inner'' more') :
    Carried around (fun x => run x >>= run') (names ++ names') a c inner inner''
      (more ++ more') where
  frames := h'.frames
  definitions := by
    rw [h'.definitions, h.definitions, Entries.union_append]
  names := by
    have hnames := h.names
    have hnames' := h'.names
    grind
  run around' defs hwalls := by
    rw [h.run around' defs hwalls, Entries.union_append]
    exact h'.run around' _ hwalls

/-- A step that opens no structure and closes none. -/
theorem Carried.within {run : Assembly → Except SyntaxError Assembly}
    (hframes : b.frames = inner ++ around) (hdefs : b.definitions = a.definitions)
    (hrun : ∀ frames defs, run (a.reframe frames defs) = .ok (b.reframe frames defs)) :
    Carried around run [] a b inner inner [] where
  frames := hframes
  definitions := hdefs
  names := List.subset_append_left _ _
  run around' defs _ := hrun (inner ++ around') defs

/-- What closes is the innermost definition, or control structures up to one that is not chained. It
is not a definition around, if the level goes on from there. -/
theorem close_carried {stop : Pos} (hwalls : Walls around around)
    (hframes : a.frames = inner ++ around) (h : a.close = some b)
    (hlevel : around ≠ [] → (Clause.close.level? (depth inner)).isSome) :
    ∃ inner' more,
      Carried around (takeItem isFunction · (.action ⟨stop, .close⟩)) [] a b inner inner' more ∧
        ∀ level ∈ Clause.close.level? (depth inner), depth inner' = level := by
  rcases close_eq_some h with ⟨name, call, outer, frames, heq, rfl⟩ |
    ⟨outer, frames, hcontrols, rfl⟩
  · rw [hframes] at heq
    cases inner with
    | nil =>
      -- The definition around would close, but then the level is not said to go on.
      subst heq
      simp at hlevel
    | cons f inner' =>
      rw [List.cons_append] at heq
      obtain ⟨rfl, rfl⟩ := List.cons.inj heq
      refine ⟨inner', [(name, a.nodes.reverse)], ⟨rfl, rfl, ?_, fun _ _ _ => ?_⟩, ?_⟩
      · simp
      · exact takeItem_close (close_of_definition rfl)
      · rw [depth_cons, Nat.add_comm]
        simp
  · rw [hframes] at hcontrols
    obtain ⟨inner', rfl, hdepth, hnames, hcontrols'⟩ := closeControls_walled hwalls hcontrols
    refine ⟨inner', [], ⟨rfl, rfl, ?_, fun around' _ hwalls' => ?_⟩, ?_⟩
    · simp [hnames]
    · exact takeItem_close (close_of_controls (hcontrols' around' hwalls'))
    · simp [hdepth]

/-- What a step does, it would do inside other structures and with other definitions. Those around
are left alone, unless the step closes what is around and no other. -/
theorem takeItem_carried {i : Item} (hwalls : Walls around around)
    (hframes : a.frames = inner ++ around) (h : a.takeItem isFunction i = .ok b)
    (hlevel : around ≠ [] → (i.level? (depth inner)).isSome) :
    ∃ inner' more,
      Carried around (takeItem isFunction · i) i.definedNames a b inner inner' more ∧
        ∀ level ∈ i.level? (depth inner), depth inner' = level := by
  -- A step looks at the structures for three reasons: a body ends, a structure closes, or a
  -- definition opens. In all other cases it would do the same in any structures.
  cases i with
  | text s =>
    cases h
    exact ⟨inner, [], .within hframes rfl fun _ _ => rfl, by simp⟩
  | action action =>
    obtain ⟨pos, clause⟩ := action
    cases stepped_of_step h with
    | pipeline hcheck =>
      refine ⟨inner, [], .within hframes rfl fun _ _ => ?_, by simp⟩
      exact takeItem_pipeline hcheck
    | invocation hcheck =>
      refine ⟨inner, [], .within hframes rfl fun _ _ => ?_, by simp⟩
      exact takeItem_invocation hcheck
    | jump hloop =>
      refine ⟨inner, [], .within hframes rfl fun _ _ => ?_, by simp⟩
      exact takeItem_jump hloop
    | @control kind p _ hopen =>
      obtain ⟨hcheck, rfl⟩ := openControl_eq_ok hopen
      refine ⟨.control kind pos p none false a.outer :: inner, [],
        ⟨?_, rfl, ?_, fun _ _ _ => ?_⟩, ?_⟩
      · rw [hframes]
        rfl
      · simp
      · exact takeItem_control hcheck
      · simp [Nat.add_comm]
    | otherwise hend =>
      obtain ⟨_, _, _, _, _, rfl, rfl⟩ := exists_control_of_endBody hwalls hframes hend
      refine ⟨_ :: _, [], ⟨rfl, rfl, ?_, fun _ _ _ => ?_⟩, ?_⟩
      · simp
      · exact takeItem_otherwise rfl
      · simp
    | @elseControl kind p _ _ hend hopen =>
      obtain ⟨_, _, _, _, _, rfl, rfl⟩ := exists_control_of_endBody hwalls hframes hend
      obtain ⟨hcheck, rfl⟩ := openControl_eq_ok hopen
      refine ⟨_ :: _ :: _, [], ⟨rfl, rfl, ?_, fun _ _ _ => ?_⟩, ?_⟩
      · simp
      · exact takeItem_elseControl pos hcheck rfl
      · simp
    | @block name p hcheck =>
      refine ⟨.definition name (some (pos, p)) a.outer :: inner, [],
        ⟨?_, rfl, ?_, fun _ _ _ => ?_⟩, ?_⟩
      · simp [openDefinition, hframes]
      · simp
      · exact takeItem_block hcheck
      · simp [Nat.add_comm]
    | @definition name hnone =>
      rw [hnone, eq_comm, List.append_eq_nil_iff] at hframes
      obtain ⟨rfl, rfl⟩ := hframes
      refine ⟨[.definition name none a.outer], [], ⟨?_, rfl, ?_, fun _ _ hwalls' => ?_⟩, ?_⟩
      · simp [openDefinition, hnone]
      · simp
      · cases hwalls'
        exact takeItem_definition rfl
      · simp
    | close hclose => exact close_carried hwalls hframes hclose hlevel

theorem take_carried {s : Segment} (hwalls : Walls around around)
    (hframes : a.frames = inner ++ around) (h : a.take isFunction source s = .ok b)
    (hlevel : around ≠ [] → (s.level? source (depth inner)).isSome) :
    ∃ inner' more,
      Carried around (take isFunction source · s) (s.definedNames source) a b inner inner'
          more ∧
        ∀ level ∈ s.level? source (depth inner), depth inner' = level := by
  obtain ⟨i, hi, hstep⟩ := exists_item_of_take h
  have hitem : s.level? source (depth inner) = i.level? (depth inner) := by
    rw [Segment.level?, hi, Option.bind_some]
  rw [hitem] at hlevel ⊢
  obtain ⟨inner', more, hcarried, hdepth⟩ := takeItem_carried hwalls hframes hstep hlevel
  refine ⟨inner', more, ?_, hdepth⟩
  have hnames : s.definedNames source = i.definedNames := by
    rw [Segment.definedNames, hi, Option.map_some, Option.getD_some]
  simp only [hnames, Segment.take_of_item? hi]
  exact hcarried

/-- What a run does, it would do inside other structures and with other definitions, if it closes
none of those around. -/
theorem foldlM_carried {found : List Segment} (hwalls : Walls around around)
    (hframes : a.frames = inner ++ around) (h : found.foldlM (take isFunction source) a = .ok b)
    (hlevel : around ≠ [] → (found.foldlM (Segment.level? source) (depth inner)).isSome) :
    ∃ inner' more,
      Carried around (found.foldlM (take isFunction source)) (definedNames source found) a b
          inner inner' more ∧
        ∀ level ∈ found.foldlM (Segment.level? source) (depth inner), depth inner' = level := by
  induction found generalizing a inner with
  | nil =>
    cases h
    exact ⟨inner, [], .refl hframes, fun _ hdepth => Option.some.inj hdepth⟩
  | cons s rest ih =>
    rw [List.foldlM_cons] at h
    obtain ⟨c, htake, h⟩ := bind_eq_ok_iff.mp h
    simp only [List.foldlM_cons, Option.bind_eq_bind, Option.isSome_iff_exists, Option.mem_def,
      Option.bind_eq_some_iff] at hlevel ⊢
    obtain ⟨middle, more, hcarried, hdepth⟩ := take_carried hwalls hframes htake fun hne => by
      obtain ⟨_, level, hlevel, -⟩ := hlevel hne
      exact Option.isSome_iff_exists.mpr ⟨level, hlevel⟩
    obtain ⟨inner', more', hcarried', hdepth'⟩ := ih hcarried.frames h fun hne => by
      obtain ⟨last, level, hlevel, hlast⟩ := hlevel hne
      rw [hdepth level hlevel]
      exact Option.isSome_iff_exists.mpr ⟨last, hlast⟩
    refine ⟨inner', more ++ more', hcarried.trans hcarried', ?_⟩
    rintro last ⟨level, hlevel, hlast⟩
    exact hdepth' last (hdepth level hlevel ▸ hlast)

/-- Where nothing is around, a run goes on with other definitions in the same way. -/
theorem foldlM_redefined {found : List Segment}
    (h : found.foldlM (take isFunction source) a = .ok b) :
    ∃ more : Definitions, b.definitions = a.definitions.union more ∧
      more.map Prod.fst ⊆ openNames a.frames ++ definedNames source found ∧
      ∀ defs, found.foldlM (take isFunction source) { a with definitions := defs } =
        .ok { b with definitions := defs.union more } := by
  obtain ⟨inner', more, hcarried, -⟩ :=
    foldlM_carried .nil (List.append_nil a.frames).symm h fun hne => absurd rfl hne
  refine ⟨more, hcarried.definitions, ?_, fun defs => ?_⟩
  · exact List.Subset.trans (List.subset_append_left _ _) hcarried.names
  · have hrun := hcarried.run [] defs .nil
    rw [← hcarried.frames, List.append_nil] at hrun
    exact hrun

/-- If nothing inside a definition closes on its own, what closes is the definition. -/
theorem eq_nil_of_close {name : String} {call : Option (Pos × Pipeline)} {outer : Outer}
    (hframes : a.frames = inner ++ .definition name call outer :: around) (hdepth : depth inner = 0)
    (h : a.close = some b) : inner = [] := by
  rcases close_eq_some h with ⟨_, _, _, _, heq, -⟩ | ⟨_, _, hcontrols, -⟩
  · rw [hframes] at heq
    cases inner with
    | nil => rfl
    | cons f inner' =>
      rw [List.cons_append] at heq
      obtain ⟨rfl, -⟩ := List.cons.inj heq
      simp at hdepth
  · rw [hframes] at hcontrols
    obtain ⟨inner', -, hclosed, -⟩ := closeControls_walled .definition hcontrols
    omega

theorem definedNames_definition {first last : Segment} {body : List Segment} {name : String}
    (hfirst : first.item? source = some (.action ⟨pos, .definition name⟩)) :
    definedNames source (first :: (body ++ [last])) =
      name :: (definedNames source body ++ last.definedNames source) := by
  rw [definedNames, List.flatMap_cons, List.flatMap_append, Segment.definedNames, hfirst]
  simp [definedNames]

/-- What a balanced body leaves inside a definition, and what it would leave inside the same one with
anything else set aside for it. -/
theorem foldlM_balanced {body : List Segment} {name : String} {filled : Assembly} {stop : Pos}
    (hbody : Balanced source body) (hopen : a.frames = [])
    (hfill : body.foldlM (take isFunction source) (a.openDefinition name none) = .ok filled)
    (hclose : filled.close = some b) :
    ∃ defs : Definitions, defs.map Prod.fst ⊆ name :: definedNames source body ∧
      ∀ a' : Assembly, a'.frames = [] → ∃ filled',
        body.foldlM (take isFunction source) (a'.openDefinition name none) = .ok filled' ∧
        filled'.takeItem isFunction (.action ⟨stop, .close⟩) = .ok (a'.extend [] defs) := by
  have hinside : (a.openDefinition name none).frames = [] ++ [.definition name none a.outer] := by
    simp [openDefinition, hopen]
  have hlevel : (body.foldlM (Segment.level? source) (depth [])).isSome :=
    Option.isSome_iff_exists.mpr ⟨0, hbody⟩
  obtain ⟨inner, more, hcarried, hdepth⟩ :=
    foldlM_carried .definition hinside hfill fun _ => hlevel
  obtain rfl := eq_nil_of_close hcarried.frames (hdepth 0 hbody) hclose
  have hfilled : more.map Prod.fst ⊆ definedNames source body :=
    List.Subset.trans (List.subset_append_left _ _) hcarried.names
  refine ⟨more ++ [(name, filled.nodes.reverse)], ?_, fun a' hopen' => ?_⟩
  · rw [List.map_append]
    rintro key hkey
    rcases List.mem_append.mp hkey with hkey | hkey
    · exact List.mem_cons_of_mem _ (hfilled hkey)
    · exact List.mem_cons.mpr (.inl (List.mem_singleton.mp hkey))
  · have hopened : a'.openDefinition name none =
        (a.openDefinition name none).reframe ([] ++ [.definition name none a'.outer])
          a'.definitions := by
      simp [openDefinition, reframe, hopen']
    have hrun := hcarried.run [.definition name none a'.outer] a'.definitions .definition
    rw [← hopened] at hrun
    refine ⟨_, hrun, takeItem_close ((close_of_definition rfl).trans ?_)⟩
    simp [extend, outer, reframe, hopen', Entries.union]

/-- A complete definition can only stand where no structure is open. All that is left of it are the
templates that it defines, and these are the same wherever it stands. -/
theorem foldlM_definition {first last : Segment} {body : List Segment}
    (hdefinition : IsDefinition source first body last)
    (h : (first :: (body ++ [last])).foldlM (take isFunction source) a = .ok b) :
    a.frames = [] ∧ ∃ defs : Definitions,
      defs.map Prod.fst ⊆ definedNames source (first :: (body ++ [last])) ∧
      ∀ a', a'.frames = [] →
        (first :: (body ++ [last])).foldlM (take isFunction source) a' =
          .ok (a'.extend [] defs) := by
  obtain ⟨hopens, hbody, hcloses⟩ := hdefinition
  obtain ⟨i, hfirst, hi⟩ := (Option.any_eq_true _ _).mp hopens
  obtain ⟨pos, name, rfl⟩ := Item.exists_of_opensDefinition hi
  obtain ⟨j, hlast, hj⟩ := (Option.any_eq_true _ _).mp hcloses
  obtain ⟨stop, rfl⟩ := Item.exists_of_closes hj
  rw [definedNames_definition hfirst]
  simp only [List.foldlM_cons, List.foldlM_append, List.foldlM_nil, bind_pure,
    Segment.take_of_item? hfirst, Segment.take_of_item? hlast] at h ⊢
  obtain ⟨opened, hopen, h⟩ := bind_eq_ok_iff.mp h
  obtain ⟨filled, hfill, hclose⟩ := bind_eq_ok_iff.mp h
  have hopened : a.Stepped isFunction pos (.definition name) opened := stepped_of_takeItem hopen
  cases hopened with
  | definition hframes =>
  have hclosing : filled.Stepped isFunction stop .close b := stepped_of_takeItem hclose
  cases hclosing with
  | close hclosed =>
  obtain ⟨defs, hdefs, hrun⟩ := foldlM_balanced hbody hframes hfill hclosed
  refine ⟨hframes, defs, ?_, fun a' hframes' => ?_⟩
  · exact List.Subset.trans hdefs (List.cons_subset_cons _ (List.subset_append_left _ _))
  · obtain ⟨filled', hfill', hclose'⟩ := hrun a' hframes'
    exact bind_eq_ok_iff.mpr ⟨_, takeItem_definition hframes',
      bind_eq_ok_iff.mpr ⟨filled', hfill', hclose'⟩⟩

end Walled

end Assembly

/-! ### Definitions that move -/

section Moved

variable {isFunction : String → Bool} {source : List Char}

theorem foldlM_append_eq_ok_iff {found rest : List Segment} {a b : Assembly} :
    (found ++ rest).foldlM (take isFunction source) a = .ok b ↔
      ∃ c, found.foldlM (take isFunction source) a = .ok c ∧
        rest.foldlM (take isFunction source) c = .ok b := by
  rw [List.foldlM_append]
  exact bind_eq_ok_iff

/-- **A definition leaves no trace but what it defines.** Let a complete definition stand among
other segments, and let what is defined in it be defined in none of these. Then it might as well be
the first or the last thing of the source. Without it the source is a template with the same nodes,
which lacks the names that are defined in it, and nothing else; and at any place after it the nodes,
the variables, the loop and the structures that are open are the same with and without it.

That it stands where no structure is open need not be asked: elsewhere it is refused. -/
theorem assembled_of_hoisted {before behind body : List Segment} {first last : Segment}
    {t : Template} (hdefinition : IsDefinition source first body last)
    (hnew : ∀ name ∈ definedNames source (first :: (body ++ [last])),
      name ∉ definedNames source before ∧ name ∉ definedNames source behind)
    (h : assembled? isFunction source (before ++ first :: (body ++ [last]) ++ behind) = some t) :
    assembled? isFunction source (first :: (body ++ [last]) ++ before ++ behind) = some t ∧
    assembled? isFunction source (before ++ behind ++ first :: (body ++ [last])) = some t ∧
    assembled? isFunction source (before ++ behind) = some ⟨t.root, t.definitions.filter fun e =>
      e.1 ∉ definedNames source (first :: (body ++ [last]))⟩ ∧
    ∀ part, part <+: behind → ∃ a defs,
      (before ++ first :: (body ++ [last]) ++ part).foldlM (take isFunction source) .empty = .ok a ∧
      (before ++ part).foldlM (take isFunction source) .empty =
        .ok { a with definitions := defs } := by
  have hmoves := fun a b => @foldlM_definition isFunction source a b first last body hdefinition
  generalize first :: (body ++ [last]) = definition at hmoves hnew h ⊢
  obtain ⟨b, hfold, hclosed, rfl⟩ := assembled?_eq_some_iff.mp h
  obtain ⟨a', hmiddle, hbehind⟩ := foldlM_append_eq_ok_iff.mp hfold
  obtain ⟨a, hbefore, hdefined⟩ := foldlM_append_eq_ok_iff.mp hmiddle
  obtain ⟨hopen, defs, hdefs, hrun⟩ := hmoves a a' hdefined
  obtain rfl : a.extend [] defs = a' := Except.ok.inj ((hrun a hopen).symm.trans hdefined)
  obtain ⟨left, hleft, hleftNames, hbefore'⟩ := foldlM_redefined hbefore
  obtain ⟨right, hright, hrightNames, hbehind'⟩ := foldlM_redefined hbehind
  have hopen' : (a.extend [] defs).frames = [] := hopen
  rw [hopen', openNames_nil, List.nil_append] at hrightNames
  have hapart : ∀ key ∈ defs.map Prod.fst, key ∉ left.map Prod.fst ∧ key ∉ right.map Prod.fst := by
    intro key hkey
    obtain ⟨hbefore, hbehind⟩ := hnew key (hdefs hkey)
    exact ⟨fun h => hbefore (hleftNames h), fun h => hbehind (hrightNames h)⟩
  -- The definitions of the whole, in whatever order the three parts come.
  have hall : ((Entries.union [] left).union defs).union right = b.definitions := by
    rw [hright]
    exact congrArg (fun m => (Entries.union m defs).union right) hleft.symm
  have hfirst : ((Entries.union [] defs).union left).union right = b.definitions := by
    rw [← hall, Entries.union_comm fun key hkey => (hapart key hkey).1]
  have hlast : ((Entries.union [] left).union right).union defs = b.definitions := by
    rw [← hall, ← Entries.union_comm fun key hkey => (hapart key hkey).2]
  have hwithout : (before ++ behind).foldlM (take isFunction source) .empty =
      .ok { b with definitions := (Entries.union [] left).union right } :=
    foldlM_append_eq_ok_iff.mpr ⟨a, hbefore, (hbehind' a.definitions).trans (by rw [hleft]; rfl)⟩
  refine ⟨?_, ?_, ?_, ?_⟩
  · refine assembled?_eq_some_iff.mpr ⟨b, ?_, hclosed, rfl⟩
    refine (foldlM_append_eq_ok_iff.mpr ⟨_, ?_, hbehind' _⟩).trans
      (congrArg (fun m => Except.ok { b with definitions := m }) hfirst)
    exact foldlM_append_eq_ok_iff.mpr ⟨_, hrun .empty rfl, hbefore' _⟩
  · refine assembled?_eq_some_iff.mpr ⟨b, ?_, hclosed, rfl⟩
    exact (foldlM_append_eq_ok_iff.mpr ⟨_, hwithout, hrun _ hclosed⟩).trans
      (congrArg (fun m => Except.ok { b with definitions := m }) hlast)
  · refine assembled?_eq_some_iff.mpr ⟨_, hwithout, hclosed, congrArg (Template.mk _) ?_⟩
    refine (congrArg (List.filter _) hlast.symm).trans ?_
    refine Entries.filter_union_eq_self (p := fun key => key ∉ definedNames source definition)
      (fun e he => decide_eq_true fun hname => ?_)
      (fun key hkey => decide_eq_false (not_not_intro (hdefs hkey)))
    obtain ⟨hbefore, hbehind⟩ := hnew e.1 hname
    rcases Entries.mem_union he with he | he
    · rcases Entries.mem_union he with he | he
      · cases he
      · exact hbefore (hleftNames (List.mem_map_of_mem he))
    · exact hbehind (hrightNames (List.mem_map_of_mem he))
  · rintro part ⟨rest, rfl⟩
    obtain ⟨c, hpart, -⟩ := foldlM_append_eq_ok_iff.mp hbehind
    obtain ⟨more, -, -, hpart'⟩ := foldlM_redefined hpart
    exact ⟨c, a.definitions.union more, foldlM_append_eq_ok_iff.mpr ⟨_, hmiddle, hpart⟩,
      foldlM_append_eq_ok_iff.mpr ⟨a, hbefore, hpart' a.definitions⟩⟩

/-- A variable is declared before the definition of `r`, in it and in the block `c` inside, and it
is printed after it. -/
def rowSource : List Char :=
  "\x7b\x7b$n := 1\x7d\x7d\x7b\x7bdefine \"r\"\x7d\x7d\x7b\x7b$n := 2\x7d\x7d".toList ++
    "{{range .}}{{break}}{{end}}\x7b\x7bblock \"c\" .\x7d\x7d".toList ++
    "\x7b\x7b$n := 3\x7d\x7d{{end}}{{end}}\x7b\x7b$n\x7d\x7d".toList

/-- What stands in the definition of `r`. -/
def rowBody : List Segment :=
  [.action 25 27 "$n := 2".toList, .action 36 38 "range .".toList, .action 47 49 "break".toList,
    .action 56 58 "end".toList, .action 63 65 "block \"c\" .".toList,
    .action 78 80 "$n := 3".toList, .action 89 91 "end".toList]

theorem assembled_of_hoisted_row :
    ∃ before first last behind t,
      segments rowSource = .ok (before ++ first :: (rowBody ++ [last]) ++ behind) ∧
      IsDefinition rowSource first rowBody last ∧
      definedNames rowSource (first :: (rowBody ++ [last])) = ["r", "c"] ∧
      assembled? (fun _ => false) rowSource (first :: (rowBody ++ [last]) ++ before ++ behind) =
        some t ∧
      assembled? (fun _ => false) rowSource (before ++ behind ++ first :: (rowBody ++ [last])) =
        some t ∧
      assembled? (fun _ => false) rowSource (before ++ behind) =
        some ⟨t.root, t.definitions.filter fun e => e.1 ∉ ["r", "c"]⟩ := by
  have hcut : segments rowSource =
      .ok ([.action 0 2 "$n := 1".toList] ++ .action 11 13 "define \"r\"".toList ::
        (rowBody ++ [.action 96 98 "end".toList]) ++ [.action 103 105 "$n".toList]) := by
    decide +kernel
  have hdefinition : IsDefinition rowSource (.action 11 13 "define \"r\"".toList) rowBody
      (.action 96 98 "end".toList) := by
    decide +kernel
  have hnames : definedNames rowSource (.action 11 13 "define \"r\"".toList ::
      (rowBody ++ [.action 96 98 "end".toList])) = ["r", "c"] := by
    decide +kernel
  obtain ⟨t, ht⟩ := Option.isSome_iff_exists.mp (show (assembled? (fun _ => false) rowSource
    ([.action 0 2 "$n := 1".toList] ++ .action 11 13 "define \"r\"".toList ::
      (rowBody ++ [.action 96 98 "end".toList]) ++ [.action 103 105 "$n".toList])).isSome by
    decide +kernel)
  have hnew : ∀ name ∈ ["r", "c"],
      name ∉ definedNames rowSource [.action 0 2 "$n := 1".toList] ∧
        name ∉ definedNames rowSource [.action 103 105 "$n".toList] := by
    decide +kernel
  rw [← hnames] at hnew
  obtain ⟨hfirst, hlast, hwithout, -⟩ := assembled_of_hoisted hdefinition hnew ht
  rw [hnames] at hwithout
  exact ⟨[.action 0 2 "$n := 1".toList], .action 11 13 "define \"r\"".toList,
    .action 96 98 "end".toList, [.action 103 105 "$n".toList], t, hcut, hdefinition, hnames, hfirst,
    hlast, hwithout⟩

end Moved

end BoundQuery.Template
