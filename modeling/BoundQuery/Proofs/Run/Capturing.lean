/-
# Captured runs and plain runs

The run of a captured template and the run of the template as it was parsed go side by side. Where
the one writes a question mark and captures a value, the other writes the value; all else is the
same. Only where a mark would follow right on one that stands for a value does the captured run stop
alone.

Main statements: `agrees_ending_capture`, `execute_capture`.
-/

import BoundQuery.Proofs.Run.Evaluation
import BoundQuery.Proofs.Run.Lockstep
import BoundQuery.Proofs.Run.Traces
import BoundQuery.Proofs.Template.Captured

namespace BoundQuery.Run

open Template (Node Pipeline Jump Likeness AlikeNodes AlikeOtherwise captureName captureNodes)
open Text (Pos)

/-- The outputs of a captured run and of the plain run. -/
structure Paired (T : String → Prop) (s t : Output) : Prop where
  /-- The plain run wrote the captured values in place of the marks for them. -/
  trace : t.trace = s.trace.map Emission.uncaptured
  /-- Each mark stands for a captured value. -/
  captured : s.captured = s.trace.filterMap Emission.captured?
  plain : t.captured = []
  written : Trace.Written T s.trace

/-- Captured runs beside plain ones: only the captured run may stop at adjacent marks. -/
def paired (T : String → Prop) : Accord where
  related := Paired T
  excused e := e.fault = .adjacentPlaceholder
  admitted _ e := e.fault ≠ .adjacentPlaceholder

/-- A captured template that calls the capture function nowhere else, and the template itself. -/
def captures (T : String → Prop) : Likeness where
  text := T
  action p q := captureName ∉ q.identifiers ∧
    (p = q ∨ q.setsVariables = false ∧ q.commands ≠ [] ∧ ∃ pos, p = q.handOn pos)
  source p := captureName ∉ p.identifiers

/-- A template that does not call the capture function, beside itself. -/
def captureFree : Likeness where
  text _ := True
  action p q := p = q ∧ captureName ∉ p.identifiers
  source p := captureName ∉ p.identifiers

/-- Plain runs beside themselves: they capture nothing and never stop at adjacent marks. -/
def plain : Accord where
  related s t := s = t ∧ ∀ e ∈ s.trace, e.captured? = none
  excused _ := False
  admitted _ e := e.fault ≠ .adjacentPlaceholder

/-! ### Steps -/

section Steps

variable {k : Accord}
  (admits : ∀ (o : Output) (e : EvalError), e.fault ≠ .adjacentPlaceholder → k.admitted o e)

include admits in
/-- A pipeline that does not name the capture function has one value in both runs. -/
theorem lockstep_evaluate {p : Pipeline} (h : captureName ∉ p.identifiers) {env env' : Env}
    (hfunctions : env.functions = env'.functions) (mode : Mode) (dot : Value) :
    k.Lockstep (Walk.evaluate env mode dot p) (Walk.evaluate env' mode dot p) := by
  intro s t hvars hout
  rw [Walk.evaluate_apply, Walk.evaluate_apply, hfunctions, hvars]
  obtain ⟨outcome, heval, hp⟩ := evalPipeline_of_notMem h ⟨env'.functions, t.bindings, dot, mode⟩
  rw [hp, hp]
  cases outcome with
  | ok v => exact .ok rfl hout
  | error e => exact .error (admits _ e (heval e rfl)) hout

variable {T : String → Prop}

/-- A text or a value is written by both runs, a mark for a value that was just captured by one. -/
theorem agrees_emit {e : Emission} (he : e.Of T) {s t : State} {before : List Value}
    (hvars : s.bindings = t.bindings) (hout : Paired T ⟨s.trace, before⟩ t.output)
    (hcaptured : s.captured = e.captured?.toList ++ before) :
    (paired T).Agrees (Walk.emit e s) (Walk.emit e.uncaptured t) := by
  -- The plain run wrote no marks, so it is never refused a piece.
  have huncaptured : ∀ d ∈ t.trace, d.captured? = none := by
    intro d hd
    have hmem : d ∈ s.trace.map Emission.uncaptured := hout.trace ▸ hd
    obtain ⟨c, -, rfl⟩ := List.mem_map.mp hmem
    cases c <;> rfl
  rw [Walk.emit_apply, Walk.emit_apply, Trace.emit_of_uncaptured huncaptured]
  cases hemit : Trace.emit e s.trace with
  | error err => exact .excused (Trace.emit_eq_error hemit)
  | ok trace =>
    cases Trace.emit_eq_ok hemit
    refine .ok hvars ⟨?_, ?_, hout.plain, .emit he hout.written hemit⟩
    · have htrace : t.trace = s.trace.map Emission.uncaptured := hout.trace
      simp [State.output, htrace]
    · have hbefore : before = s.trace.filterMap Emission.captured? := hout.captured
      simp only [State.output, hcaptured, hbefore]
      cases hvalue : e.captured? with
      | none => rw [List.filterMap_cons_none hvalue]; rfl
      | some v => rw [List.filterMap_cons_some hvalue]; rfl

include admits in
/-- An action that does not capture does the same in both runs. -/
theorem lockstep_action {p : Pipeline} (h : captureName ∉ p.identifiers) {env env' : Env}
    (hfunctions : env.functions = env'.functions) (dot : Value)
    (hemit : ∀ v, k.Lockstep (Walk.emit (.value v)) (Walk.emit (.value v))) :
    k.Lockstep (Walk.action env dot p) (Walk.action env' dot p) := by
  refine Accord.lockstep_action_of_steps (fun pos name o => admits o _ nofun)
    (lockstep_evaluate admits h hfunctions .strict dot) hemit fun hcaptures => ?_
  rw [Pipeline.capturesValue_of_notMem h] at hcaptures
  cases hcaptures

end Steps

/-! ### Captured actions -/

section Runs

variable {T : String → Prop} {env env' : Env}

/-- A captured action writes a mark where the plain one writes the value. -/
theorem lockstep_handOn {q : Pipeline} (hfree : captureName ∉ q.identifiers)
    (hsets : q.setsVariables = false) (hne : q.commands ≠ []) (pos : Pos)
    (hfunctions : env.functions = env'.functions) (dot : Value) :
    (paired T).Lockstep (Walk.action env dot (q.handOn pos)) (Walk.action env' dot q) := by
  intro s t hvars hout
  have hplain : q.capturesValue = false := Pipeline.capturesValue_of_notMem hfree
  obtain ⟨outcome, heval, hq⟩ :=
    evalPipeline_of_notMem hfree ⟨env'.functions, t.bindings, dot, .strict⟩
  have hcapture : evalPipeline ⟨env'.functions, t.bindings, dot, .strict⟩ (q.handOn pos) =
      evalPipeline ⟨env'.functions, t.bindings, dot, .strict⟩ q >>= Eval.capture :=
    evalPipeline_capture _ hne pos
  rw [Walk.action_apply, Walk.action_apply, Walk.evaluateAndBind_apply (h := hsets),
    Walk.evaluateAndBind_apply (p := q.handOn pos) (h := hsets), Walk.evaluate_apply,
    Walk.evaluate_apply, hfunctions, hvars, hcapture, bind_apply, hq, hq]
  -- Both pipelines have the outcome of `q`; a value is captured on the left and written on the right.
  simp only [Pipeline.setsVariables_handOn, Pipeline.capturesValue_handOn, hsets, hplain]
  cases outcome with
  | error e => exact .error (heval e rfl) hout
  | ok v => exact agrees_emit (e := .argument q.pos v) trivial rfl hout rfl

theorem admitsCapture_captures {t : Template} (hfree : captureName ∉ t.identifiers)
    (htexts : ∀ s ∈ t.texts, T s) : ∀ n ∈ t.nodes, (captures T).AdmitsCapture n := by
  intro n hn
  have hnode := Template.notMem_identifiers hfree hn
  cases n with
  | text s => exact htexts s (Template.mem_texts hn)
  | action p =>
    intro bound
    refine ⟨hnode p (List.mem_singleton_self p), ?_⟩
    by_cases hsets : p.setsVariables
    · exact .inl (if_pos hsets)
    · rw [if_neg hsets]
      refine (p.capture_eq_or bound).imp_right fun ⟨hne, hcapture⟩ => ?_
      exact ⟨Bool.eq_false_iff.mpr hsets, hne, hcapture⟩
  | control kind pos p body otherwise => exact hnode p (List.mem_singleton_self p)
  | invoke pos name data => exact fun p hp => hnode p (by simpa [Node.pipelines] using hp)
  | jump kind pos => trivial

theorem keeps_paired {t : Template} (hfree : captureName ∉ t.identifiers)
    (htexts : ∀ s ∈ t.texts, T s) (functions : Registry) :
    Accord.Keeps (paired T) (captures T) ⟨functions, t.capture.definitions⟩
      ⟨functions, t.definitions⟩ where
  text hs := fun s t hvars hout => agrees_emit (e := .text _) hs hvars hout rfl
  action := by
    rintro p q ⟨hq, rfl | ⟨hsets, hne, pos, rfl⟩⟩ dot
    · refine lockstep_action (fun _ _ he => he) hq rfl dot fun v => ?_
      exact fun s t hvars hout => agrees_emit (e := .value v) trivial hvars hout rfl
    · exact lockstep_handOn hq hsets hne pos rfl dot
  source hp := lockstep_evaluate (fun _ _ he => he) hp rfl
  definitions name := by
    have hfind : Entries.find? name t.capture.definitions =
        (Entries.find? name t.definitions).map (captureNodes [] []) :=
      Entries.find?_map (captureNodes [] []) name t.definitions
    rw [hfind]
    cases hbody : Entries.find? name t.definitions with
    | none => exact .none
    | some nodes =>
      have hmem : (name, nodes) ∈ t.definitions := Entries.mem_of_find? hbody
      refine .some (Template.alikeNodes_capture [] [] nodes fun n hn => ?_)
      exact admitsCapture_captures hfree htexts n (Template.mem_nodes_of_definition hmem hn)
  undefinedVariable _ _ _ := nofun
  undefinedTemplate _ _ _ := nofun
  cannotRange _ _ _ := nofun
  depthExceeded _ _ := nofun

/-! ### Whole runs -/

/-- The captured run and the plain run of a template come to the same end, unless the captured run
stops at adjacent marks. -/
theorem agrees_ending_capture {t : Template} (hfree : captureName ∉ t.identifiers)
    (htexts : ∀ s ∈ t.texts, T s) (functions : Registry) (data : Value) :
    (paired T).Agrees (ending functions t.capture data []) (ending functions t data []) := by
  have halike : AlikeNodes (captures T) t.capture.root t.root :=
    Template.alikeNodes_capture [] [] t.root fun n hn =>
      admitsCapture_captures hfree htexts n (Template.mem_nodes_of_root hn)
  exact Accord.lockstep_walkAt (keeps_paired hfree htexts functions) maxDepth data halike _ _ rfl
    ⟨rfl, rfl, rfl, .nil⟩

/-- Without marks for values nothing is refused. -/
theorem lockstep_emit_plain {e : Emission} (he : e.captured? = none) :
    plain.Lockstep (Walk.emit e) (Walk.emit e) := by
  rintro s t hvars ⟨hout, hnone⟩
  have htrace : s.trace = t.trace := congrArg Output.trace hout
  have hcaptured : s.captured = t.captured := congrArg Output.captured hout
  have hemit : Trace.emit e s.trace = .ok (e :: s.trace) := Trace.emit_of_uncaptured hnone e
  rw [Walk.emit_apply, Walk.emit_apply, ← htrace, hemit]
  refine .ok hvars ⟨?_, ?_⟩
  · simp [State.output, hcaptured]
  · simpa [State.output, he] using hnone

theorem admits_captureFree {t : Template} (hfree : captureName ∉ t.identifiers) :
    ∀ n ∈ t.nodes, captureFree.Admits n := by
  intro n hn
  have hnode := Template.notMem_identifiers hfree hn
  cases n with
  | text s => trivial
  | action p => exact ⟨rfl, hnode p (List.mem_singleton_self p)⟩
  | control kind pos p body otherwise => exact hnode p (List.mem_singleton_self p)
  | invoke pos name data => exact fun p hp => hnode p (by simpa [Node.pipelines] using hp)
  | jump kind pos => trivial

theorem keeps_plain {t : Template} (hfree : captureName ∉ t.identifiers) (functions : Registry) :
    Accord.Keeps plain captureFree ⟨functions, t.definitions⟩ ⟨functions, t.definitions⟩ where
  text _ := lockstep_emit_plain rfl
  action := by
    rintro p _ ⟨rfl, hp⟩ dot
    exact lockstep_action (fun _ _ he => he) hp rfl dot fun v => lockstep_emit_plain rfl
  source hp := lockstep_evaluate (fun _ _ he => he) hp rfl
  definitions name := by
    cases hbody : Entries.find? name t.definitions with
    | none => exact .none
    | some nodes =>
      have hmem : (name, nodes) ∈ t.definitions := Entries.mem_of_find? hbody
      refine .some (Template.alikeNodes_self nodes fun n hn => ?_)
      exact admits_captureFree hfree n (Template.mem_nodes_of_definition hmem hn)
  undefinedVariable _ _ _ := nofun
  undefinedTemplate _ _ _ := nofun
  cannotRange _ _ _ := nofun
  depthExceeded _ _ := nofun

/-- A plain run never stops at adjacent marks. -/
theorem agrees_ending_plain {t : Template} (hfree : captureName ∉ t.identifiers)
    (functions : Registry) (data : Value) :
    plain.Agrees (ending functions t data []) (ending functions t data []) := by
  have halike : AlikeNodes captureFree t.root t.root :=
    Template.alikeNodes_self t.root fun n hn =>
      admits_captureFree hfree n (Template.mem_nodes_of_root hn)
  exact Accord.lockstep_walkAt (keeps_plain hfree functions) maxDepth data halike _ _ rfl
    ⟨rfl, by simp [State.output]⟩

/-- Capturing keeps the meaning of a template. If the captured run yields a raw text and arguments,
the plain run captures nothing and yields the same segments, with the printed arguments between them
in place of the marks. If the captured run fails but for adjacent marks, the plain run fails alike;
and it never fails for adjacent marks itself. -/
theorem execute_capture {t : Template} (hfree : captureName ∉ t.identifiers) (functions : Registry)
    (data : Value) :
    (∀ raw args, execute functions t.capture data [] = ⟨.ok raw, args⟩ →
      ∃ (first : List Char) (rest : List (Value × List Char)),
        rest.map Prod.fst = args ∧
        raw = first ++ rest.flatMap (fun (_, segment) => Statement.mark :: segment) ∧
        execute functions t data [] =
          ⟨.ok (first ++ rest.flatMap fun (v, segment) => Statement.double v.print ++ segment),
            []⟩) ∧
    (∀ e, (execute functions t.capture data []).result = .error e →
      e.fault ≠ .adjacentPlaceholder → (execute functions t data []).result = .error e) ∧
    ∀ e, (execute functions t data []).result = .error e → e.fault ≠ .adjacentPlaceholder := by
  have hpaired :=
    agrees_ending_capture (T := fun _ => True) hfree (fun _ _ => trivial) functions data
  have hplain := agrees_ending_plain hfree functions data
  unfold execute
  generalize ending functions t.capture data [] = captured at hpaired ⊢
  generalize ending functions t data [] = bare at hpaired hplain ⊢
  refine ⟨?_, ?_, ?_⟩
  · intro raw args hrun
    cases hpaired with
    | ok hvars hout =>
      rename_i jump s t
      obtain ⟨first, rest, hvalues, hmarks, hprints⟩ := Trace.exists_segments s.trace.reverse
      cases hrun
      have htrace : t.trace = s.trace.map Emission.uncaptured := hout.trace
      have hcaptured : s.captured = s.trace.filterMap Emission.captured? := hout.captured
      have hnone : t.captured = [] := hout.plain
      refine ⟨first, rest, ?_, hmarks, ?_⟩
      · rw [hvalues, hcaptured, List.filterMap_reverse]
      · simp only [Except.map, Trace.raw, htrace, hnone, ← List.map_reverse, hprints,
          List.reverse_nil]
    | error hadmitted hout => cases hrun
    | excused hexcused => cases hrun
  · intro e hrun hfault
    cases hpaired with
    | ok hvars hout => cases hrun
    | error hadmitted hout => exact hrun
    | excused hexcused =>
      cases hrun
      exact absurd hexcused hfault
  · intro e hrun
    cases hplain with
    | ok hvars hout => cases hrun
    | error hadmitted hout =>
      cases hrun
      exact hadmitted
    | excused hexcused => exact hexcused.elim

theorem execute_capture_question :
    ∃ (t : Template) (raw : List Char) (args : List Value) (first : List Char)
      (rest : List (Value × List Char)),
      Template.parse (fun _ => false) "a = {{.A}} b".toList = .ok t ∧
      execute [] t.capture (.map [("A", .string "?")]) [] = ⟨.ok raw, args⟩ ∧
      rest.map Prod.fst = args ∧
      raw = first ++ rest.flatMap (fun (_, segment) => Statement.mark :: segment) ∧
      execute [] t (.map [("A", .string "?")]) [] =
        ⟨.ok (first ++ rest.flatMap fun (v, segment) => Statement.double v.print ++ segment),
          []⟩ := by
  obtain ⟨t, hparse, ht⟩ := exists_of_any
    (x := Template.parse (fun _ => false) "a = {{.A}} b".toList)
    (p := fun t => decide (captureName ∉ t.identifiers) &&
      (execute [] t.capture (.map [("A", .string "?")]) []).result.toOption.any fun _ => true)
    (by decide +kernel)
  simp only [Bool.and_eq_true, decide_eq_true_eq] at ht
  obtain ⟨hfree, hrun⟩ := ht
  obtain ⟨raw, hraw, -⟩ := exists_of_any hrun
  have hrun : execute [] t.capture (.map [("A", .string "?")]) [] = ⟨.ok raw, _⟩ :=
    congrArg (Outcome.mk · _) hraw
  obtain ⟨first, rest, hall⟩ := (execute_capture hfree [] _).1 raw _ hrun
  exact ⟨t, raw, _, first, rest, hparse, hrun, hall⟩

end Runs

end BoundQuery.Run
