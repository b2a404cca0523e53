/-
# Texts with the end of the last mark

A run may keep, in place of the pieces that it wrote, only their text, and with it the offset at which
the last mark for a value ends. A piece that starts with a question mark is then refused exactly if
that offset is the end of the text. One piece after the other, this comes to the same as looking
through the pieces: empty ones leave the text as long as it was, and all others make it longer. So the
texts and the refusals of runs are those that the text and the offset alone lead to.

Main statements: `write_buffer`, `writeAll_buffer`, `buffer_ending`, `execute_capture_buffer`.
-/

import BoundQuery.Proofs.Run.Isolation
import BoundQuery.Proofs.Run.Writings
import BoundQuery.Proofs.Text.Slices

namespace BoundQuery.Run

open Statement (mark)
open Template (Pipeline Likeness captureName alikeNodes_self alikeOtherwise_self)
open Text (Pos utf8Length utf8Length_append)

/-- What a run has written, without the pieces. -/
structure Buffer where
  text : List Char
  /-- Where the last mark for a value ends, in bytes, and the action that wrote it. -/
  lastMark? : Option (Nat × Pos)

namespace Buffer

def empty : Buffer :=
  ⟨[], none⟩

/-- Goes on with more characters. A question mark is refused where the last mark for a value ends. -/
def append (cs : List Char) (b : Buffer) : Except EvalError Buffer :=
  match b.lastMark? with
  | some (stop, pos) =>
    if stop = utf8Length b.text ∧ cs.head? = some mark then .error ⟨pos, .adjacentPlaceholder⟩
    else .ok { b with text := b.text ++ cs }
  | none => .ok { b with text := b.text ++ cs }

/-- After a mark for a value its end is kept, and the action that wrote it. -/
def note (e : Emission) (b : Buffer) : Buffer :=
  match e with
  | .argument pos _ => { b with lastMark? := some (utf8Length b.text, pos) }
  | _ => b

/-- Writes a piece. -/
def write (e : Emission) (b : Buffer) : Except EvalError Buffer :=
  (b.append e.chars).map (note e)

/-- Writes pieces one after the other. -/
def writeAll (es : List Emission) (b : Buffer) : Except EvalError Buffer :=
  es.foldlM (fun b e => b.write e) b

end Buffer

/-! ### The offset is known from the pieces -/

namespace Trace

/-- Where the last mark for a value ends in the text of the pieces, and the action that wrote it. -/
def lastMark? : Trace → Option (Nat × Pos)
  | [] => none
  | .argument pos v :: before => some (utf8Length (raw (.argument pos v :: before)), pos)
  | _ :: before => lastMark? before

/-- What is kept of the pieces. -/
def buffer (trace : Trace) : Buffer :=
  ⟨trace.raw, trace.lastMark?⟩

section Pieces

variable {trace : Trace} {e : Emission} {stop : Nat} {pos : Pos}

theorem lastMark?_cons (he : e.captured? = none) (trace : Trace) :
    lastMark? (e :: trace) = lastMark? trace := by
  cases e with
  | argument pos v => cases he
  | text s => rfl
  | value v => rfl

/-- No mark ends beyond the text. -/
theorem lastMark?_le (h : lastMark? trace = some (stop, pos)) : stop ≤ utf8Length trace.raw := by
  induction trace with
  | nil => cases h
  | cons e before ih =>
    cases he : e.captured? with
    | none =>
      rw [lastMark?_cons he] at h
      rw [raw_cons, utf8Length_append]
      exact Nat.le_add_right_of_le (ih h)
    | some v =>
      obtain ⟨pos', rfl⟩ := Emission.exists_of_captured? he
      cases h
      exact Nat.le_refl _

/-- The text ends in a mark for a value exactly if it ends where the last one does. -/
theorem openMark?_eq_some_iff :
    openMark? trace = some pos ↔ lastMark? trace = some (utf8Length trace.raw, pos) := by
  induction trace with
  | nil => simp [openMark?, lastMark?]
  | cons e before ih =>
    cases he : e.captured? with
    | none =>
      rw [openMark?_cons he, lastMark?_cons he, raw_cons, utf8Length_append]
      cases hchars : e.chars with
      | nil => simpa using ih
      | cons c cs =>
        -- What is written makes the text longer than it was where the last mark ended.
        have hlonger := Text.utf8Length_pos (List.cons_ne_nil c cs)
        simp only [List.isEmpty_cons, Bool.false_eq_true, if_false, reduceCtorEq, false_iff]
        intro hlast
        have hle := lastMark?_le hlast
        omega
    | some v =>
      obtain ⟨pos', rfl⟩ := Emission.exists_of_captured? he
      simp [openMark?, lastMark?]

theorem buffer_cons (e : Emission) (trace : Trace) :
    buffer (e :: trace) = .note e ⟨trace.raw ++ e.chars, trace.lastMark?⟩ := by
  rw [buffer, raw_cons]
  cases e with
  | argument pos v => rw [lastMark?, raw_cons, Buffer.note]
  | text s => rfl
  | value v => rfl

/-- The offset is that of the end of the text exactly if the text ends in a mark for a value. -/
theorem append_buffer (cs : List Char) (trace : Trace) :
    trace.buffer.append cs =
      match openMark? trace with
      | some pos =>
        if cs.head? = some mark then .error ⟨pos, .adjacentPlaceholder⟩
        else .ok ⟨trace.raw ++ cs, trace.lastMark?⟩
      | none => .ok ⟨trace.raw ++ cs, trace.lastMark?⟩ := by
  cases hopen : openMark? trace with
  | some pos =>
    have hlast := openMark?_eq_some_iff.mp hopen
    simp [Buffer.append, buffer, hlast]
  | none =>
    unfold Buffer.append
    split
    · rename_i stop pos hlast
      have hbefore : stop ≠ utf8Length trace.raw := by
        rintro rfl
        rw [openMark?_eq_some_iff.mpr hlast] at hopen
        cases hopen
      exact if_neg fun h => hbefore h.1
    · rfl

/-- **One piece.** What is kept after a piece is what was kept before it, and the piece with it; and
the same pieces are refused, with the same error. -/
theorem write_buffer (e : Emission) (trace : Trace) :
    trace.buffer.write e = (emit e trace).map buffer := by
  rw [Buffer.write, append_buffer, emit]
  cases openMark? trace with
  | none => exact congrArg Except.ok (buffer_cons e trace).symm
  | some pos =>
    dsimp only
    split
    · rfl
    · exact congrArg Except.ok (buffer_cons e trace).symm

/-- **Many pieces.** Written one after the other they come to the same. -/
theorem writeAll_buffer (es : List Emission) (trace : Trace) :
    trace.buffer.writeAll es = (emitAll es trace).map buffer := by
  induction es generalizing trace with
  | nil => rfl
  | cons e es ih =>
    rw [Buffer.writeAll, List.foldlM_cons, write_buffer, emitAll_cons]
    cases emit e trace with
    | error err => rfl
    | ok trace' => exact ih trace'

theorem writeAll_empty (es : List Emission) :
    Buffer.empty.writeAll es = (emitAll es []).map buffer :=
  writeAll_buffer es []

end Pieces

end Trace

/-! ### Runs -/

/-- A run beside itself. It writes piece by piece, and where it fails for adjacent marks the text ends
in a mark that the action at the place of the error wrote. -/
def piecewise : Accord where
  related o o' := o = o' ∧ Trace.Written (fun _ => True) o.trace
  excused _ := False
  admitted o e := e.fault = .adjacentPlaceholder → Trace.openMark? o.trace = some e.pos

namespace Accord

theorem lockstep_piecewise {α : Type} {m : Walk α}
    (h : ∀ s : State, Trace.Written (fun _ => True) s.trace →
      Trace.Written (fun _ => True) (m s).2.trace ∧
        ∀ e, (m s).1 = .error e → piecewise.admitted (m s).2.output e) :
    piecewise.Lockstep m m := by
  rintro ⟨bindings, trace, captured⟩ ⟨_, _, _⟩ ⟨⟩ ⟨⟨⟩, hwritten⟩
  obtain ⟨hafter, hadmitted⟩ := h ⟨bindings, trace, captured⟩ hwritten
  generalize m ⟨bindings, trace, captured⟩ = outcome at hafter hadmitted ⊢
  obtain ⟨result, s⟩ := outcome
  cases result with
  | ok a => exact .ok rfl ⟨rfl, hafter⟩
  | error e => exact .error (hadmitted e rfl) ⟨rfl, hafter⟩

theorem lockstep_emit_piecewise (e : Emission) :
    piecewise.Lockstep (Walk.emit e) (Walk.emit e) := by
  refine lockstep_piecewise fun s hwritten => ?_
  rw [Walk.emit_apply]
  cases hemit : Trace.emit e s.trace with
  | ok trace =>
    cases Trace.emit_eq_ok hemit
    exact ⟨.emit e.of_true hwritten hemit, nofun⟩
  | error err =>
    refine ⟨hwritten, ?_⟩
    rintro _ ⟨⟩ -
    obtain ⟨pos, hopen, -, rfl⟩ := Trace.exists_of_emit_eq_error hemit
    exact hopen

/-- Evaluation writes nothing, and does not fail as writing does. -/
theorem lockstep_evaluate_piecewise (env : Env) (mode : Mode) (dot : Value) (p : Pipeline) :
    piecewise.Lockstep (Walk.evaluate env mode dot p) (Walk.evaluate env mode dot p) := by
  refine lockstep_piecewise fun s hwritten => ?_
  obtain ⟨outcome, added, heval, hp⟩ := exists_evalPipeline ⟨env.functions, s.bindings, dot, mode⟩ p
  rw [Walk.evaluate_apply, hp]
  refine ⟨hwritten, fun e he hfault => ?_⟩
  have hfaults := heval e he
  rw [hfault] at hfaults
  exact hfaults.elim

theorem lockstep_action_piecewise (env : Env) (dot : Value) (p : Pipeline) :
    piecewise.Lockstep (Walk.action env dot p) (Walk.action env dot p) := by
  have hundefined : ∀ pos name o, piecewise.admitted o ⟨pos, .undefinedVariable name⟩ :=
    fun _ _ _ => nofun
  refine lockstep_action_of_steps hundefined (lockstep_evaluate_piecewise env .strict dot p)
    (fun v => lockstep_emit_piecewise (.value v)) fun _ => ?_
  -- Which value was captured last is a matter of the state.
  rintro ⟨bindings, trace, captured⟩ ⟨_, _, _⟩ ⟨⟩ ⟨⟨⟩, hwritten⟩
  exact lockstep_emit_piecewise (.argument p.pos (captured.headD .null)) _ _ rfl ⟨rfl, hwritten⟩

theorem keeps_piecewise (env : Env) : Keeps piecewise Likeness.same env env where
  text _ := lockstep_emit_piecewise _
  action := by
    rintro p _ rfl dot
    exact lockstep_action_piecewise env dot p
  source _ mode dot := lockstep_evaluate_piecewise env mode dot _
  definitions name := alikeOtherwise_self _ fun m _ => Likeness.same_admits m
  undefinedVariable _ _ _ := nofun
  undefinedTemplate _ _ _ := nofun
  cannotRange _ _ _ := nofun
  depthExceeded _ _ := nofun

end Accord

section Templates

variable {t : Template}

/-- Every run writes its pieces one after the other, as they would be written where the text and the
offset alone are kept. If it fails because a piece is refused, the last mark ends where its text does,
and the error is at the action that wrote that mark. -/
theorem buffer_ending (functions : Registry) (t : Template) (data : Value) (before : List Value) :
    Buffer.empty.writeAll (ending functions t data before).2.trace.reverse =
        .ok (ending functions t data before).2.trace.buffer ∧
      ∀ e, (ending functions t data before).1 = .error e → e.fault = .adjacentPlaceholder →
        (ending functions t data before).2.trace.lastMark? =
          some (utf8Length (ending functions t data before).2.trace.raw, e.pos) := by
  have hroot := alikeNodes_self t.root fun m _ => Likeness.same_admits m
  have hagrees : piecewise.Agrees (ending functions t data before) (ending functions t data before) :=
    Accord.lockstep_walkAt (Accord.keeps_piecewise ⟨functions, t.definitions⟩) maxDepth data hroot _ _
      rfl ⟨rfl, .nil⟩
  generalize ending functions t data before = outcome at hagrees ⊢
  have hbuffer : ∀ {s : State}, Trace.Written (fun _ => True) s.trace →
      Buffer.empty.writeAll s.trace.reverse = .ok s.trace.buffer := by
    intro s hwritten
    rw [Trace.writeAll_empty, hwritten.emitAll_reverse]
    rfl
  cases hagrees with
  | ok _ hout => exact ⟨hbuffer hout.2, nofun⟩
  | error hadmitted hout =>
    refine ⟨hbuffer hout.2, ?_⟩
    rintro _ ⟨⟩ hfault
    exact Trace.openMark?_eq_some_iff.mp (hadmitted hfault)
  | excused hexcused => exact hexcused.elim

/-- If the plain run of a template succeeds, the captured run ends as its pieces do where the text and
the offset alone are kept: with the text of all of them, or with the refusal of one. -/
theorem execute_capture_buffer (hfree : captureName ∉ t.identifiers) {functions : Registry}
    {data : Value} {raw : List Char} (hrun : (execute functions t data []).result = .ok raw)
    (before : List Value) :
    (execute functions t.capture data before).result =
      (Buffer.empty.writeAll ((writings functions t data).map (Writing.marked t))).map
        Buffer.text := by
  obtain ⟨-, -, -, jump, bindings, hfollows⟩ := ending_capture_of_writings hfree hrun before
  rw [Trace.writeAll_empty, execute]
  generalize ending functions t.capture data before = outcome at hfollows ⊢
  generalize Trace.emitAll _ [] = written at hfollows ⊢
  cases hfollows <;> rfl

end Templates

end BoundQuery.Run
