/-
# Traces

What a run may have written: a question mark for a value is never followed by another mark. And the
trace of the run that captures nothing, where the values themselves stand in place of their marks.

Main statements: `head?_of_emit`, `emit_of_uncaptured`, `exists_segments`.
-/

import BoundQuery.Run.Emission
import Mathlib.Data.List.Basic

namespace BoundQuery.Run

open Statement (mark double)

namespace Emission

/-- The piece when nothing is captured: the value itself in place of the mark for it. -/
def uncaptured : Emission → Emission
  | argument _ v => value v
  | e => e

/-- If the piece is a text of the template, the text satisfies `T`. -/
def Of (T : String → Prop) : Emission → Prop
  | text s => T s
  | _ => True

theorem of_true (e : Emission) : e.Of fun _ => True := by
  cases e <;> trivial

theorem exists_of_captured? {e : Emission} {v : Value} (h : e.captured? = some v) :
    ∃ pos, e = .argument pos v := by
  cases e with
  | argument pos w =>
    cases h
    exact ⟨pos, rfl⟩
  | text s => cases h
  | value w => cases h

end Emission

namespace Trace

/-! ### Writing a piece -/

theorem raw_cons (e : Emission) (trace : Trace) : raw (e :: trace) = raw trace ++ e.chars := by
  simp [raw]

theorem openMark?_cons {e : Emission} (he : e.captured? = none) (trace : Trace) :
    openMark? (e :: trace) = if e.chars.isEmpty then openMark? trace else none := by
  cases e with
  | argument pos v => cases he
  | text s => rfl
  | value v => rfl

theorem emit_eq_ok {e : Emission} {trace trace' : Trace} (h : emit e trace = .ok trace') :
    trace' = e :: trace := by
  unfold emit at h
  split at h
  · split at h
    · cases h
    · cases h
      rfl
  · cases h
    rfl

/-- A piece is refused that starts with a mark and follows on a mark for a value. -/
theorem exists_of_emit_eq_error {e : Emission} {trace : Trace} {err : EvalError}
    (h : emit e trace = .error err) :
    ∃ pos, openMark? trace = some pos ∧ e.chars.head? = some mark ∧
      err = ⟨pos, .adjacentPlaceholder⟩ := by
  unfold emit at h
  split at h
  · rename_i pos hopen
    split at h
    · rename_i hhead
      cases h
      exact ⟨pos, hopen, hhead, rfl⟩
    · cases h
  · cases h

theorem emit_eq_error {e : Emission} {trace : Trace} {err : EvalError}
    (h : emit e trace = .error err) : err.fault = .adjacentPlaceholder := by
  obtain ⟨pos, -, -, rfl⟩ := exists_of_emit_eq_error h
  rfl

/-- After a mark for a value no other mark is written. -/
theorem head?_of_emit {e : Emission} {trace trace' : Trace} (h : emit e trace = .ok trace')
    {pos : Text.Pos} (hopen : openMark? trace = some pos) : e.chars.head? ≠ some mark := by
  intro hhead
  rw [emit, hopen] at h
  simp [hhead] at h

/-- Where no mark for a value was written, anything can follow. -/
theorem emit_of_uncaptured {trace : Trace} (h : ∀ d ∈ trace, d.captured? = none) (e : Emission) :
    emit e trace = .ok (e :: trace) := by
  have hclosed : openMark? trace = none := by
    induction trace with
    | nil => rfl
    | cons d rest ih =>
      have hrest := ih fun d hd => h d (List.mem_cons_of_mem _ hd)
      rw [openMark?_cons (h d List.mem_cons_self), hrest, ite_self]
  simp [emit, hclosed]

/-- Writes pieces one after the other. -/
def emitAll (es : List Emission) (trace : Trace) : Except EvalError Trace :=
  es.foldlM (fun trace e => emit e trace) trace

theorem emitAll_cons (e : Emission) (es : List Emission) (trace : Trace) :
    emitAll (e :: es) trace = emit e trace >>= emitAll es :=
  List.foldlM_cons

theorem emitAll_append (es es' : List Emission) (trace : Trace) :
    emitAll (es ++ es') trace = emitAll es trace >>= emitAll es' :=
  List.foldlM_append

theorem emitAll_singleton (e : Emission) (trace : Trace) : emitAll [e] trace = emit e trace :=
  bind_pure _

/-! ### Traces of runs -/

/-- A trace that comes from writing one piece after the other, with texts that satisfy `T`. -/
inductive Written (T : String → Prop) : Trace → Prop
  | nil : Written T []
  | emit {e : Emission} {trace : Trace} :
      e.Of T → Written T trace → Trace.emit e trace = .ok (e :: trace) → Written T (e :: trace)

/-- What was written piece by piece can be written so again. -/
theorem Written.emitAll_reverse {T : String → Prop} {trace : Trace} (h : Written T trace) :
    Trace.emitAll trace.reverse [] = .ok trace := by
  induction h with
  | nil => rfl
  | emit _ _ hemit ih =>
    rw [List.reverse_cons, emitAll_append, ih]
    exact (emitAll_singleton ..).trans hemit

/-- Raw texts as segments with the marks of the captured values between them. The run that captures
nothing writes the same segments with the printed values between them. -/
theorem exists_segments (es : List Emission) :
    ∃ (first : List Char) (rest : List (Value × List Char)),
      rest.map Prod.fst = es.filterMap Emission.captured? ∧
      es.flatMap Emission.chars = first ++ rest.flatMap (fun (_, segment) => mark :: segment) ∧
      (es.map Emission.uncaptured).flatMap Emission.chars =
        first ++ rest.flatMap fun (v, segment) => double v.print ++ segment := by
  induction es with
  | nil => exact ⟨[], [], rfl, rfl, rfl⟩
  | cons e es ih =>
    obtain ⟨first, rest, hvalues, hmarks, hprints⟩ := ih
    cases e with
    | argument pos v =>
      refine ⟨[], (v, first) :: rest, ?_, ?_, ?_⟩
      · simp [Emission.captured?, hvalues]
      · simp [Emission.chars, hmarks]
      · simp [Emission.uncaptured, Emission.chars, hprints]
    | text s =>
      refine ⟨s.toList ++ first, rest, ?_, ?_, ?_⟩
      · rw [List.filterMap_cons_none rfl, hvalues]
      · simp [Emission.chars, hmarks]
      · simp [Emission.uncaptured, Emission.chars, hprints]
    | value v =>
      refine ⟨double v.print ++ first, rest, ?_, ?_, ?_⟩
      · rw [List.filterMap_cons_none rfl, hvalues]
      · simp [Emission.chars, hmarks]
      · simp [Emission.uncaptured, Emission.chars, hprints]

end Trace

end BoundQuery.Run
