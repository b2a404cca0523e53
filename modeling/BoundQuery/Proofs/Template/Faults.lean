/-
# Faults lie in what is read

A scanner that starts in the body of an action stays in it: what it leaves is an end of the body,
the places that it notes are places of the body, and so is the place of what is at fault, whether it
misses or fails. So an action that cannot be read is refused at a place of its own body.

Main statement: `located_readAction`.
-/

import BoundQuery.Proofs.Template.Scanning

namespace BoundQuery.Template

open Text (Pos)

/-! ### Places of a pipeline -/

/-- The places that a pipeline and its commands are noted at. -/
def Pipeline.places (p : Pipeline) : List Pos :=
  p.pos :: p.commands.map Command.pos

/-- The pipelines all note places of which `L` holds. -/
def Placed (L : Pos → Prop) (pipelines : List Pipeline) : Prop :=
  ∀ p ∈ pipelines, ∀ pos ∈ p.places, L pos

section Placed

variable {L : Pos → Prop}

theorem placed_nil : Placed L [] := by
  simp [Placed]

theorem placed_operandsInner {operands : List Operand} :
    Placed L (operandsInner operands) ↔ ∀ o ∈ operands, Placed L o.inner := by
  simp only [Placed, mem_operandsInner]
  grind

theorem placed_tree {pos : Pos} {assigns : Bool} {names : List String} {commands : List Command} :
    Placed L (Pipeline.tree ⟨pos, assigns, names, commands⟩) ↔
      L pos ∧ ∀ c ∈ commands, L c.pos ∧ Placed L c.inner := by
  simp only [Placed, Pipeline.tree, List.forall_mem_cons, Pipeline.mem_inner, Pipeline.places,
    List.forall_mem_map]
  grind

end Placed

/-- The place of an end of `body`. -/
def PlaceIn (locate : List Char → Pos) (body : List Char) (pos : Pos) : Prop :=
  ∃ rest, rest <:+ body ∧ pos = locate rest

/-! ### Scanners that stay in a text -/

/-- What is left, or at fault, starts at an end of `body`, and what is read satisfies `Q`. -/
def Scanned.Within {α : Type} (body : List Char) (Q : α → Prop) : Scanned α → Prop
  | .found a rest => rest <:+ body ∧ Q a
  | .missed fault | .failed fault => fault.rest <:+ body

namespace Scan

/-- From each end of `body` the scanner goes on to an end of it. -/
def Stays {α : Type} (body : List Char) (Q : α → Prop) (p : Scan α) : Prop :=
  ∀ cs, cs <:+ body → (p cs).Within body Q

section Combinators

variable {α β : Type} {body : List Char} {Q : α → Prop} {R : β → Prop} {p q : Scan α}

theorem stays_pure {a : α} (h : Q a) : Stays body Q (pure a : Scan α) :=
  fun _ hcs => ⟨hcs, h⟩

theorem stays_bind {f : α → Scan β} (hp : Stays body Q p) (hf : ∀ a, Q a → Stays body R (f a)) :
    Stays body R (p >>= f) := by
  intro cs hcs
  have hread := hp cs hcs
  simp only [bind]
  generalize p cs = outcome at hread
  cases outcome with
  | found a rest => exact hf a hread.2 rest hread.1
  | missed fault => exact hread
  | failed fault => exact hread

theorem Stays.mono {Q' : α → Prop} (hp : Stays body Q p) (h : ∀ a, Q a → Q' a) :
    Stays body Q' p := by
  intro cs hcs
  have hread := hp cs hcs
  generalize p cs = outcome at hread ⊢
  cases outcome with
  | found a rest => exact hread.imp_right (h a)
  | missed fault => exact hread
  | failed fault => exact hread

theorem stays_map {f : α → β} (hp : Stays body Q p) (h : ∀ a, Q a → R (f a)) :
    Stays body R (f <$> p) :=
  stays_bind hp fun a ha => stays_pure (h a ha)

theorem stays_here : Stays body (· <:+ body) here :=
  fun _ hcs => ⟨hcs, hcs⟩

theorem stays_miss : Stays body Q (miss : Scan α) :=
  fun _ hcs => hcs

theorem stays_orElse (hp : Stays body Q p) (hq : Stays body Q q) : Stays body Q (p <|> q) := by
  intro cs hcs
  have hread := hp cs hcs
  simp only [HOrElse.hOrElse, OrElse.orElse, Scan.orElse]
  generalize p cs = outcome at hread
  cases outcome with
  | found a rest => exact hread
  | missed fault => exact hq cs hcs
  | failed fault => exact hread

theorem stays_commit (hp : Stays body Q p) : Stays body Q (commit p) := by
  intro cs hcs
  have hread := hp cs hcs
  unfold commit
  generalize p cs = outcome at hread
  cases outcome <;> exact hread

theorem rest_within (construct : Construct) (fault : Fault) :
    (Fault.within construct fault).rest = fault.rest := by
  unfold Fault.within
  split <;> rfl

theorem stays_within (construct : Construct) (hp : Stays body Q p) :
    Stays body Q (within construct p) := by
  intro cs hcs
  have hread := hp cs hcs
  unfold within
  generalize p cs = outcome at hread
  cases outcome with
  | found a rest => exact hread
  | missed fault => rwa [Scanned.Within, rest_within]
  | failed fault => rwa [Scanned.Within, rest_within]

theorem stays_optional (hp : Stays body Q p) :
    Stays body (fun o => ∀ a ∈ o, Q a) (optional p) := by
  intro cs hcs
  have hread := hp cs hcs
  unfold optional
  generalize p cs = outcome at hread
  cases outcome with
  | found a rest => exact ⟨hread.1, by simpa using hread.2⟩
  | missed fault => exact ⟨hcs, by simp⟩
  | failed fault => exact hread

theorem stays_many (hp : Stays body Q p) : Stays body (fun as => ∀ a ∈ as, Q a) (many p) := by
  intro cs hcs
  -- By the recursion of `many`: what a round leaves is an end of the body, where the next starts.
  have hread := hp cs hcs
  fun_induction many p cs with
  | case1 cs a middle hmiddle hshorter as rest hmany ih =>
    rw [hmiddle] at hread
    have hrest := ih hread.1 (hp middle hread.1)
    rw [hmany] at hrest
    exact ⟨hrest.1, by simpa using ⟨hread.2, hrest.2⟩⟩
  | case2 cs a middle hmiddle hshorter hmany ih =>
    rw [hmiddle] at hread
    exact ih hread.1 (hp middle hread.1)
  | case3 cs a middle hmiddle hlonger =>
    rw [hmiddle] at hread
    exact ⟨hread.1, by simpa using hread.2⟩
  | case4 cs fault hmiss => exact ⟨hcs, by simp⟩
  | case5 cs fault hfail =>
    rw [hfail] at hread
    exact hread

theorem stays_oneOrMore (hp : Stays body Q p) :
    Stays body (fun as => ∀ a ∈ as, Q a) (oneOrMore p) :=
  stays_bind hp fun _ ha => stays_bind (stays_many hp) fun _ has =>
    stays_pure (by simpa using ⟨ha, has⟩)

/-- A scanner that stays in each text that it is given stays in the texts around. -/
theorem stays_of_self (h : ∀ cs, (p cs).Within cs Q) : Stays body Q p := by
  intro cs hcs
  have hread := h cs
  generalize p cs = outcome at hread ⊢
  cases outcome with
  | found a rest => exact hread.imp_left (·.trans hcs)
  | missed fault => exact List.IsSuffix.trans hread hcs
  | failed fault => exact List.IsSuffix.trans hread hcs

end Combinators

/-! ### Words and literals -/

section Words

variable {body : List Char}

theorem stays_takeWhile (holds : Char → Bool) : Stays body (fun _ => True) (takeWhile holds) :=
  stays_of_self fun _ => ⟨List.dropWhile_suffix _, trivial⟩

theorem stays_takeSome (holds : Char → Bool) : Stays body (fun _ => True) (takeSome holds) := by
  refine stays_of_self fun cs => ?_
  unfold takeSome
  split
  · exact List.suffix_rfl
  · exact ⟨List.dropWhile_suffix _, trivial⟩

theorem stays_satisfy (holds : Char → Bool) : Stays body (fun _ => True) (satisfy holds) := by
  refine stays_of_self fun cs => ?_
  unfold satisfy
  split
  · exact List.suffix_rfl
  · split
    · exact ⟨List.suffix_cons _ _, trivial⟩
    · exact List.suffix_rfl

theorem stays_char (c : Char) : Stays body (fun _ => True) (char c) :=
  stays_satisfy _

theorem stays_word (chars : List Char) : Stays body (fun _ => True) (word chars) := by
  refine stays_of_self fun cs => ?_
  unfold word
  split
  · rename_i hdrop
    rw [Text.dropStart?_eq_some_iff.mp hdrop]
    exact ⟨List.suffix_append _ _, trivial⟩
  · exact List.suffix_rfl

theorem stays_notFollowedBy (holds : Char → Bool) :
    Stays body (fun _ => True) (notFollowedBy holds) := by
  refine stays_of_self fun cs => ?_
  unfold notFollowedBy
  split
  · exact ⟨List.suffix_rfl, trivial⟩
  · split
    · exact List.suffix_rfl
    · exact ⟨List.suffix_rfl, trivial⟩

theorem stays_keyword (name : String) : Stays body (fun _ => True) (keyword name) :=
  stays_bind (stays_word _) fun _ _ => stays_notFollowedBy _

theorem stays_spaces : Stays body (fun _ => True) spaces :=
  stays_takeWhile _

theorem stays_someSpaces : Stays body (fun _ => True) someSpaces :=
  stays_takeSome _

theorem stays_identifier : Stays body (fun _ => True) identifier :=
  stays_bind (stays_satisfy _) fun _ _ => stays_bind (stays_takeWhile _) fun _ _ =>
    stays_pure trivial

theorem stays_field : Stays body (fun _ => True) field :=
  stays_bind (stays_char _) fun _ _ => stays_identifier

theorem stays_fields : Stays body (fun _ => True) fields :=
  (stays_many stays_field).mono fun _ _ => trivial

theorem stays_variableName : Stays body (fun _ => True) variableName :=
  stays_bind (stays_char _) fun _ _ => stays_bind (stays_takeWhile _) fun _ _ =>
    stays_pure trivial

theorem stays_boolean : Stays body (fun _ => True) boolean :=
  stays_orElse (stays_bind (stays_keyword _) fun _ _ => stays_pure trivial)
    (stays_bind (stays_keyword _) fun _ _ => stays_pure trivial)

/-- A literal that is not closed is at fault from its quote on, and an escape that stands for
nothing from its backslash on. -/
theorem stays_quoted : Stays body (fun _ => True) quoted := by
  refine stays_of_self fun cs => ?_
  by_cases hquote : ∃ after, cs = '"' :: after
  · obtain ⟨after, rfl⟩ := hquote
    obtain ⟨inner, chars, stop, rfl, -, ⟨rest, rfl, h⟩ | ⟨-, h⟩ | ⟨rest, rfl, -, -, h⟩⟩ :=
      quoted_outcome after
    · rw [h]
      exact ⟨⟨'"' :: inner ++ ['"'], by simp⟩, trivial⟩
    · rw [h]
      exact List.suffix_rfl
    · rw [h]
      exact (List.suffix_append _ _).trans (List.suffix_cons _ _)
  · unfold quoted
    split
    · exact absurd ⟨_, rfl⟩ hquote
    · exact List.suffix_rfl

theorem stays_raw : Stays body (fun _ => True) raw := by
  refine stays_of_self fun cs => ?_
  unfold raw
  split
  · rename_i c rest
    split
    · split
      · exact List.suffix_rfl
      · rename_i d after hdrop
        have hafter : d :: after <:+ rest := hdrop ▸ List.dropWhile_suffix _
        exact ⟨((List.suffix_cons _ _).trans hafter).trans (List.suffix_cons _ _), trivial⟩
    · exact List.suffix_rfl
  · exact List.suffix_rfl

theorem stays_string : Stays body (fun _ => True) string :=
  stays_orElse stays_quoted stays_raw

/-- A number that is refused, or that is none, is at fault from its first character on. -/
theorem number_outcome (cs : List Char) :
    (∃ n rest, number cs = .found n rest) ∨ number cs = .missed ⟨.missing none, cs⟩ ∨
      number cs = .failed ⟨.badNumber, cs⟩ := by
  unfold number
  dsimp only
  split
  · exact .inr (.inl rfl)
  · split
    · split
      · exact .inl ⟨_, _, rfl⟩
      · exact .inr (.inr rfl)
    · exact .inr (.inr rfl)

theorem stays_number : Stays body (fun _ => True) number := by
  refine stays_of_self fun cs => ?_
  rcases number_outcome cs with ⟨n, rest, h⟩ | h | h
  · rw [h]
    exact (reads_number (r := .anywhere) cs n rest trivial h).imp_left Spans.suffix
  · rw [h]
    exact List.suffix_rfl
  · rw [h]
    exact List.suffix_rfl

end Words

/-! ### Pipelines -/

section Pipelines

variable (locate : List Char → Pos) {body : List Char} {inner : Scan Pipeline}

/-- What is asked of a scanner of pipelines: they are placed in the body. -/
abbrev StaysPipelines (body : List Char) (p : Scan Pipeline) : Prop :=
  Stays body (fun p => Placed (PlaceIn locate body) p.tree) p

variable {locate}

theorem stays_parenthesized (hinner : StaysPipelines locate body inner) :
    Stays body (fun o => Placed (PlaceIn locate body) o.inner) (parenthesized inner) := by
  refine stays_bind (stays_char _) fun _ _ => stays_bind stays_spaces fun _ _ => ?_
  refine stays_bind (stays_commit hinner) fun p hp => stays_bind stays_spaces fun _ _ => ?_
  refine stays_bind (stays_commit (stays_within _ (stays_char _))) fun _ _ => ?_
  exact stays_pure hp

theorem stays_term (hinner : StaysPipelines locate body inner) :
    Stays body (fun o => Placed (PlaceIn locate body) o.inner) (term inner) := by
  -- Of the operands only those in parentheses hold pipelines.
  have hnone : ∀ {α : Type} {p : Scan α} {f : α → Operand}, (∀ a, (f a).inner = []) →
      Stays body (fun _ => True) p →
      Stays body (fun o => Placed (PlaceIn locate body) o.inner) (f <$> p) :=
    fun hf hp => stays_map hp fun a _ => (hf a).symm ▸ placed_nil
  have hpath : Stays body (fun _ => True) (oneOrMore field) :=
    (stays_oneOrMore stays_field).mono fun _ _ => trivial
  refine stays_orElse (stays_parenthesized hinner) ?_
  refine stays_orElse (hnone (fun _ => rfl) stays_string) ?_
  refine stays_orElse (hnone (fun _ => rfl) stays_number) ?_
  refine stays_orElse (hnone (fun _ => rfl) stays_boolean) ?_
  refine stays_orElse (stays_bind (stays_keyword _) fun _ _ => stays_pure placed_nil) ?_
  refine stays_orElse (hnone (fun _ => rfl) hpath) ?_
  refine stays_orElse (stays_bind (stays_char _) fun _ _ => stays_pure placed_nil) ?_
  refine stays_orElse (stays_bind stays_variableName fun _ _ => stays_bind stays_fields fun _ _ =>
    stays_pure placed_nil) ?_
  exact hnone (fun _ => rfl) stays_identifier

theorem stays_operand (hinner : StaysPipelines locate body inner) :
    Stays body (fun o => Placed (PlaceIn locate body) o.inner) (operand inner) := by
  refine stays_bind (stays_term hinner) fun o ho => ?_
  split
  · refine stays_bind stays_fields fun path _ => stays_pure ?_
    split
    · exact ho
    · exact ho
  · exact stays_pure ho

theorem stays_command (hinner : StaysPipelines locate body inner) :
    Stays body (fun c => PlaceIn locate body c.pos ∧ Placed (PlaceIn locate body) c.inner)
      (command locate inner) := by
  refine stays_bind stays_here fun start hstart => ?_
  refine stays_bind (stays_within _ (stays_operand hinner)) fun first hfirst => ?_
  refine stays_bind (stays_many (stays_bind stays_someSpaces fun _ _ => stays_operand hinner))
    fun others hothers => stays_pure ⟨⟨start, hstart, rfl⟩, ?_⟩
  exact placed_operandsInner.mpr (List.forall_mem_cons.mpr ⟨hfirst, hothers⟩)

theorem stays_declaration : Stays body (fun _ => True) declaration := by
  refine stays_bind stays_variableName fun _ _ => ?_
  refine stays_bind (stays_optional (Q := fun _ => True) ?_) fun _ _ => ?_
  · exact stays_bind stays_spaces fun _ _ => stays_bind (stays_char _) fun _ _ =>
      stays_bind stays_spaces fun _ _ => stays_variableName
  · refine stays_bind stays_spaces fun _ _ => ?_
    refine stays_bind (Q := fun _ => True) (stays_orElse ?_ ?_) fun _ _ => ?_
    · exact stays_bind (stays_word _) fun _ _ => stays_pure trivial
    · exact stays_bind (stays_char _) fun _ _ => stays_bind (stays_notFollowedBy _) fun _ _ =>
        stays_pure trivial
    · exact stays_bind stays_spaces fun _ _ => stays_pure trivial

theorem stays_leading (declares : Bool) : Stays body (fun _ => True) (leading declares) := by
  cases declares with
  | false => exact stays_pure trivial
  | true => exact (stays_optional stays_declaration).mono fun _ _ => trivial

theorem stays_laterCommand (hinner : StaysPipelines locate body inner) :
    Stays body (fun c => PlaceIn locate body c.pos ∧ Placed (PlaceIn locate body) c.inner)
      (laterCommand locate inner) := by
  refine stays_bind stays_spaces fun _ _ => stays_bind (stays_char _) fun _ _ => ?_
  exact stays_bind stays_spaces fun _ _ => stays_commit (stays_command hinner)

theorem stays_pipelineWith (declares : Bool) (hinner : StaysPipelines locate body inner) :
    StaysPipelines locate body (pipelineWith locate declares inner) := by
  rw [pipelineWith_eq]
  refine stays_bind stays_here fun start hstart => stays_bind (stays_leading _) fun names _ => ?_
  refine stays_bind (stays_command hinner) fun first hfirst => ?_
  refine stays_bind (stays_many (stays_laterCommand hinner)) fun others hothers => stays_pure ?_
  exact placed_tree.mpr ⟨⟨start, hstart, rfl⟩, List.forall_mem_cons.mpr ⟨hfirst, hothers⟩⟩

theorem stays_nested (depth : Nat) : StaysPipelines locate body (nested locate depth) := by
  induction depth with
  | zero => exact stays_within _ stays_miss
  | succ depth ih => exact stays_pipelineWith false ih

theorem stays_pipeline (declares : Bool) : StaysPipelines locate body (pipeline locate declares) :=
  fun cs hcs => stays_pipelineWith declares (stays_nested cs.length) cs hcs

/-! ### Clauses -/

/-- What is asked of a scanner of clauses: their pipelines are placed in the body. -/
abbrev StaysClauses (locate : List Char → Pos) (body : List Char) (p : Scan Clause) : Prop :=
  Stays body (fun c => ∀ p ∈ c.pipelines, Placed (PlaceIn locate body) p.tree) p

theorem stays_control (kind : Control) (construct : Construct) :
    StaysPipelines locate body (control locate kind construct) :=
  stays_bind (stays_keyword _) fun _ _ => stays_bind stays_spaces fun _ _ =>
    stays_commit (stays_within _ (stays_pipeline true))

theorem stays_elseClause : StaysClauses locate body (elseClause locate) := by
  have hcontrol : ∀ {kind : Control} {construct : Construct},
      StaysClauses locate body
        (Clause.elseControl kind <$> do let _ ← spaces; control locate kind construct) :=
    stays_map (stays_bind stays_spaces fun _ _ => stays_control _ _) fun p hp => by
      simpa [Clause.pipelines] using hp
  refine stays_bind (stays_keyword _) fun _ _ => stays_orElse hcontrol (stays_orElse hcontrol ?_)
  exact stays_pure (by simp [Clause.pipelines])

theorem stays_definition : StaysClauses locate body definition := by
  refine stays_bind (stays_keyword _) fun _ _ => stays_bind stays_spaces fun _ _ => ?_
  refine stays_bind (stays_commit (stays_within _ stays_string)) fun name _ => ?_
  exact stays_pure (by simp [Clause.pipelines])

theorem stays_invocation : StaysClauses locate body (invocation locate) := by
  refine stays_bind (stays_keyword _) fun _ _ => stays_bind stays_spaces fun _ _ => ?_
  refine stays_bind (stays_commit (stays_within _ stays_string)) fun name _ => ?_
  refine stays_bind (stays_commit (stays_optional ?_)) fun data hdata =>
    stays_pure (by simpa [Clause.pipelines] using hdata)
  exact stays_bind stays_someSpaces fun _ _ => stays_pipeline false

theorem stays_block : StaysClauses locate body (block locate) := by
  refine stays_bind (stays_keyword _) fun _ _ => stays_bind stays_spaces fun _ _ => ?_
  refine stays_bind (stays_commit (stays_within _ stays_string)) fun name _ => ?_
  refine stays_bind (stays_commit ?_) fun data hdata =>
    stays_pure (by simpa [Clause.pipelines] using hdata)
  exact stays_bind stays_someSpaces fun _ _ => stays_within _ (stays_pipeline false)

theorem stays_keyed : ∀ s ∈ keyed locate, StaysClauses locate body s.2 := by
  have hcontrol : ∀ kind construct,
      StaysClauses locate body (Clause.control kind <$> control locate kind construct) :=
    fun kind construct => stays_map (stays_control kind construct) fun p hp => by
      simpa [Clause.pipelines] using hp
  have hkeyword : ∀ {name : String} {c : Clause}, c.pipelines = [] →
      StaysClauses locate body (keyword name >>= fun _ => pure c) :=
    fun hc => stays_bind (stays_keyword _) fun _ _ => stays_pure (by simp [hc])
  simp only [keyed, List.forall_mem_cons, List.not_mem_nil, false_imp_iff, implies_true, and_true]
  exact ⟨hcontrol _ _, stays_elseClause, hkeyword rfl, hcontrol _ _, hcontrol _ _, stays_definition,
    stays_invocation, stays_block, hkeyword rfl, hkeyword rfl⟩

theorem stays_clause : StaysClauses locate body (clause locate) := by
  rw [clause_eq]
  -- By induction on the scanners that are tried one after the other; the last reads a pipeline.
  have hkeyed := @stays_keyed locate body
  generalize keyed locate = scanners at hkeyed
  induction scanners with
  | nil => exact stays_map (stays_pipeline true) fun p hp => by simpa [Clause.pipelines] using hp
  | cons s scanners ih =>
    rw [List.forall_mem_cons] at hkeyed
    exact stays_orElse hkeyed.1 (ih hkeyed.2)

end Pipelines

end Scan

/-! ### Bodies of actions -/

/-- What can be wrong inside an action: it cannot be read, or a pipeline of it does not pass its
check. -/
def SyntaxFault.isInside : SyntaxFault → Bool
  | .missingCommand | .endOfAction _ | .unexpected .. | .badEscape | .openString | .openRawString
  | .badNumber | .tooManyNames _ | .nilCommand | .notExecutable _ | .notFunction _
  | .undefinedFunction _ | .undefinedVariable _ => true
  | _ => false

section Actions

variable {locate : List Char → Pos} {body : List Char}

/-- What is missing is noted at the next token, the end of the body if there is none. -/
theorem placeIn_toSyntaxError {fault : Fault} (h : fault.rest <:+ body) :
    PlaceIn locate body (fault.toSyntaxError locate).pos ∧
      (fault.toSyntaxError locate).fault.isInside = true := by
  unfold Fault.toSyntaxError
  split
  · exact ⟨⟨_, h, rfl⟩, rfl⟩
  · exact ⟨⟨_, h, rfl⟩, rfl⟩
  · exact ⟨⟨_, h, rfl⟩, rfl⟩
  · exact ⟨⟨_, h, rfl⟩, rfl⟩
  · refine ⟨⟨_, (List.dropWhile_suffix _).trans h, rfl⟩, ?_⟩
    dsimp only
    split
    · rfl
    · split <;> rfl

/-- An action that cannot be read is refused at a place of its body. One that can be read starts at
the first character that is not white space, and its pipelines are placed in the body. -/
theorem located_readAction (locate : List Char → Pos) (body : List Char) :
    (∀ e, readAction locate body = .error e →
      PlaceIn locate body e.pos ∧ e.fault.isInside = true) ∧
    ∀ action, readAction locate body = .ok action →
      trimStart body ≠ [] ∧ action.pos = locate (trimStart body) ∧
        ∀ p ∈ action.clause.pipelines, Placed (PlaceIn locate body) p.tree := by
  have hstart : trimStart body <:+ body := List.dropWhile_suffix _
  have hread := @Scan.stays_clause locate body (trimStart body) hstart
  unfold readAction
  dsimp only
  split
  · -- An action of white space alone is refused at the end of its body.
    refine ⟨?_, nofun⟩
    rintro _ ⟨⟩
    exact ⟨⟨[], List.nil_suffix, rfl⟩, rfl⟩
  · rename_i hne
    generalize Scan.clause locate (trimStart body) = outcome at hread
    cases outcome with
    | found clause rest =>
      obtain ⟨hrest, hpipelines⟩ := hread
      dsimp only
      split
      · refine ⟨nofun, ?_⟩
        rintro _ ⟨⟩
        exact ⟨fun hnil => hne (List.isEmpty_iff.mpr hnil), rfl, hpipelines⟩
      · refine ⟨?_, nofun⟩
        rintro _ ⟨⟩
        exact ⟨⟨_, (List.dropWhile_suffix _).trans hrest, rfl⟩, rfl⟩
    | missed fault | failed fault =>
      refine ⟨?_, nofun⟩
      rintro _ ⟨⟩
      exact placeIn_toSyntaxError hread

end Actions

end BoundQuery.Template
