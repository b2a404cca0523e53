/-
# The closing mark by bytes

The search for the closing mark of an action may look at single bytes. Outside string literals it
slices the interior at the byte where it stands, and that slice may be inside a character: after the
first byte of a character that is not ASCII. In string literals the bytes of such characters mean
nothing. So the search by bytes finds the closing mark that the search by characters finds, but comes
to no answer where a character outside string literals is not ASCII.

Main statement: `searchFrom_eq`.
-/

import BoundQuery.Proofs.Template.Extents
import BoundQuery.Proofs.Text.Slices

namespace BoundQuery.Template

open Text (utf8Length byte encode sliceFrom?)

/-! ### The closing mark of an action -/

/-- Looks for the closing mark in the interior of an action, from the byte offset `i` on, where
`bytes` are left. A quote is given inside string literals. There is no answer where the slice at the
offset is inside a character. -/
def findClosing (interior : List Char) (i : Nat) (quote : Option Char) :
    List UInt8 → Option (Option Nat)
  | [] => some none
  | b :: bytes =>
    match quote with
    | some q =>
      if q = '"' ∧ b = byte '\\' then
        match bytes with
        | [] => some none
        | _ :: bytes => findClosing interior (i + 2) (some q) bytes
      else if q = '"' ∧ b = byte '\n' ∨ b = byte q then findClosing interior (i + 1) none bytes
      else findClosing interior (i + 1) (some q) bytes
    | none =>
      if b = byte '"' then findClosing interior (i + 1) (some '"') bytes
      else if b = byte Scan.backQuote then findClosing interior (i + 1) (some Scan.backQuote) bytes
      else
        match sliceFrom? interior i with
        | none => none
        | some rest =>
          if closing.isPrefixOf rest then some (some i) else findClosing interior (i + 1) none bytes

section Closing

variable {interior : List Char} {i : Nat}

theorem findClosing_inside (q : Char) (b : UInt8) (bytes : List UInt8) :
    findClosing interior i (some q) (b :: bytes) =
      if q = '"' ∧ b = byte '\\' then findClosing interior (i + 2) (some q) (bytes.drop 1)
      else if q = '"' ∧ b = byte '\n' ∨ b = byte q then findClosing interior (i + 1) none bytes
      else findClosing interior (i + 1) (some q) bytes := by
  rw [findClosing.eq_def]
  cases bytes <;> rfl

theorem findClosing_outside (b : UInt8) (bytes : List UInt8) :
    findClosing interior i none (b :: bytes) =
      if b = byte '"' then findClosing interior (i + 1) (some '"') bytes
      else if b = byte Scan.backQuote then findClosing interior (i + 1) (some Scan.backQuote) bytes
      else
        match sliceFrom? interior i with
        | none => none
        | some rest =>
          if closing.isPrefixOf rest then some (some i)
          else findClosing interior (i + 1) none bytes := by
  rw [findClosing.eq_def]

/-- In a string literal the bytes of characters that are not ASCII mean nothing. -/
theorem findClosing_foreign {q : Char} (hq : q.toNat < 0x80) {bytes : List UInt8}
    (h : ∀ b ∈ bytes, 0x80 ≤ b.toNat) (more : List UInt8) :
    findClosing interior i (some q) (bytes ++ more) =
      findClosing interior (i + bytes.length) (some q) more := by
  induction bytes generalizing i with
  | nil => rfl
  | cons b bytes ih =>
    rw [List.forall_mem_cons] at h
    have hescape : b ≠ byte '\\' := Text.ne_byte h.1 (by decide)
    have hline : b ≠ byte '\n' := Text.ne_byte h.1 (by decide)
    have hquote : b ≠ byte q := Text.ne_byte h.1 hq
    rw [List.cons_append, findClosing_inside, if_neg fun hc => hescape hc.2,
      if_neg (not_or.mpr ⟨fun hc => hline hc.2, hquote⟩), ih h.2, List.length_cons]
    congr 1
    omega

/-- What the search comes to, where the interior before it is so many bytes long. -/
def closingAt (before : Nat) : Except TagFault (List Char × List Char) → Option (Option Nat)
  | .ok (left, _) => some (some (before + utf8Length left))
  | .error .foreignCharacter => none
  | .error _ => some none

theorem closingAt_map (before : Nat) (c : Char) (outcome : Except TagFault (List Char × List Char)) :
    closingAt before (outcome.map fun (left, right) => (c :: left, right)) =
      closingAt (before + c.utf8Size) outcome := by
  cases outcome with
  | error fault => cases fault <;> rfl
  | ok parts => simp [closingAt, Except.map, Nat.add_assoc]

/-- The search by bytes from a place on. After a backslash a byte is passed over. -/
def searchFrom (interior : List Char) (i : Nat) (rest : List Char) : Place → Option (Option Nat)
  | .outside => findClosing interior i none (encode rest)
  | .quoted => findClosing interior i (some '"') (encode rest)
  | .escaped => findClosing interior (i + 1) (some '"') ((encode rest).drop 1)
  | .raw => findClosing interior i (some Scan.backQuote) (encode rest)

theorem isPrefixOf_closing {c : Char} {rest : List Char} :
    closing.isPrefixOf (c :: rest) = true ↔ c = '\x7d' ∧ rest.head? = some '\x7d' := by
  rw [List.isPrefixOf_iff_prefix]
  constructor
  · rintro ⟨more, h⟩
    obtain ⟨rfl, rfl⟩ := List.cons.inj h
    exact ⟨rfl, rfl⟩
  · rintro ⟨rfl, hhead⟩
    obtain ⟨more, rfl⟩ := List.head?_eq_some_iff.mp hhead
    exact ⟨more, rfl⟩

/-- A character that is not ASCII has a first byte and at least one more. -/
theorem exists_utf8EncodeChar {c : Char} (hc : 0x80 ≤ c.toNat) :
    ∃ b b' bs, String.utf8EncodeChar c = b :: b' :: bs := by
  have hlength := String.length_utf8EncodeChar c
  have hsize := Text.one_lt_utf8Size hc
  rcases h : String.utf8EncodeChar c with _ | ⟨b, _ | ⟨b', bs⟩⟩
  · rw [h, List.length_nil] at hlength
    omega
  · rw [h, List.length_singleton] at hlength
    omega
  · exact ⟨b, b', bs, rfl⟩

theorem byte_ne {c d : Char} (hc : c.toNat < 0x80) (hd : d.toNat < 0x80) (hne : c ≠ d) :
    byte c ≠ byte d :=
  fun h => hne ((Text.byte_inj hc hd).mp h)

section Step

variable {before rest : List Char} {c : Char}

/-- From the place after the first character on, the search by bytes finds what is to be found. -/
def FoundAfter (before : List Char) (c : Char) (rest : List Char) : Prop :=
  ∀ place, searchFrom (before ++ c :: rest) (utf8Length before + c.utf8Size) rest place =
    closingAt (utf8Length before + c.utf8Size) (cutClosing place rest)

/-- The search goes on after a character that does not end it. -/
theorem FoundAfter.step (h : FoundAfter before c rest) (place next : Place)
    (hplace : place.next c = next)
    (hclosing : ¬ (place = .outside ∧ c = '\x7d' ∧ rest.head? = some '\x7d'))
    (hforeign : ¬ (place = .outside ∧ 0x80 ≤ c.toNat)) :
    closingAt (utf8Length before) (cutClosing place (c :: rest)) =
      searchFrom (before ++ c :: rest) (utf8Length before + c.utf8Size) rest next := by
  rw [cutClosing, if_neg hclosing, if_neg hforeign, closingAt_map, hplace, h]

theorem FoundAfter.step_ascii (h : FoundAfter before c rest) (hc : c.toNat < 0x80)
    (place next : Place) (hplace : place.next c = next)
    (hclosing : ¬ (place = .outside ∧ c = '\x7d' ∧ rest.head? = some '\x7d')) :
    closingAt (utf8Length before) (cutClosing place (c :: rest)) =
      searchFrom (before ++ c :: rest) (utf8Length before + 1) rest next := by
  rw [h.step place next hplace hclosing fun hforeign => Nat.not_le.mpr hc hforeign.2,
    Text.utf8Size_of_ascii hc]

/-- Outside string literals a quote opens one, and the closing mark ends the search. -/
theorem searchFrom_outside_ascii (hc : c.toNat < 0x80) (h : FoundAfter before c rest) :
    searchFrom (before ++ c :: rest) (utf8Length before) (c :: rest) .outside =
      closingAt (utf8Length before) (cutClosing .outside (c :: rest)) := by
  rw [searchFrom, Text.encode_cons_of_ascii hc, findClosing_outside]
  by_cases hquote : c = '"'
  · subst hquote
    rw [if_pos rfl, h.step_ascii hc .outside .quoted rfl (by simp)]
    rfl
  · rw [if_neg (byte_ne hc (by decide) hquote)]
    by_cases hraw : c = Scan.backQuote
    · subst hraw
      rw [if_pos rfl, h.step_ascii hc .outside .raw rfl (by simp [Scan.backQuote])]
      rfl
    · rw [if_neg (byte_ne hc (by decide) hraw), Text.sliceFrom?_append]
      dsimp only
      by_cases hclosing : c = '\x7d' ∧ rest.head? = some '\x7d'
      · rw [if_pos (isPrefixOf_closing.mpr hclosing), cutClosing, if_pos ⟨rfl, hclosing⟩]
        rfl
      · rw [if_neg (mt isPrefixOf_closing.mp hclosing),
          h.step_ascii hc .outside .outside (next_outside hquote hraw) fun hmark => hclosing hmark.2]
        rfl

/-- In a quoted literal a backslash takes the next byte with it; a quote or a line feed ends it. -/
theorem searchFrom_quoted_ascii (hc : c.toNat < 0x80) (h : FoundAfter before c rest) :
    searchFrom (before ++ c :: rest) (utf8Length before) (c :: rest) .quoted =
      closingAt (utf8Length before) (cutClosing .quoted (c :: rest)) := by
  rw [searchFrom, Text.encode_cons_of_ascii hc, findClosing_inside]
  by_cases hescape : c = '\\'
  · subst hescape
    rw [if_pos ⟨rfl, rfl⟩, h.step_ascii hc .quoted .escaped rfl (by simp)]
    rfl
  · rw [if_neg fun heq => byte_ne hc (by decide) hescape heq.2]
    by_cases hquote : c = '"'
    · subst hquote
      rw [if_pos (.inr rfl), h.step_ascii hc .quoted .outside rfl (by simp)]
      rfl
    · by_cases hline : c = '\n'
      · subst hline
        rw [if_pos (.inl ⟨rfl, rfl⟩), h.step_ascii hc .quoted .outside rfl (by simp)]
        rfl
      · rw [if_neg (not_or.mpr ⟨fun heq => byte_ne hc (by decide) hline heq.2,
            byte_ne hc (by decide) hquote⟩),
          h.step_ascii hc .quoted .quoted (next_of_inert ⟨hquote, hescape, hline⟩) (by simp)]
        rfl

/-- In a raw literal the back quote alone means anything. -/
theorem searchFrom_raw_ascii (hc : c.toNat < 0x80) (h : FoundAfter before c rest) :
    searchFrom (before ++ c :: rest) (utf8Length before) (c :: rest) .raw =
      closingAt (utf8Length before) (cutClosing .raw (c :: rest)) := by
  rw [searchFrom, Text.encode_cons_of_ascii hc, findClosing_inside,
    if_neg fun heq => absurd heq.1 (by decide)]
  by_cases hraw : c = Scan.backQuote
  · subst hraw
    rw [if_pos (.inr rfl), h.step_ascii hc .raw .outside rfl (by simp)]
    rfl
  · rw [if_neg (not_or.mpr ⟨fun heq => absurd heq.1 (by decide), byte_ne hc (by decide) hraw⟩),
      h.step_ascii hc .raw .raw (next_raw hraw) (by simp)]
    rfl

/-- A step of the search over an ASCII character. -/
theorem searchFrom_ascii (hc : c.toNat < 0x80) (place : Place) (h : FoundAfter before c rest) :
    searchFrom (before ++ c :: rest) (utf8Length before) (c :: rest) place =
      closingAt (utf8Length before) (cutClosing place (c :: rest)) := by
  cases place with
  | outside => exact searchFrom_outside_ascii hc h
  | quoted => exact searchFrom_quoted_ascii hc h
  | escaped =>
    rw [searchFrom, Text.encode_cons_of_ascii hc,
      h.step_ascii hc .escaped .quoted rfl (by simp)]
    rfl
  | raw => exact searchFrom_raw_ascii hc h

/-- Outside string literals the slice after the first byte of a character that is not ASCII is
inside that character. -/
theorem searchFrom_outside_foreign (hc : 0x80 ≤ c.toNat) :
    searchFrom (before ++ c :: rest) (utf8Length before) (c :: rest) .outside =
      closingAt (utf8Length before) (cutClosing .outside (c :: rest)) := by
  have hbytes := Text.utf8EncodeChar_foreign hc
  obtain ⟨b, b', bs, hchar⟩ := exists_utf8EncodeChar hc
  rw [hchar, List.forall_mem_cons, List.forall_mem_cons] at hbytes
  have hnot : ∀ x : UInt8, 0x80 ≤ x.toNat → x ≠ byte '"' ∧ x ≠ byte Scan.backQuote := fun x hx =>
    ⟨Text.ne_byte hx (by decide), Text.ne_byte hx (by decide)⟩
  obtain ⟨hquote, hraw⟩ := hnot b hbytes.1
  obtain ⟨hquote', hraw'⟩ := hnot b' hbytes.2.1
  have hmark : c ≠ '\x7d' := by
    rintro rfl
    exact absurd hc (by decide)
  have hclosing : ¬ closing.isPrefixOf (c :: rest) = true := fun h =>
    hmark (isPrefixOf_closing.mp h).1
  have hencode : encode (c :: rest) = b :: b' :: (bs ++ encode rest) := by
    rw [encode, List.flatMap_cons, hchar]
    rfl
  rw [searchFrom, hencode, findClosing_outside, if_neg hquote, if_neg hraw, Text.sliceFrom?_append]
  dsimp only
  rw [if_neg hclosing, findClosing_outside, if_neg hquote', if_neg hraw',
    Text.sliceFrom?_inside before rest (Text.one_lt_utf8Size hc), cutClosing,
    if_neg fun h => hmark h.2.1, if_pos ⟨rfl, hc⟩]
  rfl

/-- A step of the search over a character that is not ASCII: in a string literal it means nothing. -/
theorem searchFrom_foreign (hc : 0x80 ≤ c.toNat) (place : Place) (h : FoundAfter before c rest) :
    searchFrom (before ++ c :: rest) (utf8Length before) (c :: rest) place =
      closingAt (utf8Length before) (cutClosing place (c :: rest)) := by
  have hbytes := Text.utf8EncodeChar_foreign hc
  have hlength := String.length_utf8EncodeChar c
  have hencode : encode (c :: rest) = String.utf8EncodeChar c ++ encode rest := List.flatMap_cons
  have hne : ∀ {d : Char}, d.toNat < 0x80 → c ≠ d := by
    rintro d hd rfl
    omega
  cases place with
  | outside => exact searchFrom_outside_foreign hc
  | quoted =>
    have hquoted : Place.quoted.next c = .quoted :=
      next_of_inert ⟨hne (by decide), hne (by decide), hne (by decide)⟩
    rw [searchFrom, hencode, findClosing_foreign (by decide) hbytes, hlength,
      h.step .quoted .quoted hquoted (by simp) (by simp)]
    rfl
  | escaped =>
    -- The backslash takes the first byte with it, and the other bytes mean nothing.
    obtain ⟨b, b', bs, hchar⟩ := exists_utf8EncodeChar hc
    rw [hchar] at hbytes hlength hencode
    have hcount : utf8Length before + 1 + (b' :: bs).length = utf8Length before + c.utf8Size := by
      simp only [List.length_cons] at hlength ⊢
      omega
    rw [searchFrom, hencode, h.step .escaped .quoted rfl (by simp) (by simp)]
    change findClosing _ _ _ (b' :: bs ++ encode rest) = _
    rw [findClosing_foreign (by decide) (List.forall_mem_cons.mp hbytes).2, hcount]
    rfl
  | raw =>
    rw [searchFrom, hencode, findClosing_foreign (by decide) hbytes, hlength,
      h.step .raw .raw (next_raw (hne (by decide))) (by simp) (by simp)]
    rfl

end Step

/-- The search by bytes finds what the search by characters finds. -/
theorem searchFrom_eq (before rest : List Char) (place : Place) :
    searchFrom (before ++ rest) (utf8Length before) rest place =
      closingAt (utf8Length before) (cutClosing place rest) := by
  induction rest generalizing before place with
  | nil => cases place <;> rfl
  | cons c rest ih =>
    have hnext : FoundAfter before c rest := fun place => by
      simpa using ih (before ++ [c]) place
    rcases Nat.lt_or_ge c.toNat 0x80 with hc | hc
    · exact searchFrom_ascii hc place hnext
    · exact searchFrom_foreign hc place hnext

end Closing

end BoundQuery.Template
