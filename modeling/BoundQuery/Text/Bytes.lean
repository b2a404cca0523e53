/-
# Byte offsets

Offsets and lengths of texts count the bytes of their UTF-8 form. Main statements: `utf8Length_append`,
`length_encode` (the length is the number of bytes) and `cutAt?_append` (a text can be cut at the
length of each of its initial parts).
-/

namespace BoundQuery.Text

/-- The number of bytes of the UTF-8 form. -/
def utf8Length : List Char → Nat
  | [] => 0
  | c :: cs => c.utf8Size + utf8Length cs

/-- The UTF-8 form. -/
def encode (cs : List Char) : List UInt8 :=
  cs.flatMap String.utf8EncodeChar

/-- Cuts a text at a byte offset. There is no cut inside a character or beyond the end. -/
def cutAt? : Nat → List Char → Option (List Char × List Char)
  | 0, cs => some ([], cs)
  | _ + 1, [] => none
  | n + 1, c :: cs =>
    if c.utf8Size ≤ n + 1 then
      (cutAt? (n + 1 - c.utf8Size) cs).map fun (left, right) => (c :: left, right)
    else none

/-! ### Laws -/

@[simp] theorem utf8Length_nil : utf8Length [] = 0 := rfl

@[simp] theorem utf8Length_cons (c : Char) (cs : List Char) :
    utf8Length (c :: cs) = c.utf8Size + utf8Length cs := rfl

@[simp] theorem utf8Length_append (s t : List Char) :
    utf8Length (s ++ t) = utf8Length s + utf8Length t := by
  induction s with
  | nil => simp
  | cons c s ih => simp [ih, Nat.add_assoc]

@[simp] theorem length_encode (cs : List Char) : (encode cs).length = utf8Length cs := by
  induction cs with
  | nil => rfl
  | cons c cs ih =>
    simp only [encode, List.flatMap_cons, List.length_append, String.length_utf8EncodeChar,
      utf8Length_cons]
    rw [← ih]
    rfl

theorem encode_append (s t : List Char) : encode (s ++ t) = encode s ++ encode t := by
  simp [encode]

theorem cutAt?_append (s t : List Char) : cutAt? (utf8Length s) (s ++ t) = some (s, t) := by
  induction s with
  | nil => cases t <;> rfl
  | cons c s ih =>
    have hc := c.utf8Size_pos
    obtain ⟨n, hn⟩ : ∃ n, c.utf8Size + utf8Length s = n + 1 :=
      ⟨c.utf8Size + utf8Length s - 1, by omega⟩
    have : n + 1 - c.utf8Size = utf8Length s := by omega
    simp [hn, cutAt?, this, ih, show c.utf8Size ≤ n + 1 by omega]

theorem cutAt?_eq_some_iff {n : Nat} {cs s t : List Char} :
    cutAt? n cs = some (s, t) ↔ cs = s ++ t ∧ utf8Length s = n := by
  constructor
  · intro h
    fun_induction cutAt? n cs generalizing s t with
    | case1 cs => simp only [Option.some.injEq, Prod.mk.injEq] at h; simp [← h.1, h.2]
    | case2 => simp at h
    | case3 n c cs hc ih =>
      obtain ⟨⟨s', t'⟩, hst, heq⟩ := Option.map_eq_some_iff.mp h
      simp only [Prod.mk.injEq] at heq
      obtain ⟨rfl, rfl⟩ := heq
      obtain ⟨rfl, hl⟩ := ih hst
      simp only [List.cons_append, utf8Length_cons, hl, true_and]
      omega
    | case4 => simp at h
  · rintro ⟨rfl, rfl⟩
    exact cutAt?_append s t

end BoundQuery.Text
