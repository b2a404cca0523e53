/-
# Values and the documents that hold them

A value is normal if its unsigned words are those that no signed word holds, and its doubles are
finite. Documents denote normal values only, and a normal value is the one that the document written
for it denotes. So it makes no difference whether a template is compiled for a normal value as such, or
for data that is written as a document first.

Main statements: `normal_ofJson`, `Faithful.exists_document`, `compileData_normal`.
-/

import BoundQuery.Compiler
import BoundQuery.Proofs.Fallible

namespace BoundQuery

/-- All numbers of a document are what documents can hold: whole ones fit a word of 64 bits, signed or
not, and the others are finite. -/
inductive Json.Holds : Json → Prop
  | null : Holds null
  | bool (b : Bool) : Holds (bool b)
  | int {i : Int} : Int64.minValue.toInt ≤ i → i < UInt64.size → Holds (int i)
  | float {x : Float} : Decimal.isFinite x = true → Holds (float x)
  | string (s : String) : Holds (string s)
  | array {items : List Json} : (∀ j ∈ items, Holds j) → Holds (array items)
  | object {entries : List (String × Json)} : (∀ e ∈ entries, Holds e.2) → Holds (object entries)

namespace Value

/-- At any depth, unsigned words are there only for what signed ones cannot hold, and doubles are
finite. -/
inductive Normal : Value → Prop
  | null : Normal null
  | bool (b : Bool) : Normal (bool b)
  | int (i : Int64) : Normal (int i)
  | uint {u : UInt64} : Int64.maxValue.toInt < u.toNat → Normal (uint u)
  | float {x : Float} : Decimal.isFinite x = true → Normal (float x)
  | string (s : String) : Normal (string s)
  | seq {items : List Value} : (∀ v ∈ items, Normal v) → Normal (seq items)
  | map {entries : List (String × Value)} : (∀ e ∈ entries, Normal e.2) → Normal (map entries)

/-- Values are written as the documents that correspond to them: null, booleans, whole numbers, finite
doubles and strings as such, and what is made of parts as their documents. -/
structure Faithful (write : Value → Except DataFault Json) : Prop where
  null : write null = .ok .null
  bool (b : Bool) : write (bool b) = .ok (.bool b)
  int (i : Int64) : write (int i) = .ok (.int i.toInt)
  uint (u : UInt64) : write (uint u) = .ok (.int u.toNat)
  float {x : Float} : Decimal.isFinite x = true → write (float x) = .ok (.float x)
  string (s : String) : write (string s) = .ok (.string s)
  seq {items : List Value} {documents : List Json} : items.mapM write = .ok documents →
    write (seq items) = .ok (.array documents)
  map {entries : List (String × Value)} {documents : List (String × Json)} :
    entries.mapM (fun e => (write e.2).map fun j => (e.1, j)) = .ok documents →
    write (map entries) = .ok (.object documents)

/-! ### What documents denote -/

/-- A whole number that a signed word holds is kept in one. -/
theorem ofInt_toInt (i : Int64) : ofInt i.toInt = int i := by
  rw [ofInt, if_pos ⟨i.minValue_le_toInt, i.toInt_le⟩, Int64.ofInt_toInt]

/-- A whole number that only an unsigned word holds is kept in one. -/
theorem ofInt_toNat {u : UInt64} (h : Int64.maxValue.toInt < u.toNat) :
    ofInt u.toNat = uint u := by
  have hbeyond : ¬ (Int64.minValue.toInt ≤ (u.toNat : Int) ∧ (u.toNat : Int) ≤ Int64.maxValue.toInt) :=
    fun hle => Int.not_lt.mpr hle.2 h
  have hsize : 0 ≤ (u.toNat : Int) ∧ (u.toNat : Int).toNat < UInt64.size :=
    ⟨Int.natCast_nonneg _, u.toNat_lt_size⟩
  rw [ofInt, if_neg hbeyond, if_pos hsize, Int.toNat_natCast, UInt64.ofNat_toNat]

theorem normal_ofInt {i : Int} (hmin : Int64.minValue.toInt ≤ i) (hsize : i < UInt64.size) :
    (ofInt i).Normal := by
  unfold ofInt
  split
  · exact .int _
  · rename_i hbeyond
    have hlt : Int64.maxValue.toInt < i := Int.not_le.mp fun hle => hbeyond ⟨hmin, hle⟩
    have hpos : 0 ≤ i := Int.le_trans (by decide) (Int.le_of_lt hlt)
    have hword : i.toNat < UInt64.size := by omega
    rw [if_pos ⟨hpos, hword⟩]
    refine .uint ?_
    rw [UInt64.toNat_ofNat_of_lt' hword, Int.toNat_of_nonneg hpos]
    exact hlt

theorem ofItems_eq_map (items : List Json) : ofItems items = items.map ofJson := by
  induction items with
  | nil => rfl
  | cons j items ih => rw [ofItems, ih, List.map_cons]

theorem ofJsonEntries_eq_map (entries : List (String × Json)) :
    ofJsonEntries entries = entries.map fun e => (e.1, ofJson e.2) := by
  induction entries with
  | nil => rfl
  | cons e entries ih => rw [ofJsonEntries, ih, List.map_cons]

/-- A document denotes a normal value. -/
theorem normal_ofJson {j : Json} (h : j.Holds) : (ofJson j).Normal := by
  induction h with
  | null => exact .null
  | bool b => exact .bool b
  | int hmin hsize => exact normal_ofInt hmin hsize
  | float hx => exact .float hx
  | string s => exact .string s
  | @array items _ ih =>
    rw [ofJson, ofItems_eq_map]
    exact .seq (List.forall_mem_map.mpr ih)
  | @object entries _ ih =>
    rw [ofJson, ofJsonEntries_eq_map]
    exact .map (List.forall_mem_map.mpr ih)

/-! ### What is written for values -/

/-- For a normal value a document is written, and this denotes the value. -/
theorem Faithful.exists_document {write : Value → Except DataFault Json} (h : Faithful write)
    {v : Value} (hv : v.Normal) : ∃ j, write v = .ok j ∧ j.Holds ∧ ofJson j = v := by
  induction hv with
  | null => exact ⟨_, h.null, .null, rfl⟩
  | bool b => exact ⟨_, h.bool b, .bool b, rfl⟩
  | int i =>
    have hsize : i.toInt < UInt64.size := Int.lt_of_le_of_lt i.toInt_le (by decide)
    exact ⟨_, h.int i, .int i.minValue_le_toInt hsize, ofInt_toInt i⟩
  | @uint u hu =>
    have hmin : Int64.minValue.toInt ≤ (u.toNat : Int) :=
      Int.le_trans (by decide) (Int.natCast_nonneg u.toNat)
    exact ⟨_, h.uint u, .int hmin (Int.ofNat_lt.mpr u.toNat_lt_size), ofInt_toNat hu⟩
  | float hx => exact ⟨_, h.float hx, .float hx, rfl⟩
  | string s => exact ⟨_, h.string s, .string s, rfl⟩
  | seq _ ih =>
    obtain ⟨documents, hwrite, hholds, hback⟩ := exists_mapM ih
    refine ⟨_, h.seq hwrite, .array hholds, ?_⟩
    rw [ofJson, ofItems_eq_map, hback]
  | @map entries _ ih =>
    have hentries : ∀ e ∈ entries, ∃ d : String × Json,
        ((write e.2).map fun j => (e.1, j)) = .ok d ∧ d.2.Holds ∧ (d.1, ofJson d.2) = e := by
      intro e he
      obtain ⟨j, hj, hholds, hback⟩ := ih e he
      exact ⟨(e.1, j), by rw [hj, Except.map], hholds, by rw [hback]⟩
    obtain ⟨documents, hwrite, hholds, hback⟩ := exists_mapM hentries
    refine ⟨_, h.map hwrite, .object hholds, ?_⟩
    rw [ofJson, ofJsonEntries_eq_map, hback]

theorem toItems_eq_map (items : List Value) : toItems items = items.map toJson := by
  induction items with
  | nil => rfl
  | cons v items ih => rw [toItems, ih, List.map_cons]

theorem toJsonEntries_eq_map (entries : List (String × Value)) :
    toJsonEntries entries = entries.map fun e => (e.1, e.2.toJson) := by
  induction entries with
  | nil => rfl
  | cons e entries ih => rw [toJsonEntries, ih, List.map_cons]

/-- The documents that hold values correspond to them. -/
theorem faithful_toJson : Faithful fun v => .ok v.toJson where
  null := rfl
  bool _ := rfl
  int _ := rfl
  uint _ := rfl
  float hx := by rw [toJson, if_pos hx]
  string _ := rfl
  seq {items documents} h := by
    have hmap : items.mapM (fun v => (.ok v.toJson : Except DataFault Json)) =
        .ok (items.map toJson) := List.mapM_pure
    rw [hmap] at h
    cases h
    rw [toJson, toItems_eq_map]
  map {entries documents} h := by
    have hmap : entries.mapM (fun e =>
          (Except.ok e.2.toJson : Except DataFault Json).map fun j => (e.1, j)) =
        .ok (entries.map fun e => (e.1, e.2.toJson)) := List.mapM_pure
    rw [hmap] at h
    cases h
    rw [toJson, toJsonEntries_eq_map]

end Value

namespace Compiler

open Value (DataFault Faithful Normal ofData ofJson)

/-- Documents denote normal values: whole numbers are kept in signed words, or in unsigned ones if no
signed word holds them, and all other numbers are doubles. Where values are written as the documents
that correspond to them, a normal value is written as one that denotes it. So as data of its own it is
itself, and a template compiled for it becomes what it becomes for the value. -/
theorem compileData_normal {write : Value → Except DataFault Json} (h : Faithful write) :
    (∀ j : Json, j.Holds → (ofJson j).Normal) ∧
    (∀ i : Int64, ofJson (.int i.toInt) = .int i) ∧
    (∀ u : UInt64, Int64.maxValue.toInt < u.toNat → ofJson (.int u.toNat) = .uint u) ∧
    (∀ x : Float, ofJson (.float x) = .float x) ∧
    ∀ v : Value, v.Normal →
      (∃ j, write v = .ok j ∧ j.Holds) ∧
      ofData write v = .ok v ∧
      ∀ (c : Compiler) (source : String),
        c.compileData write source v = (c.compile source v).mapError .compile := by
  refine ⟨fun _ => Value.normal_ofJson, Value.ofInt_toInt, fun _ => Value.ofInt_toNat,
    fun _ => rfl, ?_⟩
  intro v hv
  obtain ⟨j, hwrite, hholds, hback⟩ := h.exists_document hv
  have hdata : ofData write v = .ok v := by
    rw [ofData, hwrite, Except.map, hback]
  refine ⟨⟨j, hwrite, hholds⟩, hdata, fun c source => ?_⟩
  rw [compileData, hdata]

theorem compileData_normal_nested :
    ∃ v : Value, v = .map [("id", .uint 9223372036854775808),
        ("rows", .seq [.int (-3), .float 2.5, .null])] ∧
      v.Normal ∧ Faithful (fun v => .ok v.toJson) ∧
      ofData (fun v => .ok v.toJson) v = .ok v ∧
      ∀ source, Compiler.default.compileData (fun v => .ok v.toJson) source v =
        (Compiler.default.compile source v).mapError .compile := by
  refine ⟨_, rfl, ?_⟩
  have hrows : Normal (.seq [.int (-3), .float 2.5, .null]) := by
    refine .seq ?_
    rintro v (_ | ⟨_, _ | ⟨_, _ | ⟨_, ⟨⟩⟩⟩⟩)
    · exact .int _
    · exact .float (by decide +kernel)
    · exact .null
  have hnormal : Normal (.map [("id", .uint 9223372036854775808),
      ("rows", .seq [.int (-3), .float 2.5, .null])]) := by
    refine .map ?_
    rintro e (_ | ⟨_, _ | ⟨_, ⟨⟩⟩⟩)
    · exact .uint (by decide)
    · exact hrows
  obtain ⟨-, -, -, -, hback⟩ := compileData_normal Value.faithful_toJson
  obtain ⟨-, hdata, hcompile⟩ := hback _ hnormal
  exact ⟨hnormal, Value.faithful_toJson, hdata, hcompile _⟩

end Compiler

end BoundQuery
