import LiveTest.Rust.Panic
import Mathlib.Data.List.Induction
import Mathlib.Logic.Function.Basic

/-!
# Strings, tables and `parse`

A `&str` or a `String` is the list of its characters, and `split` with a
character is `List.splitOn`. A `HashMap` is the function that `get` is. `parse`
is modelled for `bool` and for `usize`, which has 64 bits here.

* `tableInsertAll_apply`: a table has the value of a key under which nothing else
  was inserted, whatever the order.
* `tableInsertAll_eq_some`: it has the value that was inserted last.
* `parseBool_boolText`, `parseUsize_toDigits`: `parse` reads back what is
  written.
* `parseBool_eq_some`, `parseUsize_eq_some`: and accepts nothing else, but for a `+` and
  leading zeros.
-/

namespace Rust

/-- `&str` and `String`. -/
abbrev Text := List Char

/-! ## `HashMap` -/

section Table

variable {K V : Type}

/-- `table[key]`. -/
def tableIndex (table : K → Option V) (key : K) : Except Panic V :=
  match table key with
  | some value => .ok value
  | none => .error (.expect "no entry found for key")

variable [DecidableEq K]

/-- `table.insert(key, value)`. -/
def tableInsert (table : K → Option V) (key : K) (value : V) : K → Option V :=
  Function.update table key (some value)

/-- Insert entries one after the other. -/
def tableInsertAll (table : K → Option V) (entries : List (K × V)) : K → Option V :=
  entries.foldl (fun table e => tableInsert table e.1 e.2) table

theorem tableInsertAll_concat (table : K → Option V) (entries : List (K × V)) (e : K × V) :
    tableInsertAll table (entries ++ [e]) = tableInsert (tableInsertAll table entries) e.1 e.2 := by
  rw [tableInsertAll, List.foldl_append]
  rfl

/-- The value inserted under a key, when no other value was. -/
theorem tableInsertAll_apply (table : K → Option V) {entries : List (K × V)} {key : K} {value : V}
    (hmem : (key, value) ∈ entries) (hother : ∀ e ∈ entries, e.1 = key → e.2 = value) :
    tableInsertAll table entries key = some value := by
  induction entries using List.reverseRecOn with
  | nil => cases hmem
  | append_singleton entries e ih =>
    rw [tableInsertAll_concat, tableInsert]
    by_cases he : e.1 = key
    · rw [← he, Function.update_self, hother e (by simp) he]
    · rw [Function.update_of_ne (Ne.symm he)]
      refine ih ?_ fun e' he' => hother e' (by simp [he'])
      rcases List.mem_append.mp hmem with hmem | hmem
      · exact hmem
      · rw [List.mem_singleton] at hmem
        exact absurd (by rw [← hmem]) he

/-- The value of a key is the one inserted last under it. -/
theorem tableInsertAll_eq_some {entries : List (K × V)} {key : K} {value : V} :
    tableInsertAll (fun _ => none) entries key = some value ↔
      ∃ before after, entries = before ++ (key, value) :: after ∧ ∀ e ∈ after, e.1 ≠ key := by
  induction entries using List.reverseRecOn with
  | nil => simp [tableInsertAll]
  | append_singleton entries e ih =>
    rw [tableInsertAll_concat, tableInsert]
    by_cases he : e.1 = key
    · subst he
      rw [Function.update_self]
      constructor
      · rintro ⟨⟩
        exact ⟨entries, [], rfl, by simp⟩
      · rintro ⟨before, after, hsplit, hafter⟩
        cases after using List.reverseRecOn with
        | nil =>
          have := (List.append_inj' hsplit rfl).2
          rw [List.cons_eq_cons] at this
          rw [this.1]
        | append_singleton after e' =>
          rw [← List.cons_append, ← List.append_assoc] at hsplit
          have := (List.append_inj' hsplit rfl).2
          rw [List.cons_eq_cons] at this
          exact absurd (by rw [this.1]) (hafter e' (by simp))
    · rw [Function.update_of_ne (Ne.symm he), ih]
      constructor
      · rintro ⟨before, after, rfl, hafter⟩
        refine ⟨before, after ++ [e], by simp, ?_⟩
        intro x hx
        rcases List.mem_append.mp hx with hx | hx
        · exact hafter x hx
        · rwa [List.mem_singleton.mp hx]
      · rintro ⟨before, after, hsplit, hafter⟩
        cases after using List.reverseRecOn with
        | nil =>
          have := (List.append_inj' hsplit rfl).2
          rw [List.cons_eq_cons] at this
          exact absurd (by rw [this.1]) he
        | append_singleton after e' =>
          rw [← List.cons_append, ← List.append_assoc] at hsplit
          exact ⟨before, after, (List.append_inj' hsplit rfl).1,
            fun x hx => hafter x (List.mem_append_left _ hx)⟩

theorem tableInsertAll_eq_none {entries : List (K × V)} {key : K} :
    tableInsertAll (fun _ => none) entries key = none ↔ ∀ e ∈ entries, e.1 ≠ key := by
  induction entries using List.reverseRecOn with
  | nil => simp [tableInsertAll]
  | append_singleton entries e ih =>
    rw [tableInsertAll_concat, tableInsert]
    by_cases he : e.1 = key
    · subst he
      rw [Function.update_self]
      exact iff_of_false (by simp) fun h => h e (by simp) rfl
    · rw [Function.update_of_ne (Ne.symm he), ih, List.forall_mem_append]
      exact (and_iff_left fun x hx => by rwa [List.mem_singleton.mp hx]).symm

end Table

/-! ## `parse` -/

/-- `s.parse::<bool>()`, with `none` for an `Err`. -/
def parseBool (s : Text) : Option Bool :=
  if s = "true".toList then some true
  else if s = "false".toList then some false
  else none

/-- The loop of `s.parse::<usize>()` over the digits that are left: an `Err` at the first character
    that is no digit and at the first overflow. -/
def parseDigits : Text → ℕ → Option ℕ
  | [], value => some value
  | c :: cs, value =>
    if c.isDigit then
      let value := 10 * value + (c.toNat - '0'.toNat)
      if value < 2 ^ 64 then parseDigits cs value else none
    else none

/-- A `+` may stand before the digits. -/
def skipPlus : Text → Text
  | '+' :: digits => digits
  | s => s

/-- `s.parse::<usize>()`, with `none` for an `Err`. -/
def parseUsize (s : Text) : Option UInt64 :=
  if (skipPlus s).isEmpty then none
  else (parseDigits (skipPlus s) 0).map UInt64.ofNat

/-- A `bool` as `true` or `false`. -/
def boolText (b : Bool) : Text := (toString b).toList

theorem parseBool_boolText (b : Bool) : parseBool (boolText b) = some b := by
  cases b <;> decide

theorem parseBool_eq_some {s : Text} {b : Bool} : parseBool s = some b ↔ s = boolText b := by
  constructor
  · intro h
    unfold parseBool at h
    split_ifs at h with htrue hfalse
    · cases h
      exact htrue
    · cases h
      exact hfalse
  · rintro rfl
    exact parseBool_boolText b

theorem le_ofDigitChars (cs : Text) (value : ℕ) : value ≤ Nat.ofDigitChars 10 cs value := by
  induction cs generalizing value with
  | nil => exact le_of_eq Nat.ofDigitChars_nil.symm
  | cons c cs ih =>
    rw [Nat.ofDigitChars_cons]
    have := ih (10 * value + (c.toNat - '0'.toNat))
    omega

/-- Digits whose value fits are read. -/
theorem parseDigits_eq {cs : Text} {value : ℕ} (hdigits : ∀ c ∈ cs, c.isDigit)
    (hfits : Nat.ofDigitChars 10 cs value < 2 ^ 64) :
    parseDigits cs value = some (Nat.ofDigitChars 10 cs value) := by
  induction cs generalizing value with
  | nil => rw [parseDigits, Nat.ofDigitChars_nil]
  | cons c cs ih =>
    rw [Nat.ofDigitChars_cons] at hfits ⊢
    have hc : c.isDigit := hdigits c (by simp)
    have hle := le_ofDigitChars cs (10 * value + (c.toNat - '0'.toNat))
    rw [parseDigits, if_pos hc, if_pos (by omega)]
    exact ih (fun d hd => hdigits d (by simp [hd])) hfits

theorem parseDigits_eq_some {cs : Text} {value n : ℕ} (hvalue : value < 2 ^ 64) :
    parseDigits cs value = some n ↔
      (∀ c ∈ cs, c.isDigit) ∧ Nat.ofDigitChars 10 cs value = n ∧ n < 2 ^ 64 := by
  constructor
  · intro h
    induction cs generalizing value with
    | nil =>
      cases h
      exact ⟨by simp, Nat.ofDigitChars_nil, hvalue⟩
    | cons c cs ih =>
      simp only [parseDigits] at h
      split_ifs at h with hc hfits
      obtain ⟨hdigits, hn, hlt⟩ := ih hfits h
      exact ⟨List.forall_mem_cons.mpr ⟨hc, hdigits⟩, by rw [Nat.ofDigitChars_cons, hn], hlt⟩
  · rintro ⟨hdigits, rfl, hlt⟩
    exact parseDigits_eq hdigits hlt

theorem skipPlus_cons {c : Char} (h : c ≠ '+') (cs : Text) : skipPlus (c :: cs) = c :: cs := by
  unfold skipPlus
  split
  · rename_i digits heq
    exact absurd (List.cons.inj heq).1 h
  · rfl

/-- The decimal of a number is read back. -/
theorem parseUsize_toDigits (n : UInt64) : parseUsize (Nat.toDigits 10 n.toNat) = some n := by
  have hdigits : ∀ c ∈ Nat.toDigits 10 n.toNat, c.isDigit := fun c hc =>
    Nat.isDigit_of_mem_toDigits (by decide) (by decide) hc
  have hvalue : Nat.ofDigitChars 10 (Nat.toDigits 10 n.toNat) 0 = n.toNat :=
    Nat.ofDigitChars_ten_toDigits
  have hparse : parseDigits (Nat.toDigits 10 n.toNat) 0 = some n.toNat := by
    rw [parseDigits_eq hdigits (by rw [hvalue]; exact n.toNat_lt), hvalue]
  cases hs : Nat.toDigits 10 n.toNat with
  | nil => exact absurd hs Nat.toDigits_ne_nil
  | cons c cs =>
    rw [hs] at hdigits hparse
    have hc : c ≠ '+' := by
      rintro rfl
      exact absurd (hdigits '+' (by simp)) (by decide)
    rw [parseUsize, skipPlus_cons hc, hparse]
    simp

/-- The text is a decimal of the number: at least one digit, with or without a `+`. -/
def WritesNat (s : Text) (n : ℕ) : Prop :=
  ∃ digits, digits ≠ [] ∧ (∀ c ∈ digits, c.isDigit) ∧ (s = digits ∨ s = '+' :: digits) ∧
    Nat.ofDigitChars 10 digits 0 = n

theorem parseUsize_eq_some {s : Text} {n : UInt64} :
    parseUsize s = some n ↔ WritesNat s n.toNat := by
  have hparse : parseUsize s = some n ↔
      skipPlus s ≠ [] ∧ parseDigits (skipPlus s) 0 = some n.toNat := by
    unfold parseUsize
    simp only [List.isEmpty_iff]
    split_ifs with hempty
    · simp [hempty]
    · rw [Option.map_eq_some_iff, and_iff_right hempty]
      constructor
      · rintro ⟨m, hm, rfl⟩
        obtain ⟨-, -, hlt⟩ := (parseDigits_eq_some (by decide)).mp hm
        rw [hm, UInt64.toNat_ofNat_of_lt' hlt]
      · intro h
        exact ⟨_, h, UInt64.ofNat_toNat⟩
  rw [hparse, parseDigits_eq_some (by decide)]
  constructor
  · rintro ⟨hne, hdigits, hvalue, -⟩
    refine ⟨skipPlus s, hne, hdigits, ?_, hvalue⟩
    cases s with
    | nil => exact .inl rfl
    | cons c cs =>
      by_cases hc : c = '+'
      · subst hc
        exact .inr rfl
      · rw [skipPlus_cons hc]
        exact .inl rfl
  · rintro ⟨digits, hne, hdigits, hs, hvalue⟩
    have hskip : skipPlus s = digits := by
      rcases hs with rfl | rfl
      · cases s with
        | nil => rfl
        | cons c cs =>
          refine skipPlus_cons ?_ cs
          rintro rfl
          exact absurd (hdigits '+' (by simp)) (by decide)
      · rfl
    rw [hskip]
    exact ⟨hne, hdigits, hvalue, n.toNat_lt⟩

example : parseUsize "+007".toList = some 7 ∧ parseUsize "+".toList = none := by decide

end Rust
