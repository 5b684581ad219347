import Mathlib.Tactic
import RouteScribe.Numeral.Basic
import RouteScribe.Source.Node
import RouteScribe.Source.Lexeme

/-!
# Numbers that can be read

The reader of numeric literals refuses a text of the shape of a number in which underscores stand
for all digits, such as `0x_`.  The lexer never cuts out such a text: `exists_read_of_numberEnd?` says
that what it takes for a number has a value, or at least no shape.

Both sides meet in the first characters of the literal.  `Starts` says which of them matter: a digit,
a point with a digit behind it, or the mark of a base with a digit behind it.  They are no blanks and
no suffix, so they are still there once the text is trimmed (`Starts.body`), and a text that starts
with them has a digit where its shape wants one (`Starts.exists_value`).
-/

namespace RouteScribe

namespace Numeral

/-! ## What is left of a literal -/

lemma isPrefix_dropRightWhile {test : Char → Bool} {k l : List Char} (hk : k <+: l)
    (hlast : ∀ c ∈ k.getLast?, test c = false) : k <+: Text.dropRightWhile test l := by
  rcases k.eq_nil_or_concat with rfl | ⟨front, c, rfl⟩
  · exact List.nil_prefix
  · obtain ⟨rest, rfl⟩ := hk
    have hc : test c = false := hlast c (by simp)
    have hcut : (rest.reverse ++ (c :: front.reverse)).dropWhile test =
        rest.reverse.dropWhile test ++ (c :: front.reverse) := by
      rw [List.dropWhile_append]
      split
      · rename_i hempty
        rw [List.isEmpty_iff.1 hempty, List.dropWhile_cons_of_neg (by simp [hc]), List.nil_append]
      · rfl
    refine ⟨Text.dropRightWhile test rest, ?_⟩
    simp [Text.dropRightWhile, hcut]

lemma isPrefix_dropLast {k l : List Char} {c : Char} (hk : k <+: l) (hl : l.getLast? = some c)
    (hlast : c ∉ k.getLast?) : k <+: l.dropLast := by
  obtain ⟨rest, rfl⟩ := hk
  rcases rest.eq_nil_or_concat with rfl | ⟨front, d, rfl⟩
  · rw [List.append_nil] at hl
    exact absurd hl hlast
  · rw [List.concat_eq_append, ← List.append_assoc, List.dropLast_concat]
    exact List.prefix_append _ _

/-- Characters that a number can start with, up to the digit that it must have. -/
inductive Starts : List Char → Prop
  | digit {d : Char} : d.isDigit = true → Starts [d]
  | point {d : Char} : d.isDigit = true → Starts ['.', d]
  | based {mark d : Char} : isHexDigit d = true → Starts ['0', mark, d]

lemma isHexDigit_of_isDigit {d : Char} (h : d.isDigit = true) : isHexDigit d = true := by
  simp [isHexDigit, h]

/-- The characters that are taken off a literal are no digits. -/
lemma kept_of_isHexDigit {d : Char} (h : isHexDigit d = true) :
    Text.isBlank d = false ∧ (d == 'n') = false ∧ d ≠ '\n' ∧ d ≠ '_' := by
  have hrange : 48 ≤ d.toNat ∧ d.toNat ≤ 57 ∨ 97 ≤ d.toNat ∧ d.toNat ≤ 102 ∨
      65 ≤ d.toNat ∧ d.toNat ≤ 70 := by
    simp only [isHexDigit, Char.isDigit, Bool.or_eq_true, Bool.and_eq_true, decide_eq_true_eq,
      Char.le_def, ge_iff_le, UInt32.le_iff_toNat_le, or_assoc] at h
    exact h
  have hne (c : Char) (hc : c.toNat ≠ d.toNat) : d ≠ c := fun heq => hc (heq ▸ rfl)
  have hn : 'n'.toNat = 110 := rfl
  have hbreak : '\n'.toNat = 10 := rfl
  have hline : '_'.toNat = 95 := rfl
  refine ⟨?_, beq_eq_false_iff_ne.2 (hne 'n' (by omega)), hne '\n' (by omega), hne '_' (by omega)⟩
  simp only [Text.isBlank, Bool.or_eq_false_iff, Bool.and_eq_false_iff, decide_eq_false_iff_not,
    beq_eq_false_iff_ne]
  omega

namespace Starts

variable {k cs : List Char}

lemma exists_digit (h : Starts k) : ∃ d, k.getLast? = some d ∧ isHexDigit d = true := by
  cases h with
  | digit hd => exact ⟨_, rfl, isHexDigit_of_isDigit hd⟩
  | point hd => exact ⟨_, rfl, isHexDigit_of_isDigit hd⟩
  | based hd => exact ⟨_, rfl, hd⟩

lemma isPrefix_trimLeft (h : Starts k) (hk : k <+: cs) : k <+: Text.trimLeft cs := by
  obtain ⟨rest, rfl⟩ := hk
  cases h with
  | digit hd =>
    rw [List.cons_append, Text.trimLeft_eq_self (kept_of_isHexDigit (isHexDigit_of_isDigit hd)).1]
    exact List.prefix_append _ _
  | point hd => exact List.prefix_append _ _
  | based hd => exact List.prefix_append _ _

/-- What a literal starts with is still there when blanks and suffixes are gone. -/
lemma isPrefix_bodyOf (h : Starts k) (hk : k <+: cs) : k <+: bodyOf cs := by
  obtain ⟨d, hlast, hd⟩ := h.exists_digit
  obtain ⟨hblank, hsuffix, hbreak, -⟩ := kept_of_isHexDigit hd
  have htrim : k <+: Text.trim cs :=
    isPrefix_dropRightWhile (h.isPrefix_trimLeft hk) (by simpa [hlast] using hblank)
  have htrimmed : k <+: withoutSuffix cs :=
    isPrefix_dropRightWhile htrim (by simpa [hlast] using hsuffix)
  unfold bodyOf
  dsimp only
  split
  · rename_i hn
    exact isPrefix_dropLast htrimmed hn (by simpa [hlast] using hbreak)
  · exact htrimmed

lemma head_ne_minus (h : Starts k) (hk : k <+: cs) (rest : List Char) : cs ≠ '-' :: rest := by
  obtain ⟨tail, rfl⟩ := hk
  rintro heq
  cases h with
  | digit hd =>
    rw [List.cons_append] at heq
    rw [(List.cons.inj heq).1] at hd
    exact absurd hd (by decide)
  | point hd => exact absurd (List.cons.inj heq).1 (by decide)
  | based hd => exact absurd (List.cons.inj heq).1 (by decide)

end Starts

/-- The marks of the bases two, eight and sixteen. -/
def baseMarks : List Char := ['x', 'X', 'b', 'B', 'o', 'O']

/-- A literal as it is written: it starts like a number, and with the mark of a base only if a digit
follows the mark. -/
inductive Written : List Char → Prop
  | of {k cs : List Char} : Starts k → k <+: cs →
    (k.length = 1 → ∀ mark rest, cs = '0' :: mark :: rest → mark ∉ baseMarks) → Written cs

lemma bodyOf_isPrefix {k cs : List Char} (h : Starts k) (hk : k <+: cs) : bodyOf cs <+: cs := by
  have hcut (test : Char → Bool) (l : List Char) : Text.dropRightWhile test l <+: l := by
    rw [← List.reverse_suffix, Text.dropRightWhile, List.reverse_reverse]
    exact List.dropWhile_suffix test
  have hleft : Text.trimLeft cs = cs := by
    obtain ⟨rest, rfl⟩ := hk
    cases h with
    | digit hd => exact Text.trimLeft_eq_self (kept_of_isHexDigit (isHexDigit_of_isDigit hd)).1
    | point hd => rfl
    | based hd => rfl
  have htrimmed : withoutSuffix cs <+: cs := by
    have htrim := hcut Text.isBlank (Text.trimLeft cs)
    rw [hleft] at htrim
    exact (hcut _ _).trans (by rwa [Text.trim, hleft])
  unfold bodyOf
  dsimp only
  split
  · exact (List.dropLast_prefix _).trans htrimmed
  · exact htrimmed

lemma Written.body {cs : List Char} (h : Written cs) : Written (bodyOf cs) := by
  obtain ⟨hstarts, hk, hmark⟩ := h
  refine .of hstarts (hstarts.isPrefix_bodyOf hk) fun hlength mark rest hbody => ?_
  obtain ⟨tail, htail⟩ := bodyOf_isPrefix hstarts hk
  rw [hbody] at htail
  exact hmark hlength mark (rest ++ tail) htail.symm

/-! ## Values of shapes -/

lemma exists_of_basedShape? {cs : List Char} {shape : Shape} (h : basedShape? cs = some shape) :
    ∃ mark base ds, mark ∈ baseMarks ∧ cs = '0' :: mark :: ds ∧ shape = .based base ds := by
  unfold basedShape? at h
  split at h
  · rename_i mark ds
    dsimp only at h
    split at h
    all_goals first
      | cases h
      | (split at h
         · cases h
           exact ⟨_, _, ds, by simp [baseMarks], rfl, rfl⟩
         · cases h)
  · cases h

lemma withoutUnderscores_cons {d : Char} (h : isHexDigit d = true) (ds : List Char) :
    withoutUnderscores (d :: ds) = d :: withoutUnderscores ds := by
  have hd : d ≠ '_' := (kept_of_isHexDigit h).2.2.2
  simp [withoutUnderscores, hd]

lemma exists_value_based {base : Nat} {d : Char} {ds : List Char} (negative : Bool)
    (h : isHexDigit d = true) : ∃ v, (Shape.based base (d :: ds)).value? negative = some v := by
  simp [Shape.value?, withoutUnderscores_cons h]

lemma exists_value_decimal {whole : List Char} {fraction exponent : Option (List Char)}
    (negative : Bool) (h : withoutUnderscores whole ++ withoutUnderscores (fraction.getD []) ≠ []) :
    ∃ v, (Shape.decimal whole fraction exponent).value? negative = some v := by
  simp only [Shape.value?, if_neg h]
  split
  · exact ⟨_, rfl⟩
  · exact ⟨_, rfl⟩

/-- A decimal number that starts with a digit, or with a point and a digit, has a value. -/
lemma exists_value_of_decimalShape? {cs : List Char} {shape : Shape} (negative : Bool)
    (hcs : (∃ d rest, cs = d :: rest ∧ d.isDigit = true) ∨
      ∃ d rest, cs = '.' :: d :: rest ∧ d.isDigit = true)
    (h : decimalShape? cs = some shape) : ∃ v, shape.value? negative = some v := by
  have hcut {d : Char} (hd : d.isDigit = true) (rest l : List Char) : withoutUnderscores
      ((d :: rest).takeWhile fun c => c.isDigit || c == '_') ++ l ≠ [] := by
    rw [List.takeWhile_cons, if_pos (by simp [hd]), withoutUnderscores_cons (isHexDigit_of_isDigit hd)]
    simp
  unfold decimalShape? at h
  dsimp only at h
  rcases hcs with ⟨d, rest, rfl, hd⟩ | ⟨d, rest, rfl, hd⟩
  · split at h
    · split at h
      · cases h
      · obtain ⟨exponent, -, rfl⟩ := Option.map_eq_some_iff.1 h
        exact exists_value_decimal negative (hcut hd _ _)
    · split at h
      · cases h
      · obtain ⟨exponent, -, rfl⟩ := Option.map_eq_some_iff.1 h
        exact exists_value_decimal negative (hcut hd _ _)
  · have hpoint : ('.' :: d :: rest).dropWhile (fun c => c.isDigit || c == '_') = '.' :: d :: rest := by
      rw [List.dropWhile_cons, if_neg (by decide)]
    simp only [hpoint] at h
    split at h
    · cases h
    · obtain ⟨exponent, -, rfl⟩ := Option.map_eq_some_iff.1 h
      have hfraction := hcut hd rest []
      rw [List.append_nil] at hfraction
      refine exists_value_decimal negative fun hempty => hfraction ?_
      exact (List.append_eq_nil_iff.1 hempty).2

lemma Written.exists_value {cs : List Char} {shape : Shape} (negative : Bool) (h : Written cs)
    (hshape : shape? cs = some shape) : ∃ v, shape.value? negative = some v := by
  obtain @⟨k, cs, hstarts, ⟨tail, rfl⟩, hmark⟩ := h
  unfold shape? at hshape
  split at hshape
  · rename_i based hbased
    cases hshape
    obtain ⟨mark, base, ds, hbase, hcs, rfl⟩ := exists_of_basedShape? hbased
    cases hstarts with
    | digit hd => exact absurd hbase (hmark rfl mark ds hcs)
    | point hd => exact absurd (List.cons.inj hcs).1 (by decide)
    | based hd =>
      simp only [List.cons_append, List.nil_append, List.cons.injEq, true_and] at hcs
      rw [← hcs.2]
      exact exists_value_based negative hd
  · refine exists_value_of_decimalShape? negative ?_ hshape
    cases hstarts with
    | digit hd => exact .inl ⟨_, _, rfl, hd⟩
    | point hd => exact .inr ⟨_, _, rfl, hd⟩
    | based hd => exact .inl ⟨_, _, rfl, by decide⟩

/-- A literal without a sign is read as it is. -/
lemma read_of_unsigned {cs : List Char} (h : ∀ rest, bodyOf cs ≠ '-' :: rest) :
    read (String.ofList cs) = readUnsigned false (bodyOf cs) (withoutUnderscores (withoutSuffix cs)) := by
  rw [read, String.toList_ofList]
  split
  · rename_i rest hbody
    exact absurd hbody (h rest)
  · rfl

/-- A literal as it is written has a value, or no shape. -/
theorem Written.exists_read {cs : List Char} (h : Written cs) :
    ∃ v, read (String.ofList cs) = .ok v := by
  have hbody := h.body
  have hminus : ∀ rest, bodyOf cs ≠ '-' :: rest := by
    obtain ⟨hstarts, hk, -⟩ := hbody
    exact hstarts.head_ne_minus hk
  rw [read_of_unsigned hminus, readUnsigned]
  split
  · exact ⟨none, rfl⟩
  · rename_i shape hshape
    obtain ⟨v, hv⟩ := hbody.exists_value false hshape
    exact ⟨some v, by rw [hv]⟩

end Numeral

namespace Source

open Numeral (isBinaryDigit isHexDigit isOctalDigit)

/-! ## What the lexer takes for a number -/

lemma charAt_of_ne {cs : Array Char} {i : Nat} (h : charAt cs i ≠ '\x00') :
    ∃ hi : i < cs.size, charAt cs i = cs[i] := by
  by_cases hi : i < cs.size
  · exact ⟨hi, by simp [charAt, Array.getD, hi]⟩
  · exact absurd (by simp [charAt, Array.getD, hi]) h

/-- A stretch of text that is not empty starts with the character at its start. -/
lemma toList_extract_cons {cs : Array Char} {i j : Nat} (hij : i < j) (h : charAt cs i ≠ '\x00') :
    (cs.extract i j).toList = charAt cs i :: (cs.extract (i + 1) j).toList := by
  obtain ⟨hi, hchar⟩ := charAt_of_ne h
  rw [hchar, Array.toList_extract, Array.toList_extract, List.extract_eq_take_drop, List.extract_eq_take_drop,
    List.drop_eq_getElem_cons (by simpa using hi)]
  obtain ⟨n, rfl⟩ : ∃ n, j = i + 1 + n := ⟨j - (i + 1), by omega⟩
  rw [show i + 1 + n - i = n + 1 by omega, show i + 1 + n - (i + 1) = n by omega, List.take_succ_cons,
    Array.getElem_toList]

lemma le_digitsEnd (cs : Array Char) (digit : Char → Bool) (n i : Nat) : i ≤ digitsEnd cs digit n i := by
  induction n generalizing i with
  | zero => exact le_rfl
  | succ n ih =>
    unfold digitsEnd
    split
    · exact (Nat.le_succ i).trans (ih (i + 1))
    · split
      · exact (Nat.le_add_right i 2).trans (ih (i + 2))
      · exact le_rfl

/-- Digits are read from a digit on, and past it. -/
lemma of_digits? {cs : Array Char} {digit : Char → Bool} {i j : Nat} (hnul : digit '\x00' = false)
    (h : digits? cs digit i = some j) : digit (charAt cs i) = true ∧ i < j := by
  unfold digits? at h
  split at h
  · rename_i hd
    cases h
    refine ⟨hd, ?_⟩
    have hne : charAt cs i ≠ '\x00' := fun heq => by simp [heq, hnul] at hd
    obtain ⟨hi, -⟩ := charAt_of_ne hne
    obtain ⟨n, hn⟩ : ∃ n, cs.size = n + 1 := ⟨cs.size - 1, by omega⟩
    rw [hn, digitsEnd, if_pos hd]
    exact le_digitsEnd cs digit n (i + 1)
  · cases h

lemma le_exponentEnd (cs : Array Char) (i : Nat) : i ≤ exponentEnd cs i := by
  unfold exponentEnd
  split
  · dsimp only
    rcases hdigits : digits? cs Char.isDigit _ with - | j
    · exact le_rfl
    · have hlt := (of_digits? rfl hdigits).2
      rw [Option.getD_some]
      split at hlt <;> omega
  · exact le_rfl

lemma le_bigSuffixEnd (cs : Array Char) (i : Nat) : i ≤ bigSuffixEnd cs i := by
  unfold bigSuffixEnd
  split <;> omega

lemma isHexDigit_of_octal {d : Char} (h : isOctalDigit d = true) : isHexDigit d = true := by
  rw [isOctalDigit, Bool.and_eq_true, decide_eq_true_eq, decide_eq_true_eq] at h
  refine Numeral.isHexDigit_of_isDigit ?_
  rw [Char.isDigit, Bool.and_eq_true, decide_eq_true_eq, decide_eq_true_eq]
  exact ⟨h.1, Char.le_trans h.2 (by decide)⟩

lemma isHexDigit_of_binary {d : Char} (h : isBinaryDigit d = true) : isHexDigit d = true := by
  rcases Bool.or_eq_true_iff.1 h with hd | hd
  · rw [beq_iff_eq.1 hd]
    decide
  · rw [beq_iff_eq.1 hd]
    decide

lemma ne_nul_of_isDigit {d : Char} (h : d.isDigit = true) : d ≠ '\x00' := by
  rintro rfl
  exact absurd h (by decide)

section

variable {cs : Array Char} {i j : Nat}

/-- A number without the mark of a base: a digit, and behind it no mark of a base. -/
def plainEnd? (cs : Array Char) (i : Nat) : Option Nat := do
  let j ← digits? cs Char.isDigit i
  let proper := charAt cs i != '0' || j == i + 1 ||
    charAt cs (i + 1) != '0' && charAt cs (i + 1) != '_'
  if proper && charAt cs j == '.' then
    return exponentEnd cs ((digits? cs Char.isDigit (j + 1)).getD (j + 1))
  else if proper && exponentEnd cs j != j then return exponentEnd cs j
  else return bigSuffixEnd cs j

lemma digitsEnd_eq_self {digit : Char → Bool} (n : Nat) (h : digit (charAt cs i) = false)
    (hline : charAt cs i ≠ '_') : digitsEnd cs digit n i = i := by
  cases n with
  | zero => rfl
  | succ n => simp [digitsEnd, h, hline]

/-- The mark of a base ends what is read as a number without one. -/
lemma digits?_before_mark (h : digits? cs Char.isDigit i = some j)
    (hmark : charAt cs (i + 1) ∈ Numeral.baseMarks) : j = i + 1 := by
  have hd := (of_digits? rfl h).1
  have hstop : (charAt cs (i + 1)).isDigit = false ∧ charAt cs (i + 1) ≠ '_' := by
    generalize charAt cs (i + 1) = mark at hmark
    fin_cases hmark <;> decide
  obtain ⟨hi, -⟩ := charAt_of_ne (ne_nul_of_isDigit hd)
  obtain ⟨n, hn⟩ : ∃ n, cs.size = n + 1 := ⟨cs.size - 1, by omega⟩
  rw [digits?, if_pos hd, hn, digitsEnd, if_pos hd, digitsEnd_eq_self n hstop.1 hstop.2] at h
  exact (Option.some.inj h).symm

lemma of_plainEnd? (h : plainEnd? cs i = some j) : (charAt cs i).isDigit = true ∧ i < j ∧
    (charAt cs (i + 1) ∈ Numeral.baseMarks → j = i + 1) := by
  obtain ⟨j₀, hj₀, h⟩ := Option.bind_eq_some_iff.1 h
  obtain ⟨hd, hlt⟩ := of_digits? rfl hj₀
  have hge : j₀ ≤ j := by
    dsimp only at h
    split at h
    · cases h
      refine le_trans ?_ (le_exponentEnd cs _)
      rcases hfraction : digits? cs Char.isDigit (j₀ + 1) with - | k
      · exact Nat.le_succ j₀
      · have := (of_digits? rfl hfraction).2
        simp only [Option.getD_some]
        omega
    · split at h
      · cases h
        exact le_exponentEnd cs j₀
      · cases h
        exact le_bigSuffixEnd cs j₀
  refine ⟨hd, by omega, fun hmark => ?_⟩
  obtain rfl := digits?_before_mark hj₀ hmark
  have hpoint : charAt cs (i + 1) ≠ '.' ∧ exponentEnd cs (i + 1) = i + 1 ∧
      bigSuffixEnd cs (i + 1) = i + 1 := by
    unfold exponentEnd bigSuffixEnd
    generalize charAt cs (i + 1) = mark at hmark
    fin_cases hmark <;> simp
  simpa [hpoint] using h.symm

lemma numberEnd?_eq (cs : Array Char) (i : Nat) : numberEnd? cs i =
    let based (digit : Char → Bool) := (digits? cs digit (i + 2)).map (bigSuffixEnd cs)
    let mark := (charAt cs (i + 1)).toLower
    if charAt cs i == '.' then (digits? cs Char.isDigit (i + 1)).map (exponentEnd cs)
    else if charAt cs i == '0' && mark == 'x' then based isHexDigit <|> plainEnd? cs i
    else if charAt cs i == '0' && mark == 'b' then
      based isBinaryDigit <|> plainEnd? cs i
    else if charAt cs i == '0' && mark == 'o' then
      based isOctalDigit <|> plainEnd? cs i
    else plainEnd? cs i := rfl

lemma written_of_point (hpoint : charAt cs i = '.')
    (h : (digits? cs Char.isDigit (i + 1)).map (exponentEnd cs) = some j) :
    Numeral.Written (cs.extract i j).toList := by
  obtain ⟨k, hk, rfl⟩ := Option.map_eq_some_iff.1 h
  obtain ⟨hd, hlt⟩ := of_digits? rfl hk
  have hle := le_exponentEnd cs k
  refine .of (.point hd) ?_ (by simp)
  rw [toList_extract_cons (by omega) (by rw [hpoint]; decide),
    toList_extract_cons (by omega) (ne_nul_of_isDigit hd), hpoint]
  exact List.prefix_append [_, _] _

lemma written_of_based {digit : Char → Bool} (hzero : charAt cs i = '0')
    (hmark : charAt cs (i + 1) ≠ '\x00') (hnul : digit '\x00' = false)
    (hdigit : ∀ d, digit d = true → isHexDigit d = true)
    (h : (digits? cs digit (i + 2)).map (bigSuffixEnd cs) = some j) :
    Numeral.Written (cs.extract i j).toList := by
  obtain ⟨k, hk, rfl⟩ := Option.map_eq_some_iff.1 h
  obtain ⟨hd, hlt⟩ := of_digits? hnul hk
  have hle := le_bigSuffixEnd cs k
  have hne : charAt cs (i + 2) ≠ '\x00' := fun heq => by simp [heq, hnul] at hd
  have hstarts : Numeral.Starts ['0', charAt cs (i + 1), charAt cs (i + 2)] := .based (hdigit _ hd)
  refine .of hstarts ?_ (by simp)
  rw [toList_extract_cons (by omega) (by rw [hzero]; decide), toList_extract_cons (by omega) hmark,
    toList_extract_cons (by omega) hne, hzero]
  exact List.prefix_append [_, _, _] _

lemma written_of_plain (h : plainEnd? cs i = some j) : Numeral.Written (cs.extract i j).toList := by
  obtain ⟨hd, hlt, hmark⟩ := of_plainEnd? h
  have hcons := toList_extract_cons hlt (ne_nul_of_isDigit hd)
  refine .of (.digit hd) ?_ fun _ mark rest hcs hbase => ?_
  · rw [hcons]
    exact List.prefix_append [_] _
  · -- A mark of a base would be the character behind the digit, where the number has ended.
    rw [hcons] at hcs
    have hrest := (List.cons.inj hcs).2
    have hsecond : charAt cs (i + 1) = mark := by
      have hget : (cs.extract (i + 1) j)[0]? = some mark := by
        rw [← Array.getElem?_toList, hrest]
        rfl
      obtain ⟨hsize, hget⟩ := Array.getElem?_eq_some_iff.1 hget
      rw [Array.getElem_extract] at hget
      rw [Array.size_extract] at hsize
      simp only [charAt, Array.getD, show i + 1 < cs.size by omega, dif_pos]
      exact hget
    have hj := hmark (hsecond ▸ hbase)
    rw [hj] at hrest
    simp at hrest

/-- What the lexer takes for a number can be read. -/
theorem written_of_numberEnd? (h : numberEnd? cs i = some j) :
    Numeral.Written (cs.extract i j).toList := by
  have hmark {c : Char} (hc : c ≠ '\x00') (heq : ((charAt cs (i + 1)).toLower == c) = true) :
      charAt cs (i + 1) ≠ '\x00' := by
    rintro hnul
    rw [hnul] at heq
    exact hc (by simpa using (beq_iff_eq.1 heq).symm)
  -- A number with the mark of a base is read without it if no digit follows.
  have hbased {digit : Char → Bool} {c : Char} (hc : c ≠ '\x00') (hnul : digit '\x00' = false)
      (hdigit : ∀ d, digit d = true → isHexDigit d = true)
      (hzero : (charAt cs i == '0' && (charAt cs (i + 1)).toLower == c) = true)
      (h : ((digits? cs digit (i + 2)).map (bigSuffixEnd cs) <|> plainEnd? cs i) = some j) :
      Numeral.Written (cs.extract i j).toList := by
    rw [Bool.and_eq_true] at hzero
    rcases hb : (digits? cs digit (i + 2)).map (bigSuffixEnd cs) with - | k
    · rw [hb] at h
      exact written_of_plain h
    · rw [hb] at h
      cases h
      exact written_of_based (beq_iff_eq.1 hzero.1) (hmark hc hzero.2) hnul hdigit hb
  rw [numberEnd?_eq] at h
  dsimp only at h
  split at h
  · rename_i hpoint
    exact written_of_point (beq_iff_eq.1 hpoint) h
  · split at h
    · rename_i hzero
      exact hbased (by decide) rfl (fun d hd => hd) hzero h
    · split at h
      · rename_i hzero
        exact hbased (by decide) rfl (fun d hd => isHexDigit_of_binary hd) hzero h
      · split at h
        · rename_i hzero
          exact hbased (by decide) rfl (fun d hd => isHexDigit_of_octal hd) hzero h
        · exact written_of_plain h

end

end Source

end RouteScribe
