import Mathlib.Tactic
import RouteScribe.Document.Json
import RouteScribe.Numeral.Basic

/-!
# What the key of a value determines

`Value.orderlessKey` writes a value, with the fields of every object sorted, as one line of ASCII.
This file shows that nothing is lost on the way: two values without shared parts that have the same
key are equal once their fields are sorted (`sorted_eq_of_orderlessKey_eq`).

The argument is that the written form can be cut off in front of any text.  A character of a string
is read back by `charBack?`, which undoes the escapes, surrogate pairs included, so strings are
determined together with what follows them (`stringChars_append_inj`); values follow by induction,
because each of their forms starts with a character of its own and closes with its own bracket
(`json_append_inj`).  A shared value is written like the value itself, which is why shared parts
have to be left out.
-/

namespace RouteScribe.Document

open Numeral (ofDigits digitValue)

/-! ## Units of sixteen bits -/

lemma digitValue_digitChar {d : Nat} (h : d < 16) : digitValue (Nat.digitChar d) = d := by
  interval_cases d <;> decide

/-- Four hexadecimal digits give back the number below `0x10000` that they were written for. -/
lemma ofDigits_hexDigits {n : Nat} (h : n < 0x10000) : ofDigits 16 (hexDigits 4 n) = n := by
  have hdigit (k : Nat) : digitValue (Nat.digitChar (n / Nat.pow 16 k % 16)) = n / Nat.pow 16 k % 16 :=
    digitValue_digitChar (Nat.mod_lt _ (by decide))
  have hrange : (List.range 4).reverse = [3, 2, 1, 0] := by decide
  simp only [hexDigits, hrange, List.map_cons, List.map_nil, ofDigits, List.foldl_cons,
    List.foldl_nil, hdigit]
  norm_num
  omega

/-! ## Characters of a string -/

/-- The character that an escaped text starts with, and the text after it. -/
def charBack? : List Char → Option (Char × List Char)
  | '\\' :: 'u' :: a :: b :: c :: d :: rest =>
    let n := ofDigits 16 [a, b, c, d]
    if 0xd800 ≤ n ∧ n < 0xdc00 then
      match rest with
      | '\\' :: 'u' :: a :: b :: c :: d :: rest =>
        some (Char.ofNat (0x10000 + (n - 0xd800) * 0x400 + (ofDigits 16 [a, b, c, d] - 0xdc00)), rest)
      | _ => none
    else some (Char.ofNat n, rest)
  | '\\' :: 'n' :: rest => some ('\n', rest)
  | '\\' :: 'r' :: rest => some ('\r', rest)
  | '\\' :: 't' :: rest => some ('\t', rest)
  | '\\' :: 'b' :: rest => some ('\x08', rest)
  | '\\' :: 'f' :: rest => some ('\x0c', rest)
  | '\\' :: c :: rest => some (c, rest)
  | c :: rest => some (c, rest)
  | [] => none

/-- A unit is its mark and four digits. -/
lemma unitEscape_eq (n : Nat) : ∃ a b c d,
    unitEscape n = ['\\', 'u', a, b, c, d] ∧ hexDigits 4 n = [a, b, c, d] := by
  have hlength : (hexDigits 4 n).length = 4 := by simp [hexDigits]
  obtain ⟨a, b, c, d, hdigits⟩ := List.length_eq_four.1 hlength
  exact ⟨a, b, c, d, by rw [unitEscape, hdigits], hdigits⟩

/-- A character of the first plane is read back from its unit. -/
lemma charBack?_unitEscape (c : Char) (hc : c.toNat < 0x10000) (rest : List Char) :
    charBack? (unitEscape c.toNat ++ rest) = some (c, rest) := by
  obtain ⟨x, y, z, w, hunit, hdigits⟩ := unitEscape_eq c.toNat
  have hvalue : ofDigits 16 [x, y, z, w] = c.toNat := hdigits ▸ ofDigits_hexDigits hc
  have hplain : ¬ (0xd800 ≤ c.toNat ∧ c.toNat < 0xdc00) := by
    have := c.valid
    simp only [UInt32.isValidChar, Nat.isValidChar] at this
    change c.toNat < _ ∨ _ < c.toNat ∧ _ at this
    omega
  rw [hunit]
  simp only [List.cons_append, List.nil_append, charBack?, hvalue, hplain, if_false,
    Char.ofNat_toNat]

/-- A character above the first plane is read back from its pair of units. -/
lemma charBack?_pair (c : Char) (hc : 0x10000 ≤ c.toNat) (rest : List Char) :
    charBack? (unitEscape (0xd800 + (c.toNat - 0x10000) / 0x400) ++
      (unitEscape (0xdc00 + (c.toNat - 0x10000) % 0x400) ++ rest)) = some (c, rest) := by
  have hmax : c.toNat < 0x110000 := by
    have := c.valid
    simp only [UInt32.isValidChar, Nat.isValidChar] at this
    change c.toNat < _ ∨ _ < c.toNat ∧ c.toNat < _ at this
    omega
  obtain ⟨x, y, z, w, hhigh, hhighDigits⟩ := unitEscape_eq (0xd800 + (c.toNat - 0x10000) / 0x400)
  obtain ⟨x', y', z', w', hlow, hlowDigits⟩ := unitEscape_eq (0xdc00 + (c.toNat - 0x10000) % 0x400)
  have hhighValue : ofDigits 16 [x, y, z, w] = 0xd800 + (c.toNat - 0x10000) / 0x400 :=
    hhighDigits ▸ ofDigits_hexDigits (by omega)
  have hlowValue : ofDigits 16 [x', y', z', w'] = 0xdc00 + (c.toNat - 0x10000) % 0x400 :=
    hlowDigits ▸ ofDigits_hexDigits (by omega)
  have hsurrogate : 0xd800 ≤ 0xd800 + (c.toNat - 0x10000) / 0x400 ∧
      0xd800 + (c.toNat - 0x10000) / 0x400 < 0xdc00 := by omega
  have hback : 0x10000 + (0xd800 + (c.toNat - 0x10000) / 0x400 - 0xd800) * 0x400 +
      (0xdc00 + (c.toNat - 0x10000) % 0x400 - 0xdc00) = c.toNat := by omega
  rw [hhigh, hlow]
  simp only [List.cons_append, List.nil_append, charBack?, hhighValue, hlowValue, hsurrogate,
    and_self, if_true, hback, Char.ofNat_toNat]

/-- A character that is neither a backslash nor escaped stands for itself. -/
lemma charBack?_self {c : Char} (hc : c ≠ '\\') (rest : List Char) :
    charBack? (c :: rest) = some (c, rest) := by
  unfold charBack?
  split <;> simp_all

/-- Escaping a character loses nothing, whatever stands behind it. -/
theorem charBack?_jsonChar (c : Char) (rest : List Char) :
    charBack? (jsonChar .ascii c ++ rest) = some (c, rest) := by
  unfold jsonChar
  by_cases hquote : c = '\x22'
  · subst hquote; simp [charBack?]
  by_cases hback : c = '\\'
  · subst hback; simp [charBack?]
  by_cases hn : c = '\n'
  · subst hn; simp [charBack?]
  by_cases hr : c = '\r'
  · subst hr; simp [charBack?]
  by_cases ht : c = '\t'
  · subst ht; simp [charBack?]
  by_cases hb : c = '\x08'
  · subst hb; simp [charBack?]
  by_cases hf : c = '\x0c'
  · subst hf; simp [charBack?]
  simp only [hquote, hback, hn, hr, ht, hb, hf, if_false]
  by_cases hcontrol : c.toNat < 0x20
  · rw [if_pos hcontrol]
    exact charBack?_unitEscape c (by omega) rest
  rw [if_neg hcontrol]
  by_cases hascii : c.toNat < 0x7f
  · rw [if_pos hascii]
    exact charBack?_self hback rest
  rw [if_neg hascii]
  by_cases hplane : c.toNat < 0x10000
  · rw [if_pos hplane]
    exact charBack?_unitEscape c hplane rest
  · rw [if_neg hplane, List.append_assoc]
    exact charBack?_pair c (by omega) rest

/-- No escaped character starts with a quote, so a quote always closes a string. -/
lemma jsonChar_append_ne_quote (c : Char) (rest rest' : List Char) :
    jsonChar .ascii c ++ rest ≠ '\x22' :: rest' := by
  intro h
  have hread := charBack?_jsonChar c rest
  rw [h, charBack?_self (by decide)] at hread
  have hc : c = '\x22' := (congrArg Prod.fst (Option.some.inj hread)).symm
  subst hc
  simp [jsonChar] at h

/-- A string in quotes is determined together with what follows it. -/
theorem stringChars_append_inj {s t rest rest' : List Char}
    (h : s.flatMap (jsonChar .ascii) ++ '\x22' :: rest
      = t.flatMap (jsonChar .ascii) ++ '\x22' :: rest') : s = t ∧ rest = rest' := by
  induction s generalizing t with
  | nil =>
    cases t with
    | nil => simpa using h
    | cons c t =>
      simp only [List.flatMap_nil, List.nil_append, List.flatMap_cons, List.append_assoc] at h
      exact absurd h.symm (jsonChar_append_ne_quote _ _ _)
  | cons c s ih =>
    cases t with
    | nil =>
      simp only [List.flatMap_nil, List.nil_append, List.flatMap_cons, List.append_assoc] at h
      exact absurd h (jsonChar_append_ne_quote _ _ _)
    | cons c' t =>
      simp only [List.flatMap_cons, List.append_assoc] at h
      have hread := charBack?_jsonChar c (s.flatMap (jsonChar .ascii) ++ '\x22' :: rest)
      rw [h, charBack?_jsonChar] at hread
      obtain ⟨hc, htail⟩ := Prod.mk.inj (Option.some.inj hread)
      obtain ⟨hs, hrest⟩ := ih htail.symm
      exact ⟨by rw [hc, hs], hrest⟩

lemma toList_jsonString (s : String) :
    (jsonString .ascii s).toList = '\x22' :: s.toList.flatMap (jsonChar .ascii) ++ ['\x22'] := by
  simp [jsonString]

lemma jsonString_append_inj {s t : String} {rest rest' : List Char}
    (h : (jsonString .ascii s).toList ++ rest = (jsonString .ascii t).toList ++ rest') :
    s = t ∧ rest = rest' := by
  simp only [toList_jsonString, List.cons_append, List.append_assoc, List.nil_append,
    List.cons.injEq, true_and] at h
  obtain ⟨hs, hrest⟩ := stringChars_append_inj h
  exact ⟨String.toList_injective hs, hrest⟩

/-! ## Lists and objects -/

/-- The items behind the first one, each after its separator. -/
def laterChars (items : List String) : List Char :=
  items.flatMap fun s => ',' :: ' ' :: s.toList

lemma toList_intercalate_comma (s : String) (items : List String) :
    (", ".intercalate (s :: items)).toList = s.toList ++ laterChars items := by
  induction items generalizing s with
  | nil => simp [laterChars]
  | cons t items ih =>
    have hcut := String.intercalate_cons_of_ne_nil (s := ", ") (t := s) (l := t :: items)
      (List.cons_ne_nil _ _)
    rw [hcut, String.toList_append, String.toList_append, ih]
    simp [laterChars]

lemma toList_bracketed_nil (level : Nat) (opening closing : String) :
    (bracketed .loose level opening closing []).toList = opening.toList ++ closing.toList := by
  simp [bracketed]

lemma toList_bracketed_cons (level : Nat) (opening closing s : String) (items : List String) :
    (bracketed .loose level opening closing (s :: items)).toList
      = opening.toList ++ (s.toList ++ (laterChars items ++ closing.toList)) := by
  simp only [bracketed, List.isEmpty_cons, Bool.false_eq_true, if_false, String.toList_append,
    toList_intercalate_comma, List.append_assoc]

lemma toList_jsonField (name value : String) :
    (jsonField .ascii .loose name value).toList
      = (jsonString .ascii name).toList ++ (':' :: ' ' :: value.toList) := by
  simp [jsonField]

/-- The first character of a written value. -/
def Value.opening : Value → Char
  | .text _ => '\x22'
  | .flag true => 't'
  | .flag false => 'f'
  | .list _ => '['
  | .object _ => '{'
  | .shared v => v.opening

lemma toList_json_eq_cons (v : Value) (level : Nat) :
    ∃ cs, (v.json .ascii .loose level).toList = v.opening :: cs := by
  induction v using Value.opening.induct generalizing level with
  | case1 s => exact ⟨_, by rw [Value.json, toList_jsonString]; rfl⟩
  | case2 => exact ⟨['r', 'u', 'e'], by rw [Value.json]; rfl⟩
  | case3 => exact ⟨['a', 'l', 's', 'e'], by rw [Value.json]; rfl⟩
  | case4 items =>
    rw [Value.json]
    cases jsonItems .ascii .loose (level + 1) items with
    | nil => exact ⟨_, by rw [toList_bracketed_nil]; rfl⟩
    | cons s rest => exact ⟨_, by rw [toList_bracketed_cons]; rfl⟩
  | case5 fields =>
    rw [Value.json]
    cases jsonFields .ascii .loose (level + 1) fields with
    | nil => exact ⟨_, by rw [toList_bracketed_nil]; rfl⟩
    | cons s rest => exact ⟨_, by rw [toList_bracketed_cons]; rfl⟩
  | case6 v ih =>
    rw [Value.json, Value.opening]
    exact ih level

/-- Values that are written alike, whatever follows, start with the same character. -/
lemma opening_eq_of_append_eq {v w : Value} {level : Nat} {rest rest' : List Char}
    (h : (v.json .ascii .loose level).toList ++ rest
      = (w.json .ascii .loose level).toList ++ rest') : v.opening = w.opening := by
  obtain ⟨cs, hv⟩ := toList_json_eq_cons v level
  obtain ⟨cs', hw⟩ := toList_json_eq_cons w level
  rw [hv, hw] at h
  exact (List.cons.inj h).1

lemma opening_ne_bracket (v : Value) : v.opening ≠ ']' := by
  induction v using Value.opening.induct with
  | case6 v ih => simpa [Value.opening] using ih
  | _ => simp [Value.opening]

/-! ## Values -/

mutual

/-- A value without shared parts is determined together with what follows it. -/
theorem json_append_inj : ∀ (v w : Value) (level : Nat) {rest rest' : List Char},
    v.sharedValues = [] → w.sharedValues = [] →
    (v.json .ascii .loose level).toList ++ rest = (w.json .ascii .loose level).toList ++ rest' →
    v = w ∧ rest = rest'
  | .text s, w => by
    intro level rest rest' _ hw h
    cases w with
    | text t =>
      simp only [Value.json] at h
      obtain ⟨hs, hrest⟩ := jsonString_append_inj h
      exact ⟨by rw [hs], hrest⟩
    | flag b => cases b <;> exact absurd (opening_eq_of_append_eq h) (by simp [Value.opening])
    | shared w => simp [Value.sharedValues] at hw
    | _ => exact absurd (opening_eq_of_append_eq h) (by simp [Value.opening])
  | .flag b, w => by
    intro level rest rest' _ hw h
    cases w with
    | flag b' =>
      have hb : b = b' := by
        have hopening := opening_eq_of_append_eq h
        revert hopening
        cases b <;> cases b' <;> simp [Value.opening]
      subst hb
      exact ⟨rfl, List.append_cancel_left h⟩
    | shared w => simp [Value.sharedValues] at hw
    | _ => cases b <;> exact absurd (opening_eq_of_append_eq h) (by simp [Value.opening])
  | .list vs, w => by
    intro level rest rest' hv hw h
    cases w with
    | list ws =>
      simp only [Value.json] at h
      obtain ⟨hvs, hrest⟩ := jsonList_append_inj vs ws level hv hw h
      exact ⟨by rw [hvs], hrest⟩
    | flag b => cases b <;> exact absurd (opening_eq_of_append_eq h) (by simp [Value.opening])
    | shared w => simp [Value.sharedValues] at hw
    | _ => exact absurd (opening_eq_of_append_eq h) (by simp [Value.opening])
  | .object fs, w => by
    intro level rest rest' hv hw h
    cases w with
    | object gs =>
      simp only [Value.json] at h
      obtain ⟨hfs, hrest⟩ := jsonObject_append_inj fs gs level hv hw h
      exact ⟨by rw [hfs], hrest⟩
    | flag b => cases b <;> exact absurd (opening_eq_of_append_eq h) (by simp [Value.opening])
    | shared w => simp [Value.sharedValues] at hw
    | _ => exact absurd (opening_eq_of_append_eq h) (by simp [Value.opening])
  | .shared v, _ => by
    intro _ _ _ hv _ _
    simp [Value.sharedValues] at hv

/-- A list in brackets is determined together with what follows it. -/
theorem jsonList_append_inj : ∀ (vs ws : List Value) (level : Nat) {rest rest' : List Char},
    Value.sharedInItems vs = [] → Value.sharedInItems ws = [] →
    (bracketed .loose level "[" "]" (jsonItems .ascii .loose (level + 1) vs)).toList ++ rest
      = (bracketed .loose level "[" "]" (jsonItems .ascii .loose (level + 1) ws)).toList ++ rest' →
    vs = ws ∧ rest = rest'
  | [], [] => by
    intro level _ _ _ _ h
    simpa [jsonItems, toList_bracketed_nil] using h
  | [], w :: ws => by
    intro level _ _ _ _ h
    obtain ⟨cs, hcs⟩ := toList_json_eq_cons w (level + 1)
    simp only [jsonItems, toList_bracketed_nil, toList_bracketed_cons, hcs] at h
    have hhead : w.opening = ']' := by
      have := congrArg (fun l => l[1]?) h
      simpa using this.symm
    exact absurd hhead (opening_ne_bracket w)
  | v :: vs, [] => by
    intro level _ _ _ _ h
    obtain ⟨cs, hcs⟩ := toList_json_eq_cons v (level + 1)
    simp only [jsonItems, toList_bracketed_nil, toList_bracketed_cons, hcs] at h
    have hhead : v.opening = ']' := by
      have := congrArg (fun l => l[1]?) h
      simpa using this
    exact absurd hhead (opening_ne_bracket v)
  | v :: vs, w :: ws => by
    intro level rest rest' hv hw h
    simp only [Value.sharedInItems, List.append_eq_nil_iff] at hv hw
    simp only [jsonItems, toList_bracketed_cons, List.append_assoc, List.append_cancel_left_eq] at h
    obtain ⟨hhead, htail⟩ := json_append_inj v w (level + 1) hv.1 hw.1 h
    obtain ⟨hrest, hafter⟩ := jsonItems_append_inj vs ws (level + 1) hv.2 hw.2 htail
    exact ⟨by rw [hhead, hrest], hafter⟩

/-- The later items of a list are determined together with what follows the list. -/
theorem jsonItems_append_inj : ∀ (vs ws : List Value) (level : Nat) {rest rest' : List Char},
    Value.sharedInItems vs = [] → Value.sharedInItems ws = [] →
    laterChars (jsonItems .ascii .loose level vs) ++ ("]".toList ++ rest)
      = laterChars (jsonItems .ascii .loose level ws) ++ ("]".toList ++ rest') →
    vs = ws ∧ rest = rest'
  | [], [] => by
    intro _ _ _ _ _ h
    simpa [jsonItems, laterChars] using h
  | [], w :: ws => by
    intro _ _ _ _ _ h
    simp [jsonItems, laterChars] at h
  | v :: vs, [] => by
    intro _ _ _ _ _ h
    simp [jsonItems, laterChars] at h
  | v :: vs, w :: ws => by
    intro level rest rest' hv hw h
    simp only [Value.sharedInItems, List.append_eq_nil_iff] at hv hw
    simp only [jsonItems, laterChars, List.flatMap_cons, List.cons_append, List.append_assoc,
      List.cons.injEq, true_and] at h
    obtain ⟨hhead, htail⟩ := json_append_inj v w level hv.1 hw.1 h
    obtain ⟨hrest, hafter⟩ := jsonItems_append_inj vs ws level hv.2 hw.2 htail
    exact ⟨by rw [hhead, hrest], hafter⟩

/-- An object in braces is determined together with what follows it. -/
theorem jsonObject_append_inj : ∀ (fs gs : List (String × Value)) (level : Nat)
    {rest rest' : List Char}, Value.sharedInFields fs = [] → Value.sharedInFields gs = [] →
    (bracketed .loose level "\x7b" "\x7d" (jsonFields .ascii .loose (level + 1) fs)).toList ++ rest
      = (bracketed .loose level "\x7b" "\x7d"
          (jsonFields .ascii .loose (level + 1) gs)).toList ++ rest' →
    fs = gs ∧ rest = rest'
  | [], [] => by
    intro level _ _ _ _ h
    simpa [jsonFields, toList_bracketed_nil] using h
  | [], (n, w) :: gs => by
    intro level _ _ _ _ h
    simp [jsonFields, toList_bracketed_nil, toList_bracketed_cons, toList_jsonField,
      toList_jsonString] at h
  | (n, v) :: fs, [] => by
    intro level _ _ _ _ h
    simp [jsonFields, toList_bracketed_nil, toList_bracketed_cons, toList_jsonField,
      toList_jsonString] at h
  | (n, v) :: fs, (m, w) :: gs => by
    intro level rest rest' hv hw h
    simp only [Value.sharedInFields, List.append_eq_nil_iff] at hv hw
    simp only [jsonFields, toList_bracketed_cons, toList_jsonField, List.append_assoc,
      List.append_cancel_left_eq] at h
    obtain ⟨hname, hvalue⟩ := jsonString_append_inj h
    simp only [List.cons_append, List.cons.injEq, true_and] at hvalue
    obtain ⟨hhead, htail⟩ := json_append_inj v w (level + 1) hv.1 hw.1 hvalue
    obtain ⟨hrest, hafter⟩ := jsonFields_append_inj fs gs (level + 1) hv.2 hw.2 htail
    exact ⟨by rw [hname, hhead, hrest], hafter⟩

/-- The later fields of an object are determined together with what follows the object. -/
theorem jsonFields_append_inj : ∀ (fs gs : List (String × Value)) (level : Nat)
    {rest rest' : List Char}, Value.sharedInFields fs = [] → Value.sharedInFields gs = [] →
    laterChars (jsonFields .ascii .loose level fs) ++ ("\x7d".toList ++ rest)
      = laterChars (jsonFields .ascii .loose level gs) ++ ("\x7d".toList ++ rest') →
    fs = gs ∧ rest = rest'
  | [], [] => by
    intro _ _ _ _ _ h
    simpa [jsonFields, laterChars] using h
  | [], (n, w) :: gs => by
    intro _ _ _ _ _ h
    simp [jsonFields, laterChars] at h
  | (n, v) :: fs, [] => by
    intro _ _ _ _ _ h
    simp [jsonFields, laterChars] at h
  | (n, v) :: fs, (m, w) :: gs => by
    intro level rest rest' hv hw h
    simp only [Value.sharedInFields, List.append_eq_nil_iff] at hv hw
    simp only [jsonFields, laterChars, List.flatMap_cons, List.cons_append, List.append_assoc,
      List.cons.injEq, true_and, toList_jsonField] at h
    obtain ⟨hname, hvalue⟩ := jsonString_append_inj h
    simp only [List.cons.injEq, true_and] at hvalue
    obtain ⟨hhead, htail⟩ := json_append_inj v w level hv.1 hw.1 hvalue
    obtain ⟨hrest, hafter⟩ := jsonFields_append_inj fs gs level hv.2 hw.2 htail
    exact ⟨by rw [hname, hhead, hrest], hafter⟩

end

/-! ## Keys -/

lemma sharedInFields_eq_nil_iff {fields : List (String × Value)} :
    Value.sharedInFields fields = [] ↔ ∀ f ∈ fields, f.2.sharedValues = [] := by
  induction fields with
  | nil => simp [Value.sharedInFields]
  | cons f rest ih =>
    obtain ⟨n, v⟩ := f
    simp [Value.sharedInFields, ih]

mutual

/-- Sorting the fields of a value brings no shared parts into it. -/
theorem sharedValues_sorted : ∀ v : Value, v.sharedValues = [] → v.sorted.sharedValues = []
  | .text _, _ => by simp [Value.sorted, Value.sharedValues]
  | .flag _, _ => by simp [Value.sorted, Value.sharedValues]
  | .list items, h => by
    simp only [Value.sorted, Value.sharedValues] at h ⊢
    exact sharedInItems_sorted items h
  | .object fields, h => by
    simp only [Value.sorted, Value.sharedValues] at h ⊢
    have hfields := sharedInFields_eq_nil_iff.1 (sharedInFields_sorted fields h)
    exact sharedInFields_eq_nil_iff.2 fun f hf => hfields f (List.mem_mergeSort.1 hf)
  | .shared v, h => by simp [Value.sharedValues] at h

theorem sharedInItems_sorted : ∀ items : List Value, Value.sharedInItems items = [] →
    Value.sharedInItems (sortedItems items) = []
  | [], _ => by simp [sortedItems, Value.sharedInItems]
  | v :: rest, h => by
    simp only [sortedItems, Value.sharedInItems, List.append_eq_nil_iff] at h ⊢
    exact ⟨sharedValues_sorted v h.1, sharedInItems_sorted rest h.2⟩

theorem sharedInFields_sorted : ∀ fields : List (String × Value),
    Value.sharedInFields fields = [] → Value.sharedInFields (sortedFields fields) = []
  | [], _ => by simp [sortedFields, Value.sharedInFields]
  | (n, v) :: rest, h => by
    simp only [sortedFields, Value.sharedInFields, List.append_eq_nil_iff] at h ⊢
    exact ⟨sharedValues_sorted v h.1, sharedInFields_sorted rest h.2⟩

end

/-- Values without shared parts that have the same key are equal up to the order of fields. -/
theorem sorted_eq_of_orderlessKey_eq {v w : Value} (hv : v.sharedValues = [])
    (hw : w.sharedValues = []) (h : v.orderlessKey = w.orderlessKey) : v.sorted = w.sorted := by
  have htext : (v.sorted.json .ascii .loose 0).toList ++ []
      = (w.sorted.json .ascii .loose 0).toList ++ [] := by
    rw [Value.orderlessKey, Value.orderlessKey] at h
    rw [h]
  exact (json_append_inj v.sorted w.sorted 0 (sharedValues_sorted v hv)
    (sharedValues_sorted w hw) htext).1

end RouteScribe.Document
