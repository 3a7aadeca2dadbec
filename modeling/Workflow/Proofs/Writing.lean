import Workflow.Json.Printer
import Workflow.Json.Reader
import Workflow.Proofs.Paths

/-! Values written as text and read back. A value without floats is read back from its compact text as it was: every
escape stands for the character it was written for, an integer of at most 64 bits stays an integer, and keys keep their
order. Each reader takes the text of a value and leaves what follows, as long as that cannot go on with a number. -/

namespace Workflow

namespace Json

/-- A value as a program holds it (integers fit 64 bits, and the keys of a dict are distinct) without floats, and with
no more than so many lists and dicts inside each other. -/
inductive Plain : Nat → Json → Prop
  | null {depth : Nat} : Plain depth .null
  | bool {depth : Nat} (b : Bool) : Plain depth (.bool b)
  | int {depth : Nat} {n : Int} (hlow : -(Nat.pow 2 63 : Nat) ≤ n) (hhigh : n ≤ Text.wordMax) : Plain depth (.int n)
  | str {depth : Nat} (text : String) : Plain depth (.str text)
  | arr {depth : Nat} {items : List Json} (hitems : ∀ v ∈ items, Plain depth v) : Plain (depth + 1) (.arr items)
  | obj {depth : Nat} {fields : List (String × Json)} (hkeys : (Assoc.keys fields).Nodup)
      (hfields : ∀ e ∈ fields, Plain depth e.2) : Plain (depth + 1) (.obj fields)

/-! ### Strings -/

section
variable {cs text rest : List Char}

theorem readString_plain {c : Char} (hquote : c ≠ '"') (hbackslash : c ≠ '\\') (hcontrol : ¬ c.toNat < 32)
    (h : readString cs = some (text, rest)) : readString (c :: cs) = some (c :: text, rest) := by
  rw [readString]
  · rw [if_neg (not_or.mpr ⟨hcontrol, hbackslash⟩), h]
    rfl
  all_goals
    intros
    simp_all

theorem readString_simple {c plain : Char} (hunit : c ≠ 'u') (hplain : simpleEscape? c = some plain)
    (h : readString cs = some (text, rest)) : readString ('\\' :: c :: cs) = some (plain :: text, rest) := by
  rw [readString]
  · rw [hplain, h]
    rfl
  · intros
    simp_all

theorem hexUnit?_hexDigit : ∀ n < 32, hexUnit? '0' '0' (hexDigit (n / 16)) (hexDigit (n % 16)) = some n := by decide

theorem readString_control {n : Nat} (hn : n < 32) (h : readString cs = some (text, rest)) :
    readString ('\\' :: 'u' :: '0' :: '0' :: hexDigit (n / 16) :: hexDigit (n % 16) :: cs) =
      some (Char.ofNat n :: text, rest) := by
  have hlow : ¬ (0xDC00 ≤ n ∧ n < 0xE000) := by omega
  have hhigh : ¬ (0xD800 ≤ n ∧ n < 0xDC00) := by omega
  rw [readString, hexUnit?_hexDigit n hn, Option.bind_eq_bind, Option.bind_some, if_neg hlow, if_neg hhigh, h]
  rfl

theorem readString_escapeChar (c : Char) (h : readString cs = some (text, rest)) :
    readString (escapeChar c ++ cs) = some (c :: text, rest) := by
  unfold escapeChar
  split_ifs with hquote hbackslash hline hreturn htab hbackspace hfeed hcontrol
  case neg => exact readString_plain hquote hbackslash hcontrol h
  rotate_right
  · have hread := readString_control hcontrol h
    rwa [Char.ofNat_toNat] at hread
  -- each character that is left has a letter of its own
  all_goals
    subst_vars
    exact readString_simple (by decide) rfl h

/-- Every text is read back from its quoted form. -/
theorem readString_escaped (text rest : List Char) :
    readString (text.flatMap escapeChar ++ '"' :: rest) = some (text, rest) := by
  induction text with
  | nil => rw [List.flatMap_nil, List.nil_append, readString]
  | cons c text ih =>
    rw [List.flatMap_cons, List.append_assoc]
    exact readString_escapeChar c ih

end

/-! ### Numbers -/

def EndsNumber (rest : List Char) : Prop :=
  ∀ c ∈ rest.head?, c.isDigit = false ∧ c ≠ '.' ∧ c ≠ 'e' ∧ c ≠ 'E'

theorem readDigits_toDigits (n : Nat) {rest : List Char} (hrest : EndsNumber rest) :
    Text.readDigits (Nat.toDigits 10 n ++ rest) = some (Nat.toDigits 10 n, rest) := by
  obtain ⟨htake, hdrop⟩ := Template.span_append (fun c hc => Text.isDigit_of_mem_toDigits (n := n) hc)
    (fun c hc => (hrest c hc).1)
  rw [Text.readDigits, Text.splitDigits, htake, hdrop]
  split
  · rename_i hnil
    exact absurd (congrArg Prod.fst hnil) Nat.toDigits_ne_nil
  · rfl

theorem toDigits_ne_zero_of_digit : ∀ n < 10, (Nat.toDigits 10 n).head? = some '0' → n = 0 := by decide

/-- A number is written without leading zeros. -/
theorem eq_zero_of_head_toDigits {n : Nat} (h : (Nat.toDigits 10 n).head? = some '0') : n = 0 := by
  induction n using Nat.strongRecOn with
  | ind n ih =>
    by_cases hdigit : n < 10
    · exact toDigits_ne_zero_of_digit n hdigit h
    · rw [Nat.toDigits_of_base_le (by decide) (Nat.not_lt.mp hdigit), List.head?_append,
        List.head?_eq_some_head Nat.toDigits_ne_nil, Option.some_or, ← List.head?_eq_some_head] at h
      have htens := ih (n / 10) (by omega) h
      omega

theorem not_leadingZero (n : Nat) :
    ¬ ((Nat.toDigits 10 n).head? = some '0' ∧ 1 < (Nat.toDigits 10 n).length) := by
  rintro ⟨hhead, hlength⟩
  rw [eq_zero_of_head_toDigits hhead] at hlength
  exact absurd hlength (by decide)

theorem readUnsigned_toDigits (negative : Bool) {n : Nat} (hn : n ≤ Text.wordMax) {rest : List Char}
    (hrest : EndsNumber rest) :
    readUnsigned negative (Nat.toDigits 10 n ++ rest) = (wholeNumber negative n).map (·, rest) := by
  unfold readUnsigned
  rw [readDigits_toDigits n hrest, Option.bind_eq_bind, Option.bind_some]
  simp only [if_neg (not_leadingZero n)]
  split
  · exact absurd rfl (hrest '.' rfl).2.1
  · exact absurd rfl (hrest 'e' rfl).2.2.1
  · exact absurd rfl (hrest 'E' rfl).2.2.2
  · rw [Text.digitsValue_toDigits, if_pos hn]

theorem intChars_eq_cons (n : Int) : ∃ c tail, intChars n = c :: tail ∧ (c.isDigit = true ∨ c = '-') := by
  cases n with
  | ofNat n =>
    obtain ⟨c, tail, heq⟩ := List.exists_cons_of_ne_nil (Nat.toDigits_ne_nil (n := n) (b := 10))
    exact ⟨c, tail, heq, .inl (Text.isDigit_of_mem_toDigits (heq ▸ List.mem_cons_self))⟩
  | negSucc n => exact ⟨'-', _, rfl, .inr rfl⟩

theorem readNumber_intChars {n : Int} (hlow : -(Nat.pow 2 63 : Nat) ≤ n) (hhigh : n ≤ Text.wordMax) {rest : List Char}
    (hrest : EndsNumber rest) : readNumber (intChars n ++ rest) = some (.int n, rest) := by
  cases n with
  | ofNat n =>
    rw [intChars, readNumber]
    · rw [readUnsigned_toDigits false (Int.ofNat_le.mp hhigh) hrest]
      rfl
    · intro tail heq
      have hminus : '-' ∈ Nat.toDigits 10 n := by
        rcases List.append_eq_cons_iff.mp heq with ⟨hnil, _⟩ | ⟨digits, hcons, _⟩
        · exact absurd hnil Nat.toDigits_ne_nil
        · exact hcons ▸ List.mem_cons_self
      exact absurd (Text.isDigit_of_mem_toDigits hminus) (by decide)
  | negSucc n =>
    have hn : n + 1 ≤ Nat.pow 2 63 := by
      rw [Int.negSucc_eq] at hlow
      omega
    rw [intChars, List.cons_append, readNumber, readUnsigned_toDigits true (hn.trans (by decide)) hrest, wholeNumber,
      if_pos rfl, if_neg (by omega)]
    rfl

/-! ### Values -/

theorem skipBlank_cons {c : Char} (hc : isBlank c = false) (cs : List Char) : skipBlank (c :: cs) = c :: cs :=
  List.dropWhile_cons_of_neg (by simp [hc])

theorem skipBlank_append {before : List Char} (hbefore : ∀ c ∈ before, isBlank c = true) (cs : List Char) :
    skipBlank (before ++ cs) = skipBlank cs :=
  List.dropWhile_append_of_pos hbefore

def IsScalar (v : Json) : Prop := v.asArray? = none ∧ v.asObject? = none

def isMark (c : Char) : Bool := isBlank c || c = '[' || c = ']' || c = '\x7b'

theorem isMark_of_isDigit {c : Char} (h : c.isDigit = true) : isMark c = false := by
  rw [← Bool.not_eq_true]
  intro hmark
  simp only [isMark, isBlank, Bool.or_eq_true, decide_eq_true_eq] at hmark
  rcases hmark with ((((((rfl | rfl) | rfl) | rfl) | rfl) | rfl) | rfl)
  all_goals exact absurd h (by decide)

theorem Plain.scalar_eq_cons {depth : Nat} {v : Json} (h : v.Plain depth) (hscalar : v.IsScalar) :
    ∃ c tail, v.chars = c :: tail ∧ isMark c = false := by
  cases h with
  | null => exact ⟨'n', _, rfl, by decide⟩
  | bool b =>
    cases b with
    | true => exact ⟨'t', _, rfl, by decide⟩
    | false => exact ⟨'f', _, rfl, by decide⟩
  | @int _ n _ _ =>
    obtain ⟨c, tail, heq, hdigit | rfl⟩ := intChars_eq_cons n
    · exact ⟨c, tail, heq, isMark_of_isDigit hdigit⟩
    · exact ⟨'-', tail, heq, by decide⟩
  | str text => exact ⟨'"', _, rfl, by decide⟩
  | arr => cases hscalar.1
  | obj => cases hscalar.2

theorem Plain.chars_eq_cons {depth : Nat} {v : Json} (h : v.Plain depth) :
    ∃ c tail, v.chars = c :: tail ∧ isBlank c = false ∧ c ≠ ']' := by
  have hmarked {c : Char} (hc : isMark c = false) : isBlank c = false ∧ c ≠ ']' := by
    simp only [isMark, Bool.or_eq_false_iff, decide_eq_false_iff_not] at hc
    exact ⟨hc.1.1.1, hc.1.2⟩
  cases v with
  | arr items => exact ⟨'[', _, rfl, by decide, by decide⟩
  | obj fields => exact ⟨'\x7b', _, rfl, by decide, by decide⟩
  | _ =>
    obtain ⟨c, tail, heq, hc⟩ := h.scalar_eq_cons ⟨rfl, rfl⟩
    exact ⟨c, tail, heq, hmarked hc⟩

theorem readScalar_number {c : Char} (hc : c.isDigit = true ∨ c = '-') (cs : List Char) :
    readScalar (c :: cs) = readNumber (c :: cs) := by
  rw [readScalar]
  all_goals
    intro tail heq
    cases heq
    revert hc
    decide

theorem readScalar_chars {depth : Nat} {v : Json} (h : v.Plain depth) (hscalar : v.IsScalar) {rest : List Char}
    (hrest : EndsNumber rest) : readScalar (v.chars ++ rest) = some (v, rest) := by
  cases h with
  | null => rfl
  | bool b => cases b <;> rfl
  | @int _ n hlow hhigh =>
    obtain ⟨c, tail, heq, hc⟩ := intChars_eq_cons n
    have hnumber := readNumber_intChars hlow hhigh hrest
    rw [heq, List.cons_append] at hnumber
    rw [chars, heq, List.cons_append, readScalar_number hc, hnumber]
  | str text =>
    rw [chars, quoted, List.append_assoc, List.cons_append, readScalar, List.singleton_append, readString_escaped]
    simp
  | arr => cases hscalar.1
  | obj => cases hscalar.2

theorem readValue_scalar {c : Char} (hc : isMark c = false) (fuel depth : Nat) (cs : List Char) :
    readValue fuel depth (c :: cs) = readScalar (c :: cs) := by
  simp only [isMark, Bool.or_eq_false_iff, decide_eq_false_iff_not] at hc
  cases depth with
  | zero => rw [readValue, skipBlank_cons hc.1.1.1]
  | succ depth =>
    rw [readValue, skipBlank_cons hc.1.1.1]
    split
    · rename_i heq
      cases heq
      exact absurd rfl hc.1.1.2
    · rename_i heq
      cases heq
      exact absurd rfl hc.2
    · rfl

/-! ### Lists and dicts -/

/-- The reader takes the text of the value and leaves what follows. -/
def Takes (item : List Char → Option (Json × List Char)) (v : Json) : Prop :=
  ∀ rest, EndsNumber rest → item (v.chars ++ rest) = some (v, rest)

theorem Takes.before {item : List Char → Option (Json × List Char)} {v : Json} (h : Takes item v) {c : Char}
    (hc : c.isDigit = false ∧ c ≠ '.' ∧ c ≠ 'e' ∧ c ≠ 'E') (cs : List Char) :
    item (v.chars ++ c :: cs) = some (v, c :: cs) := by
  refine h (c :: cs) fun d hd => ?_
  cases hd
  exact hc

theorem itemChars_cons (v : Json) {vs : List Json} (hne : vs ≠ []) :
    itemChars (v :: vs) = v.chars ++ ',' :: itemChars vs := by
  rw [itemChars]
  exact hne

theorem fieldChars_cons (key : String) (v : Json) {fields : List (String × Json)} (hne : fields ≠ []) :
    fieldChars ((key, v) :: fields) = quoted key ++ ':' :: v.chars ++ ',' :: fieldChars fields := by
  rw [fieldChars]
  exact hne

theorem readItems_itemChars {item : List Char → Option (Json × List Char)} {items : List Json} (hne : items ≠ [])
    (hitems : ∀ v ∈ items, Takes item v) {fuel : Nat} (hfuel : items.length ≤ fuel) (rest : List Char) :
    readItems item fuel (itemChars items ++ ']' :: rest) = some (items, rest) := by
  induction items generalizing fuel with
  | nil => exact absurd rfl hne
  | cons v vs ih =>
    obtain ⟨fuel, rfl⟩ := Nat.exists_eq_succ_of_ne_zero (Nat.ne_of_gt (Nat.lt_of_lt_of_le (Nat.succ_pos _) hfuel))
    have hv := hitems v List.mem_cons_self
    by_cases hlast : vs = []
    · subst hlast
      rw [itemChars, readItems, hv.before (by decide)]
      rfl
    · have hvs := ih hlast (fun w hw => hitems w (List.mem_cons_of_mem _ hw)) (Nat.le_of_succ_le_succ hfuel)
      rw [itemChars_cons v hlast, List.append_assoc, List.cons_append, readItems, hv.before (by decide)]
      simp only [Option.bind_eq_bind, Option.bind_some, skipBlank_cons (c := ',') (by decide), hvs]

theorem readKey_quoted (key : String) (rest : List Char) : readKey (quoted key ++ ':' :: rest) = some (key, rest) := by
  rw [quoted, List.append_assoc, List.cons_append, List.singleton_append, readKey, skipBlank_cons (by decide)]
  simp only [readString_escaped, Option.bind_eq_bind, Option.bind_some, skipBlank_cons (c := ':') (by decide),
    String.ofList_toList]

theorem readMembers_fieldChars {item : List Char → Option (Json × List Char)} {fields : List (String × Json)}
    (hne : fields ≠ []) (hfields : ∀ e ∈ fields, Takes item e.2) {fuel : Nat} (hfuel : fields.length ≤ fuel)
    (rest : List Char) : readMembers item fuel (fieldChars fields ++ '\x7d' :: rest) = some (fields, rest) := by
  induction fields generalizing fuel with
  | nil => exact absurd rfl hne
  | cons e fields ih =>
    obtain ⟨key, v⟩ := e
    obtain ⟨fuel, rfl⟩ := Nat.exists_eq_succ_of_ne_zero (Nat.ne_of_gt (Nat.lt_of_lt_of_le (Nat.succ_pos _) hfuel))
    have hv : Takes item v := hfields (key, v) List.mem_cons_self
    by_cases hlast : fields = []
    · subst hlast
      rw [fieldChars, List.append_assoc, List.cons_append, readMembers, readKey_quoted, Option.bind_eq_bind,
        Option.bind_some]
      simp only [hv.before (c := '\x7d') (by decide), Option.bind_eq_bind, Option.bind_some,
        skipBlank_cons (c := '\x7d') (by decide)]
    · have hmore := ih hlast (fun e he => hfields e (List.mem_cons_of_mem _ he)) (Nat.le_of_succ_le_succ hfuel)
      rw [fieldChars_cons key v hlast, List.append_assoc, List.append_assoc, List.cons_append, List.cons_append,
        readMembers, readKey_quoted, Option.bind_eq_bind, Option.bind_some]
      simp only [hv.before (c := ',') (by decide), Option.bind_eq_bind, Option.bind_some,
        skipBlank_cons (c := ',') (by decide), hmore]

/-! ### Every value is read back -/

theorem itemChars_eq (items : List Json) : itemChars items = [','].intercalate (items.map chars) := by
  induction items with
  | nil => rfl
  | cons v vs ih =>
    by_cases hlast : vs = []
    · subst hlast
      rw [itemChars, List.map_singleton, List.intercalate_singleton]
    · rw [itemChars_cons v hlast, List.map_cons, List.intercalate_cons_of_ne_nil (mt List.map_eq_nil_iff.mp hlast), ih,
        List.append_assoc, List.singleton_append]

theorem fieldChars_eq (fields : List (String × Json)) :
    fieldChars fields = [','].intercalate (fields.map fun e => quoted e.1 ++ ':' :: e.2.chars) := by
  induction fields with
  | nil => rfl
  | cons e fields ih =>
    obtain ⟨key, v⟩ := e
    by_cases hlast : fields = []
    · subst hlast
      rw [fieldChars, List.map_singleton, List.intercalate_singleton]
    · rw [fieldChars_cons key v hlast, List.map_cons,
        List.intercalate_cons_of_ne_nil (mt List.map_eq_nil_iff.mp hlast), ih, List.append_assoc _ [','],
        List.singleton_append]

/-- A text is at least as long as its parts are many, and as each of them is. -/
theorem length_intercalate {parts : List (List Char)} (hparts : ∀ part ∈ parts, part ≠ []) :
    parts.length ≤ ([','].intercalate parts).length ∧
      ∀ part ∈ parts, part.length ≤ ([','].intercalate parts).length := by
  induction parts with
  | nil => exact ⟨Nat.zero_le _, fun part hpart => by cases hpart⟩
  | cons first rest ih =>
    have hfirst := List.length_pos_iff.mpr (hparts first List.mem_cons_self)
    obtain ⟨hcount, hlength⟩ := ih fun part hpart => hparts part (List.mem_cons_of_mem _ hpart)
    by_cases hlast : rest = []
    · subst hlast
      rw [List.intercalate_singleton]
      exact ⟨hfirst, fun part hpart => Nat.le_of_eq (congrArg _ (List.mem_singleton.mp hpart))⟩
    · rw [List.intercalate_cons_of_ne_nil hlast, List.length_append, List.length_append, List.length_cons,
        List.length_singleton]
      refine ⟨by omega, fun part hpart => ?_⟩
      rcases List.mem_cons.mp hpart with rfl | hpart
      · omega
      · exact (hlength part hpart).trans (Nat.le_add_left _ _)

theorem readValue_list {c : Char} (hblank : isBlank c = false) (hclose : c ≠ ']') (fuel depth : Nat) (cs : List Char) :
    readValue fuel (depth + 1) ('[' :: c :: cs) =
      (readItems (readValue fuel depth) fuel (c :: cs)).map fun (vs, rest) => (.arr vs, rest) := by
  rw [readValue, skipBlank_cons (by decide)]
  simp only [skipBlank_cons hblank]
  split
  · rename_i heq
    cases heq
    exact absurd rfl hclose
  · rfl

theorem readValue_dict {c : Char} (hblank : isBlank c = false) (hclose : c ≠ '\x7d') (fuel depth : Nat)
    (cs : List Char) :
    readValue fuel (depth + 1) ('\x7b' :: c :: cs) =
      (readMembers (readValue fuel depth) fuel (c :: cs)).map fun (vs, rest) => (.obj (Assoc.ofList vs), rest) := by
  rw [readValue, skipBlank_cons (by decide)]
  simp only [skipBlank_cons hblank]
  split
  · rename_i heq
    cases heq
    exact absurd rfl hclose
  · rfl

theorem itemChars_eq_cons {depth : Nat} {items : List Json} (hne : items ≠ []) (hitems : ∀ v ∈ items, v.Plain depth) :
    ∃ c tail, itemChars items = c :: tail ∧ isBlank c = false ∧ c ≠ ']' := by
  obtain ⟨v, vs, rfl⟩ := List.exists_cons_of_ne_nil hne
  obtain ⟨c, tail, heq, hc⟩ := (hitems v List.mem_cons_self).chars_eq_cons
  by_cases hlast : vs = []
  · subst hlast
    exact ⟨c, tail, heq, hc⟩
  · rw [itemChars_cons v hlast, heq]
    exact ⟨c, _, rfl, hc⟩

theorem fieldChars_eq_cons {fields : List (String × Json)} (hne : fields ≠ []) :
    ∃ tail, fieldChars fields = '"' :: tail := by
  obtain ⟨⟨key, v⟩, fields, rfl⟩ := List.exists_cons_of_ne_nil hne
  by_cases hlast : fields = []
  · subst hlast
    exact ⟨_, rfl⟩
  · rw [fieldChars_cons key v hlast]
    exact ⟨_, rfl⟩

theorem takes_of_scalar {depth : Nat} {v : Json} (h : v.Plain depth) (hv : v.IsScalar) (fuel : Nat) :
    Takes (readValue fuel depth) v := by
  intro rest hrest
  obtain ⟨c, tail, heq, hc⟩ := h.scalar_eq_cons hv
  have hread := readScalar_chars h hv hrest
  rw [heq, List.cons_append] at hread ⊢
  rw [readValue_scalar hc, hread]

/-- A list is taken if its items are, as its text is long enough for each of them. -/
theorem takes_arr {depth fuel : Nat} {items : List Json} (hitems : ∀ v ∈ items, v.Plain depth)
    (h : ∀ v ∈ items, v.chars.length ≤ fuel → Takes (readValue fuel depth) v)
    (hfuel : (chars (.arr items)).length ≤ fuel) : Takes (readValue fuel (depth + 1)) (.arr items) := by
  intro rest _
  rw [chars, List.length_append, List.length_cons] at hfuel
  by_cases hne : items = []
  · subst hne
    rfl
  · have hparts : ∀ part ∈ items.map chars, part ≠ [] := by
      intro part hpart
      obtain ⟨v, hv, rfl⟩ := List.mem_map.mp hpart
      obtain ⟨c, tail, heq, _⟩ := (hitems v hv).chars_eq_cons
      exact heq ▸ List.cons_ne_nil _ _
    obtain ⟨hcount, hlength⟩ := length_intercalate hparts
    rw [← itemChars_eq, List.length_map] at hcount
    rw [← itemChars_eq] at hlength
    have htakes : ∀ v ∈ items, Takes (readValue fuel depth) v := fun v hv =>
      h v hv ((hlength _ (List.mem_map_of_mem hv)).trans (by omega))
    have hread : readItems (readValue fuel depth) fuel (itemChars items ++ ']' :: rest) = some (items, rest) :=
      readItems_itemChars hne htakes (by omega) rest
    obtain ⟨c, tail, heq, hblank, hclose⟩ := itemChars_eq_cons hne hitems
    rw [heq, List.cons_append] at hread
    rw [chars, heq, List.append_assoc, List.cons_append, List.cons_append, List.singleton_append,
      readValue_list hblank hclose, hread, Option.map_some]

/-- A dict is taken if its values are. Its keys keep their order, since none is read twice. -/
theorem takes_obj {depth fuel : Nat} {fields : List (String × Json)} (hkeys : (Assoc.keys fields).Nodup)
    (h : ∀ e ∈ fields, e.2.chars.length ≤ fuel → Takes (readValue fuel depth) e.2)
    (hfuel : (chars (.obj fields)).length ≤ fuel) : Takes (readValue fuel (depth + 1)) (.obj fields) := by
  intro rest _
  rw [chars, List.length_append, List.length_cons] at hfuel
  by_cases hne : fields = []
  · subst hne
    rfl
  · have hparts : ∀ part ∈ fields.map fun e => quoted e.1 ++ ':' :: e.2.chars, part ≠ [] := by
      intro part hpart
      obtain ⟨e, _, rfl⟩ := List.mem_map.mp hpart
      exact List.cons_ne_nil _ _
    obtain ⟨hcount, hlength⟩ := length_intercalate hparts
    rw [← fieldChars_eq, List.length_map] at hcount
    rw [← fieldChars_eq] at hlength
    have htakes : ∀ e ∈ fields, Takes (readValue fuel depth) e.2 := by
      intro e he
      have hle := hlength _ (List.mem_map_of_mem he)
      rw [List.length_append, List.length_cons] at hle
      exact h e he (by omega)
    have hread : readMembers (readValue fuel depth) fuel (fieldChars fields ++ '\x7d' :: rest) = some (fields, rest) :=
      readMembers_fieldChars hne htakes (by omega) rest
    have hordered : Assoc.ofList fields = fields := Assoc.putAll_eq_append hkeys
    obtain ⟨tail, heq⟩ := fieldChars_eq_cons hne
    rw [heq, List.cons_append] at hread
    rw [chars, heq, List.append_assoc, List.cons_append, List.cons_append, List.singleton_append,
      readValue_dict (by decide) (by decide), hread, Option.map_some]
    simp only [hordered]

theorem takes_of_plain {depth : Nat} {v : Json} (h : v.Plain depth) {fuel : Nat} (hfuel : v.chars.length ≤ fuel) :
    Takes (readValue fuel depth) v := by
  induction h with
  | null => exact takes_of_scalar .null ⟨rfl, rfl⟩ fuel
  | bool b => exact takes_of_scalar (.bool b) ⟨rfl, rfl⟩ fuel
  | int hlow hhigh => exact takes_of_scalar (.int hlow hhigh) ⟨rfl, rfl⟩ fuel
  | str text => exact takes_of_scalar (.str text) ⟨rfl, rfl⟩ fuel
  | arr hitems ih => exact takes_arr hitems ih hfuel
  | obj hkeys _ ih => exact takes_obj hkeys ih hfuel

theorem readValue_append {before : List Char} (hbefore : ∀ c ∈ before, isBlank c = true) (fuel depth : Nat)
    (cs : List Char) : readValue fuel depth (before ++ cs) = readValue fuel depth cs := by
  cases depth <;> rw [readValue, readValue, skipBlank_append hbefore]

theorem endsNumber_of_blank {after : List Char} (hafter : ∀ c ∈ after, isBlank c = true) : EndsNumber after := by
  intro c hc
  have hblank := hafter c (List.mem_of_mem_head? hc)
  simp only [isBlank, Bool.or_eq_true, decide_eq_true_eq] at hblank
  rcases hblank with ((rfl | rfl) | rfl) | rfl
  all_goals decide

/-- A plain value is read back from its text, whatever blanks stand around it. -/
theorem readChars_padded {v : Json} (h : v.Plain maxDepth) {before after : List Char}
    (hbefore : ∀ c ∈ before, isBlank c = true) (hafter : ∀ c ∈ after, isBlank c = true) :
    readChars (before ++ v.chars ++ after) = some v := by
  have hfuel : v.chars.length ≤ (before ++ v.chars ++ after).length := by
    rw [List.length_append, List.length_append]
    omega
  have hread := takes_of_plain h hfuel after (endsNumber_of_blank hafter)
  have hend : skipBlank after = [] := List.dropWhile_eq_nil_iff.mpr hafter
  rw [readChars]
  simp only [List.append_assoc before, readValue_append hbefore] at hread ⊢
  simp only [hread, hend, List.isEmpty_nil, if_true]

end Json

end Workflow
