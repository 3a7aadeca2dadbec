import Workflow.Proofs.Outputs

/-! Cutting a text into tokens. The scanner takes exactly the expressions of the grammar, and none of them holds a dollar
sign, so that occurrences of references never overlap. That is why the first one that is met can be taken without looking
back, and why none is missed. -/

namespace Workflow

structure Reference.InGrammar (r : Reference) : Prop where
  read : r = .ofExpr r.expr
  spelled : Template.SpellsExpr r.expr.toList

theorem Reference.expr_ofExpr (expr : String) : (Reference.ofExpr expr).expr = expr := rfl

def Token.text : Token → String
  | .literal cs => String.ofList cs
  | .reference r => r.placeholder

namespace Template

theorem inGrammar_of_spellsExpr {expr : List Char} (h : SpellsExpr expr) :
    (Reference.ofExpr (String.ofList expr)).InGrammar := by
  refine ⟨rfl, ?_⟩
  rw [Reference.expr_ofExpr, String.toList_ofList]
  exact h

theorem toList_text_ofExpr (expr : List Char) :
    (Token.reference (.ofExpr (String.ofList expr))).text.toList = '$' :: '\x7b' :: (expr ++ ['\x7d']) := by
  rw [Token.text, Reference.placeholder, placeholder_toList, Reference.expr_ofExpr, String.toList_ofList]

/-! ### Nothing is lost -/

def joined (tokens : List Token) : String := String.join (tokens.map Token.text)

theorem joined_cons (token : Token) (tokens : List Token) : joined (token :: tokens) = token.text ++ joined tokens := by
  rw [joined, List.map_cons, String.join_cons, joined]

theorem joined_append (ts ts' : List Token) : joined (ts ++ ts') = joined ts ++ joined ts' := by
  induction ts with
  | nil => simp [joined]
  | cons token ts ih => rw [List.cons_append, joined_cons, joined_cons, ih, String.append_assoc]

theorem joined_split (ts : List Token) (token : Token) (ts' : List Token) :
    joined (ts ++ token :: ts') = joined ts ++ token.text ++ joined ts' := by
  rw [joined_append, joined_cons, String.append_assoc]

theorem toList_joined_consLiteral (c : Char) (tokens : List Token) :
    (joined (consLiteral c tokens)).toList = c :: (joined tokens).toList := by
  unfold consLiteral
  split
  · simp [joined_cons, Token.text]
  · simp [joined_cons, Token.text]

theorem toList_joined_tokenizeChars (cs : List Char) : (joined (tokenizeChars cs)).toList = cs := by
  fun_induction tokenizeChars cs with
  | case1 => rfl
  | case2 rest expr after hscan _ ih =>
    rw [joined_cons, String.toList_append, ih, toList_text_ofExpr, scanExpr_append hscan]
    simp
  | case3 rest _ ih => rw [toList_joined_consLiteral, ih]
  | case4 c rest _ ih => rw [toList_joined_consLiteral, ih]

theorem joined_tokenize (text : String) : joined (tokenize text) = text := by
  rw [← String.toList_inj]
  exact toList_joined_tokenizeChars text.toList

/-! ### Literals and references by turns -/

/-- Tokens as a text is cut into them, each literal as long as it can be. -/
structure Tidy (tokens : List Token) : Prop where
  literal_ne_nil : ∀ cs, .literal cs ∈ tokens → cs ≠ []
  /-- Of two neighbours, one is a reference. -/
  apart : tokens.IsChain fun t u => ∃ r, t = .reference r ∨ u = .reference r
  inGrammar : ∀ r, .reference r ∈ tokens → r.InGrammar

theorem Tidy.reference {tokens : List Token} (h : Tidy tokens) {r : Reference} (hr : r.InGrammar) :
    Tidy (.reference r :: tokens) where
  literal_ne_nil cs hcs := by
    rcases List.mem_cons.mp hcs with heq | hcs
    · cases heq
    · exact h.literal_ne_nil cs hcs
  apart := by
    refine List.isChain_cons.mpr ⟨?_, h.apart⟩
    exact fun _ _ => ⟨r, .inl rfl⟩
  inGrammar q hq := by
    rcases List.mem_cons.mp hq with heq | hq
    · cases heq
      exact hr
    · exact h.inGrammar q hq

theorem Tidy.literal {tokens : List Token} (h : Tidy tokens) {cs : List Char} (hne : cs ≠ [])
    (hhead : ∀ u ∈ tokens.head?, ∃ r, u = .reference r) : Tidy (.literal cs :: tokens) where
  literal_ne_nil ds hds := by
    rcases List.mem_cons.mp hds with heq | hds
    · cases heq
      exact hne
    · exact h.literal_ne_nil ds hds
  apart := by
    refine List.isChain_cons.mpr ⟨fun u hu => ?_, h.apart⟩
    obtain ⟨r, hr⟩ := hhead u hu
    exact ⟨r, .inr hr⟩
  inGrammar r hr := by
    rcases List.mem_cons.mp hr with heq | hr
    · cases heq
    · exact h.inGrammar r hr

theorem Tidy.tail {token : Token} {tokens : List Token} (h : Tidy (token :: tokens)) : Tidy tokens where
  literal_ne_nil cs hcs := h.literal_ne_nil cs (List.mem_cons_of_mem _ hcs)
  apart := (List.isChain_cons.mp h.apart).2
  inGrammar r hr := h.inGrammar r (List.mem_cons_of_mem _ hr)

theorem Tidy.consLiteral {tokens : List Token} (h : Tidy tokens) (c : Char) : Tidy (consLiteral c tokens) := by
  cases tokens with
  | nil => exact h.literal (List.cons_ne_nil _ _) (by simp)
  | cons token rest =>
    cases token with
    | reference r =>
      refine h.literal (List.cons_ne_nil _ _) fun u hu => ?_
      cases hu
      exact ⟨r, rfl⟩
    | literal cs =>
      -- the literal was already followed by a reference, or by nothing
      refine h.tail.literal (List.cons_ne_nil _ _) fun u hu => ?_
      obtain ⟨r, heq | heq⟩ := (List.isChain_cons.mp h.apart).1 u hu
      · cases heq
      · exact ⟨r, heq⟩

theorem tokenizeChars_tidy (cs : List Char) : Tidy (tokenizeChars cs) := by
  fun_induction tokenizeChars cs with
  | case1 => exact ⟨by simp, List.isChain_nil, by simp⟩
  | case2 rest expr after hscan _ ih => exact ih.reference (inGrammar_of_spellsExpr (scanExpr_iff.mp hscan).1)
  | case3 rest _ ih => exact ih.consLiteral _
  | case4 c rest _ ih => exact ih.consLiteral c

theorem tokenize_tidy (text : String) : Tidy (tokenize text) := tokenizeChars_tidy text.toList

/-! ### Every occurrence is met -/

/-- Of two ways to cut a list, the first is the earlier one if what it cuts off does not hold what the second begins
with. -/
theorem exists_of_append_eq {α : Type} {l a b d : List α} {x : α} (hx : x ∉ l) (h : l ++ a = b ++ x :: d) :
    ∃ b', b = l ++ b' ∧ a = b' ++ x :: d := by
  rcases List.append_eq_append_iff.mp h with ⟨b', hb, ha⟩ | ⟨c, hl, hd⟩
  · exact ⟨b', hb, ha⟩
  · cases c with
    | nil => exact ⟨[], by simpa using hl.symm, by simpa using hd.symm⟩
    | cons y c =>
      rw [List.cons_append, List.cons.injEq] at hd
      exact absurd (by rw [hl, hd.1]; simp) hx

theorem consLiteral_append_reference (c : Char) (ts : List Token) (r : Reference) (ts' : List Token) :
    consLiteral c (ts ++ .reference r :: ts') = consLiteral c ts ++ .reference r :: ts' := by
  cases ts with
  | nil => rfl
  | cons token _ => cases token <;> rfl

/-- Wherever an expression of the grammar stands in braces behind a dollar sign, there is a reference. -/
theorem exists_split_of_occurs {cs before expr after : List Char} (hexpr : SpellsExpr expr)
    (h : cs = before ++ '$' :: '\x7b' :: (expr ++ '\x7d' :: after)) :
    ∃ ts ts', tokenizeChars cs = ts ++ .reference (.ofExpr (String.ofList expr)) :: ts' ∧
      (joined ts).toList = before := by
  have hscanned : scanExpr (expr ++ '\x7d' :: after) = some (expr, after) := scanExpr_iff.mpr ⟨hexpr, rfl⟩
  fun_induction tokenizeChars cs generalizing before with
  | case1 => simp at h
  | case2 rest first tail hscan _ ih =>
    cases before with
    | nil =>
      simp only [List.nil_append, List.cons.injEq, true_and] at h
      rw [h, hscanned] at hscan
      cases hscan
      exact ⟨[], _, rfl, rfl⟩
    | cons c before =>
      rw [List.cons_append, List.cons.injEq] at h
      cases before with
      | nil => simp at h
      | cons d before =>
        rw [List.cons_append, List.cons.injEq] at h
        obtain ⟨rfl, rfl, hrest⟩ := h
        -- the occurrence cannot begin inside the reference that is met first, which holds no dollar sign
        obtain ⟨hfirst, htail⟩ := scanExpr_iff.mp hscan
        have hnot : '$' ∉ first ++ ['\x7d'] := by simp [hfirst.not_dollar]
        have hcut : (first ++ ['\x7d']) ++ tail = before ++ '$' :: '\x7b' :: (expr ++ '\x7d' :: after) := by
          rw [← hrest, htail]
          simp
        obtain ⟨later, rfl, hlater⟩ := exists_of_append_eq hnot hcut
        obtain ⟨ts, ts', hts, hbefore⟩ := ih hlater
        refine ⟨_ :: ts, ts', by rw [hts, List.cons_append], ?_⟩
        rw [joined_cons, String.toList_append, hbefore, toList_text_ofExpr]
        simp
  | case3 rest hscan ih =>
    cases before with
    | nil =>
      simp only [List.nil_append, List.cons.injEq, true_and] at h
      rw [h, hscanned] at hscan
      cases hscan
    | cons c before =>
      rw [List.cons_append, List.cons.injEq] at h
      obtain ⟨ts, ts', hts, hbefore⟩ := ih h.2
      rw [hts, ← h.1, consLiteral_append_reference]
      exact ⟨_, _, rfl, by rw [toList_joined_consLiteral, hbefore]⟩
  | case4 c rest hne ih =>
    cases before with
    | nil =>
      simp only [List.nil_append, List.cons.injEq] at h
      exact absurd h.2 (hne _ h.1)
    | cons d before =>
      rw [List.cons_append, List.cons.injEq] at h
      obtain ⟨ts, ts', hts, hbefore⟩ := ih h.2
      rw [hts, h.1, consLiteral_append_reference]
      exact ⟨_, _, rfl, by rw [toList_joined_consLiteral, hbefore]⟩

/-! ### Byte offsets -/

def placed (tokens : List Token) : List (Token × Nat × Nat) := tokens.zip (offsets 0 tokens)

/-- The references of a text, each with the byte offset where it begins. -/
def located (tokens : List Token) : List (Nat × Reference) :=
  (placed tokens).filterMap fun e => (Token.reference? e.1).map fun r => (e.2.1, r)

theorem offsets_cons (k : Nat) (token : Token) (tokens : List Token) :
    offsets k (token :: tokens) =
      (k, k + token.text.utf8ByteSize) :: offsets (k + token.text.utf8ByteSize) tokens := by
  cases token <;> rfl

theorem length_offsets (k : Nat) (tokens : List Token) : (offsets k tokens).length = tokens.length := by
  induction tokens generalizing k with
  | nil => rfl
  | cons token tokens ih => rw [offsets_cons, List.length_cons, List.length_cons, ih]

/-- A token begins where the text of the tokens before it ends. -/
theorem mem_zip_offsets {k start stop : Nat} {token : Token} {tokens : List Token} :
    (token, start, stop) ∈ tokens.zip (offsets k tokens) ↔ ∃ ts ts', tokens = ts ++ token :: ts' ∧
      start = k + (joined ts).utf8ByteSize ∧ stop = start + token.text.utf8ByteSize := by
  induction tokens generalizing k with
  | nil => simp
  | cons first rest ih =>
    rw [offsets_cons, List.zip_cons_cons, List.mem_cons, ih]
    constructor
    · rintro (heq | ⟨ts, ts', rfl, rfl, rfl⟩)
      · cases heq
        exact ⟨[], rest, rfl, rfl, rfl⟩
      · refine ⟨first :: ts, ts', rfl, ?_, rfl⟩
        rw [joined_cons, String.utf8ByteSize_append, Nat.add_assoc]
    · rintro ⟨ts, ts', heq, rfl, rfl⟩
      cases ts with
      | nil =>
        cases heq
        exact .inl rfl
      | cons _ ts =>
        cases heq
        refine .inr ⟨ts, ts', rfl, ?_, rfl⟩
        rw [joined_cons, String.utf8ByteSize_append, Nat.add_assoc]

theorem mem_placed {start stop : Nat} {token : Token} {tokens : List Token} :
    (token, start, stop) ∈ placed tokens ↔ ∃ ts ts', tokens = ts ++ token :: ts' ∧
      start = (joined ts).utf8ByteSize ∧ stop = start + token.text.utf8ByteSize := by
  rw [placed, mem_zip_offsets]
  simp only [Nat.zero_add]

theorem mem_located {start : Nat} {r : Reference} {tokens : List Token} :
    (start, r) ∈ located tokens ↔
      ∃ ts ts', tokens = ts ++ .reference r :: ts' ∧ start = (joined ts).utf8ByteSize := by
  rw [located, List.mem_filterMap]
  constructor
  · rintro ⟨⟨token, begins, ends⟩, hmem, heq⟩
    cases token with
    | literal => cases heq
    | reference q =>
      cases heq
      obtain ⟨ts, ts', hts, hstart, _⟩ := mem_placed.mp hmem
      exact ⟨ts, ts', hts, hstart⟩
  · rintro ⟨ts, ts', hts, hstart⟩
    exact ⟨_, mem_placed.mpr ⟨ts, ts', hts, hstart, rfl⟩, rfl⟩

theorem map_fst_placed (tokens : List Token) : (placed tokens).map Prod.fst = tokens :=
  List.map_fst_zip (length_offsets 0 tokens).ge

theorem map_snd_placed (tokens : List Token) : (placed tokens).map Prod.snd = offsets 0 tokens :=
  List.map_snd_zip (length_offsets 0 tokens).le

theorem map_snd_located (tokens : List Token) :
    (located tokens).map Prod.snd = tokens.filterMap Token.reference? := by
  conv_rhs => rw [← map_fst_placed tokens]
  rw [located, List.map_filterMap, List.filterMap_map]
  refine List.filterMap_congr fun e _ => ?_
  rw [Option.map_map]
  exact Option.map_id'

theorem le_of_mem_offsets {k : Nat} {tokens : List Token} {span : Nat × Nat} (h : span ∈ offsets k tokens) :
    k ≤ span.1 := by
  induction tokens generalizing k with
  | nil => cases h
  | cons token tokens ih =>
    rw [offsets_cons] at h
    rcases List.mem_cons.mp h with rfl | h
    · exact Nat.le_refl k
    · exact (Nat.le_add_right _ _).trans (ih h)

theorem offsets_rise (k : Nat) (tokens : List Token) : (offsets k tokens).Pairwise fun a b => a.2 ≤ b.1 := by
  induction tokens generalizing k with
  | nil => exact .nil
  | cons token tokens ih =>
    rw [offsets_cons]
    exact .cons (fun span h => le_of_mem_offsets h) (ih _)

theorem placeholder_size_pos (r : Reference) : 0 < r.placeholder.utf8ByteSize := by
  rw [Reference.placeholder, String.utf8ByteSize_append]
  exact Nat.lt_add_left _ (by decide)

theorem Tidy.size_pos {tokens : List Token} (h : Tidy tokens) {token : Token} (hmem : token ∈ tokens) :
    0 < token.text.utf8ByteSize := by
  cases token with
  | reference r => exact placeholder_size_pos r
  | literal cs =>
    rw [Nat.pos_iff_ne_zero, Ne, String.utf8ByteSize_eq_zero_iff, Token.text]
    intro hempty
    exact h.literal_ne_nil cs hmem (by simpa using congrArg String.toList hempty)

/-! ### The cut as a whole -/

/-- A reference of the grammar is written in the text at a byte offset. -/
def OccursAt (text : String) (start : Nat) (r : Reference) : Prop :=
  r.InGrammar ∧ ∃ before after, text = before ++ r.placeholder ++ after ∧ before.utf8ByteSize = start

/-- The tokens are the text cut at all of its references, and nowhere else. -/
structure CutsInto (text : String) (tokens : List Token) : Prop extends Tidy tokens where
  whole : joined tokens = text
  /-- Between its offsets, the text reads as the token. -/
  slice : ∀ token start stop, (token, start, stop) ∈ placed tokens →
    ∃ before after, text = before ++ token.text ++ after ∧ before.utf8ByteSize = start ∧
      (before ++ token.text).utf8ByteSize = stop
  boundary : ∀ span ∈ offsets 0 tokens,
    String.Pos.Raw.IsValid text ⟨span.1⟩ ∧ String.Pos.Raw.IsValid text ⟨span.2⟩
  nonempty : ∀ span ∈ offsets 0 tokens, span.1 < span.2
  rising : (offsets 0 tokens).Pairwise fun a b => a.2 ≤ b.1
  references : (located tokens).map Prod.snd = textRefs text
  occurrences : ∀ start r, (start, r) ∈ located tokens ↔ OccursAt text start r
  in_order : (located tokens).Pairwise fun a b => a.1 < b.1
  /-- No reference begins inside a literal. -/
  clear : ∀ cs start stop, (.literal cs, start, stop) ∈ placed tokens →
    ∀ k r, OccursAt text k r → k < start ∨ stop ≤ k

theorem slice_of_mem_placed {text : String} {token : Token} {start stop : Nat}
    (h : (token, start, stop) ∈ placed (tokenize text)) :
    ∃ before after, text = before ++ token.text ++ after ∧ before.utf8ByteSize = start ∧
      (before ++ token.text).utf8ByteSize = stop := by
  obtain ⟨ts, ts', hts, rfl, rfl⟩ := mem_placed.mp h
  refine ⟨joined ts, joined ts', ?_, rfl, String.utf8ByteSize_append⟩
  rw [← joined_split, ← hts, joined_tokenize]

/-- A span of the offsets belongs to a token. -/
theorem exists_token_of_mem_offsets {tokens : List Token} {span : Nat × Nat} (h : span ∈ offsets 0 tokens) :
    ∃ token, (token, span.1, span.2) ∈ placed tokens := by
  rw [← map_snd_placed] at h
  obtain ⟨⟨token, span⟩, hmem, rfl⟩ := List.mem_map.mp h
  exact ⟨token, hmem⟩

theorem mem_of_mem_placed {token : Token} {start stop : Nat} {tokens : List Token}
    (h : (token, start, stop) ∈ placed tokens) : token ∈ tokens := by
  obtain ⟨ts, ts', rfl, _⟩ := mem_placed.mp h
  simp

theorem mem_located_iff_occursAt (text : String) (start : Nat) (r : Reference) :
    (start, r) ∈ located (tokenize text) ↔ OccursAt text start r := by
  rw [mem_located]
  constructor
  · rintro ⟨ts, ts', hts, rfl⟩
    have hgrammar : r.InGrammar := (tokenize_tidy text).inGrammar r (by simp [hts])
    refine ⟨hgrammar, joined ts, joined ts', ?_, rfl⟩
    rw [show r.placeholder = Token.text (.reference r) from rfl, ← joined_split, ← hts, joined_tokenize]
  · rintro ⟨hgrammar, before, after, htext, rfl⟩
    have hchars : text.toList =
        before.toList ++ '$' :: '\x7b' :: (r.expr.toList ++ '\x7d' :: after.toList) := by
      rw [htext, String.toList_append, String.toList_append, Reference.placeholder, placeholder_toList]
      simp
    obtain ⟨ts, ts', hts, hbefore⟩ := exists_split_of_occurs hgrammar.spelled hchars
    rw [String.ofList_toList, ← hgrammar.read] at hts
    exact ⟨ts, ts', hts, by rw [String.toList_inj.mp hbefore]⟩

theorem placed_rise (tokens : List Token) : (placed tokens).Pairwise fun a b => a.2.2 ≤ b.2.1 := by
  have h := offsets_rise 0 tokens
  rw [← map_snd_placed, List.pairwise_map] at h
  exact h

/-- The spans of two tokens lie one behind the other. -/
theorem placed_apart {tokens : List Token} {a b : Token × Nat × Nat} (ha : a ∈ placed tokens) (hb : b ∈ placed tokens)
    (hne : a ≠ b) : a.2.2 ≤ b.2.1 ∨ b.2.2 ≤ a.2.1 := by
  have heither : (placed tokens).Pairwise fun a b => a.2.2 ≤ b.2.1 ∨ b.2.2 ≤ a.2.1 :=
    (placed_rise tokens).imp fun hle => .inl hle
  have hsymm : Std.Symm fun a b : Token × Nat × Nat => a.2.2 ≤ b.2.1 ∨ b.2.2 ≤ a.2.1 := ⟨fun _ _ => Or.symm⟩
  exact heither.forall ha hb hne

theorem lt_of_mem_placed {text : String} {token : Token} {start stop : Nat}
    (h : (token, start, stop) ∈ placed (tokenize text)) : start < stop := by
  have hpos := (tokenize_tidy text).size_pos (mem_of_mem_placed h)
  obtain ⟨_, _, _, _, rfl⟩ := mem_placed.mp h
  exact Nat.lt_add_of_pos_right hpos

theorem located_rise (text : String) : (located (tokenize text)).Pairwise fun a b => a.1 < b.1 := by
  refine List.Pairwise.filterMap _ ?_ (List.Pairwise.and_mem.mp (placed_rise (tokenize text)))
  rintro ⟨token, start, stop⟩ ⟨token', start', stop'⟩ ⟨hmem, _, hle⟩ _ ha _ hb
  obtain ⟨r, _, rfl⟩ := Option.map_eq_some_iff.mp ha
  obtain ⟨r', _, rfl⟩ := Option.map_eq_some_iff.mp hb
  exact Nat.lt_of_lt_of_le (lt_of_mem_placed hmem) hle

theorem not_occursAt_inside_literal {text : String} {cs : List Char} {start stop : Nat}
    (h : (.literal cs, start, stop) ∈ placed (tokenize text)) {k : Nat} {r : Reference} (hr : OccursAt text k r) :
    k < start ∨ stop ≤ k := by
  obtain ⟨ts, ts', hts, hk⟩ := mem_located.mp ((mem_located_iff_occursAt text k r).mpr hr)
  have hmem := mem_placed.mpr ⟨ts, ts', hts, hk, rfl⟩
  have hlt := lt_of_mem_placed hmem
  rcases placed_apart h hmem (by simp) with hbehind | hbefore
  · exact .inr hbehind
  · exact .inl (Nat.lt_of_lt_of_le hlt hbefore)

theorem isValid_of_append {text before after : String} (h : text = before ++ after) :
    String.Pos.Raw.IsValid text ⟨before.utf8ByteSize⟩ :=
  String.Pos.Raw.isValid_iff_exists_append.mpr ⟨before, after, h, rfl⟩

theorem tokenize_cutsInto (text : String) : CutsInto text (tokenize text) where
  toTidy := tokenize_tidy text
  whole := joined_tokenize text
  slice _ _ _ h := slice_of_mem_placed h
  boundary span h := by
    obtain ⟨token, hmem⟩ := exists_token_of_mem_offsets h
    obtain ⟨before, after, htext, hstart, hstop⟩ := slice_of_mem_placed hmem
    rw [← hstart, ← hstop]
    exact ⟨isValid_of_append (htext.trans String.append_assoc), isValid_of_append htext⟩
  nonempty span h := by
    obtain ⟨token, hmem⟩ := exists_token_of_mem_offsets h
    exact lt_of_mem_placed hmem
  rising := offsets_rise 0 (tokenize text)
  references := map_snd_located (tokenize text)
  occurrences := mem_located_iff_occursAt text
  in_order := located_rise text
  clear _ _ _ h _ _ hr := not_occursAt_inside_literal h hr

/-! ### Texts with references, and texts that are one -/

theorem occursInChars_iff (cs : List Char) :
    occursInChars cs = true ↔ (tokenizeChars cs).filterMap Token.reference? ≠ [] := by
  constructor
  · intro h hnone
    fun_induction tokenizeChars cs with
    | case1 => cases h
    | case2 => cases hnone
    | case3 rest hscan ih =>
      rw [consLiteral_filterMap] at hnone
      rw [occursInChars, hscan] at h
      exact ih h hnone
    | case4 c rest hne ih =>
      rw [consLiteral_filterMap] at hnone
      rw [occursInChars] at h
      · exact ih h hnone
      · exact hne
  · intro h
    obtain ⟨r, hr⟩ := List.exists_mem_of_ne_nil _ h
    exact occursInChars_of_mem hr

theorem simpleReference_iff (text : String) (r : Reference) :
    simpleReference text = some r ↔ r.InGrammar ∧ text = r.placeholder := by
  constructor
  · intro h
    have htokens := simpleReference_eq_some h
    refine ⟨(tokenize_tidy text).inGrammar r (by simp [htokens]), ?_⟩
    rw [← joined_tokenize text, htokens]
    simp [joined, Token.text]
  · rintro ⟨hgrammar, rfl⟩
    have hscan : scanExpr (r.expr.toList ++ ['\x7d']) = some (r.expr.toList, []) :=
      scanExpr_iff.mpr ⟨hgrammar.spelled, rfl⟩
    have htokens : tokenize r.placeholder = [.reference r] := by
      rw [tokenize, Reference.placeholder, placeholder_toList, tokenizeChars_of_scanned hscan, String.ofList_toList,
        ← hgrammar.read, tokenizeChars]
    rw [simpleReference, htokens]

/-- A text between the braces of a reference is read just if it is an expression of the grammar. -/
theorem simpleReference_written (text : String) (r : Reference) :
    simpleReference ("$\x7b" ++ text ++ "\x7d") = some r ↔ SpellsExpr text.toList ∧ r = .ofExpr text := by
  rw [simpleReference_iff]
  constructor
  · rintro ⟨hgrammar, hwritten⟩
    have htext : text = r.expr := (String.append_right_inj _).mp ((String.append_left_inj _).mp hwritten)
    rw [htext]
    exact ⟨hgrammar.spelled, hgrammar.read⟩
  · rintro ⟨hspelled, rfl⟩
    exact ⟨⟨rfl, hspelled⟩, rfl⟩

/-- A text is cut into tokens without loss, exactly at the references that are written in it. It counts as a template
just if there is one, and as a single reference just if it is the placeholder of one. -/
theorem tokens_cut_text (text : String) :
    CutsInto text (tokenize text) ∧ (hasTemplate text = true ↔ textRefs text ≠ []) ∧
      ∀ r, simpleReference text = some r ↔ r.InGrammar ∧ text = r.placeholder :=
  ⟨tokenize_cutsInto text, occursInChars_iff text.toList, simpleReference_iff text⟩

/-- An opener that is not closed by its own brace is literal text, and the one inside it is met. -/
example : tokenize "$$\x7ba\x7d$\x7b$\x7bb.c\x7d$\x7ba.\x7d" =
    [.literal ['$'], .reference (.ofExpr "a"), .literal ['$', '\x7b'], .reference (.ofExpr "b.c"),
      .literal ['$', '\x7b', 'a', '.', '\x7d']] := by
  decide +kernel

end Template

end Workflow
