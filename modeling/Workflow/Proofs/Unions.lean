import Workflow.Proofs.Parameters
import Workflow.Proofs.RoundTrip
import Mathlib.Data.List.Sort
import Mathlib.Data.List.TakeWhile

/-! Declared types as unions of their parts. A declaration accepts what one of its parts accepts, and of how its parts
are written only the set of atoms they stand for counts. Gathering the parts one by one into an ordered set, in which
unions could stand as well, comes to the same: an atom, or a union of several atoms with no union inside. -/

namespace Workflow

/-! ### Trimming and letter case -/

namespace Text

theorem trimChars_before {before : List Char} (h : ∀ c ∈ before, isSpace c = true) (cs : List Char) :
    trimChars (before ++ cs) = trimChars cs := by
  rw [trimChars, List.dropWhile_append_of_pos h, trimChars]

theorem trimChars_after {after : List Char} (h : ∀ c ∈ after, isSpace c = true) (cs : List Char) :
    trimChars (cs ++ after) = trimChars cs := by
  have hall : after.dropWhile isSpace = [] := List.dropWhile_eq_nil_iff.mpr h
  have hreverse : ∀ c ∈ after.reverse, isSpace c = true := fun c hc => h c (List.mem_reverse.mp hc)
  rw [trimChars, trimChars, List.dropWhile_append, hall]
  split
  · rename_i hempty
    rw [List.isEmpty_iff.mp hempty]
  · rw [List.reverse_append, List.dropWhile_append_of_pos hreverse]

/-- What is trimmed away is space, in front and behind. -/
theorem trimChars_split (cs : List Char) :
    ∃ before after, (∀ c ∈ before, isSpace c = true) ∧ (∀ c ∈ after, isSpace c = true) ∧
      cs = before ++ trimChars cs ++ after := by
  let middle := cs.dropWhile isSpace
  refine ⟨cs.takeWhile isSpace, (middle.reverse.takeWhile isSpace).reverse, ?_, ?_, ?_⟩
  · exact fun c hc => List.mem_takeWhile_imp hc
  · exact fun c hc => List.mem_takeWhile_imp (List.mem_reverse.mp hc)
  · have hmiddle :
        middle = (middle.reverse.dropWhile isSpace).reverse ++ (middle.reverse.takeWhile isSpace).reverse := by
      rw [← List.reverse_append, List.takeWhile_append_dropWhile, List.reverse_reverse]
    rw [trimChars, List.append_assoc, ← hmiddle, List.takeWhile_append_dropWhile]

theorem toNat_toLower (c : Char) :
    c.toLower.toNat = if 65 ≤ c.toNat ∧ c.toNat ≤ 90 then c.toNat + 32 else c.toNat := by
  have hval : c.toNat = c.val.toNat := rfl
  unfold Char.toLower
  split
  · rename_i h
    have hlow : 65 ≤ c.val.toNat := h.1
    have hhigh : c.val.toNat ≤ 90 := h.2
    rw [if_pos (by omega)]
    show (c.val + ('a'.val - 'A'.val)).toNat = c.val.toNat + 32
    rw [UInt32.toNat_add]
    show (c.val.toNat + 32) % 2 ^ 32 = c.val.toNat + 32
    omega
  · rename_i h
    exact (if_neg h).symm

theorem toLower_toLower (c : Char) : c.toLower.toLower = c.toLower := by
  apply Char.toNat_inj.mp
  rw [toNat_toLower c.toLower, if_neg]
  rw [toNat_toLower]
  split
  · omega
  · assumption

theorem isSpace_toLower (c : Char) : isSpace c.toLower = isSpace c := by
  have h := toNat_toLower c
  split at h
  · rw [Bool.eq_iff_iff]
    simp only [isSpace, h, Bool.or_eq_true, Bool.and_eq_true, decide_eq_true_eq, beq_iff_eq]
    omega
  · rw [Char.toNat_inj.mp h]

theorem trimChars_toLower (cs : List Char) : trimChars (cs.map Char.toLower) = (trimChars cs).map Char.toLower := by
  have hspace : isSpace ∘ Char.toLower = isSpace := funext isSpace_toLower
  rw [trimChars, List.dropWhile_map, hspace, ← List.map_reverse, List.dropWhile_map, hspace, ← List.map_reverse,
    trimChars]

end Text

/-! ### Names of atoms -/

namespace Atom

/-- The names by which an atom is declared. Whatever is none of them, `any` itself included, declares `any`. -/
def names : Atom → List String
  | .str => ["str", "string", "text"]
  | .int => ["int", "integer"]
  | .float => ["float", "number"]
  | .bool => ["bool", "boolean"]
  | .dict => ["dict", "object", "map"]
  | .list => ["list", "array"]
  | .any => []

theorem ofName_congr {name other : String} (h : Text.asciiLower name = Text.asciiLower other) :
    ofName name = ofName other := by
  rw [ofName, h, ofName]

theorem ofName_of_mem {name : String} {a : Atom} (h : Text.asciiLower name ∈ a.names) : ofName name = a := by
  unfold ofName
  generalize Text.asciiLower name = lower at h
  cases a
  all_goals simp only [names, List.mem_cons, List.not_mem_nil, or_false] at h
  case str => rcases h with rfl | rfl | rfl <;> rfl
  case int => rcases h with rfl | rfl <;> rfl
  case float => rcases h with rfl | rfl <;> rfl
  case bool => rcases h with rfl | rfl <;> rfl
  case dict => rcases h with rfl | rfl | rfl <;> rfl
  case list => rcases h with rfl | rfl <;> rfl

theorem ofName_of_not_mem {name : String} (h : ∀ a : Atom, Text.asciiLower name ∉ a.names) : ofName name = .any := by
  have hstr := h .str
  have hint := h .int
  have hfloat := h .float
  have hbool := h .bool
  have hdict := h .dict
  have hlist := h .list
  simp only [names, List.mem_cons, List.not_mem_nil, or_false, not_or] at hstr hint hfloat hbool hdict hlist
  simp [ofName, hstr, hint, hfloat, hbool, hdict, hlist]

end Atom

/-! ### Parts of a declaration -/

namespace SemanticType

def parts (declared : String) : List (List Char) := Text.splitOn '|' declared.toList

def partAtom (part : List Char) : Atom := Atom.ofName (Text.trim (String.ofList part))

def bare (part : List Char) : String := Text.asciiLower (Text.trim (String.ofList part))

theorem toList_bare (part : List Char) : (bare part).toList = (Text.trimChars part).map Char.toLower := by
  simp [bare, Text.asciiLower, Text.trim]

/-- The two parts stand for the same atom by the ways a part may be written: with space around it, in either letter
case, by any name of its atom, and by no name at all. -/
inductive Alike : List Char → List Char → Prop
  | padded {before after : List Char} (part : List Char) (hbefore : ∀ c ∈ before, Text.isSpace c = true)
      (hafter : ∀ c ∈ after, Text.isSpace c = true) : Alike (before ++ part ++ after) part
  | cased {part other : List Char} (h : part.map Char.toLower = other.map Char.toLower) : Alike part other
  | renamed (a : Atom) {name other : String} (hname : name ∈ a.names) (hother : other ∈ a.names) :
      Alike name.toList other.toList
  | nameless {part other : List Char} (hpart : ∀ a : Atom, bare part ∉ a.names)
      (hother : ∀ a : Atom, bare other ∉ a.names) : Alike part other
  | symm {part other : List Char} (h : Alike part other) : Alike other part
  | trans {part between other : List Char} (h : Alike part between) (h' : Alike between other) : Alike part other

theorem partAtom_congr {part other : List Char} (h : bare part = bare other) : partAtom part = partAtom other :=
  Atom.ofName_congr h

theorem partAtom_name {a : Atom} {name : String} (h : name ∈ a.names) : partAtom name.toList = a := by
  have hall : ∀ b ∈ Atom.all, ∀ text ∈ b.names, partAtom text.toList = b := by decide
  exact hall a (by cases a <;> decide) name h

theorem Alike.partAtom_eq {part other : List Char} (h : Alike part other) : partAtom part = partAtom other := by
  induction h with
  | padded part hbefore hafter =>
    apply partAtom_congr
    rw [← String.toList_inj, toList_bare, toList_bare, Text.trimChars_after hafter, Text.trimChars_before hbefore]
  | cased h =>
    apply partAtom_congr
    rw [← String.toList_inj, toList_bare, toList_bare, ← Text.trimChars_toLower, h, Text.trimChars_toLower]
  | renamed a hname hother => rw [partAtom_name hname, partAtom_name hother]
  | nameless hpart hother => rw [partAtom, partAtom, Atom.ofName_of_not_mem hpart, Atom.ofName_of_not_mem hother]
  | symm _ ih => exact ih.symm
  | trans _ _ ih ih' => exact ih.trans ih'

theorem alike_bare (part : List Char) : Alike part (bare part).toList := by
  obtain ⟨before, after, hbefore, hafter, hsplit⟩ := Text.trimChars_split part
  have hpadded : Alike part (Text.trimChars part) := by
    conv => lhs; rw [hsplit]
    exact .padded _ hbefore hafter
  refine hpadded.trans (.cased ?_)
  rw [toList_bare, List.map_map]
  exact List.map_congr_left fun c _ => (Text.toLower_toLower c).symm

/-- Nothing but these ways of writing makes two parts stand for the same atom. -/
theorem alike_iff {part other : List Char} : Alike part other ↔ partAtom part = partAtom other := by
  refine ⟨Alike.partAtom_eq, fun h => ?_⟩
  by_cases hpart : ∃ a : Atom, bare part ∈ a.names
  · obtain ⟨a, hname⟩ := hpart
    have hatom : partAtom other = a := h ▸ Atom.ofName_of_mem hname
    by_cases hother : ∃ b : Atom, bare other ∈ b.names
    · obtain ⟨b, hother⟩ := hother
      have hab : b = a := (Atom.ofName_of_mem hother).symm.trans hatom
      exact ((alike_bare part).trans (.renamed a hname (hab ▸ hother))).trans (alike_bare other).symm
    · rw [not_exists] at hother
      have hany : a = .any := hatom.symm.trans (Atom.ofName_of_not_mem hother)
      rw [hany] at hname
      exact absurd hname List.not_mem_nil
  · rw [not_exists] at hpart
    have hany : partAtom other = .any := h ▸ Atom.ofName_of_not_mem hpart
    refine .nameless hpart fun a hother => ?_
    have ha : a = .any := (Atom.ofName_of_mem hother).symm.trans hany
    rw [ha] at hother
    exact absurd hother List.not_mem_nil

/-! ### Members and parts -/

theorem mem_parse {declared : String} {a : Atom} :
    a ∈ (parse declared).members ↔ ∃ part ∈ parts declared, partAtom part = a := by
  have hall : a ∈ Atom.all := by cases a <;> decide
  simp only [parse, ofAtoms, List.mem_filter, hall, true_and, List.contains_iff_mem, List.mem_map]
  rfl

theorem accepts_parse {declared : String} {v : Json} :
    (parse declared).accepts v = true ↔ ∃ part ∈ parts declared, (partAtom part).accepts v = true := by
  rw [accepts, List.any_eq_true]
  constructor
  · rintro ⟨a, ha, hv⟩
    obtain ⟨part, hpart, rfl⟩ := mem_parse.mp ha
    exact ⟨part, hpart, hv⟩
  · rintro ⟨part, hpart, hv⟩
    exact ⟨_, mem_parse.mpr ⟨part, hpart, rfl⟩, hv⟩

theorem parts_join (s t : String) : parts (s ++ "|" ++ t) = parts s ++ parts t := by
  have hchars : (s ++ "|" ++ t).toList = s.toList ++ '|' :: t.toList := by simp [String.toList_append]
  rw [parts, hchars, Text.splitOn_separated, parts, parts]

theorem accepts_join (s t : String) (v : Json) :
    (parse (s ++ "|" ++ t)).accepts v = true ↔ (parse s).accepts v = true ∨ (parse t).accepts v = true := by
  simp only [accepts_parse, parts_join, List.mem_append, or_and_right, exists_or]

/-- A type is known from its members. -/
theorem parse_eq_of_mem {s t : String} (h : ∀ a, a ∈ (parse s).members ↔ a ∈ (parse t).members) :
    parse s = parse t := by
  have hmembers : (parse s).members = (parse t).members := by
    rw [← ofAtoms_members (proper_parse s), ← ofAtoms_members (proper_parse t)]
    refine List.filter_congr fun a _ => ?_
    rw [Bool.eq_iff_iff, List.contains_iff_mem, List.contains_iff_mem]
    exact h a
  cases hs : parse s
  cases ht : parse t
  rw [hs, ht] at hmembers
  exact congrArg SemanticType.mk hmembers

/-- Declarations come to the same type just if each part of one is like some part of the other. -/
theorem parse_eq_iff {s t : String} : parse s = parse t ↔
    (∀ part ∈ parts s, ∃ other ∈ parts t, Alike part other) ∧
      ∀ other ∈ parts t, ∃ part ∈ parts s, Alike part other := by
  simp only [alike_iff]
  constructor
  · intro h
    constructor
    · intro part hpart
      obtain ⟨other, hother, heq⟩ := mem_parse.mp (h ▸ mem_parse.mpr ⟨part, hpart, rfl⟩)
      exact ⟨other, hother, heq.symm⟩
    · intro other hother
      exact mem_parse.mp (h ▸ mem_parse.mpr ⟨other, hother, rfl⟩)
  · rintro ⟨hst, hts⟩
    apply parse_eq_of_mem
    intro a
    rw [mem_parse, mem_parse]
    constructor
    · rintro ⟨part, hpart, rfl⟩
      obtain ⟨other, hother, heq⟩ := hst part hpart
      exact ⟨other, hother, heq.symm⟩
    · rintro ⟨other, hother, rfl⟩
      exact hts other hother

end SemanticType

/-! ### Gathering the parts -/

/-- A declared type as it is gathered from its parts: an atom, or a union, which may have members of any kind. -/
inductive TypeTerm where
  | atom (a : Atom)
  | union (members : List TypeTerm)

namespace TypeTerm

mutual

def compare : TypeTerm → TypeTerm → Ordering
  | .atom a, .atom b => Ord.compare (Atom.all.idxOf a) (Atom.all.idxOf b)
  | .atom _, .union _ => .lt
  | .union _, .atom _ => .gt
  | .union ts, .union us => compareMembers ts us

def compareMembers : List TypeTerm → List TypeTerm → Ordering
  | [], [] => .eq
  | [], _ :: _ => .lt
  | _ :: _, [] => .gt
  | t :: ts, u :: us => (t.compare u).then (compareMembers ts us)

end

/-- Puts a term in its place in an ordered set, if it is not there already. -/
def insert (t : TypeTerm) : List TypeTerm → List TypeTerm
  | [] => [t]
  | u :: rest =>
    match t.compare u with
    | .lt => t :: u :: rest
    | .eq => u :: rest
    | .gt => u :: insert t rest

/-- Adds a term to the members so far. What is a union adds its own members. -/
def gather (members : List TypeTerm) : TypeTerm → List TypeTerm
  | .union inner => inner.foldl (fun members t => insert t members) members
  | t => insert t members

def ofMembers : List TypeTerm → TypeTerm
  | [] => .atom .any
  | [t] => t
  | ts => .union ts

def parse (declared : String) : TypeTerm :=
  ofMembers ((SemanticType.parts declared).foldl
    (fun members part => gather members (.atom (SemanticType.partAtom part))) [])

mutual

def accepts : TypeTerm → Json → Bool
  | .atom a, v => a.accepts v
  | .union members, v => anyAccepts members v

def anyAccepts : List TypeTerm → Json → Bool
  | [], _ => false
  | t :: rest, v => t.accepts v || anyAccepts rest v

end

mutual

def display : TypeTerm → String
  | .atom a => a.name
  | .union members => Text.join "|" (displays members)

def displays : List TypeTerm → List String
  | [] => []
  | t :: rest => t.display :: displays rest

end

theorem gather_atom (members : List TypeTerm) (a : Atom) : gather members (.atom a) = insert (.atom a) members := rfl

/-- The atoms stand in their fixed order, each once. -/
def Ascending (atoms : List Atom) : Prop := atoms.Pairwise fun a b => Atom.all.idxOf a < Atom.all.idxOf b

theorem eq_of_mem_iff {atoms others : List Atom} (h : Ascending atoms) (h' : Ascending others)
    (hmem : ∀ a, a ∈ atoms ↔ a ∈ others) : atoms = others := by
  have : Std.Irrefl fun a b : Atom => Atom.all.idxOf a < Atom.all.idxOf b := ⟨fun a => Nat.lt_irrefl _⟩
  have : Std.Antisymm fun a b : Atom => Atom.all.idxOf a < Atom.all.idxOf b :=
    ⟨fun a b hab hba => absurd hba (Nat.lt_asymm hab)⟩
  exact List.Pairwise.eq_of_mem_iff h h' hmem

theorem idxOf_inj {a b : Atom} (h : Atom.all.idxOf a = Atom.all.idxOf b) : a = b := by
  have ha : a ∈ Atom.all := by cases a <;> decide
  exact (List.idxOf_inj ha).mp h

theorem exists_insert (a : Atom) {atoms : List Atom} (h : Ascending atoms) :
    ∃ after : List Atom, insert (.atom a) (atoms.map .atom) = after.map .atom ∧ Ascending after ∧
      ∀ b, b ∈ after ↔ b = a ∨ b ∈ atoms := by
  induction atoms with
  | nil => exact ⟨[a], rfl, List.pairwise_singleton _ _, by simp⟩
  | cons c rest ih =>
    obtain ⟨hc, hrest⟩ := List.pairwise_cons.mp h
    rw [List.map_cons, insert, compare]
    rcases hcompare : Ord.compare (Atom.all.idxOf a) (Atom.all.idxOf c) with _ | _ | _
    · have hlt := Nat.compare_eq_lt.mp hcompare
      refine ⟨a :: c :: rest, rfl, List.pairwise_cons.mpr ⟨?_, h⟩, by simp⟩
      intro b hb
      rcases List.mem_cons.mp hb with rfl | hb
      · exact hlt
      · exact hlt.trans (hc b hb)
    · have heq : a = c := idxOf_inj (Nat.compare_eq_eq.mp hcompare)
      exact ⟨c :: rest, rfl, h, by simp [heq]⟩
    · have hgt := Nat.compare_eq_gt.mp hcompare
      obtain ⟨after, hinsert, hafter, hmem⟩ := ih hrest
      refine ⟨c :: after, by simp [hinsert], List.pairwise_cons.mpr ⟨?_, hafter⟩, ?_⟩
      · intro b hb
        rcases (hmem b).mp hb with rfl | hb
        · exact hgt
        · exact hc b hb
      · intro b
        rw [List.mem_cons, hmem, List.mem_cons]
        exact or_left_comm

/-- What has been gathered is an ordered set of atoms: those of the parts that were met. -/
theorem exists_gathered (parts : List (List Char)) {atoms : List Atom} (h : Ascending atoms) :
    ∃ after : List Atom, parts.foldl (fun members part => gather members (.atom (SemanticType.partAtom part)))
        (atoms.map .atom) = after.map .atom ∧ Ascending after ∧
      ∀ b, b ∈ after ↔ b ∈ atoms ∨ ∃ part ∈ parts, SemanticType.partAtom part = b := by
  induction parts generalizing atoms with
  | nil => exact ⟨atoms, rfl, h, by simp⟩
  | cons part rest ih =>
    obtain ⟨between, hinsert, hbetween, hmem⟩ := exists_insert (SemanticType.partAtom part) h
    obtain ⟨after, hfold, hafter, hmem'⟩ := ih hbetween
    refine ⟨after, ?_, hafter, fun b => ?_⟩
    · rw [List.foldl_cons, gather_atom, hinsert]
      exact hfold
    · rw [hmem', hmem, List.exists_mem_cons_iff, eq_comm, or_assoc]
      exact or_left_comm

theorem ascending_members (s : String) : Ascending (SemanticType.parse s).members := by
  apply List.Pairwise.sublist (SemanticType.proper_parse s).ordered
  decide

theorem parse_eq (s : String) : parse s = ofMembers ((SemanticType.parse s).members.map .atom) := by
  have hnil : Ascending [] := List.Pairwise.nil
  obtain ⟨after, hfold, hafter, hmem⟩ := exists_gathered (SemanticType.parts s) hnil
  have hsame : after = (SemanticType.parse s).members := by
    apply eq_of_mem_iff hafter (ascending_members s)
    intro a
    rw [hmem, SemanticType.mem_parse]
    simp
  rw [parse, ← hsame, ← hfold]
  rfl

theorem anyAccepts_atoms (atoms : List Atom) (v : Json) :
    anyAccepts (atoms.map .atom) v = atoms.any fun a => a.accepts v := by
  induction atoms with
  | nil => rfl
  | cons a rest ih => rw [List.map_cons, anyAccepts, accepts, ih, List.any_cons]

theorem displays_atoms (atoms : List Atom) : displays (atoms.map .atom) = atoms.map Atom.name := by
  induction atoms with
  | nil => rfl
  | cons a rest ih => rw [List.map_cons, displays, display, ih, List.map_cons]

/-- A type with a member is an atom, or a union of several. -/
theorem parse_cases (s : String) :
    (∃ a, (SemanticType.parse s).members = [a] ∧ parse s = .atom a) ∨
      2 ≤ (SemanticType.parse s).members.length ∧ parse s = .union ((SemanticType.parse s).members.map .atom) := by
  rw [parse_eq]
  rcases hmembers : (SemanticType.parse s).members with _ | ⟨a, _ | ⟨b, rest⟩⟩
  · exact absurd hmembers (SemanticType.proper_parse s).nonempty
  · exact .inl ⟨a, rfl, rfl⟩
  · exact .inr ⟨by simp, rfl⟩

theorem accepts_parse (s : String) (v : Json) : (parse s).accepts v = (SemanticType.parse s).accepts v := by
  rcases parse_cases s with ⟨a, hmembers, hparse⟩ | ⟨_, hparse⟩
  · rw [hparse, accepts, SemanticType.accepts, hmembers]
    simp
  · rw [hparse, accepts, anyAccepts_atoms, SemanticType.accepts]

theorem display_parse (s : String) : (parse s).display = (SemanticType.parse s).display := by
  rcases parse_cases s with ⟨a, hmembers, hparse⟩ | ⟨_, hparse⟩
  · rw [hparse, display, SemanticType.display, hmembers]
    simp [Text.join]
  · rw [hparse, display, displays_atoms, SemanticType.display]

end TypeTerm

/-! ### Declarations -/

namespace SemanticType

/-- A declaration as the union of its parts. -/
structure Unites (s : String) : Prop where
  /-- Gathered part by part it is an atom, or a union of two or more atoms with no union inside. -/
  shape : (∃ a, TypeTerm.parse s = .atom a) ∨
    ∃ atoms : List Atom, 2 ≤ atoms.length ∧ atoms.Nodup ∧ TypeTerm.parse s = .union (atoms.map .atom)
  accepted : ∀ v, (TypeTerm.parse s).accepts v = (parse s).accepts v
  displayed : (TypeTerm.parse s).display = (parse s).display
  /-- What is written of it is read back. -/
  again : parse (parse s).display = parse s ∧ TypeTerm.parse (TypeTerm.parse s).display = TypeTerm.parse s
  joined : ∀ t v, (parse (s ++ "|" ++ t)).accepts v = true ↔ (parse s).accepts v = true ∨ (parse t).accepts v = true
  /-- Order, repetition and the ways of writing a part do not show in it, and all else does. -/
  same_iff : ∀ t, parse s = parse t ↔
    (∀ part ∈ parts s, ∃ other ∈ parts t, Alike part other) ∧ ∀ other ∈ parts t, ∃ part ∈ parts s, Alike part other
  checked : ∀ v, (parse s).check v = .ok () ↔ ∃ part ∈ parts s, (partAtom part).accepts v = true

/-- Every declaration is the union of what its parts stand for, whatever their texts. -/
theorem declarations_unite (s : String) : Unites s where
  shape := by
    have hnodup : (parse s).members.Nodup := (proper_parse s).ordered.nodup (by decide)
    rcases TypeTerm.parse_cases s with ⟨a, _, hparse⟩ | ⟨hlength, hparse⟩
    · exact .inl ⟨a, hparse⟩
    · exact .inr ⟨_, hlength, hnodup, hparse⟩
  accepted v := TypeTerm.accepts_parse s v
  displayed := TypeTerm.display_parse s
  again := by
    have hread : parse (parse s).display = parse s := parse_display (proper_parse s)
    refine ⟨hread, ?_⟩
    rw [TypeTerm.display_parse, TypeTerm.parse_eq, hread, ← TypeTerm.parse_eq]
  joined t v := accepts_join s t v
  same_iff _ := parse_eq_iff
  checked _ := check_eq_ok_iff.trans accepts_parse

/-- Empty parts and unknown names widen a type. -/
example : (parse "Array| TEXT |list").display = "str|list" ∧ (parse "int||string").display = "str|int|any" := by
  decide +kernel

end SemanticType

end Workflow
